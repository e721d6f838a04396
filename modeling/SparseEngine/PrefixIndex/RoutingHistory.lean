import SparseEngine.PrefixIndex.RoutingHeap
import Mathlib.Data.Finset.Card

/-!
# Runs of the routing set

A run starts with the empty set and makes one call after the other on the
latest one, those that raise included.  The snapshots that readers hold are
the sets of earlier moments.  Each of them stays a balanced search tree with
exactly the ids that it had then, whatever is called later
(`routing_history`).
-/

/-- `_PrefixCacheRoutingMembership`, with a reference to its root. -/
structure StoredMembership where
  root : Option ℕ := none
  liveBlocks : ℤ := 0

namespace StoredMembership

open Routine NodeHeap

variable {Id : Type} [LinearOrder Id]

/-- `contains`. -/
def contains (membership : StoredMembership) (blockId : Id) : Routine (NodeHeap Id) Bool := do
  let heap ← read
  containsNode blockId heap.length membership.root

/-- `insert`.  A path is no longer than there are objects. -/
def insert (membership : StoredMembership) (blockId : Id) : Routine (NodeHeap Id) StoredMembership := do
  let heap ← read
  let (root, inserted) ← insertNode blockId (heap.length + 1) membership.root
  if inserted then pure ⟨some root, membership.liveBlocks + 1⟩
  else raise (.runtimeError "Prefix-cache routing membership already contains inserted block.")

/-- `remove`. -/
def remove (membership : StoredMembership) (blockId : Id) : Routine (NodeHeap Id) StoredMembership := do
  let heap ← read
  let (root, removed) ← removeNode blockId (heap.length + 1) membership.root
  if removed then pure ⟨root, membership.liveBlocks - 1⟩
  else raise (.runtimeError "Prefix-cache routing membership is missing removed block.")

end StoredMembership

/-- A call that changes the set. -/
inductive RoutingCall (Id : Type) where
  | insert (blockId : Id)
  | remove (blockId : Id)

namespace RoutingCall

variable {Id : Type} [LinearOrder Id]

/-- What the call does to a set. -/
def run (membership : StoredMembership) : RoutingCall Id → Routine (NodeHeap Id) StoredMembership
  | insert blockId => membership.insert blockId
  | remove blockId => membership.remove blockId

/-- The call inserts an absent id, or removes a present one. -/
def Fits (members : Finset Id) : RoutingCall Id → Prop
  | insert blockId => blockId ∉ members
  | remove blockId => blockId ∈ members

/-- What a call raises that does not fit. -/
def rejection : RoutingCall Id → PyError
  | insert _ => .runtimeError "Prefix-cache routing membership already contains inserted block."
  | remove _ => .runtimeError "Prefix-cache routing membership is missing removed block."

/-- The ids afterwards. -/
def apply (members : Finset Id) : RoutingCall Id → Finset Id
  | insert blockId => Insert.insert blockId members
  | remove blockId => members.erase blockId

/-- The ids inserted and not removed. -/
def members (calls : List (RoutingCall Id)) : Finset Id := calls.foldl apply ∅

/-- One call on the latest set.  A call that raises leaves it. -/
def step (state : NodeHeap Id × StoredMembership) (call : RoutingCall Id) : NodeHeap Id × StoredMembership :=
  match call.run state.2 state.1 with
  | (.ok next, heap) => (heap, next)
  | (.error _, heap) => (heap, state.2)

/-- The objects and the latest set after a run. -/
def history (calls : List (RoutingCall Id)) : NodeHeap Id × StoredMembership := calls.foldl step ([], {})

end RoutingCall

/-! ## Calls on objects and on trees -/

section Calls

open NodeHeap RoutingCall

variable {Id : Type} [LinearOrder Id] {heap : NodeHeap Id} {membership : StoredMembership} {tree : RoutingNode Id}
  {members : Finset Id}

/-- A stored set stands for a set of trees. -/
def SameMembership {Id : Type} (heap : NodeHeap Id) (stored : StoredMembership) (membership : RoutingMembership Id) :
    Prop :=
  Represents heap stored.root membership.root ∧ stored.liveBlocks = membership.liveBlocks

variable {membership' : RoutingMembership Id} {call : RoutingCall Id} {blockId : Id}

theorem insert_refines (h : SameMembership heap membership membership') (blockId : Id) :
    Refines SameMembership (membership.insert blockId) (membership'.insert blockId) heap := by
  have hdepth := h.1.depth_le h.1.lt_length
  refine .of_returns rfl (List.prefix_refl _) (.bind (insertNode_spec h.1 (Nat.lt_succ_of_le hdepth)) ?_)
  rintro ⟨root, inserted⟩ ⟨next, inserted'⟩ later - ⟨hroot, heq⟩
  obtain rfl : inserted = inserted' := heq
  dsimp only
  split
  · exact .pure ⟨hroot, congrArg (· + 1) h.2⟩
  · exact .raise _

theorem remove_refines (h : SameMembership heap membership membership') (blockId : Id) :
    Refines SameMembership (membership.remove blockId) (membership'.remove blockId) heap := by
  have hdepth := h.1.depth_le h.1.lt_length
  refine .of_returns rfl (List.prefix_refl _) (.bind (removeNode_spec h.1 (Nat.lt_succ_of_le hdepth)) ?_)
  rintro ⟨root, removed⟩ ⟨next, removed'⟩ later - ⟨hroot, heq⟩
  obtain rfl : removed = removed' := heq
  dsimp only
  split
  · exact .pure ⟨hroot, congrArg (· - 1) h.2⟩
  · exact .raise _

/-- The stored set is a balanced search tree with the members. -/
structure Keeps (heap : NodeHeap Id) (membership : StoredMembership) (members : Finset Id) (tree : RoutingNode Id) :
    Prop where
  represents : Represents heap membership.root tree
  avl : tree.Avl
  ordered : tree.Ordered
  mem_iff : ∀ blockId, blockId ∈ tree.inorder ↔ blockId ∈ members
  live : membership.liveBlocks = members.card

theorem Keeps.mono {later : NodeHeap Id} (hlater : heap <+: later) (h : Keeps heap membership members tree) :
    Keeps later membership members tree :=
  { h with represents := h.represents.mono hlater }

theorem Keeps.holds (h : Keeps heap membership members tree) :
    RoutingMembership.Holds ⟨tree, membership.liveBlocks⟩ tree.inorder := by
  refine ⟨h.avl, h.ordered, fun _ => Iff.rfl, ?_⟩
  have hmembers : members = tree.inorder.toFinset := by
    ext blockId
    rw [List.mem_toFinset, h.mem_iff]
  have hnodup : tree.inorder.Nodup := h.ordered.imp fun hlt => hlt.ne
  show membership.liveBlocks = _
  rw [h.live, hmembers, List.toFinset_card_of_nodup hnodup]

theorem Keeps.of_holds {keys : List Id} (hsame : SameMembership heap membership membership')
    (h : membership'.Holds keys) (hnodup : keys.Nodup) (hkeys : ∀ blockId, blockId ∈ keys ↔ blockId ∈ members) :
    Keeps heap membership members membership'.root := by
  refine ⟨hsame.1, h.avl, h.ordered, fun blockId => (h.mem_iff blockId).trans (hkeys blockId), ?_⟩
  have hmembers : members = keys.toFinset := by
    ext blockId
    rw [List.mem_toFinset, hkeys]
  rw [hsame.2, h.live, hmembers, List.toFinset_card_of_nodup hnodup]

/-- The ids of a set that a call leaves as it is. -/
theorem apply_of_not_fits (hnot : ¬ call.Fits members) : call.apply members = members := by
  cases call with
  | insert blockId => exact Finset.insert_eq_of_mem (not_not.mp hnot)
  | remove blockId => exact Finset.erase_eq_of_notMem hnot

section

variable (h : Keeps heap membership members tree)

include h

theorem Keeps.insert (hnew : blockId ∉ members) :
    ∃ next tree', (membership.insert blockId heap).1 = .ok next ∧
      Keeps (membership.insert blockId heap).2 next (Insert.insert blockId members) tree' := by
  have hnodup : tree.inorder.Nodup := h.ordered.imp fun hlt => hlt.ne
  have hnew' : blockId ∉ tree.inorder := mt (h.mem_iff blockId).mp hnew
  have hsame : SameMembership heap membership ⟨tree, membership.liveBlocks⟩ := ⟨h.represents, rfl⟩
  have hrefines := insert_refines hsame blockId
  obtain ⟨next, hrun, hnext⟩ := h.holds.insert hnew'
  rw [hrun] at hrefines
  obtain ⟨stored, later, hstored, -, hrep⟩ := hrefines.returns
  rw [hstored]
  refine ⟨stored, next.root, rfl, .of_holds hrep hnext ?_ fun other => ?_⟩
  · exact List.nodup_append.mpr ⟨hnodup, List.nodup_singleton _, fun first hfirst second hsecond heq =>
      hnew' (List.mem_singleton.mp hsecond ▸ heq ▸ hfirst)⟩
  · rw [List.mem_append, List.mem_singleton, Finset.mem_insert, h.mem_iff, or_comm]

theorem Keeps.remove (hmem : blockId ∈ members) :
    ∃ next tree', (membership.remove blockId heap).1 = .ok next ∧
      Keeps (membership.remove blockId heap).2 next (members.erase blockId) tree' := by
  have hnodup : tree.inorder.Nodup := h.ordered.imp fun hlt => hlt.ne
  have hsame : SameMembership heap membership ⟨tree, membership.liveBlocks⟩ := ⟨h.represents, rfl⟩
  have hrefines := remove_refines hsame blockId
  obtain ⟨next, hrun, hnext⟩ := h.holds.remove hnodup ((h.mem_iff blockId).mpr hmem)
  rw [hrun] at hrefines
  obtain ⟨stored, later, hstored, -, hrep⟩ := hrefines.returns
  rw [hstored]
  refine ⟨stored, next.root, rfl, .of_holds hrep hnext (hnodup.filter _) fun other => ?_⟩
  rw [List.mem_filter, decide_eq_true_eq, Finset.mem_erase, h.mem_iff, and_comm]

theorem Keeps.rejected (hnot : ¬ call.Fits members) :
    (call.run membership heap).1 = .error call.rejection := by
  have hsame : SameMembership heap membership ⟨tree, membership.liveBlocks⟩ := ⟨h.represents, rfl⟩
  cases call with
  | insert blockId =>
      have hrefines := insert_refines hsame blockId
      have hmem := (h.mem_iff blockId).mpr (not_not.mp hnot)
      rw [RoutingMembership.insert, RoutingNode.insert_of_mem h.ordered hmem] at hrefines
      exact hrefines.raises
  | remove blockId =>
      have hrefines := remove_refines hsame blockId
      have hmem : blockId ∉ tree.inorder := mt (h.mem_iff blockId).mp hnot
      rw [RoutingMembership.remove, RoutingNode.remove_of_not_mem h.ordered hmem] at hrefines
      exact hrefines.raises

/-- No call writes to an object. -/
theorem Keeps.grows (call : RoutingCall Id) : heap <+: (call.run membership heap).2 := by
  have hsame : SameMembership heap membership ⟨tree, membership.liveBlocks⟩ := ⟨h.represents, rfl⟩
  cases call with
  | insert blockId => exact (insert_refines hsame blockId).1
  | remove blockId => exact (remove_refines hsame blockId).1

/-- **One call** leads to the next set, or raises and changes nothing. -/
theorem Keeps.step (call : RoutingCall Id) :
    heap <+: (RoutingCall.step (heap, membership) call).1 ∧
      ∃ tree', Keeps (RoutingCall.step (heap, membership) call).1 (RoutingCall.step (heap, membership) call).2
        (call.apply members) tree' := by
  have hgrows := h.grows call
  unfold RoutingCall.step
  dsimp only
  by_cases hfits : call.Fits members
  · have hnext : ∃ next tree', (call.run membership heap).1 = .ok next ∧
        Keeps (call.run membership heap).2 next (call.apply members) tree' := by
      cases call with
      | insert blockId => exact h.insert hfits
      | remove blockId => exact h.remove hfits
    obtain ⟨next, tree', hrun, hkeeps⟩ := hnext
    generalize call.run membership heap = outcome at hgrows hrun hkeeps ⊢
    obtain ⟨result, later⟩ := outcome
    obtain rfl : result = .ok next := hrun
    exact ⟨hgrows, tree', hkeeps⟩
  · have hrun := h.rejected hfits
    generalize call.run membership heap = outcome at hgrows hrun ⊢
    obtain ⟨result, later⟩ := outcome
    obtain rfl : result = .error call.rejection := hrun
    refine ⟨hgrows, tree, ?_⟩
    rw [apply_of_not_fits hfits]
    exact h.mono hgrows

theorem Keeps.contains (blockId : Id) :
    membership.contains blockId heap = (.ok (decide (blockId ∈ members)), heap) := by
  unfold StoredMembership.contains
  rw [Routine.bind_apply, Routine.read_apply]
  dsimp only
  rw [containsNode_spec h.represents (h.represents.depth_le h.represents.lt_length)]
  have hdecide : tree.contains blockId = decide (blockId ∈ members) := by
    rw [Bool.eq_iff_iff, RoutingNode.contains_iff h.ordered, h.mem_iff, decide_eq_true_iff]
  rw [hdecide]

end

end Calls

namespace RoutingCall

variable {Id : Type} [LinearOrder Id]

/-- A run from a set that stands for a tree. -/
theorem foldl_keeps {state : NodeHeap Id × StoredMembership} {ids : Finset Id} {tree : RoutingNode Id}
    (h : Keeps state.1 state.2 ids tree) (calls : List (RoutingCall Id)) :
    state.1 <+: (calls.foldl step state).1 ∧
      ∃ tree', Keeps (calls.foldl step state).1 (calls.foldl step state).2 (calls.foldl apply ids) tree' := by
  induction calls generalizing state ids tree with
  | nil => exact ⟨List.prefix_refl _, tree, h⟩
  | cons call rest ih =>
      obtain ⟨hfirst, tree', hkeeps⟩ := h.step call
      obtain ⟨hrest, final⟩ := ih hkeeps
      exact ⟨hfirst.trans hrest, final⟩

/-- **Every snapshot of a run** stays the balanced search tree of the ids
inserted and not removed before it, whatever is called later, and a call on it
is rejected exactly when it inserts a present or removes an absent id. -/
theorem routing_history (earlier later : List (RoutingCall Id)) :
    ∃ tree : RoutingNode Id,
      Represents (history (earlier ++ later)).1 (history earlier).2.root tree ∧ tree.Avl ∧ tree.Ordered ∧
      (∀ blockId, blockId ∈ tree.inorder ↔ blockId ∈ members earlier) ∧
      (history earlier).2.liveBlocks = (members earlier).card ∧
      (∀ blockId, (history earlier).2.contains blockId (history (earlier ++ later)).1 =
        (.ok (decide (blockId ∈ members earlier)), (history (earlier ++ later)).1)) ∧
      ∀ call : RoutingCall Id,
        (¬ call.Fits (members earlier) →
          (call.run (history earlier).2 (history (earlier ++ later)).1).1 = .error call.rejection) ∧
        (call.Fits (members earlier) →
          ∃ next, (call.run (history earlier).2 (history (earlier ++ later)).1).1 = .ok next) := by
  have hempty : Keeps ([] : NodeHeap Id) {} ∅ .nil := by
    refine ⟨rfl, trivial, List.Pairwise.nil, fun blockId => ?_, rfl⟩
    simp [RoutingNode.inorder]
  obtain ⟨-, tree, htree⟩ := @foldl_keeps _ _ ([], {}) _ _ hempty earlier
  obtain ⟨hgrows, -⟩ := foldl_keeps htree later
  have hkeeps : Keeps (history (earlier ++ later)).1 (history earlier).2 (members earlier) tree := by
    unfold history
    rw [List.foldl_append]
    exact htree.mono hgrows
  refine ⟨tree, hkeeps.represents, hkeeps.avl, hkeeps.ordered, hkeeps.mem_iff, hkeeps.live, hkeeps.contains,
    fun call => ⟨hkeeps.rejected, fun hfits => ?_⟩⟩
  cases call with
  | insert blockId =>
      obtain ⟨next, -, hrun, -⟩ := hkeeps.insert hfits
      exact ⟨next, hrun⟩
  | remove blockId =>
      obtain ⟨next, -, hrun, -⟩ := hkeeps.remove hfits
      exact ⟨next, hrun⟩

end RoutingCall
