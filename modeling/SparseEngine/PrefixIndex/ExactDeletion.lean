import SparseEngine.PrefixIndex.RefCounts
import SparseEngine.Lib.Pruning

/-!
# What a deletion of a subtree takes

`preview_delete_subtree` goes through the selected subtree from its deepest
blocks up.  A child is one deeper than its parent, so the children of a block
are decided before it (`sortedIds_childrenFirst`), and the blocks it plans to
delete are the freeable ones: those that are idle with everything below them
(`planDelete_planned`).  What is freeable is closed under children, so the
plan is in an order in which leaf after leaf can be removed, and
`safe_delete_subtree` removes exactly that.
-/

namespace RadixPrefixIndex

open Routine Forest RadixTreeBackend

variable {Id Payload : Type} [LinearOrder Id]

/-! ## The selected subtree -/

/-- The full blocks of the token list are a path from the root of the tree down
to `root`. -/
def Selects (hash : List ℤ → Option Id → Id) (index : RadixPrefixIndex Id Payload)
    (tokenIds : List ℤ) (root : Id) : Prop :=
  IsRootPath (parentIn index.blocks) index.blocks.keys (index.blockIdsForTokens hash tokenIds none) ∧
    (index.blockIdsForTokens hash tokenIds none).getLast? = some root

section

variable {hash : List ℤ → Option Id → Id} {index : RadixPrefixIndex Id Payload} {tokenIds : List ℤ}

variable {root id : Id} {ids done : List Id} {blocks : Dict Id (PrefixCacheBlock Id Payload)}
  {planned : List (PrefixCacheBlock Id Payload)}

theorem Selects.mem_keys (h : Selects hash index tokenIds root) : root ∈ index.blocks.keys := by
  obtain ⟨front, hfront⟩ := List.getLast?_eq_some_iff.mp h.2
  have hpath := h.1
  rw [hfront] at hpath
  exact (hpath front.length root (by simp)).1

variable (hash tokenIds) in
theorem exactSubtreeIdsForTokens_eq (h : Inv index) :
    (∃ root ids, Selects hash index tokenIds root ∧
      index.exactSubtreeIdsForTokens hash tokenIds = .ok (some ids) ∧ ids.Nodup ∧
      ∀ d, d ∈ ids ↔ Descends (parentIn index.blocks) index.blocks.keys d root) ∨
    ((∀ root, ¬ Selects hash index tokenIds root) ∧ index.exactSubtreeIdsForTokens hash tokenIds = .ok none) := by
  unfold exactSubtreeIdsForTokens Selects
  dsimp only
  generalize index.blockIdsForTokens hash tokenIds none = blockIds
  by_cases hnil : blockIds = []
  · refine Or.inr ⟨fun root hselects => ?_, if_pos hnil⟩
    rw [hnil] at hselects
    exact nomatch hselects.2
  rw [if_neg hnil]
  obtain ⟨hle, hpath, hlongest, hlast⟩ := h.tree.lookup_eq blockIds blockIds.length
  rw [Int.toNat_natCast, List.take_length] at hle hlongest
  by_cases hwhole : (index.backend.lookup blockIds blockIds.length).hitBlockCount = blockIds.length
  · rw [hwhole, List.take_length] at hpath hlast
    obtain ⟨root, hroot⟩ : ∃ root, blockIds.getLast? = some root :=
      Option.isSome_iff_exists.mp (by simpa using hnil)
    rw [hlast, hroot]
    have hmem : root ∈ index.blocks.keys := by
      obtain ⟨front, hfront⟩ := List.getLast?_eq_some_iff.mp hroot
      rw [hfront] at hpath
      exact (hpath front.length root (by simp)).1
    obtain ⟨ids, hids, hnodup, hdescends⟩ :=
      h.tree.subtreeBlockIds_eq h.first index.blocks.keys_nodup hmem
    refine Or.inl ⟨root, ids, ⟨hpath, rfl⟩, ?_, hnodup, hdescends⟩
    simp [hwhole, hids, bind, Except.bind, pure, Except.pure]
  · refine Or.inr ⟨fun root hselects => hwhole ?_, ?_⟩
    · exact le_antisymm hle (hlongest blockIds.length le_rfl (by rw [List.take_length]; exact hselects.1))
    · split
      · rfl
      · rw [if_pos hwhole]

/-! ## The order of the plan -/

/-- The length of the path to a block. -/
def depth (index : RadixPrefixIndex Id Payload) (id : Id) : ℕ :=
  match index.backend.pathToBlock id with
  | .ok path => path.length
  | .error _ => 0

theorem depth_child (h : Inv index) {c p : Id} (hc : c ∈ index.blocks.keys)
    (hparent : parentIn index.blocks c = some p) : index.depth c = index.depth p + 1 := by
  have hp := h.tree.parent_mem hc hparent
  obtain ⟨path, hpath, hroot, hlast⟩ := h.tree.pathToBlock_eq h.first index.blocks.keys_nodup hc
  obtain ⟨above, habove, hrootAbove, hlastAbove⟩ :=
    h.tree.pathToBlock_eq h.first index.blocks.keys_nodup hp
  obtain ⟨front, rfl⟩ := List.getLast?_eq_some_iff.mp hlast
  obtain ⟨hfront, hend⟩ := hroot.of_concat
  have hsame : front = above := by
    refine hfront.eq_of_getLast? hrootAbove ?_
    rw [← hend, hparent, hlastAbove]
  rw [depth, depth, hpath, habove, hsame]
  exact List.length_append

/-- `sorted_ids` of `preview_delete_subtree`. -/
def sortedIds (index : RadixPrefixIndex Id Payload) (ids : List Id) : List Id :=
  ((ids.map fun id => (index.depth id, id)).insertionSort fun a b => b.1 ≤ a.1).map Prod.snd

theorem sortedIds_perm (ids : List Id) : (index.sortedIds ids).Perm ids := by
  have hperm := (List.perm_insertionSort (fun a b : ℕ × Id => b.1 ≤ a.1)
    (ids.map fun id => (index.depth id, id))).map Prod.snd
  rw [List.map_map] at hperm
  exact hperm.trans (by rw [show Prod.snd ∘ (fun id => (index.depth id, id)) = id from rfl, List.map_id])

theorem sortedIds_sorted (ids : List Id) :
    (index.sortedIds ids).Pairwise fun a b => index.depth b ≤ index.depth a := by
  have hsorted := List.pairwise_insertionSort (fun a b : ℕ × Id => b.1 ≤ a.1) (ids.map fun id => (index.depth id, id))
  refine List.pairwise_map.mpr (hsorted.imp_of_mem fun {a b} ha hb hle => ?_)
  have hdepth : ∀ entry ∈ (ids.map fun id => (index.depth id, id)).insertionSort fun a b => b.1 ≤ a.1,
      entry.1 = index.depth entry.2 := by
    intro entry hentry
    rw [List.mem_insertionSort, List.mem_map] at hentry
    obtain ⟨id, -, rfl⟩ := hentry
    rfl
  rw [← hdepth a ha, ← hdepth b hb]
  exact hle

/-- The sort keys of blocks. -/
theorem mapM_depth (h : Inv index) (hids : ∀ id ∈ ids, id ∈ index.blocks.keys) :
    (ids.mapM fun blockId => do
      return ((← index.backend.pathToBlock blockId).length, blockId) : Except PyError _) =
      .ok (ids.map fun id => (index.depth id, id)) := by
  induction ids with
  | nil => rfl
  | cons id rest ih =>
      rw [List.forall_mem_cons] at hids
      obtain ⟨path, hpath, -, -⟩ := h.tree.pathToBlock_eq h.first index.blocks.keys_nodup hids.1
      rw [List.mapM_cons, ih hids.2, hpath, List.map_cons, depth, hpath]
      rfl

/-- **Children first.** A child is deeper than its parent. -/
theorem sortedIds_childrenFirst (h : Inv index)
    (hids : ∀ d, d ∈ ids ↔ Descends (parentIn index.blocks) index.blocks.keys d root)
    (hroot : root ∈ index.blocks.keys) :
    ChildrenFirst (parentIn index.blocks) index.blocks.keys (index.sortedIds ids) := by
  have hmem (id : Id) : id ∈ index.sortedIds ids ↔ id ∈ ids := (sortedIds_perm ids).mem_iff
  have hkeys (id : Id) (hid : id ∈ index.sortedIds ids) : id ∈ index.blocks.keys :=
    ((hids id).mp ((hmem id).mp hid)).mem hroot
  refine ⟨fun x hx c hc hparent => ?_, ?_, fun x hx hparent => ?_⟩
  · rw [hmem, hids] at hx ⊢
    exact (Descends.of_parent hc hparent).trans hx
  · refine (sortedIds_sorted ids).imp_of_mem fun {a b} _ hb hle hparent => ?_
    have hdepth := depth_child h (hkeys b hb) hparent
    omega
  · have hdepth := depth_child h (hkeys x hx) hparent
    omega

/-! ## The plan -/

open Classical in
/-- Why a block of the subtree stays, by the first reason that applies. -/
noncomputable def blockedReason (blocks : Dict Id (PrefixCacheBlock Id Payload)) (id : Id) :
    Option String :=
  match blocks.get? id with
  | none => none
  | some block =>
      if 0 < block.refCount then some "referenced"
      else if block.evictionPriority < 0 then some "negative_priority"
      else if block.residency.transfer ≠ none then some "transfer_inflight"
      else if ∃ c ∈ blocks.keys, parentIn blocks c = some id ∧ ¬ FreeableIn blocks c then
        some "has_children"
      else none

open Classical in
theorem blockedReason_of_get? {block : PrefixCacheBlock Id Payload} (hget : blocks.get? id = some block) :
    blockedReason blocks id =
      if 0 < block.refCount then some "referenced"
      else if block.evictionPriority < 0 then some "negative_priority"
      else if block.residency.transfer ≠ none then some "transfer_inflight"
      else if ∃ c ∈ blocks.keys, parentIn blocks c = some id ∧ ¬ FreeableIn blocks c then
        some "has_children"
      else none := by
  rw [blockedReason, hget]

/-- The blocks that stay for no reason are the freeable ones. -/
theorem blockedReason_eq_none_iff (hcounts : CountsRefs index) (hid : id ∈ index.blocks.keys) :
    blockedReason index.blocks id = none ↔ FreeableIn index.blocks id := by
  obtain ⟨block, hget⟩ := Dict.mem_keys_iff.mp hid
  have hcount := hcounts id block hget
  have hprunable : FreeableIn index.blocks id ↔ IdleIn index.blocks id ∧
      ∀ c ∈ index.blocks.keys, parentIn index.blocks c = some id → FreeableIn index.blocks c :=
    Prunable.iff_children hid
  rw [hprunable, idleIn_iff_of_get? hget, blockedReason_of_get? hget]
  dsimp only [Idle]
  by_cases href : 0 < block.refCount
  · rw [if_pos href]
    simp only [reduceCtorEq, false_iff]
    omega
  by_cases hpriority : block.evictionPriority < 0
  · rw [if_neg href, if_pos hpriority]
    simp only [reduceCtorEq, false_iff]
    omega
  by_cases htransfer : block.residency.transfer ≠ none
  · rw [if_neg href, if_neg hpriority, if_pos htransfer]
    simp [htransfer]
  rw [if_neg href, if_neg hpriority, if_neg htransfer]
  have hidle : block.refCount = 0 ∧ 0 ≤ block.evictionPriority ∧ block.residency.transfer = none :=
    ⟨by omega, by omega, not_not.mp htransfer⟩
  simp [hidle]

/-- What the planning loop has after the blocks `done`. -/
structure Planned (index : RadixPrefixIndex Id Payload) (done : List Id)
    (plan : List (PrefixCacheBlock Id Payload) × List (PrefixCacheBlockedBlock Id) × Finset Id) :
    Prop where
  indexed : ∀ block ∈ plan.1, index.blocks.get? block.stableBlockId = some block
  deleted : plan.1.map (·.stableBlockId) =
    done.filter fun id => blockedReason index.blocks id = none
  blocked : plan.2.1 = done.filterMap fun id =>
    (blockedReason index.blocks id).map fun reason => ⟨some id, reason⟩
  planned : ∀ id, id ∈ plan.2.2 ↔ id ∈ done ∧ blockedReason index.blocks id = none

/-- The block is reported as blocked. -/
theorem Planned.block {plan : List (PrefixCacheBlock Id Payload) × List (PrefixCacheBlockedBlock Id) × Finset Id}
    (hplan : Planned index done plan) {reason : String} (hreason : blockedReason index.blocks id = some reason) :
    Planned index (done ++ [id]) (plan.1, plan.2.1 ++ [⟨some id, reason⟩], plan.2.2) where
  indexed := hplan.indexed
  deleted := by simp [hplan.deleted, hreason]
  blocked := by simp [hplan.blocked, hreason]
  planned x := by
    rw [hplan.planned x, List.mem_append, List.mem_singleton]
    constructor
    · exact fun hx => ⟨Or.inl hx.1, hx.2⟩
    · rintro ⟨hx | rfl, hnone⟩
      · exact ⟨hx, hnone⟩
      · rw [hreason] at hnone
        exact nomatch hnone

/-- The block is planned. -/
theorem Planned.plan {plan : List (PrefixCacheBlock Id Payload) × List (PrefixCacheBlockedBlock Id) × Finset Id}
    (hplan : Planned index done plan) {block : PrefixCacheBlock Id Payload}
    (hget : index.blocks.get? id = some block) (hid : block.stableBlockId = id)
    (hnone : blockedReason index.blocks id = none) :
    Planned index (done ++ [id]) (plan.1 ++ [block], plan.2.1, insert id plan.2.2) where
  indexed other hother := by
    rcases List.mem_append.mp hother with hother | hother
    · exact hplan.indexed other hother
    · obtain rfl := List.mem_singleton.mp hother
      rw [hid, hget]
  deleted := by simp [hplan.deleted, hnone, hid]
  blocked := by simp [hplan.blocked, hnone]
  planned x := by
    rw [Finset.mem_insert, hplan.planned x, List.mem_append, List.mem_singleton]
    constructor
    · rintro (rfl | hx)
      · exact ⟨Or.inr rfl, hnone⟩
      · exact ⟨Or.inl hx.1, hx.2⟩
    · rintro ⟨hx | rfl, hx'⟩
      · exact Or.inr ⟨hx, hx'⟩
      · exact Or.inl rfl

/-- **One round of the planning loop**, when the children of the block have been
decided. -/
theorem planDelete_planned (h : Inv index) (hcounts : CountsRefs index)
    {plan : List (PrefixCacheBlock Id Payload) × List (PrefixCacheBlockedBlock Id) × Finset Id}
    (hplan : Planned index done plan) (hid : id ∈ index.blocks.keys)
    (hchildren : ∀ c ∈ index.blocks.keys, parentIn index.blocks c = some id → c ∈ done) :
    ∃ next, index.planDelete plan id = .ok next ∧ Planned index (done ++ [id]) next := by
  obtain ⟨block, hget⟩ := Dict.mem_keys_iff.mp hid
  obtain ⟨children, hchild, -, -, hlisted⟩ := h.tree.childBlockIds_eq hid
  -- a child that is not planned is one that is not freeable
  have hwaits : (∃ c ∈ children, c ∉ plan.2.2) ↔
      ∃ c ∈ index.blocks.keys, parentIn index.blocks c = some id ∧ ¬ FreeableIn index.blocks c := by
    constructor
    · rintro ⟨c, hc, hnot⟩
      obtain ⟨hkey, hparent⟩ := (hlisted c).mp hc
      refine ⟨c, hkey, hparent, fun hfreeable => hnot ?_⟩
      exact (hplan.planned c).mpr ⟨hchildren c hkey hparent, (blockedReason_eq_none_iff hcounts hkey).mpr hfreeable⟩
    · rintro ⟨c, hkey, hparent, hnot⟩
      refine ⟨c, (hlisted c).mpr ⟨hkey, hparent⟩, fun hplanned => hnot ?_⟩
      exact (blockedReason_eq_none_iff hcounts hkey).mp ((hplan.planned c).mp hplanned).2
  obtain ⟨deleted, blocked, planned⟩ := plan
  have hreason := blockedReason_of_get? hget
  unfold planDelete
  dsimp only
  rw [hget]
  dsimp only
  by_cases href : 0 < block.refCount
  · rw [if_pos href] at hreason ⊢
    exact ⟨_, rfl, hplan.block hreason⟩
  rw [if_neg href] at hreason ⊢
  by_cases hpriority : block.evictionPriority < 0
  · rw [if_pos hpriority] at hreason ⊢
    exact ⟨_, rfl, hplan.block hreason⟩
  rw [if_neg hpriority] at hreason ⊢
  by_cases htransfer : block.residency.transfer ≠ none
  · rw [if_pos htransfer] at hreason ⊢
    exact ⟨_, rfl, hplan.block hreason⟩
  rw [if_neg htransfer] at hreason
  rw [if_neg htransfer, hchild]
  by_cases hwait : ∃ c ∈ children, c ∉ planned
  · rw [if_pos (hwaits.mp hwait)] at hreason
    exact ⟨_, if_pos hwait, hplan.block hreason⟩
  · rw [if_neg (hwaits.not.mp hwait)] at hreason
    exact ⟨_, if_neg hwait, hplan.plan hget (h.ids id block hget) hreason⟩

/-- The planning loop over blocks in a children-first order. -/
theorem planDelete_all (h : Inv index) (hcounts : CountsRefs index) {rest : List Id}
    (horder : ChildrenFirst (parentIn index.blocks) index.blocks.keys (done ++ rest))
    (hkeys : ∀ id ∈ rest, id ∈ index.blocks.keys)
    {plan : List (PrefixCacheBlock Id Payload) × List (PrefixCacheBlockedBlock Id) × Finset Id}
    (hplan : Planned index done plan) :
    ∃ next, rest.foldlM index.planDelete plan = .ok next ∧ Planned index (done ++ rest) next := by
  induction rest generalizing done plan with
  | nil => exact ⟨plan, rfl, by rwa [List.append_nil]⟩
  | cons id rest ih =>
      rw [List.forall_mem_cons] at hkeys
      obtain ⟨mid, hmid, hnext⟩ := planDelete_planned h hcounts hplan hkeys.1
        fun c hc hparent => horder.mem_before hc hparent
      have happend : done ++ id :: rest = done ++ [id] ++ rest := by simp
      rw [happend] at horder ⊢
      obtain ⟨next, hrun, hall⟩ := ih horder hkeys.2 hnext
      exact ⟨next, by rw [List.foldlM_cons, hmid]; exact hrun, hall⟩

/-! ## Carrying out the plan -/

/-- Idle blocks in a children-first order can be removed one after the other. -/
theorem deletable_of_childrenFirst (hindexed : ∀ block ∈ planned, blocks.get? block.stableBlockId = some block)
    (hidle : ∀ block ∈ planned, Idle block) (hnodup : (planned.map (·.stableBlockId)).Nodup)
    (horder : ChildrenFirst (parentIn blocks) blocks.keys (planned.map (·.stableBlockId))) :
    Deletable blocks planned := by
  induction planned generalizing blocks with
  | nil => exact .nil blocks
  | cons block rest ih =>
      rw [List.forall_mem_cons] at hindexed hidle
      rw [List.map_cons] at horder hnodup
      obtain ⟨hnew, hnodup⟩ := List.nodup_cons.mp hnodup
      have hne : ∀ id ∈ rest.map (·.stableBlockId), id ≠ block.stableBlockId := by
        rintro id hid rfl
        exact hnew hid
      refine .cons ⟨hindexed.1, hidle.1.1, hidle.1.2.1, hidle.1.2.2, horder.childless⟩ ?_
      refine ih (fun other hother => ?_) hidle.2 hnodup ?_
      · rw [Dict.get?_erase, if_neg (hne _ (List.mem_map_of_mem hother))]
        exact hindexed.2 other hother
      · have htail := horder.tail
        rw [← Dict.keys_erase] at htail
        have hparent (id : Id) (hid : id ≠ block.stableBlockId) :
            parentIn (blocks.erase block.stableBlockId) id = parentIn blocks id :=
          parentIn_erase_of_ne hid
        refine ⟨fun x hx c hc hcx => ?_, ?_, fun x hx hself => ?_⟩
        · rw [hparent c (Dict.mem_keys_erase.mp hc).2] at hcx
          exact htail.closed x hx c hc hcx
        · refine htail.order.imp_of_mem fun {a b} _ hb hnot hself => hnot ?_
          rw [hparent b (hne b hb)] at hself
          exact hself
        · rw [hparent x (hne x hx)] at hself
          exact htail.apart x hx hself

/-- **A plan that can be carried out is carried out.** -/
theorem deletePlanned_eq (h : Inv index) (hdeletable : Deletable index.blocks planned)
    (deleted : List (PrefixCacheBlock Id Payload)) :
    ∃ next, deletePlanned planned deleted index = (.ok (deleted ++ planned), next) ∧ Inv next ∧
      ∀ id, next.blocks.get? id = if id ∈ planned.map (·.stableBlockId) then none
        else index.blocks.get? id := by
  induction planned generalizing index deleted with
  | nil => exact ⟨index, by rw [List.append_nil]; rfl, h, fun id => by simp⟩
  | cons block rest ih =>
      cases hdeletable with
      | cons hremovable htail =>
          obtain ⟨mid, hremove, hmoves, hmid⟩ := removeBlockFromIndex_ready h hremovable
          rw [← hmid] at htail
          obtain ⟨next, hrun, hinv, hblocks⟩ := ih hmoves.inv htail (deleted ++ [block])
          have hindexed : index.IsIndexed block :=
            isIndexed_iff.mpr ⟨block, hremovable.indexed, rfl⟩
          refine ⟨next, ?_, hinv, fun id => ?_⟩
          · rw [deletePlanned, get_apply]
            rw [bind_apply, raiseIf_apply, if_neg (not_not.mpr hindexed)]
            dsimp only
            rw [bind_apply, hremove]
            dsimp only
            rw [hrun, List.append_assoc, List.singleton_append]
          · rw [hblocks, hmid, Dict.get?_erase, List.map_cons]
            by_cases hid : id = block.stableBlockId
            · simp [hid]
            · simp [hid]

/-! ## A selected subtree -/

/-- What `preview_delete_subtree` reports of a subtree. -/
structure Plans (index : RadixPrefixIndex Id Payload) (root : Id)
    (plan : PrefixCacheDeleteResult Id Payload) : Prop where
  indexed : ∀ block ∈ plan.deletedBlocks, index.blocks.get? block.stableBlockId = some block
  nodup : (plan.deletedBlocks.map (·.stableBlockId)).Nodup
  mem_deleted : ∀ id, id ∈ plan.deletedBlocks.map (·.stableBlockId) ↔
    Descends (parentIn index.blocks) index.blocks.keys id root ∧ FreeableIn index.blocks id
  order : ChildrenFirst (parentIn index.blocks) index.blocks.keys
    (plan.deletedBlocks.map (·.stableBlockId))
  nodup_blocked : (plan.blockedBlocks.map (·.blockId)).Nodup
  mem_blocked : ∀ entry, entry ∈ plan.blockedBlocks ↔ ∃ id reason, entry = ⟨some id, reason⟩ ∧
    Descends (parentIn index.blocks) index.blocks.keys id root ∧
      blockedReason index.blocks id = some reason

/-- The reports of different blocks differ in the block. -/
theorem nodup_reports (hnodup : ids.Nodup) :
    ((ids.filterMap fun id => (blockedReason blocks id).map fun reason =>
      (⟨some id, reason⟩ : PrefixCacheBlockedBlock Id)).map (·.blockId)).Nodup := by
  have hids : (ids.filterMap fun id => (blockedReason blocks id).map fun reason =>
      (⟨some id, reason⟩ : PrefixCacheBlockedBlock Id)).map (·.blockId) =
      (ids.filter fun id => (blockedReason blocks id).isSome).map some := by
    induction ids with
    | nil => rfl
    | cons id rest ih =>
        cases hreason : blockedReason blocks id with
        | none => simp [hreason, ih (List.nodup_cons.mp hnodup).2]
        | some reason => simp [hreason, ih (List.nodup_cons.mp hnodup).2]
  rw [hids]
  exact (hnodup.filter _).map (Option.some_injective Id)

/-- **The preview of a selected subtree.** -/
theorem previewDeleteSubtree_plans (h : Inv index) (hcounts : CountsRefs index) (hroot : root ∈ index.blocks.keys)
    (hexact : index.exactSubtreeIdsForTokens hash tokenIds = .ok (some ids)) (hnodup : ids.Nodup)
    (hids : ∀ d, d ∈ ids ↔ Descends (parentIn index.blocks) index.blocks.keys d root) :
    ∃ plan, index.previewDeleteSubtree hash tokenIds = .ok plan ∧ Plans index root plan := by
  have hmem (id : Id) : id ∈ index.sortedIds ids ↔ Descends (parentIn index.blocks) index.blocks.keys id root :=
    (sortedIds_perm ids).mem_iff.trans (hids id)
  have hkeys : ∀ id ∈ index.sortedIds ids, id ∈ index.blocks.keys :=
    fun id hid => ((hmem id).mp hid).mem hroot
  have hsorted : (index.sortedIds ids).Nodup := (sortedIds_perm ids).nodup_iff.mpr hnodup
  have horder := sortedIds_childrenFirst h hids hroot
  have hempty : Planned index [] ([], [], ∅) := ⟨by simp, rfl, rfl, by simp⟩
  obtain ⟨⟨deleted, blocked, planned⟩, hrun, hplan⟩ := planDelete_all h hcounts
    (List.nil_append (index.sortedIds ids) ▸ horder) hkeys hempty
  rw [List.nil_append] at hplan
  refine ⟨⟨deleted, blocked⟩, ?_, hplan.indexed, ?_, fun id => ?_, ?_, ?_, fun entry => ?_⟩
  · have hkeyed := mapM_depth h fun id hid => ((hids id).mp hid).mem hroot
    rw [sortedIds] at hrun
    simp only [previewDeleteSubtree, hexact, bind, Except.bind] at hkeyed ⊢
    rw [hkeyed]
    dsimp only
    rw [hrun]
    rfl
  · rw [hplan.deleted]
    exact hsorted.filter _
  · rw [hplan.deleted, List.mem_filter, hmem, decide_eq_true_eq]
    exact and_congr_right fun hd => blockedReason_eq_none_iff hcounts (hd.mem hroot)
  · -- what is freeable is freeable with all its children
    rw [hplan.deleted]
    refine horder.filter fun x hx hnone c hc hparent => ?_
    rw [decide_eq_true_eq, blockedReason_eq_none_iff hcounts (hkeys x hx)] at hnone
    rw [decide_eq_true_eq, blockedReason_eq_none_iff hcounts hc]
    exact ((Prunable.iff_children (hkeys x hx)).mp hnone).2 c hc hparent
  · rw [show blocked = _ from hplan.blocked]
    exact nodup_reports hsorted
  · rw [show blocked = _ from hplan.blocked, List.mem_filterMap]
    constructor
    · rintro ⟨id, hid, hreport⟩
      obtain ⟨reason, hreason, rfl⟩ := Option.map_eq_some_iff.mp hreport
      exact ⟨id, reason, rfl, (hmem id).mp hid, hreason⟩
    · rintro ⟨id, reason, rfl, hd, hreason⟩
      exact ⟨id, (hmem id).mpr hd, by rw [hreason]; rfl⟩

/-- The plan of a selected subtree can be carried out. -/
theorem Plans.deletable {plan : PrefixCacheDeleteResult Id Payload} (hplans : Plans index root plan) :
    Deletable index.blocks plan.deletedBlocks := by
  refine deletable_of_childrenFirst hplans.indexed (fun block hblock => ?_) hplans.nodup hplans.order
  have hfreeable := ((hplans.mem_deleted _).mp (List.mem_map_of_mem hblock)).2
  exact (idleIn_iff_of_get? (hplans.indexed block hblock)).mp (hfreeable.2 block.stableBlockId (Descends.refl _))

/-- **The deletion of a selected subtree.** -/
theorem safeDeleteSubtree_plans (h : Inv index) {plan : PrefixCacheDeleteResult Id Payload}
    (hpreview : index.previewDeleteSubtree hash tokenIds = .ok plan) (hplans : Plans index root plan) :
    ∃ next, safeDeleteSubtree hash tokenIds index = (.ok plan, next) ∧ Inv next ∧
      ∀ id, next.blocks.get? id = if id ∈ plan.deletedBlocks.map (·.stableBlockId) then none
        else index.blocks.get? id := by
  obtain ⟨next, hrun, hinv, hblocks⟩ := deletePlanned_eq h hplans.deletable []
  refine ⟨next, ?_, hinv, hblocks⟩
  rw [safeDeleteSubtree, get_apply]
  rw [bind_apply, ofExcept_apply, hpreview]
  dsimp only
  rw [bind_apply, hrun]
  rfl

end

end RadixPrefixIndex

namespace IndexOp

open RadixPrefixIndex Forest

variable {Id Payload : Type} [LinearOrder Id]

/-- The outcome of a deletion with nothing selected. -/
def notFound : PrefixCacheDeleteResult Id Payload := ⟨[], [⟨none, "not_found"⟩]⟩

/-- **A deletion takes exactly the freeable blocks of the subtree.** -/
theorem deletion_exact (hash : List ℤ → Option Id → Id) (blockSize : ℕ) (maxBlocks : Option ℤ)
    (ops : List (IndexOp Id Payload)) (hops : ∀ op ∈ ops, op.CountsRefs) (tokenIds : List ℤ) :
    let index := runAll hash (init blockSize maxBlocks) ops
    ∃ plan next, index.previewDeleteSubtree hash tokenIds = .ok plan ∧
      RadixPrefixIndex.safeDeleteSubtree hash tokenIds index = (.ok plan, next) ∧
      ((∀ root, ¬ Selects hash index tokenIds root) → plan = notFound ∧ next = index) ∧
      ∀ root, Selects hash index tokenIds root →
        (∀ block ∈ plan.deletedBlocks, index.blocks.get? block.stableBlockId = some block) ∧
        (plan.deletedBlocks.map (·.stableBlockId)).Nodup ∧
        (∀ id, id ∈ plan.deletedBlocks.map (·.stableBlockId) ↔
          Descends (parentIn index.blocks) index.blocks.keys id root ∧ FreeableIn index.blocks id) ∧
        (∀ before block after, plan.deletedBlocks = before ++ block :: after →
          ∀ c ∈ index.blocks.keys, parentIn index.blocks c = some block.stableBlockId →
            c ∈ before.map (·.stableBlockId)) ∧
        (plan.blockedBlocks.map (·.blockId)).Nodup ∧
        (∀ entry ∈ plan.blockedBlocks, ∃ id reason, entry = ⟨some id, reason⟩ ∧
          Descends (parentIn index.blocks) index.blocks.keys id root ∧
            ¬ FreeableIn index.blocks id ∧ blockedReason index.blocks id = some reason) ∧
        (∀ id, Descends (parentIn index.blocks) index.blocks.keys id root →
          ¬ FreeableIn index.blocks id → ∃ reason, ⟨some id, reason⟩ ∈ plan.blockedBlocks) ∧
        ∀ id, next.blocks.get? id =
          if id ∈ plan.deletedBlocks.map (·.stableBlockId) then none else index.blocks.get? id := by
  intro index
  have hinv : Inv index := runAll_inv ops (inv_init blockSize maxBlocks)
  have hcounts : index.CountsRefs := runAll_countsRefs (init_countsRefs blockSize maxBlocks) hops
  rcases exactSubtreeIdsForTokens_eq hash tokenIds hinv with
    ⟨root, ids, hselects, hexact, hnodup, hids⟩ | ⟨hnone, hexact⟩
  · obtain ⟨plan, hpreview, hplans⟩ :=
      previewDeleteSubtree_plans hinv hcounts hselects.mem_keys hexact hnodup hids
    obtain ⟨next, hdelete, -, hblocks⟩ := safeDeleteSubtree_plans hinv hpreview hplans
    refine ⟨plan, next, hpreview, hdelete, fun hnone => absurd hselects (hnone root), ?_⟩
    intro other hother
    have hsame : other = root := Option.some.inj (hother.2.symm.trans hselects.2)
    subst hsame
    -- with counts right, a block has a reason exactly when it is not freeable:
    have hreason (id : Id)
        (hd : Descends (parentIn index.blocks) index.blocks.keys id other) :
        blockedReason index.blocks id = none ↔ FreeableIn index.blocks id :=
      blockedReason_eq_none_iff hcounts (hd.mem hselects.mem_keys)
    refine ⟨hplans.indexed, hplans.nodup, hplans.mem_deleted, ?_, hplans.nodup_blocked, ?_, ?_, hblocks⟩
    · intro before block after hplan c hc hparent
      have horder := hplans.order
      rw [hplan, List.map_append, List.map_cons] at horder
      exact horder.mem_before hc hparent
    · intro entry hentry
      obtain ⟨id, reason, rfl, hd, hsome⟩ := (hplans.mem_blocked entry).mp hentry
      refine ⟨id, reason, rfl, hd, fun hfreeable => ?_, hsome⟩
      rw [(hreason id hd).mpr hfreeable] at hsome
      exact nomatch hsome
    · intro id hd hnot
      obtain ⟨reason, hsome⟩ := Option.ne_none_iff_exists'.mp (mt (hreason id hd).mp hnot)
      exact ⟨reason, (hplans.mem_blocked _).mpr ⟨id, reason, rfl, hd, hsome⟩⟩
  · have hpreview : index.previewDeleteSubtree hash tokenIds = .ok notFound := by
      rw [previewDeleteSubtree, hexact]
      rfl
    refine ⟨notFound, index, hpreview, ?_, fun _ => ⟨rfl, rfl⟩, fun root hselects => ?_⟩
    · rw [RadixPrefixIndex.safeDeleteSubtree, Routine.bind_apply, Routine.read_apply]
      dsimp only
      rw [Routine.bind_apply, Routine.ofExcept_apply, hpreview]
      rfl
    · exact absurd hselects (hnone root)

/-- The ids of a chain of blocks, counted from the root. -/
def countedId (_ : List ℤ) : Option ℕ → ℕ
  | none => 0
  | some parent => parent + 1

/-- The child is in use, and keeps its parent. -/
theorem deletion_exact_referenced_child :
    ∃ plan next,
      (runAll countedId (init 1 none)
        [.insertBlock backedUpParent, .insertBlock referencedChild]).previewDeleteSubtree
          countedId [5] = .ok plan ∧
      RadixPrefixIndex.safeDeleteSubtree countedId [5]
        (runAll countedId (init 1 none)
          [.insertBlock backedUpParent, .insertBlock referencedChild]) = (.ok plan, next) ∧
      plan.deletedBlocks = [] ∧ plan.blockedBlocks.length = 2 := by
  obtain ⟨plan, next, hpreview, hdelete, -⟩ := deletion_exact countedId 1 none
    [.insertBlock backedUpParent, .insertBlock referencedChild] (by simp [CountsRefs, backedUpParent,
      referencedChild]) [5]
  have hplan : (runAll countedId (init 1 none)
      [.insertBlock backedUpParent, .insertBlock referencedChild]).previewDeleteSubtree
        countedId [5] = .ok ⟨[], [⟨some 1, "referenced"⟩, ⟨some 0, "has_children"⟩]⟩ := by
    rfl
  obtain rfl := Except.ok.inj (hpreview.symm.trans hplan)
  exact ⟨_, next, hpreview, hdelete, rfl, rfl⟩

end IndexOp
