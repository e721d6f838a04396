import SparseEngine.PrefixIndex.RoutingMembership

/-!
# The routing set as objects

The nodes of `_PrefixCacheRoutingMembership` are frozen objects, and a tree is
a reference to one.  Here a reference is the number of an object, a mutation
makes new objects that refer to old ones, and no object is ever written.
`Represents` says which tree a reference stands for.  Insertion and removal do
on references what they do on trees (`insertNode_spec`, `removeNode_spec`),
and as they only add objects a reference stands for its tree for ever
(`Represents.mono`).
-/

/-- `_PrefixCacheRoutingMembershipNode`, with references to its children. -/
structure StoredNode (Id : Type) where
  blockId : Id
  left : Option ℕ
  right : Option ℕ
  height : ℕ

/-- All objects, by number. -/
abbrev NodeHeap (Id : Type) : Type := List (StoredNode Id)

namespace NodeHeap

open Routine

variable {Id : Type}

/-- A reference to no object. -/
def danglingError : PyError := .defined "ReferenceError" "weakly-referenced object no longer exists" none

/-- More calls than the interpreter allows. -/
def recursionError : PyError := .defined "RecursionError" "maximum recursion depth exceeded" none

/-- The object that is referred to. -/
def load (reference : ℕ) : Routine (NodeHeap Id) (StoredNode Id) := fun heap =>
  match heap[reference]? with
  | some node => (.ok node, heap)
  | none => (.error danglingError, heap)

/-- A new object. -/
def allocate (node : StoredNode Id) : Routine (NodeHeap Id) ℕ := fun heap => (.ok heap.length, heap ++ [node])

/-- `_routing_membership_height`. -/
def height (reference : Option ℕ) : Routine (NodeHeap Id) ℕ :=
  match reference with
  | none => pure 0
  | some reference => do
      let node ← load reference
      pure node.height

/-- `_make_routing_membership_node`. -/
def makeNode (blockId : Id) (left right : Option ℕ) : Routine (NodeHeap Id) ℕ := do
  let leftHeight ← height left
  let rightHeight ← height right
  allocate ⟨blockId, left, right, 1 + max leftHeight rightHeight⟩

/-- `_rotate_routing_membership_left`. -/
def rotateLeft (reference : ℕ) : Routine (NodeHeap Id) ℕ := do
  let node ← load reference
  match node.right with
  | none => raise (.runtimeError "Cannot rotate prefix-cache routing membership left.")
  | some right => do
      let pivot ← load right
      let moved ← makeNode node.blockId node.left pivot.left
      makeNode pivot.blockId (some moved) pivot.right

/-- `_rotate_routing_membership_right`. -/
def rotateRight (reference : ℕ) : Routine (NodeHeap Id) ℕ := do
  let node ← load reference
  match node.left with
  | none => raise (.runtimeError "Cannot rotate prefix-cache routing membership right.")
  | some left => do
      let pivot ← load left
      let moved ← makeNode node.blockId pivot.right node.right
      makeNode pivot.blockId pivot.left (some moved)

/-- `_balance_routing_membership`. -/
def balanceNode (reference : ℕ) : Routine (NodeHeap Id) ℕ := do
  let node ← load reference
  let leftHeight ← height node.left
  let rightHeight ← height node.right
  let balance : ℤ := leftHeight - rightHeight
  if balance > 1 then
    match node.left with
    | none => raise (.runtimeError "Invalid left-heavy prefix-cache routing membership.")
    | some leftReference => do
        let left ← load leftReference
        let outer ← height left.left
        let inner ← height left.right
        if outer < inner then do
          let rotated ← rotateLeft leftReference
          let updated ← makeNode node.blockId (some rotated) node.right
          rotateRight updated
        else rotateRight reference
  else if balance < -1 then
    match node.right with
    | none => raise (.runtimeError "Invalid right-heavy prefix-cache routing membership.")
    | some rightReference => do
        let right ← load rightReference
        let outer ← height right.right
        let inner ← height right.left
        if outer < inner then do
          let rotated ← rotateRight rightReference
          let updated ← makeNode node.blockId node.left (some rotated)
          rotateLeft updated
        else rotateLeft reference
  else pure reference

variable [LinearOrder Id]

/-- `_insert_routing_membership`, to a depth of calls. -/
def insertNode (blockId : Id) : ℕ → Option ℕ → Routine (NodeHeap Id) (ℕ × Bool)
  | 0, _ => raise recursionError
  | _ + 1, none => do
      let created ← allocate ⟨blockId, none, none, 1⟩
      pure (created, true)
  | depth + 1, some reference => do
      let node ← load reference
      if blockId = node.blockId then pure (reference, false)
      else if blockId < node.blockId then do
        let (left, inserted) ← insertNode blockId depth node.left
        if inserted then do
          let updated ← makeNode node.blockId (some left) node.right
          let balanced ← balanceNode updated
          pure (balanced, true)
        else pure (reference, false)
      else do
        let (right, inserted) ← insertNode blockId depth node.right
        if inserted then do
          let updated ← makeNode node.blockId node.left (some right)
          let balanced ← balanceNode updated
          pure (balanced, true)
        else pure (reference, false)

/-- `_minimum_routing_membership_node`, as the id of the node. -/
def minimumNode : ℕ → ℕ → Routine (NodeHeap Id) Id
  | 0, _ => raise recursionError
  | depth + 1, reference => do
      let node ← load reference
      match node.left with
      | none => pure node.blockId
      | some left => minimumNode depth left

/-- `_remove_routing_membership`, to a depth of calls. -/
def removeNode (blockId : Id) : ℕ → Option ℕ → Routine (NodeHeap Id) (Option ℕ × Bool)
  | 0, _ => raise recursionError
  | _ + 1, none => pure (none, false)
  | depth + 1, some reference => do
      let node ← load reference
      if blockId < node.blockId then do
        let (left, removed) ← removeNode blockId depth node.left
        if removed then do
          let updated ← makeNode node.blockId left node.right
          let balanced ← balanceNode updated
          pure (some balanced, true)
        else pure (some reference, false)
      else if node.blockId < blockId then do
        let (right, removed) ← removeNode blockId depth node.right
        if removed then do
          let updated ← makeNode node.blockId node.left right
          let balanced ← balanceNode updated
          pure (some balanced, true)
        else pure (some reference, false)
      else
        match node.left, node.right with
        | none, _ => pure (node.right, true)
        | _, none => pure (node.left, true)
        | some _, some rightReference => do
            let successor ← minimumNode depth rightReference
            let (right, removed) ← removeNode successor depth node.right
            if removed then do
              let updated ← makeNode successor node.left right
              let balanced ← balanceNode updated
              pure (some balanced, true)
            else raise (.runtimeError "Failed to remove prefix-cache routing membership successor.")

/-- `contains`, to a number of rounds. -/
def containsNode (blockId : Id) : ℕ → Option ℕ → Routine (NodeHeap Id) Bool
  | _, none => pure false
  | 0, some _ => raise recursionError
  | rounds + 1, some reference => do
      let node ← load reference
      if blockId = node.blockId then pure true
      else containsNode blockId rounds (if blockId < node.blockId then node.left else node.right)

end NodeHeap

/-! ## What a reference stands for -/

/-- The reference stands for the tree.  The objects below it were made before
it. -/
def Represents {Id : Type} (heap : NodeHeap Id) : Option ℕ → RoutingNode Id → Prop
  | reference, .nil => reference = none
  | reference, .node blockId left right height => ∃ number leftReference rightReference,
      reference = some number ∧ heap[number]? = some ⟨blockId, leftReference, rightReference, height⟩ ∧
        (∀ child ∈ leftReference, child < number) ∧ (∀ child ∈ rightReference, child < number) ∧
          Represents heap leftReference left ∧ Represents heap rightReference right

namespace Represents

variable {Id : Type} {heap later : NodeHeap Id} {reference : Option ℕ} {tree left right : RoutingNode Id}

/-- **A reference stands for its tree for ever**, as objects are only added. -/
theorem mono (hlater : heap <+: later) (h : Represents heap reference tree) : Represents later reference tree := by
  induction tree generalizing reference with
  | nil => exact h
  | node blockId left right height ihl ihr =>
      obtain ⟨number, leftReference, rightReference, rfl, hnode, hleft, hright, hl, hr⟩ := h
      refine ⟨number, leftReference, rightReference, rfl, ?_, hleft, hright, ihl hl, ihr hr⟩
      obtain ⟨more, rfl⟩ := hlater
      rw [List.getElem?_append_left (List.getElem?_eq_some_iff.mp hnode).1]
      exact hnode

theorem lt_length (h : Represents heap reference tree) : ∀ number ∈ reference, number < heap.length := by
  cases tree with
  | nil =>
      obtain rfl : reference = none := h
      exact nofun
  | node blockId left right height =>
      obtain ⟨number, _, _, rfl, hnode, -⟩ := h
      rintro other ⟨⟩
      exact (List.getElem?_eq_some_iff.mp hnode).1

/-- The longest path of a tree, in nodes. -/
def depth : RoutingNode Id → ℕ
  | .nil => 0
  | .node _ left right _ => 1 + max (depth left) (depth right)

/-- References get smaller on the way down, so that no path is longer than there
are objects. -/
theorem depth_le (h : Represents heap reference tree) {bound : ℕ} (hbound : ∀ number ∈ reference, number < bound) :
    depth tree ≤ bound := by
  induction tree generalizing reference bound with
  | nil => exact Nat.zero_le _
  | node blockId left right height ihl ihr =>
      obtain ⟨number, leftReference, rightReference, rfl, -, hleft, hright, hl, hr⟩ := h
      have hnumber := hbound number rfl
      have hdepthl := ihl hl hleft
      have hdepthr := ihr hr hright
      rw [depth]
      omega

end Represents

/-! ## Computations that only add objects -/

/-- The routine does on references what the result says of trees, and keeps all
objects. -/
def Refines {Id α β : Type} (rep : NodeHeap Id → α → β → Prop) (m : Routine (NodeHeap Id) α)
    (result : Except PyError β) (heap : NodeHeap Id) : Prop :=
  heap <+: (m heap).2 ∧
    match (m heap).1, result with
    | .ok a, .ok b => rep (m heap).2 a b
    | .error error, .error error' => error = error'
    | _, _ => False

namespace Refines

open Routine NodeHeap

variable {Id α β γ δ : Type} {rep : NodeHeap Id → α → β → Prop} {rep' : NodeHeap Id → γ → δ → Prop}
  {heap : NodeHeap Id}

variable {b : β} {m : Routine (NodeHeap Id) γ} {f : γ → Routine (NodeHeap Id) α}
  {result : Except PyError β} {node : StoredNode Id} {leftReference rightReference : Option ℕ}

theorem pure {a : α} (h : rep heap a b) : Refines rep (Pure.pure a) (.ok b) heap :=
  ⟨List.prefix_refl _, h⟩

theorem raise (error : PyError) : Refines rep (Routine.raise error) (.error error) heap :=
  ⟨List.prefix_refl _, rfl⟩

/-- A call that is known to return. -/
theorem of_returns {a : γ} {next : NodeHeap Id} (hrun : m heap = (.ok a, next))
    (hnext : heap <+: next) (h : Refines rep (f a) result next) :
    Refines rep (m >>= f) result heap := by
  unfold Refines
  rw [bind_apply, hrun]
  exact ⟨hnext.trans h.1, h.2⟩

theorem returns {m : Routine (NodeHeap Id) α} (h : Refines rep m (.ok b) heap) :
    ∃ a next, m heap = (.ok a, next) ∧ heap <+: next ∧ rep next a b := by
  obtain ⟨hnext, hm⟩ := h
  rcases hrun : m heap with ⟨error | a, next⟩ <;> rw [hrun] at hnext hm
  · exact hm.elim
  · exact ⟨a, next, rfl, hnext, hm⟩

theorem raises {m : Routine (NodeHeap Id) α} {error : PyError} (h : Refines rep m (.error error) heap) :
    (m heap).1 = .error error := by
  obtain ⟨-, hm⟩ := h
  rcases hrun : m heap with ⟨error' | a, next⟩ <;> rw [hrun] at hm
  · exact congrArg Except.error hm
  · exact hm.elim

theorem bind {first : Except PyError δ} {second : δ → Except PyError β} (hm : Refines rep' m first heap)
    (hf : ∀ a b next, heap <+: next → rep' next a b → Refines rep (f a) (second b) next) :
    Refines rep (m >>= f) (first >>= second) heap := by
  obtain ⟨hnext, hm⟩ := hm
  rcases hrun : m heap with ⟨error | a, next⟩ <;> rcases first with error' | b <;> rw [hrun] at hnext hm
  · unfold Refines
    rw [bind_apply, hrun]
    exact ⟨hnext, hm⟩
  · exact hm.elim
  · exact hm.elim
  · have hrest := hf a b next hnext hm
    unfold Refines
    rw [bind_apply, hrun]
    exact ⟨hnext.trans hrest.1, hrest.2⟩

theorem load_apply {number : ℕ} (hnode : heap[number]? = some node) :
    NodeHeap.load number heap = (.ok node, heap) := by
  unfold NodeHeap.load
  rw [hnode]

theorem load {f : StoredNode Id → Routine (NodeHeap Id) α} {number : ℕ}
    (hnode : heap[number]? = some node) (h : Refines rep (f node) result heap) :
    Refines rep (NodeHeap.load number >>= f) result heap :=
  of_returns (load_apply hnode) (List.prefix_refl _) h

theorem height_apply {reference : Option ℕ} {tree : RoutingNode Id} (h : Represents heap reference tree) :
    NodeHeap.height reference heap = (.ok tree.height, heap) := by
  cases tree with
  | nil =>
      obtain rfl : reference = none := h
      rfl
  | node blockId left right height =>
      obtain ⟨number, _, _, rfl, hnode, -⟩ := h
      show (NodeHeap.load number >>= fun node => Pure.pure node.height) heap = _
      rw [bind_apply, load_apply hnode]
      rfl

theorem height {f : ℕ → Routine (NodeHeap Id) α} {reference : Option ℕ} {tree : RoutingNode Id}
    (hrep : Represents heap reference tree) (h : Refines rep (f tree.height) result heap) :
    Refines rep (NodeHeap.height reference >>= f) result heap :=
  of_returns (height_apply hrep) (List.prefix_refl _) h

theorem makeNode_apply {blockId : Id} {left right : RoutingNode Id}
    (hleft : Represents heap leftReference left) (hright : Represents heap rightReference right) :
    ∃ next, makeNode blockId leftReference rightReference heap = (.ok heap.length, next) ∧ heap <+: next ∧
      Represents next (some heap.length) (RoutingNode.make blockId left right) := by
  refine ⟨heap ++ [⟨blockId, leftReference, rightReference, 1 + max left.height right.height⟩], ?_,
    List.prefix_append _ _, heap.length, leftReference, rightReference, rfl, List.getElem?_concat_length,
    hleft.lt_length, hright.lt_length, hleft.mono (List.prefix_append _ _), hright.mono (List.prefix_append _ _)⟩
  unfold makeNode
  rw [bind_apply, height_apply hleft]
  dsimp only
  rw [bind_apply, height_apply hright]
  rfl

theorem makeNode {f : ℕ → Routine (NodeHeap Id) α} {blockId : Id} {left right : RoutingNode Id}
    (hleft : Represents heap leftReference left) (hright : Represents heap rightReference right)
    (h : ∀ created next, heap <+: next → Represents next (some created) (RoutingNode.make blockId left right) →
      Refines rep (f created) result next) :
    Refines rep (NodeHeap.makeNode blockId leftReference rightReference >>= f) result heap := by
  obtain ⟨next, hrun, hnext, hrep⟩ := makeNode_apply hleft hright
  exact of_returns hrun hnext (h _ next hnext hrep)

end Refines

/-! ## Insertion and removal -/

namespace NodeHeap

open Refines

variable {Id : Type} {heap : NodeHeap Id} {number : ℕ} {blockId : Id} {left right : RoutingNode Id} {stored : ℕ}

/-- A reference to an object stands for the tree. -/
abbrev StandsFor {Id : Type} (heap : NodeHeap Id) (reference : ℕ) (tree : RoutingNode Id) : Prop :=
  Represents heap (some reference) tree

theorem makeNode_spec {leftReference rightReference : Option ℕ} (hleft : Represents heap leftReference left)
    (hright : Represents heap rightReference right) : Refines StandsFor (makeNode blockId leftReference rightReference)
      (.ok (RoutingNode.make blockId left right)) heap := by
  obtain ⟨next, hrun, hnext, hrep⟩ := makeNode_apply hleft hright
  unfold Refines
  rw [hrun]
  exact ⟨hnext, hrep⟩

theorem rotateLeft_spec (h : StandsFor heap number (.node blockId left right stored)) :
    Refines StandsFor (rotateLeft number) (RoutingNode.rotateLeft blockId left right) heap := by
  obtain ⟨_, leftReference, rightReference, ⟨⟩, hnode, -, -, hl, hr⟩ := h
  refine .load hnode ?_
  cases right with
  | nil =>
      obtain rfl : rightReference = none := hr
      exact .raise _
  | node pivotId pivotLeft pivotRight pivotHeight =>
      obtain ⟨pivot, pivotLeftReference, pivotRightReference, rfl, hpivot, -, -, hpl, hpr⟩ := hr
      exact .load hpivot (.makeNode hl hpl fun moved next hnext hmoved => makeNode_spec hmoved (hpr.mono hnext))

theorem rotateRight_spec (h : StandsFor heap number (.node blockId left right stored)) :
    Refines StandsFor (rotateRight number) (RoutingNode.rotateRight blockId left right) heap := by
  obtain ⟨_, leftReference, rightReference, ⟨⟩, hnode, -, -, hl, hr⟩ := h
  refine .load hnode ?_
  cases left with
  | nil =>
      obtain rfl : leftReference = none := hl
      exact .raise _
  | node pivotId pivotLeft pivotRight pivotHeight =>
      obtain ⟨pivot, pivotLeftReference, pivotRightReference, rfl, hpivot, -, -, hpl, hpr⟩ := hl
      exact .load hpivot (.makeNode hpr hr fun moved next hnext hmoved => makeNode_spec (hpl.mono hnext) hmoved)

/-- Balancing an object that was just made. -/
theorem balanceNode_spec (h : StandsFor heap number (RoutingNode.make blockId left right)) :
    Refines StandsFor (balanceNode number) (RoutingNode.balance blockId left right) heap := by
  have hnumber := h
  obtain ⟨_, leftReference, rightReference, ⟨⟩, hnode, -, -, hl, hr⟩ := h
  refine .load hnode (.height hl (.height hr ?_))
  unfold RoutingNode.balance
  dsimp only
  split
  · next hheavy =>
    cases left with
    | nil =>
        obtain rfl : leftReference = none := hl
        exact .raise _
    | node leftId leftLeft leftRight leftHeight =>
        have hleft := hl
        obtain ⟨child, outer, inner, rfl, hchild, -, -, houter, hinner⟩ := hl
        refine .load hchild (.height houter (.height hinner ?_))
        dsimp only
        split
        · refine .bind (rotateLeft_spec hleft) fun rotated tree next hnext hrotated => ?_
          exact .makeNode hrotated (hr.mono hnext) fun updated last _ hupdated => rotateRight_spec hupdated
        · exact rotateRight_spec hnumber
  · split
    · next hheavy =>
      cases right with
      | nil =>
          obtain rfl : rightReference = none := hr
          exact .raise _
      | node rightId rightLeft rightRight rightHeight =>
          have hright := hr
          obtain ⟨child, inner, outer, rfl, hchild, -, -, hinner, houter⟩ := hr
          refine .load hchild (.height houter (.height hinner ?_))
          dsimp only
          split
          · refine .bind (rotateRight_spec hright) fun rotated tree next hnext hrotated => ?_
            exact .makeNode (hl.mono hnext) hrotated fun updated last _ hupdated => rotateLeft_spec hupdated
          · exact rotateLeft_spec hnumber
    · exact .pure hnumber

variable [LinearOrder Id]

/-- **Insertion on references** is insertion on trees. -/
theorem insertNode_spec {reference : Option ℕ} {tree : RoutingNode Id} (h : Represents heap reference tree)
    {depth : ℕ} (hdepth : Represents.depth tree < depth) :
    Refines (fun heap result outcome => StandsFor heap result.1 outcome.1 ∧ result.2 = outcome.2)
      (insertNode blockId depth reference) (tree.insert blockId) heap := by
  induction tree generalizing heap reference depth with
  | nil =>
      obtain rfl : reference = none := h
      obtain ⟨depth, rfl⟩ := Nat.exists_eq_add_of_lt hdepth
      refine ⟨List.prefix_append _ _, ⟨heap.length, none, none, rfl, ?_, nofun, nofun, rfl, rfl⟩, rfl⟩
      exact List.getElem?_concat_length
  | node nodeId left right height ihl ihr =>
      obtain ⟨depth, rfl⟩ : ∃ rest, depth = rest + 1 := ⟨depth - 1, by omega⟩
      rw [Represents.depth] at hdepth
      have hnumber := h
      obtain ⟨number, leftReference, rightReference, rfl, hnode, -, -, hl, hr⟩ := h
      refine .load hnode ?_
      unfold RoutingNode.insert
      dsimp only
      split
      · exact .pure ⟨hnumber, rfl⟩
      · split
        · refine .bind (ihl hl (by omega)) ?_
          rintro ⟨result, inserted⟩ ⟨child, inserted'⟩ next hnext ⟨hchild, heq⟩
          obtain rfl : inserted = inserted' := heq
          dsimp only
          split
          · refine .makeNode hchild (hr.mono hnext) fun updated last _ hupdated => ?_
            exact .bind (balanceNode_spec hupdated) fun balanced tree final _ hbalanced => .pure ⟨hbalanced, rfl⟩
          · exact .pure ⟨hnumber.mono hnext, rfl⟩
        · refine .bind (ihr hr (by omega)) ?_
          rintro ⟨result, inserted⟩ ⟨child, inserted'⟩ next hnext ⟨hchild, heq⟩
          obtain rfl : inserted = inserted' := heq
          dsimp only
          split
          · refine .makeNode (hl.mono hnext) hchild fun updated last _ hupdated => ?_
            exact .bind (balanceNode_spec hupdated) fun balanced tree final _ hbalanced => .pure ⟨hbalanced, rfl⟩
          · exact .pure ⟨hnumber.mono hnext, rfl⟩

omit [LinearOrder Id] in
theorem minimumNode_spec (h : StandsFor heap number (.node blockId left right stored)) {depth : ℕ}
    (hdepth : Represents.depth (.node blockId left right stored) ≤ depth) :
    Refines (fun _ found id => found = id) (minimumNode depth number) (.ok (RoutingNode.minimum blockId left)) heap := by
  induction left generalizing number blockId right stored depth with
  | nil =>
      rw [Represents.depth] at hdepth
      obtain ⟨depth, rfl⟩ : ∃ rest, depth = rest + 1 := ⟨depth - 1, by omega⟩
      obtain ⟨_, leftReference, rightReference, ⟨⟩, hnode, -, -, hl, hr⟩ := h
      obtain rfl : leftReference = none := hl
      exact .load hnode (.pure rfl)
  | node leftId leftLeft leftRight leftHeight ihl _ =>
      rw [Represents.depth] at hdepth
      obtain ⟨depth, rfl⟩ : ∃ rest, depth = rest + 1 := ⟨depth - 1, by omega⟩
      obtain ⟨_, leftReference, rightReference, ⟨⟩, hnode, -, -, hl, hr⟩ := h
      have hleft := hl
      obtain ⟨child, _, _, rfl, -⟩ := hl
      exact .load hnode (ihl hleft (by omega))

/-- **Removal on references** is removal on trees. -/
theorem removeNode_spec {reference : Option ℕ} {tree : RoutingNode Id} (h : Represents heap reference tree)
    {depth : ℕ} (hdepth : Represents.depth tree < depth) :
    Refines (fun heap result outcome => Represents heap result.1 outcome.1 ∧ result.2 = outcome.2)
      (removeNode blockId depth reference) (tree.remove blockId) heap := by
  induction tree generalizing heap reference depth blockId with
  | nil =>
      obtain rfl : reference = none := h
      obtain ⟨depth, rfl⟩ := Nat.exists_eq_add_of_lt hdepth
      exact .pure ⟨rfl, rfl⟩
  | node nodeId left right height ihl ihr =>
      obtain ⟨depth, rfl⟩ : ∃ rest, depth = rest + 1 := ⟨depth - 1, by omega⟩
      rw [Represents.depth] at hdepth
      have hnumber := h
      obtain ⟨number, leftReference, rightReference, rfl, hnode, -, -, hl, hr⟩ := h
      refine .load hnode ?_
      unfold RoutingNode.remove
      dsimp only
      split
      · refine .bind (ihl hl (by omega)) ?_
        rintro ⟨result, removed⟩ ⟨child, removed'⟩ next hnext ⟨hchild, heq⟩
        obtain rfl : removed = removed' := heq
        dsimp only
        split
        · refine .makeNode hchild (hr.mono hnext) fun updated last _ hupdated => ?_
          exact .bind (balanceNode_spec hupdated) fun balanced tree final _ hbalanced => .pure ⟨hbalanced, rfl⟩
        · exact .pure ⟨hnumber.mono hnext, rfl⟩
      · split
        · refine .bind (ihr hr (by omega)) ?_
          rintro ⟨result, removed⟩ ⟨child, removed'⟩ next hnext ⟨hchild, heq⟩
          obtain rfl : removed = removed' := heq
          dsimp only
          split
          · refine .makeNode (hl.mono hnext) hchild fun updated last _ hupdated => ?_
            exact .bind (balanceNode_spec hupdated) fun balanced tree final _ hbalanced => .pure ⟨hbalanced, rfl⟩
          · exact .pure ⟨hnumber.mono hnext, rfl⟩
        · -- the node is the one to remove
          cases left with
          | nil =>
              obtain rfl : leftReference = none := hl
              exact .pure ⟨hr, rfl⟩
          | node leftId leftLeft leftRight leftHeight =>
              have hleft := hl
              obtain ⟨leftNumber, _, _, rfl, -⟩ := hl
              cases right with
              | nil =>
                  obtain rfl : rightReference = none := hr
                  exact .pure ⟨hleft, rfl⟩
              | node rightId rightLeft rightRight rightHeight =>
                  have hright := hr
                  obtain ⟨rightNumber, _, _, rfl, -⟩ := hr
                  rw [RoutingNode.isNone, if_neg (by decide), RoutingNode.isNone, if_neg (by decide)]
                  obtain ⟨successor, next, hrun, hnext, hsuccessor⟩ :=
                    (@minimumNode_spec _ _ _ _ _ _ _ hright depth (by omega)).returns
                  obtain rfl : successor = RoutingNode.minimum rightId rightLeft := hsuccessor
                  refine .of_returns hrun hnext (.bind (ihr (hright.mono hnext) (by omega)) ?_)
                  rintro ⟨result, removed⟩ ⟨child, removed'⟩ later hlater ⟨hchild, heq⟩
                  obtain rfl : removed = removed' := heq
                  dsimp only
                  split
                  · refine .makeNode (hleft.mono (hnext.trans hlater)) hchild fun updated last _ hupdated => ?_
                    exact .bind (balanceNode_spec hupdated) fun balanced tree final _ hbalanced =>
                      .pure ⟨hbalanced, rfl⟩
                  · exact .raise _

/-- **The lookup on references** is that in the tree. -/
theorem containsNode_spec {reference : Option ℕ} {tree : RoutingNode Id} (h : Represents heap reference tree)
    {rounds : ℕ} (hrounds : Represents.depth tree ≤ rounds) :
    containsNode blockId rounds reference heap = (.ok (tree.contains blockId), heap) := by
  induction tree generalizing reference rounds with
  | nil =>
      obtain rfl : reference = none := h
      cases rounds <;> rfl
  | node nodeId left right height ihl ihr =>
      rw [Represents.depth] at hrounds
      obtain ⟨rounds, rfl⟩ : ∃ rest, rounds = rest + 1 := ⟨rounds - 1, by omega⟩
      obtain ⟨number, leftReference, rightReference, rfl, hnode, -, -, hl, hr⟩ := h
      rw [containsNode, Routine.bind_apply, load_apply hnode, RoutingNode.contains]
      dsimp only
      split
      · rfl
      · split
        · exact ihl hl (by omega)
        · exact ihr hr (by omega)

end NodeHeap
