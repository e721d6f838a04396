import SparseEngine.Lib.Routine
import Mathlib.Data.List.Nodup
import Mathlib.Tactic.Linarith

/-!
# The persistent routing set

`_PrefixCacheRoutingMembership` of `prefix_cache.py`: an immutable AVL tree of
block ids with a separate element counter.  A mutation builds a new root and
leaves the old one as it was, so a tree is a plain value here.

`Avl` says that the stored heights are right and that the tree is balanced;
`inorder` lists the ids from left to right.  On a valid tree `insert` and
`remove` change that list by exactly one id and never raise from a rotation.
-/

/-- `_PrefixCacheRoutingMembershipNode | None`. -/
inductive RoutingNode (Id : Type) where
  | nil
  | node (blockId : Id) (left right : RoutingNode Id) (height : ℕ)
  deriving DecidableEq

namespace RoutingNode

variable {Id : Type}

/-- `_routing_membership_height`. -/
def height : RoutingNode Id → ℕ
  | nil => 0
  | node _ _ _ height => height

/-- `_make_routing_membership_node`. -/
def make (blockId : Id) (left right : RoutingNode Id) : RoutingNode Id :=
  node blockId left right (1 + max left.height right.height)

/-- `_rotate_routing_membership_left`. -/
def rotateLeft (blockId : Id) (left : RoutingNode Id) :
    RoutingNode Id → Except PyError (RoutingNode Id)
  | nil => .error (.runtimeError "Cannot rotate prefix-cache routing membership left.")
  | node pivotId pivotLeft pivotRight _ =>
      .ok (make pivotId (make blockId left pivotLeft) pivotRight)

/-- `_rotate_routing_membership_right`. -/
def rotateRight (blockId : Id) (left right : RoutingNode Id) :
    Except PyError (RoutingNode Id) :=
  match left with
  | nil => .error (.runtimeError "Cannot rotate prefix-cache routing membership right.")
  | node pivotId pivotLeft pivotRight _ =>
      .ok (make pivotId pivotLeft (make blockId pivotRight right))

/-- `_balance_routing_membership`, on the fields of the node. -/
def balance (blockId : Id) (left right : RoutingNode Id) : Except PyError (RoutingNode Id) :=
  let difference : ℤ := left.height - right.height
  if difference > 1 then
    match left with
    | nil => .error (.runtimeError "Invalid left-heavy prefix-cache routing membership.")
    | node leftId leftLeft leftRight _ =>
        if leftLeft.height < leftRight.height then do
          rotateRight blockId (← rotateLeft leftId leftLeft leftRight) right
        else rotateRight blockId left right
  else if difference < -1 then
    match right with
    | nil => .error (.runtimeError "Invalid right-heavy prefix-cache routing membership.")
    | node rightId rightLeft rightRight _ =>
        if rightRight.height < rightLeft.height then do
          rotateLeft blockId left (← rotateRight rightId rightLeft rightRight)
        else rotateLeft blockId left right
  else .ok (make blockId left right)

variable [LinearOrder Id]

/-- `_insert_routing_membership`.  The second component is `inserted`. -/
def insert (blockId : Id) : RoutingNode Id → Except PyError (RoutingNode Id × Bool)
  | nil => .ok (node blockId nil nil 1, true)
  | node nodeId left right height =>
      if blockId = nodeId then .ok (node nodeId left right height, false)
      else if blockId < nodeId then do
        let (left', inserted) ← insert blockId left
        if inserted then return (← balance nodeId left' right, true)
        else return (node nodeId left right height, false)
      else do
        let (right', inserted) ← insert blockId right
        if inserted then return (← balance nodeId left right', true)
        else return (node nodeId left right height, false)

/-- `node is None`. -/
def isNone : RoutingNode Id → Bool
  | nil => true
  | node _ _ _ _ => false

/-- `_minimum_routing_membership_node(node).block_id`.  `found` is the id of the
node above. -/
def minimum (found : Id) : RoutingNode Id → Id
  | nil => found
  | node blockId left _ _ => minimum blockId left

/-- `_remove_routing_membership`.  The second component is `removed`. -/
def remove (blockId : Id) : RoutingNode Id → Except PyError (RoutingNode Id × Bool)
  | nil => .ok (nil, false)
  | node nodeId left right height =>
      if blockId < nodeId then do
        let (left', removed) ← remove blockId left
        if removed then return (← balance nodeId left' right, true)
        else return (node nodeId left right height, false)
      else if nodeId < blockId then do
        let (right', removed) ← remove blockId right
        if removed then return (← balance nodeId left right', true)
        else return (node nodeId left right height, false)
      else if left.isNone then .ok (right, true)
      else if right.isNone then .ok (left, true)
      else do
        let successor := minimum nodeId right
        let (right', removed) ← remove successor right
        if removed then return (← balance successor left right', true)
        else throw (.runtimeError "Failed to remove prefix-cache routing membership successor.")

/-- `contains`. -/
def contains (blockId : Id) : RoutingNode Id → Bool
  | nil => false
  | node nodeId left right _ =>
      if blockId = nodeId then true
      else if blockId < nodeId then contains blockId left
      else contains blockId right

end RoutingNode

/-- `_PrefixCacheRoutingMembership`. -/
structure RoutingMembership (Id : Type) where
  root : RoutingNode Id := .nil
  liveBlocks : ℤ := 0

namespace RoutingMembership

variable {Id : Type} [LinearOrder Id]

/-- `contains`. -/
def contains (membership : RoutingMembership Id) (blockId : Id) : Bool :=
  membership.root.contains blockId

/-- `insert`. -/
def insert (membership : RoutingMembership Id) (blockId : Id) :
    Except PyError (RoutingMembership Id) := do
  let (root, inserted) ← membership.root.insert blockId
  if inserted then return ⟨root, membership.liveBlocks + 1⟩
  else throw (.runtimeError "Prefix-cache routing membership already contains inserted block.")

/-- `remove`. -/
def remove (membership : RoutingMembership Id) (blockId : Id) :
    Except PyError (RoutingMembership Id) := do
  let (root, removed) ← membership.root.remove blockId
  if removed then return ⟨root, membership.liveBlocks - 1⟩
  else throw (.runtimeError "Prefix-cache routing membership is missing removed block.")

end RoutingMembership

namespace RoutingNode

variable {Id : Type}

/-! ## Valid trees -/

/-- The ids from left to right. -/
def inorder : RoutingNode Id → List Id
  | nil => []
  | node blockId left right _ => left.inorder ++ blockId :: right.inorder

/-- The stored heights are right and siblings differ by at most one. -/
def Avl : RoutingNode Id → Prop
  | nil => True
  | node _ left right height =>
      left.Avl ∧ right.Avl ∧ height = 1 + max left.height right.height ∧
        left.height ≤ right.height + 1 ∧ right.height ≤ left.height + 1

@[simp] theorem height_nil : (nil : RoutingNode Id).height = 0 := rfl

@[simp] theorem height_node (blockId : Id) (left right : RoutingNode Id) (h : ℕ) :
    (node blockId left right h).height = h := rfl

@[simp] theorem inorder_make (blockId : Id) (left right : RoutingNode Id) :
    (make blockId left right).inorder = left.inorder ++ blockId :: right.inorder := rfl

@[simp] theorem height_make (blockId : Id) (left right : RoutingNode Id) :
    (make blockId left right).height = 1 + max left.height right.height := rfl

variable {blockId nodeId : Id} {left right tree : RoutingNode Id} {h : ℕ}

theorem avl_make :
    (make blockId left right).Avl ↔
      left.Avl ∧ right.Avl ∧ left.height ≤ right.height + 1 ∧ right.height ≤ left.height + 1 := by
  simp [make, Avl]

/-- **Balancing.** Two valid trees whose heights differ by at most two are
joined to a valid one with the same ids, at most one higher than the higher of
them. -/
theorem balance_spec (blockId : Id) (hleft : left.Avl) (hright : right.Avl)
    (hlr : left.height ≤ right.height + 2) (hrl : right.height ≤ left.height + 2) :
    ∃ tree, balance blockId left right = .ok tree ∧ tree.Avl ∧
      tree.inorder = left.inorder ++ blockId :: right.inorder ∧
      tree.height ≤ 1 + max left.height right.height ∧ max left.height right.height ≤ tree.height ∧
      (left.height ≤ right.height + 1 → right.height ≤ left.height + 1 →
        tree.height = 1 + max left.height right.height) := by
  by_cases hheavy : (left.height : ℤ) - right.height > 1
  · -- left-heavy: one rotation to the right, after one to the left below when needed
    cases left with
    | nil =>
        simp only [height_nil] at hheavy
        omega
    | node leftId leftLeft leftRight leftHeight =>
        obtain ⟨hll, hlr', hh, hb1, hb2⟩ := hleft
        simp only [height_node] at hheavy hlr hrl
        by_cases hinner : leftLeft.height < leftRight.height
        · cases leftRight with
          | nil => exact absurd hinner (Nat.not_lt_zero _)
          | node pivotId pivotLeft pivotRight pivotHeight =>
              obtain ⟨hpl, hpr, hph, hpb1, hpb2⟩ := hlr'
              simp only [height_node] at hinner hh hb1 hb2
              refine ⟨make pivotId (make leftId leftLeft pivotLeft) (make blockId pivotRight right),
                ?_, ?_, ?_, ?_, ?_, ?_⟩
              · simp [balance, rotateLeft, rotateRight, hheavy, hinner, make, bind, Except.bind]
              · simp only [avl_make, height_make]
                exact ⟨⟨hll, hpl, by omega, by omega⟩, ⟨hpr, hright, by omega, by omega⟩, by omega, by omega⟩
              · simp [inorder]
              · simp only [height_make, height_node]
                omega
              · simp only [height_make, height_node]
                omega
              · simp only [height_node]
                omega
        · refine ⟨make leftId leftLeft (make blockId leftRight right), ?_, ?_, ?_, ?_, ?_, ?_⟩
          · simp [balance, rotateRight, hheavy, hinner]
          · simp only [avl_make, height_make]
            exact ⟨hll, ⟨hlr', hright, by omega, by omega⟩, by omega, by omega⟩
          · simp [inorder]
          · simp only [height_make, height_node]
            omega
          · simp only [height_make, height_node]
            omega
          · simp only [height_node]
            omega
  · by_cases hheavy' : (left.height : ℤ) - right.height < -1
    · -- right-heavy: the mirror image
      cases right with
      | nil =>
          simp only [height_nil] at hheavy'
          omega
      | node rightId rightLeft rightRight rightHeight =>
          obtain ⟨hrl', hrr, hh, hb1, hb2⟩ := hright
          simp only [height_node] at hheavy hheavy' hlr hrl
          by_cases hinner : rightRight.height < rightLeft.height
          · cases rightLeft with
            | nil => exact absurd hinner (Nat.not_lt_zero _)
            | node pivotId pivotLeft pivotRight pivotHeight =>
                obtain ⟨hpl, hpr, hph, hpb1, hpb2⟩ := hrl'
                simp only [height_node] at hinner hh hb1 hb2
                refine ⟨make pivotId (make blockId left pivotLeft)
                  (make rightId pivotRight rightRight), ?_, ?_, ?_, ?_, ?_, ?_⟩
                · simp [balance, rotateLeft, rotateRight, hheavy, hheavy', hinner, make, bind, Except.bind]
                · simp only [avl_make, height_make]
                  exact ⟨⟨hleft, hpl, by omega, by omega⟩, ⟨hpr, hrr, by omega, by omega⟩, by omega, by omega⟩
                · simp [inorder]
                · simp only [height_make, height_node]
                  omega
                · simp only [height_make, height_node]
                  omega
                · simp only [height_node]
                  omega
          · refine ⟨make rightId (make blockId left rightLeft) rightRight, ?_, ?_, ?_, ?_, ?_, ?_⟩
            · simp [balance, rotateLeft, hheavy, hheavy', hinner]
            · simp only [avl_make, height_make]
              exact ⟨⟨hleft, hrl', by omega, by omega⟩, hrr, by omega, by omega⟩
            · simp [inorder]
            · simp only [height_make, height_node]
              omega
            · simp only [height_make, height_node]
              omega
            · simp only [height_node]
              omega
    · refine ⟨make blockId left right, ?_, ?_, ?_, ?_, ?_, ?_⟩
      · simp [balance, hheavy, hheavy']
      · rw [avl_make]
        exact ⟨hleft, hright, by omega, by omega⟩
      · rfl
      · rw [height_make]
      · rw [height_make]
        omega
      · intro _ _
        rw [height_make]

/-! ## Insertion -/

/-- A search tree lists its ids in increasing order. -/
def Ordered [LT Id] (tree : RoutingNode Id) : Prop := tree.inorder.Pairwise (· < ·)

variable [LinearOrder Id]

theorem ordered_node :
    (node blockId left right h).Ordered ↔
      left.Ordered ∧ right.Ordered ∧ (∀ x ∈ left.inorder, x < blockId) ∧ ∀ x ∈ right.inorder, blockId < x := by
  simp only [Ordered, inorder, List.pairwise_append, List.pairwise_cons, List.mem_cons]
  constructor
  · rintro ⟨hl, ⟨hbr, hr⟩, hlr⟩
    exact ⟨hl, hr, fun x hx => hlr x hx blockId (Or.inl rfl), hbr⟩
  · rintro ⟨hl, hr, hlb, hbr⟩
    refine ⟨hl, ⟨hbr, hr⟩, fun x hx y hy => ?_⟩
    rcases hy with rfl | hy
    · exact hlb x hx
    · exact (hlb x hx).trans (hbr y hy)

theorem not_mem_right (hordered : (node nodeId left right h).Ordered) (hlt : blockId < nodeId) :
    blockId ∈ (node nodeId left right h).inorder ↔ blockId ∈ left.inorder := by
  obtain ⟨-, -, -, hright⟩ := ordered_node.mp hordered
  simp only [inorder, List.mem_append, List.mem_cons]
  constructor
  · rintro (hmem | rfl | hmem)
    · exact hmem
    · exact absurd hlt (lt_irrefl _)
    · exact absurd (hright blockId hmem) (not_lt_of_gt hlt)
  · exact Or.inl

theorem not_mem_left (hordered : (node nodeId left right h).Ordered) (hlt : nodeId < blockId) :
    blockId ∈ (node nodeId left right h).inorder ↔ blockId ∈ right.inorder := by
  obtain ⟨-, -, hleft, -⟩ := ordered_node.mp hordered
  simp only [inorder, List.mem_append, List.mem_cons]
  constructor
  · rintro (hmem | rfl | hmem)
    · exact absurd (hleft blockId hmem) (not_lt_of_gt hlt)
    · exact absurd hlt (lt_irrefl _)
    · exact hmem
  · exact fun hmem => Or.inr (Or.inr hmem)

theorem contains_iff (hordered : tree.Ordered) (blockId : Id) :
    tree.contains blockId = true ↔ blockId ∈ tree.inorder := by
  induction tree with
  | nil => simp [contains, inorder]
  | node nodeId left right h ihl ihr =>
      obtain ⟨hl, hr, -, -⟩ := ordered_node.mp hordered
      rw [contains]
      rcases lt_trichotomy blockId nodeId with hlt | rfl | hgt
      · rw [if_neg hlt.ne, if_pos hlt, ihl hl, not_mem_right hordered hlt]
      · simp [inorder]
      · rw [if_neg hgt.ne', if_neg (not_lt_of_gt hgt), ihr hr, not_mem_left hordered hgt]

theorem insert_of_mem (hordered : tree.Ordered) (hmem : blockId ∈ tree.inorder) :
    tree.insert blockId = .ok (tree, false) := by
  induction tree with
  | nil => simp [inorder] at hmem
  | node nodeId left right h ihl ihr =>
      obtain ⟨hl, hr, -, -⟩ := ordered_node.mp hordered
      rcases lt_trichotomy blockId nodeId with hlt | rfl | hgt
      · rw [insert, if_neg hlt.ne, if_pos hlt, ihl hl ((not_mem_right hordered hlt).mp hmem)]
        rfl
      · rw [insert, if_pos rfl]
      · rw [insert, if_neg hgt.ne', if_neg (not_lt_of_gt hgt), ihr hr ((not_mem_left hordered hgt).mp hmem)]
        rfl

/-- **Inserting a new id** puts it in its place and keeps the tree valid. -/
theorem insert_of_not_mem (havl : tree.Avl) (hordered : tree.Ordered) (hnew : blockId ∉ tree.inorder) :
    ∃ next, tree.insert blockId = .ok (next, true) ∧ next.Avl ∧
      (∃ before after, tree.inorder = before ++ after ∧ next.inorder = before ++ blockId :: after ∧
        (∀ x ∈ before, x < blockId) ∧ ∀ x ∈ after, blockId < x) ∧
      tree.height ≤ next.height ∧ next.height ≤ tree.height + 1 := by
  induction tree with
  | nil =>
      exact ⟨node blockId nil nil 1, rfl, by simp [Avl], ⟨[], [], rfl, rfl, by simp, by simp⟩, by simp, by simp⟩
  | node nodeId left right h ihl ihr =>
      obtain ⟨hl, hr, hleft, hright⟩ := ordered_node.mp hordered
      obtain ⟨hla, hra, hheight, hb1, hb2⟩ := havl
      rcases lt_trichotomy blockId nodeId with hlt | rfl | hgt
      · obtain ⟨left', hrun, hla', ⟨before, after, hsplit, hsplit', hbefore, hafter⟩, hle, hge⟩ :=
          ihl hla hl fun hmem => hnew ((not_mem_right hordered hlt).mpr hmem)
        -- the left subtree grew by at most one level, which `balance` can absorb
        obtain ⟨tree, hbal, havl', hin, hup, hlow, hsame⟩ :=
          balance_spec nodeId hla' hra (by omega) (by omega)
        refine ⟨tree, ?_, havl', ⟨before, after ++ nodeId :: right.inorder, ?_, ?_, hbefore, ?_⟩, ?_, ?_⟩
        · rw [insert, if_neg hlt.ne, if_pos hlt, hrun]
          simp [bind, Except.bind, hbal, pure, Except.pure]
        · simp [inorder, hsplit]
        · simp [hin, hsplit']
        · intro x hx
          rcases List.mem_append.mp hx with hx | hx
          · exact hafter x hx
          · rcases List.mem_cons.mp hx with rfl | hx
            · exact hlt
            · exact hlt.trans (hright x hx)
        · rw [height_node]
          omega
        · rw [height_node]
          omega
      · exact absurd (by simp [inorder]) hnew
      · obtain ⟨right', hrun, hra', ⟨before, after, hsplit, hsplit', hbefore, hafter⟩, hle, hge⟩ :=
          ihr hra hr fun hmem => hnew ((not_mem_left hordered hgt).mpr hmem)
        obtain ⟨tree, hbal, havl', hin, hup, hlow, hsame⟩ :=
          balance_spec nodeId hla hra' (by omega) (by omega)
        refine ⟨tree, ?_, havl', ⟨left.inorder ++ nodeId :: before, after, ?_, ?_, ?_, hafter⟩, ?_, ?_⟩
        · rw [insert, if_neg hgt.ne', if_neg (not_lt_of_gt hgt), hrun]
          simp [bind, Except.bind, hbal, pure, Except.pure]
        · simp [inorder, hsplit]
        · simp [hin, hsplit']
        · intro x hx
          rcases List.mem_append.mp hx with hx | hx
          · exact (hleft x hx).trans hgt
          · rcases List.mem_cons.mp hx with rfl | hx
            · exact hgt
            · exact hbefore x hx
        · rw [height_node]
          omega
        · rw [height_node]
          omega

/-! ## Removal -/

omit [LinearOrder Id] in
theorem inorder_eq_minimum_cons (nodeId : Id) (left right : RoutingNode Id) (h : ℕ) :
    ∃ rest, (node nodeId left right h).inorder = minimum nodeId left :: rest := by
  induction left generalizing nodeId right h with
  | nil => exact ⟨right.inorder, rfl⟩
  | node leftId leftLeft leftRight leftHeight ihl _ =>
      obtain ⟨rest, hrest⟩ := ihl leftId leftRight leftHeight
      refine ⟨rest ++ nodeId :: right.inorder, ?_⟩
      rw [inorder, hrest, minimum]
      rfl

theorem remove_of_not_mem (hordered : tree.Ordered) (hmissing : blockId ∉ tree.inorder) :
    tree.remove blockId = .ok (tree, false) := by
  induction tree with
  | nil => rfl
  | node nodeId left right h ihl ihr =>
      obtain ⟨hl, hr, -, -⟩ := ordered_node.mp hordered
      rcases lt_trichotomy blockId nodeId with hlt | rfl | hgt
      · rw [remove, if_pos hlt, ihl hl fun hmem => hmissing ((not_mem_right hordered hlt).mpr hmem)]
        rfl
      · exact absurd (by simp [inorder]) hmissing
      · rw [remove, if_neg (not_lt_of_gt hgt), if_pos hgt,
          ihr hr fun hmem => hmissing ((not_mem_left hordered hgt).mpr hmem)]
        rfl

/-- **Removing an id** takes exactly it out and keeps the tree valid. -/
theorem remove_of_mem {tree : RoutingNode Id} (havl : tree.Avl) (hordered : tree.Ordered)
    {blockId : Id} (hmem : blockId ∈ tree.inorder) :
    ∃ next, tree.remove blockId = .ok (next, true) ∧ next.Avl ∧
      (∃ before after, tree.inorder = before ++ blockId :: after ∧ next.inorder = before ++ after) ∧
      next.height ≤ tree.height ∧ tree.height ≤ next.height + 1 := by
  induction tree generalizing blockId with
  | nil => simp [inorder] at hmem
  | node nodeId left right h ihl ihr =>
      obtain ⟨hl, hr, hleft, hright⟩ := ordered_node.mp hordered
      obtain ⟨hla, hra, hheight, hb1, hb2⟩ := havl
      rcases lt_trichotomy blockId nodeId with hlt | rfl | hgt
      · obtain ⟨left', hrun, hla', ⟨before, after, hsplit, hsplit'⟩, hle, hge⟩ :=
          ihl hla hl ((not_mem_right hordered hlt).mp hmem)
        obtain ⟨tree, hbal, havl', hin, hup, hlow, hsame⟩ :=
          balance_spec nodeId hla' hra (by omega) (by omega)
        refine ⟨tree, ?_, havl', ⟨before, after ++ nodeId :: right.inorder, ?_, ?_⟩, ?_, ?_⟩
        · rw [remove, if_pos hlt, hrun]
          simp [bind, Except.bind, hbal, pure, Except.pure]
        · simp [inorder, hsplit]
        · simp [hin, hsplit']
        · rw [height_node]
          omega
        · rw [height_node]
          omega
      · cases left with
        | nil =>
            refine ⟨right, ?_, hra, ⟨[], right.inorder, rfl, rfl⟩, ?_, ?_⟩
            · rw [remove, if_neg (lt_irrefl _), if_neg (lt_irrefl _), isNone, if_pos rfl]
            · simp only [height_node, height_nil] at hheight hb1 hb2 ⊢
              omega
            · simp only [height_node, height_nil] at hheight hb1 hb2 ⊢
              omega
        | node leftId leftLeft leftRight leftHeight =>
            cases right with
            | nil =>
                refine ⟨node leftId leftLeft leftRight leftHeight, ?_, hla,
                  ⟨(node leftId leftLeft leftRight leftHeight).inorder, [], rfl, by simp⟩, ?_, ?_⟩
                · rw [remove, if_neg (lt_irrefl _), if_neg (lt_irrefl _)]
                  simp [isNone]
                · simp only [height_node, height_nil] at hheight hb1 hb2 ⊢
                  omega
                · simp only [height_node, height_nil] at hheight hb1 hb2 ⊢
                  omega
            | node rightId rightLeft rightRight rightHeight =>
                -- the successor takes the place of the removed id
                obtain ⟨rest, hrest⟩ :=
                  inorder_eq_minimum_cons rightId rightLeft rightRight rightHeight
                obtain ⟨right', hrun, hra', ⟨before, after, hsplit, hsplit'⟩, hle, hge⟩ :=
                  @ihr hra hr (minimum rightId rightLeft) (by simp [hrest])
                have hnil : before = [] := by
                  cases before with
                  | nil => rfl
                  | cons x before =>
                      have hpair := hr
                      rw [Ordered, hsplit, List.cons_append, List.pairwise_cons] at hpair
                      rw [hrest, List.cons_append, List.cons.injEq] at hsplit
                      have hlt := hpair.1 (minimum rightId rightLeft) (by simp)
                      rw [hsplit.1] at hlt
                      exact absurd hlt (lt_irrefl _)
                subst hnil
                obtain ⟨tree, hbal, havl', hin, hup, hlow, hsame⟩ :=
                  balance_spec (minimum rightId rightLeft) hla hra' (by omega) (by omega)
                refine ⟨tree, ?_, havl',
                  ⟨(node leftId leftLeft leftRight leftHeight).inorder,
                    (node rightId rightLeft rightRight rightHeight).inorder, rfl, ?_⟩, ?_, ?_⟩
                · rw [remove, if_neg (lt_irrefl _), if_neg (lt_irrefl _)]
                  simp [isNone, minimum, hrun, bind, Except.bind, hbal, pure, Except.pure]
                · rw [hin, hsplit, hsplit']
                  rfl
                · rw [height_node]
                  omega
                · rw [height_node]
                  omega
      · obtain ⟨right', hrun, hra', ⟨before, after, hsplit, hsplit'⟩, hle, hge⟩ :=
          ihr hra hr ((not_mem_left hordered hgt).mp hmem)
        obtain ⟨tree, hbal, havl', hin, hup, hlow, hsame⟩ :=
          balance_spec nodeId hla hra' (by omega) (by omega)
        refine ⟨tree, ?_, havl', ⟨left.inorder ++ nodeId :: before, after, ?_, ?_⟩, ?_, ?_⟩
        · rw [remove, if_neg (not_lt_of_gt hgt), if_pos hgt, hrun]
          simp [bind, Except.bind, hbal, pure, Except.pure]
        · simp [inorder, hsplit]
        · simp [hin, hsplit']
        · rw [height_node]
          omega
        · rw [height_node]
          omega

end RoutingNode

namespace RoutingMembership

variable {Id : Type} [LinearOrder Id]

/-- The routing set is a valid tree that holds exactly `keys`, and its counter
counts them. -/
structure Holds (membership : RoutingMembership Id) (keys : List Id) : Prop where
  avl : membership.root.Avl
  ordered : membership.root.Ordered
  mem_iff : ∀ id, id ∈ membership.root.inorder ↔ id ∈ keys
  live : membership.liveBlocks = keys.length

variable {membership : RoutingMembership Id} {keys : List Id}

theorem holds_empty : Holds ({} : RoutingMembership Id) [] := by
  refine ⟨trivial, List.Pairwise.nil, fun id => ?_, rfl⟩
  simp [RoutingNode.inorder]

theorem Holds.contains_iff (hholds : Holds membership keys) (id : Id) :
    membership.contains id = true ↔ id ∈ keys :=
  (RoutingNode.contains_iff hholds.ordered id).trans (hholds.mem_iff id)

variable {blockId : Id}

theorem Holds.insert (hholds : Holds membership keys) (hnew : blockId ∉ keys) :
    ∃ next, membership.insert blockId = .ok next ∧ Holds next (keys ++ [blockId]) := by
  obtain ⟨root, hrun, havl, ⟨before, after, hsplit, hsplit', hbefore, hafter⟩, -, -⟩ :=
    RoutingNode.insert_of_not_mem hholds.avl hholds.ordered fun hmem => hnew ((hholds.mem_iff blockId).mp hmem)
  refine ⟨⟨root, membership.liveBlocks + 1⟩, ?_, havl, ?_, ?_, ?_⟩
  · simp [RoutingMembership.insert, hrun, bind, Except.bind, pure, Except.pure]
  · have hordered := hholds.ordered
    rw [RoutingNode.Ordered, hsplit, List.pairwise_append] at hordered
    rw [RoutingNode.Ordered, hsplit', List.pairwise_append, List.pairwise_cons]
    refine ⟨hordered.1, ⟨hafter, hordered.2.1⟩, fun x hx y hy => ?_⟩
    rcases List.mem_cons.mp hy with rfl | hy
    · exact hbefore x hx
    · exact hordered.2.2 x hx y hy
  · intro id
    have hold := hholds.mem_iff id
    rw [hsplit, List.mem_append] at hold
    rw [hsplit', List.mem_append, List.mem_cons, List.mem_append, List.mem_singleton, ← hold]
    tauto
  · show membership.liveBlocks + 1 = ((keys ++ [blockId]).length : ℤ)
    rw [hholds.live, List.length_append, List.length_singleton]
    omega

theorem Holds.remove (hholds : Holds membership keys) (hnodup : keys.Nodup) (hmem : blockId ∈ keys) :
    ∃ next, membership.remove blockId = .ok next ∧ Holds next (keys.filter fun q => q ≠ blockId) := by
  obtain ⟨root, hrun, havl, ⟨before, after, hsplit, hsplit'⟩, -, -⟩ :=
    RoutingNode.remove_of_mem hholds.avl hholds.ordered ((hholds.mem_iff blockId).mpr hmem)
  have hordered := hholds.ordered
  rw [RoutingNode.Ordered, hsplit, List.pairwise_append, List.pairwise_cons] at hordered
  refine ⟨⟨root, membership.liveBlocks - 1⟩, ?_, havl, ?_, ?_, ?_⟩
  · simp [RoutingMembership.remove, hrun, bind, Except.bind, pure, Except.pure]
  · rw [RoutingNode.Ordered, hsplit', List.pairwise_append]
    exact ⟨hordered.1, hordered.2.1.2, fun x hx y hy => hordered.2.2 x hx y (List.mem_cons_of_mem _ hy)⟩
  · intro id
    have hold := hholds.mem_iff id
    rw [hsplit, List.mem_append, List.mem_cons] at hold
    rw [hsplit', List.mem_append, List.mem_filter, ← hold, decide_eq_true_eq]
    constructor
    · rintro (h | h)
      · exact ⟨Or.inl h, (hordered.2.2 id h blockId List.mem_cons_self).ne⟩
      · exact ⟨Or.inr (Or.inr h), (hordered.2.1.1 id h).ne'⟩
    · rintro ⟨h | h | h, hne⟩
      · exact Or.inl h
      · exact absurd h hne
      · exact Or.inr h
  · have hfilter : (keys.filter fun q => q ≠ blockId) = keys.erase blockId := by
      rw [hnodup.erase_eq_filter]
      exact List.filter_congr fun q _ => by simp [bne, beq_eq_decide]
    have hlength := List.length_erase_add_one hmem
    show membership.liveBlocks - 1 = ((keys.filter fun q => q ≠ blockId).length : ℤ)
    rw [hfilter, hholds.live]
    omega

end RoutingMembership
