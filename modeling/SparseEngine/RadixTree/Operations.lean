import SparseEngine.RadixTree.Represents

/-!
# The writes of the radix tree

Each primitive write of the backend is described once, as a description of the
nodes, the places and the leaves after it, and shown to keep `Represents`: the
two splits do not change the forest, `addPath` adds a chain of new blocks
below a node and `dropBlock` takes away a childless block.  The three methods
are assembled from them.
-/

namespace RadixTreeBackend

variable {Id : Type} [DecidableEq Id]
variable {tree : RadixTreeBackend Id} {parent : Id → Option Id} {keys : List Id}

/-- Writing back the two halves of a segment after unindexing it. -/
theorem locations_split {segment kept moved : List Id} (upper lower : ℕ)
    (locations : Dict Id (ℕ × ℕ)) (happend : segment = kept ++ moved) (hnodup : segment.Nodup) (q : Id) :
    (∀ j, kept[j]? = some q →
      (indexSegmentFrom lower 0 moved (indexSegmentFrom upper 0 kept
        (segment.foldl Dict.erase locations))).get? q = some (upper, j)) ∧
    (∀ j, moved[j]? = some q →
      (indexSegmentFrom lower 0 moved (indexSegmentFrom upper 0 kept
        (segment.foldl Dict.erase locations))).get? q = some (lower, j)) ∧
    (q ∉ segment →
      (indexSegmentFrom lower 0 moved (indexSegmentFrom upper 0 kept
        (segment.foldl Dict.erase locations))).get? q = locations.get? q) := by
  subst happend
  rw [List.nodup_append] at hnodup
  obtain ⟨hkept, hmoved, hdisjoint⟩ := hnodup
  refine ⟨fun j hj => ?_, fun j hj => ?_, fun hq => ?_⟩
  · have hnot : q ∉ moved := fun hmem => hdisjoint q (List.mem_of_getElem? hj) q hmem rfl
    rw [get?_indexSegmentFrom_of_not_mem hnot, get?_indexSegmentFrom hkept hj, Nat.zero_add]
  · rw [get?_indexSegmentFrom hmoved hj, Nat.zero_add]
  · rw [List.mem_append, not_or] at hq
    rw [get?_indexSegmentFrom_of_not_mem hq.2, get?_indexSegmentFrom_of_not_mem hq.1, get?_unindex]
    simp [hq.1, hq.2]

theorem get?_indexSegmentFrom_congr {node index : ℕ} {segment : List Id}
    {first second : Dict Id (ℕ × ℕ)} {q : Id} (hagree : first.get? q = second.get? q) :
    (indexSegmentFrom node index segment first).get? q = (indexSegmentFrom node index segment second).get? q := by
  induction segment generalizing index first second with
  | nil => exact hagree
  | cons x rest ih =>
      apply ih
      rw [Dict.get?_set, Dict.get?_set, hagree]

namespace Represents

section

variable (hrep : Represents tree parent keys)

include hrep

theorem child_of_mem_values {node c : ℕ} (hlive : tree.Live node) (hc : c ∈ (tree.nodes node).children.values) :
    tree.Live c ∧ (tree.nodes c).parent = some node := by
  obtain ⟨k, hk⟩ := Dict.mem_values_iff.mp hc
  exact ⟨hrep.child_live hlive hk, (hrep.below node k c hlive hk).2⟩

theorem node_not_own_child {node : ℕ} (hlive : tree.Live node) :
    node ∉ (tree.nodes node).children.values := fun hmem =>
  hrep.parent_ne node node hlive (hrep.child_of_mem_values hlive hmem).2 rfl

theorem fresh_not_child {node : ℕ} (hlive : tree.Live node) :
    tree.nextNode ∉ (tree.nodes node).children.values := fun hmem =>
  absurd (hrep.live_lt_next (hrep.child_of_mem_values hlive hmem).1) (lt_irrefl _)

/-- A live node hangs below `node` exactly when it is one of its children. -/
theorem mem_values_of_parent {node x : ℕ} (hx : tree.Live x)
    (hparent : (tree.nodes x).parent = some node) : x ∈ (tree.nodes node).children.values := by
  rcases hx with rfl | ⟨id, i, hloc⟩
  · rw [hrep.root_parent] at hparent
    cases hparent
  · obtain ⟨head, hhead⟩ : ∃ head, (tree.nodes x).segment[0]? = some head := by
      have := hrep.index_lt hloc
      exact ⟨_, List.getElem?_eq_getElem (by omega)⟩
    obtain ⟨m, hm, -, hchild⟩ := hrep.above head x (hrep.covered id x i hloc 0 head hhead)
    obtain rfl : m = node := by simpa [hm] using hparent
    exact Dict.mem_values_iff.mpr ⟨head, hchild⟩

end

end Represents

/-! ## `_split_after` -/

section SplitAfter

variable {node index : ℕ} {first : Id} {rest : List Id}

section

variable (hsuffix : (tree.nodes node).segment.drop (index + 1) = first :: rest)
  (hfresh : node ≠ tree.nextNode)

include hsuffix hfresh

theorem splitAfter_nodes (hnode : node ∉ (tree.nodes node).children.values)
    (hnext : tree.nextNode ∉ (tree.nodes node).children.values) (x : ℕ) :
    (tree.splitAfter node index).nodes x =
      if x = node then
        { segment := (tree.nodes node).segment.take (index + 1)
          parent := (tree.nodes node).parent
          children := Dict.empty.set first tree.nextNode }
      else if x = tree.nextNode then
        { segment := first :: rest, parent := some node, children := (tree.nodes node).children }
      else if x ∈ (tree.nodes node).children.values then
        { tree.nodes x with parent := some tree.nextNode }
      else tree.nodes x := by
  simp only [splitAfter, hsuffix, indexSegment, modifyNode, reparent, allocNode, unindexSegment,
    Function.update_apply]
  split_ifs <;> simp_all

theorem splitAfter_locations (hnext : tree.nextNode ∉ (tree.nodes node).children.values) (q : Id) :
    (tree.splitAfter node index).locations.get? q =
      (indexSegmentFrom tree.nextNode 0 (first :: rest)
        (indexSegmentFrom node 0 ((tree.nodes node).segment.take (index + 1))
          ((tree.nodes node).segment.foldl Dict.erase tree.locations))).get? q := by
  simp only [splitAfter, hsuffix, indexSegment, modifyNode, reparent, allocNode, unindexSegment,
    Function.update_apply, if_true, if_neg hfresh.symm, if_neg hnext]

end

theorem splitAfter_leaves : (tree.splitAfter node index).leafBlockIds = tree.leafBlockIds := by
  cases hsuffix : (tree.nodes node).segment.drop (index + 1) <;>
    simp [splitAfter, hsuffix, indexSegment, modifyNode, reparent, allocNode, unindexSegment]

theorem splitAfter_next (hsuffix : (tree.nodes node).segment.drop (index + 1) = first :: rest) :
    (tree.splitAfter node index).nextNode = tree.nextNode + 1 := by
  simp [splitAfter, hsuffix, indexSegment, modifyNode, reparent, allocNode, unindexSegment]

end SplitAfter

theorem splitAfter_edgeSplit (hrep : Represents tree parent keys) {node index : ℕ} {id first : Id}
    {rest : List Id} (hloc : tree.locations.get? id = some (node, index))
    (hsuffix : (tree.nodes node).segment.drop (index + 1) = first :: rest) :
    EdgeSplit tree (tree.splitAfter node index) node node tree.nextNode
      ((tree.nodes node).segment.take (index + 1)) (first :: rest) first := by
  have hlive : tree.Live node := Represents.live_of_located hloc
  have hfresh : node ≠ tree.nextNode := (hrep.live_lt_next hlive).ne
  have hnode := hrep.node_not_own_child hlive
  have hnext := hrep.fresh_not_child hlive
  have happend : (tree.nodes node).segment = (tree.nodes node).segment.take (index + 1) ++ first :: rest := by
    rw [← hsuffix, List.take_append_drop]
  have hnodes := splitAfter_nodes hsuffix hfresh hnode hnext
  have hplaces := fun q => locations_split node tree.nextNode tree.locations happend (hrep.segment_nodup hloc) q
  simp only [← splitAfter_locations hsuffix hfresh hnext] at hplaces
  have hother : ∀ x, tree.Live x → x ≠ node → (tree.splitAfter node index).nodes x =
      if x ∈ (tree.nodes node).children.values then
        { tree.nodes x with parent := some tree.nextNode }
      else tree.nodes x := by
    intro x hx hne
    rw [hnodes, if_neg hne, if_neg (hrep.live_lt_next hx).ne]
  have hkept : (tree.nodes node).segment.take (index + 1) ≠ [] := by
    have := hrep.index_lt hloc
    rw [← List.length_pos_iff, List.length_take]
    omega
  refine ⟨splitAfter_next hsuffix, Or.inl ⟨rfl, rfl⟩, happend, hkept, rfl, ?_, ?_, ?_, ?_, ?_, ?_,
    splitAfter_leaves, fun j q => (hplaces q).1 j, fun j q => (hplaces q).2.1 j,
    fun q => (hplaces q).2.2⟩
  · rw [hnodes, if_pos rfl]
  · rw [hnodes, if_neg hfresh.symm, if_pos rfl]
  · intro x hx hne
    rw [hother x hx hne]
    split <;> rfl
  · intro x hx hne
    rw [hother x hx hne]
    by_cases hchild : x ∈ (tree.nodes node).children.values
    · rw [if_pos hchild, if_pos (hrep.child_of_mem_values hlive hchild).2]
    · rw [if_neg hchild, if_neg fun h => hchild (hrep.mem_values_of_parent hx h)]
  · intro x hx hne k
    -- nothing but the parent of `node` points down to it, and `node` stays there
    have hsame : ((tree.splitAfter node index).nodes x).children = (tree.nodes x).children := by
      rw [hother x hx hne]
      split <;> rfl
    rw [hsame]
    split
    · assumption
    · rfl
  · intro x hx hne
    rw [hother x hx hne]
    split <;> rfl

theorem Represents.splitAfter (hrep : Represents tree parent keys) {node index : ℕ} {id : Id}
    (hloc : tree.locations.get? id = some (node, index)) :
    Represents (tree.splitAfter node index) parent keys := by
  cases hsuffix : (tree.nodes node).segment.drop (index + 1) with
  | nil =>
      have hsame : tree.splitAfter node index = tree := by
        simp [RadixTreeBackend.splitAfter, hsuffix]
      rwa [hsame]
  | cons first rest =>
      exact (splitAfter_edgeSplit hrep hloc hsuffix).represents hrep
        (Represents.live_of_located hloc) (hrep.located id node index hloc).1

/-! ## The leaf set -/

@[simp] theorem addLeaf_nodes (node : ℕ) : (tree.addLeaf node).nodes = tree.nodes := by
  unfold addLeaf
  split <;> (try split) <;> rfl

@[simp] theorem addLeaf_nextNode (node : ℕ) : (tree.addLeaf node).nextNode = tree.nextNode := by
  unfold addLeaf
  split <;> (try split) <;> rfl

@[simp] theorem addLeaf_locations (node : ℕ) :
    (tree.addLeaf node).locations = tree.locations := by
  unfold addLeaf
  split <;> (try split) <;> rfl

theorem mem_addLeaf (node : ℕ) (q : Id) :
    q ∈ (tree.addLeaf node).leafBlockIds ↔
      q ∈ tree.leafBlockIds ∨ ((tree.nodes node).segment.getLast? = some q ∧
        (tree.nodes node).children.entries = []) := by
  unfold addLeaf
  cases hlast : (tree.nodes node).segment.getLast? with
  | none => simp
  | some last =>
      by_cases hchildren : (tree.nodes node).children.entries = [] <;> simp [hchildren, eq_comm, or_comm]

@[simp] theorem discardLeaf_nodes (node : ℕ) : (tree.discardLeaf node).nodes = tree.nodes := by
  unfold discardLeaf
  split <;> rfl

@[simp] theorem discardLeaf_nextNode (node : ℕ) :
    (tree.discardLeaf node).nextNode = tree.nextNode := by
  unfold discardLeaf
  split <;> rfl

@[simp] theorem discardLeaf_locations (node : ℕ) :
    (tree.discardLeaf node).locations = tree.locations := by
  unfold discardLeaf
  split <;> rfl

theorem mem_discardLeaf (node : ℕ) (q : Id) :
    q ∈ (tree.discardLeaf node).leafBlockIds ↔
      q ∈ tree.leafBlockIds ∧ (tree.nodes node).segment.getLast? ≠ some q := by
  unfold discardLeaf
  cases hlast : (tree.nodes node).segment.getLast? with
  | none => simp
  | some last => simp [eq_comm, and_comm]

/-! ## Adding a path -/

section AddPath

variable {node : ℕ} {blockId : Id} {rest : List Id}

theorem addPath_nodes (hfresh : node ≠ tree.nextNode) (x : ℕ) :
    (addPath node blockId rest tree).nodes x =
      if x = node then
        { tree.nodes node with children := (tree.nodes node).children.set blockId tree.nextNode }
      else if x = tree.nextNode then { segment := blockId :: rest, parent := some node }
      else tree.nodes x := by
  unfold addPath
  split <;> simp only [addLeaf_nodes, indexSegment, modifyNode, allocNode, Function.update_apply,
    discardLeaf_nodes, discardLeaf_nextNode] <;> split_ifs <;> simp_all

theorem addPath_next : (addPath node blockId rest tree).nextNode = tree.nextNode + 1 := by
  unfold addPath
  split <;> simp [indexSegment, modifyNode, allocNode]

theorem addPath_locations (hfresh : node ≠ tree.nextNode) :
    (addPath node blockId rest tree).locations =
      indexSegmentFrom tree.nextNode 0 (blockId :: rest) tree.locations := by
  unfold addPath
  split <;> simp [indexSegment, modifyNode, allocNode, hfresh.symm]

theorem mem_addPath_leaves (hfresh : node ≠ tree.nextNode) (q : Id) :
    q ∈ (addPath node blockId rest tree).leafBlockIds ↔
      (q ∈ tree.leafBlockIds ∧ ¬ ((tree.nodes node).children.entries = [] ∧
        (tree.nodes node).segment.getLast? = some q)) ∨
      (blockId :: rest).getLast? = some q := by
  unfold addPath
  by_cases hchildren : (tree.nodes node).children.entries = []
  · simp [hchildren, mem_addLeaf, indexSegment, modifyNode, allocNode, hfresh.symm, mem_discardLeaf]
  · simp [hchildren, mem_addLeaf, indexSegment, modifyNode, allocNode, hfresh.symm]

/-- Where an id is after a path has been added. -/
theorem addPath_loc_iff (hfresh : node ≠ tree.nextNode) (hnodup : (blockId :: rest).Nodup)
    (hnew : ∀ id ∈ blockId :: rest, tree.locations.get? id = none) (q : Id) (x j : ℕ) :
    (addPath node blockId rest tree).locations.get? q = some (x, j) ↔
      (x = tree.nextNode ∧ (blockId :: rest)[j]? = some q) ∨ tree.locations.get? q = some (x, j) := by
  rw [addPath_locations hfresh]
  by_cases hq : q ∈ blockId :: rest
  · obtain ⟨i, hi⟩ := List.getElem?_of_mem hq
    rw [get?_indexSegmentFrom hnodup hi, hnew q hq, Nat.zero_add]
    constructor
    · intro h
      simp only [Option.some.injEq, Prod.mk.injEq] at h
      exact Or.inl ⟨h.1.symm, h.2 ▸ hi⟩
    · rintro (⟨rfl, hj⟩ | h)
      · have hij := List.nodup_iff_getElem?_ne_getElem?.mp hnodup
        rcases lt_trichotomy i j with hlt | rfl | hlt
        · exact absurd (hi.trans hj.symm) (hij i j hlt (List.getElem?_eq_some_iff.mp hj).1)
        · rfl
        · exact absurd (hj.trans hi.symm) (hij j i hlt (List.getElem?_eq_some_iff.mp hi).1)
      · cases h
  · rw [get?_indexSegmentFrom_of_not_mem hq]
    constructor
    · exact Or.inr
    · rintro (⟨-, hj⟩ | h)
      · exact absurd (List.mem_of_getElem? hj) hq
      · exact h

end AddPath

/-- `next` is `tree` with the new blocks `added` on a fresh node below
`node`. -/
structure PathAdded (tree next : RadixTreeBackend Id) (node : ℕ) (head : Id) (added : List Id) :
    Prop where
  next_eq : next.nextNode = tree.nextNode + 1
  head_eq : added[0]? = some head
  new_eq : next.nodes tree.nextNode = { segment := added, parent := some node }
  segments : ∀ x, tree.Live x → (next.nodes x).segment = (tree.nodes x).segment
  parents : ∀ x, tree.Live x → (next.nodes x).parent = (tree.nodes x).parent
  node_children : (next.nodes node).children =
    (tree.nodes node).children.set head tree.nextNode
  other_children : ∀ x, tree.Live x → x ≠ node →
    (next.nodes x).children = (tree.nodes x).children
  leaves_iff : ∀ q, q ∈ next.leafBlockIds ↔
    (q ∈ tree.leafBlockIds ∧ ¬ ((tree.nodes node).children.entries = [] ∧
      (tree.nodes node).segment.getLast? = some q)) ∨ added.getLast? = some q
  loc_iff : ∀ q x j, next.locations.get? q = some (x, j) ↔
    (x = tree.nextNode ∧ added[j]? = some q) ∨ tree.locations.get? q = some (x, j)

theorem addPath_pathAdded (hrep : Represents tree parent keys) {node : ℕ} {blockId : Id}
    {rest : List Id} (hlive : tree.Live node) (hnodup : (blockId :: rest).Nodup)
    (hnew : ∀ id ∈ blockId :: rest, id ∉ keys) :
    PathAdded tree (addPath node blockId rest tree) node blockId (blockId :: rest) := by
  have hfresh : node ≠ tree.nextNode := (hrep.live_lt_next hlive).ne
  have hnodes := @addPath_nodes _ _ tree node blockId rest hfresh
  have hold : ∀ x, tree.Live x → x ≠ tree.nextNode := fun x hx => (hrep.live_lt_next hx).ne
  refine ⟨addPath_next, rfl, ?_, ?_, ?_, ?_, ?_, mem_addPath_leaves hfresh,
    addPath_loc_iff hfresh hnodup fun id hid => hrep.not_mem_keys_iff.mp (hnew id hid)⟩
  · rw [hnodes, if_neg hfresh.symm, if_pos rfl]
  · intro x hx
    rw [hnodes, if_neg (hold x hx)]
    split <;> simp_all
  · intro x hx
    rw [hnodes, if_neg (hold x hx)]
    split <;> simp_all
  · rw [hnodes, if_pos rfl]
  · intro x hx hne
    rw [hnodes, if_neg hne, if_neg (hold x hx)]

namespace PathAdded

variable {next : RadixTreeBackend Id} {node : ℕ} {head : Id} {added : List Id}
  (hadd : PathAdded tree next node head added) (hrep : Represents tree parent keys)

include hadd

theorem live_iff (x : ℕ) : next.Live x ↔ x = tree.nextNode ∨ tree.Live x := by
  constructor
  · rintro (rfl | ⟨id, j, h⟩)
    · exact Or.inr (Or.inl rfl)
    · rcases (hadd.loc_iff id x j).mp h with ⟨rfl, -⟩ | h
      · exact Or.inl rfl
      · exact Or.inr (Or.inr ⟨id, j, h⟩)
  · rintro (rfl | rfl | ⟨id, j, h⟩)
    · exact Or.inr ⟨head, 0, (hadd.loc_iff _ _ _).mpr (Or.inl ⟨rfl, hadd.head_eq⟩)⟩
    · exact Or.inl rfl
    · exact Or.inr ⟨id, j, (hadd.loc_iff _ _ _).mpr (Or.inr h)⟩

include hrep

theorem located_next (id : Id) (n i : ℕ) (h : next.locations.get? id = some (n, i)) :
    n ≠ root ∧ n < next.nextNode ∧ (next.nodes n).segment[i]? = some id := by
  have hnext := hadd.next_eq
  rcases (hadd.loc_iff id n i).mp h with ⟨rfl, hid⟩ | hid
  · exact ⟨hrep.next_pos.ne', by omega, by rw [hadd.new_eq]; exact hid⟩
  · obtain ⟨hne, hlt, hget⟩ := hrep.located id n i hid
    exact ⟨hne, by omega, by rw [hadd.segments n (Represents.live_of_located hid)]; exact hget⟩

theorem covered_next (id : Id) (n i : ℕ) (h : next.locations.get? id = some (n, i)) (j : ℕ)
    (id' : Id) (hj : (next.nodes n).segment[j]? = some id') :
    next.locations.get? id' = some (n, j) := by
  rw [hadd.loc_iff]
  rcases (hadd.loc_iff id n i).mp h with ⟨rfl, -⟩ | hid
  · rw [hadd.new_eq] at hj
    exact Or.inl ⟨rfl, hj⟩
  · rw [hadd.segments n (Represents.live_of_located hid)] at hj
    exact Or.inr (hrep.covered id n i hid j id' hj)

section

variable (hlive : tree.Live node) (hnew : ∀ id ∈ added, id ∉ keys)

include hlive hnew

/-- The node had no child under the first new block. -/
theorem head_free : (tree.nodes node).children.get? head = none := by
  cases hget : (tree.nodes node).children.get? head with
  | none => rfl
  | some n =>
      have hmem : head ∈ keys := (hrep.domain head).mpr ⟨n, 0, (hrep.below node head n hlive hget).1⟩
      exact absurd hmem (hnew head (List.mem_of_getElem? hadd.head_eq))

theorem above_next (id : Id) (n : ℕ) (h : next.locations.get? id = some (n, 0)) :
    ∃ m, (next.nodes n).parent = some m ∧ next.Live m ∧ (next.nodes m).children.get? id = some n := by
  rcases (hadd.loc_iff id n 0).mp h with ⟨rfl, hid⟩ | hid
  · obtain rfl : head = id := by simpa [hadd.head_eq] using hid
    refine ⟨node, by rw [hadd.new_eq], (hadd.live_iff node).mpr (Or.inr hlive), ?_⟩
    rw [hadd.node_children, Dict.get?_set_self]
  · obtain ⟨m, hm, hmlive, hchild⟩ := hrep.above id n hid
    refine ⟨m, by rw [hadd.parents n (Represents.live_of_located hid), hm], (hadd.live_iff m).mpr (Or.inr hmlive), ?_⟩
    by_cases hmn : m = node
    · subst hmn
      rw [hadd.node_children, Dict.get?_set_of_ne, hchild]
      rintro rfl
      rw [hadd.head_free hrep hlive hnew] at hchild
      cases hchild
    · rw [hadd.other_children m hmlive hmn, hchild]

end

theorem below_next (m : ℕ) (id : Id) (n : ℕ) (hm : next.Live m) (hchild : (next.nodes m).children.get? id = some n) :
    next.locations.get? id = some (n, 0) ∧ (next.nodes n).parent = some m := by
  rcases (hadd.live_iff m).mp hm with rfl | hmlive
  · rw [hadd.new_eq] at hchild
    simp at hchild
  have hold : (tree.nodes m).children.get? id = some n →
      next.locations.get? id = some (n, 0) ∧ (next.nodes n).parent = some m := by
    intro hchild
    obtain ⟨hid, hparent⟩ := hrep.below m id n hmlive hchild
    exact ⟨(hadd.loc_iff _ _ _).mpr (Or.inr hid), by rw [hadd.parents n (Represents.live_of_located hid), hparent]⟩
  by_cases hmn : m = node
  · subst hmn
    rw [hadd.node_children, Dict.get?_set] at hchild
    split at hchild
    · next hid =>
        obtain rfl : tree.nextNode = n := by simpa using hchild
        exact ⟨(hadd.loc_iff _ _ _).mpr (Or.inl ⟨rfl, by rw [hid, hadd.head_eq]⟩), by rw [hadd.new_eq]⟩
    · exact hold hchild
  · rw [hadd.other_children m hmlive hmn] at hchild
    exact hold hchild

theorem parent_head_next (hlive : tree.Live node)
    (hhead : parent head = (tree.nodes node).segment.getLast?) (id : Id) (n m : ℕ)
    (h : next.locations.get? id = some (n, 0)) (hm : (next.nodes n).parent = some m) :
    parent id = (next.nodes m).segment.getLast? := by
  rcases (hadd.loc_iff id n 0).mp h with ⟨rfl, hid⟩ | hid
  · obtain rfl : head = id := by simpa [hadd.head_eq] using hid
    rw [hadd.new_eq] at hm
    obtain rfl : node = m := by simpa using hm
    rw [hadd.segments node hlive, hhead]
  · rw [hadd.parents n (Represents.live_of_located hid)] at hm
    obtain ⟨m', hm', hmlive, -⟩ := hrep.above id n hid
    obtain rfl : m' = m := by simpa [hm'] using hm
    rw [hadd.segments m' hmlive, hrep.parent_head id n m' hid hm']

theorem parent_ne_next (hlive : tree.Live node) (n m : ℕ) (hn : next.Live n)
    (hm : (next.nodes n).parent = some m) : m ≠ n := by
  rcases (hadd.live_iff n).mp hn with rfl | hn
  · rw [hadd.new_eq] at hm
    obtain rfl : node = m := by simpa using hm
    exact (hrep.live_lt_next hlive).ne
  · rw [hadd.parents n hn] at hm
    exact hrep.parent_ne n m hn hm

theorem leaves_next (hlive : tree.Live node) (id : Id) :
    id ∈ next.leafBlockIds ↔
      ∃ n i, next.locations.get? id = some (n, i) ∧ i + 1 = (next.nodes n).segment.length ∧
        (next.nodes n).children.entries = [] := by
  have hpos : 0 < added.length := (List.getElem?_eq_some_iff.mp hadd.head_eq).1
  rw [hadd.leaves_iff, hrep.leaves]
  constructor
  · rintro (⟨⟨n, i, h, hlast, hchildless⟩, hnot⟩ | hlast)
    · have hn := Represents.live_of_located h
      have hne : n ≠ node := by
        rintro rfl
        refine hnot ⟨hchildless, ?_⟩
        rw [List.getLast?_eq_getElem?, ← hlast, Nat.add_sub_cancel]
        exact (hrep.located id n i h).2.2
      exact ⟨n, i, (hadd.loc_iff _ _ _).mpr (Or.inr h), by rw [hadd.segments n hn]; exact hlast,
        by rw [hadd.other_children n hn hne]; exact hchildless⟩
    · rw [List.getLast?_eq_getElem?] at hlast
      refine ⟨tree.nextNode, added.length - 1, (hadd.loc_iff _ _ _).mpr (Or.inl ⟨rfl, hlast⟩), ?_, ?_⟩
      · rw [hadd.new_eq]
        dsimp only
        omega
      · rw [hadd.new_eq]
        rfl
  · rintro ⟨n, i, h, hlast, hchildless⟩
    rcases (hadd.loc_iff id n i).mp h with ⟨rfl, hid⟩ | hid
    · rw [hadd.new_eq] at hlast
      refine Or.inr ?_
      rw [List.getLast?_eq_getElem?, ← hid]
      dsimp only at hlast
      rw [← hlast, Nat.add_sub_cancel]
    · have hn := Represents.live_of_located hid
      have hne : n ≠ node := by
        rintro rfl
        rw [hadd.node_children] at hchildless
        exact Dict.entries_set_ne_nil _ _ _ hchildless
      rw [hadd.segments n hn] at hlast
      rw [hadd.other_children n hn hne] at hchildless
      refine Or.inl ⟨⟨n, i, hid, hlast, hchildless⟩, ?_⟩
      rintro ⟨-, hget⟩
      rw [List.getLast?_eq_getElem?] at hget
      exact hne (hrep.segment_unique hn hlive (hrep.located id n i hid).2.2 hget).1

theorem domain_next (id : Id) :
    id ∈ keys ++ added ↔ ∃ n i, next.locations.get? id = some (n, i) := by
  rw [List.mem_append, hrep.domain]
  constructor
  · rintro (⟨n, i, h⟩ | hid)
    · exact ⟨n, i, (hadd.loc_iff _ _ _).mpr (Or.inr h)⟩
    · obtain ⟨j, hj⟩ := List.getElem?_of_mem hid
      exact ⟨_, j, (hadd.loc_iff _ _ _).mpr (Or.inl ⟨rfl, hj⟩)⟩
  · rintro ⟨n, i, h⟩
    rcases (hadd.loc_iff id n i).mp h with ⟨-, hid⟩ | hid
    · exact Or.inr (List.mem_of_getElem? hid)
    · exact Or.inl ⟨n, i, hid⟩

/-- **Adding a path adds its blocks to the forest**, the first one below the
last block of the node and every other one below the one before it. -/
theorem represents (hlive : tree.Live node) (hnew : ∀ id ∈ added, id ∉ keys)
    (hhead : parent head = (tree.nodes node).segment.getLast?)
    (hrest : ∀ i id, added[i + 1]? = some id → parent id = added[i]?) :
    Represents next parent (keys ++ added) where
  root_segment := by rw [hadd.segments root (Or.inl rfl), hrep.root_segment]
  root_parent := by rw [hadd.parents root (Or.inl rfl), hrep.root_parent]
  next_pos := by rw [hadd.next_eq]; exact Nat.succ_pos _
  located := hadd.located_next hrep
  covered := hadd.covered_next hrep
  above := hadd.above_next hrep hlive hnew
  below := hadd.below_next hrep
  parent_inner := by
    intro id n i h
    rcases (hadd.loc_iff id n _).mp h with ⟨rfl, hid⟩ | hid
    · rw [hadd.new_eq, hrest i id hid]
    · rw [hadd.segments n (Represents.live_of_located hid), hrep.parent_inner id n i hid]
  parent_head := hadd.parent_head_next hrep hlive hhead
  parent_ne := hadd.parent_ne_next hrep hlive
  leaves := hadd.leaves_next hrep hlive
  domain := hadd.domain_next hrep

end PathAdded

/-! ## Splitting an edge in `insert` -/

section SplitEdge

variable {node child common : ℕ} {prefixHead suffixHead : Id} {prefixRest suffixRest : List Id}
  (hfront : (tree.nodes child).segment.take common = prefixHead :: prefixRest)
  (hsuffix : (tree.nodes child).segment.drop common = suffixHead :: suffixRest)
  (hnode : node ≠ tree.nextNode) (hchild : child ≠ tree.nextNode) (hne : node ≠ child)

include hfront hsuffix hnode hchild hne

theorem splitEdge_nodes (x : ℕ) :
    (splitEdge node child common [] tree).nodes x =
      if x = tree.nextNode then
        { segment := prefixHead :: prefixRest, parent := some node
          children := Dict.empty.set suffixHead child }
      else if x = child then
        { tree.nodes child with
          segment := suffixHead :: suffixRest, parent := some tree.nextNode }
      else if x = node then
        { tree.nodes node with
          children := (tree.nodes node).children.set prefixHead tree.nextNode }
      else tree.nodes x := by
  simp only [splitEdge, hfront, hsuffix, indexSegment, modifyNode, allocNode, unindexSegment, Function.update_apply]
  split_ifs <;> simp_all

omit hne in
theorem splitEdge_locations :
    (splitEdge node child common [] tree).locations =
      indexSegmentFrom child 0 (suffixHead :: suffixRest)
        (indexSegmentFrom tree.nextNode 0 (prefixHead :: prefixRest)
          ((tree.nodes child).segment.foldl Dict.erase tree.locations)) := by
  simp only [splitEdge, hfront, hsuffix, indexSegment, modifyNode, allocNode, unindexSegment,
    Function.update_apply, if_true, if_neg hchild, if_neg hchild.symm, if_neg hnode.symm]

section

omit hnode hchild hne

theorem splitEdge_next : (splitEdge node child common [] tree).nextNode = tree.nextNode + 1 := by
  simp [splitEdge, hfront, hsuffix, indexSegment, modifyNode, allocNode, unindexSegment]

theorem splitEdge_leaves :
    (splitEdge node child common [] tree).leafBlockIds = tree.leafBlockIds := by
  simp [splitEdge, hfront, hsuffix, indexSegment, modifyNode, allocNode, unindexSegment]

end

variable {newHead : Id} {newRest : List Id}

theorem splitEdge_cons_nodes :
    (splitEdge node child common (newHead :: newRest) tree).nodes =
      (addPath tree.nextNode newHead newRest (splitEdge node child common [] tree)).nodes := by
  funext x
  have hnext : (splitEdge node child common [] tree).nextNode = _ :=
    splitEdge_next hfront hsuffix
  have hfresh : tree.nextNode ≠ (splitEdge node child common [] tree).nextNode := by omega
  rw [addPath_nodes hfresh, splitEdge_nodes hfront hsuffix hnode hchild hne,
    splitEdge_nodes hfront hsuffix hnode hchild hne, hnext]
  simp only [splitEdge, hfront, hsuffix, indexSegment, modifyNode, allocNode, unindexSegment,
    Function.update_apply, addLeaf_nodes]
  have hsucc : tree.nextNode ≠ tree.nextNode + 1 := by omega
  simp only [hnode.symm, hchild.symm, hne.symm, hnode, hchild, hsucc, if_true, if_false]
  clear hfront hsuffix hnext hfresh
  split_ifs <;> rfl

omit hne in
theorem splitEdge_cons_locations (hbound : child < tree.nextNode)
    (hdisjoint : ∀ id ∈ newHead :: newRest, id ∉ (tree.nodes child).segment) (q : Id) :
    (splitEdge node child common (newHead :: newRest) tree).locations.get? q =
      (addPath tree.nextNode newHead newRest (splitEdge node child common [] tree)).locations.get? q := by
  have hnext : (splitEdge node child common [] tree).nextNode = _ :=
    splitEdge_next hfront hsuffix
  have hfresh : tree.nextNode ≠ (splitEdge node child common [] tree).nextNode := by omega
  have hinner : (splitEdge node child common (newHead :: newRest) tree).locations =
      indexSegmentFrom child 0 (suffixHead :: suffixRest)
        (indexSegmentFrom tree.nextNode 0 (prefixHead :: prefixRest)
          (indexSegmentFrom (tree.nextNode + 1) 0 (newHead :: newRest)
            ((tree.nodes child).segment.foldl Dict.erase tree.locations))) := by
    have hsucc : tree.nextNode + 1 ≠ tree.nextNode := by omega
    have hchild1 : child ≠ tree.nextNode + 1 := by omega
    simp only [splitEdge, hfront, hsuffix, indexSegment, modifyNode, allocNode, unindexSegment,
      Function.update_apply, addLeaf_nodes, addLeaf_locations, if_true, if_neg hchild, if_neg hsucc,
      if_neg hchild.symm, if_neg hnode.symm, if_neg hchild1, if_neg hsucc.symm]
  rw [hinner, addPath_locations hfresh, splitEdge_locations hfront hsuffix hnode hchild, hnext]
  by_cases hq : q ∈ newHead :: newRest
  · have hnot := hdisjoint q hq
    rw [← List.take_append_drop common (tree.nodes child).segment, List.mem_append, not_or, hfront, hsuffix] at hnot
    rw [get?_indexSegmentFrom_of_not_mem hnot.2, get?_indexSegmentFrom_of_not_mem hnot.1]
    apply get?_indexSegmentFrom_congr
    rw [get?_indexSegmentFrom_of_not_mem hnot.2, get?_indexSegmentFrom_of_not_mem hnot.1]
  · symm
    rw [get?_indexSegmentFrom_of_not_mem hq]
    apply get?_indexSegmentFrom_congr
    apply get?_indexSegmentFrom_congr
    rw [get?_indexSegmentFrom_of_not_mem hq]

theorem splitEdge_cons_leaves :
    (splitEdge node child common (newHead :: newRest) tree).leafBlockIds =
      (addPath tree.nextNode newHead newRest (splitEdge node child common [] tree)).leafBlockIds := by
  have hnext : (splitEdge node child common [] tree).nextNode = _ :=
    splitEdge_next hfront hsuffix
  have hfresh : tree.nextNode ≠ (splitEdge node child common [] tree).nextNode := by omega
  have hchildren : ((splitEdge node child common [] tree).nodes tree.nextNode).children.entries ≠ [] := by
    rw [splitEdge_nodes hfront hsuffix hnode hchild hne, if_pos rfl]
    exact List.cons_ne_nil _ _
  ext q
  rw [mem_addPath_leaves hfresh, splitEdge_leaves hfront hsuffix]
  have hsucc : tree.nextNode + 1 ≠ tree.nextNode := by omega
  simp only [hchildren, false_and, not_false_iff, and_true]
  simp [splitEdge, hfront, hsuffix, indexSegment, modifyNode, allocNode, unindexSegment, mem_addLeaf]

end SplitEdge

section

variable {node child common : ℕ} {blockId : Id} (hrep : Represents tree parent keys)
  (hlive : tree.Live node) (hchild : (tree.nodes node).children.get? blockId = some child)
  (hpos : 0 < common) (hcommon : common < (tree.nodes child).segment.length)

include hrep hlive hchild hpos hcommon

theorem splitEdge_edgeSplit :
    ∃ prefixHead prefixRest suffixHead suffixRest, (tree.nodes child).segment.take common = prefixHead :: prefixRest ∧
      (tree.nodes child).segment.drop common = suffixHead :: suffixRest ∧
      node ≠ tree.nextNode ∧ child ≠ tree.nextNode ∧ node ≠ child ∧
      EdgeSplit tree (splitEdge node child common [] tree) child tree.nextNode child
        (prefixHead :: prefixRest) (suffixHead :: suffixRest) suffixHead := by
  obtain ⟨hloc, hparent⟩ := hrep.below node blockId child hlive hchild
  have hclive : tree.Live child := Represents.live_of_located hloc
  have hnode := (hrep.live_lt_next hlive).ne
  have hchild' := (hrep.live_lt_next hclive).ne
  have hne := hrep.parent_ne child node hclive hparent
  obtain ⟨prefixHead, prefixRest, hfront⟩ : ∃ head rest, (tree.nodes child).segment.take common = head :: rest :=
    List.exists_cons_of_length_pos (by rw [List.length_take]; omega)
  obtain ⟨suffixHead, suffixRest, hsuffix⟩ : ∃ head rest, (tree.nodes child).segment.drop common = head :: rest :=
    List.exists_cons_of_length_pos (by rw [List.length_drop]; omega)
  refine ⟨prefixHead, prefixRest, suffixHead, suffixRest, hfront, hsuffix, hnode, hchild', hne, ?_⟩
  have happend : (tree.nodes child).segment = (prefixHead :: prefixRest) ++ (suffixHead :: suffixRest) := by
    rw [← hfront, ← hsuffix, List.take_append_drop]
  have hnodes := splitEdge_nodes hfront hsuffix hnode hchild' hne
  have hplaces := fun q => locations_split tree.nextNode child tree.locations happend (hrep.segment_nodup hloc) q
  rw [← splitEdge_locations hfront hsuffix hnode hchild'] at hplaces
  have hother : ∀ x, tree.Live x → x ≠ child → (splitEdge node child common [] tree).nodes x =
      if x = node then { tree.nodes node with
          children := (tree.nodes node).children.set prefixHead tree.nextNode }
      else tree.nodes x := by
    intro x hx hxc
    rw [hnodes, if_neg (hrep.live_lt_next hx).ne, if_neg hxc]
  -- `node` points down to `child` under the first id of the edge and nowhere else
  have hkey : ∀ x k, tree.Live x → ((tree.nodes x).children.get? k = some child ↔ x = node ∧ k = prefixHead) := by
    intro x k hx
    have hheadLoc := (hrep.located blockId child 0 hloc).2.2
    rw [happend] at hheadLoc
    obtain rfl : prefixHead = blockId := by simpa using hheadLoc
    constructor
    · intro hget
      obtain ⟨hk, hxparent⟩ := hrep.below x k child hx hget
      obtain rfl : node = x := by simpa [hparent] using hxparent
      have hkLoc := (hrep.located k child 0 hk).2.2
      rw [happend] at hkLoc
      exact ⟨rfl, by simpa using hkLoc.symm⟩
    · rintro ⟨rfl, rfl⟩
      exact hchild
  refine ⟨splitEdge_next hfront hsuffix, Or.inr ⟨rfl, rfl⟩, happend, List.cons_ne_nil _ _, rfl,
    ?_, ?_, ?_, ?_, ?_, ?_, splitEdge_leaves hfront hsuffix, fun j q => (hplaces q).1 j,
    fun j q => (hplaces q).2.1 j, fun q => (hplaces q).2.2⟩
  · rw [hnodes, if_pos rfl, hparent]
  · rw [hnodes, if_neg hchild', if_pos rfl]
  · intro x hx hxc
    rw [hother x hx hxc]
    split <;> simp_all
  · intro x hx hxc
    have hsame : ((splitEdge node child common [] tree).nodes x).parent = (tree.nodes x).parent := by
      rw [hother x hx hxc]
      split <;> simp_all
    rw [hsame]
    split
    · assumption
    · rfl
  · intro x hx hxc k
    rw [hother x hx hxc]
    by_cases hxn : x = node
    · subst hxn
      rw [if_pos rfl, Dict.get?_set]
      by_cases hk : k = prefixHead
      · rw [if_pos hk, if_pos ((hkey x k hx).mpr ⟨rfl, hk⟩)]
      · rw [if_neg hk, if_neg fun h => hk ((hkey x k hx).mp h).2]
    · rw [if_neg hxn, if_neg fun h => hxn ((hkey x k hx).mp h).1]
  · intro x hx hxc
    rw [hother x hx hxc]
    by_cases hxn : x = node
    · subst hxn
      rw [if_pos rfl]
      exact ⟨fun h => absurd h (Dict.entries_set_ne_nil _ _ _),
        fun h => absurd h (Dict.entries_ne_nil_of_get? hchild)⟩
    · rw [if_neg hxn]

end

/-- **The split of `insert`** keeps the forest and hangs the ids left over below
the cut. -/
theorem Represents.splitEdge {node child common : ℕ} {blockId : Id} {leftOver : List Id}
    (hrep : Represents tree parent keys) (hlive : tree.Live node)
    (hchild : (tree.nodes node).children.get? blockId = some child) (hpos : 0 < common)
    (hcommon : common < (tree.nodes child).segment.length) (hnodup : leftOver.Nodup)
    (hnew : ∀ id ∈ leftOver, id ∉ keys)
    (hhead : ∀ id, leftOver[0]? = some id → parent id = (tree.nodes child).segment[common - 1]?)
    (hrest : ∀ i id, leftOver[i + 1]? = some id → parent id = leftOver[i]?) :
    Represents (splitEdge node child common leftOver tree) parent (keys ++ leftOver) := by
  obtain ⟨prefixHead, prefixRest, suffixHead, suffixRest, hfront, hsuffix, hnode, hne, hnc, hsplit⟩ :=
    splitEdge_edgeSplit hrep hlive hchild hpos hcommon
  obtain ⟨hloc, -⟩ := hrep.below node blockId child hlive hchild
  have hclive : tree.Live child := live_of_located hloc
  have hroot := (hrep.located blockId child 0 hloc).1
  have hrep' := hsplit.represents hrep hclive hroot
  cases leftOver with
  | nil => simpa using hrep'
  | cons newHead newRest =>
      have hupper : (RadixTreeBackend.splitEdge node child common [] tree).Live tree.nextNode :=
        (hsplit.live_iff hrep hclive _).mpr (Or.inr rfl)
      have hlast : parent newHead = ((RadixTreeBackend.splitEdge node child common [] tree).nodes
          tree.nextNode).segment.getLast? := by
        rw [hsplit.upper_eq, ← hfront, hhead newHead rfl, List.getLast?_eq_getElem?,
          List.length_take, min_eq_left hcommon.le, List.getElem?_take_of_lt (by omega)]
      have hadded := (addPath_pathAdded hrep' hupper hnodup hnew).represents hrep' hupper hnew hlast hrest
      apply hadded.congr
      · exact splitEdge_cons_nodes hfront hsuffix hnode hne hnc
      · rw [addPath_next, splitEdge_next hfront hsuffix]
        simp [RadixTreeBackend.splitEdge, hfront, hsuffix, indexSegment, modifyNode, allocNode, unindexSegment]
      · apply splitEdge_cons_locations hfront hsuffix hnode hne (hrep.live_lt_next hclive)
        intro id hid hmem
        obtain ⟨j, hj⟩ := List.getElem?_of_mem hmem
        exact hnew id hid ((hrep.domain id).mpr ⟨child, j, hrep.located_of_mem_segment hclive hj⟩)
      · exact splitEdge_cons_leaves hfront hsuffix hnode hne hnc

/-! ## Dropping a childless block -/

section DropBlock

variable {node above index : ℕ} {blockId : Id}

theorem dropBlock_locations :
    (dropBlock blockId node above tree).locations = tree.locations.erase blockId := by
  unfold dropBlock
  dsimp only
  split <;> simp [modifyNode]

theorem dropBlock_next : (dropBlock blockId node above tree).nextNode = tree.nextNode := by
  unfold dropBlock
  dsimp only
  split <;> simp [modifyNode]

theorem dropBlock_loc_iff (q : Id) (x j : ℕ) :
    (dropBlock blockId node above tree).locations.get? q = some (x, j) ↔
      q ≠ blockId ∧ tree.locations.get? q = some (x, j) := by
  rw [dropBlock_locations, Dict.get?_erase]
  split
  · next h => simp [h]
  · next h => simp [h]

/-- `next` is `tree` without `blockId`, the last block of the childless `node`.
One node is written, the `holder`: `node` while it has other blocks, and else
the node above it. -/
structure BlockDropped (tree next : RadixTreeBackend Id) (node index holder : ℕ) (blockId : Id) :
    Prop where
  next_eq : next.nextNode = tree.nextNode
  loc_iff : ∀ q x j, next.locations.get? q = some (x, j) ↔
    q ≠ blockId ∧ tree.locations.get? q = some (x, j)
  others : ∀ x, x ≠ holder → next.nodes x = tree.nodes x
  parents : ∀ x, (next.nodes x).parent = (tree.nodes x).parent
  segments : ∀ x, x ≠ node → (next.nodes x).segment = (tree.nodes x).segment
  kept : ∀ j, j < index → (next.nodes node).segment[j]? = (tree.nodes node).segment[j]?
  length_eq : 0 < index → (next.nodes node).segment.length = index
  children : ∀ x id, tree.Live x → (next.nodes x).children.get? id =
    if id = blockId then none else (tree.nodes x).children.get? id
  holder_live : tree.Live holder ∧ (holder = node → 0 < index)
  holder_inner : ∀ q i, q ≠ blockId → tree.locations.get? q = some (holder, i) →
    i + 1 = (tree.nodes holder).segment.length → (tree.nodes holder).children.entries ≠ []
  leaves_iff : ∀ q, q ∈ next.leafBlockIds ↔ (q ∈ tree.leafBlockIds ∧ q ≠ blockId) ∨
    ((next.nodes holder).segment.getLast? = some q ∧ (next.nodes holder).children.entries = [])

/-- Where a block that is dropped stands: last on a childless node. -/
structure Droppable (tree : RadixTreeBackend Id) (node above index : ℕ) (blockId : Id) : Prop where
  located : tree.locations.get? blockId = some (node, index)
  last : index + 1 = (tree.nodes node).segment.length
  childless : (tree.nodes node).children.entries = []
  parent_eq : (tree.nodes node).parent = some above

section

variable (hrep : Represents tree parent keys) (hdrop : Droppable tree node above index blockId)

include hrep hdrop

/-- The other blocks of the node stand before the one that is dropped. -/
theorem Droppable.index_lt {q : Id} {j : ℕ} (hq : q ≠ blockId)
    (hloc : tree.locations.get? q = some (node, j)) : j < index := by
  have hlt := hrep.index_lt hloc
  have hlast := hdrop.last
  have hne : j ≠ index := by
    rintro rfl
    have hj := (hrep.located q node j hloc).2.2
    rw [(hrep.located blockId node j hdrop.located).2.2] at hj
    exact hq (by simpa using hj.symm)
  omega

/-- The node held other blocks as well: it gets shorter. -/
theorem blockDropped_shrink (hindex : 0 < index) :
    BlockDropped tree (dropBlock blockId node above tree) node index node blockId := by
  have hlast := hdrop.last
  have hshape : ∀ x, (tree.nodes node).segment ≠ [x] := by
    intro x hx
    rw [hx] at hlast
    simp at hlast
    omega
  have hnodes : ∀ x, (dropBlock blockId node above tree).nodes x =
      if x = node then { tree.nodes node with segment := (tree.nodes node).segment.dropLast }
      else tree.nodes x := by
    intro x
    unfold dropBlock
    dsimp only
    split
    · next only hseg => exact absurd hseg (hshape only)
    · simp [modifyNode, Function.update_apply]
  refine ⟨dropBlock_next, dropBlock_loc_iff, ?_, ?_, ?_, ?_, ?_, ?_, ?_, ?_, ?_⟩
  · intro x hx
    rw [hnodes, if_neg hx]
  · intro x
    rw [hnodes]
    split <;> simp_all
  · intro x hx
    rw [hnodes, if_neg hx]
  · intro j hj
    rw [hnodes, if_pos rfl, List.getElem?_dropLast, if_pos (by omega)]
  · intro _
    rw [hnodes, if_pos rfl, List.length_dropLast]
    omega
  · intro x id hx
    have hsame : ((dropBlock blockId node above tree).nodes x).children = (tree.nodes x).children := by
      rw [hnodes]
      split <;> simp_all
    rw [hsame]
    split
    · next hid =>
        -- only the first block of a node is a child of the node above
        subst hid
        cases hc : (tree.nodes x).children.get? id with
        | none => rfl
        | some n =>
            obtain ⟨-, rfl⟩ : node = n ∧ index = 0 := by
              simpa [hdrop.located] using (hrep.below x id n hx hc).1
            exact absurd hindex (lt_irrefl _)
    · rfl
  · exact ⟨Represents.live_of_located hdrop.located, fun _ => hindex⟩
  · intro q i hq hloc hend
    have := hdrop.index_lt hrep hq hloc
    omega
  · intro q
    rw [hnodes, if_pos rfl]
    unfold dropBlock
    dsimp only
    split
    · next only hseg => exact absurd hseg (hshape only)
    · simp [mem_addLeaf, modifyNode, hdrop.childless, and_comm]

/-- The block was alone on its edge: the node goes. -/
theorem blockDropped_remove (hindex : index = 0) :
    BlockDropped tree (dropBlock blockId node above tree) node index above blockId := by
  subst hindex
  have hsegment : (tree.nodes node).segment = [blockId] := by
    obtain ⟨x, hx⟩ := List.length_eq_one_iff.mp hdrop.last.symm
    have hget := (hrep.located blockId node 0 hdrop.located).2.2
    rw [hx] at hget ⊢
    simpa using hget
  obtain ⟨halive, habove⟩ : tree.Live above ∧ (tree.nodes above).children.get? blockId = some node := by
    obtain ⟨m, hm, hmlive, hchild⟩ := hrep.above blockId node hdrop.located
    obtain rfl : m = above := by simpa [hm] using hdrop.parent_eq
    exact ⟨hmlive, hchild⟩
  have hnodes : ∀ x, (dropBlock blockId node above tree).nodes x =
      if x = above then
        { tree.nodes above with children := (tree.nodes above).children.erase blockId }
      else tree.nodes x := by
    intro x
    simp [dropBlock, hsegment, modifyNode, Function.update_apply]
  have hsegments : ∀ x, ((dropBlock blockId node above tree).nodes x).segment = (tree.nodes x).segment := by
    intro x
    rw [hnodes]
    split <;> simp_all
  refine ⟨dropBlock_next, dropBlock_loc_iff, ?_, ?_, fun x _ => hsegments x,
    fun j hj => absurd hj (Nat.not_lt_zero _), fun h => absurd h (lt_irrefl _), ?_, ?_, ?_, ?_⟩
  · intro x hx
    rw [hnodes, if_neg hx]
  · intro x
    rw [hnodes]
    split <;> simp_all
  · intro x id hx
    rw [hnodes]
    split
    · next hxa => rw [hxa, Dict.get?_erase]
    · next hxa =>
        split
        · next hid =>
            subst hid
            cases hc : (tree.nodes x).children.get? id with
            | none => rfl
            | some n =>
                -- a block hangs below one node only
                obtain ⟨hn, hxn⟩ := hrep.below x id n hx hc
                obtain rfl : node = n := by
                  simpa [hdrop.located] using congrArg (Option.map Prod.fst) hn
                exact absurd (by simpa [hdrop.parent_eq] using hxn.symm) hxa
        · rfl
  · refine ⟨halive, fun h => ?_⟩
    exact absurd h (hrep.parent_ne node above (Represents.live_of_located hdrop.located) hdrop.parent_eq)
  · exact fun q i _ _ _ => Dict.entries_ne_nil_of_get? habove
  · intro q
    rw [hnodes, if_pos rfl]
    simp [dropBlock, hsegment, modifyNode, mem_addLeaf, and_comm]

end

namespace BlockDropped

variable {next : RadixTreeBackend Id} {holder : ℕ}
  (hdropped : BlockDropped tree next node index holder blockId) (hrep : Represents tree parent keys)
  (hdrop : Droppable tree node above index blockId)

include hdropped hrep hdrop

/-- A block that stays has the blocks before it where they were. -/
theorem segment_get {q : Id} {x j : ℕ} (h : next.locations.get? q = some (x, j)) {k : ℕ}
    (hk : k ≤ j) : (next.nodes x).segment[k]? = (tree.nodes x).segment[k]? := by
  obtain ⟨hq, hold⟩ := (hdropped.loc_iff q x j).mp h
  by_cases hx : x = node
  · subst hx
    have := hdrop.index_lt hrep hq hold
    exact hdropped.kept k (by omega)
  · rw [hdropped.segments x hx]

theorem live_iff (x : ℕ) : next.Live x ↔ tree.Live x ∧ (x = node → 0 < index) := by
  constructor
  · rintro (rfl | ⟨id, j, h⟩)
    · exact ⟨Or.inl rfl, fun h => absurd h.symm (hrep.located blockId node index hdrop.located).1⟩
    · obtain ⟨hid, hold⟩ := (hdropped.loc_iff id x j).mp h
      refine ⟨Or.inr ⟨id, j, hold⟩, ?_⟩
      rintro rfl
      exact (Nat.zero_le j).trans_lt (hdrop.index_lt hrep hid hold)
  · rintro ⟨rfl | ⟨id, j, h⟩, hpos⟩
    · exact Or.inl rfl
    · by_cases hid : id = blockId
      · -- the first block of the node is another one and stays
        subst hid
        obtain ⟨rfl, rfl⟩ : x = node ∧ j = index := by simpa [hdrop.located, eq_comm] using h
        have hlive := Represents.live_of_located h
        have hlast := hdrop.last
        obtain ⟨head, hhead⟩ : ∃ head, (tree.nodes x).segment[0]? = some head :=
          ⟨_, List.getElem?_eq_getElem (by omega)⟩
        refine Or.inr ⟨head, 0, (hdropped.loc_iff _ _ _).mpr ⟨?_, hrep.located_of_mem_segment hlive hhead⟩⟩
        rintro rfl
        have := (hrep.segment_unique hlive hlive hhead (hrep.located _ x j h).2.2).2
        have := hpos rfl
        omega
      · exact Or.inr ⟨id, j, (hdropped.loc_iff id x j).mpr ⟨hid, h⟩⟩

theorem covered_next (id : Id) (n i : ℕ) (h : next.locations.get? id = some (n, i)) (j : ℕ)
    (id' : Id) (hj : (next.nodes n).segment[j]? = some id') :
    next.locations.get? id' = some (n, j) := by
  obtain ⟨hid, hold⟩ := (hdropped.loc_iff id n i).mp h
  have hj' : (tree.nodes n).segment[j]? = some id' ∧ (n = node → j < index) := by
    by_cases hn : n = node
    · subst hn
      have hpos := (Nat.zero_le i).trans_lt (hdrop.index_lt hrep hid hold)
      have hlt := (List.getElem?_eq_some_iff.mp hj).1
      rw [hdropped.length_eq hpos] at hlt
      exact ⟨by rw [← hdropped.kept j hlt]; exact hj, fun _ => hlt⟩
    · rw [hdropped.segments n hn] at hj
      exact ⟨hj, fun h => absurd h hn⟩
  have hold' := hrep.covered id n i hold j id' hj'.1
  refine (hdropped.loc_iff _ _ _).mpr ⟨?_, hold'⟩
  rintro rfl
  obtain ⟨rfl, rfl⟩ : node = n ∧ index = j := by simpa [hdrop.located] using hold'
  exact absurd (hj'.2 rfl) (lt_irrefl _)

theorem above_next (id : Id) (n : ℕ) (h : next.locations.get? id = some (n, 0)) :
    ∃ m, m ≠ node ∧ (next.nodes n).parent = some m ∧ next.Live m ∧ (next.nodes m).children.get? id = some n := by
  obtain ⟨hid, hold⟩ := (hdropped.loc_iff id n 0).mp h
  obtain ⟨m, hm, hmlive, hchild⟩ := hrep.above id n hold
  have hne : m ≠ node := by
    rintro rfl
    exact Dict.entries_ne_nil_of_get? hchild hdrop.childless
  refine ⟨m, hne, by rw [hdropped.parents, hm],
    (hdropped.live_iff hrep hdrop m).mpr ⟨hmlive, fun h => absurd h hne⟩, ?_⟩
  rw [hdropped.children m id hmlive, if_neg hid, hchild]

theorem leaves_next (id : Id) :
    id ∈ next.leafBlockIds ↔
      ∃ n i, next.locations.get? id = some (n, i) ∧ i + 1 = (next.nodes n).segment.length ∧
        (next.nodes n).children.entries = [] := by
  rw [hdropped.leaves_iff, hrep.leaves]
  constructor
  · rintro (⟨⟨n, i, h, hend, hnone⟩, hid⟩ | ⟨hend, hnone⟩)
    · have hne : n ≠ holder := by
        rintro rfl
        exact hdropped.holder_inner id i hid h hend hnone
      exact ⟨n, i, (hdropped.loc_iff _ _ _).mpr ⟨hid, h⟩, by rw [hdropped.others n hne]; exact hend,
        by rw [hdropped.others n hne]; exact hnone⟩
    · -- the holder's last block is located through any block that the holder still has
      rw [List.getLast?_eq_getElem?] at hend
      have hbound := (List.getElem?_eq_some_iff.mp hend).1
      rcases (hdropped.live_iff hrep hdrop holder).mpr hdropped.holder_live with rfl | ⟨q, j, hq⟩
      · rw [hdropped.segments _ (hrep.located blockId node index hdrop.located).1.symm, hrep.root_segment] at hend
        simp at hend
      · exact ⟨holder, _, hdropped.covered_next hrep hdrop q holder j hq _ id hend, by omega, hnone⟩
  · rintro ⟨n, i, h, hend, hnone⟩
    obtain ⟨hid, hold⟩ := (hdropped.loc_iff id n i).mp h
    by_cases hn : n = holder
    · subst hn
      refine Or.inr ⟨?_, hnone⟩
      rw [List.getLast?_eq_getElem?, ← hend, Nat.add_sub_cancel, hdropped.segment_get hrep hdrop h le_rfl]
      exact (hrep.located id n i hold).2.2
    · rw [hdropped.others n hn] at hend hnone
      exact Or.inl ⟨⟨n, i, hold, hend, hnone⟩, hid⟩

/-- **Dropping the last block of a childless node takes it out of the
forest.** -/
theorem represents : Represents next parent (keys.filter fun q => q ≠ blockId) where
  root_segment := by
    have hroot := (hrep.located blockId node index hdrop.located).1
    rw [hdropped.segments root hroot.symm, hrep.root_segment]
  root_parent := by rw [hdropped.parents, hrep.root_parent]
  next_pos := by rw [hdropped.next_eq]; exact hrep.next_pos
  located := by
    intro id n i h
    obtain ⟨hne, hlt, hseg⟩ := hrep.located id n i ((hdropped.loc_iff id n i).mp h).2
    exact ⟨hne, by rw [hdropped.next_eq]; exact hlt, by rw [hdropped.segment_get hrep hdrop h le_rfl]; exact hseg⟩
  covered := hdropped.covered_next hrep hdrop
  above := by
    intro id n h
    obtain ⟨m, -, hm⟩ := hdropped.above_next hrep hdrop id n h
    exact ⟨m, hm⟩
  below := by
    intro m id n hm hchild
    have hmlive := ((hdropped.live_iff hrep hdrop m).mp hm).1
    rw [hdropped.children m id hmlive] at hchild
    split at hchild
    · cases hchild
    · next hid =>
        obtain ⟨hold, hup⟩ := hrep.below m id n hmlive hchild
        exact ⟨(hdropped.loc_iff _ _ _).mpr ⟨hid, hold⟩, by rw [hdropped.parents, hup]⟩
  parent_inner := by
    intro id n i h
    rw [hdropped.segment_get hrep hdrop h (Nat.le_succ i),
      hrep.parent_inner id n i ((hdropped.loc_iff id n _).mp h).2]
  parent_head := by
    intro id n m h hm
    obtain ⟨m', hne, hm', -⟩ := hdropped.above_next hrep hdrop id n h
    obtain rfl : m' = m := by simpa [hm'] using hm
    rw [hdropped.parents] at hm
    rw [hdropped.segments m' hne, hrep.parent_head id n m' ((hdropped.loc_iff id n 0).mp h).2 hm]
  parent_ne := by
    intro n m hn hm
    rw [hdropped.parents] at hm
    exact hrep.parent_ne n m ((hdropped.live_iff hrep hdrop n).mp hn).1 hm
  leaves := hdropped.leaves_next hrep hdrop
  domain := by
    intro id
    simp only [hdropped.loc_iff, List.mem_filter, hrep.domain, decide_eq_true_eq, ne_eq]
    grind

end BlockDropped

theorem dropBlock_represents (hrep : Represents tree parent keys) (hdrop : Droppable tree node above index blockId) :
    Represents (dropBlock blockId node above tree) parent (keys.filter fun q => q ≠ blockId) := by
  rcases Nat.eq_zero_or_pos index with hindex | hindex
  · exact (blockDropped_remove hrep hdrop hindex).represents hrep hdrop
  · exact (blockDropped_shrink hrep hdrop hindex).represents hrep hdrop

end DropBlock

end RadixTreeBackend
