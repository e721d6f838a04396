import SparseEngine.RadixTree.Model
import SparseEngine.Lib.Forest

/-!
# When a radix tree represents a forest

`Represents tree parent keys` says that the heap, the location map and the
leaf set of a compressed tree encode the forest on `keys` with the given
parent function.  It is stated through the location map: a node is live when
it is the root or some id is located in it, and every condition is about live
nodes only, so stale nodes left in the heap do not matter.

The two ways of splitting an edge, adding a path below a node and dropping the
last block of an edge each keep it.
-/

namespace RadixTreeBackend

variable {Id : Type} [DecidableEq Id]

/-! ## The location map -/

variable {node : ℕ} {segment : List Id} {locations : Dict Id (ℕ × ℕ)} {q : Id}

theorem get?_indexSegmentFrom_of_not_mem {index : ℕ} (hq : q ∉ segment) :
    (indexSegmentFrom node index segment locations).get? q = locations.get? q := by
  induction segment generalizing index locations with
  | nil => rfl
  | cons x rest ih =>
      rw [List.mem_cons, not_or] at hq
      rw [indexSegmentFrom, ih hq.2, Dict.get?_set_of_ne _ _ hq.1]

theorem get?_indexSegmentFrom {index : ℕ} (hnodup : segment.Nodup) {j : ℕ} (hq : segment[j]? = some q) :
    (indexSegmentFrom node index segment locations).get? q = some (node, index + j) := by
  induction segment generalizing index locations j with
  | nil => simp at hq
  | cons x rest ih =>
      rw [List.nodup_cons] at hnodup
      cases j with
      | zero =>
          rw [List.getElem?_cons_zero, Option.some.injEq] at hq
          subst hq
          rw [indexSegmentFrom, get?_indexSegmentFrom_of_not_mem hnodup.1, Dict.get?_set_self]
          rfl
      | succ j =>
          rw [List.getElem?_cons_succ] at hq
          rw [indexSegmentFrom, ih hnodup.2 hq]
          congr 2
          omega

theorem get?_unindex (segment : List Id) (locations : Dict Id (ℕ × ℕ)) (q : Id) :
    (segment.foldl Dict.erase locations).get? q =
      if q ∈ segment then none else locations.get? q := by
  induction segment generalizing locations with
  | nil => simp
  | cons x rest ih =>
      rw [List.foldl_cons, ih]
      by_cases hx : q = x <;> simp [hx]

/-! ## The representation relation -/

/-- The root, or a node some id is located in. -/
def Live (tree : RadixTreeBackend Id) (node : ℕ) : Prop :=
  node = root ∨ ∃ id i, tree.locations.get? id = some (node, i)

/-- The tree encodes the forest on `keys` with parent function `parent`. -/
structure Represents (tree : RadixTreeBackend Id) (parent : Id → Option Id)
    (keys : List Id) : Prop where
  root_segment : (tree.nodes root).segment = []
  root_parent : (tree.nodes root).parent = none
  next_pos : root < tree.nextNode
  located : ∀ id n i, tree.locations.get? id = some (n, i) →
    n ≠ root ∧ n < tree.nextNode ∧ (tree.nodes n).segment[i]? = some id
  covered : ∀ id n i, tree.locations.get? id = some (n, i) →
    ∀ j id', (tree.nodes n).segment[j]? = some id' → tree.locations.get? id' = some (n, j)
  above : ∀ id n, tree.locations.get? id = some (n, 0) →
    ∃ m, (tree.nodes n).parent = some m ∧ tree.Live m ∧
      (tree.nodes m).children.get? id = some n
  below : ∀ m id n, tree.Live m → (tree.nodes m).children.get? id = some n →
    tree.locations.get? id = some (n, 0) ∧ (tree.nodes n).parent = some m
  parent_inner : ∀ id n i, tree.locations.get? id = some (n, i + 1) →
    parent id = (tree.nodes n).segment[i]?
  parent_head : ∀ id n m, tree.locations.get? id = some (n, 0) →
    (tree.nodes n).parent = some m → parent id = (tree.nodes m).segment.getLast?
  parent_ne : ∀ n m, tree.Live n → (tree.nodes n).parent = some m → m ≠ n
  leaves : ∀ id, id ∈ tree.leafBlockIds ↔
    ∃ n i, tree.locations.get? id = some (n, i) ∧ i + 1 = (tree.nodes n).segment.length ∧
      (tree.nodes n).children.entries = []
  domain : ∀ id, id ∈ keys ↔ ∃ n i, tree.locations.get? id = some (n, i)

namespace Represents

variable {tree : RadixTreeBackend Id} {parent : Id → Option Id} {keys : List Id}

variable {id : Id} {n i : ℕ}

theorem not_mem_keys_iff (hrep : Represents tree parent keys) :
    id ∉ keys ↔ tree.locations.get? id = none := by
  rw [hrep.domain]
  rcases tree.locations.get? id with _ | ⟨n, i⟩ <;> simp

theorem segment_nodup (hrep : Represents tree parent keys)
    (hloc : tree.locations.get? id = some (n, i)) : (tree.nodes n).segment.Nodup := by
  rw [List.nodup_iff_getElem?_ne_getElem?]
  intro j k hjk hk heq
  obtain ⟨x, hx⟩ : ∃ x, (tree.nodes n).segment[k]? = some x :=
    ⟨_, List.getElem?_eq_getElem hk⟩
  have hj := hrep.covered id n i hloc j x (heq.trans hx)
  have hk := hrep.covered id n i hloc k x hx
  rw [hj] at hk
  simp only [Option.some.injEq, Prod.mk.injEq, true_and] at hk
  omega

theorem live_of_located (hloc : tree.locations.get? id = some (n, i)) : tree.Live n :=
  Or.inr ⟨id, i, hloc⟩

section

variable (hrep : Represents tree parent keys)

include hrep

theorem live_lt_next (hlive : tree.Live n) : n < tree.nextNode := by
  rcases hlive with rfl | ⟨id, i, hloc⟩
  · exact hrep.next_pos
  · exact (hrep.located id n i hloc).2.1

theorem fresh_not_live : ¬ tree.Live tree.nextNode :=
  fun h => absurd (hrep.live_lt_next h) (lt_irrefl _)

theorem index_lt (hloc : tree.locations.get? id = some (n, i)) :
    i < (tree.nodes n).segment.length := by
  obtain ⟨h, -⟩ := List.getElem?_eq_some_iff.mp (hrep.located id n i hloc).2.2
  exact h

/-- Every id of a live node's segment is located in that node. -/
theorem located_of_mem_segment (hlive : tree.Live n) {j : ℕ}
    (hid : (tree.nodes n).segment[j]? = some id) : tree.locations.get? id = some (n, j) := by
  rcases hlive with rfl | ⟨id', i, hloc⟩
  · rw [hrep.root_segment] at hid
    simp at hid
  · exact hrep.covered id' n i hloc j id hid

/-- An id has at most one place. -/
theorem segment_unique {m j : ℕ} (hm : tree.Live m) (hn : tree.Live n)
    (hi : (tree.nodes m).segment[i]? = some id) (hj : (tree.nodes n).segment[j]? = some id) :
    m = n ∧ i = j := by
  have h := (hrep.located_of_mem_segment hm hi).symm.trans (hrep.located_of_mem_segment hn hj)
  simpa using h

theorem child_live {m : ℕ} (hm : tree.Live m) (hchild : (tree.nodes m).children.get? id = some n) :
    tree.Live n :=
  live_of_located (hrep.below m id n hm hchild).1

/-- Two trees with the same nodes, places and leaves represent the same
forests. -/
theorem congr {other : RadixTreeBackend Id} (hnodes : other.nodes = tree.nodes)
    (hnext : other.nextNode = tree.nextNode) (hloc : ∀ q, other.locations.get? q = tree.locations.get? q)
    (hleaves : other.leafBlockIds = tree.leafBlockIds) : Represents other parent keys := by
  have hlive : ∀ n, other.Live n ↔ tree.Live n := by
    intro n
    simp only [Live, hloc]
  constructor
  all_goals simp only [hnodes, hnext, hloc, hleaves, hlive]
  exacts [hrep.root_segment, hrep.root_parent, hrep.next_pos, hrep.located, hrep.covered,
    hrep.above, hrep.below, hrep.parent_inner, hrep.parent_head, hrep.parent_ne,
    hrep.leaves, hrep.domain]

/-- Only the parents of indexed ids matter. -/
theorem congr_parent {other : Id → Option Id} (hagree : ∀ id ∈ keys, other id = parent id) :
    Represents tree other keys := by
  refine ⟨hrep.root_segment, hrep.root_parent, hrep.next_pos, hrep.located, hrep.covered,
    hrep.above, hrep.below, ?_, ?_, hrep.parent_ne, hrep.leaves, hrep.domain⟩
  · intro id n i hloc
    rw [hagree id ((hrep.domain id).mpr ⟨n, i + 1, hloc⟩), hrep.parent_inner id n i hloc]
  · intro id n m hloc hm
    rw [hagree id ((hrep.domain id).mpr ⟨n, 0, hloc⟩), hrep.parent_head id n m hloc hm]

end

end Represents

/-! ## Cutting an edge in two -/

/-- `next` is `tree` with the edge of `old` cut in two.  One of `upper` and
`lower` is `old` itself and the other one is fresh; pointers up to `old` now go
to `lower` and pointers down to `old` now go to `upper`. -/
structure EdgeSplit (tree next : RadixTreeBackend Id) (old upper lower : ℕ)
    (kept moved : List Id) (cut : Id) : Prop where
  next_eq : next.nextNode = tree.nextNode + 1
  addresses : (upper = old ∧ lower = tree.nextNode) ∨ (upper = tree.nextNode ∧ lower = old)
  segment_eq : (tree.nodes old).segment = kept ++ moved
  kept_ne : kept ≠ []
  cut_eq : moved[0]? = some cut
  upper_eq : next.nodes upper =
    { segment := kept, parent := (tree.nodes old).parent, children := Dict.empty.set cut lower }
  lower_eq : next.nodes lower =
    { segment := moved, parent := some upper, children := (tree.nodes old).children }
  segments : ∀ x, tree.Live x → x ≠ old → (next.nodes x).segment = (tree.nodes x).segment
  parents : ∀ x, tree.Live x → x ≠ old → (next.nodes x).parent =
    if (tree.nodes x).parent = some old then some lower else (tree.nodes x).parent
  children : ∀ x, tree.Live x → x ≠ old → ∀ k, (next.nodes x).children.get? k =
    if (tree.nodes x).children.get? k = some old then some upper
    else (tree.nodes x).children.get? k
  childless : ∀ x, tree.Live x → x ≠ old →
    ((next.nodes x).children.entries = [] ↔ (tree.nodes x).children.entries = [])
  leaves_eq : next.leafBlockIds = tree.leafBlockIds
  kept_loc : ∀ j q, kept[j]? = some q → next.locations.get? q = some (upper, j)
  moved_loc : ∀ j q, moved[j]? = some q → next.locations.get? q = some (lower, j)
  other_loc : ∀ q, q ∉ (tree.nodes old).segment →
    next.locations.get? q = tree.locations.get? q

namespace EdgeSplit

variable {tree next : RadixTreeBackend Id} {parent : Id → Option Id} {keys : List Id}
  {old upper lower : ℕ} {kept moved : List Id} {cut : Id}

variable {j : ℕ} {q : Id}

section

variable (hsplit : EdgeSplit tree next old upper lower kept moved cut)

include hsplit

theorem kept_get (hq : kept[j]? = some q) : (tree.nodes old).segment[j]? = some q := by
  rw [hsplit.segment_eq, List.getElem?_append_left (List.getElem?_eq_some_iff.mp hq).1]
  exact hq

theorem moved_get (hq : moved[j]? = some q) :
    (tree.nodes old).segment[kept.length + j]? = some q := by
  rw [hsplit.segment_eq, List.getElem?_append_right (by omega), Nat.add_sub_cancel_left]
  exact hq

theorem moved_ne : moved ≠ [] := by
  rintro rfl
  simpa using hsplit.cut_eq

end

section

variable (hsplit : EdgeSplit tree next old upper lower kept moved cut)
  (hrep : Represents tree parent keys) (hlive : tree.Live old)

include hsplit hrep hlive

/-- Where an id is after the cut. -/
theorem loc_iff (q : Id) (x j : ℕ) :
    next.locations.get? q = some (x, j) ↔
      (x = upper ∧ kept[j]? = some q) ∨ (x = lower ∧ moved[j]? = some q) ∨
        (x ≠ old ∧ tree.locations.get? q = some (x, j)) := by
  constructor
  · intro hloc
    by_cases hq : q ∈ (tree.nodes old).segment
    · rw [hsplit.segment_eq, List.mem_append] at hq
      rcases hq with hq | hq
      · obtain ⟨i, hi⟩ := List.getElem?_of_mem hq
        rw [hsplit.kept_loc i q hi] at hloc
        simp only [Option.some.injEq, Prod.mk.injEq] at hloc
        exact Or.inl ⟨hloc.1.symm, hloc.2 ▸ hi⟩
      · obtain ⟨i, hi⟩ := List.getElem?_of_mem hq
        rw [hsplit.moved_loc i q hi] at hloc
        simp only [Option.some.injEq, Prod.mk.injEq] at hloc
        exact Or.inr (Or.inl ⟨hloc.1.symm, hloc.2 ▸ hi⟩)
    · rw [hsplit.other_loc q hq] at hloc
      refine Or.inr (Or.inr ⟨?_, hloc⟩)
      rintro rfl
      exact hq (List.mem_of_getElem? (hrep.located q x j hloc).2.2)
  · rintro (⟨rfl, hq⟩ | ⟨rfl, hq⟩ | ⟨hx, hloc⟩)
    · exact hsplit.kept_loc j q hq
    · exact hsplit.moved_loc j q hq
    · rw [hsplit.other_loc q, hloc]
      intro hmem
      obtain ⟨i, hi⟩ := List.getElem?_of_mem hmem
      rw [hrep.located_of_mem_segment hlive hi] at hloc
      simp only [Option.some.injEq, Prod.mk.injEq] at hloc
      exact hx hloc.1.symm

theorem live_iff (x : ℕ) : next.Live x ↔ tree.Live x ∨ x = tree.nextNode := by
  have hloc := hsplit.loc_iff hrep hlive
  have haddr := hsplit.addresses
  have hhead : kept[0]? = some (kept.head hsplit.kept_ne) := by
    rw [← List.head?_eq_getElem?, List.head?_eq_some_head]
  have hupper := (hloc _ upper 0).mpr (Or.inl ⟨rfl, hhead⟩)
  have hlower := (hloc cut lower 0).mpr (Or.inr (Or.inl ⟨rfl, hsplit.cut_eq⟩))
  constructor
  · rintro (rfl | ⟨id, j, h⟩)
    · exact Or.inl (Or.inl rfl)
    · rcases (hloc id x j).mp h with ⟨rfl, -⟩ | ⟨rfl, -⟩ | ⟨-, h⟩
      · grind
      · grind
      · exact Or.inl (Or.inr ⟨id, j, h⟩)
  · intro h
    by_cases hx : x = upper ∨ x = lower
    · rcases hx with rfl | rfl
      · exact Or.inr ⟨_, 0, hupper⟩
      · exact Or.inr ⟨cut, 0, hlower⟩
    · rcases h with (rfl | ⟨id, j, h⟩) | rfl
      · exact Or.inl rfl
      · exact Or.inr ⟨id, j, (hloc id x j).mpr (Or.inr (Or.inr ⟨by grind, h⟩))⟩
      · grind

/-- A live node other than the two halves was live and was not the old one. -/
theorem live_other {x : ℕ} (hx : next.Live x) (hupper : x ≠ upper) (hlower : x ≠ lower) :
    tree.Live x ∧ x ≠ old := by
  have haddr := hsplit.addresses
  have := (hsplit.live_iff hrep hlive x).mp hx
  grind

/-- The parent of the old node is live and is neither half. -/
theorem old_parent {m : ℕ} (hm : (tree.nodes old).parent = some m) :
    tree.Live m ∧ m ≠ old ∧ (tree.nodes m).children.get? (kept.head hsplit.kept_ne) = some old := by
  have hhead : kept[0]? = some (kept.head hsplit.kept_ne) := by
    rw [← List.head?_eq_getElem?, List.head?_eq_some_head]
  obtain ⟨m', hm', hmlive, hchild⟩ :=
    hrep.above _ old (hrep.located_of_mem_segment hlive (hsplit.kept_get hhead))
  obtain rfl : m' = m := by simpa [hm'] using hm
  exact ⟨hmlive, hrep.parent_ne old m' hlive hm', hchild⟩

theorem located_next (hroot : old ≠ root) (id : Id) (n i : ℕ) (h : next.locations.get? id = some (n, i)) :
    n ≠ root ∧ n < next.nextNode ∧ (next.nodes n).segment[i]? = some id := by
  have hlt := hrep.live_lt_next hlive
  have hpos := hrep.next_pos
  have haddr := hsplit.addresses
  have hnext := hsplit.next_eq
  rcases (hsplit.loc_iff hrep hlive id n i).mp h with ⟨rfl, h⟩ | ⟨rfl, h⟩ | ⟨hn, h⟩
  · exact ⟨by grind, by grind, by rw [hsplit.upper_eq]; exact h⟩
  · exact ⟨by grind, by grind, by rw [hsplit.lower_eq]; exact h⟩
  · obtain ⟨hne, hbound, hget⟩ := hrep.located id n i h
    exact ⟨hne, by omega, by
      rw [hsplit.segments n (Represents.live_of_located h) hn]; exact hget⟩

theorem covered_next (id : Id) (n i : ℕ) (h : next.locations.get? id = some (n, i)) (j : ℕ)
    (id' : Id) (hj : (next.nodes n).segment[j]? = some id') :
    next.locations.get? id' = some (n, j) := by
  have haddr := hsplit.addresses
  rcases (hsplit.loc_iff hrep hlive id n i).mp h with ⟨rfl, h⟩ | ⟨rfl, h⟩ | ⟨hn, h⟩
  · exact hsplit.kept_loc j id' (by simpa [hsplit.upper_eq] using hj)
  · exact hsplit.moved_loc j id' (by simpa [hsplit.lower_eq] using hj)
  · rw [hsplit.segments n (Represents.live_of_located h) hn] at hj
    exact (hsplit.loc_iff hrep hlive id' n j).mpr (Or.inr (Or.inr ⟨hn, hrep.covered id n i h j id' hj⟩))

theorem above_next (id : Id) (n : ℕ) (h : next.locations.get? id = some (n, 0)) :
    ∃ m, (next.nodes n).parent = some m ∧ next.Live m ∧ (next.nodes m).children.get? id = some n := by
  have hl := hsplit.live_iff hrep hlive
  have haddr := hsplit.addresses
  rcases (hsplit.loc_iff hrep hlive id n 0).mp h with ⟨rfl, h⟩ | ⟨rfl, h⟩ | ⟨hn, h⟩
  · -- the upper half stands where the old node stood
    obtain ⟨m, hm, hmlive, hmchild⟩ :=
      hrep.above id old (hrep.located_of_mem_segment hlive (hsplit.kept_get h))
    refine ⟨m, by rw [hsplit.upper_eq, hm], (hl m).mpr (Or.inl hmlive), ?_⟩
    rw [hsplit.children m hmlive (hrep.parent_ne old m hlive hm), if_pos hmchild]
  · obtain rfl : cut = id := by simpa [hsplit.cut_eq] using h
    exact ⟨upper, by rw [hsplit.lower_eq], (hl upper).mpr (by grind), by rw [hsplit.upper_eq, Dict.get?_set_self]⟩
  · obtain ⟨m, hm, hmlive, hmchild⟩ := hrep.above id n h
    have hnlive := Represents.live_of_located h
    by_cases hmold : m = old
    · subst hmold
      refine ⟨lower, by rw [hsplit.parents n hnlive hn, if_pos hm], (hl lower).mpr (by grind), ?_⟩
      rw [hsplit.lower_eq]
      exact hmchild
    · refine ⟨m, by rw [hsplit.parents n hnlive hn, hm]; simp [hmold], (hl m).mpr (Or.inl hmlive), ?_⟩
      rw [hsplit.children m hmlive hmold, hmchild]
      simp [hn]

theorem below_next (m : ℕ) (id : Id) (n : ℕ) (hm : next.Live m) (hchild : (next.nodes m).children.get? id = some n) :
    next.locations.get? id = some (n, 0) ∧ (next.nodes n).parent = some m := by
  have hloc := hsplit.loc_iff hrep hlive
  by_cases hmup : m = upper
  · subst hmup
    rw [hsplit.upper_eq, Dict.get?_set, Dict.get?_empty] at hchild
    split at hchild
    · next hid =>
        obtain rfl : lower = n := by simpa using hchild
        exact ⟨(hloc id lower 0).mpr (Or.inr (Or.inl ⟨rfl, hid ▸ hsplit.cut_eq⟩)), by rw [hsplit.lower_eq]⟩
    · simp at hchild
  by_cases hmlow : m = lower
  · subst hmlow
    rw [hsplit.lower_eq] at hchild
    obtain ⟨hid, hparent⟩ := hrep.below old id n hlive hchild
    have hnlive := Represents.live_of_located hid
    have hnold : n ≠ old := (hrep.parent_ne n old hnlive hparent).symm
    exact ⟨(hloc id n 0).mpr (Or.inr (Or.inr ⟨hnold, hid⟩)), by
      rw [hsplit.parents n hnlive hnold, if_pos hparent]⟩
  obtain ⟨hmlive, hmold⟩ := hsplit.live_other hrep hlive hm hmup hmlow
  rw [hsplit.children m hmlive hmold] at hchild
  split at hchild
  · next hold =>
      obtain rfl : upper = n := by simpa using hchild
      obtain ⟨hid, hparent⟩ := hrep.below m id old hmlive hold
      refine ⟨(hloc id upper 0).mpr (Or.inl ⟨rfl, ?_⟩), by rw [hsplit.upper_eq]; exact hparent⟩
      have hhead := (hrep.located id old 0 hid).2.2
      rwa [hsplit.segment_eq, List.getElem?_append_left (List.length_pos_iff.mpr hsplit.kept_ne)] at hhead
  · next hnot =>
      obtain ⟨hid, hparent⟩ := hrep.below m id n hmlive hchild
      have hnlive := Represents.live_of_located hid
      have hnold : n ≠ old := by
        rintro rfl
        exact hnot hchild
      exact ⟨(hloc id n 0).mpr (Or.inr (Or.inr ⟨hnold, hid⟩)), by
        rw [hsplit.parents n hnlive hnold, hparent]; simp [hmold]⟩

theorem parent_inner_next (id : Id) (n i : ℕ) (h : next.locations.get? id = some (n, i + 1)) :
    parent id = (next.nodes n).segment[i]? := by
  rcases (hsplit.loc_iff hrep hlive id n _).mp h with ⟨rfl, h⟩ | ⟨rfl, h⟩ | ⟨hn, h⟩
  · have hlt := (List.getElem?_eq_some_iff.mp h).1
    rw [hrep.parent_inner id old i (hrep.located_of_mem_segment hlive (hsplit.kept_get h)),
      hsplit.upper_eq, hsplit.segment_eq, List.getElem?_append_left (by omega)]
  · rw [hrep.parent_inner id old (kept.length + i) (hrep.located_of_mem_segment hlive (hsplit.moved_get h)),
      hsplit.lower_eq, hsplit.segment_eq, List.getElem?_append_right (by omega),
      Nat.add_sub_cancel_left]
  · rw [hsplit.segments n (Represents.live_of_located h) hn, hrep.parent_inner id n i h]

theorem parent_head_next (id : Id) (n m : ℕ) (h : next.locations.get? id = some (n, 0))
    (hm : (next.nodes n).parent = some m) : parent id = (next.nodes m).segment.getLast? := by
  rcases (hsplit.loc_iff hrep hlive id n 0).mp h with ⟨rfl, h⟩ | ⟨rfl, h⟩ | ⟨hn, h⟩
  · rw [hsplit.upper_eq] at hm
    obtain ⟨hmlive, hmold, -⟩ := hsplit.old_parent hrep hlive hm
    rw [hsplit.segments m hmlive hmold, hrep.parent_head id old m
      (hrep.located_of_mem_segment hlive (hsplit.kept_get h)) hm]
  · -- the id at the cut hangs below the last id that was kept
    rw [hsplit.lower_eq] at hm
    obtain rfl : upper = m := by simpa using hm
    obtain ⟨k, hk⟩ : ∃ k, kept.length = k + 1 :=
      Nat.exists_eq_succ_of_ne_zero (by simpa using hsplit.kept_ne)
    have hid := hrep.located_of_mem_segment hlive (hsplit.moved_get h)
    rw [hk, Nat.add_zero] at hid
    rw [hrep.parent_inner id old k hid, hsplit.upper_eq, hsplit.segment_eq,
      List.getElem?_append_left (by omega), List.getLast?_eq_getElem?]
    simp [hk]
  · have hnlive := Represents.live_of_located h
    rw [hsplit.parents n hnlive hn] at hm
    split at hm
    · next hold =>
        obtain rfl : lower = m := by simpa using hm
        rw [hrep.parent_head id n old h hold, hsplit.lower_eq, hsplit.segment_eq,
          List.getLast?_append_of_ne_nil _ hsplit.moved_ne]
    · next hnot =>
        obtain ⟨m', hm', hmlive, -⟩ := hrep.above id n h
        obtain rfl : m' = m := by simpa [hm'] using hm
        rw [hsplit.segments m' hmlive (by rintro rfl; exact hnot hm'), hrep.parent_head id n m' h hm']

theorem parent_ne_next (n m : ℕ) (hn : next.Live n) (hm : (next.nodes n).parent = some m) :
    m ≠ n := by
  have haddr := hsplit.addresses
  have hlt := hrep.live_lt_next hlive
  have hfresh := hrep.fresh_not_live
  by_cases hnup : n = upper
  · subst hnup
    rw [hsplit.upper_eq] at hm
    obtain ⟨hmlive, hmold, -⟩ := hsplit.old_parent hrep hlive hm
    grind
  by_cases hnlow : n = lower
  · subst hnlow
    rw [hsplit.lower_eq] at hm
    grind
  obtain ⟨hnlive, hnold⟩ := hsplit.live_other hrep hlive hn hnup hnlow
  rw [hsplit.parents n hnlive hnold] at hm
  split at hm
  · grind
  · exact hrep.parent_ne n m hnlive hm

theorem leaves_next (id : Id) :
    id ∈ next.leafBlockIds ↔
      ∃ n i, next.locations.get? id = some (n, i) ∧ i + 1 = (next.nodes n).segment.length ∧
        (next.nodes n).children.entries = [] := by
  have hloc := hsplit.loc_iff hrep hlive
  have hlength : (tree.nodes old).segment.length = kept.length + moved.length := by
    rw [hsplit.segment_eq, List.length_append]
  rw [hsplit.leaves_eq, hrep.leaves]
  constructor
  · rintro ⟨n, i, h, hlast, hchildless⟩
    by_cases hn : n = old
    · -- a leaf of the old edge is the last id of the lower half
      subst hn
      have hpos := List.length_pos_iff.mpr hsplit.moved_ne
      have hget := (hrep.located id n i h).2.2
      rw [hsplit.segment_eq, List.getElem?_append_right (by omega)] at hget
      refine ⟨lower, i - kept.length, (hloc _ _ _).mpr (Or.inr (Or.inl ⟨rfl, hget⟩)), ?_, ?_⟩
      · rw [hsplit.lower_eq]
        dsimp only
        omega
      · rw [hsplit.lower_eq]
        exact hchildless
    · have hnlive := Represents.live_of_located h
      exact ⟨n, i, (hloc _ _ _).mpr (Or.inr (Or.inr ⟨hn, h⟩)), by
        rw [hsplit.segments n hnlive hn]; exact hlast, (hsplit.childless n hnlive hn).mpr hchildless⟩
  · rintro ⟨n, i, h, hlast, hchildless⟩
    rcases (hloc id n i).mp h with ⟨rfl, h⟩ | ⟨rfl, h⟩ | ⟨hn, h⟩
    · rw [hsplit.upper_eq] at hchildless
      have hnone : (Dict.empty.set cut lower : Dict Id ℕ).get? cut = none := by
        rw [Dict.get?, hchildless]
        rfl
      simp at hnone
    · rw [hsplit.lower_eq] at hlast hchildless
      exact ⟨old, kept.length + i, hrep.located_of_mem_segment hlive (hsplit.moved_get h),
        by dsimp only at hlast; omega, hchildless⟩
    · have hnlive := Represents.live_of_located h
      rw [hsplit.segments n hnlive hn] at hlast
      exact ⟨n, i, h, hlast, (hsplit.childless n hnlive hn).mp hchildless⟩

theorem domain_next (id : Id) : id ∈ keys ↔ ∃ n i, next.locations.get? id = some (n, i) := by
  have hloc := hsplit.loc_iff hrep hlive
  rw [hrep.domain]
  constructor
  · rintro ⟨n, i, h⟩
    by_cases hn : n = old
    · subst hn
      have hget := (hrep.located id n i h).2.2
      rw [hsplit.segment_eq] at hget
      rcases lt_or_ge i kept.length with hlt | hge
      · rw [List.getElem?_append_left hlt] at hget
        exact ⟨upper, i, (hloc _ _ _).mpr (Or.inl ⟨rfl, hget⟩)⟩
      · rw [List.getElem?_append_right hge] at hget
        exact ⟨lower, _, (hloc _ _ _).mpr (Or.inr (Or.inl ⟨rfl, hget⟩))⟩
    · exact ⟨n, i, (hloc _ _ _).mpr (Or.inr (Or.inr ⟨hn, h⟩))⟩
  · rintro ⟨n, i, h⟩
    rcases (hloc id n i).mp h with ⟨rfl, h⟩ | ⟨rfl, h⟩ | ⟨hn, h⟩
    · exact ⟨old, i, hrep.located_of_mem_segment hlive (hsplit.kept_get h)⟩
    · exact ⟨old, _, hrep.located_of_mem_segment hlive (hsplit.moved_get h)⟩
    · exact ⟨n, i, h⟩

/-- **Cutting an edge does not change the forest.** -/
theorem represents (hroot : old ≠ root) : Represents next parent keys where
  root_segment := by rw [hsplit.segments root (Or.inl rfl) hroot.symm, hrep.root_segment]
  root_parent := by
    rw [hsplit.parents root (Or.inl rfl) hroot.symm, hrep.root_parent]
    simp
  next_pos := by rw [hsplit.next_eq]; exact Nat.succ_pos _
  located := hsplit.located_next hrep hlive hroot
  covered := hsplit.covered_next hrep hlive
  above := hsplit.above_next hrep hlive
  below := hsplit.below_next hrep hlive
  parent_inner := hsplit.parent_inner_next hrep hlive
  parent_head := hsplit.parent_head_next hrep hlive
  parent_ne := hsplit.parent_ne_next hrep hlive
  leaves := hsplit.leaves_next hrep hlive
  domain := hsplit.domain_next hrep hlive

end

end EdgeSplit

theorem represents_init (parent : Id → Option Id) :
    Represents (init : RadixTreeBackend Id) parent [] := by
  constructor <;> simp [init, root, Live]

end RadixTreeBackend
