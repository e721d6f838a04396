import SparseEngine.RadixTree.Operations

/-!
# The queries of the radix tree

What the read-only methods return when the tree represents a forest, each in
the terms of the forest: the path to a block is its ancestor chain, the child
queries return the children, the leaf set holds the childless blocks, the
subtree query lists the descendants once each, and the lookup finds the
longest root path.
-/

namespace RadixTreeBackend

open Forest

variable {Id : Type} [DecidableEq Id]
variable {tree : RadixTreeBackend Id} {parent : Id → Option Id} {keys : List Id}

namespace Represents

variable (hrep : Represents tree parent keys)

include hrep

variable {n : ℕ} {b : Id} {considered done : List Id} {result : RadixLookupResult Id}

theorem mem_keys {id : Id} {i : ℕ} (hloc : tree.locations.get? id = some (n, i)) : id ∈ keys :=
  (hrep.domain id).mpr ⟨n, i, hloc⟩

/-- A live node other than the root has a first block. -/
theorem exists_head (hlive : tree.Live n) (hroot : n ≠ root) :
    ∃ head, (tree.nodes n).segment[0]? = some head ∧ tree.locations.get? head = some (n, 0) := by
  rcases hlive with h | ⟨id, i, hloc⟩
  · exact absurd h hroot
  · have hlt := hrep.index_lt hloc
    obtain ⟨head, hhead⟩ : ∃ head, (tree.nodes n).segment[0]? = some head :=
      ⟨_, List.getElem?_eq_getElem (by omega)⟩
    exact ⟨head, hhead, hrep.covered id n i hloc 0 head hhead⟩

/-- A live node other than the root has a last block. -/
theorem exists_last (hlive : tree.Live n) (hroot : n ≠ root) :
    ∃ last, (tree.nodes n).segment.getLast? = some last ∧
      tree.locations.get? last = some (n, (tree.nodes n).segment.length - 1) := by
  obtain ⟨head, hhead, -⟩ := hrep.exists_head hlive hroot
  have hlt := (List.getElem?_eq_some_iff.mp hhead).1
  obtain ⟨last, hlast⟩ : ∃ last, (tree.nodes n).segment[(tree.nodes n).segment.length - 1]? = some last :=
    ⟨_, List.getElem?_eq_getElem (by omega)⟩
  exact ⟨last, by rw [List.getLast?_eq_getElem?, hlast], hrep.located_of_mem_segment hlive hlast⟩

/-- The parent of a block is a block. -/
theorem parent_mem {id p : Id} (hid : id ∈ keys) (hp : parent id = some p) : p ∈ keys := by
  obtain ⟨n, i, hloc⟩ := (hrep.domain id).mp hid
  cases i with
  | zero =>
      obtain ⟨m, hm, hmlive, -⟩ := hrep.above id n hloc
      rw [hrep.parent_head id n m hloc hm, List.getLast?_eq_getElem?] at hp
      exact hrep.mem_keys (hrep.located_of_mem_segment hmlive hp)
  | succ i =>
      rw [hrep.parent_inner id n i hloc] at hp
      exact hrep.mem_keys (hrep.covered id n _ hloc i p hp)

/-- The children of a block inside an edge and of the last block of an edge. -/
theorem child_iff {i : ℕ} (hloc : tree.locations.get? b = some (n, i)) (c : Id) :
    (c ∈ keys ∧ parent c = some b) ↔
      (tree.nodes n).segment[i + 1]? = some c ∨
        (i + 1 = (tree.nodes n).segment.length ∧ ∃ child, (tree.nodes n).children.get? c = some child) := by
  have hlive := live_of_located hloc
  have hb := (hrep.located b n i hloc).2.2
  have hlt := hrep.index_lt hloc
  constructor
  · rintro ⟨hc, hparent⟩
    obtain ⟨n', i', hcloc⟩ := (hrep.domain c).mp hc
    cases i' with
    | zero =>
        obtain ⟨m, hm, hmlive, hchild⟩ := hrep.above c n' hcloc
        rw [hrep.parent_head c n' m hcloc hm, List.getLast?_eq_getElem?] at hparent
        obtain ⟨rfl, hi⟩ := hrep.segment_unique hlive hmlive hb hparent
        exact Or.inr ⟨by omega, n', hchild⟩
    | succ i' =>
        rw [hrep.parent_inner c n' i' hcloc] at hparent
        obtain ⟨rfl, rfl⟩ := hrep.segment_unique hlive (live_of_located hcloc) hb hparent
        exact Or.inl (hrep.located c n _ hcloc).2.2
  · rintro (hnext | ⟨hlast, child, hchild⟩)
    · have hcloc := hrep.located_of_mem_segment hlive hnext
      exact ⟨hrep.mem_keys hcloc, by rw [hrep.parent_inner c n i hcloc, hb]⟩
    · obtain ⟨hcloc, hup⟩ := hrep.below n c child hlive hchild
      refine ⟨hrep.mem_keys hcloc, ?_⟩
      rw [hrep.parent_head c child n hcloc hup, List.getLast?_eq_getElem?, ← hlast, Nat.add_sub_cancel, hb]

/-- The blocks without a parent are the ones right below the root. -/
theorem root_iff (c : Id) :
    (c ∈ keys ∧ parent c = none) ↔ ∃ child, (tree.nodes root).children.get? c = some child := by
  constructor
  · rintro ⟨hc, hparent⟩
    obtain ⟨n, i, hcloc⟩ := (hrep.domain c).mp hc
    cases i with
    | zero =>
        obtain ⟨m, hm, hmlive, hchild⟩ := hrep.above c n hcloc
        rw [hrep.parent_head c n m hcloc hm] at hparent
        by_cases hroot : m = root
        · exact ⟨n, hroot ▸ hchild⟩
        · obtain ⟨last, hlast, -⟩ := hrep.exists_last hmlive hroot
          rw [hlast] at hparent
          cases hparent
    | succ i =>
        have hlt := hrep.index_lt hcloc
        rw [hrep.parent_inner c n i hcloc, List.getElem?_eq_none_iff] at hparent
        omega
  · rintro ⟨child, hchild⟩
    obtain ⟨hcloc, hup⟩ := hrep.below root c child (Or.inl rfl) hchild
    exact ⟨hrep.mem_keys hcloc, by
      rw [hrep.parent_head c child root hcloc hup, hrep.root_segment]; rfl⟩

/-- The blocks that continue a path to the end of an edge are those under which
the node has a child. -/
theorem continue_iff (hlive : tree.Live n) (x : Id) :
    (x ∈ keys ∧ parent x = (tree.nodes n).segment.getLast?) ↔
      ∃ child, (tree.nodes n).children.get? x = some child := by
  by_cases hroot : n = root
  · rw [hroot, hrep.root_segment]
    exact hrep.root_iff x
  · obtain ⟨last, hlast, hloc⟩ := hrep.exists_last hlive hroot
    have hbound := hrep.index_lt hloc
    rw [hlast, hrep.child_iff hloc x, List.getElem?_eq_none (by omega)]
    simp only [reduceCtorEq, false_or, and_iff_right_iff_imp]
    omega

/-! ## Children and leaves -/

theorem filterMap_head_children (hlive : tree.Live n) :
    ((tree.nodes n).children.values.filterMap fun child => (tree.nodes child).segment.head?) =
      (tree.nodes n).children.keys := by
  have hentries : ∀ entry ∈ (tree.nodes n).children.entries, (tree.nodes entry.2).segment.head? = some entry.1 := by
    rintro ⟨k, child⟩ hmem
    have hloc := (hrep.below n k child hlive (Dict.get?_eq_some_iff.mpr hmem)).1
    rw [List.head?_eq_getElem?]
    exact (hrep.located k child 0 hloc).2.2
  rw [Dict.values, Dict.keys, List.filterMap_map, ← List.filterMap_eq_map]
  exact List.filterMap_congr hentries

/-- `child_block_ids` and `child_count`. -/
theorem childBlockIds_eq (hb : b ∈ keys) :
    ∃ children, tree.childBlockIds b = .ok children ∧ children.Nodup ∧ tree.childCount b = .ok children.length ∧
      ∀ c, c ∈ children ↔ c ∈ keys ∧ parent c = some b := by
  obtain ⟨n, i, hloc⟩ := (hrep.domain b).mp hb
  have hlive := live_of_located hloc
  have hlt := hrep.index_lt hloc
  have hiff := hrep.child_iff hloc
  simp only [childBlockIds, childCount, hloc]
  cases hnext : (tree.nodes n).segment[i + 1]? with
  | some next =>
      have hbound := (List.getElem?_eq_some_iff.mp hnext).1
      refine ⟨[next], rfl, List.nodup_singleton next, by rw [if_pos hbound]; rfl, fun c => ?_⟩
      rw [hiff c, hnext, List.mem_singleton]
      constructor
      · rintro rfl
        exact Or.inl rfl
      · rintro (h | ⟨hlast, -⟩)
        · simpa using h.symm
        · omega
  | none =>
      have hbound := List.getElem?_eq_none_iff.mp hnext
      rw [hrep.filterMap_head_children hlive]
      refine ⟨_, rfl, Dict.keys_nodup _, by rw [if_neg (by omega), Dict.length_keys], fun c => ?_⟩
      rw [hiff c, hnext, Dict.mem_keys_iff]
      constructor
      · intro h
        exact Or.inr ⟨by omega, h⟩
      · rintro (h | ⟨-, h⟩)
        · cases h
        · exact h

/-- `leaf_block_ids`. -/
theorem mem_leaves_iff (b : Id) :
    b ∈ tree.leafBlockIds ↔ b ∈ keys ∧ ∀ c ∈ keys, parent c ≠ some b := by
  rw [hrep.leaves]
  constructor
  · rintro ⟨n, i, hloc, hlast, hchildless⟩
    refine ⟨hrep.mem_keys hloc, fun c hc hparent => ?_⟩
    rcases (hrep.child_iff hloc c).mp ⟨hc, hparent⟩ with hnext | ⟨-, child, hchild⟩
    · have := (List.getElem?_eq_some_iff.mp hnext).1
      omega
    · exact Dict.entries_ne_nil_of_get? hchild hchildless
  · rintro ⟨hb, hnone⟩
    obtain ⟨n, i, hloc⟩ := (hrep.domain b).mp hb
    have hlt := hrep.index_lt hloc
    have hno : ∀ c, ¬ ((tree.nodes n).segment[i + 1]? = some c ∨
        (i + 1 = (tree.nodes n).segment.length ∧ ∃ child, (tree.nodes n).children.get? c = some child)) := by
      intro c hc
      obtain ⟨hkey, hparent⟩ := (hrep.child_iff hloc c).mpr hc
      exact hnone c hkey hparent
    have hlast : i + 1 = (tree.nodes n).segment.length := by
      by_contra hne
      exact hno _ (Or.inl (List.getElem?_eq_getElem (by omega)))
    refine ⟨n, i, hloc, hlast, ?_⟩
    rw [List.eq_nil_iff_forall_not_mem]
    rintro ⟨k, child⟩ hmem
    exact hno k (Or.inr ⟨hlast, child, Dict.get?_eq_some_iff.mpr hmem⟩)

theorem locations_size (hnodup : keys.Nodup) : tree.locations.size = keys.length := by
  rw [← Dict.length_keys]
  apply List.Perm.length_eq
  rw [List.perm_ext_iff_of_nodup tree.locations.keys_nodup hnodup]
  intro id
  rw [Dict.mem_keys_iff, hrep.domain]
  constructor
  · rintro ⟨⟨n, i⟩, h⟩
    exact ⟨n, i, h⟩
  · rintro ⟨n, i, h⟩
    exact ⟨⟨n, i⟩, h⟩

/-! ## The order of the blocks along an edge -/

section

variable (hfirst : ParentsFirst parent keys) (hnodup : keys.Nodup)

include hfirst hnodup

variable {a b head : Id} {n i : ℕ}

theorem idxOf_segment_le {j : ℕ} (hij : i ≤ j) (ha : tree.locations.get? a = some (n, i))
    (hb : tree.locations.get? b = some (n, j)) : keys.idxOf a ≤ keys.idxOf b := by
  induction j generalizing b with
  | zero =>
      obtain rfl : i = 0 := by omega
      have hget := (hrep.located a n 0 ha).2.2
      rw [(hrep.located b n 0 hb).2.2] at hget
      obtain rfl : b = a := by simpa using hget
      exact le_rfl
  | succ j ih =>
      rcases Nat.lt_or_ge i (j + 1) with hlt | hge
      · have hbound := hrep.index_lt hb
        obtain ⟨c, hc⟩ : ∃ c, (tree.nodes n).segment[j]? = some c :=
          ⟨_, List.getElem?_eq_getElem (by omega)⟩
        have hcb := hfirst.idxOf_lt hnodup (hrep.mem_keys hb) ((hrep.parent_inner b n j hb).trans hc)
        have hac := ih (by omega) (hrep.covered b n _ hb j c hc)
        omega
      · obtain rfl : i = j + 1 := by omega
        have hget := (hrep.located a n _ ha).2.2
        rw [(hrep.located b n _ hb).2.2] at hget
        obtain rfl : b = a := by simpa using hget
        exact le_rfl

/-- The blocks of a child node come after those of its parent node. -/
theorem idxOf_child_lt {child : ℕ} (ha : tree.locations.get? a = some (n, i))
    (hchild : (tree.nodes n).children.get? head = some child) : keys.idxOf a < keys.idxOf head := by
  have hlive := live_of_located ha
  obtain ⟨hloc, hup⟩ := hrep.below n head child hlive hchild
  obtain ⟨last, hlast, hlastLoc⟩ := hrep.exists_last hlive (hrep.located a n i ha).1
  have hbound := hrep.index_lt ha
  have hle := hrep.idxOf_segment_le hfirst hnodup (by omega) ha hlastLoc
  have hlt := hfirst.idxOf_lt hnodup (hrep.mem_keys hloc) ((hrep.parent_head head child n hloc hup).trans hlast)
  omega

/-! ## The path to a block -/

/-- The walk up from a node completes a chain that starts at its first block to
a path from a root.  The position of that block in `keys` bounds the walk. -/
theorem pathLoop_isRootPath {fuel n : ℕ} {head : Id} {path : List Id}
    (hfuel : keys.idxOf head < fuel) (hloc : tree.locations.get? head = some (n, 0))
    (hhead : path[0]? = some head) (hmem : ∀ x ∈ path, x ∈ keys)
    (hchain : ∀ i x, path[i + 1]? = some x → parent x = path[i]?) :
    IsRootPath parent keys (pathLoop tree fuel n path) ∧ path <:+ pathLoop tree fuel n path := by
  induction fuel generalizing n head path with
  | zero => omega
  | succ fuel ih =>
      obtain ⟨m, hm, hmlive, hchild⟩ := hrep.above head n hloc
      have hparent := hrep.parent_head head n m hloc hm
      rw [pathLoop, hm]
      dsimp only
      by_cases hroot : m = root
      · subst hroot
        have hstop : pathLoop tree fuel root path = path := by
          cases fuel with
          | zero => rfl
          | succ fuel => rw [pathLoop, hrep.root_parent]
        rw [hrep.root_segment] at hparent ⊢
        rw [List.nil_append, hstop]
        refine ⟨fun i x hx => ⟨hmem x (List.mem_of_getElem? hx), ?_⟩, List.suffix_refl _⟩
        cases i with
        | zero =>
            obtain rfl : head = x := by simpa [hhead] using hx
            exact hparent
        | succ i =>
            have hbound := (List.getElem?_eq_some_iff.mp hx).1
            rw [hchain i x hx, List.getLast?_take, if_neg (by omega), Nat.add_sub_cancel,
              List.getElem?_eq_getElem (by omega)]
            rfl
      · obtain ⟨head', hhead', hloc'⟩ := hrep.exists_head hmlive hroot
        have hlt := hrep.idxOf_child_lt hfirst hnodup hloc' hchild
        have hpos := (List.getElem?_eq_some_iff.mp hhead').1
        obtain ⟨hpath, hsuffix⟩ := @ih m head' ((tree.nodes m).segment ++ path) (by omega) hloc'
          (by rw [List.getElem?_append_left hpos]; exact hhead')
          (by
            intro x hx
            rcases List.mem_append.mp hx with hx | hx
            · obtain ⟨j, hj⟩ := List.getElem?_of_mem hx
              exact hrep.mem_keys (hrep.located_of_mem_segment hmlive hj)
            · exact hmem x hx)
          (by
            intro i x hx
            rcases Nat.lt_or_ge (i + 1) (tree.nodes m).segment.length with hlt | hge
            · rw [List.getElem?_append_left hlt] at hx
              rw [List.getElem?_append_left (by omega)]
              exact hrep.parent_inner x m i (hrep.located_of_mem_segment hmlive hx)
            · rw [List.getElem?_append_right hge] at hx
              rcases Nat.eq_or_lt_of_le hge with heq | hgt
              · -- the junction: the first block of the lower node
                rw [heq, Nat.sub_self, hhead] at hx
                obtain rfl : head = x := by simpa using hx
                rw [hparent, List.getElem?_append_left (by omega), List.getLast?_eq_getElem?, heq, Nat.add_sub_cancel]
              · rw [List.getElem?_append_right (by omega)]
                apply hchain
                rw [← hx]
                congr 1
                omega)
        exact ⟨hpath, (List.suffix_append _ _).trans hsuffix⟩

/-- `path_to_block`. -/
theorem pathToBlock_eq (hb : b ∈ keys) :
    ∃ path, tree.pathToBlock b = .ok path ∧ IsRootPath parent keys path ∧ path.getLast? = some b := by
  obtain ⟨n, i, hloc⟩ := (hrep.domain b).mp hb
  have hlive := live_of_located hloc
  have hbound := hrep.index_lt hloc
  obtain ⟨head, hhead, hheadLoc⟩ := hrep.exists_head hlive (hrep.located b n i hloc).1
  have hidx : keys.idxOf head < keys.length :=
    List.idxOf_lt_length_of_mem (hrep.mem_keys hheadLoc)
  simp only [pathToBlock, hloc]
  have hspec : IsRootPath parent keys (pathLoop tree (tree.locations.size + 1) n
      ((tree.nodes n).segment.take (i + 1))) ∧ _ :=
    hrep.pathLoop_isRootPath hfirst hnodup
    (by rw [hrep.locations_size hnodup]; omega) hheadLoc
    (by rw [List.getElem?_take_of_lt (by omega)]; exact hhead)
    (by
      intro x hx
      obtain ⟨j, hj⟩ := List.getElem?_of_mem (List.mem_of_mem_take hx)
      exact hrep.mem_keys (hrep.located_of_mem_segment hlive hj))
    (by
      intro j x hx
      have hj := (List.getElem?_eq_some_iff.mp hx).1
      rw [List.length_take] at hj
      rw [List.getElem?_take_of_lt (by omega)] at hx ⊢
      exact hrep.parent_inner x n j (hrep.located_of_mem_segment hlive hx))
  refine ⟨_, rfl, hspec.1, ?_⟩
  obtain ⟨front, hfront⟩ := hspec.2
  have hlast : ((tree.nodes n).segment.take (i + 1)).getLast? = some b := by
    rw [List.getLast?_eq_getElem?, List.length_take, min_eq_left (by omega), Nat.add_sub_cancel,
      List.getElem?_take_of_lt (by omega)]
    exact (hrep.located b n i hloc).2.2
  rw [← hfront, List.getLast?_append, hlast]
  rfl

/-! ## The subtree below a block -/

omit hfirst hnodup in
/-- What lies below a block: the rest of its edge and what lies below the child
nodes. -/
theorem descends_iff (hloc : tree.locations.get? b = some (n, i)) (d : Id) :
    Descends parent keys d b ↔
      d ∈ (tree.nodes n).segment.drop i ∨
        ∃ head child, (tree.nodes n).children.get? head = some child ∧ Descends parent keys d head := by
  have hlive := live_of_located hloc
  have hbound := hrep.index_lt hloc
  have hsegment := (hrep.located b n i hloc).2.2
  have hdrop : (tree.nodes n).segment.drop i = b :: (tree.nodes n).segment.drop (i + 1) := by
    rw [List.drop_eq_getElem_cons hbound, (List.getElem?_eq_some_iff.mp hsegment).2]
  -- by induction on the number of blocks that follow on the edge
  generalize hk : (tree.nodes n).segment.length - i = k
  induction k generalizing b i with
  | zero => omega
  | succ k ih =>
      have hstep : ∀ {c : Id}, (tree.nodes n).segment[i + 1]? = some c →
          (Descends parent keys d c ↔ d ∈ (tree.nodes n).segment.drop (i + 1) ∨
            ∃ head child, (tree.nodes n).children.get? head = some child ∧ Descends parent keys d head) := by
        intro c hc
        have hcbound := (List.getElem?_eq_some_iff.mp hc).1
        refine ih (hrep.covered b n i hloc _ c hc) hcbound hc ?_ (by omega)
        rw [List.drop_eq_getElem_cons hcbound, (List.getElem?_eq_some_iff.mp hc).2]
      rw [hdrop, List.mem_cons]
      constructor
      · intro hd
        rcases hd.eq_or_below_child with rfl | ⟨c, hc, hparent, hdc⟩
        · exact Or.inl (Or.inl rfl)
        · rcases (hrep.child_iff hloc c).mp ⟨hc, hparent⟩ with hnext | ⟨-, child, hchild⟩
          · rcases (hstep hnext).mp hdc with h | h
            · exact Or.inl (Or.inr h)
            · exact Or.inr h
          · exact Or.inr ⟨c, child, hchild, hdc⟩
      · intro h
        by_cases hlast : i + 1 = (tree.nodes n).segment.length
        · rcases h with (rfl | h) | ⟨head, child, hchild, hd⟩
          · exact Descends.refl d
          · rw [hlast, List.drop_length] at h
            simp at h
          · obtain ⟨hkey, hparent⟩ := (hrep.child_iff hloc head).mpr (Or.inr ⟨hlast, child, hchild⟩)
            exact hd.trans (Descends.of_parent hkey hparent)
        · obtain ⟨c, hc⟩ : ∃ c, (tree.nodes n).segment[i + 1]? = some c :=
            ⟨_, List.getElem?_eq_getElem (by omega)⟩
          obtain ⟨hkey, hparent⟩ := (hrep.child_iff hloc c).mpr (Or.inl hc)
          rcases h with (rfl | h) | h
          · exact Descends.refl d
          · exact ((hstep hc).mpr (Or.inl h)).trans (Descends.of_parent hkey hparent)
          · exact ((hstep hc).mpr (Or.inr h)).trans (Descends.of_parent hkey hparent)

/-- Two child nodes of one node have nothing in common below them. -/
theorem sibling_nodes_disjoint {d head' : Id} {child child' : ℕ} (hloc : tree.locations.get? b = some (n, i))
    (hchild : (tree.nodes n).children.get? head = some child)
    (hchild' : (tree.nodes n).children.get? head' = some child') (hd : Descends parent keys d head)
    (hd' : Descends parent keys d head') : head = head' := by
  have hlive := live_of_located hloc
  obtain ⟨last, hlast, -⟩ := hrep.exists_last hlive (hrep.located b n i hloc).1
  obtain ⟨hmem, hup⟩ := hrep.below n head child hlive hchild
  obtain ⟨hmem', hup'⟩ := hrep.below n head' child' hlive hchild'
  exact Descends.sibling_eq hfirst hnodup (hrep.mem_keys hmem) (hrep.mem_keys hmem')
    ((hrep.parent_head head child n hmem hup).trans hlast)
    ((hrep.parent_head head' child' n hmem' hup').trans hlast) hd hd'

omit [DecidableEq Id] hrep hfirst hnodup in
theorem subtreeLoop_nil (fuel : ℕ) (result : List Id) : subtreeLoop tree fuel [] result = result := by
  cases fuel <;> rfl

/-- What popping one node and everything it pushes does: it takes `steps` pops
and appends `listed`. -/
def Lists (tree : RadixTreeBackend Id) (nodes : List ℕ) (steps : ℕ) (listed : List Id) : Prop :=
  ∀ fuel stack result, subtreeLoop tree (fuel + steps) (nodes ++ stack) result =
    subtreeLoop tree fuel stack (result ++ listed)

section

variable (hloc : tree.locations.get? b = some (n, i))

include hloc

/-- The traversal of some child nodes of one node. -/
theorem lists_children (hnode : ∀ head child, (tree.nodes n).children.get? head = some child →
      ∃ steps listed, Lists tree [child] steps listed ∧ steps ≤ listed.length ∧ listed.Nodup ∧
        ∀ d, d ∈ listed ↔ Descends parent keys d head) (entries : List (Id × ℕ))
    (hkeys : (entries.map Prod.fst).Nodup)
    (hentries : ∀ entry ∈ entries, (tree.nodes n).children.get? entry.1 = some entry.2) :
    ∃ steps listed, Lists tree (entries.map Prod.snd) steps listed ∧ steps ≤ listed.length ∧
      listed.Nodup ∧ ∀ d, d ∈ listed ↔ ∃ entry ∈ entries, Descends parent keys d entry.1 := by
  induction entries with
  | nil => exact ⟨0, [], by intro fuel stack result; simp, le_rfl, List.nodup_nil, by simp⟩
  | cons entry rest ih =>
      obtain ⟨hnot, hkeys⟩ := List.nodup_cons.mp hkeys
      have hhead := hentries entry List.mem_cons_self
      obtain ⟨steps, listed, hlists, hsteps, hlnodup, hmem⟩ := hnode entry.1 entry.2 hhead
      obtain ⟨steps', listed', hlists', hsteps', hlnodup', hmem'⟩ :=
        ih hkeys fun e he => hentries e (List.mem_cons_of_mem _ he)
      refine ⟨steps + steps', listed ++ listed', ?_, by rw [List.length_append]; omega, ?_, ?_⟩
      · intro fuel stack result
        have h := hlists (fuel + steps') (rest.map Prod.snd ++ stack) result
        have h' := hlists' fuel stack (result ++ listed)
        rw [List.singleton_append] at h
        rw [List.map_cons, List.cons_append, ← Nat.add_assoc, Nat.add_right_comm, h, h', List.append_assoc]
      · rw [List.nodup_append]
        refine ⟨hlnodup, hlnodup', ?_⟩
        rintro d hd _ he rfl
        obtain ⟨entry', hentry', hd'⟩ := (hmem' d).mp he
        have heq := hrep.sibling_nodes_disjoint hfirst hnodup hloc hhead
          (hentries entry' (List.mem_cons_of_mem _ hentry')) ((hmem d).mp hd) hd'
        exact hnot (heq ▸ List.mem_map_of_mem hentry')
      · intro d
        rw [List.mem_append, hmem d, hmem' d]
        simp

/-- A block of an edge is not below the child nodes of that edge. -/
theorem not_descends_child {child : ℕ} (hchild : (tree.nodes n).children.get? head = some child)
    (ha : a ∈ (tree.nodes n).segment) : ¬ Descends parent keys a head := by
  intro hdesc
  obtain ⟨j, hj⟩ := List.getElem?_of_mem ha
  have hlt := hrep.idxOf_child_lt hfirst hnodup (hrep.covered b n i hloc j a hj) hchild
  have hle := Descends.idxOf_le hfirst hnodup hdesc
  omega

/-- From block `index` of a node: the rest of the edge and the child nodes, last
one first. -/
theorem lists_below (hnode : ∀ head child, (tree.nodes n).children.get? head = some child →
      ∃ steps listed, Lists tree [child] steps listed ∧ steps ≤ listed.length ∧ listed.Nodup ∧
        ∀ d, d ∈ listed ↔ Descends parent keys d head) :
    ∃ steps listed, Lists tree (tree.nodes n).children.values.reverse steps listed ∧
      steps ≤ listed.length ∧ ((tree.nodes n).segment.drop i ++ listed).Nodup ∧
      ∀ d, d ∈ (tree.nodes n).segment.drop i ++ listed ↔ Descends parent keys d b := by
  obtain ⟨steps, listed, hlists, hsteps, hlnodup, hmem⟩ :=
    hrep.lists_children hfirst hnodup hloc hnode (tree.nodes n).children.entries.reverse
      (by rw [List.map_reverse, List.nodup_reverse]; exact (tree.nodes n).children.nodup_keys)
      (fun entry hentry => Dict.get?_eq_some_iff.mpr (List.mem_reverse.mp hentry))
  rw [List.map_reverse] at hlists
  have hentries : ∀ d, d ∈ listed ↔ ∃ head child,
      (tree.nodes n).children.get? head = some child ∧ Descends parent keys d head := by
    intro d
    rw [hmem d]
    constructor
    · rintro ⟨⟨head, child⟩, hentry, hd⟩
      exact ⟨head, child, Dict.get?_eq_some_iff.mpr (List.mem_reverse.mp hentry), hd⟩
    · rintro ⟨head, child, hget, hd⟩
      exact ⟨(head, child), List.mem_reverse.mpr (Dict.get?_eq_some_iff.mp hget), hd⟩
  refine ⟨steps, listed, hlists, hsteps, ?_, fun d => ?_⟩
  · rw [List.nodup_append]
    refine ⟨(hrep.segment_nodup hloc).sublist (List.drop_sublist _ _), hlnodup, ?_⟩
    rintro a ha _ hl rfl
    obtain ⟨head, child, hget, hd⟩ := (hentries a).mp hl
    exact hrep.not_descends_child hfirst hnodup hloc hget (List.mem_of_mem_drop ha) hd
  · rw [List.mem_append, hentries d, hrep.descends_iff hloc]

end

/-- The traversal of one child node. -/
theorem lists_node (hloc : tree.locations.get? head = some (n, 0)) :
    ∃ steps listed, Lists tree [n] steps listed ∧ steps ≤ listed.length ∧ listed.Nodup ∧
      ∀ d, d ∈ listed ↔ Descends parent keys d head := by
  -- by induction on how many blocks were recorded after the first block of the node
  generalize hk : keys.length - keys.idxOf head = k
  induction k using Nat.strong_induction_on generalizing head n with
  | _ k ih =>
      obtain ⟨steps, listed, hlists, hsteps, hlnodup, hmem⟩ :=
        hrep.lists_below hfirst hnodup hloc fun head' child hchild => by
          have hlive := live_of_located hloc
          have hloc' := (hrep.below n head' child hlive hchild).1
          have hlt := hrep.idxOf_child_lt hfirst hnodup hloc hchild
          have hbound := List.idxOf_lt_length_of_mem (hrep.mem_keys hloc')
          exact ih (keys.length - keys.idxOf head') (by omega) hloc' rfl
      have hpos := hrep.index_lt hloc
      rw [List.drop_zero] at hlnodup hmem
      refine ⟨steps + 1, (tree.nodes n).segment ++ listed, ?_, ?_, hlnodup, hmem⟩
      · intro fuel stack result
        rw [← Nat.add_assoc, List.singleton_append, subtreeLoop, hlists, List.append_assoc]
      · rw [List.length_append]
        omega

/-- `subtree_block_ids`. -/
theorem subtreeBlockIds_eq (hb : b ∈ keys) :
    ∃ ids, tree.subtreeBlockIds b = .ok ids ∧ ids.Nodup ∧ ∀ d, d ∈ ids ↔ Descends parent keys d b := by
  obtain ⟨n, i, hloc⟩ := (hrep.domain b).mp hb
  obtain ⟨steps, listed, hlists, hsteps, hlnodup, hmem⟩ :=
    hrep.lists_below hfirst hnodup hloc fun head child hchild =>
      hrep.lists_node hfirst hnodup (hrep.below n head child (live_of_located hloc) hchild).1
  have hlen : listed.length ≤ keys.length := by
    apply List.Subperm.length_le
    apply (List.nodup_append.mp hlnodup).2.1.subperm
    intro d hd
    exact ((hmem d).mp (List.mem_append_right _ hd)).mem hb
  simp only [subtreeBlockIds, hloc]
  refine ⟨_, rfl, ?_⟩
  obtain ⟨spare, hspare⟩ : ∃ spare, tree.locations.size + 1 = spare + steps :=
    ⟨tree.locations.size + 1 - steps, by rw [hrep.locations_size hnodup]; omega⟩
  have hrun := hlists spare [] ((tree.nodes n).segment.drop i)
  rw [List.append_nil, subtreeLoop_nil] at hrun
  rw [hspare, hrun]
  exact ⟨hlnodup, hmem⟩

end

/-! ## Lookup -/

/-- What the inner loop of `lookup` leaves: the ids `done` it has matched so
far, and either the rest of the ids, or none when the search is over. -/
structure Walked (parent : Id → Option Id) (keys considered done : List Id)
    (result : RadixLookupResult Id) : Prop where
  matched : done <+: considered
  path : IsRootPath parent keys done
  count : result.hitBlockCount = done.length
  last : result.lastBlockId = done.getLast?

/-- The search is over: the next id, if there is one, does not continue the
path. -/
def Stuck (parent : Id → Option Id) (keys considered done : List Id) : Prop :=
  ∀ x, considered[done.length]? = some x → x ∈ keys → parent x ≠ done.getLast?

omit [DecidableEq Id] hrep in
theorem Walked.extend {x : Id} (hwalk : Walked parent keys considered done result)
    (hnext : considered[done.length]? = some x) (hx : x ∈ keys) (hparent : parent x = done.getLast?) :
    Walked parent keys considered (done ++ [x]) ⟨result.hitBlockCount + 1, some x⟩ := by
  refine ⟨?_, ?_, by simp [hwalk.count], by simp⟩
  · obtain ⟨rest, rfl⟩ := hwalk.matched
    rw [List.getElem?_append_right le_rfl, Nat.sub_self] at hnext
    cases rest with
    | nil => simp at hnext
    | cons y rest =>
        obtain rfl : y = x := by simpa using hnext
        exact ⟨rest, by simp⟩
  · exact hwalk.path.concat hx hparent

/-- The walk along one edge, from its block number `j` on. -/
theorem walkSegment_spec {remaining : List Id} (hlive : tree.Live n) (j : ℕ)
    (hwalk : Walked parent keys considered done result) (hremaining : considered = done ++ remaining)
    (hlink : ∀ x, (tree.nodes n).segment[j]? = some x → parent x = done.getLast?)
    (honly : ∀ x y, (tree.nodes n).segment[j]? = some x → remaining[0]? = some y → y ∈ keys →
      parent y = done.getLast? → y = x) :
    ∀ final left, walkSegment ((tree.nodes n).segment.drop j) remaining result = (final, left) →
      ∃ done', Walked parent keys considered done' final ∧ (left = none → Stuck parent keys considered done') ∧
        ∀ remaining', left = some remaining' → considered = done' ++ remaining' ∧
          remaining'.length + ((tree.nodes n).segment.length - j) = remaining.length ∧
          done'.getLast? = ((tree.nodes n).segment.drop j).getLast?.or done.getLast? := by
  generalize hk : (tree.nodes n).segment.length - j = k
  induction k generalizing j done remaining result with
  | zero =>
      intro final left hrun
      rw [List.drop_eq_nil_of_le (by omega)] at hrun ⊢
      rw [walkSegment, Prod.mk.injEq] at hrun
      obtain ⟨rfl, rfl⟩ := hrun
      refine ⟨done, hwalk, by simp, fun remaining' h => ?_⟩
      obtain rfl : remaining = remaining' := by simpa using h
      exact ⟨hremaining, rfl, rfl⟩
  | succ k ih =>
      intro final left hrun
      have hbound : j < (tree.nodes n).segment.length := by omega
      obtain ⟨x, hx⟩ : ∃ x, (tree.nodes n).segment[j]? = some x :=
        ⟨_, List.getElem?_eq_getElem hbound⟩
      have hdrop : (tree.nodes n).segment.drop j = x :: (tree.nodes n).segment.drop (j + 1) := by
        rw [List.drop_eq_getElem_cons hbound, (List.getElem?_eq_some_iff.mp hx).2]
      have hloc := hrep.located_of_mem_segment hlive hx
      rw [hdrop] at hrun ⊢
      cases remaining with
      | nil =>
          rw [walkSegment, Prod.mk.injEq] at hrun
          obtain ⟨rfl, rfl⟩ := hrun
          refine ⟨done, hwalk, fun _ y hy => ?_, fun remaining' h => by cases h⟩
          rw [hremaining, List.append_nil, List.getElem?_eq_none le_rfl] at hy
          cases hy
      | cons y remaining =>
          rw [walkSegment] at hrun
          have hnext : considered[done.length]? = some y := by
            rw [hremaining, List.getElem?_append_right le_rfl, Nat.sub_self]
            rfl
          split at hrun
          · next hyx =>
              subst hyx
              have hext := hwalk.extend hnext (hrep.mem_keys hloc) (hlink y hx)
              obtain ⟨done', hwalk', hstuck, hleft⟩ := ih (j + 1) hext (by simp [hremaining])
                (fun x' hx' => by
                  rw [hrep.parent_inner x' n j (hrep.located_of_mem_segment hlive hx'), hx]
                  simp)
                (fun x' y' hx' _ hy' hparent => by
                  -- the only child of a block inside an edge is the next block of the edge
                  rw [List.getLast?_concat] at hparent
                  have hx'bound := (List.getElem?_eq_some_iff.mp hx').1
                  rcases (hrep.child_iff hloc y').mp ⟨hy', hparent⟩ with h | ⟨h, -⟩
                  · exact Option.some.inj (h.symm.trans hx')
                  · omega)
                (by omega) final left hrun
              refine ⟨done', hwalk', hstuck, fun remaining' h => ?_⟩
              obtain ⟨hcons, hlength, hlast⟩ := hleft remaining' h
              refine ⟨hcons, by rw [List.length_cons]; omega, ?_⟩
              rw [hlast, List.getLast?_concat]
              cases hdrop' : (tree.nodes n).segment.drop (j + 1) with
              | nil => rfl
              | cons z rest =>
                  rw [List.getLast?_cons_cons]
                  simp [List.getLast?_eq_getLast_of_ne_nil]
          · next hyx =>
              rw [Prod.mk.injEq] at hrun
              obtain ⟨rfl, rfl⟩ := hrun
              refine ⟨done, hwalk, fun _ z hz hzmem hzparent => ?_, fun remaining' h => by cases h⟩
              obtain rfl : y = z := by simpa [hnext] using hz
              exact hyx (honly x y hx rfl hzmem hzparent)

/-- The outer loop. -/
theorem lookupLoop_spec {remaining : List Id} {fuel : ℕ} (hfuel : remaining.length < fuel)
    (hlive : tree.Live n) (hwalk : Walked parent keys considered done result)
    (hremaining : considered = done ++ remaining) (hlast : done.getLast? = (tree.nodes n).segment.getLast?) :
    ∃ done', Walked parent keys considered done' (lookupLoop tree fuel n remaining result) ∧
      Stuck parent keys considered done' := by
  induction fuel generalizing n done remaining result with
  | zero => omega
  | succ fuel ih =>
      cases remaining with
      | nil =>
          refine ⟨done, hwalk, fun x hx => ?_⟩
          rw [hremaining, List.append_nil, List.getElem?_eq_none le_rfl] at hx
          cases hx
      | cons blockId rest =>
          have hnext : considered[done.length]? = some blockId := by
            rw [hremaining, List.getElem?_append_right le_rfl, Nat.sub_self]
            rfl
          have hcontinue := hrep.continue_iff hlive
          rw [← hlast] at hcontinue
          rw [lookupLoop]
          cases hchild : (tree.nodes n).children.get? blockId with
          | none =>
              refine ⟨done, hwalk, fun x hx hmem hparent => ?_⟩
              obtain rfl : blockId = x := by simpa [hnext] using hx
              -- no child: the forest does not continue either
              obtain ⟨child, h⟩ := (hcontinue blockId).mp ⟨hmem, hparent⟩
              rw [hchild] at h
              cases h
          | some child =>
              have hloc := (hrep.below n blockId child hlive hchild).1
              have hclive := live_of_located hloc
              have hhead := (hrep.located blockId child 0 hloc).2.2
              have hpos := hrep.index_lt hloc
              dsimp only
              -- the segment of the child is walked; a walk that stops inside it is stuck
              rcases hrun : walkSegment (tree.nodes child).segment (blockId :: rest) result with
                ⟨final, left⟩
              obtain ⟨done', hwalk', hstuck, hleft⟩ := hrep.walkSegment_spec hclive 0 hwalk hremaining
                (fun x hx => by
                  obtain rfl : blockId = x := by simpa [hhead] using hx
                  exact ((hcontinue blockId).mpr ⟨child, hchild⟩).2)
                (fun x y hx hy _ _ => by
                  obtain rfl : blockId = x := by simpa [hhead] using hx
                  simpa using hy.symm)
                final left (by rw [List.drop_zero]; exact hrun)
              cases left with
              | none => exact ⟨done', hwalk', hstuck rfl⟩
              | some remaining' =>
                  obtain ⟨hcons, hlength, hlast'⟩ := hleft remaining' rfl
                  refine ih (by omega) hclive hwalk' hcons ?_
                  obtain ⟨last, hlastEq, -⟩ :=
                    hrep.exists_last hclive (hrep.located blockId child 0 hloc).1
                  rw [hlast', List.drop_zero, hlastEq]
                  rfl

/-- `lookup`: the longest prefix of `ids[:max_blocks]` that is a root path. -/
theorem lookup_eq (ids : List Id) (maxBlocks : ℤ) :
    (tree.lookup ids maxBlocks).hitBlockCount ≤ (ids.take maxBlocks.toNat).length ∧
      IsRootPath parent keys (ids.take (tree.lookup ids maxBlocks).hitBlockCount) ∧
      (∀ k, k ≤ (ids.take maxBlocks.toNat).length → IsRootPath parent keys (ids.take k) →
        k ≤ (tree.lookup ids maxBlocks).hitBlockCount) ∧
      (tree.lookup ids maxBlocks).lastBlockId = (ids.take (tree.lookup ids maxBlocks).hitBlockCount).getLast? := by
  have hstart : Walked parent keys (ids.take maxBlocks.toNat) [] ⟨0, none⟩ :=
    ⟨List.nil_prefix, IsRootPath.nil, rfl, rfl⟩
  obtain ⟨done, hwalk, hstuck⟩ := hrep.lookupLoop_spec (Nat.lt_succ_self _) (Or.inl rfl)
    hstart rfl (by rw [hrep.root_segment])
  have hdone : done = (ids.take maxBlocks.toNat).take done.length :=
    (List.prefix_iff_eq_take.mp hwalk.matched)
  have hle := hwalk.matched.length_le
  have hids : ∀ k, k ≤ (ids.take maxBlocks.toNat).length → (ids.take maxBlocks.toNat).take k = ids.take k := by
    intro k hk
    rw [List.length_take] at hk
    rw [List.take_take, min_eq_left (by omega)]
  have hcount : (tree.lookup ids maxBlocks).hitBlockCount = done.length := hwalk.count
  rw [hcount, ← hids _ hle, ← hdone]
  refine ⟨hle, hwalk.path, fun k hk hpath => ?_, hwalk.last⟩
  rw [← hids k hk] at hpath
  refine IsRootPath.le_of_stuck (fun x hx hmem => ?_) hpath hk
  rw [← hdone]
  exact hstuck x hx hmem

end Represents

end RadixTreeBackend
