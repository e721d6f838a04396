import SparseEngine.Lib.Forest

/-!
# Removing leaves one at a time

A node is *prunable* when it and everything below it are good: a loop that
keeps removing good leaves can get to it.  `Pruned` is a run of such a loop,
in whatever order it picks its leaves.

The order does not matter for what is removed.  Each removal takes one node
off the prunable ones and changes nothing about the others
(`Prunable.erase_iff`), so by induction over the run what is prunable in the
end is what was prunable at the start and has not been removed
(`Pruned.prunable_iff`).  A run that ends without a good leaf has therefore
removed exactly the prunable nodes (`Pruned.mem_iff_of_stuck`).
-/

namespace Forest

variable {Id : Type} [DecidableEq Id] {parent other : Id → Option Id} {good good' : Id → Prop}
  {keys removed left : List Id} {b x : Id}

/-- The node and everything below it are good. -/
def Prunable (parent : Id → Option Id) (good : Id → Prop) (keys : List Id) (b : Id) : Prop :=
  b ∈ keys ∧ ∀ d, Descends parent keys d b → good d

/-- A good node without a child. -/
structure GoodLeaf (parent : Id → Option Id) (good : Id → Prop) (keys : List Id) (x : Id) :
    Prop where
  mem : x ∈ keys
  good : good x
  childless : ∀ c ∈ keys, parent c ≠ some x

/-- The listed nodes are removed one after the other, each one a good leaf at
its turn. -/
inductive Pruned (parent : Id → Option Id) (good : Id → Prop) :
    List Id → List Id → List Id → Prop
  | nil (keys : List Id) : Pruned parent good keys [] keys
  | cons {keys left rest : List Id} {x : Id} (leaf : GoodLeaf parent good keys x)
      (tail : Pruned parent good (keys.filter fun c => c ≠ x) rest left) :
      Pruned parent good keys (x :: rest) left

/-! ## One removal -/

section

omit [DecidableEq Id]

theorem GoodLeaf.descends_eq (hleaf : GoodLeaf parent good keys x) {d : Id}
    (hd : Descends parent keys d x) : d = x := by
  rcases hd.eq_or_below_child with heq | ⟨c, hc, hparent, -⟩
  · exact heq
  · exact absurd hparent (hleaf.childless c hc)

theorem GoodLeaf.prunable (hleaf : GoodLeaf parent good keys x) : Prunable parent good keys x := by
  refine ⟨hleaf.mem, fun d hd => ?_⟩
  rw [hleaf.descends_eq hd]
  exact hleaf.good

end

/-- Below another node, a leaf is missed by nobody but itself. -/
theorem Descends.erase_leaf (hleaf : GoodLeaf parent good keys x) {d : Id} (hne : d ≠ x)
    (hd : Descends parent keys d b) : Descends parent (keys.filter fun c => c ≠ x) d b := by
  induction hd using Relation.ReflTransGen.head_induction_on with
  | refl => exact Descends.refl b
  | head hstep htail ih =>
      obtain ⟨hmem, hparent⟩ := hstep
      refine Relation.ReflTransGen.head ⟨List.mem_filter.mpr ⟨hmem, by simpa using hne⟩, hparent⟩ (ih ?_)
      rintro rfl
      exact hleaf.childless _ hmem hparent

theorem Descends.of_erase {d : Id} (hd : Descends parent (keys.filter fun c => c ≠ x) d b) :
    Descends parent keys d b := by
  refine Relation.ReflTransGen.mono ?_ _ _ hd
  exact fun _ _ hstep => ⟨List.mem_of_mem_filter hstep.1, hstep.2⟩

/-- **One removal** takes the leaf off the prunable nodes, and nothing else. -/
theorem Prunable.erase_iff (hleaf : GoodLeaf parent good keys x) (b : Id) :
    Prunable parent good (keys.filter fun c => c ≠ x) b ↔ Prunable parent good keys b ∧ b ≠ x := by
  constructor
  · rintro ⟨hmem, hall⟩
    obtain ⟨hkey, hne⟩ := List.mem_filter.mp hmem
    refine ⟨⟨hkey, fun d hd => ?_⟩, by simpa using hne⟩
    by_cases hdx : d = x
    · rw [hdx]
      exact hleaf.good
    · exact hall d (hd.erase_leaf hleaf hdx)
  · rintro ⟨⟨hkey, hall⟩, hne⟩
    exact ⟨List.mem_filter.mpr ⟨hkey, by simpa using hne⟩, fun d hd => hall d hd.of_erase⟩

omit [DecidableEq Id] in
/-- Two forests with the same parents and the same good nodes. -/
theorem Prunable.congr (hparent : ∀ c ∈ keys, other c = parent c) (hgood : ∀ c ∈ keys, (good' c ↔ good c)) (b : Id) :
    Prunable other good' keys b ↔ Prunable parent good keys b := by
  have hdescends (d : Id) : Descends other keys d b ↔ Descends parent keys d b := by
    have hstep : (fun child p => child ∈ keys ∧ other child = some p) =
        fun child p => child ∈ keys ∧ parent child = some p := by
      funext child p
      refine propext (and_congr_right fun hmem => ?_)
      rw [hparent child hmem]
    rw [Descends, Descends, hstep]
  refine and_congr_right fun hb => forall_congr' fun d => ?_
  rw [hdescends d]
  exact forall_congr' fun hd => hgood d (hd.mem hb)

/-- As long as something is prunable there is a good leaf. -/
theorem Prunable.exists_leaf (hfirst : ParentsFirst parent keys) (hnodup : keys.Nodup)
    (hb : Prunable parent good keys b) : ∃ x, GoodLeaf parent good keys x := by
  refine hfirst.induction_down hnodup (motive := fun b =>
    Prunable parent good keys b → ∃ x, GoodLeaf parent good keys x) ?_ b hb.1 hb
  intro b hmem ih hprunable
  by_cases hchild : ∃ c ∈ keys, parent c = some b
  · obtain ⟨c, hc, hparent⟩ := hchild
    refine ih c hc hparent ⟨hc, fun d hd => ?_⟩
    exact hprunable.2 d (hd.trans (Descends.of_parent hc hparent))
  · push Not at hchild
    exact ⟨b, hmem, hprunable.2 b (Descends.refl b), hchild⟩

/-! ## A whole run -/

section

variable (h : Pruned parent good keys removed left)

include h

theorem Pruned.left_eq : left = keys.filter fun c => c ∉ removed := by
  induction h with
  | nil keys => simp
  | @cons keys left rest x _ _ ih =>
      rw [ih, List.filter_filter]
      refine List.filter_congr fun c _ => ?_
      simp only [List.mem_cons, not_or, Bool.decide_and]
      rw [Bool.and_comm]

theorem Pruned.mem_keys (hx : x ∈ removed) : x ∈ keys := by
  induction h with
  | nil => cases hx
  | cons hleaf _ ih =>
      rcases List.mem_cons.mp hx with rfl | hx
      · exact hleaf.mem
      · exact List.mem_of_mem_filter (ih hx)

theorem Pruned.nodup : removed.Nodup := by
  induction h with
  | nil => exact List.nodup_nil
  | cons _ htail ih =>
      refine List.nodup_cons.mpr ⟨fun hmem => ?_, ih⟩
      have hkeys := htail.mem_keys hmem
      simp at hkeys

/-- **What is prunable after a run** is what was prunable before and is still
there. -/
theorem Pruned.prunable_iff (b : Id) :
    Prunable parent good left b ↔ Prunable parent good keys b ∧ b ∉ removed := by
  induction h with
  | nil => simp
  | cons hleaf _ ih => rw [ih, Prunable.erase_iff hleaf, List.mem_cons, not_or, and_assoc]

/-- Only prunable nodes are removed. -/
theorem Pruned.prunable (hx : x ∈ removed) : Prunable parent good keys x := by
  induction h with
  | nil => cases hx
  | cons hleaf _ ih =>
      rcases List.mem_cons.mp hx with rfl | hx
      · exact hleaf.prunable
      · exact ((Prunable.erase_iff hleaf _).mp (ih hx)).1

/-- **A run that ends without a good leaf** has removed exactly the prunable
nodes. -/
theorem Pruned.mem_iff_of_stuck (hfirst : ParentsFirst parent left) (hnodup : left.Nodup)
    (hstuck : ∀ x, ¬ GoodLeaf parent good left x) (b : Id) :
    b ∈ removed ↔ Prunable parent good keys b := by
  refine ⟨h.prunable, fun hb => ?_⟩
  by_contra hmem
  obtain ⟨x, hleaf⟩ := ((h.prunable_iff b).mpr ⟨hb, hmem⟩).exists_leaf hfirst hnodup
  exact hstuck x hleaf

/-- No node is removed before one of its descendants. -/
theorem Pruned.descendants_first :
    removed.Pairwise fun earlier later => ¬ Descends parent keys later earlier := by
  induction h with
  | nil => exact List.Pairwise.nil
  | @cons keys left rest x hleaf htail ih =>
      refine List.pairwise_cons.mpr ⟨fun later hlater hdescends => ?_, ?_⟩
      · obtain rfl := hleaf.descends_eq hdescends
        have hkeys := htail.mem_keys hlater
        simp at hkeys
      · refine ih.imp_of_mem fun _ hlater hnot hdescends => hnot ?_
        refine hdescends.erase_leaf hleaf ?_
        rintro rfl
        have hkeys := htail.mem_keys hlater
        simp at hkeys

end

/-- The children of a node are removed before it. -/
theorem Pruned.children_before {before after : List Id} {c : Id}
    (h : Pruned parent good keys (before ++ x :: after) left) (hc : c ∈ keys)
    (hparent : parent c = some x) : c ∈ before := by
  induction before generalizing keys with
  | nil =>
      cases h with
      | cons hleaf _ => exact absurd hparent (hleaf.childless c hc)
  | cons first rest ih =>
      cases h with
      | cons _ htail =>
          by_cases hfirst : c = first
          · rw [hfirst]
            exact List.mem_cons_self
          · have hleft : c ∈ keys.filter fun q => q ≠ first :=
              List.mem_filter.mpr ⟨hc, by simpa using hfirst⟩
            exact List.mem_cons_of_mem _ (ih htail hleft)

/-- Two forests with the same parents and the same good nodes have the same
runs. -/
theorem Pruned.congr (h : Pruned parent good keys removed left)
    (hparent : ∀ c ∈ keys, other c = parent c) (hgood : ∀ c ∈ keys, (good' c ↔ good c)) :
    Pruned other good' keys removed left := by
  induction h with
  | nil keys => exact Pruned.nil keys
  | cons hleaf _ ih =>
      refine Pruned.cons ⟨hleaf.mem, (hgood _ hleaf.mem).mpr hleaf.good, fun c hc => ?_⟩ (ih ?_ ?_)
      · rw [hparent c hc]
        exact hleaf.childless c hc
      · exact fun c hc => hparent c (List.mem_of_mem_filter hc)
      · exact fun c hc => hgood c (List.mem_of_mem_filter hc)

/-! ## A list of nodes in a removable order -/

omit [DecidableEq Id] in
/-- A node is prunable when it is good and its children are prunable. -/
theorem Prunable.iff_children (hb : b ∈ keys) : Prunable parent good keys b ↔
    good b ∧ ∀ c ∈ keys, parent c = some b → Prunable parent good keys c := by
  constructor
  · intro h
    refine ⟨h.2 b (Descends.refl b), fun c hc hparent => ⟨hc, fun d hd => ?_⟩⟩
    exact h.2 d (hd.trans (Descends.of_parent hc hparent))
  · rintro ⟨hgood, hchildren⟩
    refine ⟨hb, fun d hd => ?_⟩
    rcases hd.eq_or_below_child with rfl | ⟨c, hc, hparent, hdc⟩
    · exact hgood
    · exact (hchildren c hc hparent).2 d hdc

/-- The list holds the children of its nodes, each of them before its parent. -/
structure ChildrenFirst (parent : Id → Option Id) (keys list : List Id) : Prop where
  closed : ∀ x ∈ list, ∀ c ∈ keys, parent c = some x → c ∈ list
  order : list.Pairwise fun earlier later => parent later ≠ some earlier
  apart : ∀ x ∈ list, parent x ≠ some x

namespace ChildrenFirst

variable {list before after : List Id}

section

omit [DecidableEq Id]

/-- The children of a node of the list come before it. -/
theorem mem_before (h : ChildrenFirst parent keys (before ++ x :: after)) {c : Id} (hc : c ∈ keys)
    (hparent : parent c = some x) : c ∈ before := by
  have hx : x ∈ before ++ x :: after := by simp
  have horder := (List.pairwise_append.mp h.order).2.1
  rcases List.mem_append.mp (h.closed x hx c hc hparent) with hbefore | hafter
  · exact hbefore
  · rcases List.mem_cons.mp hafter with rfl | hafter
    · exact absurd hparent (h.apart c hx)
    · exact absurd hparent ((List.pairwise_cons.mp horder).1 c hafter)

theorem childless (h : ChildrenFirst parent keys (x :: after)) : ∀ c ∈ keys, parent c ≠ some x := by
  intro c hc hparent
  have hnil : c ∈ [] := h.mem_before hc hparent
  exact absurd hnil List.not_mem_nil

end

theorem tail (h : ChildrenFirst parent keys (x :: after)) :
    ChildrenFirst parent (keys.filter fun c => c ≠ x) after := by
  refine ⟨fun y hy c hc hparent => ?_, (List.pairwise_cons.mp h.order).2,
    fun y hy => h.apart y (List.mem_cons_of_mem x hy)⟩
  obtain ⟨hc, hne⟩ := List.mem_filter.mp hc
  have hmem := h.closed y (List.mem_cons_of_mem x hy) c hc hparent
  exact (List.mem_cons.mp hmem).resolve_left (by simpa using hne)

omit [DecidableEq Id] in
/-- A part of the list that holds the children of its nodes. -/
theorem filter (h : ChildrenFirst parent keys list) {test : Id → Bool}
    (hclosed : ∀ x ∈ list, test x = true → ∀ c ∈ keys, parent c = some x → test c = true) :
    ChildrenFirst parent keys (list.filter test) := by
  refine ⟨fun x hx c hc hparent => ?_, h.order.filter test, fun x hx => h.apart x (List.mem_of_mem_filter hx)⟩
  obtain ⟨hx, htest⟩ := List.mem_filter.mp hx
  exact List.mem_filter.mpr ⟨h.closed x hx c hc hparent, hclosed x hx htest c hc hparent⟩

end ChildrenFirst

end Forest
