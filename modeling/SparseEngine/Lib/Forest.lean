import Mathlib.Data.Finset.Basic

/-!
# Finite forests given by a parent function

A finite forest is a list of nodes together with a parent function.  The list
is *parents first*: every node comes after its parent, which is what a
structure gets for free when a node can only be added below a node that is
already there.  Being parents first makes the forest well founded in both
directions, so statements about a node can be proved from its parent
(`induction_up`) or from its children (`induction_down`).

`hereditary_iff` is the fixpoint principle behind every "this node and
everything below it" set: a set that satisfies the one-level equation is the
set of nodes all of whose descendants are good.
-/

namespace Forest

variable {Id : Type} {parent other : Id → Option Id} {keys : List Id}

/-- Every node of the list comes after its parent. -/
def ParentsFirst (parent : Id → Option Id) (keys : List Id) : Prop :=
  ∀ x ∈ keys, ∀ p, parent x = some p → [p, x].Sublist keys

/-- `d` is `b` or lies below `b`. -/
def Descends (parent : Id → Option Id) (keys : List Id) (d b : Id) : Prop :=
  Relation.ReflTransGen (fun child p => child ∈ keys ∧ parent child = some p) d b

/-- `path` runs from a root down to its last node. -/
def IsRootPath (parent : Id → Option Id) (keys : List Id) (path : List Id) : Prop :=
  ∀ i x, path[i]? = some x → x ∈ keys ∧ parent x = (path.take i).getLast?

/-! ## Parents first -/

theorem parentsFirst_nil : ParentsFirst parent [] := by
  intro x hx
  simp at hx

theorem ParentsFirst.congr (hfirst : ParentsFirst parent keys)
    (hagree : ∀ x ∈ keys, other x = parent x) : ParentsFirst other keys := by
  intro x hx p hp
  exact hfirst x hx p (hagree x hx ▸ hp)

variable {x b : Id} {path : List Id} {freed : Finset Id}

section

variable (hfirst : ParentsFirst parent keys)

include hfirst

theorem ParentsFirst.parent_mem {p : Id} (hx : x ∈ keys) (hp : parent x = some p) : p ∈ keys :=
  (hfirst x hx p hp).subset (by simp)

theorem ParentsFirst.append (hparent : ∀ p, parent x = some p → p ∈ keys) :
    ParentsFirst parent (keys ++ [x]) := by
  intro y hy p hp
  rcases List.mem_append.mp hy with hy | hy
  · exact (hfirst y hy p hp).trans (List.sublist_append_left _ _)
  · rw [List.mem_singleton] at hy
    subst hy
    exact (List.singleton_sublist.mpr (hparent p hp)).append (List.Sublist.refl [y])

theorem ParentsFirst.filter {test : Id → Bool} (hclosed : ∀ x ∈ keys, test x → ∀ p, parent x = some p → test p) :
    ParentsFirst parent (keys.filter test) := by
  intro x hx p hp
  rw [List.mem_filter] at hx
  have hsub := (hfirst x hx.1 p hp).filter test
  simpa [hx.2, hclosed x hx.1 hx.2 p hp] using hsub

end

/-! ## Root paths -/

theorem IsRootPath.nil : IsRootPath parent keys [] := by
  intro i x hx
  simp at hx

theorem IsRootPath.take (h : IsRootPath parent keys path) (k : ℕ) :
    IsRootPath parent keys (path.take k) := by
  intro i x hx
  have hi := (List.getElem?_eq_some_iff.mp hx).1
  rw [List.length_take] at hi
  rw [List.getElem?_take_of_lt (by omega)] at hx
  rw [List.take_take, min_eq_left (by omega)]
  exact h i x hx

theorem IsRootPath.concat (h : IsRootPath parent keys path) (hx : x ∈ keys)
    (hparent : parent x = path.getLast?) : IsRootPath parent keys (path ++ [x]) := by
  intro i y hy
  rcases Nat.lt_or_ge i path.length with hlt | hge
  · rw [List.getElem?_append_left hlt] at hy
    rw [List.take_append_of_le_length hlt.le]
    exact h i y hy
  · have hbound := (List.getElem?_eq_some_iff.mp hy).1
    rw [List.length_append, List.length_singleton] at hbound
    obtain rfl : i = path.length := by omega
    rw [List.getElem?_append_right le_rfl, Nat.sub_self] at hy
    obtain rfl : x = y := by simpa using hy
    rw [List.take_left]
    exact ⟨hx, hparent⟩

/-- A root path that cannot be continued along `ids` is the longest one. -/
theorem IsRootPath.le_of_stuck {ids : List Id} {k l : ℕ}
    (hstuck : ∀ x, ids[k]? = some x → x ∈ keys → parent x ≠ (ids.take k).getLast?)
    (hpath : IsRootPath parent keys (ids.take l)) (hl : l ≤ ids.length) : l ≤ k := by
  by_contra hlt
  obtain ⟨x, hx⟩ : ∃ x, ids[k]? = some x := ⟨_, List.getElem?_eq_getElem (by omega)⟩
  obtain ⟨hmem, hparent⟩ := hpath k x (by rw [List.getElem?_take_of_lt (by omega)]; exact hx)
  rw [List.take_take, min_eq_left (by omega)] at hparent
  exact hstuck x hx hmem hparent

theorem IsRootPath.of_concat (h : IsRootPath parent keys (path ++ [x])) :
    IsRootPath parent keys path ∧ parent x = path.getLast? := by
  constructor
  · have hpath := h.take path.length
    rwa [List.take_left] at hpath
  · have hlast := (h path.length x (by simp)).2
    rwa [List.take_left] at hlast

/-- A root path is determined by its end. -/
theorem IsRootPath.eq_of_getLast? {other : List Id} (hpath : IsRootPath parent keys path)
    (hother : IsRootPath parent keys other) (hlast : path.getLast? = other.getLast?) :
    path = other := by
  induction path using List.reverseRecOn generalizing other with
  | nil => exact (List.getLast?_eq_none_iff.mp hlast.symm).symm
  | append_singleton front x ih =>
      rcases List.eq_nil_or_concat other with rfl | ⟨rest, y, rfl⟩
      · simp at hlast
      · obtain rfl : x = y := by simpa using hlast
        rw [List.concat_eq_append] at hother ⊢
        obtain ⟨hfront, hx⟩ := hpath.of_concat
        obtain ⟨hrest, hx'⟩ := hother.of_concat
        rw [ih hfront hrest (hx.symm.trans hx')]

variable [DecidableEq Id]

theorem idxOf_lt_of_pair_sublist {a : Id} (hnodup : keys.Nodup) (hsub : [a, b].Sublist keys) :
    keys.idxOf a < keys.idxOf b := by
  induction keys with
  | nil => simp at hsub
  | cons x rest ih =>
      rw [List.nodup_cons] at hnodup
      cases hsub with
      | cons _ hrest =>
          have ha : a ∈ rest := hrest.subset (by simp)
          have hb : b ∈ rest := hrest.subset (by simp)
          rw [List.idxOf_cons_ne _ (by rintro rfl; exact hnodup.1 ha),
            List.idxOf_cons_ne _ (by rintro rfl; exact hnodup.1 hb)]
          exact Nat.succ_lt_succ (ih hnodup.2 hrest)
      | cons_cons _ hrest =>
          have hb : b ∈ rest := List.singleton_sublist.mp hrest
          rw [List.idxOf_cons_self, List.idxOf_cons_ne _ (by rintro rfl; exact hnodup.1 hb)]
          exact Nat.succ_pos _

theorem ParentsFirst.idxOf_lt (hfirst : ParentsFirst parent keys) (hnodup : keys.Nodup) {p : Id}
    (hx : x ∈ keys) (hp : parent x = some p) : keys.idxOf p < keys.idxOf x :=
  idxOf_lt_of_pair_sublist hnodup (hfirst x hx p hp)

/-- A node may be reasoned about from its children. -/
theorem ParentsFirst.induction_down (hfirst : ParentsFirst parent keys) (hnodup : keys.Nodup)
    {motive : Id → Prop} (step : ∀ x ∈ keys, (∀ c ∈ keys, parent c = some x → motive c) → motive x) :
    ∀ x ∈ keys, motive x := by
  have main : ∀ n, ∀ x ∈ keys, keys.length - keys.idxOf x = n → motive x := by
    intro n
    induction n using Nat.strong_induction_on with
    | _ n ih =>
        intro x hx hn
        refine step x hx fun c hc hparent => ?_
        have hlt := hfirst.idxOf_lt hnodup hc hparent
        have hbound := List.idxOf_lt_length_of_mem hc
        exact ih (keys.length - keys.idxOf c) (by omega) c hc rfl
  exact fun x hx => main _ x hx rfl

/-! ## Descendants -/

section

omit [DecidableEq Id]

theorem Descends.refl (b : Id) : Descends parent keys b b := Relation.ReflTransGen.refl

variable {b d : Id}

theorem Descends.trans {a c : Id} (hab : Descends parent keys a b) (hbc : Descends parent keys b c) :
    Descends parent keys a c :=
  Relation.ReflTransGen.trans hab hbc

theorem Descends.of_parent {c : Id} (hc : c ∈ keys) (hparent : parent c = some b) :
    Descends parent keys c b :=
  Relation.ReflTransGen.single ⟨hc, hparent⟩

/-- A proper descendant lies below a child. -/
theorem Descends.eq_or_below_child (h : Descends parent keys d b) :
    d = b ∨ ∃ c ∈ keys, parent c = some b ∧ Descends parent keys d c := by
  rcases Relation.ReflTransGen.cases_tail h with heq | ⟨c, hdc, hc, hparent⟩
  · exact Or.inl heq.symm
  · exact Or.inr ⟨c, hc, hparent, hdc⟩

theorem Descends.mem (h : Descends parent keys d b) (hb : b ∈ keys) : d ∈ keys := by
  rcases Relation.ReflTransGen.cases_head h with rfl | ⟨p, ⟨hd, _⟩, _⟩
  · exact hb
  · exact hd

/-- Two nodes above a common one are comparable. -/
theorem Descends.comparable {a : Id} (ha : Descends parent keys d a) (hb : Descends parent keys d b) :
    Descends parent keys a b ∨ Descends parent keys b a :=
  Relation.ReflTransGen.total_of_right_unique (fun _ _ _ hx hy => Option.some.inj (hx.2.symm.trans hy.2)) ha hb

end

section

variable (hfirst : ParentsFirst parent keys) (hnodup : keys.Nodup)

include hfirst hnodup

theorem Descends.idxOf_le {d : Id} (h : Descends parent keys d b) :
    keys.idxOf b ≤ keys.idxOf d := by
  induction h with
  | refl => exact le_rfl
  | tail _ hstep ih =>
      have := hfirst.idxOf_lt hnodup hstep.1 hstep.2
      omega

/-- The subtrees below two children of one node are disjoint. -/
theorem Descends.sibling_eq {d a p : Id} (hmem : a ∈ keys) (hmem' : b ∈ keys)
    (hpa : parent a = some p) (hpb : parent b = some p) (ha : Descends parent keys d a)
    (hb : Descends parent keys d b) : a = b := by
  have hup : ∀ {x y : Id}, x ∈ keys → y ∈ keys → parent x = some p → parent y = some p →
      Descends parent keys x y → x = y := by
    intro x y hx hy hpx hpy hxy
    rcases Relation.ReflTransGen.cases_head hxy with rfl | ⟨q, ⟨-, hq⟩, hqy⟩
    · rfl
    · obtain rfl : p = q := Option.some.inj (hpx.symm.trans hq)
      have hle := Descends.idxOf_le hfirst hnodup hqy
      have hlt := hfirst.idxOf_lt hnodup hy hpy
      omega
  rcases ha.comparable hb with h | h
  · exact hup hmem hmem' hpa hpb h
  · exact (hup hmem' hmem hpb hpa h).symm

/-- **The fixpoint principle.** A set that satisfies the one-level equation
"good, and so is every child" is the set of nodes all of whose descendants are
good. -/
theorem hereditary_iff {good member : Id → Prop} (hlocal : ∀ b ∈ keys, member b ↔
      good b ∧ ∀ c ∈ keys, parent c = some b → member c) (hb : b ∈ keys) :
    member b ↔ ∀ d, Descends parent keys d b → good d := by
  refine hfirst.induction_down hnodup (motive := fun b =>
    member b ↔ ∀ d, Descends parent keys d b → good d) ?_ b hb
  intro x hx ih
  rw [hlocal x hx]
  constructor
  · rintro ⟨hgood, hchildren⟩ d hd
    rcases hd.eq_or_below_child with rfl | ⟨c, hc, hparent, hdc⟩
    · exact hgood
    · exact (ih c hc hparent).mp (hchildren c hc hparent) d hdc
  · intro hall
    refine ⟨hall x (Descends.refl x), fun c hc hparent => (ih c hc hparent).mpr ?_⟩
    exact fun d hd => hall d (hd.trans (Descends.of_parent hc hparent))

end

omit [DecidableEq Id] in
/-- A new node does not change what is hereditary at the old ones, when it is
good itself or hangs below a node where the property fails already. -/
theorem hereditary_of_new {keys' : List Id} {good good' : Id → Prop}
    (hfirst : ParentsFirst parent keys) (hkeys : ∀ y, y ∈ keys' ↔ y = x ∨ y ∈ keys)
    (hnew : x ∉ keys) (hparent : ∀ y ∈ keys, other y = parent y)
    (habove : ∀ p, other x = some p → p ∈ keys) (hgood : ∀ y ∈ keys, good' y ↔ good y)
    (hx : good' x ∨ ∀ p, other x = some p → ¬ ∀ d, Descends parent keys d p → good d) (hb : b ∈ keys) :
    (∀ d, Descends other keys' d b → good' d) ↔ ∀ d, Descends parent keys d b → good d := by
  have hdown : ∀ {d}, Descends parent keys d b → Descends other keys' d b := by
    intro d h
    refine Relation.ReflTransGen.mono ?_ _ _ h
    exact fun c p hstep => ⟨(hkeys c).mpr (Or.inr hstep.1), (hparent c hstep.1).trans hstep.2⟩
  have hup : ∀ {d}, Descends other keys' d b → d ∈ keys → Descends parent keys d b := by
    intro d h
    induction h using Relation.ReflTransGen.head_induction_on with
    | refl => exact fun _ => Descends.refl b
    | @head d p hstep _ ih =>
        intro hd
        have hp : parent d = some p := (hparent d hd).symm.trans hstep.2
        exact Relation.ReflTransGen.head ⟨hd, hp⟩ (ih (hfirst.parent_mem hd hp))
  constructor
  · intro h d hd
    exact (hgood d (hd.mem hb)).mp (h d (hdown hd))
  · intro h d hd
    have hmem := hd.mem ((hkeys b).mpr (Or.inr hb))
    rcases (hkeys d).mp hmem with rfl | hdkeys
    · rcases hx with hx | hx
      · exact hx
      -- the new node lies below `b` only through its parent
      · rcases Relation.ReflTransGen.cases_head hd with rfl | ⟨p, ⟨-, hp⟩, hpb⟩
        · exact absurd hb hnew
        · have hpb' := hup hpb (habove p hp)
          exact absurd (fun e he => h e (he.trans hpb')) (hx p hp)
    · exact (hgood d hdkeys).mpr (h d (hup hd hdkeys))

/-! ## Counting the children outside a set -/

/-- The number of children of `b` outside `freed`. -/
def blockedChildren (parent : Id → Option Id) (keys : List Id) (freed : Finset Id) (b : Id) : ℕ :=
  keys.countP fun c => parent c = some b ∧ c ∉ freed

theorem blockedChildren_eq_zero_iff :
    blockedChildren parent keys freed b = 0 ↔ ∀ c ∈ keys, parent c = some b → c ∈ freed := by
  simp [blockedChildren, List.countP_eq_zero]

theorem blockedChildren_congr {freed' : Finset Id}
    (hagree : ∀ c ∈ keys, (other c = some b ∧ c ∉ freed') ↔ (parent c = some b ∧ c ∉ freed)) :
    blockedChildren other keys freed' b = blockedChildren parent keys freed b :=
  List.countP_congr fun c hc => by simpa using hagree c hc

/-- A node that is taken away no longer counts, just as a freed one. -/
theorem blockedChildren_filter_ne :
    blockedChildren parent (keys.filter fun c => c ≠ x) freed b = blockedChildren parent keys (insert x freed) b := by
  rw [blockedChildren, blockedChildren, List.countP_filter]
  refine List.countP_congr fun c _ => ?_
  by_cases hc : c = x
  · simp [hc]
  · simp [hc]

private theorem countP_single_lt {p q : Id → Bool} :
    ∀ {l : List Id}, l.Nodup → x ∈ l → (∀ c ∈ l, c ≠ x → p c = q c) → p x = true →
      q x = false → l.countP p = l.countP q + 1 := by
  intro l
  induction l with
  | nil => intro _ hx; simp at hx
  | cons y rest ih =>
      intro hnodup hx hagree hp hq
      rw [List.nodup_cons] at hnodup
      by_cases hyx : y = x
      · subst hyx
        have hrest : rest.countP p = rest.countP q := by
          refine List.countP_congr fun c hc => ?_
          rw [hagree c (List.mem_cons_of_mem _ hc) (by rintro rfl; exact hnodup.1 hc)]
        simp [hp, hq, hrest]
      · have hmem : x ∈ rest := by
          rcases List.mem_cons.mp hx with rfl | h
          · exact absurd rfl hyx
          · exact h
        have := ih hnodup.2 hmem (fun c hc => hagree c (List.mem_cons_of_mem _ hc)) hp hq
        simp only [List.countP_cons, hagree y List.mem_cons_self hyx]
        omega

/-- Freeing a blocked child lowers its parent's count by one. -/
theorem blockedChildren_insert_child (hnodup : keys.Nodup) (hx : x ∈ keys)
    (hparent : parent x = some b) (hfree : x ∉ freed) :
    blockedChildren parent keys freed b = blockedChildren parent keys (insert x freed) b + 1 := by
  refine countP_single_lt hnodup hx ?_ (by simp [hparent, hfree]) (by simp)
  intro c _ hc
  simp [hc]

theorem blockedChildren_insert_other (hparent : parent x ≠ some b) :
    blockedChildren parent keys (insert x freed) b = blockedChildren parent keys freed b := by
  refine blockedChildren_congr fun c _ => ?_
  by_cases hc : c = x
  · subst hc
    simp [hparent]
  · simp [hc]

theorem blockedChildren_erase_child (hnodup : keys.Nodup) (hx : x ∈ keys)
    (hparent : parent x = some b) (hfree : x ∈ freed) :
    blockedChildren parent keys (freed.erase x) b = blockedChildren parent keys freed b + 1 := by
  have hnot : x ∉ freed.erase x := Finset.notMem_erase x freed
  have h := blockedChildren_insert_child hnodup hx hparent hnot
  rwa [Finset.insert_erase hfree] at h

theorem blockedChildren_erase_other (hparent : parent x ≠ some b) :
    blockedChildren parent keys (freed.erase x) b = blockedChildren parent keys freed b := by
  by_cases hmem : x ∈ freed
  · conv_rhs => rw [← Finset.insert_erase hmem]
    rw [blockedChildren_insert_other hparent]
  · rw [Finset.erase_eq_of_notMem hmem]

end Forest
