import SparseEngine.Lib.Forest

/-!
# Removing leaves with a worklist

The leaf-peeling worklist keeps, for every node, the number of children that
have not been freed, and a stack of nodes whose count is zero and that have
not been looked at yet.  A popped node that is not good is dropped; a good one
is freed, its parent's count goes down by one, and the parent is pushed when
that count reaches zero.

`PeelInv` is what every such loop keeps, `PeelInv.drop`, `PeelInv.free_root`
and `PeelInv.free_child` are its steps, `PeelInv.measure` bounds the number of
pops, and `PeelInv.freed_iff` is what an empty stack means: the freed nodes
are exactly those all of whose descendants are good.
-/

namespace Forest

variable {Id : Type} [DecidableEq Id]

/-- The loop invariant of leaf peeling. -/
structure PeelInv (parent : Id → Option Id) (keys : List Id) (good : Id → Prop)
    (stack : List Id) (freed : Finset Id) (count : Id → ℤ) : Prop where
  counts : ∀ b ∈ keys, count b = blockedChildren parent keys freed b
  freed_good : ∀ b ∈ freed, b ∈ keys ∧ good b ∧ count b = 0
  stack_ready : ∀ b ∈ stack, b ∈ keys ∧ b ∉ freed ∧ count b = 0
  stack_nodup : stack.Nodup
  ready : ∀ b ∈ keys, count b = 0 → good b → b ∈ freed ∨ b ∈ stack

namespace PeelInv

variable {parent : Id → Option Id} {keys : List Id} {good : Id → Prop} {stack : List Id}
  {freed : Finset Id} {count : Id → ℤ} {b p : Id}

/-- The start of the worklist: every node without a child. -/
theorem start (hcounts : ∀ x ∈ keys, count x = blockedChildren parent keys ∅ x)
    (hnodup : stack.Nodup) (hstack : ∀ x, x ∈ stack ↔ x ∈ keys ∧ count x = 0) :
    PeelInv parent keys good stack ∅ count where
  counts := hcounts
  freed_good := by simp
  stack_ready := fun x hx => by simpa using (hstack x).mp hx
  stack_nodup := hnodup
  ready := fun x hx hzero _ => Or.inr ((hstack x).mpr ⟨hx, hzero⟩)

theorem drop (h : PeelInv parent keys good (b :: stack) freed count) (hbad : ¬ good b) :
    PeelInv parent keys good stack freed count where
  counts := h.counts
  freed_good := h.freed_good
  stack_ready := fun x hx => h.stack_ready x (List.mem_cons_of_mem _ hx)
  stack_nodup := (List.nodup_cons.mp h.stack_nodup).2
  ready := by
    intro x hx hzero hgood
    rcases h.ready x hx hzero hgood with hmem | hmem
    · exact Or.inl hmem
    · rcases List.mem_cons.mp hmem with rfl | hmem
      · exact absurd hgood hbad
      · exact Or.inr hmem

theorem free_root (h : PeelInv parent keys good (b :: stack) freed count) (hgood : good b)
    (hroot : ∀ q ∈ keys, parent b ≠ some q) :
    PeelInv parent keys good stack (insert b freed) count := by
  obtain ⟨hb, hfresh, hzero⟩ := h.stack_ready b List.mem_cons_self
  have hnodup := List.nodup_cons.mp h.stack_nodup
  refine ⟨?_, ?_, ?_, hnodup.2, ?_⟩
  · intro x hx
    rw [h.counts x hx, blockedChildren_insert_other (hroot x hx)]
  · intro x hx
    rcases Finset.mem_insert.mp hx with rfl | hx
    · exact ⟨hb, hgood, hzero⟩
    · exact h.freed_good x hx
  · intro x hx
    obtain ⟨hkey, hnot, hcount⟩ := h.stack_ready x (List.mem_cons_of_mem _ hx)
    refine ⟨hkey, ?_, hcount⟩
    rw [Finset.mem_insert]
    rintro (rfl | hmem)
    exacts [hnodup.1 hx, hnot hmem]
  · intro x hx hcount hx'
    rcases h.ready x hx hcount hx' with hmem | hmem
    · exact Or.inl (Finset.mem_insert_of_mem hmem)
    · rcases List.mem_cons.mp hmem with rfl | hmem
      · exact Or.inl (Finset.mem_insert_self _ _)
      · exact Or.inr hmem

/-- The stack after the parent `p` of a freed node has been counted down. -/
def pushReady (count : Id → ℤ) (p : Id) (stack : List Id) : List Id :=
  if count p - 1 = 0 then p :: stack else stack

theorem free_child (h : PeelInv parent keys good (b :: stack) freed count)
    (hkeys : keys.Nodup) (hgood : good b) (hparent : parent b = some p) (hp : p ∈ keys) :
    PeelInv parent keys good (pushReady count p stack) (insert b freed) (Function.update count p (count p - 1)) := by
  obtain ⟨hb, hfresh, hzero⟩ := h.stack_ready b List.mem_cons_self
  have hnodup := List.nodup_cons.mp h.stack_nodup
  have hdrop := blockedChildren_insert_child hkeys hb hparent hfresh
  -- `b` was a blocked child of `p`, so `p` was neither freed nor waiting
  have hpos : count p ≠ 0 := by
    rw [h.counts p hp, hdrop]
    omega
  have hpfreed : p ∉ freed := fun hmem => hpos (h.freed_good p hmem).2.2
  have hpstack : p ∉ b :: stack := fun hmem => hpos (h.stack_ready p hmem).2.2
  have hpb : p ≠ b := fun heq => hpstack (heq ▸ List.mem_cons_self)
  have hcounts : ∀ x ∈ keys, Function.update count p (count p - 1) x =
      blockedChildren parent keys (insert b freed) x := by
    intro x hx
    by_cases hxp : x = p
    · subst hxp
      rw [Function.update_self, h.counts x hx, hdrop]
      omega
    · rw [Function.update_of_ne hxp, h.counts x hx, blockedChildren_insert_other]
      rw [hparent]
      simpa using fun heq => hxp heq.symm
  refine ⟨hcounts, ?_, ?_, ?_, ?_⟩
  · intro x hx
    rcases Finset.mem_insert.mp hx with rfl | hx
    · exact ⟨hb, hgood, by rw [Function.update_of_ne (Ne.symm hpb), hzero]⟩
    · obtain ⟨hkey, hok, hcount⟩ := h.freed_good x hx
      refine ⟨hkey, hok, ?_⟩
      rw [Function.update_of_ne (by rintro rfl; exact hpfreed hx), hcount]
  · intro x hx
    have hold : x ∈ stack → x ∈ keys ∧ x ∉ insert b freed ∧ Function.update count p (count p - 1) x = 0 := by
      intro hold
      obtain ⟨hkey, hnot, hcount⟩ := h.stack_ready x (List.mem_cons_of_mem _ hold)
      refine ⟨hkey, ?_, ?_⟩
      · rw [Finset.mem_insert]
        rintro (rfl | hmem)
        exacts [hnodup.1 hold, hnot hmem]
      · rw [Function.update_of_ne, hcount]
        rintro rfl
        exact hpstack (List.mem_cons_of_mem _ hold)
    unfold pushReady at hx
    split at hx
    · next hready =>
        rcases List.mem_cons.mp hx with rfl | hx
        · refine ⟨hp, ?_, by rw [Function.update_self, hready]⟩
          rw [Finset.mem_insert]
          rintro (heq | hmem)
          exacts [hpb heq, hpfreed hmem]
        · exact hold hx
    · exact hold hx
  · unfold pushReady
    split
    · exact List.nodup_cons.mpr ⟨fun hmem => hpstack (List.mem_cons_of_mem _ hmem), hnodup.2⟩
    · exact hnodup.2
  · intro x hx hcount hok
    by_cases hxp : x = p
    · subst hxp
      rw [Function.update_self] at hcount
      exact Or.inr (by simp [pushReady, hcount])
    · rw [Function.update_of_ne hxp] at hcount
      rcases h.ready x hx hcount hok with hmem | hmem
      · exact Or.inl (Finset.mem_insert_of_mem hmem)
      · rcases List.mem_cons.mp hmem with rfl | hmem
        · exact Or.inl (Finset.mem_insert_self _ _)
        · refine Or.inr ?_
          unfold pushReady
          split
          · exact List.mem_cons_of_mem _ hmem
          · exact hmem

/-- The number of pops that can still happen. -/
def measure (keys : List Id) (stack : List Id) (count : Id → ℤ) : ℕ :=
  stack.length + keys.countP fun b => count b ≠ 0

omit [DecidableEq Id] in
theorem measure_start (hkeys : keys.Nodup) (hnodup : stack.Nodup) (hstack : ∀ x, x ∈ stack ↔ x ∈ keys ∧ count x = 0) :
    measure keys stack count = keys.length := by
  have hperm : stack.Perm (keys.filter fun x => count x = 0) := by
    rw [List.perm_ext_iff_of_nodup hnodup (hkeys.filter _)]
    intro x
    rw [hstack, List.mem_filter, decide_eq_true_eq]
  have hsplit := List.length_eq_countP_add_countP (fun x => decide (count x = 0)) (l := keys)
  rw [measure, hperm.length_eq, ← List.countP_eq_length_filter, hsplit]
  congr 1
  exact List.countP_congr fun x _ => by simp

theorem measure_pushReady_lt (hkeys : keys.Nodup) (hp : p ∈ keys) (hpos : count p ≠ 0) :
    measure keys (pushReady count p stack) (Function.update count p (count p - 1)) ≤ measure keys stack count := by
  have hle : ∀ test test' : Id → Bool, (∀ x ∈ keys, x ≠ p → test' x = true → test x = true) →
      test p = true → test' p = false → keys.countP test' + 1 ≤ keys.countP test := by
    intro test test' himp htest htest'
    have hsub : keys.countP test' ≤ (keys.erase p).countP test := by
      have hperm := List.perm_cons_erase hp
      rw [hperm.countP_eq, List.countP_cons, htest']
      simp only [Bool.false_eq_true, if_false, Nat.add_zero]
      refine List.countP_mono_left fun x hx => ?_
      have hx' := (hkeys.mem_erase_iff).mp hx
      exact himp x hx'.2 hx'.1
    have hsplit : keys.countP test = (keys.erase p).countP test + 1 := by
      rw [(List.perm_cons_erase hp).countP_eq, List.countP_cons, htest, if_pos rfl]
    omega
  unfold measure pushReady
  split
  · next hready =>
      have := hle (fun b => count b ≠ 0) (fun b => Function.update count p (count p - 1) b ≠ 0)
        (fun x _ hx => by simp [hx]) (by simpa using hpos) (by simp [hready])
      simp only [List.length_cons]
      omega
  · refine Nat.add_le_add_left (List.countP_mono_left fun x hx => ?_) _
    by_cases hxp : x = p
    · subst hxp
      simpa using fun _ => hpos
    · simp [hxp]

theorem count_parent_ne_zero (h : PeelInv parent keys good (b :: stack) freed count)
    (hparent : parent b = some p) (hp : p ∈ keys) : count p ≠ 0 := by
  obtain ⟨hb, hfresh, -⟩ := h.stack_ready b List.mem_cons_self
  rw [h.counts p hp]
  intro hzero
  exact hfresh (blockedChildren_eq_zero_iff.mp (by exact_mod_cast hzero) b hb hparent)

/-- **What an empty stack means.** The freed nodes are those all of whose
descendants are good. -/
theorem freed_iff (h : PeelInv parent keys good [] freed count) (hfirst : ParentsFirst parent keys)
    (hkeys : keys.Nodup) (b : Id) :
    b ∈ freed ↔ b ∈ keys ∧ ∀ d, Descends parent keys d b → good d := by
  have hlocal : ∀ x ∈ keys, x ∈ freed ↔ good x ∧ ∀ c ∈ keys, parent c = some x → c ∈ freed := by
    intro x hx
    have hcount : count x = 0 ↔ ∀ c ∈ keys, parent c = some x → c ∈ freed := by
      rw [h.counts x hx, ← blockedChildren_eq_zero_iff]
      exact Int.natCast_eq_zero
    rw [← hcount]
    constructor
    · exact fun hmem => (h.freed_good x hmem).2
    · rintro ⟨hgood, hzero⟩
      simpa using h.ready x hx hzero hgood
  constructor
  · intro hmem
    have hb := (h.freed_good b hmem).1
    exact ⟨hb, (hereditary_iff hfirst hkeys hlocal hb).mp hmem⟩
  · rintro ⟨hb, hall⟩
    exact (hereditary_iff hfirst hkeys hlocal hb).mpr hall

end PeelInv

end Forest
