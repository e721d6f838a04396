import Mathlib.Data.List.Dedup
import Mathlib.Data.List.Sort
import Mathlib.Data.Rat.Floor

/-!
# Sorted sets, ranges and rounding

`sorted(set(items))`, `range` with a positive step, and `round` of an exact
rational.  A list that is already strictly increasing is its own sorted set,
its last item is the largest one, and the first of its items that reaches a
bound is the least that does.
-/

/-! ## Sorted sets -/

section SortedSet

variable {α : Type} [LinearOrder α] {items : List α} {item : α}

/-- `sorted(set(items))`. -/
def sortedSet (items : List α) : List α := items.dedup.insertionSort (· ≤ ·)

@[simp] theorem mem_sortedSet : item ∈ sortedSet items ↔ item ∈ items := by
  rw [sortedSet, List.mem_insertionSort, List.mem_dedup]

theorem sortedSet_pairwise (items : List α) : (sortedSet items).Pairwise (· < ·) := by
  have hle : (sortedSet items).Pairwise (· ≤ ·) := List.pairwise_insertionSort (· ≤ ·) items.dedup
  have hne : (sortedSet items).Pairwise (· ≠ ·) :=
    ((List.perm_insertionSort (· ≤ ·) items.dedup).nodup_iff.mpr items.nodup_dedup)
  exact (hle.and hne).imp fun h => lt_of_le_of_ne h.1 h.2

theorem nodup_of_increasing (h : items.Pairwise (· < ·)) : items.Nodup := h.imp fun hlt => hlt.ne

theorem sortedSet_length_le (items : List α) : (sortedSet items).length ≤ items.length := by
  rw [sortedSet, List.length_insertionSort]
  exact (List.dedup_sublist items).length_le

section

variable (h : items.Pairwise (· < ·))

include h

theorem sortedSet_eq_self : sortedSet items = items := by
  rw [sortedSet, (nodup_of_increasing h).dedup]
  exact (h.imp fun hlt => hlt.le).insertionSort_eq

/-- An increasing list has no more items than a list that has all of them. -/
theorem length_le_of_increasing {others : List α} (hsubset : ∀ item ∈ items, item ∈ others) :
    items.length ≤ others.length :=
  (List.subperm_of_subset (nodup_of_increasing h) hsubset).length_le

/-- The largest item of an increasing list is its last one. -/
theorem getLast?_eq_of_increasing (hmem : item ∈ items) (hlargest : ∀ other ∈ items, other ≤ item) :
    items.getLast? = some item := by
  induction items with
  | nil => exact absurd hmem List.not_mem_nil
  | cons first rest ih =>
      obtain ⟨hfirst, hrest⟩ := List.pairwise_cons.mp h
      rcases rest with _ | ⟨second, rest⟩
      · simp_all
      · rw [List.getLast?_cons_cons]
        refine ih hrest ?_ fun other hother => hlargest other (List.mem_cons_of_mem _ hother)
        rcases List.mem_cons.mp hmem with rfl | hmem
        · -- the second item is above the first, so the first is not the largest
          have hlt := hfirst second List.mem_cons_self
          exact absurd (hlargest second (by simp)) (not_le.mpr hlt)
        · exact hmem

/-- The first item of an increasing list that reaches a bound is the least one
that does. -/
theorem find?_eq_of_increasing {bound : α} (hmem : item ∈ items) (hreaches : bound ≤ item) :
    ∃ least ∈ items, items.find? (fun other => bound ≤ other) = some least ∧
      bound ≤ least ∧ ∀ other ∈ items, bound ≤ other → least ≤ other := by
  induction items with
  | nil => exact absurd hmem List.not_mem_nil
  | cons first rest ih =>
      obtain ⟨hfirst, hrest⟩ := List.pairwise_cons.mp h
      by_cases hbound : bound ≤ first
      · refine ⟨first, List.mem_cons_self, by simp [hbound], hbound, fun other hother _ => ?_⟩
        rcases List.mem_cons.mp hother with rfl | hother
        · exact le_rfl
        · exact (hfirst other hother).le
      · have hmem : item ∈ rest := by
          rcases List.mem_cons.mp hmem with rfl | hmem
          · exact absurd hreaches hbound
          · exact hmem
        obtain ⟨least, hleast, hfind, hle, hleast'⟩ := ih hrest hmem
        refine ⟨least, List.mem_cons_of_mem _ hleast, by simpa [hbound] using hfind, hle, ?_⟩
        intro other hother hothers
        rcases List.mem_cons.mp hother with rfl | hother
        · exact absurd hothers hbound
        · exact hleast' other hother hothers

end

end SortedSet

/-! ## Ranges -/

/-- `range(start, stop, step)` over the integers, for a positive step. -/
def intRange (start stop step : ℤ) : List ℤ :=
  (List.range ((stop - start + step - 1) / step).toNat).map fun index : ℕ => start + index * step

section IntRange

variable {start stop step item : ℤ}

theorem intRange_length (start stop step : ℤ) :
    (intRange start stop step).length = ((stop - start + step - 1) / step).toNat := by
  simp [intRange]

theorem intRange_pairwise (hstep : 0 < step) : (intRange start stop step).Pairwise (· < ·) := by
  refine List.pairwise_map.mpr (List.pairwise_lt_range.imp fun {first second} hlt => ?_)
  have hcast : (first : ℤ) < second := by exact_mod_cast hlt
  have := Int.mul_lt_mul_of_pos_right hcast hstep
  omega

theorem mem_intRange_bounds (hstep : 0 < step) (h : item ∈ intRange start stop step) :
    start ≤ item ∧ item < stop := by
  obtain ⟨index, hindex, rfl⟩ := List.mem_map.mp h
  rw [List.mem_range, Int.lt_toNat] at hindex
  have hbelow : ((index : ℤ) + 1) * step ≤ stop - start + step - 1 := by
    calc ((index : ℤ) + 1) * step ≤ (stop - start + step - 1) / step * step :=
          Int.mul_le_mul_of_nonneg_right (by omega) hstep.le
      _ ≤ stop - start + step - 1 := Int.ediv_mul_le _ hstep.ne'
  have hnonneg : 0 ≤ (index : ℤ) * step := by positivity
  rw [Int.add_mul, one_mul] at hbelow
  exact ⟨by omega, by omega⟩

theorem mem_intRange_one : item ∈ intRange start stop 1 ↔ start ≤ item ∧ item < stop := by
  refine ⟨mem_intRange_bounds one_pos, fun ⟨hstart, hstop⟩ => ?_⟩
  refine List.mem_map.mpr ⟨(item - start).toNat, List.mem_range.mpr ?_, ?_⟩
  · rw [Int.ediv_one]
    omega
  · rw [mul_one]
    omega

end IntRange

/-! ## Rounding -/

/-- `round(value)` of a rational: the nearest integer, and the even one of two
nearest. -/
def roundHalfEven (value : ℚ) : ℤ :=
  let below := ⌊value⌋
  let rest := value - below
  if rest < 1 / 2 then below
  else if 1 / 2 < rest then below + 1
  else if below % 2 = 0 then below
  else below + 1

section Rounding

variable {value : ℚ} {bound : ℤ}

theorem roundHalfEven_bounds (value : ℚ) : ⌊value⌋ ≤ roundHalfEven value ∧ roundHalfEven value ≤ ⌊value⌋ + 1 := by
  unfold roundHalfEven
  dsimp only
  split_ifs <;> omega

@[simp] theorem roundHalfEven_intCast (bound : ℤ) : roundHalfEven (bound : ℚ) = bound := by
  simp [roundHalfEven]

theorem roundHalfEven_nonneg (h : 0 ≤ value) : 0 ≤ roundHalfEven value :=
  (Int.floor_nonneg.mpr h).trans (roundHalfEven_bounds value).1

theorem roundHalfEven_le (h : value ≤ bound) : roundHalfEven value ≤ bound := by
  have hfloor : ⌊value⌋ ≤ bound := Int.floor_le_iff.mpr (by linarith)
  rcases hfloor.lt_or_eq with hlt | heq
  · have := (roundHalfEven_bounds value).2
    omega
  · -- nothing is left over when the floor is the bound itself
    have hvalue : value = bound := le_antisymm h (heq ▸ Int.floor_le value)
    rw [hvalue, roundHalfEven_intCast]

end Rounding
