import Mathlib.Algebra.BigOperators.Group.Finset.Piecewise

/-!
# Ranges of an array

An array is a function on cell numbers.  A range of it is read as a list, and
a list is written to it from a cell on.  A stack is an array with a height:
what is below the height is on the stack, what is above it is left over.
-/

namespace Cells

variable {α : Type}

/-- `cells[start : start + count]`. -/
def read (cells : ℕ → α) (start count : ℕ) : List α :=
  (List.range' start count).map cells

/-- `cells[start : start + len(values)] = values`. -/
def write (cells : ℕ → α) (start : ℕ) (values : List α) : ℕ → α := fun cell =>
  if start ≤ cell then (values[cell - start]?).getD (cells cell) else cells cell

variable {cells other : ℕ → α} {start count : ℕ} {values : List α}

@[simp] theorem length_read : (read cells start count).length = count := by simp [read]

@[simp] theorem read_zero : read cells start 0 = [] := rfl

theorem read_one : read cells start 1 = [cells start] := rfl

theorem read_add (first second : ℕ) :
    read cells start (first + second) = read cells start first ++ read cells (start + first) second := by
  unfold read
  rw [← List.map_append, List.range'_append_1]

variable {stop cell length : ℕ} {keep : List ℕ}

/-- Two ranges side by side. -/
theorem range'_append_range' {start middle : ℕ} (hfirst : start ≤ middle) (hsecond : middle ≤ stop) :
    List.range' start (middle - start) ++ List.range' middle (stop - middle) = List.range' start (stop - start) := by
  obtain ⟨first, rfl⟩ := Nat.exists_eq_add_of_le hfirst
  obtain ⟨second, rfl⟩ := Nat.exists_eq_add_of_le hsecond
  rw [Nat.add_sub_cancel_left, Nat.add_sub_cancel_left, List.range'_append_1, Nat.add_assoc, Nat.add_sub_cancel_left]

theorem read_congr (h : ∀ cell, start ≤ cell → cell < start + count → cells cell = other cell) :
    read cells start count = read other start count := by
  apply List.map_congr_left
  intro cell hcell
  rw [List.mem_range'_1] at hcell
  exact h cell hcell.1 hcell.2

theorem getElem?_read (index : ℕ) :
    (read cells start count)[index]? = if index < count then some (cells (start + index)) else none := by
  unfold read
  split
  · next hindex => simp [hindex]
  · next hindex => exact List.getElem?_eq_none (by simpa using hindex)

theorem write_nil : write cells start [] = cells := by
  funext cell
  simp [write]

theorem write_below (h : cell < start) : write cells start values cell = cells cell :=
  if_neg (Nat.not_le.mpr h)

theorem write_above (h : start + values.length ≤ cell) :
    write cells start values cell = cells cell := by
  unfold write
  rw [if_pos (by omega), List.getElem?_eq_none (by omega), Option.getD_none]

/-- What was written is read. -/
theorem read_write_self : read (write cells start values) start values.length = values := by
  apply List.ext_getElem?
  intro index
  rw [getElem?_read]
  split
  · next hindex =>
    unfold write
    rw [if_pos (Nat.le_add_right _ _), Nat.add_sub_cancel_left, List.getElem?_eq_getElem hindex, Option.getD_some]
  · next hindex => rw [List.getElem?_eq_none (Nat.not_lt.mp hindex)]

theorem read_write_below (h : stop + count ≤ start) :
    read (write cells start values) stop count = read cells stop count :=
  read_congr fun _ _ hlt => write_below (hlt.trans_le h)

/-- A write behind a prefix makes it longer. -/
theorem read_write_append :
    read (write cells count values) 0 (count + values.length) = read cells 0 count ++ values := by
  rw [read_add, Nat.zero_add, read_write_below (Nat.zero_add count).le, read_write_self]

/-- A cell behind a prefix makes it longer by one. -/
theorem read_update_append (value : α) :
    read (Function.update cells count value) 0 (count + 1) = read cells 0 count ++ [value] := by
  have hbelow : read (Function.update cells count value) 0 count = read cells 0 count := by
    apply read_congr
    intro cell _ hlt
    have hne : cell ≠ count := by omega
    exact Function.update_of_ne hne value cells
  rw [read_add, hbelow, read_one, Nat.zero_add, Function.update_self]

/-- Two writes, one behind the other. -/
theorem write_write_append (more : List α) :
    write (write cells start values) (start + values.length) more = write cells start (values ++ more) := by
  funext cell
  by_cases hbelow : cell < start
  · rw [write_below (by omega), write_below hbelow, write_below hbelow]
  · rw [Nat.not_lt] at hbelow
    by_cases hfirst : cell < start + values.length
    · rw [write_below hfirst]
      unfold write
      rw [if_pos hbelow, if_pos hbelow, List.getElem?_append_left (by omega)]
    · rw [Nat.not_lt] at hfirst
      have hrest : cell - (start + values.length) = cell - start - values.length := by omega
      have hpast : values.length ≤ cell - start := by omega
      unfold write
      rw [if_pos hfirst, if_pos hbelow, if_pos hbelow, hrest,
        List.getElem?_append_right hpast, List.getElem?_eq_none hpast,
        Option.getD_none]

/-! ## Compaction -/

/-- What is left of `range(length)` without `keep`. -/
def dropped (keep : List ℕ) (length : ℕ) : List ℕ :=
  (List.range length).filter fun index => index ∉ keep

/-- Some indices of a range, each once, and the rest of it. -/
theorem keep_append_dropped_perm (hnodup : keep.Nodup) (hlt : ∀ index ∈ keep, index < length) :
    (keep ++ dropped keep length).Perm (List.range length) := by
  have hkeep : keep.Perm ((List.range length).filter fun index => index ∈ keep) := by
    rw [List.perm_ext_iff_of_nodup hnodup (List.nodup_range.filter _)]
    intro index
    simp only [List.mem_filter, List.mem_range, decide_eq_true_eq]
    exact ⟨fun h => ⟨hlt index h, h⟩, fun h => h.2⟩
  have hsplit := List.filter_append_perm (fun index => decide (index ∈ keep)) (List.range length)
  refine (hkeep.append_right _).trans ?_
  have hsame : dropped keep length = (List.range length).filter fun index => !decide (index ∈ keep) := by
    unfold dropped
    simp only [decide_not]
  rw [hsame]
  exact hsplit

/-- The values of a range are those kept and those dropped. -/
theorem map_keep_append_map_dropped_perm (hnodup : keep.Nodup) (hlt : ∀ index ∈ keep, index < length) :
    (keep.map cells ++ (dropped keep length).map cells).Perm (read cells 0 length) := by
  unfold read
  rw [← List.map_append, ← List.range_eq_range']
  exact (keep_append_dropped_perm hnodup hlt).map cells

/-! ## Sorted indices -/

section

variable (hsorted : keep.Pairwise (· < ·))

include hsorted

theorem drop_countP_lt (bound : ℕ) :
    keep.drop (keep.countP (· < bound)) = keep.filter fun index => decide (bound ≤ index) := by
  induction keep with
  | nil => rfl
  | cons first rest ih =>
      rw [List.pairwise_cons] at hsorted
      by_cases hfirst : first < bound
      · rw [List.countP_cons_of_pos (by simpa using hfirst), List.drop_succ_cons, ih hsorted.2,
          List.filter_cons_of_neg (by simpa using hfirst)]
      · have hall : ∀ index ∈ first :: rest, bound ≤ index := by
          intro index hindex
          rcases List.mem_cons.mp hindex with rfl | hindex
          · exact Nat.not_lt.mp hfirst
          · exact (Nat.not_lt.mp hfirst).trans (hsorted.1 index hindex).le
        have hzero : (first :: rest).countP (· < bound) = 0 := by
          apply List.countP_eq_zero.mpr
          intro index hindex
          simpa using hall index hindex
        rw [hzero, List.drop_zero, List.filter_eq_self.mpr]
        intro index hindex
        simpa using hall index hindex

theorem take_countP_lt (bound : ℕ) :
    keep.take (keep.countP (· < bound)) = keep.filter fun index => decide (index < bound) := by
  induction keep with
  | nil => rfl
  | cons first rest ih =>
      rw [List.pairwise_cons] at hsorted
      by_cases hfirst : first < bound
      · rw [List.countP_cons_of_pos (by simpa using hfirst), List.take_succ_cons, ih hsorted.2,
          List.filter_cons_of_pos (by simpa using hfirst)]
      · have hnone : ∀ index ∈ first :: rest, ¬ (decide (index < bound)) = true := by
          intro index hindex
          rcases List.mem_cons.mp hindex with rfl | hindex
          · simpa using hfirst
          · have hlt := hsorted.1 index hindex
            simpa using (Nat.not_lt.mp hfirst).trans hlt.le
        rw [List.countP_eq_zero.mpr hnone, List.take_zero, List.filter_eq_nil_iff.mpr hnone]

/-- The part of sorted indices between two bounds. -/
theorem slice_countP_lt {start : ℕ} (hle : start ≤ stop) :
    (keep.drop (keep.countP (· < start))).take (keep.countP (· < stop) - keep.countP (· < start)) =
      keep.filter fun index => decide (start ≤ index ∧ index < stop) := by
  have hcount : keep.countP (· < start) = (keep.filter fun index => decide (index < stop)).countP (· < start) := by
    rw [List.countP_filter]
    apply List.countP_congr
    intro index _
    simp only [decide_eq_true_eq, Bool.and_eq_true]
    omega
  rw [← List.drop_take, take_countP_lt hsorted, hcount, drop_countP_lt (hsorted.filter _), List.filter_filter]
  apply List.filter_congr
  intro index _
  simp only [Bool.decide_and]

end

/-! ## Tiles -/

/-- `range(0, count, tile)`. -/
def tileStarts (count tile : ℕ) : List ℕ := (List.range ((count + tile - 1) / tile)).map (· * tile)

theorem flatMap_take_tiles {α : Type} (list : List α) (tile count : ℕ) :
    ((List.range count).map (· * tile)).flatMap (fun start => (list.drop start).take tile) =
      list.take (count * tile) := by
  induction count with
  | zero => simp
  | succ count ih =>
      rw [List.range_succ, List.map_append, List.flatMap_append, ih, Nat.succ_mul, List.take_add]
      simp

/-- The tiles are the whole list. -/
theorem flatMap_tiles {α : Type} (list : List α) {tile : ℕ} (htile : 0 < tile) :
    (tileStarts list.length tile).flatMap (fun start => (list.drop start).take tile) = list := by
  unfold tileStarts
  rw [flatMap_take_tiles]
  apply List.take_of_length_le
  have hdiv := Nat.div_add_mod (list.length + tile - 1) tile
  have hmod := Nat.mod_lt (list.length + tile - 1) htile
  rw [Nat.mul_comm]
  omega

/-! ## Shares -/

/-- The parts of a list as one multiset. -/
theorem sum_map_coe {α β : Type} (list : List α) (part : α → List β) :
    (list.map fun item => (part item : Multiset β)).sum = (list.flatMap part : List β) := by
  induction list with
  | nil => rfl
  | cons item rest ih => rw [List.map_cons, List.sum_cons, ih, List.flatMap_cons, ← Multiset.coe_add]

/-- What some owners get, each once, is what all of them own more. -/
theorem sum_shares {M : Type} [AddCommMonoid M] {count : ℕ} {rows : List ℕ} {shares : List M}
    {before after : ℕ → M} (hnodup : rows.Nodup) (hlength : shares.length = rows.length)
    (hlt : ∀ row ∈ rows, row < count) (hin : ∀ entry ∈ rows.zip shares, after entry.1 = before entry.1 + entry.2)
    (hout : ∀ row ∉ rows, after row = before row) :
    ∑ row ∈ Finset.range count, after row = ∑ row ∈ Finset.range count, before row + shares.sum := by
  induction rows generalizing shares before with
  | nil =>
      obtain rfl := List.eq_nil_of_length_eq_zero hlength
      rw [List.sum_nil, add_zero]
      exact Finset.sum_congr rfl fun row _ => hout row List.not_mem_nil
  | cons first rest ih =>
      cases shares with
      | nil => simp at hlength
      | cons share shares =>
          rw [List.nodup_cons] at hnodup
          rw [List.zip_cons_cons, List.forall_mem_cons] at hin
          -- the first owner gets its share first
          have hmiddle : ∑ row ∈ Finset.range count, Function.update before first
              (before first + share) row = ∑ row ∈ Finset.range count, before row + share := by
            have hmem : first ∈ Finset.range count :=
              Finset.mem_range.mpr (hlt first List.mem_cons_self)
            rw [Finset.sum_update_of_mem hmem, add_right_comm, ← Finset.erase_eq, Finset.add_sum_erase _ _ hmem]
          have hrest : ∑ row ∈ Finset.range count, after row =
              ∑ row ∈ Finset.range count, Function.update before first (before first + share) row +
                shares.sum := by
            refine ih hnodup.2 (by simpa using hlength) (fun row hrow => hlt row (List.mem_cons_of_mem _ hrow)) ?_ ?_
            · intro entry hentry
              have hne : entry.1 ≠ first := by
                rintro rfl
                exact hnodup.1 (List.of_mem_zip hentry).1
              rw [Function.update_of_ne hne]
              exact hin.2 entry hentry
            · intro row hrow
              by_cases hfirst : row = first
              · subst hfirst
                rw [Function.update_self]
                exact hin.1
              · rw [Function.update_of_ne hfirst]
                exact hout row (by simp [hfirst, hrow])
          rw [hrest, hmiddle, List.sum_cons, add_assoc]

end Cells
