import SparseEngine.SlotTables.Compaction

/-!
# Conservation

On every layer each slot is on the stack or in one row, once, and each row is
free or belongs to one sequence.  A call that moves slots between the stack
and some rows keeps this if what leaves the stack is what the rows get, or the
other way round.
-/

namespace LayerSlots

open Routine Cells

/-- Every slot is on the stack or in a row, and every row is free and empty or
belongs to a sequence. -/
structure Conserved (numSlots maxRows : ℕ) (slots : LayerSlots) : Prop where
  slots_eq : (slots.freeSlots : Multiset ℕ) +
    ∑ row ∈ Finset.range maxRows, (slots.rowSlots row : Multiset ℕ) = Multiset.range numSlots
  rows_perm : (slots.freeRows ++ slots.seqIdToRow.values).Perm (List.range maxRows)
  free_empty : ∀ row ∈ slots.freeRows, slots.rowSeqLens row = 0

variable {numSlots maxRows : ℕ} {slots next : LayerSlots}

theorem conserved_fresh : (fresh numSlots maxRows).Conserved numSlots maxRows where
  slots_eq := by
    have hfree : (fresh numSlots maxRows).freeSlots = List.range numSlots := by
      simp [freeSlots, fresh, Cells.read, List.range_eq_range']
    have hrows : ∀ row, (fresh numSlots maxRows).rowSlots row = [] := fun _ => rfl
    simp only [hfree, hrows, Multiset.coe_nil, Finset.sum_const_zero, add_zero]
    rfl
  rows_perm := by
    show (List.range maxRows ++ []).Perm _
    rw [List.append_nil]
  free_empty _ _ := rfl

namespace Conserved

theorem rows_nodup (h : slots.Conserved numSlots maxRows) :
    (slots.freeRows ++ slots.seqIdToRow.values).Nodup :=
  h.rows_perm.nodup_iff.mpr List.nodup_range

theorem values_nodup (h : slots.Conserved numSlots maxRows) : slots.seqIdToRow.values.Nodup :=
  h.rows_nodup.of_append_right

variable {row : ℕ} {rows : List ℕ}

section

variable (h : slots.Conserved numSlots maxRows)

include h

theorem row_lt (hrow : row ∈ slots.seqIdToRow.values) : row < maxRows :=
  List.mem_range.mp (h.rows_perm.mem_iff.mp (List.mem_append_right _ hrow))

theorem not_free (hrow : row ∈ slots.seqIdToRow.values) : row ∉ slots.freeRows := fun hfree =>
  List.disjoint_of_nodup_append h.rows_nodup hfree hrow

/-- The sequences of two rows are two. -/
theorem seqId_eq {seqId other : ℕ} (hseq : slots.seqIdToRow.get? seqId = some row)
    (hother : slots.seqIdToRow.get? other = some row) : seqId = other :=
  Dict.eq_of_values_nodup h.values_nodup hseq hother

/-- Slots move between the stack and resident rows. -/
theorem moved (hvalues : ∀ row ∈ rows, row ∈ slots.seqIdToRow.values)
    (hdict : next.seqIdToRow = slots.seqIdToRow) (hfreeRows : next.freeRows = slots.freeRows)
    (hout : ∀ row ∉ rows, next.rowSlots row = slots.rowSlots row)
    (hsum : (next.freeSlots : Multiset ℕ) + ∑ row ∈ Finset.range maxRows, (next.rowSlots row : Multiset ℕ) =
      slots.freeSlots + ∑ row ∈ Finset.range maxRows, (slots.rowSlots row : Multiset ℕ)) :
    next.Conserved numSlots maxRows where
  slots_eq := hsum.trans h.slots_eq
  rows_perm := by
    rw [hdict, hfreeRows]
    exact h.rows_perm
  free_empty row hrow := by
    rw [hfreeRows] at hrow
    have hnot : row ∉ rows := fun hmem => h.not_free (hvalues row hmem) hrow
    have hlen := congrArg List.length (hout row hnot)
    simp only [rowSlots, length_read] at hlen
    rw [hlen]
    exact h.free_empty row hrow

/-- Rows get what leaves the stack. -/
theorem grown (shares : List (Multiset ℕ)) (hnodup : rows.Nodup)
    (hvalues : ∀ row ∈ rows, row ∈ slots.seqIdToRow.values) (hlength : shares.length = rows.length)
    (hdict : next.seqIdToRow = slots.seqIdToRow) (hfreeRows : next.freeRows = slots.freeRows)
    (hstack : (slots.freeSlots : Multiset ℕ) = next.freeSlots + shares.sum)
    (hin : ∀ entry ∈ rows.zip shares, (next.rowSlots entry.1 : Multiset ℕ) = slots.rowSlots entry.1 + entry.2)
    (hout : ∀ row ∉ rows, next.rowSlots row = slots.rowSlots row) :
    next.Conserved numSlots maxRows := by
  apply h.moved hvalues hdict hfreeRows hout
  rw [sum_shares hnodup hlength (fun row hrow => h.row_lt (hvalues row hrow)) hin
    fun row hrow => congrArg _ (hout row hrow), hstack]
  rw [add_assoc, add_comm shares.sum]

/-- The stack gets what leaves rows. -/
theorem shrunk (shares : List (Multiset ℕ)) (hnodup : rows.Nodup)
    (hvalues : ∀ row ∈ rows, row ∈ slots.seqIdToRow.values) (hlength : shares.length = rows.length)
    (hdict : next.seqIdToRow = slots.seqIdToRow) (hfreeRows : next.freeRows = slots.freeRows)
    (hstack : (next.freeSlots : Multiset ℕ) = slots.freeSlots + shares.sum)
    (hin : ∀ entry ∈ rows.zip shares, (slots.rowSlots entry.1 : Multiset ℕ) = next.rowSlots entry.1 + entry.2)
    (hout : ∀ row ∉ rows, next.rowSlots row = slots.rowSlots row) :
    next.Conserved numSlots maxRows := by
  apply h.moved hvalues hdict hfreeRows hout
  rw [sum_shares hnodup hlength (fun row hrow => h.row_lt (hvalues row hrow)) hin
    fun row hrow => congrArg _ (hout row hrow).symm, hstack]
  rw [add_right_comm, add_assoc]

end

end Conserved

/-! ## The stack -/

theorem freeSlots_pushSlots (released : List ℕ) :
    (slots.pushSlots released).freeSlots = slots.freeSlots ++ released :=
  read_write_append

variable {count seqId row maxModelLen : ℕ} {seqIds rows values : List ℕ} {table : ℕ → ℕ → ℕ}

/-- What is on the stack and what is taken from it. -/
theorem freeSlots_lowerStack (hcount : count ≤ slots.numFreeSlots) :
    (slots.lowerStack count).freeSlots ++ slots.topSlots count = slots.freeSlots := by
  show read _ 0 (slots.numFreeSlots - count) ++ read _ (slots.numFreeSlots - count) count = read _ 0 _
  have hsum : slots.numFreeSlots = slots.numFreeSlots - count + count := by omega
  conv_rhs => rw [hsum]
  rw [read_add, Nat.zero_add]
  rfl

theorem length_topSlots : (slots.topSlots count).length = count := length_read

/-! ## Rows -/

/-- The rows of resident sequences. -/
def RowsOf (slots : LayerSlots) (seqIds rows : List ℕ) : Prop :=
  rows.map some = seqIds.map slots.seqIdToRow.get?

theorem RowsOf.length_eq (h : slots.RowsOf seqIds rows) : rows.length = seqIds.length := by
  have hlength := congrArg List.length h
  simpa using hlength

theorem RowsOf.mem_values (h : slots.RowsOf seqIds rows) :
    ∀ row ∈ rows, row ∈ slots.seqIdToRow.values := by
  intro row hrow
  have hsome : some row ∈ rows.map some := List.mem_map_of_mem hrow
  rw [h] at hsome
  obtain ⟨seqId, _, hseq⟩ := List.mem_map.mp hsome
  exact Dict.mem_values_iff.mpr ⟨seqId, hseq⟩

theorem currentLen_of_get? (hrow : slots.seqIdToRow.get? seqId = some row) :
    slots.currentLen seqId = slots.rowSeqLens row := by
  rw [currentLen, hrow]

theorem RowsOf.lens (h : slots.RowsOf seqIds rows) :
    ∀ row ∈ rows, ∃ seqId ∈ seqIds, slots.rowSeqLens row = slots.currentLen seqId := by
  intro row hrow
  have hsome : some row ∈ rows.map some := List.mem_map_of_mem hrow
  rw [h] at hsome
  obtain ⟨seqId, hseqId, hseq⟩ := List.mem_map.mp hsome
  exact ⟨seqId, hseqId, (currentLen_of_get? hseq).symm⟩

/-- Distinct sequences have distinct rows. -/
theorem RowsOf.nodup (h : slots.RowsOf seqIds rows) (hslots : slots.Conserved numSlots maxRows)
    (hnodup : seqIds.Nodup) : rows.Nodup := by
  apply List.Nodup.of_map some
  rw [h]
  apply List.Nodup.map_on _ hnodup
  intro seqId hseqId other _ heq
  have hsome : slots.seqIdToRow.get? seqId ∈ rows.map some := h ▸ List.mem_map_of_mem hseqId
  obtain ⟨row, _, hrow⟩ := List.mem_map.mp hsome
  exact hslots.seqId_eq hrow.symm (heq ▸ hrow.symm)

/-- A call that gives out rows leaves slots and lengths alone. -/
structure Taken (slots next : LayerSlots) : Prop where
  stack : next.freeSlotsStack = slots.freeSlotsStack
  height : next.numFreeSlots = slots.numFreeSlots
  table : next.reqToTokenSlots = slots.reqToTokenSlots
  lens : next.rowSeqLens = slots.rowSeqLens
  kept : ∀ seqId row, slots.seqIdToRow.get? seqId = some row → next.seqIdToRow.get? seqId = some row
  currentLen : ∀ seqId, next.currentLen seqId = slots.currentLen seqId

theorem Taken.refl : Taken slots slots := ⟨rfl, rfl, rfl, rfl, fun _ _ h => h, fun _ => rfl⟩

theorem Taken.trans {last : LayerSlots} (hfirst : Taken slots next) (hsecond : Taken next last) :
    Taken slots last where
  stack := hsecond.stack.trans hfirst.stack
  height := hsecond.height.trans hfirst.height
  table := hsecond.table.trans hfirst.table
  lens := hsecond.lens.trans hfirst.lens
  kept seqId row hrow := hsecond.kept seqId row (hfirst.kept seqId row hrow)
  currentLen seqId := (hsecond.currentLen seqId).trans (hfirst.currentLen seqId)

theorem Conserved.taken (h : slots.Conserved numSlots maxRows) (htaken : Taken slots next)
    (hrows : (next.freeRows ++ next.seqIdToRow.values).Perm (slots.freeRows ++ slots.seqIdToRow.values))
    (hfree : ∀ row ∈ next.freeRows, slots.rowSeqLens row = 0) :
    next.Conserved numSlots maxRows where
  slots_eq := by
    have hslots : next.freeSlots = slots.freeSlots ∧ next.rowSlots = slots.rowSlots := by
      unfold freeSlots rowSlots
      rw [htaken.stack, htaken.height, htaken.table, htaken.lens]
      exact ⟨rfl, rfl⟩
    rw [hslots.1, hslots.2]
    exact h.slots_eq
  rows_perm := hrows.trans h.rows_perm
  free_empty row hrow := by
    rw [htaken.lens]
    exact hfree row hrow

section

variable (h : slots.Conserved numSlots maxRows)

include h

/-- A sequence that has a row keeps it, another one gets a free row. -/
theorem getFreeRow_wpe (seqId : ℕ) :
    wpe (getFreeRow seqId) (fun row next => next.Conserved numSlots maxRows ∧ Taken slots next ∧
        next.seqIdToRow.get? seqId = some row)
      (fun next => next = slots) slots := by
  unfold getFreeRow
  rw [wpe_get]
  split
  · next row hrow =>
    rw [wpe_pure]
    exact ⟨h, .refl, hrow⟩
  · next hnone =>
    split
    · rfl
    · next row freeRows hfree =>
      have hkey : seqId ∉ slots.seqIdToRow.keys := Dict.not_mem_keys_iff.mpr hnone
      have hempty : slots.rowSeqLens row = 0 := by
        apply h.free_empty
        rw [hfree]
        exact List.mem_cons_self
      rw [wpe_set, wpe_pure]
      have htaken : Taken slots { slots with
          freeRows := freeRows, seqIdToRow := slots.seqIdToRow.set seqId row } := by
        refine ⟨rfl, rfl, rfl, rfl, fun other row' hrow' => ?_, fun other => ?_⟩
        · have hne : other ≠ seqId := by
            rintro rfl
            rw [hnone] at hrow'
            exact nomatch hrow'
          exact (Dict.get?_set_of_ne _ _ hne).trans hrow'
        · by_cases hother : other = seqId
          · subst hother
            rw [currentLen_of_get? (Dict.get?_set_self _ _ _), currentLen, hnone]
            exact hempty
          · unfold currentLen
            simp only [Dict.get?_set_of_ne _ _ hother]
      refine ⟨h.taken htaken ?_ ?_, htaken, Dict.get?_set_self _ _ _⟩
      · rw [hfree]
        refine ((Dict.values_set_perm row hkey).append_left freeRows).trans ?_
        exact List.perm_middle
      · intro other hother
        apply h.free_empty
        rw [hfree]
        exact List.mem_cons_of_mem _ hother

theorem getFreeRows_wpe (seqIds : List ℕ) :
    wpe (mapEach getFreeRow seqIds) (fun rows next => next.Conserved numSlots maxRows ∧
        Taken slots next ∧ next.RowsOf seqIds rows)
      (fun next => next.Conserved numSlots maxRows ∧ Taken slots next) slots := by
  induction seqIds generalizing slots with
  | nil => exact ⟨h, .refl, rfl⟩
  | cons seqId rest ih =>
      rw [mapEach]
      refine wpe_then_imp (getFreeRow_wpe h seqId) ?_ ?_
      · intro row middle hmiddle
        obtain ⟨hmiddle, htaken, hrow⟩ := hmiddle
        refine wpe_then_imp (ih hmiddle) ?_ ?_
        · intro rows next hnext
          obtain ⟨hnext, hrest, hrows⟩ := hnext
          rw [wpe_pure]
          refine ⟨hnext, htaken.trans hrest, ?_⟩
          unfold RowsOf
          rw [List.map_cons, List.map_cons, hrows, hrest.kept seqId row hrow]
        · intro next hnext
          exact ⟨hnext.1, htaken.trans hnext.2⟩
      · rintro next rfl
        exact ⟨h, .refl⟩

/-- A row is given back. -/
theorem Conserved.released (hrow : slots.seqIdToRow.get? seqId = some row)
    (hempty : slots.rowSeqLens row = 0) {freeRows : List ℕ} (hfree : freeRows.Perm (row :: slots.freeRows)) :
    Conserved numSlots maxRows
      { slots with seqIdToRow := slots.seqIdToRow.erase seqId, freeRows := freeRows } where
  slots_eq := h.slots_eq
  rows_perm := by
    refine List.Perm.trans ?_ h.rows_perm
    refine (hfree.append_right _).trans ?_
    refine List.Perm.trans ?_ ((Dict.values_erase_perm hrow).append_left slots.freeRows).symm
    exact List.perm_middle.symm
  free_empty other hother := by
    rcases List.mem_cons.mp (hfree.mem_iff.mp hother) with rfl | hother
    · exact hempty
    · exact h.free_empty other hother

end

/-! ## One slot for each row -/

theorem scatter_of_not_mem {columns : List ℕ} (hrow : row ∉ rows) :
    scatter table rows columns values row = table row := by
  induction rows generalizing table columns values with
  | nil => simp [scatter]
  | cons first rest ih =>
      rw [List.mem_cons, not_or] at hrow
      cases columns with
      | nil => simp [scatter]
      | cons column columns =>
          cases values with
          | nil => simp [scatter]
          | cons value values => rw [scatter, ih hrow.2, Function.update_of_ne hrow.1]

theorem scatter_of_mem (table : ℕ → ℕ → ℕ) (lens : ℕ → ℕ) (hnodup : rows.Nodup) :
    ∀ entry ∈ rows.zip values,
      scatter table rows (rows.map lens) values entry.1 = Function.update (table entry.1) (lens entry.1) entry.2 := by
  induction rows generalizing table values with
  | nil => simp
  | cons first rest ih =>
      rw [List.nodup_cons] at hnodup
      cases values with
      | nil => simp
      | cons value values =>
          rw [List.zip_cons_cons, List.forall_mem_cons, List.map_cons, scatter]
          constructor
          · rw [scatter_of_not_mem hnodup.1, Function.update_self]
          · intro entry hentry
            have hne : entry.1 ≠ first := by
              rintro rfl
              exact hnodup.1 (List.of_mem_zip hentry).1
            rw [ih _ hnodup.2 entry hentry, Function.update_of_ne hne]

theorem rowSlots_addLens_of_not_mem (hrow : row ∉ rows) :
    (slots.addLens rows count).rowSlots row = slots.rowSlots row := by
  unfold rowSlots addLens
  simp only [hrow, if_false]

/-- What a decode step does to a layer: each of the rows gets one of the topmost
slots. -/
def appendTop (rows : List ℕ) (slots : LayerSlots) : LayerSlots :=
  ((slots.lowerStack rows.length).scatterSlots rows (rows.map slots.rowSeqLens)
    (slots.topSlots rows.length)).addLens rows 1

theorem Conserved.appended (h : slots.Conserved numSlots maxRows) (hnodup : rows.Nodup)
    (hvalues : ∀ row ∈ rows, row ∈ slots.seqIdToRow.values) (hcount : rows.length ≤ slots.numFreeSlots) :
    (slots.appendTop rows).Conserved numSlots maxRows := by
  have hsum : ((slots.topSlots rows.length).map fun slot => ({slot} : Multiset ℕ)).sum =
      slots.topSlots rows.length := by
    rw [← Multiset.sum_coe, ← Multiset.map_coe, Multiset.sum_map_singleton]
  refine h.grown ((slots.topSlots rows.length).map fun slot => {slot}) hnodup hvalues ?_ rfl rfl ?_ ?_ ?_
  · rw [List.length_map, length_topSlots]
  · rw [hsum, ← freeSlots_lowerStack hcount, ← Multiset.coe_add]
    rfl
  · intro entry hentry
    rw [List.zip_map_right] at hentry
    obtain ⟨⟨row, slot⟩, hmem, rfl⟩ := List.mem_map.mp hentry
    have hrow : row ∈ rows := (List.of_mem_zip hmem).1
    have hslots : (slots.appendTop rows).rowSlots row = slots.rowSlots row ++ [slot] := by
      have htable := scatter_of_mem slots.reqToTokenSlots slots.rowSeqLens hnodup _ hmem
      show Cells.read (scatter slots.reqToTokenSlots rows _ _ row) 0
        (if row ∈ rows then slots.rowSeqLens row + 1 else _) = _
      rw [htable, if_pos hrow, read_update_append]
      rfl
    show (((slots.appendTop rows).rowSlots row : List ℕ) : Multiset ℕ) = _
    rw [hslots, ← Multiset.coe_add]
    rfl
  · intro row hrow
    refine (rowSlots_addLens_of_not_mem hrow).trans ?_
    show Cells.read (scatter slots.reqToTokenSlots rows _ _ row) 0 _ = _
    rw [scatter_of_not_mem hrow]
    rfl

/-! ## Allocations -/

theorem setLen_self (row : ℕ) : slots.setLen row (slots.rowSeqLens row) = slots := by
  unfold setLen
  rw [Function.update_eq_self]

/-- A row gets the topmost slots behind its own. -/
theorem Conserved.allocated (h : slots.Conserved numSlots maxRows)
    (hrow : row ∈ slots.seqIdToRow.values) (hcount : count ≤ slots.numFreeSlots) :
    (lowerStack count ((slots.writeRow row (slots.rowSeqLens row) (slots.topSlots count)).setLen row
      (slots.rowSeqLens row + count))).Conserved numSlots maxRows := by
  refine h.grown [(slots.topSlots count : Multiset ℕ)] (List.nodup_singleton row) (by simpa using hrow)
    rfl rfl rfl ?_ ?_ ?_
  · rw [List.sum_singleton, ← freeSlots_lowerStack hcount, ← Multiset.coe_add]
    rfl
  · intro entry hentry
    obtain rfl : entry = (row, (slots.topSlots count : Multiset ℕ)) := by simpa using hentry
    have hread : Cells.read (write (slots.reqToTokenSlots row) (slots.rowSeqLens row)
        (slots.topSlots count)) 0 (slots.rowSeqLens row + (slots.topSlots count).length) =
        slots.rowSlots row ++ slots.topSlots count := read_write_append
    rw [length_topSlots] at hread
    rw [Multiset.coe_add, ← hread]
    unfold rowSlots lowerStack setLen writeRow
    simp only [Function.update_self]
  · intro other hother
    have hne : other ≠ row := by simpa using hother
    unfold rowSlots lowerStack setLen writeRow
    simp only [Function.update_of_ne hne]

theorem Conserved.undone (h : slots.Conserved numSlots maxRows) {ptr curLen : ℕ} {isNew : Bool}
    (hrow : slots.seqIdToRow.get? seqId = some row) (hptr : slots.numFreeSlots = ptr)
    (hlen : slots.rowSeqLens row = curLen) (hnew : isNew = true → curLen = 0) :
    (undoAllocate seqId row curLen ptr isNew slots).Conserved numSlots maxRows := by
  subst hptr hlen
  unfold undoAllocate
  rw [setLen_self]
  split
  · next hisNew => exact h.released hrow (hnew hisNew) (List.Perm.refl _)
  · exact h

theorem maintains_allocate (maxModelLen seqId : ℕ) (size : ℤ) (fault : Option PyError) :
    Maintains (Conserved numSlots maxRows) (allocate maxModelLen seqId size fault) := by
  intro slots h
  unfold allocate
  refine wpe_guarded h fun hsize => ?_
  rw [wpe_get]
  refine wpe_guarded h fun hfree => ?_
  refine wpe_guarded h fun _ => ?_
  refine wpe_then_imp (getFreeRow_wpe h seqId) (fun row next hnext => ?_) ?_
  · obtain ⟨hnext, htaken, hrow⟩ := hnext
    have hlen : next.rowSeqLens row = slots.currentLen seqId := by
      rw [← currentLen_of_get? hrow, htaken.currentLen]
    rw [wpe_get, wpe_bind]
    apply wpe_onError
    cases fault with
    | none =>
        have hcount : size.toNat ≤ next.numFreeSlots := by
          rw [htaken.height]
          omega
        rw [wpe_write, wpe_pure, ← hlen]
        exact hnext.allocated (Dict.mem_values_iff.mpr ⟨seqId, hrow⟩) hcount
    | some error =>
        rw [wpe_raise, wpe_write]
        apply hnext.undone hrow rfl hlen
        intro hnew
        rw [Option.isNone_iff_eq_none] at hnew
        rw [currentLen, hnew]
  · rintro next rfl
    exact h

/-! ## One layer of a decode step -/

/-- No row of the batch is as long as the table is wide. -/
def HasRoom (maxModelLen : ℕ) (seqIds : List ℕ) (slots : LayerSlots) : Prop :=
  ∀ seqId ∈ seqIds, slots.currentLen seqId < maxModelLen

theorem HasRoom.fits (h : slots.HasRoom maxModelLen seqIds) (htaken : Taken slots next)
    (hrows : next.RowsOf seqIds rows) :
    ¬ ((rows.map next.rowSeqLens).any fun length => decide (maxModelLen ≤ length)) = true := by
  intro hany
  obtain ⟨length, hlength, hle⟩ := List.any_eq_true.mp hany
  obtain ⟨row, hrow, rfl⟩ := List.mem_map.mp hlength
  obtain ⟨seqId, hseqId, hlen⟩ := hrows.lens row hrow
  have hlt := h seqId hseqId
  rw [← htaken.currentLen, ← hlen] at hlt
  exact absurd (of_decide_eq_true hle) (Nat.not_le.mpr hlt)

theorem prepareDecode_wpe (h : slots.Conserved numSlots maxRows) (hnodup : seqIds.Nodup)
    (hroom : seqIds.length ≤ slots.numFreeSlots → slots.HasRoom maxModelLen seqIds) :
    wpe (prepareDecode maxModelLen seqIds)
      (fun _ next => next.Conserved numSlots maxRows ∧ seqIds.length ≤ slots.numFreeSlots)
      (Conserved numSlots maxRows) slots := by
  unfold prepareDecode
  rw [wpe_get]
  refine wpe_guarded h fun hfree => ?_
  rw [Nat.not_lt] at hfree
  refine wpe_then_imp (getFreeRows_wpe h seqIds) (fun rows next hnext => ?_) fun next hnext => hnext.1
  obtain ⟨hnext, htaken, hrows⟩ := hnext
  rw [wpe_get, wpe_set, wpe_guard]
  refine ⟨fun hfull => absurd hfull ((hroom hfree).fits htaken hrows), fun _ => ?_⟩
  rw [wpe_set, wpe_set, wpe_get, wpe_pure]
  refine ⟨?_, hfree⟩
  have happend := hnext.appended (hrows.nodup hnext hnodup) hrows.mem_values (by
    rw [hrows.length_eq, htaken.height]
    omega)
  unfold appendTop at happend
  rwa [hrows.length_eq] at happend

/-! ## A batch that is rolled back -/

/-- A write at the end of the rows is not part of them. -/
theorem scatter_below (lens : ℕ → ℕ) {column : ℕ} (hcolumn : column < lens row) :
    scatter table rows (rows.map lens) values row column = table row column := by
  induction rows generalizing table values with
  | nil => simp [scatter]
  | cons first rest ih =>
      cases values with
      | nil => simp [scatter]
      | cons value values =>
          rw [List.map_cons, scatter, ih]
          by_cases hrow : row = first
          · subst hrow
            rw [Function.update_self, Function.update_of_ne hcolumn.ne]
          · rw [Function.update_of_ne hrow]

theorem foldl_update_self (lens : ℕ → ℕ) (rows : List ℕ) :
    (rows.zip (rows.map lens)).foldl
      (fun lens (entry : ℕ × ℕ) => Function.update lens entry.1 entry.2) lens = lens := by
  induction rows with
  | nil => rfl
  | cons row rest ih =>
      rw [List.map_cons, List.zip_cons_cons, List.foldl_cons, Function.update_eq_self]
      exact ih

/-- `seq_id_to_row.pop(seq_id)` and `free_rows.appendleft(row_idx)`. -/
def giveBack (slots : LayerSlots) (seqId : ℕ) : LayerSlots :=
  { slots with
    seqIdToRow := slots.seqIdToRow.erase seqId
    freeRows := (slots.seqIdToRow.get? seqId).getD 0 :: slots.freeRows }

theorem foldl_giveBack_height (ids : List ℕ) (ptr : ℕ) :
    { ids.foldl giveBack slots with numFreeSlots := ptr } =
      ids.foldl giveBack { slots with numFreeSlots := ptr } := by
  induction ids generalizing slots with
  | nil => rfl
  | cons seqId rest ih =>
      rw [List.foldl_cons, List.foldl_cons, ih]
      rfl

section

variable (h : slots.Conserved numSlots maxRows)

include h

/-- Sequences with empty rows lose them. -/
theorem Conserved.givenBack {ids : List ℕ} (hnodup : ids.Nodup)
    (hids : ∀ seqId ∈ ids, ∃ row, slots.seqIdToRow.get? seqId = some row ∧ slots.rowSeqLens row = 0) :
    (ids.foldl giveBack slots).Conserved numSlots maxRows := by
  induction ids generalizing slots with
  | nil => exact h
  | cons seqId rest ih =>
      rw [List.nodup_cons] at hnodup
      rw [List.foldl_cons]
      obtain ⟨row, hrow, hempty⟩ := hids seqId List.mem_cons_self
      apply ih _ hnodup.2
      · intro other hother
        have hne : other ≠ seqId := fun heq => hnodup.1 (heq ▸ hother)
        obtain ⟨otherRow, hotherRow, hotherEmpty⟩ := hids other (List.mem_cons_of_mem _ hother)
        refine ⟨otherRow, ?_, hotherEmpty⟩
        show (slots.seqIdToRow.erase seqId).get? other = _
        rw [Dict.get?_erase, if_neg hne, hotherRow]
      · apply h.released hrow hempty
        rw [hrow]
        exact List.Perm.refl _

/-- Writes behind the rows change no row. -/
theorem Conserved.written (htable : ∀ row column, column < slots.rowSeqLens row →
      table row column = slots.reqToTokenSlots row column) :
    Conserved numSlots maxRows { slots with reqToTokenSlots := table } := by
  have hrows : ∀ row, rowSlots { slots with reqToTokenSlots := table } row = slots.rowSlots row := by
    intro row
    apply read_congr
    intro column _ hlt
    rw [Nat.zero_add] at hlt
    exact htable row column hlt
  have hsum : ∑ row ∈ Finset.range maxRows, (rowSlots { slots with reqToTokenSlots := table } row : Multiset ℕ) =
      ∑ row ∈ Finset.range maxRows, (slots.rowSlots row : Multiset ℕ) :=
    Finset.sum_congr rfl fun row _ => congrArg _ (hrows row)
  refine ⟨?_, h.rows_perm, h.free_empty⟩
  rw [hsum]
  exact h.slots_eq

/-- The handler leaves the layer as it was before the rows were given out. -/
theorem Conserved.undoneBatch {newIds : List ℕ} (rows : List ℕ) (table : ℕ → ℕ → ℕ)
    (hnodup : newIds.Nodup) (htable : ∀ row column,
      column < slots.rowSeqLens row → table row column = slots.reqToTokenSlots row column)
    (hids : ∀ seqId ∈ newIds, ∃ row, slots.seqIdToRow.get? seqId = some row ∧ slots.rowSeqLens row = 0) (height : ℕ) :
    (undoAllocateBatch newIds rows (rows.map slots.rowSeqLens) slots.numFreeSlots
      { slots with reqToTokenSlots := table, numFreeSlots := height }).Conserved numSlots maxRows := by
  unfold undoAllocateBatch
  simp only [foldl_update_self]
  have hundone : ∀ row column, column < slots.rowSeqLens row →
      scatter table rows (rows.map slots.rowSeqLens) (rows.map fun _ => 0) row column =
        slots.reqToTokenSlots row column := by
    intro row column hcolumn
    rw [scatter_below slots.rowSeqLens hcolumn, htable row column hcolumn]
  have hback := (h.written hundone).givenBack (List.nodup_reverse.mpr hnodup)
    fun seqId hseqId => hids seqId (List.mem_reverse.mp hseqId)
  exact (foldl_giveBack_height _ _).symm ▸ hback

end

theorem mem_newSeqIds (h : seqId ∈ slots.newSeqIds seqIds) :
    seqId ∈ seqIds ∧ slots.seqIdToRow.get? seqId = none := by
  unfold newSeqIds at h
  rw [List.mem_eraseDups, List.mem_filter, Option.isNone_iff_eq_none] at h
  exact h

theorem newSeqIds_nodup (slots : LayerSlots) (hnodup : seqIds.Nodup) :
    (slots.newSeqIds seqIds).Nodup := by
  have herase : ∀ ids : List ℕ, ids.Nodup → ids.eraseDups = ids := by
    intro ids
    induction ids with
    | nil => exact fun _ => rfl
    | cons first rest ih =>
        intro hids
        rw [List.nodup_cons] at hids
        have hfilter : (rest.filter fun other => !other == first) = rest := by
          apply List.filter_eq_self.mpr
          intro other hother
          have hne : other ≠ first := fun heq => hids.1 (heq ▸ hother)
          simpa using hne
        rw [List.eraseDups_cons, hfilter, ih hids.2]
  unfold newSeqIds
  rw [herase _ (hnodup.filter _)]
  exact hnodup.filter _

theorem maintains_allocateBatch (maxModelLen : ℕ) (hnodup : seqIds.Nodup) (fault : Option (PyError × Bool)) :
    Maintains (Conserved numSlots maxRows) (allocateBatch maxModelLen seqIds fault) := by
  intro slots h
  unfold allocateBatch
  rw [wpe_get]
  refine wpe_guarded h fun hfree => ?_
  refine wpe_guarded h fun _ => ?_
  refine wpe_guarded h fun _ => ?_
  refine wpe_then_imp (getFreeRows_wpe h seqIds) (fun rows next hnext => ?_) fun next hnext => hnext.1
  obtain ⟨hnext, htaken, hrows⟩ := hnext
  rw [wpe_get, wpe_set, wpe_bind]
  -- a new sequence has an empty row
  have hids : ∀ seqId ∈ slots.newSeqIds seqIds, ∃ row, next.seqIdToRow.get? seqId = some row ∧
      next.rowSeqLens row = 0 := by
    intro seqId hseqId
    obtain ⟨hmem, hnone⟩ := mem_newSeqIds hseqId
    have hsome : next.seqIdToRow.get? seqId ∈ rows.map some := hrows ▸ List.mem_map_of_mem hmem
    obtain ⟨row, _, hrow⟩ := List.mem_map.mp hsome
    refine ⟨row, hrow.symm, ?_⟩
    rw [← currentLen_of_get? hrow.symm, htaken.currentLen, currentLen, hnone]
  have hnew := newSeqIds_nodup slots hnodup
  have hundone := fun table htable => hnext.undoneBatch rows table hnew htable hids
    (next.numFreeSlots - seqIds.length)
  apply wpe_onError
  cases fault with
  | none =>
      show wpe (_ >>= _) _ _ _
      rw [wpe_guard]
      constructor
      · intro _
        rw [wpe_write]
        exact hundone _ fun _ _ _ => rfl
      · intro _
        rw [wpe_write, wpe_pure]
        have happend := hnext.appended (hrows.nodup hnext hnodup) hrows.mem_values (by
          rw [hrows.length_eq, htaken.height]
          omega)
        unfold appendTop at happend
        rwa [hrows.length_eq] at happend
  | some fault =>
      obtain ⟨error, written⟩ := fault
      show wpe (_ >>= _) _ _ _
      rw [wpe_bind, wpe_whenDo]
      constructor
      · intro _
        rw [wpe_write, wpe_raise, wpe_write]
        exact hundone _ fun row column hcolumn => scatter_below next.rowSeqLens hcolumn
      · intro _
        rw [wpe_raise, wpe_write]
        exact hundone _ fun _ _ _ => rfl

/-! ## Frees -/

/-- A row gives its slots back and stays. -/
theorem Conserved.emptied (h : slots.Conserved numSlots maxRows)
    (hrow : row ∈ slots.seqIdToRow.values) (table : ℕ → ℕ) :
    Conserved numSlots maxRows
      ({ slots.pushSlots (slots.rowSlots row) with
        reqToTokenSlots := Function.update slots.reqToTokenSlots row table }.setLen row 0) := by
  refine h.shrunk [(slots.rowSlots row : Multiset ℕ)] (List.nodup_singleton row) (by simpa using hrow)
    rfl rfl rfl ?_ ?_ ?_
  · rw [List.sum_singleton, Multiset.coe_add, ← freeSlots_pushSlots]
    rfl
  · intro entry hentry
    obtain rfl : entry = (row, (slots.rowSlots row : Multiset ℕ)) := by simpa using hentry
    have hempty : (setLen row 0 { slots.pushSlots (slots.rowSlots row) with
        reqToTokenSlots := Function.update slots.reqToTokenSlots row table }).rowSlots row = [] := by
      unfold rowSlots setLen
      simp only [Function.update_self, read_zero]
    rw [hempty]
    exact (zero_add _).symm
  · intro other hother
    have hne : other ≠ row := by simpa using hother
    unfold rowSlots pushSlots setLen
    simp only [Function.update_of_ne hne]

theorem maintains_freeSeq (seqId : ℕ) : Maintains (Conserved numSlots maxRows) (freeSeq seqId) := by
  intro slots h
  unfold freeSeq
  rw [wpe_get]
  split
  · exact h
  · next row hrow =>
    rw [wpe_write]
    have hemptied := h.emptied (Dict.mem_values_iff.mpr ⟨seqId, hrow⟩) fun _ => 0
    have hlen : (setLen row 0 { slots.pushSlots (slots.rowSlots row) with
        reqToTokenSlots := Function.update slots.reqToTokenSlots row fun _ => 0 }).rowSeqLens row = 0 :=
      Function.update_self _ _ _
    exact hemptied.released hrow hlen (List.perm_append_singleton row _)

end LayerSlots
