import SparseEngine.KVzip.Model
import SparseEngine.SlotTables.Compacting
import SparseEngine.SlotTables.Sequential

/-!
# Borrowed slots

A replay takes a block from the top of the stack of a layer and writes it
behind the prompt (`Borrows`).  To release the suffix of the row puts the
block back where it was taken, so that the layer is what it was in all that is
read of it (`Alike`): the stack, the rows, their lengths and their slots.
-/

namespace LayerSlots

open Routine Cells

variable {Id : Type} {slots next last : LayerSlots} {seqId row length count : ℕ}

/-- Two layers with the same rows and the same stack.  What lies behind the end
of a row may differ. -/
structure Alike (slots next : LayerSlots) : Prop where
  seqIdToRow : next.seqIdToRow = slots.seqIdToRow
  freeRows : next.freeRows = slots.freeRows
  rowSeqLens : next.rowSeqLens = slots.rowSeqLens
  numFreeSlots : next.numFreeSlots = slots.numFreeSlots
  freeSlots : next.freeSlots = slots.freeSlots
  rowSlots : ∀ row, next.rowSlots row = slots.rowSlots row

theorem Alike.refl (slots : LayerSlots) : slots.Alike slots := ⟨rfl, rfl, rfl, rfl, rfl, fun _ => rfl⟩

theorem Alike.trans (hfirst : slots.Alike next) (hsecond : next.Alike last) : slots.Alike last where
  seqIdToRow := hsecond.seqIdToRow.trans hfirst.seqIdToRow
  freeRows := hsecond.freeRows.trans hfirst.freeRows
  rowSeqLens := hsecond.rowSeqLens.trans hfirst.rowSeqLens
  numFreeSlots := hsecond.numFreeSlots.trans hfirst.numFreeSlots
  freeSlots := hsecond.freeSlots.trans hfirst.freeSlots
  rowSlots row := (hsecond.rowSlots row).trans (hfirst.rowSlots row)

theorem Alike.conserved {numSlots maxRows : ℕ} (h : slots.Alike next) (hconserved : slots.Conserved numSlots maxRows) :
    next.Conserved numSlots maxRows where
  slots_eq := by simpa only [h.freeSlots, h.rowSlots] using hconserved.slots_eq
  rows_perm := by simpa only [h.freeRows, h.seqIdToRow] using hconserved.rows_perm
  free_empty := by simpa only [h.freeRows, h.rowSeqLens] using hconserved.free_empty

/-- The sequence has a row of the length. -/
def Resident (seqId length : ℕ) (slots : LayerSlots) : Prop :=
  ∃ row, slots.seqIdToRow.get? seqId = some row ∧ slots.rowSeqLens row = length

theorem Alike.resident (h : slots.Alike next) (hresident : slots.Resident seqId length) :
    next.Resident seqId length := by
  obtain ⟨row, hrow, hlength⟩ := hresident
  exact ⟨row, by rw [h.seqIdToRow, hrow], by rw [h.rowSeqLens, hlength]⟩

/-- The sequence has borrowed `count` slots. -/
def Borrows (seqId length count : ℕ) (slots next : LayerSlots) : Prop :=
  ∃ row, slots.seqIdToRow.get? seqId = some row ∧ slots.rowSeqLens row = length ∧ count ≤ slots.numFreeSlots ∧
    next = slots.takeBlock row length (slots.topSlots count)

theorem takeBlock_nil (slots : LayerSlots) (row : ℕ) : slots.takeBlock row (slots.rowSeqLens row) [] = slots := by
  simp [takeBlock, writeRow_nil, setLen, lowerStack]

theorem Resident.borrows_nothing (h : slots.Resident seqId length) : slots.Borrows seqId length 0 slots := by
  obtain ⟨row, hrow, rfl⟩ := h
  exact ⟨row, hrow, rfl, Nat.zero_le _, (takeBlock_nil slots row).symm⟩

theorem Borrows.resident (h : slots.Borrows seqId length count next) : next.Resident seqId (length + count) := by
  obtain ⟨row, hrow, -, -, rfl⟩ := h
  refine ⟨row, hrow, ?_⟩
  simp [takeBlock, setLen, lowerStack, length_topSlots]

/-! ## Taking a block -/

variable {seq : ChainSequence Id}

theorem Resident.checkRowLen_ok (h : slots.Resident seqId length) (hseq : seq.seqId = seqId)
    (hprefilled : seq.numPrefilledTokens = length) :
    SlotTables.checkRowLen .none seq 0 slots = (.ok (), slots) := by
  obtain ⟨row, hrow, hlength⟩ := h
  subst hseq
  simp only [SlotTables.checkRowLen, bind_apply, read_apply, raiseIf_apply]
  rw [if_neg]
  simp [hrow, hlength, hprefilled]

/-- A layer takes a block for the replay, or a fault of the device leaves it
alone. -/
theorem Resident.appendReplay (h : slots.Resident seqId length) (hrows : slots.RowsOwned)
    {config : SlotConfig} (hseq : seq.seqId = seqId) (hprefilled : seq.numPrefilledTokens = length)
    (hchunk : seq.chunkSize = count) (hfree : count ≤ slots.numFreeSlots)
    (hmax : length + count ≤ config.maxModelLen) (fault : Option PyError) :
    wpe (appendReplay config seq fault) (fun _ next => slots.Borrows seqId length count next)
      (fun next => next = slots ∧ fault ≠ none) slots := by
  have hcheck := h.checkRowLen_ok hseq hprefilled
  obtain ⟨row, hrow, hlength⟩ := h
  subst hseq
  have hgot := getFreeRow_of_get? hrow
  unfold LayerSlots.appendReplay
  rw [wpe_bind, wpe_of_ok hcheck, wpe_bind, hchunk]
  rcases fault with _ | error
  · have htaken : allocate config.maxModelLen seq.seqId count none slots = (.ok (slots.topSlots count),
        slots.takeBlock row (slots.rowSeqLens row) (slots.topSlots count)) :=
      hrows.allocate_eq hgot hfree (by rwa [hlength])
    rw [wpe_of_ok htaken, wpe_pure]
    exact ⟨row, hrow, hlength, hfree, by rw [hlength]⟩
  · have hcurrent : slots.currentLen seq.seqId = slots.rowSeqLens row := currentLen_of_get? hrow
    have hsame : undoAllocate seq.seqId row (slots.rowSeqLens row) slots.numFreeSlots false slots = slots := by
      simp [undoAllocate, setLen]
    have hraised : allocate config.maxModelLen seq.seqId count (some error) slots = (.error error, slots) := by
      unfold allocate
      rw [bind_apply, raiseIf_apply, if_neg (by omega)]
      dsimp only
      rw [get_apply]
      rw [bind_apply, raiseIf_apply, if_neg (by omega)]
      dsimp only
      rw [bind_apply, raiseIf_apply, hcurrent, if_neg (by omega)]
      dsimp only
      rw [bind_apply, hgot]
      dsimp only
      rw [get_apply]
      simp only [bind_apply, onError, raise_apply, write_apply, hrow, Option.isNone_some, hsame]
    rw [wpe_def, hraised]
    exact ⟨rfl, Option.some_ne_none _⟩

/-- The batched allocation takes the same block. -/
theorem writePrefill_eq_takeBlock (hlength : slots.rowSeqLens row = length) :
    SlotTables.writePrefill [(row, length)] (SlotTables.prefillSlots slots.freeSlotsStack slots.numFreeSlots 1 count)
      count slots = slots.takeBlock row length (slots.topSlots count) := by
  have hselected : SlotTables.prefillSlots slots.freeSlotsStack slots.numFreeSlots 1 count =
      [slots.topSlots count] := by
    simp [SlotTables.prefillSlots, topSlots]
  have hlens : (fun other => if other = row then slots.rowSeqLens other + count else slots.rowSeqLens other) =
      Function.update slots.rowSeqLens row (length + count) := by
    funext other
    by_cases hother : other = row
    · subst hother
      simp [hlength]
    · simp [hother]
  rw [hselected]
  simp [SlotTables.writePrefill, writeRows, takeBlock, addLens, setLen, lowerStack, writeRow, length_topSlots, hlens]

/-! ## Putting it back -/

/-- The layer after a block has been put back. -/
def putBack (row length count : ℕ) (slots : LayerSlots) : LayerSlots :=
  ((slots.pushSlots (read (slots.reqToTokenSlots row) length count)).writeRow row length
    (List.replicate count 0)).setLen row length

/-- To put back a block that was taken. -/
theorem putBack_takeBlock (hlength : slots.rowSeqLens row = length) (hfree : count ≤ slots.numFreeSlots) :
    slots.Alike ((slots.takeBlock row length (slots.topSlots count)).putBack row length count) := by
  have hblock : (slots.topSlots count).length = count := length_topSlots
  have hread : read ((slots.takeBlock row length (slots.topSlots count)).reqToTokenSlots row) length count =
      slots.topSlots count := by
    have hself : read (write (slots.reqToTokenSlots row) length (slots.topSlots count)) length
        (slots.topSlots count).length = slots.topSlots count := read_write_self
    rw [hblock] at hself
    simpa [takeBlock, lowerStack, setLen, writeRow] using hself
  have hstack : ((slots.takeBlock row length (slots.topSlots count)).pushSlots (slots.topSlots count)).freeSlots =
      slots.freeSlots := by
    rw [freeSlots_pushSlots, ← freeSlots_lowerStack hfree, takeBlock, hblock]
    rfl
  have hlens : Function.update (Function.update slots.rowSeqLens row (length + (slots.topSlots count).length)) row
      length = slots.rowSeqLens := by
    rw [Function.update_idem, ← hlength, Function.update_eq_self]
  unfold putBack
  rw [hread]
  refine ⟨rfl, rfl, hlens, ?_, hstack, fun other => ?_⟩
  · simp [takeBlock, setLen, writeRow, pushSlots, lowerStack, hblock, Nat.sub_add_cancel hfree]
  · by_cases hother : other = row
    · subst hother
      -- the writes are behind the prompt
      have hbelow : ∀ (cells : ℕ → ℕ) values, read (write cells length values) 0 length = read cells 0 length :=
        fun cells values => read_write_below (Nat.zero_add length).le
      simp [rowSlots, takeBlock, setLen, writeRow, pushSlots, lowerStack, hbelow, hlength]
    · simp [rowSlots, takeBlock, setLen, writeRow, pushSlots, lowerStack, hother]

/-- **A borrowed block goes back to where it was taken.** -/
theorem Borrows.release (h : slots.Borrows seqId length count next) :
    ∃ last, releaseSuffix seqId length next = (.ok (), last) ∧ slots.Alike last := by
  obtain ⟨row, hrow, hlength, hfree, rfl⟩ := h
  have hrow' : (slots.takeBlock row length (slots.topSlots count)).seqIdToRow.get? seqId = some row := hrow
  have hstop : (slots.takeBlock row length (slots.topSlots count)).rowSeqLens row = length + count := by
    simp [takeBlock, setLen, lowerStack, length_topSlots]
  rcases Nat.eq_zero_or_pos count with rfl | hpos
  · refine ⟨_, ?_, Alike.refl slots⟩
    have hsame : slots.takeBlock row length (slots.topSlots 0) = slots := by
      subst hlength
      exact takeBlock_nil slots row
    rw [hsame] at hrow' hstop ⊢
    simp [releaseSuffix, bind_apply, read_apply, hrow, hlength, raiseIf_apply, whenDo, pure_apply]
  · refine ⟨_, ?_, putBack_takeBlock hlength hfree⟩
    simp [releaseSuffix, bind_apply, read_apply, hrow', hstop, raiseIf_apply, whenDo, write_apply, putBack, hpos]

end LayerSlots
