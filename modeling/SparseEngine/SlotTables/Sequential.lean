import SparseEngine.SlotTables.Conservation

/-!
# One layer, sequence by sequence

The batched allocations take the rows of all sequences first and then write
all slots at once.  On one layer that is what `_allocate` leaves when it is
called on one sequence after the other: taking a row reads no slot and no
length of a resident row (`getFreeRow_unreached`, `prefillRows_change`), so
the rows can be taken early, and the top of the stack splits into the blocks
that the calls pop one by one.

Distinct sequences have distinct rows, and a row that is taken is empty
(`RowsOwned`).
-/

namespace LayerSlots

open Routine Cells SlotTables

variable {Id : Type} {config : SlotConfig} {slots next : LayerSlots}

/-- Every row is free and empty or belongs to one sequence. -/
structure RowsOwned (slots : LayerSlots) : Prop where
  nodup : (slots.freeRows ++ slots.seqIdToRow.values).Nodup
  free_empty : ∀ row ∈ slots.freeRows, slots.rowSeqLens row = 0

theorem Conserved.rowsOwned {numSlots maxRows : ℕ} (h : slots.Conserved numSlots maxRows) : slots.RowsOwned :=
  ⟨h.rows_nodup, h.free_empty⟩

/-! ## Taking a row -/

variable {seqId row maxModelLen : ℕ} {chunkSize : ℤ} {seq : ChainSequence Id}
  {seqs : List (ChainSequence Id)} {entries : List (ℕ × ℕ)} {rows seqIds : List ℕ}
  {table : ℕ → ℕ → ℕ}

/-- A sequence that has a row keeps it, another one gets the first free row. -/
theorem getFreeRow_ok (h : getFreeRow seqId slots = (.ok row, next)) :
    (slots.seqIdToRow.get? seqId = some row ∧ next = slots) ∨
      ∃ freeRows, slots.seqIdToRow.get? seqId = none ∧ slots.freeRows = row :: freeRows ∧
        next = { slots with freeRows := freeRows, seqIdToRow := slots.seqIdToRow.set seqId row } := by
  unfold getFreeRow at h
  rw [get_apply] at h
  rcases hrow : slots.seqIdToRow.get? seqId with _ | found
  · rw [hrow] at h
    rcases hfree : slots.freeRows with _ | ⟨first, freeRows⟩
    · rw [hfree] at h
      exact nomatch (Prod.mk.inj h).1
    · rw [hfree] at h
      obtain ⟨hfirst, rfl⟩ := Prod.mk.inj h
      obtain rfl := Except.ok.inj hfirst
      exact Or.inr ⟨freeRows, rfl, rfl, rfl⟩
  · rw [hrow] at h
    obtain ⟨hfound, rfl⟩ := Prod.mk.inj h
    obtain rfl := Except.ok.inj hfound
    exact Or.inl ⟨rfl, rfl⟩

theorem getFreeRow_of_get? (h : slots.seqIdToRow.get? seqId = some row) :
    getFreeRow seqId slots = (.ok row, slots) := by
  unfold getFreeRow
  rw [get_apply]
  rw [h]
  rfl

/-- Slots, stack and lengths are left alone, and the sequence has the row. -/
theorem RowsOwned.getFreeRow (h : slots.RowsOwned) (hrow : getFreeRow seqId slots = (.ok row, next)) :
    next.RowsOwned ∧ Taken slots next ∧ next.seqIdToRow.get? seqId = some row := by
  rcases getFreeRow_ok hrow with ⟨hget, rfl⟩ | ⟨freeRows, hnone, hfree, rfl⟩
  · exact ⟨h, .refl, hget⟩
  have hkey : seqId ∉ slots.seqIdToRow.keys := Dict.not_mem_keys_iff.mpr hnone
  have hempty : slots.rowSeqLens row = 0 := h.free_empty row (by rw [hfree]; exact List.mem_cons_self)
  refine ⟨⟨?_, fun other hother => ?_⟩, ⟨rfl, rfl, rfl, rfl, fun other row' hrow' => ?_, fun other => ?_⟩,
    Dict.get?_set_self _ _ _⟩
  · have hperm : (freeRows ++ (slots.seqIdToRow.set seqId row).values).Perm
        (slots.freeRows ++ slots.seqIdToRow.values) := by
      rw [hfree]
      exact ((Dict.values_set_perm row hkey).append_left freeRows).trans List.perm_middle
    exact hperm.nodup_iff.mpr h.nodup
  · exact h.free_empty other (by rw [hfree]; exact List.mem_cons_of_mem _ hother)
  · have hne : other ≠ seqId := by
      rintro rfl
      rw [hnone] at hrow'
      exact nomatch hrow'
    exact (Dict.get?_set_of_ne _ _ hne).trans hrow'
  · by_cases hother : other = seqId
    · subst hother
      rw [currentLen_of_get? (Dict.get?_set_self _ _ _), currentLen, hnone]
      exact hempty
    · unfold currentLen
      simp only [Dict.get?_set_of_ne _ _ hother]

/-- A change of table, stack and lengths is not seen by the call. -/
theorem getFreeRow_unreached (change : LayerSlots → LayerSlots)
    (hrows : ∀ slots, (change slots).seqIdToRow = slots.seqIdToRow)
    (hfree : ∀ slots, (change slots).freeRows = slots.freeRows)
    (hchange : ∀ slots freeRows seqIdToRow,
      change { slots with freeRows := freeRows, seqIdToRow := seqIdToRow } =
        { change slots with freeRows := freeRows, seqIdToRow := seqIdToRow }) (seqId : ℕ) :
    Unreached change (getFreeRow seqId) := by
  intro slots
  unfold getFreeRow
  rw [bind_apply, get_apply, read_apply]
  dsimp only
  rw [hrows, hfree]
  rcases slots.seqIdToRow.get? seqId with _ | row
  · rcases slots.freeRows with _ | ⟨row, freeRows⟩
    · rfl
    · refine Prod.ext rfl ?_
      show ({ change slots with freeRows := freeRows, seqIdToRow := (change slots).seqIdToRow.set seqId row } :
        LayerSlots) = _
      rw [hrows, ← hchange]
      rfl
  · rfl

theorem RowsOwned.row_ne (h : slots.RowsOwned) {other otherRow : ℕ} (hrow : slots.seqIdToRow.get? seqId = some row)
    (hother : slots.seqIdToRow.get? other = some otherRow) (hne : seqId ≠ other) :
    row ≠ otherRow := by
  rintro rfl
  exact hne (Dict.eq_of_values_nodup h.nodup.of_append_right hrow hother)

/-! ## One sequence -/

/-- A row takes a block of slots from the top of the stack. -/
def takeBlock (row len : ℕ) (block : List ℕ) (slots : LayerSlots) : LayerSlots :=
  lowerStack block.length ((slots.writeRow row len block).setLen row (len + block.length))

theorem RowsOwned.takeBlock (h : slots.RowsOwned) (hrow : slots.seqIdToRow.get? seqId = some row)
    (len : ℕ) (block : List ℕ) :
    (slots.takeBlock row len block).RowsOwned where
  nodup := h.nodup
  free_empty other hother := by
    have hne : other ≠ row := by
      rintro rfl
      exact List.disjoint_of_nodup_append h.nodup hother (Dict.mem_values_iff.mpr ⟨seqId, hrow⟩)
    exact (Function.update_of_ne hne _ _).trans (h.free_empty other hother)

theorem takeBlock_rowSeqLens_of_ne (slots : LayerSlots) {other : ℕ} (hne : other ≠ row) (len : ℕ)
    (block : List ℕ) : (slots.takeBlock row len block).rowSeqLens other = slots.rowSeqLens other :=
  Function.update_of_ne hne _ _

theorem getFreeRow_takeBlock (row len : ℕ) (block : List ℕ) (seqId : ℕ) :
    Unreached (takeBlock row len block) (getFreeRow seqId) :=
  getFreeRow_unreached (takeBlock row len block) (fun _ => rfl) (fun _ => rfl) (fun _ _ _ => rfl) seqId

/-- **`_allocate`** that passes its checks. -/
theorem RowsOwned.allocate_eq (h : slots.RowsOwned) {size : ℕ}
    (hrow : LayerSlots.getFreeRow seqId slots = (.ok row, next)) (hfree : size ≤ slots.numFreeSlots)
    (hlen : next.rowSeqLens row + size ≤ maxModelLen) :
    allocate maxModelLen seqId size none slots =
      (.ok (slots.topSlots size), next.takeBlock row (next.rowSeqLens row) (slots.topSlots size)) := by
  obtain ⟨-, htaken, hget⟩ := h.getFreeRow hrow
  have hcurrent : slots.currentLen seqId = next.rowSeqLens row := by
    rw [← htaken.currentLen, currentLen_of_get? hget]
  have htop : next.topSlots size = slots.topSlots size := by
    rw [topSlots, topSlots, htaken.stack, htaken.height]
  unfold allocate
  rw [bind_apply, raiseIf_apply, if_neg (by omega)]
  dsimp only
  rw [get_apply]
  rw [bind_apply, raiseIf_apply, if_neg (by omega)]
  dsimp only
  rw [bind_apply, raiseIf_apply, hcurrent, if_neg (by omega)]
  dsimp only
  rw [bind_apply, hrow]
  dsimp only
  rw [get_apply]
  rw [Int.toNat_natCast, htop, LayerSlots.takeBlock, length_topSlots]
  rfl

/-! ## A prefill batch -/

theorem prefillRow_ok {entry : ℕ × ℕ} (h : prefillRow config chunkSize seq slots = (.ok entry, next)) :
    LayerSlots.getFreeRow seq.seqId slots = (.ok entry.1, next) ∧ entry.2 = next.rowSeqLens entry.1 ∧
      (seq.isChainResume = false → (entry.2 : ℤ) = seq.numPrefilledTokens) ∧
      entry.2 + chunkSize ≤ config.maxModelLen := by
  unfold prefillRow at h
  rw [bind_apply] at h
  rcases hrow : LayerSlots.getFreeRow seq.seqId slots with ⟨error | row, mid⟩
  · rw [hrow] at h
    cases (Prod.mk.inj h).1
  rw [hrow] at h
  dsimp only at h
  rw [get_apply] at h
  rw [bind_apply, raiseIf_apply] at h
  split_ifs at h with hmismatch
  · cases (Prod.mk.inj h).1
  dsimp only at h
  rw [bind_apply, raiseIf_apply] at h
  split_ifs at h with hlong
  · cases (Prod.mk.inj h).1
  obtain ⟨hentry, rfl⟩ := Prod.mk.inj h
  obtain rfl := Except.ok.inj hentry
  refine ⟨rfl, rfl, fun hresume => ?_, by omega⟩
  by_contra hne
  exact hmismatch ⟨hresume, hne⟩

theorem prefillRow_eq (hrow : LayerSlots.getFreeRow seq.seqId slots = (.ok row, next))
    (hstart : seq.isChainResume = false → (next.rowSeqLens row : ℤ) = seq.numPrefilledTokens)
    (hlen : next.rowSeqLens row + chunkSize ≤ config.maxModelLen) :
    prefillRow config chunkSize seq slots = (.ok (row, next.rowSeqLens row), next) := by
  unfold prefillRow
  rw [bind_apply, hrow]
  dsimp only
  rw [get_apply]
  rw [bind_apply, raiseIf_apply, if_neg (fun hmismatch => hmismatch.2 (hstart hmismatch.1))]
  dsimp only
  rw [bind_apply, raiseIf_apply, if_neg (by omega)]
  rfl

/-- A loop over sequences that returned, taken apart. -/
theorem mapEach_cons_ok {α β : Type} {body : α → Routine LayerSlots β} {item : α} {rest : List α}
    {values : List β} (h : mapEach body (item :: rest) slots = (.ok values, next)) :
    ∃ value mid others, body item slots = (.ok value, mid) ∧ mapEach body rest mid = (.ok others, next) ∧
      values = value :: others := by
  rw [mapEach, bind_apply] at h
  rcases hfirst : body item slots with ⟨error | value, mid⟩
  · rw [hfirst] at h
    cases (Prod.mk.inj h).1
  rw [hfirst] at h
  dsimp only at h
  rw [bind_apply] at h
  rcases hrest : mapEach body rest mid with ⟨error | others, last⟩
  · rw [hrest] at h
    cases (Prod.mk.inj h).1
  rw [hrest] at h
  obtain ⟨hvalues, rfl⟩ := Prod.mk.inj h
  exact ⟨value, mid, others, rfl, hrest, (Except.ok.inj hvalues).symm⟩

theorem mapEach_cons_eq {α β : Type} {body : α → Routine LayerSlots β} {item : α} {rest : List α}
    {value : β} {mid : LayerSlots} {others : List β} (hfirst : body item slots = (.ok value, mid))
    (hrest : mapEach body rest mid = (.ok others, next)) :
    mapEach body (item :: rest) slots = (.ok (value :: others), next) := by
  rw [mapEach, bind_apply, hfirst]
  dsimp only
  rw [bind_apply, hrest]
  rfl

/-- The rows of other sequences are found in the same way when a row has taken
its block. -/
theorem prefillRows_takeBlock (h : slots.RowsOwned)
    (hrun : mapEach (prefillRow config chunkSize) seqs slots = (.ok entries, next))
    (hrow : slots.seqIdToRow.get? seqId = some row) (hseqId : seqId ∉ seqs.map ChainSequence.seqId)
    (len : ℕ) (block : List ℕ) :
    mapEach (prefillRow config chunkSize) seqs (slots.takeBlock row len block) =
      (.ok entries, next.takeBlock row len block) := by
  induction seqs generalizing slots entries with
  | nil =>
      obtain ⟨hentries, rfl⟩ := Prod.mk.inj hrun
      obtain rfl := Except.ok.inj hentries
      rfl
  | cons seq rest ih =>
      rw [List.map_cons, List.mem_cons, not_or] at hseqId
      obtain ⟨entry, mid, others, hfirst, hrest, rfl⟩ := mapEach_cons_ok hrun
      obtain ⟨hfree, hentry, hstart, hlen⟩ := prefillRow_ok hfirst
      obtain ⟨howned, htaken, hget⟩ := h.getFreeRow hfree
      have hkept := htaken.kept seqId row hrow
      have hne : entry.1 ≠ row := howned.row_ne hget hkept (Ne.symm hseqId.1)
      have hlens := takeBlock_rowSeqLens_of_ne mid hne len block
      refine mapEach_cons_eq ?_ (ih howned hrest hkept hseqId.2)
      have hfree' : LayerSlots.getFreeRow seq.seqId (slots.takeBlock row len block) =
          (.ok entry.1, mid.takeBlock row len block) := by
        rw [getFreeRow_takeBlock, hfree]
      rw [hentry, ← hlens] at hstart hlen
      rw [prefillRow_eq hfree' hstart hlen, hlens, ← hentry]

/-- The first block of the top of the stack and the others. -/
theorem prefillSlots_succ {stack : ℕ → ℕ} {ptr batchSize chunkSize : ℕ}
    (hptr : (batchSize + 1) * chunkSize ≤ ptr) : prefillSlots stack ptr (batchSize + 1) chunkSize =
      Cells.read stack (ptr - chunkSize) chunkSize ::
        prefillSlots stack (ptr - chunkSize) batchSize chunkSize := by
  rw [Nat.succ_mul] at hptr
  unfold prefillSlots
  rw [List.range_succ_eq_map, List.map_cons, List.map_map]
  congr 1
  · have hstart : ptr - (batchSize + 1) * chunkSize + (batchSize + 1 - 1 - 0) * chunkSize = ptr - chunkSize := by
      rw [Nat.succ_mul, Nat.add_sub_cancel, Nat.sub_zero]
      omega
    rw [hstart]
  · refine List.map_congr_left fun index hindex => ?_
    have hstart : ptr - (batchSize + 1) * chunkSize + (batchSize + 1 - 1 - (index + 1)) * chunkSize =
        ptr - chunkSize - batchSize * chunkSize + (batchSize - 1 - index) * chunkSize := by
      rw [show batchSize + 1 - 1 - (index + 1) = batchSize - 1 - index by omega, Nat.succ_mul]
      omega
    show Cells.read stack _ chunkSize = _
    rw [Nat.succ_eq_add_one, hstart]

theorem lowerStack_writeRows (entries : List ((ℕ × ℕ) × List ℕ)) (count : ℕ) :
    (slots.writeRows entries).lowerStack count = (slots.lowerStack count).writeRows entries := by
  induction entries generalizing slots with
  | nil => rfl
  | cons entry rest ih => exact ih

theorem setLen_writeRows (entries : List ((ℕ × ℕ) × List ℕ)) (row length : ℕ) :
    (slots.writeRows entries).setLen row length = (slots.setLen row length).writeRows entries := by
  induction entries generalizing slots with
  | nil => rfl
  | cons entry rest ih => exact ih

theorem rowSeqLens_writeRows (entries : List ((ℕ × ℕ) × List ℕ)) :
    (slots.writeRows entries).rowSeqLens = slots.rowSeqLens := by
  induction entries generalizing slots with
  | nil => rfl
  | cons entry rest ih => exact ih

/-- One row more is as long as the others. -/
theorem addLens_cons {count : ℕ} (hrow : row ∉ rows) :
    slots.addLens (row :: rows) count = (slots.setLen row (slots.rowSeqLens row + count)).addLens rows count := by
  unfold addLens setLen
  congr 1
  funext other
  by_cases hother : other = row
  · subst hother
    simp [hrow]
  · simp [hother]

/-- A block for the first row, and the others behind it. -/
theorem writePrefill_cons {len : ℕ} (block : List ℕ) (selected : List (List ℕ))
    (hrow : row ∉ entries.map Prod.fst) (hlen : len = slots.rowSeqLens row) :
    writePrefill ((row, len) :: entries) (block :: selected) block.length slots =
      writePrefill entries selected block.length (slots.takeBlock row len block) := by
  have hcount (slots : LayerSlots) : slots.lowerStack ((entries.length + 1) * block.length) =
      (slots.lowerStack block.length).lowerStack (entries.length * block.length) := by
    rw [lowerStack, lowerStack, lowerStack, Nat.succ_mul, Nat.sub_sub, Nat.add_comm]
  have hwrite : slots.writeRows (((row, len), block) :: entries.zip selected) =
      (slots.writeRow row len block).writeRows (entries.zip selected) := rfl
  unfold writePrefill takeBlock
  rw [List.zip_cons_cons, List.length_cons, List.map_cons, hcount, addLens_cons hrow, hwrite,
    lowerStack_writeRows, lowerStack_writeRows, rowSeqLens_writeRows, setLen_writeRows,
    lowerStack_writeRows, hlen]
  rfl

section

variable (h : slots.RowsOwned)

include h

/-- The rows of the entries, for distinct sequences. -/
theorem RowsOwned.prefillRows (hrun : mapEach (prefillRow config chunkSize) seqs slots = (.ok entries, next)) :
    next.RowsOwned ∧ Taken slots next ∧ next.RowsOf (seqs.map ChainSequence.seqId) (entries.map Prod.fst) ∧
      entries.length = seqs.length := by
  induction seqs generalizing slots entries with
  | nil =>
      obtain ⟨hentries, rfl⟩ := Prod.mk.inj hrun
      obtain rfl := Except.ok.inj hentries
      exact ⟨h, .refl, rfl, rfl⟩
  | cons seq rest ih =>
      obtain ⟨entry, mid, others, hfirst, hrest, rfl⟩ := mapEach_cons_ok hrun
      obtain ⟨howned, htaken, hget⟩ := h.getFreeRow (prefillRow_ok hfirst).1
      obtain ⟨hlast, htaken', hrows, hlength⟩ := ih howned hrest
      refine ⟨hlast, htaken.trans htaken', ?_, by rw [List.length_cons, List.length_cons, hlength]⟩
      unfold RowsOf
      rw [List.map_cons, List.map_cons, List.map_cons, List.map_cons, hrows, htaken'.kept _ _ hget]

/-- A row that only other sequences have. -/
theorem RowsOwned.not_mem_rows (hrows : slots.RowsOf seqIds rows)
    (hrow : slots.seqIdToRow.get? seqId = some row) (hseqId : seqId ∉ seqIds) : row ∉ rows := by
  intro hmem
  have hsome : some row ∈ rows.map some := List.mem_map_of_mem hmem
  rw [hrows] at hsome
  obtain ⟨other, hother, hget⟩ := List.mem_map.mp hsome
  refine h.row_ne hrow hget ?_ rfl
  rintro rfl
  exact hseqId hother

/-- **A prefill batch on one layer** leaves what `_allocate` leaves, called on
one sequence after the other. -/
theorem RowsOwned.allocateEach_eq {chunkSize : ℕ} (hseqs : (seqs.map ChainSequence.seqId).Nodup)
    (hfree : seqs.length * chunkSize ≤ slots.numFreeSlots)
    (hrun : mapEach (prefillRow config chunkSize) seqs slots = (.ok entries, next)) :
    mapEach (fun seq => allocate config.maxModelLen seq.seqId chunkSize none) seqs slots =
      (.ok (prefillSlots slots.freeSlotsStack slots.numFreeSlots seqs.length chunkSize),
        writePrefill entries
          (prefillSlots slots.freeSlotsStack slots.numFreeSlots seqs.length chunkSize) chunkSize next) := by
  induction seqs generalizing slots entries next with
  | nil =>
      obtain ⟨hentries, rfl⟩ := Prod.mk.inj hrun
      obtain rfl := Except.ok.inj hentries
      refine Prod.ext rfl ?_
      simp [mapEach, pure_apply, writePrefill, writeRows, lowerStack, addLens, prefillSlots]
  | cons seq rest ih =>
      rw [List.map_cons, List.nodup_cons] at hseqs
      rw [List.length_cons] at hfree
      obtain ⟨⟨row, len⟩, mid, others, hfirst, hrest, rfl⟩ := mapEach_cons_ok hrun
      obtain ⟨hrow, hentry, -, hlen⟩ := prefillRow_ok hfirst
      have hrow : LayerSlots.getFreeRow seq.seqId slots = (.ok row, mid) := hrow
      obtain ⟨howned, htaken, hget⟩ := h.getFreeRow hrow
      obtain rfl : len = mid.rowSeqLens row := hentry
      have hlen : (mid.rowSeqLens row : ℤ) + chunkSize ≤ config.maxModelLen := hlen
      have hfits : mid.rowSeqLens row + chunkSize ≤ config.maxModelLen := by omega
      have hsucc := hfree
      rw [Nat.succ_mul] at hsucc
      have hcall : allocate config.maxModelLen seq.seqId chunkSize none slots = _ :=
        h.allocate_eq hrow (by omega) hfits
      -- the rows of the others are found behind the block of the first
      have hblock := prefillRows_takeBlock howned hrest hget hseqs.1 (mid.rowSeqLens row) (slots.topSlots chunkSize)
      have hheight : (mid.takeBlock row (mid.rowSeqLens row) (slots.topSlots chunkSize)).numFreeSlots =
          slots.numFreeSlots - chunkSize := by
        show mid.numFreeSlots - _ = _
        rw [htaken.height, length_topSlots]
      have hstack : (mid.takeBlock row (mid.rowSeqLens row) (slots.topSlots chunkSize)).freeSlotsStack =
          slots.freeSlotsStack := htaken.stack
      have hcalls := ih (howned.takeBlock hget _ _) hseqs.2 (by rw [hheight]; omega) hblock
      rw [hheight, hstack] at hcalls
      obtain ⟨hlast, htaken', hrows, -⟩ := howned.prefillRows hrest
      have hnot := hlast.not_mem_rows hrows (htaken'.kept _ _ hget) hseqs.1
      have hlens : mid.rowSeqLens row = next.rowSeqLens row := by rw [htaken'.lens]
      have hwrite := writePrefill_cons (slots.topSlots chunkSize)
        (prefillSlots slots.freeSlotsStack (slots.numFreeSlots - chunkSize) rest.length chunkSize) hnot hlens
      rw [length_topSlots] at hwrite
      rw [List.length_cons, prefillSlots_succ hfree, show Cells.read slots.freeSlotsStack
        (slots.numFreeSlots - chunkSize) chunkSize = slots.topSlots chunkSize from rfl, hwrite]
      exact mapEach_cons_eq hcall hcalls

/-- A write to rows of sequences leaves the free rows empty. -/
theorem RowsOwned.of_lens {last : LayerSlots} (hrows : slots.RowsOf seqIds rows)
    (hfreeRows : last.freeRows = slots.freeRows) (hseqIdToRow : last.seqIdToRow = slots.seqIdToRow)
    (hlens : ∀ row, row ∉ rows → last.rowSeqLens row = slots.rowSeqLens row) :
    last.RowsOwned where
  nodup := by
    rw [hfreeRows, hseqIdToRow]
    exact h.nodup
  free_empty row hrow := by
    rw [hfreeRows] at hrow
    rw [hlens row, h.free_empty row hrow]
    exact fun hmem => List.disjoint_of_nodup_append h.nodup hrow (hrows.mem_values row hmem)

end

/-! ## A decode batch -/

theorem RowsOwned.getFreeRows (h : slots.RowsOwned)
    (hrun : mapEach LayerSlots.getFreeRow seqIds slots = (.ok rows, next)) :
    next.RowsOwned ∧ Taken slots next ∧ next.RowsOf seqIds rows := by
  induction seqIds generalizing slots rows with
  | nil =>
      obtain ⟨hrows, rfl⟩ := Prod.mk.inj hrun
      obtain rfl := Except.ok.inj hrows
      exact ⟨h, .refl, rfl⟩
  | cons seqId rest ih =>
      obtain ⟨row, mid, others, hfirst, hrest, rfl⟩ := mapEach_cons_ok hrun
      obtain ⟨howned, htaken, hget⟩ := h.getFreeRow hfirst
      obtain ⟨hlast, htaken', hrows⟩ := ih howned hrest
      refine ⟨hlast, htaken.trans htaken', ?_⟩
      unfold RowsOf
      rw [List.map_cons, List.map_cons, hrows, htaken'.kept _ _ hget]

/-- There was a free row for every sequence without one. -/
theorem length_filter_le_of_getFreeRows (hseqIds : seqIds.Nodup)
    (hrun : mapEach getFreeRow seqIds slots = (.ok rows, next)) :
    (seqIds.filter fun seqId => (slots.seqIdToRow.get? seqId).isNone).length ≤ slots.freeRows.length := by
  induction seqIds generalizing slots rows with
  | nil => exact Nat.zero_le _
  | cons seqId rest ih =>
      rw [List.nodup_cons] at hseqIds
      obtain ⟨row, mid, others, hfirst, hrest, rfl⟩ := mapEach_cons_ok hrun
      have hle := ih hseqIds.2 hrest
      rcases getFreeRow_ok hfirst with ⟨hget, rfl⟩ | ⟨freeRows, hnone, hfree, rfl⟩
      · simpa [hget] using hle
      · have hsame : rest.filter (fun other => ((slots.seqIdToRow.set seqId row).get? other).isNone) =
            rest.filter fun other => (slots.seqIdToRow.get? other).isNone := by
          refine List.filter_congr fun other hother => ?_
          have hne : other ≠ seqId := by
            rintro rfl
            exact hseqIds.1 hother
          rw [Dict.get?_set_of_ne _ _ hne]
        dsimp only at hle
        rw [hsame] at hle
        rw [List.filter_cons_of_pos (by simp [hnone]), hfree, List.length_cons, List.length_cons]
        omega

theorem eraseDups_of_nodup {list : List ℕ} (hnodup : list.Nodup) : list.eraseDups = list := by
  induction list with
  | nil => rfl
  | cons first rest ih =>
      rw [List.nodup_cons] at hnodup
      have hothers : rest.filter (fun other => !other == first) = rest := by
        refine List.filter_eq_self.mpr fun other hother => ?_
        have hne : other ≠ first := by
          rintro rfl
          exact hnodup.1 hother
        simp [hne]
      rw [List.eraseDups_cons, hothers, ih hnodup.2]

/-- What a decode batch writes to a layer. -/
def writeDecode (rows selected : List ℕ) (slots : LayerSlots) : LayerSlots :=
  ((slots.lowerStack rows.length).scatterSlots rows (rows.map slots.rowSeqLens) selected).addLens rows 1

/-- **`_allocate_batch`** that passes its checks. -/
theorem RowsOwned.allocateBatch_eq (h : slots.RowsOwned) (hseqIds : seqIds.Nodup)
    (hrun : mapEach LayerSlots.getFreeRow seqIds slots = (.ok rows, next))
    (hfree : seqIds.length ≤ slots.numFreeSlots) (hlens : ∀ row ∈ rows, next.rowSeqLens row + 1 ≤ maxModelLen) :
    allocateBatch maxModelLen seqIds none slots =
      (.ok (slots.topSlots seqIds.length), next.writeDecode rows (slots.topSlots seqIds.length)) := by
  obtain ⟨-, htaken, hrows⟩ := h.getFreeRows hrun
  have hnew : (slots.newSeqIds seqIds).length ≤ slots.freeRows.length := by
    have hnodup := hseqIds.filter fun seqId => (slots.seqIdToRow.get? seqId).isNone
    rw [newSeqIds, eraseDups_of_nodup hnodup]
    exact length_filter_le_of_getFreeRows hseqIds hrun
  -- none of its guards fires, as the rows have room:
  have hexisting : ¬ (seqIds.any fun seqId => (slots.seqIdToRow.get? seqId).any fun row =>
      decide (maxModelLen < slots.rowSeqLens row + 1)) = true := by
    rw [Bool.not_eq_true, List.any_eq_false]
    intro seqId hseqId
    rcases hget : slots.seqIdToRow.get? seqId with _ | row
    · simp
    · have hrow : row ∈ rows := by
        have hmem : some row ∈ rows.map some := by
          rw [hrows, ← htaken.kept seqId row hget]
          exact List.mem_map_of_mem hseqId
        simpa using hmem
      have hlen := hlens row hrow
      rw [htaken.lens] at hlen
      simp only [Option.any_some, decide_eq_true_eq]
      omega
  have hwithin : ¬ ((rows.map next.rowSeqLens).any fun length => decide (maxModelLen ≤ length)) = true := by
    rw [Bool.not_eq_true, List.any_eq_false]
    intro length hlength
    obtain ⟨row, hrow, rfl⟩ := List.mem_map.mp hlength
    have hlen := hlens row hrow
    simp only [decide_eq_true_eq]
    omega
  have htop : next.topSlots seqIds.length = slots.topSlots seqIds.length := by
    rw [topSlots, topSlots, htaken.stack, htaken.height]
  have hlength : rows.length = seqIds.length := hrows.length_eq
  unfold allocateBatch
  rw [get_apply]
  dsimp only
  rw [bind_apply, raiseIf_apply, if_neg (by omega)]
  dsimp only
  rw [bind_apply, raiseIf_apply, if_neg (by omega)]
  dsimp only
  rw [bind_apply, raiseIf_apply, if_neg hexisting]
  dsimp only
  rw [bind_apply, hrun]
  dsimp only
  rw [get_apply]
  rw [set_apply]
  rw [bind_apply, onError, bind_apply, raiseIf_apply, if_neg hwithin, htop, writeDecode, hlength]
  rfl

theorem scatter_update_of_not_mem {columns values : List ℕ} (hrow : row ∉ rows) (cells : ℕ → ℕ) :
    scatter (Function.update table row cells) rows columns values =
      Function.update (scatter table rows columns values) row cells := by
  induction rows generalizing table columns values with
  | nil => simp [scatter]
  | cons first rest ih =>
      rw [List.mem_cons, not_or] at hrow
      cases columns with
      | nil => simp [scatter]
      | cons column columns =>
          cases values with
          | nil => simp [scatter]
          | cons value values =>
              rw [scatter, scatter, Function.update_of_ne (Ne.symm hrow.1), Function.update_comm hrow.1, ih hrow.2]

theorem scatter_concat {columns values : List ℕ} (hcolumns : columns.length = rows.length)
    (hvalues : values.length = rows.length) (row column value : ℕ) :
    scatter table (rows ++ [row]) (columns ++ [column]) (values ++ [value]) =
      Function.update (scatter table rows columns values) row
        (Function.update (scatter table rows columns values row) column value) := by
  induction rows generalizing table columns values with
  | nil =>
      obtain rfl := List.length_eq_zero_iff.mp hcolumns
      obtain rfl := List.length_eq_zero_iff.mp hvalues
      rfl
  | cons first rest ih =>
      rcases columns with _ | ⟨firstColumn, columns⟩
      · exact nomatch hcolumns
      rcases values with _ | ⟨firstValue, values⟩
      · exact nomatch hvalues
      exact ih (Nat.succ.inj hcolumns) (Nat.succ.inj hvalues)

theorem write_singleton (cells : ℕ → ℕ) (start value : ℕ) :
    Cells.write cells start [value] = Function.update cells start value := by
  funext cell
  rcases lt_trichotomy cell start with hlt | rfl | hlt
  · rw [write_below hlt, Function.update_of_ne hlt.ne]
  · simp [Cells.write]
  · rw [write_above (show start + 1 ≤ cell from hlt), Function.update_of_ne hlt.ne']

/-- The last row has taken its slot, the others take theirs. -/
theorem writeDecode_concat {selected : List ℕ} (hselected : selected.length = rows.length)
    (hrow : row ∉ rows) (slot : ℕ) :
    slots.writeDecode (rows ++ [row]) (selected ++ [slot]) =
      (slots.takeBlock row (slots.rowSeqLens row) [slot]).writeDecode rows selected := by
  have hlens : rows.map (slots.takeBlock row (slots.rowSeqLens row) [slot]).rowSeqLens =
      rows.map slots.rowSeqLens := by
    refine List.map_congr_left fun other hother => takeBlock_rowSeqLens_of_ne slots ?_ _ _
    rintro rfl
    exact hrow hother
  have htable : scatter slots.reqToTokenSlots (rows ++ [row]) ((rows ++ [row]).map slots.rowSeqLens)
      (selected ++ [slot]) = scatter (Function.update slots.reqToTokenSlots row
        (Cells.write (slots.reqToTokenSlots row) (slots.rowSeqLens row) [slot])) rows
          (rows.map slots.rowSeqLens) selected := by
    rw [List.map_append, List.map_singleton,
      scatter_concat (List.length_map _) hselected, scatter_update_of_not_mem hrow, write_singleton]
    rw [scatter_of_not_mem hrow]
  have hheight : slots.numFreeSlots - (rows ++ [row]).length = slots.numFreeSlots - 1 - rows.length := by
    rw [List.length_append, List.length_singleton]
    omega
  unfold writeDecode
  rw [hlens]
  unfold takeBlock scatterSlots addLens lowerStack setLen writeRow
  dsimp only
  rw [htable, hheight]
  congr 1
  funext other
  by_cases hother : other = row
  · subst hother
    simp [hrow]
  · simp [hother]

/-- **A decode batch on one layer** leaves what `_allocate` leaves, called on
the sequences in reverse order when each of them has its row. -/
theorem RowsOwned.allocateReverse_eq (h : slots.RowsOwned) (hseqIds : seqIds.Nodup)
    (hrows : slots.RowsOf seqIds rows) (hfree : seqIds.length ≤ slots.numFreeSlots)
    (hlens : ∀ row ∈ rows, slots.rowSeqLens row + 1 ≤ maxModelLen) :
    mapEach (fun seqId => allocate maxModelLen seqId 1 none) seqIds.reverse slots =
      (.ok ((slots.topSlots seqIds.length).reverse.map fun slot => [slot]),
        slots.writeDecode rows (slots.topSlots seqIds.length)) := by
  induction seqIds using List.reverseRecOn generalizing slots rows with
  | nil =>
      obtain rfl : rows = [] := List.length_eq_zero_iff.mp hrows.length_eq
      simp [mapEach, pure_apply, writeDecode, topSlots, lowerStack, scatterSlots, scatter, addLens]
  | append_singleton front seqId ih =>
      obtain ⟨rowsFront, row, rfl⟩ : ∃ rowsFront row, rows = rowsFront ++ [row] := by
        have hne : rows ≠ [] := by
          rintro rfl
          have hlength := hrows.length_eq
          simp at hlength
        exact ⟨rows.dropLast, rows.getLast hne, (List.dropLast_append_getLast hne).symm⟩
      unfold RowsOf at hrows
      rw [List.map_append, List.map_append, List.map_singleton, List.map_singleton] at hrows
      obtain ⟨hfront, hlast⟩ := List.append_inj' hrows rfl
      have hget : slots.seqIdToRow.get? seqId = some row := (List.singleton_injective hlast).symm
      obtain ⟨hfrontNodup, -, hnot⟩ := List.nodup_append.mp hseqIds
      have hseqId : seqId ∉ front := fun hmem => hnot seqId hmem seqId (List.mem_singleton_self _) rfl
      have hrow : row ∉ rowsFront := h.not_mem_rows hfront hget hseqId
      rw [List.length_append, List.length_singleton] at hfree ⊢
      have hone : 1 ≤ slots.numFreeSlots := by omega
      have hcall : allocate maxModelLen seqId 1 none slots = _ :=
        h.allocate_eq (getFreeRow_of_get? hget) hone (hlens row (by simp))
      have htop : slots.topSlots 1 = [slots.freeSlotsStack (slots.numFreeSlots - 1)] := read_one
      -- the last sequence takes the top slot, the others those below it:
      have hsplit : slots.topSlots (front.length + 1) =
          Cells.read slots.freeSlotsStack (slots.numFreeSlots - 1 - front.length) front.length ++
            [slots.freeSlotsStack (slots.numFreeSlots - 1)] := by
        rw [topSlots, read_add, read_one, Nat.sub_sub, Nat.add_comm 1]
        congr 3
        omega
      have hcalls := ih (h.takeBlock hget (slots.rowSeqLens row) (slots.topSlots 1)) hfrontNodup hfront
        (by show front.length ≤ slots.numFreeSlots - (slots.topSlots 1).length; rw [length_topSlots]; omega)
        (fun other hother => by
          have hne : other ≠ row := by
            rintro rfl
            exact hrow hother
          rw [takeBlock_rowSeqLens_of_ne slots hne]
          exact hlens other (List.mem_append_left _ hother))
      rw [List.reverse_append, List.reverse_singleton, List.singleton_append, hsplit,
        List.reverse_append, List.reverse_singleton, List.singleton_append, List.map_cons,
        writeDecode_concat (by rw [length_read]; exact (RowsOf.length_eq hfront).symm) hrow, ← htop]
      refine mapEach_cons_eq hcall ?_
      rw [hcalls]
      show (_, LayerSlots.writeDecode _ (Cells.read _ (slots.numFreeSlots - (slots.topSlots 1).length - _) _) _) = _
      rw [length_topSlots]
      rfl

end LayerSlots
