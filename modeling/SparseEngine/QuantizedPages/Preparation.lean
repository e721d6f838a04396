import SparseEngine.QuantizedPages.Batches

/-!
# Preparing a step

A preparation either raises and changes nothing, or it has given each sequence
of the batch its pages, its row and its slots, and says for the layers where
to write.  A decode preparation may add requests that read the row of the
first one and have a negative write slot.
-/

namespace QuantizedCache

open Routine

variable {Vec Code : Type} {config : QuantizedConfig Vec Code}
  {cache middle next : QuantizedCache Vec Code} {seqId : ℕ}

/-! ## Fields that the tables do not depend on -/

/-- The same tables with other metadata and another storage. -/
structure SameTables (cache next : QuantizedCache Vec Code) : Prop where
  pagePool_eq : next.pagePool = cache.pagePool
  seqIdToRow_eq : next.seqIdToRow = cache.seqIdToRow
  freeRows_eq : next.freeRows = cache.freeRows
  rowSeqLens_eq : next.rowSeqLens = cache.rowSeqLens
  rowLogicalLens_eq : next.rowLogicalLens = cache.rowLogicalLens
  slots_eq : next.bufferReqToTokenSlots = cache.bufferReqToTokenSlots

namespace SameTables

variable {row : ℕ} {pages : List ℕ} {length : ℕ}

theorem owner_iff (hsame : SameTables cache next) :
    next.Owner seqId row pages length ↔ cache.Owner seqId row pages length := by
  constructor
  · intro howner
    exact ⟨hsame.seqIdToRow_eq ▸ howner.row_eq, hsame.pagePool_eq ▸ howner.pages_eq,
      hsame.pagePool_eq ▸ howner.length_eq⟩
  · intro howner
    exact ⟨hsame.seqIdToRow_eq.symm ▸ howner.row_eq, hsame.pagePool_eq.symm ▸ howner.pages_eq,
      hsame.pagePool_eq.symm ▸ howner.length_eq⟩

theorem tables (hsame : SameTables cache next) (h : Tables config cache) : Tables config next where
  pageSize_pos := h.pageSize_pos
  pageSize_eq := by rw [hsame.pagePool_eq, h.pageSize_eq]
  maxLength_eq := by rw [hsame.pagePool_eq, h.maxLength_eq]
  pages_perm := by
    rw [hsame.pagePool_eq]
    exact h.pages_perm
  rows_perm := by
    rw [hsame.freeRows_eq, hsame.seqIdToRow_eq]
    exact h.rows_perm
  owned seqId := by
    rcases h.owned seqId with habsent | ⟨row, pages, length, howner⟩
    · refine .inl ⟨?_, ?_, ?_⟩
      · rw [hsame.seqIdToRow_eq, habsent.row_eq]
      · rw [hsame.pagePool_eq, habsent.pages_eq]
      · rw [hsame.pagePool_eq, habsent.length_eq]
    · exact .inr ⟨row, pages, length, hsame.owner_iff.mpr howner⟩
  mapped howner := by
    have hmapped := h.mapped (hsame.owner_iff.mp howner)
    exact
      { length_le := hmapped.length_le
        pages_length := hmapped.pages_length
        rowSeqLens_eq := by rw [hsame.rowSeqLens_eq, hmapped.rowSeqLens_eq]
        rowLogicalLens_eq := by rw [hsame.rowLogicalLens_eq, hmapped.rowLogicalLens_eq]
        slots := by
          rw [hsame.slots_eq]
          exact hmapped.slots }

theorem extends_right (hsame : SameTables middle next) (hlayers : next.layers = middle.layers)
    (h : Extends cache middle) : Extends cache next where
  pages hpages := by
    rw [hsame.pagePool_eq]
    exact h.pages hpages
  rows hrow := by
    rw [hsame.seqIdToRow_eq]
    exact h.rows hrow
  layers_eq := hlayers.trans h.layers_eq

theorem grows_right {requests : List (ℕ × ℤ)} (hsame : SameTables middle next)
    (hlayers : next.layers = middle.layers) (h : Grows config cache middle requests) :
    Grows config cache next requests where
  tables := hsame.tables h.tables
  extended := hsame.extends_right hlayers h.extended
  lengths seqId := by
    rw [hsame.pagePool_eq]
    exact h.lengths seqId

end SameTables

/-! ## Prefill -/

theorem wpe_rowOf {row : ℕ} (hrow : cache.seqIdToRow.get? seqId = some row) :
    wpe (rowOf seqId) (fun value after => value = row ∧ after = cache) (fun _ => False) cache := by
  rw [rowOf, wpe_get, hrow, wpe_pure]
  exact ⟨rfl, rfl⟩

/-- The request of a prefill. -/
def PrefillSeq.request (seq : PrefillSeq) : ℕ × ℤ := (seq.seqId, seq.currentChunkSize)

theorem wpe_prefillRow (h : Tables config cache) (seq : PrefillSeq)
    (hfits : Fits config cache (PrefillSeq.request seq))
    (hfree : cost config cache (PrefillSeq.request seq) ≤ cache.pagePool.free.length)
    (hrows : cache.seqIdToRow.get? seq.seqId = none → cache.freeRows ≠ [])
    (hprefilled : ∀ length, cache.pagePool.lengths.get? seq.seqId = some length → seq.numPrefilledTokens = length) :
    wpe (prefillRow config seq)
      (fun value after => value.1.length = seq.currentChunkSize.toNat ∧ ∃ row taken,
        Takes (withPages config cache (PrefillSeq.request seq)) seq.seqId row taken ∧
        after = allocated cache taken (PrefillSeq.request seq) row (slotsOf config cache (PrefillSeq.request seq)))
      (fun _ => False) cache := by
  unfold prefillRow
  rw [wpe_get, wpe_guard]
  constructor
  · -- the row has the length that the sequence has prefilled
    intro hmismatch
    rw [Option.any_eq_true] at hmismatch
    obtain ⟨row, hrow, hne⟩ := hmismatch
    obtain ⟨pages, length, howner⟩ := h.owner_of_row hrow
    have hlength := (h.mapped howner).rowLogicalLens_eq
    rw [hprefilled length howner.length_eq, hlength] at hne
    simp at hne
  intro _
  refine wpe_then (wpe_allocate h hfits hfree hrows) fun slots after hafter => ?_
  obtain ⟨rfl, row, taken, htakes, rfl⟩ := hafter
  refine wpe_then (wpe_rowOf htakes.row_eq) fun value last hlast => ?_
  obtain ⟨rfl, rfl⟩ := hlast
  rw [wpe_get, wpe_pure]
  exact ⟨Cells.length_read, value, taken, htakes, rfl⟩

/-- The plan says of each sequence of a prefill where its chunk goes.  `starts`
is the length of each sequence before the chunk. -/
def Planned (config : QuantizedConfig Vec Code) (cache : QuantizedCache Vec Code) (starts : ℕ → ℕ) :
    ℕ → List PrefillSeq → List WriteEntry → Prop
  | _, [], entries => entries = []
  | offset, seq :: rest, entries => ∃ row pages tail,
      cache.Owner seq.seqId row pages (starts seq.seqId + seq.currentChunkSize.toNat) ∧
      entries = ⟨row, starts seq.seqId, starts seq.seqId + seq.currentChunkSize.toNat, offset,
        (pages.drop (starts seq.seqId / config.pageSize)).take
          ((starts seq.seqId + seq.currentChunkSize.toNat) / config.pageSize -
            starts seq.seqId / config.pageSize)⟩ :: tail ∧
      Planned config cache starts (offset + seq.currentChunkSize.toNat) rest tail

variable {starts : ℕ → ℕ} {seqs : List PrefillSeq} {seqIds : List ℕ}

theorem Planned.congr (hsame : SameTables cache next) {offset : ℕ} {entries : List WriteEntry}
    (h : Planned config cache starts offset seqs entries) :
    Planned config next starts offset seqs entries := by
  induction seqs generalizing offset entries with
  | nil => exact h
  | cons seq rest ih =>
      obtain ⟨row, pages, tail, howner, hentries, htail⟩ := h
      exact ⟨row, pages, tail, hsame.owner_iff.mpr howner, hentries, ih htail⟩

theorem wpe_writeEntries (config : QuantizedConfig Vec Code) (starts : ℕ → ℕ) (seqs : List PrefillSeq) (offset : ℕ)
    (howner : ∀ seq ∈ seqs, ∃ row pages,
      cache.Owner seq.seqId row pages (starts seq.seqId + seq.currentChunkSize.toNat)) :
    wpe (writeEntries config offset seqs)
      (fun entries after => after = cache ∧ Planned config cache starts offset seqs entries)
      (fun _ => False) cache := by
  induction seqs generalizing offset with
  | nil =>
      rw [writeEntries, wpe_pure]
      exact ⟨rfl, rfl⟩
  | cons seq rest ih =>
      obtain ⟨row, pages, hseq⟩ := howner seq List.mem_cons_self
      rw [writeEntries, wpe_bind, writeEntry, wpe_get, hseq.length_eq, hseq.pages_eq]
      show wpe (rowOf seq.seqId >>= _) _ _ _
      refine wpe_then (wpe_rowOf hseq.row_eq) fun value after hafter => ?_
      obtain ⟨rfl, rfl⟩ := hafter
      rw [wpe_pure]
      refine wpe_then (ih _ fun other hother => howner other (List.mem_cons_of_mem _ hother))
        fun entries last hlast => ?_
      obtain ⟨rfl, hplanned⟩ := hlast
      rw [wpe_pure, Nat.add_sub_cancel]
      exact ⟨rfl, value, pages, entries, hseq, rfl, hplanned⟩

/-- The number of tokens of a prefill. -/
def totalTokens (seqs : List PrefillSeq) : ℕ := (seqs.map fun seq => seq.currentChunkSize.toNat).sum

/-- A prefill has been prepared. -/
structure PrefillReady (config : QuantizedConfig Vec Code) (cache next : QuantizedCache Vec Code)
    (seqs : List PrefillSeq) : Prop where
  grows : Grows config cache next (seqs.map PrefillSeq.request)
  active : next.prefillActive = true
  planned : Planned config next cache.pagePool.lengthOf 0 seqs next.writePlan
  inputs : next.layerBatchState.slotMapping.length = totalTokens seqs

/-- A sequence of a batch is resident after it, with its chunk. -/
theorem Grows.owner_of_mem {requests : List (ℕ × ℤ)} (h : Grows config cache next requests)
    (hnodup : (requests.map Prod.fst).Nodup) {request : ℕ × ℤ} (hmem : request ∈ requests) :
    ∃ row pages, next.Owner request.1 row pages (cache.pagePool.lengthOf request.1 + request.2.toNat) := by
  have hlookup : requests.lookup request.1 = some request.2 := by
    rw [Dict.lookup_eq_some_iff_mem hnodup]
    exact hmem
  apply h.tables.owner_of_length
  rw [h.lengths]
  unfold grownLength
  rw [hlookup]
  rfl

theorem length_slotMapping {rows : List (List ℕ × ℕ × ℕ)}
    (h : List.Forall₂ (fun seq row => row.1.length = seq.currentChunkSize.toNat) seqs rows) :
    (rows.flatMap fun row => row.1.map (Nat.cast : ℕ → ℤ)).length = totalTokens seqs := by
  induction h with
  | nil => rfl
  | cons hfirst _ ih =>
      rw [List.flatMap_cons, List.length_append, List.length_map, hfirst, ih]
      exact (List.sum_cons).symm

theorem wpe_preparePrefill (h : Tables config cache) (hnodup : (seqs.map PrefillSeq.seqId).Nodup)
    (hprefilled : ∀ seq ∈ seqs, ∀ length, cache.pagePool.lengths.get? seq.seqId = some length →
      seq.numPrefilledTokens = length) :
    wpe (preparePrefill config seqs) (fun _ after => PrefillReady config cache after seqs)
      (fun after => after = cache) cache := by
  have hids : ((seqs.map PrefillSeq.request).map Prod.fst).Nodup := by
    rw [List.map_map]
    exact hnodup
  rw [preparePrefill]
  refine wpe_then (wpe_requireRoom h _ _) fun _ after hafter => ?_
  obtain ⟨rfl, hroom⟩ := hafter
  rw [wpe_bind]
  have hloop := wpe_allocations PrefillSeq.request (prefillRow config)
    (fun seq length => ∀ tokens, length = some tokens → seq.numPrefilledTokens = tokens)
    (fun _ seq value => value.1.length = seq.currentChunkSize.toNat)
    (fun seq current htables hfits hfree hrows hready =>
      wpe_prefillRow htables seq hfits hfree hrows hready)
    (fun _ hresult => hresult) h hids hroom hprefilled
  refine wpe_imp hloop (fun rows current hcurrent => ?_) (fun _ hfalse => hfalse.elim)
  obtain ⟨hgrows, hrows⟩ := hcurrent
  rw [wpe_set, wpe_bind]
  have howner : ∀ seq ∈ seqs, ∃ row pages, current.Owner seq.seqId row pages
      (after.pagePool.lengthOf seq.seqId + seq.currentChunkSize.toNat) := fun seq hseq =>
    hgrows.owner_of_mem hids (List.mem_map_of_mem hseq)
  refine wpe_imp (wpe_writeEntries config after.pagePool.lengthOf seqs 0 fun seq hseq => ?_)
    (fun entries last hlast => ?_) (fun _ hfalse => hfalse.elim)
  · obtain ⟨row, pages, hseq⟩ := howner seq hseq
    exact ⟨row, pages, hseq.row_eq, hseq.pages_eq, hseq.length_eq⟩
  obtain ⟨rfl, hplanned⟩ := hlast
  rw [wpe_write]
  have hsame : SameTables current { current with
      layerBatchState := ⟨(rows.flatMap fun row => row.1.map Nat.cast), rows.map fun row => row.2.1,
        rows.map fun row => row.2.2⟩
      prefillActive := true
      writePlan := entries } := ⟨rfl, rfl, rfl, rfl, rfl, rfl⟩
  exact
    { grows := hsame.grows_right rfl hgrows
      active := rfl
      planned := by
        refine Planned.congr ?_ hplanned
        exact ⟨rfl, rfl, rfl, rfl, rfl, rfl⟩
      inputs := length_slotMapping hrows }

/-! ## Decode -/

theorem wpe_rowsOf (seqIds : List ℕ) (hrows : ∀ seqId ∈ seqIds, ∃ row, cache.seqIdToRow.get? seqId = some row) :
    wpe (mapEach rowOf seqIds) (fun rows after => after = cache ∧
      List.Forall₂ (fun seqId row => cache.seqIdToRow.get? seqId = some row) seqIds rows)
      (fun _ => False) cache := by
  induction seqIds with
  | nil =>
      rw [mapEach, wpe_pure]
      exact ⟨rfl, .nil⟩
  | cons seqId rest ih =>
      obtain ⟨row, hrow⟩ := hrows seqId List.mem_cons_self
      rw [mapEach]
      refine wpe_then (wpe_rowOf hrow) fun value after hafter => ?_
      obtain ⟨rfl, rfl⟩ := hafter
      refine wpe_then (ih fun other hother => hrows other (List.mem_cons_of_mem _ hother)) fun rows last hlast => ?_
      rw [wpe_pure]
      exact ⟨hlast.1, .cons hrow hlast.2⟩

/-- The slot of the next token of a sequence. -/
def NextSlot (config : QuantizedConfig Vec Code) (starts : ℕ → ℕ) (cache : QuantizedCache Vec Code)
    (seqId slot : ℕ) : Prop :=
  ∃ pages, cache.pagePool.pages.get? seqId = some pages ∧
    IsSlot config.pageSize pages (starts seqId) slot

theorem NextSlot.mono {slot : ℕ} (hextends : Extends cache next)
    (h : NextSlot config starts cache seqId slot) : NextSlot config starts next seqId slot := by
  obtain ⟨pages, hpages, hslot⟩ := h
  obtain ⟨more, hmore⟩ := hextends.pages hpages
  exact ⟨pages ++ more, hmore, hslot.append more⟩

/-- The requests of a decode. -/
def decodeRequests (seqIds : List ℕ) : List (ℕ × ℤ) := seqIds.map fun seqId => (seqId, 1)

theorem map_fst_decodeRequests (seqIds : List ℕ) : (decodeRequests seqIds).map Prod.fst = seqIds := by
  rw [decodeRequests, List.map_map]
  exact List.map_id seqIds

theorem forall₂_flatten {α β : Type} {holds : α → β → Prop} {items : List α} {lists : List (List β)}
    (h : List.Forall₂ (fun item list => ∃ value, list = [value] ∧ holds item value) items lists) :
    List.Forall₂ holds items lists.flatten := by
  induction h with
  | nil => exact .nil
  | cons hfirst _ ih =>
      obtain ⟨value, rfl, hvalue⟩ := hfirst
      exact .cons hvalue ih

theorem wpe_allocateBatch (h : Tables config cache) (seqIds : List ℕ) :
    wpe (allocateBatch config seqIds)
      (fun slots after => seqIds.Nodup ∧ Grows config cache after (decodeRequests seqIds) ∧
        List.Forall₂ (NextSlot config cache.pagePool.lengthOf after) seqIds slots)
      (fun after => after = cache) cache := by
  rw [allocateBatch]
  refine wpe_guarded rfl fun hnodup => ?_
  rw [not_not] at hnodup
  refine wpe_then (wpe_requireRoom h _ _) fun _ after hafter => ?_
  obtain ⟨rfl, hroom⟩ := hafter
  cases seqIds with
  | nil =>
      rw [wpe_bind, mapEach, wpe_pure, wpe_guard]
      exact ⟨fun _ => rfl, fun hne => absurd rfl hne⟩
  | cons first rest =>
      rw [wpe_bind]
      have hids : (((first :: rest).map fun seqId => ((seqId, 1) : ℕ × ℤ)).map Prod.fst).Nodup := by
        rw [List.map_map]
        exact (List.map_id (first :: rest)).symm ▸ hnodup
      have hloop := wpe_allocations (fun seqId => ((seqId, 1) : ℕ × ℤ)) (fun seqId => allocate config seqId 1)
        (fun seqId length => length.getD 0 = after.pagePool.lengthOf seqId)
        (fun current seqId slots => ∃ slot, slots = [slot] ∧
          NextSlot config after.pagePool.lengthOf current seqId slot)
        (fun seqId current htables hfits hfree hrows hready => by
          refine wpe_mono (wpe_allocate htables hfits hfree hrows) fun slots last hlast => ?_
          obtain ⟨rfl, row, taken, htakes, rfl⟩ := hlast
          refine ⟨⟨_, rfl, _, (owner_allocated_self htakes).pages_eq, ?_⟩, row, taken, htakes, rfl⟩
          rw [← hready]
          exact isSlot_planned htables hfree le_rfl (Nat.lt_succ_self _))
        (fun hextends hresult => by
          obtain ⟨slot, rfl, hslot⟩ := hresult
          exact ⟨slot, rfl, hslot.mono hextends⟩)
        h hids hroom (fun _ _ => rfl)
      refine wpe_imp hloop (fun slots current hcurrent => ?_) (fun _ hfalse => hfalse.elim)
      rw [wpe_guard]
      constructor
      · rintro rfl
        cases hcurrent.2
      intro _
      rw [wpe_pure]
      exact ⟨hnodup, hcurrent.1, forall₂_flatten hcurrent.2⟩

/-- A decode has been prepared.  The requests that pad the batch have a negative
write slot. -/
structure DecodeReady (config : QuantizedConfig Vec Code) (cache next : QuantizedCache Vec Code)
    (seqIds : List ℕ) : Prop where
  nodup : seqIds.Nodup
  grows : Grows config cache next (decodeRequests seqIds)
  inactive : next.prefillActive = false
  published : ∃ (slots rows : List ℕ) (padding length row : ℕ) (write : ℤ), write < 0 ∧
    slots.length = seqIds.length ∧
    List.Forall₂ (fun seqId row => next.seqIdToRow.get? seqId = some row) seqIds rows ∧
    next.layerBatchState = ⟨slots.map Nat.cast ++ List.replicate padding write,
      rows.map next.rowSeqLens ++ List.replicate padding length, rows ++ List.replicate padding row⟩

/-- The rows of a batch that has been allocated. -/
theorem Grows.rows_of_decode (hnodup : seqIds.Nodup) (h : Grows config cache next (decodeRequests seqIds)) :
    ∀ seqId ∈ seqIds, ∃ row, next.seqIdToRow.get? seqId = some row := by
  intro seqId hmem
  have hrequest : (seqId, (1 : ℤ)) ∈ decodeRequests seqIds := List.mem_map_of_mem hmem
  obtain ⟨row, pages, howner⟩ :=
    h.owner_of_mem ((map_fst_decodeRequests seqIds).symm ▸ hnodup) hrequest
  exact ⟨row, howner.row_eq⟩

theorem wpe_prepareDecode (h : Tables config cache) (seqIds : List ℕ) :
    wpe (prepareDecode config seqIds) (fun _ after => DecodeReady config cache after seqIds)
      (fun after => after = cache) cache := by
  rw [prepareDecode]
  refine wpe_then (wpe_allocateBatch h seqIds) fun slots current hcurrent => ?_
  obtain ⟨hnodup, hgrows, hslots⟩ := hcurrent
  refine wpe_then_imp (wpe_rowsOf seqIds (hgrows.rows_of_decode hnodup)) (fun rows after hafter => ?_)
    (fun _ hfalse => hfalse.elim)
  obtain ⟨rfl, hrows⟩ := hafter
  rw [wpe_set, wpe_write]
  have hsame : SameTables after { after with
      layerBatchState := ⟨slots.map Nat.cast, rows.map after.rowSeqLens, rows⟩
      prefillActive := false
      writePlan := [] } := ⟨rfl, rfl, rfl, rfl, rfl, rfl⟩
  exact
    { nodup := hnodup
      grows := hsame.grows_right rfl hgrows
      inactive := rfl
      published := ⟨slots, rows, 0, 0, 0, -1, by decide, hslots.length_eq.symm, hrows, by simp⟩ }

/-- Slots that are already in the table. -/
theorem publishSlots_eq {entries : List (ℕ × ℕ × ℕ)} {slots : ℕ → ℕ → ℕ}
    (h : ∀ entry ∈ entries, slots entry.1 (entry.2.1 - 1) = entry.2.2) :
    publishSlots entries slots = slots := by
  induction entries with
  | nil => rfl
  | cons entry rest ih =>
      rw [List.forall_mem_cons] at h
      have hsame : Function.update slots entry.1
          (Function.update (slots entry.1) (entry.2.1 - 1) entry.2.2) = slots := by
        rw [← h.1, Function.update_eq_self, Function.update_eq_self]
      unfold publishSlots at ih ⊢
      rw [List.foldl_cons, hsame, ih h.2]

/-- The slots of a decode are in the table when they are published. -/
theorem Grows.published {rows slots : List ℕ} (hnodup : seqIds.Nodup)
    (h : Grows config cache next (decodeRequests seqIds))
    (hslots : List.Forall₂ (NextSlot config cache.pagePool.lengthOf next) seqIds slots)
    (hrows : List.Forall₂ (fun seqId row => next.seqIdToRow.get? seqId = some row) seqIds rows) :
    ∀ entry ∈ rows.zip ((rows.map next.rowSeqLens).zip slots),
      next.bufferReqToTokenSlots entry.1 (entry.2.1 - 1) = entry.2.2 := by
  have hlength : ∀ seqId ∈ seqIds, ∃ row pages, next.Owner seqId row pages (cache.pagePool.lengthOf seqId + 1) := by
    intro seqId hmem
    have hrequest : (seqId, (1 : ℤ)) ∈ decodeRequests seqIds := List.mem_map_of_mem hmem
    exact h.owner_of_mem ((map_fst_decodeRequests seqIds).symm ▸ hnodup) hrequest
  have htables := h.tables
  clear h hnodup
  induction hrows generalizing slots with
  | nil =>
      intro entry hentry
      exact absurd hentry List.not_mem_nil
  | @cons seqId row rest rows hrow _ ih =>
      cases hslots with
      | cons hslot hslots =>
          rw [List.map_cons, List.zip_cons_cons, List.zip_cons_cons, List.forall_mem_cons]
          rw [List.forall_mem_cons] at hlength
          refine ⟨?_, ih hslots hlength.2⟩
          obtain ⟨row', pages, howner⟩ := hlength.1
          obtain rfl := Option.some.inj (howner.row_eq.symm.trans hrow)
          obtain ⟨pages', hpages', hslot⟩ := hslot
          obtain rfl := Option.some.inj (howner.pages_eq.symm.trans hpages')
          have hmapped := htables.mapped howner
          rw [hmapped.rowSeqLens_eq, Nat.add_sub_cancel]
          exact (hmapped.slots _ (Nat.lt_succ_self _)).unique hslot

theorem wpe_prepareDecodeGraphBuffers (h : Tables config cache) (seqIds : List ℕ)
    {buffers : GraphBuffers} (hwrite : buffers.paddingWriteSlot < 0) :
    wpe (prepareDecodeGraphBuffers config seqIds buffers)
      (fun _ after => DecodeReady config cache after seqIds) (fun after => after = cache) cache := by
  unfold prepareDecodeGraphBuffers
  -- the buffers are checked before anything else
  refine wpe_guarded rfl fun _ => ?_
  refine wpe_guarded rfl fun _ => ?_
  refine wpe_guarded rfl fun _ => ?_
  refine wpe_guarded rfl fun _ => ?_
  refine wpe_guarded rfl fun _ => ?_
  refine wpe_guarded rfl fun _ => ?_
  rw [wpe_get, wpe_bind]
  rcases planDecodeRows cache.seqIdToRow seqIds cache.freeRows with error | rows
  · rw [wpe_def]
    rfl
  rw [wpe_ok]
  refine wpe_guarded rfl fun _ => ?_
  refine wpe_then (wpe_allocateBatch h seqIds) fun slots current hcurrent => ?_
  obtain ⟨hnodup, hgrows, hslots⟩ := hcurrent
  refine wpe_then_imp (wpe_rowsOf seqIds (hgrows.rows_of_decode hnodup)) (fun rows after hafter => ?_)
    (fun _ hfalse => hfalse.elim)
  obtain ⟨rfl, hrows⟩ := hafter
  have hpublish : publishSlots (rows.zip ((rows.map after.rowSeqLens).zip slots))
      after.bufferReqToTokenSlots = after.bufferReqToTokenSlots :=
    publishSlots_eq (hgrows.published hnodup hslots hrows)
  have hsame : SameTables after { after with
      layerBatchState :=
        ⟨slots.map Nat.cast ++ List.replicate (buffers.graphBatchSize - seqIds.length) buffers.paddingWriteSlot,
          rows.map after.rowSeqLens ++ List.replicate (buffers.graphBatchSize - seqIds.length)
            ((rows.map after.rowSeqLens).headD 0),
          rows ++ List.replicate (buffers.graphBatchSize - seqIds.length) (rows.headD 0)⟩
      prefillActive := false
      writePlan := [] } := ⟨rfl, rfl, rfl, rfl, rfl, rfl⟩
  have hready : DecodeReady config cache _ seqIds :=
    { nodup := hnodup
      grows := hsame.grows_right rfl hgrows
      inactive := rfl
      published := ⟨slots, rows, _, _, _, _, hwrite, hslots.length_eq.symm, hrows, rfl⟩ }
  rw [wpe_get, wpe_bind, wpe_whenDo]
  refine ⟨fun _ => ?_, fun _ => ?_⟩
  · rw [wpe_write, hpublish, wpe_set, wpe_write]
    exact hready
  · rw [wpe_set, wpe_write]
    exact hready

end QuantizedCache
