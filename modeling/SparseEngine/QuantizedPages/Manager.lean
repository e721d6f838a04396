import SparseEngine.QuantizedPages.Model

/-!
# The quantized cache manager

`QuantizedCacheManager` with what it inherits from `StandardCacheManager`.  It
supports neither prefix caching nor offload, so that nothing of these is
modelled; input tokens, positions and the prefill workspace are left out.
Buffers of a captured graph are given by their sizes.

A step is a preparation and a forward pass, in which each KV layer stores the
keys and values of the tokens of the step.
-/

/-- What `_prepare_prefill` reads of a sequence. -/
structure PrefillSeq where
  seqId : ℕ
  numPrefilledTokens : ℕ
  currentChunkSize : ℤ

/-- What a preparation publishes for the layers. -/
structure LayerBatchState where
  slotMapping : List ℤ
  contextLens : List ℕ
  reqIndices : List ℕ

/-- The buffers of a captured graph, by their sizes, and the options of
`_prepare_decode_graph_buffers`. -/
structure GraphBuffers where
  graphBatchSize : ℕ
  positions : ℕ
  slotMapping : ℕ
  contextLens : ℕ
  reqIndices : ℕ
  activeMask : Option ℕ
  paddingWriteSlot : ℤ
  mirrorFirstRealRowForReads : Bool
  contextCapacity : Option ℕ
  publishSlotsOutsideGraph : Bool

structure QuantizedCache (Vec Code : Type) where
  pagePool : QuantizedPagePool
  seqIdToRow : Dict ℕ ℕ
  freeRows : List ℕ
  rowSeqLens : ℕ → ℕ
  rowLogicalLens : ℕ → ℕ
  bufferReqToTokenSlots : ℕ → ℕ → ℕ
  writePlan : List WriteEntry
  prefillActive : Bool
  layerBatchState : LayerBatchState
  /-- `attention_cache_storage`, by KV layer. -/
  layers : ℕ → QuantizedKVLayer Vec Code

namespace QuantizedCache

open Routine

variable {Vec Code : Type} (config : QuantizedConfig Vec Code)

/-- A manager after `allocate_kv_cache`, over memory with any content. -/
def fresh (pagePool : QuantizedPagePool) (layers : ℕ → QuantizedKVLayer Vec Code) :
    QuantizedCache Vec Code where
  pagePool := pagePool
  seqIdToRow := .empty
  freeRows := List.range config.maxBufferRows
  rowSeqLens _ := 0
  rowLogicalLens _ := 0
  bufferReqToTokenSlots _ _ := 0
  writePlan := []
  prefillActive := false
  layerBatchState := ⟨[], [], []⟩
  layers := layers

/-- A call on the page pool. -/
def onPool {α : Type} (call : Routine QuantizedPagePool α) : Routine (QuantizedCache Vec Code) α :=
  focus pagePool (fun pool cache => { cache with pagePool := pool }) call

/-- A call on the storage of a layer. -/
def onLayer {α : Type} (layer : ℕ) (call : Routine (QuantizedKVLayer Vec Code) α) :
    Routine (QuantizedCache Vec Code) α :=
  focus (fun cache => cache.layers layer)
    (fun storage cache => { cache with layers := Function.update cache.layers layer storage }) call

/-- `seq_id_to_row[seq_id]`. -/
def rowOf (seqId : ℕ) : Routine (QuantizedCache Vec Code) ℕ := do
  let cache ← Routine.read
  match cache.seqIdToRow.get? seqId with
  | some row => return row
  | none => raise (.keyError "seq_id")

/-! ## Allocation -/

/-- `_get_free_row`. -/
def getFreeRow (seqId : ℕ) : Routine (QuantizedCache Vec Code) ℕ := do
  let cache ← Routine.read
  match cache.seqIdToRow.get? seqId with
  | some row => return row
  | none =>
      match cache.freeRows with
      | [] => raise (.runtimeError "No free rows in cache manager buffer!")
      | row :: freeRows => do
          Routine.write fun cache =>
            { cache with freeRows := freeRows, seqIdToRow := cache.seqIdToRow.set seqId row }
          return row

/-- `buffer_req_to_token_slots[row, start:] = slots`, with the length of the
row. -/
def writeRow (row start stop : ℕ) (slots : List ℕ) (cache : QuantizedCache Vec Code) :
    QuantizedCache Vec Code :=
  { cache with
    bufferReqToTokenSlots := Function.update cache.bufferReqToTokenSlots row
      (Cells.write (cache.bufferReqToTokenSlots row) start slots)
    rowSeqLens := Function.update cache.rowSeqLens row stop
    rowLogicalLens := Function.update cache.rowLogicalLens row stop }

/-- `_allocate`. -/
def allocate (seqId : ℕ) (size : ℤ) : Routine (QuantizedCache Vec Code) (List ℕ) := do
  let cache ← Routine.read
  raiseIf ((cache.seqIdToRow.get? seqId).isNone ∧ cache.freeRows = [])
    (.runtimeError "No free quantized cache rows.")
  let plan ← onPool (QuantizedPagePool.append seqId size)
  let row ← getFreeRow seqId
  let firstPage := plan.start / config.pageSize
  let slots := (List.range' plan.start (plan.stop - plan.start)).map fun logical =>
    (plan.pages[logical / config.pageSize - firstPage]?).getD 0 * config.pageSize +
      logical % config.pageSize
  Routine.write (writeRow row plan.start plan.stop slots)
  return slots

/-- The pages and rows that a batch needs, and whether they are there. -/
def requireRoom (requests : List (ℕ × ℤ)) (message : String) :
    Routine (QuantizedCache Vec Code) Unit := do
  let cache ← Routine.read
  let costs ← ofExcept (requests.mapM fun request => cache.pagePool.appendCost request.1 request.2)
  let newRows := requests.countP fun request => (cache.seqIdToRow.get? request.1).isNone
  raiseIf (cache.pagePool.free.length < costs.sum ∨ cache.freeRows.length < newRows)
    (.runtimeError message)

/-- `_allocate_batch`, with a size of one. -/
def allocateBatch (seqIds : List ℕ) : Routine (QuantizedCache Vec Code) (List ℕ) := do
  raiseIf (¬ seqIds.Nodup) (.valueError "Quantized decode requires one token per distinct sequence.")
  requireRoom (seqIds.map fun seqId => (seqId, 1))
    "Insufficient quantized KV pages/rows for decode batch."
  let slots ← mapEach (fun seqId => allocate config seqId 1) seqIds
  -- `torch.cat` of no tensors
  raiseIf (slots = []) (.runtimeError "torch.cat(): expected a non-empty list of Tensors")
  return slots.flatten

/-! ## Prefill -/

/-- A sequence of `StandardCacheManager._prepare_prefill`: its slots, its length
and its row. -/
def prefillRow (seq : PrefillSeq) : Routine (QuantizedCache Vec Code) (List ℕ × ℕ × ℕ) := do
  let cache ← Routine.read
  let residentStart := ((cache.seqIdToRow.get? seq.seqId).map cache.rowSeqLens).getD 0
  raiseIf ((cache.seqIdToRow.get? seq.seqId).any fun row =>
      cache.rowLogicalLens row ≠ seq.numPrefilledTokens)
    (.valueError "KV cache logical row length mismatch in prefill")
  let _ ← allocate config seq.seqId seq.currentChunkSize
  let row ← rowOf seq.seqId
  let cache ← Routine.read
  let slots := Cells.read (cache.bufferReqToTokenSlots row) residentStart seq.currentChunkSize.toNat
  return (slots, residentStart + seq.currentChunkSize.toNat, row)

/-- An entry of `_prepare_prefill_write_plan`.  `offset` is the number of tokens
before it. -/
def writeEntry (offset : ℕ) (seq : PrefillSeq) : Routine (QuantizedCache Vec Code) WriteEntry := do
  let cache ← Routine.read
  match cache.pagePool.lengths.get? seq.seqId, cache.pagePool.pages.get? seq.seqId with
  | some stop, some pages => do
      let row ← rowOf seq.seqId
      let start := stop - seq.currentChunkSize.toNat
      let fullStart := start / config.pageSize
      let fullEnd := stop / config.pageSize
      return ⟨row, start, stop, offset, (pages.drop fullStart).take (fullEnd - fullStart)⟩
  | _, _ => raise (.keyError "seq_id")

/-- The loop of `_prepare_prefill_write_plan`. -/
def writeEntries (offset : ℕ) : List PrefillSeq → Routine (QuantizedCache Vec Code) (List WriteEntry)
  | [] => return []
  | seq :: rest => do
      let entry ← writeEntry config offset seq
      let entries ← writeEntries (offset + seq.currentChunkSize.toNat) rest
      return entry :: entries

/-- `_prepare_prefill`. -/
def preparePrefill (seqs : List PrefillSeq) : Routine (QuantizedCache Vec Code) Unit := do
  requireRoom (seqs.map fun seq => (seq.seqId, seq.currentChunkSize))
    "Insufficient quantized KV pages/rows for prefill batch."
  let rows ← mapEach (prefillRow config) seqs
  Routine.write fun cache => { cache with
    layerBatchState := ⟨(rows.flatMap fun row => row.1.map Nat.cast), rows.map fun row => row.2.1,
      rows.map fun row => row.2.2⟩ }
  let entries ← writeEntries config 0 seqs
  Routine.write fun cache => { cache with prefillActive := true, writePlan := entries }

/-! ## Decode -/

/-- `_prepare_decode`. -/
def prepareDecode (seqIds : List ℕ) : Routine (QuantizedCache Vec Code) Unit := do
  let slots ← allocateBatch config seqIds
  let rows ← mapEach rowOf seqIds
  Routine.write fun cache => { cache with
    layerBatchState := ⟨slots.map Nat.cast, rows.map cache.rowSeqLens, rows⟩ }
  Routine.write fun cache => { cache with prefillActive := false, writePlan := [] }

/-- `_plan_decode_rows`: the row of each request, the next free ones for those
that have none. -/
def planDecodeRows (seqIdToRow : Dict ℕ ℕ) : List ℕ → List ℕ → Except PyError (List ℕ)
  | [], _ => .ok []
  | seqId :: rest, freeRows =>
      match seqIdToRow.get? seqId with
      | some row => (row :: ·) <$> planDecodeRows seqIdToRow rest freeRows
      | none =>
          match freeRows with
          | [] => .error (.runtimeError "No free rows for static decode batch")
          | row :: freeRows => (row :: ·) <$> planDecodeRows seqIdToRow rest freeRows

/-- `publish_decode_graph_slots`. -/
def publishSlots (entries : List (ℕ × ℕ × ℕ)) (slots : ℕ → ℕ → ℕ) : ℕ → ℕ → ℕ :=
  entries.foldl (fun slots entry => Function.update slots entry.1
    (Function.update (slots entry.1) (entry.2.1 - 1) entry.2.2)) slots

/-- `_prepare_decode_graph_buffers`. -/
def prepareDecodeGraphBuffers (seqIds : List ℕ) (buffers : GraphBuffers) :
    Routine (QuantizedCache Vec Code) Unit := do
  raiseIf (seqIds.length = 0) (.valueError "Static decode requires a non-empty real decode batch.")
  raiseIf (buffers.positions ≠ buffers.graphBatchSize)
    (.valueError "Static decode input buffers must have the same graph batch size.")
  raiseIf (buffers.slotMapping ≠ buffers.graphBatchSize ∨ buffers.contextLens ≠ buffers.graphBatchSize ∨
      buffers.reqIndices ≠ buffers.graphBatchSize)
    (.valueError "Static decode metadata buffers must have the same graph batch size.")
  raiseIf (buffers.graphBatchSize < seqIds.length)
    (.valueError "Static decode graph batch is smaller than the real decode batch")
  raiseIf (buffers.activeMask.any fun size => size ≠ buffers.graphBatchSize)
    (.valueError "Static decode active_mask must match the graph batch size.")
  raiseIf (buffers.mirrorFirstRealRowForReads = false) (.valueError
    "StandardCacheManager requires padded read rows to mirror the first real request.")
  let cache ← Routine.read
  let prospectiveRows ← ofExcept (planDecodeRows cache.seqIdToRow seqIds cache.freeRows)
  raiseIf (buffers.contextCapacity.any fun capacity =>
      prospectiveRows.any fun row => decide (capacity < cache.rowSeqLens row + 1))
    (.valueError "Decode request exceeded the captured graph context capacity")
  let slots ← allocateBatch config seqIds
  let rows ← mapEach rowOf seqIds
  let cache ← Routine.read
  let contextLens := rows.map cache.rowSeqLens
  let padding := buffers.graphBatchSize - seqIds.length
  whenDo (buffers.publishSlotsOutsideGraph = true) (Routine.write fun cache => { cache with
    bufferReqToTokenSlots := publishSlots (rows.zip (contextLens.zip slots))
      cache.bufferReqToTokenSlots })
  Routine.write fun cache => { cache with
    layerBatchState :=
      ⟨slots.map Nat.cast ++ List.replicate padding buffers.paddingWriteSlot,
        contextLens ++ List.replicate padding (contextLens.headD 0),
        rows ++ List.replicate padding (rows.headD 0)⟩ }
  Routine.write fun cache => { cache with prefillActive := false, writePlan := [] }

/-! ## Storing and freeing -/

/-- `store_attention_payload`.  The result is what a prefill reads of the
history of each sequence. -/
def storeAttentionPayload (layer : ℕ) (key : List Vec) :
    Routine (QuantizedCache Vec Code) (List (List (LoadedVector Vec Code))) := do
  let cache ← Routine.read
  let state := cache.layerBatchState
  let inputCount := state.slotMapping.length
  raiseIf (key.length ≠ inputCount) (.valueError "Quantized KV write expects one vector for each input")
  if cache.prefillActive then do
    let count := (cache.writePlan.map fun entry => entry.stop - entry.start).sum
    let key := key.take count
    -- history is read before its incomplete raw page is overwritten
    let histories ← mapEach (fun entry : WriteEntry =>
      if entry.start ≠ 0 then
        ofExcept ((cache.layers layer).materializeSequence config cache.bufferReqToTokenSlots entry.row
          entry.start)
      else return []) cache.writePlan
    forEach (fun entry => onLayer layer
      (QuantizedKVLayer.storeEntry config (config.rotate key) entry)) cache.writePlan
    return histories
  else do
    onLayer layer (QuantizedKVLayer.quantizedDecodeAppend config (config.rotate key)
      cache.bufferReqToTokenSlots state.reqIndices state.contextLens state.slotMapping)
    return []

/-- `free_seq`. -/
def freeSeq (seqId : ℕ) : Routine (QuantizedCache Vec Code) Unit := do
  let cache ← Routine.read
  match cache.seqIdToRow.get? seqId with
  | none => raise (.valueError "Unknown quantized cache sequence")
  | some row => do
      onPool (QuantizedPagePool.release seqId)
      Routine.write fun cache => { cache with
        seqIdToRow := cache.seqIdToRow.erase seqId
        rowSeqLens := Function.update cache.rowSeqLens row 0
        rowLogicalLens := Function.update cache.rowLogicalLens row 0
        bufferReqToTokenSlots := Function.update cache.bufferReqToTokenSlots row fun _ => 0
        freeRows := cache.freeRows ++ [row] }

/-- A forward pass.  `key layer index` is what a layer computes for an input. -/
def forward (key : ℕ → ℕ → Vec) : Routine (QuantizedCache Vec Code) Unit := do
  let cache ← Routine.read
  let inputs := List.range cache.layerBatchState.slotMapping.length
  forEach (fun layer => do
      let _ ← storeAttentionPayload config layer (inputs.map (key layer)))
    (List.range config.numKvLayers)

end QuantizedCache

/-! ## Steps and runs -/

/-- A step of the engine on the cache.  A step with tokens has the keys and
values its layers compute. -/
inductive CacheStep (Vec : Type) where
  | prefill (seqs : List PrefillSeq) (key : ℕ → ℕ → Vec)
  | decode (seqIds : List ℕ) (key : ℕ → ℕ → Vec)
  | decodeGraph (seqIds : List ℕ) (buffers : GraphBuffers) (key : ℕ → ℕ → Vec)
  | free (seqId : ℕ)

namespace CacheStep

variable {Vec Code : Type}

def run (config : QuantizedConfig Vec Code) : CacheStep Vec → Routine (QuantizedCache Vec Code) Unit
  | prefill seqs key => do
      QuantizedCache.preparePrefill config seqs
      QuantizedCache.forward config key
  | decode seqIds key => do
      QuantizedCache.prepareDecode config seqIds
      QuantizedCache.forward config key
  | decodeGraph seqIds buffers key => do
      QuantizedCache.prepareDecodeGraphBuffers config seqIds buffers
      QuantizedCache.forward config key
  | free seqId => QuantizedCache.freeSeq seqId

/-- A step as the engine takes it: the sequences of a prefill are distinct and
have prefilled what the cache holds of them, and padded requests have a negative
write slot. -/
def Proper (cache : QuantizedCache Vec Code) : CacheStep Vec → Prop
  | prefill seqs _ => (seqs.map PrefillSeq.seqId).Nodup ∧ ∀ seq ∈ seqs, ∀ length,
      cache.pagePool.lengths.get? seq.seqId = some length → seq.numPrefilledTokens = length
  | decode _ _ => True
  | decodeGraph _ buffers _ => buffers.paddingWriteSlot < 0
  | free _ => True

end CacheStep
