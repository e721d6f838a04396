import SparseEngine.SlotTables.Model

/-!
# The manager

Prefill and decode steps over all layers.  A decode step has one path for each
layer by itself and three that take rows, lengths or slots of the first layer
for all of them, as long as `_uniform_decode_metadata` says that the layers
are alike.
-/

/-- `SnapKVCacheManager`. -/
structure SlotTables where
  layers : ℕ → LayerSlots
  uniformDecodeMetadata : Bool
  /-- `_pyramidkv_prefill_staging_active`. -/
  stagingActive : Bool
  /-- The sequences in `_pyramidkv_prefill_staging_seq_offsets`. -/
  stagingSeqIds : List ℕ
  /-- `_pyramidkv_prefill_staging_materialized_layers`. -/
  materializedLayers : List (ℕ × ℕ)
  /-- `_pyramidkv_long_prefill_offload_resident_prefix_lens`. -/
  residentPrefixLens : ℕ → Option ℕ

namespace SlotTables

open Routine Cells

variable {Id : Type} (config : SlotConfig)

/-- A fresh manager. -/
def start : SlotTables where
  layers layer := .fresh (config.layerNumSlots layer) config.maxBufferRows
  uniformDecodeMetadata := config.startsUniform
  stagingActive := false
  stagingSeqIds := []
  materializedLayers := []
  residentPrefixLens _ := none

/-- `kv_transformer_layer_indices()`. -/
def layerIds : List ℕ := List.range config.numKvLayers

variable {config} in
/-- A call on one layer. -/
def onLayer {α : Type} (layer : ℕ) (m : Routine LayerSlots α) : Routine SlotTables α :=
  focus (fun tables => tables.layers layer)
    (fun slots tables => { tables with layers := Function.update tables.layers layer slots }) m

/-- A write to every layer. -/
def updateLayers (update : ℕ → LayerSlots → LayerSlots) (tables : SlotTables) : SlotTables :=
  { tables with layers := fun layer =>
      if layer < config.numKvLayers then update layer (tables.layers layer)
      else tables.layers layer }

/-! ## Prefill -/

/-- A sequence on a layer in the loop of
`_allocate_prefill_batch_same_size_all_layers`: its row, and the length the
chunk starts at. -/
def prefillRow (chunkSize : ℤ) (seq : ChainSequence Id) : Routine LayerSlots (ℕ × ℕ) := do
  let row ← LayerSlots.getFreeRow seq.seqId
  let slots ← Routine.read
  let rowLen := slots.rowSeqLens row
  raiseIf (seq.isChainResume = false ∧ (rowLen : ℤ) ≠ seq.numPrefilledTokens)
    (.valueError "KV cache row length mismatch in batched prefill allocation")
  raiseIf (config.maxModelLen < rowLen + chunkSize)
    (.runtimeError "KV row length exceeds max_model_len in batched prefill allocation")
  return (row, rowLen)

/-- `selected_slots` of a layer: the first sequence gets the topmost ones. -/
def prefillSlots (stack : ℕ → ℕ) (ptr batchSize chunkSize : ℕ) : List (List ℕ) :=
  (List.range batchSize).map fun index =>
    read stack (ptr - batchSize * chunkSize + (batchSize - 1 - index) * chunkSize) chunkSize

/-- What the batched allocation writes to a layer. -/
def writePrefill (entries : List (ℕ × ℕ)) (selected : List (List ℕ)) (chunkSize : ℕ)
    (slots : LayerSlots) : LayerSlots :=
  ((slots.writeRows (entries.zip selected)).lowerStack (entries.length * chunkSize)).addLens
    (entries.map Prod.fst) chunkSize

/-- `_allocate_prefill_batch_same_size_all_layers`: the slots of every layer, or
`none` for `False`. -/
def allocatePrefillBatch (seqs : List (ChainSequence Id)) :
    Routine SlotTables (Option (List (List ℕ))) :=
  let chunkSize := ((seqs.head?).map ChainSequence.chunkSize).getD 0
  if config.stackTensor = false ∨ chunkSize ≤ 0 ∨
      (seqs.any fun seq => decide (seq.chunkSize ≠ chunkSize)) = true ∨ config.numKvLayers = 0 then
    pure none
  else do
    let tables ← Routine.read
    let totalSize := seqs.length * chunkSize.toNat
    raiseIf ((layerIds config).any fun layer => decide ((tables.layers layer).numFreeSlots < totalSize))
      (.runtimeError "Out of KV cache slots in batched prefill allocation")
    let entries ← mapEach (fun layer => onLayer layer (mapEach (prefillRow config chunkSize) seqs))
      (layerIds config)
    let tables ← Routine.read
    let first := (tables.layers 0).numFreeSlots
    let aligned := (layerIds config).all fun layer =>
      decide ((tables.layers layer).numFreeSlots = first)
    let selected := (layerIds config).map fun layer =>
      prefillSlots (tables.layers layer).freeSlotsStack
        (if aligned then first else (tables.layers layer).numFreeSlots) seqs.length
        chunkSize.toNat
    Routine.write (updateLayers config fun layer =>
      writePrefill (entries.getD layer []) (selected.getD layer []) chunkSize.toNat)
    return some (selected.map List.flatten)

/-- `expected_row_len`, for a sequence with a row. -/
def checkRowLen (staging : ScoringConfig.PrefillStaging) (seq : ChainSequence Id)
    (residentPrefixLen : ℕ) : Routine LayerSlots Unit := do
  let slots ← Routine.read
  let expected : ℤ := if staging = .longOffload then residentPrefixLen else seq.numPrefilledTokens
  raiseIf (seq.isChainResume = false ∧ (slots.seqIdToRow.get? seq.seqId).any
      (fun row => decide ((slots.rowSeqLens row : ℤ) ≠ expected)) = true)
    (.valueError "KV cache row length mismatch in prefill")

/-- `resident_prefix_len` of a layer. -/
def residentPrefixLen (staging : ScoringConfig.PrefillStaging) (seq : ChainSequence Id) :
    Routine LayerSlots ℕ :=
  if staging = .longOffload ∧ 0 < ScoringConfig.residualStart staging seq then do
    let slots ← Routine.read
    match slots.seqIdToRow.get? seq.seqId with
    | none => raise (.runtimeError "PyramidKV raw_offload resumed prefix row is missing")
    | some row => return slots.rowSeqLens row
  else pure 0

/-- A sequence on a layer in `_prepare_prefill`, with its tokens in the staging
tensor: their cells, and the length of the resident prefix. -/
def stagePrefill (staging : ScoringConfig.PrefillStaging) (seq : ChainSequence Id)
    (tokenOffset : ℤ) : Routine LayerSlots (List ℕ × ℕ) := do
  let residentPrefixLen ← residentPrefixLen staging seq
  checkRowLen staging seq residentPrefixLen
  raiseIf (seq.numPrefilledTokens ≠ 0 ∧ staging ≠ .longOffload)
    (.runtimeError "PyramidKV full-prefill staging only supports first-prefill prompts.")
  let _ ← LayerSlots.getFreeRow seq.seqId
  let residualProgress := seq.numPrefilledTokens - ScoringConfig.residualStart staging seq
  let stagingStart : ℤ :=
    if staging = .longOffload then residentPrefixLen + residualProgress else tokenOffset
  raiseIf (config.pyramidkvPrefillStagingNumSlots < stagingStart + seq.chunkSize)
    (.runtimeError "PyramidKV raw_offload staging capacity is too small")
  return (List.range' stagingStart.toNat seq.chunkSize.toNat, residentPrefixLen)

/-- A sequence on a layer in `_prepare_prefill`, with its tokens in slots. -/
def appendPrefill (seq : ChainSequence Id) : Routine LayerSlots (List ℕ) := do
  checkRowLen .none seq 0
  let _ ← LayerSlots.allocate config.maxModelLen seq.seqId seq.chunkSize none
  let slots ← Routine.read
  let row ← ofExcept (slots.rowOf seq.seqId)
  let physicalEnd := slots.rowSeqLens row
  return read (slots.reqToTokenSlots row) (physicalEnd - seq.chunkSize.toNat) seq.chunkSize.toNat

/-- A sequence on a layer in `_prepare_prefill`. -/
def prefillLayer (staging : ScoringConfig.PrefillStaging) (seq : ChainSequence Id)
    (tokenOffset : ℤ) (layer : ℕ) : Routine SlotTables (List ℕ) :=
  if staging = .none then onLayer layer (appendPrefill config seq)
  else do
    let (cells, residentPrefixLen) ← onLayer layer (stagePrefill config staging seq tokenOffset)
    whenDo (staging = .longOffload) (Routine.write fun tables =>
      { tables with residentPrefixLens :=
          Function.update tables.residentPrefixLens layer (some residentPrefixLen) })
    return cells

/-- The loop over the sequences in `_prepare_prefill`: the slots of every
sequence, by layer. -/
def prefillSeqs (staging : ScoringConfig.PrefillStaging) :
    List (ChainSequence Id) → ℤ → Routine SlotTables (List (List (List ℕ)))
  | [], _ => pure []
  | seq :: rest, tokenOffset => do
      raiseIf (seq.numPrefilledTokens - ScoringConfig.residualStart staging seq < 0)
        (.runtimeError "PyramidKV raw_offload residual progress is negative")
      let mapping ← mapEach (prefillLayer config staging seq tokenOffset) (layerIds config)
      let mappings ← prefillSeqs staging rest (tokenOffset + seq.chunkSize)
      return mapping :: mappings

/-- `use_batched_prefill_alloc`. -/
def batchedPrefill (staging : ScoringConfig.PrefillStaging) (seqs : List (ChainSequence Id)) :
    Routine SlotTables (Option (List (List ℕ))) :=
  if staging = .none then allocatePrefillBatch config seqs else pure none

/-- `prepare_step` of a prefill step with the staging it uses: the slots of
every layer. -/
def preparePrefill (staging : ScoringConfig.PrefillStaging) (seqs : List (ChainSequence Id)) :
    Routine SlotTables (List (List ℕ)) := do
  Routine.write fun tables => { tables with
    stagingActive := false, stagingSeqIds := [], materializedLayers := []
    residentPrefixLens := fun _ => none }
  raiseIf (staging ≠ .none ∧
      config.pyramidkvPrefillStagingNumSlots < (seqs.map ChainSequence.chunkSize).sum)
    (.runtimeError "PyramidKV full-prefill staging capacity is too small for this step.")
  let batched ← batchedPrefill config staging seqs
  match batched with
  | some mapping => do
      forEach (fun seq => raiseIf (seq.numPrefilledTokens < 0)
        (.runtimeError "PyramidKV raw_offload residual progress is negative")) seqs
      return mapping
  | none => do
      let mappings ← prefillSeqs config staging seqs 0
      whenDo (staging ≠ .none) (Routine.write fun tables =>
        { tables with stagingActive := true, stagingSeqIds := seqs.map ChainSequence.seqId })
      return (layerIds config).map fun layer => mappings.flatMap fun mapping => mapping.getD layer []

/-! ## Decode -/

/-- The tensor fast path of `_prepare_decode`. -/
def prepareDecodeTensor (seqIds : List ℕ) : Routine SlotTables (List LayerStep) := do
  let rows ← onLayer 0 (mapEach LayerSlots.getFreeRow seqIds)
  let tables ← Routine.read
  let curLens := rows.map (tables.layers 0).rowSeqLens
  let ptr := (tables.layers 0).numFreeSlots
  raiseIf (ptr < seqIds.length) assertionError
  let selected := (layerIds config).map fun layer =>
    read (tables.layers layer).freeSlotsStack (ptr - seqIds.length) seqIds.length
  Routine.write (updateLayers config fun _ => LayerSlots.lowerStack seqIds.length)
  raiseIf (curLens.any fun length => decide (config.maxModelLen ≤ length)) indexError
  Routine.write (updateLayers config fun layer =>
    LayerSlots.scatterSlots rows curLens (selected.getD layer []))
  Routine.write (updateLayers config fun _ => LayerSlots.addLens rows 1)
  let tables ← Routine.read
  return (layerIds config).map fun layer =>
    ⟨selected.getD layer [], rows.map (tables.layers layer).rowSeqLens, rows⟩

/-- The branch of `_prepare_decode` for each layer by itself. -/
def prepareDecodeLayers (seqIds : List ℕ) : Routine SlotTables (List LayerStep) :=
  mapEach (fun layer => onLayer layer (LayerSlots.prepareDecode config.maxModelLen seqIds))
    (layerIds config)

/-- `prepare_step` of a decode step. -/
def prepareDecode (seqIds : List ℕ) : Routine SlotTables (List LayerStep) := do
  Routine.write fun tables => { tables with
    stagingActive := false, stagingSeqIds := [], materializedLayers := []
    residentPrefixLens := fun _ => none }
  let tables ← Routine.read
  if tables.uniformDecodeMetadata = true ∧ config.stackTensor = true ∧
      config.numLayers = config.numKvLayers then
    prepareDecodeTensor config seqIds
  else prepareDecodeLayers config seqIds

/-- The checks of the uniform paths with `validate_runtime_invariants`: the rows
and lengths of a layer. -/
def matchesFirst (tables : SlotTables) (seqIds rows : List ℕ) (layer : ℕ) : Prop :=
  (seqIds.map (tables.layers layer).seqIdToRow.get?) = rows.map some ∧
    rows.map (tables.layers layer).rowSeqLens = rows.map (tables.layers 0).rowSeqLens

instance (tables : SlotTables) (seqIds rows : List ℕ) (layer : ℕ) :
    Decidable (tables.matchesFirst seqIds rows layer) := inferInstanceAs (Decidable (_ ∧ _))

/-- The checks of the uniform paths with `validate_runtime_invariants`. -/
def validateUniform (seqIds rows : List ℕ) : Routine SlotTables Unit := do
  let tables ← Routine.read
  whenDo (config.validateRuntimeInvariants = true)
    (raiseIf ((layerIds config).any fun layer => decide (¬ tables.matchesFirst seqIds rows layer))
      (.runtimeError "Uniform decode requires identical request rows and lengths across KV layers"))

/-- The check of the stack pointers with `validate_runtime_invariants`. -/
def validatePointers : Routine SlotTables Unit := do
  let tables ← Routine.read
  whenDo (config.validateRuntimeInvariants = true)
    (raiseIf ((layerIds config).any fun layer =>
        decide ((tables.layers layer).numFreeSlots ≠ (tables.layers 0).numFreeSlots))
      (.runtimeError "Uniform decode requires aligned per-layer free-stack pointers"))

/-- `_prepare_decode_static_uniform`. -/
def prepareDecodeStaticUniform (seqIds : List ℕ) : Routine SlotTables (List LayerStep) := do
  let tables ← Routine.read
  let rows ← ofExcept (seqIds.mapM (tables.layers 0).rowOf)
  validateUniform config seqIds rows
  let curLens := rows.map (tables.layers 0).rowSeqLens
  raiseIf (curLens.any fun length => decide (config.maxModelLen < length + 1))
    (.runtimeError "KV row length exceeds max_model_len in uniform prepare_decode_static")
  raiseIf ((layerIds config).any fun layer =>
      decide ((tables.layers layer).numFreeSlots < seqIds.length))
    (.runtimeError "Out of KV cache slots in uniform prepare_decode_static")
  validatePointers config
  let newSlots := (tables.layers 0).topSlots seqIds.length
  Routine.write (updateLayers config fun _ => LayerSlots.lowerStack seqIds.length)
  Routine.write (updateLayers config fun _ => LayerSlots.scatterSlots rows curLens newSlots)
  Routine.write (updateLayers config fun _ => LayerSlots.addLens rows 1)
  let tables ← Routine.read
  return (layerIds config).map fun _ => ⟨newSlots, rows.map (tables.layers 0).rowSeqLens, rows⟩

/-- `_allocate_decode_batch_all_layers`. -/
def allocateDecodeBatch (seqIds : List ℕ) (staticCap : Option ℕ) :
    Routine SlotTables (List LayerStep) := do
  let rows ← mapEach (fun layer => onLayer layer (mapEach LayerSlots.getFreeRow seqIds))
    (layerIds config)
  let tables ← Routine.read
  let curLens := (layerIds config).map fun layer =>
    (rows.getD layer []).map (tables.layers layer).rowSeqLens
  raiseIf (curLens.flatten.any fun length => decide (config.maxModelLen < length + 1))
    (.runtimeError "KV row length exceeds max_model_len in batched static decode allocation")
  raiseIf (curLens.flatten.any fun length => staticCap.any fun cap => decide (cap < length + 1))
    (.runtimeError "static decode context length exceeds captured graph max_context_len")
  raiseIf ((layerIds config).any fun layer =>
      decide ((tables.layers layer).numFreeSlots < seqIds.length))
    (.runtimeError "Out of KV cache slots in batched static decode allocation")
  let selected := (layerIds config).map fun layer => (tables.layers layer).topSlots seqIds.length
  Routine.write (updateLayers config fun _ => LayerSlots.lowerStack seqIds.length)
  Routine.write (updateLayers config fun layer =>
    LayerSlots.scatterSlots (rows.getD layer []) (curLens.getD layer []) (selected.getD layer []))
  Routine.write (updateLayers config fun layer => LayerSlots.addLens (rows.getD layer []) 1)
  return (layerIds config).map fun layer =>
    ⟨selected.getD layer [], (curLens.getD layer []).map (· + 1), rows.getD layer []⟩

/-- `prepare_decode_static`. -/
def prepareDecodeStatic (seqIds : List ℕ) (staticCap : Option ℕ) :
    Routine SlotTables (List LayerStep) := do
  raiseIf (seqIds = []) (.valueError "Static decode requires a non-empty real decode batch.")
  let tables ← Routine.read
  if tables.uniformDecodeMetadata = true then prepareDecodeStaticUniform config seqIds
  else allocateDecodeBatch config seqIds staticCap

/-- What `_prepare_uniform_decode_graph_step` leaves for the graph. -/
structure GraphFacts where
  rows : List ℕ
  contextLens : List ℕ
  layerFreeStarts : List ℕ

/-- `_prepare_uniform_decode_graph_step`. -/
def prepareUniformGraphStep (seqIds : List ℕ) (contextCapacity : ℕ) :
    Routine SlotTables GraphFacts := do
  let tables ← Routine.read
  let rows ← ofExcept (seqIds.mapM (tables.layers 0).rowOf)
  let nextLens := rows.map fun row => (tables.layers 0).rowSeqLens row + 1
  validateUniform config seqIds rows
  raiseIf (nextLens.any fun length => decide (contextCapacity < length))
    (.runtimeError "Sparse decode context exceeds captured graph capacity")
  raiseIf (nextLens.any fun length => decide (config.maxModelLen < length))
    (.runtimeError "Sparse decode context exceeds max_model_len")
  raiseIf ((layerIds config).any fun layer =>
      decide ((tables.layers layer).numFreeSlots < seqIds.length))
    (.runtimeError "Out of sparse KV cache slots during graph reservation")
  validatePointers config
  let starts := (layerIds config).map fun layer =>
    (tables.layers layer).numFreeSlots - seqIds.length
  Routine.write (updateLayers config fun _ slots =>
    (slots.lowerStack seqIds.length).addLens rows 1)
  return ⟨rows, nextLens, starts⟩

/-- `publish_uniform_sparse_decode_graph_slots`, at the head of the graph. -/
def publishGraphSlots (facts : GraphFacts) : Routine SlotTables (List LayerStep) := do
  let tables ← Routine.read
  let selected := (layerIds config).map fun layer =>
    read (tables.layers layer).freeSlotsStack (facts.layerFreeStarts.getD layer 0) facts.rows.length
  Routine.write (updateLayers config fun layer =>
    LayerSlots.scatterSlots facts.rows (facts.contextLens.map (· - 1)) (selected.getD layer []))
  return (layerIds config).map fun layer =>
    ⟨selected.getD layer [], facts.contextLens, facts.rows⟩

/-- `prepare_decode_graph_step`, and the head of the graph. -/
def prepareDecodeGraphStep (seqIds : List ℕ) (contextCapacity : ℕ) (staticCap : Option ℕ) :
    Routine SlotTables (List LayerStep) :=
  if config.stackTensor = true ∧ config.alwaysUniform = true then do
    raiseIf (seqIds = []) (.valueError "Sparse decode graph requires a non-empty active batch")
    let tables ← Routine.read
    raiseIf (tables.uniformDecodeMetadata = false)
      (.runtimeError "A layer-uniform decode graph cannot publish per-layer metadata.")
    let facts ← prepareUniformGraphStep config seqIds contextCapacity
    publishGraphSlots config facts
  else prepareDecodeStatic config seqIds staticCap

/-! ## Frees and restores -/

/-- `free_seq`. -/
def freeSeq (seqId : ℕ) : Routine SlotTables Unit :=
  forEach (fun layer => onLayer layer (LayerSlots.freeSeq seqId)) (layerIds config)

/-- A layer of the preflight in `allocate_chain_restore`. -/
def restorePreflight (tables : SlotTables) (layer length : ℕ) : Routine SlotTables Unit := do
  raiseIf (config.maxModelLen < length) (.valueError "Chain restore exceeds the cache row capacity.")
  raiseIf ((tables.layers layer).freeRows = [] ∨ (tables.layers layer).numFreeSlots < length)
    (.runtimeError "Chain restore has insufficient reserved GPU rows/slots.")

/-- `allocate_chain_restore`. -/
def allocateChainRestore (seqId : ℕ) (lengthsByLayer : List ℕ) (fault : ℕ → Option PyError) :
    Routine SlotTables (List (List ℕ)) := do
  raiseIf (lengthsByLayer.length ≠ config.numKvLayers)
    (.valueError "Chain restore lengths must cover every KV layer.")
  let tables ← Routine.read
  raiseIf ((layerIds config).any fun layer =>
      ((tables.layers layer).seqIdToRow.get? seqId).isSome)
    (.runtimeError "Cannot restore over a resident chain.")
  forEach (fun entry : ℕ × ℕ => restorePreflight config tables entry.1 entry.2)
    ((layerIds config).zip lengthsByLayer)
  onError
    (mapEach (fun entry : ℕ × ℕ => onLayer entry.1
        (LayerSlots.allocate config.maxModelLen seqId entry.2 (fault entry.1)))
      ((layerIds config).zip lengthsByLayer))
    (freeSeq config seqId)

end SlotTables
