import SparseEngine.Scheduler.Postprocess
import SparseEngine.Lib.Sawtooth

/-!
# Decode windows

`decode_window_costs` of the cache managers with per-layer slots, and what a
decode step does to the rows of one sequence: `SnapKVCacheManager`,
`RKVCacheManager` and `StreamingLLMCacheManager`, with the compaction of
`PyramidKVRuntime`, `RKVRuntime` and `StreamingLLMRuntime`.

Layers are KV layer indices.  The scores are left out: which tokens a
compaction keeps does not matter here, only how many.  A step carries the row
lengths of the other sequences of its batch.  The query cache of R-KV is taken
to be there; it is left out of the code when no row can be long enough to be
compacted.
-/

/-- The methods that share the slot bookkeeping of `SnapKVCacheManager`. -/
inductive SparseMethod where
  | snapkv
  | pyramidkv
  | rkv
  | streamingllm
  deriving DecidableEq

/-- The parts of the configuration that decide about compaction. -/
structure WindowConfig where
  sparseMethod : SparseMethod
  numKvLayers : ℕ
  sinkKeepTokens : ℤ
  decodeKeepTokens : ℤ
  recentKeepTokens : ℤ
  snapkvNumFullLayers : ℤ
  /-- `int(decode_keep * ratio / base_ratio)` of a KV layer. -/
  scaledTopTokens : ℕ → ℤ
  rkvCompressionInterval : ℤ
  rkvObservationTokens : ℤ
  /-- `_pyramidkv_can_use_full_prefill_staging`. -/
  fullPrefillStaging : Bool

/-- What the configuration is checked for. -/
structure WindowConfig.Validated (config : WindowConfig) : Prop where
  layers_pos : 0 < config.numKvLayers
  sink_nonneg : 0 ≤ config.sinkKeepTokens
  decode_nonneg : 0 ≤ config.decodeKeepTokens
  recent_nonneg : 0 ≤ config.recentKeepTokens
  scaled_nonneg : ∀ layer, 0 ≤ config.scaledTopTokens layer
  observation_pos : 0 < config.rkvObservationTokens
  observation_le : config.rkvObservationTokens ≤ config.rkvCompressionInterval
  observation_lt : config.sparseMethod = .rkv → config.rkvObservationTokens <
    config.sinkKeepTokens + config.decodeKeepTokens + config.recentKeepTokens

namespace WindowConfig

variable (config : WindowConfig)

/-- `sink_keep_tokens + decode_keep_tokens + recent_keep_tokens`. -/
def keepBudget : ℤ := config.sinkKeepTokens + config.decodeKeepTokens + config.recentKeepTokens

/-- `_pyramidkv_layer_budget`. -/
def pyramidkvLayerBudget (layer : ℕ) : ℤ :=
  config.sinkKeepTokens + config.scaledTopTokens layer + config.recentKeepTokens

/-- The budget of StreamingLLM. -/
def streamingBudget : ℤ := config.sinkKeepTokens + config.recentKeepTokens

/-- The layers that are never compacted. -/
def isFullLayer (layer : ℕ) : Bool :=
  (decide (config.sparseMethod = .snapkv) || decide (config.sparseMethod = .pyramidkv)) &&
    decide ((layer : ℤ) < config.snapkvNumFullLayers)

/-! ## Costs -/

/-- `budget` in `chain_capacity_deficits`. -/
def chainBudget (layer : ℕ) : Option ℤ :=
  match config.sparseMethod with
  | .pyramidkv => if config.isFullLayer layer then none else some (config.pyramidkvLayerBudget layer)
  | .snapkv => if config.isFullLayer layer then none else some config.keepBudget
  | .rkv => some config.keepBudget
  | .streamingllm => none

/-- `trigger_len` in `chain_capacity_deficits`. -/
def chainTriggerLen (layer : ℕ) : Option ℤ :=
  match config.sparseMethod with
  | .pyramidkv =>
      if config.isFullLayer layer then none
      else
        let budget := config.pyramidkvLayerBudget layer
        let topBudget := budget - config.sinkKeepTokens - config.recentKeepTokens
        some (max (budget + 1) (budget + max 0 topBudget))
  | .rkv => some (max (config.keepBudget + 1) (config.keepBudget + config.rkvCompressionInterval))
  | .snapkv => none
  | .streamingllm => none

/-- `resident_after_prefill` in `chain_capacity_deficits`, for the methods that
compact at decode. -/
def residentAfterPrefill (useNewPyramidStaging : Bool) (budget suffixTokens existing : ℤ) : ℤ :=
  if useNewPyramidStaging then min suffixTokens budget
  else if suffixTokens = 0 ∨ config.sparseMethod = .rkv then existing + suffixTokens
  else min (existing + suffixTokens) budget

/-- The entry of `required_by_layer` that `chain_capacity_deficits` computes for
one layer. -/
def chainRequiredSlots (layer : ℕ) (suffixTokens generationTokens existing : ℤ)
    (anyExisting needsResidentRow : Bool) : ℤ :=
  let suffixTokens := max 0 suffixTokens
  let generatedKvTokens := max 0 (generationTokens - 1)
  let useNewPyramidStaging := needsResidentRow && !anyExisting &&
    decide (config.sparseMethod = .pyramidkv) && config.fullPrefillStaging
  let prefillPhysicalPeak :=
    match config.chainBudget layer with
    | none => existing + suffixTokens
    | some budget =>
        if useNewPyramidStaging then min suffixTokens budget else existing + suffixTokens
  let decodePhysicalPeak :=
    match config.chainBudget layer, config.chainTriggerLen layer with
    | some budget, some triggerLen =>
        let resident := config.residentAfterPrefill useNewPyramidStaging budget suffixTokens existing
        if generatedKvTokens ≤ 0 then resident
        else if config.sparseMethod = .rkv then
          min (resident + generatedKvTokens)
            (max resident (triggerLen - 1) + config.rkvCompressionInterval)
        else if triggerLen ≤ resident then resident + 1
        else resident + min generatedKvTokens (triggerLen - resident)
    | some budget, none =>
        (if 0 < suffixTokens then min (existing + suffixTokens) budget else existing) +
          generatedKvTokens
    | none, _ => prefillPhysicalPeak + generatedKvTokens
  max prefillPhysicalPeak decodePhysicalPeak - (if needsResidentRow then 0 else existing)

/-- `decode_window_costs` for a layer with `existing` slots.  Whether another
layer has slots plays no part for a sequence with a row. -/
def decodeWindowCost (isRecomputeReplay : Bool) (existing : ℤ) (layer : ℕ) (tokens : ℤ) : ℤ :=
  match config.sparseMethod with
  | .streamingllm =>
      let tokens := max 0 tokens
      if 0 < config.streamingBudget then
        min tokens (max 1 (2 * config.streamingBudget - existing))
      else tokens
  | .rkv =>
      if isRecomputeReplay then tokens
      else config.chainRequiredSlots layer 0 (tokens + 1) existing true false
  | _ => config.chainRequiredSlots layer 0 (tokens + 1) existing true false

end WindowConfig

/-! ## Decode steps -/

/-- A sequence, its row lengths, and the positions in its query cache. -/
structure DecodeRow (Id : Type) where
  seq : Sequence Id
  rowSeqLens : ℕ → ℤ
  queryPositions : ℕ → ℤ → ℤ

/-- What a decode step of the batch brings along. -/
structure DecodeStep where
  /-- The sampled token. -/
  token : ℤ
  /-- The row lengths of the other sequences of the batch, by layer. -/
  others : ℕ → List ℤ
  /-- `_decode_static_max_context_len`, with a decode graph. -/
  graphCapacity : Option ℤ

/-- `_snapkv_select_indices`: how many tokens are kept. -/
def snapkvSelectCount (config : WindowConfig) (kvLen budget : ℤ) : ℤ :=
  let recentStart := kvLen - config.recentKeepTokens
  let numTopk := budget - config.sinkKeepTokens - config.recentKeepTokens
  if 0 < numTopk ∧ config.sinkKeepTokens < recentStart then
    config.sinkKeepTokens + min numTopk (recentStart - config.sinkKeepTokens) +
      config.recentKeepTokens
  else config.sinkKeepTokens + config.recentKeepTokens

/-- `free_prefix_recent_slots_batch_layers`: the length it leaves. -/
def prefixRecentLen (config : WindowConfig) (kvLen : ℤ) : Except PyError ℤ :=
  let sinkEnd := min config.sinkKeepTokens kvLen
  let recentStart := max sinkEnd (kvLen - config.recentKeepTokens)
  let newLen := sinkEnd + (kvLen - recentStart)
  if newLen ≤ 0 then .error (.runtimeError "prefix/recent compaction cannot keep zero tokens.")
  else if kvLen ≤ newLen then .ok kvLen
  else .ok newLen

/-- The test of `_snapkv_decode_eviction` and
`_streamingllm_decode_eviction`. -/
def decodeTriggered (budget triggerLen : ℤ) (others : List ℤ) (kvLen : ℤ) : Bool :=
  let maxContextLen := others.foldl max kvLen
  !(decide (maxContextLen ≤ budget) || decide (maxContextLen < triggerLen)) &&
    !(decide (kvLen ≤ budget) || decide (kvLen < triggerLen))

/-- `PyramidKVRuntime.needs_attention_score` for a layer with a budget. -/
def needsAttentionScore (budget triggerLen : ℤ) (step : DecodeStep) (layer : ℕ) (kvLen : ℤ) :
    Except PyError Bool :=
  let maxLen := (step.others layer).foldl max kvLen
  match step.graphCapacity with
  | some capacity =>
      if capacity < maxLen then
        .error (.runtimeError
          "SnapKV decode CUDA graph requires a score capacity covering the current context")
      else .ok (decide (triggerLen ≤ capacity) && decide (budget < capacity))
  | none =>
      .ok ((kvLen :: step.others layer).any fun len =>
        decide (triggerLen ≤ len) && decide (budget < len))

namespace DecodeRow

variable {Id : Type} (config : WindowConfig)

/-- The slot of a decode step, and `record_decode_query`. -/
def append (row : DecodeRow Id) : DecodeRow Id :=
  { row with
    rowSeqLens := fun layer => row.rowSeqLens layer + 1
    queryPositions := fun layer column =>
      let position := row.rowSeqLens layer + 1 - 1
      if config.sparseMethod = .rkv ∧ column = position % config.rkvObservationTokens then position
      else row.queryPositions layer column }

/-- `_clear_rkv_query_cache_row` on all layers. -/
def clearQueries (row : DecodeRow Id) : DecodeRow Id :=
  { row with queryPositions := fun _ _ => -1 }

/-- `_snapkv_decode_eviction` of PyramidKV on one layer. -/
def pyramidkvEviction (step : DecodeStep) (row : DecodeRow Id) (layer : ℕ) : Except PyError ℤ :=
  let kvLen := row.rowSeqLens layer
  if config.isFullLayer layer then .ok kvLen
  else
    let budget := config.pyramidkvLayerBudget layer
    let triggerLen := budget + (budget - config.sinkKeepTokens - config.recentKeepTokens)
    match needsAttentionScore budget triggerLen step layer kvLen with
    | .error error => .error error
    | .ok scored =>
        if scored && decodeTriggered budget triggerLen (step.others layer) kvLen then
          .ok (snapkvSelectCount config kvLen budget)
        else .ok kvLen

/-- `_streamingllm_decode_eviction` on one layer. -/
def streamingllmEviction (step : DecodeStep) (row : DecodeRow Id) (layer : ℕ) : Except PyError ℤ :=
  let kvLen := row.rowSeqLens layer
  let budget := config.streamingBudget
  if budget ≤ 0 then .ok kvLen
  else if decodeTriggered budget (2 * budget) (step.others layer) kvLen then
    prefixRecentLen config kvLen
  else .ok kvLen

/-- A compaction of every layer by itself. -/
def evictLayers (evict : DecodeRow Id → ℕ → Except PyError ℤ) (row : DecodeRow Id) :
    Except PyError (DecodeRow Id) :=
  match (List.range config.numKvLayers).mapM (evict row) with
  | .error error => .error error
  | .ok lengths => .ok { row with rowSeqLens := fun layer => lengths.getD layer 0 }

/-- `rkv_observation_ready` on all layers. -/
def observationReady (row : DecodeRow Id) (kvLen : ℤ) : Bool :=
  (List.range config.numKvLayers).all fun layer =>
    (List.range config.rkvObservationTokens.toNat).all fun offset =>
      let expected := kvLen - config.rkvObservationTokens + offset
      decide (row.queryPositions layer (expected % config.rkvObservationTokens) = expected)

/-- `RKVRuntime.finish_step`. -/
def rkvFinishStep (row : DecodeRow Id) : Except PyError (DecodeRow Id) :=
  if config.numKvLayers = 0 then .ok row
  else
    let length := row.rowSeqLens 0
    if (List.range config.numKvLayers).any fun layer => decide (row.rowSeqLens layer ≠ length) then
      .error (.runtimeError
        "R-KV global selection requires matching token domains in every KV layer.")
    else if row.seq.isRecomputeReplay then .ok row.clearQueries
    else
      let decoded := row.seq.numTokens - row.seq.numPromptTokens
      if 0 < decoded ∧ decoded % config.rkvCompressionInterval = 0 ∧
          config.keepBudget + config.rkvCompressionInterval ≤ length then
        if row.observationReady config length then
          .ok { row.clearQueries with rowSeqLens := fun _ =>
            config.keepBudget - config.rkvObservationTokens + config.rkvObservationTokens }
        else if length < row.seq.numTokens then
          .error (.runtimeError
            "R-KV missing decode observations after KV eviction; refusing partial-window scoring.")
        else .ok row
      else .ok row

/-- `finish_step` of the method's runtime after a decode step. -/
def finishStep (step : DecodeStep) (row : DecodeRow Id) : Except PyError (DecodeRow Id) :=
  match config.sparseMethod with
  | .snapkv => .ok row
  | .pyramidkv => row.evictLayers config (pyramidkvEviction config step)
  | .streamingllm => row.evictLayers config (streamingllmEviction config step)
  | .rkv => row.rkvFinishStep config

/-- A decode step of the sequence, with `postprocess`. -/
def decodeStep (step : DecodeStep) (row : DecodeRow Id) : Except PyError (DecodeRow Id) :=
  match (row.append config).finishStep config step with
  | .error error => .error error
  | .ok next => .ok { next with seq := row.seq.afterDecode step.token }

/-- Decode steps one after another. -/
def decodeRun (steps : List DecodeStep) (row : DecodeRow Id) : Except PyError (DecodeRow Id) :=
  Sawtooth.runSteps (decodeStep config) steps row

/-- `decode_window_costs` of the sequence, for one layer. -/
def decodeWindowCost (row : DecodeRow Id) (layer : ℕ) (tokens : ℤ) : ℤ :=
  config.decodeWindowCost row.seq.isRecomputeReplay (row.rowSeqLens layer) layer tokens

end DecodeRow

/-- The states in which the engine decodes a sequence: a prefill has completed
its prompt, fresh, of a replay or behind a resumed chain, and any number of
decode steps follows.  A prefill leaves no query in the cache of R-KV and the
same length on all its layers, and outside a replay it has sampled the first
output token. -/
inductive DecodeRow.Reachable {Id : Type} (config : WindowConfig) : DecodeRow Id → Prop where
  | prefilled [PrefixReuse] (seq : Sequence Id) (rowSeqLens : ℕ → ℤ) (hwell : seq.Wellformed)
      (hdecoding : seq.Decoding) (hpending : seq.numPendingOutputs = 0)
      (hfresh : seq.isRecomputeReplay = false → seq.numCompletionTokens = 1)
      (hnonneg : ∀ layer, 0 ≤ rowSeqLens layer)
      (huniform : config.sparseMethod = .rkv → ∀ layer, rowSeqLens layer = rowSeqLens 0) :
      Reachable config ⟨seq, rowSeqLens, fun _ _ => -1⟩
  | decoded (step : DecodeStep) (row next : DecodeRow Id) (hrow : Reachable config row)
      (hstep : row.decodeStep config step = .ok next) : Reachable config next
