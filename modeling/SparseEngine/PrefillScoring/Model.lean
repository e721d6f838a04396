import SparseEngine.ChainCache.Engine
import SparseEngine.DecodeWindow.Model
import SparseEngine.Lib.Keyed

/-!
# Prefill scores

SnapKV and PyramidKV score the tokens of a prompt with the queries of its last
tokens, the observation window, and cut every layer back to its budget when
the prompt ends.  The scheduler asks `min_final_prefill_chunk_size` how many
tokens it has to leave for the last chunk, `_prefill_score_rows` decides in
the forward pass whether the chunk holds the window, and the eviction behind
the pass takes the scores out again.

Layers are KV layer indices.  What the cache manager keeps is split up by
sequence: all its tables are keyed by the sequence id.  Slots, KV tensors and
the scores themselves are left out, and with them the raises of an exhausted
pool; a step that raises ends the run.  Every field of a batch is looked up by
sequence instead of by position.
-/

/-- The parts of the configuration that the prefill of SnapKV and PyramidKV
reads. -/
structure ScoringConfig extends WindowConfig where
  snapkvWindowSize : ℤ
  longPrefillOffloadThreshold : ℤ
  /-- `pyramidkv_prefill_staging_kv_cache is not None`. -/
  stagingKvCache : Bool
  pyramidkvPrefillStagingNumSlots : ℤ

/-- A sequence with the fields of its chain. -/
structure ChainSequence (Id : Type) extends Sequence Id where
  seqId : ℕ
  chainStatus : ChainStatus := .disabled
  chainReusedTokens : ℤ := 0
  multimodalFullPrefill : Bool := false

/-- What the cache manager keeps of one sequence. -/
structure SequenceKv where
  /-- `row_seq_lens` of its row, by layer. -/
  rowSeqLens : ℕ → Option ℤ
  /-- `_raw_offload_prefill_phases`. -/
  rawOffloadPrefillPhase : Option Bool
  /-- The number of scores in `_prefill_attn_score_accumulators`, by layer. -/
  scoreAccumulators : ℕ → Option ℤ

namespace SequenceKv

/-- A sequence the cache manager holds nothing of, and what `free_seq`
leaves. -/
def empty : SequenceKv := ⟨fun _ => none, none, fun _ => none⟩

/-- A write to the row of a layer. -/
def setRow (kv : SequenceKv) (layer : ℕ) (length : ℤ) : SequenceKv :=
  { kv with rowSeqLens := Function.update kv.rowSeqLens layer (some length) }

/-- A write to the accumulator of a layer. -/
def setScores (kv : SequenceKv) (layer : ℕ) (scores : Option ℤ) : SequenceKv :=
  { kv with scoreAccumulators := Function.update kv.scoreAccumulators layer scores }

/-- `chain_physical_kv_len`. -/
def chainPhysicalKvLen (kv : SequenceKv) (layer : ℕ) : Except PyError ℤ :=
  match kv.rowSeqLens layer with
  | none => .error (.runtimeError "Missing chain row")
  | some length => .ok length

end SequenceKv

namespace ChainSequence

variable {Id : Type} (seq : ChainSequence Id)

/-- `remaining_prefill_tokens`. -/
def remainingPrefillTokens : ℤ := seq.numPromptTokens - seq.numPrefilledTokens

/-- `is_chain_resume`: the rows of an earlier turn lie in front of the
prompt. -/
def isChainResume : Bool := decide (seq.chainStatus = .resumed) && !seq.isRecomputeReplay

/-- `max(chain_reused_tokens, prefix_cache_hit_len)`. -/
def attachedTokens : ℤ := max seq.chainReusedTokens seq.prefixCacheHitLen

/-- `reused_tokens` of `_prefill_score_rows`. -/
def reusedTokens : ℤ := if seq.isRecomputeReplay then 0 else seq.chainReusedTokens

/-- `score_window`. -/
def scoreWindow (window : ℤ) : ℤ :=
  let appendedDeltaLen := max 0 (seq.numPromptTokens - seq.reusedTokens)
  if appendedDeltaLen = 0 then window else min window appendedDeltaLen

/-- `current_chunk_size`, of a scheduled sequence. -/
def chunkSize : ℤ := seq.currentChunkSize.getD 0

/-- `is_last_chunk_prefill`, of a scheduled sequence. -/
def endsPrompt : Bool := decide (seq.numPromptTokens ≤ seq.numPrefilledTokens + seq.chunkSize)

end ChainSequence

namespace ScoringConfig

variable {Id : Type} (config : ScoringConfig)

/-- `_pyramidkv_can_use_full_prefill_staging`. -/
def canUseFullPrefillStaging : Bool :=
  decide (config.sparseMethod = .pyramidkv) && config.fullPrefillStaging

/-- `_prefill_score_layer_budget`, and `_get_layer_budget` of the runtimes. -/
def prefillScoreLayerBudget (layer : ℕ) : Option ℤ :=
  if (layer : ℤ) < config.snapkvNumFullLayers then none
  else
    match config.sparseMethod with
    | .pyramidkv => some (config.pyramidkvLayerBudget layer)
    | .snapkv => some config.keepBudget
    | _ => none

/-! ## Execution modes -/

/-- `_apply_sticky_raw_offload_mode`. -/
def applyStickyRawOffloadMode (kv : SequenceKv) (seq : ChainSequence Id)
    (mode : PrefillExecutionMode) : PrefillExecutionMode × SequenceKv :=
  let phase := kv.rawOffloadPrefillPhase.filter fun phase => phase == seq.isRecomputeReplay
  if phase.isSome then (.rawOffload, { kv with rawOffloadPrefillPhase := phase })
  else if mode = .rawOffload then
    (mode, { kv with rawOffloadPrefillPhase := some seq.isRecomputeReplay })
  else (mode, { kv with rawOffloadPrefillPhase := none })

/-- `prefill_execution_mode`. -/
def prefillExecutionMode (kv : SequenceKv) (seq : ChainSequence Id) :
    Except PyError (PrefillExecutionMode × SequenceKv) :=
  if config.canUseFullPrefillStaging = false then .ok (.chunked, kv)
  else
    let residual := seq.remainingPrefillTokens
    if residual ≤ 0 then
      .error (.valueError "PyramidKV prefill execution mode requires a positive residual")
    else
      let initialMode :=
        if residual ≤ config.longPrefillOffloadThreshold then PrefillExecutionMode.full
        else .rawOffload
      let sticky := applyStickyRawOffloadMode kv seq initialMode
      if sticky.1 = .rawOffload ∧ config.stagingKvCache = false then
        .error (.runtimeError "PyramidKV raw_offload mode requires prefill staging KV.")
      else .ok sticky

/-- `requires_long_prefill_offload`. -/
def requiresLongPrefillOffload (kv : SequenceKv) (seq : ChainSequence Id) :
    Except PyError (Bool × SequenceKv) := do
  let (mode, kv) ← config.prefillExecutionMode kv seq
  return (decide (mode = .rawOffload), kv)

/-- `requires_long_prefill_offload`, in the table of all sequences. -/
def askLongOffload (table : ℕ → SequenceKv) (seq : ChainSequence Id) :
    Except PyError (Bool × (ℕ → SequenceKv)) := do
  let (offloads, kv) ← config.requiresLongPrefillOffload (table seq.seqId) seq
  return (offloads, Function.update table seq.seqId kv)

/-- `prefill_execution_mode` of the runtime state. -/
def runtimeExecutionMode (kv : SequenceKv) (seq : ChainSequence Id) :
    Except PyError (PrefillExecutionMode × SequenceKv) :=
  if seq.multimodalFullPrefill then .ok (.full, kv) else config.prefillExecutionMode kv seq

/-! ## The minimum for the last chunk -/

/-- `final_physical_len` of a layer, the tokens of a raw offload turn given. -/
def finalPhysicalLen (kv : SequenceKv) (seq : ChainSequence Id) (rawOffloadTurnTokens : Option ℤ)
    (layer : ℕ) : Except PyError ℤ :=
  if seq.isChainResume then do
    let length ← kv.chainPhysicalKvLen layer
    return length + rawOffloadTurnTokens.getD seq.remainingPrefillTokens
  else .ok seq.numPromptTokens

/-- `needs_score` of PyramidKV, over the layers. -/
def pyramidkvNeedsScore (kv : SequenceKv) (seq : ChainSequence Id)
    (rawOffloadTurnTokens : Option ℤ) : List ℕ → Except PyError Bool
  | [] => .ok false
  | layer :: rest =>
      if (layer : ℤ) < config.snapkvNumFullLayers then
        pyramidkvNeedsScore kv seq rawOffloadTurnTokens rest
      else do
        let length ← finalPhysicalLen kv seq rawOffloadTurnTokens layer
        if config.pyramidkvLayerBudget layer < length then return true
        else pyramidkvNeedsScore kv seq rawOffloadTurnTokens rest

/-- `needs_score`. -/
def needsScore (kv : SequenceKv) (seq : ChainSequence Id) (rawOffloadTurnTokens : Option ℤ) :
    Except PyError Bool :=
  if config.sparseMethod = .snapkv then do
    let length ← finalPhysicalLen kv seq none 0
    return decide (config.keepBudget < length)
  else config.pyramidkvNeedsScore kv seq rawOffloadTurnTokens (List.range config.numKvLayers)

/-- `raw_offload_turn_tokens`. -/
def rawOffloadTurnTokens (kv : SequenceKv) (seq : ChainSequence Id) :
    Except PyError (Option ℤ × SequenceKv) :=
  if config.sparseMethod = .pyramidkv ∧ seq.isChainResume = true then do
    let (offloads, kv) ← config.requiresLongPrefillOffload kv seq
    return (if offloads then some (max 0 (seq.numPromptTokens - seq.attachedTokens)) else none, kv)
  else .ok (none, kv)

/-- `min_final_prefill_chunk_size`. -/
def minFinalPrefillChunkSize (kv : SequenceKv) (seq : ChainSequence Id) :
    Except PyError (ℤ × SequenceKv) :=
  if config.sparseMethod ≠ .snapkv ∧ config.sparseMethod ≠ .pyramidkv then .ok (0, kv)
  else if config.snapkvWindowSize ≤ 0 then .ok (0, kv)
  else if (config.numKvLayers : ℤ) ≤ config.snapkvNumFullLayers then .ok (0, kv)
  else do
    let (turnTokens, kv) ← config.rawOffloadTurnTokens kv seq
    let needsScore ← config.needsScore kv seq turnTokens
    return (if needsScore then min config.snapkvWindowSize seq.remainingPrefillTokens else 0, kv)

/-! ## Scheduling -/

/-- The end of `_respect_min_final_prefill_chunk`. -/
def respectMinFinal (minFinal remainingPrefillTokens proposedTokens : ℤ) : ℤ :=
  let remainingAfter := remainingPrefillTokens - proposedTokens
  if minFinal = 0 ∨ remainingAfter ≤ 0 ∨ minFinal ≤ remainingAfter then proposedTokens
  else max 0 (remainingPrefillTokens - minFinal)

/-- The chunk of one candidate in `_schedule_impl`. -/
def candidateChunk (scheduling : SchedulerConfig) (mode : PrefillExecutionMode)
    (numBatchedTokens stepFreeCount : ℤ) (kv : SequenceKv) (seq : ChainSequence Id) :
    Except PyError (ℤ × SequenceKv) := do
  let remaining := seq.remainingPrefillTokens
  if remaining ≤ 0 then throw (.valueError "BUG")
  else
    let proposed := Scheduler.prefillStepTokens scheduling mode remaining numBatchedTokens
      stepFreeCount
    let (minFinal, kv) ← config.minFinalPrefillChunkSize kv seq
    if minFinal < 0 then throw (.valueError "min_final_prefill_chunk_size must be non-negative")
    else return (respectMinFinal minFinal remaining proposed, kv)

/-- The prefill scan of `_schedule_impl` for one execution mode, over the
candidates and what the cache manager reports as free for each.  Admission may
turn down any candidate by itself; such a one is not in the list. -/
def scanCandidates (scheduling : SchedulerConfig) (target : PrefillExecutionMode) :
    List (ChainSequence Id × ℤ) → ℤ → (ℕ → SequenceKv) →
      Except PyError (List (ChainSequence Id) × (ℕ → SequenceKv))
  | [], _, table => .ok ([], table)
  | (seq, stepFreeCount) :: rest, numBatchedTokens, table => do
      let (mode, kv) ← config.runtimeExecutionMode (table seq.seqId) seq
      if mode ≠ target then
        scanCandidates scheduling target rest numBatchedTokens
          (Function.update table seq.seqId kv)
      else do
        let (chunk, kv) ← config.candidateChunk scheduling mode numBatchedTokens stepFreeCount kv seq
        let table := Function.update table seq.seqId kv
        if chunk ≤ 0 then scanCandidates scheduling target rest numBatchedTokens table
        else
          let seq : ChainSequence Id := { seq with currentChunkSize := some chunk }
          if target = .rawOffload then return ([seq], table)
          else do
            let (scheduled, table) ←
              scanCandidates scheduling target rest (numBatchedTokens + chunk) table
            return (seq :: scheduled, table)

/-! ## The forward pass -/

/-- Which prompts of a step go through the staging tensor. -/
inductive PrefillStaging where
  | none
  | full
  | longOffload
  deriving DecidableEq

/-- A sequence of the batch with its context lengths. -/
structure PreparedSequence (Id : Type) where
  seq : ChainSequence Id
  contextLens : ℕ → ℤ

/-- `_should_use_pyramidkv_long_prefill_offload_staging`. -/
def shouldUseLongOffloadStaging (table : ℕ → SequenceKv) (seqs : List (ChainSequence Id)) :
    Except PyError (Bool × (ℕ → SequenceKv)) :=
  if config.canUseFullPrefillStaging = false ∨ config.stagingKvCache = false then .ok (false, table)
  else
    match seqs with
    | [seq] => do
        let (offloads, table) ← config.askLongOffload table seq
        return (offloads && decide (0 < seq.chunkSize), table)
    | _ => .ok (false, table)

/-- The loop of `_should_use_pyramidkv_full_prefill_staging`. -/
def allFirstPrefills : List (ChainSequence Id) → ℤ → (ℕ → SequenceKv) →
    Except PyError (Bool × (ℕ → SequenceKv))
  | [], totalChunkTokens, table =>
      .ok (decide (totalChunkTokens ≤ config.pyramidkvPrefillStagingNumSlots), table)
  | seq :: rest, totalChunkTokens, table => do
      let (offloads, table) ← config.askLongOffload table seq
      if offloads then return (false, table)
      else if seq.numPrefilledTokens ≠ 0 ∨ seq.chunkSize ≠ seq.remainingPrefillTokens then
        return (false, table)
      else allFirstPrefills rest (totalChunkTokens + seq.chunkSize) table

/-- `_should_use_pyramidkv_full_prefill_staging`. -/
def shouldUseFullStaging (table : ℕ → SequenceKv) (seqs : List (ChainSequence Id)) :
    Except PyError (Bool × (ℕ → SequenceKv)) :=
  if config.canUseFullPrefillStaging = false ∨ config.stagingKvCache = false ∨ seqs = [] then
    .ok (false, table)
  else config.allFirstPrefills seqs 0 table

/-- The staging of a prefill step. -/
def prefillStaging (table : ℕ → SequenceKv) (seqs : List (ChainSequence Id)) :
    Except PyError (PrefillStaging × (ℕ → SequenceKv)) := do
  let (useLong, table) ← config.shouldUseLongOffloadStaging table seqs
  let (useFull, table) ← config.shouldUseFullStaging table seqs
  return (if useLong then .longOffload else if useFull then .full else .none, table)

/-- `residual_start` in `_prepare_prefill`. -/
def residualStart (staging : PrefillStaging) (seq : ChainSequence Id) : ℤ :=
  if staging = .longOffload ∧ seq.isRecomputeReplay = false then seq.attachedTokens else 0

/-- One layer of one sequence in `_prepare_prefill`: the context length and the
row length. -/
def prepareLayer (staging : PrefillStaging) (seq : ChainSequence Id) (row : Option ℤ) : ℤ × ℤ :=
  let current := row.getD 0
  match staging with
  | .none =>
      (if seq.isChainResume then current + seq.chunkSize
        else seq.numPrefilledTokens + seq.chunkSize, current + seq.chunkSize)
  | .full => (seq.chunkSize, current)
  | .longOffload =>
      let start := residualStart .longOffload seq
      let resident := if 0 < start then current else 0
      (resident + (seq.numPrefilledTokens - start) + seq.chunkSize, current)

/-- One sequence in `_prepare_prefill`.  The slots it takes are left out, and so
is the `ValueError` for a row of another length than the position its chunk
starts at. -/
def prepareSequence (staging : PrefillStaging) (seq : ChainSequence Id) (kv : SequenceKv) :
    Except PyError SequenceKv :=
  let startsResumedTurn :=
    seq.isChainResume && decide (seq.numPrefilledTokens = seq.chainReusedTokens)
  let kv :=
    if seq.numPrefilledTokens = 0 ∨ startsResumedTurn = true then
      { kv with scoreAccumulators := fun _ => none }
    else kv
  if seq.numPrefilledTokens - residualStart staging seq < 0 then
    .error (.runtimeError "PyramidKV raw_offload residual progress is negative")
  else if 0 < residualStart staging seq ∧
      (List.range config.numKvLayers).any (fun layer => (kv.rowSeqLens layer).isNone) = true then
    .error (.runtimeError "PyramidKV raw_offload resumed prefix row is missing")
  else
    let rows : ℕ → Option ℤ := fun layer =>
      if layer < config.numKvLayers then some (prepareLayer staging seq (kv.rowSeqLens layer)).2
      else kv.rowSeqLens layer
    .ok { kv with rowSeqLens := rows }

/-- `prefill_staging_context_lens_cpu`, of one sequence. -/
def stagingContextLen (staging : PrefillStaging) (prepared : PreparedSequence Id) (layer : ℕ) :
    Option ℤ :=
  if staging = .none then none else some (prepared.contextLens layer)

/-- `physical_context_len` of `_prefill_score_rows`. -/
def physicalContextLen (staging : PrefillStaging) (layer : ℕ) (prepared : PreparedSequence Id)
    (kv : SequenceKv) : Except PyError ℤ :=
  if prepared.seq.isChainResume then
    match stagingContextLen staging prepared layer with
    | some length => .ok length
    | none => kv.chainPhysicalKvLen layer
  else .ok prepared.seq.numPromptTokens

/-- One sequence of `_prefill_score_rows`: the range of its scored queries. -/
def prefillScoreRow (staging : PrefillStaging) (layer : ℕ) (prepared : PreparedSequence Id)
    (kv : SequenceKv) : Except PyError (Option (ℤ × ℤ)) :=
  match config.prefillScoreLayerBudget layer with
  | none => .ok none
  | some budget =>
      if config.snapkvWindowSize ≤ 0 then .ok none
      else
        let seq := prepared.seq
        match seq.currentChunkSize with
        | none => .error (.runtimeError "Prefill score collection requires current_chunk_size.")
        | some chunkSize => do
            let physicalContextLen ← physicalContextLen staging layer prepared kv
            if physicalContextLen ≤ budget then return none
            else
              let scoreWindow := seq.scoreWindow config.snapkvWindowSize
              let logicalScoreEnd := seq.numPromptTokens
              let logicalScoreStart := max 0 (logicalScoreEnd - scoreWindow)
              let chunkStart := seq.numPrefilledTokens
              let chunkEnd := chunkStart + chunkSize
              if chunkStart ≤ logicalScoreStart ∧ logicalScoreEnd ≤ chunkEnd then
                if seq.isChainResume then
                  return some (max 0 (physicalContextLen - scoreWindow), physicalContextLen)
                else return some (logicalScoreStart, logicalScoreEnd)
              else if seq.endsPrompt = true ∧ chunkStart < logicalScoreEnd ∧
                  logicalScoreStart < chunkEnd then
                throw (.runtimeError "SnapKV/PyramidKV prefill score requires the score query window to fit in the final prefill chunk.")
              else return none

/-- `collect_prefill_attention_score` for one sequence of the batch.  The rows
of the whole batch are computed before the first is recorded; a raise ends the
step either way. -/
def collectScore (staging : PrefillStaging) (layer : ℕ) (prepared : PreparedSequence Id)
    (kv : SequenceKv) : Except PyError SequenceKv := do
  match ← config.prefillScoreRow staging layer prepared kv with
  | none => return kv
  | some _ =>
      let existing := if prepared.seq.numPrefilledTokens = 0 then none else kv.scoreAccumulators layer
      if existing.any (fun size => decide (size ≠ prepared.contextLens layer)) = true then
        throw (.runtimeError "Prefill attention-score accumulator length changed without a lifecycle reset")
      else return kv.setScores layer (some (prepared.contextLens layer))

/-- The tokens a compaction keeps: `pop_prefill_attention_score` and
`_snapkv_select_indices` for one layer of one sequence. -/
def keepScored (layer : ℕ) (kvLen : ℤ) (kv : SequenceKv) : Except PyError SequenceKv :=
  match config.prefillScoreLayerBudget layer with
  | none => .ok (kv.setRow layer kvLen)
  | some budget =>
      if kvLen ≤ budget then .ok (kv.setRow layer kvLen)
      else
        match kv.scoreAccumulators layer with
        | none =>
            .error (.runtimeError "SnapKV/PyramidKV prefill eviction requires prefill attention scores.")
        | some _ =>
            .ok ((kv.setScores layer none).setRow layer
              (snapkvSelectCount config.toWindowConfig kvLen budget))

/-- `PyramidKVRuntime.on_attention_end` for one sequence of a step whose chunks
end their prompts. -/
def materializeStaging (staging : PrefillStaging) (layer : ℕ) (prepared : PreparedSequence Id)
    (kv : SequenceKv) : Except PyError SequenceKv :=
  match stagingContextLen staging prepared layer with
  | none => .error (.runtimeError "PyramidKV staging CPU context lengths do not match the current batch")
  | some kvLen => config.keepScored layer kvLen kv

/-- `any(requires_long_prefill_offload(seq) for seq in seqs)`. -/
def anyLongOffload : List (PreparedSequence Id) → (ℕ → SequenceKv) →
    Except PyError (Bool × (ℕ → SequenceKv))
  | [], table => .ok (false, table)
  | prepared :: rest, table => do
      let (offloads, table) ← config.askLongOffload table prepared.seq
      if offloads then return (true, table) else anyLongOffload rest table

/-- `PyramidKVRuntime.on_attention_end`. -/
def onAttentionEnd (staging : PrefillStaging) (batch : List (PreparedSequence Id)) (layer : ℕ)
    (table : ℕ → SequenceKv) : Except PyError (ℕ → SequenceKv) :=
  if config.sparseMethod ≠ .pyramidkv ∨ staging = .none then .ok table
  else if batch.any (fun prepared => !prepared.seq.endsPrompt) = true then do
    let (offloads, table) ← config.anyLongOffload batch table
    if offloads then return table
    else throw (.runtimeError "PyramidKV full-prefill staging should only run on the final prefill chunk.")
  else
    Keyed.updateEach (fun prepared => prepared.seq.seqId) (config.materializeStaging staging layer)
      batch table

/-- The attention of one layer. -/
def forwardLayer (staging : PrefillStaging) (batch : List (PreparedSequence Id)) (layer : ℕ)
    (table : ℕ → SequenceKv) : Except PyError (ℕ → SequenceKv) := do
  let table ← Keyed.updateEach (fun prepared => prepared.seq.seqId)
    (config.collectScore staging layer) batch table
  config.onAttentionEnd staging batch layer table

/-- `kv_len` in `_snapkv_prefill_eviction`. -/
def evictedKvLen (layer : ℕ) (seq : ChainSequence Id) (kv : SequenceKv) : Except PyError ℤ :=
  if seq.isChainResume then kv.chainPhysicalKvLen layer
  else .ok (seq.numPrefilledTokens + seq.chunkSize)

/-- `_snapkv_prefill_eviction` for one layer of one sequence that has ended its
prompt.  The rows are compacted after the loop, which reads no row that it has
compacted. -/
def evictPrompt (layer : ℕ) (prepared : PreparedSequence Id) (kv : SequenceKv) :
    Except PyError SequenceKv :=
  match config.prefillScoreLayerBudget layer with
  | none => .ok kv
  | some budget => do
      let kvLen ← evictedKvLen layer prepared.seq kv
      if kvLen ≤ budget then return kv else config.keepScored layer kvLen kv

/-- `finish_step`. -/
def finishStep (staging : PrefillStaging) (batch : List (PreparedSequence Id))
    (table : ℕ → SequenceKv) : Except PyError (ℕ → SequenceKv) :=
  let finalSeqs := batch.filter fun prepared => prepared.seq.endsPrompt
  if finalSeqs = [] then .ok table
  else if config.sparseMethod = .pyramidkv ∧ staging ≠ .none then .ok table
  else
    Sawtooth.runSteps
      (fun layer => Keyed.updateEach (fun prepared => prepared.seq.seqId) (config.evictPrompt layer)
        finalSeqs)
      (List.range config.numKvLayers) table

/-- The context lengths of the batch. -/
def preparedBatch (staging : PrefillStaging) (seqs : List (ChainSequence Id))
    (table : ℕ → SequenceKv) : List (PreparedSequence Id) :=
  seqs.map fun seq => ⟨seq, fun layer =>
    (prepareLayer staging seq ((table seq.seqId).rowSeqLens layer)).1⟩

/-- A prefill step of the cache manager and the runtime. -/
def prefillStep (seqs : List (ChainSequence Id)) (table : ℕ → SequenceKv) :
    Except PyError (ℕ → SequenceKv) := do
  let (staging, table) ← config.prefillStaging table seqs
  let batch := preparedBatch staging seqs table
  let table ← Keyed.updateEach (fun seq : ChainSequence Id => seq.seqId)
    (config.prepareSequence staging) seqs table
  let table ← Sawtooth.runSteps (config.forwardLayer staging batch) (List.range config.numKvLayers)
    table
  config.finishStep staging batch table

end ScoringConfig
