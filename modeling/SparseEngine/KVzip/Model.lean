import SparseEngine.SlotTables.Compaction

/-!
# KVzip

`KVzipCacheManager` prefills a prompt into the slots of `SnapKVCacheManager`.
When the prompt is complete, `KVzipRuntime.finish_step` feeds it again in
chunks behind itself, takes for every position of the prompt the highest score
it ever gets, and keeps the best ones.  Each replay borrows slots from the
layers and has to give them back, however it ends.

The model is an `AuxiliaryForward`: which layers score, with which result, and
where an exception interrupts it.  Scores are elements of a linear order.  The
payload of the KV cache, the prefill of the prompt itself and the costs of an
admission are left out.
-/

/-- What the manager is configured with. -/
structure KVzipConfig extends SlotConfig where
  kvzipTokenBudget : ℕ
  kvzipScoreChunkSize : ℕ
  kvzipPrevPostfixSize : ℕ
  enginePrefillChunkSize : ℕ
  /-- `_normalize_kvzip`. -/
  budget_pos : 1 ≤ kvzipTokenBudget
  /-- `_normalize_kvzip`. -/
  chunk_pos : 1 ≤ kvzipScoreChunkSize

/-- `kvzip_reconstruction_slot_reserve`. -/
def KVzipConfig.reconstructionSlotReserve (config : KVzipConfig) : ℕ :=
  if config.maxModelLen ≤ config.kvzipTokenBudget then 0 else config.enginePrefillChunkSize

/-- `ReconstructionChunk`. -/
structure ReconstructionChunk where
  seqId : ℕ
  prefixLen : ℕ
  replayLen : ℕ
  visitedLayers : List ℕ

/-- `KVzipCacheManager`. -/
structure KVzipManager (Score : Type) where
  tables : SlotTables
  reconstructionPromptIds : List ℤ
  /-- `_reconstruction`. -/
  reconstruction : Option ReconstructionChunk
  /-- `_reconstruction_source`. -/
  reconstructionSource : Dict ℕ (List ℤ)
  /-- The tensor of `finish_step`, which the chunks of a replay share. -/
  scores : ℕ → Score

/-- A layer of the model calls `collect_prefill_attention_score`. -/
structure ScoreVisit (Score : Type) where
  layer : ℕ
  /-- `q.shape[0]`. -/
  queries : ℕ
  /-- `score[0]`. -/
  scores : ℕ → Score

/-- What happens in one `auxiliary_prefill`. -/
structure AuxiliaryForward (Score : Type) where
  /-- An exception before any layer has slots. -/
  earlyFault : Option PyError
  /-- An exception of the device while the row of a layer is written. -/
  allocationFault : ℕ → Option PyError
  visits : List (ScoreVisit Score)
  /-- An exception after the visits. -/
  lateFault : Option PyError

namespace LayerSlots

open Routine Cells

/-- A sequence on a layer in `_prepare_prefill`, with a fault of the device. -/
def appendReplay {Id : Type} (config : SlotConfig) (seq : ChainSequence Id) (fault : Option PyError) :
    Routine LayerSlots Unit := do
  SlotTables.checkRowLen .none seq 0
  let _ ← allocate config.maxModelLen seq.seqId seq.chunkSize fault

/-- A layer of `_release_reconstruction_suffix`. -/
def releaseSuffix (seqId length : ℕ) : Routine LayerSlots Unit := do
  let slots ← Routine.read
  match slots.seqIdToRow.get? seqId with
  | none => raise (.runtimeError "KVzip reconstruction lost its original cache row.")
  | some row => do
      let stop := slots.rowSeqLens row
      raiseIf (stop < length) (.runtimeError "KVzip reconstruction lost its original cache row.")
      whenDo (length < stop) (Routine.write fun slots =>
        let slots := slots.pushSlots (read (slots.reqToTokenSlots row) length (stop - length))
        let slots := slots.writeRow row length (List.replicate (stop - length) 0)
        slots.setLen row length)

end LayerSlots

namespace KVzipManager

open Routine

variable {Id Score : Type} (config : KVzipConfig)

/-- A call on the slot tables. -/
def onTables {α : Type} (m : Routine SlotTables α) : Routine (KVzipManager Score) α :=
  focus (fun manager => manager.tables) (fun tables manager => { manager with tables := tables }) m

/-- `raise fault`, if there is one. -/
def raiseFault {σ : Type} (fault : Option PyError) : Routine σ Unit :=
  match fault with
  | some error => raise error
  | none => pure ()

/-- `set_reconstruction_prompt`. -/
def setReconstructionPrompt (tokenIds : List ℤ) : Routine (KVzipManager Score) Unit := do
  raiseIf (tokenIds = []) (.valueError "KVzip reconstruction prompt must tokenize to non-empty IDs.")
  let peak := tokenIds.length + config.kvzipScoreChunkSize + config.kvzipPrevPostfixSize
  raiseIf (config.enginePrefillChunkSize < peak)
    (.valueError "KVzip reconstruction prompt + kvzip_score_chunk_size + kvzip_prev_postfix_size must fit")
  Routine.write fun manager => { manager with reconstructionPromptIds := tokenIds }

/-- `prompt_admission_costs`. -/
def promptAdmissionCosts (seq : ChainSequence Id) : Routine (KVzipManager Score) Unit := do
  let manager ← Routine.read
  let length := seq.numPromptTokens.toNat
  whenDo (config.kvzipTokenBudget < length) do
    raiseIf (manager.reconstructionPromptIds = [])
      (.runtimeError "KVzip reconstruction prompt has not been initialized.")
    let replay := manager.reconstructionPromptIds.length + min length config.kvzipScoreChunkSize +
      min (length - config.kvzipScoreChunkSize) config.kvzipPrevPostfixSize
    raiseIf (config.maxModelLen < length + replay)
      (.valueError "KVzip prompt plus reconstruction replay exceeds max_model_len")

/-- `reconstruction_source`. -/
def reconstructionSourceOf (seq : ChainSequence Id) : Routine (KVzipManager Score) (List ℤ) := do
  let manager ← Routine.read
  match manager.reconstructionSource.get? seq.seqId with
  | none => raise (.runtimeError "KVzip reconstruction requires the complete original prompt.")
  | some source => do
      raiseIf ((source.length : ℤ) ≠ seq.numPromptTokens)
        (.runtimeError "KVzip reconstruction requires the complete original prompt.")
      return source

/-- `_release_reconstruction_suffix`. -/
def releaseReconstructionSuffix (seqId length : ℕ) : Routine SlotTables Unit :=
  forEach (fun layer => SlotTables.onLayer layer (LayerSlots.releaseSuffix seqId length))
    (SlotTables.layerIds config.toSlotConfig)

/-- `reconstruction_chunk`. -/
def reconstructionChunk (seq : ChainSequence Id) (replayLen : ℕ) (body : Routine (KVzipManager Score) Unit) :
    Routine (KVzipManager Score) Unit := do
  let manager ← Routine.read
  raiseIf manager.reconstruction.isSome (.runtimeError "KVzip reconstruction forwards must run serially.")
  let length := seq.numPromptTokens.toNat
  raiseIf (config.maxModelLen < length + replayLen)
    (.valueError "KVzip reconstruction exceeds max_model_len.")
  Routine.write fun manager => { manager with reconstruction := some ⟨seq.seqId, length, replayLen, []⟩ }
  finallyDo
    (do
      body
      let manager ← Routine.read
      let visited := (manager.reconstruction.map ReconstructionChunk.visitedLayers).getD []
      raiseIf (visited.toFinset ≠ (SlotTables.layerIds config.toSlotConfig).toFinset)
        (.runtimeError "KVzip reconstruction did not score every KV layer."))
    (finallyDo (onTables (releaseReconstructionSuffix config seq.seqId length))
      (Routine.write fun manager => { manager with reconstruction := none }))

/-! ## One replay -/

/-- `prepare_step` of a replay. -/
def prepareReplay (forward : AuxiliaryForward Score) (seq : ChainSequence Id) : Routine SlotTables Unit := do
  Routine.write fun tables => { tables with
    stagingActive := false, stagingSeqIds := [], materializedLayers := []
    residentPrefixLens := fun _ => none }
  raiseFault forward.earlyFault
  let batched ← SlotTables.allocatePrefillBatch config.toSlotConfig [seq]
  match batched with
  | some _ => pure ()
  | none =>
      forEach (fun layer => SlotTables.onLayer layer
          (LayerSlots.appendReplay config.toSlotConfig seq (forward.allocationFault layer)))
        (SlotTables.layerIds config.toSlotConfig)

/-- The copy of the sequence that `_run_auxiliary_prefill` runs. -/
def replayOf (seq : ChainSequence Id) (tokenIds : List ℤ) (prefixLen : ℕ) : ChainSequence Id :=
  { seq with
    tokenIds := tokenIds, numTokens := prefixLen + tokenIds.length, numPromptTokens := prefixLen + tokenIds.length
    numPrefilledTokens := prefixLen, currentChunkSize := some tokenIds.length }

section Scores

variable [LinearOrder Score]

/-- `collect_prefill_attention_score`. -/
def collectPrefillAttentionScore (visit : ScoreVisit Score) : Routine (KVzipManager Score) Unit := do
  let manager ← Routine.read
  match manager.reconstruction with
  | none => pure ()
  | some state => do
      raiseIf (visit.queries ≠ state.replayLen)
        (.runtimeError "KVzip reconstruction query batch or length mismatch.")
      raiseIf (visit.layer ∈ state.visitedLayers)
        (.runtimeError "KVzip reconstruction scored a layer more than once.")
      let row ← ofExcept ((manager.tables.layers visit.layer).rowOf state.seqId)
      raiseIf ((manager.tables.layers visit.layer).rowSeqLens row ≠ state.prefixLen + state.replayLen)
        (.runtimeError "KVzip scoring requires the original dense prompt plus replay.")
      Routine.write fun manager => { manager with
        scores := fun position => if position < state.prefixLen then
          max (manager.scores position) (visit.scores position) else manager.scores position
        reconstruction := some { state with visitedLayers := visit.layer :: state.visitedLayers } }

/-- `_run_auxiliary_prefill`. -/
def auxiliaryPrefill (forward : AuxiliaryForward Score) (seq : ChainSequence Id) (tokenIds : List ℤ)
    (prefixLen : ℕ) : Routine (KVzipManager Score) Unit := do
  onTables (prepareReplay config forward (replayOf seq tokenIds prefixLen))
  forEach collectPrefillAttentionScore forward.visits
  raiseFault forward.lateFault

/-- The tokens of the replay of the chunk at `start`. -/
def replayTokens (promptIds source : List ℤ) (length start : ℕ) : List ℤ :=
  let stop := min length (start + config.kvzipScoreChunkSize)
  promptIds ++ (source.take stop).drop (start - config.kvzipPrevPostfixSize)

/-- The replay of the chunk at `start`. -/
def replayChunk (seq : ChainSequence Id) (source : List ℤ) (length : ℕ) (forward : AuxiliaryForward Score)
    (start : ℕ) : Routine (KVzipManager Score) Unit := do
  let manager ← Routine.read
  let replay := replayTokens config manager.reconstructionPromptIds source length start
  reconstructionChunk config seq replay.length (auxiliaryPrefill config forward seq replay length)

/-! ## After the prompt -/

/-- A position before another in a stable descending sort. -/
def Ahead (scores : ℕ → Score) (first second : ℕ) : Prop :=
  scores second < scores first ∨ (scores first = scores second ∧ first ≤ second)

instance (scores : ℕ → Score) : DecidableRel (Ahead scores) := fun _ _ => inferInstanceAs (Decidable (_ ∨ _))

/-- `argsort(scores, descending=True, stable=True)[:budget].sort()`. -/
def keepPositions (scores : ℕ → Score) (length budget : ℕ) : List ℕ :=
  (((List.range length).insertionSort (Ahead scores)).take budget).insertionSort (· ≤ ·)

/-- `compact_reconstruction`. -/
def compactReconstruction (seq : ChainSequence Id) (keep : List ℕ) : Routine (KVzipManager Score) Unit := do
  onTables SlotTables.clearUniform
  forEach (fun layer => onTables (SlotTables.freePartSlots config.toSlotConfig layer seq.seqId keep true))
    (SlotTables.layerIds config.toSlotConfig)
  Routine.write fun manager =>
    { manager with reconstructionSource := manager.reconstructionSource.erase seq.seqId }

/-- `finish_step` for one sequence.  `forwards` are the replays by the start of
their chunk, `zero` is the score 0, and `peers` are the highest scores of the
other ranks. -/
def finishSeq (forwards : ℕ → AuxiliaryForward Score) (zero : Score) (peers : ℕ → Score)
    (seq : ChainSequence Id) : Routine (KVzipManager Score) Unit :=
  let length := seq.numPromptTokens.toNat
  whenDo (seq.endsPrompt = true ∧ config.kvzipTokenBudget < length) do
    promptAdmissionCosts config seq
    let source ← reconstructionSourceOf seq
    Routine.write fun manager => { manager with scores := fun _ => zero }
    forEach (fun start => replayChunk config seq source length (forwards start) start)
      (Cells.tileStarts length config.kvzipScoreChunkSize)
    Routine.write fun manager =>
      { manager with scores := fun position => max (manager.scores position) (peers position) }
    let manager ← Routine.read
    compactReconstruction config seq (keepPositions manager.scores length config.kvzipTokenBudget)

end Scores

end KVzipManager
