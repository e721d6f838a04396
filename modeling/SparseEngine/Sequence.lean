import SparseEngine.Lib.Routine
import Mathlib.Data.Int.Notation

/-!
# Sequences

The fields of `Sequence` that the scheduler, the cache managers and the
workers read and write, and its properties.  A sequence object is known by its
`seq_id`, which a class-wide counter hands out.

Of the sampling parameters only those that end a request are here; chain ids,
logprobs and the token sets of the sampling penalties are left out.
-/

/-- `xs[start:stop]`. -/
def pySlice {α : Type} (xs : List α) (start stop : ℤ) : List α :=
  let clamp (i : ℤ) : ℤ := if i < 0 then max 0 (xs.length + i) else i
  (xs.take (clamp stop).toNat).drop (clamp start).toNat

theorem pySlice_of_nonneg {α : Type} {xs : List α} {start stop : ℤ} (hstart : 0 ≤ start)
    (hstop : 0 ≤ stop) : pySlice xs start stop = (xs.take stop.toNat).drop start.toNat := by
  simp only [pySlice, if_neg (Int.not_lt.mpr hstart), if_neg (Int.not_lt.mpr hstop)]

/-- `SequenceStatus`. -/
inductive SequenceStatus where
  | waiting
  | running
  | finished
  deriving DecidableEq, Repr

/-- `Sequence`. -/
structure Sequence (Id : Type) where
  status : SequenceStatus := .waiting
  tokenIds : List ℤ
  numTokens : ℤ
  numPromptTokens : ℤ
  numPendingOutputs : ℤ := 0
  numPrefilledTokens : ℤ := 0
  currentChunkSize : Option ℤ := none
  prefixCacheEnabled : Bool := false
  prefixCacheHitLen : ℤ := 0
  prefixCacheHitBlockCount : ℤ := 0
  prefixCacheHitLastBlockId : Option Id := none
  prefixCacheBlockSize : ℤ := 0
  prefixCacheMethod : String := ""
  recomputeReplayCursor : Option ℤ := none
  decodeProgressCheckpoint : ℤ := 0
  maxTokens : ℤ
  lastToken : Option ℤ := none
  /-- `_prompt_token_ids`. -/
  promptTokens : Option (List ℤ) := none
  multimodalPositionDelta : ℤ := 0
  ignoreEos : Bool := false
  eosTokenIds : List ℤ := []

namespace Sequence

variable {Id : Type}

/-- `Sequence.__init__`. -/
def new (tokenIds : List ℤ) (maxTokens : ℤ) (ignoreEos : Bool) (eosTokenIds : List ℤ) :
    Sequence Id where
  tokenIds := tokenIds
  numTokens := tokenIds.length
  numPromptTokens := tokenIds.length
  maxTokens := maxTokens
  lastToken := tokenIds.getLast?
  promptTokens := some tokenIds
  ignoreEos := ignoreEos
  eosTokenIds := eosTokenIds

/-- `num_completion_tokens`. -/
def numCompletionTokens (seq : Sequence Id) : ℤ := seq.numTokens - seq.numPromptTokens

/-- `prompt_token_ids`. -/
def promptTokenIds (seq : Sequence Id) : List ℤ :=
  seq.promptTokens.getD (pySlice seq.tokenIds 0 seq.numPromptTokens)

/-- `completion_token_ids`. -/
def completionTokenIds (seq : Sequence Id) : List ℤ :=
  pySlice seq.tokenIds seq.numPromptTokens seq.tokenIds.length

/-- `is_recompute_replay`. -/
def isRecomputeReplay (seq : Sequence Id) : Bool := seq.recomputeReplayCursor.isSome

/-- `is_recompute_prefill`. -/
def isRecomputePrefill (seq : Sequence Id) : Bool :=
  seq.isRecomputeReplay && decide (seq.numPrefilledTokens < seq.numPromptTokens)

/-- `is_recompute_decode`. -/
def isRecomputeDecode (seq : Sequence Id) : Bool :=
  seq.isRecomputeReplay && decide (seq.numPromptTokens ≤ seq.numPrefilledTokens)

/-- `replay_decode_token_count`. -/
def replayDecodeTokenCount (seq : Sequence Id) : ℤ := max 0 (seq.numCompletionTokens - 1)

/-- `decode_input_token`. -/
def decodeInputToken (seq : Sequence Id) : Except PyError ℤ :=
  if seq.isRecomputeDecode = false then
    match seq.lastToken with
    | none => .error (.runtimeError "Decode input token is missing")
    | some token => .ok token
  else
    let cursor := seq.recomputeReplayCursor.getD 0
    if seq.replayDecodeTokenCount ≤ cursor then
      .error (.runtimeError "Recompute replay cursor is past the accepted decode history")
    else if seq.numPromptTokens + cursor < seq.tokenIds.length then
      .ok (seq.tokenIds.getD (seq.numPromptTokens + cursor).toNat 0)
    else
      match seq.lastToken with
      | none => .error (.runtimeError "Replay decode input token is missing")
      | some token => .ok token

/-- `decode_input_position`. -/
def decodeInputPosition (seq : Sequence Id) : ℤ :=
  let position :=
    if seq.isRecomputeDecode then seq.numPromptTokens + seq.recomputeReplayCursor.getD 0
    else seq.numTokens - 1
  position + seq.multimodalPositionDelta

/-- `should_publish_sample`. -/
def shouldPublishSample (seq : Sequence Id) : Bool := !seq.isRecomputeReplay

/-- `is_last_chunk_prefill`. -/
def isLastChunkPrefill (seq : Sequence Id) : Except PyError Bool :=
  match seq.currentChunkSize with
  | none => .error (.typeError "unsupported operand type(s) for +: 'int' and 'NoneType'")
  | some chunkSize => .ok (decide (seq.numPromptTokens ≤ seq.numPrefilledTokens + chunkSize))

/-- The tokens of a chunk, as `_prepare_prefill` and `record_step_tokens` select
them. -/
def chunkTokens (chunkSize : ℤ) (seq : Sequence Id) : List ℤ :=
  if chunkSize < seq.tokenIds.length then
    pySlice seq.tokenIds seq.numPrefilledTokens (seq.numPrefilledTokens + chunkSize)
  else seq.tokenIds

/-- `append_token`. -/
def appendToken (token : ℤ) (seq : Sequence Id) : Sequence Id :=
  { seq with
    tokenIds := seq.tokenIds ++ [token]
    lastToken := some token
    numTokens := seq.numTokens + 1 }

/-- `clear_prefix_cache_hit`. -/
def clearPrefixCacheHit (seq : Sequence Id) : Sequence Id :=
  { seq with
    prefixCacheEnabled := false
    prefixCacheHitLen := 0
    prefixCacheHitBlockCount := 0
    prefixCacheHitLastBlockId := none
    prefixCacheBlockSize := 0
    prefixCacheMethod := "" }

/-- `start_recompute_replay`. -/
def startRecomputeReplay (seq : Sequence Id) : Except PyError (Sequence Id) :=
  if seq.numCompletionTokens ≤ 0 then
    .error (.runtimeError "Recompute replay requires at least one accepted completion token")
  else
    .ok (clearPrefixCacheHit { seq with
      recomputeReplayCursor := some 0
      decodeProgressCheckpoint := seq.numCompletionTokens
      numPrefilledTokens := 0
      currentChunkSize := none
      status := .waiting })

/-- `finish_recompute_replay`. -/
def finishRecomputeReplay (seq : Sequence Id) : Except PyError (Sequence Id) :=
  if seq.isRecomputeReplay = false then
    .error (.runtimeError "Sequence is not in recompute replay.")
  else
    .ok { seq with
      recomputeReplayCursor := none
      decodeProgressCheckpoint := seq.numCompletionTokens }

/-- `advance_recompute_replay`. -/
def advanceRecomputeReplay (seq : Sequence Id) : Except PyError (Sequence Id) :=
  if seq.isRecomputeDecode = false then
    .error (.runtimeError "Sequence is not replaying decode tokens.")
  else
    let cursor := seq.recomputeReplayCursor.getD 0 + 1
    let advanced := { seq with recomputeReplayCursor := some cursor }
    if advanced.replayDecodeTokenCount ≤ cursor then advanced.finishRecomputeReplay
    else .ok advanced

/-! ## Sequences on other ranks

A scheduled sequence is pickled for the other ranks. -/

/-- The fields that are sent as they are. -/
def sentFields (seq : Sequence Id) : Sequence Id :=
  { seq with tokenIds := [], numPendingOutputs := 0, lastToken := none, promptTokens := none }

/-- `num_completion_tokens == 0 or is_recompute_prefill`. -/
def sendsChunk (seq : Sequence Id) : Bool := decide (seq.numCompletionTokens = 0) || seq.isRecomputePrefill

/-- The tuple of `__getstate__`.  Its fields tell whether `data` is a chunk or
one token. -/
inductive State (Id : Type) where
  | chunk (fields : Sequence Id) (sends : fields.sendsChunk = true) (data : List ℤ)
  | token (fields : Sequence Id) (sends : ¬ fields.sendsChunk = true) (data : Option ℤ)

/-- `data` of a chunk. -/
def chunkData (seq : Sequence Id) : List ℤ :=
  let chunkSize := seq.currentChunkSize.getD seq.numPromptTokens
  let sliced := pySlice seq.tokenIds seq.numPrefilledTokens (seq.numPrefilledTokens + chunkSize)
  if seq.numPrefilledTokens = 0 ∧ chunkSize = seq.numPromptTokens then seq.promptTokens.getD sliced else sliced

/-- `__getstate__`. -/
def getState (seq : Sequence Id) : Except PyError (State Id) :=
  if hsends : seq.sendsChunk = true then .ok (.chunk seq.sentFields hsends seq.chunkData)
  else
    (if seq.isRecomputeDecode then seq.decodeInputToken.map some else .ok seq.lastToken).map
      (.token seq.sentFields hsends)

/-- `__setstate__`. -/
def setState : State Id → Sequence Id
  | .chunk fields _ data =>
      let whole := fields.numPrefilledTokens = 0 ∧ data.length = fields.numPromptTokens
      { fields with
        tokenIds := data
        lastToken := data.getLast?
        promptTokens := if whole then some data else none }
  | .token fields _ data => { fields with lastToken := data }

/-- The sequence as another rank has it. -/
def onRank (seq : Sequence Id) : Except PyError (Sequence Id) := seq.getState.map setState

end Sequence
