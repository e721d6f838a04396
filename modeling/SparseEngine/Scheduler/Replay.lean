import SparseEngine.Scheduler.Postprocess

/-!
# Recompute replay over whole runs

A run admits requests, takes steps and aborts requests.  A step schedules a
batch, feeds the model and postprocesses the sampled tokens.  Beside the
scheduler a run keeps a log of the last replay of every sequence: the sequence
as it was preempted, and the tokens fed since, with their positions.

* **The log** (`Faithful`).  A preemption starts it anew
  (`Faithful.restarted`), a chunk or a fed token of the replay extends it
  (`Faithful.afterPrefill`, `Faithful.afterDecode`), and nothing else touches
  it (`Faithful.rescheduled`).
* **The tokens** (`Extends`).  Accepted tokens stay, and none is accepted
  during a replay.
* **A step** (`step_wellkept`).  `Settled` says what `schedule` may do to a
  sequence, whether it returns or raises, and `Processed` what `postprocess`
  may.
-/

namespace Sequence

variable {Id : Type}

/-- What one prefill step feeds: the tokens of the chunk at
`np.arange(start_idx, end_idx)`. -/
def prefillInputs (seq : Sequence Id) : Except PyError (List (ℤ × ℤ)) :=
  match seq.currentChunkSize with
  | none => .error (.typeError "unsupported operand type(s) for +: 'int' and 'NoneType'")
  | some chunkSize =>
      let tokens := seq.chunkTokens chunkSize
      if (tokens.length : ℤ) = chunkSize then
        .ok (tokens.mapIdx fun i token => (token, seq.numPrefilledTokens + i))
      else .error (.valueError "could not broadcast input array")

/-- What one decode step feeds. -/
def decodeInputs (seq : Sequence Id) : Except PyError (List (ℤ × ℤ)) :=
  match seq.decodeInputToken with
  | .error error => .error error
  | .ok token => .ok [(token, seq.decodeInputPosition)]

/-- What a step feeds for one sequence of the batch. -/
def stepInputs (isPrefill : Bool) (seq : Sequence Id) : Except PyError (List (ℤ × ℤ)) :=
  if isPrefill then seq.prefillInputs else seq.decodeInputs

/-- The tokens whose KV a replay rebuilds: the prompt, and all but the last
accepted token. -/
def replayTokens (seq : Sequence Id) : List ℤ :=
  seq.promptTokenIds ++ seq.completionTokenIds.dropLast

/-- The inputs of one uninterrupted replay.  The decode tokens of a multimodal
request are shifted. -/
def replayInputs (seq : Sequence Id) : List (ℤ × ℤ) :=
  seq.replayTokens.mapIdx fun i token =>
    (token, if (i : ℤ) < seq.numPromptTokens then (i : ℤ) else i + seq.multimodalPositionDelta)

/-- The sequence has lost the progress it had. -/
def startsOver (before after : Sequence Id) : Bool :=
  decide (0 < before.numPrefilledTokens ∧ after.numPrefilledTokens = 0)

end Sequence

/-- The last replay of a sequence: how it was preempted, and what was fed
since. -/
structure ReplayLog (Id : Type) where
  preempted : Sequence Id
  fed : List (ℤ × ℤ)

/-- The log after the model was fed for the sequence. -/
def Sequence.noteFed {Id : Type} (isPrefill : Bool) (seq : Sequence Id)
    (log : Option (ReplayLog Id)) : Option (ReplayLog Id) :=
  if seq.isRecomputeReplay then
    log.map fun replay =>
      match seq.stepInputs isPrefill with
      | .error _ => replay
      | .ok inputs => { replay with fed := replay.fed ++ inputs }
  else log

/-- The scheduler, and the log of every sequence's last replay. -/
structure Generation (Id Env : Type) where
  scheduler : Scheduler Id Env
  logs : ℕ → Option (ReplayLog Id)

/-- The steps of a run. -/
inductive GenerationOp (Id Env : Type) where
  /-- A request is admitted; one of a chain reuses tokens. -/
  | admitRequest (seqId : ℕ) (request : Sequence Id) (chainReuse : Option ℕ)
  | step (sampled : ℕ → ℤ) (retainFinished : Bool)
  | abort (seqIds : List ℕ)
  /-- Another part of the engine changes its own state. -/
  | elsewhere (env : Env)

namespace Generation

open Routine Scheduler

variable {Id Env Key Resource : Type} [DecidableEq Key] [DecidableEq Resource]

/-- A sequence as `admit_request` hands it to the scheduler. -/
def admitted (request : Sequence Id) (chainReuse : Option ℕ) : Sequence Id :=
  { Sequence.new request.tokenIds request.maxTokens request.ignoreEos request.eosTokenIds with
    numPrefilledTokens := chainReuse.getD 0
    prefixCacheEnabled := chainReuse.isSome
    prefixCacheHitLen := chainReuse.getD 0
    multimodalPositionDelta := request.multimodalPositionDelta }

/-- The logs after a call of `schedule`. -/
def noteRestarts (before after : Scheduler Id Env) (logs : ℕ → Option (ReplayLog Id)) :
    ℕ → Option (ReplayLog Id) := fun seqId =>
  if Sequence.startsOver (before.seq seqId) (after.seq seqId) then
    some ⟨before.seq seqId, []⟩
  else logs seqId

/-- The logs after the model was fed. -/
def noteInputs (batch : ScheduleResult) (scheduler : Scheduler Id Env)
    (logs : ℕ → Option (ReplayLog Id)) : ℕ → Option (ReplayLog Id) := fun seqId =>
  if seqId ∈ batch.seqs then (scheduler.seq seqId).noteFed batch.isPrefill (logs seqId)
  else logs seqId

/-- Whether the model can be fed. -/
def fedAll (batch : ScheduleResult) (scheduler : Scheduler Id Env) : Bool :=
  batch.seqs.all fun seqId => ((scheduler.seq seqId).stepInputs batch.isPrefill).toBool

section

variable (config : SchedulerConfig) (oracle : MemoryOracle Id Env Key Resource)
  (callbacks : SchedulerCallbacks Id Env) (completePrefillExecution : ℕ → Hook Id Env Unit)
  (eosTokenIds : List ℤ)

/-- One step of a run. -/
def exec (generation : Generation Id Env) : GenerationOp Id Env → Generation Id Env
  | .admitRequest seqId request chainReuse =>
      let scheduler := generation.scheduler
      let reusedTokens := chainReuse.getD 0
      -- the engine hands every id out once, and a resumed chain brings new tokens
      if seqId ∈ scheduler.waiting ++ scheduler.decoding ∨
          0 < reusedTokens ∧ request.tokenIds.length ≤ reusedTokens then generation
      else
        { scheduler := (add callbacks.monotonic seqId
            (setSeq seqId (fun _ => admitted request chainReuse) scheduler)).2
          logs := Function.update generation.logs seqId none }
  | .step sampled retainFinished =>
      let (result, next) := schedule config oracle callbacks generation.scheduler
      let logs := noteRestarts generation.scheduler next generation.logs
      match result with
      | .error _ => { scheduler := next, logs := logs }
      | .ok batch =>
          if fedAll batch next = false then { scheduler := next, logs := logs }
          else
            { scheduler := (postprocess completePrefillExecution callbacks.monotonic eosTokenIds
                retainFinished batch.isPrefill
                (batch.seqs.map fun seqId => (seqId, sampled seqId)) next).2
              logs := noteInputs batch next logs }
  | .abort seqIds =>
      { generation with scheduler :=
          (abortMany oracle.resetPrefillExecutionState seqIds generation.scheduler).2 }
  | .elsewhere env =>
      { generation with scheduler := { generation.scheduler with
          world := { generation.scheduler.world with env := env } } }

/-- A run. -/
def run (start : Generation Id Env) (ops : List (GenerationOp Id Env)) : Generation Id Env :=
  ops.foldl (exec config oracle callbacks completePrefillExecution eosTokenIds) start

end

/-- The engine before its first request. -/
def fresh (env : Env) (now : ℚ) : Generation Id Env where
  scheduler :=
    { waiting := []
      decoding := []
      skippedPrefill := []
      phase := .prefill
      prefillWaitSince := Dict.empty
      phaseStartedAt := now
      phaseReason := "prefill_priority"
      admissionDeferWarnedSeqIds := ∅
      totalPreemptions := 0
      totalRecomputeReplays := 0
      asyncInflight := 0
      world := ⟨fun _ => Sequence.new [] 0 false [], env⟩ }
  logs _ := none

end Generation

/-! ## What one step feeds -/

namespace Sequence

variable {Id : Type}

/-- The log says how far the replay has come: while it runs, a proper prefix of
its inputs has been fed and nothing was accepted; afterwards all of them have
been fed. -/
structure Faithful (log : Option (ReplayLog Id)) (seq : Sequence Id) : Prop where
  running : ∀ cursor, seq.recomputeReplayCursor = some cursor →
    ∃ replay, log = some replay ∧ replay.preempted.history = seq.history ∧
      replay.fed = replay.preempted.replayInputs.take (seq.numPrefilledTokens + cursor).toNat ∧
      (seq.numPrefilledTokens + cursor).toNat < replay.preempted.replayInputs.length
  ended : seq.recomputeReplayCursor = none → ∀ replay, log = some replay →
    replay.fed = replay.preempted.replayInputs ∧ replay.preempted.tokenIds <+: seq.tokenIds

theorem replayTokens_eq {seq : Sequence Id} (h : seq.Counted) (hpos : 0 < seq.numCompletionTokens) :
    seq.replayTokens = seq.tokenIds.dropLast := by
  have hlength := h.numTokens_eq
  have hprompt := h.prompt_nonneg
  unfold numCompletionTokens at hpos
  have hprompts : seq.promptTokenIds = seq.tokenIds.take seq.numPromptTokens.toNat := by
    unfold promptTokenIds
    rw [h.promptTokens_eq, Option.getD_some]
  have hcompletions : seq.completionTokenIds = seq.tokenIds.drop seq.numPromptTokens.toNat := by
    unfold completionTokenIds
    rw [pySlice_of_nonneg hprompt (Int.natCast_nonneg _), Int.toNat_natCast, List.take_length]
  have hsome : seq.tokenIds.drop seq.numPromptTokens.toNat ≠ [] := by
    rw [Ne, List.drop_eq_nil_iff]
    omega
  calc seq.replayTokens
      = seq.tokenIds.take seq.numPromptTokens.toNat ++ (seq.tokenIds.drop seq.numPromptTokens.toNat).dropLast := by
        unfold replayTokens
        rw [hprompts, hcompletions]
    _ = (seq.tokenIds.take seq.numPromptTokens.toNat ++ seq.tokenIds.drop seq.numPromptTokens.toNat).dropLast :=
        (List.dropLast_append_of_ne_nil hsome).symm
    _ = seq.tokenIds.dropLast := by rw [List.take_append_drop]

theorem replayInputs_congr {seq other : Sequence Id} (h : other.history = seq.history) :
    other.replayInputs = seq.replayInputs := by
  obtain ⟨hids, _, hprompt, _, _, _, hprompts, hdelta, _⟩ := history_eq_iff.mp h
  unfold replayInputs replayTokens promptTokenIds completionTokenIds
  rw [hids, hprompt, hprompts, hdelta]

theorem replayInputs_length {seq : Sequence Id} (h : seq.Counted) (hpos : 0 < seq.numCompletionTokens) :
    (seq.replayInputs.length : ℤ) = seq.numPromptTokens + (seq.numCompletionTokens - 1) := by
  have hlength := h.numTokens_eq
  have hprompt := h.prompt_nonneg
  unfold replayInputs
  rw [List.length_mapIdx, replayTokens_eq h hpos, List.length_dropLast]
  unfold numCompletionTokens at hpos ⊢
  omega

theorem replayInputs_getElem? {seq : Sequence Id} (h : seq.Counted) (hpos : 0 < seq.numCompletionTokens) {i : ℕ}
    (hi : (i : ℤ) < seq.numPromptTokens + (seq.numCompletionTokens - 1)) :
    seq.replayInputs[i]? = some (seq.tokenIds.getD i 0,
      if (i : ℤ) < seq.numPromptTokens then (i : ℤ) else i + seq.multimodalPositionDelta) := by
  have hlength := h.numTokens_eq
  unfold numCompletionTokens at hi hpos
  have hlt : i < seq.tokenIds.length - 1 := by omega
  unfold replayInputs
  rw [List.getElem?_mapIdx, replayTokens_eq h hpos, List.getElem?_dropLast, if_pos hlt,
    List.getD_eq_getElem?_getD, List.getElem?_eq_getElem (by omega : i < seq.tokenIds.length)]
  rfl

variable [PrefixReuse] {chunkSize cursor : ℤ} {later : Sequence Id} {log : Option (ReplayLog Id)}
  {isPrefill : Bool}

/-- The tokens of a chunk that stays within the prompt. -/
theorem chunkTokens_eq {seq : Sequence Id} (hwell : seq.Wellformed) (hpos : 0 < chunkSize)
    (hle : seq.numPrefilledTokens + chunkSize ≤ seq.numPromptTokens) :
    seq.chunkTokens chunkSize = (seq.tokenIds.take (seq.numPrefilledTokens + chunkSize).toNat).drop
      seq.numPrefilledTokens.toNat ∧ ((seq.chunkTokens chunkSize).length : ℤ) = chunkSize := by
  have hnonneg := hwell.prefilled_nonneg
  have hlength := hwell.counted.numTokens_eq
  have htotal := hwell.counted.prompt_le
  have htokens : seq.chunkTokens chunkSize = (seq.tokenIds.take (seq.numPrefilledTokens + chunkSize).toNat).drop
      seq.numPrefilledTokens.toNat := by
    unfold chunkTokens
    split
    · exact pySlice_of_nonneg hnonneg (by omega)
    · rw [List.take_of_length_le (by omega), (by omega : seq.numPrefilledTokens.toNat = 0), List.drop_zero]
  refine ⟨htokens, ?_⟩
  rw [htokens, List.length_drop, List.length_take]
  omega

omit [PrefixReuse] in
theorem prefillInputs_eq {seq : Sequence Id} {tokens : List ℤ}
    (hchunk : seq.currentChunkSize = some chunkSize) (htokens : seq.chunkTokens chunkSize = tokens)
    (hsize : (tokens.length : ℤ) = chunkSize) :
    seq.prefillInputs = .ok (tokens.mapIdx fun i token => (token, seq.numPrefilledTokens + i)) := by
  rw [prefillInputs, hchunk, ← htokens]
  exact if_pos (htokens ▸ hsize)

/-- A chunk of a replay. -/
theorem prefillInputs_of_rebuilding {seq : Sequence Id} (hwell : seq.Wellformed)
    (hrebuilding : seq.Rebuilding) (hchunk : seq.currentChunkSize = some chunkSize)
    (hpos : 0 < chunkSize) (hle : seq.numPrefilledTokens + chunkSize ≤ seq.numPromptTokens) :
    seq.prefillInputs = .ok ((seq.replayInputs.take
      (seq.numPrefilledTokens + chunkSize).toNat).drop seq.numPrefilledTokens.toNat) := by
  have hcounted := hwell.counted
  have hnonneg := hwell.prefilled_nonneg
  have hlength := hcounted.numTokens_eq
  have hcompletion := hrebuilding.completion_pos
  have htotal : seq.numTokens = seq.numPromptTokens + seq.numCompletionTokens := by
    unfold numCompletionTokens
    omega
  obtain ⟨htokens, hsize⟩ := chunkTokens_eq hwell hpos hle
  rw [prefillInputs_eq hchunk rfl hsize, htokens]
  congr 1
  apply List.ext_getElem?
  intro i
  rw [List.getElem?_mapIdx, List.getElem?_drop, List.getElem?_take, List.getElem?_drop, List.getElem?_take]
  split
  · next hlt =>
    have hindex : seq.numPrefilledTokens.toNat + i < seq.tokenIds.length := by omega
    rw [replayInputs_getElem? hcounted hcompletion (by omega), if_pos (by omega),
      List.getD_eq_getElem?_getD, List.getElem?_eq_getElem hindex, Option.map_some,
      Option.getD_some]
    congr 2
    omega
  · rfl

/-- A token of a replay that is past its prompt. -/
theorem decodeInputs_of_replaying {seq : Sequence Id} (hwell : seq.Wellformed)
    (hdecoding : seq.Decoding) (hcursor : seq.recomputeReplayCursor = some cursor) :
    ∃ input, seq.decodeInputs = .ok [input] ∧
      seq.replayInputs[(seq.numPrefilledTokens + cursor).toNat]? = some input := by
  obtain ⟨hpending, hnonneg, hlt⟩ := hdecoding.replaying cursor hcursor
  have hcounted := hwell.counted
  have hlength := hcounted.numTokens_eq
  have hprompt := hdecoding.prompt_pos
  have hprefilled := hdecoding.prefilled_eq
  have htotal : seq.numTokens = seq.numPromptTokens + seq.numCompletionTokens := by
    unfold numCompletionTokens
    omega
  have hdecode : seq.isRecomputeDecode = true := by
    simp [isRecomputeDecode, isRecomputeReplay, hcursor, hprefilled]
  refine ⟨(seq.tokenIds.getD (seq.numPromptTokens + cursor).toNat 0,
    seq.numPromptTokens + cursor + seq.multimodalPositionDelta), ?_, ?_⟩
  · have htoken : seq.decodeInputToken = .ok (seq.tokenIds.getD (seq.numPromptTokens + cursor).toNat 0) := by
      unfold decodeInputToken
      rw [if_neg (by simp [hdecode])]
      dsimp only
      rw [hcursor, Option.getD_some, if_neg, if_pos (by omega)]
      unfold replayDecodeTokenCount
      omega
    unfold decodeInputs
    rw [htoken]
    unfold decodeInputPosition
    rw [if_pos hdecode, hcursor, Option.getD_some]
  · rw [hprefilled, replayInputs_getElem? hcounted (by omega) (by omega)]
    congr 2
    rw [if_neg (by omega)]
    omega

/-- A decoding sequence has its next input. -/
theorem decodeInputToken_isOk {seq : Sequence Id} (hwell : seq.Wellformed) (hdecoding : seq.Decoding) :
    ∃ token, seq.decodeInputToken = .ok token := by
  cases hcursor : seq.recomputeReplayCursor with
  | some cursor =>
      obtain ⟨input, hinputs, _⟩ := decodeInputs_of_replaying hwell hdecoding hcursor
      unfold decodeInputs at hinputs
      cases htoken : seq.decodeInputToken with
      | ok token => exact ⟨token, rfl⟩
      | error error =>
          rw [htoken] at hinputs
          exact nomatch hinputs
  | none =>
      have hcounted := hwell.counted
      have hlength := hcounted.numTokens_eq
      have hprompt := hdecoding.prompt_pos
      have hle := hcounted.prompt_le
      have hsome : seq.tokenIds ≠ [] := by
        intro hnil
        rw [hnil, List.length_nil] at hlength
        omega
      refine ⟨seq.tokenIds.getLast hsome, ?_⟩
      unfold decodeInputToken
      rw [if_pos (by simp [isRecomputeDecode, isRecomputeReplay, hcursor]), hcounted.lastToken_eq,
        List.getLast?_eq_some_getLast hsome]

/-! ## What other ranks feed -/

variable {seq : Sequence Id}

/-- Another rank reads the same input of its copy. -/
def FedAlike (isPrefill : Bool) (seq : Sequence Id) : Prop :=
  ∃ copy inputs, seq.onRank = .ok copy ∧ copy.sentFields = seq.sentFields ∧
    copy.stepInputs isPrefill = .ok inputs ∧ seq.stepInputs isPrefill = .ok inputs

/-- A chunk on another rank. -/
theorem Chunked.fedAlike (hchunked : seq.Chunked) (hwell : seq.Wellformed) : seq.FedAlike true := by
  obtain ⟨chunkSize, hchunk, hpos, hle⟩ := id hchunked
  have hnonneg := hwell.prefilled_nonneg
  obtain ⟨htokens, hsize⟩ := chunkTokens_eq hwell hpos hle
  have hdata : seq.chunkTokens chunkSize = seq.chunkData := by
    simp only [htokens, chunkData, hchunk, hwell.counted.promptTokens_eq, Option.getD_some,
      @pySlice_of_nonneg _ seq.tokenIds _ (seq.numPrefilledTokens + chunkSize) hnonneg (by omega)]
    split
    · next hwhole => rw [hwhole.1, hwhole.2, Int.zero_add, Int.toNat_zero, List.drop_zero]
    · rfl
  rw [hdata] at hsize
  have hsends : seq.sendsChunk = true := by
    rcases hchunked.prefilling hwell with hprompting | hrebuilding
    · simp [sendsChunk, hprompting.completion_eq]
    · simp [sendsChunk, isRecomputePrefill, isRecomputeReplay, hrebuilding.cursor_eq, hrebuilding.prefilled_lt]
  refine ⟨setState (.chunk seq.sentFields hsends seq.chunkData), _, ?_, rfl,
    prefillInputs_eq hchunk (if_neg hsize.not_gt) hsize, prefillInputs_eq hchunk hdata hsize⟩
  rw [onRank, getState, dif_pos hsends]
  rfl

/-- A decode token on another rank. -/
theorem Decoding.fedAlike (hdecoding : seq.Decoding) (hwell : seq.Wellformed)
    (hpending : seq.numPendingOutputs = 0) : seq.FedAlike false := by
  have houtput := hdecoding.output_pos
  have hprompt := hdecoding.prompt_pos
  have hsends : ¬ seq.sendsChunk = true := by
    have hcompletion : seq.numCompletionTokens ≠ 0 := by omega
    simp [sendsChunk, isRecomputePrefill, hdecoding.prefilled_eq, hcompletion]
  obtain ⟨token, htoken⟩ := decodeInputToken_isOk hwell hdecoding
  have hcopy : ({ seq.sentFields with lastToken := some token } : Sequence Id).decodeInputToken = .ok token := by
    rcases hcursor : seq.recomputeReplayCursor with - | cursor
    · simp [decodeInputToken, isRecomputeDecode, isRecomputeReplay, sentFields, hcursor]
    · obtain ⟨-, hnonneg, hlt⟩ := hdecoding.replaying cursor hcursor
      rw [numCompletionTokens] at hlt
      have hwithin : ¬ seq.numTokens ≤ cursor + 1 + seq.numPromptTokens := by omega
      have hbehind : ¬ seq.numPromptTokens + cursor < 0 := by omega
      simp [decodeInputToken, isRecomputeDecode, isRecomputeReplay, replayDecodeTokenCount, numCompletionTokens,
        sentFields, hcursor, hdecoding.prefilled_eq, hwithin, hbehind]
  refine ⟨{ seq.sentFields with lastToken := some token }, [(token, seq.decodeInputPosition)], ?_, rfl, ?_, ?_⟩
  · rw [onRank, getState, dif_neg hsends]
    split
    · rw [htoken]; rfl
    · next hdecode =>
      rw [decodeInputToken, if_pos (Bool.eq_false_of_not_eq_true hdecode)] at htoken
      split at htoken
      · cases htoken
      · next hlast => rw [hlast, ← Except.ok.inj htoken]; rfl
  · rw [stepInputs, if_neg Bool.false_ne_true, decodeInputs, hcopy]; rfl
  · rw [stepInputs, if_neg Bool.false_ne_true, decodeInputs, htoken]

/-! ## The log is right -/

theorem Rescheduled.startsOver_eq {seq : Sequence Id} (h : seq.Rescheduled later) :
    startsOver seq later = false := by
  unfold startsOver
  rw [decide_eq_false_iff_not]
  rcases h.progress with ⟨_, hprefilled⟩ | ⟨_, _, hzero⟩ <;> omega

theorem Restarted.startsOver_eq {seq : Sequence Id} (h : seq.Restarted later) :
    startsOver seq later = true := by
  have hpos := h.decoding.prompt_pos
  have hprefilled := h.decoding.prefilled_eq
  unfold startsOver
  rw [decide_eq_true_eq]
  exact ⟨by omega, h.prefilled_eq⟩

omit [PrefixReuse] in
/-- A sequence that was never preempted. -/
theorem Faithful.unlogged {seq : Sequence Id} (hcursor : seq.recomputeReplayCursor = none) :
    Faithful none seq := by
  constructor
  · intro cursor hsome
    rw [hcursor] at hsome
    exact nomatch hsome
  · exact fun _ replay hlog => nomatch hlog

theorem Faithful.rescheduled {seq : Sequence Id} (h : Faithful log seq)
    (hmove : seq.Rescheduled later) : Faithful log later := by
  have hhistory := hmove.history_eq
  obtain ⟨hids, _⟩ := history_eq_iff.mp hhistory
  rcases hmove.progress with ⟨hcursor, hprefilled⟩ | ⟨hbefore, hafter, _⟩
  · constructor
    · rw [hcursor, hprefilled, hhistory]
      exact h.running
    · rw [hcursor, hids]
      exact h.ended
  · constructor
    · rw [hafter]
      exact fun cursor hcursor => nomatch hcursor
    · rw [hids]
      exact fun _ => h.ended hbefore

/-- A preemption: nothing has been fed yet. -/
theorem Faithful.restarted {seq : Sequence Id} (hwell : seq.Wellformed)
    (hpending : seq.numPendingOutputs = 0) (hmove : seq.Restarted later) :
    Faithful (some ⟨seq, []⟩) later := by
  have hpos := hmove.decoding.prompt_pos
  have houtput := hmove.decoding.output_pos
  have hlength := replayInputs_length hwell.counted (by omega)
  constructor
  · intro cursor hcursor
    obtain rfl := Option.some.inj (hmove.cursor_eq.symm.trans hcursor)
    refine ⟨_, rfl, hmove.history_eq.symm, ?_, ?_⟩
    · rw [hmove.prefilled_eq]
      exact List.take_zero.symm
    · rw [hmove.prefilled_eq]
      show 0 < seq.replayInputs.length
      omega
  · intro hnone
    rw [hmove.cursor_eq] at hnone
    exact nomatch hnone

section

omit [PrefixReuse]

/-- Between a preemption and the end of its replay nothing is accepted, so the
log's inputs are those of the sequence. -/
theorem Faithful.replaying {seq : Sequence Id} (h : Faithful log seq)
    (hcursor : seq.recomputeReplayCursor = some cursor) :
    ∃ replay, log = some replay ∧ replay.preempted.history = seq.history ∧
      replay.preempted.replayInputs = seq.replayInputs ∧
      replay.fed = seq.replayInputs.take (seq.numPrefilledTokens + cursor).toNat := by
  obtain ⟨replay, hlog, hhistory, hfed, _⟩ := h.running cursor hcursor
  have hinputs := replayInputs_congr hhistory
  exact ⟨replay, hlog, hhistory, hinputs, hinputs ▸ hfed⟩

/-- A step of a replay feeds the inputs that follow, and either more are left or
the replay ends. -/
theorem faithful_of_progress {seq : Sequence Id} {inputs : List (ℤ × ℤ)} (h : Faithful log seq)
    (hcursor : seq.recomputeReplayCursor = some cursor) (hinputs : seq.stepInputs isPrefill = .ok inputs) {fed : ℕ}
    (hfed : seq.replayInputs.take (seq.numPrefilledTokens + cursor).toNat ++ inputs =
      seq.replayInputs.take fed) (hhistory : later.history = seq.history)
    (hlater : (∃ next, later.recomputeReplayCursor = some next ∧
        (later.numPrefilledTokens + next).toNat = fed ∧ fed < seq.replayInputs.length) ∨
      (later.recomputeReplayCursor = none ∧ seq.replayInputs.length ≤ fed)) :
    Faithful (seq.noteFed isPrefill log) later := by
  obtain ⟨replay, rfl, hsame, hreplay, hbefore⟩ := h.replaying hcursor
  have hnote : seq.noteFed isPrefill (some replay) = some { replay with fed := seq.replayInputs.take fed } := by
    unfold noteFed
    rw [if_pos (by simp [isRecomputeReplay, hcursor]), Option.map_some, hinputs]
    dsimp only
    rw [hbefore, hfed]
  rw [hnote]
  obtain ⟨hids, _⟩ := history_eq_iff.mp (hsame.trans hhistory.symm)
  rcases hlater with ⟨next, hnext, rfl, hmore⟩ | ⟨hnone, hall⟩
  · refine ⟨fun other hother => ?_, fun hnone => ?_⟩
    · obtain rfl := Option.some.inj (hnext.symm.trans hother)
      refine ⟨_, rfl, hsame.trans hhistory.symm, ?_, ?_⟩
      · dsimp only
        rw [hreplay]
      · dsimp only
        rw [hreplay]
        exact hmore
    · rw [hnext] at hnone
      cases hnone
  · refine ⟨fun other hother => ?_, fun _ other hother => ?_⟩
    · rw [hnone] at hother
      cases hother
    · obtain rfl := Option.some.inj hother
      refine ⟨?_, ?_⟩
      · dsimp only
        rw [hreplay, List.take_of_length_le hall]
      · dsimp only
        rw [hids]

/-- A step of a sequence that replays nothing only extends its tokens. -/
theorem faithful_of_accepting {seq : Sequence Id} (h : Faithful log seq)
    (hcursor : seq.recomputeReplayCursor = none) (hlater : later.recomputeReplayCursor = none)
    (htokens : seq.tokenIds <+: later.tokenIds) : Faithful (seq.noteFed isPrefill log) later := by
  have hnote : seq.noteFed isPrefill log = log :=
    if_neg (by simp [isRecomputeReplay, hcursor])
  rw [hnote]
  refine ⟨fun cursor hsome => ?_, fun _ replay hlog => ?_⟩
  · rw [hlater] at hsome
    cases hsome
  · obtain ⟨hfed, hprefix⟩ := h.ended hcursor replay hlog
    exact ⟨hfed, hprefix.trans htokens⟩

end

/-- **A prefill step.** -/
theorem Faithful.afterPrefill {seq : Sequence Id} (h : Faithful log seq) (hwell : seq.Wellformed)
    (hchunk : seq.currentChunkSize = some chunkSize) (hpos : 0 < chunkSize)
    (hle : seq.numPrefilledTokens + chunkSize ≤ seq.numPromptTokens) (token : ℤ) :
    Faithful (seq.noteFed true log) (seq.afterPrefill chunkSize token) := by
  have hnonneg := hwell.prefilled_nonneg
  rcases hwell.prefilling (by omega) with hprompting | hrebuilding
  · -- the prompt of a request that was never preempted
    have hcursor := hprompting.cursor_eq
    rcases Int.lt_or_eq_of_le hle with hlt | heq
    · rw [afterPrefill_of_lt hlt]
      exact faithful_of_accepting h hcursor hcursor (List.prefix_refl _)
    · rw [afterPrefill_of_prompting heq hprompting]
      exact faithful_of_accepting h hcursor hcursor (List.prefix_append _ _)
  · have hcursor := hrebuilding.cursor_eq
    have hcompletion := hrebuilding.completion_pos
    have hlength := replayInputs_length hwell.counted hcompletion
    have hinputs := prefillInputs_of_rebuilding hwell hrebuilding hchunk hpos hle
    have hfed : seq.replayInputs.take (seq.numPrefilledTokens + 0).toNat ++
        (seq.replayInputs.take (seq.numPrefilledTokens + chunkSize).toNat).drop seq.numPrefilledTokens.toNat =
        seq.replayInputs.take (seq.numPrefilledTokens + chunkSize).toNat := by
      have hsplit := List.take_append_drop seq.numPrefilledTokens.toNat
        (seq.replayInputs.take (seq.numPrefilledTokens + chunkSize).toNat)
      rw [List.take_take, Nat.min_eq_left (by omega)] at hsplit
      rw [Int.add_zero]
      exact hsplit
    have hstep : seq.stepInputs true = .ok ((seq.replayInputs.take
        (seq.numPrefilledTokens + chunkSize).toNat).drop seq.numPrefilledTokens.toNat) := hinputs
    rcases Int.lt_or_eq_of_le hle with hlt | heq
    · rw [afterPrefill_of_lt hlt]
      refine faithful_of_progress h hcursor hstep hfed rfl (.inl ⟨0, hcursor, ?_, by omega⟩)
      rw [Int.add_zero]
    · rw [afterPrefill_of_rebuilding heq hrebuilding]
      split
      · -- one completion token: the replay ends with its prompt
        exact faithful_of_progress h hcursor hstep hfed rfl (.inr ⟨rfl, by omega⟩)
      · refine faithful_of_progress h hcursor hstep hfed rfl (.inl ⟨0, hcursor, ?_, by omega⟩)
        rw [Int.add_zero, heq]

/-- **A decode step.** -/
theorem Faithful.afterDecode {seq : Sequence Id} (h : Faithful log seq) (hwell : seq.Wellformed)
    (hdecoding : seq.Decoding) (token : ℤ) :
    Faithful (seq.noteFed false log) (seq.afterDecode token) := by
  unfold Sequence.afterDecode
  cases hcursor : seq.recomputeReplayCursor with
  | none =>
      rw [if_neg (by simp [isRecomputeDecode, isRecomputeReplay, hcursor])]
      exact faithful_of_accepting h hcursor hcursor (List.prefix_append _ _)
  | some cursor =>
      obtain ⟨hpending, hnonneg, hlt⟩ := hdecoding.replaying cursor hcursor
      have hprefilled := hdecoding.prefilled_eq
      have hprompt := hdecoding.prompt_pos
      have hlength := replayInputs_length hwell.counted (by omega)
      obtain ⟨input, hinputs, hindex⟩ := decodeInputs_of_replaying hwell hdecoding hcursor
      have hfed : seq.replayInputs.take (seq.numPrefilledTokens + cursor).toNat ++ [input] =
          seq.replayInputs.take (seq.numPrefilledTokens + (cursor + 1)).toNat := by
        have hnext : (seq.numPrefilledTokens + (cursor + 1)).toNat =
            (seq.numPrefilledTokens + cursor).toNat + 1 := by omega
        rw [hnext, List.take_add_one, hindex]
        rfl
      have hdecode : seq.isRecomputeDecode = true := by
        simp [isRecomputeDecode, isRecomputeReplay, hcursor, hprefilled]
      rw [if_pos hdecode]
      dsimp only [Option.getD_some]
      split
      · next hlast =>
        change max 0 (seq.numCompletionTokens - 1) ≤ cursor + 1 at hlast
        exact faithful_of_progress h hcursor hinputs hfed rfl (.inr ⟨rfl, by omega⟩)
      · next hmore =>
        change ¬ max 0 (seq.numCompletionTokens - 1) ≤ cursor + 1 at hmore
        exact faithful_of_progress h hcursor hinputs hfed rfl (.inl ⟨cursor + 1, rfl, rfl, by omega⟩)

omit [PrefixReuse] in
theorem afterPrefill_tokenIds (chunkSize token : ℤ) (seq : Sequence Id) :
    seq.tokenIds <+: (seq.afterPrefill chunkSize token).tokenIds ∧
      (seq.isRecomputeReplay = true → (seq.afterPrefill chunkSize token).tokenIds = seq.tokenIds) := by
  unfold Sequence.afterPrefill
  dsimp only
  split
  · exact ⟨List.prefix_refl _, fun _ => rfl⟩
  split
  · split <;> exact ⟨List.prefix_refl _, fun _ => rfl⟩
  · next haccept => exact ⟨List.prefix_append _ _, fun hreplay => absurd hreplay haccept⟩

omit [PrefixReuse] in
theorem afterDecode_tokenIds {seq : Sequence Id} (hdecoding : seq.Decoding) (token : ℤ) :
    seq.tokenIds <+: (seq.afterDecode token).tokenIds ∧
      (seq.isRecomputeReplay = true → (seq.afterDecode token).tokenIds = seq.tokenIds) := by
  unfold Sequence.afterDecode
  split
  · dsimp only
    split <;> exact ⟨List.prefix_refl _, fun _ => rfl⟩
  · next haccept =>
    refine ⟨List.prefix_append _ _, fun hreplay => absurd ?_ haccept⟩
    simp [isRecomputeDecode, hreplay, hdecoding.prefilled_eq]

end Sequence

/-! ## Runs -/

namespace Generation

open Routine Scheduler

variable [PrefixReuse] {Id Env Key Resource : Type} [DecidableEq Key] [DecidableEq Resource]
  {ledger : Env → List (Sequence Id)} {config : SchedulerConfig}
  {oracle : MemoryOracle Id Env Key Resource} {callbacks : SchedulerCallbacks Id Env}
  {completePrefillExecution : ℕ → Hook Id Env Unit} {eosTokenIds : List ℤ}

/-- What holds between two steps of a run. -/
structure Wellkept (generation : Generation Id Env) : Prop where
  orderly : generation.scheduler.Orderly
  faithful : ∀ seqId, (generation.scheduler.seq seqId).Faithful (generation.logs seqId)

section

omit [DecidableEq Key] [DecidableEq Resource]

theorem fresh_wellkept (env : Env) (now : ℚ) : (fresh env now : Generation Id Env).Wellkept := by
  have hwell : (Sequence.new [] 0 false [] : Sequence Id).Wellformed :=
    ⟨⟨rfl, Int.le_refl 0, Int.le_refl 0, rfl, rfl, Int.le_refl 0⟩, Int.le_refl 0, Int.le_refl 0,
      .inr (Int.le_refl 0), .inl ⟨rfl, rfl, rfl, Int.le_refl 0⟩⟩
  refine ⟨⟨fun _ => hwell, fun _ hmem => absurd hmem List.not_mem_nil, List.nodup_nil,
    fun _ => rfl, rfl⟩, fun _ => .unlogged rfl⟩

theorem Settled.orderly {scheduler next : Scheduler Id Env} {victims : List ℕ}
    (h : Settled ledger scheduler victims next) (horderly : Orderly scheduler)
    (hnodup : (next.waiting ++ next.decoding).Nodup) : Orderly next := by
  have hseq : ∀ seqId, (next.seq seqId).history = (scheduler.seq seqId).history ∧ (next.seq seqId).Wellformed := by
    intro seqId
    by_cases hvictim : seqId ∈ victims
    · have hmove := h.restarted seqId hvictim
      exact ⟨hmove.history_eq, hmove.wellformed (horderly.wellformed seqId)⟩
    · have hmove := h.moves seqId hvictim
      exact ⟨hmove.history_eq, hmove.wellformed (horderly.wellformed seqId)⟩
  refine ⟨fun seqId => (hseq seqId).2, fun seqId hmem => ?_, hnodup, fun seqId => ?_,
    h.inflight_eq.trans horderly.inflight⟩
  · obtain ⟨hbefore, hother⟩ := h.queued seqId hmem
    exact (horderly.decoding seqId hbefore).rescheduled (h.moves seqId hother)
  · obtain ⟨_, _, _, hpending, _⟩ := Sequence.history_eq_iff.mp (hseq seqId).1
    exact hpending.trans (horderly.pending seqId)

end

/-- A call of `schedule` between two steps. -/
theorem schedule_orderly {scheduler : Scheduler Id Env} (h : Tame ledger oracle callbacks)
    (horderly : Orderly scheduler) :
    wpe (schedule config oracle callbacks)
      (fun batch next => Orderly next ∧ Batch batch.isPrefill batch.seqs next ∧ Scheduled ledger scheduler batch next)
      (fun next => Orderly next ∧ Halted ledger scheduler next) scheduler := by
  have hcall : wpe (schedule config oracle callbacks)
      (fun batch next => Scheduled ledger scheduler batch next ∧ Divided scheduler batch next)
      (fun next => Halted ledger scheduler next ∧
        (next.waiting ++ next.decoding).Perm (scheduler.waiting ++ scheduler.decoding))
      scheduler := schedule_divided h horderly.ready horderly.nodup
  refine wpe_imp hcall (fun batch next hnext => ?_) fun next hnext => ?_
  · obtain ⟨hscheduled, hdivided⟩ := hnext
    exact ⟨Settled.orderly hscheduled.settled horderly hdivided.nodup, hdivided.batch, hscheduled⟩
  · obtain ⟨⟨victims, hsettled⟩, hperm⟩ := hnext
    exact ⟨Settled.orderly hsettled horderly (hperm.nodup_iff.mpr horderly.nodup), victims, hsettled⟩

section

omit [DecidableEq Key] [DecidableEq Resource]

variable {scheduler next : Scheduler Id Env} {victims : List ℕ} {logs : ℕ → Option (ReplayLog Id)}
  {batch : ScheduleResult} {sampled : ℕ → ℤ}

section

variable (h : Settled ledger scheduler victims next)

include h

/-- A call of `schedule` accepts nothing, and the log of a preempted sequence
starts. -/
theorem Settled.faithful (horderly : Orderly scheduler)
    (hfaithful : ∀ seqId, (scheduler.seq seqId).Faithful (logs seqId)) (seqId : ℕ) :
    (next.seq seqId).Faithful (noteRestarts scheduler next logs seqId) := by
  unfold noteRestarts
  by_cases hvictim : seqId ∈ victims
  · have hmove := h.restarted seqId hvictim
    rw [if_pos hmove.startsOver_eq]
    exact .restarted (horderly.wellformed seqId) (horderly.pending seqId) hmove
  · have hmove := h.moves seqId hvictim
    rw [hmove.startsOver_eq, if_neg Bool.false_ne_true]
    exact (hfaithful seqId).rescheduled hmove

theorem Settled.tokenIds_eq (seqId : ℕ) :
    (next.seq seqId).tokenIds = (scheduler.seq seqId).tokenIds := by
  by_cases hvictim : seqId ∈ victims
  · exact (Sequence.history_eq_iff.mp (h.restarted seqId hvictim).history_eq).1
  · exact (Sequence.history_eq_iff.mp (h.moves seqId hvictim).history_eq).1

theorem Settled.replaying (seqId : ℕ) (hreplay : (scheduler.seq seqId).isRecomputeReplay = true) :
    (next.seq seqId).isRecomputeReplay = true := by
  unfold Sequence.isRecomputeReplay at hreplay ⊢
  by_cases hvictim : seqId ∈ victims
  · rw [(h.restarted seqId hvictim).cursor_eq]
    rfl
  · rcases (h.moves seqId hvictim).progress with ⟨hcursor, _⟩ | ⟨hnone, _⟩
    · rw [hcursor]
      exact hreplay
    · rw [hnone] at hreplay
      exact absurd hreplay Bool.false_ne_true

end

section

variable (horderly : Orderly next) (hbatch : Batch batch.isPrefill batch.seqs next)

include horderly hbatch

/-- The model can be fed with every batch. -/
theorem fedAll_of_batch : fedAll batch next = true := by
  unfold fedAll
  rw [List.all_eq_true]
  intro seqId hmem
  have hwell := horderly.wellformed seqId
  unfold Sequence.stepInputs
  cases hprefill : batch.isPrefill with
  | false =>
      have hdecoding := horderly.decoding seqId (hbatch.decode hprefill hmem)
      obtain ⟨token, htoken⟩ := Sequence.decodeInputToken_isOk hwell hdecoding
      rw [if_neg Bool.false_ne_true]
      unfold Sequence.decodeInputs
      rw [htoken]
      rfl
  | true =>
      obtain ⟨chunkSize, hchunk, hpos, hle⟩ := (hbatch.prefill hprefill seqId hmem).1
      rw [if_pos rfl, Sequence.prefillInputs_eq hchunk rfl (Sequence.chunkTokens_eq hwell hpos hle).2]
      rfl

/-- A step of the batch keeps the log right. -/
theorem Processed.faithful {last : Scheduler Id Env}
    (hprocessed : Processed ledger eosTokenIds retainFinished batch.isPrefill
      (batch.seqs.map fun seqId => (seqId, sampled seqId)) next last)
    (hfaithful : ∀ seqId, (next.seq seqId).Faithful (logs seqId)) (seqId : ℕ) :
    (last.seq seqId).Faithful (noteInputs batch next logs seqId) := by
  unfold noteInputs
  by_cases hmem : seqId ∈ batch.seqs
  · obtain ⟨status, hseq, _⟩ := hprocessed.each (seqId, sampled seqId) (List.mem_map.mpr ⟨seqId, hmem, rfl⟩)
    have hwell := horderly.wellformed seqId
    rw [if_pos hmem, hseq]
    refine Sequence.Faithful.rescheduled ?_ (Sequence.rescheduled_status _ status)
    unfold Sequence.afterStep
    cases hprefill : batch.isPrefill with
    | true =>
        obtain ⟨chunkSize, hchunk, hpos, hle⟩ := (hbatch.prefill hprefill seqId hmem).1
        rw [if_pos rfl, hchunk, Option.getD_some]
        exact (hfaithful seqId).afterPrefill hwell hchunk hpos hle _
    | false =>
        rw [if_neg Bool.false_ne_true]
        exact (hfaithful seqId).afterDecode hwell (horderly.decoding seqId (hbatch.decode hprefill hmem)) _
  · have hother : seqId ∉ (batch.seqs.map fun seqId => (seqId, sampled seqId)).map Prod.fst := by
      rw [List.map_map]
      exact fun hmapped => hmem (by simpa using hmapped)
    rw [if_neg hmem, hprocessed.others seqId hother]
    exact hfaithful seqId

/-- A step of the batch extends the tokens, and those of a replay not at all. -/
theorem Processed.tokenIds {last : Scheduler Id Env}
    (hprocessed : Processed ledger eosTokenIds retainFinished batch.isPrefill
      (batch.seqs.map fun seqId => (seqId, sampled seqId)) next last) (seqId : ℕ) :
    (next.seq seqId).tokenIds <+: (last.seq seqId).tokenIds ∧
      ((next.seq seqId).isRecomputeReplay = true → (last.seq seqId).tokenIds = (next.seq seqId).tokenIds) := by
  by_cases hmem : seqId ∈ batch.seqs
  · obtain ⟨status, hseq, _⟩ := hprocessed.each (seqId, sampled seqId) (List.mem_map.mpr ⟨seqId, hmem, rfl⟩)
    rw [hseq]
    dsimp only
    unfold Sequence.afterStep
    cases hprefill : batch.isPrefill with
    | true =>
        rw [if_pos rfl]
        exact Sequence.afterPrefill_tokenIds _ _ _
    | false =>
        rw [if_neg Bool.false_ne_true]
        exact Sequence.afterDecode_tokenIds (horderly.decoding seqId (hbatch.decode hprefill hmem)) _
  · have hother : seqId ∉ (batch.seqs.map fun seqId => (seqId, sampled seqId)).map Prod.fst := by
      rw [List.map_map]
      exact fun hmapped => hmem (by simpa using hmapped)
    rw [hprocessed.others seqId hother]
    exact ⟨List.prefix_refl _, fun _ => rfl⟩

end

end

/-! ## One step of a run -/

/-- What one step of a run owes to the tokens accepted before it. -/
structure Extends (op : GenerationOp Id Env) (before after : Generation Id Env) : Prop where
  extended : ∀ seqId, (∀ request chainReuse, op ≠ .admitRequest seqId request chainReuse) →
    (before.scheduler.seq seqId).tokenIds <+: (after.scheduler.seq seqId).tokenIds
  replaying : ∀ seqId, (∀ request chainReuse, op ≠ .admitRequest seqId request chainReuse) →
    (before.scheduler.seq seqId).isRecomputeReplay = true →
      (after.scheduler.seq seqId).tokenIds = (before.scheduler.seq seqId).tokenIds

section

omit [DecidableEq Key] [DecidableEq Resource]

omit [PrefixReuse] in
theorem Extends.of_tokenIds_eq {op : GenerationOp Id Env} {before after : Generation Id Env}
    (h : ∀ seqId, (∀ request chainReuse, op ≠ .admitRequest seqId request chainReuse) →
      (after.scheduler.seq seqId).tokenIds = (before.scheduler.seq seqId).tokenIds) :
    Extends op before after :=
  ⟨fun seqId hop => h seqId hop ▸ List.prefix_refl _, fun seqId hop _ => h seqId hop⟩

/-- A request is admitted. -/
theorem admitted_wellformed (request : Sequence Id) (chainReuse : Option ℕ)
    (hreuse : ¬ (0 < chainReuse.getD 0 ∧ request.tokenIds.length ≤ chainReuse.getD 0)) :
    (admitted request chainReuse).Wellformed := by
  refine ⟨⟨rfl, Int.natCast_nonneg _, Int.le_refl _, ?_, rfl, Int.le_refl 0⟩,
    Int.natCast_nonneg _, Int.natCast_nonneg _, .inr (Int.le_refl _),
    .inl ⟨rfl, Int.sub_self _, rfl, ?_⟩⟩
  · show some request.tokenIds = some (request.tokenIds.take ((request.tokenIds.length : ℤ)).toNat)
    rw [Int.toNat_natCast, List.take_length]
  · show ((chainReuse.getD 0 : ℕ) : ℤ) ≤ (request.tokenIds.length : ℤ)
    omega

end

variable {generation : Generation Id Env}

theorem admitRequest_wellkept (h : Tame ledger oracle callbacks) (hkept : generation.Wellkept)
    (seqId : ℕ) (request : Sequence Id) (chainReuse : Option ℕ) :
    (exec config oracle callbacks completePrefillExecution eosTokenIds generation
        (.admitRequest seqId request chainReuse)).Wellkept ∧
      Extends (.admitRequest seqId request chainReuse) generation
        (exec config oracle callbacks completePrefillExecution eosTokenIds generation
          (.admitRequest seqId request chainReuse)) := by
  unfold exec
  dsimp only
  split
  · exact ⟨hkept, .of_tokenIds_eq fun _ _ => rfl⟩
  next hguard =>
  rw [not_or] at hguard
  obtain ⟨hfree, hreuse⟩ := hguard
  have horderly := hkept.orderly
  -- `add` appends to the waiting queue and writes no sequence:
  have hmonotonic : Quiet ledger callbacks.monotonic := ⟨h.monotonic, h.monotonic_returns⟩
  have hset : ∀ other, (setSeq seqId (fun _ => admitted request chainReuse)
      generation.scheduler).seq other = if other = seqId then admitted request chainReuse
        else generation.scheduler.seq other := fun other => seq_setSeq _ _ _ _
  have hadd : wpe (add callbacks.monotonic seqId)
      (fun _ next => next.rest ledger = (setSeq seqId (fun _ => admitted request chainReuse)
        generation.scheduler).rest ledger ∧ next.waiting = generation.scheduler.waiting ++ [seqId])
      (fun _ => False) (setSeq seqId (fun _ => admitted request chainReuse)
        generation.scheduler) := add_moved hmonotonic seqId
  generalize hadded : add callbacks.monotonic seqId (setSeq seqId
    (fun _ => admitted request chainReuse) generation.scheduler) = added at hadd ⊢
  have hnext : added.2.rest ledger = (setSeq seqId (fun _ => admitted request chainReuse)
        generation.scheduler).rest ledger ∧
      added.2.waiting = generation.scheduler.waiting ++ [seqId] := by
    rw [wpe_def, hadded] at hadd
    cases hresult : added.1 with
    | error error => rw [hresult] at hadd; exact absurd hadd id
    | ok _ => rw [hresult] at hadd; exact hadd
  obtain ⟨hrest, hwaiting⟩ := hnext
  have hdecoding : added.2.decoding = generation.scheduler.decoding :=
    congrArg (·.2.1) hrest
  have hseq : ∀ other, added.2.seq other = if other = seqId then admitted request chainReuse
      else generation.scheduler.seq other := fun other => (seq_of_rest hrest other).trans (hset other)
  rw [List.mem_append, not_or] at hfree
  -- the fresh sequence is well formed; every other one is as it was
  refine ⟨⟨⟨fun other => ?_, fun other hmem => ?_, ?_, fun other => ?_,
    (congrArg (·.2.2.1) hrest).trans horderly.inflight⟩, fun other => ?_⟩,
    .of_tokenIds_eq fun other hop => ?_⟩
  · rw [hseq]
    split
    · exact admitted_wellformed request chainReuse hreuse
    · exact horderly.wellformed other
  · rw [hdecoding] at hmem
    have hne : other ≠ seqId := by
      rintro rfl
      exact hfree.2 hmem
    rw [hseq, if_neg hne]
    exact horderly.decoding other hmem
  · rw [hdecoding, hwaiting, List.append_assoc, List.singleton_append, List.nodup_middle]
    exact List.nodup_cons.mpr ⟨by simp [hfree], horderly.nodup⟩
  · rw [hseq]
    split
    · rfl
    · exact horderly.pending other
  · rw [hseq]
    dsimp only
    rw [Function.update_apply]
    split
    · -- nothing has been logged for a fresh sequence
      exact .unlogged rfl
    · exact hkept.faithful other
  · have hne : other ≠ seqId := by
      rintro rfl
      exact hop request chainReuse rfl
    rw [hseq, if_neg hne]

theorem step_wellkept (h : Tame ledger oracle callbacks)
    (hcomplete : ∀ seqId, Quiet ledger (completePrefillExecution seqId))
    (hkept : generation.Wellkept) (sampled : ℕ → ℤ) (retainFinished : Bool) :
    (exec config oracle callbacks completePrefillExecution eosTokenIds generation
        (.step sampled retainFinished)).Wellkept ∧
      Extends (.step sampled retainFinished) generation
        (exec config oracle callbacks completePrefillExecution eosTokenIds generation
          (.step sampled retainFinished)) := by
  have horderly := hkept.orderly
  have hschedule : wpe (schedule config oracle callbacks)
      (fun batch next => Orderly next ∧ Batch batch.isPrefill batch.seqs next ∧
        Scheduled ledger generation.scheduler batch next)
      (fun next => Orderly next ∧ Halted ledger generation.scheduler next) generation.scheduler :=
    schedule_orderly h horderly
  unfold exec
  dsimp only
  rw [wpe_def] at hschedule
  generalize schedule config oracle callbacks generation.scheduler = scheduled at hschedule ⊢
  obtain ⟨result, next⟩ := scheduled
  cases result with
  | error error =>
      -- `schedule` raised: it has only preempted, which changes no history
      obtain ⟨hnext, victims, hsettled⟩ := hschedule
      exact ⟨⟨hnext, fun seqId => Settled.faithful hsettled horderly hkept.faithful seqId⟩,
        .of_tokenIds_eq fun seqId _ => Settled.tokenIds_eq hsettled seqId⟩
  | ok batch =>
      obtain ⟨hnext, hbatch, hscheduled⟩ := hschedule
      have hfaithful := fun seqId =>
        Settled.faithful hscheduled.settled horderly hkept.faithful seqId
      -- every row of the batch finds the token it feeds:
      have hfed := fedAll_of_batch hnext hbatch
      dsimp only
      rw [if_neg (by simp [hfed])]
      have hmap : (batch.seqs.map fun seqId => (seqId, sampled seqId)).map Prod.fst =
          batch.seqs := by
        rw [List.map_map]
        exact List.map_id _
      -- the sampled tokens are appended, but for the rows of a replay:
      have hpost : wpe (postprocess completePrefillExecution callbacks.monotonic eosTokenIds
          retainFinished batch.isPrefill (batch.seqs.map fun seqId => (seqId, sampled seqId)))
          (fun _ last => Orderly last ∧ Processed ledger eosTokenIds retainFinished batch.isPrefill
            (batch.seqs.map fun seqId => (seqId, sampled seqId)) next last)
          (fun _ => False) next :=
        postprocess_processed hcomplete ⟨h.monotonic, h.monotonic_returns⟩ _ hnext (hmap.symm ▸ hbatch)
      rw [wpe_def] at hpost
      generalize postprocess completePrefillExecution callbacks.monotonic eosTokenIds
        retainFinished batch.isPrefill (batch.seqs.map fun seqId => (seqId, sampled seqId)) next =
          processed at hpost ⊢
      obtain ⟨result, last⟩ := processed
      cases result with
      | error error => exact absurd hpost id
      | ok _ =>
          obtain ⟨hlast, hprocessed⟩ := hpost
          refine ⟨⟨hlast, fun seqId => Processed.faithful hnext hbatch hprocessed hfaithful seqId⟩,
            fun seqId _ => ?_, fun seqId _ hreplay => ?_⟩
          · have hstep := (Processed.tokenIds hnext hbatch hprocessed seqId).1
            rw [Settled.tokenIds_eq hscheduled.settled seqId] at hstep
            exact hstep
          · -- a sequence in replay is in replay after `schedule` as well:
            have hstill := Settled.replaying hscheduled.settled seqId hreplay
            exact ((Processed.tokenIds hnext hbatch hprocessed seqId).2 hstill).trans
              (Settled.tokenIds_eq hscheduled.settled seqId)

/-- Aborts and the rest of the engine accept nothing. -/
theorem restatused_wellkept (hkept : generation.Wellkept) {next : Scheduler Id Env}
    (hnext : Restatused ledger generation.scheduler next)
    (hqueues : (next.waiting ++ next.decoding).Sublist
      (generation.scheduler.waiting ++ generation.scheduler.decoding))
    (hdecoding : next.decoding ⊆ generation.scheduler.decoding) :
    Wellkept { generation with scheduler := next } := by
  have horderly := hkept.orderly
  have hmove : ∀ seqId, (generation.scheduler.seq seqId).Rescheduled (next.seq seqId) := by
    intro seqId
    obtain ⟨status, hseq⟩ := hnext.seqs seqId
    rw [hseq]
    exact Sequence.rescheduled_status _ status
  refine ⟨⟨fun seqId => ?_, fun seqId hmem => ?_, horderly.nodup.sublist hqueues, fun seqId => ?_,
    hnext.inflight_eq.trans horderly.inflight⟩, fun seqId => ?_⟩
  · exact (hmove seqId).wellformed (horderly.wellformed seqId)
  · exact (horderly.decoding seqId (hdecoding hmem)).rescheduled (hmove seqId)
  · obtain ⟨status, hseq⟩ := hnext.seqs seqId
    rw [hseq]
    exact horderly.pending seqId
  · exact (hkept.faithful seqId).rescheduled (hmove seqId)

theorem exec_wellkept (h : Tame ledger oracle callbacks)
    (hcomplete : ∀ seqId, Quiet ledger (completePrefillExecution seqId))
    (hkept : generation.Wellkept) (op : GenerationOp Id Env) :
    (exec config oracle callbacks completePrefillExecution eosTokenIds generation op).Wellkept ∧
      Extends op generation (exec config oracle callbacks completePrefillExecution eosTokenIds generation op) := by
  cases op with
  | admitRequest seqId request chainReuse =>
      exact admitRequest_wellkept h hkept seqId request chainReuse
  | step sampled retainFinished => exact step_wellkept h hcomplete hkept sampled retainFinished
  | abort seqIds =>
      have habort : wpe (abortMany oracle.resetPrefillExecutionState seqIds)
          (fun _ next => Restatused ledger generation.scheduler next ∧
            next.waiting = generation.scheduler.waiting.filter (fun seqId => seqId ∉ seqIds) ∧
            next.decoding = generation.scheduler.decoding.filter (fun seqId => seqId ∉ seqIds))
          (fun _ => False) generation.scheduler :=
        wpe_mono (abortMany_restatused (fun seqId =>
          ⟨h.resetPrefillExecutionState seqId, h.reset_returns seqId⟩) seqIds)
          fun _ _ hnext => ⟨hnext.1, hnext.2.1, hnext.2.2.1⟩
      unfold exec
      dsimp only
      rw [wpe_def] at habort
      generalize abortMany oracle.resetPrefillExecutionState seqIds generation.scheduler = aborted at habort ⊢
      obtain ⟨result, next⟩ := aborted
      cases result with
      | error error => exact absurd habort id
      | ok removed =>
          obtain ⟨hnext, hwaiting, hdecoding⟩ := habort
          refine ⟨restatused_wellkept hkept hnext ?_ ?_, .of_tokenIds_eq fun seqId _ => ?_⟩
          · rw [hwaiting, hdecoding]
            exact List.Sublist.append List.filter_sublist List.filter_sublist
          · rw [hdecoding]
            exact List.filter_sublist.subset
          · obtain ⟨status, hseq⟩ := hnext.seqs seqId
            show (next.seq seqId).tokenIds = _
            rw [hseq]
  | elsewhere env =>
      have hsame : Restatused (fun _ => []) generation.scheduler { generation.scheduler with
          world := { generation.scheduler.world with env := env } } :=
        ⟨fun _ => ⟨_, rfl⟩, rfl, rfl⟩
      exact ⟨restatused_wellkept hkept hsame (List.Sublist.refl _) (List.Subset.refl _),
        .of_tokenIds_eq fun _ _ => rfl⟩

/-- Every state of a run. -/
theorem run_wellkept (h : Tame ledger oracle callbacks)
    (hcomplete : ∀ seqId, Quiet ledger (completePrefillExecution seqId))
    {start : Generation Id Env} (hkept : start.Wellkept) (ops : List (GenerationOp Id Env)) :
    (run config oracle callbacks completePrefillExecution eosTokenIds start ops).Wellkept := by
  induction ops generalizing start with
  | nil => exact hkept
  | cons op ops ih => exact ih (exec_wellkept h hcomplete hkept op).1

/-- **Preemption and replay keep the accepted output.** Between a preemption and
the end of its replay a sequence accepts nothing, and has been fed a proper
prefix of `replayInputs`; a replay that has ended has been fed all of them.
Every step extends the accepted tokens, a scheduled decode has its input, and
`schedule` preempts just the sequences that start over. -/
theorem replay_preserves_accepted_output (h : Tame (fun _ => []) oracle callbacks)
    (hcomplete : ∀ seqId, Quiet (fun _ => []) (completePrefillExecution seqId)) (env : Env)
    (now : ℚ) (ops : List (GenerationOp Id Env)) :
    let generation :=
      run config oracle callbacks completePrefillExecution eosTokenIds (fresh env now) ops
    (∀ seqId, (generation.scheduler.seq seqId).Faithful (generation.logs seqId)) ∧
      (∀ op, Extends op generation
        (exec config oracle callbacks completePrefillExecution eosTokenIds generation op)) ∧
      ∀ batch next, schedule config oracle callbacks generation.scheduler = (.ok batch, next) →
        (∀ seqId, seqId ∈ batch.preempted ↔
          Sequence.startsOver (generation.scheduler.seq seqId) (next.seq seqId) = true) ∧
        ∀ seqId ∈ batch.seqs,
          ∃ inputs, (next.seq seqId).stepInputs batch.isPrefill = .ok inputs := by
  intro generation
  have hkept : generation.Wellkept := run_wellkept h hcomplete (fresh_wellkept env now) ops
  refine ⟨hkept.faithful, fun op => (exec_wellkept h hcomplete hkept op).2, fun batch next hrun => ?_⟩
  have hschedule : wpe (schedule config oracle callbacks)
      (fun batch next => Orderly next ∧ Batch batch.isPrefill batch.seqs next ∧
        Scheduled (fun _ => []) generation.scheduler batch next)
      (fun next => Orderly next ∧ Halted (fun _ => []) generation.scheduler next)
      generation.scheduler := schedule_orderly h hkept.orderly
  rw [wpe_of_ok hrun] at hschedule
  obtain ⟨hnext, hbatch, hscheduled⟩ := hschedule
  refine ⟨fun seqId => ⟨fun hmem => ?_, fun hstarts => ?_⟩, fun seqId hmem => ?_⟩
  · exact (hscheduled.settled.restarted seqId hmem).startsOver_eq
  · by_contra hnot
    rw [(hscheduled.settled.moves seqId hnot).startsOver_eq] at hstarts
    exact Bool.false_ne_true hstarts
  · have hfed := List.all_eq_true.mp (fedAll_of_batch hnext hbatch) seqId hmem
    cases hinputs : (next.seq seqId).stepInputs batch.isPrefill with
    | ok inputs => exact ⟨inputs, rfl⟩
    | error error =>
        rw [hinputs] at hfed
        exact absurd hfed Bool.false_ne_true

/-- An oracle with room for everything, that asks for the preemption its
environment names.  As SnapKV it does not look at the cached prefix. -/
def windowOracle : MemoryOracle Unit (Option ℕ) Unit Unit where
  numFreeSlots := answering 64
  reserveDecodeWindows := fun scheduler => (.ok scheduler.world.env, scheduler.world)
  prefillBatchedTokensMargin := answering 0
  remainingPrefillTokens seqId := fun scheduler =>
    (.ok ((scheduler.seq seqId).numPromptTokens - (scheduler.seq seqId).numPrefilledTokens),
      scheduler.world)
  prefillExecutionMode _ := answering "chunked"
  prefillBatchCompatibilityKey _ := answering ()
  resetPrefillExecutionState _ := answering ()
  reservedPrefillSlots _ := answering 0
  shouldScheduleFullPrefill _ := answering false
  prefillStepFreeSlots := answering 64
  prefillStepFreeSlotsFor _ := answering 64
  prefillPrivateSlotsFor _ := answering 0
  minFinalPrefillChunkSize _ := answering 0
  prefillStepReservationCost _ scheduledTokens := answering scheduledTokens
  decodeStepFreeSlots := answering 64
  decodeStepFreeSlotsFor _ := answering 64
  decodeStepReservationCost _ := answering 1
  promptAdmissionFreeSlots := answering 64
  promptAdmissionBudgets _ := answering Dict.empty
  promptAdmissionCosts _ := answering Dict.empty
  promptAdmissionSharedCosts := none
  promptLogicalReservationCost _ := answering 4
  promptAdmissionFailureAction := answering "defer"
  onPromptAdmitted _ _ := answering ()
  clearPrefixCacheHit _ := answering ()
  freeSlotStats := answering ()
  debugLiveSeqSlots := answering ()
  schedulerCapacitySnapshot := none

/-- Callbacks that do nothing. -/
def windowCallbacks : SchedulerCallbacks Unit (Option ℕ) where
  prefixCacheHitRefresher _ := answering ()
  prefixCacheHitsRefresher := none
  decodeCapacityReclaimer := none
  prefillCapacityReclaimer := none
  monotonic := answering 0

omit [PrefixReuse] in
theorem answering_untouching {α : Type} (answer : α) :
    Untouching (fun _ => []) (answering answer : Hook Id Env α) :=
  fun _ => ⟨rfl, rfl⟩

omit [PrefixReuse] in
theorem answering_quiet {α : Type} (answer : α) :
    Quiet (fun _ => []) (answering answer : Hook Id Env α) :=
  ⟨answering_untouching answer, fun _ => ⟨answer, rfl⟩⟩

theorem answering_refreshing (seqIds : List ℕ) :
    Refreshing (fun _ => []) seqIds (answering () : Hook Id Env Unit) :=
  fun _ => ⟨fun _ => ⟨rfl, rfl, rfl, rfl, .inl rfl⟩, fun _ hmem => absurd hmem List.not_mem_nil⟩

theorem window_tame (hkind : ¬ PrefixReuse.refreshes) :
    Tame (fun _ => []) windowOracle windowCallbacks where
  numFreeSlots := answering_untouching _
  reserveDecodeWindows := fun _ => ⟨rfl, rfl⟩
  prefillBatchedTokensMargin := answering_untouching _
  remainingPrefillTokens _ := fun _ => ⟨rfl, rfl⟩
  remaining_le _ _ _ hattached hanswer := by
    rw [max_eq_left (hattached.resolve_left hkind)]
    exact (Except.ok.inj hanswer).symm.le
  prefillExecutionMode _ := answering_untouching _
  prefillBatchCompatibilityKey _ := answering_untouching _
  resetPrefillExecutionState _ := answering_untouching _
  reset_returns _ := fun _ => ⟨(), rfl⟩
  reservedPrefillSlots _ := answering_untouching _
  shouldScheduleFullPrefill _ := answering_untouching _
  prefillStepFreeSlots := answering_untouching _
  prefillStepFreeSlotsFor _ := answering_untouching _
  prefillPrivateSlotsFor _ := answering_untouching _
  minFinalPrefillChunkSize _ := answering_untouching _
  prefillStepReservationCost _ _ := answering_untouching _
  decodeStepFreeSlots := answering_untouching _
  decodeStepFreeSlotsFor _ := answering_untouching _
  decodeStepReservationCost _ := answering_untouching _
  promptAdmissionFreeSlots := answering_untouching _
  promptAdmissionBudgets _ := answering_untouching _
  promptAdmissionCosts _ := answering_untouching _
  promptAdmissionSharedCosts _ hmem := nomatch hmem
  promptLogicalReservationCost _ := answering_untouching _
  promptAdmissionFailureAction := answering_untouching _
  onPromptAdmitted _ _ := answering_untouching _
  clearPrefixCacheHit _ := answering_refreshing []
  clear_returns _ := fun _ => ⟨(), rfl⟩
  freeSlotStats := answering_untouching _
  debugLiveSeqSlots := answering_untouching _
  schedulerCapacitySnapshot _ hmem := nomatch hmem
  prefixCacheHitRefresher _ := answering_refreshing []
  prefixCacheHitsRefresher _ hmem := nomatch hmem
  decodeCapacityReclaimer _ hmem := nomatch hmem
  prefillCapacityReclaimer _ hmem := nomatch hmem
  monotonic := answering_untouching _
  monotonic_returns := fun _ => ⟨0, rfl⟩

/-- Two requests of three tokens each.  The second one, whose decode positions
are shifted by `delta`, is preempted after three output tokens and replayed when
the first one is gone. -/
def preemptedOps (delta : ℤ) : List (GenerationOp Unit (Option ℕ)) :=
  let second := { Sequence.new [20, 21, 22] 9 true [] with multimodalPositionDelta := delta }
  [.admitRequest 1 (Sequence.new [10, 11, 12] 9 true []) none, .admitRequest 2 second none,
    .step (fun _ => 101) true, .step (fun _ => 102) true, .step (fun _ => 103) true,
    .step (fun _ => 104) true, .elsewhere (some 2), .step (fun _ => 105) true, .elsewhere none,
    .abort [1], .step (fun _ => 106) true, .step (fun _ => 107) true, .step (fun _ => 108) true,
    .step (fun _ => 109) true, .step (fun _ => 110) true]

/-- A run of the oracle above. -/
def windowRun (ops : List (GenerationOp Unit (Option ℕ))) : Generation Unit (Option ℕ) :=
  run ⟨8, 64, 8, 0, 2, false⟩ windowOracle windowCallbacks (fun _ => answering ()) []
    (fresh none 0) ops

omit [PrefixReuse] in
/-- The replay of the second request feeds its prompt and two of its three
output tokens. -/
theorem preempted_request_rebuilt :
    ((windowRun (preemptedOps 0)).scheduler.seq 2).Faithful
        ((windowRun (preemptedOps 0)).logs 2) ∧
      ((windowRun (preemptedOps 0)).logs 2).map ReplayLog.fed =
        some [(20, 0), (21, 1), (22, 2), (102, 3), (103, 4)] ∧
      ((windowRun (preemptedOps 0)).scheduler.seq 2).tokenIds =
        [20, 21, 22, 102, 103, 104, 110] := by
  refine ⟨?_, by decide +kernel, by decide +kernel⟩
  let : PrefixReuse := ⟨False⟩
  have hfaithful : ∀ ops, ((windowRun ops).scheduler.seq 2).Faithful ((windowRun ops).logs 2) :=
    fun ops => (replay_preserves_accepted_output (window_tame not_false) (fun _ => answering_quiet ()) none 0
      ops).1 2
  exact hfaithful (preemptedOps 0)

omit [PrefixReuse] in
/-- The positions of a replay are not consecutive for a request with an
image. -/
theorem replay_positions_shifted :
    ¬ ∀ (ops : List (GenerationOp Unit (Option ℕ))) (replay : ReplayLog Unit),
      (windowRun ops).logs 2 = some replay →
        ((windowRun ops).scheduler.seq 2).recomputeReplayCursor = none →
          replay.fed.map Prod.snd = (List.range replay.fed.length).map Int.ofNat := by
  intro hconsecutive
  have hended : ((windowRun (preemptedOps (-2))).scheduler.seq 2).recomputeReplayCursor = none := by
    decide +kernel
  have hpositions : ((windowRun (preemptedOps (-2))).logs 2).map
      (fun replay => replay.fed.map Prod.snd) = some [0, 1, 2, 1, 2] := by decide +kernel
  obtain ⟨replay, hlog, hfed⟩ := Option.map_eq_some_iff.mp hpositions
  have hall := hconsecutive (preemptedOps (-2)) replay hlog hended
  have hlength : replay.fed.length = 5 := by
    have hsame := congrArg List.length hfed
    rwa [List.length_map] at hsame
  rw [hfed, hlength] at hall
  exact absurd hall (by decide)

/-- All of a batch is fed alike. -/
def AllFedAlike (scheduled : Except PyError ScheduleResult × Scheduler Id Env) : Prop :=
  ∀ batch, scheduled.1 = .ok batch → ∀ seqId ∈ batch.seqs, (scheduled.2.seq seqId).FedAlike batch.isPrefill

/-- **Every rank feeds the same**, whatever a run schedules. -/
theorem ranks_feed_alike (h : Tame ledger oracle callbacks)
    (hcomplete : ∀ seqId, Quiet ledger (completePrefillExecution seqId)) (env : Env) (now : ℚ)
    (ops : List (GenerationOp Id Env)) : AllFedAlike (schedule config oracle callbacks
      (run config oracle callbacks completePrefillExecution eosTokenIds (fresh env now) ops).scheduler) := by
  intro batch hbatch seqId hmem
  have hkept := @run_wellkept _ _ _ _ _ _ _ _ config _ _ _ eosTokenIds h hcomplete _ (fresh_wellkept env now) ops
  obtain ⟨hnext, hchosen, -⟩ := (wpe_of_ok (Prod.ext hbatch rfl)).mp (schedule_orderly h hkept.orderly)
  cases hprefill : batch.isPrefill with
  | true => exact (hchosen.prefill hprefill seqId hmem).1.fedAlike (hnext.wellformed seqId)
  | false =>
      exact (hnext.decoding seqId (hchosen.decode hprefill hmem)).fedAlike (hnext.wellformed seqId)
        (hnext.pending seqId)

omit [PrefixReuse] in
/-- The second request, a token of its replay. -/
theorem replayed_token_fed_alike :
    let scheduled := schedule ⟨8, 64, 8, 0, 2, false⟩ windowOracle windowCallbacks
      (windowRun ((preemptedOps (-2)).take 12)).scheduler
    scheduled.1.toOption.map ScheduleResult.seqs = some [2] ∧ AllFedAlike scheduled :=
  let : PrefixReuse := ⟨False⟩
  ⟨by decide +kernel, ranks_feed_alike (window_tame not_false) (fun _ => answering_quiet ()) none 0 _⟩

end Generation
