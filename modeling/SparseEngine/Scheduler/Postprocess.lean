import SparseEngine.Scheduler.Preemption

/-!
# `postprocess`, `add` and `abort_many`

After a model step every sequence of the batch moves on: a prompt by its
chunk, a replay by one accepted token, every other one by the sampled token.
None of the three writes a sequence of another request, and `postprocess`
returns when the oracle's hook and the clock do.
-/

/-- `resolve_eos_token_ids`. -/
def resolveEosTokenIds (requested configured : List ℤ) : List ℤ :=
  if requested = [] then configured else requested

namespace Sequence

variable {Id : Type}

/-- The test whether the request ends with its last token. -/
def endsWith (configured : List ℤ) (token : ℤ) (seq : Sequence Id) : Bool :=
  (!seq.ignoreEos && decide (token ∈ resolveEosTokenIds seq.eosTokenIds configured)) ||
    decide (seq.numCompletionTokens = seq.maxTokens)

/-- `self.num_prefilled_tokens + self.current_chunk_size`. -/
def prefilledAfterChunk (seq : Sequence Id) : Except PyError ℤ :=
  match seq.currentChunkSize with
  | none => .error (.typeError "unsupported operand type(s) for +=: 'int' and 'NoneType'")
  | some chunkSize => .ok (seq.numPrefilledTokens + chunkSize)

end Sequence

namespace Scheduler

open Routine

variable {Id Env : Type}

section

variable (completePrefillExecution : ℕ → Hook Id Env Unit) (monotonic : Hook Id Env ℚ)
  (resetPrefillExecutionState : ℕ → Hook Id Env Unit) (eosTokenIds : List ℤ)
  (retainFinished : Bool)

/-- One sequence of a prefill batch. -/
def postprocessPrefill (seqId : ℕ) (token : ℤ) : Routine (Scheduler Id Env) Unit := do
  let prefilled ← ofExcept ((← read).seq seqId).prefilledAfterChunk
  write (setSeq seqId fun seq => { seq with numPrefilledTokens := prefilled })
  if prefilled < ((← read).seq seqId).numPromptTokens then do
    write (setSeq seqId fun seq => { seq with status := .waiting })
    let now ← call monotonic
    write fun scheduler => { scheduler with
      prefillWaitSince := setdefault scheduler.prefillWaitSince seqId now
      waiting := seqId :: scheduler.waiting }
  else do
    call (completePrefillExecution seqId)
    write (setSeq seqId fun seq => { seq with status := .running })
    write fun scheduler => { scheduler with decoding := scheduler.decoding ++ [seqId] }
    let seq := (← read).seq seqId
    if seq.isRecomputeReplay then
      whenDo (seq.replayDecodeTokenCount = 0) do
        let finished ← ofExcept seq.finishRecomputeReplay
        write (setSeq seqId fun _ => finished)
    else do
      write (setSeq seqId (Sequence.appendToken token))
      whenDo (((← read).seq seqId).endsWith eosTokenIds token = true) do
        write (setSeq seqId fun seq => { seq with status := .finished })
        whenDo (retainFinished = false) (removeDecoding seqId)

/-- One sequence of a decode batch. -/
def postprocessDecode (seqId : ℕ) (token : ℤ) : Routine (Scheduler Id Env) Unit := do
  let seq := (← read).seq seqId
  if seq.isRecomputeDecode then do
    let advanced ← ofExcept seq.advanceRecomputeReplay
    write (setSeq seqId fun _ => advanced)
  else do
    write (setSeq seqId (Sequence.appendToken token))
    whenDo (((← read).seq seqId).endsWith eosTokenIds token = true) do
      write (setSeq seqId fun seq => { seq with status := .finished })
      whenDo (retainFinished = false ∧ seqId ∈ (← read).decoding) (removeDecoding seqId)

/-- `postprocess`, over the pairs of sequences and tokens. -/
def postprocess (isPrefill : Bool) : List (ℕ × ℤ) → Routine (Scheduler Id Env) Unit
  | [] => pure ()
  | (seqId, token) :: rest => do
      (if isPrefill then
        postprocessPrefill completePrefillExecution monotonic eosTokenIds retainFinished seqId token
      else postprocessDecode eosTokenIds retainFinished seqId token)
      postprocess isPrefill rest

/-- `add`. -/
def add (seqId : ℕ) : Routine (Scheduler Id Env) Unit := do
  whenDo ((← read).waiting = [] ∧ (← read).decoding = []) do
    write fun scheduler => { scheduler with phase := .prefill }
    let now ← call monotonic
    write fun scheduler => { scheduler with phaseStartedAt := now }
  let now ← call monotonic
  write fun scheduler => { scheduler with
    prefillWaitSince := setdefault scheduler.prefillWaitSince seqId now
    waiting := scheduler.waiting ++ [seqId] }

/-- One pass of `abort_many` over a queue that has been taken out of the
scheduler: what stays, and the removed sequences that may own slots. -/
def abortPass (requested : List ℕ) (inDecoding : Bool) :
    List ℕ → List ℕ → Dict ℕ Bool → Routine (Scheduler Id Env) (List ℕ × Dict ℕ Bool)
  | [], retained, removed => pure (retained, removed)
  | seqId :: rest, retained, removed => do
      write fun scheduler =>
        if inDecoding then { scheduler with decoding := rest }
        else { scheduler with waiting := rest }
      if seqId ∉ requested then abortPass requested inDecoding rest (retained ++ [seqId]) removed
      else do
        let seq := (← read).seq seqId
        let mayOwnSlots := decide (seq.status = .running) ||
          decide (0 < seq.numPrefilledTokens) || inDecoding
        write (setSeq seqId fun seq => { seq with status := .finished })
        write fun scheduler => { scheduler with
          admissionDeferWarnedSeqIds := scheduler.admissionDeferWarnedSeqIds.erase seqId }
        call (resetPrefillExecutionState seqId)
        abortPass requested inDecoding rest retained
          (removed.set seqId ((removed.get? seqId).getD false || mayOwnSlots))

/-- `abort_many`. -/
def abortMany (requested : List ℕ) : Routine (Scheduler Id Env) (Dict ℕ Bool) := do
  if requested = [] then return Dict.empty
  else do
    write fun scheduler => { scheduler with
      prefillWaitSince := requested.foldl (fun since seqId => since.erase seqId)
        scheduler.prefillWaitSince }
    let (waiting, removed) ← abortPass resetPrefillExecutionState requested false
      (← read).waiting [] Dict.empty
    write fun scheduler => { scheduler with waiting := waiting }
    let (decoding, removed) ← abortPass resetPrefillExecutionState requested true
      (← read).decoding [] removed
    write fun scheduler => { scheduler with decoding := decoding }
    return removed

end

/-- `request_may_own_slots`. -/
def requestMayOwnSlots (seqId : ℕ) (scheduler : Scheduler Id Env) : Bool :=
  if seqId ∈ scheduler.waiting then
    decide ((scheduler.seq seqId).status = .running) ||
      decide (0 < (scheduler.seq seqId).numPrefilledTokens)
  else decide (seqId ∈ scheduler.decoding)

/-! ## What they leave -/

end Scheduler

namespace Sequence

variable {Id : Type}

/-- A sequence after a prefill step with a chunk of `chunkSize`, but for its
status. -/
def afterPrefill (chunkSize token : ℤ) (seq : Sequence Id) : Sequence Id :=
  let later := { seq with numPrefilledTokens := seq.numPrefilledTokens + chunkSize }
  if later.numPrefilledTokens < later.numPromptTokens then later
  else if later.isRecomputeReplay then
    if later.replayDecodeTokenCount = 0 then
      { later with
        recomputeReplayCursor := none
        decodeProgressCheckpoint := later.numCompletionTokens }
    else later
  else later.appendToken token

/-- A sequence after a decode step, but for its status. -/
def afterDecode (token : ℤ) (seq : Sequence Id) : Sequence Id :=
  if seq.isRecomputeDecode then
    let later := { seq with
      recomputeReplayCursor := some (seq.recomputeReplayCursor.getD 0 + 1) }
    if later.replayDecodeTokenCount ≤ seq.recomputeReplayCursor.getD 0 + 1 then
      { later with
        recomputeReplayCursor := none
        decodeProgressCheckpoint := later.numCompletionTokens }
    else later
  else seq.appendToken token

variable {seq : Sequence Id} {chunkSize : ℤ}

theorem advanceRecomputeReplay_eq (h : seq.isRecomputeDecode = true) (token : ℤ) :
    seq.advanceRecomputeReplay = .ok (seq.afterDecode token) := by
  unfold advanceRecomputeReplay afterDecode
  rw [if_neg (by simp [h]), if_pos h]
  dsimp only
  split
  · unfold finishRecomputeReplay
    rfl
  · rfl

/-- The sequence decodes and nothing is in flight. -/
theorem Decoding.appended (h : seq.Decoding) (hcursor : seq.recomputeReplayCursor = none)
    (token : ℤ) : (seq.appendToken token).Decoding := by
  have houtput := h.output_pos
  refine ⟨h.prefilled_eq, h.prompt_pos, ?_, fun cursor hsome => ?_⟩
  · show 0 < seq.numTokens + 1 - seq.numPromptTokens + seq.numPendingOutputs
    unfold numCompletionTokens at houtput
    omega
  · rw [show (seq.appendToken token).recomputeReplayCursor = none from hcursor] at hsome
    exact nomatch hsome

theorem Counted.appended (h : seq.Counted) (token : ℤ) : (seq.appendToken token).Counted := by
  have hlength := h.numTokens_eq
  have hle := h.prompt_le
  refine ⟨?_, h.prompt_nonneg, ?_, ?_, ?_, h.pending_nonneg⟩
  · show seq.numTokens + 1 = ((seq.tokenIds ++ [token]).length : ℤ)
    rw [List.length_append, List.length_singleton, hlength, Nat.cast_add, Nat.cast_one]
  · show seq.numPromptTokens ≤ seq.numTokens + 1
    omega
  · have hprompt : seq.numPromptTokens.toNat ≤ seq.tokenIds.length := by omega
    show seq.promptTokens = some ((seq.tokenIds ++ [token]).take seq.numPromptTokens.toNat)
    rw [List.take_append_of_le_length hprompt]
    exact h.promptTokens_eq
  · show some token = (seq.tokenIds ++ [token]).getLast?
    rw [List.getLast?_concat]

theorem afterPrefill_of_lt (h : seq.numPrefilledTokens + chunkSize < seq.numPromptTokens) (token : ℤ) :
    seq.afterPrefill chunkSize token =
      { seq with numPrefilledTokens := seq.numPrefilledTokens + chunkSize } :=
  if_pos h

/-- The end of the prompt: the first output is accepted. -/
theorem afterPrefill_of_prompting (h : seq.numPrefilledTokens + chunkSize = seq.numPromptTokens)
    (hprompting : seq.Prompting) (token : ℤ) :
    seq.afterPrefill chunkSize token =
      ({ seq with numPrefilledTokens := seq.numPromptTokens } : Sequence Id).appendToken token := by
  unfold afterPrefill
  rw [h, if_neg (Int.lt_irrefl _), if_neg]
  rw [hprompting.cursor_eq]
  exact Bool.false_ne_true

/-- The end of the prompt of a replay: nothing is accepted. -/
theorem afterPrefill_of_rebuilding (h : seq.numPrefilledTokens + chunkSize = seq.numPromptTokens)
    (hrebuilding : seq.Rebuilding) (token : ℤ) :
    seq.afterPrefill chunkSize token =
      if seq.numCompletionTokens = 1 then
        { seq with
          numPrefilledTokens := seq.numPromptTokens
          recomputeReplayCursor := none
          decodeProgressCheckpoint := seq.numCompletionTokens }
      else { seq with numPrefilledTokens := seq.numPromptTokens } := by
  have hpos := hrebuilding.completion_pos
  unfold afterPrefill
  rw [h, if_neg (Int.lt_irrefl _), if_pos]
  · have hcount : ({ seq with numPrefilledTokens := seq.numPromptTokens } : Sequence Id
        ).replayDecodeTokenCount = 0 ↔ seq.numCompletionTokens = 1 := by
      show max 0 (seq.numCompletionTokens - 1) = 0 ↔ _
      omega
    by_cases hone : seq.numCompletionTokens = 1
    · rw [if_pos (hcount.mpr hone), if_pos hone]
      rfl
    · rw [if_neg (hcount.not.mpr hone), if_neg hone]
  · unfold isRecomputeReplay
    rw [hrebuilding.cursor_eq]
    rfl

variable [PrefixReuse]

/-- A step within the prompt. -/
theorem Wellformed.afterPrefill (h : seq.Wellformed) (hpos : 0 < chunkSize)
    (hle : seq.numPrefilledTokens + chunkSize ≤ seq.numPromptTokens) (token : ℤ) :
    (seq.afterPrefill chunkSize token).Wellformed ∧
      (seq.numPrefilledTokens + chunkSize = seq.numPromptTokens → (seq.afterPrefill chunkSize token).Decoding) := by
  have hnonneg := h.prefilled_nonneg
  have hstage := h.prefilling (by omega)
  rcases Int.lt_or_eq_of_le hle with hlt | heq
  · rw [afterPrefill_of_lt hlt]
    refine ⟨⟨h.counted.congr rfl, by dsimp only; omega, h.hit_nonneg,
      h.attached.mono rfl (by dsimp only; omega), ?_⟩, fun hend => absurd hend (Int.ne_of_lt hlt)⟩
    -- chunks are left: the stage goes on as it was
    rcases hstage with hprompting | hrebuilding
    · exact .inl ⟨hprompting.cursor_eq, hprompting.completion_eq, hprompting.pending_eq, hle⟩
    · exact .inr (.inl ⟨hrebuilding.cursor_eq, hrebuilding.completion_pos,
        hrebuilding.pending_eq, hlt, hrebuilding.hit_eq⟩)
  · have hprompt : 0 < seq.numPromptTokens := by omega
    -- the prompt ends here: its first token is sampled, or its replay begins
    have hdecoding : (seq.afterPrefill chunkSize token).Decoding ∧ (seq.afterPrefill chunkSize token).Counted ∧
        (seq.afterPrefill chunkSize token).numPrefilledTokens = seq.numPromptTokens ∧
        (seq.afterPrefill chunkSize token).prefixCacheHitLen = seq.prefixCacheHitLen := by
      rcases hstage with hprompting | hrebuilding
      · rw [afterPrefill_of_prompting heq hprompting]
        have hcompletion := hprompting.completion_eq
        have hpending := hprompting.pending_eq
        refine ⟨⟨rfl, hprompt, ?_, fun cursor hcursor => ?_⟩, ?_, rfl, rfl⟩
        · show 0 < seq.numTokens + 1 - seq.numPromptTokens + seq.numPendingOutputs
          unfold numCompletionTokens at hcompletion
          omega
        · exact absurd (hcursor.symm.trans hprompting.cursor_eq) (Option.some_ne_none cursor)
        · have hcounted : ({ seq with numPrefilledTokens := seq.numPromptTokens } :
              Sequence Id).Counted := h.counted.congr rfl
          exact hcounted.appended token
      · have hcompletion := hrebuilding.completion_pos
        have hpending := hrebuilding.pending_eq
        rw [afterPrefill_of_rebuilding heq hrebuilding]
        -- a rebuilt sequence with one completion token has nothing to replay
        split
        · refine ⟨⟨rfl, hprompt, ?_, fun cursor hcursor => nomatch hcursor⟩, h.counted.congr rfl, rfl, rfl⟩
          show 0 < seq.numCompletionTokens + seq.numPendingOutputs
          omega
        · next hone =>
          refine ⟨⟨rfl, hprompt, ?_, fun cursor hcursor => ?_⟩, h.counted.congr rfl, rfl, rfl⟩
          · show 0 < seq.numCompletionTokens + seq.numPendingOutputs
            omega
          · obtain rfl := Option.some.inj (hrebuilding.cursor_eq.symm.trans hcursor)
            refine ⟨hpending, Int.le_refl 0, ?_⟩
            show 0 < seq.numCompletionTokens - 1
            omega
    obtain ⟨hdecodes, hcounted, hprefilled, hhit⟩ := hdecoding
    refine ⟨⟨hcounted, ?_, ?_, h.attached.mono hhit (by omega), .inr (.inr hdecodes)⟩, fun _ => hdecodes⟩
    · rw [hprefilled]
      exact hprompt.le
    · rw [hhit]
      exact h.hit_nonneg

/-- A decode step. -/
theorem Wellformed.afterDecode (h : seq.Wellformed) (hdecoding : seq.Decoding) (token : ℤ) :
    (seq.afterDecode token).Wellformed ∧ (seq.afterDecode token).Decoding := by
  have hprefilled := h.prefilled_nonneg
  have hreplaying := hdecoding.replaying
  suffices hstep : (seq.afterDecode token).Decoding ∧ (seq.afterDecode token).Counted ∧
      (seq.afterDecode token).numPrefilledTokens = seq.numPrefilledTokens ∧
      (seq.afterDecode token).prefixCacheHitLen = seq.prefixCacheHitLen by
    obtain ⟨hdecodes, hcounted, hsame, hhit⟩ := hstep
    exact ⟨⟨hcounted, hsame ▸ hprefilled, hhit ▸ h.hit_nonneg, h.attached.mono hhit hsame.ge,
      .inr (.inr hdecodes)⟩, hdecodes⟩
  unfold Sequence.afterDecode
  cases hcursor : seq.recomputeReplayCursor with
  | none =>
      rw [if_neg (by simp [isRecomputeDecode, isRecomputeReplay, hcursor])]
      exact ⟨hdecoding.appended hcursor token, h.counted.appended token, rfl, rfl⟩
  | some cursor =>
      obtain ⟨hpending, hnonneg, hlt⟩ := hreplaying cursor hcursor
      have hdecode : seq.isRecomputeDecode = true := by
        simp [isRecomputeDecode, isRecomputeReplay, hcursor, hdecoding.prefilled_eq]
      rw [if_pos hdecode]
      dsimp only [Option.getD_some]
      split
      · exact ⟨⟨hdecoding.prefilled_eq, hdecoding.prompt_pos, hdecoding.output_pos,
          fun other hother => nomatch hother⟩, h.counted.congr rfl, rfl, rfl⟩
      · next hmore =>
        refine ⟨⟨hdecoding.prefilled_eq, hdecoding.prompt_pos, hdecoding.output_pos,
          fun other hother => ?_⟩, h.counted.congr rfl, rfl, rfl⟩
        obtain rfl := Option.some.inj hother
        change ¬ max 0 (seq.numCompletionTokens - 1) ≤ cursor + 1 at hmore
        refine ⟨hpending, by omega, ?_⟩
        show cursor + 1 < seq.numCompletionTokens - 1
        omega

end Sequence

namespace Scheduler

open Routine

variable {Id Env : Type} {ledger : Env → List (Sequence Id)} {scheduler next : Scheduler Id Env}
  {completePrefillExecution : ℕ → Hook Id Env Unit} {monotonic : Hook Id Env ℚ}
  {resetPrefillExecutionState : ℕ → Hook Id Env Unit} {eosTokenIds : List ℤ}
  {retainFinished : Bool}

/-- A hook that returns and writes no sequence. -/
structure Quiet (ledger : Env → List (Sequence Id)) {α : Type} (hook : Hook Id Env α) : Prop where
  untouching : Untouching ledger hook
  returns : Returns hook

variable {bad : Scheduler Id Env → Prop}

theorem Quiet.wpe {α : Type} {hook : Hook Id Env α} (h : Quiet ledger hook) {post : α → Scheduler Id Env → Prop}
    (hpost : ∀ a next, next.rest ledger = scheduler.rest ledger →
      next.queues = scheduler.queues → post a next) : wpe (call hook) post bad scheduler :=
  wpe_returns h.returns fun a => hpost a _ (untouched h.untouching scheduler) rfl

/-- One sequence is `later` now, and the queues are as given. -/
structure Moved (ledger : Env → List (Sequence Id)) (scheduler : Scheduler Id Env) (seqId : ℕ)
    (later : Sequence Id) (waiting decoding : List ℕ) (next : Scheduler Id Env) : Prop where
  seqs_eq : next.world.seqs = Function.update scheduler.world.seqs seqId later
  waiting_eq : next.waiting = waiting
  decoding_eq : next.decoding = decoding
  inflight_eq : next.asyncInflight = scheduler.asyncInflight
  ledger_eq : ledger next.world.env = ledger scheduler.world.env

namespace Moved

variable {seqId : ℕ} {later : Sequence Id} {waiting decoding : List ℕ}

theorem seq_eq (h : Moved ledger scheduler seqId later waiting decoding next) (other : ℕ) :
    next.seq other = if other = seqId then later else scheduler.seq other := by
  show next.world.seqs other = _
  rw [h.seqs_eq, Function.update_apply]
  rfl

theorem seq_self (h : Moved ledger scheduler seqId later waiting decoding next) :
    next.seq seqId = later := by
  rw [h.seq_eq, if_pos rfl]

theorem start (seqId : ℕ) : Moved ledger scheduler seqId (scheduler.seq seqId) scheduler.waiting
    scheduler.decoding scheduler :=
  ⟨(Function.update_eq_self seqId scheduler.world.seqs).symm, rfl, rfl, rfl, rfl⟩

theorem set (h : Moved ledger scheduler seqId later waiting decoding next) (update : Sequence Id → Sequence Id) :
    Moved ledger scheduler seqId (update later) waiting decoding (setSeq seqId update next) := by
  refine ⟨?_, h.waiting_eq, h.decoding_eq, h.inflight_eq, h.ledger_eq⟩
  show Function.update next.world.seqs seqId (update (next.seq seqId)) = _
  rw [h.seqs_eq, h.seq_self, Function.update_idem]

theorem of_rest {last : Scheduler Id Env} (h : Moved ledger scheduler seqId later waiting decoding next)
    (hrest : last.rest ledger = next.rest ledger) (hqueues : last.queues = next.queues) :
    Moved ledger scheduler seqId later waiting decoding last :=
  ⟨(congrArg Prod.fst hrest).trans h.seqs_eq, (congrArg Prod.fst hqueues).trans h.waiting_eq,
    (congrArg (·.2.2) hqueues).trans h.decoding_eq, (congrArg (·.2.2.1) hrest).trans h.inflight_eq,
    (congrArg (·.2.2.2) hrest).trans h.ledger_eq⟩

variable {bad : Scheduler Id Env → Prop}

section

variable (h : Moved ledger scheduler seqId later waiting decoding next)

include h

theorem wpe_set {update : Sequence Id → Sequence Id} {post : Unit → Scheduler Id Env → Prop}
    (hpost : ∀ last, Moved ledger scheduler seqId (update later) waiting decoding last →
      post () last) : wpe (write (setSeq seqId update)) post bad next :=
  hpost _ (h.set update)

theorem wpe_quiet {α : Type} {hook : Hook Id Env α} (hhook : Quiet ledger hook) {post : α → Scheduler Id Env → Prop}
    (hpost : ∀ a last, Moved ledger scheduler seqId later waiting decoding last → post a last) :
    wpe (call hook) post bad next :=
  hhook.wpe fun a last hrest hqueues => hpost a last (h.of_rest hrest hqueues)

/-- A finished sequence leaves the decoding queue. -/
theorem remove (hmem : seqId ∈ decoding) :
    wpe (removeDecoding seqId) (fun _ last => Moved ledger scheduler seqId later waiting (decoding.erase seqId) last)
      bad next := by
  have hdecoding := h.decoding_eq
  unfold removeDecoding
  rw [wpe_get, wpe_guard, hdecoding]
  refine ⟨fun hnot => absurd hmem hnot, fun _ => ?_⟩
  exact ⟨h.seqs_eq, h.waiting_eq, congrArg (List.erase · seqId) hdecoding, h.inflight_eq, h.ledger_eq⟩

end

end Moved

/-- The queues after a prefill step of a sequence that was in none of them. -/
def PrefillQueued (scheduler : Scheduler Id Env) (seqId : ℕ) (retainFinished : Bool)
    (unfinished : Prop) (waiting decoding : List ℕ) : Prop :=
  (unfinished ∧ waiting = seqId :: scheduler.waiting ∧ decoding = scheduler.decoding) ∨
    (¬ unfinished ∧ waiting = scheduler.waiting ∧
      (retainFinished = false ∧ decoding = scheduler.decoding ∨
        decoding = scheduler.decoding ++ [seqId]))

/-- **A prefill step** for one sequence, which is in no queue. -/
theorem postprocessPrefill_moved (hcomplete : ∀ seqId, Quiet ledger (completePrefillExecution seqId))
    (hmonotonic : Quiet ledger monotonic) {seqId : ℕ} {chunkSize : ℤ}
    (hchunk : (scheduler.seq seqId).currentChunkSize = some chunkSize)
    (hfree : seqId ∉ scheduler.decoding) (token : ℤ) :
    wpe (postprocessPrefill completePrefillExecution monotonic eosTokenIds retainFinished seqId token)
      (fun _ next => ∃ status waiting decoding,
        Moved ledger scheduler seqId { (scheduler.seq seqId).afterPrefill chunkSize token with
          status := status } waiting decoding next ∧
        PrefillQueued scheduler seqId retainFinished ((scheduler.seq seqId).numPrefilledTokens +
          chunkSize < (scheduler.seq seqId).numPromptTokens) waiting decoding ∧
        ((scheduler.seq seqId).numPromptTokens ≤ (scheduler.seq seqId).numPrefilledTokens + chunkSize →
          (scheduler.seq seqId).isRecomputeReplay = false →
          ((scheduler.seq seqId).afterPrefill chunkSize token).endsWith eosTokenIds token = true →
          status = .finished))
      bad scheduler := by
  generalize hseq : scheduler.seq seqId = seq at hchunk ⊢
  have hstart : Moved ledger scheduler seqId seq scheduler.waiting scheduler.decoding scheduler :=
    hseq ▸ .start seqId
  unfold postprocessPrefill
  have hprefilled : seq.prefilledAfterChunk = .ok (seq.numPrefilledTokens + chunkSize) := by
    unfold Sequence.prefilledAfterChunk
    rw [hchunk]
  rw [wpe_get, wpe_bind, hseq, hprefilled, wpe_ok, wpe_bind]
  refine hstart.wpe_set fun s1 hs1 => ?_
  rw [wpe_get, hs1.seq_self, wpe_ite]
  refine ⟨fun hlt => ?_, fun hend => ?_⟩
  · -- the rest of the prompt waits
    rw [wpe_bind]
    refine hs1.wpe_set fun s2 hs2 => ?_
    rw [wpe_bind]
    refine hs2.wpe_quiet hmonotonic fun now s3 hs3 => ?_
    refine ⟨.waiting, _, _, ?_, .inl ⟨hlt, rfl, rfl⟩, fun hle => absurd hlt (Int.not_lt.mpr hle)⟩
    rw [Sequence.afterPrefill_of_lt hlt]
    exact ⟨hs3.seqs_eq, congrArg (seqId :: ·) hs3.waiting_eq, hs3.decoding_eq, hs3.inflight_eq, hs3.ledger_eq⟩
  · rw [wpe_bind]
    refine hs1.wpe_quiet (hcomplete seqId) fun _ s2 hs2 => ?_
    rw [wpe_bind]
    refine hs2.wpe_set fun s3 hs3 => ?_
    rw [wpe_set, wpe_get]
    have hs4 : Moved ledger scheduler seqId { seq with
        numPrefilledTokens := seq.numPrefilledTokens + chunkSize, status := .running }
        scheduler.waiting (scheduler.decoding ++ [seqId])
        { s3 with decoding := s3.decoding ++ [seqId] } :=
      ⟨hs3.seqs_eq, hs3.waiting_eq, congrArg (· ++ [seqId]) hs3.decoding_eq, hs3.inflight_eq, hs3.ledger_eq⟩
    generalize ({ s3 with decoding := s3.decoding ++ [seqId] } : Scheduler Id Env) = s4 at hs4 ⊢
    have hqueued : ∀ decoding, retainFinished = false ∧ decoding = scheduler.decoding ∨
        decoding = scheduler.decoding ++ [seqId] → PrefillQueued scheduler seqId retainFinished
        (seq.numPrefilledTokens + chunkSize < seq.numPromptTokens) scheduler.waiting decoding :=
      fun _ hdecoding => .inr ⟨hend, rfl, hdecoding⟩
    rw [hs4.seq_self, wpe_ite]
    refine ⟨fun hreplay => ?_, fun hfirst => ?_⟩
    · -- a replay keeps the tokens it has
      have hafter : seq.afterPrefill chunkSize token =
          if max 0 (seq.numCompletionTokens - 1) = 0 then
            { seq with
              numPrefilledTokens := seq.numPrefilledTokens + chunkSize
              recomputeReplayCursor := none
              decodeProgressCheckpoint := seq.numCompletionTokens }
          else { seq with numPrefilledTokens := seq.numPrefilledTokens + chunkSize } :=
        (if_neg hend).trans (if_pos hreplay)
      rw [hafter, wpe_whenDo]
      refine ⟨fun hzero => ?_, fun hmore => ?_⟩
      · change max 0 (seq.numCompletionTokens - 1) = 0 at hzero
        rw [if_pos hzero, wpe_bind]
        have hfinish : ∀ replaying : Sequence Id, replaying.isRecomputeReplay = true →
            replaying.finishRecomputeReplay = .ok { replaying with
              recomputeReplayCursor := none
              decodeProgressCheckpoint := replaying.numCompletionTokens } := by
          intro replaying hreplaying
          unfold Sequence.finishRecomputeReplay
          rw [if_neg (by simp [hreplaying])]
        rw [hfinish _ hreplay, wpe_ok]
        refine hs4.wpe_set fun s5 hs5 => ?_
        exact ⟨.running, _, _, hs5, hqueued _ (.inr rfl), fun _ haccept =>
          absurd (hreplay.symm.trans haccept) (Bool.noConfusion ·)⟩
      · change ¬ max 0 (seq.numCompletionTokens - 1) = 0 at hmore
        rw [if_neg hmore]
        exact ⟨.running, _, _, hs4, hqueued _ (.inr rfl), fun _ haccept =>
          absurd (hreplay.symm.trans haccept) (Bool.noConfusion ·)⟩
    · -- the first output
      have hafter : seq.afterPrefill chunkSize token =
          ({ seq with numPrefilledTokens := seq.numPrefilledTokens + chunkSize } :
            Sequence Id).appendToken token := (if_neg hend).trans (if_neg hfirst)
      rw [hafter, wpe_bind]
      refine hs4.wpe_set fun s5 hs5 => ?_
      rw [wpe_get, wpe_whenDo, hs5.seq_self]
      refine ⟨fun _ => ?_, fun hmore => ⟨.running, _, _, hs5, hqueued _ (.inr rfl),
        fun _ _ hends => absurd hends hmore⟩⟩
      rw [wpe_bind]
      refine hs5.wpe_set fun s6 hs6 => ?_
      rw [wpe_whenDo]
      refine ⟨fun hdrop => ?_, fun _ => ⟨.finished, _, _, hs6, hqueued _ (.inr rfl), fun _ _ _ => rfl⟩⟩
      refine wpe_mono (hs6.remove (List.mem_append_right _ (List.mem_singleton_self seqId)))
        fun _ s7 hs7 => ⟨.finished, _, _, hs7, hqueued _ (.inl ⟨hdrop, ?_⟩), fun _ _ _ => rfl⟩
      rw [List.erase_append_right _ hfree, List.erase_cons_head, List.append_nil]

/-- **A decode step** for one sequence. -/
theorem postprocessDecode_moved (ledger : Env → List (Sequence Id)) {seqId : ℕ}
    (hmem : seqId ∈ scheduler.decoding) (token : ℤ) :
    wpe (postprocessDecode eosTokenIds retainFinished seqId token)
      (fun _ next => ∃ status decoding,
        Moved ledger scheduler seqId { (scheduler.seq seqId).afterDecode token with
          status := status } scheduler.waiting decoding next ∧
        (decoding = scheduler.decoding ∨ retainFinished = false ∧ decoding = scheduler.decoding.erase seqId) ∧
        ((scheduler.seq seqId).isRecomputeDecode = false →
          ((scheduler.seq seqId).afterDecode token).endsWith eosTokenIds token = true →
          status = .finished))
      bad scheduler := by
  generalize hseq : scheduler.seq seqId = seq
  have hstart : Moved ledger scheduler seqId seq scheduler.waiting scheduler.decoding scheduler :=
    hseq ▸ .start seqId
  unfold postprocessDecode
  rw [wpe_get, hseq, wpe_ite]
  refine ⟨fun hreplay => ?_, fun haccept => ?_⟩
  · rw [wpe_bind, Sequence.advanceRecomputeReplay_eq hreplay token, wpe_ok]
    refine hstart.wpe_set fun s1 hs1 => ?_
    exact ⟨_, _, hs1, .inl rfl, fun haccept =>
      absurd (hreplay.symm.trans haccept) (Bool.noConfusion ·)⟩
  · rw [wpe_bind, Sequence.afterDecode, if_neg haccept]
    refine hstart.wpe_set fun s1 hs1 => ?_
    rw [wpe_get, wpe_whenDo, hs1.seq_self]
    refine ⟨fun _ => ?_, fun hmore => ⟨_, _, hs1, .inl rfl, fun _ hends => absurd hends hmore⟩⟩
    rw [wpe_bind]
    refine hs1.wpe_set fun s2 hs2 => ?_
    rw [wpe_get, wpe_whenDo]
    refine ⟨fun hdrop => ?_, fun _ => ⟨.finished, _, hs2, .inl rfl, fun _ _ => rfl⟩⟩
    exact wpe_mono (hs2.remove hmem) fun _ s3 hs3 =>
      ⟨.finished, _, hs3, .inr ⟨hdrop.1, rfl⟩, fun _ _ => rfl⟩

variable [PrefixReuse]

/-- What holds between two calls when no step is in flight. -/
structure Orderly (scheduler : Scheduler Id Env) : Prop where
  wellformed : ∀ seqId, (scheduler.seq seqId).Wellformed
  decoding : ∀ seqId ∈ scheduler.decoding, (scheduler.seq seqId).Decoding
  nodup : (scheduler.waiting ++ scheduler.decoding).Nodup
  pending : ∀ seqId, (scheduler.seq seqId).numPendingOutputs = 0
  inflight : scheduler.asyncInflight = 0

theorem Orderly.ready (h : Orderly scheduler) : Ready scheduler :=
  ⟨h.wellformed, h.decoding, (List.nodup_append.mp h.nodup).2.1, fun _ seqId _ => h.pending seqId⟩

/-- A batch that `schedule` has returned. -/
structure Batch (isPrefill : Bool) (seqIds : List ℕ) (scheduler : Scheduler Id Env) : Prop where
  nodup : seqIds.Nodup
  prefill : isPrefill = true → ∀ seqId ∈ seqIds,
    (scheduler.seq seqId).Chunked ∧ seqId ∉ scheduler.waiting ++ scheduler.decoding
  decode : isPrefill = false → seqIds ⊆ scheduler.decoding

/-- The sequences that a batch has taken out of the queues. -/
def taken (result : ScheduleResult) : List ℕ :=
  if result.isPrefill then result.seqs else []

/-- What a call of `schedule` leaves of the queues it started with. -/
structure Divided (start : Scheduler Id Env) (result : ScheduleResult)
    (next : Scheduler Id Env) : Prop where
  perm : (next.waiting ++ next.decoding ++ taken result).Perm (start.waiting ++ start.decoding)
  nodup : (next.waiting ++ next.decoding).Nodup
  batch : Batch result.isPrefill result.seqs next

theorem Divided.of_conserved {start : Scheduler Id Env} {result : ScheduleResult}
    (hnodup : (start.waiting ++ start.decoding).Nodup)
    (h : Conserved (start.waiting ++ start.decoding) (.ok result) next)
    (hscheduled : Scheduled ledger start result next) : Divided start result next := by
  unfold Conserved at h
  dsimp only at h
  cases hprefill : result.isPrefill with
  | true =>
      rw [if_pos hprefill] at h
      have htaken : taken result = result.seqs := if_pos hprefill
      obtain ⟨hrest, hbatch, hdisjoint⟩ := List.nodup_append.mp (h.1.nodup_iff.mpr hnodup)
      refine ⟨htaken ▸ h.1, hrest, hbatch, fun _ seqId hmem =>
        ⟨hscheduled.chunked hprefill seqId hmem, fun hqueued => ?_⟩,
        fun hdecode => absurd (hdecode.symm.trans hprefill) Bool.false_ne_true⟩
      exact hdisjoint seqId hqueued seqId hmem rfl
  | false =>
      rw [if_neg (by simp [hprefill])] at h
      obtain ⟨hperm, hbatch, hdecoding, _⟩ := h
      have htaken : taken result = [] := if_neg (by simp [hprefill])
      refine ⟨?_, hperm.nodup_iff.mpr hnodup, hbatch,
        fun htrue => absurd (hprefill.symm.trans htrue) Bool.false_ne_true,
        fun _ seqId hmem => ?_⟩
      · rw [htaken, List.append_nil]
        exact hperm
      · exact List.count_pos_iff.mp (by rw [hdecoding seqId hmem]; exact Nat.one_pos)

section

variable {Key Resource : Type} [DecidableEq Key] [DecidableEq Resource] {config : SchedulerConfig}
  {oracle : MemoryOracle Id Env Key Resource} {callbacks : SchedulerCallbacks Id Env}

/-- **A call of `schedule`**, for the queues and the sequences together. -/
theorem schedule_divided {scheduler : Scheduler Id Env} (h : Tame ledger oracle callbacks)
    (hready : Ready scheduler) (hnodup : (scheduler.waiting ++ scheduler.decoding).Nodup) :
    wpe (schedule config oracle callbacks)
      (fun batch next => Scheduled ledger scheduler batch next ∧ Divided scheduler batch next)
      (fun next => Halted ledger scheduler next ∧
        (next.waiting ++ next.decoding).Perm (scheduler.waiting ++ scheduler.decoding))
      scheduler := by
  have hqueues := wp_schedule_conserved config oracle callbacks scheduler hnodup
  have hseqs : wpe (schedule config oracle callbacks) (Scheduled ledger scheduler)
      (Halted ledger scheduler) scheduler := schedule_scheduled h hready
  rw [wp_def] at hqueues
  rw [wpe_def] at hseqs ⊢
  generalize (schedule config oracle callbacks scheduler).2 = next at hqueues hseqs ⊢
  cases hrun : (schedule config oracle callbacks scheduler).1 with
  | error error =>
      rw [hrun] at hqueues hseqs
      exact ⟨hseqs, hqueues⟩
  | ok batch =>
      rw [hrun] at hqueues hseqs
      exact ⟨hseqs, .of_conserved hnodup hqueues hseqs⟩

end

end Scheduler

namespace Sequence

variable {Id : Type}

/-- A sequence after a step, but for its status. -/
def afterStep (isPrefill : Bool) (token : ℤ) (seq : Sequence Id) : Sequence Id :=
  if isPrefill then seq.afterPrefill (seq.currentChunkSize.getD 0) token
  else seq.afterDecode token

/-- The step accepts the sampled token. -/
def accepts (isPrefill : Bool) (seq : Sequence Id) : Bool :=
  !seq.isRecomputeReplay && (!isPrefill ||
    decide (seq.numPromptTokens ≤ seq.numPrefilledTokens + seq.currentChunkSize.getD 0))

/-- The fields that a step does not write. -/
theorem afterStep_kept (isPrefill : Bool) (token : ℤ) (seq : Sequence Id) :
    (seq.afterStep isPrefill token).numPendingOutputs = seq.numPendingOutputs ∧
      (seq.afterStep isPrefill token).currentChunkSize = seq.currentChunkSize := by
  unfold afterStep afterPrefill afterDecode appendToken
  dsimp only
  refine ⟨?_, ?_⟩ <;> (repeat' split) <;> rfl

theorem rescheduled_status [PrefixReuse] (seq : Sequence Id) (status : SequenceStatus) :
    seq.Rescheduled { seq with status := status } :=
  .of_fields rfl rfl rfl (.inl rfl)

end Sequence

namespace Scheduler

open Routine

variable {Id Env : Type} {ledger : Env → List (Sequence Id)} {scheduler next : Scheduler Id Env}
  {completePrefillExecution : ℕ → Hook Id Env Unit} {monotonic : Hook Id Env ℚ}
  {eosTokenIds : List ℤ} {retainFinished : Bool}

/-- The sequence has moved on by one step, and has finished if that was its last
one. -/
def Stepped (eosTokenIds : List ℤ) (isPrefill : Bool) (token : ℤ) (seq later : Sequence Id) :
    Prop :=
  ∃ status, later = { seq.afterStep isPrefill token with status := status } ∧
    (seq.accepts isPrefill = true →
      (seq.afterStep isPrefill token).endsWith eosTokenIds token = true → status = .finished)

/-- Every sequence of the batch has moved on by one step. -/
structure Processed (ledger : Env → List (Sequence Id)) (eosTokenIds : List ℤ)
    (retainFinished isPrefill : Bool) (pairs : List (ℕ × ℤ)) (scheduler next : Scheduler Id Env) :
    Prop where
  others : ∀ seqId ∉ pairs.map Prod.fst, next.seq seqId = scheduler.seq seqId
  each : ∀ pair ∈ pairs,
    Stepped eosTokenIds isPrefill pair.2 (scheduler.seq pair.1) (next.seq pair.1)
  queues : retainFinished = true → (next.waiting ++ next.decoding).Perm
    (scheduler.waiting ++ scheduler.decoding ++ if isPrefill then pairs.map Prod.fst else [])
  ledger_eq : ledger next.world.env = ledger scheduler.world.env

/-- The queues that one step of the batch may leave. -/
structure Requeued (retainFinished isPrefill : Bool) (seqId : ℕ)
    (others waiting decoding : List ℕ) (scheduler : Scheduler Id Env) : Prop where
  nodup : (waiting ++ decoding).Nodup
  decoding_old : ∀ other ∈ decoding, other ≠ seqId → other ∈ scheduler.decoding
  prefill : isPrefill = true → ∀ other ∈ waiting ++ decoding, other ≠ seqId →
    other ∈ scheduler.waiting ++ scheduler.decoding
  decode : isPrefill = false → others ⊆ decoding
  perm : retainFinished = true → (waiting ++ decoding).Perm
    (scheduler.waiting ++ scheduler.decoding ++ if isPrefill then [seqId] else [])

variable {isPrefill : Bool} {others : List ℕ} {status : SequenceStatus}
  {bad : Scheduler Id Env → Prop} {last : Scheduler Id Env}

section

variable [PrefixReuse]

theorem Moved.processed {seqId : ℕ} {waiting decoding : List ℕ} {token : ℤ}
    (horderly : Orderly scheduler) (hbatch : Batch isPrefill (seqId :: others) scheduler)
    (hmoved : Moved ledger scheduler seqId
      { (scheduler.seq seqId).afterStep isPrefill token with status := status }
      waiting decoding next) (hafter : ((scheduler.seq seqId).afterStep isPrefill token).Wellformed)
    (hdecodes : seqId ∈ decoding → ((scheduler.seq seqId).afterStep isPrefill token).Decoding)
    (hends : (scheduler.seq seqId).accepts isPrefill = true →
      ((scheduler.seq seqId).afterStep isPrefill token).endsWith eosTokenIds token = true → status = .finished)
    (hqueues : Requeued retainFinished isPrefill seqId others waiting decoding scheduler) :
    Orderly next ∧ Batch isPrefill others next ∧
      Processed ledger eosTokenIds retainFinished isPrefill [(seqId, token)] scheduler next := by
  obtain ⟨hnot, hnodup⟩ := List.nodup_cons.mp hbatch.nodup
  have hmove := Sequence.rescheduled_status ((scheduler.seq seqId).afterStep isPrefill token) status
  refine ⟨⟨fun other => ?_, fun other hmem => ?_, ?_, fun other => ?_,
    hmoved.inflight_eq.trans horderly.inflight⟩, ⟨hnodup, fun hprefill other hmem => ?_,
    fun hdecode => ?_⟩, fun other hother => ?_, fun pair hpair => ?_, fun hretain => ?_,
    hmoved.ledger_eq⟩
  · rw [hmoved.seq_eq]
    split
    · exact hmove.wellformed hafter
    · exact horderly.wellformed other
  · rw [hmoved.decoding_eq] at hmem
    rw [hmoved.seq_eq]
    split
    · next heq => exact (hdecodes (heq ▸ hmem)).rescheduled hmove
    · next hne => exact horderly.decoding other (hqueues.decoding_old other hmem hne)
  · rw [hmoved.waiting_eq, hmoved.decoding_eq]
    exact hqueues.nodup
  · rw [hmoved.seq_eq]
    split
    · exact (Sequence.afterStep_kept isPrefill token (scheduler.seq seqId)).1.trans (horderly.pending seqId)
    · exact horderly.pending other
  · have hne : other ≠ seqId := fun heq => hnot (heq ▸ hmem)
    obtain ⟨hchunked, hfree⟩ := hbatch.prefill hprefill other (List.mem_cons_of_mem _ hmem)
    rw [hmoved.seq_eq, if_neg hne, hmoved.waiting_eq, hmoved.decoding_eq]
    exact ⟨hchunked, fun hin => hfree (hqueues.prefill hprefill other hin hne)⟩
  · rw [hmoved.decoding_eq]
    exact hqueues.decode hdecode
  · rw [hmoved.seq_eq, if_neg]
    exact fun heq => hother (List.mem_singleton.mpr heq)
  · obtain rfl := List.mem_singleton.mp hpair
    exact ⟨status, hmoved.seq_self, hends⟩
  · rw [hmoved.waiting_eq, hmoved.decoding_eq]
    exact hqueues.perm hretain

omit [PrefixReuse] in
/-- After a prefill step the sequence is in one queue, or in none when it has
finished. -/
theorem PrefillQueued.requeued {seqId : ℕ} {waiting decoding : List ℕ} {unfinished : Prop}
    (h : PrefillQueued scheduler seqId retainFinished unfinished waiting decoding)
    (hnodup : (scheduler.waiting ++ scheduler.decoding).Nodup)
    (hfree : seqId ∉ scheduler.waiting ++ scheduler.decoding) :
    Requeued retainFinished true seqId others waiting decoding scheduler := by
  have hcons := List.nodup_cons.mpr ⟨hfree, hnodup⟩
  rcases h with ⟨_, rfl, rfl⟩ | ⟨_, rfl, ⟨hdrop, rfl⟩ | rfl⟩
  · refine ⟨hcons, fun other hother _ => hother, fun _ other hother hne =>
      (List.mem_cons.mp hother).resolve_left hne, fun hdecode => absurd hdecode.symm
      Bool.false_ne_true, fun _ => ?_⟩
    have hmove : ([seqId] ++ (scheduler.waiting ++ scheduler.decoding)).Perm
        (scheduler.waiting ++ scheduler.decoding ++ [seqId]) := List.perm_append_comm
    exact hmove
  · exact ⟨hnodup, fun other hother _ => hother, fun _ other hother _ => hother,
      fun hdecode => absurd hdecode.symm Bool.false_ne_true,
      fun hretain => absurd (hdrop.symm.trans hretain) Bool.false_ne_true⟩
  · have hsingle : ∀ {other : ℕ} {queue : List ℕ}, other ∈ queue ++ [seqId] → other ≠ seqId →
        other ∈ queue := fun hother hne =>
      (List.mem_append.mp hother).resolve_right fun heq => hne (List.mem_singleton.mp heq)
    refine ⟨?_, fun other hother hne => hsingle hother hne, fun _ other hother hne => ?_,
      fun hdecode => absurd hdecode.symm Bool.false_ne_true, fun _ => ?_⟩
    · rw [← List.append_assoc]
      exact List.nodup_append_comm.mp hcons
    · rw [← List.append_assoc] at hother
      exact hsingle hother hne
    · rw [if_pos rfl, List.append_assoc]

/-- One sequence of the batch, and the queues for the rest of it. -/
theorem postprocessOne_moved (hcomplete : ∀ seqId, Quiet ledger (completePrefillExecution seqId))
    (hmonotonic : Quiet ledger monotonic) {seqId : ℕ} (horderly : Orderly scheduler)
    (hbatch : Batch isPrefill (seqId :: others) scheduler) (token : ℤ) :
    wpe (if isPrefill then
        postprocessPrefill completePrefillExecution monotonic eosTokenIds retainFinished seqId token
      else postprocessDecode eosTokenIds retainFinished seqId token)
      (fun _ next => Orderly next ∧ Batch isPrefill others next ∧
        Processed ledger eosTokenIds retainFinished isPrefill [(seqId, token)] scheduler next)
      bad scheduler := by
  have hwell := horderly.wellformed seqId
  cases isPrefill with
  | true =>
      obtain ⟨⟨chunkSize, hchunk, hpos, hle⟩, hfree⟩ := hbatch.prefill rfl seqId List.mem_cons_self
      obtain ⟨hafter, hend⟩ := hwell.afterPrefill hpos hle token
      have hstep : (scheduler.seq seqId).afterStep true token =
          (scheduler.seq seqId).afterPrefill chunkSize token := by
        unfold Sequence.afterStep
        rw [if_pos rfl, hchunk, Option.getD_some]
      rw [← hstep] at hafter hend
      refine wpe_mono (postprocessPrefill_moved hcomplete hmonotonic hchunk
        (fun hmem => hfree (List.mem_append_right _ hmem)) token) fun _ next hnext => ?_
      obtain ⟨status, waiting, decoding, hmoved, hqueued, hends⟩ := hnext
      rw [← hstep] at hmoved hends
      refine hmoved.processed horderly hbatch hafter (fun hmem => hend ?_) (fun haccepts => ?_)
        (hqueued.requeued horderly.nodup hfree)
      swap
      · unfold Sequence.accepts at haccepts
        rw [hchunk, Option.getD_some] at haccepts
        simp only [Bool.not_true, Bool.false_or, Bool.and_eq_true, Bool.not_eq_true', decide_eq_true_eq] at haccepts
        exact hends haccepts.2 haccepts.1
      -- a prefill row was in no queue, so it decodes only if its prompt is done
      rcases hqueued with ⟨_, _, rfl⟩ | ⟨hnot, _⟩
      · exact absurd (List.mem_append_right _ hmem) hfree
      · omega
  | false =>
      have hmem := hbatch.decode rfl List.mem_cons_self
      obtain ⟨hafter, hdecodes⟩ := hwell.afterDecode (horderly.decoding seqId hmem) token
      refine wpe_mono (postprocessDecode_moved ledger hmem token) fun _ next hnext => ?_
      obtain ⟨status, decoding, hmoved, hdecoding, hends⟩ := hnext
      obtain ⟨hnot, hothers⟩ := List.nodup_cons.mp hbatch.nodup
      -- a decode row stays in its queue or leaves it with the request:
      have hsub : decoding.Sublist scheduler.decoding := by
        rcases hdecoding with rfl | ⟨_, rfl⟩
        · exact List.Sublist.refl _
        · exact List.erase_sublist
      refine hmoved.processed horderly hbatch hafter (fun _ => hdecodes) (fun haccepts => hends ?_)
        ⟨horderly.nodup.sublist (hsub.append_left scheduler.waiting), fun other hother _ => hsub.subset hother,
          fun hprefill => absurd hprefill Bool.false_ne_true, fun _ other hother => ?_,
          fun hretain => ?_⟩
      · unfold Sequence.accepts at haccepts
        rw [Bool.and_eq_true, Bool.not_eq_true'] at haccepts
        unfold Sequence.isRecomputeDecode
        rw [haccepts.1, Bool.false_and]
      · have hqueued := hbatch.decode rfl (List.mem_cons_of_mem seqId hother)
        rcases hdecoding with rfl | ⟨_, rfl⟩
        · exact hqueued
        · have hne : other ≠ seqId := fun heq => hnot (heq ▸ hother)
          exact (List.mem_erase_of_ne hne).mpr hqueued
      · rcases hdecoding with rfl | ⟨hdrop, _⟩
        · rw [if_neg Bool.false_ne_true, List.append_nil]
        · exact absurd (hdrop.symm.trans hretain) Bool.false_ne_true

omit [PrefixReuse] in
theorem Processed.cons {pair : ℕ × ℤ} {pairs : List (ℕ × ℤ)} (hnot : pair.1 ∉ pairs.map Prod.fst)
    (hfirst : Processed ledger eosTokenIds retainFinished isPrefill [pair] scheduler next)
    (hrest : Processed ledger eosTokenIds retainFinished isPrefill pairs next last) :
    Processed ledger eosTokenIds retainFinished isPrefill (pair :: pairs) scheduler last := by
  refine ⟨fun seqId hmem => ?_, fun other hother => ?_, fun hretain => ?_, hrest.ledger_eq.trans hfirst.ledger_eq⟩
  · rw [List.map_cons, List.mem_cons, not_or] at hmem
    rw [hrest.others seqId hmem.2]
    exact hfirst.others seqId fun heq => hmem.1 (List.mem_singleton.mp heq)
  · rcases List.mem_cons.mp hother with rfl | hlater
    · have hstep := hfirst.each other (List.mem_singleton_self other)
      rw [← hrest.others other.1 hnot] at hstep
      exact hstep
    · have hstep := hrest.each other hlater
      have hne : other.1 ∉ [pair].map Prod.fst := by
        intro heq
        have hmem : other.1 ∈ pairs.map Prod.fst := List.mem_map_of_mem hlater
        rw [List.mem_singleton.mp heq] at hmem
        exact hnot hmem
      rw [hfirst.others other.1 hne] at hstep
      exact hstep
  · have hlast := hrest.queues hretain
    have hnext := hfirst.queues hretain
    cases isPrefill with
    | false =>
        simp only [Bool.false_eq_true, if_false, List.append_nil] at hlast hnext ⊢
        exact hlast.trans hnext
    | true =>
        simp only [if_true, List.map_cons, List.map_nil] at hlast hnext ⊢
        have hboth := hlast.trans (hnext.append_right (pairs.map Prod.fst))
        rwa [List.append_assoc, List.singleton_append] at hboth

/-- **`postprocess`** returns, and moves every sequence of the batch on. -/
theorem postprocess_processed (hcomplete : ∀ seqId, Quiet ledger (completePrefillExecution seqId))
    (hmonotonic : Quiet ledger monotonic) (pairs : List (ℕ × ℤ)) (horderly : Orderly scheduler)
    (hbatch : Batch isPrefill (pairs.map Prod.fst) scheduler) :
    wpe (postprocess completePrefillExecution monotonic eosTokenIds retainFinished isPrefill pairs)
      (fun _ next => Orderly next ∧ Processed ledger eosTokenIds retainFinished isPrefill pairs scheduler next)
      bad scheduler := by
  induction pairs generalizing scheduler with
  | nil =>
      refine ⟨horderly, fun _ _ => rfl, fun _ hpair => absurd hpair List.not_mem_nil, fun _ => ?_, rfl⟩
      rw [List.map_nil, ite_self, List.append_nil]
      exact List.Perm.refl _
  | cons pair pairs ih =>
      obtain ⟨seqId, token⟩ := pair
      unfold postprocess
      refine wpe_then (postprocessOne_moved hcomplete hmonotonic horderly hbatch token) fun _ next hnext => ?_
      obtain ⟨hnext, hothers, hfirst⟩ := hnext
      refine wpe_mono (ih hnext hothers) fun _ last hlast => ⟨hlast.1, ?_⟩
      exact hfirst.cons (List.nodup_cons.mp hbatch.nodup).1 hlast.2

/-! ## `add` and `abort_many` -/

end

/-- A request joins the waiting queue. -/
theorem add_moved (hmonotonic : Quiet ledger monotonic) (seqId : ℕ) :
    wpe (add monotonic seqId)
      (fun _ next => next.rest ledger = scheduler.rest ledger ∧
        next.waiting = scheduler.waiting ++ [seqId]) bad scheduler := by
  have hjoin : ∀ next : Scheduler Id Env, next.rest ledger = scheduler.rest ledger →
      next.waiting = scheduler.waiting →
      wpe (do
        let now ← call monotonic
        write fun scheduler => { scheduler with
          prefillWaitSince := setdefault scheduler.prefillWaitSince seqId now
          waiting := scheduler.waiting ++ [seqId] })
        (fun _ next => next.rest ledger = scheduler.rest ledger ∧
          next.waiting = scheduler.waiting ++ [seqId]) bad next := by
    intro next hrest hwaiting
    rw [wpe_bind]
    refine hmonotonic.wpe fun now s1 hs1 hqueues => ?_
    have hwaiting1 : s1.waiting = next.waiting := congrArg Prod.fst hqueues
    exact ⟨hs1.trans hrest, congrArg (· ++ [seqId]) (hwaiting1.trans hwaiting)⟩
  unfold add
  rw [wpe_get, wpe_get, wpe_bind, wpe_whenDo]
  refine ⟨fun _ => ?_, fun _ => hjoin scheduler rfl rfl⟩
  rw [wpe_set, wpe_bind]
  refine hmonotonic.wpe fun now s1 hs1 hqueues => ?_
  exact hjoin _ hs1 (congrArg Prod.fst hqueues)

/-- The call wrote no sequence but for its status. -/
structure Restatused (ledger : Env → List (Sequence Id)) (scheduler next : Scheduler Id Env) :
    Prop where
  seqs : ∀ seqId, ∃ status, next.seq seqId = { scheduler.seq seqId with status := status }
  inflight_eq : next.asyncInflight = scheduler.asyncInflight
  ledger_eq : ledger next.world.env = ledger scheduler.world.env

theorem Restatused.refl (scheduler : Scheduler Id Env) : Restatused ledger scheduler scheduler :=
  ⟨fun _ => ⟨_, rfl⟩, rfl, rfl⟩

theorem Restatused.trans (hfirst : Restatused ledger scheduler next)
    (hsecond : Restatused ledger next last) : Restatused ledger scheduler last := by
  refine ⟨fun seqId => ?_, hsecond.inflight_eq.trans hfirst.inflight_eq, hsecond.ledger_eq.trans hfirst.ledger_eq⟩
  obtain ⟨_, hnext⟩ := hfirst.seqs seqId
  obtain ⟨status, hlast⟩ := hsecond.seqs seqId
  rw [hnext] at hlast
  exact ⟨status, hlast⟩

theorem Restatused.of_moved {seqId : ℕ} {waiting decoding : List ℕ}
    (h : Moved ledger scheduler seqId { scheduler.seq seqId with status := status } waiting
      decoding next) : Restatused ledger scheduler next := by
  refine ⟨fun other => ?_, h.inflight_eq, h.ledger_eq⟩
  rw [h.seq_eq]
  split
  · next heq => exact heq ▸ ⟨status, rfl⟩
  · exact ⟨_, rfl⟩

/-- What `abort_many` asks of a sequence it removes. -/
def Owning (inDecoding : Bool) (seq : Sequence Id) : Prop :=
  seq.status = .running ∨ 0 < seq.numPrefilledTokens ∨ inDecoding = true

theorem answer_iff {before : Bool} {inDecoding : Bool} {seq : Sequence Id} :
    (before || (decide (seq.status = .running) || decide (0 < seq.numPrefilledTokens) ||
      inDecoding)) = true ↔ before = true ∨ Owning inDecoding seq := by
  unfold Owning
  simp only [Bool.or_eq_true, decide_eq_true_eq, or_assoc]

/-- A removed sequence is not a running one. -/
theorem Owning.of_finished {inDecoding : Bool} {seq : Sequence Id}
    (h : Owning inDecoding { seq with status := .finished }) : Owning inDecoding seq :=
  .inr (h.resolve_left SequenceStatus.noConfusion)

/-- What the answers say of the removed head of a queue, and of the rest. -/
theorem answer_cons {removed : Dict ℕ Bool} {requested others : List ℕ} {inDecoding : Bool}
    {seqId : ℕ} {seqs later : ℕ → Sequence Id} (hrequested : seqId ∈ requested)
    (hlater : ∀ other, later other =
      if other = seqId then { seqs seqId with status := .finished } else seqs other) (other : ℕ) :
    (((removed.set seqId ((removed.get? seqId).getD false ||
        (decide ((seqs seqId).status = .running) || decide (0 < (seqs seqId).numPrefilledTokens) ||
          inDecoding))).get? other).getD false = true ∨
      (other ∈ requested ∧ other ∈ others) ∧ Owning inDecoding (later other)) ↔
    (removed.get? other).getD false = true ∨
      (other ∈ requested ∧ other ∈ seqId :: others) ∧ Owning inDecoding (seqs other) := by
  rw [hlater, List.mem_cons]
  by_cases heq : other = seqId
  · subst heq
    rw [Dict.get?_set_self, Option.getD_some, answer_iff, if_pos rfl]
    constructor
    · rintro ((hbefore | howning) | ⟨_, howning⟩)
      · exact .inl hbefore
      · exact .inr ⟨⟨hrequested, .inl rfl⟩, howning⟩
      · exact .inr ⟨⟨hrequested, .inl rfl⟩, howning.of_finished⟩
    · rintro (hbefore | ⟨_, howning⟩)
      · exact .inl (.inl hbefore)
      · exact .inl (.inr howning)
  · rw [Dict.get?_set_of_ne _ _ heq, if_neg heq, or_iff_right heq]

/-- One queue of `abort_many`: what stays in it, and the answers for those that
leave it. -/
theorem abortPass_restatused {resetPrefillExecutionState : ℕ → Hook Id Env Unit}
    (hreset : ∀ seqId, Quiet ledger (resetPrefillExecutionState seqId)) (requested : List ℕ)
    (inDecoding : Bool) (queue retained : List ℕ) (removed : Dict ℕ Bool) :
    wpe (abortPass resetPrefillExecutionState requested inDecoding queue retained removed)
      (fun result next => result.1 = retained ++ queue.filter (fun seqId => seqId ∉ requested) ∧
        Restatused ledger scheduler next ∧
        (if inDecoding then next.waiting = scheduler.waiting
          else next.decoding = scheduler.decoding) ∧
        ∀ seqId, (result.2.get? seqId).getD false = true ↔ (removed.get? seqId).getD false = true ∨
          (seqId ∈ requested ∧ seqId ∈ queue) ∧ Owning inDecoding (scheduler.seq seqId))
      bad scheduler := by
  induction queue generalizing scheduler retained removed with
  | nil =>
      refine ⟨(List.append_nil retained).symm, .refl scheduler, ?_, fun _ =>
        (or_iff_left fun hmem => List.not_mem_nil hmem.1.2).symm⟩
      split <;> rfl
  | cons seqId others ih =>
      unfold abortPass
      rw [wpe_set]
      generalize hpopped : (if inDecoding = true then { scheduler with decoding := others }
        else { scheduler with waiting := others } : Scheduler Id Env) = popped
      have hsame : Restatused ledger scheduler popped ∧
          (if inDecoding then popped.waiting = scheduler.waiting
            else popped.decoding = scheduler.decoding) ∧ popped.seq = scheduler.seq := by
        subst hpopped
        cases inDecoding with
        | true => exact ⟨⟨fun _ => ⟨_, rfl⟩, rfl, rfl⟩, rfl, rfl⟩
        | false => exact ⟨⟨fun _ => ⟨_, rfl⟩, rfl, rfl⟩, rfl, rfl⟩
      obtain ⟨hpop, hkept, hseqs⟩ := hsame
      -- the rest of the queue, from a state that differs in statuses only
      have hlater : ∀ (next : Scheduler Id Env) (kept : List ℕ) (found : Dict ℕ Bool),
          Restatused ledger popped next → next.waiting = popped.waiting →
          next.decoding = popped.decoding →
          kept ++ others.filter (fun seqId => seqId ∉ requested) =
            retained ++ (seqId :: others).filter (fun seqId => seqId ∉ requested) →
          (∀ other, ((found.get? other).getD false = true ∨
              (other ∈ requested ∧ other ∈ others) ∧ Owning inDecoding (next.seq other)) ↔
            (removed.get? other).getD false = true ∨
              (other ∈ requested ∧ other ∈ seqId :: others) ∧ Owning inDecoding (scheduler.seq other)) →
          wpe (abortPass resetPrefillExecutionState requested inDecoding others kept found)
            (fun result next =>
              result.1 = retained ++ (seqId :: others).filter (fun seqId => seqId ∉ requested) ∧
              Restatused ledger scheduler next ∧
              (if inDecoding then next.waiting = scheduler.waiting
                else next.decoding = scheduler.decoding) ∧
              ∀ other, (result.2.get? other).getD false = true ↔
                (removed.get? other).getD false = true ∨
                  (other ∈ requested ∧ other ∈ seqId :: others) ∧
                    Owning inDecoding (scheduler.seq other)) bad next := by
        intro next kept found hnext hwaiting hdecoding hlist hfound
        refine wpe_mono (ih kept found) fun result last hlast => ?_
        obtain ⟨hresult, hlast, hqueue, hanswer⟩ := hlast
        refine ⟨hresult.trans hlist, (hpop.trans hnext).trans hlast, ?_,
          fun other => (hanswer other).trans (hfound other)⟩
        cases inDecoding with
        | true => exact (hqueue.trans hwaiting).trans hkept
        | false => exact (hqueue.trans hdecoding).trans hkept
      rw [wpe_ite]
      refine ⟨fun hnot => ?_, fun hmem => ?_⟩
      · refine hlater popped _ _ (.refl popped) rfl rfl ?_ fun other => ?_
        · rw [List.filter_cons, if_pos (decide_eq_true hnot), List.append_assoc, List.singleton_append]
        · have hskip : other ∈ requested ∧ other ∈ others ↔ other ∈ requested ∧ other ∈ seqId :: others :=
            and_congr_right fun hin => by
              rw [List.mem_cons, or_iff_right fun heq : other = seqId => hnot (heq ▸ hin)]
          rw [hseqs, hskip]
      · rw [wpe_get, wpe_bind]
        have hstart : Moved ledger popped seqId (popped.seq seqId) popped.waiting popped.decoding
          popped := .start seqId
        refine hstart.wpe_set fun s1 hs1 => ?_
        rw [wpe_set, wpe_bind]
        have hs2 : Moved ledger popped seqId { popped.seq seqId with status := .finished }
            popped.waiting popped.decoding { s1 with
              admissionDeferWarnedSeqIds := s1.admissionDeferWarnedSeqIds.erase seqId } :=
          ⟨hs1.seqs_eq, hs1.waiting_eq, hs1.decoding_eq, hs1.inflight_eq, hs1.ledger_eq⟩
        refine hs2.wpe_quiet (hreset seqId) fun _ s3 hs3 => ?_
        refine hlater s3 _ _ (.of_moved hs3) hs3.waiting_eq hs3.decoding_eq ?_ ?_
        · rw [List.filter_cons, if_neg (by simpa using hmem)]
        · rw [← hseqs]
          exact answer_cons (Decidable.not_not.mp hmem) hs3.seq_eq

/-- **`abort_many`** takes the requests out of both queues, and answers which of
them may own slots. -/
theorem abortMany_restatused {resetPrefillExecutionState : ℕ → Hook Id Env Unit}
    (hreset : ∀ seqId, Quiet ledger (resetPrefillExecutionState seqId)) (requested : List ℕ) :
    wpe (abortMany resetPrefillExecutionState requested)
      (fun removed next => Restatused ledger scheduler next ∧
        next.waiting = scheduler.waiting.filter (fun seqId => seqId ∉ requested) ∧
        next.decoding = scheduler.decoding.filter (fun seqId => seqId ∉ requested) ∧
        ∀ seqId ∈ requested, (removed.get? seqId).getD false = true ↔
          seqId ∈ scheduler.waiting ∧ Owning false (scheduler.seq seqId) ∨ seqId ∈ scheduler.decoding)
      bad scheduler := by
  unfold abortMany
  rw [wpe_ite]
  refine ⟨fun hnone => ?_, fun _ => ?_⟩
  · subst hnone
    rw [wpe_pure]
    refine ⟨.refl scheduler, ?_, ?_, fun _ hmem => absurd hmem List.not_mem_nil⟩ <;> simp
  rw [wpe_set, wpe_get]
  refine wpe_then (abortPass_restatused hreset requested false _ _ _) fun first s1 hs1 => ?_
  obtain ⟨hwaiting, hfirst, hdecoding1, hanswer1⟩ := hs1
  obtain ⟨waiting, removed⟩ := first
  rw [wpe_set, wpe_get]
  refine wpe_then (abortPass_restatused hreset requested true _ _ _) fun second s2 hs2 => ?_
  obtain ⟨hdecoding, hsecond, hwaiting2, hanswer2⟩ := hs2
  refine ⟨?_, ?_, ?_, fun seqId hmem => (hanswer2 seqId).trans ?_⟩
  · have hpopped : Restatused ledger scheduler s1 :=
      ⟨hfirst.seqs, hfirst.inflight_eq, hfirst.ledger_eq⟩
    exact hpopped.trans ⟨hsecond.seqs, hsecond.inflight_eq, hsecond.ledger_eq⟩
  · exact hwaiting2.trans hwaiting
  · refine hdecoding.trans ?_
    exact congrArg (List.filter (fun seqId => seqId ∉ requested)) hdecoding1
  · refine or_congr ((hanswer1 seqId).trans ?_) ?_
    · rw [or_iff_right (by rw [Dict.get?_empty]; exact Bool.false_ne_true), and_iff_right hmem]
      rfl
    · have hqueue : s1.decoding = scheduler.decoding := hdecoding1
      rw [← hqueue, and_iff_right hmem]
      exact and_iff_left (.inr (.inr rfl))

/-- A request is in one queue at most, so that `abort_many` answers what
`request_may_own_slots` would have answered before. -/
theorem requestMayOwnSlots_iff (hnodup : (scheduler.waiting ++ scheduler.decoding).Nodup)
    (seqId : ℕ) : scheduler.requestMayOwnSlots seqId = true ↔
      seqId ∈ scheduler.waiting ∧ Owning false (scheduler.seq seqId) ∨ seqId ∈ scheduler.decoding := by
  unfold requestMayOwnSlots
  split
  · next hwaits =>
    have hdisjoint : seqId ∉ scheduler.decoding := fun hdecodes =>
      (List.nodup_append.mp hnodup).2.2 seqId hwaits seqId hdecodes rfl
    have howning := @answer_iff Id false false (scheduler.seq seqId)
    rw [and_iff_right hwaits, or_iff_left hdisjoint]
    simpa using howning
  · next hgone => rw [decide_eq_true_eq, or_iff_right fun hboth => hgone hboth.1]

end Scheduler
