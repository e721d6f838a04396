import SparseEngine.Scheduler.Tame

/-!
# What `schedule` does to the sequences

Until a preemption no sequence starts over, and every sequence of the decoding
queue goes on decoding, also one that the decode scan has popped (`Kept`). The
preempted sequence starts over and waits; a raise after that leaves the rest
as it is (`Settled`).  So the handler, which puts popped sequences back, puts
back only what decodes, and a returned batch is one that can run: every prompt
has a chunk within its prompt, every other sequence decodes (`Scheduled`).
-/

namespace Scheduler

open Routine

variable [PrefixReuse] {Id Env Key Resource : Type} (ledger : Env → List (Sequence Id))

/-- The chunk size is the one from before or gone, but for the sequences of a
batch. -/
def Leftover (start : Scheduler Id Env) (batch : List ℕ) (scheduler : Scheduler Id Env) : Prop :=
  ∀ seqId ∉ batch,
    (scheduler.seq seqId).currentChunkSize = (start.seq seqId).currentChunkSize ∨
      (scheduler.seq seqId).currentChunkSize = none

/-- What the batched refresher is handed: a prompt that has not been
admitted. -/
structure Handed (start : Scheduler Id Env) (seqId : ℕ) (handed : Sequence Id) : Prop where
  moves : (start.seq seqId).Rescheduled handed
  prefilled_eq : handed.numPrefilledTokens = 0
  completion_eq : handed.numCompletionTokens = 0
  leftover : handed.currentChunkSize = (start.seq seqId).currentChunkSize ∨
    handed.currentChunkSize = none

/-- Nothing else was handed to the refresher since the start. -/
def Logged (start scheduler : Scheduler Id Env) : Prop :=
  ∀ handed ∈ ledger scheduler.world.env,
    handed ∈ ledger start.world.env ∨ ∃ seqId, Handed start seqId handed

/-- What a state owes to the one that `schedule` started with, while a batch is
being chosen. -/
structure Kept (start : Scheduler Id Env) (batch : List ℕ) (scheduler : Scheduler Id Env) :
    Prop where
  moves : ∀ seqId, (start.seq seqId).Rescheduled (scheduler.seq seqId)
  leftover : Leftover start batch scheduler
  subset : scheduler.decoding ⊆ start.decoding
  nodup : scheduler.decoding.Nodup
  inflight_eq : scheduler.asyncInflight = start.asyncInflight
  logged : Logged ledger start scheduler

/-- As `Kept`, when `victims` may have started over. -/
structure Settled (start : Scheduler Id Env) (victims : List ℕ) (scheduler : Scheduler Id Env) :
    Prop where
  moves : ∀ seqId ∉ victims, (start.seq seqId).Rescheduled (scheduler.seq seqId)
  restarted : ∀ seqId ∈ victims, (start.seq seqId).Restarted (scheduler.seq seqId)
  waits : ∀ seqId ∈ victims, seqId ∈ scheduler.waiting
  evicted : ∀ seqId ∈ victims, seqId ∈ start.decoding
  queued : ∀ seqId ∈ scheduler.decoding, seqId ∈ start.decoding ∧ seqId ∉ victims
  inflight_eq : scheduler.asyncInflight = start.asyncInflight
  logged : Logged ledger start scheduler

/-- What a raise leaves. -/
def Halted (start scheduler : Scheduler Id Env) : Prop :=
  ∃ victims, Settled ledger start victims scheduler

/-- What a return leaves. -/
structure Scheduled (start : Scheduler Id Env) (result : ScheduleResult)
    (next : Scheduler Id Env) : Prop where
  settled : Settled ledger start result.preempted next
  chunked : result.isPrefill = true → ∀ seqId ∈ result.seqs, (next.seq seqId).Chunked
  leftover : Leftover start (if result.isPrefill then result.seqs else []) next
  unspent : result.isPrefill = false → ∀ seqId ∈ result.seqs, (start.seq seqId).Unspent

/-- What holds when `schedule` is called. -/
structure Ready (start : Scheduler Id Env) : Prop where
  wellformed : ∀ seqId, (start.seq seqId).Wellformed
  decoding : ∀ seqId ∈ start.decoding, (start.seq seqId).Decoding
  nodup : start.decoding.Nodup
  drained : start.asyncInflight = 0 →
    ∀ seqId ∈ start.decoding, (start.seq seqId).numPendingOutputs = 0

variable {ledger} {start scheduler next : Scheduler Id Env} {batch : List ℕ}
  {config : SchedulerConfig} {oracle : MemoryOracle Id Env Key Resource}
  {callbacks : SchedulerCallbacks Id Env}

theorem Ready.kept (h : Ready start) : Kept ledger start [] start :=
  ⟨fun _ => .refl _, fun _ _ => .inl rfl, fun _ hmem => hmem, h.nodup, rfl, fun _ hmem => .inl hmem⟩

theorem Kept.settled (h : Kept ledger start batch scheduler) :
    Settled ledger start [] scheduler where
  moves _ _ := h.moves _
  restarted _ hmem := absurd hmem List.not_mem_nil
  waits _ hmem := absurd hmem List.not_mem_nil
  evicted _ hmem := absurd hmem List.not_mem_nil
  queued _ hmem := ⟨h.subset hmem, List.not_mem_nil⟩
  inflight_eq := h.inflight_eq
  logged := h.logged

theorem Kept.halted (h : Kept ledger start batch scheduler) : Halted ledger start scheduler :=
  ⟨[], h.settled⟩

theorem Kept.mono {larger : List ℕ} (h : Kept ledger start batch scheduler)
    (hsub : batch ⊆ larger) : Kept ledger start larger scheduler :=
  ⟨h.moves, fun seqId hnot => h.leftover seqId fun hmem => hnot (hsub hmem), h.subset, h.nodup,
    h.inflight_eq, h.logged⟩

omit [PrefixReuse] in
theorem seq_of_rest (hrest : next.rest ledger = scheduler.rest ledger) (seqId : ℕ) :
    next.seq seqId = scheduler.seq seqId :=
  congrFun (congrArg Prod.fst hrest) seqId

omit [PrefixReuse] in
theorem decoding_of_rest (hrest : next.rest ledger = scheduler.rest ledger) :
    next.decoding = scheduler.decoding :=
  congrArg (·.2.1) hrest

theorem Logged.of_ledger (h : Logged ledger start scheduler)
    (hsame : ledger next.world.env = ledger scheduler.world.env) : Logged ledger start next := by
  intro handed hmem
  rw [hsame] at hmem
  exact h handed hmem

theorem Kept.of_rest (h : Kept ledger start batch scheduler)
    (hrest : next.rest ledger = scheduler.rest ledger) : Kept ledger start batch next := by
  have hdecoding := decoding_of_rest hrest
  refine ⟨fun seqId => ?_, fun seqId hnot => ?_, ?_, ?_, ?_, ?_⟩
  · rw [seq_of_rest hrest]
    exact h.moves seqId
  · rw [seq_of_rest hrest]
    exact h.leftover seqId hnot
  · rw [hdecoding]
    exact h.subset
  · rw [hdecoding]
    exact h.nodup
  · exact (congrArg (·.2.2.1) hrest).trans h.inflight_eq
  · exact h.logged.of_ledger (congrArg (·.2.2.2) hrest)

/-- A call that writes neither a sequence nor the decoding queue. -/
theorem Kept.wpe {α : Type} {m : Routine (Scheduler Id Env) α} (hm : Preserves (rest ledger) m)
    (h : Kept ledger start batch scheduler) {post : α → Scheduler Id Env → Prop}
    (hpost : ∀ a next, next.rest ledger = scheduler.rest ledger → Kept ledger start batch next → post a next) :
    wpe m post (Halted ledger start) scheduler :=
  hm.wpe (fun a next hrest => hpost a next hrest (h.of_rest hrest)) fun _ hrest => (h.of_rest hrest).halted

omit [PrefixReuse] in
theorem seq_setSeq (seqId other : ℕ) (update : Sequence Id → Sequence Id) (scheduler : Scheduler Id Env) :
    (setSeq seqId update scheduler).seq other =
      if other = seqId then update (scheduler.seq seqId) else scheduler.seq other := by
  show Function.update scheduler.world.seqs seqId (update (scheduler.world.seqs seqId)) other = _
  rw [Function.update_apply]
  rfl

/-- A write to a sequence, of no chunk size unless the sequence is in the
batch. -/
theorem Kept.setSeq (h : Kept ledger start batch scheduler) {seqId : ℕ} {update : Sequence Id → Sequence Id}
    (hmove : (scheduler.seq seqId).Rescheduled (update (scheduler.seq seqId)))
    (hchunk : seqId ∉ batch → (update (scheduler.seq seqId)).currentChunkSize =
      (scheduler.seq seqId).currentChunkSize) :
    Kept ledger start batch (setSeq seqId update scheduler) := by
  refine ⟨fun other => ?_, fun other hnot => ?_, h.subset, h.nodup, h.inflight_eq, h.logged⟩
  · rw [seq_setSeq]
    split
    · next heq => exact heq ▸ (h.moves seqId).trans hmove
    · exact h.moves other
  · rw [seq_setSeq]
    split
    · next heq =>
        subst heq
        rw [hchunk hnot]
        exact h.leftover other hnot
    · exact h.leftover other hnot

/-- Cached prefixes are refreshed. -/
theorem Kept.refreshed (h : Kept ledger start [] scheduler) {α : Type} {hook : Hook Id Env α}
    {seqIds : List ℕ} (hhook : Refreshing ledger seqIds hook)
    (hfresh : ∀ seqId ∈ seqIds, (scheduler.seq seqId).numPrefilledTokens = 0 ∧
      (scheduler.seq seqId).numCompletionTokens = 0) :
    Kept ledger start [] (call hook scheduler).2 := by
  obtain ⟨hrehit, hlogged⟩ := hhook scheduler
  refine ⟨fun seqId => (h.moves seqId).trans (hrehit seqId).rescheduled, fun seqId hnot => ?_,
    h.subset, h.nodup, h.inflight_eq, fun handed hmem => ?_⟩
  · have hsame := (hrehit seqId).chunk_eq
    have hold := h.leftover seqId hnot
    rw [← hsame] at hold
    exact hold
  · rcases hlogged handed hmem with hold | ⟨seqId, hseq, rfl⟩
    · exact h.logged handed hold
    · obtain ⟨hprefilled, hcompletion⟩ := hfresh seqId hseq
      exact .inr ⟨seqId, h.moves seqId, hprefilled, hcompletion, h.leftover seqId List.not_mem_nil⟩

theorem wpe_refresh (h : Kept ledger start [] scheduler) {α : Type} {hook : Hook Id Env α}
    {seqIds : List ℕ} (hhook : Refreshing ledger seqIds hook)
    (hfresh : ∀ seqId ∈ seqIds, (scheduler.seq seqId).numPrefilledTokens = 0 ∧
      (scheduler.seq seqId).numCompletionTokens = 0)
    {post : α → Scheduler Id Env → Prop} (hpost : ∀ a next, Kept ledger start [] next → post a next) :
    wpe (call hook) post (Halted ledger start) scheduler := by
  have hnext := h.refreshed hhook hfresh
  rw [wpe_def]
  rcases (call hook scheduler).1 with error | a
  · exact hnext.halted
  · exact hpost a _ hnext

/-! ## The prefill phase -/

section

variable [DecidableEq Key]

theorem collectModes_kept (h : Tame ledger oracle callbacks) (seqIds : List ℕ)
    (modes : List (PrefillExecutionMode × Key)) (hkept : Kept ledger start [] scheduler) :
    wpe (collectModes oracle callbacks seqIds modes) (fun _ next => Kept ledger start [] next)
      (Halted ledger start) scheduler := by
  induction seqIds generalizing modes scheduler with
  | nil => exact hkept
  | cons seqId others ih =>
      unfold collectModes refreshPrefillMetadata
      rw [wpe_bind, wpe_whenDo]
      have hrest : ∀ next, Kept ledger start [] next →
          wpe (do
            let batchKey ← prefillBatchKey oracle seqId
            collectModes oracle callbacks others (if batchKey ∈ modes then modes else modes ++ [batchKey]))
            (fun _ next => Kept ledger start [] next) (Halted ledger start) next := by
        intro next hnext
        rw [wpe_bind]
        exact hnext.wpe (rest_prefillBatchKey h seqId) fun _ last _ hlast => ih _ hlast
      refine ⟨fun _ => ?_, fun _ => hrest _ hkept⟩
      rw [wpe_get, wpe_whenDo]
      refine ⟨fun _ => ?_, fun _ => hrest _ hkept⟩
      exact wpe_refresh hkept (h.prefixCacheHitRefresher seqId)
        (fun _ hmem => absurd hmem List.not_mem_nil) fun _ next hnext => hrest next hnext

theorem prefillModeOrder_kept (h : Tame ledger oracle callbacks) (hkept : Kept ledger start [] scheduler) :
    wpe (prefillModeOrder config oracle callbacks) (fun _ next => Kept ledger start [] next)
      (Halted ledger start) scheduler := by
  have hrefresher := h.prefixCacheHitsRefresher
  unfold prefillModeOrder refreshFresh
  rw [wpe_get, wpe_bind]
  cases hrefresh : callbacks.prefixCacheHitsRefresher with
  | none => exact collectModes_kept h _ _ hkept
  | some refresh =>
      dsimp only
      rw [wpe_whenDo]
      refine ⟨fun _ => ?_, fun _ => collectModes_kept h _ _ hkept⟩
      refine wpe_refresh hkept (hrefresher refresh hrefresh _) (fun seqId hmem => ?_)
        fun _ next hnext => collectModes_kept h _ _ hnext
      simpa only [List.mem_filter, decide_eq_true_eq] using (List.mem_filter.mp hmem).2

end

omit [PrefixReuse] in
/-- The answer of a hook that writes no sequence. -/
theorem wpe_call {α : Type} {hook : Hook Id Env α} (hhook : Untouching ledger hook)
    {post : α → Scheduler Id Env → Prop} {bad : Scheduler Id Env → Prop}
    (hpost : ∀ a next, (hook scheduler).1 = .ok a → next.rest ledger = scheduler.rest ledger → post a next)
    (hbad : ∀ next, next.rest ledger = scheduler.rest ledger → bad next) :
    wpe (call hook) post bad scheduler := by
  have hrest := untouched hhook scheduler
  have hcall : (call hook scheduler).1 = (hook scheduler).1 := rfl
  rw [wpe_def, hcall]
  cases hanswer : (hook scheduler).1 with
  | error error => exact hbad _ hrest
  | ok a => exact hpost a _ hanswer hrest

omit [PrefixReuse] in
theorem prefillStepTokens_le (mode : PrefillExecutionMode) {remaining : ℤ} (hpos : 0 < remaining)
    (numBatchedTokens stepFreeCount : ℤ) :
    prefillStepTokens config mode remaining numBatchedTokens stepFreeCount ≤ remaining := by
  cases mode with
  | full =>
      simp only [prefillStepTokens]
      split <;> omega
  | chunked => simp only [prefillStepTokens]; omega
  | rawOffload => simp only [prefillStepTokens]; omega

theorem respectMinFinalPrefillChunk_le (h : Tame ledger oracle callbacks) (seqId : ℕ)
    {remaining proposed : ℤ} (hpos : 0 < remaining) (hle : proposed ≤ remaining) :
    wpe (respectMinFinalPrefillChunk oracle seqId remaining proposed)
      (fun canPrefill next => next.rest ledger = scheduler.rest ledger ∧ canPrefill ≤ remaining)
      (fun next => next.rest ledger = scheduler.rest ledger) scheduler := by
  unfold respectMinFinalPrefillChunk
  rw [wpe_bind]
  refine wpe_call (h.minFinalPrefillChunkSize seqId) (fun minFinal next _ hrest => ?_) fun _ hrest => hrest
  refine wpe_guarded hrest fun hnonneg => ?_
  rw [wpe_ite]
  refine ⟨fun _ => ⟨hrest, hle⟩, fun _ => ⟨hrest, ?_⟩⟩
  omega

/-- The progress of a prompt when it is admitted. -/
def admitted (seq : Sequence Id) : Sequence Id :=
  let running := { seq with status := .running }
  if 0 < running.prefixCacheHitLen then
    { running with numPrefilledTokens := running.prefixCacheHitLen }
  else running

theorem rescheduled_running (seq : Sequence Id) :
    seq.Rescheduled { seq with status := .running } :=
  .of_fields rfl rfl rfl (.inl rfl)

theorem rescheduled_admitted {seq : Sequence Id} (hwell : seq.Wellformed)
    (hstart : seq.numPrefilledTokens = 0) (hle : seq.prefixCacheHitLen ≤ seq.numPromptTokens) :
    seq.Rescheduled (admitted seq) := by
  unfold admitted
  dsimp only
  by_cases hpos : 0 < seq.prefixCacheHitLen
  · rw [if_pos hpos]
    have hrunning := rescheduled_running seq
    exact hrunning.trans (Sequence.rescheduled_hit (hrunning.wellformed hwell) hstart hpos hle)
  · rw [if_neg hpos]
    exact rescheduled_running seq

section

variable [DecidableEq Key] [DecidableEq Resource]

/-- What the admission leaves when it raises. -/
def Touched (ledger : Env → List (Sequence Id)) (seqId : ℕ) (scheduler next : Scheduler Id Env) :
    Prop :=
  ∃ update : Sequence Id → Sequence Id,
    (scheduler.seq seqId).Rescheduled (update (scheduler.seq seqId)) ∧
      next.rest ledger = (setSeq seqId update scheduler).rest ledger

section

omit [PrefixReuse] [DecidableEq Key] [DecidableEq Resource]

theorem rest_setSeq (seqId : ℕ) (update : Sequence Id → Sequence Id)
    (hrest : next.rest ledger = scheduler.rest ledger) :
    (setSeq seqId update next).rest ledger = (setSeq seqId update scheduler).rest ledger := by
  obtain ⟨hseqs, hothers⟩ := Prod.mk.inj hrest
  refine Prod.ext ?_ hothers
  show Function.update next.world.seqs seqId (update (next.world.seqs seqId)) = _
  rw [hseqs]
  rfl

theorem rest_setSeq_setSeq (seqId : ℕ) (first second : Sequence Id → Sequence Id) (scheduler : Scheduler Id Env) :
    (setSeq seqId second (setSeq seqId first scheduler)).rest ledger =
      (setSeq seqId (fun seq => second (first seq)) scheduler).rest ledger := by
  unfold setSeq rest
  simp only [Function.update_self, Function.update_idem]

end

omit [DecidableEq Key] in
/-- **Admission.** A deferred prompt is left alone. -/
theorem admitPrompt_rest (h : Tame ledger oracle callbacks) (scan : PrefillScan Resource)
    (seqId : ℕ) (hmove : (scheduler.seq seqId).Rescheduled (admitted (scheduler.seq seqId))) :
    wpe (admitPrompt config oracle scan seqId)
      (fun result next => result.2.scheduledSeqs = scan.scheduledSeqs ∧
        (result.1 = none → next.rest ledger = scheduler.rest ledger) ∧
        ∀ paid, result.1 = some paid → paid.scheduledSeqs = scan.scheduledSeqs ∧
          next.rest ledger = (setSeq seqId admitted scheduler).rest ledger)
      (Touched ledger seqId scheduler) scheduler := by
  have hsame : ∀ next, next.rest ledger = scheduler.rest ledger → Touched ledger seqId scheduler next := by
    intro next hnext
    refine ⟨id, .refl _, hnext.trans ?_⟩
    unfold setSeq rest
    simp only [id, Function.update_eq_self]
  unfold admitPrompt
  rw [wpe_bind]
  refine (untouched (h.promptAdmissionCosts seqId)).wpe (fun rawCosts s1 hs1 => ?_) hsame
  rw [wpe_bind]
  refine (rest_sharedAdmissionCosts h seqId).wpe (fun sharedCosts s2 hs2 => ?_)
    fun next hnext => hsame next (hnext.trans hs1)
  have hs2' := hs2.trans hs1
  rw [wpe_bind]
  refine wpe_ofExcept (fun costs _ => ?_) (hsame _ hs2')
  split
  · -- a budget cannot pay
    rw [wpe_bind]
    refine (untouched h.promptAdmissionFailureAction).wpe (fun action s3 hs3 => ?_)
      fun next hnext => hsame next (hnext.trans hs2')
    have hs3' := hs3.trans hs2'
    rw [wpe_ite]
    refine ⟨fun _ => ?_, fun _ => hsame _ hs3'⟩
    rw [wpe_bind]
    refine (rest_warnDeferred h seqId).wpe (fun _ s4 hs4 => ?_) fun next hnext => hsame next (hnext.trans hs3')
    rw [wpe_bind]
    refine (rest_requeue seqId).wpe (fun _ s5 hs5 => ?_) fun next hnext => hsame next (hnext.trans (hs4.trans hs3'))
    exact ⟨rfl, fun _ => hs5.trans (hs4.trans hs3'), fun paid hpaid => nomatch hpaid⟩
  · rw [wpe_set, wpe_set, wpe_bind]
    -- the prompt runs
    have hrunning : ∀ next : Scheduler Id Env, next.rest ledger =
        (setSeq seqId (fun seq => { seq with status := .running }) scheduler).rest ledger →
        Touched ledger seqId scheduler next := fun next hnext =>
      ⟨_, rescheduled_running _, hnext⟩
    have hstart : (setSeq seqId (fun seq => { seq with status := .running })
        { s2 with admissionDeferWarnedSeqIds := s2.admissionDeferWarnedSeqIds.erase seqId }).rest ledger =
        (setSeq seqId (fun seq => { seq with status := .running }) scheduler).rest ledger :=
      rest_setSeq seqId _ hs2'
    refine (untouched (h.onPromptAdmitted seqId rawCosts)).wpe (fun _ s3 hs3 => ?_)
      fun next hnext => hrunning next (hnext.trans hstart)
    have hs3' := hs3.trans hstart
    rw [wpe_set, wpe_bind]
    have hadmitted : (setSeq seqId (fun seq =>
        if 0 < seq.prefixCacheHitLen then { seq with numPrefilledTokens := seq.prefixCacheHitLen }
        else seq) s3).rest ledger = (setSeq seqId admitted scheduler).rest ledger :=
      (rest_setSeq seqId _ hs3').trans (rest_setSeq_setSeq seqId _ _ scheduler)
    have hlast : ∀ next : Scheduler Id Env, next.rest ledger = (setSeq seqId admitted scheduler).rest ledger →
        Touched ledger seqId scheduler next := fun next hnext => ⟨_, hmove, hnext⟩
    refine (untouched (h.promptLogicalReservationCost seqId)).wpe (fun reservation s4 hs4 => ?_)
      fun next hnext => hlast next (hnext.trans hadmitted)
    refine wpe_guarded (hlast _ (hs4.trans hadmitted)) fun _ => ?_
    refine ⟨rfl, fun hnone => absurd hnone (Option.some_ne_none _), fun paid hpaid => ?_⟩
    obtain rfl := Option.some.inj hpaid
    exact ⟨rfl, hs4.trans hadmitted⟩

omit [DecidableEq Key] [DecidableEq Resource] in
theorem Kept.of_touched {seqId : ℕ} (h : Kept ledger start batch scheduler)
    (htouched : Touched ledger seqId scheduler next) : Halted ledger start next := by
  obtain ⟨update, hmove, hrest⟩ := htouched
  have hset : Kept ledger start (seqId :: batch) (Scheduler.setSeq seqId update scheduler) :=
    (h.mono (List.subset_cons_self seqId batch)).setSeq hmove fun hnot => absurd List.mem_cons_self hnot
  exact (hset.of_rest hrest).halted

/-- What the prefill scan keeps. -/
structure Choosing (ledger : Env → List (Sequence Id)) (start : Scheduler Id Env)
    (scan : PrefillScan Resource) (scheduler : Scheduler Id Env) : Prop where
  kept : Kept ledger start scan.scheduledSeqs scheduler
  chunked : ∀ seqId ∈ scan.scheduledSeqs, (scheduler.seq seqId).Chunked

section

omit [DecidableEq Key] [DecidableEq Resource]

theorem Choosing.of_rest {scan later : PrefillScan Resource} (h : Choosing ledger start scan scheduler)
    (hrest : next.rest ledger = scheduler.rest ledger)
    (hsame : later.scheduledSeqs = scan.scheduledSeqs) : Choosing ledger start later next := by
  refine ⟨?_, fun seqId hmem => ?_⟩
  · rw [hsame]
    exact h.kept.of_rest hrest
  · rw [seq_of_rest hrest]
    rw [hsame] at hmem
    exact h.chunked seqId hmem

/-- The candidate joins the batch with its chunk. -/
theorem Choosing.chunk {scan later : PrefillScan Resource}
    (h : Choosing ledger start scan scheduler) {seqId : ℕ} {update : Sequence Id → Sequence Id}
    (hmove : (scheduler.seq seqId).Rescheduled (update (scheduler.seq seqId)))
    (hchunk : (update (scheduler.seq seqId)).Chunked)
    (hrest : next.rest ledger = (setSeq seqId update scheduler).rest ledger)
    (hlater : later.scheduledSeqs = scan.scheduledSeqs ++ [seqId]) :
    Choosing ledger start later next := by
  have hset : Kept ledger start (scan.scheduledSeqs ++ [seqId]) (setSeq seqId update scheduler) :=
    (h.kept.mono (List.subset_append_left _ _)).setSeq hmove
      fun hnot => absurd (List.mem_append_right _ (List.mem_singleton_self seqId)) hnot
  refine ⟨?_, fun other hmem => ?_⟩
  · rw [hlater]
    exact hset.of_rest hrest
  · rw [seq_of_rest hrest, seq_setSeq]
    split
    · exact hchunk
    · next hne =>
        rw [hlater, List.mem_append, List.mem_singleton] at hmem
        exact h.chunked other (hmem.resolve_right hne)

end

omit [DecidableEq Key] in
/-- **A candidate** gets at most the tokens its prompt lacks behind the cached
prefix. -/
theorem scanCandidate_choosing (h : Tame ledger oracle callbacks)
    (hwell : ∀ seqId, (start.seq seqId).Wellformed) (mode : PrefillExecutionMode)
    (scan : PrefillScan Resource) (seqId : ℕ) (hchoosing : Choosing ledger start scan scheduler) :
    wpe (scanCandidate config oracle mode scan seqId)
      (fun result next => Choosing ledger start result.1 next) (Halted ledger start) scheduler := by
  have hhalted : ∀ next : Scheduler Id Env, next.rest ledger = scheduler.rest ledger →
      Halted ledger start next := fun next hnext => (hchoosing.kept.of_rest hnext).halted
  unfold scanCandidate
  rw [wpe_bind]
  refine wpe_call (h.remainingPrefillTokens seqId) (fun remaining s1 hanswer hs1 => ?_) hhalted
  have hwellformed := (hchoosing.kept.moves seqId).wellformed (hwell seqId)
  have hremaining := h.remaining_le seqId scheduler remaining hwellformed.attached hanswer
  rw [wpe_bind]
  refine (rest_candidateStepFree h mode scan seqId).wpe (fun candidateFree s2 hs2 => ?_)
    fun next hnext => hhalted next (hnext.trans hs1)
  have hs2' := hs2.trans hs1
  refine wpe_guarded (hhalted _ hs2') fun hpos => ?_
  rw [Int.not_le] at hpos
  refine wpe_then_imp (respectMinFinalPrefillChunk_le h seqId hpos
    (prefillStepTokens_le mode hpos scan.numBatchedTokens candidateFree))
    (fun canPrefill s3 hs3 => ?_) fun next hnext => hhalted next (hnext.trans hs2')
  obtain ⟨hs3, hle⟩ := hs3
  have hs3' := hs3.trans hs2'
  rw [wpe_ite]
  refine ⟨fun _ => ?_, fun hcan => ?_⟩
  · -- the candidate goes back to the queue
    rw [wpe_bind]
    refine (untouched (h.minFinalPrefillChunkSize seqId)).wpe (fun minFinal s4 hs4 => ?_)
      fun next hnext => hhalted next (hnext.trans hs3')
    rw [wpe_bind]
    refine (rest_requeue seqId).wpe (fun _ s5 hs5 => ?_) fun next hnext => hhalted next (hnext.trans (hs4.trans hs3'))
    exact hchoosing.of_rest (hs5.trans (hs4.trans hs3')) (recordBlocked_scheduledSeqs ..)
  rw [Int.not_le] at hcan
  rw [wpe_get, wpe_bind]
  have hseq := seq_of_rest hs3' seqId
  -- the prompt starts behind its cached prefix, or goes on
  have hgive : ∀ (update : Sequence Id → Sequence Id) (paid : PrefillScan Resource) (s4 : Scheduler Id Env),
      (scheduler.seq seqId).Rescheduled (update (scheduler.seq seqId)) →
      (update (scheduler.seq seqId)).numPrefilledTokens ≤
        max (scheduler.seq seqId).numPrefilledTokens (scheduler.seq seqId).prefixCacheHitLen →
      paid.scheduledSeqs = scan.scheduledSeqs →
      s4.rest ledger = (setSeq seqId update scheduler).rest ledger →
      wpe (do
        write (setSeq seqId fun seq => { seq with currentChunkSize := some canPrefill })
        let cost ← call (oracle.prefillStepReservationCost seqId canPrefill)
        write (setSeq seqId fun seq => { seq with status := .running })
        return ({ paid with
          numBatchedSeqs := paid.numBatchedSeqs + 1
          numBatchedTokens := paid.numBatchedTokens + canPrefill
          stepFreeCount := max 0 (paid.stepFreeCount - cost)
          scheduledSeqs := paid.scheduledSeqs ++ [seqId] }, true) :
          Routine (Scheduler Id Env) (PrefillScan Resource × Bool))
        (fun result next => Choosing ledger start result.1 next) (Halted ledger start) s4 := by
    intro update paid s4 hmove hprefilled hpaid hs4
    rw [wpe_set, wpe_bind]
    have hchunk : (update (scheduler.seq seqId)).Rescheduled
        { update (scheduler.seq seqId) with currentChunkSize := some canPrefill } :=
      .of_fields rfl rfl rfl (.inl rfl)
    have hset : (setSeq seqId (fun seq => { seq with currentChunkSize := some canPrefill })
        s4).rest ledger = (setSeq seqId (fun seq =>
          { update seq with currentChunkSize := some canPrefill }) scheduler).rest ledger :=
      (rest_setSeq seqId _ hs4).trans (rest_setSeq_setSeq seqId _ _ scheduler)
    refine (untouched (h.prefillStepReservationCost seqId canPrefill)).wpe (fun cost s5 hs5 => ?_)
      fun next hnext => hchoosing.kept.of_touched ⟨_, hmove.trans hchunk, hnext.trans hset⟩
    rw [wpe_set, wpe_pure]
    have hlast := (rest_setSeq seqId (fun seq => { seq with status := .running })
      (hs5.trans hset)).trans (rest_setSeq_setSeq seqId _ _ scheduler)
    refine hchoosing.chunk ((hmove.trans hchunk).trans (rescheduled_running _))
      ⟨canPrefill, rfl, hcan, ?_⟩ hlast (congrArg (· ++ [seqId]) hpaid)
    obtain ⟨_, _, hprompt, _⟩ := Sequence.history_eq_iff.mp hmove.history_eq
    show (update (scheduler.seq seqId)).numPrefilledTokens + canPrefill ≤
      (update (scheduler.seq seqId)).numPromptTokens
    omega
  rw [wpe_ite]
  refine ⟨fun hzero => ?_, fun _ => ?_⟩
  · rw [hseq] at hzero
    have hhit : (scheduler.seq seqId).prefixCacheHitLen ≤ (scheduler.seq seqId).numPromptTokens := by omega
    have hmove := rescheduled_admitted hwellformed hzero hhit
    have hmove3 : (s3.seq seqId).Rescheduled (admitted (s3.seq seqId)) := hseq ▸ hmove
    refine wpe_imp (admitPrompt_rest h scan seqId hmove3) (fun result s4 hs4 => ?_) fun next hnext => ?_
    · obtain ⟨decision, deferred⟩ := result
      obtain ⟨hscan, hnone, hsome⟩ := hs4
      cases decision with
      | none => exact hchoosing.of_rest ((hnone rfl).trans hs3') hscan
      | some paid =>
          obtain ⟨hpaid, hrest⟩ := hsome paid rfl
          have hprefilled : (admitted (scheduler.seq seqId)).numPrefilledTokens ≤
              max (scheduler.seq seqId).numPrefilledTokens (scheduler.seq seqId).prefixCacheHitLen := by
            unfold admitted
            dsimp only
            split
            · exact le_max_right _ _
            · exact le_max_left _ _
          exact hgive admitted paid s4 hmove hprefilled hpaid (hrest.trans (rest_setSeq seqId _ hs3'))
    · obtain ⟨update, hupdate, hrest⟩ := hnext
      refine hchoosing.kept.of_touched ⟨update, hseq ▸ hupdate, hrest.trans ?_⟩
      exact rest_setSeq seqId _ hs3'
  · rw [wpe_pure]
    have hid : (setSeq seqId id scheduler).rest ledger = scheduler.rest ledger := by
      unfold setSeq rest
      simp only [id, Function.update_eq_self]
    exact hgive id scan s3 (.refl _) (le_max_left _ _) rfl (hs3'.trans hid.symm)

/-- The scan over one bucket. -/
theorem scanLoop_choosing (h : Tame ledger oracle callbacks)
    (hwell : ∀ seqId, (start.seq seqId).Wellformed) (target : PrefillExecutionMode × Key)
    (replayPending : Bool) (margin : ℤ) (budget : ℕ) (scan : PrefillScan Resource)
    (hchoosing : Choosing ledger start scan scheduler) :
    wpe (scanLoop config oracle target replayPending margin budget scan)
      (Choosing ledger start) (Halted ledger start) scheduler := by
  induction budget generalizing scan scheduler with
  | zero => exact hchoosing
  | succ budget ih =>
      unfold scanLoop
      rw [wpe_get, wpe_ite]
      refine ⟨fun _ => ?_, fun _ => hchoosing⟩
      unfold popNextPrefillSeq
      rw [wpe_bind, wpe_get]
      refine (rest_popLoop h target replayPending _).wpe (fun found s1 hs1 => ?_)
        fun next hnext => (hchoosing.kept.of_rest hnext).halted
      have hchoosing1 := hchoosing.of_rest hs1 rfl
      cases found with
      | none => exact hchoosing1
      | some seqId =>
          dsimp only
          refine wpe_then (scanCandidate_choosing h hwell target.1 scan seqId hchoosing1) fun result s2 hs2 => ?_
          rw [wpe_ite]
          exact ⟨fun _ => hs2, fun _ => ih result.1 hs2⟩

/-- The scan over the buckets. -/
theorem bucketLoop_choosing (h : Tame ledger oracle callbacks)
    (hwell : ∀ seqId, (start.seq seqId).Wellformed) (replayPending : Bool) (margin : ℤ)
    (targets : List (PrefillExecutionMode × Key)) (scan : PrefillScan Resource)
    (hchoosing : Choosing ledger start scan scheduler) :
    wpe (bucketLoop config oracle replayPending margin targets scan)
      (Choosing ledger start) (Halted ledger start) scheduler := by
  induction targets generalizing scan scheduler with
  | nil => exact hchoosing
  | cons target others ih =>
      unfold bucketLoop
      rw [wpe_ite]
      refine ⟨fun _ => hchoosing, fun _ => ?_⟩
      rw [wpe_set, wpe_get, wpe_bind, wpe_finallyDo]
      refine wpe_imp (scanLoop_choosing h hwell target replayPending margin _ scan
        (hchoosing.of_rest rfl rfl)) (fun later s1 hs1 => ?_) fun next hnext => ?_
      · rw [wpe_write]
        exact ih later (hs1.of_rest rfl rfl)
      · -- the skipped prompts go back in front of the queue
        obtain ⟨victims, hsettled⟩ := hnext
        refine ⟨victims, hsettled.moves, hsettled.restarted, fun seqId hmem => ?_,
          hsettled.evicted, hsettled.queued, hsettled.inflight_eq, hsettled.logged⟩
        exact List.mem_append_right _ (hsettled.waits seqId hmem)

/-- **The prefill phase** chooses prompts with a chunk, and nothing starts
over. -/
theorem prefillPhase_choosing (h : Tame ledger oracle callbacks)
    (hwell : ∀ seqId, (start.seq seqId).Wellformed) (scan : PrefillScan Resource) (margin : ℤ)
    (hscan : scan.scheduledSeqs = []) (hkept : Kept ledger start [] scheduler) :
    wpe (prefillPhase config oracle callbacks scan margin)
      (Choosing ledger start) (Halted ledger start) scheduler := by
  have hbuckets : ∀ (replayPending : Bool) (targets : List (PrefillExecutionMode × Key)) next,
      Kept ledger start [] next → wpe (bucketLoop config oracle replayPending margin targets scan)
        (Choosing ledger start) (Halted ledger start) next := by
    intro replayPending targets next hnext
    refine bucketLoop_choosing h hwell replayPending margin targets scan ⟨hscan ▸ hnext, ?_⟩
    intro seqId hmem
    rw [hscan] at hmem
    exact absurd hmem List.not_mem_nil
  unfold prefillPhase
  rw [wpe_get, wpe_bind, wpe_ite]
  refine ⟨fun _ => ?_, fun _ => ?_⟩
  · refine wpe_mono (prefillModeOrder_kept h hkept) fun modes s1 hs1 => ?_
    rw [wpe_get]
    exact hbuckets _ modes s1 hs1
  · rw [wpe_pure, wpe_get]
    exact hbuckets _ [] scheduler hkept

end

end Scheduler
