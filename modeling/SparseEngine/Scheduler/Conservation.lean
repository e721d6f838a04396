import SparseEngine.Scheduler.Model

/-!
# No sequence is lost or duplicated

`Owned start held` says that the queues, the skipped deque and the local list
`held` are together the sequences the call started with.  Every step of the
scans moves one sequence between these places.  A raise drops the local list
(`Loose`), and the handler of `schedule` puts its sequences back.

A function that only calls hooks and writes other fields leaves the queues
alone (`Preserves queues`), whatever the hooks answer.
-/

namespace Scheduler

open Routine

variable {Id Env Key Resource : Type}

/-- The queues. -/
def queues (scheduler : Scheduler Id Env) : List ℕ × List ℕ × List ℕ :=
  (scheduler.waiting, scheduler.skippedPrefill, scheduler.decoding)

/-- The queues and `held` are the sequences of `start`. -/
def Owned (start held : List ℕ) (scheduler : Scheduler Id Env) : Prop :=
  ∀ x, scheduler.waiting.count x + scheduler.skippedPrefill.count x + scheduler.decoding.count x +
    held.count x = start.count x

/-- The queues are some of the sequences of `start`. -/
def Loose (start : List ℕ) (scheduler : Scheduler Id Env) : Prop :=
  ∀ x, scheduler.waiting.count x + scheduler.skippedPrefill.count x +
    scheduler.decoding.count x ≤ start.count x

section

variable {start held : List ℕ} {scheduler next : Scheduler Id Env}

theorem Owned.loose (h : Owned start held scheduler) : Loose start scheduler := by
  intro x
  have := h x
  omega

theorem Owned.of_queues (h : Owned start held scheduler) (hsame : next.queues = scheduler.queues) :
    Owned start held next := by
  simp only [queues, Prod.mk.injEq] at hsame
  obtain ⟨hwaiting, hskipped, hdecoding⟩ := hsame
  intro x
  rw [hwaiting, hskipped, hdecoding]
  exact h x

/-- A call that leaves the queues alone keeps what they own. -/
theorem Owned.wpe {α : Type} {m : Routine (Scheduler Id Env) α} (hm : Preserves queues m)
    (h : Owned start held scheduler) {post : α → Scheduler Id Env → Prop}
    (hpost : ∀ a next, next.queues = scheduler.queues → Owned start held next → post a next) :
    wpe m post (Loose start) scheduler :=
  hm.wpe (fun a next hsame => hpost a next hsame (h.of_queues hsame)) fun _ hsame => (h.of_queues hsame).loose

end

/-! ## Functions that leave the queues alone -/

section

theorem preserves_call {α : Type} (hook : Hook Id Env α) : Preserves queues (call hook) :=
  fun _ => rfl

theorem preserves_setSeq (seqId : ℕ) (update : Sequence Id → Sequence Id) :
    Preserves queues (write (setSeq seqId update) : Routine (Scheduler Id Env) Unit) :=
  Preserves.write fun _ => rfl

variable (config : SchedulerConfig) (oracle : MemoryOracle Id Env Key Resource)
  (callbacks : SchedulerCallbacks Id Env)

theorem preserves_prefillBatchKey (seqId : ℕ) :
    Preserves queues (prefillBatchKey oracle seqId) := by
  unfold prefillBatchKey prefillExecutionMode
  refine ((preserves_call _).bind fun mode => Preserves.ofExcept _).bind fun mode => ?_
  exact (preserves_call _).bind fun compatibility => Preserves.pure _

theorem preserves_collectModes [DecidableEq Key] (seqIds : List ℕ) (modes : List (PrefillExecutionMode × Key)) :
    Preserves queues (collectModes oracle callbacks seqIds modes) := by
  induction seqIds generalizing modes with
  | nil => exact Preserves.pure _
  | cons seqId rest ih =>
      unfold collectModes refreshPrefillMetadata
      refine (Preserves.whenDo ?_).bind fun _ => ?_
      · exact Preserves.read.bind fun scheduler => Preserves.whenDo (preserves_call _)
      · exact (preserves_prefillBatchKey oracle seqId).bind fun batchKey => ih _

theorem preserves_prefillModeOrder [DecidableEq Key] :
    Preserves queues (prefillModeOrder config oracle callbacks) := by
  unfold prefillModeOrder refreshFresh
  refine Preserves.read.bind fun scheduler => Preserves.bind ?_ fun _ => ?_
  · cases callbacks.prefixCacheHitsRefresher with
    | none => exact Preserves.pure _
    | some refresh => exact Preserves.whenDo (preserves_call _)
  · exact preserves_collectModes oracle callbacks _ _

theorem preserves_respectMinFinalPrefillChunk (seqId : ℕ) (remaining proposed : ℤ) :
    Preserves queues (respectMinFinalPrefillChunk oracle seqId remaining proposed) := by
  unfold respectMinFinalPrefillChunk
  refine (preserves_call _).bind fun minFinal => (Preserves.raiseIf _ _).bind fun _ => ?_
  exact Preserves.ite (Preserves.pure _) (Preserves.pure _)

theorem preserves_anyOverdue (waits : List ℚ) :
    Preserves queues (anyOverdue callbacks waits) := by
  induction waits with
  | nil => exact Preserves.pure _
  | cons since rest ih =>
      unfold anyOverdue
      exact (preserves_call _).bind fun now => Preserves.ite (Preserves.pure _) ih

theorem preserves_raiseBlocked (scan : PrefillScan Resource) :
    Preserves queues (raiseBlocked config oracle scan) := by
  unfold raiseBlocked
  refine Preserves.read.bind fun scheduler => Preserves.ite (Preserves.pure _) ?_
  refine (Preserves.raiseIf _ _).bind fun _ => (Preserves.raiseIf _ _).bind fun _ => ?_
  refine (Preserves.raiseIf _ _).bind fun _ => Preserves.ite ?_ (Preserves.pure _)
  exact (Preserves.whenDo (preserves_call _)).bind fun _ => Preserves.raise _

theorem preserves_reclaimPrefill (allowPrefillReclaim : Bool) (scan : PrefillScan Resource) :
    Preserves queues (reclaimPrefill callbacks allowPrefillReclaim scan) := by
  unfold reclaimPrefill
  refine Preserves.read.bind fun scheduler => ?_
  cases callbacks.prefillCapacityReclaimer with
  | none => exact Preserves.pure _
  | some reclaim =>
      cases scheduler.waiting with
      | nil => exact Preserves.pure _
      | cons first rest =>
          apply Preserves.ite _ (Preserves.pure _)
          exact (Preserves.raiseIf _ _).bind fun _ => preserves_call _

theorem preserves_matchesTarget [DecidableEq Key] (target : PrefillExecutionMode × Key) (replayPending : Bool)
    (seqId : ℕ) : Preserves queues (matchesTarget config oracle target replayPending seqId) := by
  unfold matchesTarget
  refine Preserves.read.bind fun scheduler => Preserves.ite ?_ (Preserves.pure _)
  exact (preserves_prefillBatchKey oracle seqId).bind fun batchKey => Preserves.pure _

theorem preserves_sharedAdmissionCosts (seqId : ℕ) :
    Preserves queues (sharedAdmissionCosts oracle seqId) := by
  unfold sharedAdmissionCosts
  cases oracle.promptAdmissionSharedCosts with
  | none => exact Preserves.pure _
  | some sharedCosts => exact preserves_call _

theorem preserves_warnDeferred (seqId : ℕ) :
    Preserves queues (warnDeferred config oracle seqId) := by
  unfold warnDeferred
  refine Preserves.read.bind fun scheduler => Preserves.whenDo ?_
  refine (Preserves.whenDo (preserves_call _)).bind fun _ => ?_
  exact Preserves.write fun _ => rfl

theorem preserves_candidateStepFree (mode : PrefillExecutionMode) (scan : PrefillScan Resource)
    (seqId : ℕ) : Preserves queues (candidateStepFree oracle mode scan seqId) := by
  unfold candidateStepFree
  refine (preserves_call _).bind fun _ => (preserves_call _).bind fun _ => ?_
  refine Preserves.ite ?_ (Preserves.pure _)
  exact (preserves_call _).bind fun _ => Preserves.pure _

theorem preserves_resetVictim (victim : ℕ) :
    Preserves queues (resetVictim victim : Routine (Scheduler Id Env) Unit) := by
  unfold resetVictim
  refine (preserves_setSeq _ _).bind fun _ => Preserves.read.bind fun scheduler => ?_
  refine (Preserves.ite ?_ (preserves_setSeq _ _)).bind fun _ => Preserves.write fun _ => rfl
  refine (Preserves.ofExcept _).bind fun replay => (preserves_setSeq _ _).bind fun _ => ?_
  exact Preserves.write fun _ => rfl

theorem preserves_reclaimDecode (reserved : Option ℕ) :
    Preserves queues (reclaimDecode callbacks reserved) := by
  unfold reclaimDecode
  cases reserved with
  | none => exact Preserves.pure _
  | some seqId =>
      cases callbacks.decodeCapacityReclaimer with
      | none => exact Preserves.pure _
      | some reclaim => exact preserves_call _

end

/-! ## The prefill scan -/

section

variable (config : SchedulerConfig) (oracle : MemoryOracle Id Env Key Resource)
  (callbacks : SchedulerCallbacks Id Env)
  {start held : List ℕ} {scheduler : Scheduler Id Env}

/-- The capacity queries start a scan with an empty batch. -/
theorem prefillCapacity_owned (physicalFreeCount : ℤ) (h : Owned start held scheduler) :
    wpe (prefillCapacity config oracle physicalFreeCount)
      (fun capacity next => next.queues = scheduler.queues ∧ Owned start held next ∧
        capacity.1.scheduledSeqs = []) (Loose start) scheduler := by
  unfold prefillCapacity reservedPrefillTokens
  rw [wpe_get, wpe_ite]
  refine ⟨fun _ => ⟨rfl, h, rfl⟩, fun _ => ?_⟩
  rw [wpe_bind]
  refine h.wpe (preserves_call _) fun _ s1 hs1 h1 => ?_
  rw [wpe_bind]
  refine h1.wpe (preserves_call _) fun _ s2 hs2 h2 => ?_
  rw [wpe_bind]
  refine h2.wpe (preserves_call _) fun _ s3 hs3 h3 => ?_
  rw [wpe_bind]
  refine h3.wpe (preserves_call _) fun _ s4 hs4 h4 => ?_
  rw [wpe_bind]
  refine h4.wpe (preserves_call _) fun _ s5 hs5 h5 => ?_
  exact ⟨hs5.trans (hs4.trans (hs3.trans (hs2.trans hs1))), h5, rfl⟩

theorem popLoop_owned [DecidableEq Key] (target : PrefillExecutionMode × Key) (replayPending : Bool) (fuel : ℕ)
    (h : Owned start held scheduler) :
    wpe (popLoop config oracle target replayPending fuel)
      (fun found next => Owned start (found.toList ++ held) next) (Loose start) scheduler := by
  induction fuel generalizing scheduler with
  | zero => exact h
  | succ fuel ih =>
      unfold popLoop
      rw [wpe_get]
      cases hwaiting : scheduler.waiting with
      | nil => exact h
      | cons seqId rest =>
          dsimp only
          rw [wpe_bind]
          refine h.wpe (preserves_matchesTarget config oracle target replayPending seqId)
            fun found next hsame hnext => ?_
          have hhead : next.waiting = seqId :: rest := by
            rw [← hwaiting]
            exact congrArg Prod.fst hsame
          rw [wpe_ite]
          refine ⟨fun _ => ?_, fun _ => ?_⟩
          · rw [wpe_set, wpe_pure]
            intro x
            have hx := hnext x
            rw [hhead, List.count_cons] at hx
            simp only [Option.toList_some, List.singleton_append, List.count_cons]
            omega
          · rw [wpe_set]
            apply ih
            intro x
            have hx := hnext x
            rw [hhead, List.count_cons] at hx
            simp only [List.count_append, List.count_singleton]
            omega

theorem requeue_owned {seqId : ℕ} (h : Owned start (seqId :: held) scheduler) :
    wpe (requeue seqId) (fun _ next => Owned start held next) (Loose start) scheduler := by
  unfold requeue
  rw [wpe_write]
  intro x
  have hx := h x
  rw [List.count_cons] at hx
  simp only [List.count_append, List.count_singleton]
  omega

/-- The admission returns the candidate to the queue or leaves it with the
scan. -/
theorem admitPrompt_owned [DecidableEq Resource] (scan : PrefillScan Resource) {seqId : ℕ}
    (h : Owned start (seqId :: scan.scheduledSeqs) scheduler) :
    wpe (admitPrompt config oracle scan seqId)
      (fun admitted next =>
        match admitted.1 with
        | none => Owned start admitted.2.scheduledSeqs next
        | some scan' => scan'.scheduledSeqs = scan.scheduledSeqs ∧ Owned start (seqId :: scan.scheduledSeqs) next)
      (Loose start) scheduler := by
  unfold admitPrompt
  rw [wpe_bind]
  refine h.wpe (preserves_call _) fun rawCosts s1 _ h1 => ?_
  rw [wpe_bind]
  refine h1.wpe (preserves_sharedAdmissionCosts oracle seqId) fun sharedCosts s2 _ h2 => ?_
  rw [wpe_bind]
  refine wpe_ofExcept (fun costs _ => ?_) h2.loose
  cases failedBudget scan.admissionBudgets costs with
  | some failed =>
      obtain ⟨name, need, free⟩ := failed
      dsimp only
      rw [wpe_bind]
      refine h2.wpe (preserves_call _) fun action s3 _ h3 => ?_
      rw [wpe_ite]
      refine ⟨fun _ => ?_, fun _ => h3.loose⟩
      rw [wpe_bind]
      refine h3.wpe (preserves_warnDeferred config oracle seqId) fun _ s4 _ h4 => ?_
      exact wpe_then (requeue_owned h4) fun _ _ hnext => hnext
  | none =>
      dsimp only
      rw [wpe_set, wpe_set, wpe_bind]
      have hsame : ∀ next : Scheduler Id Env, next.queues = s2.queues →
          Owned start (seqId :: scan.scheduledSeqs) next := fun next hnext => h2.of_queues hnext
      refine (preserves_call _).wpe (fun _ s3 h3 => ?_) fun next hnext => (hsame next hnext).loose
      rw [wpe_set, wpe_bind]
      have h4 := hsame s3 h3
      refine (preserves_call _).wpe (fun reservation s5 h5 => ?_)
        fun next hnext => (hsame next (hnext.trans h3)).loose
      have h6 := hsame s5 (h5.trans h3)
      rw [wpe_guard]
      exact ⟨fun _ => h6.loose, fun _ => ⟨rfl, h6⟩⟩

theorem recordBlocked_scheduledSeqs (mode : PrefillExecutionMode) (scan : PrefillScan Resource)
    (seqId : ℕ) (remaining proposed minFinal candidateFree : ℤ) :
    (recordBlocked config mode scan seqId remaining proposed minFinal candidateFree).scheduledSeqs =
      scan.scheduledSeqs := by
  unfold recordBlocked
  dsimp only
  split_ifs <;> rfl

theorem scanCandidate_owned [DecidableEq Resource] (mode : PrefillExecutionMode)
    (scan : PrefillScan Resource) {seqId : ℕ} (h : Owned start (seqId :: scan.scheduledSeqs) scheduler) :
    wpe (scanCandidate config oracle mode scan seqId)
      (fun scanned next => Owned start scanned.1.scheduledSeqs next) (Loose start) scheduler := by
  unfold scanCandidate
  rw [wpe_bind]
  refine h.wpe (preserves_call _) fun remaining s1 _ h1 => ?_
  rw [wpe_bind]
  refine h1.wpe (preserves_candidateStepFree oracle mode scan seqId) fun candidateFree s2 _ h2 => ?_
  refine wpe_guarded h2.loose fun _ => ?_
  rw [wpe_bind]
  refine h2.wpe (preserves_respectMinFinalPrefillChunk oracle seqId _ _) fun canPrefill s3 _ h3 => ?_
  rw [wpe_ite]
  refine ⟨fun _ => ?_, fun _ => ?_⟩
  · rw [wpe_bind]
    refine h3.wpe (preserves_call _) fun minFinal s4 _ h4 => ?_
    refine wpe_then (requeue_owned h4) fun _ next hnext => ?_
    rw [wpe_pure, recordBlocked_scheduledSeqs]
    exact hnext
  · rw [wpe_get, wpe_bind]
    -- a prompt that starts now passes the admission, a later chunk does not
    have hadmitted : wpe (if (s3.seq seqId).numPrefilledTokens = 0 then
          admitPrompt config oracle scan seqId
        else pure (some scan, scan))
        (fun admitted next =>
          match admitted.1 with
          | none => Owned start admitted.2.scheduledSeqs next
          | some scan' => scan'.scheduledSeqs = scan.scheduledSeqs ∧ Owned start (seqId :: scan.scheduledSeqs) next)
        (Loose start) s3 := by
      rw [wpe_ite]
      exact ⟨fun _ => admitPrompt_owned config oracle scan h3, fun _ => ⟨rfl, h3⟩⟩
    refine wpe_mono hadmitted fun admitted s4 h4 => ?_
    obtain ⟨admitted, scan'⟩ := admitted
    cases admitted with
    | none => exact h4
    | some scan'' =>
        obtain ⟨hseqs, h4⟩ := h4
        dsimp only
        rw [wpe_set, wpe_bind]
        have hsame : ∀ next : Scheduler Id Env, next.queues = s4.queues →
            Owned start (seqId :: scan.scheduledSeqs) next := fun next hnext => h4.of_queues hnext
        refine (preserves_call _).wpe (fun cost s5 h5 => ?_) fun next hnext => (hsame next hnext).loose
        have h6 := hsame s5 h5
        rw [wpe_set, wpe_pure]
        intro x
        have hx := h6 x
        rw [List.count_cons] at hx
        dsimp only [setSeq]
        rw [hseqs, List.count_append, List.count_singleton]
        omega

theorem scanLoop_owned [DecidableEq Key] [DecidableEq Resource] (target : PrefillExecutionMode × Key)
    (replayPending : Bool) (marginBatchedTokens : ℤ) (budget : ℕ) (scan : PrefillScan Resource)
    (h : Owned start scan.scheduledSeqs scheduler) :
    wpe (scanLoop config oracle target replayPending marginBatchedTokens budget scan)
      (fun scan next => Owned start scan.scheduledSeqs next) (Loose start) scheduler := by
  induction budget generalizing scan scheduler with
  | zero => exact h
  | succ budget ih =>
      unfold scanLoop
      rw [wpe_get, wpe_ite]
      refine ⟨fun _ => ?_, fun _ => h⟩
      rw [wpe_bind]
      unfold popNextPrefillSeq
      rw [wpe_get]
      refine wpe_mono (popLoop_owned config oracle target replayPending _ h) fun found s1 h1 => ?_
      cases found with
      | none => exact h1
      | some seqId =>
          dsimp only
          refine wpe_then (scanCandidate_owned config oracle target.1 scan h1) fun scanned s2 h2 => ?_
          obtain ⟨scan', scheduled⟩ := scanned
          dsimp only
          rw [wpe_ite]
          exact ⟨fun _ => h2, fun _ => ih scan' h2⟩

/-- **The prefill scan** moves sequences from the waiting queue to the batch. -/
theorem bucketLoop_owned [DecidableEq Key] [DecidableEq Resource] (replayPending : Bool) (marginBatchedTokens : ℤ)
    (targets : List (PrefillExecutionMode × Key)) (scan : PrefillScan Resource)
    (h : Owned start scan.scheduledSeqs scheduler) (hskipped : scheduler.skippedPrefill = []) :
    wpe (bucketLoop config oracle replayPending marginBatchedTokens targets scan)
      (fun scan next => Owned start scan.scheduledSeqs next ∧ next.skippedPrefill = [])
      (Loose start) scheduler := by
  induction targets generalizing scan scheduler with
  | nil => exact ⟨h, hskipped⟩
  | cons target rest ih =>
      unfold bucketLoop
      rw [wpe_ite]
      refine ⟨fun _ => ⟨h, hskipped⟩, fun _ => ?_⟩
      rw [wpe_set, wpe_get, wpe_bind, wpe_finallyDo]
      have hstart : Owned start scan.scheduledSeqs { scheduler with skippedPrefill := [] } := by
        intro x
        have hx := h x
        rw [hskipped] at hx
        exact hx
      -- the skipped sequences go back in front, after a return and after a raise
      refine wpe_imp (scanLoop_owned config oracle target replayPending marginBatchedTokens
        scheduler.waiting.length scan hstart) (fun scan' s1 h1 => ?_) fun s1 h1 => ?_
      · rw [wpe_write]
        refine ih scan' (fun x => ?_) rfl
        have hx := h1 x
        simp only [List.count_append, List.count_nil]
        omega
      · rw [wpe_write]
        intro x
        have hx := h1 x
        simp only [List.count_append, List.count_nil]
        omega

end

/-! ## Preemption -/

/-- What a pass returns to `schedule`. -/
structure Outcome (start : List ℕ) (result : ScheduleResult) (next : Scheduler Id Env) : Prop where
  owned : Owned start (if result.isPrefill then result.seqs else []) next
  skipped : next.skippedPrefill = []
  decoding : result.isPrefill = false → result.seqs ⊆ next.decoding
  distinct : start.Nodup → result.seqs.Nodup
  preempted : ∀ x ∈ result.preempted, x ∈ next.waiting
  prefill : result.isPrefill = true → result.preempted = []

section

variable (config : SchedulerConfig) (oracle : MemoryOracle Id Env Key Resource)
  (callbacks : SchedulerCallbacks Id Env)
  {start held : List ℕ} {scheduler : Scheduler Id Env}

theorem Owned.held_nodup (h : Owned start held scheduler) (hstart : start.Nodup) : held.Nodup := by
  rw [List.nodup_iff_count_le_one] at hstart ⊢
  intro x
  have hx := h x
  have hle := hstart x
  omega

variable {victim : ℕ}

/-- **Preemption** puts the victim in the waiting queue, or back where it
was. -/
theorem preemptDecodeVictim_outcome {scheduledSeqs : List ℕ}
    (h : Owned start (victim :: scheduledSeqs) scheduler) (hskipped : scheduler.skippedPrefill = []) :
    wpe (preemptDecodeVictim config oracle callbacks victim scheduledSeqs [])
      (Outcome start) (Loose start) scheduler := by
  -- where it raises, the victim and the batch are still in the decoding queue:
  have hback : Loose start { scheduler with
      decoding := scheduledSeqs ++ victim :: scheduler.decoding } := by
    intro x
    have hx := h x
    rw [List.count_cons] at hx
    simp only [List.count_append, List.count_cons]
    omega
  unfold preemptDecodeVictim
  rw [wpe_get, wpe_ite]
  refine ⟨fun _ => hback, fun _ => ?_⟩
  rw [wpe_ite]
  refine ⟨fun _ => hback, fun _ => ?_⟩
  rw [wpe_bind]
  have hdebug : Preserves queues (whenDo (config.debugSlots = true) do
      let _ ← call oracle.numFreeSlots : Routine (Scheduler Id Env) Unit) :=
    Preserves.whenDo ((preserves_call _).bind fun _ => Preserves.pure _)
  refine h.wpe hdebug fun _ s1 hs1 h1 => ?_
  rw [wpe_bind]
  refine h1.wpe (preserves_resetVictim victim) fun _ s2 hs2 h2 => ?_
  rw [wpe_bind]
  refine h2.wpe (preserves_call _) fun _ s3 hs3 h3 => ?_
  rw [wpe_bind]
  refine h3.wpe (preserves_call _) fun _ s4 hs4 h4 => ?_
  rw [wpe_bind]
  refine h4.wpe (preserves_call _) fun now s5 hs5 h5 => ?_
  rw [wpe_set, wpe_bind]
  -- none of the calls before moves a request:
  have hqueues : s5.queues = scheduler.queues :=
    hs5.trans (hs4.trans (hs3.trans (hs2.trans hs1)))
  obtain ⟨s6, hs6⟩ : ∃ s6 : Scheduler Id Env, { s5 with
      prefillWaitSince := setdefault s5.prefillWaitSince victim now
      waiting := s5.waiting ++ [victim]
      decoding := scheduledSeqs ++ s5.decoding
      totalPreemptions := s5.totalPreemptions + 1 } = s6 := ⟨_, rfl⟩
  -- the victim goes from the held requests to the waiting queue:
  have h6 : Owned start [] s6 := by
    intro x
    have hx := h5 x
    rw [List.count_cons] at hx
    rw [← hs6]
    simp only [List.count_append, List.count_singleton, List.count_nil]
    omega
  have hempty : s6.skippedPrefill = [] := by
    rw [← hs6, ← hskipped]
    exact congrArg (fun q => q.2.1) hqueues
  have hvictim : victim ∈ s6.waiting := by
    rw [← hs6]
    simp
  rw [hs6]
  refine h6.wpe (preserves_call _) fun _ s7 hs7 h7 => ?_
  simp only [queues, Prod.mk.injEq] at hs7
  rw [wpe_pure]
  refine ⟨h7, hs7.2.1.trans hempty, fun _ => List.nil_subset _, fun _ => List.nodup_nil, ?_, by simp⟩
  intro x hx
  obtain rfl : x = victim := by simpa using hx
  rw [hs7.1]
  exact hvictim

/-! ## The decode scan -/

theorem eligibleLoop_sublist (seqIds : List ℕ) (free : ℤ) (batch : List ℕ) (scheduler : Scheduler Id Env) :
    wp (eligibleLoop config oracle seqIds free batch) (fun result next =>
      next.queues = scheduler.queues ∧ ∀ found, result = .ok found → found.Sublist (batch ++ seqIds)) scheduler := by
  induction seqIds generalizing free batch scheduler with
  | nil =>
      refine ⟨rfl, fun found hfound => ?_⟩
      obtain rfl := Except.ok.inj hfound
      simp
  | cons seqId rest ih =>
      have hskip : ∀ found : List ℕ, found.Sublist (batch ++ rest) →
          found.Sublist (batch ++ seqId :: rest) := fun found hfound =>
        hfound.trans ((List.sublist_cons_self seqId rest).append_left batch)
      -- the candidate is passed over, or it joins the batch
      have hpass : ∀ next : Scheduler Id Env, next.queues = scheduler.queues →
          wp (eligibleLoop config oracle rest free batch) (fun result last =>
            last.queues = scheduler.queues ∧ ∀ found, result = .ok found →
              found.Sublist (batch ++ seqId :: rest)) next := fun next hnext =>
        wp_mono (ih free batch next) fun result last hlast =>
          ⟨hlast.1.trans hnext, fun found hfound => hskip found (hlast.2 found hfound)⟩
      unfold eligibleLoop
      rw [wp_bind, wp_read]
      dsimp only
      rw [wp_ite]
      refine ⟨fun _ => hpass scheduler rfl, fun _ => ?_⟩
      rw [wp_bind, wp_def]
      rcases hcost : (call (oracle.decodeStepReservationCost seqId) scheduler).1 with error | cost
      · exact ⟨rfl, fun found hfound => by cases hfound⟩
      · dsimp only
        rw [wp_bind, wp_def]
        rcases (call (oracle.decodeStepFreeSlotsFor seqId)
          (call (oracle.decodeStepReservationCost seqId) scheduler).2).1 with error | seqFree
        · exact ⟨rfl, fun found hfound => by cases hfound⟩
        · dsimp only
          rw [wp_ite, wp_ite, wp_ite]
          refine ⟨fun _ => ⟨fun _ => ⟨rfl, fun found hfound => ?_⟩, fun _ => hpass _ rfl⟩,
            fun _ => ⟨fun _ => ⟨rfl, fun found hfound => ?_⟩, fun _ => ?_⟩⟩
          · obtain rfl := Except.ok.inj hfound
            exact List.sublist_append_left _ _
          · obtain rfl := Except.ok.inj hfound
            exact (List.singleton_sublist.mpr (by simp)).append_left batch
          · refine wp_mono (ih _ (batch ++ [seqId]) _) fun result last hlast => ⟨hlast.1, ?_⟩
            intro found hfound
            have hsub := hlast.2 found hfound
            rwa [List.append_assoc, List.singleton_append] at hsub

/-- The decode affinity test leaves the queues alone and chooses a part of the
decoding queue. -/
theorem decodeAffinity_sublist (failure : Option ℕ) (scheduler : Scheduler Id Env) :
    wpe (decodeAffinity config oracle callbacks failure)
      (fun chosen next => next.queues = scheduler.queues ∧
        ∀ batch, chosen.1 = some batch → batch.Sublist next.decoding)
      (fun next => next.queues = scheduler.queues) scheduler := by
  have hnone : ∀ (next : Scheduler Id Env), next.queues = scheduler.queues →
      next.queues = scheduler.queues ∧ ∀ batch : List ℕ, none = some batch → batch.Sublist next.decoding :=
    fun next hnext => ⟨hnext, by simp⟩
  unfold decodeAffinity
  rw [wpe_set, wpe_ite]
  refine ⟨fun _ => hnone _ rfl, fun _ => ?_⟩
  rw [wpe_get, wpe_bind]
  refine (preserves_anyOverdue callbacks _).wpe (fun overdue s1 hs1 => ?_) fun next hnext => hnext
  rw [wpe_set, wpe_get, wpe_ite]
  refine ⟨fun _ => ?_, fun _ => hnone _ hs1⟩
  rw [wpe_bind]
  unfold eligibleDecodeBatch
  rw [wpe_get, wpe_ite]
  refine ⟨fun _ => ?_, fun _ => ?_⟩
  · rw [wpe_pure, wpe_get, wpe_ite]
    exact ⟨fun hbatch => absurd rfl hbatch.1, fun _ => hnone _ hs1⟩
  · rw [wpe_bind]
    refine (preserves_call _).wpe (fun free s2 hs2 => ?_) fun next hnext => hnext.trans hs1
    have hs2' : s2.queues = scheduler.queues := hs2.trans hs1
    rw [wpe_get]
    obtain ⟨hs3, hbatch⟩ := eligibleLoop_sublist config oracle s2.decoding (max 0 free) [] s2
    rw [wpe_def]
    rcases hrun : (eligibleLoop config oracle s2.decoding (max 0 free) [] s2).1 with error | batch
    · exact hs3.trans hs2'
    · dsimp only
      rw [wpe_get, wpe_ite]
      refine ⟨fun _ => ?_, fun _ => hnone _ (hs3.trans hs2')⟩
      rw [wpe_set, wpe_pure]
      refine ⟨hs3.trans hs2', fun found hfound => ?_⟩
      obtain rfl := Option.some.inj hfound
      have hsub := hbatch batch hrun
      rw [List.nil_append] at hsub
      have hdecoding := congrArg (fun q => q.2.2) hs3
      dsimp only [queues] at hdecoding
      dsimp only
      rw [hdecoding]
      exact hsub

theorem decodeAffinity_owned (failure : Option ℕ) (h : Owned start [] scheduler)
    (hskipped : scheduler.skippedPrefill = []) :
    wpe (decodeAffinity config oracle callbacks failure)
      (fun chosen next => Owned start [] next ∧ next.skippedPrefill = [] ∧
        ∀ batch, chosen.1 = some batch → batch.Sublist next.decoding)
      (Loose start) scheduler := by
  refine wpe_imp (decodeAffinity_sublist config oracle callbacks failure scheduler)
    (fun chosen next hnext => ?_) fun next hnext => (h.of_queues hnext).loose
  have hempty : next.skippedPrefill = [] := by
    rw [← hskipped]
    exact congrArg (fun q => q.2.1) hnext.1
  exact ⟨h.of_queues hnext.1, hempty, hnext.2⟩

/-- What the decode scan keeps: the blocked victim lies behind the sequences
that are still to be looked at. -/
structure Scanning (start : List ℕ) (budget : ℕ) (scan : DecodeScan)
    (scheduler : Scheduler Id Env) : Prop where
  owned : Owned start scan.scheduledSeqs scheduler
  skipped : scheduler.skippedPrefill = []
  budget_le : budget ≤ scheduler.decoding.length
  blocked : ∀ victim, scan.blockedDecodeVictim = some victim →
    victim ∈ scheduler.decoding.drop budget

section

variable {budget : ℕ} {scan : DecodeScan} {seqId : ℕ} {rest : List ℕ}

section

variable (h : Scanning start (budget + 1) scan scheduler)
  (hdecoding : scheduler.decoding = seqId :: rest)

include h hdecoding

/-- The head goes to the tail, and may become the blocked victim. -/
theorem Scanning.rotate {next : Scheduler Id Env} (hqueues : next.queues =
      (scheduler.waiting, scheduler.skippedPrefill, rest ++ [seqId])) {victim : Option ℕ}
    (hvictim : victim = scan.blockedDecodeVictim ∨ victim = scan.blockedDecodeVictim.or (some seqId)) :
    Scanning start budget { scan with blockedDecodeVictim := victim } next := by
  simp only [queues, Prod.mk.injEq] at hqueues
  obtain ⟨hwaiting, hskipped, htail⟩ := hqueues
  have hle := h.budget_le
  rw [hdecoding, List.length_cons] at hle
  refine ⟨fun x => ?_, hskipped.trans h.skipped, ?_, fun v hv => ?_⟩
  · have hx := h.owned x
    rw [hdecoding, List.count_cons] at hx
    rw [hwaiting, hskipped, htail, List.count_append, List.count_singleton]
    dsimp only
    omega
  · rw [htail, List.length_append, List.length_singleton]
    omega
  · rw [htail, List.drop_append_of_le_length (by omega), List.mem_append]
    have hold : ∀ w, scan.blockedDecodeVictim = some w → w ∈ rest.drop budget := by
      intro w hw
      have hmem := h.blocked w hw
      rwa [hdecoding, List.drop_succ_cons] at hmem
    dsimp only at hv
    rcases hvictim with rfl | rfl
    · exact Or.inl (hold v hv)
    · rcases Option.or_eq_some_iff.mp hv with hv | ⟨-, hv⟩
      · exact Or.inl (hold v hv)
      · obtain rfl := Option.some.inj hv
        exact Or.inr (by simp)

/-- The head joins the batch. -/
theorem Scanning.take {next : Scheduler Id Env}
    (hqueues : next.queues = (scheduler.waiting, scheduler.skippedPrefill, rest)) (free count : ℤ) :
    Scanning start budget { scan with
      decodeLogicalFreeCount := free
      numBatchedSeqs := count
      scheduledSeqs := scan.scheduledSeqs ++ [seqId] } next := by
  simp only [queues, Prod.mk.injEq] at hqueues
  obtain ⟨hwaiting, hskipped, htail⟩ := hqueues
  have hle := h.budget_le
  rw [hdecoding, List.length_cons] at hle
  refine ⟨fun x => ?_, hskipped.trans h.skipped, ?_, fun v hv => ?_⟩
  · have hx := h.owned x
    rw [hdecoding, List.count_cons] at hx
    rw [hwaiting, hskipped, htail]
    simp only [List.count_append, List.count_singleton]
    omega
  · rw [htail]
    omega
  · have hmem := h.blocked v hv
    rwa [hdecoding, List.drop_succ_cons, ← htail] at hmem

end

end

/-- **The decode scan.** -/
theorem decodeLoop_scanning (budget : ℕ) (scan : DecodeScan) (h : Scanning start budget scan scheduler) :
    wpe (decodeLoop config oracle callbacks budget scan)
      (fun found next =>
        match found with
        | .inl result => Outcome start result next
        | .inr scan => Scanning start 0 scan next)
      (Loose start) scheduler := by
  have hstop : ∀ {budget : ℕ} {scan : DecodeScan} {scheduler : Scheduler Id Env},
      Scanning start budget scan scheduler → Scanning start 0 scan scheduler := fun h =>
    ⟨h.owned, h.skipped, Nat.zero_le _, fun v hv => List.mem_of_mem_drop (h.blocked v hv)⟩
  induction budget generalizing scan scheduler with
  | zero => exact h
  | succ budget ih =>
      unfold decodeLoop
      rw [wpe_get]
      cases hdecoding : scheduler.decoding with
      | nil => exact hstop h
      | cons seqId rest =>
          dsimp only
          rw [wpe_ite]
          refine ⟨fun _ => hstop h, fun _ => ?_⟩
          rw [wpe_set, wpe_get]
          -- the head is in the hands of the scan
          obtain ⟨s1, hs1⟩ : ∃ s1 : Scheduler Id Env, { scheduler with decoding := rest } = s1 :=
            ⟨_, rfl⟩
          have hqueues1 : s1.queues = (scheduler.waiting, scheduler.skippedPrefill, rest) := by
            rw [← hs1]
            rfl
          have h1 : Owned start (seqId :: scan.scheduledSeqs) s1 := by
            intro x
            have hx := h.owned x
            rw [hdecoding, List.count_cons] at hx
            rw [← hs1]
            simp only [List.count_cons]
            omega
          have hrotate : ∀ (next : Scheduler Id Env) (victim : Option ℕ), next.queues = s1.queues →
              (victim = scan.blockedDecodeVictim ∨ victim = scan.blockedDecodeVictim.or (some seqId)) →
              Scanning start budget { scan with blockedDecodeVictim := victim }
                { next with decoding := next.decoding ++ [seqId] } := by
            intro next victim hnext hvictim
            refine h.rotate hdecoding ?_ hvictim
            rw [hqueues1] at hnext
            simp only [queues, Prod.mk.injEq] at hnext ⊢
            exact ⟨hnext.1, hnext.2.1, by rw [hnext.2.2]⟩
          rw [hs1, wpe_ite]
          refine ⟨fun _ => ?_, fun _ => ?_⟩
          · rw [wpe_set]
            exact ih scan (hrotate s1 _ rfl (Or.inl rfl))
          rw [wpe_bind]
          refine h1.wpe (preserves_call _) fun seqFree s2 hs2 h2 => ?_
          rw [wpe_bind]
          refine h2.wpe (preserves_call _) fun cost s3 hs3 h3 => ?_
          have hqueues3 : s3.queues = s1.queues := hs3.trans hs2
          rw [wpe_ite, wpe_ite, wpe_ite]
          refine ⟨fun _ => ⟨fun _ => ?_, fun _ => ⟨fun _ => ?_, fun _ => ?_⟩⟩, fun _ => ?_⟩
          · rw [wpe_set]
            exact ih _ (hrotate s3 _ hqueues3 (Or.inr rfl))
          · rw [wpe_set, wpe_pure]
            exact hstop (hrotate s3 _ hqueues3 (Or.inr rfl))
          · rw [wpe_bind]
            have hskipped : s3.skippedPrefill = [] := by
              rw [← h.skipped]
              exact congrArg (fun q => q.2.1) (hqueues3.trans hqueues1)
            exact wpe_mono (preemptDecodeVictim_outcome config oracle callbacks h3 hskipped)
              fun result next hnext => hnext
          · exact ih _ (h.take hdecoding (hqueues3.trans hqueues1) _ _)

theorem frontDecoding_perm {scan : DecodeScan} (h : Scanning start 0 scan scheduler) :
    (frontDecoding scan scheduler.decoding).Perm (scan.scheduledSeqs ++ scheduler.decoding) := by
  unfold frontDecoding
  cases hvictim : scan.blockedDecodeVictim with
  | none => exact List.Perm.refl _
  | some victim =>
      have hmem : victim ∈ scan.scheduledSeqs ++ scheduler.decoding :=
        List.mem_append.mpr (Or.inr (h.blocked victim hvictim))
      exact (List.perm_cons_erase hmem).symm

/-- The decode batch returns to the front of the queue. -/
theorem returnDecodeBatch_outcome {scan : DecodeScan} (h : Scanning start 0 scan scheduler) :
    wpe (returnDecodeBatch scan) (Outcome start) (Loose start) scheduler := by
  unfold returnDecodeBatch
  rw [wpe_set, wpe_pure]
  have hperm := frontDecoding_perm h
  refine ⟨fun x => ?_, h.skipped, fun _ x hx => ?_, h.owned.held_nodup, by simp, by simp⟩
  · have hx := h.owned x
    have hcount := hperm.count_eq x
    rw [List.count_append] at hcount
    simp only [Bool.false_eq_true, if_false, List.count_nil]
    omega
  · exact hperm.mem_iff.mpr (List.mem_append.mpr (Or.inl hx))

theorem decodePhase_outcome (retry : Option (Routine (Scheduler Id Env) ScheduleResult))
    (hretry : ∀ again, retry = some again → ∀ next : Scheduler Id Env, Owned start [] next →
      next.skippedPrefill = [] → wpe again (Outcome start) (Loose start) next)
    (prefill : PrefillScan Resource) (free : ℤ) (h : Owned start [] scheduler)
    (hskipped : scheduler.skippedPrefill = []) :
    wpe (decodePhase config oracle callbacks retry prefill free) (Outcome start) (Loose start)
      scheduler := by
  unfold decodePhase
  rw [wpe_set, wpe_get]
  refine wpe_then (decodeLoop_scanning config oracle callbacks scheduler.decoding.length _
    ⟨h, hskipped, le_rfl, by simp⟩) fun found s1 h1 => ?_
  cases found with
  | inl result => exact h1
  | inr scan =>
      dsimp only
      rw [wpe_ite]
      refine ⟨fun _ => returnDecodeBatch_outcome h1, fun hnone => ?_⟩
      rw [not_not] at hnone
      have howned : Owned start [] s1 := hnone ▸ h1.owned
      cases hvictim : scan.blockedDecodeVictim with
      | some victim =>
          dsimp only
          rw [wpe_set]
          refine preemptDecodeVictim_outcome config oracle callbacks (fun x => ?_) h1.skipped
          have hx := howned x
          -- the blocked victim leaves the decoding queue and is held
          have hmem := h1.blocked victim hvictim
          rw [List.drop_zero] at hmem
          have hcount := (List.perm_cons_erase hmem).count_eq x
          rw [List.count_cons] at hcount
          simp only [List.count_singleton, List.count_nil] at hx ⊢
          omega
      | none =>
          dsimp only
          rw [wpe_bind]
          refine howned.wpe (preserves_reclaimPrefill callbacks retry.isSome prefill) fun again s2 hs2 h2 => ?_
          have hskipped2 : s2.skippedPrefill = [] :=
            (congrArg (fun q => q.2.1) hs2).trans h1.skipped
          have hidle : wpe (do
              raiseBlocked config oracle prefill
              return (⟨[], false, []⟩ : ScheduleResult)) (Outcome start) (Loose start) s2 := by
            rw [wpe_bind]
            refine h2.wpe (preserves_raiseBlocked config oracle prefill) fun _ s3 hs3 h3 => ?_
            have hskipped3 : s3.skippedPrefill = [] :=
              (congrArg (fun q => q.2.1) hs3).trans hskipped2
            -- the pass returns without a batch
            exact ⟨h3, hskipped3, fun _ => List.nil_subset _, fun _ => List.nodup_nil, by simp, by simp⟩
          cases again with
          | false => exact hidle
          | true =>
              -- prefill capacity was reclaimed: the pass runs once more
              cases hcall : retry with
              | none => exact hidle
              | some call => exact hretry call hcall s2 h2 hskipped2

/-! ## One pass -/

theorem map_snd_of_waitingSince {seqIds : List ℕ} {keyed : List (ℚ × ℕ)}
    (hkeyed : seqIds.mapM scheduler.waitingSince = .ok keyed) : keyed.map Prod.snd = seqIds := by
  induction seqIds generalizing keyed with
  | nil =>
      obtain rfl := Except.ok.inj hkeyed
      rfl
  | cons seqId rest ih =>
      rw [List.mapM_cons] at hkeyed
      have hhead : ∀ entry, scheduler.waitingSince seqId = .ok entry → entry.2 = seqId := by
        intro entry hentry
        unfold waitingSince at hentry
        split at hentry
        · cases hentry
        · obtain rfl := Except.ok.inj hentry
          rfl
      cases hfirst : scheduler.waitingSince seqId with
      | error error => simp [hfirst, bind, Except.bind] at hkeyed
      | ok entry =>
          cases hrest : rest.mapM scheduler.waitingSince with
          | error error => simp [hfirst, hrest, bind, Except.bind] at hkeyed
          | ok others =>
              simp only [hfirst, hrest, bind, Except.bind, pure, Except.pure, Except.ok.injEq] at hkeyed
              rw [← hkeyed, List.map_cons, ih hrest, hhead entry hfirst]

/-- The sort keeps the waiting sequences. -/
theorem sortWaiting_owned (h : Owned start [] scheduler) (hskipped : scheduler.skippedPrefill = []) :
    wpe (sortWaiting : Routine (Scheduler Id Env) Unit)
      (fun _ next => Owned start [] next ∧ next.skippedPrefill = []) (Loose start) scheduler := by
  unfold sortWaiting
  rw [wpe_get, wpe_bind]
  refine wpe_ofExcept (fun keyed hkeyed => ?_) h.loose
  rw [wpe_write]
  refine ⟨fun x => ?_, hskipped⟩
  have hperm : ((keyed.insertionSort fun a b => a.1 ≤ b.1).map Prod.snd).Perm scheduler.waiting := by
    rw [← map_snd_of_waitingSince hkeyed]
    exact (List.perm_insertionSort _ keyed).map Prod.snd
  have hx := h x
  rw [← hperm.count_eq x] at hx
  exact hx

theorem prefillPhase_owned [DecidableEq Key] [DecidableEq Resource] (scan : PrefillScan Resource) (margin : ℤ)
    (h : Owned start scan.scheduledSeqs scheduler) (hskipped : scheduler.skippedPrefill = []) :
    wpe (prefillPhase config oracle callbacks scan margin)
      (fun scan next => Owned start scan.scheduledSeqs next ∧ next.skippedPrefill = [])
      (Loose start) scheduler := by
  unfold prefillPhase
  rw [wpe_get, wpe_bind]
  have hmodes : Preserves queues (if scheduler.waiting ≠ [] ∧
        ¬ (scheduler.replayWaiting ∧ scheduler.decoding ≠ []) then
      prefillModeOrder config oracle callbacks
    else pure []) :=
    Preserves.ite (preserves_prefillModeOrder config oracle callbacks) (Preserves.pure _)
  refine h.wpe hmodes fun modes s1 hs1 h1 => ?_
  rw [wpe_get]
  exact bucketLoop_owned config oracle _ _ modes scan h1 ((congrArg (fun q => q.2.1) hs1).trans hskipped)

/-- A sequence taken out of the decoding queue is preempted. -/
theorem removeDecoding_owned (h : Owned start [] scheduler) (hskipped : scheduler.skippedPrefill = []) :
    wpe (removeDecoding victim : Routine (Scheduler Id Env) Unit)
      (fun _ next => Owned start [victim] next ∧ next.skippedPrefill = []) (Loose start) scheduler := by
  unfold removeDecoding
  rw [wpe_get]
  refine wpe_guarded h.loose fun hmem => ?_
  rw [not_not] at hmem
  rw [wpe_write]
  refine ⟨fun x => ?_, hskipped⟩
  have hx := h x
  have hcount := (List.perm_cons_erase hmem).count_eq x
  rw [List.count_cons] at hcount
  simp only [List.count_singleton, List.count_nil] at hx ⊢
  omega

end

end Scheduler
