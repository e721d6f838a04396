import SparseEngine.Scheduler.Preemption

/-!
# What waits while steps are in flight

Only a preemption moves a sequence from the decoding queue to the waiting
queue, and with steps in flight there is none.  So what waits after a call of
`schedule` waited before (`Lined`).
-/

namespace Scheduler

open Routine

variable {Id Env Key Resource : Type} {ledger : Env → List (Sequence Id)}
  {start : List ℕ} {scheduler next : Scheduler Id Env}

/-- Steps are in flight, and everything that waits is of `start`. -/
structure Lined (start : List ℕ) (scheduler : Scheduler Id Env) : Prop where
  inflight : scheduler.asyncInflight ≠ 0
  waiting : scheduler.waiting ⊆ start
  skipped : scheduler.skippedPrefill ⊆ start

/-- A call that leaves the queues and the sequences alone. -/
theorem maintains_lined {α : Type} {m : Routine (Scheduler Id Env) α} (hqueues : Preserves queues m)
    (hrest : Preserves (rest ledger) m) : Maintains (Lined start) m := by
  intro scheduler h
  have hlined : Lined start (m scheduler).2 := by
    have hsame := hqueues scheduler
    simp only [queues, Prod.mk.injEq] at hsame
    have hinflight : (m scheduler).2.asyncInflight = scheduler.asyncInflight :=
      congrArg (·.2.2.1) (hrest scheduler)
    exact ⟨hinflight ▸ h.inflight, hsame.1 ▸ h.waiting, hsame.2.1 ▸ h.skipped⟩
  rw [wpe_def]
  split
  · exact hlined
  · exact hlined

theorem maintains_call {α : Type} (hook : Hook Id Env α) : Maintains (Lined start) (call hook) := by
  intro scheduler h
  have hlined : Lined start (call hook scheduler).2 := ⟨h.inflight, h.waiting, h.skipped⟩
  rw [wpe_def]
  split
  · exact hlined
  · exact hlined

theorem maintains_setSeq (seqId : ℕ) (update : Sequence Id → Sequence Id) :
    Maintains (Lined start) (write (setSeq seqId update) : Routine (Scheduler Id Env) Unit) :=
  Maintains.write fun _ h => ⟨h.inflight, h.waiting, h.skipped⟩

theorem maintains_requeue {seqId : ℕ} (hmem : seqId ∈ start) :
    Maintains (Lined start) (requeue seqId : Routine (Scheduler Id Env) Unit) := by
  apply Maintains.write
  intro scheduler h
  refine ⟨h.inflight, ?_, h.skipped⟩
  exact List.append_subset.mpr ⟨h.waiting, List.cons_subset.mpr ⟨hmem, List.nil_subset _⟩⟩

section

variable [PrefixReuse] [DecidableEq Key] [DecidableEq Resource] {config : SchedulerConfig}
  {oracle : MemoryOracle Id Env Key Resource} {callbacks : SchedulerCallbacks Id Env}

/-! ## The prefill scan -/

omit [DecidableEq Resource] in
/-- The candidate that is popped was waiting. -/
theorem popLoop_lined (h : Tame ledger oracle callbacks) (target : PrefillExecutionMode × Key)
    (replayPending : Bool) (fuel : ℕ) (hlined : Lined start scheduler) :
    wpe (popLoop config oracle target replayPending fuel)
      (fun found next => Lined start next ∧ ∀ seqId, found = some seqId → seqId ∈ start)
      (Lined start) scheduler := by
  induction fuel generalizing scheduler with
  | zero => exact ⟨hlined, fun _ hfound => nomatch hfound⟩
  | succ fuel ih =>
      unfold popLoop
      rw [wpe_get]
      cases hwaiting : scheduler.waiting with
      | nil => exact ⟨hlined, fun _ hfound => nomatch hfound⟩
      | cons seqId others =>
          have hall := hlined.waiting
          rw [hwaiting, List.cons_subset] at hall
          have hmatches : Preserves (rest ledger) (matchesTarget config oracle target replayPending seqId) := by
            unfold matchesTarget
            refine Preserves.read.bind fun scheduler => .ite ?_ (.pure _)
            exact (rest_prefillBatchKey h seqId).bind fun _ => .pure _
          dsimp only
          refine wpe_then (maintains_lined (preserves_matchesTarget config oracle target replayPending seqId) hmatches
            scheduler hlined) fun found s1 h1 => ?_
          rw [wpe_ite]
          refine ⟨fun _ => ?_, fun _ => ?_⟩
          · rw [wpe_set, wpe_pure]
            exact ⟨⟨h1.inflight, hall.2, h1.skipped⟩, fun _ hfound =>
              Option.some.inj hfound ▸ hall.1⟩
          · rw [wpe_set]
            apply ih
            refine ⟨h1.inflight, hall.2, ?_⟩
            exact List.append_subset.mpr ⟨h1.skipped, List.cons_subset.mpr ⟨hall.1, List.nil_subset _⟩⟩

section

omit [DecidableEq Key]

variable {seqId : ℕ}

theorem maintains_admitPrompt (h : Tame ledger oracle callbacks) (scan : PrefillScan Resource)
    (hmem : seqId ∈ start) : Maintains (Lined start) (admitPrompt config oracle scan seqId) := by
  unfold admitPrompt
  refine (maintains_call _).bind fun rawCosts => ?_
  refine (maintains_lined (preserves_sharedAdmissionCosts oracle seqId)
    (rest_sharedAdmissionCosts h seqId)).bind fun sharedCosts => ?_
  refine (Maintains.ofExcept _).bind fun costs => ?_
  split
  · refine (maintains_call _).bind fun action => .ite ?_ (.raise _)
    refine (maintains_lined (preserves_warnDeferred config oracle seqId) (rest_warnDeferred h seqId)).bind fun _ => ?_
    exact (maintains_requeue hmem).bind fun _ => .pure _
  · refine Maintains.bind ?_ fun _ => ?_
    · exact Maintains.write fun _ h => ⟨h.inflight, h.waiting, h.skipped⟩
    refine (maintains_setSeq _ _).bind fun _ => (maintains_call _).bind fun _ => ?_
    refine (maintains_setSeq _ _).bind fun _ => (maintains_call _).bind fun _ => ?_
    exact (Maintains.raiseIf _ _).bind fun _ => .pure _

theorem maintains_scanCandidate (h : Tame ledger oracle callbacks) (mode : PrefillExecutionMode)
    (scan : PrefillScan Resource) (hmem : seqId ∈ start) :
    Maintains (Lined start) (scanCandidate config oracle mode scan seqId) := by
  unfold scanCandidate
  refine (maintains_call _).bind fun remaining => ?_
  refine (maintains_lined (preserves_candidateStepFree oracle mode scan seqId)
    (rest_candidateStepFree h mode scan seqId)).bind fun candidateFree => ?_
  refine (Maintains.raiseIf _ _).bind fun _ => ?_
  have hrespect : ∀ proposed : ℤ, Maintains (Lined start)
      (respectMinFinalPrefillChunk oracle seqId remaining proposed) := by
    intro proposed
    unfold respectMinFinalPrefillChunk
    refine (maintains_call _).bind fun _ => (Maintains.raiseIf _ _).bind fun _ => ?_
    exact .ite (.pure _) (.pure _)
  refine (hrespect _).bind fun canPrefill => .ite ?_ ?_
  · exact (maintains_call _).bind fun _ => (maintains_requeue hmem).bind fun _ => .pure _
  · refine Maintains.read.bind fun _ => ?_
    refine (Maintains.ite (maintains_admitPrompt h scan hmem) (.pure _)).bind fun result => ?_
    obtain ⟨admitted, later⟩ := result
    cases admitted with
    | none => exact .pure _
    | some paid =>
        refine (maintains_setSeq _ _).bind fun _ => (maintains_call _).bind fun _ => ?_
        exact (maintains_setSeq _ _).bind fun _ => .pure _

end

section

variable (h : Tame ledger oracle callbacks)

include h

theorem maintains_scanLoop (target : PrefillExecutionMode × Key) (replayPending : Bool) (margin : ℤ)
    (budget : ℕ) (scan : PrefillScan Resource) :
    Maintains (Lined start) (scanLoop config oracle target replayPending margin budget scan) := by
  induction budget generalizing scan with
  | zero => exact .pure _
  | succ budget ih =>
      unfold scanLoop
      refine Maintains.read.bind fun _ => .ite ?_ (.pure _)
      intro scheduler hlined
      unfold popNextPrefillSeq
      rw [wpe_bind, wpe_get]
      refine wpe_mono (popLoop_lined h target replayPending _ hlined) fun found s1 h1 => ?_
      obtain ⟨h1, hfound⟩ := h1
      cases found with
      | none => exact h1
      | some seqId =>
          dsimp only
          refine wpe_then (maintains_scanCandidate h target.1 scan (hfound seqId rfl) s1 h1) fun result s2 h2 => ?_
          rw [wpe_ite]
          exact ⟨fun _ => h2, fun _ => ih result.1 s2 h2⟩

theorem maintains_bucketLoop (replayPending : Bool) (margin : ℤ)
    (targets : List (PrefillExecutionMode × Key)) (scan : PrefillScan Resource) :
    Maintains (Lined start) (bucketLoop config oracle replayPending margin targets scan) := by
  induction targets generalizing scan with
  | nil => exact .pure _
  | cons target others ih =>
      unfold bucketLoop
      refine .ite (.pure _) ?_
      intro scheduler hlined
      rw [wpe_set, wpe_get, wpe_bind, wpe_finallyDo]
      have hempty : Lined start { scheduler with skippedPrefill := [] } :=
        ⟨hlined.inflight, hlined.waiting, List.nil_subset _⟩
      -- the skipped candidates go back to the front
      have hback : ∀ next : Scheduler Id Env, Lined start next →
          Lined start { next with
            waiting := next.skippedPrefill ++ next.waiting
            skippedPrefill := [] } := fun next hnext =>
        ⟨hnext.inflight, List.append_subset.mpr ⟨hnext.skipped, hnext.waiting⟩, List.nil_subset _⟩
      refine wpe_imp (maintains_scanLoop h target replayPending margin _ scan _ hempty)
        (fun later s1 h1 => ?_) fun s1 h1 => ?_
      · rw [wpe_write]
        exact ih later _ (hback s1 h1)
      · rw [wpe_write]
        exact hback s1 h1

theorem maintains_prefillPhase (scan : PrefillScan Resource) (margin : ℤ) :
    Maintains (Lined start) (prefillPhase config oracle callbacks scan margin) := by
  have hmodes : Maintains (Lined start) (prefillModeOrder config oracle callbacks) := by
    unfold prefillModeOrder refreshFresh
    refine Maintains.read.bind fun scheduler => Maintains.bind ?_ fun _ => ?_
    · cases callbacks.prefixCacheHitsRefresher with
      | none => exact .pure _
      | some refresh => exact .whenDo (maintains_call _)
    · generalize (prefillCandidates config scheduler) = seqIds
      generalize ([] : List (PrefillExecutionMode × Key)) = modes
      induction seqIds generalizing modes with
      | nil => exact .pure _
      | cons seqId others ih =>
          unfold collectModes refreshPrefillMetadata
          refine (Maintains.whenDo ?_).bind fun _ => ?_
          · exact Maintains.read.bind fun _ => .whenDo (maintains_call _)
          · exact (maintains_lined (preserves_prefillBatchKey oracle seqId)
              (rest_prefillBatchKey h seqId)).bind fun _ => ih _
  unfold prefillPhase
  refine Maintains.read.bind fun _ => (Maintains.ite hmodes (.pure _)).bind fun modes => ?_
  exact Maintains.read.bind fun _ => maintains_bucketLoop h _ _ modes scan

end

/-! ## The decode scan -/

section

omit [PrefixReuse] [DecidableEq Key] [DecidableEq Resource]

/-- With steps in flight a preemption raises. -/
theorem preemptDecodeVictim_lined (victim : ℕ) (scheduledSeqs preempted : List ℕ) :
    Maintains (Lined start) (preemptDecodeVictim config oracle callbacks victim scheduledSeqs preempted) := by
  intro scheduler hlined
  unfold preemptDecodeVictim
  rw [wpe_get, wpe_ite]
  refine ⟨fun _ => ?_, fun hnone => absurd hlined.inflight hnone⟩
  rw [wpe_set, wpe_raise]
  exact ⟨hlined.inflight, hlined.waiting, hlined.skipped⟩

theorem maintains_decoding (update : Scheduler Id Env → List ℕ) :
    Maintains (Lined start) (write fun scheduler : Scheduler Id Env =>
      { scheduler with decoding := update scheduler }) :=
  Maintains.write fun _ h => ⟨h.inflight, h.waiting, h.skipped⟩

theorem maintains_decodeLoop (budget : ℕ) (scan : DecodeScan) :
    Maintains (Lined start) (decodeLoop config oracle callbacks budget scan) := by
  induction budget generalizing scan with
  | zero => exact .pure _
  | succ budget ih =>
      unfold decodeLoop
      refine Maintains.read.bind fun scheduler => ?_
      cases scheduler.decoding with
      | nil => exact .pure _
      | cons seqId others =>
          refine .ite (.pure _) ((maintains_decoding _).bind fun _ => ?_)
          refine Maintains.read.bind fun _ => .ite ?_ ?_
          · exact (maintains_decoding _).bind fun _ => ih _
          refine (maintains_call _).bind fun _ => (maintains_call _).bind fun _ => .ite ?_ (ih _)
          refine .ite ((maintains_decoding _).bind fun _ => ih _) (.ite ?_ ?_)
          · exact (maintains_decoding _).bind fun _ => .pure _
          · exact (preemptDecodeVictim_lined seqId _ _).bind fun _ => .pure _

theorem maintains_decodePhase [PrefixReuse] (h : Tame ledger oracle callbacks)
    (retry : Option (Routine (Scheduler Id Env) ScheduleResult))
    (hretry : ∀ again ∈ retry, Maintains (Lined start) again)
    (prefill : PrefillScan Resource) (decodeLogicalFreeCount : ℤ) :
    Maintains (Lined start) (decodePhase config oracle callbacks retry prefill decodeLogicalFreeCount) := by
  have hidle : Maintains (Lined start) (do
      raiseBlocked config oracle prefill
      return (⟨[], false, []⟩ : ScheduleResult)) :=
    (maintains_lined (preserves_raiseBlocked config oracle prefill)
      (rest_raiseBlocked h prefill)).bind fun _ => .pure _
  unfold decodePhase
  refine Maintains.bind ?_ fun _ => Maintains.read.bind fun _ => ?_
  · exact Maintains.write fun _ h => ⟨h.inflight, h.waiting, h.skipped⟩
  refine (maintains_decodeLoop _ _).bind fun found => ?_
  match found with
  | .inl result => exact .pure _
  | .inr scan =>
      refine .ite ?_ ?_
      · exact (maintains_decoding _).bind fun _ => .pure _
      cases scan.blockedDecodeVictim with
      | some victim =>
          exact (maintains_decoding _).bind fun _ => preemptDecodeVictim_lined victim _ _
      | none =>
          refine (maintains_lined (preserves_reclaimPrefill callbacks retry.isSome prefill)
            (rest_reclaimPrefill h _ prefill)).bind fun again => ?_
          cases again with
          | false => exact hidle
          | true =>
              cases retry with
              | none => exact hidle
              | some retry => exact hretry retry rfl

end

/-! ## `schedule` -/

section

omit [PrefixReuse] [DecidableEq Key] [DecidableEq Resource]

theorem maintains_decodeAffinity (failure : Option ℕ) :
    Maintains (Lined start) (decodeAffinity config oracle callbacks failure) := by
  have hreason : ∀ reason : Scheduler Id Env → String,
      Maintains (Lined start) (write fun scheduler : Scheduler Id Env =>
        { scheduler with phaseReason := reason scheduler }) :=
    fun _ => Maintains.write fun _ h => ⟨h.inflight, h.waiting, h.skipped⟩
  have hoverdue : ∀ waits : List ℚ, Maintains (Lined start) (anyOverdue callbacks waits) := by
    intro waits
    induction waits with
    | nil => exact .pure _
    | cons since others ih =>
        unfold anyOverdue
        exact (maintains_call _).bind fun _ => .ite (.pure _) ih
  have hloop : ∀ (seqIds : List ℕ) (free : ℤ) (batch : List ℕ),
      Maintains (Lined start) (eligibleLoop config oracle seqIds free batch) := by
    intro seqIds
    induction seqIds with
    | nil => exact fun _ _ => .pure _
    | cons seqId others ih =>
        intro free batch
        unfold eligibleLoop
        refine Maintains.read.bind fun _ => .ite (ih _ _) ?_
        refine (maintains_call _).bind fun _ => (maintains_call _).bind fun _ => ?_
        exact .ite (.ite (.pure _) (ih _ _)) (.ite (.pure _) (ih _ _))
  have heligible : Maintains (Lined start) (eligibleDecodeBatch config oracle) := by
    unfold eligibleDecodeBatch
    refine Maintains.read.bind fun _ => .ite (.pure _) ?_
    exact (maintains_call _).bind fun _ => Maintains.read.bind fun _ => hloop _ _ _
  unfold decodeAffinity
  refine (hreason _).bind fun _ => .ite (.pure _) ?_
  refine Maintains.read.bind fun _ => (hoverdue _).bind fun _ => (hreason _).bind fun _ => ?_
  refine Maintains.read.bind fun _ => .ite (heligible.bind fun _ => ?_) (.pure _)
  exact Maintains.read.bind fun _ => .ite ((hreason _).bind fun _ => .pure _) (.pure _)

theorem maintains_prefillCapacity (physicalFreeCount : ℤ) :
    Maintains (Lined start) (prefillCapacity config oracle physicalFreeCount) := by
  unfold prefillCapacity reservedPrefillTokens
  refine Maintains.read.bind fun _ => .ite (.pure _) ?_
  refine (maintains_call _).bind fun _ => (maintains_call _).bind fun _ => ?_
  refine (maintains_call _).bind fun _ => (maintains_call _).bind fun _ => ?_
  exact (maintains_call _).bind fun _ => .pure _

theorem maintains_sortWaiting :
    Maintains (Lined start) (sortWaiting : Routine (Scheduler Id Env) Unit) := by
  intro scheduler hlined
  unfold sortWaiting
  rw [wpe_get, wpe_bind]
  refine wpe_ofExcept (fun keyed hkeyed => ?_) hlined
  rw [wpe_write]
  refine ⟨hlined.inflight, fun seqId hmem => hlined.waiting ?_, hlined.skipped⟩
  have hperm : ((keyed.insertionSort fun a b => a.1 ≤ b.1).map Prod.snd).Perm scheduler.waiting := by
    rw [← map_snd_of_waitingSince hkeyed]
    exact (List.perm_insertionSort _ keyed).map Prod.snd
  exact hperm.mem_iff.mp hmem

theorem maintains_removeDecoding (seqId : ℕ) :
    Maintains (Lined start) (removeDecoding seqId : Routine (Scheduler Id Env) Unit) := by
  unfold removeDecoding
  refine Maintains.read.bind fun _ => (Maintains.raiseIf _ _).bind fun _ => ?_
  exact maintains_decoding _

end

section

variable (h : Tame ledger oracle callbacks)

include h

theorem maintains_afterReservation (retry : Option (Routine (Scheduler Id Env) ScheduleResult))
    (hretry : ∀ again ∈ retry, Maintains (Lined start) again) (failure : Option ℕ) :
    Maintains (Lined start) (schedulePass.afterReservation config oracle callbacks retry failure) := by
  unfold schedulePass.afterReservation
  refine (maintains_decodeAffinity failure).bind fun chosen => ?_
  obtain ⟨affinity, overdue⟩ := chosen
  cases affinity with
  | some batch => exact .pure _
  | none =>
      refine (maintains_call _).bind fun _ => (maintains_prefillCapacity _).bind fun found => ?_
      refine (maintains_call _).bind fun _ => (Maintains.whenDo maintains_sortWaiting).bind fun _ => ?_
      refine (maintains_prefillPhase h _ _).bind fun scan => .ite (.pure _) ?_
      cases failure with
      | none => exact maintains_decodePhase h retry hretry scan _
      | some victim =>
          exact (maintains_removeDecoding victim).bind fun _ => preemptDecodeVictim_lined victim _ _

theorem maintains_schedulePass (retry : Option (Routine (Scheduler Id Env) ScheduleResult))
    (hretry : ∀ again ∈ retry, Maintains (Lined start) again) :
    Maintains (Lined start) (schedulePass config oracle callbacks retry) := by
  unfold schedulePass
  refine (maintains_call _).bind fun reserved => ?_
  refine (maintains_lined (preserves_reclaimDecode callbacks reserved)
    (rest_reclaimDecode h reserved)).bind fun failure => ?_
  cases failure with
  | none => exact maintains_afterReservation h retry hretry none
  | some victim =>
      refine Maintains.read.bind fun _ => .ite ?_ (maintains_afterReservation h retry hretry _)
      refine (maintains_removeDecoding victim).bind fun _ => (maintains_call _).bind fun _ => ?_
      exact (maintains_call _).bind fun _ => preemptDecodeVictim_lined victim _ _

/-- **With steps in flight** nothing joins the waiting queue. -/
theorem schedule_lined {scheduler : Scheduler Id Env} (hinflight : scheduler.asyncInflight ≠ 0) :
    wpe (schedule config oracle callbacks) (fun _ next => next.waiting ⊆ scheduler.waiting)
      (fun next => next.waiting ⊆ scheduler.waiting) scheduler := by
  have hlast : Maintains (Lined scheduler.waiting) (schedulePass config oracle callbacks none) :=
    maintains_schedulePass h none fun _ hmem => nomatch hmem
  have himpl : Maintains (Lined scheduler.waiting) (scheduleImpl config oracle callbacks true) := by
    refine maintains_schedulePass h _ fun again hmem => ?_
    obtain rfl := Option.some.inj hmem
    exact hlast
  have hsnapshot : Maintains (Lined scheduler.waiting) (scheduleInSnapshot config oracle callbacks) := by
    unfold scheduleInSnapshot
    cases oracle.schedulerCapacitySnapshot with
    | none => exact himpl
    | some snapshot =>
        refine (maintains_call _).bind fun _ => ?_
        intro next hnext
        rw [wpe_finallyDo]
        refine wpe_imp (himpl next hnext) (fun _ last hlast => ?_) fun last hlast => ?_
        · exact wpe_mono (maintains_call _ last hlast) fun _ _ hdone => hdone
        · exact wpe_mono (maintains_call _ last hlast) fun _ _ hdone => hdone
  unfold schedule
  rw [wpe_bind]
  rw [wpe_def]
  rcases (call callbacks.monotonic scheduler).1 with error | now
  · exact List.Subset.refl _
  dsimp only
  rw [wpe_set, wpe_get, wpe_bind]
  apply wpe_onError
  refine wpe_imp (hsnapshot _ ⟨hinflight, List.Subset.refl _, List.nil_subset _⟩)
    (fun result next hnext => ?_) fun next hnext => ?_
  · rw [wpe_set, wpe_pure]
    have hsame : (recordPhase now result next).waiting = next.waiting :=
      congrArg Prod.fst (recordPhase_queues now result next)
    rw [hsame]
    exact hnext.waiting
  · unfold restoreOwned
    rw [wpe_write]
    exact List.append_subset.mpr ⟨hnext.waiting, List.filter_subset_self _⟩

end

end

end Scheduler
