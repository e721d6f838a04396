import SparseEngine.Scheduler.Conservation

/-!
# `schedule` conserves the sequences

One pass of `_schedule_impl` ends in an `Outcome` or raises with some of the
sequences still in the queues.  The handler of `schedule` puts the others
back, so that every exit leaves exactly the sequences of the start.
-/

namespace Scheduler

open Routine

variable {Id Env Key Resource : Type} [DecidableEq Key] [DecidableEq Resource]
  (config : SchedulerConfig) (oracle : MemoryOracle Id Env Key Resource)
  (callbacks : SchedulerCallbacks Id Env) {start : List ℕ} {scheduler : Scheduler Id Env}

/-! ## A pass -/

section

variable (retry : Option (Routine (Scheduler Id Env) ScheduleResult))
  (hretry : ∀ again, retry = some again → ∀ next : Scheduler Id Env, Owned start [] next →
    next.skippedPrefill = [] → wpe again (Outcome start) (Loose start) next)

include hretry

theorem afterReservation_outcome (failure : Option ℕ) (h : Owned start [] scheduler)
    (hskipped : scheduler.skippedPrefill = []) :
    wpe (schedulePass.afterReservation config oracle callbacks retry failure) (Outcome start)
      (Loose start) scheduler := by
  unfold schedulePass.afterReservation
  refine wpe_then (decodeAffinity_owned config oracle callbacks failure h hskipped) fun chosen s1 h1 => ?_
  obtain ⟨affinity, overdue⟩ := chosen
  obtain ⟨h1, hskipped1, hbatch⟩ := h1
  cases affinity with
  | some batch =>
      have hsub := hbatch batch rfl
      refine ⟨h1, hskipped1, fun _ => hsub.subset, fun hstart => ?_, by simp, by simp⟩
      refine List.Nodup.sublist hsub ?_
      -- the batch is a part of the decoding queue, which has no duplicates
      rw [List.nodup_iff_count_le_one] at hstart ⊢
      intro x
      have hx := h1 x
      have hle := hstart x
      omega
  | none =>
      dsimp only
      rw [wpe_bind]
      refine h1.wpe (preserves_call _) fun physicalFreeCount s2 hs2 h2 => ?_
      refine wpe_then (prefillCapacity_owned config oracle physicalFreeCount h2) fun capacity s3 h3 => ?_
      obtain ⟨scan, margin⟩ := capacity
      obtain ⟨hs3, h3, hempty⟩ := h3
      dsimp only
      rw [wpe_bind]
      refine h3.wpe (preserves_call _) fun decodeFree s4 hs4 h4 => ?_
      have hskipped4 : s4.skippedPrefill = [] :=
        (congrArg (fun q => q.2.1) (hs4.trans (hs3.trans hs2))).trans hskipped1
      rw [wpe_bind]
      have hsorted : wpe (whenDo (overdue = true) sortWaiting)
          (fun _ next => Owned start [] next ∧ next.skippedPrefill = []) (Loose start) s4 := by
        rw [wpe_whenDo]
        exact ⟨fun _ => sortWaiting_owned h4 hskipped4, fun _ => ⟨h4, hskipped4⟩⟩
      refine wpe_mono hsorted fun _ s5 h5 => ?_
      obtain ⟨h5, hskipped5⟩ := h5
      refine wpe_then (prefillPhase_owned config oracle callbacks scan margin (hempty ▸ h5) hskipped5)
        fun scan' s6 h6 => ?_
      obtain ⟨h6, hskipped6⟩ := h6
      rw [wpe_ite]
      refine ⟨fun _ => ?_, fun hnone => ?_⟩
      · exact ⟨h6, hskipped6, by simp, h6.held_nodup, by simp, by simp⟩
      -- no prefill row was chosen, so nothing is held when decoding begins
      rw [not_not] at hnone
      rw [hnone] at h6
      cases failure with
      | none => exact decodePhase_outcome config oracle callbacks retry hretry scan' _ h6 hskipped6
      | some victim =>
          dsimp only
          refine wpe_then (removeDecoding_owned h6 hskipped6) fun _ s7 h7 => ?_
          exact preemptDecodeVictim_outcome config oracle callbacks h7.1 h7.2

/-- **One pass** of `_schedule_impl`. -/
theorem schedulePass_outcome (h : Owned start [] scheduler) (hskipped : scheduler.skippedPrefill = []) :
    wpe (schedulePass config oracle callbacks retry) (Outcome start) (Loose start) scheduler := by
  unfold schedulePass
  rw [wpe_bind]
  refine h.wpe (preserves_call _) fun reserved s1 hs1 h1 => ?_
  rw [wpe_bind]
  refine h1.wpe (preserves_reclaimDecode callbacks reserved) fun failure s2 hs2 h2 => ?_
  have hskipped2 : s2.skippedPrefill = [] :=
    (congrArg (fun q => q.2.1) (hs2.trans hs1)).trans hskipped
  cases failure with
  | none =>
      exact afterReservation_outcome config oracle callbacks retry hretry none h2 hskipped2
  | some victim =>
      dsimp only
      rw [wpe_get, wpe_ite]
      refine ⟨fun _ => ?_, fun _ => ?_⟩
      · refine wpe_then (removeDecoding_owned h2 hskipped2) fun _ s3 h3 => ?_
        obtain ⟨h3, hskipped3⟩ := h3
        rw [wpe_bind]
        refine h3.wpe (preserves_call _) fun _ s4 hs4 h4 => ?_
        rw [wpe_bind]
        refine h4.wpe (preserves_call _) fun _ s5 hs5 h5 => ?_
        exact preemptDecodeVictim_outcome config oracle callbacks h5
          ((congrArg (fun q => q.2.1) (hs5.trans hs4)).trans hskipped3)
      · exact afterReservation_outcome config oracle callbacks retry hretry (some victim) h2 hskipped2

end

theorem scheduleImpl_outcome (allowPrefillReclaim : Bool) (h : Owned start [] scheduler)
    (hskipped : scheduler.skippedPrefill = []) :
    wpe (scheduleImpl config oracle callbacks allowPrefillReclaim) (Outcome start) (Loose start)
      scheduler := by
  cases allowPrefillReclaim with
  | false => exact schedulePass_outcome config oracle callbacks none (by simp) h hskipped
  | true =>
      refine schedulePass_outcome config oracle callbacks _ (fun again hagain next hnext hempty => ?_) h hskipped
      obtain rfl := Option.some.inj hagain
      exact schedulePass_outcome config oracle callbacks none (by simp) hnext hempty

/-! ## The handler -/

variable {waiting decoding : List ℕ}

omit [DecidableEq Key] [DecidableEq Resource] config oracle callbacks in
/-- **The handler** completes the queues. -/
theorem restoreOwned_perm (hstart : (waiting ++ decoding).Nodup) (h : Loose (waiting ++ decoding) scheduler) :
    wp (restoreOwned waiting decoding) (fun result next =>
      result = .ok () ∧ (next.waiting ++ next.decoding).Perm (waiting ++ decoding)) scheduler := by
  unfold restoreOwned
  rw [wp_write]
  refine ⟨rfl, ?_⟩
  rw [List.perm_iff_count]
  intro x
  have hx := h x
  have hle := List.nodup_iff_count_le_one.mp hstart x
  have hfilter : ∀ (queue : List ℕ) (keep : ℕ → Bool),
      (queue.filter keep).count x = if keep x then queue.count x else 0 := by
    intro queue keep
    split
    · next hkeep => exact List.count_filter hkeep
    · next hdrop =>
        rw [List.count_eq_zero]
        intro hmem
        exact hdrop (List.mem_filter.mp hmem).2
  have howned : x ∉ scheduler.waiting ++ scheduler.decoding ↔
      scheduler.waiting.count x + scheduler.decoding.count x = 0 := by
    rw [← List.count_eq_zero, List.count_append]
  have hwaiting : ∀ queue : List ℕ, x ∉ queue ↔ queue.count x = 0 := fun queue =>
    List.count_eq_zero.symm
  simp only [List.count_append, hfilter, howned, hwaiting, decide_eq_true_eq] at hx hle ⊢
  split_ifs <;> omega

/-- What `schedule` leaves, for the sequences `start` of the queues before
it. -/
def Conserved (start : List ℕ) (result : Except PyError ScheduleResult)
    (next : Scheduler Id Env) : Prop :=
  match result with
  | .error _ => (next.waiting ++ next.decoding).Perm start
  | .ok result =>
      if result.isPrefill then
        (next.waiting ++ next.decoding ++ result.seqs).Perm start ∧ result.preempted = []
      else
        (next.waiting ++ next.decoding).Perm start ∧ result.seqs.Nodup ∧
          (∀ x ∈ result.seqs, next.decoding.count x = 1) ∧
          ∀ x ∈ result.preempted, next.waiting.count x = 1

section

omit [DecidableEq Key] [DecidableEq Resource] config oracle callbacks

variable {next : Scheduler Id Env}

theorem Outcome.conserved {result : ScheduleResult} (h : Outcome start result next)
    (hstart : start.Nodup) : Conserved start (.ok result) next := by
  have hcount : ∀ x, next.waiting.count x + next.decoding.count x +
      (if result.isPrefill then result.seqs else []).count x = start.count x := by
    intro x
    have hx := h.owned x
    rw [h.skipped, List.count_nil] at hx
    omega
  have hle := List.nodup_iff_count_le_one.mp hstart
  unfold Conserved
  dsimp only
  split
  · next hprefill =>
      refine ⟨?_, ?_⟩
      · rw [List.perm_iff_count]
        intro x
        have hx := hcount x
        rw [if_pos hprefill] at hx
        rw [List.count_append, List.count_append]
        exact hx
      · exact h.prefill hprefill
  · next hdecode =>
      rw [if_neg hdecode] at hcount
      rw [Bool.not_eq_true] at hdecode
      refine ⟨?_, h.distinct hstart, fun x hx => ?_, fun x hx => ?_⟩
      · rw [List.perm_iff_count]
        intro x
        rw [List.count_append]
        exact hcount x
      · have hpos := List.count_pos_iff.mpr (h.decoding hdecode hx)
        have := hcount x
        have := hle x
        omega
      · have hpos := List.count_pos_iff.mpr (h.preempted x hx)
        have := hcount x
        have := hle x
        omega

theorem recordPhase_queues (now : ℚ) (result : ScheduleResult) (scheduler : Scheduler Id Env) :
    (recordPhase now result scheduler).queues = scheduler.queues := by
  unfold recordPhase
  split <;> rfl

theorem Conserved.of_queues {result : Except PyError ScheduleResult}
    (h : Conserved start result scheduler) (hsame : next.queues = scheduler.queues) :
    Conserved start result next := by
  simp only [queues, Prod.mk.injEq] at hsame
  unfold Conserved at h ⊢
  rw [hsame.1, hsame.2.2]
  exact h

end

/-- The pass inside the capacity snapshot: leaving the snapshot may raise
too. -/
theorem scheduleInSnapshot_outcome (h : Owned start [] scheduler) (hskipped : scheduler.skippedPrefill = []) :
    wpe (scheduleInSnapshot config oracle callbacks) (Outcome start) (Loose start) scheduler := by
  unfold scheduleInSnapshot
  cases oracle.schedulerCapacitySnapshot with
  | none => exact scheduleImpl_outcome config oracle callbacks true h hskipped
  | some hooks =>
      obtain ⟨enter, leave⟩ := hooks
      dsimp only
      rw [wpe_bind]
      refine h.wpe (preserves_call _) fun _ s1 hs1 h1 => ?_
      rw [wpe_finallyDo]
      refine wpe_imp (scheduleImpl_outcome config oracle callbacks true h1
        ((congrArg (fun q => q.2.1) hs1).trans hskipped)) (fun result s2 h2 => ?_) fun s2 h2 => ?_
      · refine (preserves_call leave).wpe (fun _ s3 hs3 => ?_) fun s3 hs3 => ?_
        · simp only [queues, Prod.mk.injEq] at hs3
          obtain ⟨hwaiting, hempty, hdecoding⟩ := hs3
          refine ⟨fun x => ?_, hempty.trans h2.skipped, ?_, h2.distinct, ?_, h2.prefill⟩
          · rw [hwaiting, hempty, hdecoding]
            exact h2.owned x
          · rw [hdecoding]
            exact h2.decoding
          · rw [hwaiting]
            exact h2.preempted
        · exact (h2.owned.of_queues hs3).loose
      · have hloose : ∀ s3 : Scheduler Id Env, s3.queues = s2.queues → Loose start s3 := by
          intro s3 hs3 x
          simp only [queues, Prod.mk.injEq] at hs3
          rw [hs3.1, hs3.2.1, hs3.2.2]
          exact h2 x
        exact (preserves_call leave).wpe (fun _ s3 hs3 => hloose s3 hs3) hloose

/-- The pass with its handler, from the queues it started with. -/
theorem handledPass_conserves (now : ℚ) (hdistinct : (waiting ++ decoding).Nodup)
    (hwaiting : scheduler.waiting = waiting) (hdecoding : scheduler.decoding = decoding)
    (hskipped : scheduler.skippedPrefill = []) :
    wp (do
        let result ← onError (scheduleInSnapshot config oracle callbacks) (restoreOwned waiting decoding)
        write (recordPhase now result)
        return result) (Conserved (waiting ++ decoding)) scheduler := by
  have howned : Owned (waiting ++ decoding) [] scheduler := by
    intro x
    rw [hwaiting, hdecoding, hskipped, List.count_append, List.count_nil]
    omega
  rw [wp_bind, wp_onError, wp_def]
  have hpass := scheduleInSnapshot_outcome config oracle callbacks howned hskipped
  rw [wpe_def] at hpass
  rcases hrun : (scheduleInSnapshot config oracle callbacks scheduler).1 with error | result
  · rw [hrun] at hpass
    refine wp_mono (restoreOwned_perm hdistinct hpass) fun handled last hlast => ?_
    obtain ⟨rfl, hperm⟩ := hlast
    exact hperm
  · rw [hrun] at hpass
    exact (hpass.conserved hdistinct).of_queues (recordPhase_queues now result _)

theorem wp_schedule_conserved (scheduler : Scheduler Id Env)
    (hdistinct : (scheduler.waiting ++ scheduler.decoding).Nodup) :
    wp (schedule config oracle callbacks) (Conserved (scheduler.waiting ++ scheduler.decoding)) scheduler := by
  unfold schedule
  rw [wp_bind, wp_def]
  -- the clock is read before anything is popped
  rcases (call callbacks.monotonic scheduler).1 with error | now
  · exact List.Perm.refl _
  · dsimp only
    rw [wp_bind, wp_write, wp_bind, wp_read]
    exact handledPass_conserves config oracle callbacks now hdistinct rfl rfl rfl

/-- **`schedule` loses and duplicates no sequence**, whatever the oracle and the
callbacks answer and wherever they raise. -/
theorem schedule_conserves (scheduler : Scheduler Id Env)
    (hdistinct : (scheduler.waiting ++ scheduler.decoding).Nodup) :
    Conserved (scheduler.waiting ++ scheduler.decoding)
      (schedule config oracle callbacks scheduler).1
      (schedule config oracle callbacks scheduler).2 :=
  wp_schedule_conserved config oracle callbacks scheduler hdistinct

/-- A hook that answers `answer` and changes nothing. -/
def answering {Id Env α : Type} (answer : α) : Hook Id Env α :=
  fun scheduler => (.ok answer, scheduler.world)

/-- An oracle with room for one prompt, whose reservation hook raises on
sequence 8. -/
def tightOracle : MemoryOracle Unit Unit Unit Unit where
  numFreeSlots := answering 64
  reserveDecodeWindows := answering none
  prefillBatchedTokensMargin := answering 0
  remainingPrefillTokens _ := answering 4
  prefillExecutionMode _ := answering "chunked"
  prefillBatchCompatibilityKey _ := answering ()
  resetPrefillExecutionState _ := answering ()
  reservedPrefillSlots _ := answering 0
  shouldScheduleFullPrefill _ := answering false
  prefillStepFreeSlots := answering 64
  prefillStepFreeSlotsFor _ := answering 64
  prefillPrivateSlotsFor _ := answering 0
  minFinalPrefillChunkSize _ := answering 0
  prefillStepReservationCost seqId _ := fun scheduler =>
    (if seqId = 8 then .error (.external 0) else .ok 4, scheduler.world)
  decodeStepFreeSlots := answering 64
  decodeStepFreeSlotsFor _ := answering 64
  decodeStepReservationCost _ := answering 1
  promptAdmissionFreeSlots := answering 64
  promptAdmissionBudgets _ := answering Dict.empty
  promptAdmissionCosts _ := answering Dict.empty
  promptAdmissionSharedCosts := none
  promptLogicalReservationCost _ := answering 4
  promptAdmissionFailureAction := answering "defer"
  onPromptAdmitted _ _ := answering ()
  clearPrefixCacheHit _ := answering ()
  freeSlotStats := answering ()
  debugLiveSeqSlots := answering ()
  schedulerCapacitySnapshot := none

/-- Callbacks that do nothing. -/
def idleCallbacks : SchedulerCallbacks Unit Unit where
  prefixCacheHitRefresher _ := answering ()
  prefixCacheHitsRefresher := none
  decodeCapacityReclaimer := none
  prefillCapacityReclaimer := none
  monotonic := answering 0

/-- Two prompts wait, one sequence decodes. -/
def twoWaiting : Scheduler Unit Unit where
  waiting := [7, 8]
  decoding := [9]
  skippedPrefill := []
  phase := .prefill
  prefillWaitSince := Dict.empty
  phaseStartedAt := 0
  phaseReason := ""
  admissionDeferWarnedSeqIds := ∅
  totalPreemptions := 0
  totalRecomputeReplays := 0
  asyncInflight := 0
  world := ⟨fun _ => { tokenIds := [], numTokens := 4, numPromptTokens := 4, maxTokens := 8 }, ()⟩

/-- The reservation of the second prompt raises after the first one was popped,
and both are back in the waiting queue. -/
theorem both_prompts_survive_failed_reservation :
    let config : SchedulerConfig := ⟨8, 64, 8, 0, 16, false⟩
    (schedule config tightOracle idleCallbacks twoWaiting).1.toOption.isNone = true ∧
      Conserved [7, 8, 9] (schedule config tightOracle idleCallbacks twoWaiting).1
        (schedule config tightOracle idleCallbacks twoWaiting).2 := by
  intro config
  refine ⟨by decide +kernel, ?_⟩
  -- the conservation holds for any configuration
  clear_value config
  have hconserved := schedule_conserves config tightOracle idleCallbacks twoWaiting (by decide)
  have hstart : twoWaiting.waiting ++ twoWaiting.decoding = [7, 8, 9] := rfl
  rw [hstart] at hconserved
  exact hconserved

end Scheduler
