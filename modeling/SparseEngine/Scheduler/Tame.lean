import SparseEngine.Scheduler.Progress
import SparseEngine.Scheduler.Conservation

/-!
# Oracles that leave the sequences alone

`RuntimeState` answers the scheduler from its own state.  The only fields of a
sequence it writes are those of the cached prefix, when it is refreshed for a
fresh prompt or cleared (`Tame`).  So most of `schedule` changes neither a
sequence nor the decoding queue (`Preserves rest`).

A `ledger` is a part of the environment that lists what the batched refresher
was handed.
-/

namespace Scheduler

open Routine

variable {Id Env Key Resource : Type} (ledger : Env → List (Sequence Id))

/-- The sequences, the decoding queue, the steps in flight and the ledger. -/
def rest (scheduler : Scheduler Id Env) :
    (ℕ → Sequence Id) × List ℕ × ℤ × List (Sequence Id) :=
  (scheduler.world.seqs, scheduler.decoding, scheduler.asyncInflight, ledger scheduler.world.env)

/-- The hook writes no sequence. -/
def Untouching {α : Type} (hook : Hook Id Env α) : Prop :=
  ∀ scheduler, (hook scheduler).2.seqs = scheduler.world.seqs ∧
    ledger (hook scheduler).2.env = ledger scheduler.world.env

variable [PrefixReuse]

/-- Only the cached prefix may be another one, and a longer one only for a
prompt without output, of a manager that refreshes cached prefixes. -/
structure Rehit (seq later : Sequence Id) : Prop where
  history_eq : later.history = seq.history
  cursor_eq : later.recomputeReplayCursor = seq.recomputeReplayCursor
  prefilled_eq : later.numPrefilledTokens = seq.numPrefilledTokens
  chunk_eq : later.currentChunkSize = seq.currentChunkSize
  hit : later.prefixCacheHitLen = seq.prefixCacheHitLen ∨ later.prefixCacheHitLen = 0 ∨
    PrefixReuse.refreshes ∧ seq.numCompletionTokens = 0 ∧ 0 ≤ later.prefixCacheHitLen

theorem Rehit.rescheduled {seq later : Sequence Id} (h : Rehit seq later) :
    seq.Rescheduled later :=
  .of_fields h.history_eq h.cursor_eq h.prefilled_eq h.hit

/-- The hook writes nothing but cached prefixes, and was handed `seqIds`. -/
def Refreshing {α : Type} (seqIds : List ℕ) (hook : Hook Id Env α) : Prop :=
  ∀ scheduler, (∀ seqId, Rehit (scheduler.seq seqId) ((hook scheduler).2.seqs seqId)) ∧
    ∀ handed ∈ ledger (hook scheduler).2.env, handed ∈ ledger scheduler.world.env ∨
      ∃ seqId ∈ seqIds, handed = scheduler.seq seqId

/-- The hook returns. -/
def Returns {α : Type} (hook : Hook Id Env α) : Prop :=
  ∀ scheduler, ∃ a, (hook scheduler).1 = .ok a

/-- What `RuntimeState` and the engine's callbacks do to the sequences. -/
structure Tame (oracle : MemoryOracle Id Env Key Resource)
    (callbacks : SchedulerCallbacks Id Env) : Prop where
  numFreeSlots : Untouching ledger oracle.numFreeSlots
  reserveDecodeWindows : Untouching ledger oracle.reserveDecodeWindows
  prefillBatchedTokensMargin : Untouching ledger oracle.prefillBatchedTokensMargin
  remainingPrefillTokens : ∀ seqId, Untouching ledger (oracle.remainingPrefillTokens seqId)
  /-- `num_prompt_tokens - max(num_prefilled_tokens, prefix_cache_hit_len)`, or less; a manager that
  refreshes no prefix may leave the cached one out, which in its runs is prefilled. -/
  remaining_le : ∀ seqId scheduler remaining, (scheduler.seq seqId).Attached →
    (oracle.remainingPrefillTokens seqId scheduler).1 = .ok remaining →
      remaining ≤ (scheduler.seq seqId).numPromptTokens -
        max (scheduler.seq seqId).numPrefilledTokens (scheduler.seq seqId).prefixCacheHitLen
  prefillExecutionMode : ∀ seqId, Untouching ledger (oracle.prefillExecutionMode seqId)
  prefillBatchCompatibilityKey : ∀ seqId, Untouching ledger (oracle.prefillBatchCompatibilityKey seqId)
  resetPrefillExecutionState : ∀ seqId, Untouching ledger (oracle.resetPrefillExecutionState seqId)
  reset_returns : ∀ seqId, Returns (oracle.resetPrefillExecutionState seqId)
  reservedPrefillSlots : ∀ size, Untouching ledger (oracle.reservedPrefillSlots size)
  shouldScheduleFullPrefill : ∀ seqId, Untouching ledger (oracle.shouldScheduleFullPrefill seqId)
  prefillStepFreeSlots : Untouching ledger oracle.prefillStepFreeSlots
  prefillStepFreeSlotsFor : ∀ seqId, Untouching ledger (oracle.prefillStepFreeSlotsFor seqId)
  prefillPrivateSlotsFor : ∀ seqId, Untouching ledger (oracle.prefillPrivateSlotsFor seqId)
  minFinalPrefillChunkSize : ∀ seqId, Untouching ledger (oracle.minFinalPrefillChunkSize seqId)
  prefillStepReservationCost : ∀ seqId size,
    Untouching ledger (oracle.prefillStepReservationCost seqId size)
  decodeStepFreeSlots : Untouching ledger oracle.decodeStepFreeSlots
  decodeStepFreeSlotsFor : ∀ seqId, Untouching ledger (oracle.decodeStepFreeSlotsFor seqId)
  decodeStepReservationCost : ∀ seqId, Untouching ledger (oracle.decodeStepReservationCost seqId)
  promptAdmissionFreeSlots : Untouching ledger oracle.promptAdmissionFreeSlots
  promptAdmissionBudgets : ∀ size, Untouching ledger (oracle.promptAdmissionBudgets size)
  promptAdmissionCosts : ∀ seqId, Untouching ledger (oracle.promptAdmissionCosts seqId)
  promptAdmissionSharedCosts : ∀ sharedCosts ∈ oracle.promptAdmissionSharedCosts,
    ∀ seqId, Untouching ledger (sharedCosts seqId)
  promptLogicalReservationCost : ∀ seqId, Untouching ledger (oracle.promptLogicalReservationCost seqId)
  promptAdmissionFailureAction : Untouching ledger oracle.promptAdmissionFailureAction
  onPromptAdmitted : ∀ seqId costs, Untouching ledger (oracle.onPromptAdmitted seqId costs)
  clearPrefixCacheHit : ∀ seqId, Refreshing ledger [] (oracle.clearPrefixCacheHit seqId)
  clear_returns : ∀ seqId, Returns (oracle.clearPrefixCacheHit seqId)
  freeSlotStats : Untouching ledger oracle.freeSlotStats
  debugLiveSeqSlots : Untouching ledger oracle.debugLiveSeqSlots
  schedulerCapacitySnapshot : ∀ snapshot ∈ oracle.schedulerCapacitySnapshot,
    Untouching ledger snapshot.1 ∧ Untouching ledger snapshot.2
  prefixCacheHitRefresher : ∀ seqId, Refreshing ledger [] (callbacks.prefixCacheHitRefresher seqId)
  prefixCacheHitsRefresher : ∀ refresh ∈ callbacks.prefixCacheHitsRefresher,
    ∀ seqIds, Refreshing ledger seqIds (refresh seqIds)
  decodeCapacityReclaimer : ∀ reclaim ∈ callbacks.decodeCapacityReclaimer,
    ∀ seqId, Untouching ledger (reclaim seqId)
  prefillCapacityReclaimer : ∀ reclaim ∈ callbacks.prefillCapacityReclaimer,
    ∀ seqId, Untouching ledger (reclaim seqId)
  monotonic : Untouching ledger callbacks.monotonic
  monotonic_returns : Returns callbacks.monotonic

/-! ## Functions that write no sequence -/

variable {ledger}

omit [PrefixReuse] in
theorem untouched {α : Type} {hook : Hook Id Env α} (h : Untouching ledger hook) :
    Preserves (rest ledger) (call hook) := by
  intro scheduler
  show ((hook scheduler).2.seqs, scheduler.decoding, scheduler.asyncInflight, ledger (hook scheduler).2.env) = _
  rw [(h scheduler).1, (h scheduler).2]
  rfl

section

variable {config : SchedulerConfig} {oracle : MemoryOracle Id Env Key Resource}
  {callbacks : SchedulerCallbacks Id Env}

theorem rest_prefillBatchKey (h : Tame ledger oracle callbacks) (seqId : ℕ) :
    Preserves (rest ledger) (prefillBatchKey oracle seqId) := by
  unfold prefillBatchKey prefillExecutionMode
  refine ((untouched (h.prefillExecutionMode seqId)).bind fun _ => .ofExcept _).bind fun _ => ?_
  exact (untouched (h.prefillBatchCompatibilityKey seqId)).bind fun _ => .pure _

theorem rest_popLoop [DecidableEq Key] (h : Tame ledger oracle callbacks) (target : PrefillExecutionMode × Key)
    (replayPending : Bool) (fuel : ℕ) :
    Preserves (rest ledger) (popLoop config oracle target replayPending fuel) := by
  induction fuel with
  | zero => exact .pure _
  | succ fuel ih =>
      unfold popLoop
      refine Preserves.read.bind fun scheduler => ?_
      cases scheduler.waiting with
      | nil => exact .pure _
      | cons seqId others =>
          have hmatches : Preserves (rest ledger) (matchesTarget config oracle target replayPending seqId) := by
            unfold matchesTarget
            refine Preserves.read.bind fun scheduler => .ite ?_ (.pure _)
            exact (rest_prefillBatchKey h seqId).bind fun _ => .pure _
          refine hmatches.bind fun _ => .ite ?_ ?_
          · refine Preserves.bind ?_ fun _ => .pure _
            exact Preserves.write fun _ => rfl
          · refine Preserves.bind ?_ fun _ => ih
            exact Preserves.write fun _ => rfl

section

section

variable (h : Tame ledger oracle callbacks)

include h

theorem rest_sharedAdmissionCosts (seqId : ℕ) :
    Preserves (rest ledger) (sharedAdmissionCosts oracle seqId) := by
  have hshared := h.promptAdmissionSharedCosts
  unfold sharedAdmissionCosts
  cases hcosts : oracle.promptAdmissionSharedCosts with
  | none => exact .pure _
  | some sharedCosts => exact untouched (hshared sharedCosts hcosts seqId)

theorem rest_warnDeferred (seqId : ℕ) :
    Preserves (rest ledger) (warnDeferred config oracle seqId) := by
  unfold warnDeferred
  refine Preserves.read.bind fun scheduler => .whenDo ?_
  refine (Preserves.whenDo (untouched h.debugLiveSeqSlots)).bind fun _ => ?_
  exact .write fun _ => rfl

theorem rest_candidateStepFree (mode : PrefillExecutionMode) (scan : PrefillScan Resource)
    (seqId : ℕ) : Preserves (rest ledger) (candidateStepFree oracle mode scan seqId) := by
  unfold candidateStepFree
  refine (untouched (h.prefillStepFreeSlotsFor seqId)).bind fun _ => ?_
  refine (untouched (h.shouldScheduleFullPrefill seqId)).bind fun _ => .ite ?_ (.pure _)
  exact (untouched (h.prefillPrivateSlotsFor seqId)).bind fun _ => .pure _

end

end

omit [PrefixReuse] in
theorem rest_requeue (seqId : ℕ) :
    Preserves (rest ledger) (requeue seqId : Routine (Scheduler Id Env) Unit) :=
  Preserves.write fun _ => rfl

section

theorem rest_anyOverdue (h : Tame ledger oracle callbacks) (waits : List ℚ) :
    Preserves (rest ledger) (anyOverdue callbacks waits) := by
  induction waits with
  | nil => exact .pure _
  | cons since others ih =>
      unfold anyOverdue
      exact (untouched h.monotonic).bind fun _ => .ite (.pure _) ih

omit [PrefixReuse] in
theorem rest_sortWaiting : Preserves (rest ledger) (sortWaiting : Routine (Scheduler Id Env) Unit) := by
  unfold sortWaiting
  refine Preserves.read.bind fun scheduler => (Preserves.ofExcept _).bind fun _ => ?_
  exact .write fun _ => rfl

section

variable (h : Tame ledger oracle callbacks)

include h

theorem rest_raiseBlocked (scan : PrefillScan Resource) :
    Preserves (rest ledger) (raiseBlocked config oracle scan) := by
  unfold raiseBlocked
  refine Preserves.read.bind fun scheduler => .ite (.pure _) ?_
  refine (Preserves.raiseIf _ _).bind fun _ => (Preserves.raiseIf _ _).bind fun _ => ?_
  refine (Preserves.raiseIf _ _).bind fun _ => .ite ?_ (.pure _)
  exact (Preserves.whenDo (untouched h.debugLiveSeqSlots)).bind fun _ => .raise _

theorem rest_reclaimPrefill (allowPrefillReclaim : Bool) (scan : PrefillScan Resource) :
    Preserves (rest ledger) (reclaimPrefill callbacks allowPrefillReclaim scan) := by
  have hreclaimer := h.prefillCapacityReclaimer
  unfold reclaimPrefill
  refine Preserves.read.bind fun scheduler => ?_
  cases hreclaim : callbacks.prefillCapacityReclaimer with
  | none => exact .pure _
  | some reclaim =>
      cases scheduler.waiting with
      | nil => exact .pure _
      | cons first others =>
          refine .ite ?_ (.pure _)
          exact (Preserves.raiseIf _ _).bind fun _ => untouched (hreclaimer reclaim hreclaim _)

theorem rest_reclaimDecode (reserved : Option ℕ) :
    Preserves (rest ledger) (reclaimDecode callbacks reserved) := by
  have hreclaimer := h.decodeCapacityReclaimer
  unfold reclaimDecode
  cases reserved with
  | none => exact .pure _
  | some seqId =>
      cases hreclaim : callbacks.decodeCapacityReclaimer with
      | none => exact .pure _
      | some reclaim => exact untouched (hreclaimer reclaim hreclaim seqId)

end

end

end

end Scheduler
