import SparseEngine.Sequence
import SparseEngine.Lib.Dict
import Mathlib.Data.List.Sort
import Mathlib.Algebra.Order.Ring.Rat

/-!
# The scheduler

`Scheduler.schedule` of `scheduler.py` and everything it calls.  The two
queues hold the ids of sequences; the sequence objects themselves lie in the
world, together with everything the memory oracle and the callbacks own.

A call of the oracle or of a callback is a `Hook`: it may read the whole
scheduler, may answer anything or raise, and may change the sequence objects
and its own state in any way.  It does not write the queues.

The deque `skipped_prefill` is a local of `_schedule_impl` that a `finally`
reads after a raise, so it is a field of the state here.  Log lines are left
out, the oracle calls inside them are not.
-/

/-- `PREFILL_EXECUTION_*`. -/
inductive PrefillExecutionMode where
  | chunked
  | full
  | rawOffload
  deriving DecidableEq, Repr

/-- `validate_prefill_execution_mode`. -/
def validatePrefillExecutionMode (mode : String) : Except PyError PrefillExecutionMode :=
  if mode = "chunked" then .ok .chunked
  else if mode = "full" then .ok .full
  else if mode = "raw_offload" then .ok .rawOffload
  else .error (.valueError s!"Unsupported prefill execution mode={mode}")

/-- `Scheduler.phase`. -/
inductive SchedulerPhase where
  | prefill
  | decode
  deriving DecidableEq, Repr

/-- The sequence objects and the state of the memory oracle and the
callbacks. -/
structure World (Id Env : Type) where
  seqs : ℕ → Sequence Id
  env : Env

/-- `Scheduler`. -/
structure Scheduler (Id Env : Type) where
  waiting : List ℕ
  decoding : List ℕ
  skippedPrefill : List ℕ
  phase : SchedulerPhase
  prefillWaitSince : Dict ℕ ℚ
  phaseStartedAt : ℚ
  phaseReason : String
  admissionDeferWarnedSeqIds : Finset ℕ
  totalPreemptions : ℤ
  totalRecomputeReplays : ℤ
  asyncInflight : ℤ
  world : World Id Env

/-- The fields of the configuration the scheduler reads. -/
structure SchedulerConfig where
  maxNumSeqsInBatch : ℤ
  maxNumBatchedTokens : ℤ
  maxDecodingSeqs : ℤ
  favorMinDecodingSeqs : ℤ
  enginePrefillChunkSize : ℤ
  /-- `SPARSEENGINE_DEBUG_SLOTS`. -/
  debugSlots : Bool

/-- A call of code outside the scheduler. -/
abbrev Hook (Id Env α : Type) := Scheduler Id Env → Except PyError α × World Id Env

/-- `MemoryOracle`.  An unhashable compatibility key is a raise. -/
structure MemoryOracle (Id Env Key Resource : Type) where
  numFreeSlots : Hook Id Env ℤ
  reserveDecodeWindows : Hook Id Env (Option ℕ)
  prefillBatchedTokensMargin : Hook Id Env ℤ
  remainingPrefillTokens : ℕ → Hook Id Env ℤ
  prefillExecutionMode : ℕ → Hook Id Env String
  prefillBatchCompatibilityKey : ℕ → Hook Id Env Key
  resetPrefillExecutionState : ℕ → Hook Id Env Unit
  reservedPrefillSlots : ℤ → Hook Id Env ℤ
  shouldScheduleFullPrefill : ℕ → Hook Id Env Bool
  prefillStepFreeSlots : Hook Id Env ℤ
  prefillStepFreeSlotsFor : ℕ → Hook Id Env ℤ
  prefillPrivateSlotsFor : ℕ → Hook Id Env ℤ
  minFinalPrefillChunkSize : ℕ → Hook Id Env ℤ
  prefillStepReservationCost : ℕ → ℤ → Hook Id Env ℤ
  decodeStepFreeSlots : Hook Id Env ℤ
  decodeStepFreeSlotsFor : ℕ → Hook Id Env ℤ
  decodeStepReservationCost : ℕ → Hook Id Env ℤ
  promptAdmissionFreeSlots : Hook Id Env ℤ
  promptAdmissionBudgets : ℤ → Hook Id Env (Dict String ℤ)
  promptAdmissionCosts : ℕ → Hook Id Env (Dict String ℤ)
  promptAdmissionSharedCosts : Option (ℕ → Hook Id Env (Dict String (Dict Resource ℤ)))
  promptLogicalReservationCost : ℕ → Hook Id Env ℤ
  promptAdmissionFailureAction : Hook Id Env String
  onPromptAdmitted : ℕ → Dict String ℤ → Hook Id Env Unit
  clearPrefixCacheHit : ℕ → Hook Id Env Unit
  freeSlotStats : Hook Id Env Unit
  debugLiveSeqSlots : Hook Id Env Unit
  /-- Entering and leaving `scheduler_capacity_snapshot()`. -/
  schedulerCapacitySnapshot : Option (Hook Id Env Unit × Hook Id Env Unit)

/-- The callbacks the engine passes to the scheduler, and the clock. -/
structure SchedulerCallbacks (Id Env : Type) where
  prefixCacheHitRefresher : ℕ → Hook Id Env Unit
  prefixCacheHitsRefresher : Option (List ℕ → Hook Id Env Unit)
  decodeCapacityReclaimer : Option (ℕ → Hook Id Env (Option ℕ))
  prefillCapacityReclaimer : Option (ℕ → Hook Id Env Bool)
  monotonic : Hook Id Env ℚ

/-- What `schedule` returns: the sequences to run, whether this is a prefill,
and the preempted sequences. -/
structure ScheduleResult where
  seqs : List ℕ
  isPrefill : Bool
  preempted : List ℕ

/-- The locals of `_schedule_impl` that the prefill scan updates. -/
structure PrefillScan (Resource : Type) where
  scheduledSeqs : List ℕ := []
  numBatchedSeqs : ℤ := 0
  numBatchedTokens : ℤ := 0
  stepFreeCount : ℤ
  promptLogicalFreeCount : ℤ
  admissionBudgets : Dict String ℤ
  chargedSharedResources : Dict String (Finset Resource)
  deferredPromptFailure : Option (ℕ × String × ℤ × ℤ) := none
  blockedPrefillStepFailure : Option (ℕ × ℤ × ℤ) := none
  blockedPrefillCapacityFailure : Option (ℕ × ℤ × ℤ × ℤ) := none
  blockedFinalPrefillWindowFailure : Option (ℕ × ℤ × ℤ) := none

/-- The locals of `_schedule_impl` that the decode scan updates. -/
structure DecodeScan where
  scheduledSeqs : List ℕ := []
  numBatchedSeqs : ℤ := 0
  decodeLogicalFreeCount : ℤ
  blockedDecodeVictim : Option ℕ := none

namespace Scheduler

open Routine

variable {Id Env Key Resource : Type} [DecidableEq Key] [DecidableEq Resource]

/-- The sequence object of an id. -/
def seq (scheduler : Scheduler Id Env) (seqId : ℕ) : Sequence Id := scheduler.world.seqs seqId

/-- A write to a sequence object. -/
def setSeq (seqId : ℕ) (update : Sequence Id → Sequence Id) (scheduler : Scheduler Id Env) :
    Scheduler Id Env :=
  { scheduler with world := { scheduler.world with
      seqs := Function.update scheduler.world.seqs seqId (update (scheduler.world.seqs seqId)) } }

/-- A call of a hook. -/
def call {α : Type} (hook : Hook Id Env α) : Routine (Scheduler Id Env) α := fun scheduler =>
  ((hook scheduler).1, { scheduler with world := (hook scheduler).2 })

/-- `dict.setdefault`. -/
def setdefault (since : Dict ℕ ℚ) (seqId : ℕ) (now : ℚ) : Dict ℕ ℚ :=
  if seqId ∈ since.keys then since else since.set seqId now

/-- `deque.remove`, on the decoding queue. -/
def removeDecoding (seqId : ℕ) : Routine (Scheduler Id Env) Unit := do
  raiseIf (seqId ∉ (← read).decoding) (.valueError "deque.remove(x): x not in deque")
  write fun scheduler => { scheduler with decoding := scheduler.decoding.erase seqId }

section

variable (config : SchedulerConfig) (oracle : MemoryOracle Id Env Key Resource)
  (callbacks : SchedulerCallbacks Id Env)

/-! ## Prefill buckets -/

/-- `_prefill_execution_mode`. -/
def prefillExecutionMode (seqId : ℕ) : Routine (Scheduler Id Env) PrefillExecutionMode := do
  let mode ← call (oracle.prefillExecutionMode seqId)
  ofExcept (validatePrefillExecutionMode mode)

/-- `_prefill_batch_key`. -/
def prefillBatchKey (seqId : ℕ) : Routine (Scheduler Id Env) (PrefillExecutionMode × Key) := do
  let mode ← prefillExecutionMode oracle seqId
  let compatibility ← call (oracle.prefillBatchCompatibilityKey seqId)
  return (mode, compatibility)

/-- `_refresh_prefill_metadata`. -/
def refreshPrefillMetadata (seqId : ℕ) : Routine (Scheduler Id Env) Unit := do
  let seq := (← read).seq seqId
  whenDo (seq.numPrefilledTokens = 0 ∧ seq.numCompletionTokens = 0)
    (call (callbacks.prefixCacheHitRefresher seqId))

/-- A fresh prompt that the decoding set has no room for. -/
def Blocked (scheduler : Scheduler Id Env) (seqId : ℕ) : Prop :=
  config.maxDecodingSeqs ≤ scheduler.decoding.length ∧
    (scheduler.seq seqId).numPrefilledTokens = 0

instance (scheduler : Scheduler Id Env) (seqId : ℕ) : Decidable (Blocked config scheduler seqId) :=
  inferInstanceAs (Decidable (_ ∧ _))

/-- `any(seq.is_recompute_replay for seq in self.waiting)`. -/
def replayWaiting (scheduler : Scheduler Id Env) : Bool :=
  scheduler.waiting.any fun seqId => (scheduler.seq seqId).isRecomputeReplay

/-- `candidates` of `_prefill_mode_order`. -/
def prefillCandidates (scheduler : Scheduler Id Env) : List ℕ :=
  scheduler.waiting.filter fun seqId =>
    (!scheduler.replayWaiting || (scheduler.seq seqId).isRecomputeReplay) &&
      !decide (Blocked config scheduler seqId)

/-- The last loop of `_prefill_mode_order`. -/
def collectModes : List ℕ → List (PrefillExecutionMode × Key) →
    Routine (Scheduler Id Env) (List (PrefillExecutionMode × Key))
  | [], modes => pure modes
  | seqId :: rest, modes => do
      whenDo (callbacks.prefixCacheHitsRefresher.isNone = true)
        (refreshPrefillMetadata callbacks seqId)
      let batchKey ← prefillBatchKey oracle seqId
      collectModes rest (if batchKey ∈ modes then modes else modes ++ [batchKey])

/-- The batched refresh of the fresh candidates. -/
def refreshFresh (fresh : List ℕ) : Routine (Scheduler Id Env) Unit :=
  match callbacks.prefixCacheHitsRefresher with
  | none => pure ()
  | some refresh => whenDo (fresh ≠ []) (call (refresh fresh))

/-- `_prefill_mode_order`. -/
def prefillModeOrder : Routine (Scheduler Id Env) (List (PrefillExecutionMode × Key)) := do
  let scheduler ← read
  let candidates := prefillCandidates config scheduler
  refreshFresh callbacks (candidates.filter fun seqId =>
    decide ((scheduler.seq seqId).numPrefilledTokens = 0 ∧
      (scheduler.seq seqId).numCompletionTokens = 0))
  collectModes oracle callbacks candidates []

/-- The test of `_pop_next_prefill_seq` on the head of the queue. -/
def matchesTarget (target : PrefillExecutionMode × Key) (replayPending : Bool) (seqId : ℕ) :
    Routine (Scheduler Id Env) Bool := do
  let scheduler ← read
  if (!replayPending || (scheduler.seq seqId).isRecomputeReplay) &&
      !decide (Blocked config scheduler seqId) then do
    let batchKey ← prefillBatchKey oracle seqId
    return decide (batchKey = target)
  else return false

/-- The loop of `_pop_next_prefill_seq`, over the length of the queue. -/
def popLoop (target : PrefillExecutionMode × Key) (replayPending : Bool) :
    ℕ → Routine (Scheduler Id Env) (Option ℕ)
  | 0 => pure none
  | fuel + 1 => do
      let scheduler ← read
      match scheduler.waiting with
      | [] => return none
      | seqId :: rest => do
          let found ← matchesTarget config oracle target replayPending seqId
          if found then do
            write fun scheduler => { scheduler with waiting := rest }
            return some seqId
          else do
            write fun scheduler => { scheduler with
              waiting := rest
              skippedPrefill := scheduler.skippedPrefill ++ [seqId] }
            popLoop target replayPending fuel

/-- `_pop_next_prefill_seq`. -/
def popNextPrefillSeq (target : PrefillExecutionMode × Key) (replayPending : Bool) :
    Routine (Scheduler Id Env) (Option ℕ) := do
  popLoop config oracle target replayPending (← read).waiting.length

/-- `_reserved_prefill_tokens`. -/
def reservedPrefillTokens : Routine (Scheduler Id Env) ℤ :=
  call (oracle.reservedPrefillSlots config.enginePrefillChunkSize)

/-- `_can_continue_prefill_batch`. -/
def canContinuePrefillBatch (scheduler : Scheduler Id Env) (targetMode : PrefillExecutionMode)
    (scan : PrefillScan Resource) (marginBatchedTokens : ℤ) : Bool :=
  if scheduler.waiting = [] then false
  else if scan.scheduledSeqs.head?.any fun seqId => (scheduler.seq seqId).isRecomputeReplay then
    false
  else if targetMode = .rawOffload then
    decide (scan.scheduledSeqs = [] ∧ 0 < scan.stepFreeCount)
  else
    decide (scan.numBatchedTokens ≤ config.maxNumBatchedTokens - marginBatchedTokens ∧
      scan.numBatchedSeqs < config.maxNumSeqsInBatch)

/-- `_prefill_step_tokens`. -/
def prefillStepTokens (mode : PrefillExecutionMode)
    (remainingPrefillTokens numBatchedTokens stepFreeCount : ℤ) : ℤ :=
  match mode with
  | .full =>
      if remainingPrefillTokens ≤ min (config.maxNumBatchedTokens - numBatchedTokens) stepFreeCount
      then remainingPrefillTokens else 0
  | .chunked | .rawOffload =>
      min (min (min remainingPrefillTokens config.enginePrefillChunkSize)
        (config.maxNumBatchedTokens - numBatchedTokens)) stepFreeCount

/-- `_respect_min_final_prefill_chunk`. -/
def respectMinFinalPrefillChunk (seqId : ℕ) (remainingPrefillTokens proposedTokens : ℤ) :
    Routine (Scheduler Id Env) ℤ := do
  let minFinal ← call (oracle.minFinalPrefillChunkSize seqId)
  raiseIf (minFinal < 0) (.valueError "min_final_prefill_chunk_size must be non-negative")
  let remainingAfter := remainingPrefillTokens - proposedTokens
  if minFinal = 0 ∨ remainingAfter ≤ 0 ∨ minFinal ≤ remainingAfter then return proposedTokens
  else return max 0 (remainingPrefillTokens - minFinal)

/-! ## Prompt admission -/

/-- The part of `resources` that is already charged. -/
def chargedCost (charged : Finset Resource) (resources : Dict Resource ℤ) : ℤ :=
  ((resources.entries.filter fun entry => decide (entry.1 ∈ charged)).map Prod.snd).sum

/-- `costs`: the raw costs less what the batch has been charged for already. -/
def adjustedCosts (charged : Dict String (Finset Resource)) (rawCosts : Dict String ℤ)
    (sharedCosts : Dict String (Dict Resource ℤ)) : Except PyError (Dict String ℤ) :=
  sharedCosts.entries.foldlM
    (fun costs entry =>
      let cost := (costs.get? entry.1).getD 0 -
        chargedCost ((charged.get? entry.1).getD ∅) entry.2
      if cost < 0 then
        .error (.runtimeError "Shared prompt admission costs exceed the raw budget cost")
      else .ok (costs.set entry.1 cost))
    rawCosts

/-- The first budget that cannot pay: `failed`. -/
def failedBudget (budgets costs : Dict String ℤ) : Option (String × ℤ × ℤ) :=
  (costs.entries.find? fun entry => decide ((budgets.get? entry.1).getD 0 < entry.2)).map
    fun entry => (entry.1, entry.2, (budgets.get? entry.1).getD 0)

/-- `admission_budgets` after a prompt has paid. -/
def payBudgets (budgets costs : Dict String ℤ) : Dict String ℤ :=
  costs.entries.foldl
    (fun budgets entry => budgets.set entry.1 ((budgets.get? entry.1).getD 0 - entry.2)) budgets

/-- `charged_shared_resources` after a prompt has paid. -/
def chargeShared (charged : Dict String (Finset Resource))
    (sharedCosts : Dict String (Dict Resource ℤ)) : Dict String (Finset Resource) :=
  sharedCosts.entries.foldl
    (fun charged entry =>
      charged.set entry.1 ((charged.get? entry.1).getD ∅ ∪ entry.2.keys.toFinset))
    charged

/-- `shared_costs`. -/
def sharedAdmissionCosts (seqId : ℕ) :
    Routine (Scheduler Id Env) (Dict String (Dict Resource ℤ)) :=
  match oracle.promptAdmissionSharedCosts with
  | none => pure Dict.empty
  | some sharedCosts => call (sharedCosts seqId)

/-- The log entry of a deferred prompt, once for each sequence. -/
def warnDeferred (seqId : ℕ) : Routine (Scheduler Id Env) Unit := do
  let scheduler ← read
  whenDo (seqId ∉ scheduler.admissionDeferWarnedSeqIds) do
    whenDo (config.debugSlots ∧ scheduler.decoding = []) (call oracle.debugLiveSeqSlots)
    write fun scheduler => { scheduler with
      admissionDeferWarnedSeqIds := insert seqId scheduler.admissionDeferWarnedSeqIds }

/-- `self.waiting.append(seq)`. -/
def requeue (seqId : ℕ) : Routine (Scheduler Id Env) Unit :=
  write fun scheduler => { scheduler with waiting := scheduler.waiting ++ [seqId] }

/-- The admission of a prompt that starts now, `none` when it is deferred. -/
def admitPrompt (scan : PrefillScan Resource) (seqId : ℕ) :
    Routine (Scheduler Id Env) (Option (PrefillScan Resource) × PrefillScan Resource) := do
  let rawCosts ← call (oracle.promptAdmissionCosts seqId)
  let sharedCosts ← sharedAdmissionCosts oracle seqId
  let costs ← ofExcept (adjustedCosts scan.chargedSharedResources rawCosts sharedCosts)
  match failedBudget scan.admissionBudgets costs with
  | some (name, need, free) => do
      let action ← call oracle.promptAdmissionFailureAction
      if action = "defer" then do
        let scan := { scan with
          deferredPromptFailure := scan.deferredPromptFailure.or (some (seqId, name, need, free)) }
        warnDeferred config oracle seqId
        requeue seqId
        return (none, scan)
      else raise (.runtimeError "Insufficient KV cache slots to admit prompt.")
  | none => do
      write fun scheduler => { scheduler with
        admissionDeferWarnedSeqIds := scheduler.admissionDeferWarnedSeqIds.erase seqId }
      let budgets := payBudgets scan.admissionBudgets costs
      write (setSeq seqId fun seq => { seq with status := .running })
      call (oracle.onPromptAdmitted seqId rawCosts)
      write (setSeq seqId fun seq =>
        if 0 < seq.prefixCacheHitLen then { seq with numPrefilledTokens := seq.prefixCacheHitLen }
        else seq)
      let reservation ← call (oracle.promptLogicalReservationCost seqId)
      let logicalNeed := reservation - (sharedCosts.entries.map fun entry =>
        chargedCost ((scan.chargedSharedResources.get? entry.1).getD ∅) entry.2).sum
      raiseIf (scan.promptLogicalFreeCount < logicalNeed)
        (.runtimeError "Prompt admission budget mismatch after reservation check.")
      let scan := { scan with
        admissionBudgets := budgets
        promptLogicalFreeCount := scan.promptLogicalFreeCount - logicalNeed
        chargedSharedResources := chargeShared scan.chargedSharedResources sharedCosts }
      return (some scan, scan)

/-! ## The prefill scan -/

/-- The failures recorded for a candidate that gets no tokens. -/
def recordBlocked (mode : PrefillExecutionMode) (scan : PrefillScan Resource) (seqId : ℕ)
    (remaining proposed minFinal candidateFree : ℤ) : PrefillScan Resource :=
  let scan :=
    if 0 < minFinal ∧ remaining ≤ minFinal ∧ proposed < remaining then
      { scan with blockedFinalPrefillWindowFailure :=
          scan.blockedFinalPrefillWindowFailure.or (some (seqId, minFinal, proposed)) }
    else scan
  let scan :=
    if candidateFree ≤ 0 ∧ 0 < scan.stepFreeCount then
      let failure := (seqId, remaining, candidateFree, scan.stepFreeCount)
      { scan with blockedPrefillCapacityFailure :=
          scan.blockedPrefillCapacityFailure.or (some failure) }
    else scan
  if mode = .full then
    { scan with blockedPrefillStepFailure := some (seqId, remaining,
        min (config.maxNumBatchedTokens - scan.numBatchedTokens) candidateFree) }
  else scan

/-- `candidate_step_free_count`. -/
def candidateStepFree (mode : PrefillExecutionMode) (scan : PrefillScan Resource) (seqId : ℕ) :
    Routine (Scheduler Id Env) ℤ := do
  let candidateFree ← call (oracle.prefillStepFreeSlotsFor seqId)
  let usesFullStaging ← call (oracle.shouldScheduleFullPrefill seqId)
  if mode ≠ .rawOffload ∧ usesFullStaging = false then do
    let privateSlots ← call (oracle.prefillPrivateSlotsFor seqId)
    return min (scan.stepFreeCount + privateSlots) candidateFree
  else return candidateFree

/-- One candidate, after it has left the queue: the locals, and whether it was
scheduled. -/
def scanCandidate (mode : PrefillExecutionMode) (scan : PrefillScan Resource) (seqId : ℕ) :
    Routine (Scheduler Id Env) (PrefillScan Resource × Bool) := do
  let remaining ← call (oracle.remainingPrefillTokens seqId)
  let candidateFree ← candidateStepFree oracle mode scan seqId
  raiseIf (remaining ≤ 0) (.valueError "BUG：理论上不应该在 waiting 里")
  let proposed := prefillStepTokens config mode remaining scan.numBatchedTokens candidateFree
  let canPrefill ← respectMinFinalPrefillChunk oracle seqId remaining proposed
  if canPrefill ≤ 0 then do
    let minFinal ← call (oracle.minFinalPrefillChunkSize seqId)
    requeue seqId
    return (recordBlocked config mode scan seqId remaining proposed minFinal candidateFree, false)
  else do
    let (admitted, scan) ← (if ((← read).seq seqId).numPrefilledTokens = 0 then
        admitPrompt config oracle scan seqId
      else pure (some scan, scan))
    match admitted with
    | none => return (scan, false)
    | some scan => do
        write (setSeq seqId fun seq => { seq with currentChunkSize := some canPrefill })
        let cost ← call (oracle.prefillStepReservationCost seqId canPrefill)
        write (setSeq seqId fun seq => { seq with status := .running })
        return ({ scan with
          numBatchedSeqs := scan.numBatchedSeqs + 1
          numBatchedTokens := scan.numBatchedTokens + canPrefill
          stepFreeCount := max 0 (scan.stepFreeCount - cost)
          scheduledSeqs := scan.scheduledSeqs ++ [seqId] }, true)

/-- The `while` loop over one bucket, over `bucket_scan_budget`. -/
def scanLoop (target : PrefillExecutionMode × Key) (replayPending : Bool)
    (marginBatchedTokens : ℤ) : ℕ → PrefillScan Resource →
      Routine (Scheduler Id Env) (PrefillScan Resource)
  | 0, scan => pure scan
  | budget + 1, scan => do
      if canContinuePrefillBatch config (← read) target.1 scan marginBatchedTokens then do
        match ← popNextPrefillSeq config oracle target replayPending with
        | none => return scan
        | some seqId => do
            let (scan, scheduled) ← scanCandidate config oracle target.1 scan seqId
            if scheduled ∧ target.1 = .rawOffload then return scan
            else scanLoop target replayPending marginBatchedTokens budget scan
      else return scan

/-- The loop over the buckets. -/
def bucketLoop (replayPending : Bool) (marginBatchedTokens : ℤ) :
    List (PrefillExecutionMode × Key) → PrefillScan Resource →
      Routine (Scheduler Id Env) (PrefillScan Resource)
  | [], scan => pure scan
  | target :: rest, scan => do
      if scan.scheduledSeqs ≠ [] then return scan
      else do
        write fun scheduler => { scheduler with skippedPrefill := [] }
        let budget := (← read).waiting.length
        let scan ← finallyDo
          (scanLoop config oracle target replayPending marginBatchedTokens budget scan)
          (write fun scheduler => { scheduler with
            waiting := scheduler.skippedPrefill ++ scheduler.waiting
            skippedPrefill := [] })
        bucketLoop replayPending marginBatchedTokens rest scan

/-! ## Preemption -/

/-- The sequence writes of `_preempt_decode_victim`: the victim starts over, and
the survivors' progress is recorded. -/
def resetVictim (victim : ℕ) : Routine (Scheduler Id Env) Unit := do
  write (setSeq victim fun seq => { seq with status := .waiting })
  let seq := (← read).seq victim
  (if 0 < seq.numCompletionTokens then do
    let replay ← ofExcept seq.startRecomputeReplay
    write (setSeq victim fun _ => replay)
    write fun scheduler => { scheduler with
      totalRecomputeReplays := scheduler.totalRecomputeReplays + 1 }
  else write (setSeq victim fun seq => { seq with numPrefilledTokens := 0 }))
  write fun scheduler => { scheduler with world := { scheduler.world with
    seqs := scheduler.decoding.foldl
      (fun seqs survivor => Function.update seqs survivor
        { seqs survivor with decodeProgressCheckpoint := (seqs survivor).numCompletionTokens })
      scheduler.world.seqs } }

/-- `_preempt_decode_victim`.  `AsyncDrainRequired` is a `RuntimeError`. -/
def preemptDecodeVictim (victim : ℕ) (scheduledSeqs preemptedSeqs : List ℕ) :
    Routine (Scheduler Id Env) ScheduleResult := do
  let scheduler ← read
  if scheduler.asyncInflight ≠ 0 then do
    write fun scheduler => { scheduler with
      decoding := scheduledSeqs ++ victim :: scheduler.decoding }
    raise (.runtimeError "Preemption requires completed in-flight KV users")
  else do
    let seq := scheduler.seq victim
    let madeProgress := decide (seq.decodeProgressCheckpoint < seq.numCompletionTokens)
    if 0 < seq.numCompletionTokens ∧ scheduler.decoding = [] ∧
        ¬ (scheduler.replayWaiting ∧ madeProgress) then do
      write fun scheduler => { scheduler with
        decoding := scheduledSeqs ++ victim :: scheduler.decoding }
      raise (.runtimeError
        "KV cache is too small for the sole remaining decode request to make forward progress.")
    else do
      whenDo (config.debugSlots = true) do
        let _ ← call oracle.numFreeSlots
      resetVictim victim
      call (oracle.clearPrefixCacheHit victim)
      call (oracle.resetPrefillExecutionState victim)
      let now ← call callbacks.monotonic
      write fun scheduler => { scheduler with
        prefillWaitSince := setdefault scheduler.prefillWaitSince victim now
        waiting := scheduler.waiting ++ [victim]
        decoding := scheduledSeqs ++ scheduler.decoding
        totalPreemptions := scheduler.totalPreemptions + 1 }
      call oracle.freeSlotStats
      return ⟨[], false, preemptedSeqs ++ [victim]⟩

/-! ## The decode scan -/

/-- `_eligible_decode_batch`, over the decoding queue. -/
def eligibleLoop : List ℕ → ℤ → List ℕ → Routine (Scheduler Id Env) (List ℕ)
  | [], _, batch => pure batch
  | seqId :: rest, free, batch => do
      let seq := (← read).seq seqId
      if seq.maxTokens ≤ seq.numCompletionTokens + seq.numPendingOutputs then
        eligibleLoop rest free batch
      else do
        let cost ← call (oracle.decodeStepReservationCost seqId)
        let seqFree ← call (oracle.decodeStepFreeSlotsFor seqId)
        if min free seqFree < cost then
          if free ≤ 0 then return batch else eligibleLoop rest free batch
        else if ((batch ++ [seqId]).length : ℤ) = config.maxDecodingSeqs then
          return batch ++ [seqId]
        else eligibleLoop rest (free - cost) (batch ++ [seqId])

/-- `_eligible_decode_batch`. -/
def eligibleDecodeBatch : Routine (Scheduler Id Env) (List ℕ) := do
  if (← read).decoding = [] then return []
  else do
    let free ← call oracle.decodeStepFreeSlots
    eligibleLoop config oracle (← read).decoding (max 0 free) []

/-- The `while` loop of the decode phase, over `decode_scan_budget`.  The left
result is an early return. -/
def decodeLoop : ℕ → DecodeScan → Routine (Scheduler Id Env) (ScheduleResult ⊕ DecodeScan)
  | 0, scan => pure (.inr scan)
  | budget + 1, scan => do
      match (← read).decoding with
      | [] => return .inr scan
      | seqId :: rest => do
          if config.maxDecodingSeqs ≤ scan.numBatchedSeqs then return .inr scan
          else do
            write fun scheduler => { scheduler with decoding := rest }
            let seq := (← read).seq seqId
            if seq.maxTokens ≤ seq.numCompletionTokens + seq.numPendingOutputs then do
              write fun scheduler => { scheduler with decoding := scheduler.decoding ++ [seqId] }
              decodeLoop budget scan
            else do
              let seqFree ← call (oracle.decodeStepFreeSlotsFor seqId)
              let cost ← call (oracle.decodeStepReservationCost seqId)
              if min scan.decodeLogicalFreeCount seqFree < cost then
                if 0 < scan.decodeLogicalFreeCount then do
                  write fun scheduler => { scheduler with
                    decoding := scheduler.decoding ++ [seqId] }
                  decodeLoop budget { scan with
                    blockedDecodeVictim := scan.blockedDecodeVictim.or (some seqId) }
                else if scan.scheduledSeqs ≠ [] then do
                  write fun scheduler => { scheduler with
                    decoding := scheduler.decoding ++ [seqId] }
                  return .inr { scan with
                    blockedDecodeVictim := scan.blockedDecodeVictim.or (some seqId) }
                else do
                  let result ← preemptDecodeVictim config oracle callbacks seqId
                    scan.scheduledSeqs []
                  return .inl result
              else
                decodeLoop budget { scan with
                  decodeLogicalFreeCount := scan.decodeLogicalFreeCount - cost
                  numBatchedSeqs := scan.numBatchedSeqs + 1
                  scheduledSeqs := scan.scheduledSeqs ++ [seqId] }

/-! ## `_schedule_impl` -/

/-- `any(time.monotonic() - since >= 60.0 for since in ...)`. -/
def anyOverdue : List ℚ → Routine (Scheduler Id Env) Bool
  | [] => pure false
  | since :: rest => do
      let now ← call callbacks.monotonic
      if 60 ≤ now - since then return true else anyOverdue rest

/-- The decode affinity test: the batch to return, and `overdue`. -/
def decodeAffinity (failure : Option ℕ) : Routine (Scheduler Id Env) (Option (List ℕ) × Bool) := do
  write fun scheduler => { scheduler with phaseReason := "prefill_priority" }
  if config.favorMinDecodingSeqs = 0 then return (none, false)
  else do
    let overdue ← anyOverdue callbacks (← read).prefillWaitSince.values
    write fun scheduler => { scheduler with phaseReason :=
      if overdue then "prefill_wait_timeout"
      else if scheduler.phase = .prefill then "prefill_continue"
      else "decode_below_threshold" }
    if (← read).phase = .decode ∧ overdue = false ∧ failure = none then do
      let batch ← eligibleDecodeBatch config oracle
      let scheduler ← read
      if batch ≠ [] ∧
          (scheduler.waiting = [] ∨ config.favorMinDecodingSeqs ≤ batch.length) then do
        write fun scheduler => { scheduler with phaseReason :=
          if scheduler.waiting = [] then "no_prefill" else "decode_affinity" }
        return (some batch, overdue)
      else return (none, overdue)
    else return (none, overdue)

/-- The capacity queries before the prefill scan: the locals and
`margin_batched_tokens`. -/
def prefillCapacity (physicalFreeCount : ℤ) :
    Routine (Scheduler Id Env) (PrefillScan Resource × ℤ) := do
  if (← read).waiting = [] then
    return ({ stepFreeCount := physicalFreeCount
              promptLogicalFreeCount := 0
              admissionBudgets := Dict.empty
              chargedSharedResources := Dict.empty }, 0)
  else do
    let reservedPrefill ← reservedPrefillTokens config oracle
    let promptFree ← call oracle.promptAdmissionFreeSlots
    let stepFree ← call oracle.prefillStepFreeSlots
    let budgets ← call (oracle.promptAdmissionBudgets config.enginePrefillChunkSize)
    let margin ← call oracle.prefillBatchedTokensMargin
    return ({ stepFreeCount := stepFree
              promptLogicalFreeCount := max 0 (promptFree - reservedPrefill)
              admissionBudgets := budgets
              chargedSharedResources := Dict.empty }, margin)

/-- `self._prefill_wait_since[seq.seq_id]`, with the sequence. -/
def waitingSince (scheduler : Scheduler Id Env) (seqId : ℕ) : Except PyError (ℚ × ℕ) :=
  match scheduler.prefillWaitSince.get? seqId with
  | none => .error (.keyError "_prefill_wait_since")
  | some since => .ok (since, seqId)

/-- The sort of the waiting queue when a prompt is overdue. -/
def sortWaiting : Routine (Scheduler Id Env) Unit := do
  let scheduler ← read
  let keyed ← ofExcept (scheduler.waiting.mapM scheduler.waitingSince)
  write fun scheduler => { scheduler with
    waiting := (keyed.insertionSort fun a b => a.1 ≤ b.1).map Prod.snd }

/-- The prefill phase. -/
def prefillPhase (scan : PrefillScan Resource) (marginBatchedTokens : ℤ) :
    Routine (Scheduler Id Env) (PrefillScan Resource) := do
  let scheduler ← read
  let modes ← (if scheduler.waiting ≠ [] ∧
        ¬ (scheduler.replayWaiting ∧ scheduler.decoding ≠ []) then
      prefillModeOrder config oracle callbacks
    else pure [])
  let replayPending := (← read).replayWaiting
  bucketLoop config oracle replayPending marginBatchedTokens modes scan

/-- The errors at the end of a pass that found no work. -/
def raiseBlocked (scan : PrefillScan Resource) : Routine (Scheduler Id Env) Unit := do
  if (← read).decoding ≠ [] then pure ()
  else do
    raiseIf (scan.blockedPrefillStepFailure.isSome = true)
      (.runtimeError "Prefill candidate requires an atomic prefill step but cannot fit.")
    raiseIf (scan.blockedFinalPrefillWindowFailure.isSome = true)
      (.runtimeError "Final prefill score window cannot fit in the effective step budget.")
    raiseIf (scan.blockedPrefillCapacityFailure.isSome = true)
      (.runtimeError "No prefill candidate can use the remaining cache capacity.")
    if scan.deferredPromptFailure.isSome then do
      whenDo (config.debugSlots = true) (call oracle.debugLiveSeqSlots)
      raise (.runtimeError "All prompt admissions were deferred and no runnable work remains.")
    else pure ()

/-- The reclaim of prefill capacity: whether the pass is to be retried. -/
def reclaimPrefill (allowPrefillReclaim : Bool) (scan : PrefillScan Resource) :
    Routine (Scheduler Id Env) Bool := do
  let scheduler ← read
  match callbacks.prefillCapacityReclaimer, scheduler.waiting with
  | some reclaim, first :: _ =>
      if scheduler.decoding = [] ∧ allowPrefillReclaim = true ∧
          (scan.deferredPromptFailure.isSome ∨ scan.stepFreeCount ≤ 0) then do
        raiseIf (scheduler.asyncInflight ≠ 0)
          (.runtimeError "Prefill capacity reclaim requires completed in-flight KV users")
        call (reclaim ((scan.deferredPromptFailure.map Prod.fst).getD first))
      else return false
  | _, _ => return false

/-- The decoding queue after a batch: the scheduled sequences go back to the
front, and the blocked one before them. -/
def frontDecoding (scan : DecodeScan) (decoding : List ℕ) : List ℕ :=
  match scan.blockedDecodeVictim with
  | none => scan.scheduledSeqs ++ decoding
  | some victim => victim :: (scan.scheduledSeqs ++ decoding).erase victim

/-- The return of a decode batch. -/
def returnDecodeBatch (scan : DecodeScan) : Routine (Scheduler Id Env) ScheduleResult := do
  write fun scheduler => { scheduler with decoding := frontDecoding scan scheduler.decoding }
  return ⟨scan.scheduledSeqs, false, []⟩

/-- The decode phase.  `retry` is the recursive call, which only a pass with
`allow_prefill_reclaim` makes. -/
def decodePhase (retry : Option (Routine (Scheduler Id Env) ScheduleResult))
    (prefill : PrefillScan Resource) (decodeLogicalFreeCount : ℤ) :
    Routine (Scheduler Id Env) ScheduleResult := do
  write fun scheduler => { scheduler with
    phaseReason := if scheduler.waiting = [] then "no_prefill" else "prefill_unavailable" }
  let start : DecodeScan := { decodeLogicalFreeCount := decodeLogicalFreeCount }
  match ← decodeLoop config oracle callbacks (← read).decoding.length start with
  | .inl result => return result
  | .inr scan =>
      if scan.scheduledSeqs ≠ [] then returnDecodeBatch scan
      else
        match scan.blockedDecodeVictim with
        | some victim => do
            write fun scheduler => { scheduler with decoding := scheduler.decoding.erase victim }
            preemptDecodeVictim config oracle callbacks victim [] []
        | none => do
            let again ← reclaimPrefill callbacks retry.isSome prefill
            match again, retry with
            | true, some retry => retry
            | _, _ => do
                raiseBlocked config oracle prefill
                return ⟨[], false, []⟩

/-- The decode reclaimer, for a window that could not be reserved. -/
def reclaimDecode (reserved : Option ℕ) : Routine (Scheduler Id Env) (Option ℕ) :=
  match reserved, callbacks.decodeCapacityReclaimer with
  | some seqId, some reclaim => call (reclaim seqId)
  | _, _ => pure reserved

/-- `_schedule_impl` with its recursive call as a parameter. -/
def schedulePass (retry : Option (Routine (Scheduler Id Env) ScheduleResult)) :
    Routine (Scheduler Id Env) ScheduleResult := do
  let reserved ← call oracle.reserveDecodeWindows
  let failure ← reclaimDecode callbacks reserved
  match failure with
  | some victim =>
      if 1 < (← read).decoding.length then do
        removeDecoding victim
        let _ ← call oracle.numFreeSlots
        let _ ← reservedPrefillTokens config oracle
        preemptDecodeVictim config oracle callbacks victim [] []
      else afterReservation (some victim)
  | none => afterReservation none
where
  /-- The pass after the decode windows are settled. -/
  afterReservation (failure : Option ℕ) : Routine (Scheduler Id Env) ScheduleResult := do
    let (affinity, overdue) ← decodeAffinity config oracle callbacks failure
    match affinity with
    | some batch => return ⟨batch, false, []⟩
    | none => do
        let physicalFreeCount ← call oracle.numFreeSlots
        let (scan, marginBatchedTokens) ← prefillCapacity config oracle physicalFreeCount
        let decodeFree ← call oracle.decodeStepFreeSlots
        whenDo (overdue = true) sortWaiting
        let scan ← prefillPhase config oracle callbacks scan marginBatchedTokens
        if scan.scheduledSeqs ≠ [] then return ⟨scan.scheduledSeqs, true, []⟩
        else
          match failure with
          | some victim => do
              removeDecoding victim
              preemptDecodeVictim config oracle callbacks victim [] []
          | none => decodePhase config oracle callbacks retry scan (max 0 decodeFree)

/-- `_schedule_impl`. -/
def scheduleImpl (allowPrefillReclaim : Bool) : Routine (Scheduler Id Env) ScheduleResult :=
  match allowPrefillReclaim with
  | false => schedulePass config oracle callbacks none
  | true => schedulePass config oracle callbacks (some (schedulePass config oracle callbacks none))

/-! ## `schedule` -/

/-- The handler of `schedule`: sequences that are in neither queue go back to
the queue they came from. -/
def restoreOwned (waitingBefore decodingBefore : List ℕ) : Routine (Scheduler Id Env) Unit :=
  write fun scheduler =>
    let owned := scheduler.waiting ++ scheduler.decoding
    let waiting := scheduler.waiting ++ waitingBefore.filter fun seqId => decide (seqId ∉ owned)
    { scheduler with
      waiting := waiting
      decoding := scheduler.decoding ++ decodingBefore.filter fun seqId =>
        decide (seqId ∉ owned ∧ seqId ∉ waiting) }

/-- The bookkeeping of `schedule` after a pass. -/
def recordPhase (now : ℚ) (result : ScheduleResult) (scheduler : Scheduler Id Env) :
    Scheduler Id Env :=
  if result.seqs = [] then scheduler
  else
    let phase := if result.isPrefill then SchedulerPhase.prefill else .decode
    { scheduler with
      prefillWaitSince :=
        if result.isPrefill then
          result.seqs.foldl (fun since seqId => since.erase seqId) scheduler.prefillWaitSince
        else scheduler.prefillWaitSince
      phaseStartedAt := if phase = scheduler.phase then scheduler.phaseStartedAt else now
      phase := phase }

/-- `_schedule_impl` inside `scheduler_capacity_snapshot`. -/
def scheduleInSnapshot : Routine (Scheduler Id Env) ScheduleResult := do
  match oracle.schedulerCapacitySnapshot with
  | none => scheduleImpl config oracle callbacks true
  | some (enter, leave) => do
      call enter
      finallyDo (scheduleImpl config oracle callbacks true) (call leave)

/-- `schedule`. -/
def schedule : Routine (Scheduler Id Env) ScheduleResult := do
  let now ← call callbacks.monotonic
  write fun scheduler => { scheduler with
    skippedPrefill := []
    prefillWaitSince := scheduler.waiting.foldl (fun since seqId => setdefault since seqId now)
      scheduler.prefillWaitSince }
  let before ← read
  let result ← onError (scheduleInSnapshot config oracle callbacks)
    (restoreOwned before.waiting before.decoding)
  write (recordPhase now result)
  return result

end

end Scheduler
