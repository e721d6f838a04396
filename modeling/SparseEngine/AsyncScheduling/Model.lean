import SparseEngine.AsyncScheduling.Execution
import SparseEngine.Scheduler.Postprocess
import Mathlib.Data.Finset.Sort

/-!
# The asynchronous scheduler

`AsyncScheduler` of `async_scheduling/scheduler.py`, with the parts of the
engine it calls: `admit_request`, `_release_preempted_sequences`,
`_release_slots_transaction` and `_step_sync`.  A call of the model runner is
a call of a `Runner`'s hook, which may raise, and the write of
`AsyncExecution` that belongs to it.

A run keeps a history beside the state: what was submitted, collected,
sampled, published and released, and which requests ended in a way that leaves
slots to release.  Each entry is written where the event happens, and no
branch depends on the history but the test that an id is fresh; so a theorem
that compares `discarded` and `retired` with it is about the code.  The tokens
that the device samples are given for every ticket.

Multimodal requests, logprobs and the throughput log are left out, and so is
all that a chain adds to an admission or a finish.  The configuration turns
asynchronous scheduling on for the radix cache or none, but tests the
requested mode: `auto` passes even where it resolves to `chain`, and such an
engine is not modelled.
-/

/-- `PendingStep`. -/
structure PendingStep (Id : Type) where
  ticket : ℕ
  seqs : List ℕ
  snapshots : List (Sequence Id)
  isPrefill : Bool
  publishes : List Bool

/-- The requests that the step samples an output of. -/
def PendingStep.published {Id : Type} (step : PendingStep Id) : List ℕ :=
  ((step.seqs.zip step.publishes).filter Prod.snd).map Prod.fst

/-- The outputs that the device samples for the step, given the tokens of its
ticket. -/
def PendingStep.outputs {Id : Type} (sampled : ℕ → ℕ → ℤ) (step : PendingStep Id) :
    List (ℕ × ℤ) :=
  step.published.map fun seqId => (seqId, sampled step.ticket seqId)

/-- What a run has done. -/
structure AsyncHistory (Id : Type) where
  /-- The requests, as they were admitted. -/
  requests : ℕ → Option (Sequence Id)
  /-- The tickets, in the order of their submissions and of their collections. -/
  submitted : List ℕ
  collected : List ℕ
  /-- The outputs of all steps, in the order of their submissions. -/
  issued : List (ℕ × ℤ)
  /-- Those of the steps that are not pending. -/
  sampled : List (ℕ × ℤ)
  /-- What the caller has got: `last_step_token_outputs`. -/
  published : List (ℕ × ℤ)
  /-- The outputs an aborted request had when it was aborted. -/
  aborted : ℕ → Option (List ℤ)
  /-- The requests that were finished or aborted, or whose step failed. -/
  ended : Finset ℕ
  /-- Those that a collection finished. -/
  finished : Finset ℕ
  /-- Those that were aborted while they might own slots or a pending step referred to them. -/
  abortedHolding : Finset ℕ
  /-- How often `retire_async` has released the request. -/
  retired : ℕ → ℕ

/-- The outputs of one request. -/
def outputsOf (seqId : ℕ) (outputs : List (ℕ × ℤ)) : List ℤ :=
  (outputs.filter fun output => decide (output.1 = seqId)).map Prod.snd

/-- `AsyncScheduler`, and what it uses of `LLMEngine`. -/
structure AsyncScheduler (Id Env : Type) where
  scheduler : Scheduler Id Env
  execution : AsyncExecution Id
  pending : List (PendingStep Id)
  retiring : Finset ℕ
  discarded : Finset ℕ
  nextTicket : ℕ
  pendingSlotReleases : Finset ℕ
  history : AsyncHistory Id

/-- The parts of the model runner that are not `AsyncExecution`. -/
structure Runner (Id Env : Type) where
  /-- The forward pass of `submit_async`: the slots it fills, of the requests whose prefixes are
  recorded. -/
  forward : List (ℕ × Sequence Id) → Bool → Hook Id Env (List (ℕ × List ℤ))
  sample : List (ℕ × Sequence Id) → Hook Id Env Unit
  /-- The synchronization and the publication of prefix blocks in `collect_async`. -/
  collect : ℕ → Finset ℕ → Hook Id Env Unit
  run : List ℕ → Bool → Hook Id Env Unit
  /-- `_release_runtime_slots_once`. -/
  releaseSlots : Finset ℕ → Hook Id Env Unit

/-- The configuration, the hooks, and the tokens the device samples for a
ticket. -/
structure AsyncEngine (Id Env Key Resource : Type) where
  config : SchedulerConfig
  oracle : MemoryOracle Id Env Key Resource
  callbacks : SchedulerCallbacks Id Env
  completePrefillExecution : ℕ → Hook Id Env Unit
  runner : Runner Id Env
  eosTokenIds : List ℤ
  asyncMaxInflight : ℕ
  requiresCommittedTokenHistory : Bool
  /-- `bool(self._pending_prefix_prune_ids)`. -/
  prefixPrunePending : Env → Bool
  hasSamplingPenalty : ℕ → Bool
  sampled : ℕ → ℕ → ℤ

/-- `execution_snapshot`. -/
def Sequence.executionSnapshot {Id : Type} (seq : Sequence Id) : Sequence Id :=
  { seq with numTokens := seq.numTokens + seq.numPendingOutputs, numPendingOutputs := 0 }

/-- `AsyncDrainRequired`. -/
def PyError.isDrainRequired : PyError → Bool
  | .runtimeError message =>
      decide (message = "Preemption requires completed in-flight KV users" ∨
        message = "Prefill capacity reclaim requires completed in-flight KV users")
  | _ => false

namespace AsyncScheduler

open Routine

variable {Id Env Key Resource : Type} [DecidableEq Key] [DecidableEq Resource]

/-- The sequence object of an id. -/
def seq (state : AsyncScheduler Id Env) (seqId : ℕ) : Sequence Id := state.scheduler.seq seqId

/-- A call on the scheduler. -/
def onScheduler {α : Type} (method : Routine (Scheduler Id Env) α) :
    Routine (AsyncScheduler Id Env) α := fun state =>
  ((method state.scheduler).1, { state with scheduler := (method state.scheduler).2 })

/-- A call of a hook. -/
def call {α : Type} (hook : Hook Id Env α) : Routine (AsyncScheduler Id Env) α :=
  onScheduler (Scheduler.call hook)

/-- A write to a sequence object. -/
def setSeq (seqId : ℕ) (update : Sequence Id → Sequence Id) (state : AsyncScheduler Id Env) :
    AsyncScheduler Id Env :=
  { state with scheduler := Scheduler.setSeq seqId update state.scheduler }

/-- The requests of the pending steps. -/
def referenced (state : AsyncScheduler Id Env) : Finset ℕ :=
  (state.pending.flatMap PendingStep.seqs).toFinset

/-! ## Cache release -/

section

variable (engine : AsyncEngine Id Env Key Resource)

/-- `ModelRunner.free_slots_batch`. -/
def freeSlotsBatch (seqIds : Finset ℕ) : Routine (AsyncScheduler Id Env) Unit := do
  raiseIf ((← read).execution.holds seqIds = true)
    (.runtimeError "Cache release requires an asynchronous ticket to retire.")
  call (engine.runner.releaseSlots seqIds)
  write fun state => { state with execution := state.execution.forget seqIds }

/-- The calls that release slots keep `_pending_slot_releases` while they
run. -/
def releaseSlots (seqIds : Finset ℕ) : Routine (AsyncScheduler Id Env) Unit := do
  write fun state => { state with pendingSlotReleases := state.pendingSlotReleases ∪ seqIds }
  freeSlotsBatch engine seqIds
  write fun state => { state with pendingSlotReleases := state.pendingSlotReleases \ seqIds }

/-- `_release_preempted_sequences`. -/
def releasePreemptedSequences (preempted : List ℕ) : Routine (AsyncScheduler Id Env) Unit :=
  whenDo (preempted ≠ []) (releaseSlots engine preempted.toFinset)

/-- `_release_slots_transaction`. -/
def releaseSlotsTransaction (seqId : ℕ) : Routine (AsyncScheduler Id Env) Unit :=
  releaseSlots engine {seqId}

/-! ## Collection -/

/-- `self.model_runner.call("collect_async", ticket, sorted(self.discarded))`. -/
def collectAsync (ticket : ℕ) : Routine (AsyncScheduler Id Env) (List ℤ) := do
  let state ← read
  match state.execution.results.get? ticket with
  | none => raise (.keyError (toString ticket))
  | some result => do
      call (engine.runner.collect ticket state.discarded)
      write fun state => { state with execution :=
        { state.execution with results := state.execution.results.erase ticket } }
      return result.tokens

/-- `self.pending.popleft()`. -/
def popStep (ticket : ℕ) (rest : List (PendingStep Id)) (state : AsyncScheduler Id Env) :
    AsyncScheduler Id Env :=
  { state with
    pending := rest
    history := { state.history with collected := state.history.collected ++ [ticket] } }

/-- `seq.num_pending_outputs -= 1`. -/
def unpend (seqId : ℕ) (token : ℤ) (state : AsyncScheduler Id Env) : AsyncScheduler Id Env :=
  let state := setSeq seqId (fun seq => { seq with
    numPendingOutputs := seq.numPendingOutputs - 1 }) state
  { state with history := { state.history with
    sampled := state.history.sampled ++ [(seqId, token)] } }

/-- A row of a step whose requests are all discarded. -/
def drainRow (state : AsyncScheduler Id Env) (row : ℕ × ℤ × Bool) : AsyncScheduler Id Env :=
  if row.2.2 then unpend row.1 row.2.1 state else state

/-- The loop of `_drain_discarded`, over the pending steps. -/
def drainLoop : ℕ → Routine (AsyncScheduler Id Env) Unit
  | 0 => pure ()
  | fuel + 1 => do
      let state ← read
      match state.pending with
      | [] => pure ()
      | step :: rest =>
          if step.seqs.all fun seqId => decide (seqId ∈ state.discarded) then do
            let tokens ← collectAsync engine step.ticket
            write (popStep step.ticket rest)
            write fun state => (step.seqs.zip (tokens.zip step.publishes)).foldl drainRow state
            drainLoop fuel
          else pure ()

/-- `_drain_discarded`. -/
def drainDiscarded : Routine (AsyncScheduler Id Env) Unit := do
  drainLoop engine (← read).pending.length

/-- `_retire_ready`. -/
def retireReady : Routine (AsyncScheduler Id Env) Unit := do
  let state ← read
  let ready := state.retiring \ state.referenced
  whenDo (ready ≠ ∅) do
    write fun state => { state with pendingSlotReleases := state.pendingSlotReleases ∪ ready }
    freeSlotsBatch engine ready
    write fun state => { state with
      pendingSlotReleases := state.pendingSlotReleases \ ready
      retiring := state.retiring \ ready
      discarded := state.discarded \ ready
      history := { state.history with retired := fun seqId =>
        if seqId ∈ ready then state.history.retired seqId + 1 else state.history.retired seqId } }

/-- `self.discarded.add(seq_id)` and `self.retiring.add(seq_id)`. -/
def discard (seqId : ℕ) (state : AsyncScheduler Id Env) : AsyncScheduler Id Env :=
  { state with
    discarded := insert seqId state.discarded
    retiring := insert seqId state.retiring }

/-- The output of a row is accepted and published. -/
def publishRow (seqId : ℕ) (token : ℤ) (state : AsyncScheduler Id Env) :
    AsyncScheduler Id Env :=
  let state := setSeq seqId (Sequence.appendToken token) state
  { state with history := { state.history with
    published := state.history.published ++ [(seqId, token)] } }

/-- The test of `step` whether the request ends with its last token. -/
def endsCollected (token : ℤ) (seq : Sequence Id) : Bool :=
  (!seq.ignoreEos && decide (token ∈ resolveEosTokenIds seq.eosTokenIds engine.eosTokenIds)) ||
    decide (seq.maxTokens ≤ seq.numCompletionTokens)

/-- The request is finished. -/
def finishRow (seqId : ℕ) (state : AsyncScheduler Id Env) : AsyncScheduler Id Env :=
  let state := setSeq seqId (fun seq => { seq with status := .finished }) state
  discard seqId { state with
    scheduler := { state.scheduler with decoding := state.scheduler.decoding.erase seqId }
    history := { state.history with
      ended := insert seqId state.history.ended
      finished := insert seqId state.history.finished } }

/-- A row of the collected step. -/
def collectRow (state : AsyncScheduler Id Env) (row : ℕ × ℤ × Bool) : AsyncScheduler Id Env :=
  let (seqId, token, publish) := row
  let state := if publish then unpend seqId token state else state
  if publish = false ∨ seqId ∈ state.discarded then state
  else
    let state := publishRow seqId token state
    if endsCollected engine token (state.seq seqId) then finishRow seqId state else state

/-- The collection of `step`. -/
def collect : Routine (AsyncScheduler Id Env) Unit := do
  match (← read).pending with
  | [] => pure ()
  | step :: rest => do
      let tokens ← collectAsync engine step.ticket
      write (popStep step.ticket rest)
      write fun state =>
        (step.seqs.zip (tokens.zip step.publishes)).foldl (collectRow engine) state
      drainDiscarded engine
      retireReady engine

/-! ## Submission -/

/-- `scheduler.schedule()` with the number of steps in flight, `none` when they
have to be drained first. -/
def scheduleAhead : Routine (AsyncScheduler Id Env) (Option ScheduleResult) := do
  write fun state => { state with scheduler :=
    { state.scheduler with asyncInflight := state.pending.length } }
  finallyDo
    (catchWhen PyError.isDrainRequired
      (do
        let batch ← onScheduler
          (Scheduler.schedule engine.config engine.oracle engine.callbacks)
        return some batch)
      fun _ => pure none)
    (write fun state => { state with scheduler := { state.scheduler with asyncInflight := 0 } })

/-- `scheduler.waiting.extendleft(reversed(seqs))`. -/
def putBack (seqs : List ℕ) (state : AsyncScheduler Id Env) : AsyncScheduler Id Env :=
  { state with scheduler := { state.scheduler with waiting := seqs ++ state.scheduler.waiting } }

/-- The records of the prefixes whose slots the forward pass has filled. -/
def prefixRecords (isPrefill : Bool) (rows : List (ℕ × Sequence Id)) (slots : List (ℕ × List ℤ)) :
    List PrefixRecord :=
  slots.filterMap fun (seqId, slots) =>
    (rows.lookup seqId).map fun seq =>
      ⟨seqId, if isPrefill then seq.chunkTokens (seq.currentChunkSize.getD 0)
        else seq.lastToken.toList, slots⟩

/-- `AsyncExecution.submit`. -/
def submitAsync (ticket : ℕ) (rows : List (ℕ × Sequence Id)) (isPrefill : Bool) :
    Routine (AsyncScheduler Id Env) Unit := do
  raiseIf (ticket ∈ (← read).execution.results.keys)
    (.runtimeError s!"Duplicate asynchronous submission {ticket}")
  let inputs ← (if isPrefill then pure none
    else do
      let inputs ← ofExcept ((← read).execution.prepareInputs rows)
      return some inputs)
  let slots ← call (engine.runner.forward rows isPrefill)
  write fun state => { state with
    execution := state.execution.applyPenalties engine.hasSamplingPenalty rows }
  call (engine.runner.sample rows)
  let tokens := rows.map fun row => engine.sampled ticket row.1
  let execution ← ofExcept (AsyncExecution.noteSamples isPrefill (rows.zip tokens)
    (← read).execution)
  write fun state => { state with execution := { execution with
    results := execution.results.set ticket
      ⟨rows, isPrefill, tokens, inputs, prefixRecords isPrefill rows slots⟩ } }

/-- A row of the submitted step. -/
def noteRow (isPrefill : Bool) (seqId : ℕ) (publish : Bool) :
    Routine (AsyncScheduler Id Env) Unit := do
  whenDo (publish = true) (write (setSeq seqId fun seq => { seq with
    numPendingOutputs := seq.numPendingOutputs + 1 }))
  whenDo (isPrefill = true) do
    let prefilled ← ofExcept ((← read).seq seqId).prefilledAfterChunk
    write (setSeq seqId fun seq => { seq with numPrefilledTokens := prefilled })
    if prefilled < ((← read).seq seqId).numPromptTokens then do
      write (setSeq seqId fun seq => { seq with status := .waiting })
      let now ← call engine.callbacks.monotonic
      write fun state => { state with scheduler := { state.scheduler with
        prefillWaitSince := Scheduler.setdefault state.scheduler.prefillWaitSince seqId now
        waiting := seqId :: state.scheduler.waiting } }
    else do
      call (engine.completePrefillExecution seqId)
      write (setSeq seqId fun seq => { seq with status := .running })
      write fun state => { state with scheduler := { state.scheduler with
        decoding := state.scheduler.decoding ++ [seqId] } }

/-- The loop over the rows of the submitted step. -/
def noteRows (isPrefill : Bool) : List (ℕ × Bool) → Routine (AsyncScheduler Id Env) Unit
  | [] => pure ()
  | (seqId, publish) :: rest => do
      noteRow engine isPrefill seqId publish
      noteRows isPrefill rest

/-- `self.pending.append(step)`. -/
def pushStep (step : PendingStep Id) (state : AsyncScheduler Id Env) : AsyncScheduler Id Env :=
  { state with
    pending := state.pending ++ [step]
    history := { state.history with
      submitted := state.history.submitted ++ [step.ticket]
      issued := state.history.issued ++ step.outputs engine.sampled } }

/-- The part of `_submit` after the batch is known to be fit for it. -/
def submitBatch (batch : ScheduleResult) : Routine (AsyncScheduler Id Env) Unit := do
  let state ← read
  let snapshots := batch.seqs.map fun seqId => (state.seq seqId).executionSnapshot
  let publishes ← ofExcept (snapshots.mapM (AsyncExecution.publishesRow batch.isPrefill))
  let ticket := state.nextTicket
  write fun state => { state with nextTicket := ticket + 1 }
  onError (submitAsync engine ticket (batch.seqs.zip snapshots) batch.isPrefill)
    (whenDo (batch.isPrefill = true) (write (putBack batch.seqs)))
  noteRows engine batch.isPrefill (batch.seqs.zip publishes)
  write (pushStep engine ⟨ticket, batch.seqs, snapshots, batch.isPrefill, publishes⟩)

/-- Whether `_submit` has no work to look for. -/
def holdsBack (state : AsyncScheduler Id Env) : Bool :=
  engine.prefixPrunePending state.scheduler.world.env ||
    (engine.requiresCommittedTokenHistory && state.pending.any fun step => step.publishes.any id) ||
    (state.scheduler.waiting.isEmpty && !state.scheduler.decoding.any fun seqId =>
      decide ((state.seq seqId).numCompletionTokens + (state.seq seqId).numPendingOutputs <
        (state.seq seqId).maxTokens))

/-- `_submit`. -/
def submit : Routine (AsyncScheduler Id Env) Bool := do
  if holdsBack engine (← read) then return false
  else do
    match ← scheduleAhead engine with
    | none => return false
    | some batch => do
        releasePreemptedSequences engine batch.preempted
        if batch.seqs = [] then return false
        else do
          let state ← read
          if batch.seqs.any fun seqId => (state.seq seqId).isRecomputeReplay then do
            whenDo (batch.isPrefill = true) (write (putBack batch.seqs))
            return false
          else do
            submitBatch engine batch
            return true

/-! ## The synchronous step -/

/-- `ModelRunner.run` outside a submission. -/
def runSync (batch : ScheduleResult) : Routine (AsyncScheduler Id Env) Unit := do
  let execution ← ofExcept (← read).execution.prepareSynchronousExecution
  write fun state => { state with execution := execution }
  call (engine.runner.run batch.seqs batch.isPrefill)

/-- The releases of a list of sequences: those that succeed, and the first
error.  A failed release ends the loop, or is passed over. -/
def releaseEach (passOver : Bool) : List ℕ →
    Routine (AsyncScheduler Id Env) (List ℕ × Option PyError)
  | [] => pure ([], none)
  | seqId :: rest => do
      let failure ← catchWhen (fun _ => true)
        (do releaseSlotsTransaction engine seqId; return none) fun error => pure (some error)
      match failure with
      | none => do
          let (released, failure) ← releaseEach passOver rest
          return (seqId :: released, failure)
      | some error =>
          if passOver then do
            let (released, failure) ← releaseEach passOver rest
            return (released, failure.or (some error))
          else return ([], some error)

/-- `self.scheduler.abort_many(seq_ids)` after the release of the slots. -/
def abortReleased (seqIds : List ℕ) : Routine (AsyncScheduler Id Env) Unit := do
  let _ ← onScheduler (Scheduler.abortMany engine.oracle.resetPrefillExecutionState seqIds)
  write fun state => { state with history := { state.history with
    ended := state.history.ended ∪ seqIds.toFinset } }

/-- The handler of a failed model step. -/
def reclaimBatch (batch : ScheduleResult) : Routine (AsyncScheduler Id Env) Unit := do
  whenDo (batch.isPrefill = true) (write (putBack batch.seqs))
  let (reclaimed, _) ← releaseEach engine true batch.seqs
  abortReleased engine reclaimed

/-- `token_outputs` of one sequence: whether it is published. -/
def publishesSync (isPrefill : Bool) (seq : Sequence Id) : Except PyError Bool :=
  if seq.shouldPublishSample = false then .ok false
  else AsyncExecution.publishesRow isPrefill seq

/-- The release of the finished sequences of a batch. -/
def releaseFinished (batch : ScheduleResult) : Routine (AsyncScheduler Id Env) Unit := do
  let state ← read
  let (released, failure) ← releaseEach engine false
    (batch.seqs.filter fun seqId => decide ((state.seq seqId).status = .finished))
  abortReleased engine released
  match failure with
  | none => pure ()
  | some error => raise error

/-- The outputs of a synchronous step. -/
def noteOutputs (outputs : List (ℕ × ℤ)) (state : AsyncScheduler Id Env) :
    AsyncScheduler Id Env :=
  { state with history := { state.history with
    issued := state.history.issued ++ outputs
    sampled := state.history.sampled ++ outputs
    published := state.history.published ++ outputs } }

/-- `_step_sync`, with the tokens that the model samples. -/
def stepSync (sampled : ℕ → ℤ) : Routine (AsyncScheduler Id Env) Unit := do
  let batch ← onScheduler (Scheduler.schedule engine.config engine.oracle engine.callbacks)
  releasePreemptedSequences engine batch.preempted
  let state ← read
  if batch.seqs = [] then
    raiseIf (batch.preempted = [] ∧
        ¬ (state.scheduler.waiting = [] ∧ state.scheduler.decoding = []))
      (.runtimeError "Scheduler returned no runnable sequences and no preemptions")
  else do
    onError (runSync engine batch) (reclaimBatch engine batch)
    let state ← read
    let publishes ← ofExcept (batch.seqs.mapM fun seqId =>
      publishesSync batch.isPrefill (state.seq seqId))
    let outputs := ((batch.seqs.zip publishes).filter Prod.snd).map fun row =>
      (row.1, sampled row.1)
    onScheduler (Scheduler.postprocess engine.completePrefillExecution engine.callbacks.monotonic
      engine.eosTokenIds true batch.isPrefill (batch.seqs.map fun seqId => (seqId, sampled seqId)))
    write (noteOutputs outputs)
    releaseFinished engine batch

/-! ## Runs -/

/-- The test of `engine.step` and `admit_request`. -/
def requireReleased : Routine (AsyncScheduler Id Env) Unit := do
  raiseIf ((← read).pendingSlotReleases ≠ ∅)
    (.runtimeError "Cannot continue while cache release responsibility is pending")

/-- The `while` loop of `step`. -/
def submitLoop : ℕ → Routine (AsyncScheduler Id Env) Unit
  | 0 => pure ()
  | fuel + 1 => do
      if (← read).pending.length < engine.asyncMaxInflight then do
        if ← submit engine then submitLoop fuel else pure ()
      else pure ()

/-- `step`. -/
def step (sampled : ℕ → ℤ) : Routine (AsyncScheduler Id Env) Unit := do
  requireReleased
  submitLoop engine engine.asyncMaxInflight
  if (← read).pending.isEmpty then stepSync engine sampled else collect engine

/-- `abort`. -/
def abort (seqId : ℕ) : Routine (AsyncScheduler Id Env) Unit := do
  let before ← read
  let removed ← onScheduler
    (Scheduler.abortMany engine.oracle.resetPrefillExecutionState [seqId])
  write fun state => { state with history := { state.history with
    ended := if (state.history.requests seqId).isSome then insert seqId state.history.ended
      else state.history.ended
    -- what the request held is a matter of the state before the abort
    abortedHolding :=
      if before.scheduler.requestMayOwnSlots seqId = true ∨ seqId ∈ before.referenced then
        insert seqId state.history.abortedHolding
      else state.history.abortedHolding
    aborted := fun other =>
      if other = seqId ∧ (state.history.requests seqId).isSome then
        (state.history.aborted seqId).or (some (outputsOf seqId state.history.published))
      else state.history.aborted other } }
  whenDo ((removed.get? seqId).getD false = true ∨ seqId ∈ (← read).referenced)
    (write (discard seqId))
  drainDiscarded engine
  retireReady engine

/-- `admit_request`: every id is handed out once, and `max_tokens` is
positive. -/
def admitRequest (seqId : ℕ) (tokenIds : List ℤ) (maxTokens : ℤ) (ignoreEos : Bool)
    (eosTokenIds : List ℤ) : Routine (AsyncScheduler Id Env) Unit := do
  requireReleased
  raiseIf (maxTokens ≤ 0) (.valueError "max_tokens must be positive")
  whenDo ((← read).history.requests seqId = none) do
    let request := Sequence.new tokenIds maxTokens ignoreEos eosTokenIds
    write (setSeq seqId fun _ => request)
    write fun state => { state with history := { state.history with
      requests := Function.update state.history.requests seqId (some request) } }
    onScheduler (Scheduler.add engine.callbacks.monotonic seqId)

end

/-- The steps of a run.  `submit`, `collect` and `fallback` are the parts of
`step`, each of which may come at any time that allows it. -/
inductive Op (Env : Type) where
  | admitRequest (seqId : ℕ) (tokenIds : List ℤ) (maxTokens : ℤ) (ignoreEos : Bool)
      (eosTokenIds : List ℤ)
  | submit
  | collect
  | fallback (sampled : ℕ → ℤ)
  | step (sampled : ℕ → ℤ)
  | abort (seqId : ℕ)
  /-- Another part of the engine changes its own state. -/
  | elsewhere (env : Env)

section

variable (engine : AsyncEngine Id Env Key Resource)

/-- One step of a run. -/
def exec : Op Env → Routine (AsyncScheduler Id Env) Unit
  | .admitRequest seqId tokenIds maxTokens ignoreEos eosTokenIds =>
      admitRequest engine seqId tokenIds maxTokens ignoreEos eosTokenIds
  | .submit => do
      requireReleased
      let _ ← submit engine
  | .collect => do
      requireReleased
      collect engine
  | .fallback sampled => do
      requireReleased
      whenDo ((← read).pending.isEmpty = true) (stepSync engine sampled)
  | .step sampled => step engine sampled
  | .abort seqId => abort engine seqId
  | .elsewhere env => write fun state => { state with scheduler :=
      { state.scheduler with world := { state.scheduler.world with env := env } } }

/-- A run. -/
def run (start : AsyncScheduler Id Env) (ops : List (Op Env)) : AsyncScheduler Id Env :=
  ops.foldl (fun state op => (exec engine op).after state) start

end

/-- The engine before its first request. -/
def fresh (env : Env) (now : ℚ) : AsyncScheduler Id Env where
  scheduler :=
    { waiting := []
      decoding := []
      skippedPrefill := []
      phase := .prefill
      prefillWaitSince := Dict.empty
      phaseStartedAt := now
      phaseReason := "prefill_priority"
      admissionDeferWarnedSeqIds := ∅
      totalPreemptions := 0
      totalRecomputeReplays := 0
      asyncInflight := 0
      world := ⟨fun _ => Sequence.new [] 0 false [], env⟩ }
  execution := ⟨Dict.empty, Dict.empty, Dict.empty⟩
  pending := []
  retiring := ∅
  discarded := ∅
  nextTicket := 0
  pendingSlotReleases := ∅
  history :=
    { requests := fun _ => none
      submitted := []
      collected := []
      issued := []
      sampled := []
      published := []
      aborted := fun _ => none
      ended := ∅
      finished := ∅
      abortedHolding := ∅
      retired := fun _ => 0 }

end AsyncScheduler
