import SparseEngine.ChainCache.Runtime

/-!
# The engine's requests

`LLMEngine.admit_request`, `abort_request`, `invalidate_chain`,
`discard_chain` and the end of a turn in `_step_sync`, as rank 0 runs them.  A
request is a sequence in the scheduler's queues; in chain mode it is also the
one writer of a chain, and the sequence id of a chain stays the same from turn
to turn.

Of the scheduler only the ids in its queues are kept here, and of a sequence
its tokens and its chain.  A step that finds nothing to run raises unless it
preempted something or nothing is queued.  Multimodal prompts, slot releases
that have to be retried, the completions a finished sequence carries,
throughput counts and log lines are left out.  The ids that `new_chain_id`
draws, the failures of `scheduler.add` and the choices of the scheduler and
the model are arguments.
-/

/-- A request in the engine. -/
structure EngineSequence where
  chainId : String
  tokenIds : List ℤ
  deriving DecidableEq, Repr

/-- `RequestAdmission.chain_status`. -/
inductive ChainStatus where
  | disabled
  | created
  | resumed
  | recreated
  deriving DecidableEq, Repr

/-- `RequestAdmission`. -/
structure RequestAdmission where
  seqId : ℕ
  chainId : Option String
  chainStatus : ChainStatus
  reusedTokens : ℤ
  prefilledTokens : ℤ
  promptTokenIds : List ℤ
  deriving DecidableEq, Repr

/-- The arguments of `admit_request`, the prompt tokenized and the chain id
stripped. -/
structure AdmissionRequest where
  tokenIds : List ℤ
  /-- Empty if the request names no chain. -/
  chainId : String := ""
  chainAppendOnly : Bool := false
  maxTokens : ℤ := 1
  deriving DecidableEq, Repr

/-- What the engine is configured with. -/
structure EngineConfig (Fingerprint Digest Env : Type) where
  sha : Sha256 Digest
  fingerprint : Fingerprint
  hooks : ChainHooks Fingerprint Digest Env
  /-- `_sync_tp_rpc_status` and `_sync_chain_cache_result`: raises if the call failed or
  returned something else on another rank. -/
  syncRanks : ChainHook Fingerprint Digest Env Unit
  /-- `resolved_prefix_cache_mode == "chain"`. -/
  chainMode : Bool
  maxModelLen : ℤ

/-- `LLMEngine`. -/
structure LLMEngine (Fingerprint Digest Env : Type) where
  runtime : ChainRuntime Fingerprint Digest Env
  activeChainSequences : Dict ℕ EngineSequence := .empty
  /-- `Sequence.chain_id`, which a sequence keeps when it leaves the registry. -/
  chainIds : ℕ → Option String := fun _ => none
  /-- The ids in `scheduler.waiting` and `scheduler.decoding`. -/
  queue : List ℕ := []
  /-- `Sequence.counter`. -/
  nextSeqId : ℕ := 0
  /-- Whether a call of `model_runner` has raised.  The engine itself keeps no such field: it
  tells the runs in which every call succeeded from the others. -/
  rpcFailed : Bool := false

namespace LLMEngine

open Routine ChainCacheIndex ChainRuntime

variable {Fingerprint Digest Env : Type}

/-- A call of a method of the engine. -/
abbrev Method (Fingerprint Digest Env α : Type) := Routine (LLMEngine Fingerprint Digest Env) α

/-- A call on the runtime state of rank 0. -/
def onRuntime {α : Type} (method : ChainRuntime.Method Fingerprint Digest Env α) :
    Method Fingerprint Digest Env α := fun engine =>
  match method engine.runtime with
  | (result, runtime) => (result, { engine with runtime := runtime })

variable (config : EngineConfig Fingerprint Digest Env)

/-- `model_runner.call`: rank 0 runs the method as the other ranks do, and a
failure on any of them raises here even if the method returned. -/
def broadcast {α : Type} (method : ChainRuntime.Method Fingerprint Digest Env α) :
    Method Fingerprint Digest Env α :=
  onError (do
      let result ← onRuntime method
      onRuntime (call config.syncRanks)
      pure result)
    (write fun engine => { engine with rpcFailed := true })

/-! ## Admission -/

/-- The record of the chain a request names. -/
def existingRecord (chainId : String) :
    Method Fingerprint Digest Env (Option (ChainRecord Fingerprint Digest)) :=
  if config.chainMode ∧ chainId ≠ "" then do
    let record ← onRuntime (onIndex (lookup chainId))
    pure (some record)
  else pure none

/-- The prompt of a request: an append-only request stands for the chain's
tokens and its own. -/
def requestPrompt (request : AdmissionRequest)
    (existing : Option (ChainRecord Fingerprint Digest)) : Except PyError (List ℤ) :=
  if request.chainAppendOnly then
    match existing with
    | none => .error (chainError .notFound "chain_append_only requires an existing chain."
        (if request.chainId = "" then none else some request.chainId))
    | some record =>
        if request.tokenIds = [] then
          .error (chainError .prefixMismatch
            "A chain append must contain at least one suffix token." (some request.chainId))
        else .ok (unpackTokenIds record.tokenIds ++ request.tokenIds)
  else .ok request.tokenIds

/-- `isinstance(exc, ChainPrefixMismatchError)`. -/
def isPrefixMismatch : PyError → Bool
  | .defined className _ _ => className = ChainErrorClass.prefixMismatch.className
  | _ => false

section Admission

variable [DecidableEq Fingerprint] [DecidableEq Digest]

/-- The plan of a request, with the id of its chain and whether the chain was
recreated.  A prompt that does not continue the chain it names replaces it by a
new chain. -/
def planRequest (request : AdmissionRequest) (existing : Option (ChainRecord Fingerprint Digest))
    (chainId recreatedId : String) (seqId : ℕ) (prompt : List ℤ) :
    Method Fingerprint Digest Env (ChainAdmissionPlan × String × Bool) :=
  catchWhen (fun error => isPrefixMismatch error && existing.isSome && !request.chainAppendOnly)
    (do
      let plan ← onRuntime (chainAdmissionPlan config.hooks config.sha config.fingerprint chainId
        seqId prompt)
      pure (plan, chainId, false))
    (fun _ => do
      broadcast config (chainInvalidate config.hooks chainId (existing.map ChainRecord.seqId))
      let plan ← onRuntime (chainAdmissionPlan config.hooks config.sha config.fingerprint
        recreatedId seqId prompt)
      pure (plan, recreatedId, true))

/-- The digest that rank 0 sends with a plan. -/
def sentDigest (plan : ChainAdmissionPlan) (chainId : String) :
    Method Fingerprint Digest Env Digest :=
  if plan.status = .resumed then do
    let record ← onRuntime (onIndex (lookup chainId))
    pure record.processedTokenDigest
  else onRuntime (ofExcept (stableTokenDigest config.sha [] (some 0)))

/-- `admit_request` in chain mode, from the plan on. -/
def admitChain (request : AdmissionRequest) (existing : Option (ChainRecord Fingerprint Digest))
    (chainId recreatedId : String) (seqId : ℕ) (prompt : List ℤ) (addError : Option PyError) :
    Method Fingerprint Digest Env RequestAdmission := do
  let (plan, admittedId, recreated) ←
    planRequest config request existing chainId recreatedId seqId prompt
  raiseIf (plan.status = .resumed ∧ (prompt.length : ℤ) ≤ plan.reusedTokens)
    (chainError .prefixMismatch
      ("A resumed chain request must include at least one suffix token " ++
        "beyond the processed boundary.") (some admittedId))
  let digest ← sentDigest config plan admittedId
  let _ ← broadcast config (chainValidateAdmissionPlan config.hooks config.sha config.fingerprint
    plan prompt.length digest)
  let _ ← broadcast config (chainApplyAdmission config.hooks config.sha config.fingerprint plan)
  (match addError with
    | some error => do
        broadcast config (chainInvalidate config.hooks admittedId (some seqId))
        raise error
    | none => pure ())
  write fun engine =>
    { engine with
      queue := engine.queue ++ [seqId]
      chainIds := Function.update engine.chainIds seqId (some admittedId)
      activeChainSequences := engine.activeChainSequences.set seqId ⟨admittedId, prompt⟩ }
  pure
    { seqId := seqId
      chainId := some admittedId
      chainStatus :=
        if recreated then .recreated
        else match plan.status with
          | .created => .created
          | .resumed => .resumed
      reusedTokens := plan.reusedTokens
      prefilledTokens := prompt.length - plan.reusedTokens
      promptTokenIds := prompt }

/-- `admit_request` in the other modes, after the sequence was built. -/
def admitPlain (request : AdmissionRequest) (seqId : ℕ) (prompt : List ℤ)
    (addError : Option PyError) : Method Fingerprint Digest Env RequestAdmission := do
  raiseIf (request.chainId ≠ "")
    (chainError .mode
      "chain_id requires enable_prefix_caching=True with prefix_cache_mode='chain'."
      (some request.chainId))
  (match addError with
    | some error => raise error
    | none => pure ())
  write fun engine => { engine with queue := engine.queue ++ [seqId] }
  pure
    { seqId := seqId
      chainId := none
      chainStatus := .disabled
      reusedTokens := 0
      prefilledTokens := prompt.length
      promptTokenIds := prompt }

/-- `admit_request`.  `freshId` and `recreatedId` are what `new_chain_id`
returns. -/
def admitRequest (request : AdmissionRequest) (freshId recreatedId : String)
    (addError : Option PyError) : Method Fingerprint Digest Env RequestAdmission := do
  let existing ← existingRecord config request.chainId
  let prompt ← ofExcept (requestPrompt request existing)
  raiseIf (config.maxModelLen < prompt.length + request.maxTokens)
    (.valueError ("Prompt length + max_tokens exceeds max_model_len: " ++
      s!"{prompt.length} + {request.maxTokens} > {config.maxModelLen}."))
  let engine ← read
  write fun engine => { engine with nextSeqId := engine.nextSeqId + 1 }
  if config.chainMode then
    admitChain config request existing (if request.chainId = "" then freshId else request.chainId)
      recreatedId ((existing.map ChainRecord.seqId).getD engine.nextSeqId) prompt addError
  else admitPlain request engine.nextSeqId prompt addError

end Admission

/-! ## The end of a request -/

/-- `scheduler.abort`. -/
def schedulerAbort (seqId : ℕ) : Method Fingerprint Digest Env Unit :=
  write fun engine => { engine with queue := engine.queue.filter fun other => other ≠ seqId }

/-- `self._active_chain_sequences.pop(seq_id, None)`. -/
def popActive (seqId : ℕ) : Method Fingerprint Digest Env Unit :=
  write fun engine =>
    { engine with activeChainSequences := engine.activeChainSequences.erase seqId }

/-- A sampled token was appended to a sequence. -/
def appendToken (seqId : ℕ) (token : ℤ) : Method Fingerprint Digest Env Unit :=
  write fun engine =>
    match engine.activeChainSequences.get? seqId with
    | none => engine
    | some sequence =>
        { engine with
          activeChainSequences := engine.activeChainSequences.set seqId
            { sequence with tokenIds := sequence.tokenIds ++ [token] } }

/-- What `_step_sync` does for a finished sequence. -/
def finishSequence [DecidableEq Digest] (seqId : ℕ) : Method Fingerprint Digest Env Unit := do
  let engine ← read
  match engine.activeChainSequences.get? seqId with
  | none => do
      broadcast config (call (config.hooks.freeSeqPayload seqId))
      schedulerAbort seqId
  | some sequence => do
      let processedTokenCount := max 0 ((sequence.tokenIds.length : ℤ) - 1)
      let prepared ← onRuntime (onIndex (ChainCacheCoordinator.prepareProcessedTokens config.sha
        sequence.chainId seqId sequence.tokenIds processedTokenCount))
      let _ ← broadcast config (chainFinish config.hooks config.sha prepared.chainId
        prepared.seqId prepared.processedTokenDigest prepared.processedTokenCount)
      let _ ← onRuntime (onIndex (ChainCacheCoordinator.rememberPreparedTokens prepared))
      popActive seqId
      schedulerAbort seqId

/-- What `_step_sync` does for a sequence of a batch on which the model
failed. -/
def reclaimFailed (seqId : ℕ) : Method Fingerprint Digest Env Unit := do
  let engine ← read
  (match engine.activeChainSequences.get? seqId with
    | none => broadcast config (call (config.hooks.freeSeqPayload seqId))
    | some sequence =>
        broadcast config (chainInvalidate config.hooks sequence.chainId (some seqId)))
  popActive seqId
  schedulerAbort seqId

/-- `abort_request`. -/
def abortRequest (seqId : ℕ) : Method Fingerprint Digest Env Unit := do
  let engine ← read
  match engine.activeChainSequences.get? seqId with
  | some sequence => do
      broadcast config (chainInvalidate config.hooks sequence.chainId (some seqId))
      schedulerAbort seqId
      popActive seqId
  | none =>
      match engine.runtime.index.seqIdToChainId.get? seqId with
      | some chainId => do
          broadcast config (chainInvalidate config.hooks chainId (some seqId))
          schedulerAbort seqId
      | none => do
          broadcast config (call (config.hooks.freeSeqPayload seqId))
          schedulerAbort seqId

/-- `invalidate_chain`. -/
def invalidateChain (chainId : String) : Method Fingerprint Digest Env Unit := do
  raiseIf (config.chainMode = false)
    (chainError .mode "Chain prefix cache is not enabled." (some chainId))
  let record ← onRuntime (onIndex (lookup chainId))
  popActive record.seqId
  broadcast config (chainInvalidate config.hooks chainId (some record.seqId))

/-- `discard_chain`. -/
def discardChain (chainId : String) (expectedSeqId : ℕ) :
    Method Fingerprint Digest Env Bool := do
  raiseIf (config.chainMode = false)
    (chainError .mode "Chain prefix cache is not enabled." (some chainId))
  let engine ← read
  match engine.runtime.index.records.get? chainId with
  | none => pure false
  | some record => do
      raiseIf (record.seqId ≠ expectedSeqId)
        (chainError .ownerMismatch
          (s!"Chain owner mismatch for {reprChainId chainId}: " ++
            s!"resident_seq_id={record.seqId}, expected_seq_id={expectedSeqId}.") (some chainId))
      schedulerAbort record.seqId
      popActive record.seqId
      broadcast config (chainInvalidate config.hooks chainId (some record.seqId))
      pure true

/-! ## A step -/

/-- What `_step_sync` finds out while it runs: the idle chains that the
scheduler gives up, whether it preempts a sequence, the batch it picks, the work
of the model, and the sampled tokens. -/
structure StepChoice (Env : Type) where
  reclaims : List (String × ℕ × Bool) := []
  preempts : Bool := false
  batch : List ℕ := []
  isPrefill : Bool := false
  work : Env → Env := id
  runError : Option PyError := none
  /-- Whether a prefill step has the last chunk of the prompt of a sequence. -/
  isLastChunk : ℕ → Bool := fun _ => true
  prefixCacheHitLen : ℕ → ℤ := fun _ => 0
  sample : ℕ → Option ℤ := fun _ => none
  isFinished : ℕ → Bool := fun _ => false

/-- The rows a step reports, each with the sequence it is about.  The log
probabilities themselves are left out. -/
structure StepReport where
  outputs : List (ℕ × List ℤ)
  tokenOutputs : List (ℕ × List ℤ)
  promptCacheHits : List (ℕ × List ℤ)
  logprobOutputs : List (ℕ × List ℤ)
  deriving DecidableEq, Repr

/-- `chain_reclaim_idle` for the chains the scheduler gives up. -/
def reclaimAll : List (String × ℕ × Bool) → Method Fingerprint Digest Env Unit
  | [] => pure ()
  | (chainId, seqId, demote) :: rest => do
      broadcast config (chainReclaimIdle config.hooks chainId seqId demote)
      reclaimAll rest

/-- The cleanup after a failed model run.  A failed cleanup is logged and passed
over. -/
def reclaimBatch : List ℕ → Method Fingerprint Digest Env Unit
  | [] => pure ()
  | seqId :: rest => do
      ignoring (reclaimFailed config seqId)
      reclaimBatch rest

/-- `on_forward_end` for the chains whose prefill is complete. -/
def clearAll : List String → Method Fingerprint Digest Env Unit
  | [] => pure ()
  | chainId :: rest => do
      onRuntime (clearReservation chainId)
      clearAll rest

/-- `scheduler.postprocess`. -/
def appendAll (sample : ℕ → Option ℤ) : List ℕ → Method Fingerprint Digest Env Unit
  | [] => pure ()
  | seqId :: rest => do
      (match sample seqId with
        | some token => appendToken seqId token
        | none => pure ())
      appendAll sample rest

/-- The end of the finished sequences of a batch. -/
def finishAll [DecidableEq Digest] : List ℕ → Method Fingerprint Digest Env Unit
  | [] => pure ()
  | seqId :: rest => do
      finishSequence config seqId
      finishAll rest

/-- The token row of a sequence of the batch. -/
def tokenRow (sample : ℕ → Option ℤ) (seqId : ℕ) : Option (ℕ × List ℤ) :=
  (sample seqId).map fun token => (seqId, [token])

/-- `_step_sync`.  The batch is drawn from the scheduler's queues. -/
def stepSync [DecidableEq Digest] (choice : StepChoice Env) :
    Method Fingerprint Digest Env StepReport := do
  let engine ← read
  let batch := choice.batch.filter fun seqId => seqId ∈ engine.queue
  reclaimAll config choice.reclaims
  write fun engine => { engine with runtime.env := choice.work engine.runtime.env }
  if batch = [] then do
    raiseIf (choice.preempts = false ∧ engine.queue ≠ [])
      (.runtimeError "Scheduler returned no runnable sequences and no preemptions")
    pure { outputs := [], tokenOutputs := [], promptCacheHits := [], logprobOutputs := [] }
  else do
    (match choice.runError with
      | some error => do
          reclaimBatch config batch
          raise error
      | none => pure ())
    clearAll
      (if choice.isPrefill then (batch.filter choice.isLastChunk).filterMap engine.chainIds else [])
    appendAll choice.sample batch
    let finished := batch.filter choice.isFinished
    finishAll config finished
    pure
      { outputs := finished.map fun seqId => (seqId, [])
        tokenOutputs := batch.filterMap (tokenRow choice.sample)
        promptCacheHits :=
          if choice.isPrefill then
            batch.map fun seqId => (seqId, [choice.prefixCacheHitLen seqId])
          else []
        logprobOutputs := (batch.filterMap (tokenRow choice.sample)).map fun row => (row.1, []) }

/-- `chain_cache_routing_snapshot`. -/
def chainCacheRoutingSnapshot : Method Fingerprint Digest Env ChainRoutingSnapshot :=
  if config.chainMode then onRuntime (onIndex routingSnapshot)
  else pure { enabled := false }

end LLMEngine
