import SparseEngine.ChainCache.Engine

/-!
# The data-parallel front end

`DPAttentionEngine` of `dp_engine.py`: one front end over several workers,
each of them an `LLMEngine` with its own sequence ids.  The front end hands
out global ids, keeps which worker owns which request and which chain, and
translates the ids in what the workers report.  Every reply of a worker
carries a snapshot of its chains if the snapshot changed, and a chain that is
in no list of the snapshot any more is forgotten.

Workers run a call at a time, so a call is sent and answered in one go.
Routing loads, prefix snapshots, timeouts and log lines are left out. `issued`
is a history variable that the source does not have: the global id that the
last admission of a worker's sequence returned.
-/

open Routine

/-- A worker process: its engine and the snapshot it sent last. -/
structure DPWorker (Fingerprint Digest Env : Type) where
  engine : LLMEngine Fingerprint Digest Env
  previousChain : Option ChainRoutingSnapshot := none

/-- `DPAttentionEngine`. -/
structure DPAttentionEngine (Fingerprint Digest Env : Type) where
  workers : List (DPWorker Fingerprint Digest Env)
  closed : Bool := false
  owners : Dict ℕ (ℕ × ℕ) := .empty
  globalIds : Dict (ℕ × ℕ) ℕ := .empty
  chainOwners : Dict String ℕ := .empty
  chainSeqIds : Finset ℕ := ∅
  chainSequences : Dict String ℕ := .empty
  nextId : ℕ := 0
  active : ℕ → Finset ℕ := fun _ => ∅
  issued : Dict (ℕ × ℕ) ℕ := .empty

namespace DPAttentionEngine

variable {Fingerprint Digest Env : Type} {α : Type}

/-- A call of a method of the front end. -/
abbrev Method (Fingerprint Digest Env α : Type) :=
  Routine (DPAttentionEngine Fingerprint Digest Env) α

/-! ## Replies -/

/-- What a worker sends back: an error, or a result with the chain snapshot if
it changed. -/
abbrev Reply (α : Type) := Except PyError (α × Option ChainRoutingSnapshot)

/-- One call in `_worker_main`. -/
def serve (config : EngineConfig Fingerprint Digest Env)
    (method : LLMEngine.Method Fingerprint Digest Env α)
    (worker : DPWorker Fingerprint Digest Env) :
    Reply α × DPWorker Fingerprint Digest Env :=
  match method worker.engine with
  | (.error error, engine) => (.error error, { worker with engine := engine })
  | (.ok result, engine) =>
      match LLMEngine.chainCacheRoutingSnapshot config engine with
      | (.error error, engine) => (.error error, { worker with engine := engine })
      | (.ok chain, engine) =>
          (.ok (result, if some chain ≠ worker.previousChain then some chain else none),
            { engine := engine, previousChain := some chain })

/-- `_release_request_identity`. -/
def releaseRequestIdentity (seqId : ℕ) : Method Fingerprint Digest Env Unit :=
  write fun dp =>
    match dp.owners.get? seqId with
    | none => dp
    | some identity =>
        if seqId ∈ dp.chainSeqIds then dp
        else
          { dp with
            owners := dp.owners.erase seqId
            globalIds := dp.globalIds.erase identity }

/-- The chain ids that a snapshot knows. -/
def knownChainIds (chain : ChainRoutingSnapshot) : Finset String :=
  chain.activeChainIds ∪ chain.idleChainIds ∪ chain.tombstoneChainIds

/-- The chains of a worker that its snapshot does not know any more. -/
def expiredChains (dp : DPAttentionEngine Fingerprint Digest Env) (rank : ℕ)
    (chain : ChainRoutingSnapshot) : List String :=
  dp.chainOwners.keys.filter fun key =>
    dp.chainOwners.get? key = some rank ∧ key ∉ knownChainIds chain

/-- `for key in expired`. -/
def forgetChains : List String → Method Fingerprint Digest Env Unit
  | [] => pure ()
  | key :: rest => do
      let dp ← read
      write fun dp =>
        { dp with
          chainOwners := dp.chainOwners.erase key
          chainSequences := dp.chainSequences.erase key }
      (match dp.chainSequences.get? key with
        | none => pure ()
        | some seqId => do
            write fun dp => { dp with chainSeqIds := dp.chainSeqIds.erase seqId }
            releaseRequestIdentity seqId)
      forgetChains rest

/-- What `_receive` does with the snapshot of a reply. -/
def receiveSnapshot (rank : ℕ) : Option ChainRoutingSnapshot → Method Fingerprint Digest Env Unit
  | none => pure ()
  | some chain => do
      let dp ← read
      forgetChains (dp.expiredChains rank chain)

/-- `_call` of a method of one worker. -/
def callWorker (config : EngineConfig Fingerprint Digest Env) (rank : ℕ)
    (method : LLMEngine.Method Fingerprint Digest Env α) : Method Fingerprint Digest Env α := do
  let dp ← read
  raiseIf (dp.closed = true) (.runtimeError "DP attention engine is closed.")
  match dp.workers[rank]? with
  | none => raise (.keyError s!"{rank}")
  | some worker => do
      write fun dp => { dp with workers := dp.workers.set rank (serve config method worker).2 }
      let (result, chain) ← ofExcept (serve config method worker).1
      receiveSnapshot rank chain
      pure result

variable [DecidableEq Fingerprint] [DecidableEq Digest]
  (config : EngineConfig Fingerprint Digest Env)

/-! ## Admission -/

/-- `min(loads)`. -/
def minLoad (dp : DPAttentionEngine Fingerprint Digest Env) : ℕ :=
  ((List.range dp.workers.length).map fun rank => (dp.active rank).card).min?.getD 0

/-- The workers with the fewest active requests. -/
def candidates (dp : DPAttentionEngine Fingerprint Digest Env) : List ℕ :=
  (List.range dp.workers.length).filter fun rank => (dp.active rank).card = dp.minLoad

/-- `max(candidates, key=...)`: the first of the best. -/
def bestCandidate (matchedTokens : ℕ → ℕ) : List ℕ → Option ℕ
  | [] => none
  | rank :: rest =>
      match bestCandidate matchedTokens rest with
      | none => some rank
      | some other => some (if matchedTokens rank < matchedTokens other then other else rank)

/-- The worker a request goes to.  `matchedTokens` is what the candidates answer
to `prefix_cache_match` in radix mode. -/
def chooseRank (dp : DPAttentionEngine Fingerprint Digest Env) (chainId : String)
    (radixMode : Bool) (matchedTokens : ℕ → ℕ) : ℕ :=
  match dp.chainOwners.get? chainId with
  | some rank => rank
  | none =>
      if radixMode then (bestCandidate matchedTokens dp.candidates).getD 0
      else dp.candidates.headD 0

/-- The bookkeeping of `admit_request` after the worker's reply. -/
def registerAdmission (rank : ℕ) (admission : RequestAdmission) :
    Method Fingerprint Digest Env RequestAdmission := do
  let dp ← read
  let identity := (rank, admission.seqId)
  let seqId := (dp.globalIds.get? identity).getD dp.nextId
  whenDo (identity ∉ dp.globalIds.keys) (write fun dp =>
    { dp with
      nextId := dp.nextId + 1
      globalIds := dp.globalIds.set identity seqId
      owners := dp.owners.set seqId identity })
  write fun dp =>
    { dp with
      active := Function.update dp.active rank (insert seqId (dp.active rank))
      issued := dp.issued.set identity seqId }
  (match admission.chainId with
    | none => pure ()
    | some chainId => whenDo (chainId ≠ "") (write fun dp =>
        { dp with
          chainOwners := dp.chainOwners.set chainId rank
          chainSeqIds := insert seqId dp.chainSeqIds
          chainSequences := dp.chainSequences.set chainId seqId }))
  pure { admission with seqId := seqId }

/-- `admit_request`. -/
def admitRequest (request : AdmissionRequest) (radixMode : Bool) (matchedTokens : ℕ → ℕ)
    (freshId recreatedId : String) (addError : Option PyError) :
    Method Fingerprint Digest Env RequestAdmission := do
  let dp ← read
  let rank := dp.chooseRank request.chainId radixMode matchedTokens
  let admission ← callWorker config rank
    (LLMEngine.admitRequest config request freshId recreatedId addError)
  registerAdmission rank admission

/-! ## The end of a request -/

/-- `self._active[rank].discard(seq_id)`. -/
def discardActive (rank seqId : ℕ) : Method Fingerprint Digest Env Unit :=
  write fun dp => { dp with active := Function.update dp.active rank ((dp.active rank).erase seqId) }

/-- `self._chain_seq_ids.discard(seq_id)`. -/
def discardChainSeqId (seqId : ℕ) : Method Fingerprint Digest Env Unit :=
  write fun dp => { dp with chainSeqIds := dp.chainSeqIds.erase seqId }

/-- `abort_request`; the only disposition that a worker accepts is
`"invalidate"`. -/
def abortRequest (seqId : ℕ) : Method Fingerprint Digest Env Unit := do
  let dp ← read
  match dp.owners.get? seqId with
  | none => pure ()
  | some (rank, localId) => do
      callWorker config rank (LLMEngine.abortRequest config localId)
      discardActive rank seqId
      discardChainSeqId seqId
      releaseRequestIdentity seqId

/-- `discard_chain`. -/
def discardChain (chainId : String) (expectedSeqId : ℕ) :
    Method Fingerprint Digest Env Bool := do
  let dp ← read
  match dp.owners.get? expectedSeqId with
  | none => do
      raiseIf ((dp.chainSequences.get? chainId).getD expectedSeqId ≠ expectedSeqId)
        (chainError .ownerMismatch "Chain sequence identity does not match." (some chainId))
      pure false
  | some (rank, localId) => do
      raiseIf (dp.chainOwners.get? chainId ≠ some rank)
        (chainError .ownerMismatch "Chain belongs to a different DP replica." (some chainId))
      let result ← callWorker config rank (LLMEngine.discardChain config chainId localId)
      whenDo (result = true) (do
        discardActive rank expectedSeqId
        discardChainSeqId expectedSeqId
        releaseRequestIdentity expectedSeqId)
      pure result

/-- `invalidate_chain`. -/
def invalidateChain (chainId : String) : Method Fingerprint Digest Env Unit := do
  let dp ← read
  let rank := (dp.chainOwners.get? chainId).getD 0
  match dp.chainSequences.get? chainId with
  | none => callWorker config rank (LLMEngine.invalidateChain config chainId)
  | some seqId =>
      if seqId ∈ dp.owners.keys then do
        let _ ← discardChain config chainId seqId
      else callWorker config rank (LLMEngine.invalidateChain config chainId)

/-! ## A step of all workers -/

/-- The replies of the workers to `step`, in rank order. -/
def stepReplies (choices : ℕ → LLMEngine.StepChoice Env)
    (dp : DPAttentionEngine Fingerprint Digest Env) :
    List (Reply LLMEngine.StepReport × DPWorker Fingerprint Digest Env) :=
  dp.workers.mapIdx fun rank worker =>
    serve config (LLMEngine.stepSync config (choices rank)) worker

/-- The order in which the replies are received: `arrival` first, then the other
ranks. -/
def arrivalOrder (count : ℕ) (arrival : List ℕ) : List ℕ :=
  (arrival.dedup.filter fun rank => rank < count) ++
    (List.range count).filter fun rank => rank ∉ arrival

/-- `_receive` of the replies to `step`: the first error tears the group
down. -/
def receiveReplies (replies : List (Reply LLMEngine.StepReport)) :
    List ℕ → Method Fingerprint Digest Env Unit
  | [] => pure ()
  | rank :: rest =>
      match replies[rank]? with
      | none => raise (.keyError s!"{rank}")
      | some (.error error) => do
          write fun dp => { dp with closed := true }
          raise error
      | some (.ok (_, chain)) => do
          receiveSnapshot rank chain
          receiveReplies replies rest

/-- `translate`. -/
def translate (dp : DPAttentionEngine Fingerprint Digest Env) (rank : ℕ) :
    List (ℕ × List ℤ) → Except PyError (List (ℕ × List ℤ))
  | [] => .ok []
  | (localId, row) :: rest =>
      match dp.globalIds.get? (rank, localId) with
      | none => .error (.keyError s!"({rank}, {localId})")
      | some seqId => (dp.translate rank rest).map fun rows => (seqId, row) :: rows

/-- `for row in outputs`. -/
def retireOutputs (rank : ℕ) : List (ℕ × List ℤ) → Method Fingerprint Digest Env Unit
  | [] => pure ()
  | (seqId, _) :: rest => do
      discardActive rank seqId
      releaseRequestIdentity seqId
      retireOutputs rank rest

/-- The body of the loop of `step` over the records. -/
def translateReport (rank : ℕ) (report : LLMEngine.StepReport) :
    Method Fingerprint Digest Env LLMEngine.StepReport := do
  let dp ← read
  let outputs ← ofExcept (dp.translate rank report.outputs)
  let tokenOutputs ← ofExcept (dp.translate rank report.tokenOutputs)
  let promptCacheHits ← ofExcept (dp.translate rank report.promptCacheHits)
  let logprobOutputs ← ofExcept (dp.translate rank report.logprobOutputs)
  retireOutputs rank outputs
  pure
    { outputs := outputs
      tokenOutputs := tokenOutputs
      promptCacheHits := promptCacheHits
      logprobOutputs := logprobOutputs }

/-- The loop of `step` over the records, from a rank on. -/
def translateReports : ℕ → List (Reply LLMEngine.StepReport) →
    Method Fingerprint Digest Env (List LLMEngine.StepReport)
  | _, [] => pure []
  | rank, .error _ :: rest => translateReports (rank + 1) rest
  | rank, .ok (report, _) :: rest => do
      let translated ← translateReport rank report
      let others ← translateReports (rank + 1) rest
      pure (translated :: others)

/-- `step`: the translated reports in rank order, whose rows `step`
concatenates. -/
def step (choices : ℕ → LLMEngine.StepChoice Env) (arrival : List ℕ) :
    Method Fingerprint Digest Env (List LLMEngine.StepReport) := do
  let dp ← read
  raiseIf (dp.closed = true) (.runtimeError "DP attention engine is closed.")
  let replies := dp.stepReplies config choices
  write fun dp => { dp with workers := replies.map Prod.snd }
  receiveReplies (replies.map Prod.fst) (arrivalOrder replies.length arrival)
  translateReports 0 (replies.map Prod.fst)

end DPAttentionEngine
