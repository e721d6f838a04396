import SparseEngine.DataParallel.Identity
import SparseEngine.ChainCache.Resumption

/-!
# Runs of the data-parallel front end

Requests are admitted, aborted, discarded and stepped in any order, over
workers whose hooks may answer or raise anything.  The two tables of
identities are inverse in every run.  Every sequence that a worker can still
report keeps the global id its admission returned in every run whose replies
never drop a chain that shares its global id with an active request.
-/

open Routine

namespace DPAttentionEngine

variable {Fingerprint Digest Env : Type} {α : Type}
  {dp : DPAttentionEngine Fingerprint Digest Env} (config : EngineConfig Fingerprint Digest Env)

/-! ## The tables in every run -/

theorem tables_releaseRequestIdentity (seqId : ℕ) :
    Maintains Tables (releaseRequestIdentity seqId : Method Fingerprint Digest Env _) := by
  refine .write fun dp h => ?_
  cases howner : dp.owners.get? seqId with
  | none => exact h
  | some identity =>
      dsimp only
      split
      · exact h
      · exact h.release howner

theorem tables_forgetChains (chainIds : List String) :
    Maintains Tables (forgetChains chainIds : Method Fingerprint Digest Env _) := by
  induction chainIds with
  | nil => exact .pure _
  | cons chainId rest ih =>
      unfold forgetChains
      refine .bind .read fun dp => .bind (.write fun _ h => ⟨h.inverse, h.fresh⟩) fun _ =>
        .bind ?_ fun _ => ih
      cases dp.chainSequences.get? chainId with
      | none => exact .pure _
      | some seqId =>
          exact .bind (.write fun _ h => ⟨h.inverse, h.fresh⟩) fun _ =>
            tables_releaseRequestIdentity seqId

theorem tables_receiveSnapshot (rank : ℕ) (chain : Option ChainRoutingSnapshot) :
    Maintains Tables (receiveSnapshot rank chain : Method Fingerprint Digest Env _) := by
  cases chain with
  | none => exact .pure _
  | some snapshot => exact .bind .read fun _ => tables_forgetChains _

theorem tables_callWorker (rank : ℕ) (method : LLMEngine.Method Fingerprint Digest Env α) :
    Maintains Tables (callWorker config rank method) := by
  unfold callWorker
  refine .bind .read fun dp => .bind (.raiseIf _ _) fun _ => ?_
  cases dp.workers[rank]? with
  | none => exact .raise _
  | some worker =>
      refine .bind (.write fun _ h => ⟨h.inverse, h.fresh⟩) fun _ => .bind (.ofExcept _) fun reply => ?_
      exact .bind (tables_receiveSnapshot rank reply.2) fun _ => .pure _

theorem tables_endRequest (rank seqId : ℕ) :
    Maintains Tables (do
      discardActive rank seqId
      discardChainSeqId seqId
      releaseRequestIdentity seqId : Method Fingerprint Digest Env Unit) :=
  .bind (.write fun _ h => ⟨h.inverse, h.fresh⟩) fun _ =>
    .bind (.write fun _ h => ⟨h.inverse, h.fresh⟩) fun _ => tables_releaseRequestIdentity seqId

theorem tables_registerAdmission (rank : ℕ) (admission : RequestAdmission) :
    Maintains Tables (registerAdmission rank admission : Method Fingerprint Digest Env _) := by
  intro dp h
  have hmaps : Maps (fun _ _ => False) dp := ⟨h, fun hfalse => hfalse.elim⟩
  exact wpe_imp (registerAdmission_wpe hmaps rank admission) (fun _ _ hnext => hnext.1.tables)
    fun _ hfalse => hfalse.elim

theorem tables_abortRequest (seqId : ℕ) : Maintains Tables (abortRequest config seqId) := by
  unfold abortRequest
  refine .bind .read fun dp => ?_
  cases dp.owners.get? seqId with
  | none => exact .pure _
  | some identity =>
      exact .bind (tables_callWorker config _ _) fun _ => tables_endRequest _ _

theorem tables_discardChain (chainId : String) (expectedSeqId : ℕ) :
    Maintains Tables (discardChain config chainId expectedSeqId) := by
  unfold discardChain
  refine .bind .read fun dp => ?_
  cases dp.owners.get? expectedSeqId with
  | none => exact .bind (.raiseIf _ _) fun _ => .pure _
  | some identity =>
      refine .bind (.raiseIf _ _) fun _ => .bind (tables_callWorker config _ _) fun _ => ?_
      exact .bind (.whenDo (tables_endRequest _ _)) fun _ => .pure _

theorem tables_invalidateChain (chainId : String) :
    Maintains Tables (invalidateChain config chainId) := by
  unfold invalidateChain
  refine .bind .read fun dp => ?_
  cases dp.chainSequences.get? chainId with
  | none => exact tables_callWorker config _ _
  | some seqId =>
      refine .ite ?_ (tables_callWorker config _ _)
      exact .bind (tables_discardChain config _ _) fun _ => .pure _

theorem tables_receiveReplies (replies : List (Reply LLMEngine.StepReport)) (order : List ℕ) :
    Maintains Tables (receiveReplies replies order : Method Fingerprint Digest Env _) := by
  induction order with
  | nil => exact .pure _
  | cons rank rest ih =>
      unfold receiveReplies
      rcases replies[rank]? with _ | error | ⟨report, chain⟩
      · exact .raise _
      · exact .bind (.write fun _ h => ⟨h.inverse, h.fresh⟩) fun _ => .raise _
      · exact .bind (tables_receiveSnapshot rank chain) fun _ => ih

theorem tables_retireOutputs (rank : ℕ) (outputs : List (ℕ × List ℤ)) :
    Maintains Tables (retireOutputs rank outputs : Method Fingerprint Digest Env _) := by
  induction outputs with
  | nil => exact .pure _
  | cons out rest ih =>
      unfold retireOutputs
      exact .bind (.write fun _ h => ⟨h.inverse, h.fresh⟩) fun _ =>
        .bind (tables_releaseRequestIdentity _) fun _ => ih

theorem tables_translateReports (rank : ℕ) (replies : List (Reply LLMEngine.StepReport)) :
    Maintains Tables (translateReports rank replies : Method Fingerprint Digest Env _) := by
  induction replies generalizing rank with
  | nil => exact .pure _
  | cons reply rest ih =>
      rcases reply with error | ⟨report, chain⟩
      · exact ih (rank + 1)
      · unfold translateReports
        refine .bind ?_ fun _ => .bind (ih (rank + 1)) fun _ => .pure _
        unfold translateReport
        refine .bind .read fun dp => .bind (.ofExcept _) fun outputs => ?_
        refine .bind (.ofExcept _) fun _ => .bind (.ofExcept _) fun _ => ?_
        exact .bind (.ofExcept _) fun _ => .bind (tables_retireOutputs rank outputs) fun _ => .pure _

/-! ## Runs -/

/-- A call of the front end, with what it finds out while it runs. -/
inductive DPOp (Env : Type) where
  | admission (request : AdmissionRequest) (radixMode : Bool) (matchedTokens : ℕ → ℕ)
      (freshId recreatedId : String) (addError : Option PyError)
  | abort (seqId : ℕ)
  | discard (chainId : String) (expectedSeqId : ℕ)
  | invalidate (chainId : String)
  | step (choices : ℕ → LLMEngine.StepChoice Env) (arrival : List ℕ)

variable [DecidableEq Fingerprint] [DecidableEq Digest]

def DPOp.action : DPOp Env → Method Fingerprint Digest Env Unit
  | .admission request radixMode matchedTokens freshId recreatedId addError => do
      let _ ← admitRequest config request radixMode matchedTokens freshId recreatedId addError
  | .abort seqId => abortRequest config seqId
  | .discard chainId expectedSeqId => do
      let _ ← discardChain config chainId expectedSeqId
  | .invalidate chainId => invalidateChain config chainId
  | .step choices arrival => do
      let _ ← DPAttentionEngine.step config choices arrival

/-- A run from a state, whether its calls return or raise. -/
def runOps (dp : DPAttentionEngine Fingerprint Digest Env) (ops : List (DPOp Env)) :
    DPAttentionEngine Fingerprint Digest Env :=
  ops.foldl (fun dp op => (op.action config).after dp) dp

theorem tables_action (op : DPOp Env) :
    Maintains Tables (op.action config : Method Fingerprint Digest Env _) := by
  cases op with
  | admission request radixMode matchedTokens freshId recreatedId addError =>
      refine .bind ?_ fun _ => .pure _
      unfold admitRequest
      exact .bind .read fun _ => .bind (tables_callWorker config _ _) fun _ =>
        tables_registerAdmission _ _
  | abort seqId => exact tables_abortRequest config seqId
  | discard chainId expectedSeqId =>
      exact .bind (tables_discardChain config chainId expectedSeqId) fun _ => .pure _
  | invalidate chainId => exact tables_invalidateChain config chainId
  | step choices arrival =>
      refine .bind ?_ fun _ => .pure _
      unfold DPAttentionEngine.step
      refine .bind .read fun _ => .bind (.raiseIf _ _) fun _ => ?_
      refine .bind (.write fun _ h => ⟨h.inverse, h.fresh⟩) fun _ => ?_
      exact .bind (tables_receiveReplies _ _) fun _ => tables_translateReports _ _

theorem tables_runOps (h : Tables dp) (ops : List (DPOp Env)) : Tables (dp.runOps config ops) := by
  induction ops generalizing dp with
  | nil => exact h
  | cons op rest ih => exact ih (after_of_wpe (tables_action config op dp h))

/-- The worker of that rank sends the snapshot in reply to the call. -/
def DPOp.Replies (dp : DPAttentionEngine Fingerprint Digest Env) (rank : ℕ)
    (chain : ChainRoutingSnapshot) : DPOp Env → Prop
  | .admission request radixMode matchedTokens freshId recreatedId addError =>
      rank = dp.chooseRank request.chainId radixMode matchedTokens ∧
        dp.replyTo config rank
          (LLMEngine.admitRequest config request freshId recreatedId addError) = some chain
  | .abort seqId =>
      ∃ localId, dp.owners.get? seqId = some (rank, localId) ∧
        dp.replyTo config rank (LLMEngine.abortRequest config localId) = some chain
  | .discard chainId expectedSeqId =>
      ∃ localId, dp.owners.get? expectedSeqId = some (rank, localId) ∧
        dp.chainOwners.get? chainId = some rank ∧
        dp.replyTo config rank (LLMEngine.discardChain config chainId localId) = some chain
  | .invalidate chainId =>
      (∃ seqId localId, dp.chainSequences.get? chainId = some seqId ∧
        dp.owners.get? seqId = some (rank, localId) ∧
        dp.chainOwners.get? chainId = some rank ∧
        dp.replyTo config rank (LLMEngine.discardChain config chainId localId) = some chain) ∨
      ((∀ seqId ∈ dp.chainSequences.get? chainId, seqId ∉ dp.owners.keys) ∧
        rank = (dp.chainOwners.get? chainId).getD 0 ∧
        dp.replyTo config rank (LLMEngine.invalidateChain config chainId) = some chain)
  | .step choices _ => dp.closed = false ∧ ∃ report,
      ((dp.stepReplies config choices).map Prod.fst)[rank]? = some (.ok (report, some chain))

/-- No reply to the call drops a chain whose global id belongs to an active
request. -/
def DPOp.Keeps (dp : DPAttentionEngine Fingerprint Digest Env) (op : DPOp Env) : Prop :=
  ∀ rank chain, op.Replies config dp rank chain → dp.KeepsActive rank chain

/-- Every call of the run keeps the active requests. -/
def KeepsRun (dp : DPAttentionEngine Fingerprint Digest Env) : List (DPOp Env) → Prop
  | [] => True
  | op :: rest => op.Keeps config dp ∧ KeepsRun ((op.action config).after dp) rest

/-- One call keeps every queued sequence identified. -/
theorem action_identified (h : Identified dp) (op : DPOp Env) (hkeeps : op.Keeps config dp) :
    Identified ((op.action config).after dp) := by
  apply after_of_wpe
  cases op with
  | admission request radixMode matchedTokens freshId recreatedId addError =>
      unfold DPOp.action
      rw [wpe_bind]
      exact admitRequest_identified config h request radixMode matchedTokens freshId recreatedId
        addError fun snapshot hreply => hkeeps _ snapshot ⟨rfl, hreply⟩
  | abort seqId =>
      exact abortRequest_identified config h seqId fun rank localId howner snapshot hreply =>
        hkeeps rank snapshot ⟨localId, howner, hreply⟩
  | discard chainId expectedSeqId =>
      unfold DPOp.action
      rw [wpe_bind]
      exact discardChain_identified config h chainId expectedSeqId
        fun rank localId howner hrank snapshot hreply =>
          hkeeps rank snapshot ⟨localId, howner, hrank, hreply⟩
  | invalidate chainId =>
      show wpe (invalidateChain config chainId) _ _ dp
      unfold invalidateChain
      rw [wpe_get]
      dsimp only
      cases hseq : dp.chainSequences.get? chainId with
      | none =>
          refine invalidateWorker_identified config h chainId _ fun snapshot hreply => ?_
          exact hkeeps _ snapshot (.inr ⟨by simp [hseq], rfl, hreply⟩)
      | some seqId =>
          dsimp only
          rw [wpe_ite]
          refine ⟨fun _ => ?_, fun hunowned => ?_⟩
          · rw [wpe_bind]
            exact discardChain_identified config h chainId seqId
              fun rank localId howner hrank snapshot hreply =>
                hkeeps rank snapshot (.inl ⟨seqId, localId, hseq, howner, hrank, hreply⟩)
          · refine invalidateWorker_identified config h chainId _ fun snapshot hreply => ?_
            exact hkeeps _ snapshot (.inr ⟨by simpa [hseq] using hunowned, rfl, hreply⟩)
  | step choices arrival =>
      unfold DPOp.action
      refine wpe_then_imp (step_wpe config h choices arrival fun hopen rank report chain hreply => ?_)
        (fun _ _ hnext => hnext.1) fun _ hnext => hnext.1
      exact hkeeps rank chain ⟨hopen, report, hreply⟩

theorem runOps_identified (h : Identified dp) (ops : List (DPOp Env))
    (hkeeps : KeepsRun config dp ops) : Identified (dp.runOps config ops) := by
  induction ops generalizing dp with
  | nil => exact h
  | cons op rest ih => exact ih (action_identified config h op hkeeps.1) hkeeps.2

/-- A front end after startup: no request is queued yet, and nothing is
registered. -/
structure Starts (dp : DPAttentionEngine Fingerprint Digest Env) : Prop where
  queues : ∀ worker ∈ dp.workers, worker.engine.queue = []
  owners : dp.owners = .empty
  globalIds : dp.globalIds = .empty

omit [DecidableEq Fingerprint] [DecidableEq Digest] in
theorem Starts.identified (h : Starts dp) : Identified dp := by
  refine ⟨⟨fun seqId identity => ?_, fun {seqId identity} hget => ?_⟩, fun {rank localId} hlive => ?_⟩
  · rw [h.owners, h.globalIds]
    simp
  · rw [h.owners] at hget
    cases hget
  · obtain ⟨worker, hworker, hmem⟩ := hlive
    rw [h.queues worker (List.mem_of_getElem? hworker)] at hmem
    cases hmem

/-- **Request identities.** In every run the two tables are inverse.  In every
run that keeps its active requests, every sequence that a worker can still
report has the global id that its admission returned, and a step whose replies
do so too raises only if the front end is closed or a worker failed, and
otherwise attributes every row to that id. -/
theorem request_identities_kept (hstart : Starts dp) (ops : List (DPOp Env)) :
    (∀ seqId identity, (dp.runOps config ops).owners.get? seqId = some identity ↔
      (dp.runOps config ops).globalIds.get? identity = some seqId) ∧
    (KeepsRun config dp ops →
      (∀ rank localId, (dp.runOps config ops).Queued rank localId →
        (dp.runOps config ops).Mapped rank localId) ∧
      ∀ choices arrival, (DPOp.step choices arrival).Keeps config (dp.runOps config ops) →
        match (step config choices arrival (dp.runOps config ops)).1 with
        | .ok results => Attributes (dp.runOps config ops).issued 0
            (((dp.runOps config ops).stepReplies config choices).map Prod.fst) results
        | .error _ => (dp.runOps config ops).closed = true ∨
            ∃ error, .error error ∈
              ((dp.runOps config ops).stepReplies config choices).map Prod.fst) := by
  refine ⟨(tables_runOps config hstart.identified.tables ops).inverse, fun hkeeps => ?_⟩
  have hidentified := runOps_identified config hstart.identified ops hkeeps
  refine ⟨fun rank localId hqueued => hidentified.mapped hqueued, ?_⟩
  intro choices arrival hstep
  have hspec := step_wpe config hidentified choices arrival fun hopen rank report chain hreply =>
    hstep rank chain ⟨hopen, report, hreply⟩
  rw [wpe_def] at hspec
  rcases hrun : (step config choices arrival (dp.runOps config ops)).1 with error | results
  · rw [hrun] at hspec
    exact hspec.2
  · rw [hrun] at hspec
    exact hspec.2

/-! ## A replaced chain that expires -/

/-- A worker with room for one tombstone. -/
def idleWorker : DPWorker Unit (Option (List UInt8)) Unit where
  engine := { runtime := { index := { maxTombstones := 1, maxTokenHistoryTokens := none }, env := () } }
  previousChain := some { enabled := true }

def twoWorkers : DPAttentionEngine Unit (Option (List UInt8)) Unit where
  workers := [idleWorker, idleWorker]

/-- Every worker prefills its sequence 0 and samples a token; the first one
finishes it if told to. -/
def stepFirst (finish : Bool) (rank : ℕ) : LLMEngine.StepChoice Unit where
  batch := [0]
  isPrefill := true
  sample := fun _ => some 3
  isFinished := fun _ => finish && rank = 0

def chainRequest (tokenIds : List ℤ) (chainId freshId recreatedId : String) : DPOp Unit :=
  .admission { tokenIds := tokenIds, chainId := chainId } false (fun _ => 0) freshId recreatedId
    none

/-- A chain is finished and then replaced after a prefix mismatch; its successor
is active when the tombstone of a third chain pushes out that of the first. -/
def expiringRun : List (DPOp Unit) :=
  [chainRequest [1, 2] "" "chain_a" "unused", .step (stepFirst true) [],
    chainRequest [9] "chain_a" "unused" "chain_b", chainRequest [1] "" "chain_d" "unused",
    chainRequest [1] "" "chain_c" "unused", .discard "chain_c" 2]

/-- The active successor loses its identity, and the next step raises a
`KeyError` although no worker failed. -/
theorem successor_loses_identity :
    ((twoWorkers.runOps LLMEngine.roomyConfig expiringRun).workers[0]?.map fun worker =>
      worker.engine.queue) = some [0] ∧
    (twoWorkers.runOps LLMEngine.roomyConfig expiringRun).globalIds.get? (0, 0) = none ∧
    (twoWorkers.runOps LLMEngine.roomyConfig expiringRun).closed = false ∧
    (match (step LLMEngine.roomyConfig (stepFirst false) []
        (twoWorkers.runOps LLMEngine.roomyConfig expiringRun)).1 with
      | .error (.keyError _) => true
      | _ => false) = true := by
  decide +kernel

theorem twoWorkers_starts : Starts twoWorkers := by
  refine ⟨fun worker hmem => ?_, rfl, rfl⟩
  simp only [twoWorkers, List.mem_cons, List.not_mem_nil, or_false, or_self] at hmem
  rw [hmem]
  rfl

/-- The first request of a run has the id that its admission returned. -/
theorem first_request_identified :
    (twoWorkers.runOps LLMEngine.roomyConfig [chainRequest [1, 2] "" "chain_a" "unused"]).Mapped
      0 0 := by
  have hkept := request_identities_kept LLMEngine.roomyConfig twoWorkers_starts
    [chainRequest [1, 2] "" "chain_a" "unused"]
  refine (hkept.2 ⟨fun rank chain _ chainId hexpired => ?_, trivial⟩).1 0 0 ?_
  · -- no chain is registered yet
    exact nomatch hexpired
  · have hqueue : ((twoWorkers.runOps LLMEngine.roomyConfig
        [chainRequest [1, 2] "" "chain_a" "unused"]).workers[0]?.map fun worker =>
          worker.engine.queue) = some [0] := by decide +kernel
    obtain ⟨worker, hworker, hmem⟩ := Option.map_eq_some_iff.mp hqueue
    exact ⟨worker, hworker, by rw [hmem]; simp⟩

end DPAttentionEngine
