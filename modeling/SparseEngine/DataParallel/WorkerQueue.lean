import SparseEngine.DataParallel.Model
import SparseEngine.ChainCache.Turns

/-!
# What a worker can still report

The sequences that a worker reports in a step are those in its scheduler's
queues.  A queue grows by the sequence of an admission that returns, and every
other call of a worker shrinks it or leaves it alone, whatever the hooks do
and wherever it raises.
-/

open Routine

namespace LLMEngine

open ChainCacheIndex ChainRuntime

variable {Fingerprint Digest Env : Type} {α : Type} (config : EngineConfig Fingerprint Digest Env)

/-! ## Calls that leave the queue alone -/

theorem preserves_onRuntime (method : ChainRuntime.Method Fingerprint Digest Env α) :
    Preserves LLMEngine.queue (onRuntime method) := fun _ => rfl

theorem preserves_broadcast (method : ChainRuntime.Method Fingerprint Digest Env α) :
    Preserves LLMEngine.queue (broadcast config method) :=
  .onError (.bind (preserves_onRuntime _) fun _ => .bind (preserves_onRuntime _) fun _ => .pure _)
    (.write fun _ => rfl)

theorem preserves_popActive (seqId : ℕ) :
    Preserves LLMEngine.queue (popActive seqId : Method Fingerprint Digest Env _) := fun _ => rfl

theorem preserves_appendToken (seqId : ℕ) (token : ℤ) :
    Preserves LLMEngine.queue (appendToken seqId token : Method Fingerprint Digest Env _) := by
  refine .write fun engine => ?_
  cases engine.activeChainSequences.get? seqId with
  | none => rfl
  | some sequence => rfl

theorem preserves_existingRecord (chainId : String) :
    Preserves LLMEngine.queue (existingRecord config chainId) :=
  .ite (.bind (preserves_onRuntime _) fun _ => .pure _) (.pure _)

theorem preserves_sentDigest (plan : ChainAdmissionPlan) (chainId : String) :
    Preserves LLMEngine.queue (sentDigest config plan chainId) :=
  .ite (.bind (preserves_onRuntime _) fun _ => .pure _) (preserves_onRuntime _)

theorem preserves_invalidateChain (chainId : String) :
    Preserves LLMEngine.queue (invalidateChain config chainId) :=
  .bind (.raiseIf _ _) fun _ => .bind (preserves_onRuntime _) fun _ =>
    .bind (preserves_popActive _) fun _ => preserves_broadcast config _

theorem preserves_reclaimAll (reclaims : List (String × ℕ × Bool)) :
    Preserves LLMEngine.queue (reclaimAll config reclaims) := by
  induction reclaims with
  | nil => exact .pure _
  | cons reclaim rest ih => exact .bind (preserves_broadcast config _) fun _ => ih

theorem preserves_clearAll (chainIds : List String) :
    Preserves LLMEngine.queue (clearAll chainIds : Method Fingerprint Digest Env _) := by
  induction chainIds with
  | nil => exact .pure _
  | cons chainId rest ih => exact .bind (preserves_onRuntime _) fun _ => ih

theorem preserves_appendAll (sample : ℕ → Option ℤ) (seqIds : List ℕ) :
    Preserves LLMEngine.queue (appendAll sample seqIds : Method Fingerprint Digest Env _) := by
  induction seqIds with
  | nil => exact .pure _
  | cons seqId rest ih =>
      unfold appendAll
      refine .bind ?_ fun _ => ih
      cases sample seqId with
      | none => exact .pure _
      | some token => exact preserves_appendToken seqId token

theorem preserves_chainCacheRoutingSnapshot :
    Preserves LLMEngine.queue (chainCacheRoutingSnapshot config) :=
  .ite (preserves_onRuntime _) (.pure _)

/-! ## Calls that change the queue -/

variable {method : Method Fingerprint Digest Env α} {queue : List ℕ}

/-- A call that leaves the queue alone, in front of others. -/
theorem wpe_queue {post : α → LLMEngine Fingerprint Digest Env → Prop}
    {engine : LLMEngine Fingerprint Digest Env} (hmethod : Preserves LLMEngine.queue method)
    (hengine : engine.queue = queue) (hpost : ∀ a next, next.queue = queue → post a next) :
    wpe method post (fun next => next.queue = queue) engine :=
  hmethod.wpe (fun a next hnext => hpost a next (hnext.trans hengine)) fun _ hnext =>
    hnext.trans hengine

section Admission

variable [DecidableEq Fingerprint] [DecidableEq Digest]

theorem preserves_planRequest (request : AdmissionRequest)
    (existing : Option (ChainRecord Fingerprint Digest)) (chainId recreatedId : String)
    (seqId : ℕ) (prompt : List ℤ) :
    Preserves LLMEngine.queue (planRequest config request existing chainId recreatedId seqId prompt) := by
  unfold planRequest
  refine .catchWhen (.bind (preserves_onRuntime _) fun _ => .pure _) fun error => ?_
  exact .bind (preserves_broadcast config _) fun _ => .bind (preserves_onRuntime _) fun _ => .pure _

/-- An admission that returns queues the sequence it names; one that raises
queues nothing. -/
theorem admitRequest_queue (request : AdmissionRequest) (freshId recreatedId : String)
    (addError : Option PyError) (engine : LLMEngine Fingerprint Digest Env) :
    wpe (admitRequest config request freshId recreatedId addError)
      (fun admission next => next.queue = engine.queue ++ [admission.seqId])
      (fun next => next.queue = engine.queue) engine := by
  unfold admitRequest
  rw [wpe_bind]
  refine wpe_queue (preserves_existingRecord config _) rfl fun existing next hnext => ?_
  rw [wpe_bind]
  refine wpe_queue (.ofExcept _) hnext fun prompt next hnext => ?_
  rw [wpe_bind]
  refine wpe_queue (.raiseIf _ _) hnext fun _ next hnext => ?_
  rw [wpe_get, wpe_set, wpe_ite]
  refine ⟨fun _ => ?_, fun _ => ?_⟩
  · unfold admitChain
    rw [wpe_bind]
    refine wpe_queue (preserves_planRequest config _ _ _ _ _ _) hnext fun planned next hnext => ?_
    obtain ⟨plan, admittedId, recreated⟩ := planned
    dsimp only
    rw [wpe_bind]
    refine wpe_queue (.raiseIf _ _) hnext fun _ next hnext => ?_
    rw [wpe_bind]
    refine wpe_queue (preserves_sentDigest config _ _) hnext fun digest next hnext => ?_
    rw [wpe_bind]
    refine wpe_queue (preserves_broadcast config _) hnext fun _ next hnext => ?_
    rw [wpe_bind]
    refine wpe_queue (preserves_broadcast config _) hnext fun _ next hnext => ?_
    rw [wpe_bind]
    cases addError with
    | none =>
        rw [wpe_pure, wpe_set, wpe_pure]
        exact congrArg (· ++ [_]) hnext
    | some error =>
        rw [wpe_bind]
        exact wpe_queue (preserves_broadcast config _) hnext fun _ next hnext => hnext
  · unfold admitPlain
    rw [wpe_bind]
    refine wpe_queue (.raiseIf _ _) hnext fun _ next hnext => ?_
    rw [wpe_bind]
    cases addError with
    | none =>
        rw [wpe_pure, wpe_set, wpe_pure]
        exact congrArg (· ++ [_]) hnext
    | some error => exact hnext

end Admission

/-- The queue without a sequence. -/
def without (queue : List ℕ) (seqId : ℕ) : List ℕ := queue.filter fun other => other ≠ seqId

@[simp] theorem mem_without {seqId other : ℕ} :
    other ∈ without queue seqId ↔ other ∈ queue ∧ other ≠ seqId := by
  simp [without]

/-- The end of a sequence takes it out of the queue as the last thing. -/
theorem finishSequence_queue [DecidableEq Digest] (seqId : ℕ) (engine : LLMEngine Fingerprint Digest Env) :
    wpe (finishSequence config seqId) (fun _ next => next.queue = without engine.queue seqId)
      (fun next => next.queue = engine.queue) engine := by
  unfold finishSequence
  rw [wpe_get]
  cases engine.activeChainSequences.get? seqId with
  | none =>
      dsimp only
      rw [wpe_bind]
      refine wpe_queue (preserves_broadcast config _) rfl fun _ next hnext => ?_
      exact congrArg (without · seqId) hnext
  | some sequence =>
      dsimp only
      rw [wpe_bind]
      refine wpe_queue (preserves_onRuntime _) rfl fun prepared next hnext => ?_
      rw [wpe_bind]
      refine wpe_queue (preserves_broadcast config _) hnext fun _ next hnext => ?_
      rw [wpe_bind]
      refine wpe_queue (preserves_onRuntime _) hnext fun _ next hnext => ?_
      rw [wpe_bind]
      refine wpe_queue (preserves_popActive _) hnext fun _ next hnext => ?_
      exact congrArg (without · seqId) hnext

/-- An aborted request leaves the queue. -/
theorem abortRequest_queue (seqId : ℕ) (engine : LLMEngine Fingerprint Digest Env) :
    wpe (abortRequest config seqId) (fun _ next => next.queue = without engine.queue seqId)
      (fun next => next.queue = engine.queue) engine := by
  unfold abortRequest
  rw [wpe_get]
  cases engine.activeChainSequences.get? seqId with
  | some sequence =>
      dsimp only
      rw [wpe_bind]
      refine wpe_queue (preserves_broadcast config _) rfl fun _ next hnext => ?_
      exact congrArg (without · seqId) hnext
  | none =>
      cases engine.runtime.index.seqIdToChainId.get? seqId with
      | some chainId =>
          dsimp only
          rw [wpe_bind]
          refine wpe_queue (preserves_broadcast config _) rfl fun _ next hnext => ?_
          exact congrArg (without · seqId) hnext
      | none =>
          dsimp only
          rw [wpe_bind]
          refine wpe_queue (preserves_broadcast config _) rfl fun _ next hnext => ?_
          exact congrArg (without · seqId) hnext

/-- A discarded chain's sequence leaves the queue before the chain is
invalidated. -/
theorem discardChain_queue (chainId : String) (expectedSeqId : ℕ) (engine : LLMEngine Fingerprint Digest Env) :
    wpe (discardChain config chainId expectedSeqId)
      (fun result next => next.queue =
        if result then without engine.queue expectedSeqId else engine.queue)
      (fun next => next.queue = engine.queue ∨ next.queue = without engine.queue expectedSeqId) engine := by
  unfold discardChain
  refine wpe_guarded (.inl rfl) fun _ => ?_
  rw [wpe_get]
  cases engine.runtime.index.records.get? chainId with
  | none => exact rfl
  | some record =>
      dsimp only
      refine wpe_guarded (.inl rfl) fun howner => ?_
      rw [not_not.mp howner, wpe_bind]
      unfold schedulerAbort
      rw [wpe_write]
      have hrest : wpe (popActive expectedSeqId >>= fun _ => do
          broadcast config (chainInvalidate config.hooks chainId (some expectedSeqId))
          pure true)
          (fun result next => result = true ∧ next.queue = without engine.queue expectedSeqId)
          (fun next => next.queue = without engine.queue expectedSeqId)
          { engine with queue := without engine.queue expectedSeqId } := by
        rw [wpe_bind]
        refine wpe_queue (preserves_popActive _) rfl fun _ next hnext => ?_
        rw [wpe_bind]
        exact wpe_queue (preserves_broadcast config _) hnext fun _ next hnext => ⟨rfl, hnext⟩
      refine wpe_imp hrest (fun result next hnext => ?_) fun next hnext => .inr hnext
      rw [if_pos hnext.1]
      exact hnext.2

/-! ## A step -/

/-- The queue is part of what it was. -/
def Within (queue : List ℕ) (engine : LLMEngine Fingerprint Digest Env) : Prop :=
  engine.queue ⊆ queue

theorem maintains_within (hmethod : Preserves LLMEngine.queue method) :
    Maintains (Within queue) method :=
  fun engine hqueue => by
    have hkept : ∀ next : LLMEngine Fingerprint Digest Env, next.queue = engine.queue → Within queue next := by
      intro next hnext other hother
      rw [hnext] at hother
      exact hqueue hother
    exact hmethod.wpe (fun _ next => hkept next) hkept

theorem maintains_schedulerAbort_within (seqId : ℕ) :
    Maintains (Within queue) (schedulerAbort seqId : Method Fingerprint Digest Env _) :=
  .write fun _ hqueue _ hother => hqueue (List.mem_of_mem_filter hother)

theorem maintains_reclaimBatch_within (seqIds : List ℕ) :
    Maintains (Within queue) (reclaimBatch config seqIds) := by
  induction seqIds with
  | nil => exact .pure _
  | cons seqId rest ih =>
      unfold reclaimBatch
      refine .bind (.ignoring ?_) fun _ => ih
      unfold reclaimFailed
      refine .bind .read fun engine => .bind ?_ fun _ =>
        .bind (maintains_within (preserves_popActive seqId)) fun _ =>
          maintains_schedulerAbort_within seqId
      cases engine.activeChainSequences.get? seqId with
      | none => exact maintains_within (preserves_broadcast config _)
      | some sequence => exact maintains_within (preserves_broadcast config _)

/-- Finished sequences leave the queue. -/
theorem finishAll_queue [DecidableEq Digest] (seqIds : List ℕ) (engine : LLMEngine Fingerprint Digest Env) :
    wpe (finishAll config seqIds) (fun _ next => ∀ other ∈ next.queue, other ∈ engine.queue ∧ other ∉ seqIds)
      (Within engine.queue) engine := by
  induction seqIds generalizing engine with
  | nil => exact fun other hother => ⟨hother, List.not_mem_nil⟩
  | cons seqId rest ih =>
      unfold finishAll
      refine wpe_then_imp (finishSequence_queue config seqId engine) (fun _ next hnext => ?_)
        fun next hnext => hnext ▸ List.Subset.refl _
      have hsub : next.queue ⊆ engine.queue := by
        intro other hother
        rw [hnext] at hother
        exact (mem_without.mp hother).1
      refine wpe_imp (ih next) (fun _ last hlast other hother => ?_) fun last hlast =>
        List.Subset.trans hlast hsub
      obtain ⟨hmem, hrest⟩ := hlast other hother
      rw [hnext, mem_without] at hmem
      exact ⟨hmem.1, by simp [hmem.2, hrest]⟩

/-- The sequences that a report is about. -/
structure StepReport.About (report : StepReport) (queue : List ℕ) : Prop where
  outputs : ∀ row ∈ report.outputs, row.1 ∈ queue
  tokenOutputs : ∀ row ∈ report.tokenOutputs, row.1 ∈ queue
  promptCacheHits : ∀ row ∈ report.promptCacheHits, row.1 ∈ queue
  logprobOutputs : ∀ row ∈ report.logprobOutputs, row.1 ∈ queue

theorem mem_tokenRow {sample : ℕ → Option ℤ} {batch : List ℕ} {row : ℕ × List ℤ}
    (hrow : row ∈ batch.filterMap (tokenRow sample)) : row.1 ∈ batch := by
  obtain ⟨seqId, hmem, hsome⟩ := List.mem_filterMap.mp hrow
  obtain ⟨token, -, rfl⟩ := Option.map_eq_some_iff.mp hsome
  exact hmem

/-- **A step reports on queued sequences only**, and those it reports as
finished leave the queue. -/
theorem stepSync_queue [DecidableEq Digest] (choice : StepChoice Env) (engine : LLMEngine Fingerprint Digest Env) :
    wpe (stepSync config choice)
      (fun report next => report.About engine.queue ∧
        ∀ other ∈ next.queue, other ∈ engine.queue ∧ other ∉ report.outputs.map Prod.fst)
      (Within engine.queue) engine := by
  have hbatch : ∀ seqId ∈ choice.batch.filter fun seqId => seqId ∈ engine.queue, seqId ∈ engine.queue := by
    intro seqId hmem
    simpa using (List.mem_filter.mp hmem).2
  -- a call that leaves the queue alone may raise:
  have hweaken : ∀ next : LLMEngine Fingerprint Digest Env, next.queue = engine.queue →
      Within engine.queue next := fun next hnext => hnext ▸ List.Subset.refl _
  unfold stepSync
  rw [wpe_get]
  dsimp only
  generalize hdrawn : (choice.batch.filter fun seqId => seqId ∈ engine.queue) = batch at hbatch
  refine wpe_then_imp (wpe_queue (preserves_reclaimAll config _) rfl fun _ next hnext => hnext)
    (fun _ next hnext => ?_) hweaken
  rw [wpe_set, wpe_ite]
  refine ⟨fun _ => ?_, fun _ => ?_⟩
  · rw [wpe_guard]
    refine ⟨fun _ => hweaken _ hnext, fun _ => ⟨?_, fun other hother => ⟨hnext ▸ hother, ?_⟩⟩⟩
    · constructor <;> exact fun _ hrow => absurd hrow List.not_mem_nil
    · exact List.not_mem_nil
  rw [wpe_bind]
  cases choice.runError with
  | some error =>
      dsimp only
      exact wpe_then (maintains_reclaimBatch_within config batch _ (hweaken _ hnext)) fun _ _ hlast => hlast
  | none =>
      dsimp only
      rw [wpe_pure]
      refine wpe_then_imp (wpe_queue (preserves_clearAll _) hnext fun _ next hnext => hnext)
        (fun _ next hnext => ?_) hweaken
      refine wpe_then_imp (wpe_queue (preserves_appendAll _ _) hnext fun _ next hnext => hnext)
        (fun _ next hnext => ?_) hweaken
      refine wpe_then_imp (finishAll_queue config _ next) (fun _ last hlast => ?_) fun last hlast => ?_
      · rw [hnext] at hlast
        rw [wpe_pure]
        refine ⟨⟨?_, ?_, ?_, ?_⟩, ?_⟩
        · intro row hrow
          obtain ⟨seqId, hmem, rfl⟩ := List.mem_map.mp hrow
          exact hbatch seqId (List.mem_filter.mp hmem).1
        · exact fun row hrow => hbatch _ (mem_tokenRow hrow)
        · intro row hrow
          dsimp only at hrow
          split at hrow
          · obtain ⟨seqId, hmem, rfl⟩ := List.mem_map.mp hrow
            exact hbatch seqId hmem
          · exact nomatch hrow
        · intro row hrow
          obtain ⟨tokenRow, hmem, rfl⟩ := List.mem_map.mp hrow
          exact hbatch tokenRow.1 (mem_tokenRow hmem)
        · intro other hother
          obtain ⟨hmem, hfinished⟩ := hlast other hother
          -- what is reported finished has left the queue
          refine ⟨hmem, fun hreported => hfinished ?_⟩
          obtain ⟨row, hrow, rfl⟩ := List.mem_map.mp hreported
          obtain ⟨seqId, hseqId, rfl⟩ := List.mem_map.mp hrow
          exact hseqId
      · rw [hnext] at hlast
        exact hlast

end LLMEngine
