import SparseEngine.ChainCache.Writers

/-!
# The writers of the chains and the scheduler

A chain in a turn is known in three places: its record is ACTIVE and names a
sequence, the engine keeps that sequence in `_active_chain_sequences`, and the
scheduler has it in a queue.  Admissions, aborts, discards and steps keep the
three in agreement as long as their calls to the ranks succeed.
`invalidate_chain` forgets the queue: on a chain in a turn it leaves a
sequence in the scheduler whose chain, with its KV row, is gone.
-/

open Routine

namespace LLMEngine

open ChainCacheIndex ChainRuntime

variable {Fingerprint Digest Env : Type} {α : Type}
  {engine : LLMEngine Fingerprint Digest Env} (config : EngineConfig Fingerprint Digest Env)

/-- The chain each sequence of `_active_chain_sequences` writes. -/
def writers (engine : LLMEngine Fingerprint Digest Env) (seqId : ℕ) : Option String :=
  (engine.activeChainSequences.get? seqId).map EngineSequence.chainId

/-- Outside a call the registry of the writers agrees with the index and with
the queues. -/
structure Owned (engine : LLMEngine Fingerprint Digest Env) : Prop where
  written : WrittenBy engine.writers (fun _ seqId => seqId < engine.nextSeqId) engine.runtime.index
  queued : ∀ seqId, seqId ∈ engine.queue ↔ ∃ chainId, engine.writers seqId = some chainId

/-- A call of the ranks failed, or the writers are as they have to be. -/
def Sound (engine : LLMEngine Fingerprint Digest Env) : Prop :=
  engine.rpcFailed = true ∨ engine.Owned

/-- Only the runtime changed, and its index has the property. -/
def Swaps (good : ChainCacheIndex Fingerprint Digest → Prop)
    (engine next : LLMEngine Fingerprint Digest Env) : Prop :=
  ∃ runtime, good runtime.index ∧ next = { engine with runtime := runtime }

variable {method : ChainRuntime.Method Fingerprint Digest Env α}
  {good : ChainCacheIndex Fingerprint Digest → Prop}

/-- A call of the ranks that returns has done what rank 0 did; one that raises
is noted. -/
theorem broadcast_wpe (h : wpe method (fun _ => ChainRuntime.Holds good) (fun _ => True) engine.runtime) :
    wpe (broadcast config method) (fun _ => Swaps good engine) (fun next => next.rpcFailed = true)
      engine := by
  unfold broadcast
  apply wpe_onError
  rw [wpe_bind, wpe_onRuntime]
  refine wpe_imp h (fun _ runtime hruntime => ?_) fun _ _ => rfl
  rw [wpe_bind, wpe_onRuntime]
  refine wpe_imp (maintains_call _ runtime hruntime) (fun _ last hlast => ?_) fun _ _ => rfl
  exact ⟨last, hlast, rfl⟩

theorem onRuntime_swaps (hmethod : Maintains (ChainRuntime.Holds good) method) (h : good engine.runtime.index) :
    wpe (onRuntime method) (fun _ => Swaps good engine) (Swaps good engine) engine := by
  rw [wpe_onRuntime]
  exact wpe_imp (hmethod engine.runtime h) (fun _ runtime hruntime => ⟨runtime, hruntime, rfl⟩)
    fun runtime hruntime => ⟨runtime, hruntime, rfl⟩

namespace Owned

theorem swaps {next : LLMEngine Fingerprint Digest Env} (h : engine.Owned)
    (hswaps : Swaps (WrittenBy engine.writers fun _ seqId => seqId < engine.nextSeqId) engine next) : next.Owned := by
  obtain ⟨runtime, hwritten, rfl⟩ := hswaps
  exact ⟨hwritten, h.queued⟩

variable {seqId : ℕ}

/-- The chain of a sequence in the registry has an ACTIVE record with its id. -/
theorem record_of_writer (h : engine.Owned) {sequence : EngineSequence}
    (hsequence : engine.activeChainSequences.get? seqId = some sequence) :
    ∃ record, engine.runtime.index.records.get? sequence.chainId = some record ∧
      record.state = .active ∧ record.seqId = seqId := by
  apply h.written.writer.mp
  unfold writers
  rw [hsequence]
  rfl

/-- A sequence without a registry entry is in no queue. -/
theorem not_mem_queue (h : engine.Owned) (hnone : engine.activeChainSequences.get? seqId = none) :
    seqId ∉ engine.queue := by
  rw [h.queued]
  rintro ⟨chainId, hwriter⟩
  unfold writers at hwriter
  rw [hnone] at hwriter
  exact nomatch hwriter

/-- A sequence that writes no chain leaves nothing behind. -/
theorem leaves (h : engine.Owned) (hnone : engine.activeChainSequences.get? seqId = none) :
    Owned { engine with queue := engine.queue.filter fun other => other ≠ seqId } := by
  have hsame : (engine.queue.filter fun other => other ≠ seqId) = engine.queue := by
    apply List.filter_eq_self.mpr
    intro other hother
    have hne : other ≠ seqId := fun heq => h.not_mem_queue hnone (heq ▸ hother)
    simpa using hne
  rw [hsame]
  exact h

/-- A chain whose writer left all three places. -/
theorem dropped (h : engine.Owned) {chainId : String} {record : ChainRecord Fingerprint Digest}
    (hrecord : engine.runtime.index.records.get? chainId = some record)
    {runtime : ChainRuntime Fingerprint Digest Env}
    (hwritten : WrittenBy (unwrite engine.writers chainId) (fun _ seqId => seqId < engine.nextSeqId) runtime.index) :
    Owned { engine with
      runtime := runtime
      queue := engine.queue.filter fun other => other ≠ record.seqId
      activeChainSequences := engine.activeChainSequences.erase record.seqId } := by
  have hwriters : ∀ seqId, (Option.map EngineSequence.chainId
      ((engine.activeChainSequences.erase record.seqId).get? seqId)) = unwrite engine.writers chainId seqId := by
    intro seqId
    rw [h.written.unwrite_eq hrecord, Dict.get?_erase]
    split
    · rfl
    · rfl
  refine ⟨hwritten.congr hwriters, fun seqId => ?_⟩
  show seqId ∈ engine.queue.filter _ ↔ ∃ other, Option.map EngineSequence.chainId
    ((engine.activeChainSequences.erase record.seqId).get? seqId) = some other
  rw [hwriters, h.written.unwrite_eq hrecord, List.mem_filter, h.queued]
  by_cases heq : seqId = record.seqId
  · simp [heq]
  · simp [heq]

end Owned

/-! ### The end of a request -/

section

variable (h : engine.Owned)

include h

/-- A chain of a request that ends is invalidated, and its sequence leaves the
scheduler and the registry. -/
theorem chainInvalidate_swaps (chainId : String) (expectedSeqId : Option ℕ) :
    wpe (broadcast config (chainInvalidate config.hooks chainId expectedSeqId))
      (fun _ => Swaps (WrittenBy (unwrite engine.writers chainId) fun _ seqId => seqId < engine.nextSeqId) engine)
      (fun next => next.rpcFailed = true) engine :=
  broadcast_wpe config (chainInvalidate_written config.hooks h.written chainId expectedSeqId)

/-- A call of a hook that returns changes nothing that is owned. -/
theorem broadcast_call_owned (hook : ChainHook Fingerprint Digest Env α) :
    wpe (broadcast config (call hook)) (fun _ next => next.Owned ∧ next.queue = engine.queue ∧
        next.activeChainSequences = engine.activeChainSequences)
      Sound engine := by
  refine wpe_imp (broadcast_wpe config (returns_of_maintains (maintains_call hook) h.written))
    (fun _ next hnext => ?_) fun _ hfailed => .inl hfailed
  refine ⟨h.swaps hnext, ?_⟩
  obtain ⟨runtime, -, rfl⟩ := hnext
  exact ⟨rfl, rfl⟩

theorem abortRequest_owned (seqId : ℕ) :
    wpe (abortRequest config seqId) (fun _ => Owned) Sound engine := by
  unfold abortRequest
  rw [wpe_get]
  cases hsequence : engine.activeChainSequences.get? seqId with
  | some sequence =>
      obtain ⟨record, hrecord, -, hseq⟩ := h.record_of_writer hsequence
      dsimp only
      refine wpe_then_imp (chainInvalidate_swaps config h _ _) (fun _ next hnext => ?_) fun _ hfailed => .inl hfailed
      obtain ⟨runtime, hwritten, rfl⟩ := hnext
      rw [← hseq]
      exact h.dropped hrecord hwritten
  | none =>
      dsimp only
      cases howner : engine.runtime.index.seqIdToChainId.get? seqId with
      | some chainId =>
          obtain ⟨record, hrecord, hseq⟩ := h.written.inv.owner.mp howner
          dsimp only
          refine wpe_then_imp (chainInvalidate_swaps config h _ _) (fun _ next hnext => ?_)
            fun _ hfailed => .inl hfailed
          obtain ⟨runtime, hwritten, rfl⟩ := hnext
          have hdropped := h.dropped hrecord hwritten
          rw [hseq, Dict.erase_of_not_mem (Dict.not_mem_keys_iff.mpr hsequence)] at hdropped
          exact hdropped
      | none =>
          dsimp only
          refine wpe_then (broadcast_call_owned config h _) fun _ next hnext => ?_
          obtain ⟨hnext, -, hactive⟩ := hnext
          rw [← hactive] at hsequence
          exact hnext.leaves hsequence

/-- A sequence of a failed batch gives its chain up. -/
theorem reclaimFailed_owned (seqId : ℕ) :
    wpe (reclaimFailed config seqId) (fun _ => Owned) Sound engine := by
  unfold reclaimFailed
  rw [wpe_get, wpe_bind]
  cases hsequence : engine.activeChainSequences.get? seqId with
  | none =>
      refine wpe_mono (broadcast_call_owned config h _) fun _ next hnext => ?_
      obtain ⟨hnext, -, hactive⟩ := hnext
      rw [← hactive] at hsequence
      show Owned { next with
        queue := next.queue.filter fun other => other ≠ seqId
        activeChainSequences := next.activeChainSequences.erase seqId }
      rw [Dict.erase_of_not_mem (Dict.not_mem_keys_iff.mpr hsequence)]
      exact hnext.leaves hsequence
  | some sequence =>
      obtain ⟨record, hrecord, -, hseq⟩ := h.record_of_writer hsequence
      refine wpe_imp (chainInvalidate_swaps config h _ _) (fun _ next hnext => ?_) fun _ hfailed => .inl hfailed
      obtain ⟨runtime, hwritten, rfl⟩ := hnext
      rw [← hseq]
      exact h.dropped hrecord hwritten

/-- The end of a turn: the record goes IDLE, then the sequence leaves. -/
theorem finishSequence_owned [DecidableEq Digest] (seqId : ℕ) :
    wpe (finishSequence config seqId) (fun _ => Owned) Sound engine := by
  unfold finishSequence
  rw [wpe_get]
  cases hsequence : engine.activeChainSequences.get? seqId with
  | none =>
      dsimp only
      refine wpe_then (broadcast_call_owned config h _) fun _ next hnext => ?_
      obtain ⟨hnext, -, hactive⟩ := hnext
      rw [← hactive] at hsequence
      exact hnext.leaves hsequence
  | some sequence =>
      obtain ⟨record, hrecord, -, hseq⟩ := h.record_of_writer hsequence
      dsimp only
      rw [wpe_bind, wpe_onRuntime, wpe_onIndex]
      refine ChainCacheCoordinator.prepareProcessedTokens_wpe _ _ _ _ _ (.inr h)
        fun found stored digest hfound _ _ _ _ hfits _ => ?_
      obtain rfl := Option.some.inj (hrecord.symm.trans hfound)
      rw [wpe_bind]
      -- what `chain_finish` leaves is what `remember_prepared_tokens` asks for
      let prepared : PreparedChainTokens Digest :=
        { chainId := sequence.chainId
          seqId := seqId
          processedTokenCount := max 0 ((sequence.tokenIds.length : ℤ) - 1)
          processedTokenDigest := digest
          tokenBytes := Packing.pack 4 (stored.map UInt32.toNat) }
      have hexpects : Expects prepared stored (fun _ => True) engine.runtime.index :=
        ⟨h.written.inv, record, hrecord, hseq, trivial, hfits⟩
      have hended : wpe (chainFinish config.hooks config.sha sequence.chainId seqId digest
          (max 0 ((sequence.tokenIds.length : ℤ) - 1)))
          (fun _ => ChainRuntime.Holds (WrittenBy (unwrite engine.writers sequence.chainId)
            fun _ seqId => seqId < engine.nextSeqId)) (fun _ => True) engine.runtime :=
        chainFinish_wpe config.hooks config.sha _ _ _ _
          (fun slots _ hindex => hindex.finishDigest_wpe config.sha _ _ _ slots 1)
          (fun other _ => WrittenBy.maintains_evict other) h.written
      have hboth : wpe (broadcast config (chainFinish config.hooks config.sha sequence.chainId seqId
          digest (max 0 ((sequence.tokenIds.length : ℤ) - 1))))
          (fun _ => Swaps (fun index => Expects prepared stored (AtBoundary prepared) index ∧
            WrittenBy (unwrite engine.writers sequence.chainId)
              (fun _ seqId => seqId < engine.nextSeqId) index) engine)
          (fun next => next.rpcFailed = true) engine :=
        broadcast_wpe config (wpe_imp (wpe_and (chainFinish_expects config hexpects) hended)
          (fun _ _ hnext => hnext) fun _ _ => trivial)
      refine wpe_imp hboth (fun _ next hnext => ?_) fun _ hfailed => .inl hfailed
      obtain ⟨runtime, ⟨hready, hwritten⟩, rfl⟩ := hnext
      rw [wpe_bind, wpe_onRuntime, wpe_onIndex]
      refine wpe_imp (wpe_and (hready.remember_returns rfl)
        (hwritten.rememberPreparedTokens_wpe prepared)) (fun _ index hindex => ?_)
        fun _ hraised => hraised.1.elim
      show Owned { engine with
        runtime := { runtime with index := index }
        queue := engine.queue.filter fun other => other ≠ seqId
        activeChainSequences := engine.activeChainSequences.erase seqId }
      rw [← hseq]
      exact h.dropped hrecord hindex.2

/-- `discard_chain` takes the sequence out of the scheduler before it gives the
chain up. -/
theorem discardChain_owned (chainId : String) (expectedSeqId : ℕ) :
    wpe (discardChain config chainId expectedSeqId) (fun _ => Owned) Sound engine := by
  unfold discardChain
  refine wpe_guarded (.inr h) fun _ => ?_
  rw [wpe_get]
  cases hrecord : engine.runtime.index.records.get? chainId with
  | none => exact h
  | some record =>
      dsimp only
      refine wpe_guarded (.inr h) fun _ => ?_
      rw [wpe_bind]
      unfold schedulerAbort popActive
      rw [wpe_write, wpe_set]
      refine wpe_then_imp (broadcast_wpe config (chainInvalidate_written config.hooks h.written chainId
        (some record.seqId))) (fun _ next hnext => ?_) fun _ hfailed => .inl hfailed
      obtain ⟨runtime, hwritten, rfl⟩ := hnext
      exact h.dropped hrecord hwritten

/-- `invalidate_chain` of a chain that no sequence writes. -/
theorem invalidateChain_owned {chainId : String}
    (hidle : ∀ record, engine.runtime.index.records.get? chainId = some record → record.state = .idle) :
    wpe (invalidateChain config chainId) (fun _ => Owned) Sound engine := by
  unfold invalidateChain
  refine wpe_guarded (.inr h) fun _ => ?_
  rw [wpe_bind, wpe_onRuntime, wpe_onIndex]
  refine wpe_lookup (fun record hrecord => ?_) (.inr h)
  have hnone : engine.activeChainSequences.get? record.seqId = none :=
    Option.map_eq_none_iff.mp (h.written.not_writer hrecord (hidle record hrecord))
  unfold popActive
  rw [wpe_set]
  show wpe _ _ _ { engine with
    activeChainSequences := engine.activeChainSequences.erase record.seqId }
  rw [Dict.erase_of_not_mem (Dict.not_mem_keys_iff.mpr hnone)]
  refine wpe_imp (chainInvalidate_swaps config h _ _) (fun _ next hnext => ?_) fun _ hfailed => .inl hfailed
  obtain ⟨runtime, hwritten, rfl⟩ := hnext
  exact h.swaps ⟨runtime, hwritten.congr fun seqId =>
    (h.written.unwrite_of_idle hrecord (hidle record hrecord) seqId).symm, rfl⟩

end

/-! ### Admission -/

section Admission

variable [DecidableEq Fingerprint] [DecidableEq Digest]

/-- A plan and the runtime it was made on. -/
structure Planned (engine : LLMEngine Fingerprint Digest Env) (seqId : ℕ)
    (planned : ChainAdmissionPlan × String × Bool) (next : LLMEngine Fingerprint Digest Env) :
    Prop where
  chainId_eq : planned.1.chainId = planned.2.1
  seqId_eq : planned.1.seqId = seqId
  swaps : Swaps (WrittenBy engine.writers fun chainId owner => owner < engine.nextSeqId ∧
    (chainId = planned.1.chainId → planned.1.status = .resumed → owner = seqId)) engine next

/-- A plan on rank 0. -/
theorem onRuntime_plan_planned {start : LLMEngine Fingerprint Digest Env}
    (h : Swaps (WrittenBy engine.writers fun _ seqId => seqId < engine.nextSeqId) engine start)
    (chainId : String) (recreated : Bool) (seqId : ℕ) (prompt : List ℤ) :
    wpe (do
        let plan ← onRuntime (chainAdmissionPlan config.hooks config.sha config.fingerprint chainId seqId prompt)
        pure (plan, chainId, recreated))
      (Planned engine seqId)
      (Swaps (WrittenBy engine.writers fun _ seqId => seqId < engine.nextSeqId) engine)
      start := by
  obtain ⟨runtime, hwritten, rfl⟩ := h
  rw [wpe_bind, wpe_onRuntime]
  refine wpe_imp (chainAdmissionPlan_wpe config.hooks config.sha config.fingerprint chainId seqId
    prompt runtime) (fun plan next hplan => ?_) fun next hnext => ?_
  · obtain ⟨hindex, hid, hseq, hclass⟩ := hplan
    refine ⟨hid, hseq, next, ?_, rfl⟩
    rw [hindex]
    refine hwritten.imp fun {other record} hrecord hlt => ⟨hlt, fun hother hresumed => ?_⟩
    replace hother : other = plan.chainId := hother
    replace hresumed : plan.status = .resumed := hresumed
    rw [hresumed] at hclass
    rw [hother, hid] at hrecord
    exact seqId_of_resumed hclass hrecord
  · exact ⟨next, by rw [show next.index = runtime.index from hnext]; exact hwritten, rfl⟩

variable {existing : Option (ChainRecord Fingerprint Digest)} {chainId : String}

/-- The plan of a request; a chain that is recreated was IDLE. -/
theorem planRequest_planned (h : engine.Owned) (hforeign : ForeignErrors config.hooks)
    (request : AdmissionRequest) (hexisting : ∀ record ∈ existing,
      engine.runtime.index.records.get? chainId = some record) (recreatedId : String) (seqId : ℕ)
    (prompt : List ℤ) :
    wpe (planRequest config request existing chainId recreatedId seqId prompt)
      (Planned engine seqId) Sound engine := by
  have hself : Swaps (WrittenBy engine.writers fun _ seqId => seqId < engine.nextSeqId) engine
      engine := ⟨engine.runtime, h.written, rfl⟩
  have hfirst := onRuntime_plan_planned config hself chainId false seqId prompt
  have hplain := wpe_imp hfirst (fun _ _ hplanned => hplanned) fun next hnext => (.inr (h.swaps hnext) : Sound next)
  unfold planRequest
  cases existing with
  | none => exact wpe_catchWhen_of_uncaught (fun error _ => by simp) hplain
  | some record =>
      have hrecord := hexisting record rfl
      cases hstate : record.state with
      | active =>
          refine wpe_catchWhen_of_uncaught (fun error hraise => ?_) hplain
          obtain ⟨busy, hbusy, hmismatch⟩ := chainAdmissionPlan_busy hforeign config.sha
            config.fingerprint seqId prompt hrecord hstate
          have herror : busy = error := by
            rw [bind_apply] at hraise
            unfold onRuntime at hraise
            rcases hcall : chainAdmissionPlan config.hooks config.sha config.fingerprint chainId
              seqId prompt engine.runtime with ⟨result, runtime⟩
            rw [hcall] at hbusy hraise
            obtain rfl : result = .error busy := hbusy
            exact Except.error.inj hraise
          rw [← herror, show isPrefixMismatch busy = false from hmismatch]
          simp
      | idle =>
          apply wpe_catchWhen
          refine wpe_imp hfirst (fun _ _ hplanned => hplanned) fun next hnext =>
            ⟨.inr (h.swaps hnext), fun error => ?_⟩
          obtain ⟨runtime, hwritten, rfl⟩ := hnext
          refine wpe_then_imp (broadcast_wpe config (chainInvalidate_written config.hooks hwritten
            chainId (some record.seqId))) (fun _ next hnext => ?_) fun _ hfailed => .inl hfailed
          obtain ⟨last, hlast, rfl⟩ := hnext
          have hsame : Swaps (WrittenBy engine.writers fun _ seqId => seqId < engine.nextSeqId)
              engine { engine with runtime := last } :=
            ⟨last, hlast.congr fun seqId =>
              (h.written.unwrite_of_idle hrecord hstate seqId).symm, rfl⟩
          exact wpe_imp (onRuntime_plan_planned config hsame recreatedId true seqId prompt)
            (fun _ _ hplanned => hplanned) fun next hnext => .inr (h.swaps hnext)

omit [DecidableEq Fingerprint] [DecidableEq Digest] in
theorem sentDigest_swaps {good : ChainCacheIndex Fingerprint Digest → Prop}
    (h : good engine.runtime.index) (plan : ChainAdmissionPlan) (chainId : String) :
    wpe (sentDigest config plan chainId) (fun _ => Swaps good engine) (Swaps good engine)
      engine := by
  unfold sentDigest
  rw [wpe_ite]
  refine ⟨fun _ => ?_, fun _ => onRuntime_swaps (.ofExcept _) h⟩
  rw [wpe_bind]
  exact onRuntime_swaps (ChainRuntime.maintains_lookup chainId) h

/-- An admitted request is the writer of its chain, in the registry and in the
scheduler. -/
theorem admitChain_owned (h : engine.Owned) (hforeign : ForeignErrors config.hooks)
    (request : AdmissionRequest) (hexisting : ∀ record ∈ existing,
      engine.runtime.index.records.get? chainId = some record) (recreatedId : String) {seqId : ℕ}
    (hlt : seqId < engine.nextSeqId) (prompt : List ℤ) (addError : Option PyError) :
    wpe (admitChain config request existing chainId recreatedId seqId prompt addError)
      (fun _ => Owned) Sound engine := by
  unfold admitChain
  refine wpe_then (planRequest_planned config h hforeign request hexisting recreatedId seqId prompt)
    fun planned next hplanned => ?_
  obtain ⟨plan, admittedId, recreated⟩ := planned
  obtain ⟨hid, hseq, runtime, hwritten, rfl⟩ := hplanned
  dsimp only at hid hseq hwritten ⊢
  have hkept : ∀ next, Swaps (WrittenBy engine.writers fun chainId owner =>
      owner < engine.nextSeqId ∧ (chainId = plan.chainId → plan.status = .resumed → owner = seqId))
      { engine with runtime := runtime } next → Sound next := by
    rintro next ⟨last, hlast, rfl⟩
    exact .inr ⟨hlast.imp fun _ howned => howned.1, h.queued⟩
  rw [wpe_guard]
  refine ⟨fun _ => hkept _ ⟨runtime, hwritten, rfl⟩, fun _ => ?_⟩
  refine wpe_then_imp (sentDigest_swaps config hwritten plan admittedId) (fun digest next hnext => ?_) hkept
  obtain ⟨runtime, hwritten, rfl⟩ := hnext
  refine wpe_then_imp (broadcast_wpe config (returns_of_maintains
    (maintains_chainValidateAdmissionPlan config.hooks config.sha config.fingerprint plan
      prompt.length digest) hwritten)) (fun _ next hnext => ?_) fun _ hfailed => .inl hfailed
  obtain ⟨runtime, hwritten, rfl⟩ := hnext
  rw [wpe_bind]
  have happlied : wpe (broadcast config (chainApplyAdmission config.hooks config.sha config.fingerprint plan))
      (fun _ => Swaps (fun index => engine.writers plan.seqId = none ∧ WrittenBy
        (Function.update engine.writers plan.seqId (some plan.chainId))
        (fun _ owner => owner < engine.nextSeqId) index) { engine with runtime := runtime })
      (fun next => next.rpcFailed = true) { engine with runtime := runtime } := by
    apply broadcast_wpe config
    refine wpe_mono (chainApplyAdmission_written config.hooks hwritten config.sha
      config.fingerprint plan (fun hcreated => ⟨hseq ▸ hlt, fun _ hresumed => hseq⟩)
      fun hresumed owner howner => (howner.2 rfl hresumed).trans hseq.symm) fun _ next hnext => ?_
    exact ⟨hnext.1, WrittenBy.imp hnext.2 fun _ howned => howned.1⟩
  refine wpe_imp happlied (fun _ next hnext => ?_) fun _ hfailed => .inl hfailed
  rw [hid, hseq] at hnext
  obtain ⟨runtime, ⟨hnone, hwritten⟩, rfl⟩ := hnext
  rw [wpe_bind]
  cases addError with
  | some error =>
      -- the sequence did not get into the scheduler, and its chain is given up again
      dsimp only
      refine wpe_then_imp (broadcast_wpe config (chainInvalidate_written config.hooks hwritten
        admittedId (some seqId))) (fun _ next hnext => ?_) fun _ hfailed => .inl hfailed
      obtain ⟨last, hlast, rfl⟩ := hnext
      obtain ⟨record, hrecord, -, howner⟩ := hwritten.writer.mp (Function.update_self ..)
      refine .inr ⟨hlast.congr fun other => ?_, h.queued⟩
      rw [hwritten.unwrite_eq hrecord, howner, Function.update_apply]
      split
      · next heq => rw [heq]; exact hnone
      · rfl
  | none =>
      rw [wpe_pure, wpe_set, wpe_pure]
      have hwriters : ∀ other, Option.map EngineSequence.chainId
          ((engine.activeChainSequences.set seqId ⟨admittedId, prompt⟩).get? other) =
            Function.update engine.writers seqId (some admittedId) other := by
        intro other
        rw [Dict.get?_set, Function.update_apply]
        split <;> rfl
      refine ⟨hwritten.congr hwriters, fun other => ?_⟩
      show other ∈ engine.queue ++ [seqId] ↔ ∃ chainId, Option.map EngineSequence.chainId
        ((engine.activeChainSequences.set seqId ⟨admittedId, prompt⟩).get? other) = some chainId
      rw [hwriters, List.mem_append, List.mem_singleton, h.queued, Function.update_apply]
      by_cases heq : other = seqId
      · simp [heq]
      · simp [heq]

/-- An admission in chain mode. -/
theorem admitRequest_owned (hmode : config.chainMode = true) (h : engine.Owned)
    (hforeign : ForeignErrors config.hooks) (request : AdmissionRequest)
    (freshId recreatedId : String) (addError : Option PyError) :
    wpe (admitRequest config request freshId recreatedId addError) (fun _ => Owned) Sound
      engine := by
  have hrest : ∀ (existing : Option (ChainRecord Fingerprint Digest)),
      (∀ record ∈ existing, request.chainId ≠ "" ∧ engine.runtime.index.records.get? request.chainId = some record) →
      wpe (do
        let prompt ← ofExcept (requestPrompt request existing)
        raiseIf (config.maxModelLen < prompt.length + request.maxTokens)
          (.valueError ("Prompt length + max_tokens exceeds max_model_len: " ++
            s!"{prompt.length} + {request.maxTokens} > {config.maxModelLen}."))
        let engine ← read
        write fun engine => { engine with nextSeqId := engine.nextSeqId + 1 }
        if config.chainMode then
          admitChain config request existing (if request.chainId = "" then freshId else request.chainId) recreatedId
            ((existing.map ChainRecord.seqId).getD engine.nextSeqId) prompt addError
        else admitPlain request engine.nextSeqId prompt addError)
        (fun _ => Owned) Sound engine := by
    intro existing hexisting
    rw [wpe_bind]
    refine wpe_ofExcept (fun prompt _ => ?_) (.inr h)
    refine wpe_guarded (.inr h) fun _ => ?_
    rw [wpe_get, wpe_set, if_pos hmode]
    have hcounted : Owned { engine with nextSeqId := engine.nextSeqId + 1 } :=
      ⟨h.written.imp fun _ hlt => Nat.lt_succ_of_lt hlt, h.queued⟩
    refine admitChain_owned config hcounted hforeign request (fun record hmem => ?_) recreatedId ?_ prompt addError
    · obtain ⟨hnamed, hrecord⟩ := hexisting record hmem
      rw [if_neg hnamed]
      exact hrecord
    · cases existing with
      | none => exact Nat.lt_succ_self _
      | some record =>
          exact Nat.lt_succ_of_lt (h.written.owned (hexisting record rfl).2)
  unfold admitRequest existingRecord
  rw [wpe_bind, wpe_ite]
  refine ⟨fun hnamed => ?_, fun _ => hrest none fun _ hmem => nomatch hmem⟩
  rw [wpe_bind, wpe_onRuntime, wpe_onIndex]
  refine wpe_lookup (fun record hrecord => hrest (some record) fun found hfound => ?_) (.inr h)
  obtain rfl := Option.some.inj hfound
  exact ⟨hnamed.2, hrecord⟩

end Admission

/-! ### A step -/

theorem reclaimAll_owned (h : engine.Owned) (reclaims : List (String × ℕ × Bool)) :
    wpe (reclaimAll config reclaims) (fun _ => Owned) Sound engine := by
  induction reclaims generalizing engine with
  | nil => exact h
  | cons reclaim rest ih =>
      obtain ⟨chainId, seqId, demote⟩ := reclaim
      unfold reclaimAll
      refine wpe_then_imp (broadcast_wpe config (returns_of_maintains (maintains_chainReclaimIdle
        config.hooks (WrittenBy.steady _ _) chainId seqId demote) h.written))
        (fun _ next hnext => ih (h.swaps hnext)) fun _ hfailed => .inl hfailed

theorem maintains_failed_broadcast (method : ChainRuntime.Method Fingerprint Digest Env α) :
    Maintains (fun engine => engine.rpcFailed = true) (broadcast config method) := by
  have hruntime : ∀ {β : Type} (method : ChainRuntime.Method Fingerprint Digest Env β),
      Maintains (fun engine : LLMEngine Fingerprint Digest Env => engine.rpcFailed = true) (onRuntime method) := by
    intro β method engine hfailed
    rw [wpe_onRuntime, wpe_def]
    split <;> exact hfailed
  exact .onError (.bind (hruntime method) fun _ => .bind (hruntime _) fun _ => .pure _) (.write fun _ _ => rfl)

/-- Once a call of the ranks failed, the cleanup of a failed batch goes on. -/
theorem maintains_sound_reclaimFailed (seqId : ℕ) :
    Maintains Sound (reclaimFailed config seqId) := by
  intro engine hsound
  rcases hsound with hfailed | howned
  · have hkept : Maintains (fun engine => engine.rpcFailed = true) (reclaimFailed config seqId) := by
      unfold reclaimFailed
      refine .bind .read fun engine => .bind ?_ fun _ =>
        .bind (.write fun _ hfailed => hfailed) fun _ => .write fun _ hfailed => hfailed
      cases engine.activeChainSequences.get? seqId with
      | none => exact maintains_failed_broadcast config _
      | some sequence => exact maintains_failed_broadcast config _
    exact wpe_imp (hkept engine hfailed) (fun _ _ hnext => .inl hnext) fun _ hnext => .inl hnext
  · exact wpe_mono (reclaimFailed_owned config howned seqId) fun _ _ hnext => .inr hnext

theorem maintains_sound_reclaimBatch (batch : List ℕ) :
    Maintains Sound (reclaimBatch config batch) := by
  induction batch with
  | nil => exact .pure _
  | cons seqId rest ih =>
      exact .bind (.ignoring (maintains_sound_reclaimFailed config seqId)) fun _ => ih

section

variable (h : engine.Owned)

include h

theorem clearAll_owned (chainIds : List String) :
    wpe (clearAll chainIds) (fun _ => Owned) Sound engine := by
  induction chainIds generalizing engine with
  | nil => exact h
  | cons chainId rest ih =>
      unfold clearAll
      refine wpe_then_imp (onRuntime_swaps (maintains_clearReservation (WrittenBy.steady _ _) chainId)
        h.written) (fun _ next hnext => ih (h.swaps hnext)) fun _ hnext => .inr (h.swaps hnext)

/-- A sampled token changes no chain of a sequence. -/
theorem appendToken_owned (seqId : ℕ) (token : ℤ) :
    wpe (appendToken seqId token) (fun _ => Owned) Sound engine := by
  unfold appendToken
  rw [wpe_write]
  cases hsequence : engine.activeChainSequences.get? seqId with
  | none => exact h
  | some sequence =>
      have hwriters : ∀ other, Option.map EngineSequence.chainId
          ((engine.activeChainSequences.set seqId
            { sequence with tokenIds := sequence.tokenIds ++ [token] }).get? other) =
            engine.writers other := by
        intro other
        unfold writers
        rw [Dict.get?_set]
        split
        · next heq => rw [heq, hsequence]; rfl
        · rfl
      refine ⟨h.written.congr hwriters, fun other => ?_⟩
      show other ∈ engine.queue ↔ ∃ chainId, Option.map EngineSequence.chainId
        ((engine.activeChainSequences.set seqId _).get? other) = some chainId
      rw [hwriters]
      exact h.queued other

theorem appendAll_owned (sample : ℕ → Option ℤ) (batch : List ℕ) :
    wpe (appendAll sample batch) (fun _ => Owned) Sound engine := by
  induction batch generalizing engine with
  | nil => exact h
  | cons seqId rest ih =>
      unfold appendAll
      rw [wpe_bind]
      cases sample seqId with
      | none => exact ih h
      | some token =>
          exact wpe_mono (appendToken_owned h seqId token) fun _ next hnext => ih hnext

theorem finishAll_owned [DecidableEq Digest] (finished : List ℕ) :
    wpe (finishAll config finished) (fun _ => Owned) Sound engine := by
  induction finished generalizing engine with
  | nil => exact h
  | cons seqId rest ih =>
      unfold finishAll
      exact wpe_then (finishSequence_owned config h seqId) fun _ next hnext => ih hnext

theorem stepSync_owned [DecidableEq Digest] (choice : StepChoice Env) :
    wpe (stepSync config choice) (fun _ => Owned) Sound engine := by
  unfold stepSync
  rw [wpe_get]
  refine wpe_then (reclaimAll_owned config h choice.reclaims) fun _ next hnext => ?_
  rw [wpe_set]
  have hworked : Owned { next with
      runtime := { next.runtime with env := choice.work next.runtime.env } } :=
    ⟨hnext.written, hnext.queued⟩
  rw [wpe_ite]
  refine ⟨fun _ => ?_, fun _ => ?_⟩
  · rw [wpe_guard]
    exact ⟨fun _ => .inr hworked, fun _ => hworked⟩
  rw [wpe_bind]
  cases choice.runError with
  | some error =>
      dsimp only
      rw [wpe_bind]
      exact maintains_sound_reclaimBatch config _ _ (.inr hworked)
  | none =>
      rw [wpe_pure]
      refine wpe_then (clearAll_owned hworked _) fun _ next hnext => ?_
      refine wpe_then (appendAll_owned hnext _ _) fun _ next hnext => ?_
      exact wpe_then (finishAll_owned config hnext _) fun _ _ hlast => hlast

end

/-! ### Runs -/

/-- The calls of the engine in chain mode. -/
inductive EngineOp (Env : Type) where
  | admitRequest (request : AdmissionRequest) (freshId recreatedId : String)
      (addError : Option PyError)
  | step (choice : StepChoice Env)
  | abortRequest (seqId : ℕ)
  | invalidateChain (chainId : String)
  | discardChain (chainId : String) (expectedSeqId : ℕ)

/-- The registry, the queues and the ACTIVE records name the same sequences. -/
structure WritersAgree (engine : LLMEngine Fingerprint Digest Env) : Prop where
  queued : ∀ seqId, seqId ∈ engine.queue ↔ seqId ∈ engine.activeChainSequences.keys
  chain : ∀ {seqId sequence}, engine.activeChainSequences.get? seqId = some sequence →
    ∃ record, engine.runtime.index.records.get? sequence.chainId = some record ∧
      record.state = .active ∧ record.seqId = seqId
  sequence : ∀ {chainId record}, engine.runtime.index.records.get? chainId = some record →
    record.state = .active → ∃ sequence,
      engine.activeChainSequences.get? record.seqId = some sequence ∧ sequence.chainId = chainId

theorem Owned.writersAgree (h : engine.Owned) : engine.WritersAgree where
  queued seqId := by
    rw [h.queued, Dict.mem_keys_iff]
    unfold writers
    simp only [Option.map_eq_some_iff]
    constructor
    · rintro ⟨chainId, sequence, hsequence, -⟩
      exact ⟨sequence, hsequence⟩
    · rintro ⟨sequence, hsequence⟩
      exact ⟨sequence.chainId, sequence, hsequence, rfl⟩
  chain hsequence := h.record_of_writer hsequence
  sequence hrecord hactive :=
    Option.map_eq_some_iff.mp (h.written.writer.mpr ⟨_, hrecord, hactive, rfl⟩)

/-- The call does not invalidate a chain that a sequence is writing. -/
def EngineOp.SparesWriters (engine : LLMEngine Fingerprint Digest Env) : EngineOp Env → Prop
  | .invalidateChain chainId =>
      ∀ record ∈ engine.runtime.index.records.get? chainId, record.state = .idle
  | _ => True

section Runs

variable [DecidableEq Fingerprint] [DecidableEq Digest]

def EngineOp.action : EngineOp Env → Method Fingerprint Digest Env Unit
  | .admitRequest request freshId recreatedId addError => do
      let _ ← LLMEngine.admitRequest config request freshId recreatedId addError
  | .step choice => do
      let _ ← stepSync config choice
  | .abortRequest seqId => LLMEngine.abortRequest config seqId
  | .invalidateChain chainId => LLMEngine.invalidateChain config chainId
  | .discardChain chainId expectedSeqId => do
      let _ ← LLMEngine.discardChain config chainId expectedSeqId

/-- The engine after a call, whether it returned or raised. -/
def exec (engine : LLMEngine Fingerprint Digest Env) (op : EngineOp Env) :
    LLMEngine Fingerprint Digest Env :=
  (op.action config).after engine

/-- In a run of these calls every call of the ranks succeeds, and no chain is
invalidated while a sequence writes it. -/
def RunSparesWriters (engine : LLMEngine Fingerprint Digest Env) : List (EngineOp Env) → Prop
  | [] => True
  | op :: rest =>
      op.SparesWriters engine ∧ (exec config engine op).rpcFailed = false ∧
        RunSparesWriters (exec config engine op) rest

variable {op : EngineOp Env}

theorem RunSparesWriters.cons {rest : List (EngineOp Env)} (hspares : op.SparesWriters engine)
    (hsucceeded : (exec config engine op).rpcFailed = false)
    (hrest : RunSparesWriters config (exec config engine op) rest) :
    RunSparesWriters config engine (op :: rest) :=
  ⟨hspares, hsucceeded, hrest⟩

section

variable (hmode : config.chainMode = true) (hforeign : ForeignErrors config.hooks)
  (h : engine.Owned)

include hmode hforeign h

/-- One call keeps the writers as they have to be, or a call of the ranks
fails. -/
theorem exec_sound (hspares : op.SparesWriters engine) : (exec config engine op).Sound := by
  have hweaken : ∀ {method : Method Fingerprint Digest Env Unit},
      wpe method (fun _ => Owned) Sound engine → (method.after engine).Sound := by
    intro method hmethod
    apply after_of_wpe
    exact wpe_mono hmethod fun _ _ hnext => .inr hnext
  unfold exec
  cases op with
  | admitRequest request freshId recreatedId addError =>
      apply hweaken
      unfold EngineOp.action
      rw [wpe_bind]
      exact admitRequest_owned config hmode h hforeign request freshId recreatedId addError
  | step choice =>
      apply hweaken
      unfold EngineOp.action
      rw [wpe_bind]
      exact stepSync_owned config h choice
  | abortRequest seqId => exact hweaken (abortRequest_owned config h seqId)
  | invalidateChain chainId => exact hweaken (invalidateChain_owned config h hspares)
  | discardChain chainId expectedSeqId =>
      apply hweaken
      unfold EngineOp.action
      rw [wpe_bind]
      exact discardChain_owned config h chainId expectedSeqId

/-- A run of such calls keeps the writers as they have to be. -/
theorem run_owned (ops : List (EngineOp Env)) (hspares : RunSparesWriters config engine ops) :
    (ops.foldl (exec config) engine).Owned := by
  induction ops generalizing engine with
  | nil => exact h
  | cons op rest ih =>
      obtain ⟨hop, hsucceeded, hrest⟩ := hspares
      rcases exec_sound config hmode hforeign h hop with hfailed | howned
      · exact absurd (hsucceeded.symm.trans hfailed) (by decide)
      · exact ih howned hrest

end

omit [DecidableEq Fingerprint] [DecidableEq Digest] in
/-- A new engine has no writers. -/
theorem owned_new {maxTombstones : ℤ} {maxTokenHistoryTokens : Option ℤ} {index : ChainCacheIndex Fingerprint Digest}
    (hnew : ChainCacheIndex.new maxTombstones maxTokenHistoryTokens = .ok index) (env : Env) :
    Owned { runtime := { index := index, env := env } } := by
  have hempty : ∀ chainId, index.records.get? chainId = none := by
    intro chainId
    rw [ChainOp.records_new hnew]
    rfl
  refine ⟨⟨ChainOp.inv_new hnew, fun {seqId chainId} => ?_, fun {chainId record} hrecord => ?_⟩, fun seqId => ?_⟩
  · constructor
    · exact fun hwriter => nomatch hwriter
    · rintro ⟨record, hrecord, -⟩
      exact nomatch (hempty chainId).symm.trans hrecord
  · exact nomatch (hempty chainId).symm.trans hrecord
  · constructor
    · exact fun hmem => nomatch hmem
    · rintro ⟨chainId, hwriter⟩
      exact nomatch hwriter

/-- **The writers of the chains.** In every run of the engine in chain mode
whose calls of the ranks succeed and which invalidates no chain while a sequence
writes it, the sequences in the scheduler are those of
`_active_chain_sequences`, each writes the ACTIVE chain whose record has its id,
and every ACTIVE chain is written by one; so a step runs sequences with a live
chain only. -/
theorem chain_writers_agree (hmode : config.chainMode = true)
    (hforeign : ForeignErrors config.hooks) {maxTombstones : ℤ} {maxTokenHistoryTokens : Option ℤ}
    {index : ChainCacheIndex Fingerprint Digest}
    (hnew : ChainCacheIndex.new maxTombstones maxTokenHistoryTokens = .ok index) (env : Env)
    (ops : List (EngineOp Env))
    (hspares : RunSparesWriters config { runtime := { index := index, env := env } } ops) :
    let engine := ops.foldl (exec config)
      ({ runtime := { index := index, env := env } } : LLMEngine Fingerprint Digest Env)
    engine.WritersAgree ∧ ∀ choice : StepChoice Env,
      ∀ seqId ∈ choice.batch.filter fun seqId => seqId ∈ engine.queue,
        ∃ sequence record, engine.activeChainSequences.get? seqId = some sequence ∧
          engine.runtime.index.records.get? sequence.chainId = some record ∧
          record.state = .active ∧ record.seqId = seqId := by
  intro engine
  have hagree : engine.WritersAgree :=
    (run_owned config hmode hforeign (owned_new hnew env) ops hspares).writersAgree
  refine ⟨hagree, fun choice seqId hmem => ?_⟩
  have hqueued : seqId ∈ engine.queue := by simpa using (List.mem_filter.mp hmem).2
  obtain ⟨sequence, hsequence⟩ := Dict.mem_keys_iff.mp ((hagree.queued seqId).mp hqueued)
  obtain ⟨record, hrecord, hactive, hseq⟩ := hagree.chain hsequence
  exact ⟨sequence, record, hsequence, hrecord, hactive, hseq⟩

end Runs

/-- A new engine with room for everything. -/
def roomyEngine : LLMEngine Unit (Option (List UInt8)) Unit where
  runtime := { index := { maxTombstones := 1024, maxTokenHistoryTokens := none }, env := () }

/-- A first request, its only step, and the next request on the chain; then
another chain is discarded. -/
def calmRun : List (EngineOp Unit) :=
  [.admitRequest { tokenIds := [1, 2] } "chain_a" "chain_b" none,
    .step { batch := [0], isPrefill := true, sample := fun _ => some 3, isFinished := fun _ => true },
    .admitRequest { tokenIds := [1, 2, 3, 4], chainId := "chain_a" } "chain_c" "chain_d" none,
    .admitRequest { tokenIds := [5] } "chain_e" "chain_f" none,
    .discardChain "chain_e" 2]

/-- After the run the second turn of the first chain is the only one. -/
theorem calm_run_writers_agree :
    (calmRun.foldl (exec roomyConfig) roomyEngine).WritersAgree ∧
      (calmRun.foldl (exec roomyConfig) roomyEngine).queue = [0] := by
  have hforeign : ForeignErrors roomyConfig.hooks := by
    constructor <;> intros <;> intro runtime error hraise <;> exact nomatch hraise
  have hspares : RunSparesWriters roomyConfig roomyEngine calmRun :=
    .cons _ trivial (by decide +kernel) <| .cons _ trivial (by decide +kernel) <|
      .cons _ trivial (by decide +kernel) <| .cons _ trivial (by decide +kernel) <|
        .cons _ trivial (by decide +kernel) trivial
  exact ⟨(chain_writers_agree roomyConfig rfl hforeign (rfl : ChainCacheIndex.new 1024 none = .ok _)
    () calmRun hspares).1, by decide +kernel⟩

/-- A request is admitted and prefilled, and its chain invalidated. -/
def invalidatedEngine : LLMEngine Unit (Option (List UInt8)) Unit :=
  [EngineOp.admitRequest { tokenIds := [1, 2] } "chain_a" "chain_b" none,
    .step { batch := [0], isPrefill := true, sample := fun _ => some 3 },
    .invalidateChain "chain_a"].foldl (exec roomyConfig) roomyEngine

/-- `invalidate_chain` of an ACTIVE chain leaves its sequence in the scheduler,
and the next decode step runs it and reports a token. -/
theorem invalidated_chain_runs_on :
    invalidatedEngine.rpcFailed = false ∧ ¬ invalidatedEngine.WritersAgree ∧
      invalidatedEngine.queue = [0] ∧ invalidatedEngine.activeChainSequences.keys = [] ∧
      invalidatedEngine.runtime.index.records.keys = [] ∧
      ((stepSync roomyConfig { batch := [0], sample := fun _ => some 4 }
        invalidatedEngine).1.toOption.map StepReport.tokenOutputs) = some [(0, [4])] := by
  have hqueue : invalidatedEngine.queue = [0] := by decide
  have hkeys : invalidatedEngine.activeChainSequences.keys = [] := by decide
  refine ⟨by decide, fun hagree => ?_, hqueue, hkeys, by decide, by decide⟩
  have hmem := (hagree.queued 0).mp (by rw [hqueue]; exact List.mem_singleton_self 0)
  rw [hkeys] at hmem
  exact nomatch hmem

end LLMEngine
