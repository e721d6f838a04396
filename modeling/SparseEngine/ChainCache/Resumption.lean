import SparseEngine.ChainCache.Turns

/-!
# Continuing a conversation

Runs of an engine: requests are admitted, tokens sampled, turns finished,
chains demoted, evicted, discarded and invalidated, with hooks that may answer
or raise anything.  In every state of a run an IDLE chain none of whose turns
failed at its end has its history, its boundary and its digest in step, and a
request that continues it is planned as a continuation.
-/

open Routine

namespace LLMEngine

open ChainCacheIndex ChainRuntime

variable {Fingerprint Digest Env : Type}

/-! ## The end of a turn -/

/-- The chain whose turn a finished sequence ends. -/
def finishing (engine : LLMEngine Fingerprint Digest Env) (seqId : ℕ) : List String :=
  ((engine.activeChainSequences.get? seqId).map EngineSequence.chainId).toList

/-- The end of a turn settles its chain, or raises and settles the other
ones. -/
theorem finishSequence_settled [DecidableEq Digest] (config : EngineConfig Fingerprint Digest Env)
    {failed : List String} {engine : LLMEngine Fingerprint Digest Env}
    (h : Each (Settled config.sha config.fingerprint failed) engine.runtime.index) (seqId : ℕ) :
    wpe (finishSequence config seqId) (fun _ => Holds (Each (Settled config.sha config.fingerprint failed)))
      (Holds (Each (Settled config.sha config.fingerprint (engine.finishing seqId ++ failed))))
      engine := by
  unfold finishSequence
  rw [wpe_get]
  unfold finishing
  cases hsequence : engine.activeChainSequences.get? seqId with
  | none =>
      have hkept : Maintains (Holds (Each (Settled config.sha config.fingerprint failed)))
          (do broadcast config (call (config.hooks.freeSeqPayload seqId)); schedulerAbort seqId) :=
        .bind (maintains_broadcast config (maintains_call _)) fun _ => maintains_schedulerAbort seqId
      exact hkept engine h
  | some sequence =>
      show wpe _ _ (Holds (Each (Settled config.sha config.fingerprint (sequence.chainId :: failed)))) engine
      have hopen : Each (Settled config.sha config.fingerprint (sequence.chainId :: failed))
          engine.runtime.index :=
        h.imp fun _ _ hturn => hturn.mono fun _ hmem => List.mem_cons_of_mem _ hmem
      dsimp only
      rw [wpe_bind, wpe_onRuntime, wpe_onIndex]
      refine ChainCacheCoordinator.prepareProcessedTokens_wpe _ _ _ _ _ hopen
        fun record stored digest _ _ hpack _ _ _ hdigest => ?_
      rw [← length_packTokenIds hpack] at hdigest ⊢
      have hfinish : Maintains (Holds (Each (Settled config.sha config.fingerprint (sequence.chainId :: failed))))
          (broadcast config (chainFinish config.hooks config.sha sequence.chainId seqId digest
            (max 0 ((stored.length : ℤ) - 1)))) :=
        maintains_broadcast config (maintains_chainFinish config.hooks (Each.stable _) _ _ _ _ _
          fun slots => finishDigest_settled _ _ _ slots 1)
      refine wpe_then (hfinish _ hopen) fun _ next hnext => ?_
      rw [wpe_bind, wpe_onRuntime, wpe_onIndex]
      refine wpe_mono (rememberPreparedTokens_settled hdigest hnext) fun _ index hindex => ?_
      rw [wpe_bind]
      exact hindex

/-! ## Runs -/

/-- What the world does to an engine.  `work` is the model runner between two
calls. -/
inductive TurnOp (Env : Type) where
  | admission (request : AdmissionRequest) (freshId recreatedId : String) (addError : Option PyError)
  | append (seqId : ℕ) (token : ℤ)
  | finish (seqId : ℕ)
  | clearReservation (chainId : String)
  | reclaim (chainId : String) (seqId : ℕ) (demote : Bool)
  | reclaimFailed (seqId : ℕ)
  | abort (seqId : ℕ)
  | invalidate (chainId : String)
  | discard (chainId : String) (seqId : ℕ)
  | work (update : Env → Env)

variable [DecidableEq Fingerprint] [DecidableEq Digest]
  (config : EngineConfig Fingerprint Digest Env)

/-- The call an op stands for. -/
def TurnOp.action : TurnOp Env → Method Fingerprint Digest Env Unit
  | .admission request freshId recreatedId addError => do
      let _ ← admitRequest config request freshId recreatedId addError
  | .append seqId token => appendToken seqId token
  | .finish seqId => finishSequence config seqId
  | .clearReservation chainId => onRuntime (ChainRuntime.clearReservation chainId)
  | .reclaim chainId seqId demote =>
      broadcast config (chainReclaimIdle config.hooks chainId seqId demote)
  | .reclaimFailed seqId => LLMEngine.reclaimFailed config seqId
  | .abort seqId => abortRequest config seqId
  | .invalidate chainId => invalidateChain config chainId
  | .discard chainId seqId => do
      let _ ← discardChain config chainId seqId
  | .work update =>
      write fun engine => { engine with runtime.env := update engine.runtime.env }

/-- An engine with the chains whose turn failed at its end. -/
structure TurnState (Fingerprint Digest Env : Type) where
  engine : LLMEngine Fingerprint Digest Env
  failed : List String := []

/-- The chains an op adds to the failed ones. -/
def TurnOp.fails (engine : LLMEngine Fingerprint Digest Env) : TurnOp Env → List String
  | .finish seqId =>
      match (finishSequence config seqId engine).1 with
      | .ok _ => []
      | .error _ => engine.finishing seqId
  | _ => []

/-- One op, whether it returns or raises. -/
def TurnState.step (state : TurnState Fingerprint Digest Env) (op : TurnOp Env) :
    TurnState Fingerprint Digest Env where
  engine := (op.action config).after state.engine
  failed := op.fails config state.engine ++ state.failed

def TurnState.run (state : TurnState Fingerprint Digest Env) (ops : List (TurnOp Env)) :
    TurnState Fingerprint Digest Env :=
  ops.foldl (TurnState.step config) state

/-- Every chain of the state is settled. -/
def TurnState.AllSettled (state : TurnState Fingerprint Digest Env) : Prop :=
  Each (Settled config.sha config.fingerprint state.failed) state.engine.runtime.index

variable {state : TurnState Fingerprint Digest Env}

/-- One op keeps the chains settled. -/
theorem TurnState.step_settled (h : state.AllSettled config) (op : TurnOp Env) :
    (state.step config op).AllSettled config := by
  have hstable := Each.stable (Settled config.sha config.fingerprint state.failed)
  have hplain : Maintains (Holds (Each (Settled config.sha config.fingerprint state.failed)))
      (op.action config) → op.fails config state.engine = [] → (state.step config op).AllSettled config := by
    intro hkept hnone
    unfold AllSettled step
    rw [hnone, List.nil_append]
    exact after_of_wpe (hkept state.engine h)
  cases op with
  | admission request freshId recreatedId addError =>
      refine hplain (.bind ?_ fun _ => .pure _) rfl
      exact maintains_admitRequest config hstable
        (fun plan => chainApplyAdmission_settled config.hooks plan) request freshId recreatedId
        addError
  | append seqId token =>
      refine hplain (.write fun engine hgood => ?_) rfl
      show Each _ _
      cases engine.activeChainSequences.get? seqId with
      | none => exact hgood
      | some sequence => exact hgood
  | finish seqId =>
      have hspec := finishSequence_settled config h seqId
      rw [wpe_def] at hspec
      show Each (Settled config.sha config.fingerprint
        ((TurnOp.finish seqId).fails config state.engine ++ state.failed))
        (finishSequence config seqId state.engine).2.runtime.index
      rcases hrun : (finishSequence config seqId state.engine).1 with error | result
      · have hfails : (TurnOp.finish seqId).fails config state.engine =
            state.engine.finishing seqId := by simp only [TurnOp.fails, hrun]
        rw [hrun] at hspec
        rw [hfails]
        exact hspec
      · have hfails : (TurnOp.finish seqId).fails config state.engine = [] := by
          simp only [TurnOp.fails, hrun]
        rw [hrun] at hspec
        rw [hfails]
        exact hspec
  | clearReservation chainId =>
      exact hplain (maintains_onRuntime (maintains_clearReservation hstable.toSteady chainId)) rfl
  | reclaim chainId seqId demote =>
      exact hplain (maintains_broadcast config
        (maintains_chainReclaimIdle config.hooks hstable.toSteady chainId seqId demote)) rfl
  | reclaimFailed seqId => exact hplain (maintains_reclaimFailed config hstable seqId) rfl
  | abort seqId => exact hplain (maintains_abortRequest config hstable seqId) rfl
  | invalidate chainId => exact hplain (maintains_invalidateChain config hstable chainId) rfl
  | discard chainId seqId =>
      exact hplain (.bind (maintains_discardChain config hstable chainId seqId) fun _ => .pure _) rfl
  | work update => exact hplain (.write fun _ hgood => hgood) rfl

/-- A run keeps the chains settled. -/
theorem TurnState.run_settled (h : state.AllSettled config) (ops : List (TurnOp Env)) :
    (state.run config ops).AllSettled config := by
  induction ops generalizing state with
  | nil => exact h
  | cons op rest ih => exact ih (state.step_settled config h op)

/-- A new engine. -/
def start (index : ChainCacheIndex Fingerprint Digest) (env : Env) :
    TurnState Fingerprint Digest Env where
  engine := { runtime := { index := index, env := env } }

omit [DecidableEq Fingerprint] [DecidableEq Digest] in
theorem start_settled {maxTombstones : ℤ} {maxTokenHistoryTokens : Option ℤ}
    {index : ChainCacheIndex Fingerprint Digest}
    (hnew : ChainCacheIndex.new maxTombstones maxTokenHistoryTokens = .ok index) (env : Env) :
    (start index env).AllSettled config := by
  refine ⟨ChainOp.inv_new hnew, fun {chainId record} hrecord => ?_⟩
  have hnone : index.records.get? chainId = none := by
    rw [ChainOp.records_new hnew]
    rfl
  exact nomatch hnone.symm.trans hrecord

end LLMEngine

/-! ## Storing the history cannot fail -/

namespace ChainCacheIndex

variable {Fingerprint Digest : Type} {index : ChainCacheIndex Fingerprint Digest}
  {prepared : PreparedChainTokens Digest} {stored : List UInt32}

/-- The chain is its sequence's own, and there is room for the history. -/
structure Expects (prepared : PreparedChainTokens Digest) (stored : List UInt32)
    (boundary : ChainRecord Fingerprint Digest → Prop)
    (index : ChainCacheIndex Fingerprint Digest) : Prop where
  inv : Inv index
  ready : ∃ record, index.records.get? prepared.chainId = some record ∧
    record.seqId = prepared.seqId ∧ boundary record ∧
    ∀ limit ∈ index.maxTokenHistoryTokens,
      index.tokenHistoryTokens - record.tokenIds.length + stored.length ≤ limit

/-- The record is between the two writes of its turn. -/
def AtBoundary (prepared : PreparedChainTokens Digest)
    (record : ChainRecord Fingerprint Digest) : Prop :=
  record.state = .idle ∧ record.processedTokenCount = prepared.processedTokenCount ∧
    record.processedTokenDigest = prepared.processedTokenDigest

/-- Evicting another chain makes room only. -/
theorem Expects.maintains_evict {boundary : ChainRecord Fingerprint Digest → Prop}
    {chainId : String} (hother : chainId ≠ prepared.chainId) :
    Maintains (Expects prepared stored boundary) (evict chainId) := by
  intro index h
  refine evict_wpe h.inv h fun victim hvictim _ hid => ?_
  obtain ⟨record, hrecord, hseq, hboundary, hfits⟩ := h.ready
  rw [← hid] at hvictim
  refine ⟨h.inv.afterRetire hvictim, record, ?_, hseq, hboundary, fun limit hlimit => ?_⟩
  · show (index.records.erase victim.chainId).get? prepared.chainId = some record
    rw [Dict.get?_erase, if_neg (by rw [hid]; exact hother.symm)]
    exact hrecord
  · have hroom := hfits limit hlimit
    show index.tokenHistoryTokens - victim.tokenIds.length - record.tokenIds.length + stored.length ≤ limit
    omega

/-- `finish_digest` of an expected chain puts it at its boundary. -/
theorem Expects.finishDigest_wpe (h : Expects prepared stored (fun _ => True) index)
    (sha : Sha256 Digest) (physicalSlotsByLayer : List ℤ) (residentRows : ℤ) :
    wpe (finishDigest sha prepared.chainId prepared.processedTokenDigest
        prepared.processedTokenCount physicalSlotsByLayer residentRows)
      (fun record next => record.chainId = prepared.chainId ∧
        Expects prepared stored (AtBoundary prepared) next) (fun _ => True) index := by
  obtain ⟨record, hrecord, hseq, -, hfits⟩ := h.ready
  refine ChainCacheIndex.finishDigest_wpe sha _ _ physicalSlotsByLayer residentRows trivial
    fun found hfound _ hprocessed _ => ?_
  obtain rfl := Option.some.inj (hrecord.symm.trans hfound)
  have hid : record.chainId = prepared.chainId := h.inv.chainId_eq hrecord
  refine ⟨hid, (Quiet.afterFinish h.inv hrecord hprocessed _ _ _ _).inv, _,
    Dict.get?_set_self _ _ _, hseq, ⟨rfl, rfl, rfl⟩, hfits⟩

/-- The history of a chain at its boundary is stored. -/
theorem Expects.remember_returns [DecidableEq Digest] (h : Expects prepared stored (AtBoundary prepared) index)
    (hbytes : prepared.tokenBytes = Packing.pack 4 (stored.map UInt32.toNat)) :
    wpe (ChainCacheCoordinator.rememberPreparedTokens prepared) (fun _ _ => True) (fun _ => False) index := by
  obtain ⟨record, hrecord, hseq, ⟨hidle, hcount, hdigest⟩, hfits⟩ := h.ready
  have hid : record.chainId = prepared.chainId := h.inv.chainId_eq hrecord
  have hlookup : ∀ {next : ChainCacheIndex Fingerprint Digest} {found},
      next.records.get? prepared.chainId = some found → lookup prepared.chainId next = (.ok found, next) := by
    intro next found hfound
    rw [lookup_apply, lookupRecord_eq_ok.mpr hfound]
  have hstored : (index.afterStore record stored).records.get? prepared.chainId =
      some { record with tokenIds := stored } := by
    show (index.records.set record.chainId _).get? prepared.chainId = _
    rw [hid, Dict.get?_set_self]
  have hroom : ¬ ∃ limit ∈ index.maxTokenHistoryTokens,
      limit < index.tokenHistoryTokens - record.tokenIds.length + stored.length := by
    rintro ⟨limit, hlimit, hover⟩
    exact absurd (hfits limit hlimit) (not_le.mpr hover)
  unfold ChainCacheCoordinator.rememberPreparedTokens
  rw [wpe_bind, wpe_def, hlookup hrecord]
  dsimp only
  rw [wpe_guard]
  refine ⟨fun hwrong => ?_, fun _ => ?_⟩
  · exact hwrong.elim (fun hne => hne hseq) fun hne => hne hidle
  rw [wpe_guard]
  refine ⟨fun hwrong => ?_, fun _ => ?_⟩
  · exact hwrong.elim (fun hne => hne hcount.symm) fun hne => hne hdigest.symm
  rw [hbytes, readTokenBytes_pack, wpe_bind, wpe_def]
  show wpe (storeTokenHistory record stored >>= fun _ => lookup prepared.chainId)
    (fun _ _ => True) (fun _ => False) index
  rw [← hid] at hrecord
  have hstore : storeTokenHistory record stored index = (.ok (), index.afterStore record stored) := by
    unfold storeTokenHistory checkTokenHistoryCapacity
    simp only [bind_apply, read_apply, raiseIf_apply, if_neg hroom, write_apply, modifyRecord, hrecord]
    rfl
  rw [wpe_bind, wpe_def, hstore]
  dsimp only
  rw [wpe_def, hlookup hstored]
  trivial

end ChainCacheIndex

namespace LLMEngine

open ChainCacheIndex ChainRuntime

variable {Fingerprint Digest Env : Type} (config : EngineConfig Fingerprint Digest Env)

/-- A `chain_finish` that returns leaves the chain at its boundary. -/
theorem chainFinish_expects {prepared : PreparedChainTokens Digest} {stored : List UInt32}
    {runtime : ChainRuntime Fingerprint Digest Env} (h : Expects prepared stored (fun _ => True) runtime.index) :
    wpe (chainFinish config.hooks config.sha prepared.chainId prepared.seqId
        prepared.processedTokenDigest prepared.processedTokenCount)
      (fun _ => ChainRuntime.Holds (Expects prepared stored (AtBoundary prepared)))
      (fun _ => True) runtime :=
  chainFinish_wpe config.hooks config.sha _ _ _ _ (fun slots _ hindex => hindex.finishDigest_wpe config.sha slots 1)
    (fun _ hother => Expects.maintains_evict hother) h

variable [DecidableEq Digest]

/-- The two calls that record the end of a turn on every rank. -/
def recordTurn (seqId : ℕ) (sequence : EngineSequence) :
    Method Fingerprint Digest Env (PreparedChainTokens Digest) := do
  let prepared ← onRuntime (onIndex (ChainCacheCoordinator.prepareProcessedTokens config.sha
    sequence.chainId seqId sequence.tokenIds (max 0 ((sequence.tokenIds.length : ℤ) - 1))))
  let _ ← broadcast config (chainFinish config.hooks config.sha prepared.chainId
    prepared.seqId prepared.processedTokenDigest prepared.processedTokenCount)
  pure prepared

/-- **A recorded turn is remembered.** Once `chain_finish` has returned on every
rank, the rest of the end of the turn does not raise. -/
theorem finishSequence_returns {engine : LLMEngine Fingerprint Digest Env} {seqId : ℕ}
    {sequence : EngineSequence} {prepared : PreparedChainTokens Digest} (hinv : Inv engine.runtime.index)
    (hsequence : engine.activeChainSequences.get? seqId = some sequence)
    (hrecorded : (recordTurn config seqId sequence engine).1 = .ok prepared) :
    (finishSequence config seqId engine).1 = .ok () := by
  -- what was prepared is still what the record expects:
  have hexpects : wpe (recordTurn config seqId sequence)
      (fun prepared next => ∃ stored, prepared.tokenBytes = Packing.pack 4 (stored.map UInt32.toNat) ∧
        Expects prepared stored (AtBoundary prepared) next.runtime.index)
      (fun _ => True) engine := by
    unfold recordTurn
    rw [wpe_bind, wpe_onRuntime, wpe_onIndex]
    refine ChainCacheCoordinator.prepareProcessedTokens_wpe _ _ _ _ _ trivial
      fun record stored digest hrecord hseq _ _ _ hfits _ => ?_
    rw [wpe_bind]
    unfold broadcast
    apply wpe_onError
    rw [wpe_bind, wpe_onRuntime]
    refine wpe_mono (chainFinish_expects config ⟨hinv, record, hrecord, hseq, trivial, hfits⟩)
      fun _ runtime hruntime => ?_
    rw [wpe_bind, wpe_onRuntime]
    refine wpe_imp (maintains_call _ runtime hruntime) (fun _ runtime hruntime => ?_) fun _ _ => trivial
    exact ⟨stored, rfl, hruntime⟩
  have hrun : finishSequence config seqId engine =
      (recordTurn config seqId sequence >>= fun prepared => do
        let _ ← onRuntime (onIndex (ChainCacheCoordinator.rememberPreparedTokens prepared))
        popActive seqId
        schedulerAbort seqId) engine := by
    unfold finishSequence recordTurn
    simp only [bind_apply, read_apply, hsequence]
    split
    · split <;> rfl
    · rfl
  rw [wpe_def, hrecorded] at hexpects
  obtain ⟨stored, hbytes, hready⟩ := hexpects
  have hremembered : wpe (onRuntime (onIndex
      (ChainCacheCoordinator.rememberPreparedTokens prepared))) (fun _ _ => True) (fun _ => False)
      (recordTurn config seqId sequence engine).2 := by
    rw [wpe_onRuntime, wpe_onIndex]
    exact hready.remember_returns hbytes
  rw [hrun, bind_apply, ← Prod.mk.eta (p := recordTurn config seqId sequence engine), hrecorded]
  rw [wpe_def] at hremembered
  rcases hlast : onRuntime (onIndex (ChainCacheCoordinator.rememberPreparedTokens prepared))
    (recordTurn config seqId sequence engine).2 with ⟨error | record, last⟩
  · rw [hlast] at hremembered
    exact hremembered.elim
  · simp only [bind_apply, hlast]
    rfl

end LLMEngine

/-! ## The next request -/

namespace ChainCacheIndex

variable {Fingerprint Digest : Type} {sha : Sha256 Digest}
  {record : ChainRecord Fingerprint Digest}

/-- The prompt has the tokens of the chain up to its boundary. -/
def Continues (record : ChainRecord Fingerprint Digest) (prompt : List ℤ) : Prop :=
  prompt.take record.processedTokenCount.toNat =
    (unpackTokenIds record.tokenIds).take record.processedTokenCount.toNat

/-- A prompt has the digest of the chain exactly if it has its tokens. -/
theorem stableTokenDigest_continues (hinjective : Function.Injective sha.digest)
    (hresumable : record.turn.Resumable sha) (prompt : List ℤ) :
    stableTokenDigest sha prompt (some record.processedTokenCount) =
      .ok record.processedTokenDigest ↔ Continues record prompt := by
  obtain ⟨hnonneg, hle, hfits, hdigest⟩ := stableTokenDigest_eq_ok.mp hresumable.digest_eq
  simp only [ChainRecord.turn] at hnonneg hle hfits hdigest
  rw [stableTokenDigest_eq_ok]
  unfold Continues
  constructor
  · rintro ⟨-, -, hfits', hdigest'⟩
    exact Packing.packSigned_inj (by decide) hfits' hfits (hinjective (hdigest'.symm.trans hdigest))
  · intro hsame
    have hlength := congrArg List.length hsame
    rw [List.length_take, List.length_take] at hlength
    refine ⟨hnonneg, by omega, ?_, ?_⟩
    · rw [hsame]
      exact hfits
    · rw [hsame]
      exact hdigest

/-- The history of a chain continues it. -/
theorem continues_history (record : ChainRecord Fingerprint Digest) (suffix : List ℤ)
    (hprocessed : record.processedTokenCount = max 0 ((record.tokenIds.length : ℤ) - 1)) :
    Continues record (unpackTokenIds record.tokenIds ++ suffix) := by
  unfold Continues
  apply List.take_append_of_le_length
  unfold unpackTokenIds
  rw [List.length_map]
  omega

variable [DecidableEq Fingerprint] [DecidableEq Digest]
  {index : ChainCacheIndex Fingerprint Digest} {chainId : String}

/-- A request on an IDLE chain is a continuation, or it is refused. -/
theorem classifyAdmission_continues (hinjective : Function.Injective sha.digest)
    (hrecord : index.records.get? chainId = some record) (hidle : record.state = .idle)
    (hresumable : record.turn.Resumable sha) (prompt : List ℤ) (result : AdmissionStatus × ℤ) :
    index.classifyAdmission sha chainId record.seqId (.tokens prompt) record.fingerprint = .ok result ↔
      Continues record prompt ∧ result = (.resumed, record.processedTokenCount) := by
  unfold classifyAdmission
  rw [hrecord]
  dsimp only
  rw [classifyResume_eq_ok, inputDigest_tokens_eq_ok, stableTokenDigest_continues hinjective hresumable]
  constructor
  · exact fun h => ⟨h.2.2.2.1, h.2.2.2.2⟩
  · exact fun h => ⟨hidle, rfl, rfl, h.1, h.2⟩

end ChainCacheIndex

namespace ChainRuntime

open ChainCacheIndex

variable {Fingerprint Digest Env : Type} (hooks : ChainHooks Fingerprint Digest Env)

/-- `_offload_plan` only sorts the victims. -/
theorem offloadPlan_wpe (plan : ChainAdmissionPlan) (runtime : ChainRuntime Fingerprint Digest Env) :
    wpe (offloadPlan hooks plan)
      (fun split next => next.index = runtime.index ∧ ∃ demote evict,
        split = { plan with demoteChainIds := demote, victimChainIds := evict })
      (fun next => next.index = runtime.index) runtime := by
  have hindex : Holds (fun index => index = runtime.index) runtime := rfl
  unfold offloadPlan
  rw [wpe_ite]
  refine ⟨fun _ => ?_, fun _ => ⟨rfl, plan.demoteChainIds, plan.victimChainIds, rfl⟩⟩
  have hkept : Maintains (Holds fun index => index = runtime.index)
      (splitVictims hooks plan.victimChainIds) := maintains_splitVictims hooks _
  exact wpe_then (hkept runtime hindex) fun victims next hnext => ⟨hnext, victims.1, victims.2, rfl⟩

variable [DecidableEq Fingerprint] [DecidableEq Digest]

/-- The plan of a prompt is its classification on the index as it stands. -/
theorem chainAdmissionPlan_wpe (sha : Sha256 Digest) (fingerprint : Fingerprint)
    (chainId : String) (seqId : ℕ) (prompt : List ℤ) (runtime : ChainRuntime Fingerprint Digest Env) :
    wpe (chainAdmissionPlan hooks sha fingerprint chainId seqId prompt)
      (fun plan next => next.index = runtime.index ∧ plan.chainId = chainId ∧
        plan.seqId = seqId ∧ runtime.index.classifyAdmission sha chainId seqId (.tokens prompt)
          fingerprint = .ok (plan.status, plan.reusedTokens))
      (fun next => next.index = runtime.index) runtime := by
  have hindex : Holds (fun index => index = runtime.index) runtime := rfl
  have hcall : Maintains (Holds fun index => index = runtime.index)
      (call hooks.decodeReservedSlots) := maintains_call _
  have hrequired : ∀ count decodeReserved, Maintains (Holds fun index => index = runtime.index)
      (admissionRequirements hooks chainId count decodeReserved) :=
    maintains_admissionRequirements hooks chainId
  unfold chainAdmissionPlan planWith
  refine wpe_then (hcall runtime hindex) fun decodeReserved next hnext => ?_
  refine wpe_then (hrequired _ _ next hnext) fun demand next hnext => ?_
  replace hnext : next.index = runtime.index := hnext
  rw [wpe_get, wpe_bind]
  refine wpe_ofExcept (fun plan hplan => ?_) hnext
  obtain ⟨status, reusedTokens, victims, hclass, -, rfl⟩ := planAdmissionInput_eq_ok.mp hplan
  refine wpe_then_imp (offloadPlan_wpe hooks _ next) (fun split last hsplit => ?_) fun last hlast => hlast.trans hnext
  obtain ⟨hlast, demote, evict, rfl⟩ := hsplit
  rw [wpe_pure]
  rw [hnext] at hclass
  exact ⟨hlast.trans hnext, rfl, rfl, hclass⟩

end ChainRuntime

namespace LLMEngine

open ChainCacheIndex ChainRuntime

variable {Fingerprint Digest Env : Type} [DecidableEq Fingerprint] [DecidableEq Digest]
  (config : EngineConfig Fingerprint Digest Env)

/-- A request is planned on the chain it names as the index stands, or recreates
it. -/
theorem planRequest_wpe (request : AdmissionRequest)
    (existing : Option (ChainRecord Fingerprint Digest)) (chainId recreatedId : String)
    (seqId : ℕ) (prompt : List ℤ) (engine : LLMEngine Fingerprint Digest Env) :
    wpe (planRequest config request existing chainId recreatedId seqId prompt)
      (fun planned _ =>
        (planned.2 = (chainId, false) ∧
          engine.runtime.index.classifyAdmission config.sha chainId seqId (.tokens prompt)
            config.fingerprint = .ok (planned.1.status, planned.1.reusedTokens)) ∨
        (planned.2.2 = true ∧ request.chainAppendOnly = false))
      (fun _ => True) engine := by
  have hbody : wpe (do
      let plan ← onRuntime (chainAdmissionPlan config.hooks config.sha config.fingerprint chainId seqId prompt)
      pure (plan, chainId, false))
      (fun planned _ => planned.2 = (chainId, false) ∧
        engine.runtime.index.classifyAdmission config.sha chainId seqId (.tokens prompt)
          config.fingerprint = .ok (planned.1.status, planned.1.reusedTokens))
      (fun _ => True) engine := by
    rw [wpe_bind, wpe_onRuntime]
    exact wpe_imp (chainAdmissionPlan_wpe config.hooks _ _ _ _ _ _)
      (fun _ _ hplanned => ⟨rfl, hplanned.2.2.2⟩) fun _ _ => trivial
  unfold planRequest
  cases happend : request.chainAppendOnly with
  | true =>
      -- an append-only request has no handler
      rw [catchWhen_of_false (by simp)]
      exact wpe_mono hbody fun _ _ hplanned => .inl hplanned
  | false =>
      apply wpe_catchWhen
      refine wpe_imp hbody (fun _ _ hplanned => .inl hplanned) fun next _ =>
        ⟨trivial, fun error => ?_⟩
      refine wpe_then (wpe_true _ _) fun _ next _ => ?_
      exact wpe_then (wpe_true _ _) fun _ _ _ => .inr ⟨rfl, rfl⟩

/-- What an admission on a live chain returns. -/
structure Admitted (engine : LLMEngine Fingerprint Digest Env) (request : AdmissionRequest)
    (record : ChainRecord Fingerprint Digest) (admission : RequestAdmission) : Prop where
  prompt_eq : requestPrompt request (some record) = .ok admission.promptTokenIds
  outcome :
    (admission.chainId = some request.chainId ∧
      engine.runtime.index.classifyAdmission config.sha request.chainId record.seqId
        (.tokens admission.promptTokenIds) config.fingerprint =
          .ok (.resumed, admission.reusedTokens) ∧
      admission.chainStatus = .resumed ∧
      admission.reusedTokens < admission.promptTokenIds.length) ∨
    (engine.runtime.index.classifyAdmission config.sha request.chainId record.seqId
        (.tokens admission.promptTokenIds) config.fingerprint =
          .ok (.created, admission.reusedTokens) ∧ admission.chainStatus = .created) ∨
    (admission.chainStatus = .recreated ∧ request.chainAppendOnly = false)

variable {engine : LLMEngine Fingerprint Digest Env}

/-- What `admit_request` returns for a request that names a live chain. -/
theorem admitRequest_wpe {request : AdmissionRequest} {record : ChainRecord Fingerprint Digest}
    (hrecord : engine.runtime.index.records.get? request.chainId = some record)
    (hnamed : request.chainId ≠ "") (freshId recreatedId : String) (addError : Option PyError) :
    wpe (admitRequest config request freshId recreatedId addError)
      (fun admission _ => Admitted config engine request record admission) (fun _ => True)
      engine := by
  unfold admitRequest
  by_cases hmode : config.chainMode = true
  · -- the chain is found, and its owner's sequence id is taken over
    rw [wpe_bind]
    unfold existingRecord
    rw [if_pos ⟨hmode, hnamed⟩, wpe_bind, wpe_onRuntime, wpe_onIndex]
    refine wpe_lookup (fun found hfound => ?_) trivial
    obtain rfl := Option.some.inj (hrecord.symm.trans hfound)
    rw [wpe_pure, wpe_bind]
    refine wpe_ofExcept (fun prompt hprompt => ?_) trivial
    refine wpe_guarded trivial fun _ => ?_
    rw [wpe_get, wpe_set, if_pos hmode, if_neg hnamed]
    unfold admitChain
    refine wpe_then (planRequest_wpe config _ _ _ _ _ _ _) fun planned next hplanned => ?_
    obtain ⟨plan, admittedId, recreated⟩ := planned
    dsimp only at hplanned ⊢
    refine wpe_guarded trivial fun hsuffix => ?_
    refine wpe_then (wpe_true _ _) fun digest next _ => ?_
    refine wpe_then (wpe_true _ _) fun _ next _ => ?_
    refine wpe_then (wpe_true _ _) fun _ next _ => ?_
    refine wpe_then (wpe_true _ _) fun _ next _ => ?_
    rw [wpe_set, wpe_pure]
    refine ⟨hprompt, ?_⟩
    rcases hplanned with ⟨hid, hclass⟩ | ⟨hrecreated, happend⟩
    · obtain ⟨rfl, rfl⟩ := Prod.mk.inj hid
      cases hstatus : plan.status with
      | resumed =>
          rw [hstatus] at hclass hsuffix
          refine .inl ⟨rfl, hclass, by simp, ?_⟩
          by_contra hshort
          exact hsuffix ⟨rfl, not_lt.mp hshort⟩
      | created =>
          rw [hstatus] at hclass
          exact .inr (.inl ⟨hclass, by simp⟩)
    · exact .inr (.inr ⟨by simp [hrecreated], happend⟩)
  · -- a request may not name a chain in another mode
    refine wpe_then (wpe_true _ _) fun existing next _ => ?_
    rw [wpe_bind]
    refine wpe_ofExcept (fun prompt _ => ?_) trivial
    refine wpe_guarded trivial fun _ => ?_
    rw [wpe_get, wpe_set, if_neg hmode]
    unfold admitPlain
    rw [wpe_guard]
    exact ⟨fun _ => trivial, fun hunnamed => absurd hnamed hunnamed⟩

/-- What a finished turn leaves for the next request on its chain. -/
structure ReadyToContinue (engine : LLMEngine Fingerprint Digest Env) (chainId : String)
    (record : ChainRecord Fingerprint Digest) : Prop where
  /-- All tokens but the last are processed. -/
  processed_eq : record.processedTokenCount = max 0 ((record.tokenIds.length : ℤ) - 1)
  /-- The digest is that of the processed tokens. -/
  digest_eq : stableTokenDigest config.sha (unpackTokenIds record.tokenIds)
    (some record.processedTokenCount) = .ok record.processedTokenDigest
  /-- Tokens appended to the history are planned as a continuation; only victims may lack. -/
  append_planned : ∀ suffix : List ℤ, suffix ≠ [] → ∀ demand : AdmissionDemand,
    record.processedTokenCount < (unpackTokenIds record.tokenIds ++ suffix).length ∧
    engine.runtime.index.planAdmission config.sha chainId record.seqId
        (unpackTokenIds record.tokenIds ++ suffix) config.fingerprint demand =
      (engine.runtime.index.chooseVictims chainId demand.requiredSlotsByLayer
        demand.rowDeficit).map fun victims =>
          { chainId := chainId
            seqId := record.seqId
            status := .resumed
            reusedTokens := record.processedTokenCount
            inputTokenCount := (unpackTokenIds record.tokenIds ++ suffix).length
            victimChainIds := victims
            reservedSlotsByLayer := demand.reservedSlotsByLayer.map (max 0)
            reservedRows := max 0 demand.reservedRows }
  /-- An append-only request that is admitted resumes the chain at its boundary. -/
  append_admitted : ∀ (request : AdmissionRequest) freshId recreatedId addError admission,
    request.chainId = chainId → chainId ≠ "" → request.chainAppendOnly = true →
    (admitRequest config request freshId recreatedId addError engine).1 = .ok admission →
      admission.promptTokenIds = unpackTokenIds record.tokenIds ++ request.tokenIds ∧
      admission.chainId = some chainId ∧ admission.chainStatus = .resumed ∧
      admission.reusedTokens = record.processedTokenCount
  /-- A full prompt is planned exactly if it has the processed tokens and victims are found, and
  then as a continuation. -/
  prompt_planned : ∀ (prompt : List ℤ) (demand : AdmissionDemand),
    ((∃ plan, engine.runtime.index.planAdmission config.sha chainId record.seqId prompt
        config.fingerprint demand = .ok plan ∧ plan.status = .resumed ∧
        plan.reusedTokens = record.processedTokenCount) ↔
      Continues record prompt ∧ ∃ victims, engine.runtime.index.chooseVictims chainId
        demand.requiredSlotsByLayer demand.rowDeficit = .ok victims)
  /-- A full prompt is resumed only with the processed tokens and at least one more. -/
  prompt_admitted : ∀ (request : AdmissionRequest) freshId recreatedId addError admission,
    request.chainId = chainId → chainId ≠ "" → request.chainAppendOnly = false →
    (admitRequest config request freshId recreatedId addError engine).1 = .ok admission →
    admission.chainStatus = .resumed →
      Continues record request.tokenIds ∧
        record.processedTokenCount < request.tokenIds.length

theorem readyToContinue {chainId : String} {record : ChainRecord Fingerprint Digest}
    (hinjective : Function.Injective config.sha.digest)
    (hrecord : engine.runtime.index.records.get? chainId = some record)
    (hidle : record.state = .idle) (hfingerprint : record.fingerprint = config.fingerprint)
    (hresumable : record.turn.Resumable config.sha) :
    ReadyToContinue config engine chainId record := by
  have hprocessed : record.processedTokenCount = max 0 ((record.tokenIds.length : ℤ) - 1) :=
    hresumable.processed_eq
  have hclass := classifyAdmission_continues hinjective hrecord hidle hresumable
  rw [hfingerprint] at hclass
  refine ⟨hprocessed, hresumable.digest_eq, ?_, ?_, ?_, ?_⟩
  · intro suffix hsuffix demand
    have hpos := List.length_pos_iff.mpr hsuffix
    refine ⟨?_, ?_⟩
    · rw [List.length_append]
      unfold unpackTokenIds
      rw [List.length_map]
      omega
    · -- a prompt that extends the stored history resumes the chain
      have hresumes := (hclass (unpackTokenIds record.tokenIds ++ suffix) _).mpr
        ⟨continues_history record suffix hprocessed, rfl⟩
      unfold planAdmission planAdmissionInput
      rw [hresumes]
      cases engine.runtime.index.chooseVictims chainId demand.requiredSlotsByLayer demand.rowDeficit <;> rfl
  · intro request freshId recreatedId addError admission hchain hnamed happend hok
    subst hchain
    have hadmitted := admitRequest_wpe config hrecord hnamed freshId recreatedId addError
    rw [wpe_def, hok] at hadmitted
    obtain ⟨hprompt, houtcome⟩ := hadmitted
    have hprompt_eq : unpackTokenIds record.tokenIds ++ request.tokenIds =
        admission.promptTokenIds := by
      unfold requestPrompt at hprompt
      rw [if_pos happend] at hprompt
      dsimp only at hprompt
      split at hprompt
      · exact nomatch hprompt
      · exact Except.ok.inj hprompt
    refine ⟨hprompt_eq.symm, ?_⟩
    -- with `append` the chain must be resumed; it is neither created nor created again
    rcases houtcome with ⟨hid, hok, hstatus, -⟩ | ⟨hcreated, -⟩ | ⟨-, hfalse⟩
    · exact ⟨hid, hstatus, congrArg Prod.snd ((hclass _ _).mp hok).2⟩
    · exact absurd (congrArg Prod.fst ((hclass _ _).mp hcreated).2) (by simp)
    · exact nomatch happend.symm.trans hfalse
  · intro prompt demand
    constructor
    · rintro ⟨plan, hplan, -, -⟩
      obtain ⟨status, reusedTokens, victims, hok, hvictims, -⟩ := planAdmissionInput_eq_ok.mp hplan
      exact ⟨((hclass _ _).mp hok).1, victims, hvictims⟩
    · rintro ⟨hcontinues, victims, hvictims⟩
      exact ⟨_, planAdmissionInput_eq_ok.mpr ⟨.resumed, record.processedTokenCount, victims,
        (hclass _ _).mpr ⟨hcontinues, rfl⟩, hvictims, rfl⟩, rfl, rfl⟩
  · intro request freshId recreatedId addError admission hchain hnamed happend hok hresumed
    subst hchain
    have hadmitted := admitRequest_wpe config hrecord hnamed freshId recreatedId addError
    rw [wpe_def, hok] at hadmitted
    obtain ⟨hprompt, houtcome⟩ := hadmitted
    have hprompt_eq : request.tokenIds = admission.promptTokenIds := by
      unfold requestPrompt at hprompt
      rw [if_neg (by simp [happend])] at hprompt
      exact Except.ok.inj hprompt
    rw [← hprompt_eq] at houtcome
    -- without it the prompt itself decides, and a resumed one is longer
    rcases houtcome with ⟨-, hok, -, hlonger⟩ | ⟨-, hcreated⟩ | ⟨hrecreated, -⟩
    · obtain ⟨hcontinues, hresult⟩ := (hclass _ _).mp hok
      have hreused : admission.reusedTokens = record.processedTokenCount :=
        congrArg Prod.snd hresult
      exact ⟨hcontinues, hreused ▸ hlonger⟩
    · exact nomatch hcreated.symm.trans hresumed
    · exact nomatch hrecreated.symm.trans hresumed

/-- **A finished turn can be continued.** In every state of every run, with
hooks that may answer or raise anything, a turn that `chain_finish` recorded is
remembered, and an IDLE chain none of whose turns failed at its end is ready for
the next request. -/
theorem finished_turn_ready_to_continue (hinjective : Function.Injective config.sha.digest)
    {maxTombstones : ℤ} {maxTokenHistoryTokens : Option ℤ}
    {index : ChainCacheIndex Fingerprint Digest}
    (hnew : ChainCacheIndex.new maxTombstones maxTokenHistoryTokens = .ok index) (env : Env)
    (ops : List (TurnOp Env)) :
    let state := (start index env).run config ops
    (∀ seqId sequence prepared, state.engine.activeChainSequences.get? seqId = some sequence →
      (recordTurn config seqId sequence state.engine).1 = .ok prepared →
        (finishSequence config seqId state.engine).1 = .ok ()) ∧
    ∀ chainId record, state.engine.runtime.index.records.get? chainId = some record →
      record.state = .idle → chainId ∉ state.failed →
        ReadyToContinue config state.engine chainId record := by
  intro state
  have hsettled : state.AllSettled config :=
    TurnState.run_settled config (start_settled config hnew env) ops
  refine ⟨?_, ?_⟩
  · intro seqId sequence prepared hsequence hrecorded
    exact finishSequence_returns config hsettled.inv hsequence hrecorded
  · intro chainId record hrecord hidle hfinished
    obtain ⟨hfingerprint, hturn⟩ := hsettled.turn hrecord
    have hresumable : record.turn.Resumable config.sha := by
      rcases hturn with hfailed | hactive | hresumable
      · exact absurd hfailed hfinished
      · exact absurd (hidle.symm.trans hactive) (by decide)
      · exact hresumable
    exact readyToContinue config hinjective hrecord hidle hfingerprint hresumable

/-- A cache manager with room for everything and no host snapshots. -/
def roomyHooks : ChainHooks Unit (Option (List UInt8)) Unit where
  offload := false
  pollOffload _ := (.ok (), ())
  hasSnapshot _ _ := (.ok false, ())
  waitSnapshot _ _ := (.ok false, ())
  dropSnapshot _ _ := (.ok (), ())
  invalidateSnapshot _ _ := (.ok (), ())
  restoreSnapshot _ _ := (.ok (), ())
  saveSnapshot _ _ := (.ok (), ())
  requiredBytes _ _ := (.ok 0, ())
  snapshotBytes _ _ := (.ok 0, ())
  usedBytes _ := (.ok 0, ())
  capacityBytes _ := (.ok 0, ())
  freeSeq _ _ := (.ok (), ())
  freeSeqPayload _ _ := (.ok (), ())
  onChainTurnFinished _ _ _ := (.ok (), ())
  releaseDecodeReservation _ _ := (.ok (), ())
  chainHasResidency _ _ := (.ok true, ())
  chainPhysicalResidency _ _ := (.ok [], ())
  decodeReservedSlots _ := (.ok [], ())
  chainCapacityDeficits _ _ _ _ _ _ := (.ok ([], 0, [], 0), ())

def roomyConfig : EngineConfig Unit (Option (List UInt8)) Unit where
  sha := ChainOp.transparentDigest
  fingerprint := ()
  hooks := roomyHooks
  syncRanks _ := (.ok (), ())
  chainMode := true
  maxModelLen := 64

/-- A first turn on the prompt `1 2` that samples the token 3. -/
def firstTurn : List (TurnOp Unit) :=
  [.admission { tokenIds := [1, 2] } "chain_a" "chain_b" none, .append 0 3, .finish 0]

def afterFirstTurn : TurnState Unit (Option (List UInt8)) Unit :=
  (start { maxTombstones := 1024, maxTokenHistoryTokens := none } ()).run roomyConfig firstTurn

theorem record_after_first_turn :
    ∃ record, afterFirstTurn.engine.runtime.index.records.get? "chain_a" = some record ∧
      record.state = .idle ∧ record.tokenIds = [1, 2, 3] ∧ record.processedTokenCount = 2 := by
  have hfound : (afterFirstTurn.engine.runtime.index.records.get? "chain_a").map
      (fun record => (record.state, record.tokenIds, record.processedTokenCount)) =
        some (.idle, [1, 2, 3], 2) := by decide
  obtain ⟨record, hrecord, hfields⟩ := Option.map_eq_some_iff.mp hfound
  simp only [Prod.mk.injEq] at hfields
  exact ⟨record, hrecord, hfields⟩

/-- A prompt that is exactly the processed tokens agrees with the chain and is
refused. -/
theorem prompt_at_boundary_is_refused :
    ∃ record, afterFirstTurn.engine.runtime.index.records.get? "chain_a" = some record ∧
      record.state = .idle ∧ "chain_a" ∉ afterFirstTurn.failed ∧ Continues record [1, 2] ∧
      ¬ ∃ admission, (admitRequest roomyConfig { tokenIds := [1, 2], chainId := "chain_a" }
        "chain_c" "chain_d" none afterFirstTurn.engine).1 = .ok admission := by
  obtain ⟨record, hrecord, hidle, htokens, hprocessed⟩ := record_after_first_turn
  refine ⟨record, hrecord, hidle, by decide, ?_, ?_⟩
  · unfold Continues
    rw [htokens, hprocessed]
    decide
  · have hrefused : (match (admitRequest roomyConfig
          { tokenIds := [1, 2], chainId := "chain_a" } "chain_c" "chain_d" none
          afterFirstTurn.engine).1 with
        | .ok _ => true
        | .error _ => false) = false := by decide
    rintro ⟨admission, hok⟩
    rw [hok] at hrefused
    exact nomatch hrefused

/-- After the first turn the chain is ready, and its history is `1 2 3`. -/
theorem ready_after_first_turn :
    ∃ record, afterFirstTurn.engine.runtime.index.records.get? "chain_a" = some record ∧
      record.tokenIds = [1, 2, 3] ∧
      ReadyToContinue roomyConfig afterFirstTurn.engine "chain_a" record := by
  obtain ⟨record, hrecord, hidle, htokens, -⟩ := record_after_first_turn
  have hinjective : Function.Injective roomyConfig.sha.digest := fun _ _ => Option.some.inj
  have hready := finished_turn_ready_to_continue roomyConfig hinjective
    (rfl : ChainCacheIndex.new 1024 none = .ok _) () firstTurn
  exact ⟨record, hrecord, htokens, hready.2 "chain_a" record hrecord hidle (by decide)⟩

end LLMEngine
