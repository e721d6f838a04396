import SparseEngine.ChainCache.Model

/-!
# The chain runtime

The parts of `ChainCacheCoordinator` and `RuntimeState` that drive the chain
index: planning an admission against the memory of the cache manager, applying
it, finishing a turn, reclaiming an idle chain and invalidating one.

The cache manager, the host snapshots and the ledger of decode reservations
are behind hooks.  A hook may read the whole runtime, may answer anything or
raise, and may change its own state in any way; it does not write the index.
Log lines, the diagnostics of an admission and `_resident_seq_ids`, which
nothing here reads, are left out.
-/

/-- The chain index beside everything the hooks own. -/
structure ChainRuntime (Fingerprint Digest Env : Type) where
  index : ChainCacheIndex Fingerprint Digest
  env : Env

/-- A call of code outside the coordinator and the runtime. -/
abbrev ChainHook (Fingerprint Digest Env α : Type) :=
  ChainRuntime Fingerprint Digest Env → Except PyError α × Env

/-- The cache manager, `ChainOffloadController` and `DecodeReservations`. -/
structure ChainHooks (Fingerprint Digest Env : Type) where
  /-- `coordinator.offload is not None`. -/
  offload : Bool
  pollOffload : ChainHook Fingerprint Digest Env Unit
  /-- `seq_id in offload.snapshots`. -/
  hasSnapshot : ℕ → ChainHook Fingerprint Digest Env Bool
  /-- `offload.wait(seq_id).valid`. -/
  waitSnapshot : ℕ → ChainHook Fingerprint Digest Env Bool
  dropSnapshot : ℕ → ChainHook Fingerprint Digest Env Unit
  invalidateSnapshot : ℕ → ChainHook Fingerprint Digest Env Unit
  restoreSnapshot : ℕ → ChainHook Fingerprint Digest Env Unit
  saveSnapshot : ℕ → ChainHook Fingerprint Digest Env Unit
  /-- `offload.required_bytes(seq_id, snapshot_chain_method_state(seq_id))`. -/
  requiredBytes : ℕ → ChainHook Fingerprint Digest Env ℤ
  /-- `getattr(offload.snapshots.get(seq_id), "nbytes", 0)`. -/
  snapshotBytes : ℕ → ChainHook Fingerprint Digest Env ℤ
  usedBytes : ChainHook Fingerprint Digest Env ℤ
  capacityBytes : ChainHook Fingerprint Digest Env ℤ
  /-- `cache_manager.free_seq`. -/
  freeSeq : ℕ → ChainHook Fingerprint Digest Env Unit
  /-- `_free_seq_payload`. -/
  freeSeqPayload : ℕ → ChainHook Fingerprint Digest Env Unit
  onChainTurnFinished : ℕ → ℤ → ChainHook Fingerprint Digest Env Unit
  /-- `decode_reservations.release`. -/
  releaseDecodeReservation : ℕ → ChainHook Fingerprint Digest Env Unit
  chainHasResidency : ℕ → ChainHook Fingerprint Digest Env Bool
  chainPhysicalResidency : ℕ → ChainHook Fingerprint Digest Env (List ℤ)
  /-- `decode_reservations.outstanding()` along the KV layers. -/
  decodeReservedSlots : ChainHook Fingerprint Digest Env (List ℤ)
  /-- `chain_capacity_deficits`: required slots and rows, slot deficits and row deficit. -/
  chainCapacityDeficits : (suffixTokens : ℤ) → (existingSlotsByLayer : List ℤ) →
    (outstandingReservedSlotsByLayer : List ℤ) → (outstandingReservedRows : ℤ) →
    (needsResidentRow : Bool) → ChainHook Fingerprint Digest Env (List ℤ × ℤ × List ℤ × ℤ)

namespace ChainRuntime

open Routine ChainCacheIndex

variable {Fingerprint Digest Env : Type}

/-- A call of a method of the coordinator or the runtime. -/
abbrev Method (Fingerprint Digest Env α : Type) := Routine (ChainRuntime Fingerprint Digest Env) α

/-- A call on the index. -/
def onIndex {α : Type} (method : ChainCacheIndex.Method Fingerprint Digest α) :
    Method Fingerprint Digest Env α := fun runtime =>
  match method runtime.index with
  | (result, index) => (result, { runtime with index := index })

/-- A call of a hook. -/
def call {α : Type} (hook : ChainHook Fingerprint Digest Env α) :
    Method Fingerprint Digest Env α := fun runtime =>
  match hook runtime with
  | (result, env) => (result, { runtime with env := env })

variable (hooks : ChainHooks Fingerprint Digest Env)

/-! ## Planning -/

/-- `a` and `b` added along the layers; a missing layer counts as zero. -/
def addLayers (first second : List ℤ) : List ℤ :=
  (List.range (max first.length second.length)).map fun layer =>
    first.getD layer 0 + second.getD layer 0

/-- What a record still owes in each layer it has a reservation for. -/
def owedSlots (reserved current baseline : List ℤ) : List ℤ :=
  reserved.mapIdx fun layer reservedSlots =>
    max 0 (reservedSlots - max 0 (current.getD layer 0 - baseline.getD layer 0))

/-- The loop of `_outstanding_active_reservations`. -/
def outstandingOf : List String → List ℤ → ℤ →
    Method Fingerprint Digest Env (List ℤ × ℤ)
  | [], outstanding, outstandingRows => pure (outstanding, outstandingRows)
  | chainId :: rest, outstanding, outstandingRows => do
      let record ← onIndex (lookup chainId)
      if record.reservedSlotsByLayer = [] ∧ record.reservedRows ≤ 0 then
        outstandingOf rest outstanding outstandingRows
      else do
        let resident ← call (hooks.chainHasResidency record.seqId)
        let current ← (if resident then call (hooks.chainPhysicalResidency record.seqId)
          else pure record.physicalSlotsByLayer)
        outstandingOf rest
          (addLayers outstanding
            (owedSlots record.reservedSlotsByLayer current record.physicalSlotsByLayer))
          (outstandingRows + max 0 (record.reservedRows - if resident then 1 else 0))

/-- `_outstanding_active_reservations`. -/
def outstandingActiveReservations : Method Fingerprint Digest Env (List ℤ × ℤ) := do
  let runtime ← read
  outstandingOf hooks runtime.index.activeRecords.keys [] 0

/-- `admission_requirements`. -/
def admissionRequirements (chainId : String) (tokenCount : ℤ)
    (decodeReservedSlotsByLayer : List ℤ) :
    Method Fingerprint Digest Env AdmissionDemand := do
  whenDo hooks.offload (call hooks.pollOffload)
  let runtime ← read
  let record := runtime.index.records.get? chainId
  let reused := (record.map ChainRecord.processedTokenCount).getD 0
  let existingSlots := (record.map ChainRecord.physicalSlotsByLayer).getD []
  let (chainReservedSlots, outstandingRows) ← outstandingActiveReservations hooks
  let (requiredSlots, requiredRows, slotDeficits, rowDeficit) ←
    call (hooks.chainCapacityDeficits (max 0 (tokenCount - reused)) existingSlots
      (addLayers chainReservedSlots decodeReservedSlotsByLayer) outstandingRows
      (record.all fun record => record.residentRows = 0))
  pure
    { requiredSlotsByLayer := slotDeficits
      rowDeficit := rowDeficit
      reservedSlotsByLayer := requiredSlots
      reservedRows := requiredRows }

/-- The loop of `_offload_plan`: the victims with a snapshot, and the others. -/
def splitVictims : List String → Method Fingerprint Digest Env (List String × List String)
  | [] => pure ([], [])
  | chainId :: rest => do
      let runtime ← read
      let record ← ofExcept <|
        match runtime.index.records.get? chainId with
        | some record => .ok record
        | none => .error (.keyError chainId)
      let snapshot ← call (hooks.hasSnapshot record.seqId)
      let (demote, evict) ← splitVictims rest
      pure (if snapshot then (chainId :: demote, evict) else (demote, chainId :: evict))

/-- `_offload_plan`. -/
def offloadPlan (plan : ChainAdmissionPlan) : Method Fingerprint Digest Env ChainAdmissionPlan := do
  if hooks.offload then do
    let (demote, evict) ← splitVictims hooks plan.victimChainIds
    pure { plan with demoteChainIds := demote, victimChainIds := evict }
  else pure plan

section Planning

variable [DecidableEq Fingerprint] [DecidableEq Digest]

/-- `ChainCacheCoordinator.plan_admission`, with the demand found before. -/
def planWith (sha : Sha256 Digest) (fingerprint : Fingerprint) (chainId : String) (seqId : ℕ)
    (input : AdmissionInput Digest) (decodeReserved : List ℤ) :
    Method Fingerprint Digest Env ChainAdmissionPlan := do
  let demand ← admissionRequirements hooks chainId input.count decodeReserved
  let runtime ← read
  let plan ← ofExcept
    (runtime.index.planAdmissionInput sha chainId seqId input fingerprint demand)
  let split ← offloadPlan hooks plan
  pure { split with decodeReservedSlotsByLayer := decodeReserved }

/-- `chain_admission_plan`. -/
def chainAdmissionPlan (sha : Sha256 Digest) (fingerprint : Fingerprint) (chainId : String)
    (seqId : ℕ) (tokenIds : List ℤ) : Method Fingerprint Digest Env ChainAdmissionPlan := do
  let decodeReserved ← call hooks.decodeReservedSlots
  planWith hooks sha fingerprint chainId seqId (.tokens tokenIds) decodeReserved

/-- `chain_validate_admission_plan`. -/
def chainValidateAdmissionPlan (sha : Sha256 Digest) (fingerprint : Fingerprint)
    (expected : ChainAdmissionPlan) (inputTokenCount : ℤ) (inputPrefixDigest : Digest) :
    Method Fingerprint Digest Env ChainAdmissionPlan := do
  let own ← planWith hooks sha fingerprint expected.chainId expected.seqId
    (.digest inputTokenCount inputPrefixDigest) expected.decodeReservedSlotsByLayer
  raiseIf (own ≠ expected)
    (.runtimeError "Chain-cache admission plan diverged from the rank-0 plan")
  pure own

end Planning

/-! ## Applying a plan -/

/-- The loop over `plan.demote_chain_ids`. -/
def demoteAll : List String → Method Fingerprint Digest Env Unit
  | [] => pure ()
  | chainId :: rest => do
      let victim ← onIndex (lookup chainId)
      raiseIf (victim.state ≠ .idle)
        (chainError .busy "Cannot demote an ACTIVE chain." (some chainId))
      let valid ← call (hooks.waitSnapshot victim.seqId)
      raiseIf (valid = false)
        (.runtimeError "Cannot demote a chain without a valid CPU snapshot.")
      call (hooks.freeSeq victim.seqId)
      onIndex (assignResidency chainId 0 victim.reservedSlotsByLayer victim.reservedRows)
      demoteAll rest

/-- `for chain_id in plan.victim_chain_ids: self.offload.drop(...)`. -/
def dropAll : List String → Method Fingerprint Digest Env Unit
  | [] => pure ()
  | chainId :: rest => do
      let victim ← onIndex (lookup chainId)
      call (hooks.dropSnapshot victim.seqId)
      dropAll rest

/-- `ChainCacheCoordinator.apply_admission`. -/
def applyPlan (sha : Sha256 Digest) (fingerprint : Fingerprint) (plan : ChainAdmissionPlan) :
    Method Fingerprint Digest Env (ChainRecord Fingerprint Digest) := do
  whenDo hooks.offload (do
    demoteAll hooks plan.demoteChainIds
    dropAll hooks plan.victimChainIds)
  onIndex (applyAdmission sha plan fingerprint)

/-- `prepare_resumed_chain`. -/
def prepareResumedChain (record : ChainRecord Fingerprint Digest) :
    Method Fingerprint Digest Env Unit :=
  whenDo hooks.offload (do
    whenDo (record.residentRows = 0) (do
      call (hooks.restoreSnapshot record.seqId)
      onIndex (assignResidency record.chainId 1
        (record.reservedSlotsByLayer.zipWith (· - ·) record.physicalSlotsByLayer) 0))
    call (hooks.invalidateSnapshot record.seqId))

/-- The victims of a plan with their sequences. -/
def localVictims : List String → Method Fingerprint Digest Env (List ℕ)
  | [] => pure []
  | chainId :: rest => do
      let record ← onIndex (lookup chainId)
      let seqIds ← localVictims rest
      pure (record.seqId :: seqIds)

/-- `for ... in local_victims: self._free_seq_payload(victim_seq_id)`. -/
def freeAll : List ℕ → Method Fingerprint Digest Env Unit
  | [] => pure ()
  | seqId :: rest => do
      call (hooks.freeSeqPayload seqId)
      freeAll rest

/-- What `chain_apply_admission` does after a failed restore. -/
def abandonResume (plan : ChainAdmissionPlan) (record : ChainRecord Fingerprint Digest) :
    Method Fingerprint Digest Env Unit :=
  whenDo (plan.status = .resumed) (do
    onIndex (setRecordState record.chainId .idle)
    onIndex (modifyRecord record.chainId fun record =>
      { record with reservedSlotsByLayer := [], reservedRows := 0 }))

/-- `chain_apply_admission`. -/
def chainApplyAdmission (sha : Sha256 Digest) (fingerprint : Fingerprint)
    (plan : ChainAdmissionPlan) :
    Method Fingerprint Digest Env (ChainRecord Fingerprint Digest) := do
  let victimSeqIds ← localVictims plan.victimChainIds
  let record ← applyPlan hooks sha fingerprint plan
  let _ ← localVictims plan.demoteChainIds
  freeAll hooks victimSeqIds
  onError (prepareResumedChain hooks record) (abandonResume plan record)
  onIndex (lookup record.chainId)

/-- The assignment of `on_forward_end` after the last prefill chunk of a
chain. -/
def clearReservation (chainId : String) : Method Fingerprint Digest Env Unit := do
  let record ← onIndex (lookup chainId)
  onIndex (assignResidency chainId record.residentRows [] 0)

/-! ## The end of a turn -/

/-- `finish_values`. -/
def finishValues (sha : Sha256 Digest) (chainId : String) (seqId : ℕ)
    (processedTokenDigest : Digest) (processedTokenCount : ℤ) :
    Method Fingerprint Digest Env (ChainRecord Fingerprint Digest) := do
  let record ← onIndex (lookup chainId)
  raiseIf (record.seqId ≠ seqId) (ChainCacheCoordinator.ownerMismatch chainId record.seqId seqId)
  let physicalSlots ← call (hooks.chainPhysicalResidency seqId)
  onIndex (finishDigest sha chainId processedTokenDigest processedTokenCount physicalSlots 1)

/-- The order in which snapshots are given up: those of ACTIVE chains first,
then by last access and chain id. -/
def SnapshotBefore (first second : ChainRecord Fingerprint Digest) : Prop :=
  (first.state = .active ∧ second.state ≠ .active) ∨
    ((first.state = .active ↔ second.state = .active) ∧ AccessedBefore first second)

instance : DecidableRel (SnapshotBefore : ChainRecord Fingerprint Digest → _ → Prop) :=
  fun _ _ => inferInstanceAs (Decidable (_ ∨ _))

/-- The records whose chains have a snapshot. -/
def withSnapshot : List (ChainRecord Fingerprint Digest) →
    Method Fingerprint Digest Env (List (ChainRecord Fingerprint Digest))
  | [] => pure []
  | record :: rest => do
      let snapshot ← call (hooks.hasSnapshot record.seqId)
      let others ← withSnapshot rest
      pure (if snapshot then record :: others else others)

/-- `offload.used_bytes - old_bytes + required > offload.capacity_bytes`. -/
def overBudget (oldBytes required : ℤ) : Method Fingerprint Digest Env Bool := do
  let used ← call hooks.usedBytes
  let capacity ← call hooks.capacityBytes
  pure (decide (capacity < used - oldBytes + required))

/-- The loop of `save_finished_chain` over the heap of candidates. -/
def makeRoom (oldBytes required : ℤ) :
    List (ChainRecord Fingerprint Digest) → Method Fingerprint Digest Env Unit
  | [] => pure ()
  | victim :: rest => do
      let exceeds ← overBudget hooks oldBytes required
      if exceeds then do
        call (hooks.dropSnapshot victim.seqId)
        whenDo (victim.residentRows = 0) (do
          let _ ← onIndex (evict victim.chainId))
        makeRoom oldBytes required rest
      else pure ()

/-- `save_finished_chain`. -/
def saveFinishedChain (record : ChainRecord Fingerprint Digest) :
    Method Fingerprint Digest Env Unit :=
  whenDo hooks.offload (do
    let required ← call (hooks.requiredBytes record.seqId)
    let capacity ← call hooks.capacityBytes
    raiseIf (capacity < required)
      (chainError .capacity
        (s!"Whole-chain CPU snapshot needs {required} bytes; " ++
          s!"host budget is {capacity}.") (some record.chainId))
    let oldBytes ← call (hooks.snapshotBytes record.seqId)
    let exceeds ← overBudget hooks oldBytes required
    let runtime ← read
    let candidates ← (if exceeds then
        withSnapshot hooks (runtime.index.records.values.filter fun other =>
          other.chainId ≠ record.chainId)
      else pure [])
    makeRoom hooks oldBytes required (candidates.insertionSort SnapshotBefore)
    call (hooks.saveSnapshot record.seqId))

/-- `ChainCacheCoordinator.invalidate`. -/
def coordinatorInvalidate (chainId : String) :
    Method Fingerprint Digest Env (ChainRecord Fingerprint Digest) := do
  whenDo hooks.offload (do
    let record ← onIndex (lookup chainId)
    call (hooks.dropSnapshot record.seqId))
  onIndex (invalidate chainId)

/-- `chain_finish`. -/
def chainFinish (sha : Sha256 Digest) (chainId : String) (seqId : ℕ)
    (processedTokenDigest : Digest) (processedTokenCount : ℤ) :
    Method Fingerprint Digest Env (ChainRecord Fingerprint Digest) := do
  let record ← onIndex (lookup chainId)
  raiseIf (record.seqId ≠ seqId) (ChainCacheCoordinator.ownerMismatch chainId record.seqId seqId)
  raiseIf (record.state ≠ .active)
    (chainError .busy "Only an ACTIVE chain turn may finish." (some chainId))
  onError (do
      call (hooks.onChainTurnFinished seqId processedTokenCount)
      call (hooks.releaseDecodeReservation seqId)
      let record ← finishValues hooks sha chainId seqId processedTokenDigest processedTokenCount
      saveFinishedChain hooks record
      pure record)
    (do
      let _ ← coordinatorInvalidate hooks chainId
      call (hooks.freeSeqPayload seqId))

/-! ## Idle chains and invalidation -/

/-- `chain_reclaim_idle`. -/
def chainReclaimIdle (chainId : String) (expectedSeqId : ℕ) (demote : Bool) :
    Method Fingerprint Digest Env Unit := do
  let record ← onIndex (lookup chainId)
  raiseIf (record.seqId ≠ expectedSeqId)
    (chainError .ownerMismatch s!"Chain owner changed before reclaim: {reprChainId chainId}."
      (some chainId))
  raiseIf (record.state ≠ .idle)
    (chainError .busy "Cannot reclaim an ACTIVE chain." (some chainId))
  let resident ← (if record.residentRows ≤ 0 then pure false
    else call (hooks.chainHasResidency record.seqId))
  raiseIf (resident = false)
    (.runtimeError s!"Chain {reprChainId chainId} has no resident KV to reclaim.")
  (if demote then do
      let valid ← (if hooks.offload then call (hooks.waitSnapshot record.seqId) else pure false)
      raiseIf (valid = false)
        (.runtimeError "Cannot demote a chain without a valid CPU snapshot.")
    else whenDo hooks.offload (call (hooks.dropSnapshot record.seqId)))
  call (hooks.freeSeqPayload record.seqId)
  (if demote then
      onIndex (assignResidency chainId 0 record.reservedSlotsByLayer record.reservedRows)
    else do
      let _ ← onIndex (evict chainId))

/-- `chain_invalidate`. -/
def chainInvalidate (chainId : String) (expectedSeqId : Option ℕ) :
    Method Fingerprint Digest Env Unit := do
  let record ← onIndex (lookup chainId)
  raiseIf (∃ expected ∈ expectedSeqId, record.seqId ≠ expected)
    (chainError .ownerMismatch
      (s!"Chain owner mismatch for {reprChainId chainId}: " ++
        s!"resident_seq_id={record.seqId}, expected_seq_id={expectedSeqId.getD 0}.") (some chainId))
  let record ← coordinatorInvalidate hooks chainId
  call (hooks.freeSeqPayload record.seqId)

end ChainRuntime
