import SparseEngine.Lib.Routine
import SparseEngine.Lib.Dict
import SparseEngine.Lib.Packing
import Mathlib.Data.List.Sort
import Mathlib.Data.String.Basic

/-!
# The chain index

`ChainCacheIndex` of `chain_cache.py`: the logical life of a conversation
whose KV stays resident between its turns.  A chain is ACTIVE while a request
writes it and IDLE between two turns; a chain that is evicted or invalidated
leaves a tombstone, and only so many tombstones are kept.

Record objects are shared by `records` and `active_records`; here `records`
holds their values and `active_records` the ids under which they are entered.
The counters of `_stats` and the log lines are left out.  `retired` is a
history variable that the source does not have: the chain ids that became
tombstones, oldest first.
-/

/-- `ChainState`. -/
inductive ChainState where
  | active
  | idle
  deriving DecidableEq, Repr

/-- The subclasses of `ChainCacheError`. -/
inductive ChainErrorClass where
  | notFound
  | busy
  | prefixMismatch
  | fingerprintMismatch
  | gone
  | capacity
  | ownerMismatch
  | mode
  deriving DecidableEq, Repr

def ChainErrorClass.className : ChainErrorClass → String
  | .notFound => "ChainNotFoundError"
  | .busy => "ChainBusyError"
  | .prefixMismatch => "ChainPrefixMismatchError"
  | .fingerprintMismatch => "ChainFingerprintMismatchError"
  | .gone => "ChainGoneError"
  | .capacity => "ChainCapacityError"
  | .ownerMismatch => "ChainOwnerMismatchError"
  | .mode => "ChainModeError"

/-- An exception of a subclass of `ChainCacheError`, with its `chain_id`. -/
def chainError (errorClass : ChainErrorClass) (message : String) (chainId : Option String) :
    PyError :=
  .defined errorClass.className message chainId

/-- `f"{value!r}"` of a chain id.  Ids have no quotes or control characters. -/
def reprChainId (chainId : String) : String := "'" ++ chainId ++ "'"

/-- `hashlib.sha256` and the byte strings a digest is compared with. -/
structure Sha256 (Digest : Type) where
  digest : List UInt8 → Digest
  /-- `b""`. -/
  emptyBytes : Digest
  /-- `len(value)`. -/
  length : Digest → ℕ
  length_digest : ∀ bytes, length (digest bytes) = 32
  length_emptyBytes : length emptyBytes = 0

/-- `stable_token_digest`: the items of the array are signed 64-bit integers. -/
def stableTokenDigest {Digest : Type} (sha : Sha256 Digest) (tokenIds : List ℤ)
    (count : Option ℤ) : Except PyError Digest :=
  let values := match count with
    | none => tokenIds
    | some limit => tokenIds.take (max 0 limit).toNat
  if ∃ value ∈ values, ¬ Packing.FitsSigned 8 value then
    .error (.overflowError "int too big to convert")
  else match count with
    | none => .ok (sha.digest (Packing.packSigned 8 values))
    | some limit =>
        if (values.length : ℤ) ≠ limit then
          .error (chainError .prefixMismatch
            ("Input is shorter than the chain's processed token boundary: " ++
              s!"input_tokens={values.length}, processed_tokens={limit}.") none)
        else .ok (sha.digest (Packing.packSigned 8 values))

/-- `array("I", map(int, token_ids))`, none if a token does not fit. -/
def packTokenIds (tokenIds : List ℤ) : Option (List UInt32) :=
  tokenIds.mapM fun token =>
    if 0 ≤ token ∧ token < 2 ^ 32 then some (UInt32.ofNat token.toNat) else none

/-- `[int(token_id) for token_id in token_ids]` of a stored array. -/
def unpackTokenIds (stored : List UInt32) : List ℤ := stored.map fun token => (token.toNat : ℤ)

/-- `ChainRecord`. -/
structure ChainRecord (Fingerprint Digest : Type) where
  chainId : String
  seqId : ℕ
  fingerprint : Fingerprint
  state : ChainState
  processedTokenCount : ℤ := 0
  processedTokenDigest : Digest
  tokenIds : List UInt32 := []
  lastInputTokenCount : ℤ := 0
  lastAccess : ℤ := 0
  physicalSlotsByLayer : List ℤ := []
  residentRows : ℤ := 1
  reservedSlotsByLayer : List ℤ := []
  reservedRows : ℤ := 0

/-- `PreparedChainTokens`. -/
structure PreparedChainTokens (Digest : Type) where
  chainId : String
  seqId : ℕ
  processedTokenCount : ℤ
  processedTokenDigest : Digest
  tokenBytes : List UInt8

/-- `ChainAdmissionPlan.status`. -/
inductive AdmissionStatus where
  | created
  | resumed
  deriving DecidableEq, Repr

/-- `ChainAdmissionPlan`. -/
structure ChainAdmissionPlan where
  chainId : String
  seqId : ℕ
  status : AdmissionStatus
  reusedTokens : ℤ
  inputTokenCount : ℤ := 0
  victimChainIds : List String := []
  reservedSlotsByLayer : List ℤ := []
  reservedRows : ℤ := 0
  demoteChainIds : List String := []
  decodeReservedSlotsByLayer : List ℤ := []
  deriving DecidableEq, Repr

/-- The answer of `routing_match` and of a snapshot's `match`. -/
structure ChainRoutingMatch where
  present : Bool
  state : Option ChainState
  tombstone : Bool
  deriving DecidableEq, Repr

/-- `ChainRoutingSnapshot`. -/
structure ChainRoutingSnapshot where
  enabled : Bool
  activeChainIds : Finset String := ∅
  idleChainIds : Finset String := ∅
  tombstoneChainIds : Finset String := ∅
  deriving DecidableEq

/-- `ChainRoutingSnapshot.match`. -/
def ChainRoutingSnapshot.matchChain (snapshot : ChainRoutingSnapshot) (chainId : String) :
    ChainRoutingMatch :=
  if chainId ∈ snapshot.activeChainIds then ⟨true, some .active, false⟩
  else if chainId ∈ snapshot.idleChainIds then ⟨true, some .idle, false⟩
  else ⟨false, none, decide (chainId ∈ snapshot.tombstoneChainIds)⟩

/-- `ChainCacheIndex`. -/
structure ChainCacheIndex (Fingerprint Digest : Type) where
  maxTombstones : ℤ
  maxTokenHistoryTokens : Option ℤ
  tokenHistoryTokens : ℤ := 0
  records : Dict String (ChainRecord Fingerprint Digest) := .empty
  activeRecords : Dict String Unit := .empty
  routingSnapshotCache : Option ChainRoutingSnapshot := none
  seqIdToChainId : Dict ℕ String := .empty
  tombstones : Dict String ℤ := .empty
  clock : ℤ := 0
  retired : List String := []

namespace ChainCacheIndex

open Routine

variable {Fingerprint Digest : Type}

/-- A call of a method of the index. -/
abbrev Method (Fingerprint Digest α : Type) := Routine (ChainCacheIndex Fingerprint Digest) α

/-- `ChainCacheIndex.__init__`. -/
def new (maxTombstones : ℤ) (maxTokenHistoryTokens : Option ℤ) :
    Except PyError (ChainCacheIndex Fingerprint Digest) :=
  if maxTombstones ≤ 0 then
    .error (.valueError s!"chain_cache_max_tombstones must be > 0, got {maxTombstones}.")
  else match maxTokenHistoryTokens with
    | none => .ok { maxTombstones := maxTombstones, maxTokenHistoryTokens := none }
    | some limit =>
        if limit ≤ 0 then
          .error (.valueError s!"max_token_history_tokens must be > 0 when set, got {limit}.")
        else .ok { maxTombstones := maxTombstones, maxTokenHistoryTokens := some limit }

/-- `_tick`. -/
def tick : Method Fingerprint Digest ℤ := do
  write fun index => { index with clock := index.clock + 1 }
  let index ← read
  pure index.clock

/-- Assign fields of the record object of a chain. -/
def modifyRecord (chainId : String)
    (assign : ChainRecord Fingerprint Digest → ChainRecord Fingerprint Digest) :
    Method Fingerprint Digest Unit :=
  write fun index =>
    match index.records.get? chainId with
    | none => index
    | some record => { index with records := index.records.set chainId (assign record) }

/-- `_set_record_state`. -/
def setRecordState (chainId : String) (state : ChainState) : Method Fingerprint Digest Unit := do
  write fun index => { index with routingSnapshotCache := none }
  modifyRecord chainId fun record => { record with state := state }
  write fun index =>
    match state with
    | .active => { index with activeRecords := index.activeRecords.set chainId () }
    | .idle => { index with activeRecords := index.activeRecords.erase chainId }

/-- `while len(tombstones) > max_tombstones: tombstones.popitem(last=False)`. -/
def dropOldest (limit : ℤ) : ℕ → Dict String ℤ → Dict String ℤ
  | 0, tombstones => tombstones
  | fuel + 1, tombstones =>
      if limit < tombstones.size then
        match tombstones.keys.head? with
        | none => tombstones
        | some oldest => dropOldest limit fuel (tombstones.erase oldest)
      else tombstones

/-- `_add_tombstone`. -/
def addTombstone (chainId : String) : Method Fingerprint Digest Unit := do
  write fun index =>
    { index with
      routingSnapshotCache := none
      tombstones := index.tombstones.erase chainId }
  let now ← tick
  write fun index => { index with tombstones := index.tombstones.set chainId now }
  write fun index =>
    { index with
      tombstones := dropOldest index.maxTombstones index.tombstones.size index.tombstones
      retired := index.retired ++ [chainId] }

/-- `_check_token_history_capacity`. -/
def checkTokenHistoryCapacity (record : ChainRecord Fingerprint Digest) (tokenCount : ℕ) :
    Method Fingerprint Digest Unit := do
  let index ← read
  let nextTotal := index.tokenHistoryTokens - record.tokenIds.length + tokenCount
  raiseIf (∃ limit ∈ index.maxTokenHistoryTokens, limit < nextTotal)
    (chainError .capacity
      ("Chain logical token history exceeds its configured resident capacity: " ++
        s!"needed_tokens={nextTotal}, capacity_tokens={index.maxTokenHistoryTokens.getD 0}.")
      (some record.chainId))

/-- `_prepare_token_history`. -/
def prepareTokenHistory (record : ChainRecord Fingerprint Digest) (tokenIds : List ℤ)
    (processedTokenCount : ℤ) : Method Fingerprint Digest (List UInt32) := do
  raiseIf (processedTokenCount < 0)
    (.valueError s!"processed_token_count must be >= 0, got {processedTokenCount}.")
  let logicalTokens ← ofExcept <|
    match packTokenIds tokenIds with
    | some logicalTokens => .ok logicalTokens
    | none => .error (chainError .ownerMismatch
        "Chain token IDs must fit unsigned 32-bit storage." (some record.chainId))
  raiseIf ((logicalTokens.length : ℤ) < processedTokenCount)
    (chainError .ownerMismatch
      ("Finished token sequence is shorter than the processed boundary: " ++
        s!"tokens={logicalTokens.length}, processed={processedTokenCount}.")
      (some record.chainId))
  checkTokenHistoryCapacity record logicalTokens.length
  pure logicalTokens

/-- `_store_token_history`. -/
def storeTokenHistory (record : ChainRecord Fingerprint Digest) (logicalTokens : List UInt32) :
    Method Fingerprint Digest Unit := do
  checkTokenHistoryCapacity record logicalTokens.length
  write fun index =>
    { index with tokenHistoryTokens := index.tokenHistoryTokens - record.tokenIds.length }
  modifyRecord record.chainId fun record => { record with tokenIds := logicalTokens }
  write fun index =>
    { index with tokenHistoryTokens := index.tokenHistoryTokens + logicalTokens.length }

/-- `_drop_token_history`. -/
def dropTokenHistory (record : ChainRecord Fingerprint Digest) :
    Method Fingerprint Digest Unit := do
  write fun index =>
    { index with tokenHistoryTokens := index.tokenHistoryTokens - record.tokenIds.length }
  modifyRecord record.chainId fun record => { record with tokenIds := [] }

/-- What `lookup` finds. -/
def lookupRecord (index : ChainCacheIndex Fingerprint Digest) (chainId : String) :
    Except PyError (ChainRecord Fingerprint Digest) :=
  match index.records.get? chainId with
  | some record => .ok record
  | none =>
      if chainId ∈ index.tombstones.keys then
        .error (chainError .gone s!"Chain {reprChainId chainId} was evicted or invalidated."
          (some chainId))
      else
        .error (chainError .notFound s!"Unknown chain_id {reprChainId chainId}." (some chainId))

/-- `lookup`. -/
def lookup (chainId : String) : Method Fingerprint Digest (ChainRecord Fingerprint Digest) := do
  let index ← read
  ofExcept (index.lookupRecord chainId)

/-! ## Planning -/

/-- The order of the heap of `idle_resident_lru`: last access, then chain id. -/
def AccessedBefore (first second : ChainRecord Fingerprint Digest) : Prop :=
  first.lastAccess < second.lastAccess ∨
    (first.lastAccess = second.lastAccess ∧ first.chainId ≤ second.chainId)

instance : DecidableRel (AccessedBefore : ChainRecord Fingerprint Digest → _ → Prop) :=
  fun _ _ => inferInstanceAs (Decidable (_ ∨ _))

/-- `idle_resident_lru`. -/
def idleResidentLru (index : ChainCacheIndex Fingerprint Digest) :
    List (ChainRecord Fingerprint Digest) :=
  (index.records.values.filter fun record =>
    record.state = .idle ∧ 0 < record.residentRows).insertionSort AccessedBefore

/-- `remaining_row_deficit > 0 or any(slot_deficits)`. -/
def hasDeficit (rowDeficit : ℤ) (slotDeficits : List ℤ) : Prop :=
  0 < rowDeficit ∨ ∃ deficit ∈ slotDeficits, deficit ≠ 0

instance (rowDeficit : ℤ) (slotDeficits : List ℤ) : Decidable (hasDeficit rowDeficit slotDeficits) :=
  inferInstanceAs (Decidable (_ ∨ _))

/-- The slot deficits after one victim. -/
def coverSlots (slotDeficits physicalSlots : List ℤ) : List ℤ :=
  slotDeficits.mapIdx fun layer deficit => max 0 (deficit - physicalSlots.getD layer 0)

/-- The loop of `_plan_admission` over the candidates: the victims taken, and
the deficits that remain. -/
def takeVictims : List (ChainRecord Fingerprint Digest) → ℤ → List ℤ →
    List String × ℤ × List ℤ
  | [], rowDeficit, slotDeficits => ([], rowDeficit, slotDeficits)
  | victim :: rest, rowDeficit, slotDeficits =>
      if hasDeficit rowDeficit slotDeficits then
        let (victims, remaining) := takeVictims rest (max 0 (rowDeficit - victim.residentRows))
          (coverSlots slotDeficits victim.physicalSlotsByLayer)
        (victim.chainId :: victims, remaining)
      else ([], rowDeficit, slotDeficits)

/-- `f"{value}"` of a bool. -/
def formatBool (value : Bool) : String := if value then "True" else "False"

/-- `f"{value}"` of an integer or `None`. -/
def formatOptional (value : Option ℤ) : String :=
  match value with
  | some number => toString number
  | none => "None"

/-- The details of a prefix mismatch that `_plan_admission` reports on rank
0. -/
def mismatchDetails (record : ChainRecord Fingerprint Digest) (tokenIds : List ℤ) : String :=
  let processed := record.processedTokenCount.toNat
  let expected := (unpackTokenIds record.tokenIds).take processed
  let actual := tokenIds.take processed
  let firstMismatch := ((expected.zip actual).findIdx? fun pair => pair.1 ≠ pair.2).getD
    (min expected.length actual.length)
  let stableBoundary := min record.lastInputTokenCount.toNat (min expected.length actual.length)
  let stablePrefixMatches := decide (expected.take stableBoundary = actual.take stableBoundary)
  s!" input_tokens={tokenIds.length}," ++
    s!" last_input_token_count={record.lastInputTokenCount}," ++
    s!" stable_prefix_matches={formatBool stablePrefixMatches}," ++
    s!" first_mismatch={firstMismatch}," ++
    s!" expected_token_id={formatOptional (expected[firstMismatch]?)}," ++
    s!" actual_token_id={formatOptional (actual[firstMismatch]?)}."

/-- What the request shows of its tokens: the tokens themselves on rank 0, their
number and the digest of their prefix elsewhere. -/
inductive AdmissionInput (Digest : Type) where
  | tokens (tokenIds : List ℤ)
  | digest (inputTokenCount : ℤ) (inputPrefixDigest : Digest)

/-- `input_token_count`. -/
def AdmissionInput.count {Digest : Type} : AdmissionInput Digest → ℤ
  | .tokens tokenIds => tokenIds.length
  | .digest inputTokenCount _ => inputTokenCount

/-- The digest of the input's prefix up to the processed boundary. -/
def inputDigest (sha : Sha256 Digest) (record : ChainRecord Fingerprint Digest)
    (chainId : String) : AdmissionInput Digest → Except PyError Digest
  | .tokens tokenIds =>
      match stableTokenDigest sha tokenIds (some record.processedTokenCount) with
      | .error (.defined className message none) => .error (.defined className message (some chainId))
      | result => result
  | .digest inputTokenCount inputPrefixDigest =>
      if inputTokenCount < record.processedTokenCount then
        .error (chainError .prefixMismatch
          ("Input is shorter than the chain's processed token boundary: " ++
            s!"input_tokens={inputTokenCount}, processed_tokens={record.processedTokenCount}.")
          (some chainId))
      else .ok inputPrefixDigest

/-- The mismatch report of rank 0, empty elsewhere. -/
def AdmissionInput.details (record : ChainRecord Fingerprint Digest) :
    AdmissionInput Digest → String
  | .tokens tokenIds => mismatchDetails record tokenIds
  | .digest _ _ => ""

variable [DecidableEq Fingerprint] [DecidableEq Digest]

/-- The checks of `_plan_admission` on the record of a live chain. -/
def classifyResume (sha : Sha256 Digest) (record : ChainRecord Fingerprint Digest)
    (chainId : String) (seqId : ℕ) (input : AdmissionInput Digest) (fingerprint : Fingerprint) :
    Except PyError (AdmissionStatus × ℤ) :=
  if record.state = .active then
    .error (chainError .busy s!"Chain {reprChainId chainId} already has an active writer."
      (some chainId))
  else if record.fingerprint ≠ fingerprint then
    .error (chainError .fingerprintMismatch
      s!"Chain {reprChainId chainId} was created with a different method/config fingerprint."
      (some chainId))
  else if record.seqId ≠ seqId then
    .error (chainError .ownerMismatch
      (s!"Chain owner mismatch for {reprChainId chainId}: " ++
        s!"resident_seq_id={record.seqId}, requested_seq_id={seqId}.") (some chainId))
  else do
    let digest ← inputDigest sha record chainId input
    if digest ≠ record.processedTokenDigest then
      .error (chainError .prefixMismatch
        (s!"Input prefix does not match chain {reprChainId chainId} at " ++
          s!"processed_token_count={record.processedTokenCount}." ++ input.details record)
        (some chainId))
    else .ok (.resumed, record.processedTokenCount)

/-- The first half of `_plan_admission`: whether the request creates or resumes
the chain, and how many tokens it reuses. -/
def classifyAdmission (sha : Sha256 Digest) (index : ChainCacheIndex Fingerprint Digest)
    (chainId : String) (seqId : ℕ) (input : AdmissionInput Digest) (fingerprint : Fingerprint) :
    Except PyError (AdmissionStatus × ℤ) :=
  match index.records.get? chainId with
  | none =>
      if chainId ∈ index.tombstones.keys then
        (index.lookupRecord chainId).map fun _ => (.created, 0)
      else .ok (.created, 0)
  | some record => classifyResume sha record chainId seqId input fingerprint

/-- The chains `_plan_admission` may evict, the first to go first. -/
def victimCandidates (index : ChainCacheIndex Fingerprint Digest) (chainId : String)
    (rowDeficit : ℤ) (slotDeficits : List ℤ) : List (ChainRecord Fingerprint Digest) :=
  (if hasDeficit rowDeficit slotDeficits then index.idleResidentLru else []).filter
    fun candidate => candidate.chainId ≠ chainId

/-- The second half of `_plan_admission`: the victims that cover the
deficits. -/
def chooseVictims (index : ChainCacheIndex Fingerprint Digest) (chainId : String)
    (requiredSlotsByLayer : List ℤ) (rowDeficit : ℤ) : Except PyError (List String) :=
  let slotDeficits := requiredSlotsByLayer.map (max 0)
  let remainingRowDeficit := max 0 rowDeficit
  let (victims, rows, slots) := takeVictims
    (index.victimCandidates chainId remainingRowDeficit slotDeficits) remainingRowDeficit
    slotDeficits
  if hasDeficit rows slots then
    .error (chainError .capacity
      ("No capacity is available for the chain request after evicting " ++
        "all IDLE chains; ACTIVE chains remain pinned.") (some chainId))
  else .ok victims

/-- The deficits and reservations a request is planned with. -/
structure AdmissionDemand where
  requiredSlotsByLayer : List ℤ := []
  rowDeficit : ℤ := 0
  reservedSlotsByLayer : List ℤ := []
  reservedRows : ℤ := 0

/-- `_plan_admission`. -/
def planAdmissionInput (sha : Sha256 Digest) (index : ChainCacheIndex Fingerprint Digest)
    (chainId : String) (seqId : ℕ) (input : AdmissionInput Digest) (fingerprint : Fingerprint)
    (demand : AdmissionDemand) : Except PyError ChainAdmissionPlan := do
  let (status, reusedTokens) ← index.classifyAdmission sha chainId seqId input fingerprint
  let victims ← index.chooseVictims chainId demand.requiredSlotsByLayer demand.rowDeficit
  pure
    { chainId := chainId
      seqId := seqId
      status := status
      reusedTokens := reusedTokens
      inputTokenCount := input.count
      victimChainIds := victims
      reservedSlotsByLayer := demand.reservedSlotsByLayer.map (max 0)
      reservedRows := max 0 demand.reservedRows }

/-- `plan_admission`. -/
def planAdmission (sha : Sha256 Digest) (index : ChainCacheIndex Fingerprint Digest)
    (chainId : String) (seqId : ℕ) (tokenIds : List ℤ) (fingerprint : Fingerprint)
    (demand : AdmissionDemand) : Except PyError ChainAdmissionPlan :=
  index.planAdmissionInput sha chainId seqId (.tokens tokenIds) fingerprint demand

/-- `plan_admission_digest`. -/
def planAdmissionDigest (sha : Sha256 Digest) (index : ChainCacheIndex Fingerprint Digest)
    (chainId : String) (seqId : ℕ) (inputTokenCount : ℤ) (inputPrefixDigest : Digest)
    (fingerprint : Fingerprint) (demand : AdmissionDemand) : Except PyError ChainAdmissionPlan :=
  index.planAdmissionInput sha chainId seqId (.digest inputTokenCount inputPrefixDigest)
    fingerprint demand

/-! ## Lifecycle -/

omit [DecidableEq Fingerprint] [DecidableEq Digest]

/-- What `invalidate` and `evict` have in common: the chain leaves every
container. -/
def retire (record : ChainRecord Fingerprint Digest) (chainId : String) :
    Method Fingerprint Digest Unit := do
  dropTokenHistory record
  write fun index =>
    { index with
      records := index.records.erase chainId
      activeRecords := index.activeRecords.erase chainId
      seqIdToChainId := index.seqIdToChainId.erase record.seqId }
  addTombstone chainId

/-- `invalidate`. -/
def invalidate (chainId : String) :
    Method Fingerprint Digest (ChainRecord Fingerprint Digest) := do
  let record ← lookup chainId
  retire record chainId
  pure { record with tokenIds := [] }

/-- `evict`. -/
def evict (chainId : String) : Method Fingerprint Digest (ChainRecord Fingerprint Digest) := do
  let record ← lookup chainId
  raiseIf (record.state = .active)
    (chainError .busy s!"Cannot evict ACTIVE chain {reprChainId chainId}." (some chainId))
  retire record chainId
  pure { record with tokenIds := [] }

/-- The record `apply_admission` creates. -/
def newRecord (sha : Sha256 Digest) (plan : ChainAdmissionPlan) (fingerprint : Fingerprint)
    (now : ℤ) : ChainRecord Fingerprint Digest :=
  { chainId := plan.chainId
    seqId := plan.seqId
    fingerprint := fingerprint
    state := .active
    processedTokenDigest := sha.emptyBytes
    lastInputTokenCount := plan.inputTokenCount
    lastAccess := now }

/-- The `created` branch of `apply_admission`. -/
def applyCreated (sha : Sha256 Digest) (plan : ChainAdmissionPlan) (fingerprint : Fingerprint) :
    Method Fingerprint Digest (ChainRecord Fingerprint Digest) := do
  let index ← read
  raiseIf (plan.chainId ∈ index.records.keys)
    (chainError .ownerMismatch
      s!"Chain {reprChainId plan.chainId} appeared between plan and admission."
      (some plan.chainId))
  raiseIf (plan.seqId ∈ index.seqIdToChainId.keys)
    (chainError .ownerMismatch
      (s!"resident_seq_id={plan.seqId} already owns chain " ++
        s!"{reprChainId ((index.seqIdToChainId.get? plan.seqId).getD default)}.")
      (some plan.chainId))
  let now ← tick
  write fun index =>
    { index with
      records := index.records.set plan.chainId (newRecord sha plan fingerprint now) }
  setRecordState plan.chainId .active
  write fun index =>
    { index with seqIdToChainId := index.seqIdToChainId.set plan.seqId plan.chainId }
  modifyRecord plan.chainId fun record =>
    { record with
      reservedSlotsByLayer := plan.reservedSlotsByLayer
      reservedRows := plan.reservedRows }
  lookup plan.chainId

/-- The other branch of `apply_admission`. -/
def applyResumed (plan : ChainAdmissionPlan) :
    Method Fingerprint Digest (ChainRecord Fingerprint Digest) := do
  let record ← lookup plan.chainId
  raiseIf (record.state ≠ .idle)
    (chainError .busy s!"Chain {reprChainId plan.chainId} is not IDLE during admission."
      (some plan.chainId))
  setRecordState plan.chainId .active
  let now ← tick
  modifyRecord plan.chainId fun record =>
    { record with
      lastInputTokenCount := plan.inputTokenCount
      lastAccess := now
      reservedSlotsByLayer := plan.reservedSlotsByLayer
      reservedRows := plan.reservedRows }
  lookup plan.chainId

/-- `for victim_chain_id in plan.victim_chain_ids: self.evict(victim_chain_id)`. -/
def evictAll : List String → Method Fingerprint Digest Unit
  | [] => pure ()
  | chainId :: rest => do
      let _ ← evict chainId
      evictAll rest

/-- `apply_admission`. -/
def applyAdmission (sha : Sha256 Digest) (plan : ChainAdmissionPlan) (fingerprint : Fingerprint) :
    Method Fingerprint Digest (ChainRecord Fingerprint Digest) := do
  evictAll plan.victimChainIds
  match plan.status with
  | .created => applyCreated sha plan fingerprint
  | .resumed => applyResumed plan

/-- `finish_digest`. -/
def finishDigest (sha : Sha256 Digest) (chainId : String) (processedTokenDigest : Digest)
    (processedTokenCount : ℤ) (physicalSlotsByLayer : List ℤ) (residentRows : ℤ) :
    Method Fingerprint Digest (ChainRecord Fingerprint Digest) := do
  let record ← lookup chainId
  raiseIf (record.state ≠ .active)
    (chainError .ownerMismatch s!"Cannot finish non-ACTIVE chain {reprChainId chainId}."
      (some chainId))
  raiseIf (processedTokenCount < record.processedTokenCount)
    (chainError .ownerMismatch
      ("Chain processed boundary moved backwards: " ++
        s!"previous={record.processedTokenCount}, new={processedTokenCount}.") (some chainId))
  raiseIf (sha.length processedTokenDigest ≠ 32)
    (.valueError ("processed_token_digest must be a SHA-256 digest, got " ++
      s!"{sha.length processedTokenDigest} bytes."))
  modifyRecord chainId fun record =>
    { record with
      processedTokenDigest := processedTokenDigest
      processedTokenCount := processedTokenCount
      physicalSlotsByLayer := physicalSlotsByLayer
      residentRows := residentRows
      reservedSlotsByLayer := []
      reservedRows := 0 }
  setRecordState chainId .idle
  let now ← tick
  modifyRecord chainId fun record => { record with lastAccess := now }
  lookup chainId

/-- `finish`. -/
def finish (sha : Sha256 Digest) (chainId : String) (tokenIds : List ℤ)
    (processedTokenCount : ℤ) (physicalSlotsByLayer : List ℤ) (residentRows : ℤ) :
    Method Fingerprint Digest (ChainRecord Fingerprint Digest) := do
  let existing ← lookup chainId
  let logicalTokens ← prepareTokenHistory existing tokenIds processedTokenCount
  let digest ← ofExcept (stableTokenDigest sha tokenIds (some processedTokenCount))
  let record ← finishDigest sha chainId digest processedTokenCount physicalSlotsByLayer residentRows
  storeTokenHistory record logicalTokens
  lookup chainId

/-- What the coordinator assigns to a record when it demotes or restores its
chain, and the runtime when its last prefill chunk is done. -/
def assignResidency (chainId : String) (residentRows : ℤ) (reservedSlotsByLayer : List ℤ)
    (reservedRows : ℤ) : Method Fingerprint Digest Unit :=
  modifyRecord chainId fun record =>
    { record with
      residentRows := residentRows
      reservedSlotsByLayer := reservedSlotsByLayer
      reservedRows := reservedRows }

/-! ## Routing -/

/-- `routing_match`. -/
def routingMatch (index : ChainCacheIndex Fingerprint Digest) (chainId : String) :
    ChainRoutingMatch :=
  match index.records.get? chainId with
  | some record => ⟨true, some record.state, false⟩
  | none => ⟨false, none, decide (chainId ∈ index.tombstones.keys)⟩

/-- The chain ids of the records in a state. -/
def chainIdsIn (index : ChainCacheIndex Fingerprint Digest) (state : ChainState) :
    Finset String :=
  ((index.records.values.filter fun record => record.state = state).map
    ChainRecord.chainId).toFinset

/-- The snapshot `routing_snapshot` builds. -/
def buildRoutingSnapshot (index : ChainCacheIndex Fingerprint Digest) : ChainRoutingSnapshot :=
  { enabled := true
    activeChainIds := index.chainIdsIn .active
    idleChainIds := index.chainIdsIn .idle
    tombstoneChainIds := index.tombstones.keys.toFinset }

/-- `routing_snapshot`. -/
def routingSnapshot : Method Fingerprint Digest ChainRoutingSnapshot := do
  let index ← read
  match index.routingSnapshotCache with
  | some snapshot => pure snapshot
  | none => do
      write fun index => { index with routingSnapshotCache := some index.buildRoutingSnapshot }
      pure index.buildRoutingSnapshot

/-- `reset`. -/
def reset : Method Fingerprint Digest Unit :=
  write fun index =>
    { maxTombstones := index.maxTombstones
      maxTokenHistoryTokens := index.maxTokenHistoryTokens }

end ChainCacheIndex

/-! ## The coordinator's token histories -/

namespace ChainCacheCoordinator

open Routine ChainCacheIndex

variable {Fingerprint Digest : Type}

/-- The check that a finished sequence owns its chain. -/
def ownerMismatch (chainId : String) (residentSeqId finishedSeqId : ℕ) : PyError :=
  chainError .ownerMismatch
    (s!"Chain owner mismatch for {reprChainId chainId}: " ++
      s!"resident_seq_id={residentSeqId}, finished_seq_id={finishedSeqId}.") (some chainId)

/-- `prepare_processed_tokens`. -/
def prepareProcessedTokens (sha : Sha256 Digest) (chainId : String) (seqId : ℕ)
    (tokenIds : List ℤ) (processedTokenCount : ℤ) :
    Method Fingerprint Digest (PreparedChainTokens Digest) := do
  let record ← lookup chainId
  raiseIf (record.seqId ≠ seqId) (ownerMismatch chainId record.seqId seqId)
  let logicalTokens ← prepareTokenHistory record tokenIds processedTokenCount
  let digest ← ofExcept
    (stableTokenDigest sha (unpackTokenIds logicalTokens) (some processedTokenCount))
  pure
    { chainId := chainId
      seqId := seqId
      processedTokenCount := processedTokenCount
      processedTokenDigest := digest
      tokenBytes := Packing.pack 4 (logicalTokens.map UInt32.toNat) }

/-- `array("I").frombytes(token_bytes)`. -/
def readTokenBytes (tokenBytes : List UInt8) : Except PyError (List UInt32) :=
  match Packing.unpack 4 tokenBytes with
  | some values => .ok (values.map UInt32.ofNat)
  | none => .error (.valueError "bytes length not a multiple of item size")

/-- `remember_prepared_tokens`. -/
def rememberPreparedTokens [DecidableEq Digest] (prepared : PreparedChainTokens Digest) :
    Method Fingerprint Digest (ChainRecord Fingerprint Digest) := do
  let record ← lookup prepared.chainId
  raiseIf (record.seqId ≠ prepared.seqId ∨ record.state ≠ .idle)
    (chainError .ownerMismatch "Prepared history requires its original owner in IDLE state."
      (some prepared.chainId))
  raiseIf (prepared.processedTokenCount ≠ record.processedTokenCount ∨
      prepared.processedTokenDigest ≠ record.processedTokenDigest)
    (chainError .ownerMismatch
      "Finished logical tokens do not match the recorded chain boundary."
      (some prepared.chainId))
  let logicalTokens ← ofExcept (readTokenBytes prepared.tokenBytes)
  storeTokenHistory record logicalTokens
  lookup prepared.chainId

/-- `remember_processed_tokens`. -/
def rememberProcessedTokens [DecidableEq Digest] (sha : Sha256 Digest) (chainId : String)
    (seqId : ℕ) (tokenIds : List ℤ) (processedTokenCount : ℤ) :
    Method Fingerprint Digest (ChainRecord Fingerprint Digest) := do
  let prepared ← prepareProcessedTokens sha chainId seqId tokenIds processedTokenCount
  rememberPreparedTokens prepared

end ChainCacheCoordinator
