import SparseEngine.ChainCache.Turns

/-!
# The memory behind the chains

What a chain runtime asks of `StandardCacheManager`, of
`ChainOffloadController` and of `DecodeReservations`.  In chain mode the
manager has no radix index: every KV layer shares one allocator, a row belongs
to one sequence, and nothing but the chain coordinator decides what is given
up.  So the free stack is a number of slots, `free_rows` a number of rows and
a row the number of its slots.

The device runtime answers from a list: whether an event is complete, whether
a call fails.
-/

/-- `ChainSnapshot`: its length, the same in every layer. -/
structure ChainSnapshot where
  length : ℕ
  valid : Bool
  /-- `completion is not None`. -/
  pending : Bool
  deriving DecidableEq, Repr

/-- The state of the cache manager, the offload controller and the reservation
ledger. -/
structure ChainMemory where
  /-- `_num_free_slots`. -/
  numFreeSlots : ℕ
  /-- `len(free_rows)`. -/
  numFreeRows : ℕ
  /-- `row_seq_lens` of the rows in `seq_id_to_row`. -/
  rowSeqLens : Dict ℕ ℕ := .empty
  /-- What is left of each window of `DecodeReservations.requests`. -/
  decodeWindows : Dict ℕ ℕ := .empty
  snapshots : Dict ℕ ChainSnapshot := .empty
  /-- The answers the device runtime is still to give. -/
  device : List Bool := []

/-- The configuration of the manager and the offload controller. -/
structure MemoryConfig where
  numKvLayers : ℕ
  numKvLayers_pos : 0 < numKvLayers
  /-- `buffer_req_to_token_slots.shape[1]`. -/
  rowCapacity : ℕ
  offload : Bool
  /-- The bytes of one token in one layer. -/
  tokenBytes : ℤ
  capacityBytes : ℤ

namespace ChainMemory

open Routine

/-- The next answer of the device runtime. -/
def deviceAnswer : Routine ChainMemory Bool := do
  let memory ← read
  write fun memory => { memory with device := memory.device.tail }
  pure (memory.device.headD false)

/-- A call of the device runtime that may fail. -/
def deviceCall : Routine ChainMemory Unit := do
  let failed ← deviceAnswer
  raiseIf (failed = true) (.external 0)

variable (config : MemoryConfig)

/-! ## The cache manager -/

/-- `_allocate`, and `_allocate_batch` for each sequence of its batch. -/
def allocate (seqId size : ℕ) : Routine ChainMemory Unit := do
  let memory ← read
  let existing := memory.rowSeqLens.get? seqId
  let curLen := existing.getD 0
  raiseIf (existing = none ∧ memory.numFreeRows = 0)
    (.runtimeError "No free rows in cache manager buffer!")
  raiseIf (config.rowCapacity < curLen + size)
    (.valueError "Prefill allocation exceeds the cache row capacity.")
  raiseIf (memory.numFreeSlots < size)
    (.runtimeError ("Out of KV cache slots after prefix eviction: " ++
      s!"need={size} free={memory.numFreeSlots}."))
  write fun memory =>
    { memory with
      numFreeSlots := memory.numFreeSlots - size
      numFreeRows := if existing = none then memory.numFreeRows - 1 else memory.numFreeRows
      rowSeqLens := memory.rowSeqLens.set seqId (curLen + size) }

/-- The memory without the row of a sequence. -/
def withoutRow (memory : ChainMemory) (seqId : ℕ) : ChainMemory :=
  match memory.rowSeqLens.get? seqId with
  | none => memory
  | some length =>
      { memory with
        numFreeSlots := memory.numFreeSlots + length
        numFreeRows := memory.numFreeRows + 1
        rowSeqLens := memory.rowSeqLens.erase seqId }

/-- `free_seq`. -/
def freeSeq (seqId : ℕ) : Routine ChainMemory Unit := write fun memory => memory.withoutRow seqId

/-- `decode_reservations.release`. -/
def release (seqId : ℕ) : Routine ChainMemory Unit :=
  write fun memory => { memory with decodeWindows := memory.decodeWindows.erase seqId }

/-- `_free_seq_payload`. -/
def freeSeqPayload (seqId : ℕ) : Routine ChainMemory Unit := do
  release seqId
  freeSeq seqId

/-- `chain_physical_residency`. -/
def chainPhysicalResidency (seqId : ℕ) : Routine ChainMemory (List ℤ) := do
  let memory ← read
  ofExcept <|
    match memory.rowSeqLens.get? seqId with
    | none => .error (.runtimeError s!"Missing chain row for seq_id={seqId}.")
    | some length => .ok (List.replicate config.numKvLayers (length : ℤ))

/-- `chain_has_residency`. -/
def chainHasResidency (seqId : ℕ) : Routine ChainMemory Bool := do
  let memory ← read
  pure (memory.rowSeqLens.get? seqId).isSome

/-- `max(values, default=0)`. -/
def maxDefault : List ℤ → ℤ
  | [] => 0
  | head :: rest => rest.foldl max head

/-- `chain_capacity_deficits`. -/
def chainCapacityDeficits (suffixTokens generationTokens : ℤ) (existingSlotsByLayer : List ℤ)
    (outstandingReservedSlotsByLayer : List ℤ) (outstandingReservedRows : ℤ)
    (needsResidentRow : Bool) (memory : ChainMemory) : List ℤ × ℤ × List ℤ × ℤ :=
  let required := max 0 suffixTokens + max 0 (generationTokens - 1) +
    if needsResidentRow then maxDefault existingSlotsByLayer else 0
  let available := max 0 (memory.numFreeSlots - maxDefault outstandingReservedSlotsByLayer)
  let requiredRows : ℤ := if needsResidentRow then 1 else 0
  let availableRows := max 0 (memory.numFreeRows - outstandingReservedRows)
  (List.replicate config.numKvLayers required, requiredRows,
    List.replicate config.numKvLayers (max 0 (required - available)),
    max 0 (requiredRows - availableRows))

/-- `allocate_chain_restore`, as `chain_contract.py` has it: all of the row or
nothing. -/
def allocateChainRestore (seqId length : ℕ) : Routine ChainMemory Unit := do
  let memory ← read
  raiseIf (memory.numFreeRows = 0 ∨ memory.numFreeSlots < length)
    (.runtimeError s!"Insufficient capacity to restore seq_id={seqId}.")
  write fun memory =>
    { memory with
      numFreeSlots := memory.numFreeSlots - length
      numFreeRows := memory.numFreeRows - 1
      rowSeqLens := memory.rowSeqLens.set seqId length }

/-! ## Decode reservations -/

/-- `decode_reservations.outstanding()["slots"]`. -/
def decodeReserved (memory : ChainMemory) : ℕ := memory.decodeWindows.values.sum

/-- `outstanding()` along the KV layers; the dictionary is empty if nothing is
reserved. -/
def decodeReservedSlots : Routine ChainMemory (List ℤ) := do
  let memory ← read
  pure (if memory.decodeReserved = 0 then []
    else List.replicate config.numKvLayers (memory.decodeReserved : ℤ))

/-- `_acquire` of a window whose predecessor is exhausted.  `prefillReserve` is
what `reserve_decode_windows` sets aside for prefills. -/
def acquire (seqId tokens : ℕ) (prefillReserve : ℤ) : Routine ChainMemory Bool := do
  let memory ← read
  if (tokens : ℤ) + memory.decodeReserved + prefillReserve ≤ memory.numFreeSlots ∧
      (memory.decodeWindows.get? seqId).getD 0 = 0 then do
    write fun memory => { memory with decodeWindows := memory.decodeWindows.set seqId tokens }
    pure true
  else pure false

/-- One decoded token: a slot, and one token less in the window. -/
def decodeToken (seqId : ℕ) : Routine ChainMemory Unit := do
  allocate config seqId 1
  write fun memory =>
    { memory with
      decodeWindows := memory.decodeWindows.set seqId
        ((memory.decodeWindows.get? seqId).getD 0 - 1) }

/-! ## Snapshots -/

/-- `self.snapshots[seq_id] = snapshot`. -/
def setSnapshot (seqId : ℕ) (snapshot : ChainSnapshot) : Routine ChainMemory Unit :=
  write fun memory => { memory with snapshots := memory.snapshots.set seqId snapshot }

/-- `offload.wait`, after the lookup. -/
def waitFor (seqId : ℕ) (snapshot : ChainSnapshot) : Routine ChainMemory ChainSnapshot :=
  if snapshot.pending then do
    deviceCall
    setSnapshot seqId ⟨snapshot.length, true, false⟩
    pure ⟨snapshot.length, true, false⟩
  else pure snapshot

/-- `offload.wait`. -/
def wait (seqId : ℕ) : Routine ChainMemory ChainSnapshot := do
  let memory ← read
  match memory.snapshots.get? seqId with
  | none => raise (.keyError (toString seqId))
  | some snapshot => waitFor seqId snapshot

/-- The memory after the copy of a pending snapshot is complete. -/
def completed (memory : ChainMemory) (seqId : ℕ) : ChainMemory :=
  match memory.snapshots.get? seqId with
  | none => memory
  | some snapshot =>
      if snapshot.pending then
        { memory with snapshots := memory.snapshots.set seqId ⟨snapshot.length, true, false⟩ }
      else memory

/-- The loop of `offload.poll` over `_pending`, oldest first. -/
def pollPending : List ℕ → Routine ChainMemory Unit
  | [] => pure ()
  | seqId :: rest => do
      let complete ← deviceAnswer
      if complete then do
        write fun memory => memory.completed seqId
        pollPending rest
      else pure ()

/-- `_pending`: a snapshot is entered again when it is saved again, so the
entries keep the order of submission. -/
def pendingIds (memory : ChainMemory) : List ℕ :=
  memory.snapshots.entries.filterMap fun entry => if entry.2.pending then some entry.1 else none

/-- `offload.poll`. -/
def poll : Routine ChainMemory Unit := do
  let memory ← read
  pollPending memory.pendingIds

/-- `offload.invalidate`. -/
def invalidate (seqId : ℕ) : Routine ChainMemory Unit := do
  let memory ← read
  whenDo (seqId ∈ memory.snapshots.keys) (do
    let snapshot ← wait seqId
    setSnapshot seqId { snapshot with valid := false })

/-- `offload.drop`. -/
def drop (seqId : ℕ) : Routine ChainMemory Unit := do
  let memory ← read
  whenDo (seqId ∈ memory.snapshots.keys) (do
    let _ ← wait seqId
    write fun memory => { memory with snapshots := memory.snapshots.erase seqId })

/-- The bytes of a snapshot. -/
def nbytes (length : ℕ) : ℤ := config.numKvLayers * length * config.tokenBytes

/-- `offload.used_bytes`. -/
def usedBytes (memory : ChainMemory) : ℤ :=
  (memory.snapshots.values.map fun snapshot => nbytes config snapshot.length).sum

/-- The bytes of the snapshot a sequence has. -/
def snapshotBytes (memory : ChainMemory) (seqId : ℕ) : ℤ :=
  ((memory.snapshots.get? seqId).map fun snapshot => nbytes config snapshot.length).getD 0

/-- The row of a sequence that is to be saved. -/
def residentLength (seqId : ℕ) : Routine ChainMemory ℕ := do
  let memory ← read
  ofExcept <|
    match memory.rowSeqLens.get? seqId with
    | none => .error (.runtimeError s!"Missing chain row for seq_id={seqId}.")
    | some length => .ok length

/-- `offload.required_bytes`. -/
def requiredBytes (seqId : ℕ) : Routine ChainMemory ℤ := do
  let length ← residentLength seqId
  pure (nbytes config length)

/-- `offload.save`. -/
def save (seqId : ℕ) : Routine ChainMemory Unit := do
  poll
  let length ← residentLength seqId
  let memory ← read
  raiseIf (config.capacityBytes <
      usedBytes config memory - snapshotBytes config memory seqId + nbytes config length)
    (.runtimeError "Chain host capacity must be reserved before D2H submission.")
  drop seqId
  deviceCall
  setSnapshot seqId ⟨length, false, true⟩

/-- `offload.restore`. -/
def restore (seqId : ℕ) : Routine ChainMemory Unit := do
  let snapshot ← wait seqId
  raiseIf (snapshot.valid = false)
    (.runtimeError "Cannot restore an invalid chain snapshot.")
  let memory ← read
  raiseIf (seqId ∈ memory.rowSeqLens.keys)
    (.runtimeError "Cannot restore over a resident chain.")
  allocateChainRestore seqId snapshot.length
  onError deviceCall (freeSeq seqId)

end ChainMemory

/-! ## The hooks -/

section

open ChainMemory Routine

variable {Fingerprint Digest : Type}

/-- A call on the memory as a hook of the runtime. -/
def inMemory {α : Type} (action : Routine ChainMemory α) :
    ChainHook Fingerprint Digest ChainMemory α := fun runtime => action runtime.env

/-- A read of the memory as a hook. -/
def ofMemory {α : Type} (view : ChainMemory → α) : ChainHook Fingerprint Digest ChainMemory α :=
  fun runtime => (.ok (view runtime.env), runtime.env)

/-- The hooks of a runtime on a `StandardCacheManager`. -/
def standardHooks (config : MemoryConfig) : ChainHooks Fingerprint Digest ChainMemory where
  offload := config.offload
  pollOffload := inMemory poll
  hasSnapshot seqId := ofMemory fun memory => decide (seqId ∈ memory.snapshots.keys)
  waitSnapshot seqId := inMemory (do
    let snapshot ← wait seqId
    pure snapshot.valid)
  dropSnapshot seqId := inMemory (drop seqId)
  invalidateSnapshot seqId := inMemory (ChainMemory.invalidate seqId)
  restoreSnapshot seqId := inMemory (restore seqId)
  saveSnapshot seqId := inMemory (save config seqId)
  requiredBytes seqId := inMemory (requiredBytes config seqId)
  snapshotBytes seqId := ofMemory fun memory => snapshotBytes config memory seqId
  usedBytes := ofMemory (usedBytes config)
  capacityBytes := ofMemory fun _ => config.capacityBytes
  freeSeq seqId := inMemory (freeSeq seqId)
  freeSeqPayload seqId := inMemory (freeSeqPayload seqId)
  onChainTurnFinished _ _ := ofMemory fun _ => ()
  releaseDecodeReservation seqId := inMemory (release seqId)
  chainHasResidency seqId := inMemory (chainHasResidency seqId)
  chainPhysicalResidency seqId := inMemory (chainPhysicalResidency config seqId)
  decodeReservedSlots := inMemory (decodeReservedSlots config)
  chainCapacityDeficits suffixTokens existing outstanding outstandingRows needsRow :=
    ofMemory (chainCapacityDeficits config suffixTokens 0 existing outstanding outstandingRows
      needsRow)

end
