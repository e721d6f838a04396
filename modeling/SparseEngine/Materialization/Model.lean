import SparseEngine.PrefixIndex.Model
import SparseEngine.Lib.Loops

/-!
# Blocks from recorded tokens

What a request computes is recorded call by call, and every
`prefix_cache_block_size` tokens of it become a pending block of the prefix
cache.  `recordFrozenPrefixMaterialization` is the recorder of
`PrefixCacheMixin`, which keeps the slots of the tokens; `recordTokens` is the
one of `PrefixCacheCoordinator`.  Both top up the block they are in, then cut
whole blocks, then keep the rest.

The payload of a block is made by a hook of the cache manager, which is a
parameter here: it gets the slots of all blocks a call completes and may
raise.  In `recordTokens` the closure `add_block` is modelled with its own
branches; the stores it goes to (the index, the reservations, the payload
builders) are parameters.
-/

variable {Id Slot Payload σ : Type}

/-- `range(start, stop, step)`. -/
def pyRange (start stop step : ℕ) : List ℕ :=
  List.range' start ((stop - start + step - 1) / step) step

/-! ## The recorder of the mixin -/

/-- The fields of `Sequence` that the recorders read. -/
structure RecordedSequence (Id : Type) where
  seqId : ℤ
  /-- `multimodal_digest is not None`. -/
  isMultimodal : Bool := false
  prefixCacheHitBlockCount : ℤ
  prefixCacheHitLastBlockId : Option Id
  deriving DecidableEq

/-- `PrefixRuntimeState`. -/
structure PrefixRuntimeState (Id Slot : Type) where
  parentBlockId : Option Id
  nextLogicalBlockIdx : ℤ
  pendingTokens : List ℤ
  pendingSlots : List (List Slot)

/-- `PendingPrefixBlock`. -/
structure PendingPrefixBlock (Id Slot Payload : Type) where
  stableBlockId : Id
  parentBlockId : Option Id
  logicalBlockIdx : ℤ
  payload : Payload
  slots : List Slot
  tokenIds : List ℤ

/-- The records of `PrefixCacheMixin`. -/
structure PrefixRecords (Id Slot Payload : Type) where
  prefixRuntimeStates : Dict ℤ (PrefixRuntimeState Id Slot)
  pendingPrefixBlocks : Dict ℤ (List (PendingPrefixBlock Id Slot Payload))

namespace PrefixRecords

open Routine

/-- Replace the runtime state of a sequence. -/
def setState (seqId : ℤ) (state : PrefixRuntimeState Id Slot) (records : PrefixRecords Id Slot Payload) :
    PrefixRecords Id Slot Payload :=
  { records with prefixRuntimeStates := records.prefixRuntimeStates.set seqId state }

/-- Replace the pending blocks of a sequence. -/
def setBlocks (seqId : ℤ) (blocks : List (PendingPrefixBlock Id Slot Payload))
    (records : PrefixRecords Id Slot Payload) : PrefixRecords Id Slot Payload :=
  { records with pendingPrefixBlocks := records.pendingPrefixBlocks.set seqId blocks }

/-- The runtime state a call starts with. -/
def runtimeState (records : PrefixRecords Id Slot Payload) (seq : RecordedSequence Id) :
    PrefixRuntimeState Id Slot :=
  match records.prefixRuntimeStates.get? seq.seqId with
  | some state => state
  | none => ⟨seq.prefixCacheHitLastBlockId, seq.prefixCacheHitBlockCount, [], []⟩

/-- The pending blocks of a sequence. -/
def pendingBlocks (records : PrefixRecords Id Slot Payload) (seqId : ℤ) :
    List (PendingPrefixBlock Id Slot Payload) :=
  (records.pendingPrefixBlocks.get? seqId).getD []

/-- The loop over the completed blocks and their payloads. -/
def appendBlocks (hash : List ℤ → Option Id → Id) (seqId : ℤ) :
    PrefixRuntimeState Id Slot → List (List ℤ × List Slot) → List Payload →
      Routine (PrefixRecords Id Slot Payload) Unit
  | _, [], [] => pure ()
  | state, (blockTokens, blockSlots) :: completed, payload :: payloads => do
      let stableBlockId := hash blockTokens state.parentBlockId
      let block : PendingPrefixBlock Id Slot Payload :=
        ⟨stableBlockId, state.parentBlockId, state.nextLogicalBlockIdx, payload, blockSlots, blockTokens⟩
      let next : PrefixRuntimeState Id Slot :=
        { state with
          parentBlockId := some stableBlockId, nextLogicalBlockIdx := state.nextLogicalBlockIdx + 1 }
      write fun records => setBlocks seqId (records.pendingBlocks seqId ++ [block]) records
      write (setState seqId next)
      appendBlocks hash seqId next completed payloads
  | _, _, _ => raise (.valueError "zip() arguments have different lengths")

/-- The rest of a call, from `offset` on. -/
def recordFrom (hash : List ℤ → Option Id → Id) (blockSize : ℕ)
    (makePrefixBlockPayloads : List (List Slot) → Except PyError (List Payload)) (seqId : ℤ)
    (state : PrefixRuntimeState Id Slot) (tokenIds : List ℤ) (slots : List Slot) (offset : ℕ)
    (completed : List (List ℤ × List Slot)) : Routine (PrefixRecords Id Slot Payload) Unit := do
  let fullTokens := (tokenIds.length - offset) / blockSize * blockSize
  let endFull := offset + fullTokens
  let completed := completed ++ (pyRange offset endFull blockSize).map fun blockStart =>
    ((tokenIds.drop blockStart).take blockSize, (slots.drop blockStart).take blockSize)
  let state : PrefixRuntimeState Id Slot :=
    if endFull < tokenIds.length then
      { state with pendingTokens := tokenIds.drop endFull, pendingSlots := [slots.drop endFull] }
    else { state with pendingTokens := [], pendingSlots := [] }
  write (setState seqId state)
  if completed = [] then pure ()
  else do
    let payloads ← ofExcept (makePrefixBlockPayloads (completed.map Prod.snd))
    appendBlocks hash seqId state completed payloads

/-- `_record_frozen_prefix_materialization`. -/
def recordFrozenPrefixMaterialization (hash : List ℤ → Option Id → Id) (blockSize : ℕ)
    (makePrefixBlockPayloads : List (List Slot) → Except PyError (List Payload))
    (seq : RecordedSequence Id) (tokenIds : List ℤ) (slots : List Slot) :
    Routine (PrefixRecords Id Slot Payload) Unit := do
  let records ← read
  let state := records.runtimeState seq
  write (setState seq.seqId state)
  write (setBlocks seq.seqId (records.pendingBlocks seq.seqId))
  if state.pendingTokens = [] then
    recordFrom hash blockSize makePrefixBlockPayloads seq.seqId state tokenIds slots 0 []
  else do
    let need := blockSize - state.pendingTokens.length
    let take := min need tokenIds.length
    let filled : PrefixRuntimeState Id Slot :=
      { state with
        pendingTokens := state.pendingTokens ++ tokenIds.take take
        pendingSlots := state.pendingSlots ++ [slots.take take] }
    if filled.pendingTokens.length = blockSize then
      recordFrom hash blockSize makePrefixBlockPayloads seq.seqId
        { filled with pendingTokens := [], pendingSlots := [] } tokenIds slots take
        [(filled.pendingTokens, filled.pendingSlots.flatten)]
    else write (setState seq.seqId filled)

end PrefixRecords

/-! ## The recorder of the coordinator -/

/-- `_MixedPrefixRuntimeState`. -/
structure MixedPrefixRuntimeState (Id : Type) where
  parentBlockId : Option Id
  nextLogicalBlockIdx : ℤ
  pendingTokens : List ℤ := []

/-- `_PendingMixedPrefixBlock`. -/
structure PendingMixedPrefixBlock (Id Payload : Type) where
  stableBlockId : Id
  parentBlockId : Option Id
  logicalBlockIdx : ℤ
  tokenIds : List ℤ
  payload : Payload

/-- The records of `PrefixCacheCoordinator`; `stores` is the state of everything
its closures call. -/
structure MixedPrefixRecords (Id Payload σ : Type) where
  runtimeStates : Dict ℤ (MixedPrefixRuntimeState Id)
  pendingBlocks : Dict ℤ (List (PendingMixedPrefixBlock Id Payload))
  pendingDuplicateRefs : Dict ℤ (List Id)
  capacityLimitedSeqIds : List ℤ
  skippedCapacityBlocks : ℕ
  stores : σ

/-- What `add_block` calls. -/
structure MixedPrefixStores (Id Payload σ : Type) where
  /-- `get_block` and, when there is one, `_hold_materialized_ref`. -/
  holdExisting : ℤ → Id → Routine σ Bool
  /-- `stable_block_id in pending_block_ids`. -/
  isPending : σ → Id → Bool
  /-- `_reserve_pending_block`. -/
  reservePendingBlock : Id → Routine σ Bool
  /-- The payload of the tokens from one position to another; it frees what it built when it raises. -/
  buildPayload : ℤ → ℤ → ℤ → Routine σ Payload
  /-- `_release_pending_reservation`. -/
  releasePendingReservation : Id → Routine σ Unit

namespace MixedPrefixRecords

open Routine

/-- Replace the runtime state of a sequence. -/
def setState (seqId : ℤ) (state : MixedPrefixRuntimeState Id) (records : MixedPrefixRecords Id Payload σ) :
    MixedPrefixRecords Id Payload σ :=
  { records with runtimeStates := records.runtimeStates.set seqId state }

/-- The runtime state a call starts with. -/
def runtimeState (records : MixedPrefixRecords Id Payload σ) (seq : RecordedSequence Id) :
    MixedPrefixRuntimeState Id :=
  match records.runtimeStates.get? seq.seqId with
  | some state => state
  | none => ⟨seq.prefixCacheHitLastBlockId, seq.prefixCacheHitBlockCount, []⟩

/-- `state.pending_tokens = tokens`. -/
def setPending (seqId : ℤ) (tokens : List ℤ) (records : MixedPrefixRecords Id Payload σ) :
    MixedPrefixRecords Id Payload σ :=
  match records.runtimeStates.get? seqId with
  | some state => setState seqId { state with pendingTokens := tokens } records
  | none => records

/-- `state.parent_block_id = stable_block_id` and
`state.next_logical_block_idx += 1`. -/
def advance (seqId : ℤ) (stableBlockId : Id) (records : MixedPrefixRecords Id Payload σ) :
    MixedPrefixRecords Id Payload σ :=
  match records.runtimeStates.get? seqId with
  | some state =>
      setState seqId
        { state with
          parentBlockId := some stableBlockId, nextLogicalBlockIdx := state.nextLogicalBlockIdx + 1 }
        records
  | none => records

/-- `pending_duplicate_refs.setdefault(seq_id, [])`, with the id appended when
it is new. -/
def noteDuplicate [DecidableEq Id] (seqId : ℤ) (stableBlockId : Id) (records : MixedPrefixRecords Id Payload σ) :
    MixedPrefixRecords Id Payload σ :=
  let refs := (records.pendingDuplicateRefs.get? seqId).getD []
  { records with
    pendingDuplicateRefs := records.pendingDuplicateRefs.set seqId
      (if stableBlockId ∈ refs then refs else refs ++ [stableBlockId]) }

/-- The sequence is limited by the capacity, and one more block is skipped. -/
def noteSkipped (seqId : ℤ) (records : MixedPrefixRecords Id Payload σ) : MixedPrefixRecords Id Payload σ :=
  { records with
    capacityLimitedSeqIds := records.capacityLimitedSeqIds.insert seqId
    skippedCapacityBlocks := records.skippedCapacityBlocks + 1 }

/-- `pending.append(block)`. -/
def appendPending (seqId : ℤ) (block : PendingMixedPrefixBlock Id Payload)
    (records : MixedPrefixRecords Id Payload σ) : MixedPrefixRecords Id Payload σ :=
  { records with
    pendingBlocks := records.pendingBlocks.set seqId ((records.pendingBlocks.get? seqId).getD [] ++ [block]) }

/-- A call on the stores. -/
def onStores {α : Type} (call : Routine σ α) : Routine (MixedPrefixRecords Id Payload σ) α :=
  focus stores (fun stores records => { records with stores := stores }) call

/-- `add_block`. -/
def addBlock [DecidableEq Id] (hash : List ℤ → Option Id → Id) (blockSize : ℕ)
    (calls : MixedPrefixStores Id Payload σ) (seq : RecordedSequence Id) (blockTokens : List ℤ) : Routine (MixedPrefixRecords Id Payload σ) Unit := do
  let records ← read
  let state := records.runtimeState seq
  let blockStart := state.nextLogicalBlockIdx * blockSize
  let blockEnd := blockStart + blockSize
  let stableBlockId := hash blockTokens state.parentBlockId
  let held ← onStores (calls.holdExisting seq.seqId stableBlockId)
  if held then write (advance seq.seqId stableBlockId)
  else do
    let records ← read
    if calls.isPending records.stores stableBlockId then do
      write (noteDuplicate seq.seqId stableBlockId)
      write (advance seq.seqId stableBlockId)
    else do
      let reserved ← onStores (calls.reservePendingBlock stableBlockId)
      if reserved then do
        let payload ← onError (onStores (calls.buildPayload seq.seqId blockStart blockEnd))
          (onStores (calls.releasePendingReservation stableBlockId))
        write (appendPending seq.seqId
          ⟨stableBlockId, state.parentBlockId, state.nextLogicalBlockIdx, blockTokens, payload⟩)
        write (advance seq.seqId stableBlockId)
      else write (noteSkipped seq.seqId)

/-- The runtime state and the list of pending blocks that the first call
creates. -/
def opened (seq : RecordedSequence Id) (records : MixedPrefixRecords Id Payload σ) :
    MixedPrefixRecords Id Payload σ :=
  { records with
    runtimeStates := records.runtimeStates.set seq.seqId (records.runtimeState seq)
    pendingBlocks := records.pendingBlocks.set seq.seqId
      ((records.pendingBlocks.get? seq.seqId).getD []) }

/-- The rest of a call, from `offset` on. -/
def recordTokensFrom [DecidableEq Id] (hash : List ℤ → Option Id → Id) (blockSize : ℕ)
    (calls : MixedPrefixStores Id Payload σ) (seq : RecordedSequence Id) (tokenIds : List ℤ) (offset : ℕ) :
    Routine (MixedPrefixRecords Id Payload σ) Unit := do
  let fullTokens := (tokenIds.length - offset) / blockSize * blockSize
  let endFull := offset + fullTokens
  forEach (fun blockStart => addBlock hash blockSize calls seq ((tokenIds.drop blockStart).take blockSize))
    (pyRange offset endFull blockSize)
  write (setPending seq.seqId (if endFull < tokenIds.length then tokenIds.drop endFull else []))

/-- `_record_tokens`. -/
def recordTokens [DecidableEq Id] (hash : List ℤ → Option Id → Id) (blockSize : ℕ)
    (calls : MixedPrefixStores Id Payload σ) (seq : RecordedSequence Id) (tokenIds : List ℤ) : Routine (MixedPrefixRecords Id Payload σ) Unit :=
  if seq.isMultimodal then pure ()
  else if tokenIds = [] then pure ()
  else do
    let records ← read
    let state := records.runtimeState seq
    write (opened seq)
    if state.pendingTokens = [] then recordTokensFrom hash blockSize calls seq tokenIds 0
    else do
      let need := blockSize - state.pendingTokens.length
      let take := min need tokenIds.length
      let filled := state.pendingTokens ++ tokenIds.take take
      write (setPending seq.seqId filled)
      if filled.length = blockSize then do
        addBlock hash blockSize calls seq filled
        write (setPending seq.seqId [])
        recordTokensFrom hash blockSize calls seq tokenIds take
      else pure ()

end MixedPrefixRecords
