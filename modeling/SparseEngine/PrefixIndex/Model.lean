import SparseEngine.RadixTree.Model
import SparseEngine.PrefixIndex.RoutingMembership
import Mathlib.Data.Finset.Sort

/-!
# The prefix index

`RadixPrefixIndex` of `prefix_cache.py`: the indexed blocks, the radix tree
over their ids, the incrementally maintained set of freeable blocks, the four
capacity views cached under an epoch, and the routing set.

A block is a mutable Python object.  The index stores the current fields of
the objects it holds, and `obj` is the identity of the object, so that
`self.blocks.get(block_id) is block` compares identities.  A method that is
handed an object works on the stored fields when the object is the indexed one
(`resolve`) and on the argument's own fields otherwise; a write to an object
that is not indexed does not reach the index (`store`).

The block hash is the parameter `hash`, at a fixed fingerprint.  The request
counters that only `stats` reads are left out.
-/

/-- `PrefixTransferKind`. -/
inductive PrefixTransferKind where
  | d2h
  | h2d
  deriving DecidableEq, Repr

/-- `PrefixBlockResidency`. -/
structure PrefixBlockResidency where
  devicePresent : Bool := true
  hostPresent : Bool := false
  transfer : Option PrefixTransferKind := none
  deriving DecidableEq, Repr

/-- `PrefixBlockResidency.validate`. -/
def PrefixBlockResidency.validate (residency : PrefixBlockResidency) : Except PyError Unit :=
  if ¬ residency.devicePresent ∧ ¬ residency.hostPresent then
    .error (.runtimeError "Prefix cache block has no resident payload.")
  else if residency.transfer = some .d2h then
    if ¬ residency.devicePresent ∨ residency.hostPresent then
      .error (.runtimeError
        "D2H prefix transfer requires a device payload and no published host payload.")
    else .ok ()
  else if residency.transfer = some .h2d then
    if ¬ residency.devicePresent ∨ ¬ residency.hostPresent then
      .error (.runtimeError "H2D prefix transfer requires allocated device and host payloads.")
    else .ok ()
  else .ok ()

/-- `PrefixCacheBlock`.  `obj` is the identity of the Python object. -/
structure PrefixCacheBlock (Id Payload : Type) where
  obj : ℕ
  stableBlockId : Id
  parentBlockId : Option Id
  logicalBlockIdx : ℤ
  payload : Payload
  tokenIds : List ℤ := []
  refCount : ℤ := 0
  lastAccess : ℤ := 0
  evictionPriority : ℤ := 0
  residency : PrefixBlockResidency := {}

/-- `usable_prefix_cache_tokens`, for a valid block size. -/
def usablePrefixCacheTokens (promptLen blockSize : ℤ) : ℤ :=
  if promptLen ≤ 1 then 0 else (promptLen - 1) / blockSize * blockSize

/-- `PrefixCacheRoutingSnapshot`, as `routing_snapshot` builds it. -/
structure PrefixCacheRoutingSnapshot (Id : Type) where
  method : String
  blockSize : ℕ
  routingMembership : RoutingMembership Id

/-- `RadixPrefixIndex`. -/
structure RadixPrefixIndex (Id Payload : Type) where
  blockSize : ℕ
  maxBlocks : Option ℤ
  backend : RadixTreeBackend Id
  blocks : Dict Id (PrefixCacheBlock Id Payload)
  clock : ℤ
  mutationEpoch : ℤ
  capacityEpoch : ℤ
  lookupEpoch : ℤ
  insertEpoch : ℤ
  removeEpoch : ℤ
  freeableCacheEpoch : ℤ
  freeableBlockIdsCache : Finset Id
  freeableIds : Option (Finset Id)
  blockedFreeableChildren : Dict Id ℤ
  evictableCacheEpoch : ℤ
  evictableBlockIdsCache : Finset Id
  deviceFreeableCacheEpoch : ℤ
  deviceFreeableBlockIdsCache : Finset Id
  deviceReclaimableCacheEpoch : ℤ
  deviceReclaimableBlockIdsCache : Finset Id
  committedBlocks : ℤ
  routingSnapshotCache : Option (PrefixCacheRoutingSnapshot Id)
  routingMembership : RoutingMembership Id

/-- `PrefixCacheBlockedBlock`. -/
structure PrefixCacheBlockedBlock (Id : Type) where
  blockId : Option Id
  reason : String

/-- `PrefixCacheDeleteResult`. -/
structure PrefixCacheDeleteResult (Id Payload : Type) where
  deletedBlocks : List (PrefixCacheBlock Id Payload)
  blockedBlocks : List (PrefixCacheBlockedBlock Id)

/-- What `set_subtree_eviction_priority` reports. -/
structure PriorityUpdateResult (Id : Type) where
  isMatched : Bool
  reason : Option String
  rootBlockId : Option Id
  updatedBlockCount : ℕ
  evictionPriority : ℤ

namespace RadixPrefixIndex

open Routine RadixTreeBackend

variable {Id Payload : Type} [LinearOrder Id]

/-- A method of the index. -/
abbrev Method (Id Payload α : Type) := Routine (RadixPrefixIndex Id Payload) α

/-- `RadixPrefixIndex(block_size, fingerprint, max_blocks)`, for valid
arguments. -/
def init (blockSize : ℕ) (maxBlocks : Option ℤ) : RadixPrefixIndex Id Payload where
  blockSize := blockSize
  maxBlocks := maxBlocks
  backend := RadixTreeBackend.init
  blocks := Dict.empty
  clock := 0
  mutationEpoch := 0
  capacityEpoch := 0
  lookupEpoch := 0
  insertEpoch := 0
  removeEpoch := 0
  freeableCacheEpoch := -1
  freeableBlockIdsCache := ∅
  freeableIds := none
  blockedFreeableChildren := Dict.empty
  evictableCacheEpoch := -1
  evictableBlockIdsCache := ∅
  deviceFreeableCacheEpoch := -1
  deviceFreeableBlockIdsCache := ∅
  deviceReclaimableCacheEpoch := -1
  deviceReclaimableBlockIdsCache := ∅
  committedBlocks := 0
  routingSnapshotCache := none
  routingMembership := {}

/-! ## Objects and identities -/

/-- `self.blocks.get(block.stable_block_id) is block`. -/
def IsIndexed (index : RadixPrefixIndex Id Payload) (block : PrefixCacheBlock Id Payload) : Prop :=
  (index.blocks.get? block.stableBlockId).map (·.obj) = some block.obj

instance (index : RadixPrefixIndex Id Payload) (block : PrefixCacheBlock Id Payload) :
    Decidable (index.IsIndexed block) :=
  inferInstanceAs (Decidable (_ = _))

/-- The current fields of an object. -/
def resolve (index : RadixPrefixIndex Id Payload) (block : PrefixCacheBlock Id Payload) :
    PrefixCacheBlock Id Payload :=
  match index.blocks.get? block.stableBlockId with
  | some stored => if stored.obj = block.obj then stored else block
  | none => block

/-- A write to the fields of an object. -/
def store (block : PrefixCacheBlock Id Payload) (index : RadixPrefixIndex Id Payload) :
    RadixPrefixIndex Id Payload :=
  if index.IsIndexed block then
    { index with blocks := index.blocks.set block.stableBlockId block }
  else index

/-! ## Clock and epochs -/

/-- `_tick`. -/
def tick : Method Id Payload ℤ := do
  write fun index => { index with clock := index.clock + 1 }
  return (← read).clock

/-- `_mark_mutated`. -/
def markMutated (index : RadixPrefixIndex Id Payload) : RadixPrefixIndex Id Payload :=
  { index with mutationEpoch := index.mutationEpoch + 1 }

/-- `_mark_capacity_mutated`. -/
def markCapacityMutated (index : RadixPrefixIndex Id Payload) : RadixPrefixIndex Id Payload :=
  { index with
    capacityEpoch := index.capacityEpoch + 1
    mutationEpoch := index.mutationEpoch + 1 }

/-- `_mark_inserted`. -/
def markInserted (capacityChanged : Bool) (index : RadixPrefixIndex Id Payload) :
    RadixPrefixIndex Id Payload :=
  let index := { index with
    insertEpoch := index.insertEpoch + 1
    lookupEpoch := index.lookupEpoch + 1 }
  if capacityChanged then index.markCapacityMutated else index.markMutated

/-- `_mark_removed`. -/
def markRemoved (index : RadixPrefixIndex Id Payload) : RadixPrefixIndex Id Payload :=
  markCapacityMutated { index with
    removeEpoch := index.removeEpoch + 1
    lookupEpoch := index.lookupEpoch + 1 }

/-! ## The freeable set -/

/-- No reference, no negative priority and no transfer: the test that several
methods spell out. -/
def Idle (block : PrefixCacheBlock Id Payload) : Prop :=
  block.refCount = 0 ∧ 0 ≤ block.evictionPriority ∧ block.residency.transfer = none

instance (block : PrefixCacheBlock Id Payload) : Decidable (Idle block) :=
  inferInstanceAs (Decidable (_ ∧ _ ∧ _))

/-- The loop of `_refresh_freeable_path`. -/
def refreshFreeableLoop : ℕ → Option Id → Method Id Payload Unit
  | 0, _ => pure ()
  | _ + 1, none => pure ()
  | fuel + 1, some blockId => do
      let index ← read
      match index.freeableIds with
      | none => pure ()
      | some freeable =>
          match index.blocks.get? blockId, index.blockedFreeableChildren.get? blockId with
          | some block, some blocked =>
              let wasFreeable := decide (blockId ∈ freeable)
              let isFreeable := decide (blocked = 0 ∧ Idle block)
              if isFreeable = wasFreeable then pure ()
              else do
                write fun index => { index with
                  freeableIds := some
                    (if isFreeable then insert blockId freeable else freeable.erase blockId) }
                match block.parentBlockId with
                | none => pure ()
                | some parentId =>
                    match index.blockedFreeableChildren.get? parentId with
                    | none => raise (.keyError "_blocked_freeable_children")
                    | some count => do
                        write fun index => { index with
                          blockedFreeableChildren := index.blockedFreeableChildren.set parentId
                            (count + if isFreeable then -1 else 1) }
                        refreshFreeableLoop fuel (some parentId)
          | none, _ => raise (.keyError "blocks")
          | _, none => raise (.keyError "_blocked_freeable_children")

/-- `_refresh_freeable_path`. -/
def refreshFreeablePath (blockId : Option Id) : Method Id Payload Unit := do
  let index ← read
  refreshFreeableLoop (index.blocks.size + 1) blockId

/-- `mark_payload_compacted`. -/
def markPayloadCompacted (blocks : List (PrefixCacheBlock Id Payload)) :
    Method Id Payload Unit := do
  if blocks = [] then pure ()
  else do
    let index ← read
    raiseIf (∃ block ∈ blocks, ¬ index.IsIndexed block)
      (.runtimeError "Cannot update a prefix block that is not indexed.")
    write markCapacityMutated

/-! ## References -/

/-- `set_block_ref_count`. -/
def setBlockRefCount (block : PrefixCacheBlock Id Payload) (refCount : ℤ)
    (negativeError : String) : Method Id Payload Unit := do
  let index ← read
  raiseIf (¬ index.IsIndexed block)
    (.runtimeError "Cannot update a prefix block that is not indexed.")
  let block := index.resolve block
  raiseIf (refCount < 0) (.runtimeError negativeError)
  if block.refCount = refCount then pure ()
  else do
    write (store { block with refCount := refCount })
    if decide (block.refCount = 0) ≠ decide (refCount = 0) then do
      refreshFreeablePath (some block.stableBlockId)
      write markCapacityMutated
    else write markMutated

/-- The default `negative_error`. -/
def refCountNegative : String := "Prefix cache block ref_count became negative."

/-- `acquire_block_ref`. -/
def acquireBlockRef (block : PrefixCacheBlock Id Payload) : Method Id Payload Unit := do
  let index ← read
  setBlockRefCount block ((index.resolve block).refCount + 1) refCountNegative

/-- `release_block_ref`. -/
def releaseBlockRef (block : PrefixCacheBlock Id Payload) (negativeError : String) :
    Method Id Payload Unit := do
  let index ← read
  setBlockRefCount block ((index.resolve block).refCount - 1) negativeError

/-! ## Lookups -/

/-- The loop of `block_ids_for_tokens`, over the number of full blocks. -/
def blockIdsLoop (hash : List ℤ → Option Id → Id) (blockSize : ℕ) :
    ℕ → List ℤ → Option Id → List Id
  | 0, _, _ => []
  | count + 1, tokenIds, parentBlockId =>
      let blockId := hash (tokenIds.take blockSize) parentBlockId
      blockId :: blockIdsLoop hash blockSize count (tokenIds.drop blockSize) (some blockId)

/-- `block_ids_for_tokens`. -/
def blockIdsForTokens (hash : List ℤ → Option Id → Id) (index : RadixPrefixIndex Id Payload)
    (tokenIds : List ℤ) (maxTokens : Option ℤ) : List Id :=
  let tokenLimit : ℤ :=
    match maxTokens with
    | none => tokenIds.length
    | some maxTokens => min maxTokens tokenIds.length
  blockIdsLoop hash index.blockSize (tokenLimit / index.blockSize).toNat tokenIds none

/-- `match_longest_block_ids`: hit length, last block id, hit blocks. -/
def matchLongestBlockIds (index : RadixPrefixIndex Id Payload) (blockIds : List Id) :
    ℕ × Option Id × ℕ :=
  let result := index.backend.lookup blockIds blockIds.length
  if result.hitBlockCount = 0 then (0, none, 0)
  else (result.hitBlockCount * index.blockSize, result.lastBlockId, result.hitBlockCount)

/-- `match_longest_prefix`. -/
def matchLongestPrefix (hash : List ℤ → Option Id → Id) (index : RadixPrefixIndex Id Payload)
    (tokenIds : List ℤ) (maxUsableTokens : ℤ) : ℕ × Option Id × ℕ :=
  index.matchLongestBlockIds (index.blockIdsForTokens hash tokenIds (some maxUsableTokens))

/-- `child_count`. -/
def childCount (index : RadixPrefixIndex Id Payload) (blockId : Id) : Except PyError ℕ :=
  index.backend.childCount blockId

/-- `device_child_count`. -/
def deviceChildCount (index : RadixPrefixIndex Id Payload) (blockId : Id) : Except PyError ℕ := do
  let children ← index.backend.childBlockIds blockId
  return children.countP fun childId =>
    match index.blocks.get? childId with
    | none => false
    | some child => child.residency.devicePresent

/-- `touch_chain`. -/
def touchChain (blocks : List (PrefixCacheBlock Id Payload)) : Method Id Payload Unit := do
  let access ← tick
  write fun index => blocks.foldl
    (fun index block => store { index.resolve block with lastAccess := access } index) index

/-! ## Capacity queries -/

/-- `evictable_block_ids`. -/
def evictableBlockIds : Method Id Payload (Finset Id) := do
  let index ← read
  if index.evictableCacheEpoch = index.capacityEpoch then return index.evictableBlockIdsCache
  else do
    write fun index => { index with
      evictableBlockIdsCache := index.backend.leafBlockIds.filter fun blockId =>
        (index.blocks.get? blockId).any fun block => Idle block
      evictableCacheEpoch := index.capacityEpoch }
    return (← read).evictableBlockIdsCache

/-- `children[parent] += 1`, for a block with a parent. -/
def countParent (children : Dict Id ℤ) (parentBlockId : Option Id) :
    Except PyError (Dict Id ℤ) :=
  match parentBlockId with
  | none => .ok children
  | some parentId =>
      match children.get? parentId with
      | none => .error (.keyError "children")
      | some count => .ok (children.set parentId (count + 1))

/-- The virtual leaf removal of `freeable_block_ids`.  The top of `pending` is
the head. -/
def freeableLoop (blocks : Dict Id (PrefixCacheBlock Id Payload)) :
    ℕ → List Id → Finset Id → Dict Id ℤ → Except PyError (Finset Id × Dict Id ℤ)
  | 0, _, freeable, children => .ok (freeable, children)
  | _ + 1, [], freeable, children => .ok (freeable, children)
  | fuel + 1, blockId :: pending, freeable, children =>
      match blocks.get? blockId with
      | none => .error (.keyError "blocks")
      | some block =>
          if ¬ Idle block then freeableLoop blocks fuel pending freeable children
          else
            match block.parentBlockId with
            | none => freeableLoop blocks fuel pending (insert blockId freeable) children
            | some parentId =>
                match children.get? parentId with
                | none => .error (.keyError "children")
                | some count =>
                    freeableLoop blocks fuel
                      (if count - 1 = 0 then parentId :: pending else pending)
                      (insert blockId freeable) (children.set parentId (count - 1))

/-- The first build of `_freeable_ids` and `_blocked_freeable_children`. -/
def buildFreeable (blocks : Dict Id (PrefixCacheBlock Id Payload)) :
    Except PyError (Finset Id × Dict Id ℤ) := do
  let children ← blocks.values.foldlM (fun children block => countParent children block.parentBlockId)
    (blocks.mapValues fun _ _ => 0)
  let pending := (children.entries.filter fun entry => entry.2 = 0).map Prod.fst
  freeableLoop blocks (blocks.size + 1) pending.reverse ∅ children

/-- `freeable_block_ids`. -/
def freeableBlockIds : Method Id Payload (Finset Id) := do
  let index ← read
  if index.freeableCacheEpoch = index.capacityEpoch then return index.freeableBlockIdsCache
  else do
    match index.freeableIds with
    | some freeable =>
        write fun index => { index with
          freeableBlockIdsCache := freeable
          freeableCacheEpoch := index.capacityEpoch }
        return freeable
    | none => do
        let (freeable, children) ← ofExcept (buildFreeable index.blocks)
        write fun index => { index with
          freeableIds := some freeable
          blockedFreeableChildren := children
          freeableBlockIdsCache := freeable
          freeableCacheEpoch := index.capacityEpoch }
        return freeable

/-- `locally_freeable` of `_device_reclaimable_block_ids`. -/
def LocallyFreeable (includeInflightD2h : Bool) (block : PrefixCacheBlock Id Payload) : Prop :=
  block.refCount = 0 ∧ 0 ≤ block.evictionPriority ∧ block.residency.devicePresent ∧
    ((block.residency.hostPresent ∧ block.residency.transfer = none) ∨
      (includeInflightD2h ∧ block.residency.transfer = some .d2h))

instance (includeInflightD2h : Bool) (block : PrefixCacheBlock Id Payload) :
    Decidable (LocallyFreeable includeInflightD2h block) :=
  inferInstanceAs (Decidable (_ ∧ _ ∧ _ ∧ _))

/-- The `device_children` comprehension of `_device_reclaimable_block_ids`. -/
def countDeviceChildren (index : RadixPrefixIndex Id Payload) : Except PyError (Dict Id ℤ) :=
  index.blocks.entries.foldlM
    (fun children entry =>
      if entry.2.residency.devicePresent then do
        return children.set entry.1 (← index.deviceChildCount entry.1)
      else return children)
    Dict.empty

/-- The stack loop of `_device_reclaimable_block_ids`. -/
def reclaimableLoop (blocks : Dict Id (PrefixCacheBlock Id Payload)) (includeInflightD2h : Bool) :
    ℕ → List Id → Finset Id → Dict Id ℤ → Finset Id
  | 0, _, freeable, _ => freeable
  | _ + 1, [], freeable, _ => freeable
  | fuel + 1, blockId :: stack, freeable, children =>
      match blocks.get? blockId with
      | none => reclaimableLoop blocks includeInflightD2h fuel stack freeable children
      | some block =>
          if blockId ∈ freeable ∨ ¬ LocallyFreeable includeInflightD2h block then
            reclaimableLoop blocks includeInflightD2h fuel stack freeable children
          else
            match block.parentBlockId.bind fun parentId =>
              (children.get? parentId).map fun count => (parentId, count) with
            | none =>
                reclaimableLoop blocks includeInflightD2h fuel stack (insert blockId freeable)
                  children
            | some (parentId, count) =>
                reclaimableLoop blocks includeInflightD2h fuel
                  (if count - 1 = 0 then parentId :: stack else stack) (insert blockId freeable)
                  (children.set parentId (count - 1))

/-- The scan of `_device_reclaimable_block_ids`. -/
def scanDeviceReclaimable (index : RadixPrefixIndex Id Payload) (includeInflightD2h : Bool) :
    Except PyError (Finset Id) := do
  let children ← index.countDeviceChildren
  let stack := (children.entries.filter fun entry => entry.2 = 0).map Prod.fst
  return reclaimableLoop index.blocks includeInflightD2h (index.blocks.size + 1) stack.reverse ∅
    children

/-- `device_freeable_block_ids`. -/
def deviceFreeableBlockIds : Method Id Payload (Finset Id) := do
  let index ← read
  if index.deviceFreeableCacheEpoch = index.capacityEpoch then
    return index.deviceFreeableBlockIdsCache
  else do
    let result ← ofExcept (index.scanDeviceReclaimable false)
    write fun index => { index with
      deviceFreeableCacheEpoch := index.capacityEpoch
      deviceFreeableBlockIdsCache := result }
    return result

/-- `device_reclaimable_block_ids`. -/
def deviceReclaimableBlockIds : Method Id Payload (Finset Id) := do
  let index ← read
  if index.deviceReclaimableCacheEpoch = index.capacityEpoch then
    return index.deviceReclaimableBlockIdsCache
  else do
    let result ← ofExcept (index.scanDeviceReclaimable true)
    write fun index => { index with
      deviceReclaimableCacheEpoch := index.capacityEpoch
      deviceReclaimableBlockIdsCache := result }
    return result

/-! ## Insertion and removal -/

/-- `_record_routing_insert`. -/
def recordRoutingInsert (blockId : Id) : Method Id Payload Unit := do
  let index ← read
  let membership ← ofExcept (index.routingMembership.insert blockId)
  write fun index => { index with routingMembership := membership, routingSnapshotCache := none }

/-- `_record_routing_remove`. -/
def recordRoutingRemove (blockId : Id) : Method Id Payload Unit := do
  let index ← read
  let membership ← ofExcept (index.routingMembership.remove blockId)
  write fun index => { index with routingMembership := membership, routingSnapshotCache := none }

/-- A method of the radix tree the index owns. -/
def onBackend {α : Type} (method : Routine (RadixTreeBackend Id) α) : Method Id Payload α :=
  fun index => ((method index.backend).1, { index with backend := (method index.backend).2 })

/-- The parent checks of `insert_block`. -/
def checkInsertParent (index : RadixPrefixIndex Id Payload)
    (block : PrefixCacheBlock Id Payload) : Except PyError Unit :=
  match block.parentBlockId with
  | none => .ok ()
  | some parentId =>
      match index.blocks.get? parentId with
      | none => .error (.keyError "Cannot insert prefix cache block because parent is missing.")
      | some parent =>
          if block.residency.devicePresent ∧ ¬ parent.residency.devicePresent then
            .error (.runtimeError
              "Cannot insert a device-resident prefix block below a host-only parent.")
          else if block.residency.hostPresent ∧ ¬ parent.residency.hostPresent then
            .error (.runtimeError
              "Cannot insert a host-resident prefix block below a device-only parent.")
          else .ok ()

/-- The freeable bookkeeping of `insert_block`. -/
def trackInserted (block : PrefixCacheBlock Id Payload) : Method Id Payload Unit := do
  let index ← read
  if index.freeableIds.isNone then pure ()
  else do
    write fun index => { index with
      blockedFreeableChildren := index.blockedFreeableChildren.set block.stableBlockId 0 }
    match block.parentBlockId with
    | none => pure ()
    | some parentId => do
        let index ← read
        match index.blockedFreeableChildren.get? parentId with
        | none => raise (.keyError "_blocked_freeable_children")
        | some count =>
            write fun index => { index with
              blockedFreeableChildren :=
                index.blockedFreeableChildren.set parentId (count + 1) }
    refreshFreeablePath (some block.stableBlockId)
    refreshFreeablePath block.parentBlockId

/-- `capacity_changed` of `insert_block`. -/
def capacityChanged (index : RadixPrefixIndex Id Payload) (block : PrefixCacheBlock Id Payload) :
    Bool :=
  match block.parentBlockId.bind index.blocks.get? with
  | none => decide (Idle block)
  | some parent => decide (Idle block ∨ Idle parent)

/-- `insert_block`. -/
def insertBlock (block : PrefixCacheBlock Id Payload) :
    Method Id Payload (PrefixCacheBlock Id Payload) := do
  let index ← read
  let block := index.resolve block
  ofExcept block.residency.validate
  match index.blocks.get? block.stableBlockId with
  | some existing => do
      let access ← tick
      write (store { existing with lastAccess := access })
      return { existing with lastAccess := access }
  | none => do
      match index.maxBlocks with
      | none => pure ()
      | some maxBlocks =>
          if maxBlocks ≤ index.blocks.size then do
            let evictable ← evictableBlockIds
            raise (.runtimeError ("Prefix cache capacity exceeded before insert: " ++
              s!"live_blocks={index.blocks.size} max_blocks={maxBlocks} evictable_blocks={evictable.card}."))
          else pure ()
      ofExcept (index.checkInsertParent block)
      let access ← tick
      let block := { block with lastAccess := access }
      write fun index => { index with blocks := index.blocks.set block.stableBlockId block }
      onBackend (insertChild block.parentBlockId block.stableBlockId)
      trackInserted block
      write fun index => { index with committedBlocks := index.committedBlocks + 1 }
      recordRoutingInsert block.stableBlockId
      write fun index => markInserted (index.capacityChanged block) index
      return block

/-- The freeable bookkeeping of `_remove_block_from_index`. -/
def trackRemoved (block : PrefixCacheBlock Id Payload) : Method Id Payload Unit := do
  let index ← read
  match index.freeableIds with
  | none => pure ()
  | some freeable => do
      write fun index => { index with
        freeableIds := some (freeable.erase block.stableBlockId)
        blockedFreeableChildren := index.blockedFreeableChildren.erase block.stableBlockId }
      if block.stableBlockId ∈ freeable then pure ()
      else
        match block.parentBlockId with
        | none => pure ()
        | some parentId => do
            let index ← read
            match index.blockedFreeableChildren.get? parentId with
            | none => raise (.keyError "_blocked_freeable_children")
            | some count => do
                write fun index => { index with
                  blockedFreeableChildren :=
                    index.blockedFreeableChildren.set parentId (count - 1) }
                refreshFreeablePath (some parentId)

/-- `_remove_block_from_index`. -/
def removeBlockFromIndex (blockId : Id) :
    Method Id Payload (PrefixCacheBlock Id Payload) := do
  let index ← read
  match index.blocks.get? blockId with
  | none => raise (.keyError "Prefix cache block is not present.")
  | some block => do
      raiseIf (block.refCount ≠ 0)
        (.runtimeError "Cannot remove a referenced prefix cache block.")
      raiseIf (block.evictionPriority < 0)
        (.runtimeError "Cannot remove a negative-priority prefix cache block.")
      raiseIf (block.residency.transfer ≠ none)
        (.runtimeError "Cannot remove a prefix cache block with an in-flight transfer.")
      let children ← ofExcept (index.childCount blockId)
      raiseIf (children ≠ 0)
        (.runtimeError "Cannot remove a prefix cache block with live children.")
      onBackend (removeBlock blockId)
      write fun index => { index with blocks := index.blocks.erase blockId }
      trackRemoved block
      recordRoutingRemove blockId
      write markRemoved
      return block

/-- `rollback_inserted_leaf`. -/
def rollbackInsertedLeaf (block : PrefixCacheBlock Id Payload) : Method Id Payload Unit := do
  let index ← read
  raiseIf (¬ index.IsIndexed block)
    (.runtimeError "Cannot roll back a prefix block that is not the current indexed block.")
  let block := index.resolve block
  raiseIf (block.refCount ≠ 0) (.runtimeError "Cannot roll back a referenced prefix block.")
  let children ← ofExcept (index.childCount block.stableBlockId)
  raiseIf (children ≠ 0) (.runtimeError "Cannot roll back a prefix block with live children.")
  raiseIf (index.committedBlocks ≤ 0)
    (.runtimeError "Cannot roll back prefix commit statistics below zero.")
  let _ ← removeBlockFromIndex block.stableBlockId
  write fun index => { index with committedBlocks := index.committedBlocks - 1 }

/-! ## Transfers -/

/-- The common end of the six transfer methods: write the residency, validate
it, refresh and bump the capacity epoch. -/
def setResidency (block : PrefixCacheBlock Id Payload) (residency : PrefixBlockResidency) :
    Method Id Payload Unit := do
  write (store { block with residency := residency })
  ofExcept residency.validate
  refreshFreeablePath (some block.stableBlockId)
  write markCapacityMutated

/-- `begin_d2h`. -/
def beginD2h (block : PrefixCacheBlock Id Payload) : Method Id Payload Unit := do
  let index ← read
  raiseIf (¬ index.IsIndexed block)
    (.runtimeError "Cannot back up a prefix block that is not indexed.")
  let block := index.resolve block
  ofExcept block.residency.validate
  raiseIf (block.refCount ≠ 0) (.runtimeError "Cannot back up a referenced prefix cache block.")
  raiseIf block.residency.hostPresent
    (.runtimeError "Cannot back up a prefix cache block that already has a host payload.")
  raiseIf (block.residency.transfer ≠ none)
    (.runtimeError "Cannot start D2H while another prefix transfer is active.")
  raiseIf (∃ parentId ∈ block.parentBlockId, ¬ ∃ parent ∈ index.blocks.get? parentId,
      parent.residency.hostPresent ∨ parent.residency.transfer = some .d2h)
    (.runtimeError "Prefix D2H backup must preserve a host-resident path from the radix root.")
  setResidency block { block.residency with transfer := some .d2h }

/-- `finish_d2h`. -/
def finishD2h (block : PrefixCacheBlock Id Payload) : Method Id Payload Unit := do
  let index ← read
  let block := index.resolve block
  raiseIf (block.residency.transfer ≠ some .d2h)
    (.runtimeError "Cannot finish D2H without an active D2H prefix transfer.")
  raiseIf (∃ parentId ∈ block.parentBlockId, ¬ ∃ parent ∈ index.blocks.get? parentId,
      parent.residency.hostPresent)
    (.runtimeError "Cannot publish a host prefix payload before its parent is host-resident.")
  setResidency block { block.residency with hostPresent := true, transfer := none }

/-- `abort_d2h`. -/
def abortD2h (block : PrefixCacheBlock Id Payload) : Method Id Payload Unit := do
  let index ← read
  let block := index.resolve block
  raiseIf (block.residency.transfer ≠ some .d2h)
    (.runtimeError "Cannot abort D2H without an active D2H prefix transfer.")
  setResidency block { block.residency with transfer := none }

/-- `begin_h2d`. -/
def beginH2d (block : PrefixCacheBlock Id Payload) : Method Id Payload Unit := do
  let index ← read
  raiseIf (¬ index.IsIndexed block)
    (.runtimeError "Cannot promote a prefix block that is not indexed.")
  let block := index.resolve block
  ofExcept block.residency.validate
  raiseIf block.residency.devicePresent
    (.runtimeError "Cannot promote a prefix cache block that already has a device payload.")
  raiseIf (¬ block.residency.hostPresent)
    (.runtimeError "Cannot promote a prefix cache block without a host payload.")
  raiseIf (block.residency.transfer ≠ none)
    (.runtimeError "Cannot start H2D while another prefix transfer is active.")
  raiseIf (∃ parentId ∈ block.parentBlockId, ¬ ∃ parent ∈ index.blocks.get? parentId,
      parent.residency.devicePresent)
    (.runtimeError "Prefix H2D promotion must preserve a device-resident path from the radix root.")
  setResidency block { block.residency with devicePresent := true, transfer := some .h2d }

/-- `finish_h2d`. -/
def finishH2d (block : PrefixCacheBlock Id Payload) : Method Id Payload Unit := do
  let index ← read
  let block := index.resolve block
  raiseIf (block.residency.transfer ≠ some .h2d)
    (.runtimeError "Cannot finish H2D without an active H2D prefix transfer.")
  setResidency block { block.residency with transfer := none }

/-- `abort_h2d`. -/
def abortH2d (block : PrefixCacheBlock Id Payload) : Method Id Payload Unit := do
  let index ← read
  let block := index.resolve block
  raiseIf (block.residency.transfer ≠ some .h2d)
    (.runtimeError "Cannot abort H2D without an active H2D prefix transfer.")
  let children ← ofExcept (index.deviceChildCount block.stableBlockId)
  raiseIf (children ≠ 0)
    (.runtimeError "Cannot abort H2D while a device-resident child depends on the block.")
  setResidency block { block.residency with devicePresent := false, transfer := none }

/-! ## Candidate heaps -/

/-- `(-eviction_priority, last_access, block_id)`. -/
abbrev Candidate (Id : Type) := ℤ × ℤ × Id

/-- The order of the candidate tuples. -/
def Candidate.le (a b : Candidate Id) : Bool :=
  a.1 < b.1 || (a.1 = b.1 && (a.2.1 < b.2.1 || (a.2.1 = b.2.1 && a.2.2 ≤ b.2.2)))

/-- `candidate_heap` and `queued`. -/
structure CandidateHeap (Id : Type) where
  heap : List (Candidate Id) := []
  queued : Finset Id := ∅

/-- `heapq.heappop`: the least candidate and the others. -/
def heappop : List (Candidate Id) → Option (Candidate Id × List (Candidate Id))
  | [] => none
  | candidate :: rest =>
      match heappop rest with
      | none => some (candidate, [])
      | some (least, others) =>
          if Candidate.le candidate least then some (candidate, rest)
          else some (least, candidate :: others)

/-- `queue_if_evictable` and `queue_if_demotable`. -/
def queueIf (index : RadixPrefixIndex Id Payload)
    (test : PrefixCacheBlock Id Payload → Except PyError Bool) (candidates : CandidateHeap Id)
    (blockId : Option Id) : Except PyError (CandidateHeap Id) :=
  match blockId with
  | none => .ok candidates
  | some blockId =>
      if blockId ∈ candidates.queued then .ok candidates
      else
        match index.blocks.get? blockId with
        | none => .ok candidates
        | some block => do
            if ← test block then
              return ⟨(-block.evictionPriority, block.lastAccess, blockId) :: candidates.heap,
                insert blockId candidates.queued⟩
            else return candidates

/-- The inner loop: pop until a candidate still passes the test. -/
def popCandidate (index : RadixPrefixIndex Id Payload)
    (test : PrefixCacheBlock Id Payload → Except PyError Bool) :
    ℕ → CandidateHeap Id →
      Except PyError (Option (PrefixCacheBlock Id Payload) × CandidateHeap Id)
  | 0, candidates => .ok (none, candidates)
  | fuel + 1, candidates =>
      match heappop candidates.heap with
      | none => .ok (none, candidates)
      | some ((_, _, blockId), heap) =>
          let candidates : CandidateHeap Id := ⟨heap, candidates.queued.erase blockId⟩
          match index.blocks.get? blockId with
          | none => popCandidate index test fuel candidates
          | some block => do
              if ← test block then return (some block, candidates)
              else popCandidate index test fuel candidates

/-! ## Eviction -/

/-- `can_evict`. -/
def canEvict (index : RadixPrefixIndex Id Payload) (block : PrefixCacheBlock Id Payload) :
    Except PyError Bool :=
  if ¬ Idle block then .ok false
  else do return (← index.childCount block.stableBlockId) = 0

/-- `can_evict_host`. -/
def canEvictHost (index : RadixPrefixIndex Id Payload) (block : PrefixCacheBlock Id Payload) :
    Except PyError Bool :=
  if ¬ (block.refCount = 0 ∧ 0 ≤ block.evictionPriority ∧ ¬ block.residency.devicePresent ∧
      block.residency.hostPresent ∧ block.residency.transfer = none) then .ok false
  else do return (← index.childCount block.stableBlockId) = 0

/-- The outer loop of the two eviction methods.  Every round removes a block, so
the number of blocks bounds the rounds. -/
def evictLoop (test : RadixPrefixIndex Id Payload → PrefixCacheBlock Id Payload →
      Except PyError Bool) (negativeWeight : PyError) (neededWeight : ℤ)
    (blockWeight : PrefixCacheBlock Id Payload → Except PyError ℤ) :
    ℕ → ℤ → CandidateHeap Id → List (PrefixCacheBlock Id Payload) →
      Method Id Payload (List (PrefixCacheBlock Id Payload))
  | 0, _, _, evicted => pure evicted
  | fuel + 1, evictedWeight, candidates, evicted => do
      if neededWeight ≤ evictedWeight then return evicted
      else do
        let index ← read
        let (found, candidates) ←
          ofExcept (popCandidate index (test index) candidates.heap.length candidates)
        match found with
        | none => return evicted
        | some block => do
            let weight ← ofExcept (blockWeight block)
            raiseIf (weight < 0) negativeWeight
            let removed ← removeBlockFromIndex block.stableBlockId
            let index ← read
            let candidates ← ofExcept (queueIf index (test index) candidates block.parentBlockId)
            evictLoop test negativeWeight neededWeight blockWeight fuel (evictedWeight + weight)
              candidates (evicted ++ [removed])

/-- The common body of `evict_until_weight` and `evict_host_until_weight`. -/
def evictWith (test : RadixPrefixIndex Id Payload → PrefixCacheBlock Id Payload →
      Except PyError Bool) (negativeWeight : PyError) (neededWeight : ℤ)
    (blockWeight : PrefixCacheBlock Id Payload → Except PyError ℤ) :
    Method Id Payload (List (PrefixCacheBlock Id Payload)) := do
  if neededWeight ≤ 0 then return []
  else do
    let index ← read
    let candidates ← ofExcept <|
      (index.backend.leafBlockIds.sort (· ≤ ·)).foldlM
        (fun candidates blockId => queueIf index (test index) candidates (some blockId)) {}
    evictLoop test negativeWeight neededWeight blockWeight (index.blocks.size + 1) 0 candidates []

/-- `evict_until_weight`. -/
def evictUntilWeight (neededWeight : ℤ)
    (blockWeight : PrefixCacheBlock Id Payload → Except PyError ℤ) :
    Method Id Payload (List (PrefixCacheBlock Id Payload)) :=
  evictWith canEvict (.valueError "Prefix cache eviction weight must be non-negative")
    neededWeight blockWeight

/-- `evict_until_freeable`. -/
def evictUntilFreeable (neededBlocks : ℤ) :
    Method Id Payload (List (PrefixCacheBlock Id Payload)) :=
  evictUntilWeight neededBlocks fun _ => .ok 1

/-- `evict_host_until_weight`. -/
def evictHostUntilWeight (neededWeight : ℤ)
    (blockWeight : PrefixCacheBlock Id Payload → Except PyError ℤ) :
    Method Id Payload (List (PrefixCacheBlock Id Payload)) :=
  evictWith canEvictHost (.valueError "Prefix cache host eviction weight must be non-negative")
    neededWeight blockWeight

/-- `ensure_insert_capacity`. -/
def ensureInsertCapacity (neededBlocks : ℤ) :
    Method Id Payload (List (PrefixCacheBlock Id Payload)) := do
  let index ← read
  match index.maxBlocks with
  | none => return []
  | some maxBlocks => do
      raiseIf (neededBlocks ≤ 0)
        (.valueError s!"needed_blocks must be > 0, got {neededBlocks}.")
      let overCapacity := index.blocks.size + neededBlocks - maxBlocks
      if overCapacity ≤ 0 then return []
      else do
        let evicted ← evictUntilFreeable overCapacity
        if (evicted.length : ℤ) = overCapacity then return evicted
        else do
          let live ← read
          let evictable ← evictableBlockIds
          raise (.runtimeError ("Prefix cache capacity exceeded and not enough blocks are evictable: " ++
            s!"live_blocks={live.blocks.size} max_blocks={maxBlocks} needed_blocks={neededBlocks} " ++
            s!"evicted_blocks={evicted.length} evictable_blocks={evictable.card}."))

/-! ## Demotion -/

/-- `demotable` of `demote_device_until_weight`. -/
def demotable (children : Dict Id ℤ) (block : PrefixCacheBlock Id Payload) :
    Except PyError Bool :=
  if ¬ (block.refCount = 0 ∧ 0 ≤ block.evictionPriority ∧ block.residency.devicePresent ∧
      block.residency.hostPresent ∧ block.residency.transfer = none) then .ok false
  else
    match children.get? block.stableBlockId with
    | none => .error (.keyError "device_children")
    | some count => .ok (decide (count = 0))

/-- `device_children` of `demote_device_until_weight`. -/
def countDemotionChildren (blocks : Dict Id (PrefixCacheBlock Id Payload)) :
    Except PyError (Dict Id ℤ) :=
  let resident := blocks.filter fun _ block => block.residency.devicePresent
  resident.values.foldlM (fun children block => countParent children block.parentBlockId)
    (resident.mapValues fun _ _ => 0)

/-- The outer loop of `demote_device_until_weight`.  Every round demotes a
block, so the number of blocks bounds the rounds. -/
def demoteLoop (neededWeight : ℤ)
    (blockWeight : PrefixCacheBlock Id Payload → Except PyError ℤ) :
    ℕ → ℤ → Dict Id ℤ → CandidateHeap Id → List (PrefixCacheBlock Id Payload) →
      Method Id Payload (List (PrefixCacheBlock Id Payload))
  | 0, _, _, _, demoted => pure demoted
  | fuel + 1, demotedWeight, children, candidates, demoted => do
      if neededWeight ≤ demotedWeight then return demoted
      else do
        let index ← read
        let (found, candidates) ←
          ofExcept (popCandidate index (demotable children) candidates.heap.length candidates)
        match found with
        | none => return demoted
        | some block => do
            let weight ← ofExcept (blockWeight block)
            raiseIf (weight < 0)
              (.valueError "Prefix cache demotion weight must be non-negative")
            let block := { block with
              residency := { block.residency with devicePresent := false } }
            write (store block)
            ofExcept block.residency.validate
            write markCapacityMutated
            match block.parentBlockId with
            | none =>
                demoteLoop neededWeight blockWeight fuel (demotedWeight + weight) children
                  candidates (demoted ++ [block])
            | some parentId =>
                match children.get? parentId with
                | none => raise (.keyError "device_children")
                | some count => do
                    let children := children.set parentId (count - 1)
                    let index ← read
                    let candidates ← ofExcept <|
                      if count - 1 = 0 then
                        queueIf index (demotable children) candidates (some parentId)
                      else .ok candidates
                    demoteLoop neededWeight blockWeight fuel (demotedWeight + weight) children
                      candidates (demoted ++ [block])

/-- `demote_device_until_weight`. -/
def demoteDeviceUntilWeight (neededWeight : ℤ)
    (blockWeight : PrefixCacheBlock Id Payload → Except PyError ℤ) :
    Method Id Payload (List (PrefixCacheBlock Id Payload)) := do
  if neededWeight ≤ 0 then return []
  else do
    let index ← read
    let children ← ofExcept (countDemotionChildren index.blocks)
    let candidates ← ofExcept <|
      children.entries.foldlM
        (fun candidates entry =>
          if entry.2 = 0 then queueIf index (demotable children) candidates (some entry.1)
          else .ok candidates) {}
    demoteLoop neededWeight blockWeight (index.blocks.size + 1) 0 children candidates []

/-- `demote_device_until_freeable`. -/
def demoteDeviceUntilFreeable (neededBlocks : ℤ) :
    Method Id Payload (List (PrefixCacheBlock Id Payload)) :=
  demoteDeviceUntilWeight neededBlocks fun _ => .ok 1

/-! ## Subtree control -/

/-- `_exact_subtree_ids_for_tokens`. -/
def exactSubtreeIdsForTokens (hash : List ℤ → Option Id → Id)
    (index : RadixPrefixIndex Id Payload) (tokenIds : List ℤ) :
    Except PyError (Option (List Id)) :=
  let blockIds := index.blockIdsForTokens hash tokenIds none
  if blockIds = [] then .ok none
  else
    let result := index.backend.lookup blockIds blockIds.length
    match result.lastBlockId with
    | none => .ok none
    | some lastBlockId =>
        if result.hitBlockCount ≠ blockIds.length then .ok none
        else do return some (← index.backend.subtreeBlockIds lastBlockId)

/-- One round of the planning loop of `preview_delete_subtree`: the deleted
blocks, the blocked ones and the planned ids. -/
def planDelete (index : RadixPrefixIndex Id Payload)
    (plan : List (PrefixCacheBlock Id Payload) × List (PrefixCacheBlockedBlock Id) × Finset Id)
    (blockId : Id) :
    Except PyError
      (List (PrefixCacheBlock Id Payload) × List (PrefixCacheBlockedBlock Id) × Finset Id) :=
  let (deleted, blocked, planned) := plan
  match index.blocks.get? blockId with
  | none => .ok plan
  | some block =>
      if 0 < block.refCount then .ok (deleted, blocked ++ [⟨some blockId, "referenced"⟩], planned)
      else if block.evictionPriority < 0 then
        .ok (deleted, blocked ++ [⟨some blockId, "negative_priority"⟩], planned)
      else if block.residency.transfer ≠ none then
        .ok (deleted, blocked ++ [⟨some blockId, "transfer_inflight"⟩], planned)
      else do
        let children ← index.backend.childBlockIds blockId
        if ∃ childId ∈ children, childId ∉ planned then
          return (deleted, blocked ++ [⟨some blockId, "has_children"⟩], planned)
        else return (deleted ++ [block], blocked, insert blockId planned)

/-- `preview_delete_subtree`. -/
def previewDeleteSubtree (hash : List ℤ → Option Id → Id) (index : RadixPrefixIndex Id Payload)
    (tokenIds : List ℤ) : Except PyError (PrefixCacheDeleteResult Id Payload) := do
  match ← index.exactSubtreeIdsForTokens hash tokenIds with
  | none => return ⟨[], [⟨none, "not_found"⟩]⟩
  | some subtreeIds => do
      let keyed ← subtreeIds.mapM fun blockId => do
        return ((← index.backend.pathToBlock blockId).length, blockId)
      let sortedIds := (keyed.insertionSort fun a b => b.1 ≤ a.1).map Prod.snd
      let (deleted, blocked, _) ← sortedIds.foldlM index.planDelete ([], [], ∅)
      return ⟨deleted, blocked⟩

/-- The loop of `safe_delete_subtree` over the planned blocks. -/
def deletePlanned : List (PrefixCacheBlock Id Payload) → List (PrefixCacheBlock Id Payload) →
    Method Id Payload (List (PrefixCacheBlock Id Payload))
  | [], deleted => pure deleted
  | planned :: rest, deleted => do
      let index ← read
      raiseIf (¬ index.IsIndexed planned)
        (.runtimeError "Prefix subtree deletion plan became stale before it was applied.")
      let removed ← removeBlockFromIndex planned.stableBlockId
      deletePlanned rest (deleted ++ [removed])

/-- `safe_delete_subtree`. -/
def safeDeleteSubtree (hash : List ℤ → Option Id → Id) (tokenIds : List ℤ) :
    Method Id Payload (PrefixCacheDeleteResult Id Payload) := do
  let index ← read
  let plan ← ofExcept (index.previewDeleteSubtree hash tokenIds)
  let deleted ← deletePlanned plan.deletedBlocks []
  return ⟨deleted, plan.blockedBlocks⟩

/-- The loop of `set_subtree_eviction_priority`: returns the number of updated
blocks, `changed` and `capacity_changed`. -/
def priorityLoop (priority : ℤ) : List Id → ℕ → Bool → Bool → Method Id Payload (ℕ × Bool × Bool)
  | [], updated, changed, capacityChanged => pure (updated, changed, capacityChanged)
  | blockId :: rest, updated, changed, capacityChanged => do
      let index ← read
      match index.blocks.get? blockId with
      | none => priorityLoop priority rest updated changed capacityChanged
      | some block =>
          if block.evictionPriority = priority then
            priorityLoop priority rest (updated + 1) changed capacityChanged
          else do
            let flips := decide (block.evictionPriority < 0) != decide (priority < 0)
            write (store { block with evictionPriority := priority })
            if flips then refreshFreeablePath (some blockId) else pure ()
            priorityLoop priority rest (updated + 1) true (capacityChanged || flips)

/-- `set_subtree_eviction_priority`. -/
def setSubtreeEvictionPriority (hash : List ℤ → Option Id → Id) (tokenIds : List ℤ)
    (priority : ℤ) : Method Id Payload (PriorityUpdateResult Id) := do
  let index ← read
  let blockIds := index.blockIdsForTokens hash tokenIds none
  if blockIds = [] then
    return ⟨false, some "prefix_shorter_than_block_size", none, 0, priority⟩
  else
    let result := index.backend.lookup blockIds blockIds.length
    match result.lastBlockId with
    | none => return ⟨false, some "not_found", none, 0, priority⟩
    | some lastBlockId =>
        if result.hitBlockCount ≠ blockIds.length then
          return ⟨false, some "not_found", none, 0, priority⟩
        else do
          let subtreeIds ← ofExcept (index.backend.subtreeBlockIds lastBlockId)
          let (updated, changed, capacityChanged) ← priorityLoop priority subtreeIds 0 false false
          if capacityChanged then write markCapacityMutated
          else if changed then write markMutated
          else pure ()
          return ⟨true, none, some lastBlockId, updated, priority⟩

/-! ## Routing -/

/-- `routing_snapshot`. -/
def routingSnapshot (method : String) : Method Id Payload (PrefixCacheRoutingSnapshot Id) := do
  let index ← read
  match index.routingSnapshotCache with
  | some snapshot =>
      if snapshot.method = method then return snapshot else buildSnapshot index
  | none => buildSnapshot index
where
  /-- The rebuild of the cached snapshot. -/
  buildSnapshot (index : RadixPrefixIndex Id Payload) :
      Method Id Payload (PrefixCacheRoutingSnapshot Id) := do
    raiseIf (index.routingMembership.liveBlocks ≠ index.blocks.size)
      (.runtimeError ("Prefix-cache routing membership is inconsistent with the live index: " ++
        s!"routing_blocks={index.routingMembership.liveBlocks} live_blocks={index.blocks.size}."))
    let snapshot := ⟨method, index.blockSize, index.routingMembership⟩
    write fun index => { index with routingSnapshotCache := some snapshot }
    return snapshot

end RadixPrefixIndex

/-! ## The routing snapshot -/

/-- What `PrefixCacheRoutingSnapshot.match` reports for an enabled snapshot. -/
structure RoutingMatch (Id : Type) where
  blockSize : ℕ
  promptTokens : ℕ
  usableTokens : ℤ
  matchedTokens : ℕ
  matchedBlocks : ℕ
  lastBlockId : Option Id
  liveBlocks : ℤ

namespace PrefixCacheRoutingSnapshot

variable {Id : Type} [LinearOrder Id]

/-- The loop of `match`, over the number of usable blocks: hit blocks and last
block id. -/
def matchLoop (hash : List ℤ → Option Id → Id) (snapshot : PrefixCacheRoutingSnapshot Id) :
    ℕ → List ℤ → Option Id → ℕ → ℕ × Option Id
  | 0, _, lastBlockId, hitBlocks => (hitBlocks, lastBlockId)
  | count + 1, tokenIds, parentBlockId, hitBlocks =>
      let blockId := hash (tokenIds.take snapshot.blockSize) parentBlockId
      if snapshot.routingMembership.contains blockId then
        matchLoop hash snapshot count (tokenIds.drop snapshot.blockSize) (some blockId)
          (hitBlocks + 1)
      else (hitBlocks, parentBlockId)

/-- `match`. -/
def matchTokens (hash : List ℤ → Option Id → Id) (snapshot : PrefixCacheRoutingSnapshot Id)
    (tokenIds : List ℤ) : RoutingMatch Id :=
  let usableTokens := usablePrefixCacheTokens tokenIds.length snapshot.blockSize
  let (hitBlocks, lastBlockId) :=
    matchLoop hash snapshot (usableTokens / snapshot.blockSize).toNat tokenIds none 0
  { blockSize := snapshot.blockSize
    promptTokens := tokenIds.length
    usableTokens := usableTokens
    matchedTokens := hitBlocks * snapshot.blockSize
    matchedBlocks := hitBlocks
    lastBlockId := lastBlockId
    liveBlocks := snapshot.routingMembership.liveBlocks }

end PrefixCacheRoutingSnapshot
