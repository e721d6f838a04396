import SparseEngine.PrefixIndex.Eviction

/-!
# Runs of the index

`IndexOp` is a call of a public method of the index, and a run is a list of
them from the empty index.  A call that raises is a step like any other: it
leaves whatever it had written.

One step either moves the index (`Moves`: the blocks are rewritten in place or
removed) or inserts one new block (`Inserted`).  Everything below follows from
that by induction over the run: the invariant, the three caches that are
always right, and exactly when the fourth one is.
-/

open Routine Forest RadixPrefixIndex

/-- A call of a public method of `RadixPrefixIndex`. -/
inductive IndexOp (Id Payload : Type) where
  | insertBlock (block : PrefixCacheBlock Id Payload)
  | setBlockRefCount (block : PrefixCacheBlock Id Payload) (refCount : ℤ) (negativeError : String)
  | acquireBlockRef (block : PrefixCacheBlock Id Payload)
  | releaseBlockRef (block : PrefixCacheBlock Id Payload) (negativeError : String)
  | beginD2h (block : PrefixCacheBlock Id Payload)
  | finishD2h (block : PrefixCacheBlock Id Payload)
  | abortD2h (block : PrefixCacheBlock Id Payload)
  | beginH2d (block : PrefixCacheBlock Id Payload)
  | finishH2d (block : PrefixCacheBlock Id Payload)
  | abortH2d (block : PrefixCacheBlock Id Payload)
  | touchChain (blocks : List (PrefixCacheBlock Id Payload))
  | markPayloadCompacted (blocks : List (PrefixCacheBlock Id Payload))
  | setSubtreeEvictionPriority (tokenIds : List ℤ) (priority : ℤ)
  | evictUntilWeight (neededWeight : ℤ)
      (blockWeight : PrefixCacheBlock Id Payload → Except PyError ℤ)
  | evictHostUntilWeight (neededWeight : ℤ)
      (blockWeight : PrefixCacheBlock Id Payload → Except PyError ℤ)
  | demoteDeviceUntilWeight (neededWeight : ℤ)
      (blockWeight : PrefixCacheBlock Id Payload → Except PyError ℤ)
  | ensureInsertCapacity (neededBlocks : ℤ)
  | safeDeleteSubtree (tokenIds : List ℤ)
  | rollbackInsertedLeaf (block : PrefixCacheBlock Id Payload)
  | freeableBlockIds
  | evictableBlockIds
  | deviceFreeableBlockIds
  | deviceReclaimableBlockIds
  | routingSnapshot (method : String)

namespace IndexOp

variable {Id Payload : Type} [LinearOrder Id]

/-- The index after the call. -/
def run (hash : List ℤ → Option Id → Id) (index : RadixPrefixIndex Id Payload) :
    IndexOp Id Payload → RadixPrefixIndex Id Payload
  | .insertBlock block => (RadixPrefixIndex.insertBlock block).after index
  | .setBlockRefCount block refCount negativeError =>
      (RadixPrefixIndex.setBlockRefCount block refCount negativeError).after index
  | .acquireBlockRef block => (RadixPrefixIndex.acquireBlockRef block).after index
  | .releaseBlockRef block negativeError =>
      (RadixPrefixIndex.releaseBlockRef block negativeError).after index
  | .beginD2h block => (RadixPrefixIndex.beginD2h block).after index
  | .finishD2h block => (RadixPrefixIndex.finishD2h block).after index
  | .abortD2h block => (RadixPrefixIndex.abortD2h block).after index
  | .beginH2d block => (RadixPrefixIndex.beginH2d block).after index
  | .finishH2d block => (RadixPrefixIndex.finishH2d block).after index
  | .abortH2d block => (RadixPrefixIndex.abortH2d block).after index
  | .touchChain blocks => (RadixPrefixIndex.touchChain blocks).after index
  | .markPayloadCompacted blocks => (RadixPrefixIndex.markPayloadCompacted blocks).after index
  | .setSubtreeEvictionPriority tokenIds priority =>
      (RadixPrefixIndex.setSubtreeEvictionPriority hash tokenIds priority).after index
  | .evictUntilWeight neededWeight blockWeight =>
      (RadixPrefixIndex.evictUntilWeight neededWeight blockWeight).after index
  | .evictHostUntilWeight neededWeight blockWeight =>
      (RadixPrefixIndex.evictHostUntilWeight neededWeight blockWeight).after index
  | .demoteDeviceUntilWeight neededWeight blockWeight =>
      (RadixPrefixIndex.demoteDeviceUntilWeight neededWeight blockWeight).after index
  | .ensureInsertCapacity neededBlocks =>
      (RadixPrefixIndex.ensureInsertCapacity neededBlocks).after index
  | .safeDeleteSubtree tokenIds =>
      (RadixPrefixIndex.safeDeleteSubtree hash tokenIds).after index
  | .rollbackInsertedLeaf block => (RadixPrefixIndex.rollbackInsertedLeaf block).after index
  | .freeableBlockIds => RadixPrefixIndex.freeableBlockIds.after index
  | .evictableBlockIds => RadixPrefixIndex.evictableBlockIds.after index
  | .deviceFreeableBlockIds => RadixPrefixIndex.deviceFreeableBlockIds.after index
  | .deviceReclaimableBlockIds => RadixPrefixIndex.deviceReclaimableBlockIds.after index
  | .routingSnapshot method => (RadixPrefixIndex.routingSnapshot method).after index

/-- The index after a run. -/
def runAll (hash : List ℤ → Option Id → Id) (index : RadixPrefixIndex Id Payload)
    (ops : List (IndexOp Id Payload)) : RadixPrefixIndex Id Payload :=
  ops.foldl (run hash) index

/-! ## One step -/

section

variable {hash : List ℤ → Option Id → Id} {index : RadixPrefixIndex Id Payload}

/-- The call adds a block. -/
def Adds (index : RadixPrefixIndex Id Payload) (op : IndexOp Id Payload)
    (block : PrefixCacheBlock Id Payload) : Prop :=
  op = .insertBlock block ∧ InsertReady index block

theorem insertBlock_moves (h : Inv index) {block : PrefixCacheBlock Id Payload} (hready : ¬ InsertReady index block) :
    Moves index ((RadixPrefixIndex.insertBlock block).after index) := by
  cases hget : index.blocks.get? block.stableBlockId with
  | some existing => exact (insertBlock_existing h hget).1
  | none => exact (insertBlock_refused h (Dict.not_mem_keys_iff.mpr hget) hready).1

theorem moves_of_queried {α : Type} {query : Method Id Payload α} {post : α → Prop}
    (hquery : ∃ answer next, query index = (.ok answer, next) ∧ Queried index next ∧ post answer) :
    Moves index (query.after index) := by
  obtain ⟨answer, next, hrun, hqueried, -⟩ := hquery
  rw [Routine.after, hrun]
  exact hqueried.moves

/-- **One call** adds a block or moves the index. -/
theorem step (h : Inv index) (op : IndexOp Id Payload) :
    Moves index (op.run hash index) ∨ ∃ block, Adds index op block ∧ Inserted index block (op.run hash index) := by
  cases op with
  | insertBlock block =>
      by_cases hready : InsertReady index block
      · obtain ⟨next, hrun, hinserted⟩ := insertBlock_ready h hready
        refine Or.inr ⟨block, ⟨rfl, hready⟩, ?_⟩
        rw [run, Routine.after, hrun]
        exact hinserted
      · exact Or.inl (insertBlock_moves h hready)
  | setBlockRefCount block refCount negativeError =>
      exact Or.inl (setBlockRefCount_moves h refCount negativeError)
  | acquireBlockRef block => exact Or.inl (setBlockRefCount_moves h _ _)
  | releaseBlockRef block negativeError => exact Or.inl (setBlockRefCount_moves h _ _)
  | beginD2h block => exact Or.inl (beginD2h_moves h)
  | finishD2h block => exact Or.inl (finishD2h_moves h)
  | abortD2h block => exact Or.inl (abortD2h_moves h)
  | beginH2d block => exact Or.inl (beginH2d_moves h)
  | finishH2d block => exact Or.inl (finishH2d_moves h)
  | abortH2d block => exact Or.inl (abortH2d_moves h)
  | touchChain blocks => exact Or.inl (touchChain_moves h blocks)
  | markPayloadCompacted blocks => exact Or.inl (markPayloadCompacted_moves h blocks)
  | setSubtreeEvictionPriority tokenIds priority =>
      exact Or.inl (setSubtreeEvictionPriority_moves h hash tokenIds priority)
  | evictUntilWeight neededWeight blockWeight =>
      exact Or.inl (evictUntilWeight_spec h neededWeight).1
  | evictHostUntilWeight neededWeight blockWeight =>
      exact Or.inl (evictHostUntilWeight_spec h neededWeight).1
  | demoteDeviceUntilWeight neededWeight blockWeight =>
      exact Or.inl (demoteDeviceUntilWeight_spec h neededWeight).1
  | ensureInsertCapacity neededBlocks => exact Or.inl (ensureInsertCapacity_moves h neededBlocks)
  | safeDeleteSubtree tokenIds => exact Or.inl (safeDeleteSubtree_moves h hash tokenIds)
  | rollbackInsertedLeaf block => exact Or.inl (rollbackInsertedLeaf_moves h block)
  | freeableBlockIds => exact Or.inl (moves_of_queried (freeableBlockIds_spec h))
  | evictableBlockIds => exact Or.inl (moves_of_queried (evictableBlockIds_spec h))
  | deviceFreeableBlockIds => exact Or.inl (moves_of_queried (deviceFreeableBlockIds_spec h))
  | deviceReclaimableBlockIds => exact Or.inl (moves_of_queried (deviceReclaimableBlockIds_spec h))
  | routingSnapshot method =>
      obtain ⟨snapshot, next, hrun, hqueried, -⟩ := routingSnapshot_spec h method
      refine Or.inl ?_
      rw [run, Routine.after, hrun]
      exact hqueried.moves

theorem run_inv (h : Inv index) (op : IndexOp Id Payload) : Inv (op.run hash index) := by
  rcases step h op with hmoves | ⟨block, -, hinserted⟩
  · exact hmoves.inv
  · exact hinserted.inv

theorem run_cachesOk (h : Inv index) (hok : CachesOk index) (op : IndexOp Id Payload) :
    CachesOk (op.run hash index) := by
  rcases step h op with hmoves | ⟨block, hadds, hinserted⟩
  · exact hmoves.cachesOk hok
  · exact hinserted.cachesOk h hadds.2 hok

/-- The call is a stale insertion. -/
def Stale (index : RadixPrefixIndex Id Payload) (op : IndexOp Id Payload) : Prop :=
  ∃ block, op = .insertBlock block ∧ StaleInsert index block

theorem run_reclaimableCacheOk (h : Inv index) (hok : ReclaimableCacheOk index)
    {op : IndexOp Id Payload} (hfine : ¬ Stale index op) :
    ReclaimableCacheOk (op.run hash index) := by
  rcases step h op with hmoves | ⟨block, hadds, hinserted⟩
  · exact hmoves.reclaimableCacheOk hok
  · exact hinserted.reclaimableCacheOk h hadds.2 hok fun hstale => hfine ⟨block, hadds.1, hstale⟩

end

/-! ## Whole runs -/

section

variable (hash : List ℤ → Option Id → Id) (blockSize : ℕ) (maxBlocks : Option ℤ)

omit hash

theorem inv_init : Inv (init blockSize maxBlocks : RadixPrefixIndex Id Payload) where
  ids := by simp [init]
  first := by simpa [init] using parentsFirst_nil
  tree := by simpa [init] using RadixTreeBackend.represents_init _
  routing := by simpa [init] using RoutingMembership.holds_empty
  snapshot := by simp [init]
  tracked := by simp [init, Tracked, TrackedExcept]
  valid := by simp [init]
  device := by simp [init, DeviceContiguous, DeviceIn]
  host := by simp [init, HostContiguous, HostIn]

theorem cachesOk_init : CachesOk (init blockSize maxBlocks : RadixPrefixIndex Id Payload) := by
  refine ⟨⟨?_, ?_⟩, ⟨?_, ?_⟩, ?_, ?_⟩ <;> simp [init]

theorem reclaimableCacheOk_init :
    ReclaimableCacheOk (init blockSize maxBlocks : RadixPrefixIndex Id Payload) := by
  refine ⟨?_, ?_⟩ <;> simp [init]

end

section

variable {hash : List ℤ → Option Id → Id} {blockSize : ℕ} {maxBlocks : Option ℤ}

theorem runAll_inv (ops : List (IndexOp Id Payload)) {index : RadixPrefixIndex Id Payload}
    (h : Inv index) : Inv (runAll hash index ops) := by
  induction ops generalizing index with
  | nil => exact h
  | cons op ops ih => exact ih (run_inv h op)

theorem runAll_cachesOk (ops : List (IndexOp Id Payload)) {index : RadixPrefixIndex Id Payload}
    (h : Inv index) (hok : CachesOk index) : CachesOk (runAll hash index ops) := by
  induction ops generalizing index with
  | nil => exact hok
  | cons op ops ih => exact ih (run_inv h op) (run_cachesOk h hok op)

/-- **The freeable set is exact** after every run. -/
theorem freeableBlockIds_exact (hash : List ℤ → Option Id → Id) (blockSize : ℕ)
    (maxBlocks : Option ℤ) (ops : List (IndexOp Id Payload)) :
    ∃ ids next, RadixPrefixIndex.freeableBlockIds (runAll hash (init blockSize maxBlocks) ops) =
        (.ok ids, next) ∧
      ∀ id, id ∈ ids ↔ FreeableIn (runAll hash (init blockSize maxBlocks) ops).blocks id := by
  have hinv : Inv (runAll hash (init blockSize maxBlocks) ops) :=
    runAll_inv ops (inv_init blockSize maxBlocks)
  have hok : CachesOk (runAll hash (init blockSize maxBlocks) ops) :=
    runAll_cachesOk ops (inv_init blockSize maxBlocks) (cachesOk_init blockSize maxBlocks)
  obtain ⟨ids, next, hrun, -, hexact⟩ := freeableBlockIds_spec hinv
  exact ⟨ids, next, hrun, hexact hok⟩

/-- **Residency** after every run, and what one more call may remove. -/
theorem residency_safe (hash : List ℤ → Option Id → Id) (blockSize : ℕ) (maxBlocks : Option ℤ)
    (ops : List (IndexOp Id Payload)) (op : IndexOp Id Payload) :
    let index := runAll hash (init blockSize maxBlocks) ops
    (∀ id block, index.blocks.get? id = some block → block.residency.validate = .ok ()) ∧
      DeviceContiguous index.blocks ∧ HostContiguous index.blocks ∧
      (Rewrites index.blocks (op.run hash index).blocks ∨
        (∃ removed, Removes index.blocks removed (op.run hash index).blocks) ∨
        ∃ block, block.stableBlockId ∉ index.blocks.keys ∧
          (op.run hash index).blocks = index.blocks.set block.stableBlockId block) := by
  intro index
  have hinv : Inv index := runAll_inv ops (inv_init blockSize maxBlocks)
  refine ⟨hinv.valid, hinv.device, hinv.host, ?_⟩
  have hstep : Moves index (op.run hash index) ∨ _ := step hinv op
  rcases hstep with hmoves | ⟨block, hadds, hinserted⟩
  · rcases hmoves.changed with hrewrites | hremoves
    · exact Or.inl hrewrites
    · exact Or.inr (Or.inl hremoves)
  · exact Or.inr (Or.inr ⟨index.stamped block, hadds.2.fresh, hinserted.blocks⟩)

/-! ## The device-reclaimable cache -/

/-- The answer of `query` is exactly the set `answer`. -/
def Answers (query : Method Id Payload (Finset Id)) (index : RadixPrefixIndex Id Payload)
    (answer : Id → Prop) : Prop :=
  ∃ ids next, query index = (.ok ids, next) ∧ ∀ id, id ∈ ids ↔ answer id

/-- The three epoch-cached scans give what a fresh scan would. -/
structure QueriesRight (index : RadixPrefixIndex Id Payload) : Prop where
  evictable : Answers RadixPrefixIndex.evictableBlockIds index (EvictableIn index.blocks)
  deviceFreeable : Answers RadixPrefixIndex.deviceFreeableBlockIds index
    (DeviceReclaimableIn false index.blocks)
  deviceReclaimable : Answers RadixPrefixIndex.deviceReclaimableBlockIds index
    (DeviceReclaimableIn true index.blocks)

/-- The queries are right in every state of the run. -/
def AlwaysRight (hash : List ℤ → Option Id → Id) :
    RadixPrefixIndex Id Payload → List (IndexOp Id Payload) → Prop
  | index, [] => QueriesRight index
  | index, op :: ops => QueriesRight index ∧ AlwaysRight hash (op.run hash index) ops

/-- No step of the run is a stale insertion. -/
def Harmless (hash : List ℤ → Option Id → Id) :
    RadixPrefixIndex Id Payload → List (IndexOp Id Payload) → Prop
  | _, [] => True
  | index, op :: ops => ¬ Stale index op ∧ Harmless hash (op.run hash index) ops

theorem AlwaysRight.start {index : RadixPrefixIndex Id Payload} {ops : List (IndexOp Id Payload)}
    (h : AlwaysRight hash index ops) : QueriesRight index := by
  cases ops with
  | nil => exact h
  | cons op ops => exact h.1

theorem evictable_answers {index : RadixPrefixIndex Id Payload} (h : Inv index) (hok : CachesOk index) :
    Answers RadixPrefixIndex.evictableBlockIds index (EvictableIn index.blocks) := by
  obtain ⟨ids, next, hrun, -, hexact⟩ := evictableBlockIds_spec h
  exact ⟨ids, next, hrun, hexact hok⟩

theorem deviceFreeable_answers {index : RadixPrefixIndex Id Payload} (h : Inv index) (hok : CachesOk index) :
    Answers RadixPrefixIndex.deviceFreeableBlockIds index (DeviceReclaimableIn false index.blocks) := by
  obtain ⟨ids, next, hrun, -, hexact⟩ := deviceFreeableBlockIds_spec h
  exact ⟨ids, next, hrun, hexact hok⟩

theorem queriesRight_of_caches {index : RadixPrefixIndex Id Payload} (h : Inv index)
    (hok : CachesOk index) (hreclaimable : ReclaimableCacheOk index) : QueriesRight index := by
  refine ⟨evictable_answers h hok, deviceFreeable_answers h hok, ?_⟩
  obtain ⟨ids, next, hrun, -, hexact⟩ := deviceReclaimableBlockIds_spec h
  exact ⟨ids, next, hrun, hexact hreclaimable⟩

/-- A wrong answer in the cache is what the query returns. -/
theorem not_queriesRight_of_stale {index : RadixPrefixIndex Id Payload} (h : Inv index)
    (hreclaimable : ReclaimableCacheOk index) {op : IndexOp Id Payload} (hstale : Stale index op) :
    ¬ QueriesRight (op.run hash index) := by
  obtain ⟨block, rfl, hinsert⟩ := hstale
  obtain ⟨next, hrun, hinserted⟩ := insertBlock_ready h hinsert.ready
  obtain ⟨hcached, hwrong⟩ := hinserted.reclaimable_stale h hinsert.ready hreclaimable hinsert
  have hnext : (IndexOp.insertBlock block).run hash index = next := by
    rw [run, Routine.after, hrun]
  rw [hnext]
  intro hright
  obtain ⟨ids, last, hquery, hids⟩ := hright.deviceReclaimable
  have hanswer : RadixPrefixIndex.deviceReclaimableBlockIds next =
      (.ok next.deviceReclaimableBlockIdsCache, next) := by
    simp only [RadixPrefixIndex.deviceReclaimableBlockIds, bind_apply, read_apply, hcached, if_true, pure_apply]
  rw [hanswer] at hquery
  obtain ⟨hcache, -⟩ := Prod.mk.inj hquery
  obtain rfl := Except.ok.inj hcache
  exact hwrong hids

theorem alwaysRight_iff (ops : List (IndexOp Id Payload)) {index : RadixPrefixIndex Id Payload}
    (h : Inv index) (hok : CachesOk index) (hreclaimable : ReclaimableCacheOk index) :
    AlwaysRight hash index ops ↔ Harmless hash index ops := by
  induction ops generalizing index with
  | nil => exact iff_of_true (queriesRight_of_caches h hok hreclaimable) trivial
  | cons op ops ih =>
      rw [AlwaysRight, Harmless, and_iff_right (queriesRight_of_caches h hok hreclaimable)]
      by_cases hstale : Stale index op
      · refine iff_of_false (fun hright => ?_) fun hharmless => hharmless.1 hstale
        exact not_queriesRight_of_stale h hreclaimable hstale hright.start
      · rw [and_iff_right hstale]
        exact ih (run_inv h op) (run_cachesOk h hok op) (run_reclaimableCacheOk h hreclaimable hstale)

/-- **The cached scans are right in every state of a run exactly when the run
has no stale insertion.** -/
theorem queries_right_iff_harmless (hash : List ℤ → Option Id → Id) (blockSize : ℕ)
    (maxBlocks : Option ℤ) (ops : List (IndexOp Id Payload)) :
    AlwaysRight hash (init blockSize maxBlocks) ops ↔
      Harmless hash (init blockSize maxBlocks) ops :=
  alwaysRight_iff ops (inv_init blockSize maxBlocks) (cachesOk_init blockSize maxBlocks)
    (reclaimableCacheOk_init blockSize maxBlocks)

/-- A parent whose D2H is in flight, and a referenced child that is inserted
below it after the query. -/
def backedUpParent : PrefixCacheBlock ℕ Unit where
  obj := 0
  stableBlockId := 0
  parentBlockId := none
  logicalBlockIdx := 0
  payload := ()

/-- The child. -/
def referencedChild : PrefixCacheBlock ℕ Unit where
  obj := 1
  stableBlockId := 1
  parentBlockId := some 0
  logicalBlockIdx := 1
  payload := ()
  refCount := 1

/-- The run: the parent is backed up, the query caches it, the child is
published. -/
def publishBelowBackup : List (IndexOp ℕ Unit) :=
  [.insertBlock backedUpParent, .beginD2h backedUpParent, .deviceReclaimableBlockIds,
    .insertBlock referencedChild]

/-- The parent is still reported as reclaimable, although its child is in
use. -/
theorem stale_after_referenced_child :
    ¬ AlwaysRight (fun _ _ => 0) (init 1 none) publishBelowBackup := by
  rintro ⟨-, -, -, -, hright⟩
  obtain ⟨ids, next, hrun, hids⟩ := hright.deviceReclaimable
  have hanswer : (RadixPrefixIndex.deviceReclaimableBlockIds
      (runAll (fun _ _ => 0) (init 1 none) publishBelowBackup)).1 = .ok {0} := by decide
  have hids0 : ids = {0} := Except.ok.inj ((congrArg Prod.fst hrun).symm.trans hanswer)
  obtain ⟨-, hbelow⟩ := (hids 0).mp (by simp [hids0])
  -- the child is device-present, below the parent, and referenced
  have hchild := hbelow 1 (Descends.of_parent (by decide) (by decide)) ⟨_, rfl, rfl⟩
  obtain ⟨child, hget, hlocal⟩ := hchild
  obtain rfl := Option.some.inj hget
  exact absurd hlocal.1 (by decide)

end

end IndexOp
