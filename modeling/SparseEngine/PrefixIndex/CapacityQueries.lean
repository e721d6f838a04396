import SparseEngine.PrefixIndex.Updates

/-!
# The capacity queries

The four cached queries.  Each one returns its cache when it was stored at the
current capacity epoch and scans the index otherwise, so it answers right as
long as its own cache is right, and storing the answer keeps every cache
right.
-/

namespace RadixPrefixIndex

open Routine Forest RadixTreeBackend

variable {Id Payload : Type} [LinearOrder Id] {index : RadixPrefixIndex Id Payload}

/-- A query changes nothing but its own cache. -/
structure Queried (index next : RadixPrefixIndex Id Payload) : Prop where
  moves : Moves index next
  blocks : next.blocks = index.blocks

theorem Queried.refl (h : Inv index) : Queried index index := ⟨Moves.refl h, rfl⟩

/-- Storing a fresh answer. -/
theorem CacheOk.fresh {Id : Type} {epoch : ℤ} {cache : Finset Id} {answer : Id → Prop}
    (hfresh : ∀ id, id ∈ cache ↔ answer id) : CacheOk epoch epoch cache answer :=
  ⟨le_rfl, fun _ => hfresh⟩

/-- **`freeable_block_ids`**. -/
theorem freeableBlockIds_spec (h : Inv index) : ∃ ids next,
    freeableBlockIds index = (.ok ids, next) ∧ Queried index next ∧
      (CachesOk index → ∀ id, id ∈ ids ↔ FreeableIn index.blocks id) := by
  by_cases hepoch : index.freeableCacheEpoch = index.capacityEpoch
  · refine ⟨index.freeableBlockIdsCache, index, ?_, Queried.refl h, fun hok => hok.freeable.2 hepoch⟩
    simp only [freeableBlockIds, bind_apply, read_apply, hepoch, if_true, pure_apply]
  -- a scan: the freeable set if there is one, the first build otherwise
  have hstore : ∀ (ids : Finset Id) (children : Dict Id ℤ), Tracked index.blocks (some ids) children →
      Queried index { index with
        freeableIds := some ids
        blockedFreeableChildren := children
        freeableBlockIdsCache := ids
        freeableCacheEpoch := index.capacityEpoch } := by
    intro ids children htracked
    refine ⟨⟨⟨h.ids, h.first, h.tree, h.routing, h.snapshot, htracked, h.valid, h.device, h.host⟩,
      Changed.refl _, rfl, rfl, fun hok => ?_, fun hok => hok⟩, rfl⟩
    exact ⟨CacheOk.fresh fun id => Tracked.mem_iff h.first htracked id, hok.evictable, hok.deviceFreeable⟩
  cases hbuilt : index.freeableIds with
  | some freeable =>
      have htracked : Tracked index.blocks (some freeable) index.blockedFreeableChildren :=
        hbuilt ▸ h.tracked
      refine ⟨freeable, _, ?_, hstore freeable _ htracked, fun _ => Tracked.mem_iff h.first htracked⟩
      simp only [freeableBlockIds, bind_apply, read_apply, hepoch, if_false, hbuilt, write_apply, pure_apply]
  | none =>
      obtain ⟨freeable, children, hrun, htracked⟩ := buildFreeable_spec h.first
      refine ⟨freeable, _, ?_, hstore freeable children htracked, fun _ => Tracked.mem_iff h.first htracked⟩
      simp only [freeableBlockIds, bind_apply, read_apply, hepoch, if_false, hbuilt, write_apply,
        pure_apply, ofExcept_apply, hrun]

/-- **`evictable_block_ids`**. -/
theorem evictableBlockIds_spec (h : Inv index) : ∃ ids next,
    evictableBlockIds index = (.ok ids, next) ∧ Queried index next ∧
      (CachesOk index → ∀ id, id ∈ ids ↔ EvictableIn index.blocks id) := by
  by_cases hepoch : index.evictableCacheEpoch = index.capacityEpoch
  · refine ⟨index.evictableBlockIdsCache, index, ?_, Queried.refl h, fun hok => hok.evictable.2 hepoch⟩
    simp only [evictableBlockIds, bind_apply, read_apply, hepoch, if_true, pure_apply]
  · refine ⟨_, { index with
      evictableBlockIdsCache := index.backend.leafBlockIds.filter fun blockId =>
        (index.blocks.get? blockId).any fun block => Idle block
      evictableCacheEpoch := index.capacityEpoch }, ?_, ?_, fun _ => mem_evictable_iff h.tree⟩
    · simp only [evictableBlockIds, bind_apply, read_apply, hepoch, if_false, write_apply, pure_apply]
    · refine ⟨⟨⟨h.ids, h.first, h.tree, h.routing, h.snapshot, h.tracked, h.valid, h.device, h.host⟩,
        Changed.refl _, rfl, rfl, fun hok => ?_, fun hok => hok⟩, rfl⟩
      exact ⟨hok.freeable, CacheOk.fresh (mem_evictable_iff h.tree), hok.deviceFreeable⟩

/-- **`device_freeable_block_ids`**. -/
theorem deviceFreeableBlockIds_spec (h : Inv index) : ∃ ids next,
    deviceFreeableBlockIds index = (.ok ids, next) ∧ Queried index next ∧
      (CachesOk index → ∀ id, id ∈ ids ↔ DeviceReclaimableIn false index.blocks id) := by
  by_cases hepoch : index.deviceFreeableCacheEpoch = index.capacityEpoch
  · refine ⟨index.deviceFreeableBlockIdsCache, index, ?_, Queried.refl h, fun hok => hok.deviceFreeable.2 hepoch⟩
    simp only [deviceFreeableBlockIds, bind_apply, read_apply, hepoch, if_true, pure_apply]
  · obtain ⟨result, hrun, hresult⟩ := scanDeviceReclaimable_eq h.tree h.first h.device false
    refine ⟨result, { index with
      deviceFreeableCacheEpoch := index.capacityEpoch
      deviceFreeableBlockIdsCache := result }, ?_, ?_, fun _ => hresult⟩
    · simp only [deviceFreeableBlockIds, bind_apply, read_apply, hepoch, if_false, write_apply,
        pure_apply, ofExcept_apply, hrun]
    · refine ⟨⟨⟨h.ids, h.first, h.tree, h.routing, h.snapshot, h.tracked, h.valid, h.device, h.host⟩,
        Changed.refl _, rfl, rfl, fun hok => ?_, fun hok => hok⟩, rfl⟩
      exact ⟨hok.freeable, hok.evictable, CacheOk.fresh hresult⟩

/-- **`device_reclaimable_block_ids`**. -/
theorem deviceReclaimableBlockIds_spec (h : Inv index) : ∃ ids next,
    deviceReclaimableBlockIds index = (.ok ids, next) ∧ Queried index next ∧
      (ReclaimableCacheOk index → ∀ id, id ∈ ids ↔ DeviceReclaimableIn true index.blocks id) := by
  by_cases hepoch : index.deviceReclaimableCacheEpoch = index.capacityEpoch
  · refine ⟨index.deviceReclaimableBlockIdsCache, index, ?_, Queried.refl h, fun hok => hok.2 hepoch⟩
    simp only [deviceReclaimableBlockIds, bind_apply, read_apply, hepoch, if_true, pure_apply]
  · obtain ⟨result, hrun, hresult⟩ := scanDeviceReclaimable_eq h.tree h.first h.device true
    refine ⟨result, { index with
      deviceReclaimableCacheEpoch := index.capacityEpoch
      deviceReclaimableBlockIdsCache := result }, ?_, ?_, fun _ => hresult⟩
    · simp only [deviceReclaimableBlockIds, bind_apply, read_apply, hepoch, if_false, write_apply,
        pure_apply, ofExcept_apply, hrun]
    · refine ⟨⟨⟨h.ids, h.first, h.tree, h.routing, h.snapshot, h.tracked, h.valid, h.device, h.host⟩,
        Changed.refl _, rfl, rfl, fun hok => ?_, fun _ => CacheOk.fresh hresult⟩, rfl⟩
      exact ⟨hok.freeable, hok.evictable, hok.deviceFreeable⟩

end RadixPrefixIndex
