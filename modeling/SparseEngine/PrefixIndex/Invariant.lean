import SparseEngine.PrefixIndex.Capacity

/-!
# The invariant of the index

`Inv` ties the structures of the index together: the radix tree and the
routing set hold exactly the indexed blocks, the freeable set is right, every
residency is valid, and device and host residency are root-contiguous.

A method that adds no block either rewrites blocks in place (`Rewrites`) or
takes blocks away one after the other (`Removes`), each of them unreferenced,
without a transfer and without a child at its turn.
-/

namespace RadixPrefixIndex

open Routine Forest RadixTreeBackend

variable {Id Payload : Type} [LinearOrder Id]

/-- The invariant. -/
structure Inv (index : RadixPrefixIndex Id Payload) : Prop where
  ids : ∀ id block, index.blocks.get? id = some block → block.stableBlockId = id
  first : ParentsFirst (parentIn index.blocks) index.blocks.keys
  tree : Represents index.backend (parentIn index.blocks) index.blocks.keys
  routing : index.routingMembership.Holds index.blocks.keys
  snapshot : ∀ snapshot, index.routingSnapshotCache = some snapshot →
    snapshot.blockSize = index.blockSize ∧ snapshot.routingMembership = index.routingMembership
  tracked : Tracked index.blocks index.freeableIds index.blockedFreeableChildren
  valid : ∀ id block, index.blocks.get? id = some block → block.residency.validate = .ok ()
  device : DeviceContiguous index.blocks
  host : HostContiguous index.blocks

/-! ## Changes of the blocks -/

/-- The fields no method of the index writes after the insertion. -/
structure SameIdentity (block next : PrefixCacheBlock Id Payload) : Prop where
  obj : next.obj = block.obj
  stableBlockId : next.stableBlockId = block.stableBlockId
  parentBlockId : next.parentBlockId = block.parentBlockId
  logicalBlockIdx : next.logicalBlockIdx = block.logicalBlockIdx
  payload : next.payload = block.payload
  tokenIds : next.tokenIds = block.tokenIds

/-- A write to the fields of one indexed block. -/
inductive Rewrite (blocks : Dict Id (PrefixCacheBlock Id Payload)) :
    Dict Id (PrefixCacheBlock Id Payload) → Prop
  | intro {x : Id} {block next : PrefixCacheBlock Id Payload}
      (indexed : blocks.get? x = some block) (same : SameIdentity block next) :
      Rewrite blocks (blocks.set x next)

/-- Writes one after the other. -/
def Rewrites (blocks next : Dict Id (PrefixCacheBlock Id Payload)) : Prop :=
  Relation.ReflTransGen Rewrite blocks next

/-- A block that may be removed. -/
structure Removable (blocks : Dict Id (PrefixCacheBlock Id Payload)) (x : Id)
    (block : PrefixCacheBlock Id Payload) : Prop where
  indexed : blocks.get? x = some block
  unreferenced : block.refCount = 0
  priority : 0 ≤ block.evictionPriority
  quiet : block.residency.transfer = none
  childless : ∀ c ∈ blocks.keys, parentIn blocks c ≠ some x

/-- The blocks of the list are removed one after the other, each one removable
at its turn. -/
inductive Removes : Dict Id (PrefixCacheBlock Id Payload) → List (PrefixCacheBlock Id Payload) →
    Dict Id (PrefixCacheBlock Id Payload) → Prop
  | nil (blocks : Dict Id (PrefixCacheBlock Id Payload)) : Removes blocks [] blocks
  | cons {blocks next : Dict Id (PrefixCacheBlock Id Payload)} {x : Id}
      {block : PrefixCacheBlock Id Payload} {rest : List (PrefixCacheBlock Id Payload)}
      (removable : Removable blocks x block) (tail : Removes (blocks.erase x) rest next) :
      Removes blocks (block :: rest) next

/-- What a method that adds no block does to the blocks. -/
def Changed (blocks next : Dict Id (PrefixCacheBlock Id Payload)) : Prop :=
  Rewrites blocks next ∨ ∃ removed, Removes blocks removed next

section

variable {blocks next : Dict Id (PrefixCacheBlock Id Payload)}

theorem Changed.refl (blocks : Dict Id (PrefixCacheBlock Id Payload)) : Changed blocks blocks :=
  Or.inl Relation.ReflTransGen.refl

theorem Rewrites.single {x : Id} {block new : PrefixCacheBlock Id Payload}
    (hget : blocks.get? x = some block) (hsame : SameIdentity block new) :
    Rewrites blocks (blocks.set x new) :=
  Relation.ReflTransGen.single (.intro hget hsame)

/-- A property of the identity of a block survives. -/
theorem Changed.keeps {P : PrefixCacheBlock Id Payload → Prop} (hchanged : Changed blocks next)
    (hstart : ∀ id block, blocks.get? id = some block → P block)
    (hsame : ∀ block other, SameIdentity block other → P block → P other) :
    ∀ id block, next.get? id = some block → P block := by
  rcases hchanged with hrewrites | ⟨removed, hremoves⟩
  · induction hrewrites with
    | refl => exact hstart
    | tail _ hrewrite ih =>
        obtain ⟨hget, hid⟩ := hrewrite
        intro id other hother
        rw [Dict.get?_set] at hother
        split at hother
        · obtain rfl := Option.some.inj hother
          exact hsame _ _ hid (ih _ _ hget)
        · exact ih id other hother
  · induction hremoves with
    | nil => exact hstart
    | cons _ _ ih =>
        apply ih
        intro id other hother
        rw [Dict.get?_erase] at hother
        split at hother
        · cases hother
        · exact hstart id other hother

end

/-! ## Capacity views -/

/-- What the capacity queries see of a block. -/
def capacityView (block : PrefixCacheBlock Id Payload) :
    Option Id × Bool × Bool × PrefixBlockResidency :=
  (block.parentBlockId, decide (block.refCount = 0), decide (0 ≤ block.evictionPriority),
    block.residency)

/-- The capacity queries cannot tell the blocks apart. -/
def SameView (blocks next : Dict Id (PrefixCacheBlock Id Payload)) : Prop :=
  ∀ id, (next.get? id).map capacityView = (blocks.get? id).map capacityView

namespace SameView

theorem refl (blocks : Dict Id (PrefixCacheBlock Id Payload)) : SameView blocks blocks :=
  fun _ => rfl

theorem trans {blocks mid next : Dict Id (PrefixCacheBlock Id Payload)}
    (h : SameView blocks mid) (h' : SameView mid next) : SameView blocks next :=
  fun id => (h' id).trans (h id)

theorem set {blocks : Dict Id (PrefixCacheBlock Id Payload)} {x : Id}
    {block next : PrefixCacheBlock Id Payload} (hget : blocks.get? x = some block)
    (hview : capacityView next = capacityView block) : SameView blocks (blocks.set x next) := by
  intro id
  rw [Dict.get?_set]
  split
  · next hid => rw [hid, hget, Option.map_some, Option.map_some, hview]
  · rfl

section

variable {blocks next : Dict Id (PrefixCacheBlock Id Payload)} (h : SameView blocks next)

include h

theorem exists_iff {P : PrefixCacheBlock Id Payload → Prop}
    (hP : ∀ block other, capacityView other = capacityView block → (P other ↔ P block)) (id : Id) :
    (∃ block, next.get? id = some block ∧ P block) ↔ ∃ block, blocks.get? id = some block ∧ P block := by
  have hid := h id
  cases hold : blocks.get? id with
  | none =>
      rw [hold, Option.map_none, Option.map_eq_none_iff] at hid
      simp [hid]
  | some block =>
      rw [hold, Option.map_some, Option.map_eq_some_iff] at hid
      obtain ⟨other, hother, hview⟩ := hid
      simp [hother, hP block other hview]

theorem mem_keys_iff (id : Id) : id ∈ next.keys ↔ id ∈ blocks.keys := by
  have := h.exists_iff (P := fun _ => True) (by simp) id
  simpa [Dict.mem_keys_iff] using this

theorem parentIn_eq : parentIn next = parentIn blocks := by
  funext id
  have hid := h id
  have hmap := congrArg (fun view => Option.bind view Prod.fst) hid
  simpa [parentIn, Option.bind_map, Function.comp_def, capacityView] using hmap

theorem idleIn_iff (id : Id) : IdleIn next id ↔ IdleIn blocks id := by
  refine h.exists_iff (fun block other hview => ?_) id
  simp only [capacityView, Prod.mk.injEq, decide_eq_decide] at hview
  rw [Idle, Idle, hview.2.1, hview.2.2.1, hview.2.2.2]

theorem deviceIn_iff (id : Id) : DeviceIn next id ↔ DeviceIn blocks id := by
  refine h.exists_iff (fun block other hview => ?_) id
  simp only [capacityView, Prod.mk.injEq, decide_eq_decide] at hview
  rw [hview.2.2.2]

theorem locallyFreeableIn_iff (includeInflightD2h : Bool) (id : Id) :
    LocallyFreeableIn includeInflightD2h next id ↔ LocallyFreeableIn includeInflightD2h blocks id := by
  refine h.exists_iff (fun block other hview => ?_) id
  simp only [capacityView, Prod.mk.injEq, decide_eq_decide] at hview
  rw [LocallyFreeable, LocallyFreeable, hview.2.1, hview.2.2.1, hview.2.2.2]

theorem descends_iff (d b : Id) : Descends (parentIn next) next.keys d b ↔
    Descends (parentIn blocks) blocks.keys d b := by
  have hstep : (fun child p => child ∈ next.keys ∧ parentIn next child = some p) =
      fun child p => child ∈ blocks.keys ∧ parentIn blocks child = some p := by
    funext child p
    rw [h.parentIn_eq, h.mem_keys_iff]
  rw [Descends, Descends, hstep]

theorem freeableIn_iff (id : Id) : FreeableIn next id ↔ FreeableIn blocks id := by
  simp only [FreeableIn, h.mem_keys_iff, h.descends_iff, h.idleIn_iff]

theorem evictableIn_iff (id : Id) : EvictableIn next id ↔ EvictableIn blocks id := by
  simp only [EvictableIn, h.mem_keys_iff, h.parentIn_eq, h.idleIn_iff]

theorem deviceReclaimableIn_iff (includeInflightD2h : Bool) (id : Id) :
    DeviceReclaimableIn includeInflightD2h next id ↔ DeviceReclaimableIn includeInflightD2h blocks id := by
  simp only [DeviceReclaimableIn, h.deviceIn_iff, h.descends_iff, h.locallyFreeableIn_iff]

end

end SameView

/-! ## Cached answers -/

/-- A cached answer is right when it was stored at the current epoch. -/
def CacheOk (epoch cacheEpoch : ℤ) (cache : Finset Id) (answer : Id → Prop) : Prop :=
  cacheEpoch ≤ epoch ∧ (cacheEpoch = epoch → ∀ id, id ∈ cache ↔ answer id)

/-- The caches of `freeable_block_ids`, `evictable_block_ids` and
`device_freeable_block_ids`. -/
structure CachesOk (index : RadixPrefixIndex Id Payload) : Prop where
  freeable : CacheOk index.capacityEpoch index.freeableCacheEpoch index.freeableBlockIdsCache
    (FreeableIn index.blocks)
  evictable : CacheOk index.capacityEpoch index.evictableCacheEpoch index.evictableBlockIdsCache
    (EvictableIn index.blocks)
  deviceFreeable : CacheOk index.capacityEpoch index.deviceFreeableCacheEpoch
    index.deviceFreeableBlockIdsCache (DeviceReclaimableIn false index.blocks)

/-- The cache of `device_reclaimable_block_ids`. -/
def ReclaimableCacheOk (index : RadixPrefixIndex Id Payload) : Prop :=
  CacheOk index.capacityEpoch index.deviceReclaimableCacheEpoch
    index.deviceReclaimableBlockIdsCache (DeviceReclaimableIn true index.blocks)

/-- The cached answers and the epochs they were stored at. -/
def caches (index : RadixPrefixIndex Id Payload) :
    (ℤ × Finset Id) × (ℤ × Finset Id) × (ℤ × Finset Id) × (ℤ × Finset Id) :=
  ((index.freeableCacheEpoch, index.freeableBlockIdsCache),
    (index.evictableCacheEpoch, index.evictableBlockIdsCache),
    (index.deviceFreeableCacheEpoch, index.deviceFreeableBlockIdsCache),
    (index.deviceReclaimableCacheEpoch, index.deviceReclaimableBlockIdsCache))

/-- The caches are not touched, and either the epoch goes up or the queries
would answer as before. -/
structure CapacityStep (index next : RadixPrefixIndex Id Payload) : Prop where
  caches : next.caches = index.caches
  epoch : index.capacityEpoch ≤ next.capacityEpoch
  view : next.capacityEpoch = index.capacityEpoch → SameView index.blocks next.blocks

omit [LinearOrder Id] in
theorem CacheOk.step {epoch epoch' cacheEpoch : ℤ} {cache : Finset Id} {answer answer' : Id → Prop}
    (hok : CacheOk epoch cacheEpoch cache answer) (hle : epoch ≤ epoch')
    (hsame : epoch' = epoch → ∀ id, answer' id ↔ answer id) :
    CacheOk epoch' cacheEpoch cache answer' := by
  refine ⟨hok.1.trans hle, fun heq id => ?_⟩
  have hepoch : epoch' = epoch := by
    have := hok.1
    omega
  rw [hok.2 (heq.trans hepoch) id, hsame hepoch id]

namespace CapacityStep

variable {index mid next : RadixPrefixIndex Id Payload}

theorem cachesOk (h : CapacityStep index next) (hok : CachesOk index) : CachesOk next := by
  have hcaches := h.caches
  simp only [RadixPrefixIndex.caches, Prod.mk.injEq] at hcaches
  obtain ⟨⟨hfe, hf⟩, ⟨hee, he⟩, ⟨hde, hd⟩, -⟩ := hcaches
  refine ⟨?_, ?_, ?_⟩
  · rw [hfe, hf]
    exact hok.freeable.step h.epoch fun heq => (h.view heq).freeableIn_iff
  · rw [hee, he]
    exact hok.evictable.step h.epoch fun heq => (h.view heq).evictableIn_iff
  · rw [hde, hd]
    exact hok.deviceFreeable.step h.epoch fun heq => (h.view heq).deviceReclaimableIn_iff false

theorem reclaimableCacheOk (h : CapacityStep index next) (hok : ReclaimableCacheOk index) :
    ReclaimableCacheOk next := by
  have hcaches := h.caches
  simp only [RadixPrefixIndex.caches, Prod.mk.injEq] at hcaches
  obtain ⟨-, -, -, hre, hr⟩ := hcaches
  rw [ReclaimableCacheOk, hre, hr]
  exact hok.step h.epoch fun heq => (h.view heq).deviceReclaimableIn_iff true

end CapacityStep

end RadixPrefixIndex
