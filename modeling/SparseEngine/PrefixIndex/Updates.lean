import SparseEngine.PrefixIndex.Invariant

/-!
# Writes to an indexed block

How the invariant survives a write to the fields of one indexed block, and the
methods that do nothing else: the reference methods, the six transfer methods,
`touch_chain` and `set_subtree_eviction_priority`.
-/

namespace RadixPrefixIndex

open Routine Forest RadixTreeBackend

variable {Id Payload : Type} [LinearOrder Id]

/-- What a method that adds no block does to the index. -/
structure Moves (index next : RadixPrefixIndex Id Payload) : Prop where
  inv : Inv next
  changed : Changed index.blocks next.blocks
  blockSize : next.blockSize = index.blockSize
  maxBlocks : next.maxBlocks = index.maxBlocks
  cachesOk : CachesOk index → CachesOk next
  reclaimableCacheOk : ReclaimableCacheOk index → ReclaimableCacheOk next

namespace Moves

variable {index mid next : RadixPrefixIndex Id Payload}

theorem refl (h : Inv index) : Moves index index :=
  ⟨h, Changed.refl _, rfl, rfl, fun hok => hok, fun hok => hok⟩

theorem trans (h : Moves index mid) (h' : Moves mid next)
    (hchanged : Changed index.blocks next.blocks) : Moves index next where
  inv := h'.inv
  changed := hchanged
  blockSize := h'.blockSize.trans h.blockSize
  maxBlocks := h'.maxBlocks.trans h.maxBlocks
  cachesOk := fun hok => h'.cachesOk (h.cachesOk hok)
  reclaimableCacheOk := fun hok => h'.reclaimableCacheOk (h.reclaimableCacheOk hok)

theorem ofStep (hinv : Inv next) (hchanged : Changed index.blocks next.blocks)
    (hsize : next.blockSize = index.blockSize) (hmax : next.maxBlocks = index.maxBlocks)
    (hstep : CapacityStep index next) : Moves index next :=
  ⟨hinv, hchanged, hsize, hmax, hstep.cachesOk, hstep.reclaimableCacheOk⟩

end Moves

/-! ## Objects and identities -/

section

variable {index : RadixPrefixIndex Id Payload} {block stored : PrefixCacheBlock Id Payload}

theorem isIndexed_iff : index.IsIndexed block ↔
    ∃ stored, index.blocks.get? block.stableBlockId = some stored ∧ stored.obj = block.obj := by
  rw [IsIndexed, Option.map_eq_some_iff]

theorem resolve_of_get? (hget : index.blocks.get? block.stableBlockId = some stored)
    (hobj : stored.obj = block.obj) : index.resolve block = stored := by
  rw [resolve, hget]
  exact if_pos hobj

theorem resolve_of_stale (hstale : ¬ index.IsIndexed block) : index.resolve block = block := by
  rw [resolve]
  cases hget : index.blocks.get? block.stableBlockId with
  | none => rfl
  | some stored =>
      exact if_neg fun hobj => hstale (isIndexed_iff.mpr ⟨stored, hget, hobj⟩)

theorem resolve_stableBlockId (h : Inv index) :
    (index.resolve block).stableBlockId = block.stableBlockId := by
  by_cases hindexed : index.IsIndexed block
  · obtain ⟨stored, hget, hobj⟩ := isIndexed_iff.mp hindexed
    rw [resolve_of_get? hget hobj, h.ids _ _ hget]
  · rw [resolve_of_stale hindexed]

theorem store_of_get? {x : Id} (hget : index.blocks.get? x = some stored)
    (hid : block.stableBlockId = x) (hobj : block.obj = stored.obj) :
    store block index = { index with blocks := index.blocks.set x block } := by
  have hindexed : index.IsIndexed block := isIndexed_iff.mpr ⟨stored, by rw [hid, hget], hobj.symm⟩
  rw [store, if_pos hindexed, hid]

theorem store_of_stale (hstale : ¬ index.IsIndexed block) : store block index = index :=
  if_neg hstale

end

/-! ## Root-contiguous residency -/

/-- A kind of payload is root-contiguous: the parent of a block that has it has
it too. -/
def Contiguous (present : PrefixCacheBlock Id Payload → Bool)
    (blocks : Dict Id (PrefixCacheBlock Id Payload)) : Prop :=
  ∀ id p, (∃ block, blocks.get? id = some block ∧ present block = true) →
    parentIn blocks id = some p → ∃ block, blocks.get? p = some block ∧ present block = true

section

variable {present : PrefixCacheBlock Id Payload → Bool}
  {blocks : Dict Id (PrefixCacheBlock Id Payload)} {x : Id}
  {block next : PrefixCacheBlock Id Payload}

section

variable (h : Contiguous present blocks) (hget : blocks.get? x = some block)
  (hparent : next.parentBlockId = block.parentBlockId)

include h hget hparent

/-- A write keeps contiguity when a payload is only gained below a parent that
has it, and only lost above children that do not. -/
theorem Contiguous.set
    (hgain : present next = true → present block = true ∨ ∀ p, next.parentBlockId = some p →
      ∃ parent, blocks.get? p = some parent ∧ present parent = true)
    (hlose : present block = true → present next = true ∨ ∀ c child, blocks.get? c = some child →
      present child = true → parentIn blocks c ≠ some x) :
    Contiguous present (blocks.set x next) := by
  intro id p hid hp
  rw [parentIn_set hget hparent] at hp
  -- the parent has the payload before the write
  have hbefore : ∃ parent, blocks.get? p = some parent ∧ present parent = true := by
    obtain ⟨child, hchild, hin⟩ := hid
    rw [Dict.get?_set] at hchild
    split at hchild
    · next hidx =>
        subst hidx
        obtain rfl : next = child := by simpa using hchild
        rw [parentIn_of_get? hget] at hp
        rcases hgain hin with hold | hold
        · exact h id p ⟨block, hget, hold⟩ (by rw [parentIn_of_get? hget, hp])
        · exact hold p (hparent.trans hp)
    · exact h id p ⟨child, hchild, hin⟩ hp
  obtain ⟨parent, hpget, hpin⟩ := hbefore
  by_cases hpx : p = x
  · subst hpx
    obtain rfl : block = parent := by simpa [hget] using hpget
    refine ⟨next, Dict.get?_set_self _ _ _, ?_⟩
    rcases hlose hpin with hkept | hnone
    · exact hkept
    · obtain ⟨child, hchild, hin⟩ := hid
      by_cases hidp : id = p
      · subst hidp
        rw [Dict.get?_set_self] at hchild
        obtain rfl : next = child := by simpa using hchild
        exact hin
      · rw [Dict.get?_set_of_ne _ _ hidp] at hchild
        exact absurd hp (hnone id child hchild hin)
  · exact ⟨parent, by rw [Dict.get?_set_of_ne _ _ hpx, hpget], hpin⟩

/-- A write that does not touch the payload. -/
theorem Contiguous.set_same (hsame : present next = present block) :
    Contiguous present (blocks.set x next) :=
  h.set hget hparent (fun hin => Or.inl (hsame ▸ hin)) fun hin => Or.inl (hsame ▸ hin)

end

end

/-! ## The invariant under a write -/

section

variable {index : RadixPrefixIndex Id Payload} {x : Id} {block new : PrefixCacheBlock Id Payload}

theorem parentsFirst_set {blocks : Dict Id (PrefixCacheBlock Id Payload)}
    (hget : blocks.get? x = some block) (hparent : new.parentBlockId = block.parentBlockId)
    (hfirst : ParentsFirst (parentIn blocks) blocks.keys) :
    ParentsFirst (parentIn (blocks.set x new)) (blocks.set x new).keys := by
  rw [parentIn_set hget hparent, Dict.keys_set_of_get? new hget]
  exact hfirst

variable {freeableIds : Option (Finset Id)} {children : Dict Id ℤ}

section

variable (h : Inv index)

include h

/-- The invariant after a write to one block and a new freeable set. -/
theorem Inv.set (hget : index.blocks.get? x = some block) (hid : new.stableBlockId = block.stableBlockId)
    (hparent : new.parentBlockId = block.parentBlockId) (hvalid : new.residency.validate = .ok ())
    (hdevice : DeviceContiguous (index.blocks.set x new)) (hhost : HostContiguous (index.blocks.set x new))
    (htracked : Tracked (index.blocks.set x new) freeableIds children)
    {after : RadixPrefixIndex Id Payload} (hblocks : after.blocks = index.blocks.set x new)
    (hfreeable : after.freeableIds = freeableIds) (hchildren : after.blockedFreeableChildren = children)
    (hbackend : after.backend = index.backend) (hrouting : after.routingMembership = index.routingMembership)
    (hsnapshot : after.routingSnapshotCache = index.routingSnapshotCache)
    (hsize : after.blockSize = index.blockSize) : Inv after := by
  have hkeys : (index.blocks.set x new).keys = index.blocks.keys :=
    Dict.keys_set_of_get? new hget
  have hparents : parentIn (index.blocks.set x new) = parentIn index.blocks :=
    parentIn_set hget hparent
  refine ⟨?_, ?_, ?_, ?_, ?_, ?_, ?_, ?_, ?_⟩
  · intro id other hother
    rw [hblocks, Dict.get?_set] at hother
    split at hother
    · next hidx =>
        obtain rfl : new = other := by simpa using hother
        rw [hid, h.ids x block hget, hidx]
    · exact h.ids id other hother
  · rw [hblocks]
    exact parentsFirst_set hget hparent h.first
  · rw [hblocks, hbackend, hparents, hkeys]
    exact h.tree
  · rw [hblocks, hrouting, hkeys]
    exact h.routing
  · rw [hsnapshot, hsize, hrouting]
    exact h.snapshot
  · rw [hblocks, hfreeable, hchildren]
    exact htracked
  · intro id other hother
    rw [hblocks, Dict.get?_set] at hother
    split at hother
    · obtain rfl : new = other := by simpa using hother
      exact hvalid
    · exact h.valid id other hother
  · rw [hblocks]
    exact hdevice
  · rw [hblocks]
    exact hhost

/-- The refresh that follows a write repairs the freeable set. -/
theorem refreshFreeablePath_write (hget : index.blocks.get? x = some block)
    (hparent : new.parentBlockId = block.parentBlockId) :
    ∃ freeableIds children, refreshFreeablePath (some x)
        { index with blocks := index.blocks.set x new } = (.ok (), { index with
          blocks := index.blocks.set x new
          freeableIds := freeableIds
          blockedFreeableChildren := children }) ∧
      Tracked (index.blocks.set x new) freeableIds children := by
  have hbroken : TrackedExcept (fun id => id = x ∨ False) (index.blocks.set x new)
      index.freeableIds index.blockedFreeableChildren := by
    apply TrackedExcept.set hget hparent (Or.inl (Or.inl rfl))
    exact h.tracked.mono fun id _ hid => hid.elim
  obtain ⟨freeableIds, children, hrun, -, htracked⟩ := @refreshFreeablePath_spec _ _ _
    (fun _ => False) x { index with blocks := index.blocks.set x new }
    (parentsFirst_set hget hparent h.first)
    (Dict.mem_keys_set.mpr (Or.inl rfl)) hbroken
  exact ⟨freeableIds, children, hrun, htracked⟩

/-- Refreshing when nothing is broken. -/
theorem refreshFreeablePath_idle (x : Id) :
    ∃ result freeableIds children, refreshFreeablePath (some x) index = (result, { index with
          freeableIds := freeableIds
          blockedFreeableChildren := children }) ∧
      Tracked index.blocks freeableIds children := by
  by_cases hx : x ∈ index.blocks.keys
  · obtain ⟨freeableIds, children, hrun, -, htracked⟩ := @refreshFreeablePath_spec _ _ _
      (fun _ => False) x index h.first hx (h.tracked.mono fun id _ hid => hid.elim)
    exact ⟨_, freeableIds, children, hrun, htracked⟩
  · refine ⟨(refreshFreeablePath (some x) index).1, index.freeableIds, index.blockedFreeableChildren, ?_, h.tracked⟩
    exact Prod.ext rfl (refreshFreeablePath_missing hx)

/-- A write to one block that either bumps the capacity epoch or does not change
what the capacity queries see. -/
theorem Moves.ofWrite (hget : index.blocks.get? x = some block) (hsame : SameIdentity block new)
    (hvalid : new.residency.validate = .ok ()) (hdevice : DeviceContiguous (index.blocks.set x new))
    (hhost : HostContiguous (index.blocks.set x new))
    (htracked : Tracked (index.blocks.set x new) freeableIds children) {epoch : ℤ}
    (mutation clock : ℤ) (hepoch : epoch = index.capacityEpoch + 1 ∨
      (epoch = index.capacityEpoch ∧ capacityView new = capacityView block)) :
    Moves index { index with
      blocks := index.blocks.set x new
      freeableIds := freeableIds
      blockedFreeableChildren := children
      capacityEpoch := epoch
      mutationEpoch := mutation
      clock := clock } := by
  apply Moves.ofStep
  · exact h.set hget hsame.stableBlockId hsame.parentBlockId hvalid hdevice hhost htracked rfl rfl rfl rfl rfl rfl rfl
  · exact Or.inl (Rewrites.single hget hsame)
  · rfl
  · rfl
  · refine ⟨rfl, ?_, fun heq => ?_⟩
    · show index.capacityEpoch ≤ epoch
      rcases hepoch with rfl | ⟨rfl, -⟩ <;> omega
    · rcases hepoch with hepoch | ⟨-, hview⟩
      · have : epoch = index.capacityEpoch := heq
        omega
      · exact SameView.set hget hview

/-- A write the capacity queries cannot see. -/
theorem Moves.ofQuietWrite (hget : index.blocks.get? x = some block)
    (hsame : SameIdentity block new) (hview : capacityView new = capacityView block) (mutation clock : ℤ) :
    Moves index { index with
      blocks := index.blocks.set x new
      mutationEpoch := mutation
      clock := clock } := by
  have hfields := hview
  simp only [capacityView, Prod.mk.injEq, decide_eq_decide] at hfields
  obtain ⟨-, href, hpriority, hresidency⟩ := hfields
  have hidle : Idle new ↔ Idle block := by rw [Idle, Idle, href, hpriority, hresidency]
  have hvalid : new.residency.validate = .ok () := by
    rw [hresidency]
    exact h.valid _ _ hget
  exact Moves.ofWrite h hget hsame hvalid
    (Contiguous.set_same h.device hget hsame.parentBlockId (congrArg PrefixBlockResidency.devicePresent hresidency))
    (Contiguous.set_same h.host hget hsame.parentBlockId (congrArg PrefixBlockResidency.hostPresent hresidency))
    (TrackedExcept.set hget hsame.parentBlockId (Or.inr hidle) h.tracked) mutation clock
    (Or.inr ⟨rfl, hview⟩)

end

end

/-! ## References -/

section

variable {index : RadixPrefixIndex Id Payload} {block stored : PrefixCacheBlock Id Payload}

/-- **`set_block_ref_count`** on an indexed block. -/
theorem setBlockRefCount_indexed (h : Inv index)
    (hget : index.blocks.get? block.stableBlockId = some stored) (hobj : stored.obj = block.obj)
    (refCount : ℤ) (negativeError : String) :
    ∃ next, Moves index next ∧
      ((refCount < 0 ∧ setBlockRefCount block refCount negativeError index =
          (.error (.runtimeError negativeError), next) ∧ next = index) ∨
        (0 ≤ refCount ∧ setBlockRefCount block refCount negativeError index = (.ok (), next) ∧
          next.blocks = index.blocks.set block.stableBlockId { stored with refCount := refCount })) := by
  have hindexed : index.IsIndexed block := isIndexed_iff.mpr ⟨stored, hget, hobj⟩
  have hresolve := resolve_of_get? hget hobj
  have hid : stored.stableBlockId = block.stableBlockId := h.ids _ _ hget
  by_cases hneg : refCount < 0
  · refine ⟨index, Moves.refl h, Or.inl ⟨hneg, ?_, rfl⟩⟩
    simp only [setBlockRefCount, bind_apply, read_apply, raiseIf_apply, hindexed, not_true,
      if_false, hresolve, hneg, if_true]
  by_cases hsame : stored.refCount = refCount
  · refine ⟨index, Moves.refl h, Or.inr ⟨by omega, ?_, ?_⟩⟩
    · simp only [setBlockRefCount, bind_apply, read_apply, raiseIf_apply, hindexed, not_true,
        if_false, hresolve, hneg, hsame, if_true, pure_apply]
    · rw [← hsame, Dict.set_of_get? hget]
  -- the write, with the refresh when the block becomes or stops being unreferenced
  obtain ⟨new, hnew⟩ : ∃ new, { stored with refCount := refCount } = new := ⟨_, rfl⟩
  have hidentity : SameIdentity stored new := by
    subst hnew
    exact ⟨rfl, rfl, rfl, rfl, rfl, rfl⟩
  have hresidency : new.residency = stored.residency := by rw [← hnew]
  have hstore : store new index = { index with blocks := index.blocks.set block.stableBlockId new } :=
    store_of_get? hget (hidentity.stableBlockId.trans hid) hidentity.obj
  have hvalid : new.residency.validate = .ok () := by
    rw [hresidency]
    exact h.valid _ _ hget
  have hdevice : DeviceContiguous (index.blocks.set block.stableBlockId new) :=
    Contiguous.set_same h.device hget hidentity.parentBlockId (congrArg PrefixBlockResidency.devicePresent hresidency)
  have hhost : HostContiguous (index.blocks.set block.stableBlockId new) :=
    Contiguous.set_same h.host hget hidentity.parentBlockId (congrArg PrefixBlockResidency.hostPresent hresidency)
  by_cases hflip : decide (stored.refCount = 0) = decide (refCount = 0)
  · have hview : capacityView new = capacityView stored := by
      simp only [← hnew, capacityView, hflip]
    refine ⟨_, Moves.ofQuietWrite h hget hidentity hview (index.mutationEpoch + 1) index.clock,
      Or.inr ⟨by omega, ?_, by rw [hnew]⟩⟩
    simp only [setBlockRefCount, bind_apply, read_apply, raiseIf_apply, hindexed, not_true,
      if_false, hresolve, hneg, hsame, write_apply, hnew, hstore, hflip, ne_eq,
      markMutated]
  · obtain ⟨freeableIds, children, hrun, htracked⟩ :=
      refreshFreeablePath_write h hget hidentity.parentBlockId
    refine ⟨_, Moves.ofWrite h hget hidentity hvalid hdevice hhost htracked
      (index.mutationEpoch + 1) index.clock (Or.inl rfl),
      Or.inr ⟨by omega, ?_, by rw [hnew]⟩⟩
    simp only [setBlockRefCount, bind_apply, read_apply, raiseIf_apply, hindexed, not_true,
      if_false, hresolve, hneg, hsame, write_apply, hnew, hstore, hflip, ne_eq,
      not_false_eq_true, if_true]
    simp only [hid, hrun, markCapacityMutated]

theorem setBlockRefCount_stale (hstale : ¬ index.IsIndexed block) (refCount : ℤ) (negativeError : String) :
    ∃ error, setBlockRefCount block refCount negativeError index = (.error error, index) := by
  refine ⟨.runtimeError "Cannot update a prefix block that is not indexed.", ?_⟩
  simp only [setBlockRefCount, bind_apply, read_apply, raiseIf_apply, hstale, not_false_eq_true, if_true]

theorem setBlockRefCount_moves (h : Inv index) (refCount : ℤ) (negativeError : String) :
    Moves index ((setBlockRefCount block refCount negativeError).after index) := by
  unfold Routine.after
  by_cases hindexed : index.IsIndexed block
  · obtain ⟨stored, hget, hobj⟩ := isIndexed_iff.mp hindexed
    obtain ⟨next, hmoves, ⟨-, hrun, -⟩ | ⟨-, hrun, -⟩⟩ :=
      setBlockRefCount_indexed h hget hobj refCount negativeError
    · rwa [hrun]
    · rwa [hrun]
  · obtain ⟨error, hrun⟩ := setBlockRefCount_stale hindexed refCount negativeError
    rw [hrun]
    exact Moves.refl h

end

/-! ## Transfers -/

theorem validate_ok_iff (residency : PrefixBlockResidency) :
    residency.validate = .ok () ↔ (residency.devicePresent = true ∨ residency.hostPresent = true) ∧
      (residency.transfer = some .d2h → residency.devicePresent = true ∧ residency.hostPresent = false) ∧
      (residency.transfer = some .h2d → residency.devicePresent = true ∧ residency.hostPresent = true) := by
  rcases residency with ⟨device, host, _ | _ | _⟩ <;> cases device <;> cases host <;>
    simp [PrefixBlockResidency.validate]

/-- The parent of the block, if it has one, is indexed and satisfies the
test. -/
def ParentHas (index : RadixPrefixIndex Id Payload) (block : PrefixCacheBlock Id Payload)
    (test : PrefixCacheBlock Id Payload → Prop) : Prop :=
  ∀ p, block.parentBlockId = some p → ∃ parent, index.blocks.get? p = some parent ∧ test parent

/-- The outcome of a method that checks a condition and then writes one
block. -/
def GuardedWrite (index : RadixPrefixIndex Id Payload) (ready : Prop) (x : Id)
    (new : PrefixCacheBlock Id Payload) (result : Except PyError Unit)
    (next : RadixPrefixIndex Id Payload) : Prop :=
  Moves index next ∧
    ((ready ∧ result = .ok () ∧ next.blocks = index.blocks.set x new) ∨
      (¬ ready ∧ (∃ error, result = .error error) ∧ next = index))

section

variable {index : RadixPrefixIndex Id Payload} {block stored : PrefixCacheBlock Id Payload}

theorem not_parentHas_iff {test : PrefixCacheBlock Id Payload → Prop} :
    (∃ parentId ∈ block.parentBlockId, ¬ ∃ parent ∈ index.blocks.get? parentId, test parent) ↔
      ¬ ParentHas index block test := by
  simp only [ParentHas, Option.mem_def, not_forall, exists_prop]

variable {ready : Prop}

theorem GuardedWrite.refused {x : Id} {new : PrefixCacheBlock Id Payload} (h : Inv index)
    (hready : ¬ ready) (error : PyError) : GuardedWrite index ready x new (.error error) index :=
  ⟨Moves.refl h, Or.inr ⟨hready, ⟨error, rfl⟩, rfl⟩⟩

theorem setResidency_indexed {x : Id} (h : Inv index) (hget : index.blocks.get? x = some stored)
    (residency : PrefixBlockResidency) (hvalid : residency.validate = .ok ())
    (hdevice : DeviceContiguous (index.blocks.set x { stored with residency := residency }))
    (hhost : HostContiguous (index.blocks.set x { stored with residency := residency })) :
    ∃ next, setResidency stored residency index = (.ok (), next) ∧ Moves index next ∧
      next.blocks = index.blocks.set x { stored with residency := residency } := by
  obtain ⟨new, hnew⟩ : ∃ new, { stored with residency := residency } = new := ⟨_, rfl⟩
  have hidentity : SameIdentity stored new := by
    subst hnew
    exact ⟨rfl, rfl, rfl, rfl, rfl, rfl⟩
  have hid : stored.stableBlockId = x := h.ids _ _ hget
  have hstore : store new index = { index with blocks := index.blocks.set x new } :=
    store_of_get? hget (hidentity.stableBlockId.trans hid) hidentity.obj
  obtain ⟨freeableIds, children, hrun, htracked⟩ :=
    refreshFreeablePath_write h hget hidentity.parentBlockId
  rw [hnew] at hdevice hhost
  have hvalid' : new.residency.validate = .ok () := by
    rw [← hnew]
    exact hvalid
  refine ⟨_, ?_, Moves.ofWrite h hget hidentity hvalid' hdevice hhost htracked
    (index.mutationEpoch + 1) index.clock (Or.inl rfl), by rw [hnew]⟩
  simp only [setResidency, bind_apply, write_apply, ofExcept_apply, hnew, hstore, hvalid]
  simp only [hid, hrun, markCapacityMutated]

/-- On an object that is not indexed nothing but the epochs may change. -/
theorem setResidency_stale (h : Inv index) (hstale : ¬ index.IsIndexed block) (residency : PrefixBlockResidency) :
    Moves index ((setResidency block residency).after index) ∧
      ((setResidency block residency).after index).blocks = index.blocks := by
  have hstore : store { block with residency := residency } index = index := store_of_stale hstale
  obtain ⟨result, freeableIds, children, hrun, htracked⟩ :=
    refreshFreeablePath_idle h block.stableBlockId
  have hmoves : ∀ epoch mutation : ℤ, index.capacityEpoch ≤ epoch →
      Moves index { index with
        freeableIds := freeableIds
        blockedFreeableChildren := children
        capacityEpoch := epoch
        mutationEpoch := mutation } := by
    intro epoch mutation hle
    apply Moves.ofStep
    · exact ⟨h.ids, h.first, h.tree, h.routing, h.snapshot, htracked, h.valid, h.device, h.host⟩
    · exact Changed.refl _
    · rfl
    · rfl
    · exact ⟨rfl, hle, fun _ => SameView.refl _⟩
  unfold Routine.after
  cases hvalid : residency.validate with
  | error error =>
      simp only [setResidency, bind_apply, write_apply, ofExcept_apply, hstore, hvalid]
      exact ⟨Moves.refl h, trivial⟩
  | ok _ =>
      simp only [setResidency, bind_apply, write_apply, ofExcept_apply, hstore, hvalid, hrun]
      cases result with
      | error error => exact ⟨hmoves _ _ le_rfl, rfl⟩
      | ok _ =>
          refine ⟨hmoves (index.capacityEpoch + 1) (index.mutationEpoch + 1) (by omega), rfl⟩

/-- When `begin_d2h` goes through. -/
def BeginD2hReady (index : RadixPrefixIndex Id Payload) (block : PrefixCacheBlock Id Payload) :
    Prop :=
  block.refCount = 0 ∧ block.residency.hostPresent = false ∧ block.residency.transfer = none ∧
    ParentHas index block fun parent =>
      parent.residency.hostPresent = true ∨ parent.residency.transfer = some .d2h

/-- When `finish_d2h` goes through. -/
def FinishD2hReady (index : RadixPrefixIndex Id Payload) (block : PrefixCacheBlock Id Payload) :
    Prop :=
  block.residency.transfer = some .d2h ∧
    ParentHas index block fun parent => parent.residency.hostPresent = true

/-- When `begin_h2d` goes through. -/
def BeginH2dReady (index : RadixPrefixIndex Id Payload) (block : PrefixCacheBlock Id Payload) :
    Prop :=
  block.residency.devicePresent = false ∧ block.residency.hostPresent = true ∧
    block.residency.transfer = none ∧
    ParentHas index block fun parent => parent.residency.devicePresent = true

/-- When `abort_h2d` goes through. -/
def AbortH2dReady (index : RadixPrefixIndex Id Payload) (block : PrefixCacheBlock Id Payload) :
    Prop :=
  block.residency.transfer = some .h2d ∧
    ∀ c, DeviceIn index.blocks c → parentIn index.blocks c ≠ some block.stableBlockId

section Indexed

variable (h : Inv index) (hget : index.blocks.get? block.stableBlockId = some stored)
  (hobj : stored.obj = block.obj)

include h hget hobj

/-- **`begin_d2h`** on an indexed block. -/
theorem beginD2h_indexed : wp (beginD2h block) (GuardedWrite index (BeginD2hReady index stored) block.stableBlockId
    { stored with residency := { stored.residency with transfer := some .d2h } }) index := by
  have hindexed : index.IsIndexed block := isIndexed_iff.mpr ⟨stored, hget, hobj⟩
  have hvalid := h.valid _ _ hget
  unfold beginD2h
  simp only [wp_bind, wp_read, wp_raiseIf, wp_ofExcept, resolve_of_get? hget hobj, hvalid,
    not_parentHas_iff, hindexed, not_true, false_imp_iff, not_false_eq_true, true_imp_iff, true_and]
  refine ⟨fun href => .refused h (fun hready => href hready.1) _, fun href =>
    ⟨fun hhost => .refused h (fun hready => by simp [hready.2.1] at hhost) _, fun hhost =>
    ⟨fun htransfer => .refused h (fun hready => htransfer hready.2.2.1) _, fun htransfer =>
    ⟨fun hparent => .refused h (fun hready => hparent hready.2.2.2) _, fun hparent => ?_⟩⟩⟩⟩
  rw [not_not] at href htransfer hparent
  rw [Bool.not_eq_true] at hhost
  obtain ⟨hresident, -, -⟩ := (validate_ok_iff _).mp hvalid
  have hpresent : stored.residency.devicePresent = true := by simpa [hhost] using hresident
  obtain ⟨next, hrun, hmoves, hblocks⟩ := setResidency_indexed h hget
    { stored.residency with transfer := some .d2h }
    ((validate_ok_iff _).mpr ⟨Or.inl hpresent, fun _ => ⟨hpresent, hhost⟩, by simp⟩)
    (Contiguous.set_same h.device hget rfl rfl) (Contiguous.set_same h.host hget rfl rfl)
  rw [wp_def, hrun]
  exact ⟨hmoves, Or.inl ⟨⟨href, hhost, htransfer, hparent⟩, rfl, hblocks⟩⟩

/-- **`finish_d2h`** on an indexed block. -/
theorem finishD2h_indexed : wp (finishD2h block) (GuardedWrite index (FinishD2hReady index stored) block.stableBlockId
    { stored with residency :=
      { stored.residency with hostPresent := true, transfer := none } }) index := by
  have hvalid := h.valid _ _ hget
  unfold finishD2h
  simp only [wp_bind, wp_read, wp_raiseIf, resolve_of_get? hget hobj, not_parentHas_iff]
  refine ⟨fun htransfer => .refused h (fun hready => htransfer hready.1) _, fun htransfer =>
    ⟨fun hparent => .refused h (fun hready => hparent hready.2) _, fun hparent => ?_⟩⟩
  rw [not_not] at htransfer hparent
  obtain ⟨-, hd2h, -⟩ := (validate_ok_iff _).mp hvalid
  obtain ⟨next, hrun, hmoves, hblocks⟩ := setResidency_indexed h hget
    { stored.residency with hostPresent := true, transfer := none }
    ((validate_ok_iff _).mpr ⟨Or.inr rfl, by simp, by simp⟩)
    (Contiguous.set_same h.device hget rfl rfl)
    (Contiguous.set h.host hget rfl (fun _ => Or.inr hparent) fun _ => Or.inl rfl)
  rw [wp_def, hrun]
  exact ⟨hmoves, Or.inl ⟨⟨htransfer, hparent⟩, rfl, hblocks⟩⟩

/-- **`abort_d2h`** on an indexed block. -/
theorem abortD2h_indexed : wp (abortD2h block) (GuardedWrite index
    (stored.residency.transfer = some .d2h) block.stableBlockId
    { stored with residency := { stored.residency with transfer := none } }) index := by
  have hvalid := h.valid _ _ hget
  unfold abortD2h
  simp only [wp_bind, wp_read, wp_raiseIf, resolve_of_get? hget hobj]
  refine ⟨fun htransfer => .refused h htransfer _, fun htransfer => ?_⟩
  rw [not_not] at htransfer
  obtain ⟨hresident, -, -⟩ := (validate_ok_iff _).mp hvalid
  obtain ⟨next, hrun, hmoves, hblocks⟩ := setResidency_indexed h hget
    { stored.residency with transfer := none }
    ((validate_ok_iff _).mpr ⟨hresident, by simp, by simp⟩)
    (Contiguous.set_same h.device hget rfl rfl) (Contiguous.set_same h.host hget rfl rfl)
  rw [wp_def, hrun]
  exact ⟨hmoves, Or.inl ⟨htransfer, rfl, hblocks⟩⟩

/-- **`begin_h2d`** on an indexed block. -/
theorem beginH2d_indexed : wp (beginH2d block) (GuardedWrite index (BeginH2dReady index stored) block.stableBlockId
    { stored with residency :=
      { stored.residency with devicePresent := true, transfer := some .h2d } }) index := by
  have hindexed : index.IsIndexed block := isIndexed_iff.mpr ⟨stored, hget, hobj⟩
  have hvalid := h.valid _ _ hget
  unfold beginH2d
  simp only [wp_bind, wp_read, wp_raiseIf, wp_ofExcept, resolve_of_get? hget hobj, hvalid,
    not_parentHas_iff, hindexed, not_true, false_imp_iff, not_false_eq_true, true_imp_iff, true_and]
  refine ⟨fun hdevice => .refused h (fun hready => by simp [hready.1] at hdevice) _, fun hdevice =>
    ⟨fun hhost => .refused h (fun hready => hhost hready.2.1) _, fun hhost =>
    ⟨fun htransfer => .refused h (fun hready => htransfer hready.2.2.1) _, fun htransfer =>
    ⟨fun hparent => .refused h (fun hready => hparent hready.2.2.2) _, fun hparent => ?_⟩⟩⟩⟩
  rw [not_not] at hhost htransfer hparent
  rw [Bool.not_eq_true] at hdevice
  obtain ⟨next, hrun, hmoves, hblocks⟩ := setResidency_indexed h hget
    { stored.residency with devicePresent := true, transfer := some .h2d }
    ((validate_ok_iff _).mpr ⟨Or.inl rfl, by simp, fun _ => ⟨rfl, hhost⟩⟩)
    (Contiguous.set h.device hget rfl (fun _ => Or.inr hparent) fun _ => Or.inl rfl)
    (Contiguous.set_same h.host hget rfl rfl)
  rw [wp_def, hrun]
  exact ⟨hmoves, Or.inl ⟨⟨hdevice, hhost, htransfer, hparent⟩, rfl, hblocks⟩⟩

/-- **`finish_h2d`** on an indexed block. -/
theorem finishH2d_indexed : wp (finishH2d block) (GuardedWrite index
    (stored.residency.transfer = some .h2d) block.stableBlockId
    { stored with residency := { stored.residency with transfer := none } }) index := by
  have hvalid := h.valid _ _ hget
  unfold finishH2d
  simp only [wp_bind, wp_read, wp_raiseIf, resolve_of_get? hget hobj]
  refine ⟨fun htransfer => .refused h htransfer _, fun htransfer => ?_⟩
  rw [not_not] at htransfer
  obtain ⟨hresident, -, -⟩ := (validate_ok_iff _).mp hvalid
  obtain ⟨next, hrun, hmoves, hblocks⟩ := setResidency_indexed h hget
    { stored.residency with transfer := none }
    ((validate_ok_iff _).mpr ⟨hresident, by simp, by simp⟩)
    (Contiguous.set_same h.device hget rfl rfl) (Contiguous.set_same h.host hget rfl rfl)
  rw [wp_def, hrun]
  exact ⟨hmoves, Or.inl ⟨htransfer, rfl, hblocks⟩⟩

/-- **`abort_h2d`** on an indexed block. -/
theorem abortH2d_indexed : wp (abortH2d block) (GuardedWrite index (AbortH2dReady index stored) block.stableBlockId
    { stored with residency :=
      { stored.residency with devicePresent := false, transfer := none } }) index := by
  have hvalid := h.valid _ _ hget
  have hid : stored.stableBlockId = block.stableBlockId := h.ids _ _ hget
  have hcount : index.deviceChildCount stored.stableBlockId = _ :=
    deviceChildCount_eq h.tree (hid ▸ Dict.mem_keys_of_get? hget)
  have hchildren : blockedChildren (parentIn index.blocks) (deviceKeys index.blocks) ∅ stored.stableBlockId = 0 ↔
      ∀ c, DeviceIn index.blocks c → parentIn index.blocks c ≠ some stored.stableBlockId := by
    rw [blockedChildren_eq_zero_iff]
    simp only [mem_deviceKeys_iff, Finset.notMem_empty]
  unfold abortH2d
  simp only [wp_bind, wp_read, wp_raiseIf, wp_ofExcept, resolve_of_get? hget hobj, hcount]
  refine ⟨fun htransfer => .refused h (fun hready => htransfer hready.1) _, fun htransfer =>
    ⟨fun hchild => .refused h (fun hready => hchild (hchildren.mpr hready.2)) _, fun hchild => ?_⟩⟩
  rw [not_not] at htransfer hchild
  have hnone := hchildren.mp hchild
  obtain ⟨-, -, hh2d⟩ := (validate_ok_iff _).mp hvalid
  obtain ⟨next, hrun, hmoves, hblocks⟩ := setResidency_indexed h hget
    { stored.residency with devicePresent := false, transfer := none }
    ((validate_ok_iff _).mpr ⟨Or.inr (hh2d htransfer).2, by simp, by simp⟩)
    (Contiguous.set h.device hget rfl (fun hin => by simp at hin) fun _ => Or.inr
      fun c child hc hin => hid ▸ hnone c ⟨child, hc, hin⟩)
    (Contiguous.set_same h.host hget rfl rfl)
  rw [wp_def, hrun]
  exact ⟨hmoves, Or.inl ⟨⟨htransfer, hnone⟩, rfl, hblocks⟩⟩

end Indexed

/-- A guarded write moves the index. -/
theorem GuardedWrite.moves {x : Id} {new : PrefixCacheBlock Id Payload}
    {method : Method Id Payload Unit} (hwp : wp method (GuardedWrite index ready x new) index) :
    Moves index (method.after index) :=
  hwp.1

section

variable (h : Inv index)

include h

theorem beginD2h_moves : Moves index ((beginD2h block).after index) := by
  by_cases hindexed : index.IsIndexed block
  · obtain ⟨stored, hget, hobj⟩ := isIndexed_iff.mp hindexed
    exact GuardedWrite.moves (beginD2h_indexed h hget hobj)
  · show Moves index (beginD2h block index).2
    simp only [beginD2h, bind_apply, read_apply, raiseIf_apply, hindexed, not_false_eq_true, if_true]
    exact Moves.refl h

theorem beginH2d_moves : Moves index ((beginH2d block).after index) := by
  by_cases hindexed : index.IsIndexed block
  · obtain ⟨stored, hget, hobj⟩ := isIndexed_iff.mp hindexed
    exact GuardedWrite.moves (beginH2d_indexed h hget hobj)
  · show Moves index (beginH2d block index).2
    simp only [beginH2d, bind_apply, read_apply, raiseIf_apply, hindexed, not_false_eq_true, if_true]
    exact Moves.refl h

theorem finishD2h_moves : Moves index ((finishD2h block).after index) := by
  by_cases hindexed : index.IsIndexed block
  · obtain ⟨stored, hget, hobj⟩ := isIndexed_iff.mp hindexed
    exact GuardedWrite.moves (finishD2h_indexed h hget hobj)
  · show wp (finishD2h block) (fun _ next => Moves index next) index
    unfold finishD2h
    simp only [wp_bind, wp_read, wp_raiseIf, resolve_of_stale hindexed]
    exact ⟨fun _ => Moves.refl h, fun _ => ⟨fun _ => Moves.refl h, fun _ =>
      (setResidency_stale h hindexed _).1⟩⟩

theorem abortD2h_moves : Moves index ((abortD2h block).after index) := by
  by_cases hindexed : index.IsIndexed block
  · obtain ⟨stored, hget, hobj⟩ := isIndexed_iff.mp hindexed
    exact GuardedWrite.moves (abortD2h_indexed h hget hobj)
  · show wp (abortD2h block) (fun _ next => Moves index next) index
    unfold abortD2h
    simp only [wp_bind, wp_read, wp_raiseIf, resolve_of_stale hindexed]
    exact ⟨fun _ => Moves.refl h, fun _ => (setResidency_stale h hindexed _).1⟩

theorem finishH2d_moves : Moves index ((finishH2d block).after index) := by
  by_cases hindexed : index.IsIndexed block
  · obtain ⟨stored, hget, hobj⟩ := isIndexed_iff.mp hindexed
    exact GuardedWrite.moves (finishH2d_indexed h hget hobj)
  · show wp (finishH2d block) (fun _ next => Moves index next) index
    unfold finishH2d
    simp only [wp_bind, wp_read, wp_raiseIf, resolve_of_stale hindexed]
    exact ⟨fun _ => Moves.refl h, fun _ => (setResidency_stale h hindexed _).1⟩

theorem abortH2d_moves : Moves index ((abortH2d block).after index) := by
  by_cases hindexed : index.IsIndexed block
  · obtain ⟨stored, hget, hobj⟩ := isIndexed_iff.mp hindexed
    exact GuardedWrite.moves (abortH2d_indexed h hget hobj)
  · show wp (abortH2d block) (fun _ next => Moves index next) index
    unfold abortH2d
    simp only [wp_bind, wp_read, wp_raiseIf, wp_ofExcept, resolve_of_stale hindexed]
    refine ⟨fun _ => Moves.refl h, fun _ => ?_⟩
    cases index.deviceChildCount block.stableBlockId with
    | error error => exact Moves.refl h
    | ok count => exact ⟨fun _ => Moves.refl h, fun _ => (setResidency_stale h hindexed _).1⟩

end

end

/-! ## `touch_chain` -/

section

variable {index : RadixPrefixIndex Id Payload}

theorem resolve_lastAccess_moves (h : Inv index) (block : PrefixCacheBlock Id Payload) (access : ℤ) :
    Moves index (store { index.resolve block with lastAccess := access } index) ∧
      Rewrites index.blocks (store { index.resolve block with lastAccess := access } index).blocks := by
  by_cases hindexed : index.IsIndexed block
  · obtain ⟨stored, hget, hobj⟩ := isIndexed_iff.mp hindexed
    have hid : stored.stableBlockId = block.stableBlockId := h.ids _ _ hget
    have hidentity : SameIdentity stored { stored with lastAccess := access } :=
      ⟨rfl, rfl, rfl, rfl, rfl, rfl⟩
    have hstore : store { stored with lastAccess := access } index = { index with
        blocks := index.blocks.set block.stableBlockId { stored with lastAccess := access } } :=
      store_of_get? hget hid rfl
    simp only [resolve_of_get? hget hobj, hstore]
    exact ⟨Moves.ofQuietWrite h hget hidentity rfl index.mutationEpoch index.clock, Rewrites.single hget hidentity⟩
  · have hstore : store { block with lastAccess := access } index = index :=
      store_of_stale hindexed
    simp only [resolve_of_stale hindexed, hstore]
    exact ⟨Moves.refl h, Relation.ReflTransGen.refl⟩

theorem tick_moves (h : Inv index) (clock : ℤ) : Moves index { index with clock := clock } :=
  Moves.ofStep ⟨h.ids, h.first, h.tree, h.routing, h.snapshot, h.tracked, h.valid, h.device, h.host⟩
    (Changed.refl _) rfl rfl ⟨rfl, le_rfl, fun _ => SameView.refl _⟩

theorem touchChain_moves (h : Inv index) (blocks : List (PrefixCacheBlock Id Payload)) :
    Moves index ((touchChain blocks).after index) := by
  have hloop : ∀ (rest : List (PrefixCacheBlock Id Payload)) (start : RadixPrefixIndex Id Payload)
      (access : ℤ), Inv start → ∃ last, rest.foldl (fun index block =>
          store { index.resolve block with lastAccess := access } index) start = last ∧
        Moves start last ∧ Rewrites start.blocks last.blocks := by
    intro rest
    induction rest with
    | nil => exact fun start _ hstart => ⟨start, rfl, Moves.refl hstart, Relation.ReflTransGen.refl⟩
    | cons block rest ih =>
        intro start access hstart
        obtain ⟨hfirst, hwrite⟩ := resolve_lastAccess_moves hstart block access
        obtain ⟨last, hlast, hrest, hwrites⟩ := ih _ access hfirst.inv
        have hall := Relation.ReflTransGen.trans hwrite hwrites
        exact ⟨last, hlast, hfirst.trans hrest (Or.inl hall), hall⟩
  have htick := tick_moves h (index.clock + 1)
  obtain ⟨last, hlast, hmoves, hwrites⟩ := hloop blocks _ (index.clock + 1) htick.inv
  have hrun : (touchChain blocks).after index = last := hlast
  rw [hrun]
  exact htick.trans hmoves (Or.inl hwrites)

end

/-! ## `set_subtree_eviction_priority` -/

/-- What the loop has done so far: everything but the epoch bump.  `changed`
tells whether the capacity queries could see it. -/
structure PriorityProgress (index next : RadixPrefixIndex Id Payload) (changed : Bool) : Prop where
  inv : Inv next
  rewrites : Rewrites index.blocks next.blocks
  blockSize : next.blockSize = index.blockSize
  maxBlocks : next.maxBlocks = index.maxBlocks
  caches : next.caches = index.caches
  epoch : next.capacityEpoch = index.capacityEpoch
  view : changed = false → SameView index.blocks next.blocks

section

variable {index : RadixPrefixIndex Id Payload}

theorem PriorityProgress.refl (h : Inv index) (changed : Bool) :
    PriorityProgress index index changed :=
  ⟨h, Relation.ReflTransGen.refl, rfl, rfl, rfl, rfl, fun _ => SameView.refl _⟩

theorem PriorityProgress.trans {mid next : RadixPrefixIndex Id Payload} {changed changed' : Bool}
    (h : PriorityProgress index mid changed) (h' : PriorityProgress mid next changed')
    (hmono : changed' = false → changed = false) : PriorityProgress index next changed' where
  inv := h'.inv
  rewrites := Relation.ReflTransGen.trans h.rewrites h'.rewrites
  blockSize := h'.blockSize.trans h.blockSize
  maxBlocks := h'.maxBlocks.trans h.maxBlocks
  caches := h'.caches.trans h.caches
  epoch := h'.epoch.trans h.epoch
  view := fun hfalse => (h.view (hmono hfalse)).trans (h'.view hfalse)

/-- One round of the loop that writes. -/
theorem priority_write (h : Inv index) {x : Id} {block : PrefixCacheBlock Id Payload}
    (hget : index.blocks.get? x = some block) (priority : ℤ) {flips : Bool}
    (hflips : (decide (block.evictionPriority < 0) != decide (priority < 0)) = flips) :
    ∃ next, ((do
        write (store { block with evictionPriority := priority })
        if flips then refreshFreeablePath (some x) else pure ()) : Method Id Payload Unit) index = (.ok (), next) ∧
      PriorityProgress index next flips := by
  obtain ⟨new, hnew⟩ : ∃ new, { block with evictionPriority := priority } = new := ⟨_, rfl⟩
  have hidentity : SameIdentity block new := by
    subst hnew
    exact ⟨rfl, rfl, rfl, rfl, rfl, rfl⟩
  have hresidency : new.residency = block.residency := by rw [← hnew]
  have hid := h.ids _ _ hget
  have hstore : store new index = { index with blocks := index.blocks.set x new } :=
    store_of_get? hget (hidentity.stableBlockId.trans hid) hidentity.obj
  cases flips with
  | false =>
      have hsign : (block.evictionPriority < 0) = (priority < 0) := by simpa using hflips
      have hview : capacityView new = capacityView block := by
        have hsame : decide (0 ≤ priority) = decide (0 ≤ block.evictionPriority) := by
          rw [decide_eq_decide, ← not_lt, ← not_lt, hsign]
        simp only [← hnew, capacityView, hsame]
      have hmoves := Moves.ofQuietWrite h hget hidentity hview index.mutationEpoch index.clock
      refine ⟨_, ?_, hmoves.inv, Rewrites.single hget hidentity, rfl, rfl, rfl, rfl, fun _ =>
        SameView.set hget hview⟩
      simp only [bind_apply, write_apply, hnew, hstore, Bool.false_eq_true, if_false, pure_apply]
  | true =>
      obtain ⟨freeableIds, children, hrun, htracked⟩ :=
        refreshFreeablePath_write h hget hidentity.parentBlockId
      have hvalid : new.residency.validate = .ok () := by
        rw [hresidency]
        exact h.valid _ _ hget
      refine ⟨{ index with
          blocks := index.blocks.set x new
          freeableIds := freeableIds
          blockedFreeableChildren := children }, ?_, ?_, Rewrites.single hget hidentity, rfl, rfl, rfl,
        rfl, by simp⟩
      · simp only [bind_apply, write_apply, hnew, hstore, if_true, hrun]
      · exact h.set hget hidentity.stableBlockId hidentity.parentBlockId hvalid
          (Contiguous.set_same h.device hget hidentity.parentBlockId
            (congrArg PrefixBlockResidency.devicePresent hresidency))
          (Contiguous.set_same h.host hget hidentity.parentBlockId
            (congrArg PrefixBlockResidency.hostPresent hresidency))
          htracked rfl rfl rfl rfl rfl rfl rfl

theorem priorityLoop_spec (priority : ℤ) {ids : List Id} {updated : ℕ} {changed flipped : Bool} (h : Inv index) :
    ∃ out next, priorityLoop priority ids updated changed flipped index = (.ok out, next) ∧
      (out.2.2 = false → flipped = false) ∧ PriorityProgress index next out.2.2 := by
  induction ids generalizing index updated changed flipped with
  | nil => exact ⟨_, _, rfl, fun hfalse => hfalse, PriorityProgress.refl h _⟩
  | cons x rest ih =>
      cases hget : index.blocks.get? x with
      | none =>
          obtain ⟨out, next, hrun, hdone⟩ := @ih index updated changed flipped h
          refine ⟨out, next, ?_, hdone⟩
          simp only [priorityLoop, bind_apply, read_apply, hget, hrun]
      | some block =>
          by_cases hsame : block.evictionPriority = priority
          · obtain ⟨out, next, hrun, hdone⟩ := @ih index (updated + 1) changed flipped h
            refine ⟨out, next, ?_, hdone⟩
            simp only [priorityLoop, bind_apply, read_apply, hget, hsame, if_true, hrun]
          · obtain ⟨flips, hflips⟩ : ∃ flips,
                (decide (block.evictionPriority < 0) != decide (priority < 0)) = flips := ⟨_, rfl⟩
            obtain ⟨mid, hmid, hprogress⟩ := priority_write h hget priority hflips
            obtain ⟨out, next, hrun, hmono, hdone⟩ :=
              @ih mid (updated + 1) true (flipped || flips) hprogress.inv
            have hboth : out.2.2 = false → flipped = false ∧ flips = false := by
              intro hfalse
              simpa only [Bool.or_eq_false_iff] using hmono hfalse
            refine ⟨out, next, ?_, fun hfalse => (hboth hfalse).1,
              hprogress.trans hdone fun hfalse => (hboth hfalse).2⟩
            simp only [priorityLoop, bind_apply, read_apply, hget, if_neg hsame, write_apply, hflips]
            rw [set_apply] at hmid
            cases flips with
            | false =>
                simp only [Bool.false_eq_true, if_false, pure_apply, Prod.mk.injEq, true_and] at hmid
                rw [if_neg Bool.false_ne_true, hmid]
                exact hrun
            | true =>
                simp only [if_true] at hmid
                rw [if_pos rfl, bind_apply, hmid]
                exact hrun

theorem setSubtreeEvictionPriority_moves (h : Inv index) (hash : List ℤ → Option Id → Id)
    (tokenIds : List ℤ) (priority : ℤ) :
    Moves index ((setSubtreeEvictionPriority hash tokenIds priority).after index) := by
  show wp (setSubtreeEvictionPriority hash tokenIds priority) (fun _ next => Moves index next) index
  unfold setSubtreeEvictionPriority
  simp only [wp_bind, wp_read, wp_ite, wp_pure]
  refine ⟨fun _ => Moves.refl h, fun _ => ?_⟩
  cases (index.backend.lookup (index.blockIdsForTokens hash tokenIds none)
      (index.blockIdsForTokens hash tokenIds none).length).lastBlockId with
  | none => exact Moves.refl h
  | some lastBlockId =>
      simp only [wp_ite, wp_pure, wp_bind, wp_ofExcept]
      refine ⟨fun _ => Moves.refl h, fun _ => ?_⟩
      cases index.backend.subtreeBlockIds lastBlockId with
      | error error => exact Moves.refl h
      | ok subtreeIds =>
          obtain ⟨out, next, hrun, -, hdone⟩ :=
            @priorityLoop_spec _ _ _ index priority subtreeIds 0 false false h
          dsimp only
          rw [wp_def, hrun]
          obtain ⟨updated, changed, flipped⟩ := out
          simp only [wp_write]
          have hinv := hdone.inv
          have hmoves : ∀ epoch mutation : ℤ,
              (epoch = index.capacityEpoch + 1 ∨ (epoch = index.capacityEpoch ∧ flipped = false)) →
              Moves index { next with capacityEpoch := epoch, mutationEpoch := mutation } := by
            intro epoch mutation hepoch
            refine Moves.ofStep ⟨hinv.ids, hinv.first, hinv.tree, hinv.routing, hinv.snapshot,
              hinv.tracked, hinv.valid, hinv.device, hinv.host⟩ (Or.inl hdone.rewrites) hdone.blockSize
              hdone.maxBlocks ⟨hdone.caches, ?_, fun heq => ?_⟩
            · show index.capacityEpoch ≤ epoch
              rcases hepoch with rfl | ⟨rfl, -⟩ <;> omega
            · have heq' : epoch = index.capacityEpoch := heq
              rcases hepoch with hepoch | ⟨-, hfalse⟩
              · omega
              · exact hdone.view hfalse
          have hepoch := hdone.epoch
          refine ⟨fun _ => hmoves (next.capacityEpoch + 1) (next.mutationEpoch + 1)
            (Or.inl (by omega)), fun hflip => ?_⟩
          rw [Bool.not_eq_true] at hflip
          exact ⟨fun _ => hmoves next.capacityEpoch (next.mutationEpoch + 1) (Or.inr ⟨hepoch, hflip⟩),
            fun _ => hmoves next.capacityEpoch next.mutationEpoch (Or.inr ⟨hepoch, hflip⟩)⟩

end

end RadixPrefixIndex
