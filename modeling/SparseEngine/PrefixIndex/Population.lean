import SparseEngine.PrefixIndex.CapacityQueries

/-!
# Adding and removing a block

`insert_block` and `_remove_block_from_index`, the two methods that change
which blocks are indexed.  Both update the blocks, the radix tree, the
freeable set and the routing set one after the other; the invariant holds
again at the end.

`insert_block` bumps the capacity epoch only when the new block or its parent
is idle.  `insert_block_quiet` is why that is enough for the freeable, the
evictable and the device-freeable set.  It is not enough for the
device-reclaimable set, where a block with a D2H in flight counts too.
-/

namespace RadixPrefixIndex

open Routine Forest RadixTreeBackend

variable {Id Payload : Type} [LinearOrder Id]

/-! ## A new block -/

section

variable {present : PrefixCacheBlock Id Payload → Bool}
  {blocks : Dict Id (PrefixCacheBlock Id Payload)} {x : Id} {block : PrefixCacheBlock Id Payload}
  (hnew : x ∉ blocks.keys)

include hnew

variable {id : Id}

theorem get?_set_new {other : PrefixCacheBlock Id Payload} (hget : blocks.get? id = some other) :
    (blocks.set x block).get? id = some other := by
  rw [Dict.get?_set_of_ne, hget]
  rintro rfl
  exact hnew (Dict.mem_keys_of_get? hget)

theorem parentIn_set_new (hid : id ∈ blocks.keys) :
    parentIn (blocks.set x block) id = parentIn blocks id := by
  apply parentIn_set_of_ne
  rintro rfl
  exact hnew hid

theorem parentsFirst_insert (hfirst : ParentsFirst (parentIn blocks) blocks.keys)
    (hparent : ∀ p, block.parentBlockId = some p → p ∈ blocks.keys) :
    ParentsFirst (parentIn (blocks.set x block)) (blocks.set x block).keys := by
  rw [Dict.keys_set_of_not_mem block hnew]
  apply ParentsFirst.append
  · exact hfirst.congr fun id hid => parentIn_set_new hnew hid
  · rw [parentIn_set_self]
    exact hparent

theorem Contiguous.insert (h : Contiguous present blocks)
    (hup : present block = true → ∀ p, block.parentBlockId = some p →
      ∃ parent, blocks.get? p = some parent ∧ present parent = true) :
    Contiguous present (blocks.set x block) := by
  intro id p hid hp
  obtain ⟨child, hchild, hin⟩ := hid
  have hbefore : ∃ parent, blocks.get? p = some parent ∧ present parent = true := by
    by_cases hidx : id = x
    · subst hidx
      rw [Dict.get?_set_self] at hchild
      obtain rfl : block = child := by simpa using hchild
      rw [parentIn_set_self] at hp
      exact hup hin p hp
    · rw [Dict.get?_set_of_ne _ _ hidx] at hchild
      rw [parentIn_set_of_ne hidx] at hp
      exact h id p ⟨child, hchild, hin⟩ hp
  obtain ⟨parent, hparent, hpin⟩ := hbefore
  exact ⟨parent, get?_set_new hnew hparent, hpin⟩

end

/-! ## What a new block does to the capacity sets -/

section

variable {blocks : Dict Id (PrefixCacheBlock Id Payload)} {x : Id}
  {new : PrefixCacheBlock Id Payload} (hnew : x ∉ blocks.keys)

theorem idleIn_set_self : IdleIn (blocks.set x new) x ↔ Idle new :=
  idleIn_iff_of_get? (Dict.get?_set_self blocks x new)

variable {id : Id}

theorem exists_get?_set_of_ne (hid : id ≠ x) {P : PrefixCacheBlock Id Payload → Prop} :
    (∃ block, (blocks.set x new).get? id = some block ∧ P block) ↔
      ∃ block, blocks.get? id = some block ∧ P block := by
  rw [Dict.get?_set_of_ne _ _ hid]

include hnew

omit [LinearOrder Id] in
theorem ne_of_mem (hid : id ∈ blocks.keys) : id ≠ x := by
  rintro rfl
  exact hnew hid

theorem evictableIn_insert (hx : ¬ Idle new) (hp : ∀ p, new.parentBlockId = some p → ¬ IdleIn blocks p) (id : Id) :
    EvictableIn (blocks.set x new) id ↔ EvictableIn blocks id := by
  by_cases hidx : id = x
  · subst hidx
    refine iff_of_false (fun h => hx (idleIn_set_self.mp h.1)) fun h => ?_
    obtain ⟨block, hget, -⟩ := h.1
    exact hnew (Dict.mem_keys_of_get? hget)
  have hidle : IdleIn (blocks.set x new) id ↔ IdleIn blocks id := exists_get?_set_of_ne hidx
  rw [EvictableIn, EvictableIn, hidle]
  refine and_congr_right fun hgood => ?_
  constructor
  · intro h c hc hpar
    rw [← parentIn_set_new hnew hc] at hpar
    exact h c (Dict.mem_keys_set.mpr (Or.inr hc)) hpar
  · intro h c hc hpar
    rcases Dict.mem_keys_set.mp hc with rfl | hmem
    · rw [parentIn_set_self] at hpar
      exact hp id hpar hgood
    · rw [parentIn_set_new hnew hmem] at hpar
      exact h c hmem hpar

variable (hfirst : ParentsFirst (parentIn blocks) blocks.keys)
  (hparent : ∀ p, new.parentBlockId = some p → p ∈ blocks.keys)

include hfirst hparent

/-- A new block below a node where the property fails already changes nothing at
the old blocks. -/
theorem hereditary_insert {good : Dict Id (PrefixCacheBlock Id Payload) → Id → Prop}
    (hgood : ∀ id ∈ blocks.keys, good (blocks.set x new) id ↔ good blocks id)
    (hx : good (blocks.set x new) x ∨ ∀ p, new.parentBlockId = some p →
      ¬ ∀ d, Descends (parentIn blocks) blocks.keys d p → good blocks d)
    {id : Id} (hid : id ∈ blocks.keys) :
    (∀ d, Descends (parentIn (blocks.set x new)) (blocks.set x new).keys d id → good (blocks.set x new) d) ↔
      ∀ d, Descends (parentIn blocks) blocks.keys d id → good blocks d := by
  refine hereditary_of_new hfirst (fun y => Dict.mem_keys_set) hnew
    (fun y hy => parentIn_set_new hnew hy) ?_ hgood ?_ hid
  · rw [parentIn_set_self]
    exact hparent
  · rw [parentIn_set_self]
    exact hx

theorem freeableIn_insert (hx : ¬ Idle new) (hp : ∀ p, new.parentBlockId = some p → ¬ IdleIn blocks p) (id : Id) :
    FreeableIn (blocks.set x new) id ↔ FreeableIn blocks id := by
  by_cases hid : id ∈ blocks.keys
  · have hsame : ∀ y ∈ blocks.keys, IdleIn (blocks.set x new) y ↔ IdleIn blocks y := fun y hy =>
      exists_get?_set_of_ne (ne_of_mem hnew hy)
    have hiff := hereditary_insert hnew hfirst hparent hsame
      (Or.inr fun p hpar hall => hp p hpar (hall p (Descends.refl p))) hid
    rw [FreeableIn, FreeableIn, hiff, and_iff_right hid, and_iff_right (Dict.mem_keys_set.mpr (Or.inr hid))]
  · refine iff_of_false (fun hfree => ?_) fun hfree => hid hfree.1
    rcases Dict.mem_keys_set.mp hfree.1 with rfl | hmem
    · exact hx (idleIn_set_self.mp (hfree.2 id (Descends.refl id)))
    · exact hid hmem

theorem deviceReclaimableIn_insert {includeInflightD2h : Bool} (hx : ¬ LocallyFreeable includeInflightD2h new)
    (hdevice : new.residency.devicePresent = true → ∀ p, new.parentBlockId = some p → DeviceIn blocks p)
    (hp : new.residency.devicePresent = true → ∀ p, new.parentBlockId = some p →
      ¬ DeviceReclaimableIn includeInflightD2h blocks p) (id : Id) :
    DeviceReclaimableIn includeInflightD2h (blocks.set x new) id ↔
      DeviceReclaimableIn includeInflightD2h blocks id := by
  have hself : DeviceIn (blocks.set x new) x ↔ new.residency.devicePresent = true :=
    deviceIn_iff_of_get? (Dict.get?_set_self blocks x new)
  have hlocal : ¬ LocallyFreeableIn includeInflightD2h (blocks.set x new) x := by
    rw [locallyFreeableIn_iff_of_get? (Dict.get?_set_self blocks x new)]
    exact hx
  by_cases hid : id ∈ blocks.keys
  · have hsame : ∀ y ∈ blocks.keys, DeviceIn (blocks.set x new) y ↔ DeviceIn blocks y :=
      fun y hy => exists_get?_set_of_ne (ne_of_mem hnew hy)
    have hgood : ∀ y ∈ blocks.keys,
        (DeviceIn (blocks.set x new) y → LocallyFreeableIn includeInflightD2h (blocks.set x new) y) ↔
          (DeviceIn blocks y → LocallyFreeableIn includeInflightD2h blocks y) := by
      intro y hy
      rw [hsame y hy]
      exact imp_congr_right fun _ => exists_get?_set_of_ne (ne_of_mem hnew hy)
    have hblocked : (DeviceIn (blocks.set x new) x → LocallyFreeableIn includeInflightD2h (blocks.set x new) x) ∨
        ∀ p, new.parentBlockId = some p → ¬ ∀ d, Descends (parentIn blocks) blocks.keys d p →
          DeviceIn blocks d → LocallyFreeableIn includeInflightD2h blocks d := by
      by_cases hpresent : new.residency.devicePresent = true
      · exact Or.inr fun p hpar hall => hp hpresent p hpar ⟨hdevice hpresent p hpar, hall⟩
      · exact Or.inl fun h => absurd (hself.mp h) hpresent
    have hiff := @hereditary_insert _ _ _ blocks x new hnew hfirst hparent
      (fun blocks y => DeviceIn blocks y → LocallyFreeableIn includeInflightD2h blocks y) hgood
      hblocked id hid
    rw [DeviceReclaimableIn, DeviceReclaimableIn, hsame id hid]
    exact and_congr_right fun _ => hiff
  · refine iff_of_false (fun h => ?_) fun h => hid h.1.mem_keys
    rcases Dict.mem_keys_set.mp h.1.mem_keys with rfl | hmem
    · exact hlocal (h.2 id (Descends.refl id) h.1)
    · exact hid hmem

end

/-! ## `insert_block` -/

/-- What the checks of `insert_block` let through. -/
structure InsertReady (index : RadixPrefixIndex Id Payload)
    (block : PrefixCacheBlock Id Payload) : Prop where
  valid : block.residency.validate = .ok ()
  fresh : block.stableBlockId ∉ index.blocks.keys
  room : ∀ maxBlocks, index.maxBlocks = some maxBlocks → (index.blocks.size : ℤ) < maxBlocks
  parent : index.checkInsertParent block = .ok ()

theorem checkInsertParent_ok_iff {index : RadixPrefixIndex Id Payload} {block : PrefixCacheBlock Id Payload} :
    index.checkInsertParent block = .ok () ↔ ParentHas index block fun parent =>
      (block.residency.devicePresent = true → parent.residency.devicePresent = true) ∧
        (block.residency.hostPresent = true → parent.residency.hostPresent = true) := by
  rw [checkInsertParent, ParentHas]
  cases hp : block.parentBlockId with
  | none => simp
  | some p =>
      cases hget : index.blocks.get? p with
      | none => simp [hget]
      | some parent =>
          cases block.residency.devicePresent <;> cases block.residency.hostPresent <;>
            cases hdevice : parent.residency.devicePresent <;>
            cases hhost : parent.residency.hostPresent <;> simp [hget, hdevice, hhost]

/-- The block an insertion stores. -/
def stamped (index : RadixPrefixIndex Id Payload) (block : PrefixCacheBlock Id Payload) :
    PrefixCacheBlock Id Payload :=
  { block with lastAccess := index.clock + 1 }

section

variable (changed : Bool) (index : RadixPrefixIndex Id Payload)

omit [LinearOrder Id]

@[simp] theorem markInserted_blocks : (markInserted changed index).blocks = index.blocks := by
  cases changed <;> rfl

@[simp] theorem markInserted_blockSize :
    (markInserted changed index).blockSize = index.blockSize := by
  cases changed <;> rfl

@[simp] theorem markInserted_maxBlocks :
    (markInserted changed index).maxBlocks = index.maxBlocks := by
  cases changed <;> rfl

@[simp] theorem markInserted_caches : (markInserted changed index).caches = index.caches := by
  cases changed <;> rfl

theorem markInserted_capacityEpoch : (markInserted changed index).capacityEpoch =
    index.capacityEpoch + if changed then 1 else 0 := by
  cases changed <;> simp [markInserted, markCapacityMutated, markMutated]

end

theorem Inv.markInserted {index : RadixPrefixIndex Id Payload} (h : Inv index) (changed : Bool) :
    Inv (markInserted changed index) := by
  cases changed <;> exact ⟨h.ids, h.first, h.tree, h.routing, h.snapshot, h.tracked, h.valid, h.device, h.host⟩

section

variable {index : RadixPrefixIndex Id Payload} {block : PrefixCacheBlock Id Payload}

theorem InsertReady.parent_mem (hready : InsertReady index block) {p : Id}
    (hp : block.parentBlockId = some p) : p ∈ index.blocks.keys := by
  obtain ⟨parent, hget, -⟩ := checkInsertParent_ok_iff.mp hready.parent p hp
  exact Dict.mem_keys_of_get? hget

/-- What the insertion of a new block leaves. -/
structure Inserted (index : RadixPrefixIndex Id Payload) (block : PrefixCacheBlock Id Payload)
    (next : RadixPrefixIndex Id Payload) : Prop where
  inv : Inv next
  blocks : next.blocks = index.blocks.set block.stableBlockId (index.stamped block)
  blockSize : next.blockSize = index.blockSize
  maxBlocks : next.maxBlocks = index.maxBlocks
  caches : next.caches = index.caches
  epoch : next.capacityEpoch =
    index.capacityEpoch + if next.capacityChanged (index.stamped block) then 1 else 0

/-- **`insert_block`** of a new block. -/
theorem insertBlock_ready (h : Inv index) (hready : InsertReady index block) :
    ∃ next, insertBlock block index = (.ok (index.stamped block), next) ∧ Inserted index block next := by
  obtain ⟨new, hnew⟩ : ∃ new, index.stamped block = new := ⟨_, rfl⟩
  have hid : new.stableBlockId = block.stableBlockId := by rw [← hnew, stamped]
  have hparentEq : new.parentBlockId = block.parentBlockId := by rw [← hnew, stamped]
  have hresidency : new.residency = block.residency := by rw [← hnew, stamped]
  have hfresh : block.stableBlockId ∉ index.blocks.keys := hready.fresh
  have hnone : index.blocks.get? block.stableBlockId = none := Dict.not_mem_keys_iff.mp hfresh
  have hresolve : index.resolve block = block := by rw [resolve, hnone]
  have hparents := checkInsertParent_ok_iff.mp hready.parent
  have hmem : ∀ p, new.parentBlockId = some p → p ∈ index.blocks.keys := fun p hp =>
    hready.parent_mem (hparentEq ▸ hp)
  have hfirst : ParentsFirst (parentIn (index.blocks.set block.stableBlockId new))
      (index.blocks.set block.stableBlockId new).keys :=
    parentsFirst_insert hfresh h.first hmem
  have hkeys : (index.blocks.set block.stableBlockId new).keys = index.blocks.keys ++ [block.stableBlockId] :=
    Dict.keys_set_of_not_mem new hfresh
  -- the radix tree
  have htree : Represents index.backend (parentIn (index.blocks.set block.stableBlockId new)) index.blocks.keys :=
    h.tree.congr_parent fun id hid => parentIn_set_new hfresh hid
  have hself : parentIn (index.blocks.set block.stableBlockId new) block.stableBlockId = new.parentBlockId := parentIn_set_self
  obtain ⟨backend, hbackend, htree'⟩ := insertChild_of_new htree hfresh (by rw [hself]; exact hmem)
  rw [hself] at hbackend
  -- the freeable set
  obtain ⟨freeableIds, children, htrack, htracked⟩ := @trackInserted_spec _ _ _
    { index with
      clock := index.clock + 1
      blocks := index.blocks.set block.stableBlockId new
      backend := backend } index.blocks new (by rw [hid]) (hid ▸ hfresh) h.first hfirst hmem h.tracked
  -- the routing set
  obtain ⟨routing, hrouting, hholds⟩ := h.routing.insert hfresh
  obtain ⟨last, hlast⟩ : ∃ last : RadixPrefixIndex Id Payload, last = { index with
      clock := index.clock + 1
      blocks := index.blocks.set block.stableBlockId new
      backend := backend
      freeableIds := freeableIds
      blockedFreeableChildren := children
      committedBlocks := index.committedBlocks + 1
      routingMembership := routing
      routingSnapshotCache := none } := ⟨_, rfl⟩
  have hinv : Inv last := by
    subst hlast
    refine ⟨?_, hfirst, ?_, ?_, by simp, htracked, ?_, ?_, ?_⟩
    · intro id other hother
      rw [Dict.get?_set] at hother
      split at hother
      · next hidx =>
          obtain rfl : new = other := by simpa using hother
          rw [hid, hidx]
      · exact h.ids id other hother
    · show Represents backend _ (index.blocks.set block.stableBlockId new).keys
      rw [hkeys]
      exact htree'
    · show routing.Holds (index.blocks.set block.stableBlockId new).keys
      rw [hkeys]
      exact hholds
    · intro id other hother
      rw [Dict.get?_set] at hother
      split at hother
      · obtain rfl : new = other := by simpa using hother
        rw [hresidency]
        exact hready.valid
      · exact h.valid id other hother
    · refine Contiguous.insert hfresh h.device fun hin p hp => ?_
      obtain ⟨parent, hget, hdevice, -⟩ := hparents p (hparentEq ▸ hp)
      exact ⟨parent, hget, hdevice (hresidency ▸ hin)⟩
    · refine Contiguous.insert hfresh h.host fun hin p hp => ?_
      obtain ⟨parent, hget, -, hhost⟩ := hparents p (hparentEq ▸ hp)
      exact ⟨parent, hget, hhost (hresidency ▸ hin)⟩
  have hrun : insertBlock block index = (.ok new, markInserted (last.capacityChanged new) last) := by
    have hroom : ∀ maxBlocks, index.maxBlocks = some maxBlocks →
        ¬ maxBlocks ≤ (index.blocks.size : ℤ) := fun m hm => not_le.mpr (hready.room m hm)
    have hstamp : { block with lastAccess := index.clock + 1 } = new := hnew
    dsimp only at htrack
    rw [hparentEq] at hbackend
    cases hmax : index.maxBlocks with
    | none =>
        rw [hmax] at htrack hlast
        simp only [insertBlock, bind_apply, read_apply, hresolve, ofExcept_apply, hready.valid,
          hnone, hmax, pure_apply, hready.parent, tick, write_apply, hstamp, onBackend, hbackend, htrack,
          recordRoutingInsert, hrouting, hlast]
    | some maxBlocks =>
        rw [hmax] at htrack hlast
        simp only [insertBlock, bind_apply, read_apply, hresolve, ofExcept_apply, hready.valid,
          hnone, hmax, hroom maxBlocks hmax, if_false, pure_apply, hready.parent, tick, write_apply,
          hstamp, onBackend, hbackend, htrack, recordRoutingInsert, hrouting, hlast]
  have hblocks : last.blocks = index.blocks.set block.stableBlockId new := by rw [hlast]
  have hchanged : (markInserted (last.capacityChanged new) last).capacityChanged new = last.capacityChanged new := by
    rw [capacityChanged, capacityChanged, markInserted_blocks]
  rw [← hnew] at hrun
  refine ⟨_, hrun, ?_⟩
  rw [hnew]
  refine ⟨hinv.markInserted _, ?_, ?_, ?_, ?_, ?_⟩
  · rw [markInserted_blocks, hblocks, hnew]
  · rw [markInserted_blockSize, hlast]
  · rw [markInserted_maxBlocks, hlast]
  · rw [markInserted_caches, hlast]
    rfl
  · rw [hnew, markInserted_capacityEpoch, hchanged, hlast]

/-- `insert_block` under an id that is indexed already touches the indexed
block, or raises. -/
theorem insertBlock_existing (h : Inv index) {existing : PrefixCacheBlock Id Payload}
    (hget : index.blocks.get? block.stableBlockId = some existing) :
    wp (insertBlock block) (fun result next => Moves index next ∧
      (((∃ error, result = .error error) ∧ next = index) ∨
        (result = .ok (index.stamped existing) ∧
          next.blocks = index.blocks.set block.stableBlockId (index.stamped existing)))) index := by
  have hid : (index.resolve block).stableBlockId = block.stableBlockId := resolve_stableBlockId h
  have hstore : store (index.stamped existing) { index with clock := index.clock + 1 } = { index with
      clock := index.clock + 1
      blocks := index.blocks.set block.stableBlockId (index.stamped existing) } :=
    store_of_get? hget (h.ids _ existing hget) rfl
  have hsame : SameIdentity existing (index.stamped existing) := ⟨rfl, rfl, rfl, rfl, rfl, rfl⟩
  have hmoves := Moves.ofQuietWrite h hget hsame rfl index.mutationEpoch (index.clock + 1)
  rw [wp_def]
  cases hvalid : (index.resolve block).residency.validate with
  | error error =>
      simp only [insertBlock, bind_apply, read_apply, ofExcept_apply, hvalid]
      exact ⟨Moves.refl h, Or.inl ⟨⟨error, rfl⟩, trivial⟩⟩
  | ok _ =>
      have hrun : insertBlock block index = (.ok (index.stamped existing), { index with
          clock := index.clock + 1
          blocks := index.blocks.set block.stableBlockId (index.stamped existing) }) := by
        rw [← hstore]
        simp only [insertBlock, bind_apply, read_apply, ofExcept_apply, hvalid, hid, hget, tick,
          write_apply, pure_apply, stamped]
      rw [hrun]
      exact ⟨hmoves, Or.inr ⟨rfl, rfl⟩⟩

/-- `insert_block` of a block its checks refuse raises and adds nothing. -/
theorem insertBlock_refused (h : Inv index) (hfresh : block.stableBlockId ∉ index.blocks.keys)
    (hready : ¬ InsertReady index block) :
    wp (insertBlock block) (fun result next => Moves index next ∧ (∃ error, result = .error error) ∧
      next.blocks = index.blocks) index := by
  have hnone : index.blocks.get? block.stableBlockId = none := Dict.not_mem_keys_iff.mp hfresh
  have hresolve : index.resolve block = block := by rw [resolve, hnone]
  rw [wp_def]
  cases hvalid : block.residency.validate with
  | error error =>
      have hrun : insertBlock block index = (.error error, index) := by
        simp only [insertBlock, bind_apply, read_apply, ofExcept_apply, hresolve, hvalid]
      rw [hrun]
      exact ⟨Moves.refl h, ⟨error, rfl⟩, rfl⟩
  | ok _ =>
      by_cases hroom : ∀ maxBlocks, index.maxBlocks = some maxBlocks → (index.blocks.size : ℤ) < maxBlocks
      · cases hcheck : index.checkInsertParent block with
        | ok _ => exact absurd ⟨hvalid, hfresh, hroom, hcheck⟩ hready
        | error error =>
            have hrun : insertBlock block index = (.error error, index) := by
              cases hmax : index.maxBlocks with
              | none =>
                  simp only [insertBlock, bind_apply, read_apply, ofExcept_apply, hresolve, hvalid,
                    hnone, hmax, hcheck]
              | some maxBlocks =>
                  simp only [insertBlock, bind_apply, read_apply, ofExcept_apply, hresolve, hvalid,
                    hnone, hmax, not_le.mpr (hroom maxBlocks hmax), if_false, hcheck]
            rw [hrun]
            exact ⟨Moves.refl h, ⟨error, rfl⟩, rfl⟩
      · -- the capacity check queries the evictable blocks for its message
        simp only [not_forall, not_lt, exists_prop] at hroom
        obtain ⟨maxBlocks, hmax, hfull⟩ := hroom
        obtain ⟨ids, next, hquery, hqueried, -⟩ := evictableBlockIds_spec h
        have hrun : ∃ error, insertBlock block index = (.error error, next) := by
          simp only [insertBlock, bind_apply, read_apply, ofExcept_apply, hresolve, hvalid, hnone,
            hmax, hfull, if_true, hquery, raise_apply]
          exact ⟨_, rfl⟩
        obtain ⟨error, hrun⟩ := hrun
        rw [hrun]
        exact ⟨hqueried.moves, ⟨error, rfl⟩, hqueried.blocks⟩

/-! ## The capacity epoch after an insertion -/

/-- `insert_block` keeps the epoch exactly when neither the new block nor its
parent is idle. -/
theorem capacityChanged_eq_false_iff {next : RadixPrefixIndex Id Payload}
    (hready : InsertReady index block) (hinserted : Inserted index block next) :
    next.capacityChanged (index.stamped block) = false ↔
      ¬ Idle block ∧ ∀ p, block.parentBlockId = some p → ¬ IdleIn index.blocks p := by
  have hidle : Idle (index.stamped block) ↔ Idle block := Iff.rfl
  have hparentEq : (index.stamped block).parentBlockId = block.parentBlockId := rfl
  rw [capacityChanged, hinserted.blocks, hparentEq]
  cases hp : block.parentBlockId with
  | none => simp [hidle]
  | some p =>
      obtain ⟨parent, hget⟩ := Dict.mem_keys_iff.mp (hready.parent_mem hp)
      rw [Option.bind_some, get?_set_new hready.fresh hget]
      simp [hidle, idleIn_iff_of_get? hget]

variable {other : PrefixCacheBlock Id Payload}

omit [LinearOrder Id] in
/-- A block that is locally freeable without its transfer is idle. -/
theorem LocallyFreeable.idle (hlocal : LocallyFreeable false other) : Idle other := by
  obtain ⟨href, hpriority, -, ⟨-, htransfer⟩ | ⟨hfalse, -⟩⟩ := hlocal
  · exact ⟨href, hpriority, htransfer⟩
  · cases hfalse

section

variable {next : RadixPrefixIndex Id Payload} (h : Inv index) (hready : InsertReady index block)
  (hinserted : Inserted index block next)

include hready in
theorem InsertReady.parent_device (hpresent : block.residency.devicePresent = true) {p : Id}
    (hp : block.parentBlockId = some p) : DeviceIn index.blocks p := by
  obtain ⟨parent, hget, hdevice, -⟩ := checkInsertParent_ok_iff.mp hready.parent p hp
  exact ⟨parent, hget, hdevice hpresent⟩

include hinserted in
theorem Inserted.epoch_le : index.capacityEpoch ≤ next.capacityEpoch := by
  rw [hinserted.epoch]
  split <;> omega

include hinserted in
theorem Inserted.capacityChanged_of_epoch (heq : next.capacityEpoch = index.capacityEpoch) :
    next.capacityChanged (index.stamped block) = false := by
  rw [hinserted.epoch] at heq
  by_contra hchanged
  rw [Bool.not_eq_false] at hchanged
  rw [if_pos hchanged] at heq
  omega

include h hready hinserted

/-- **The three caches an insertion keeps right.** -/
theorem Inserted.cachesOk (hok : CachesOk index) : CachesOk next := by
  have hparents : ∀ p, (index.stamped block).parentBlockId = some p → p ∈ index.blocks.keys :=
    fun p hp => hready.parent_mem hp
  have hcaches := hinserted.caches
  simp only [RadixPrefixIndex.caches, Prod.mk.injEq] at hcaches
  obtain ⟨⟨hfe, hf⟩, ⟨hee, he⟩, ⟨hde, hd⟩, -⟩ := hcaches
  have hblocked : next.capacityEpoch = index.capacityEpoch →
      ¬ Idle (index.stamped block) ∧ ∀ p, (index.stamped block).parentBlockId = some p → ¬ IdleIn index.blocks p := by
    intro heq
    exact (capacityChanged_eq_false_iff hready hinserted).mp (hinserted.capacityChanged_of_epoch heq)
  refine ⟨?_, ?_, ?_⟩
  · rw [hfe, hf, hinserted.blocks]
    refine hok.freeable.step hinserted.epoch_le fun heq id => ?_
    obtain ⟨hx, hp⟩ := hblocked heq
    exact freeableIn_insert hready.fresh h.first hparents hx hp id
  · rw [hee, he, hinserted.blocks]
    refine hok.evictable.step hinserted.epoch_le fun heq id => ?_
    obtain ⟨hx, hp⟩ := hblocked heq
    exact evictableIn_insert hready.fresh hx hp id
  · rw [hde, hd, hinserted.blocks]
    refine hok.deviceFreeable.step hinserted.epoch_le fun heq id => ?_
    obtain ⟨hx, hp⟩ := hblocked heq
    refine deviceReclaimableIn_insert hready.fresh h.first hparents (fun hlocal => hx hlocal.idle)
      (fun hpresent p hpar => hready.parent_device hpresent hpar) (fun _ p hpar hin => ?_) id
    obtain ⟨parent, hget, hlocal⟩ := hin.2 p (Descends.refl p) hin.1
    exact hp p hpar ⟨parent, hget, hlocal.idle⟩

end

/-- Reclaimable only because its D2H is in flight. -/
def InflightReclaimable (block : PrefixCacheBlock Id Payload) : Prop :=
  block.refCount = 0 ∧ 0 ≤ block.evictionPriority ∧ block.residency.transfer = some .d2h

instance (block : PrefixCacheBlock Id Payload) : Decidable (InflightReclaimable block) :=
  inferInstanceAs (Decidable (_ ∧ _ ∧ _))

/-- An insertion that changes the device-reclaimable set under a cached answer:
the answer is current, the epoch is kept because neither the new block nor its
parent is idle, and the new block is reclaimable through its D2H or takes away a
parent that is. -/
structure StaleInsert (index : RadixPrefixIndex Id Payload) (block : PrefixCacheBlock Id Payload) :
    Prop where
  ready : InsertReady index block
  cached : index.deviceReclaimableCacheEpoch = index.capacityEpoch
  blockedBlock : ¬ Idle block
  blockedParent : ∀ p, block.parentBlockId = some p → ¬ IdleIn index.blocks p
  inflight : InflightReclaimable block ∨
    ∃ p, block.parentBlockId = some p ∧ DeviceReclaimableIn true index.blocks p

omit [LinearOrder Id] in
theorem LocallyFreeable.inflight (hlocal : LocallyFreeable true other) (hidle : ¬ Idle other) :
    InflightReclaimable other := by
  obtain ⟨href, hpriority, -, ⟨-, htransfer⟩ | ⟨-, htransfer⟩⟩ := hlocal
  · exact absurd ⟨href, hpriority, htransfer⟩ hidle
  · exact ⟨href, hpriority, htransfer⟩

/-- A block with a transfer is device-present. -/
theorem InsertReady.present_of_inflight (hready : InsertReady index block)
    (hinflight : InflightReclaimable block) : block.residency.devicePresent = true :=
  (((validate_ok_iff _).mp hready.valid).2.1 hinflight.2.2).1

section

variable {next : RadixPrefixIndex Id Payload} (h : Inv index) (hready : InsertReady index block)
  (hinserted : Inserted index block next) (hok : ReclaimableCacheOk index)

include h hready hinserted hok

theorem Inserted.reclaimableCacheOk (hfine : ¬ StaleInsert index block) :
    ReclaimableCacheOk next := by
  have hcaches := hinserted.caches
  simp only [RadixPrefixIndex.caches, Prod.mk.injEq] at hcaches
  obtain ⟨-, -, -, hre, hr⟩ := hcaches
  have hle := hinserted.epoch_le
  have hold := hok.1
  rw [ReclaimableCacheOk, hre, hr, hinserted.blocks]
  refine ⟨hold.trans hle, fun heq id => ?_⟩
  have hcached : index.deviceReclaimableCacheEpoch = index.capacityEpoch := by omega
  obtain ⟨hx, hp⟩ := (capacityChanged_eq_false_iff hready hinserted).mp
    (hinserted.capacityChanged_of_epoch (by omega))
  have hnot : ¬ (InflightReclaimable block ∨
      ∃ p, block.parentBlockId = some p ∧ DeviceReclaimableIn true index.blocks p) :=
    fun hinflight => hfine ⟨hready, hcached, hx, hp, hinflight⟩
  rw [not_or] at hnot
  have hlocal : ¬ LocallyFreeable true (index.stamped block) := by
    intro hlocal
    have hinflight : InflightReclaimable (index.stamped block) := hlocal.inflight hx
    exact hnot.1 hinflight
  have hparents : ∀ p, (index.stamped block).parentBlockId = some p → p ∈ index.blocks.keys :=
    fun p hpar => hready.parent_mem hpar
  rw [hok.2 hcached id]
  exact (deviceReclaimableIn_insert hready.fresh h.first hparents hlocal
    (fun hpresent p hpar => hready.parent_device hpresent hpar)
    (fun _ p hpar hin => hnot.2 ⟨p, hpar, hin⟩) id).symm

omit hinserted hok in
/-- Nothing lies below a block that has just been inserted. -/
theorem descends_inserted {d : Id}
    (hd : Descends (parentIn (index.blocks.set block.stableBlockId (index.stamped block)))
      (index.blocks.set block.stableBlockId (index.stamped block)).keys d block.stableBlockId) :
    d = block.stableBlockId := by
  rcases hd.eq_or_below_child with heq | ⟨c, hc, hpar, -⟩
  · exact heq
  · exfalso
    apply hready.fresh
    rcases Dict.mem_keys_set.mp hc with rfl | hmem
    · rw [parentIn_set_self] at hpar
      exact hready.parent_mem hpar
    · rw [parentIn_set_new hready.fresh hmem] at hpar
      exact h.first.parent_mem hmem hpar

/-- The cached answer after a stale insertion is wrong. -/
theorem Inserted.reclaimable_stale (hstale : StaleInsert index block) :
    next.deviceReclaimableCacheEpoch = next.capacityEpoch ∧
      ¬ ∀ id, id ∈ next.deviceReclaimableBlockIdsCache ↔ DeviceReclaimableIn true next.blocks id := by
  have hcaches := hinserted.caches
  simp only [RadixPrefixIndex.caches, Prod.mk.injEq] at hcaches
  obtain ⟨-, -, -, hre, hr⟩ := hcaches
  have hunchanged := (capacityChanged_eq_false_iff hready hinserted).mpr ⟨hstale.blockedBlock, hstale.blockedParent⟩
  have hepoch := hinserted.epoch
  rw [if_neg (by rw [hunchanged]; exact Bool.false_ne_true), add_zero] at hepoch
  refine ⟨by rw [hre, hepoch, hstale.cached], fun hall => ?_⟩
  rw [hr, hinserted.blocks] at hall
  have hcache := hok.2 hstale.cached
  have hget : (index.blocks.set block.stableBlockId (index.stamped block)).get?
      block.stableBlockId = some (index.stamped block) := Dict.get?_set_self _ _ _
  by_cases hself : InflightReclaimable block
  · -- the new block joins the set
    have hpresent := hready.present_of_inflight hself
    have hlocal : LocallyFreeable true (index.stamped block) :=
      ⟨hself.1, hself.2.1, hpresent, Or.inr ⟨rfl, hself.2.2⟩⟩
    have hjoins : DeviceReclaimableIn true
        (index.blocks.set block.stableBlockId (index.stamped block)) block.stableBlockId := by
      refine ⟨⟨_, hget, hpresent⟩, fun d hd _ => ?_⟩
      rw [descends_inserted h hready hd]
      exact ⟨_, hget, hlocal⟩
    have hmem := (hcache _).mp ((hall _).mpr hjoins)
    exact hready.fresh hmem.1.mem_keys
  · -- the parent leaves the set
    obtain ⟨p, hp, hin⟩ := hstale.inflight.resolve_left hself
    obtain ⟨parent, hpget, hplocal⟩ := hin.2 p (Descends.refl p) hin.1
    have hpidle : ¬ Idle parent := fun hidle =>
      hstale.blockedParent p hp ⟨parent, hpget, hidle⟩
    have hphost : parent.residency.hostPresent = false :=
      (((validate_ok_iff _).mp (h.valid _ _ hpget)).2.1 (hplocal.inflight hpidle).2.2).2
    have hpresent : block.residency.devicePresent = true := by
      rcases ((validate_ok_iff _).mp hready.valid).1 with hdevice | hhost
      · exact hdevice
      · obtain ⟨other, hother, -, hneed⟩ := checkInsertParent_ok_iff.mp hready.parent p hp
        obtain rfl : parent = other := by simpa [hpget] using hother
        have := hneed hhost
        rw [hphost] at this
        cases this
    have hstill := (hall p).mp ((hcache p).mpr hin)
    have hbelow : Descends (parentIn (index.blocks.set block.stableBlockId (index.stamped block)))
        (index.blocks.set block.stableBlockId (index.stamped block)).keys block.stableBlockId p :=
      Descends.of_parent (Dict.mem_keys_set.mpr (Or.inl rfl)) (by rw [parentIn_set_self]; exact hp)
    obtain ⟨other, hother, hlocal⟩ := hstill.2 _ hbelow ⟨_, hget, hpresent⟩
    obtain rfl : index.stamped block = other := by simpa [hget] using hother
    have hinflight : InflightReclaimable (index.stamped block) :=
      hlocal.inflight hstale.blockedBlock
    exact hself hinflight

end

end

/-! ## `_remove_block_from_index` -/

section

variable {index : RadixPrefixIndex Id Payload} {x : Id}

theorem parentsFirst_erase {blocks : Dict Id (PrefixCacheBlock Id Payload)}
    (hfirst : ParentsFirst (parentIn blocks) blocks.keys)
    (hchildless : ∀ c ∈ blocks.keys, parentIn blocks c ≠ some x) :
    ParentsFirst (parentIn (blocks.erase x)) (blocks.erase x).keys := by
  rw [Dict.keys_erase]
  refine (hfirst.filter fun y hy _ p hp => ?_).congr fun y hy => parentIn_erase_of_ne ?_
  · have hne : p ≠ x := by
      rintro rfl
      exact hchildless y hy hp
    simpa using hne
  · simpa using (List.mem_filter.mp hy).2

theorem Contiguous.erase {present : PrefixCacheBlock Id Payload → Bool}
    {blocks : Dict Id (PrefixCacheBlock Id Payload)} (h : Contiguous present blocks)
    (hchildless : ∀ c ∈ blocks.keys, parentIn blocks c ≠ some x) :
    Contiguous present (blocks.erase x) := by
  intro id p hid hp
  obtain ⟨child, hchild, hin⟩ := hid
  rw [Dict.get?_erase] at hchild
  split at hchild
  · cases hchild
  · next hidx =>
      rw [parentIn_erase_of_ne hidx] at hp
      obtain ⟨parent, hparent, hpin⟩ := h id p ⟨child, hchild, hin⟩ hp
      have hpx : p ≠ x := by
        rintro rfl
        exact hchildless id (Dict.mem_keys_of_get? hchild) hp
      exact ⟨parent, by rw [Dict.get?_erase, if_neg hpx, hparent], hpin⟩

/-- **`_remove_block_from_index`** of a block its checks let through. -/
theorem removeBlockFromIndex_ready (h : Inv index) {block : PrefixCacheBlock Id Payload}
    (hremovable : Removable index.blocks x block) :
    ∃ next, removeBlockFromIndex x index = (.ok block, next) ∧ Moves index next ∧
      next.blocks = index.blocks.erase x := by
  have hget := hremovable.indexed
  have hid : block.stableBlockId = x := h.ids _ _ hget
  have hx := Dict.mem_keys_of_get? hget
  have hfirst := parentsFirst_erase h.first hremovable.childless
  have hkeys : (index.blocks.erase x).keys = index.blocks.keys.filter fun q => q ≠ x :=
    Dict.keys_erase _ _
  -- the radix tree
  obtain ⟨children, -, -, hcount, hchildren⟩ := h.tree.childBlockIds_eq hx
  have hnone : children = [] := by
    rw [List.eq_nil_iff_forall_not_mem]
    intro c hc
    obtain ⟨hmem, hpar⟩ := (hchildren c).mp hc
    exact hremovable.childless c hmem hpar
  have hcount' : index.childCount x = .ok 0 := by
    rw [childCount, hcount, hnone]
    rfl
  obtain ⟨backend, hbackend, htree⟩ := removeBlock_of_childless h.tree hx hremovable.childless
  have htree' : Represents backend (parentIn (index.blocks.erase x)) (index.blocks.erase x).keys := by
    rw [hkeys]
    refine htree.congr_parent fun id hid => parentIn_erase_of_ne ?_
    simpa using (List.mem_filter.mp hid).2
  -- the freeable set
  obtain ⟨freeableIds, tallies, htrack, htracked⟩ := @trackRemoved_spec _ _ _
    { index with backend := backend, blocks := index.blocks.erase x } index.blocks block
    (by rw [hid]) (hid ▸ hget) h.first hfirst h.tracked
  dsimp only at htrack
  -- the routing set
  obtain ⟨routing, hrouting, hholds⟩ := h.routing.remove index.blocks.keys_nodup hx
  refine ⟨{ index with
      backend := backend
      blocks := index.blocks.erase x
      freeableIds := freeableIds
      blockedFreeableChildren := tallies
      routingMembership := routing
      routingSnapshotCache := none
      removeEpoch := index.removeEpoch + 1
      lookupEpoch := index.lookupEpoch + 1
      capacityEpoch := index.capacityEpoch + 1
      mutationEpoch := index.mutationEpoch + 1 }, ?_, ?_, rfl⟩
  · simp only [removeBlockFromIndex, bind_apply, read_apply, hget, raiseIf_apply,
      hremovable.unreferenced, ne_eq, not_true, if_false, not_lt.mpr hremovable.priority,
      hremovable.quiet, ofExcept_apply, hcount', onBackend, hbackend, write_apply, htrack,
      recordRoutingRemove, hrouting, pure_apply, markRemoved, markCapacityMutated]
  · apply Moves.ofStep
    · refine ⟨fun id other hother => ?_, hfirst, htree', ?_, by simp, htracked,
        fun id other hother => ?_, Contiguous.erase h.device hremovable.childless,
        Contiguous.erase h.host hremovable.childless⟩
      · rw [Dict.get?_erase] at hother
        split at hother
        · cases hother
        · exact h.ids id other hother
      · show routing.Holds (index.blocks.erase x).keys
        rw [hkeys]
        exact hholds
      · rw [Dict.get?_erase] at hother
        split at hother
        · cases hother
        · exact h.valid id other hother
    · exact Or.inr ⟨[block], .cons hremovable (.nil _)⟩
    · rfl
    · rfl
    · refine ⟨rfl, ?_, fun heq => ?_⟩
      · show index.capacityEpoch ≤ index.capacityEpoch + 1
        omega
      · have : index.capacityEpoch + 1 = index.capacityEpoch := heq
        omega

/-- **`_remove_block_from_index`** refuses everything else. -/
theorem removeBlockFromIndex_refused (h : Inv index) (hrefused : ∀ block, ¬ Removable index.blocks x block) :
    ∃ error, removeBlockFromIndex x index = (.error error, index) := by
  cases hget : index.blocks.get? x with
  | none =>
      simp only [removeBlockFromIndex, bind_apply, read_apply, hget, raise_apply]
      exact ⟨_, rfl⟩
  | some block =>
      have hx := Dict.mem_keys_of_get? hget
      obtain ⟨children, -, -, hcount, hchildren⟩ := h.tree.childBlockIds_eq hx
      have hcount' : index.childCount x = .ok children.length := hcount
      by_cases href : block.refCount = 0
      swap
      · simp only [removeBlockFromIndex, bind_apply, read_apply, hget, raiseIf_apply, href, ne_eq,
          not_false_eq_true, if_true]
        exact ⟨_, rfl⟩
      by_cases hpriority : block.evictionPriority < 0
      · simp only [removeBlockFromIndex, bind_apply, read_apply, hget, raiseIf_apply, href, ne_eq,
          not_true, if_false, hpriority, if_true]
        exact ⟨_, rfl⟩
      by_cases hquiet : block.residency.transfer = none
      swap
      · simp only [removeBlockFromIndex, bind_apply, read_apply, hget, raiseIf_apply, href, ne_eq,
          not_true, if_false, hpriority, hquiet, not_false_eq_true, if_true]
        exact ⟨_, rfl⟩
      have hlength : children.length ≠ 0 := by
        intro hzero
        refine hrefused block ⟨hget, href, not_lt.mp hpriority, hquiet, fun c hc hpar => ?_⟩
        have hmem := (hchildren c).mpr ⟨hc, hpar⟩
        rw [List.length_eq_zero_iff.mp hzero] at hmem
        cases hmem
      simp only [removeBlockFromIndex, bind_apply, read_apply, hget, raiseIf_apply, href, ne_eq,
        not_true, if_false, hpriority, hquiet, ofExcept_apply, hcount', hlength, not_false_eq_true,
        if_true]
      exact ⟨_, rfl⟩

end

end RadixPrefixIndex
