import SparseEngine.PrefixIndex.Tracking
import SparseEngine.RadixTree.Refinement

/-!
# The capacity scans

What the from-scratch scans of the index compute.  `buildFreeable`,
`scanDeviceReclaimable` and the start of `demote_device_until_weight` all
count the children of every block first and then peel leaves, so all three go
through `PeelInv`; they differ in the blocks they look at (all of them, or the
device-present ones) and in what they call good.
-/

namespace RadixPrefixIndex

open Routine Forest

variable {Id Payload : Type} [LinearOrder Id]

/-! ## What the capacity sets mean -/

/-- The block is indexed and has a device payload. -/
def DeviceIn (blocks : Dict Id (PrefixCacheBlock Id Payload)) (id : Id) : Prop :=
  ∃ block, blocks.get? id = some block ∧ block.residency.devicePresent = true

/-- The block is indexed and has a published host payload. -/
def HostIn (blocks : Dict Id (PrefixCacheBlock Id Payload)) (id : Id) : Prop :=
  ∃ block, blocks.get? id = some block ∧ block.residency.hostPresent = true

/-- The block is indexed and locally freeable. -/
def LocallyFreeableIn (includeInflightD2h : Bool) (blocks : Dict Id (PrefixCacheBlock Id Payload))
    (id : Id) : Prop :=
  ∃ block, blocks.get? id = some block ∧ LocallyFreeable includeInflightD2h block

/-- The block and everything below it are idle. -/
def FreeableIn (blocks : Dict Id (PrefixCacheBlock Id Payload)) (id : Id) : Prop :=
  id ∈ blocks.keys ∧ ∀ d, Descends (parentIn blocks) blocks.keys d id → IdleIn blocks d

/-- The block is idle and has no child. -/
def EvictableIn (blocks : Dict Id (PrefixCacheBlock Id Payload)) (id : Id) : Prop :=
  IdleIn blocks id ∧ ∀ c ∈ blocks.keys, parentIn blocks c ≠ some id

/-- The block is device-present, and it and everything device-present below it
are locally freeable. -/
def DeviceReclaimableIn (includeInflightD2h : Bool)
    (blocks : Dict Id (PrefixCacheBlock Id Payload)) (id : Id) : Prop :=
  DeviceIn blocks id ∧ ∀ d, Descends (parentIn blocks) blocks.keys d id → DeviceIn blocks d →
    LocallyFreeableIn includeInflightD2h blocks d

/-! ## Counters -/

/-- The counter of a block, `0` for a block without one. -/
def tally (children : Dict Id ℤ) (id : Id) : ℤ := (children.get? id).getD 0

variable {children : Dict Id ℤ} {id : Id}

theorem tally_of_get? {count : ℤ} (h : children.get? id = some count) :
    tally children id = count := by
  rw [tally, h]
  rfl

theorem tally_set (children : Dict Id ℤ) (p : Id) (count : ℤ) :
    tally (children.set p count) = Function.update (tally children) p count := by
  funext id
  rw [tally, Dict.get?_set, Function.update_apply]
  split <;> rfl

/-- The blocks with a zero counter, as the scans collect them. -/
theorem mem_pending_iff :
    id ∈ ((children.entries.filter fun entry => entry.2 = 0).map Prod.fst).reverse ↔
      id ∈ children.keys ∧ tally children id = 0 := by
  rw [List.mem_reverse]
  simp only [List.mem_map, List.mem_filter, decide_eq_true_eq]
  constructor
  · rintro ⟨⟨key, count⟩, ⟨hmem, hzero⟩, rfl⟩
    have hget := Dict.get?_eq_some_iff.mpr hmem
    exact ⟨Dict.mem_keys_of_get? hget, (tally_of_get? hget).trans hzero⟩
  · rintro ⟨hmem, hzero⟩
    obtain ⟨count, hget⟩ := Dict.mem_keys_iff.mp hmem
    exact ⟨(id, count), ⟨Dict.get?_eq_some_iff.mp hget, (tally_of_get? hget).symm.trans hzero⟩, rfl⟩

omit [LinearOrder Id] in
theorem pending_nodup (children : Dict Id ℤ) :
    ((children.entries.filter fun entry => entry.2 = 0).map Prod.fst).reverse.Nodup := by
  rw [List.nodup_reverse]
  exact children.nodup_keys.sublist (List.filter_sublist.map Prod.fst)

/-! ## Counting children -/

theorem countParent_ok {parentBlockId : Option Id} (hparent : ∀ p ∈ parentBlockId, p ∈ children.keys) :
    ∃ next, countParent children parentBlockId = .ok next ∧ next.keys = children.keys ∧
      ∀ id ∈ children.keys, tally next id = tally children id + if parentBlockId = some id then 1 else 0 := by
  cases parentBlockId with
  | none => exact ⟨children, rfl, rfl, by simp⟩
  | some p =>
      obtain ⟨count, hget⟩ := Dict.mem_keys_iff.mp (hparent p rfl)
      refine ⟨children.set p (count + 1), ?_, Dict.keys_set_of_get? _ hget, fun id _ => ?_⟩
      · simp only [countParent, hget]
      · rw [tally_set, Function.update_apply]
        by_cases hid : id = p
        · subst hid
          simp [tally_of_get? hget]
        · have hsome : ¬ some p = some id := by simpa using fun h => hid h.symm
          rw [if_neg hid, if_neg hsome, add_zero]

/-- The counting loop adds up the children. -/
theorem countParent_foldlM {listed : List (PrefixCacheBlock Id Payload)}
    (hparents : ∀ block ∈ listed, ∀ p ∈ block.parentBlockId, p ∈ children.keys) :
    ∃ next, listed.foldlM (fun children block => countParent children block.parentBlockId)
        children = .ok next ∧ next.keys = children.keys ∧
      ∀ id ∈ children.keys, tally next id =
        tally children id + listed.countP fun block => block.parentBlockId = some id := by
  induction listed generalizing children with
  | nil => exact ⟨children, rfl, rfl, by simp⟩
  | cons block rest ih =>
      obtain ⟨mid, hmid, hkeys, htally⟩ :=
        countParent_ok fun p hp => hparents block List.mem_cons_self p hp
      obtain ⟨next, hnext, hkeys', htally'⟩ := @ih mid fun other hother p hp => by
        rw [hkeys]
        exact hparents other (List.mem_cons_of_mem _ hother) p hp
      refine ⟨next, ?_, hkeys'.trans hkeys, fun id hid => ?_⟩
      · rw [List.foldlM_cons, hmid]
        exact hnext
      · rw [htally' id (hkeys ▸ hid), htally id hid, List.countP_cons]
        by_cases hp : block.parentBlockId = some id
        · simp [hp]
          omega
        · simp [hp]

/-- Counting over the values of a dictionary of blocks. -/
theorem countP_values (blocks part : Dict Id (PrefixCacheBlock Id Payload))
    (hpart : ∀ id block, part.get? id = some block → blocks.get? id = some block) (id : Id) :
    (part.values.countP fun block => block.parentBlockId = some id) =
      blockedChildren (parentIn blocks) part.keys ∅ id := by
  rw [blockedChildren, Dict.values, Dict.keys, List.countP_map, List.countP_map]
  refine List.countP_congr fun entry hentry => ?_
  have hget := hpart entry.1 entry.2 (Dict.get?_eq_some_iff.mpr hentry)
  simp [parentIn_of_get? hget]

/-! ## `freeable_block_ids` -/

section

variable {blocks : Dict Id (PrefixCacheBlock Id Payload)}
  (hfirst : ParentsFirst (parentIn blocks) blocks.keys)

include hfirst

variable {children : Dict Id ℤ}

theorem freeableLoop_spec {fuel : ℕ} {stack : List Id} {freed : Finset Id} (hkeys : children.keys = blocks.keys)
    (hinv : PeelInv (parentIn blocks) blocks.keys (IdleIn blocks) stack freed (tally children))
    (hfuel : PeelInv.measure blocks.keys stack (tally children) < fuel) :
    ∃ freeable next, freeableLoop blocks fuel stack freed children = .ok (freeable, next) ∧ next.keys = blocks.keys ∧
      PeelInv (parentIn blocks) blocks.keys (IdleIn blocks) [] freeable (tally next) := by
  induction fuel generalizing stack freed children with
  | zero => omega
  | succ fuel ih =>
      cases stack with
      | nil => exact ⟨freed, children, rfl, hkeys, hinv⟩
      | cons x stack =>
          obtain ⟨hx, -, -⟩ := hinv.stack_ready x List.mem_cons_self
          obtain ⟨block, hget⟩ := Dict.mem_keys_iff.mp hx
          have hmeasure : PeelInv.measure blocks.keys stack (tally children) < fuel := by
            simp only [PeelInv.measure, List.length_cons] at hfuel ⊢
            omega
          by_cases hidle : Idle block
          · have hgood := (idleIn_iff_of_get? hget).mpr hidle
            have hparent := parentIn_of_get? hget
            cases hp : block.parentBlockId with
            | none =>
                rw [hp] at hparent
                obtain ⟨freeable, next, hrun, hdone⟩ := ih hkeys
                  (hinv.free_root hgood fun q _ => by rw [hparent]; simp) hmeasure
                refine ⟨freeable, next, ?_, hdone⟩
                simp only [freeableLoop, hget, hidle, not_true, if_false, hp, hrun]
            | some p =>
                rw [hp] at hparent
                have hpkey := hfirst.parent_mem hx hparent
                obtain ⟨count, hcount⟩ := Dict.mem_keys_iff.mp (hkeys ▸ hpkey)
                have htally := tally_of_get? hcount
                have hpos := hinv.count_parent_ne_zero hparent hpkey
                have hfree := hinv.free_child blocks.keys_nodup hgood hparent hpkey
                have hpush : PeelInv.pushReady (tally children) p stack =
                    if count - 1 = 0 then p :: stack else stack := by
                  rw [PeelInv.pushReady, htally]
                -- the parent may be pushed, but then its count drops:
                have hle : PeelInv.measure blocks.keys (PeelInv.pushReady (tally children) p stack)
                    (Function.update (tally children) p (tally children p - 1)) ≤
                    PeelInv.measure blocks.keys stack (tally children) :=
                  PeelInv.measure_pushReady_lt blocks.keys_nodup hpkey hpos
                rw [htally, ← tally_set, hpush] at hfree hle
                obtain ⟨freeable, next, hrun, hdone⟩ :=
                  ih ((Dict.keys_set_of_get? _ hcount).trans hkeys) hfree (by omega)
                refine ⟨freeable, next, ?_, hdone⟩
                simp only [freeableLoop, hget, hidle, not_true, if_false, hp, hcount, hrun]
          · have hbad : ¬ IdleIn blocks x := fun h => hidle ((idleIn_iff_of_get? hget).mp h)
            obtain ⟨freeable, next, hrun, hdone⟩ := ih hkeys (hinv.drop hbad) hmeasure
            refine ⟨freeable, next, ?_, hdone⟩
            simp only [freeableLoop, hget, hidle, not_false_eq_true, if_true, hrun]

/-- **The first build** of the freeable set is right. -/
theorem buildFreeable_spec : ∃ freeable children,
    buildFreeable blocks = .ok (freeable, children) ∧ Tracked blocks (some freeable) children := by
  have hzero : ∀ id, tally (blocks.mapValues fun _ _ => (0 : ℤ)) id = 0 := by
    intro id
    rw [tally, Dict.get?_mapValues]
    cases blocks.get? id <;> rfl
  have hparents : ∀ block ∈ blocks.values, ∀ p ∈ block.parentBlockId,
      p ∈ (blocks.mapValues fun _ _ => (0 : ℤ)).keys := by
    intro block hblock p hp
    obtain ⟨id, hget⟩ := Dict.mem_values_iff.mp hblock
    rw [Dict.keys_mapValues]
    exact hfirst.parent_mem (Dict.mem_keys_of_get? hget) ((parentIn_of_get? hget).trans hp)
  obtain ⟨children, hchildren, hkeys, htally⟩ := countParent_foldlM hparents
  rw [Dict.keys_mapValues] at hkeys htally
  have hcounts : ∀ id ∈ blocks.keys, tally children id = blockedChildren (parentIn blocks) blocks.keys ∅ id := by
    intro id hid
    rw [htally id hid, hzero, zero_add, countP_values blocks blocks fun _ _ h => h]
  -- the stack starts with the blocks that have no children:
  have hstack : ∀ id, id ∈ ((children.entries.filter fun entry => entry.2 = 0).map Prod.fst).reverse
      ↔ id ∈ blocks.keys ∧ tally children id = 0 := by
    intro id
    rw [mem_pending_iff, hkeys]
  have hmeasure := PeelInv.measure_start blocks.keys_nodup (pending_nodup children) hstack
  obtain ⟨freeable, next, hrun, hnextKeys, hdone⟩ := freeableLoop_spec hfirst hkeys
    (PeelInv.start hcounts (pending_nodup children) hstack) (Nat.lt_succ_of_le hmeasure.le)
  rw [Dict.length_keys] at hrun
  refine ⟨freeable, next, ?_, fun other h => ?_⟩
  · simp only [buildFreeable, hchildren, bind, Except.bind]
    exact hrun
  obtain rfl : freeable = other := by simpa using h
  refine ⟨⟨fun id hid => (hdone.freed_good id hid).1, fun id hid => ?_, fun id hid => ?_⟩, fun id hid _ => ?_⟩
  · rwa [← Dict.not_mem_keys_iff, hnextKeys]
  · obtain ⟨count, hget⟩ := Dict.mem_keys_iff.mp (hnextKeys ▸ hid)
    rw [hget, ← tally_of_get? hget, hdone.counts id hid]
    rfl
  · have hcount := hdone.counts id hid
    rw [MemberOk]
    constructor
    · intro hmem
      obtain ⟨-, hidle, hzero⟩ := hdone.freed_good id hmem
      exact ⟨by rw [hcount] at hzero; exact_mod_cast hzero, hidle⟩
    · rintro ⟨hblocked, hidle⟩
      have hzero : tally next id = 0 := by
        rw [hcount]
        exact_mod_cast hblocked
      simpa using hdone.ready id hid hzero hidle

/-- **What the freeable set means.** -/
theorem Tracked.mem_iff {freeable : Finset Id} (htracked : Tracked blocks (some freeable) children)
    (id : Id) : id ∈ freeable ↔ FreeableIn blocks id := by
  obtain ⟨hcounts, hmember⟩ := htracked freeable rfl
  have hlocal : ∀ b ∈ blocks.keys, b ∈ freeable ↔
      IdleIn blocks b ∧ ∀ c ∈ blocks.keys, parentIn blocks c = some b → c ∈ freeable := by
    intro b hb
    have hequation := hmember b hb not_false
    rw [MemberOk, blockedIn, blockedChildren_eq_zero_iff] at hequation
    rw [hequation, and_comm]
  constructor
  · intro hmem
    have hid := hcounts.indexed id hmem
    exact ⟨hid, (hereditary_iff hfirst blocks.keys_nodup hlocal hid).mp hmem⟩
  · intro h
    exact (hereditary_iff hfirst blocks.keys_nodup hlocal h.1).mpr h.2

end

/-! ## `_device_reclaimable_block_ids` -/

/-- The device-present blocks, in insertion order. -/
def deviceKeys (blocks : Dict Id (PrefixCacheBlock Id Payload)) : List Id :=
  (blocks.filter fun _ block => block.residency.devicePresent).keys

section

variable {blocks : Dict Id (PrefixCacheBlock Id Payload)}

variable {id : Id} {block : PrefixCacheBlock Id Payload} {includeInflightD2h : Bool}

theorem deviceIn_iff_of_get? (hget : blocks.get? id = some block) :
    DeviceIn blocks id ↔ block.residency.devicePresent = true := by
  simp [DeviceIn, hget]

theorem locallyFreeableIn_iff_of_get? (hget : blocks.get? id = some block) :
    LocallyFreeableIn includeInflightD2h blocks id ↔ LocallyFreeable includeInflightD2h block := by
  simp [LocallyFreeableIn, hget]

theorem mem_deviceKeys_iff : id ∈ deviceKeys blocks ↔ DeviceIn blocks id := by
  rw [deviceKeys, Dict.mem_keys_iff]
  simp only [Dict.get?_filter, Option.filter_eq_some_iff]
  rfl

theorem DeviceIn.mem_keys (h : DeviceIn blocks id) : id ∈ blocks.keys := by
  obtain ⟨block, hget, -⟩ := h
  exact Dict.mem_keys_of_get? hget

omit [LinearOrder Id] in
theorem deviceKeys_nodup (blocks : Dict Id (PrefixCacheBlock Id Payload)) :
    (deviceKeys blocks).Nodup :=
  Dict.keys_nodup _

theorem deviceKeys_eq_filter (blocks : Dict Id (PrefixCacheBlock Id Payload)) :
    deviceKeys blocks = blocks.keys.filter fun id => (blocks.get? id).any fun block =>
      block.residency.devicePresent := by
  rw [deviceKeys, Dict.keys, Dict.filter, Dict.keys, List.filter_map]
  refine congrArg _ (List.filter_congr fun entry hentry => ?_)
  simp [Dict.get?_eq_some_iff.mpr hentry]

/-- The parent of a device-present block is device-present. -/
def DeviceContiguous (blocks : Dict Id (PrefixCacheBlock Id Payload)) : Prop :=
  ∀ id p, DeviceIn blocks id → parentIn blocks id = some p → DeviceIn blocks p

/-- The parent of a host-present block is host-present. -/
def HostContiguous (blocks : Dict Id (PrefixCacheBlock Id Payload)) : Prop :=
  ∀ id p, HostIn blocks id → parentIn blocks id = some p → HostIn blocks p

theorem DeviceContiguous.parentsFirst (hdevice : DeviceContiguous blocks)
    (hfirst : ParentsFirst (parentIn blocks) blocks.keys) :
    ParentsFirst (parentIn blocks) (deviceKeys blocks) := by
  rw [deviceKeys_eq_filter]
  have htest : ∀ id, ((blocks.get? id).any fun block => block.residency.devicePresent) = true ↔
      DeviceIn blocks id := by
    intro id
    cases hget : blocks.get? id <;> simp [DeviceIn, hget]
  refine hfirst.filter fun x _ hpresent p hp => ?_
  rw [htest] at hpresent ⊢
  exact hdevice x p hpresent hp

/-- Above a device-present block everything is device-present, so its ancestors
are the same in both forests. -/
theorem DeviceContiguous.descends_iff (hdevice : DeviceContiguous blocks) {d b : Id} (hd : DeviceIn blocks d) :
    Descends (parentIn blocks) (deviceKeys blocks) d b ↔ Descends (parentIn blocks) blocks.keys d b := by
  constructor
  · intro h
    refine Relation.ReflTransGen.mono ?_ _ _ h
    exact fun _ _ hstep => ⟨(mem_deviceKeys_iff.mp hstep.1).mem_keys, hstep.2⟩
  · intro h
    induction h using Relation.ReflTransGen.head_induction_on with
    | refl => exact Descends.refl b
    | head hstep _ ih =>
        exact Relation.ReflTransGen.head ⟨mem_deviceKeys_iff.mpr hd, hstep.2⟩ (ih (hdevice _ _ hd hstep.2))

section

variable {index : RadixPrefixIndex Id Payload}
  (htree : RadixTreeBackend.Represents index.backend (parentIn index.blocks) index.blocks.keys)

include htree

theorem deviceChildCount_eq {id : Id} (hid : id ∈ index.blocks.keys) :
    index.deviceChildCount id = .ok (blockedChildren (parentIn index.blocks) (deviceKeys index.blocks) ∅ id) := by
  obtain ⟨children, hrun, hnodup, -, hmem⟩ := htree.childBlockIds_eq hid
  have hcount : ∀ test : Id → Bool, (∀ c, test c = true ↔ DeviceIn index.blocks c) →
      children.countP test = blockedChildren (parentIn index.blocks) (deviceKeys index.blocks) ∅ id := by
    intro test htest
    have hperm : (children.filter test).Perm
        ((deviceKeys index.blocks).filter fun c => parentIn index.blocks c = some id) := by
      rw [List.perm_ext_iff_of_nodup (hnodup.filter _) ((deviceKeys_nodup _).filter _)]
      intro c
      rw [List.mem_filter, List.mem_filter, hmem, mem_deviceKeys_iff, decide_eq_true_eq, htest]
      constructor
      · exact fun h => ⟨h.2, h.1.2⟩
      · exact fun h => ⟨⟨h.1.mem_keys, h.2⟩, h.1⟩
    rw [List.countP_eq_length_filter, hperm.length_eq, ← List.countP_eq_length_filter, blockedChildren]
    simp
  simp only [deviceChildCount, hrun, bind, Except.bind, pure, Except.pure]
  rw [hcount]
  intro c
  cases hget : index.blocks.get? c <;> simp [DeviceIn, hget]

/-- The comprehension counts the device-present children of every device-present
block. -/
theorem countDeviceChildren_eq : ∃ children, index.countDeviceChildren = .ok children ∧
    (∀ id, id ∈ children.keys ↔ id ∈ deviceKeys index.blocks) ∧
    ∀ id ∈ deviceKeys index.blocks, tally children id =
      blockedChildren (parentIn index.blocks) (deviceKeys index.blocks) ∅ id := by
  obtain ⟨Listed, hListed⟩ : ∃ Listed : List (Id × PrefixCacheBlock Id Payload) → Id → Prop,
      ∀ listed id, Listed listed id ↔ ∃ entry ∈ listed, entry.1 = id ∧ entry.2.residency.devicePresent = true :=
    ⟨_, fun _ _ => Iff.rfl⟩
  -- the loop writes one entry for each listed block on the device:
  have hloop : ∀ (listed : List (Id × PrefixCacheBlock Id Payload)) (start : Dict Id ℤ),
      (∀ entry ∈ listed, entry.1 ∈ index.blocks.keys) →
      ∃ children, listed.foldlM (fun children entry =>
          if entry.2.residency.devicePresent then do
            return children.set entry.1 ((← index.deviceChildCount entry.1 : ℕ) : ℤ)
          else return children) start = Except.ok (ε := PyError) children ∧
        ∀ id, (Listed listed id → children.get? id =
            some (blockedChildren (parentIn index.blocks) (deviceKeys index.blocks) ∅ id : ℤ)) ∧
          (¬ Listed listed id → children.get? id = start.get? id) := by
    intro listed
    induction listed with
    | nil => exact fun start _ => ⟨start, rfl, by simp [hListed]⟩
    | cons entry rest ih =>
        intro start hkeys
        have hcount := deviceChildCount_eq htree (hkeys entry List.mem_cons_self)
        have hrest : ∀ other ∈ rest, other.1 ∈ index.blocks.keys := fun other hother =>
          hkeys other (List.mem_cons_of_mem _ hother)
        have hcons : ∀ id, Listed (entry :: rest) id ↔
            (entry.1 = id ∧ entry.2.residency.devicePresent = true) ∨ Listed rest id := by
          intro id
          simp only [hListed, List.mem_cons, exists_eq_or_imp]
        by_cases hpresent : entry.2.residency.devicePresent = true
        · obtain ⟨children, hrun, hget⟩ := ih _ hrest
          refine ⟨children, ?_, fun id => ?_⟩
          · rw [List.foldlM_cons, if_pos hpresent, hcount]
            exact hrun
          · obtain ⟨hin, hout⟩ := hget id
            rw [Dict.get?_set] at hout
            rw [hcons id]
            by_cases hmem : Listed rest id
            · simp [hmem, hin hmem]
            · rw [hout hmem]
              by_cases hid : id = entry.1
              · subst hid
                simp [hpresent]
              · have hid' : ¬ entry.1 = id := fun h => hid h.symm
                simp [hmem, hid, hid']
        · obtain ⟨children, hrun, hget⟩ := ih start hrest
          refine ⟨children, ?_, fun id => ?_⟩
          · rw [List.foldlM_cons, if_neg hpresent]
            exact hrun
          · rw [hcons id]
            simpa [hpresent] using hget id
  obtain ⟨children, hrun, hget⟩ := hloop index.blocks.entries Dict.empty fun entry hentry =>
    Dict.mem_keys_of_get? (Dict.get?_eq_some_iff.mpr hentry)
  -- over all entries these are the keys on the device:
  have hcond : ∀ id, Listed index.blocks.entries id ↔ id ∈ deviceKeys index.blocks := by
    intro id
    rw [hListed, mem_deviceKeys_iff, DeviceIn]
    simp only [Prod.exists, Dict.get?_eq_some_iff]
    constructor
    · rintro ⟨_, block, hmem, rfl, hpresent⟩
      exact ⟨block, hmem, hpresent⟩
    · rintro ⟨block, hmem, hpresent⟩
      exact ⟨id, block, hmem, rfl, hpresent⟩
  refine ⟨children, hrun, fun id => ?_, fun id hid => ?_⟩
  · rw [← Dict.get?_isSome_iff, ← hcond id]
    by_cases hmem : Listed index.blocks.entries id
    · simp [(hget id).1 hmem, hmem]
    · simp [(hget id).2 hmem, hmem]
  · exact tally_of_get? ((hget id).1 ((hcond id).mpr hid))

end

theorem reclaimableLoop_spec {fuel : ℕ} {stack : List Id} {freed : Finset Id} {children : Dict Id ℤ}
    (hkeys : ∀ id, id ∈ children.keys ↔ id ∈ deviceKeys blocks)
    (hinv : PeelInv (parentIn blocks) (deviceKeys blocks)
      (LocallyFreeableIn includeInflightD2h blocks) stack freed (tally children))
    (hfuel : PeelInv.measure (deviceKeys blocks) stack (tally children) < fuel) :
    ∃ count, PeelInv (parentIn blocks) (deviceKeys blocks) (LocallyFreeableIn includeInflightD2h blocks) []
      (reclaimableLoop blocks includeInflightD2h fuel stack freed children) count := by
  induction fuel generalizing stack freed children with
  | zero => omega
  | succ fuel ih =>
      cases stack with
      | nil => exact ⟨tally children, hinv⟩
      | cons x stack =>
          obtain ⟨hx, hfresh, -⟩ := hinv.stack_ready x List.mem_cons_self
          obtain ⟨block, hget, -⟩ := mem_deviceKeys_iff.mp hx
          have hmeasure : PeelInv.measure (deviceKeys blocks) stack (tally children) < fuel := by
            simp only [PeelInv.measure, List.length_cons] at hfuel ⊢
            omega
          by_cases hlocal : LocallyFreeable includeInflightD2h block
          · have hgood := (locallyFreeableIn_iff_of_get? hget).mpr hlocal
            have hskip : ¬ (x ∈ freed ∨ ¬ LocallyFreeable includeInflightD2h block) := by
              rintro (h | h)
              exacts [hfresh h, h hlocal]
            have hparent := parentIn_of_get? hget
            -- a freed block releases its parent, if the parent is on the device
            by_cases hroot : ∃ p ∈ deviceKeys blocks, parentIn blocks x = some p
            · obtain ⟨p, hpkey, hp⟩ := hroot
              obtain ⟨count, hcount⟩ := Dict.mem_keys_iff.mp ((hkeys p).mpr hpkey)
              have htally := tally_of_get? hcount
              have hpos := hinv.count_parent_ne_zero hp hpkey
              have hfree := hinv.free_child (deviceKeys_nodup blocks) hgood hp hpkey
              have hpush : PeelInv.pushReady (tally children) p stack =
                  if count - 1 = 0 then p :: stack else stack := by
                rw [PeelInv.pushReady, htally]
              -- the parent may be pushed, but then its count drops:
              have hle : PeelInv.measure (deviceKeys blocks) (PeelInv.pushReady (tally children) p stack)
                  (Function.update (tally children) p (tally children p - 1)) ≤
                  PeelInv.measure (deviceKeys blocks) stack (tally children) :=
                PeelInv.measure_pushReady_lt (deviceKeys_nodup blocks) hpkey hpos
              rw [htally, ← tally_set, hpush] at hfree hle
              have hsame := Dict.keys_set_of_get? (count - 1) hcount
              obtain ⟨last, hdone⟩ := ih (fun id => by rw [hsame, hkeys id]) hfree (by omega)
              refine ⟨last, ?_⟩
              rw [hparent] at hp
              simpa only [reclaimableLoop, hget, if_neg hskip, hp, Option.bind_some, hcount,
                Option.map_some] using hdone
            · have hnone : (block.parentBlockId.bind fun parentId =>
                  (children.get? parentId).map fun count => (parentId, count)) = none := by
                rw [← hparent]
                cases hp : parentIn blocks x with
                | none => rfl
                | some p =>
                    have hmissing : p ∉ children.keys := fun hmem =>
                      hroot ⟨p, (hkeys p).mp hmem, hp⟩
                    rw [Option.bind_some, Dict.not_mem_keys_iff.mp hmissing]
                    rfl
              obtain ⟨last, hdone⟩ := ih hkeys (hinv.free_root hgood fun q hq hp => hroot ⟨q, hq, hp⟩) hmeasure
              refine ⟨last, ?_⟩
              simpa only [reclaimableLoop, hget, if_neg hskip, hnone] using hdone
          · -- a block that is held stays, and blocks all above it
            have hbad : ¬ LocallyFreeableIn includeInflightD2h blocks x := fun h =>
              hlocal ((locallyFreeableIn_iff_of_get? hget).mp h)
            have hskip : x ∈ freed ∨ ¬ LocallyFreeable includeInflightD2h block := Or.inr hlocal
            obtain ⟨last, hdone⟩ := ih hkeys (hinv.drop hbad) hmeasure
            refine ⟨last, ?_⟩
            simpa only [reclaimableLoop, hget, if_pos hskip] using hdone

end

/-- **The device scan** finds the device-present blocks whose device-present
descendants are all locally freeable. -/
theorem scanDeviceReclaimable_eq {index : RadixPrefixIndex Id Payload}
    (htree : RadixTreeBackend.Represents index.backend (parentIn index.blocks) index.blocks.keys)
    (hfirst : ParentsFirst (parentIn index.blocks) index.blocks.keys)
    (hdevice : DeviceContiguous index.blocks) (includeInflightD2h : Bool) :
    ∃ result, index.scanDeviceReclaimable includeInflightD2h = .ok result ∧
      ∀ id, id ∈ result ↔ DeviceReclaimableIn includeInflightD2h index.blocks id := by
  obtain ⟨children, hchildren, hkeys, hcounts⟩ := countDeviceChildren_eq htree
  have hstack : ∀ id, id ∈ ((children.entries.filter fun entry => entry.2 = 0).map Prod.fst).reverse
      ↔ id ∈ deviceKeys index.blocks ∧ tally children id = 0 := by
    intro id
    rw [mem_pending_iff, hkeys]
  have hmeasure := PeelInv.measure_start (deviceKeys_nodup index.blocks) (pending_nodup children) hstack
  have hlen : (deviceKeys index.blocks).length ≤ index.blocks.size := by
    rw [deviceKeys_eq_filter, ← Dict.length_keys]
    exact List.length_filter_le _ _
  obtain ⟨count, hdone⟩ := @reclaimableLoop_spec _ _ _ index.blocks includeInflightD2h
    (index.blocks.size + 1) _ _ _ hkeys
    (PeelInv.start hcounts (pending_nodup children) hstack) (by omega)
  have hrun : index.scanDeviceReclaimable includeInflightD2h = .ok
      (reclaimableLoop index.blocks includeInflightD2h (index.blocks.size + 1)
        ((children.entries.filter fun entry => entry.2 = 0).map Prod.fst).reverse ∅ children) := by
    simp only [scanDeviceReclaimable, hchildren, bind, Except.bind, pure, Except.pure]
  refine ⟨_, hrun, fun id => ?_⟩
  rw [hdone.freed_iff (hdevice.parentsFirst hfirst) (deviceKeys_nodup _), mem_deviceKeys_iff]
  refine and_congr_right fun hid => forall_congr' fun d => ?_
  constructor
  · exact fun h hd hpresent => h ((hdevice.descends_iff hpresent).mpr hd)
  · intro h hd
    have hpresent := mem_deviceKeys_iff.mp (hd.mem (mem_deviceKeys_iff.mpr hid))
    exact h ((hdevice.descends_iff hpresent).mp hd) hpresent

/-- **The leaf scan** of `evictable_block_ids`. -/
theorem mem_evictable_iff {index : RadixPrefixIndex Id Payload}
    (htree : RadixTreeBackend.Represents index.backend (parentIn index.blocks) index.blocks.keys) (id : Id) :
    id ∈ (index.backend.leafBlockIds.filter fun blockId =>
        (index.blocks.get? blockId).any fun block => Idle block) ↔
      EvictableIn index.blocks id := by
  rw [Finset.mem_filter, htree.mem_leaves_iff, EvictableIn]
  cases hget : index.blocks.get? id with
  | none => simp [IdleIn, hget]
  | some block =>
      simp only [idleIn_iff_of_get? hget, Dict.mem_keys_of_get? hget, Option.any_some, true_and, decide_eq_true_eq]
      exact and_comm

end RadixPrefixIndex
