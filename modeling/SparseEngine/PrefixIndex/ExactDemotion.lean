import SparseEngine.PrefixIndex.ExactEviction

/-!
# What a demotion takes

`demote_device_until_weight` counts the device-present children itself and
keeps its heap in step with the blocks that are host-backed and have none
left.  Its rounds are a run of `Pruned` over the device-present blocks, in the
forest in which `device_freeable_block_ids` looks at them
(`deviceReclaimableIn_iff_prunable`): so it demotes only what that query
promises, and all of it when it is asked for as much.
-/

namespace RadixPrefixIndex

open Routine Forest

variable {Id Payload : Type} [LinearOrder Id]

/-! ## Demotable blocks -/

/-- The block is host-backed, and no device-present block is a child of it. -/
def DemotableIn (blocks : Dict Id (PrefixCacheBlock Id Payload)) (id : Id) : Prop :=
  ∃ block, blocks.get? id = some block ∧ HostBacked block ∧
    ∀ c, DeviceIn blocks c → parentIn blocks c ≠ some id

omit [LinearOrder Id] in
theorem hostBacked_iff (block : PrefixCacheBlock Id Payload) :
    HostBacked block ↔ LocallyFreeable false block := by
  simp [HostBacked, LocallyFreeable]

section

variable {blocks : Dict Id (PrefixCacheBlock Id Payload)} {x : Id}
  {block : PrefixCacheBlock Id Payload}

theorem demotableIn_iff_goodLeaf (id : Id) : DemotableIn blocks id ↔
    GoodLeaf (parentIn blocks) (LocallyFreeableIn false blocks) (deviceKeys blocks) id := by
  constructor
  · rintro ⟨block, hget, hbacked, hchildless⟩
    refine ⟨mem_deviceKeys_iff.mpr ⟨block, hget, hbacked.2.2.1⟩,
      ⟨block, hget, (hostBacked_iff block).mp hbacked⟩, fun c hc => ?_⟩
    exact hchildless c (mem_deviceKeys_iff.mp hc)
  · rintro ⟨-, ⟨block, hget, hlocal⟩, hchildless⟩
    refine ⟨block, hget, (hostBacked_iff block).mpr hlocal, fun c hc => ?_⟩
    exact hchildless c (mem_deviceKeys_iff.mpr hc)

/-- What `device_freeable_block_ids` reports can be reached leaf by leaf. -/
theorem deviceReclaimableIn_iff_prunable (hdevice : DeviceContiguous blocks) (id : Id) :
    DeviceReclaimableIn false blocks id ↔
      Prunable (parentIn blocks) (LocallyFreeableIn false blocks) (deviceKeys blocks) id := by
  rw [DeviceReclaimableIn, Prunable, mem_deviceKeys_iff]
  refine and_congr_right fun hid => forall_congr' fun d => ?_
  constructor
  · intro h hd
    have hpresent := mem_deviceKeys_iff.mp (hd.mem (mem_deviceKeys_iff.mpr hid))
    exact h ((hdevice.descends_iff hpresent).mp hd) hpresent
  · exact fun h hd hpresent => h ((hdevice.descends_iff hpresent).mpr hd)

theorem parentIn_demoted (hget : blocks.get? x = some block) :
    parentIn (blocks.set x (demotedBlock block)) = parentIn blocks :=
  parentIn_set hget rfl

/-- **A demotion** takes its block off the demotable ones, and brings at most
the parent to them. -/
theorem demotableIn_demoted_iff (hget : blocks.get? x = some block) (id : Id) :
    DemotableIn (blocks.set x (demotedBlock block)) id ↔
      (DemotableIn blocks id ∧ id ≠ x) ∨
        (parentIn blocks x = some id ∧ DemotableIn (blocks.set x (demotedBlock block)) id) := by
  have hparents := parentIn_demoted hget
  constructor
  · intro hdemotable
    have ⟨other, hother, hbacked, hchildless⟩ := hdemotable
    have hid : id ≠ x := by
      rintro rfl
      rw [Dict.get?_set_self] at hother
      obtain rfl := Option.some.inj hother
      simpa [demotedBlock] using hbacked.2.2.1
    by_cases hparent : parentIn blocks x = some id
    · exact Or.inr ⟨hparent, hdemotable⟩
    · rw [Dict.get?_set_of_ne _ _ hid] at hother
      refine Or.inl ⟨⟨other, hother, hbacked, fun c hc hcp => ?_⟩, hid⟩
      have hcx : c ≠ x := by
        rintro rfl
        exact hparent hcp
      refine hchildless c ((deviceIn_demoted_iff c).mpr ⟨hcx, hc⟩) ?_
      rw [hparents]
      exact hcp
  · rintro (⟨⟨other, hother, hbacked, hchildless⟩, hid⟩ | ⟨-, hdemotable⟩)
    · refine ⟨other, by rw [Dict.get?_set_of_ne _ _ hid, hother], hbacked, fun c hc => ?_⟩
      rw [hparents]
      exact hchildless c ((deviceIn_demoted_iff c).mp hc).2
    · exact hdemotable

end

/-- The test of the loop, with its counters right. -/
theorem passes_demotable_iff {index : RadixPrefixIndex Id Payload} {children : Dict Id ℤ}
    (h : Inv index) (hcounts : DemotionCounts index.blocks children) (id : Id) :
    Passes index (demotable children) id ↔ DemotableIn index.blocks id := by
  refine exists_congr fun block => and_congr_right fun hget => ?_
  have hid := h.ids id block hget
  by_cases hbacked : HostBacked block
  · have hcount := hcounts id ⟨block, hget, hbacked.2.2.1⟩
    rw [← hid] at hcount
    rw [demotable_of_backed hbacked hcount, hid, and_iff_right hbacked]
    have hzero : blockedChildren (parentIn index.blocks) (deviceKeys index.blocks) ∅ id = 0 ↔
        ∀ c, DeviceIn index.blocks c → parentIn index.blocks c ≠ some id := by
      rw [blockedChildren_eq_zero_iff]
      refine forall_congr' fun c => ?_
      rw [mem_deviceKeys_iff]
      simp
    rw [← hzero]
    simp
  · rw [demotable_of_not hbacked]
    simp [hbacked]

/-! ## Demoting leaves, again and again -/

/-- The listed blocks lose their device payloads one after the other, each one
demotable at its turn. -/
inductive DemotesLeaves : Dict Id (PrefixCacheBlock Id Payload) →
    List (PrefixCacheBlock Id Payload) → Dict Id (PrefixCacheBlock Id Payload) → Prop
  | nil (blocks : Dict Id (PrefixCacheBlock Id Payload)) : DemotesLeaves blocks [] blocks
  | cons {blocks next : Dict Id (PrefixCacheBlock Id Payload)}
      {block : PrefixCacheBlock Id Payload} {rest : List (PrefixCacheBlock Id Payload)}
      (indexed : blocks.get? block.stableBlockId = some block)
      (ready : DemotableIn blocks block.stableBlockId)
      (tail : DemotesLeaves (blocks.set block.stableBlockId (demotedBlock block)) rest next) :
      DemotesLeaves blocks (demotedBlock block :: rest) next

section

variable {blocks next : Dict Id (PrefixCacheBlock Id Payload)}
  {demoted : List (PrefixCacheBlock Id Payload)}

section

variable (h : DemotesLeaves blocks demoted next)

include h

theorem DemotesLeaves.parentIn_eq : parentIn next = parentIn blocks := by
  induction h with
  | nil => rfl
  | cons hget _ _ ih => rw [ih, parentIn_demoted hget]

/-- A demotion is a removal of leaves of the device-present forest. -/
theorem DemotesLeaves.pruned :
    Pruned (parentIn blocks) (LocallyFreeableIn false blocks) (deviceKeys blocks)
      (demoted.map (·.stableBlockId)) (deviceKeys next) := by
  induction h with
  | nil => exact Pruned.nil _
  | @cons blocks next block rest hget hready _ ih =>
      refine Pruned.cons ((demotableIn_iff_goodLeaf _).mp hready) ?_
      rw [deviceKeys_demoted hget] at ih
      refine ih.congr (fun c hc => ?_) fun c hc => ?_
      · rw [parentIn_demoted hget]
      · have hne : c ≠ block.stableBlockId := by simpa using (List.mem_filter.mp hc).2
        simp [LocallyFreeableIn, hne]

/-- The other blocks are as they were. -/
theorem DemotesLeaves.get?_eq {id : Id} (hid : id ∉ demoted.map (·.stableBlockId)) :
    next.get? id = blocks.get? id := by
  induction h with
  | nil => rfl
  | @cons blocks next block rest _ _ _ ih =>
      rw [List.map_cons, List.mem_cons, not_or] at hid
      have hne : id ≠ block.stableBlockId := hid.1
      rw [ih hid.2, Dict.get?_set_of_ne _ _ hne]

/-- A demoted block has lost its device payload, and nothing else. -/
theorem DemotesLeaves.get?_demoted {id : Id} (hid : id ∈ demoted.map (·.stableBlockId)) :
    ∃ block, blocks.get? id = some block ∧ next.get? id = some (demotedBlock block) := by
  induction h with
  | nil => cases hid
  | @cons blocks next block rest hget hready htail ih =>
      by_cases hrest : id ∈ rest.map (·.stableBlockId)
      · obtain ⟨other, hother, hnext⟩ := ih hrest
        have hne : id ≠ block.stableBlockId := by
          rintro rfl
          have hmem := htail.pruned.mem_keys hrest
          rw [mem_deviceKeys_iff, deviceIn_demoted_iff] at hmem
          exact hmem.1 rfl
        rw [Dict.get?_set_of_ne _ _ hne] at hother
        exact ⟨other, hother, hnext⟩
      · rw [List.map_cons, List.mem_cons] at hid
        obtain rfl := hid.resolve_right hrest
        refine ⟨block, hget, ?_⟩
        rw [htail.get?_eq hrest]
        exact Dict.get?_set_self _ _ _

/-- **What is device-freeable afterwards** is what was device-freeable and has
not been demoted. -/
theorem DemotesLeaves.deviceReclaimableIn_iff (hdevice : DeviceContiguous blocks)
    (hnext : DeviceContiguous next) (id : Id) :
    DeviceReclaimableIn false next id ↔ DeviceReclaimableIn false blocks id ∧ id ∉ demoted.map (·.stableBlockId) := by
  rw [deviceReclaimableIn_iff_prunable hnext, deviceReclaimableIn_iff_prunable hdevice, ← h.pruned.prunable_iff]
  refine Prunable.congr (fun c _ => by rw [h.parentIn_eq]) (fun c hc => ?_) id
  rw [h.pruned.left_eq] at hc
  have hnot : c ∉ demoted.map (·.stableBlockId) := by simpa using (List.mem_filter.mp hc).2
  rw [LocallyFreeableIn, LocallyFreeableIn, h.get?_eq hnot]

/-- When nothing is demotable any more, all device-freeable blocks have been
demoted. -/
theorem DemotesLeaves.mem_iff_of_stuck (hfirst : ParentsFirst (parentIn next) next.keys)
    (hdevice : DeviceContiguous blocks) (hnext : DeviceContiguous next)
    (hstuck : ∀ id, ¬ DemotableIn next id) (id : Id) :
    id ∈ demoted.map (·.stableBlockId) ↔ DeviceReclaimableIn false blocks id := by
  refine ⟨fun hid => ?_, fun hid => ?_⟩
  · rw [deviceReclaimableIn_iff_prunable hdevice]
    exact h.pruned.prunable hid
  · by_contra hnot
    have hleft := (h.deviceReclaimableIn_iff hdevice hnext id).mpr ⟨hid, hnot⟩
    rw [deviceReclaimableIn_iff_prunable hnext] at hleft
    obtain ⟨x, hleaf⟩ := hleft.exists_leaf (hnext.parentsFirst hfirst) (deviceKeys_nodup next)
    exact hstuck x ((demotableIn_iff_goodLeaf x).mpr hleaf)

end

end

/-! ## The loop -/

/-- The index without its blocks and the epochs that follow them. -/
def bare (index : RadixPrefixIndex Id Payload) : RadixPrefixIndex Id Payload :=
  { index with blocks := Dict.empty, capacityEpoch := 0, mutationEpoch := 0 }

/-- What a demotion of `needed` more blocks ends with. -/
structure DemotesInTime (index : RadixPrefixIndex Id Payload) (neededWeight : ℤ)
    (demoted : List (PrefixCacheBlock Id Payload)) (next : RadixPrefixIndex Id Payload) : Prop where
  inv : Inv next
  bare : next.bare = index.bare
  leaves : DemotesLeaves index.blocks demoted next.blocks
  stops : StopsInTime neededWeight (fun _ => 1) demoted (∀ id, ¬ DemotableIn next.blocks id)

section

variable {index : RadixPrefixIndex Id Payload} {neededWeight : ℤ}

theorem DemotesInTime.stop (h : Inv index) (henough : neededWeight ≤ 0 ∨ ∀ id, ¬ DemotableIn index.blocks id) :
    DemotesInTime index neededWeight [] index :=
  ⟨h, rfl, DemotesLeaves.nil _, StopsInTime.nil henough⟩

/-- One demotion and then the rest. -/
theorem DemotesInTime.cons {block : PrefixCacheBlock Id Payload}
    {demoted : List (PrefixCacheBlock Id Payload)} {mid next : RadixPrefixIndex Id Payload}
    (hget : index.blocks.get? block.stableBlockId = some block)
    (hready : DemotableIn index.blocks block.stableBlockId)
    (hmid : mid.blocks = index.blocks.set block.stableBlockId (demotedBlock block))
    (hbare : mid.bare = index.bare) (hmore : 0 < neededWeight)
    (hrest : DemotesInTime mid (neededWeight - 1) demoted next) :
    DemotesInTime index neededWeight (demotedBlock block :: demoted) next := by
  obtain ⟨hinv, hbare', hleaves, hstops⟩ := hrest
  rw [hmid] at hleaves
  exact ⟨hinv, hbare'.trans hbare, DemotesLeaves.cons hget hready hleaves, hstops.cons hmore⟩

/-- **The demotion loop** with a heap in step. -/
theorem demoteLoop_leaves (neededWeight : ℤ) {fuel : ℕ} (h : Inv index) {children : Dict Id ℤ}
    (hcounts : DemotionCounts index.blocks children) {candidates : CandidateHeap Id}
    (hcandidates : Waiting index.blocks (DemotableIn index.blocks) candidates)
    (hfuel : (deviceKeys index.blocks).length < fuel) (demotedWeight : ℤ)
    (before : List (PrefixCacheBlock Id Payload)) :
    wp (demoteLoop neededWeight (fun _ => .ok 1) fuel demotedWeight children candidates before)
      (fun result next => ∃ demoted, result = .ok (before ++ demoted) ∧
        DemotesInTime index (neededWeight - demotedWeight) demoted next) index := by
  induction fuel generalizing index children candidates demotedWeight before with
  | zero => omega
  | succ fuel ih =>
      have hstop (henough : neededWeight - demotedWeight ≤ 0 ∨ ∀ id, ¬ DemotableIn index.blocks id) :
          ∃ demoted, (.ok before : Except PyError _) = .ok (before ++ demoted) ∧
            DemotesInTime index (neededWeight - demotedWeight) demoted index :=
        ⟨[], by rw [List.append_nil], DemotesInTime.stop h henough⟩
      unfold demoteLoop
      rw [wp_ite]
      refine ⟨fun henough => hstop (Or.inl (by omega)), fun hmore => ?_⟩
      rw [wp_bind, wp_read]
      dsimp only
      rcases popCandidate_least h.ids hcandidates fun id => (passes_demotable_iff h hcounts id).symm with
        ⟨hpop, hnone⟩ | ⟨block, rest, hpop, hget, hready, -, hrest⟩
      · rw [wp_bind, wp_ofExcept, hpop]
        exact hstop (Or.inr hnone)
      rw [wp_bind, wp_ofExcept, hpop]
      have hbacked : HostBacked block := by
        obtain ⟨other, hother, hbacked, -⟩ := hready
        rw [Option.some.inj (hget.symm.trans hother)]
        exact hbacked
      have hchildless : ∀ c, DeviceIn index.blocks c → parentIn index.blocks c ≠ some block.stableBlockId := by
        obtain ⟨-, -, -, hchildless⟩ := hready
        exact hchildless
      have hpresent := hbacked.2.2.1
      have hnew : { block with residency := { block.residency with devicePresent := false } } =
          demotedBlock block := rfl
      have hvalid : ({ block.residency with devicePresent := false } :
          PrefixBlockResidency).validate = .ok () := by
        rw [validate_ok_iff]
        simp [hbacked.2.2.2.1, hbacked.2.2.2.2]
      obtain ⟨hstore, hmoves⟩ := demote_moves h hget hbacked hchildless
      obtain ⟨hroot, hchild⟩ := hcounts.demote hget hpresent
      -- the heap follows the demotion
      obtain ⟨mid, hmid⟩ : ∃ mid, markCapacityMutated { index with
        blocks := index.blocks.set block.stableBlockId (demotedBlock block) } = mid := ⟨_, rfl⟩
      rw [hmid] at hmoves
      have hblocks : mid.blocks = index.blocks.set block.stableBlockId (demotedBlock block) := by
        rw [← hmid]
        rfl
      have hbare : mid.bare = index.bare := by
        rw [← hmid]
        rfl
      have hkept : Waiting mid.blocks (fun id => DemotableIn index.blocks id ∧ id ≠ block.stableBlockId) rest := by
        refine hrest.congr fun id hid => ?_
        rw [candidateOf, candidateOf, hblocks, Dict.get?_set_of_ne _ _ hid.2]
      have hsmaller : (deviceKeys mid.blocks).length < fuel := by
        have hmem : block.stableBlockId ∈ deviceKeys index.blocks :=
          mem_deviceKeys_iff.mpr ⟨block, hget, hpresent⟩
        rw [hblocks, deviceKeys_demoted hget]
        have hlt : ((deviceKeys index.blocks).filter fun c => c ≠ block.stableBlockId).length <
            (deviceKeys index.blocks).length :=
          List.length_filter_lt_length_iff_exists.mpr ⟨_, hmem, by simp⟩
        exact lt_of_lt_of_le hlt (Nat.lt_succ_iff.mp hfuel)
      have hmore' : 0 < neededWeight - demotedWeight := by omega
      have hsub : neededWeight - (demotedWeight + 1) = neededWeight - demotedWeight - 1 := by omega
      have hfinish {children' : Dict Id ℤ} {queued : CandidateHeap Id}
          (hcounts' : DemotionCounts mid.blocks children')
          (hqueued : Waiting mid.blocks (DemotableIn mid.blocks) queued) :
          wp (demoteLoop neededWeight (fun _ => .ok 1) fuel (demotedWeight + 1) children' queued
              (before ++ [demotedBlock block]))
            (fun result next => ∃ demoted, result = .ok (before ++ demoted) ∧
              DemotesInTime index (neededWeight - demotedWeight) demoted next) mid := by
        refine wp_mono (ih hmoves.inv hcounts' hqueued hsmaller (demotedWeight + 1) _) fun result next hrun => ?_
        obtain ⟨demoted, hresult, hdemotes⟩ := hrun
        rw [hsub] at hdemotes
        exact ⟨demotedBlock block :: demoted, by rw [hresult, List.append_cons before _ demoted],
          DemotesInTime.cons hget hready hblocks hbare hmore' hdemotes⟩
      simp only [wp_bind, wp_ofExcept, wp_raiseIf, wp_write]
      refine ⟨fun hnegative => absurd hnegative (by decide), fun _ => ?_⟩
      simp only [hvalid, hnew, hstore, hmid]
      cases hparent : block.parentBlockId with
      | none =>
          refine hfinish (hblocks ▸ hroot hparent) (hkept.ready_congr fun id => ?_)
          rw [hblocks, demotableIn_demoted_iff hget, parentIn_of_get? hget, hparent]
          simp
      | some p =>
          have hpdevice : DeviceIn index.blocks p := h.device _ p ⟨block, hget, hpresent⟩
            (by rw [parentIn_of_get? hget, hparent])
          have hpcount := hcounts p hpdevice
          have hcounts' := hchild p _ hparent hpcount hpdevice
          rw [← hblocks] at hcounts'
          obtain ⟨count, hcount⟩ : ∃ count : ℤ, (blockedChildren (parentIn index.blocks)
            (deviceKeys index.blocks) ∅ p : ℤ) = count := ⟨_, rfl⟩
          rw [hcount] at hpcount hcounts'
          have hpasses := passes_demotable_iff hmoves.inv hcounts'
          have hstep (id : Id) : DemotableIn mid.blocks id ↔
              (DemotableIn index.blocks id ∧ id ≠ block.stableBlockId) ∨
                (some p = some id ∧ DemotableIn mid.blocks id) := by
            rw [hblocks, ← hparent, ← parentIn_of_get? hget]
            exact demotableIn_demoted_iff hget id
          have hqueue : ∃ queued, (if count - 1 = 0 then
              mid.queueIf (demotable (children.set p (count - 1))) rest (some p)
              else .ok rest) = .ok queued ∧ Waiting mid.blocks (DemotableIn mid.blocks) queued := by
            by_cases hlast : count - 1 = 0
            · rw [if_pos hlast]
              obtain ⟨queued, hqueued⟩ :=
                queueIf_ok (demotable_total hmoves.inv hcounts') rest (some p)
              refine ⟨queued, hqueued, (queueIf_waiting hkept hqueued).ready_congr fun id => ?_⟩
              rw [hpasses]
              exact hstep id
            · rw [if_neg hlast]
              refine ⟨rest, rfl, hkept.ready_congr fun id => ?_⟩
              rw [hstep]
              refine or_iff_left_of_imp ?_
              -- the parent has a device-present child left
              rintro ⟨hid, hdemotable⟩
              obtain rfl := Option.some.inj hid
              obtain ⟨other, hother, htest⟩ := (hpasses p).mpr hdemotable
              obtain ⟨same, hsame, hbacked', -⟩ := hdemotable
              obtain rfl := Option.some.inj (hother.symm.trans hsame)
              have hleft : (children.set p (count - 1)).get? other.stableBlockId = some (count - 1) := by
                rw [hmoves.inv.ids p other hother, Dict.get?_set_self]
              rw [demotable_of_backed hbacked' hleft] at htest
              exact absurd (of_decide_eq_true (Except.ok.inj htest)) hlast
          obtain ⟨queued, hqueued, hwaiting⟩ := hqueue
          simp only [hpcount, wp_bind, wp_read, wp_ofExcept, hqueued]
          exact hfinish hcounts' hwaiting

/-- **`demote_device_until_freeable`** demotes leaf by leaf until it has enough
or nothing is demotable. -/
theorem demoteDeviceUntilFreeable_leaves (needed : ℕ) (h : Inv index) :
    ∃ demoted next, demoteDeviceUntilFreeable needed index = (.ok demoted, next) ∧
      DemotesInTime index needed demoted next := by
  suffices hwp : wp (demoteDeviceUntilFreeable needed) (fun result next => ∃ demoted,
      result = .ok demoted ∧ DemotesInTime index needed demoted next) index by
    obtain ⟨demoted, hresult, hdemotes⟩ := hwp
    exact ⟨demoted, _, Prod.ext hresult rfl, hdemotes⟩
  obtain ⟨children, hcount, hcounts⟩ := countDemotionChildren_eq h
  have hpasses := passes_demotable_iff h hcounts
  have hzero (id : Id) (hid : DemotableIn index.blocks id) : (id, (0 : ℤ)) ∈ children.entries := by
    obtain ⟨block, hget, hbacked, hchildless⟩ := hid
    have hnone : blockedChildren (parentIn index.blocks) (deviceKeys index.blocks) ∅ id = 0 := by
      rw [blockedChildren_eq_zero_iff]
      intro c hc hparent
      exact absurd hparent (hchildless c (mem_deviceKeys_iff.mp hc))
    have hentry := hcounts id ⟨block, hget, hbacked.2.2.1⟩
    rw [hnone] at hentry
    exact Dict.get?_eq_some_iff.mp hentry
  -- the heap starts with the childless blocks that pass the test:
  have hfill (listed : List (Id × ℤ)) (ready : Id → Prop) (candidates : CandidateHeap Id)
      (hwaiting : Waiting index.blocks ready candidates) : ∃ filled,
      listed.foldlM (fun candidates entry =>
        if entry.2 = 0 then queueIf index (demotable children) candidates (some entry.1)
        else .ok candidates) candidates = .ok filled ∧
      Waiting index.blocks (fun id => ready id ∨ ((id, (0 : ℤ)) ∈ listed ∧ DemotableIn index.blocks id)) filled := by
    induction listed generalizing ready candidates with
    | nil => exact ⟨candidates, rfl, hwaiting.ready_congr fun id => by simp⟩
    | cons entry rest ih =>
        obtain ⟨x, count⟩ := entry
        rw [List.foldlM_cons]
        by_cases hready : count = 0
        · obtain ⟨queued, hqueued⟩ := queueIf_ok (demotable_total h hcounts) candidates (some x)
          obtain ⟨filled, hrun, hfilled⟩ := ih _ queued (queueIf_waiting hwaiting hqueued)
          refine ⟨filled, ?_, hfilled.ready_congr fun id => ?_⟩
          · rw [if_pos hready, hqueued]
            exact hrun
          · rw [List.mem_cons, hpasses, Prod.mk.injEq, Option.some.injEq, hready, or_assoc, or_and_right, eq_comm]
            simp
        · obtain ⟨filled, hrun, hfilled⟩ := ih _ candidates hwaiting
          refine ⟨filled, ?_, hfilled.ready_congr fun id => ?_⟩
          · rw [if_neg hready]
            exact hrun
          · rw [List.mem_cons, Prod.mk.injEq]
            have hne : ¬ (id = x ∧ 0 = count) := fun hboth => hready hboth.2.symm
            simp [hne]
  obtain ⟨filled, hrun, hfilled⟩ := hfill children.entries _ {} waiting_empty
  have hwaiting : Waiting index.blocks (DemotableIn index.blocks) filled := by
    refine hfilled.ready_congr fun id => ?_
    rw [false_or]
    exact ⟨fun hid => ⟨hzero id hid, hid⟩, fun hid => hid.2⟩
  have hlength : (deviceKeys index.blocks).length < index.blocks.size + 1 := by
    rw [deviceKeys_eq_filter, ← Dict.length_keys]
    exact Nat.lt_succ_of_le (List.length_filter_le _ _)
  unfold demoteDeviceUntilFreeable demoteDeviceUntilWeight
  simp only [wp_ite, wp_pure, wp_bind, wp_read, wp_ofExcept, hcount, hrun]
  refine ⟨fun hnothing => ⟨[], rfl, DemotesInTime.stop h (Or.inl hnothing)⟩, fun _ => ?_⟩
  refine wp_mono (demoteLoop_leaves needed h hcounts hwaiting hlength 0 []) fun result next hloop => ?_
  obtain ⟨demoted, hresult, hdemotes⟩ := hloop
  rw [sub_zero] at hdemotes
  exact ⟨demoted, hresult, hdemotes⟩

end

end RadixPrefixIndex

namespace IndexOp

open RadixPrefixIndex Forest

variable {Id Payload : Type} [LinearOrder Id]

/-- **A demotion takes exactly what it was promised**, after every run: as many
blocks as it was asked for and as `device_freeable_blocks` counts, all of them
from that set, each one after its device-present children.  It changes nothing
but their device payloads and the epochs of the cached answers, and afterwards
the set is what is left of it. -/
theorem demotion_exact (hash : List ℤ → Option Id → Id) (blockSize : ℕ) (maxBlocks : Option ℤ)
    (ops : List (IndexOp Id Payload)) (needed : ℕ) :
    let index := runAll hash (init blockSize maxBlocks) ops
    ∃ freeable after, RadixPrefixIndex.deviceFreeableBlockIds index = (.ok freeable, after) ∧
      ∃ demoted next, RadixPrefixIndex.demoteDeviceUntilFreeable needed index =
          (.ok demoted, next) ∧
        demoted.length = min needed freeable.card ∧
        (demoted.map (·.stableBlockId)).Nodup ∧
        (∀ block ∈ demoted, block.stableBlockId ∈ freeable) ∧
        (∀ before block rest, demoted = before ++ block :: rest → ∀ c, DeviceIn index.blocks c →
          parentIn index.blocks c = some block.stableBlockId →
          c ∈ before.map (·.stableBlockId)) ∧
        (∀ id ∈ demoted.map (·.stableBlockId), ∃ block, index.blocks.get? id = some block ∧
          next.blocks.get? id = some (demotedBlock block)) ∧
        (∀ id, id ∉ demoted.map (·.stableBlockId) →
          next.blocks.get? id = index.blocks.get? id) ∧
        next.bare = index.bare ∧
        ∃ left last, RadixPrefixIndex.deviceFreeableBlockIds next = (.ok left, last) ∧
          left = freeable \ (demoted.map (·.stableBlockId)).toFinset := by
  intro index
  have hinv : Inv index := runAll_inv ops (inv_init blockSize maxBlocks)
  have hok : CachesOk index :=
    runAll_cachesOk ops (inv_init blockSize maxBlocks) (cachesOk_init blockSize maxBlocks)
  obtain ⟨freeable, after, hquery, -, hexact⟩ := deviceFreeableBlockIds_spec hinv
  have hfreeable := hexact hok
  obtain ⟨demoted, next, hrun, hnext, hbare, hleaves, hstops⟩ :=
    demoteDeviceUntilFreeable_leaves needed hinv
  have hmoves : Moves index next := by
    have hspec := (@demoteDeviceUntilWeight_spec _ _ _ index (fun _ => .ok 1) hinv needed).1
    have hstate : (demoteDeviceUntilFreeable needed index).2 = next := congrArg Prod.snd hrun
    rw [← hstate]
    exact hspec
  obtain ⟨left, last, hleft, -, hleftExact⟩ := deviceFreeableBlockIds_spec hnext
  have hmember (id : Id) (hid : id ∈ demoted.map (·.stableBlockId)) : id ∈ freeable := by
    rw [hfreeable, deviceReclaimableIn_iff_prunable hinv.device]
    exact hleaves.pruned.prunable hid
  -- fewer than asked for only when nothing demotable is left, which is all of them:
  have hoffered : StopsInTime needed (fun _ => 1) demoted
      (∀ id, id ∈ demoted.map (·.stableBlockId) ↔ id ∈ freeable) := by
    refine ⟨hstops.first, hstops.enough.imp_right fun hstuck id => ?_⟩
    rw [hleaves.mem_iff_of_stuck hnext.first hinv.device hnext.device hstuck, hfreeable]
  have hall : ∀ block ∈ demoted, block.stableBlockId ∈ freeable := fun block hblock =>
    hmember _ (List.mem_map_of_mem hblock)
  refine ⟨freeable, after, hquery, demoted, next, hrun,
    hoffered.length_eq hleaves.pruned.nodup hall, hleaves.pruned.nodup, hall, ?_,
    fun id hid => hleaves.get?_demoted hid, fun id hid => hleaves.get?_eq hid, hbare,
    left, last, hleft, ?_⟩
  · intro before block rest hsplit c hc hparent
    have hpruned := hleaves.pruned
    rw [hsplit, List.map_append, List.map_cons] at hpruned
    exact hpruned.children_before (mem_deviceKeys_iff.mpr hc) hparent
  · ext id
    rw [Finset.mem_sdiff, List.mem_toFinset, hleftExact (hmoves.cachesOk hok), hfreeable]
    exact hleaves.deviceReclaimableIn_iff hinv.device hnext.device id

end IndexOp
