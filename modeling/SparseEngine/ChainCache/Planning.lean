import SparseEngine.ChainCache.Solvency

/-!
# What a plan promises

`plan_admission` adds up what the ACTIVE chains are owed, asks the cache
manager for the deficits of the request and picks IDLE chains until their
recorded residency covers them.  This file reads off the plan that the
request's reservation fits into the headroom once the victims' rows are given
back.
-/

open Routine ChainCacheIndex

variable {Fingerprint Digest : Type}

namespace ChainRuntime

variable {config : MemoryConfig} {runtime next : ChainRuntime Fingerprint Digest ChainMemory}
  {pool : Pool}

/-! ## The outstanding reservations -/

/-- What the chain of an id is owed. -/
def owedBy (pool : Pool) (runtime : ChainRuntime Fingerprint Digest ChainMemory)
    (chainId : String) : ℤ :=
  ((runtime.index.records.get? chainId).map (pool.owed runtime.env)).getD 0

variable {chainId : String} {record : ChainRecord Fingerprint Digest} {memory : ChainMemory}
  {seqId : ℕ} {decodeReserved : List ℤ} {victims : List String} {sha : Sha256 Digest}
  {input : AdmissionInput Digest} {fingerprint : Fingerprint}

theorem owedBy_eq (hrecord : runtime.index.records.get? chainId = some record) :
    owedBy pool runtime chainId = pool.owed runtime.env record := by
  unfold owedBy
  rw [hrecord]
  rfl

theorem sum_map_filter_of_zero {α : Type} {f : α → ℤ} {test : α → Bool} (items : List α)
    (hzero : ∀ item ∈ items, test item = false → f item = 0) :
    ((items.filter test).map f).sum = (items.map f).sum := by
  induction items with
  | nil => rfl
  | cons head rest ih =>
      have hrest := ih fun item hmem => hzero item (List.mem_cons_of_mem _ hmem)
      cases htest : test head with
      | true => simp [htest, hrest]
      | false => simp [htest, hrest, hzero head List.mem_cons_self htest]

/-- The entries of `active_records` are owed what all records are owed. -/
theorem sum_owedBy_active (h : Inv runtime.index) (pool : Pool) :
    (runtime.index.activeRecords.keys.map (owedBy pool runtime)).sum = pool.totalOwed runtime := by
  have hactive : runtime.index.activeRecords.keys.Perm
      (runtime.index.records.keys.filter fun chainId =>
        decide (chainId ∈ runtime.index.activeRecords.keys)) := by
    apply (List.perm_ext_iff_of_nodup runtime.index.activeRecords.keys_nodup
      (runtime.index.records.keys_nodup.filter _)).mpr
    intro chainId
    rw [List.mem_filter, decide_eq_true_iff]
    refine ⟨fun hmem => ⟨?_, hmem⟩, fun hmem => hmem.2⟩
    obtain ⟨record, hrecord, _⟩ := h.mem_active.mp hmem
    exact Dict.mem_keys_of_get? hrecord
  calc (runtime.index.activeRecords.keys.map (owedBy pool runtime)).sum
      = ((runtime.index.records.keys.filter fun chainId =>
          decide (chainId ∈ runtime.index.activeRecords.keys)).map (owedBy pool runtime)).sum :=
        (hactive.map _).sum_eq
    _ = (runtime.index.records.keys.map (owedBy pool runtime)).sum := by
        apply sum_map_filter_of_zero
        intro chainId hmem hinactive
        obtain ⟨record, hrecord⟩ := Dict.mem_keys_iff.mp hmem
        rw [owedBy_eq hrecord]
        apply Pool.owed_idle
        cases hstate : record.state with
        | idle => rfl
        | active =>
            have hlisted := h.mem_active.mpr ⟨record, hrecord, hstate⟩
            exact absurd hlisted (of_decide_eq_false hinactive)
    _ = pool.totalOwed runtime := by
        unfold Pool.totalOwed Dict.keys Dict.values
        rw [List.map_map, List.map_map]
        apply congrArg List.sum
        apply List.map_congr_left
        intro entry hmem
        exact owedBy_eq (Dict.get?_eq_some_iff.mpr hmem)

/-- What a record owes as `_outstanding_active_reservations` finds it. -/
theorem owed_of_turning {base : ℕ} {promised : ℤ} (hactive : record.state = .active)
    (h : Turning config memory record base) (hreserved : Layered config record.reservedSlotsByLayer promised) :
    Pool.slots.owed memory record =
      max 0 (promised - max 0 (((memory.rowSeqLens.get? record.seqId).map
        fun (length : ℕ) => (length : ℤ)).getD base - base)) := by
  unfold Pool.owed
  rw [if_pos hactive]
  simp only [Pool.reserved, Pool.realized, hreserved.headD_eq, h.physical_eq.headD_eq]

theorem chainHasResidency_apply (seqId : ℕ) :
    call ((standardHooks config).chainHasResidency seqId) runtime =
      (.ok (runtime.env.rowSeqLens.get? seqId).isSome, runtime) := rfl

theorem chainPhysicalResidency_apply {length : ℕ} (hrow : runtime.env.rowSeqLens.get? seqId = some length) :
    call ((standardHooks config).chainPhysicalResidency seqId) runtime =
      (.ok (List.replicate config.numKvLayers (length : ℤ)), runtime) := by
  show (match ChainMemory.chainPhysicalResidency config seqId runtime.env with
    | (result, env) => (result, { runtime with env := env })) = _
  simp only [ChainMemory.chainPhysicalResidency, bind_apply, read_apply, ofExcept_apply, hrow]

/-- The loop adds up what the chains are owed. -/
theorem outstandingOf_wpe (h : Accounts (fun _ => Fits config) runtime) (chainIds : List String)
    (hactive : ∀ chainId ∈ chainIds, ∃ record,
      runtime.index.records.get? chainId = some record ∧ record.state = .active)
    {outstanding : List ℤ} {slots : ℤ} (hslots : Layered config outstanding slots) (rows : ℤ) :
    wpe (outstandingOf (standardHooks config) chainIds outstanding rows)
      (fun total next => next = runtime ∧
        Layered config total.1 (slots + (chainIds.map (owedBy .slots runtime)).sum) ∧
        total.2 = rows + (chainIds.map (owedBy .rows runtime)).sum)
      (fun next => next = runtime) runtime := by
  induction chainIds generalizing outstanding slots rows with
  | nil => exact ⟨rfl, by simpa using hslots, by simp⟩
  | cons chainId rest ih =>
      have ih := @ih fun other hmem => hactive other (List.mem_cons_of_mem _ hmem)
      obtain ⟨record, hrecord, hstate⟩ := hactive chainId List.mem_cons_self
      obtain ⟨base, hturning⟩ := (fits_active hstate).mp (h.record hrecord)
      obtain ⟨promised, hpromised⟩ := hturning.reserved_eq
      have howedSlots := owed_of_turning hstate hturning hpromised
      simp only [List.map_cons, List.sum_cons, owedBy_eq hrecord]
      unfold outstandingOf
      rw [wpe_bind, wpe_onIndex]
      refine wpe_lookup (fun found hfound => ?_) rfl
      obtain rfl := Option.some.inj (hrecord.symm.trans hfound)
      show wpe (if _ then _ else _) _ _ runtime
      rw [wpe_ite]
      constructor
      · -- the promise was cleared: nothing is owed
        intro hcleared
        have hnone : promised = 0 := by
          rw [← hpromised.headD_eq, hcleared.1]
          rfl
        have hzero : Pool.slots.owed runtime.env record = 0 := by
          rw [howedSlots, hnone]
          omega
        have hzero' : Pool.rows.owed runtime.env record = 0 := by
          unfold Pool.owed
          rw [if_pos hstate]
          have := hcleared.2
          simp only [Pool.reserved, Pool.realized]
          split <;> omega
        rw [hzero, hzero', zero_add, zero_add]
        exact ih hslots rows
      · intro _
        have hrows : Pool.rows.owed runtime.env record = max 0 (record.reservedRows -
            if (runtime.env.rowSeqLens.get? record.seqId).isSome then 1 else 0) := by
          unfold Pool.owed
          rw [if_pos hstate]
          rfl
        rw [wpe_bind, wpe_of_ok (chainHasResidency_apply record.seqId), wpe_bind]
        have hcurrent : ∃ current now, Layered config current now ∧
            now = ((runtime.env.rowSeqLens.get? record.seqId).map fun (length : ℕ) => (length : ℤ)).getD base ∧
            (if (runtime.env.rowSeqLens.get? record.seqId).isSome then
                call ((standardHooks config).chainPhysicalResidency record.seqId)
              else pure record.physicalSlotsByLayer) runtime = (.ok current, runtime) := by
          cases hrow : runtime.env.rowSeqLens.get? record.seqId with
          | none => exact ⟨_, base, hturning.physical_eq, rfl, rfl⟩
          | some length =>
              exact ⟨_, length, .replicate _, rfl, chainPhysicalResidency_apply hrow⟩
        obtain ⟨current, now, hlayered, hnow, hrun⟩ := hcurrent
        rw [wpe_of_ok hrun, howedSlots, hrows, ← hnow, ← add_assoc, ← add_assoc]
        exact ih (hslots.addLayers (hpromised.owedSlots hlayered hturning.physical_eq)) _

/-- `_outstanding_active_reservations` returns what the ACTIVE chains are
owed. -/
theorem outstandingActiveReservations_wpe (h : Accounts (fun _ => Fits config) runtime) :
    wpe (outstandingActiveReservations (standardHooks config))
      (fun total next => next = runtime ∧ Layered config total.1 (Pool.slots.totalOwed runtime) ∧
        total.2 = Pool.rows.totalOwed runtime)
      (fun next => next = runtime) runtime := by
  unfold outstandingActiveReservations
  rw [wpe_get]
  have hloop := outstandingOf_wpe h runtime.index.activeRecords.keys
    (fun chainId hmem => h.inv.mem_active.mp hmem) Layered.nil 0
  rw [sum_owedBy_active h.inv, sum_owedBy_active h.inv, zero_add, zero_add] at hloop
  exact hloop

/-! ## The demand of a request -/

/-- `record is None or record.resident_rows == 0`. -/
def needsRow (record : Option (ChainRecord Fingerprint Digest)) : Bool :=
  record.all fun record => record.residentRows = 0

/-- The slots a request needs: for its suffix, and for the KV that has to be
restored. -/
def requiredSlots (record : Option (ChainRecord Fingerprint Digest)) (tokenCount : ℤ) : ℤ :=
  max 0 (tokenCount - (record.map ChainRecord.processedTokenCount).getD 0) +
    if needsRow record then
      ((record.map ChainRecord.physicalSlotsByLayer).getD []).headD 0
    else 0

def requiredRows (record : Option (ChainRecord Fingerprint Digest)) : ℤ :=
  if needsRow record then 1 else 0

/-- The demand `admission_requirements` finds. -/
def demandOf (config : MemoryConfig) (runtime : ChainRuntime Fingerprint Digest ChainMemory)
    (record : Option (ChainRecord Fingerprint Digest)) (tokenCount : ℤ) : AdmissionDemand :=
  { requiredSlotsByLayer := List.replicate config.numKvLayers
      (max 0 (requiredSlots record tokenCount - max 0 (Pool.slots.headroom runtime)))
    rowDeficit := max 0 (requiredRows record - max 0 (Pool.rows.headroom runtime))
    reservedSlotsByLayer := List.replicate config.numKvLayers (requiredSlots record tokenCount)
    reservedRows := requiredRows record }

/-- A record that fits has the same residency in every layer. -/
theorem layered_physical (h : Fits config memory record) :
    ∃ length : ℕ, Layered config record.physicalSlotsByLayer length := by
  cases hstate : record.state with
  | idle =>
      obtain ⟨length, hresting⟩ := (fits_idle hstate).mp h
      exact ⟨length, .inr hresting.physical_eq⟩
  | active =>
      obtain ⟨base, hturning⟩ := (fits_active hstate).mp h
      exact ⟨base, hturning.physical_eq⟩

section

variable (h : Accounts (fun _ => Fits config) runtime)

include h

theorem requiredSlots_nonneg (chainId : String) (tokenCount : ℤ) :
    0 ≤ requiredSlots (runtime.index.records.get? chainId) tokenCount := by
  unfold requiredSlots
  apply add_nonneg (le_max_left _ _)
  split
  · cases hrecord : runtime.index.records.get? chainId with
    | none => exact le_rfl
    | some record =>
        obtain ⟨length, hlength⟩ := layered_physical (h.record hrecord)
        show 0 ≤ record.physicalSlotsByLayer.headD 0
        rw [hlength.headD_eq]
        exact Int.natCast_nonneg length
  · exact le_rfl

/-- `chain_capacity_deficits` on what is outstanding beside the decode
windows. -/
theorem chainCapacityDeficits_eq (chainId : String) (tokenCount : ℤ) {outstanding : List ℤ}
    (hslots : Layered config outstanding (Pool.slots.totalOwed runtime))
    (hdecode : Layered config decodeReserved runtime.env.decodeReserved) :
    let record := runtime.index.records.get? chainId
    let answer := ChainMemory.chainCapacityDeficits config
      (max 0 (tokenCount - (record.map ChainRecord.processedTokenCount).getD 0)) 0
      ((record.map ChainRecord.physicalSlotsByLayer).getD [])
      (addLayers outstanding decodeReserved) (Pool.rows.totalOwed runtime) (needsRow record)
      runtime.env
    ({ requiredSlotsByLayer := answer.2.2.1, rowDeficit := answer.2.2.2,
       reservedSlotsByLayer := answer.1, reservedRows := answer.2.1 } : AdmissionDemand) =
      demandOf config runtime record tokenCount := by
  have hexisting : ChainMemory.maxDefault
      (((runtime.index.records.get? chainId).map ChainRecord.physicalSlotsByLayer).getD []) =
      (((runtime.index.records.get? chainId).map ChainRecord.physicalSlotsByLayer).getD []).headD 0 := by
    cases hrecord : runtime.index.records.get? chainId with
    | none => rfl
    | some record =>
        obtain ⟨length, hlength⟩ := layered_physical (h.record hrecord)
        show ChainMemory.maxDefault record.physicalSlotsByLayer = record.physicalSlotsByLayer.headD 0
        rw [hlength.maxDefault_eq, hlength.headD_eq]
  have hfree : (runtime.env.numFreeSlots : ℤ) - ChainMemory.maxDefault (addLayers outstanding decodeReserved) =
      Pool.slots.headroom runtime := by
    rw [(hslots.addLayers hdecode).maxDefault_eq]
    simp only [Pool.headroom, Pool.free, Pool.decode]
    omega
  have hrows : (runtime.env.numFreeRows : ℤ) - Pool.rows.totalOwed runtime = Pool.rows.headroom runtime := by
    simp only [Pool.headroom, Pool.free, Pool.decode]
    omega
  have hsuffix : ∀ tokens : ℤ, max 0 (max 0 tokens) = max 0 tokens := by omega
  simp only [ChainMemory.chainCapacityDeficits, demandOf, requiredSlots, requiredRows, hexisting,
    hfree, hrows, hsuffix]
  simp

/-- The demand of a request is found without touching the chains. -/
theorem admissionRequirements_wpe (chainId : String) (tokenCount : ℤ)
    (hdecode : Layered config decodeReserved runtime.env.decodeReserved) :
    wpe (admissionRequirements (standardHooks config) chainId tokenCount decodeReserved)
      (fun demand next => Steady runtime next ∧
        demand = demandOf config next (next.index.records.get? chainId) tokenCount)
      (Steady runtime) runtime := by
  have hpolled : wpe (whenDo (config.offload = true) (call (inMemory ChainMemory.poll)))
      (fun _ => Steady runtime) (Steady runtime) runtime := by
    rw [wpe_whenDo]
    exact ⟨fun _ => wpe_harmless ChainMemory.harmless_poll (fun _ _ hnext => hnext)
      fun _ hnext => hnext, fun _ => .refl runtime⟩
  unfold admissionRequirements
  refine wpe_then hpolled fun _ next hnext => ?_
  have haccounts := hnext.accounts (calmProperty_fits config) h
  rw [wpe_get]
  refine wpe_then_imp (outstandingActiveReservations_wpe haccounts) (fun total last htotal => ?_)
    fun last hlast => hlast ▸ hnext
  obtain ⟨rfl, hslots, hrows⟩ := htotal
  rw [wpe_bind]
  have hdecode' : Layered config decodeReserved last.env.decodeReserved := by
    unfold ChainMemory.decodeReserved
    rw [hnext.memory.windows_eq]
    exact hdecode
  have hdemand := chainCapacityDeficits_eq haccounts chainId tokenCount hslots hdecode'
  rw [← hrows] at hdemand
  exact ⟨hnext, hdemand⟩

end

/-! ## The victims -/

/-- The loop of `_plan_admission` over candidates with the same residency in
every layer: the victims are its first candidates, and they cover what is no
longer missing. -/
theorem takeVictims_covers (candidates : List (ChainRecord Fingerprint Digest))
    (hresting : ∀ record ∈ candidates, record.residentRows = 1 ∧
      ∃ length : ℕ, record.physicalSlotsByLayer = List.replicate config.numKvLayers (length : ℤ))
    (rowDeficit slotDeficit : ℤ) :
    ∃ taken, taken <+: candidates ∧
      (takeVictims candidates rowDeficit (List.replicate config.numKvLayers slotDeficit)).1 =
        taken.map ChainRecord.chainId ∧
      (¬ hasDeficit (takeVictims candidates rowDeficit (List.replicate config.numKvLayers slotDeficit)).2.1
          (takeVictims candidates rowDeficit (List.replicate config.numKvLayers slotDeficit)).2.2 →
        slotDeficit ≤ (taken.map fun record => record.physicalSlotsByLayer.headD 0).sum ∧
          rowDeficit ≤ (taken.map fun record => record.residentRows).sum) := by
  -- no deficit is left when the slots are exact and the rows are enough:
  have hcovered : ∀ rows slots : ℤ,
      ¬ hasDeficit rows (List.replicate config.numKvLayers slots) → slots = 0 ∧ rows ≤ 0 := by
    intro rows slots hnone
    unfold hasDeficit at hnone
    rw [not_or, not_lt] at hnone
    refine ⟨?_, hnone.1⟩
    by_contra hslots
    exact hnone.2 ⟨slots, List.mem_replicate.mpr ⟨config.numKvLayers_pos.ne', rfl⟩, hslots⟩
  induction candidates generalizing rowDeficit slotDeficit with
  | nil =>
      refine ⟨[], List.nil_prefix, rfl, fun hnone => ?_⟩
      obtain ⟨hslots, hrows⟩ := hcovered rowDeficit slotDeficit hnone
      exact ⟨hslots.le, hrows⟩
  | cons victim rest ih =>
      obtain ⟨hresident, length, hphysical⟩ := hresting victim List.mem_cons_self
      have ih := ih fun record hmem => hresting record (List.mem_cons_of_mem _ hmem)
      unfold takeVictims
      by_cases hdeficit : hasDeficit rowDeficit (List.replicate config.numKvLayers slotDeficit)
      · rw [if_pos hdeficit]
        have hcover : coverSlots (List.replicate config.numKvLayers slotDeficit)
            victim.physicalSlotsByLayer = List.replicate config.numKvLayers (max 0 (slotDeficit - length)) := by
          unfold coverSlots
          rw [hphysical, List.eq_replicate_iff]
          refine ⟨by rw [List.length_mapIdx, List.length_replicate], fun deficit hmem => ?_⟩
          obtain ⟨layer, hlayer, rfl⟩ := List.mem_mapIdx.mp hmem
          rw [List.length_replicate] at hlayer
          simp [hlayer]
        obtain ⟨taken, hprefix, hvictims, hcovers⟩ :=
          ih (max 0 (rowDeficit - victim.residentRows)) (max 0 (slotDeficit - length))
        refine ⟨victim :: taken, List.cons_prefix_cons.mpr ⟨rfl, hprefix⟩, ?_, fun hnone => ?_⟩
        · show victim.chainId :: _ = _
          rw [hcover, hvictims]
          rfl
        · rw [hcover] at hnone
          obtain ⟨hslots, hrows⟩ := hcovers hnone
          have hhead : victim.physicalSlotsByLayer.headD 0 = length := by
            rw [hphysical]
            exact (@Layered.replicate config _).headD_eq
          simp only [List.map_cons, List.sum_cons, hhead]
          omega
      · rw [if_neg hdeficit]
        obtain ⟨hslots, hrows⟩ := hcovered rowDeficit slotDeficit hdeficit
        exact ⟨[], List.nil_prefix, rfl, fun _ => ⟨hslots.le, hrows⟩⟩

/-- The sequence of the chain of an id. -/
def ownerOf (runtime : ChainRuntime Fingerprint Digest ChainMemory) (chainId : String) : ℕ :=
  ((runtime.index.records.get? chainId).map ChainRecord.seqId).getD 0

theorem ownerOf_eq (hrecord : runtime.index.records.get? chainId = some record) :
    ownerOf runtime chainId = record.seqId := by
  unfold ownerOf
  rw [hrecord]
  rfl

/-- What the rows of a list of sequences hold. -/
def heldBy (pool : Pool) (memory : ChainMemory) (seqIds : List ℕ) : ℤ :=
  (seqIds.map (pool.held memory)).sum

/-- Distinct IDLE chains other than the one that is admitted. -/
structure Victims (runtime : ChainRuntime Fingerprint Digest ChainMemory) (chainId : String)
    (victims : List String) : Prop where
  nodup : victims.Nodup
  ne : ∀ victim ∈ victims, victim ≠ chainId
  idle : ∀ victim ∈ victims, ∃ record, runtime.index.records.get? victim = some record ∧
    record.state = .idle

theorem Victims.perm {others : List String} (h : Victims runtime chainId victims) (hperm : others.Perm victims) :
    Victims runtime chainId others where
  nodup := hperm.nodup_iff.mpr h.nodup
  ne victim hmem := h.ne victim (hperm.mem_iff.mp hmem)
  idle victim hmem := h.idle victim (hperm.mem_iff.mp hmem)

theorem Victims.nodup_owners (h : Inv runtime.index) (hvictims : Victims runtime chainId victims) :
    (victims.map (ownerOf runtime)).Nodup := by
  refine List.Nodup.map_on (fun first hfirst second hsecond heq => ?_) hvictims.nodup
  obtain ⟨record, hrecord, _⟩ := hvictims.idle first hfirst
  obtain ⟨other, hother, _⟩ := hvictims.idle second hsecond
  rw [ownerOf_eq hrecord, ownerOf_eq hother] at heq
  by_contra hne
  exact Accounts.seqId_ne h hother hrecord hne heq

/-- The candidates are resting chains with a row, each once. -/
theorem victimCandidates_resting (h : Accounts (fun _ => Fits config) runtime) (chainId : String)
    (rowDeficit : ℤ) (slotDeficits : List ℤ) :
    ((runtime.index.victimCandidates chainId rowDeficit slotDeficits).map ChainRecord.chainId).Nodup ∧
      ∀ record ∈ runtime.index.victimCandidates chainId rowDeficit slotDeficits,
        runtime.index.records.get? record.chainId = some record ∧ record.state = .idle ∧
        record.chainId ≠ chainId ∧
        ∃ length : ℕ, record.physicalSlotsByLayer = List.replicate config.numKvLayers (length : ℤ) ∧
          record.residentRows = 1 ∧ runtime.env.rowSeqLens.get? record.seqId = some length := by
  have hlru : ∀ record ∈ runtime.index.idleResidentLru,
      runtime.index.records.get? record.chainId = some record ∧ record.state = .idle ∧ 0 < record.residentRows := by
    intro record hmem
    have hmem' := (List.perm_insertionSort _ _).mem_iff.mp hmem
    obtain ⟨hvalue, htest⟩ := List.mem_filter.mp hmem'
    obtain ⟨key, hkey⟩ := Dict.mem_values_iff.mp hvalue
    have hid := h.inv.chainId_eq hkey
    rw [decide_eq_true_iff] at htest
    exact ⟨hid ▸ hkey, htest⟩
  unfold victimCandidates
  constructor
  · refine List.Nodup.sublist ((List.filter_sublist).map _) ?_
    split
    · unfold idleResidentLru
      refine ((List.perm_insertionSort _ _).map _).nodup_iff.mpr ?_
      refine List.Nodup.sublist ((List.filter_sublist).map _) ?_
      rw [h.inv.map_chainId]
      exact runtime.index.records.keys_nodup
    · exact List.nodup_nil
  · intro record hmem
    obtain ⟨hlisted, hne⟩ := List.mem_filter.mp hmem
    have hmem' : record ∈ runtime.index.idleResidentLru := by
      split at hlisted
      · exact hlisted
      · exact nomatch hlisted
    obtain ⟨hrecord, hidle, hrows⟩ := hlru record hmem'
    obtain ⟨length, hresting⟩ := (fits_idle hidle).mp (h.record hrecord)
    refine ⟨hrecord, hidle, by simpa using hne, length, hresting.physical_eq, ?_⟩
    rcases hresting.resident with hresident | ⟨hnone, _⟩
    · exact hresident
    · rw [hnone] at hrows
      exact absurd hrows (lt_irrefl 0)

/-- The victims' rows cover the deficits. -/
theorem chooseVictims_covers (h : Accounts (fun _ => Fits config) runtime)
    {slotDeficit rowDeficit : ℤ} (hslots : 0 ≤ slotDeficit) (hrows : 0 ≤ rowDeficit)
    (hchosen : runtime.index.chooseVictims chainId
      (List.replicate config.numKvLayers slotDeficit) rowDeficit = .ok victims) :
    Victims runtime chainId victims ∧ slotDeficit ≤ heldBy .slots runtime.env (victims.map (ownerOf runtime)) ∧
      rowDeficit ≤ heldBy .rows runtime.env (victims.map (ownerOf runtime)) := by
  have hmax : (List.replicate config.numKvLayers slotDeficit).map (max 0) =
      List.replicate config.numKvLayers slotDeficit := by
    rw [List.map_replicate, max_eq_right hslots]
  obtain ⟨hnodup, hcandidates⟩ := victimCandidates_resting h chainId rowDeficit
    (List.replicate config.numKvLayers slotDeficit)
  obtain ⟨taken, hprefix, hvictims, hcovers⟩ := takeVictims_covers _
    (fun record hmem => by
      obtain ⟨_, _, _, length, hphysical, hresident, _⟩ := hcandidates record hmem
      exact ⟨hresident, length, hphysical⟩) rowDeficit slotDeficit
  unfold chooseVictims at hchosen
  rw [hmax, max_eq_right hrows] at hchosen
  dsimp only at hchosen
  split at hchosen
  · exact nomatch hchosen
  · next hnone =>
      have htaken : victims = taken.map ChainRecord.chainId := by
        rw [← hvictims]
        exact (Except.ok.inj hchosen).symm
      obtain ⟨hslotsCovered, hrowsCovered⟩ := hcovers hnone
      have hmem : ∀ record ∈ taken, record ∈ runtime.index.victimCandidates chainId rowDeficit
          (List.replicate config.numKvLayers slotDeficit) := fun _ hmem => hprefix.subset hmem
      -- what a candidate records is what its sequence holds:
      have hheld : ∀ record ∈ taken,
          record.physicalSlotsByLayer.headD 0 = Pool.slots.held runtime.env (ownerOf runtime record.chainId) ∧
          record.residentRows = Pool.rows.held runtime.env (ownerOf runtime record.chainId) := by
        intro record hrecord
        obtain ⟨hget, _, _, length, hphysical, hresident, hrow⟩ := hcandidates record (hmem _ hrecord)
        rw [ownerOf_eq hget, hphysical, (@Layered.replicate config _).headD_eq, hresident]
        simp [Pool.held, hrow, Pool.cost]
      refine ⟨⟨?_, ?_, ?_⟩, ?_, ?_⟩
      · rw [htaken]
        exact hnodup.sublist (List.Sublist.map _ (List.IsPrefix.sublist hprefix))
      · intro victim hvictim
        rw [htaken] at hvictim
        obtain ⟨record, hrecord, rfl⟩ := List.mem_map.mp hvictim
        exact (hcandidates record (hmem _ hrecord)).2.2.1
      · intro victim hvictim
        rw [htaken] at hvictim
        obtain ⟨record, hrecord, rfl⟩ := List.mem_map.mp hvictim
        obtain ⟨hget, hidle, _⟩ := hcandidates record (hmem _ hrecord)
        exact ⟨record, hget, hidle⟩
      · rw [List.map_congr_left fun record hrecord => (hheld record hrecord).1] at hslotsCovered
        rw [htaken]
        unfold heldBy
        rw [List.map_map, List.map_map]
        exact hslotsCovered
      · rw [List.map_congr_left fun record hrecord => (hheld record hrecord).2] at hrowsCovered
        rw [htaken]
        unfold heldBy
        rw [List.map_map, List.map_map]
        exact hrowsCovered

/-! ## The plan -/

/-- What a plan reserves. -/
def planReserved : Pool → ChainAdmissionPlan → ℤ
  | .slots, plan => plan.reservedSlotsByLayer.headD 0
  | .rows, plan => plan.reservedRows

/-- A plan that was just made: its reservation is what the request needs, and
fits into the headroom once its victims' rows are given back. -/
structure Planned (config : MemoryConfig) (plan : ChainAdmissionPlan)
    (runtime : ChainRuntime Fingerprint Digest ChainMemory) : Prop where
  victims : Victims runtime plan.chainId (plan.demoteChainIds ++ plan.victimChainIds)
  created : plan.status = .created → runtime.index.records.get? plan.chainId = none
  resumed : plan.status = .resumed → ∃ record,
    runtime.index.records.get? plan.chainId = some record ∧ record.state = .idle ∧
      record.seqId = plan.seqId
  reservedSlots : ∃ tokenCount, plan.reservedSlotsByLayer = List.replicate config.numKvLayers
    (requiredSlots (runtime.index.records.get? plan.chainId) tokenCount)
  reservedRows : plan.reservedRows = requiredRows (runtime.index.records.get? plan.chainId)
  demote : config.offload = false → plan.demoteChainIds = []
  covered : ∀ pool : Pool, planReserved pool plan ≤ pool.headroom runtime +
    heldBy pool runtime.env
      ((plan.demoteChainIds ++ plan.victimChainIds).map (ownerOf runtime))

theorem heldBy_perm (pool : Pool) (memory : ChainMemory) {seqIds others : List ℕ}
    (hperm : others.Perm seqIds) : heldBy pool memory others = heldBy pool memory seqIds :=
  (hperm.map _).sum_eq

/-- `_offload_plan` splits the victims and changes nothing. -/
theorem splitVictims_wpe (victims : List String) :
    wpe (splitVictims (standardHooks config) victims)
      (fun split next => next = runtime ∧ (split.1 ++ split.2).Perm victims)
      (fun next => next = runtime) runtime := by
  induction victims with
  | nil => exact ⟨rfl, .refl _⟩
  | cons victim rest ih =>
      unfold splitVictims
      rw [wpe_get, wpe_bind]
      refine wpe_ofExcept (fun record _ => ?_) rfl
      rw [wpe_bind]
      show wpe (call (ofMemory fun memory => decide (record.seqId ∈ memory.snapshots.keys)))
        _ _ runtime
      rw [wpe_ofMemory]
      refine wpe_then ih fun split next hnext => ⟨hnext.1, ?_⟩
      by_cases hsnapshot : decide (record.seqId ∈ runtime.env.snapshots.keys) = true
      · rw [if_pos hsnapshot]
        exact hnext.2.cons victim
      · rw [if_neg hsnapshot]
        exact List.perm_middle.trans (hnext.2.cons victim)

theorem offloadPlan_steady (plan : ChainAdmissionPlan) (hplan : plan.demoteChainIds = []) :
    wpe (offloadPlan (standardHooks config) plan)
      (fun split next => next = runtime ∧
        (∃ demote evict, split =
          { plan with demoteChainIds := demote, victimChainIds := evict }) ∧
        (split.demoteChainIds ++ split.victimChainIds).Perm plan.victimChainIds ∧
        (config.offload = false → split.demoteChainIds = []))
      (fun next => next = runtime) runtime := by
  unfold offloadPlan
  show wpe (if config.offload = true then _ else _) _ _ runtime
  rw [wpe_ite]
  constructor
  · intro hoffload
    refine wpe_then (splitVictims_wpe plan.victimChainIds) fun split next hnext => ?_
    exact ⟨hnext.1, ⟨split.1, split.2, rfl⟩, hnext.2, fun hnone => absurd (hoffload.symm.trans hnone) (by decide)⟩
  · intro _
    refine ⟨rfl, ⟨plan.demoteChainIds, plan.victimChainIds, rfl⟩, ?_, fun _ => hplan⟩
    rw [hplan, List.nil_append]

variable [DecidableEq Fingerprint] [DecidableEq Digest]

/-- A classification tells what the index has under the chain's id. -/
theorem classifyAdmission_target {index : ChainCacheIndex Fingerprint Digest}
    {status : AdmissionStatus} {reusedTokens : ℤ}
    (hclass : index.classifyAdmission sha chainId seqId input fingerprint = .ok (status, reusedTokens)) :
    (status = .created → index.records.get? chainId = none) ∧
      (status = .resumed → ∃ record, index.records.get? chainId = some record ∧
        record.state = .idle ∧ record.seqId = seqId) := by
  unfold classifyAdmission at hclass
  cases hrecord : index.records.get? chainId with
  | none =>
      rw [hrecord] at hclass
      refine ⟨fun _ => rfl, fun hresumed => ?_⟩
      subst hresumed
      dsimp only at hclass
      split at hclass
      · unfold lookupRecord at hclass
        rw [hrecord] at hclass
        dsimp only at hclass
        split at hclass
        · exact nomatch hclass
        · exact nomatch hclass
      · exact nomatch hclass
  | some record =>
      rw [hrecord] at hclass
      obtain ⟨hidle, _, hseq, _, hresult⟩ := classifyResume_eq_ok.mp hclass
      have hstatus : status = .resumed := congrArg Prod.fst hresult
      refine ⟨fun hcreated => ?_, fun _ => ⟨record, rfl, hidle, hseq⟩⟩
      exact nomatch hstatus.symm.trans hcreated

/-- A plan that the index makes of the demand found for it. -/
theorem planned_of_demand (h : Solvent config runtime) {tokenCount : ℤ}
    {plan split : ChainAdmissionPlan} {demote evict : List String}
    (hplan : runtime.index.planAdmissionInput sha chainId seqId input fingerprint
      (demandOf config runtime (runtime.index.records.get? chainId) tokenCount) = .ok plan)
    (hsplit : split = { plan with demoteChainIds := demote, victimChainIds := evict })
    (hperm : (demote ++ evict).Perm plan.victimChainIds) (hdemote : config.offload = false → demote = []) :
    Planned config { split with decodeReservedSlotsByLayer := decodeReserved } runtime := by
  obtain ⟨status, reusedTokens, victims, hclass, hchosen, rfl⟩ := planAdmissionInput_eq_ok.mp hplan
  obtain ⟨hcreated, hresumed⟩ := classifyAdmission_target hclass
  have hnonneg := requiredSlots_nonneg h.accounts chainId tokenCount
  have hrowsNonneg : 0 ≤ requiredRows (runtime.index.records.get? chainId) := by
    unfold requiredRows
    split <;> decide
  obtain ⟨hvictims, hslots, hrows⟩ :=
    chooseVictims_covers h.accounts (le_max_left 0 _) (le_max_left 0 _) hchosen
  have hcoveredSlots := h.covered .slots
  have hcoveredRows := h.covered .rows
  subst hsplit
  have hreserved : (demandOf config runtime (runtime.index.records.get? chainId)
      tokenCount).reservedSlotsByLayer.map (max 0) = List.replicate config.numKvLayers
        (requiredSlots (runtime.index.records.get? chainId) tokenCount) := by
    show (List.replicate config.numKvLayers _).map (max 0) = _
    rw [List.map_replicate, max_eq_right hnonneg]
  refine ⟨hvictims.perm hperm, hcreated, hresumed, ⟨tokenCount, hreserved⟩,
    max_eq_right hrowsNonneg, hdemote, fun pool => ?_⟩
  rw [heldBy_perm pool _ (hperm.map (ownerOf runtime))]
  cases pool with
  | slots =>
      show List.headD (List.map (max 0) _) 0 ≤ _
      rw [hreserved, (@Layered.replicate config _).headD_eq]
      show _ ≤ _ + heldBy _ _ (victims.map _)
      omega
  | rows =>
      show max 0 (requiredRows (runtime.index.records.get? chainId)) ≤
        _ + heldBy _ _ (victims.map _)
      omega

/-- What `chain_admission_plan` returns. -/
theorem chainAdmissionPlan_planned (h : Solvent config runtime) (sha : Sha256 Digest)
    (fingerprint : Fingerprint) (chainId : String) (seqId : ℕ) (tokenIds : List ℤ) :
    wpe (chainAdmissionPlan (standardHooks config) sha fingerprint chainId seqId tokenIds)
      (fun plan next => Steady runtime next ∧ Planned config plan next ∧ plan.chainId = chainId ∧ plan.seqId = seqId)
      (Steady runtime) runtime := by
  unfold chainAdmissionPlan
  rw [wpe_bind]
  have hreserved : ∃ decodeReserved, Layered config decodeReserved runtime.env.decodeReserved ∧
      call (standardHooks config).decodeReservedSlots runtime = (.ok decodeReserved, runtime) := by
    refine ⟨if runtime.env.decodeReserved = 0 then []
      else List.replicate config.numKvLayers (runtime.env.decodeReserved : ℤ), ?_, rfl⟩
    split
    · next hzero => exact .inl ⟨rfl, by rw [hzero]; rfl⟩
    · exact .replicate _
  obtain ⟨decodeReserved, hlayered, hrun⟩ := hreserved
  rw [wpe_of_ok hrun]
  unfold planWith
  refine wpe_then (admissionRequirements_wpe h.accounts chainId _ hlayered) ?_
  intro demand next hdemand
  obtain ⟨hnext, rfl⟩ := hdemand
  rw [wpe_get, wpe_bind]
  refine wpe_ofExcept (fun plan hplan => ?_) hnext
  obtain ⟨status, reusedTokens, victims, _, _, heq⟩ := planAdmissionInput_eq_ok.mp hplan
  refine wpe_then_imp (offloadPlan_steady plan (by rw [heq])) (fun split last hsplit => ?_)
    fun last hlast => hlast ▸ hnext
  obtain ⟨rfl, ⟨demote, evict, rfl⟩, hperm, hdemote⟩ := hsplit
  refine ⟨hnext, planned_of_demand (hnext.solvent h) hplan rfl hperm hdemote, ?_, ?_⟩
  · rw [heq]
  · rw [heq]

end ChainRuntime
