import SparseEngine.ChainCache.Planning

/-!
# Applying a plan against the memory

The rows of the victims come back one by one: first those that are demoted,
while the victims are still in the index, then those whose records were
evicted.  In between the admitted chain is entered with its reservation.
`heldBy` of the sequences that are still to be freed carries the plan's
inequality through.
-/

open Routine ChainCacheIndex

variable {Fingerprint Digest : Type}

namespace ChainMemory

theorem decodeReserved_release_le (memory : ChainMemory) (seqId : ℕ) :
    ({ memory with decodeWindows := memory.decodeWindows.erase seqId } :
      ChainMemory).decodeReserved ≤ memory.decodeReserved := by
  unfold decodeReserved
  cases hwindow : memory.decodeWindows.get? seqId with
  | none =>
      have hsame : memory.decodeWindows.erase seqId = memory.decodeWindows :=
        Dict.erase_of_not_mem (Dict.not_mem_keys_iff.mpr hwindow)
      rw [hsame]
  | some left =>
      have hsum := Dict.sum_values_erase (fun left : ℕ => left) hwindow
      simp only [List.map_id'] at hsum
      show (memory.decodeWindows.erase seqId).values.sum ≤ _
      omega

end ChainMemory

/-- A record after an assignment of its residency and its reservation. -/
def ChainRecord.assigned (record : ChainRecord Fingerprint Digest) (residentRows : ℤ)
    (reservedSlots : List ℤ) (reservedRows : ℤ) : ChainRecord Fingerprint Digest :=
  { record with
    residentRows := residentRows
    reservedSlotsByLayer := reservedSlots
    reservedRows := reservedRows }

namespace ChainRuntime

variable {config : MemoryConfig} {runtime next : ChainRuntime Fingerprint Digest ChainMemory}
  {pool : Pool} {P : String → ChainMemory → ChainRecord Fingerprint Digest → Prop}

/-! ## Demotions -/

variable {chainId : String} {record victim : ChainRecord Fingerprint Digest}
  {bad : ChainRuntime Fingerprint Digest ChainMemory → Prop} {memory later : ChainMemory}
  {seqId : ℕ} {seqIds : List ℕ}

theorem inv_assignResidency {index : ChainCacheIndex Fingerprint Digest} (h : Inv index)
    (hrecord : index.records.get? chainId = some record) (residentRows : ℤ) (reservedSlots : List ℤ)
    (reservedRows : ℤ) :
    Inv { index with
      records := index.records.set chainId (record.assigned residentRows reservedSlots reservedRows) } := by
  have hquiet := (assignResidency_quiet h chainId residentRows reservedSlots reservedRows).inv
  unfold Routine.after assignResidency at hquiet
  rw [modifyRecord_apply hrecord] at hquiet
  exact hquiet

theorem wpe_assignResidency (hrecord : runtime.index.records.get? chainId = some record)
    (residentRows : ℤ) (reservedSlots : List ℤ) (reservedRows : ℤ)
    {post : Unit → ChainRuntime Fingerprint Digest ChainMemory → Prop} :
    wpe (onIndex (assignResidency chainId residentRows reservedSlots reservedRows)) post bad runtime ↔
      post () { runtime with
        index.records := runtime.index.records.set chainId
          (record.assigned residentRows reservedSlots reservedRows) } := by
  rw [wpe_onIndex]
  exact wpe_of_ok (modifyRecord_apply hrecord _)

/-- A chain without a row is not owed less for it, and the pool has its row
back. -/
theorem headroom_of_totalOwed (htotal : pool.totalOwed next = pool.totalOwed runtime)
    (hmemory : memory = runtime.env) (hnext : next.env = memory.withoutRow seqId) :
    pool.headroom next = pool.headroom runtime + pool.held runtime.env seqId := by
  unfold Pool.headroom
  rw [htotal, hnext, Pool.free_withoutRow, Pool.decode_withoutRow, hmemory]
  omega

/-- Giving back the row of an IDLE chain whose snapshot stays. -/
theorem solvent_demote (h : Solvent config runtime)
    (next : ChainRuntime Fingerprint Digest ChainMemory) (hoffload : config.offload = true)
    (hrecord : runtime.index.records.get? chainId = some victim) (hidle : victim.state = .idle)
    (hinv : Inv next.index) (hrecords : next.index.records =
      runtime.index.records.set chainId (victim.assigned 0 victim.reservedSlotsByLayer victim.reservedRows))
    (hmemory : next.env = runtime.env.withoutRow victim.seqId) :
    Solvent config next ∧ ∀ pool : Pool, pool.headroom next =
      pool.headroom runtime + pool.held runtime.env victim.seqId := by
  have hcalm : ∀ seqId, seqId ≠ victim.seqId → ChainMemory.Calm seqId runtime.env next.env := by
    intro seqId hne
    rw [hmemory]
    exact ChainMemory.calm_withoutRow hne
  obtain ⟨length, hresting⟩ := (fits_idle hidle).mp (h.accounts.record hrecord)
  have hidle' : (victim.assigned 0 victim.reservedSlotsByLayer victim.reservedRows).state =
      .idle := hidle
  have hdemoted : Fits config next.env (victim.assigned 0 victim.reservedSlotsByLayer victim.reservedRows) := by
    refine (fits_idle hidle').mpr ⟨length, hresting.physical_eq, .inr ⟨rfl, ?_, hoffload⟩, ?_⟩
    · rw [hmemory, ChainMemory.get?_withoutRow]
      exact if_pos rfl
    · rw [hmemory, ChainMemory.snapshots_withoutRow]
      exact hresting.snapshot
  have hheadroom : ∀ pool : Pool, pool.headroom next =
      pool.headroom runtime + pool.held runtime.env victim.seqId := by
    intro pool
    have htotal := h.accounts.totalOwed_revise pool hrecord hrecords hcalm
    rw [Pool.owed_idle hidle, Pool.owed_idle hidle', add_zero, add_zero] at htotal
    exact headroom_of_totalOwed htotal rfl hmemory
  refine ⟨⟨h.accounts.revise (calmProperty_fits config) hrecord hinv hrecords hcalm hdemoted
    fun _ _ _ _ hfits => hfits, fun pool => ?_⟩, hheadroom⟩
  rw [hheadroom]
  exact add_nonneg (h.covered pool) (Pool.held_nonneg _ _ _)

theorem heldBy_congr (hrows : ∀ seqId ∈ seqIds, later.rowSeqLens.get? seqId = memory.rowSeqLens.get? seqId) :
    heldBy pool later seqIds = heldBy pool memory seqIds := by
  unfold heldBy
  apply congrArg List.sum
  apply List.map_congr_left
  intro seqId hmem
  exact Pool.held_congr (hrows seqId hmem)

theorem heldBy_cons (pool : Pool) (memory : ChainMemory) (seqId : ℕ) (rest : List ℕ) :
    heldBy pool memory (seqId :: rest) = pool.held memory seqId + heldBy pool memory rest := rfl

/-- Some chains were touched, with the sequences they own. -/
structure Touched (chainIds : List String) (seqIds : List ℕ)
    (runtime next : ChainRuntime Fingerprint Digest ChainMemory) : Prop where
  records : ∀ chainId, chainId ∉ chainIds →
    next.index.records.get? chainId = runtime.index.records.get? chainId
  kept : ∀ chainId ∈ runtime.index.records.keys, chainId ∈ next.index.records.keys
  memory : ∀ seqId, seqId ∉ seqIds → ChainMemory.Calm seqId runtime.env next.env

theorem Touched.trans {chainIds others : List String} {otherSeqIds : List ℕ}
    {last : ChainRuntime Fingerprint Digest ChainMemory}
    (hfirst : Touched chainIds seqIds runtime next) (hsecond : Touched others otherSeqIds next last)
    (hothers : others ⊆ chainIds) (hseqIds : otherSeqIds ⊆ seqIds) :
    Touched chainIds seqIds runtime last where
  records chainId hnot :=
    (hsecond.records chainId fun hmem => hnot (hothers hmem)).trans (hfirst.records chainId hnot)
  kept chainId hmem := hsecond.kept chainId (hfirst.kept chainId hmem)
  memory seqId hnot :=
    (hfirst.memory seqId hnot).trans (hsecond.memory seqId fun hmem => hnot (hseqIds hmem))

theorem steady_touched (h : Steady runtime next) (chainIds : List String) (seqIds : List ℕ) :
    Touched chainIds seqIds runtime next :=
  ⟨fun _ _ => by rw [h.index_eq], fun _ hmem => by rwa [h.index_eq], fun seqId _ => h.memory.calm seqId⟩

/-- `offload.wait` as a hook. -/
theorem wpe_waitSnapshot {post : Bool → ChainRuntime Fingerprint Digest ChainMemory → Prop}
    (hpost : ∀ valid next, Steady runtime next → post valid next) (hbad : ∀ next, Steady runtime next → bad next) :
    wpe (call ((standardHooks config).waitSnapshot seqId)) post bad runtime :=
  wpe_harmless (.bind (ChainMemory.harmless_wait seqId) fun _ => .pure _) hpost hbad

/-- The loop over `demote_chain_ids` turns the rows of its chains into
headroom. -/
theorem demoteAll_wpe (h : Solvent config runtime) (hoffload : config.offload = true)
    (chainIds : List String) (hnodup : (chainIds.map (ownerOf runtime)).Nodup)
    (hids : ∀ chainId ∈ chainIds, chainId ∈ runtime.index.records.keys) :
    wpe (demoteAll (standardHooks config) chainIds)
      (fun _ next => Solvent config next ∧ Touched chainIds (chainIds.map (ownerOf runtime)) runtime next ∧
        ∀ pool : Pool, pool.headroom next =
          pool.headroom runtime + heldBy pool runtime.env (chainIds.map (ownerOf runtime)))
      (Solvent config) runtime := by
  induction chainIds generalizing runtime with
  | nil => exact ⟨h, steady_touched (.refl runtime) _ _, fun pool => (add_zero _).symm⟩
  | cons chainId rest ih =>
      obtain ⟨victim, hvictim⟩ := Dict.mem_keys_iff.mp (hids chainId List.mem_cons_self)
      have howner : ownerOf runtime chainId = victim.seqId := ownerOf_eq hvictim
      rw [List.map_cons, List.nodup_cons, howner] at hnodup
      have hne : ∀ other ∈ rest, other ≠ chainId := by
        intro other hmem heq
        have := @List.mem_map_of_mem _ _ _ _ (ownerOf runtime) hmem
        rw [heq, howner] at this
        exact hnodup.1 this
      unfold demoteAll
      rw [wpe_bind, wpe_onIndex]
      refine wpe_lookup (fun found hfound => ?_) h
      obtain rfl := Option.some.inj (hvictim.symm.trans hfound)
      refine wpe_guarded h fun hstate => ?_
      have hidle : victim.state = .idle := not_not.mp hstate
      rw [wpe_bind]
      refine wpe_waitSnapshot (fun valid waited hwaited => ?_) fun next hnext => hnext.solvent h
      have hsolvent := hwaited.solvent h
      refine wpe_guarded hsolvent fun _ => ?_
      have hvictim' : waited.index.records.get? chainId = some victim := by
        rw [hwaited.index_eq]
        exact hvictim
      -- the row is given back, then `resident_rows` says so
      rw [wpe_bind]
      show wpe (call (inMemory (ChainMemory.freeSeq victim.seqId))) _ _ waited
      rw [wpe_inMemory]
      unfold ChainMemory.freeSeq
      have hfreed : (ChainRuntime.mk waited.index (waited.env.withoutRow victim.seqId) :
          ChainRuntime Fingerprint Digest ChainMemory).index.records.get? chainId = some victim :=
        hvictim'
      rw [wpe_write, wpe_bind, wpe_assignResidency hfreed]
      generalize hdemoted : (ChainRuntime.mk
        { waited.index with
          records := waited.index.records.set chainId
            (victim.assigned 0 victim.reservedSlotsByLayer victim.reservedRows) }
        (waited.env.withoutRow victim.seqId) :
          ChainRuntime Fingerprint Digest ChainMemory) = demoted
      obtain ⟨hsolvent', hheadroom⟩ := solvent_demote hsolvent demoted hoffload hvictim' hidle
        (by rw [← hdemoted]; exact inv_assignResidency hsolvent.accounts.inv hvictim' _ _ _)
        (by rw [← hdemoted]) (by rw [← hdemoted])
      have htouched : Touched [chainId] [victim.seqId] runtime demoted := by
        refine (steady_touched hwaited _ _).trans ⟨fun other hnot => ?_, fun other hmem => ?_, fun seqId hnot => ?_⟩
          (List.Subset.refl _) (List.Subset.refl _)
        · rw [← hdemoted]
          exact Dict.get?_set_of_ne _ _ (by simpa using hnot)
        · rw [← hdemoted]
          exact Dict.mem_keys_set.mpr (.inr hmem)
        · rw [← hdemoted]
          exact ChainMemory.calm_withoutRow (by simpa using hnot)
      have howners : rest.map (ownerOf demoted) = rest.map (ownerOf runtime) := by
        apply List.map_congr_left
        intro other hmem
        unfold ownerOf
        rw [htouched.records other (by simpa using hne other hmem)]
      have hrest := ih hsolvent' (howners ▸ hnodup.2) fun other hmem => by
        obtain ⟨record, hrecord⟩ :=
          Dict.mem_keys_iff.mp (hids other (List.mem_cons_of_mem _ hmem))
        apply Dict.mem_keys_of_get? (v := record)
        rw [htouched.records other (by simpa using hne other hmem)]
        exact hrecord
      refine wpe_mono hrest fun _ last hlast => ⟨hlast.1, ?_, fun pool => ?_⟩
      · rw [howners] at hlast
        refine ⟨fun other hnot => ?_, fun other hmem => ?_, fun seqId hnot => ?_⟩
        · rw [List.mem_cons, not_or] at hnot
          rw [hlast.2.1.records other hnot.2, htouched.records other (by simpa using hnot.1)]
        · exact hlast.2.1.kept other (htouched.kept other hmem)
        · rw [List.map_cons, howner, List.mem_cons, not_or] at hnot
          exact (htouched.memory seqId (by simpa using hnot.1)).trans (hlast.2.1.memory seqId hnot.2)
      · have hkept : heldBy pool demoted.env (rest.map (ownerOf runtime)) =
            heldBy pool runtime.env (rest.map (ownerOf runtime)) := by
          apply heldBy_congr
          intro seqId hmem
          refine (htouched.memory seqId fun heq => ?_).row_eq
          exact hnodup.1 (List.mem_singleton.mp heq ▸ hmem)
        have hbefore : pool.headroom waited = pool.headroom runtime := hwaited.headroom_eq pool
        have hheld : pool.held waited.env victim.seqId = pool.held runtime.env victim.seqId :=
          hwaited.held_eq victim.seqId
        rw [hlast.2.2 pool, howners, hkept, hheadroom pool, hbefore, hheld, List.map_cons, howner, heldBy_cons]
        omega

/-- Dropping the snapshots of the evicted chains. -/
theorem dropAll_wpe (chainIds : List String) :
    wpe (dropAll (standardHooks config) chainIds) (fun _ => Steady runtime) (Steady runtime)
      runtime := by
  induction chainIds generalizing runtime with
  | nil => exact .refl runtime
  | cons chainId rest ih =>
      unfold dropAll
      rw [wpe_bind, wpe_onIndex]
      refine wpe_lookup (fun victim _ => ?_) (.refl runtime)
      rw [wpe_bind]
      refine wpe_harmless (ChainMemory.harmless_drop victim.seqId) (fun _ next hnext => ?_) fun next hnext => hnext
      exact wpe_imp ih (fun _ last hlast => hnext.trans hlast) fun last hlast => hnext.trans hlast

/-! ## Evictions -/

/-- An IDLE chain leaves the index; its row is no one's until it is freed. -/
theorem solvent_evict (h : Solvent config runtime) (next : ChainRuntime Fingerprint Digest ChainMemory)
    (hrecord : runtime.index.records.get? chainId = some victim) (hidle : victim.state = .idle)
    (hinv : Inv next.index) (hrecords : next.index.records = runtime.index.records.erase chainId)
    (hmemory : next.env = runtime.env) :
    Solvent config next ∧ ∀ pool : Pool, pool.headroom next = pool.headroom runtime := by
  have hcalm : ∀ seqId, seqId ≠ victim.seqId → ChainMemory.Calm seqId runtime.env next.env := by
    intro seqId _
    rw [hmemory]
    exact .refl _ _
  have hheadroom : ∀ pool : Pool, pool.headroom next = pool.headroom runtime := by
    intro pool
    have htotal := h.accounts.totalOwed_retire pool hrecord hrecords hcalm
    rw [Pool.owed_idle hidle, add_zero] at htotal
    unfold Pool.headroom
    rw [htotal, hmemory]
  refine ⟨⟨h.accounts.retire (calmProperty_fits config) hrecord hinv hrecords hcalm, fun pool => ?_⟩, hheadroom⟩
  rw [hheadroom]
  exact h.covered pool

/-- Evicting IDLE chains from the index. -/
theorem evictAll_solvent (h : Solvent config runtime) (chainIds : List String) :
    wpe (onIndex (evictAll chainIds))
      (fun _ next => Solvent config next ∧ next.env = runtime.env ∧
        (∀ other, next.index.records.get? other =
          if other ∈ chainIds then none else runtime.index.records.get? other) ∧
        ∀ pool : Pool, pool.headroom next = pool.headroom runtime)
      (Solvent config) runtime := by
  induction chainIds generalizing runtime with
  | nil => exact ⟨h, rfl, fun other => (if_neg (List.not_mem_nil)).symm, fun pool => rfl⟩
  | cons chainId rest ih =>
      rw [wpe_onIndex]
      unfold evictAll
      rw [wpe_bind]
      refine evict_wpe h.accounts.inv h fun victim hvictim hidle hid => ?_
      subst hid
      obtain ⟨hsolvent, hheadroom⟩ := solvent_evict h
        { runtime with index := afterRetire runtime.index victim } hvictim hidle
        (h.accounts.inv.afterRetire hvictim) rfl rfl
      have hrest := ih hsolvent
      rw [wpe_onIndex] at hrest
      refine wpe_mono hrest fun _ last hlast => ?_
      obtain ⟨hlast', henv, hget, hkept⟩ := hlast
      refine ⟨hlast', henv, fun other => ?_, fun pool => (hkept pool).trans (hheadroom pool)⟩
      rw [hget]
      show (if other ∈ rest then none else (runtime.index.records.erase victim.chainId).get? other) = _
      rw [Dict.get?_erase]
      by_cases heq : other = victim.chainId
      · simp [heq]
      · simp [heq]

/-! ## The admitted chain -/

/-- A chain that is just being resumed: it still rests, but already reserves. -/
def Opening (config : MemoryConfig) (memory : ChainMemory)
    (record : ChainRecord Fingerprint Digest) : Prop :=
  record.state = .active ∧ ∃ length promised, Resting config memory record length ∧
    Layered config record.reservedSlotsByLayer promised ∧
    (record.residentRows = 0 → (length : ℤ) ≤ promised ∧ 1 ≤ record.reservedRows)

/-- Every record fits, but the one that the plan resumes, which is opening. -/
def FitsOrOpens (config : MemoryConfig) (plan : ChainAdmissionPlan) (chainId : String)
    (memory : ChainMemory) (record : ChainRecord Fingerprint Digest) : Prop :=
  if plan.status = .resumed ∧ chainId = plan.chainId then Opening config memory record
  else Fits config memory record

theorem Opening.calm (h : Opening config memory record)
    (hcalm : ChainMemory.Calm record.seqId memory later) : Opening config later record := by
  obtain ⟨hactive, length, promised, hresting, hrest⟩ := h
  exact ⟨hactive, length, promised, hresting.calm hcalm, hrest⟩

theorem calmProperty_fitsOrOpens (config : MemoryConfig) (plan : ChainAdmissionPlan) :
    CalmProperty fun chainId memory (record : ChainRecord Fingerprint Digest) =>
      FitsOrOpens config plan chainId memory record := by
  refine ⟨fun {chainId memory next record} h hcalm => ?_⟩
  unfold FitsOrOpens at h ⊢
  split
  · next hopens =>
      rw [if_pos hopens] at h
      exact Opening.calm h hcalm
  · next hfits =>
      rw [if_neg hfits] at h
      exact h.calm hcalm

/-- A sequence that nothing holds. -/
structure Unused (memory : ChainMemory) (seqId : ℕ) : Prop where
  row : memory.rowSeqLens.get? seqId = none
  snapshot : memory.snapshots.get? seqId = none

theorem Unused.calm (h : Unused memory seqId) (hcalm : ChainMemory.Calm seqId memory later) :
    Unused later seqId where
  row := hcalm.row_eq.trans h.row
  snapshot := by
    cases hlater : later.snapshots.get? seqId with
    | none => rfl
    | some found =>
        obtain ⟨snapshot, hsnapshot, _⟩ := hcalm.snapshot hlater
        exact nomatch h.snapshot.symm.trans hsnapshot

/-- The reservation of a plan for what the index has under its chain. -/
structure Reserves (config : MemoryConfig) (plan : ChainAdmissionPlan)
    (target : Option (ChainRecord Fingerprint Digest)) : Prop where
  slots : ∃ tokenCount, plan.reservedSlotsByLayer =
    List.replicate config.numKvLayers (requiredSlots target tokenCount)
  rows : plan.reservedRows = requiredRows target

theorem Reserves.reserved_nonneg {plan : ChainAdmissionPlan}
    {target : Option (ChainRecord Fingerprint Digest)} (h : Reserves config plan target)
    (hphysical : ∀ record ∈ target, 0 ≤ record.physicalSlotsByLayer.headD 0) (pool : Pool) :
    0 ≤ planReserved pool plan := by
  cases pool with
  | slots =>
      obtain ⟨tokenCount, hslots⟩ := h.slots
      show 0 ≤ plan.reservedSlotsByLayer.headD 0
      rw [hslots, (@Layered.replicate config _).headD_eq]
      apply add_nonneg (le_max_left _ _)
      split
      · cases target with
        | none => exact le_rfl
        | some record => exact hphysical record rfl
      · exact le_rfl
  | rows =>
      show 0 ≤ plan.reservedRows
      rw [h.rows]
      unfold requiredRows
      split <;> decide

/-- A chain was created, and is owed what its plan reserves. -/
theorem created_opens (h : Solvent config runtime) (sha : Sha256 Digest)
    (plan : ChainAdmissionPlan) (hstatus : plan.status = .created) (fingerprint : Fingerprint)
    (hreserves : Reserves config plan (none : Option (ChainRecord Fingerprint Digest)))
    (hunused : Unused runtime.env plan.seqId) (hnew : plan.chainId ∉ runtime.index.records.keys)
    (howner : plan.seqId ∉ runtime.index.seqIdToChainId.keys) {created : ChainRecord Fingerprint Digest}
    (hcreated : created = createdRecord sha plan fingerprint (runtime.index.clock + 1))
    (hnext : next = ⟨runtime.index.afterCreate plan created, runtime.env⟩) :
    Accounts (FitsOrOpens config plan) next ∧
      ∀ pool : Pool, pool.headroom runtime - planReserved pool plan ≤ pool.headroom next := by
  obtain ⟨tokenCount, hslots⟩ := hreserves.slots
  have hinv := h.accounts.inv.afterCreate sha fingerprint (runtime.index.clock + 1) hnew howner
  rw [← hcreated] at hinv
  have hactive : created.state = .active := by rw [hcreated]; rfl
  have hturning : Turning config runtime.env created 0 := by
    subst hcreated
    exact
      { physical_eq := .nil
        reserved_eq := ⟨_, .inr hslots⟩
        grown := fun hrow => by cases hunused.row.symm.trans hrow
        fresh := fun _ => ⟨rfl, .inr hreserves.rows.ge⟩
        snapshot := fun hsnapshot => by cases hunused.snapshot.symm.trans hsnapshot }
  subst hnext
  refine ⟨⟨hinv, fun {other otherRecord} hother => ?_⟩, fun pool => ?_⟩
  · unfold FitsOrOpens
    rw [if_neg (by rw [hstatus]; simp)]
    have hother' : (runtime.index.records.set plan.chainId created).get? other = some otherRecord := hother
    rw [Dict.get?_set] at hother'
    split at hother'
    · obtain rfl := Option.some.inj hother'
      exact (fits_active hactive).mpr ⟨0, hturning⟩
    · exact h.accounts.record hother'
  · have htotal : pool.totalOwed (⟨runtime.index.afterCreate plan created, runtime.env⟩ :
        ChainRuntime Fingerprint Digest ChainMemory) =
        pool.totalOwed runtime + pool.owed runtime.env created :=
      Dict.sum_values_set_of_not_mem created (pool.owed runtime.env) hnew
    have howed := pool.owed_le_reserved runtime.env created
    have hreserved : pool.reserved created = planReserved pool plan := by
      rw [hcreated]
      cases pool <;> rfl
    have hnonneg := hreserves.reserved_nonneg (fun _ hmem => by cases hmem) pool
    unfold Pool.headroom
    rw [htotal]
    show _ ≤ pool.free runtime.env - _ - pool.decode runtime.env
    omega

/-- A chain was resumed, and is owed what its plan reserves. -/
theorem resumed_opens (h : Solvent config runtime) (plan : ChainAdmissionPlan)
    (hstatus : plan.status = .resumed) {resumed : ChainRecord Fingerprint Digest}
    (hrecord : runtime.index.records.get? plan.chainId = some record) (hidle : record.state = .idle)
    (hreserves : Reserves config plan (some record))
    (hresumed : resumed = resumedRecord record plan (runtime.index.clock + 1))
    (hnext : next = ⟨runtime.index.afterActivate plan.chainId resumed, runtime.env⟩) :
    Accounts (FitsOrOpens config plan) next ∧
      ∀ pool : Pool, pool.headroom runtime - planReserved pool plan ≤ pool.headroom next := by
  obtain ⟨tokenCount, hslots⟩ := hreserves.slots
  obtain ⟨length, hresting⟩ := (fits_idle hidle).mp (h.accounts.record hrecord)
  -- an IDLE chain holds one length on every layer:
  have hhead : record.physicalSlotsByLayer.headD 0 = length := by
    rw [hresting.physical_eq, (@Layered.replicate config _).headD_eq]
  have hinv : Inv next.index := by
    rw [hnext, hresumed]
    exact (Quiet.afterActivate h.accounts.inv hrecord plan _).inv
  have hopening : Opening config runtime.env resumed := by
    rw [hresumed]
    refine ⟨rfl, length, requiredSlots (some record) tokenCount,
      ⟨hresting.physical_eq, hresting.resident, hresting.snapshot⟩, .inr hslots, ?_⟩
    intro hrows
    have hneeds : needsRow (some record) = true := decide_eq_true hrows
    -- a chain without a row is promised room for all it restores
    constructor
    · unfold requiredSlots
      rw [if_pos hneeds]
      show _ ≤ _ + record.physicalSlotsByLayer.headD 0
      rw [hhead]
      have := le_max_left 0 (tokenCount - record.processedTokenCount)
      show (length : ℤ) ≤ max 0 (tokenCount - record.processedTokenCount) + length
      omega
    · show 1 ≤ plan.reservedRows
      rw [hreserves.rows]
      unfold requiredRows
      rw [if_pos hneeds]
  have hopens : FitsOrOpens config plan plan.chainId next.env resumed := by
    unfold FitsOrOpens
    rw [if_pos ⟨hstatus, rfl⟩, hnext]
    exact hopening
  have hcalm : ∀ seqId, seqId ≠ record.seqId → ChainMemory.Calm seqId runtime.env next.env := by
    intro seqId _
    rw [hnext]
    exact .refl _ _
  have hrecords : next.index.records = runtime.index.records.set plan.chainId resumed := by
    rw [hnext]
    rfl
  refine ⟨h.accounts.revise (calmProperty_fitsOrOpens config plan) hrecord hinv hrecords hcalm
    hopens fun other memory otherRecord hne hfits => ?_, fun pool => ?_⟩
  · unfold FitsOrOpens
    rw [if_neg fun hboth => hne hboth.2]
    exact hfits
  · have htotal := h.accounts.totalOwed_revise pool hrecord hrecords hcalm
    rw [Pool.owed_idle hidle, add_zero] at htotal
    -- an IDLE chain is owed nothing, an opened one at most what the plan reserves:
    have howed := pool.owed_le_reserved next.env resumed
    have hreserved : pool.reserved resumed = planReserved pool plan := by
      rw [hresumed]
      cases pool <;> rfl
    have hnonneg := hreserves.reserved_nonneg (fun other hmem => by
      obtain rfl := Option.some.inj hmem
      rw [hhead]
      exact Int.natCast_nonneg length) pool
    unfold Pool.headroom
    rw [htotal, hnext]
    rw [hnext] at howed
    show _ ≤ pool.free runtime.env - _ - pool.decode runtime.env
    omega

/-! ## Rows that no record owns -/

/-- No record owns any of the sequences. -/
def Orphaned (runtime : ChainRuntime Fingerprint Digest ChainMemory) (seqIds : List ℕ) : Prop :=
  ∀ {chainId record}, runtime.index.records.get? chainId = some record → record.seqId ∉ seqIds

/-- The memory after `_free_seq_payload`. -/
def freed (memory : ChainMemory) (seqId : ℕ) : ChainMemory :=
  ({ memory with decodeWindows := memory.decodeWindows.erase seqId } : ChainMemory).withoutRow seqId

theorem freeSeqPayload_apply (seqId : ℕ) :
    call ((standardHooks config).freeSeqPayload seqId) runtime =
      (.ok (), { runtime with env := freed runtime.env seqId }) := rfl

theorem calm_freed {other : ℕ} (hne : other ≠ seqId) :
    ChainMemory.Calm other memory (freed memory seqId) := by
  have hwindow : ChainMemory.Calm other memory
      { memory with decodeWindows := memory.decodeWindows.erase seqId } :=
    ⟨rfl, fun hlater => ⟨_, hlater, fun hlive => ⟨hlive, rfl⟩⟩⟩
  exact hwindow.trans (ChainMemory.calm_withoutRow hne)

/-- Freeing adds to the pool what the row held, and may end a decode window. -/
theorem free_sub_decode_freed (pool : Pool) (memory : ChainMemory) (seqId : ℕ) :
    pool.free memory - pool.decode memory + pool.held memory seqId ≤
      pool.free (freed memory seqId) - pool.decode (freed memory seqId) := by
  unfold freed
  rw [Pool.free_withoutRow, Pool.decode_withoutRow]
  have hheld : pool.held { memory with decodeWindows := memory.decodeWindows.erase seqId } seqId =
      pool.held memory seqId := rfl
  have hfree : pool.free { memory with decodeWindows := memory.decodeWindows.erase seqId } =
      pool.free memory := by cases pool <;> rfl
  have hdecode : pool.decode { memory with decodeWindows := memory.decodeWindows.erase seqId } ≤
      pool.decode memory := by
    cases pool with
    | slots => exact Int.ofNat_le.mpr (ChainMemory.decodeReserved_release_le memory seqId)
    | rows => exact le_rfl
  omega

/-- Freeing a row that no record owns. -/
theorem accounts_freed (h : Accounts P runtime) (hP : CalmProperty P) (horphan : Orphaned runtime [seqId]) :
    Accounts P { runtime with env := freed runtime.env seqId } ∧
      ∀ pool : Pool, pool.headroom runtime + pool.held runtime.env seqId ≤
        pool.headroom { runtime with env := freed runtime.env seqId } := by
  have hcalm : ∀ {chainId record}, runtime.index.records.get? chainId = some record →
      ChainMemory.Calm record.seqId runtime.env (freed runtime.env seqId) := by
    intro chainId record hrecord
    exact calm_freed fun heq => horphan hrecord (List.mem_singleton.mpr heq)
  refine ⟨h.calm hP hcalm, fun pool => ?_⟩
  have hmemory := free_sub_decode_freed pool runtime.env seqId
  unfold Pool.headroom
  rw [Accounts.totalOwed_calm hcalm]
  show _ ≤ pool.free (freed runtime.env seqId) - _ - pool.decode (freed runtime.env seqId)
  omega

/-- Freeing the evicted chains turns their rows into headroom. -/
theorem freeAll_wpe (h : Accounts P runtime) (hP : CalmProperty P) (seqIds : List ℕ)
    (hnodup : seqIds.Nodup) (horphan : Orphaned runtime seqIds) :
    wpe (freeAll (standardHooks config) seqIds)
      (fun _ next => next.index = runtime.index ∧ Accounts P next ∧
        (∀ seqId ∉ seqIds, ChainMemory.Calm seqId runtime.env next.env) ∧
        ∀ pool : Pool, pool.headroom runtime + heldBy pool runtime.env seqIds ≤ pool.headroom next)
      (fun _ => False) runtime := by
  induction seqIds generalizing runtime with
  | nil => exact ⟨rfl, h, fun _ _ => .refl _ _, fun pool => (add_zero _).le⟩
  | cons seqId rest ih =>
      rw [List.nodup_cons] at hnodup
      have hhead : Orphaned runtime [seqId] := fun hrecord hmem =>
        horphan hrecord (List.mem_singleton.mp hmem ▸ List.mem_cons_self)
      have hrest : Orphaned { runtime with env := freed runtime.env seqId } rest :=
        fun hrecord hmem => horphan hrecord (List.mem_cons_of_mem _ hmem)
      obtain ⟨haccounts, hheadroom⟩ := accounts_freed h hP hhead
      unfold freeAll
      rw [wpe_bind, wpe_of_ok (freeSeqPayload_apply seqId)]
      refine wpe_mono (ih haccounts hnodup.2 hrest) fun _ last hlast => ?_
      obtain ⟨hindex, hlast', hcalm, hgain⟩ := hlast
      refine ⟨hindex, hlast', fun other hnot => ?_, fun pool => ?_⟩
      · rw [List.mem_cons, not_or] at hnot
        exact (calm_freed hnot.1).trans (hcalm other hnot.2)
      · have hkept : heldBy pool (freed runtime.env seqId) rest = heldBy pool runtime.env rest :=
          heldBy_congr fun other hmem =>
            (calm_freed fun (heq : other = seqId) => hnodup.1 (heq ▸ hmem)).row_eq
        have hfirst := hheadroom pool
        have hrest := hgain pool
        rw [heldBy_cons]
        rw [hkept] at hrest
        omega

end ChainRuntime
