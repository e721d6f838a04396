import SparseEngine.ChainCache.Overcommit

/-!
# Restoring a demoted chain

A chain that is resumed without a row takes its recorded residency out of its
own reservation: `restore` moves that many slots from the free pool into the
row, and `prepare_resumed_chain` takes as many off the reservation.  If the
restore fails the chain is IDLE again and its reservation is gone.

`Opened` is what holds in between.  Either end accounts for the one record
that changes (`totalOwed_revise`): `restored_opens` moves the promise into the
row, `abandonResume_solvent` drops it.
-/

open Routine ChainCacheIndex

variable {Fingerprint Digest : Type}

namespace ChainMemory

/-- A row of a length was taken for a sequence that had none. -/
structure Restored (memory next : ChainMemory) (seqId length : ℕ) : Prop where
  slots : next.numFreeSlots + length = memory.numFreeSlots
  rows : next.numFreeRows + 1 = memory.numFreeRows
  windows : next.decodeWindows = memory.decodeWindows
  row : next.rowSeqLens.get? seqId = some length
  calm : ∀ other, other ≠ seqId → Calm other memory next
  snapshot : ∀ {later}, next.snapshots.get? seqId = some later →
    ∃ snapshot, memory.snapshots.get? seqId = some snapshot ∧
      (later.Live → snapshot.Live ∧ later.length = snapshot.length)

variable {memory : ChainMemory} {seqId length : ℕ}

theorem Restored.trans {next last : ChainMemory} (h : Restored memory next seqId length)
    (hlast : OnlySnapshots next last) :
    Restored memory last seqId length where
  slots := by rw [hlast.slots_eq]; exact h.slots
  rows := by rw [hlast.rows_eq]; exact h.rows
  windows := hlast.windows_eq.trans h.windows
  row := (hlast.calm seqId).row_eq.trans h.row
  calm other hne := (h.calm other hne).trans (hlast.calm other)
  snapshot hlater := by
    obtain ⟨middle, hmiddle, hback⟩ := (hlast.calm seqId).snapshot hlater
    obtain ⟨snapshot, hsnapshot, hback'⟩ := h.snapshot hmiddle
    refine ⟨snapshot, hsnapshot, fun hlive => ?_⟩
    obtain ⟨hlive', hlength⟩ := hback hlive
    obtain ⟨hlive'', hlength'⟩ := hback' hlive'
    exact ⟨hlive'', hlength.trans hlength'⟩

theorem Restored.after {next last : ChainMemory} (hnext : OnlySnapshots memory next)
    (h : Restored next last seqId length) :
    Restored memory last seqId length where
  slots := by rw [h.slots, hnext.slots_eq]
  rows := by rw [h.rows, hnext.rows_eq]
  windows := h.windows.trans hnext.windows_eq
  row := h.row
  calm other hne := (hnext.calm other).trans (h.calm other hne)
  snapshot hlater := by
    obtain ⟨middle, hmiddle, hback⟩ := h.snapshot hlater
    obtain ⟨snapshot, hsnapshot, hback'⟩ := (hnext.calm seqId).snapshot hmiddle
    refine ⟨snapshot, hsnapshot, fun hlive => ?_⟩
    obtain ⟨hlive', hlength⟩ := hback hlive
    obtain ⟨hlive'', hlength'⟩ := hback' hlive'
    exact ⟨hlive'', hlength.trans hlength'⟩

/-- Freeing the row again undoes the restore. -/
theorem Restored.undo {next : ChainMemory} (h : Restored memory next seqId length)
    (hnone : memory.rowSeqLens.get? seqId = none) :
    OnlySnapshots memory (next.withoutRow seqId) := by
  have hwithout : next.withoutRow seqId =
      { next with
        numFreeSlots := next.numFreeSlots + length
        numFreeRows := next.numFreeRows + 1
        rowSeqLens := next.rowSeqLens.erase seqId } := by
    unfold withoutRow
    rw [h.row]
  refine ⟨?_, ?_, ?_, fun other => ?_⟩
  · rw [hwithout]
    exact h.slots
  · rw [hwithout]
    exact h.rows
  · rw [hwithout]
    exact h.windows
  · by_cases heq : other = seqId
    · subst heq
      refine ⟨by rw [get?_withoutRow, if_pos rfl, hnone], fun hlater => ?_⟩
      rw [snapshots_withoutRow] at hlater
      exact h.snapshot hlater
    · exact (h.calm other heq).trans (calm_withoutRow heq)

theorem allocateChainRestore_wpe :
    wpe (allocateChainRestore seqId length)
      (fun _ next => Restored memory next seqId length) (fun next => next = memory) memory := by
  unfold allocateChainRestore
  rw [wpe_get]
  refine wpe_guarded rfl fun hroom => ?_
  rw [not_or, not_lt] at hroom
  rw [wpe_write]
  refine ⟨?_, ?_, rfl, Dict.get?_set_self _ _ _, fun other hne => ⟨?_, ?_⟩, ?_⟩
  · exact Nat.sub_add_cancel hroom.2
  · exact Nat.sub_add_cancel (Nat.pos_of_ne_zero hroom.1)
  · exact Dict.get?_set_of_ne _ _ hne
  · exact fun hlater => ⟨_, hlater, fun hlive => ⟨hlive, rfl⟩⟩
  · exact fun hlater => ⟨_, hlater, fun hlive => ⟨hlive, rfl⟩⟩

/-- `restore` takes a row as long as the live snapshot it copies back, or
nothing. -/
theorem restore_wpe (hnone : memory.rowSeqLens.get? seqId = none) :
    wpe (restore seqId)
      (fun _ next => ∃ snapshot, memory.snapshots.get? seqId = some snapshot ∧ snapshot.Live ∧
        Restored memory next seqId snapshot.length)
      (OnlySnapshots memory) memory := by
  unfold restore
  refine wpe_then (wait_wpe seqId) fun found waited hwaited => ?_
  obtain ⟨hsteady, hfound, _⟩ := hwaited
  refine wpe_guarded hsteady fun hvalid => ?_
  have hlive : found.Live := .inl (by simpa using hvalid)
  obtain ⟨snapshot, hsnapshot, hback⟩ := (hsteady.calm seqId).snapshot hfound
  obtain ⟨hlive', hlength⟩ := hback hlive
  rw [wpe_get]
  refine wpe_guarded hsteady fun _ => ?_
  refine wpe_then_imp allocateChainRestore_wpe (fun _ allocated hallocated => ?_) fun next hnext => hnext ▸ hsteady
  have hrestored := Restored.after hsteady hallocated
  rw [hlength] at hrestored
  apply wpe_onError
  have hcall := harmless_deviceCall allocated
  rw [wpe_def]
  rcases hrun : deviceCall allocated with ⟨error | _, last⟩
  · rw [hrun] at hcall
    exact (hrestored.trans hcall).undo hnone
  · rw [hrun] at hcall
    exact ⟨snapshot, hsnapshot, hlive', hrestored.trans hcall⟩

end ChainMemory

namespace ChainRuntime

variable {config : MemoryConfig} {runtime next : ChainRuntime Fingerprint Digest ChainMemory}
  {plan : ChainAdmissionPlan} {record : ChainRecord Fingerprint Digest}

/-- The runtime while the plan's chain is opening. -/
structure Opened (config : MemoryConfig) (plan : ChainAdmissionPlan)
    (runtime : ChainRuntime Fingerprint Digest ChainMemory)
    (record : ChainRecord Fingerprint Digest) : Prop where
  accounts : Accounts (FitsOrOpens config plan) runtime
  covered : ∀ pool : Pool, 0 ≤ pool.headroom runtime
  get?_eq : runtime.index.records.get? plan.chainId = some record

theorem Opened.steady (h : Opened config plan runtime record) (hnext : Steady runtime next) :
    Opened config plan next record where
  accounts := hnext.accounts (calmProperty_fitsOrOpens config plan) h.accounts
  covered pool := hnext.headroom_eq pool ▸ h.covered pool
  get?_eq := by
    rw [hnext.index_eq]
    exact h.get?_eq

theorem Opened.opening (h : Opened config plan runtime record) (hstatus : plan.status = .resumed) :
    Opening config runtime.env record := by
  have hopens := h.accounts.record h.get?_eq
  unfold FitsOrOpens at hopens
  rwa [if_pos ⟨hstatus, rfl⟩] at hopens

/-- The other records fit. -/
theorem fits_of_fitsOrOpens {chainId : String} {memory : ChainMemory}
    {otherRecord : ChainRecord Fingerprint Digest} (hne : chainId ≠ plan.chainId)
    (h : FitsOrOpens config plan chainId memory otherRecord) :
    Fits config memory otherRecord := by
  unfold FitsOrOpens at h
  rwa [if_neg fun hboth => hne hboth.2] at h

/-- A created chain is no opening one. -/
theorem Opened.solvent_of_created (h : Opened config plan runtime record)
    (hstatus : plan.status = .created) : Solvent config runtime := by
  refine ⟨⟨h.accounts.inv, fun {chainId otherRecord} hother => ?_⟩, h.covered⟩
  have hfits := h.accounts.record hother
  unfold FitsOrOpens at hfits
  rwa [if_neg (by rw [hstatus]; simp)] at hfits

/-! ## Giving the resume up -/

/-- The record of a chain whose restore failed. -/
def abandoned (record : ChainRecord Fingerprint Digest) : ChainRecord Fingerprint Digest :=
  { record with state := .idle, reservedSlotsByLayer := [], reservedRows := 0 }

/-- A failed restore leaves the chain resting, and owed nothing. -/
theorem abandonResume_solvent (h : Opened config plan runtime record)
    (other : ChainRecord Fingerprint Digest) (hid : other.chainId = plan.chainId) :
    wpe (abandonResume plan other) (fun _ => Solvent config) (Solvent config) runtime := by
  unfold abandonResume
  rw [wpe_whenDo]
  constructor
  · intro hstatus
    obtain ⟨hactive, length, promised, hresting, _⟩ := h.opening hstatus
    have hrecord := h.get?_eq
    -- the record is IDLE again, without its promise:
    have hrun : (onIndex (setRecordState other.chainId .idle) >>= fun _ =>
        onIndex (modifyRecord other.chainId fun record : ChainRecord Fingerprint Digest =>
          { record with reservedSlotsByLayer := [], reservedRows := 0 })) runtime =
        (.ok (), { runtime with
          index :=
            { runtime.index with
              routingSnapshotCache := none
              records := runtime.index.records.set plan.chainId (abandoned record)
              activeRecords := runtime.index.activeRecords.erase plan.chainId } }) := by
      simp only [hid, bind_apply, onIndex, setRecordState, modifyRecord, write_apply, hrecord,
        Dict.get?_set_self, Dict.set_set_self, abandoned]
    rw [wpe_of_ok hrun]
    generalize hnext : (ChainRuntime.mk
      { runtime.index with
        routingSnapshotCache := none
        records := runtime.index.records.set plan.chainId (abandoned record)
        activeRecords := runtime.index.activeRecords.erase plan.chainId }
      runtime.env : ChainRuntime Fingerprint Digest ChainMemory) = next
    have hrecords : next.index.records = runtime.index.records.set plan.chainId (abandoned record) := by rw [← hnext]
    have hinv : Inv next.index := by
      refine h.accounts.inv.revise hrecord hrecords rfl rfl (fun key => ?_) ?_ ?_ ?_ ?_
      · rw [← hnext]
        show key ∈ (runtime.index.activeRecords.erase plan.chainId).keys ↔ _
        rw [Dict.mem_keys_erase]
        split
        · next heq => simp [heq, abandoned]
        · next hne => simp [hne]
      · rw [← hnext]
        exact .inl rfl
      · rw [← hnext]
        rfl
      · rw [← hnext]
        exact h.accounts.inv.history_le
      · rw [← hnext]
        rfl
    -- the memory is untouched, so the chain fits as it did before the plan:
    have hmemory : next.env = runtime.env := by rw [← hnext]
    have hcalm : ∀ seqId, seqId ≠ record.seqId → ChainMemory.Calm seqId runtime.env next.env := by
      intro seqId _
      rw [hmemory]
      exact .refl _ _
    have hfits : Fits config next.env (abandoned record) := by
      rw [hmemory]
      refine (fits_idle rfl).mpr ⟨length, hresting.physical_eq, hresting.resident, ?_⟩
      exact hresting.snapshot
    refine ⟨h.accounts.revise (calmProperty_fits config) hrecord hinv hrecords hcalm hfits
      fun other memory otherRecord hne hothers => fits_of_fitsOrOpens hne hothers, fun pool => ?_⟩
    have htotal := h.accounts.totalOwed_revise pool hrecord hrecords hcalm
    -- an IDLE chain is owed nothing:
    have hnone : pool.owed next.env (abandoned record) = 0 := Pool.owed_idle rfl
    have howed := pool.owed_nonneg runtime.env record
    have hcovered := h.covered pool
    unfold Pool.headroom at hcovered ⊢
    rw [hmemory] at hnone ⊢
    rw [hmemory] at htotal
    omega
  · intro hstatus
    have hcreated : plan.status = .created := by
      cases hcase : plan.status with
      | created => rfl
      | resumed => exact absurd hcase hstatus
    exact h.solvent_of_created hcreated

/-! ## Taking the row -/

variable {length : ℕ}

/-- The reservation less what was restored. -/
theorem zipWith_layered {reserved physical : List ℤ} {promised : ℤ} (hreserved : Layered config reserved promised)
    (hphysical : physical = List.replicate config.numKvLayers (length : ℤ)) (hle : (length : ℤ) ≤ promised) :
    Layered config (reserved.zipWith (· - ·) physical) (promised - length) := by
  rcases hreserved with ⟨hnil, hzero⟩ | hreplicate
  · left
    rw [hnil]
    exact ⟨rfl, by omega⟩
  · right
    rw [hreplicate, hphysical, List.zipWith_replicate, min_self]

section

variable (h : Opened config plan runtime record) (hstatus : plan.status = .resumed)

include h hstatus

/-- The slots go from the pool into the row, and off the reservation. -/
theorem restored_opens (hrows : record.residentRows = 0)
    (hrestored : ChainMemory.Restored runtime.env next.env record.seqId length)
    (hsnapshot : ∃ snapshot, runtime.env.snapshots.get? record.seqId = some snapshot ∧
      snapshot.Live ∧ snapshot.length = length) {resident : ChainRecord Fingerprint Digest}
    (hresident : resident = record.assigned 1
      (record.reservedSlotsByLayer.zipWith (· - ·) record.physicalSlotsByLayer) 0)
    (hindex : next.index =
      { runtime.index with records := runtime.index.records.set plan.chainId resident }) :
    Opened config plan next resident := by
  obtain ⟨hactive, rest, promised, hresting, hreserved, hpromised⟩ := h.opening hstatus
  obtain ⟨hle, hone⟩ := hpromised hrows
  -- the restored length is the one the record was prepared with:
  have hlength : length = rest := by
    obtain ⟨snapshot, hget, hlive, heq⟩ := hsnapshot
    rw [← heq]
    exact (hresting.snapshot hget).2 hlive
  subst hlength
  -- no row is resident, since the record says so:
  have hnone : runtime.env.rowSeqLens.get? record.seqId = none := by
    rcases hresting.resident with ⟨hsome, _⟩ | ⟨_, hrow, _⟩
    · rw [hrows] at hsome
      exact absurd hsome (by decide)
    · exact hrow
  have hzip := zipWith_layered hreserved hresting.physical_eq hle
  have hphysical : Layered config record.physicalSlotsByLayer length := .inr hresting.physical_eq
  have hrecords : next.index.records = runtime.index.records.set plan.chainId resident := by
    rw [hindex]
  have hinv : Inv next.index := by
    rw [hindex, hresident]
    exact inv_assignResidency h.accounts.inv h.get?_eq _ _ _
  -- what stays reserved is the promise less what was restored:
  have hopening : Opening config next.env resident := by
    subst hresident
    refine ⟨hactive, length, promised - length, ⟨hresting.physical_eq, ?_, fun hlater => ?_⟩,
      hzip, fun hzero => absurd hzero Int.one_ne_zero⟩
    · exact .inl ⟨rfl, hrestored.row⟩
    · obtain ⟨snapshot, hbefore, hback⟩ := hrestored.snapshot hlater
      obtain ⟨hoffload, hlength⟩ := hresting.snapshot hbefore
      refine ⟨hoffload, fun hlive => ?_⟩
      obtain ⟨hlive', heq⟩ := hback hlive
      exact heq.trans (hlength hlive')
  have hopens : FitsOrOpens config plan plan.chainId next.env resident := by
    unfold FitsOrOpens
    rw [if_pos ⟨hstatus, rfl⟩]
    exact hopening
  refine ⟨h.accounts.revise (calmProperty_fitsOrOpens config plan) h.get?_eq hinv hrecords
    hrestored.calm hopens fun other memory otherRecord _ hothers => hothers, fun pool => ?_, ?_⟩
  · -- restoring takes as many slots from the pool as it takes from the promise
    have htotal := h.accounts.totalOwed_revise pool h.get?_eq hrecords hrestored.calm
    have hcovered := h.covered pool
    have hslots := hrestored.slots
    have hfreeRows := hrestored.rows
    unfold Pool.headroom at hcovered ⊢
    cases pool with
    | slots =>
        have howed : Pool.slots.owed runtime.env record = max 0 promised := by
          unfold Pool.owed
          rw [if_pos hactive, hnone]
          show max 0 (record.reservedSlotsByLayer.headD 0 -
            max 0 (record.physicalSlotsByLayer.headD 0 - record.physicalSlotsByLayer.headD 0)) = _
          rw [hreserved.headD_eq]
          simp
        have howed' : Pool.slots.owed next.env resident = max 0 (promised - length) := by
          subst hresident
          have hactive' : (record.assigned 1
            (record.reservedSlotsByLayer.zipWith (· - ·) record.physicalSlotsByLayer) 0).state =
              .active := hactive
          unfold Pool.owed
          rw [if_pos hactive']
          show max 0 ((List.zipWith (· - ·) _ _).headD 0 - max 0
            (((next.env.rowSeqLens.get? record.seqId).map fun (length : ℕ) => (length : ℤ)).getD
              (record.physicalSlotsByLayer.headD 0) - record.physicalSlotsByLayer.headD 0)) = _
          rw [hzip.headD_eq, hrestored.row, hphysical.headD_eq]
          simp
        simp only [Pool.free, Pool.decode, ChainMemory.decodeReserved, hrestored.windows] at hcovered ⊢
        omega
    | rows =>
        -- the promised row becomes the resident one
        have howed : Pool.rows.owed runtime.env record = max 0 record.reservedRows := by
          simp [Pool.owed, hactive, Pool.reserved, Pool.realized, hnone]
        have howed' : Pool.rows.owed next.env resident = 0 := by
          subst hresident
          have hactive' : (record.assigned 1
            (record.reservedSlotsByLayer.zipWith (· - ·) record.physicalSlotsByLayer) 0).state =
              .active := hactive
          unfold Pool.owed
          rw [if_pos hactive']
          show max 0 (0 - if (next.env.rowSeqLens.get? record.seqId).isSome then 1 else 0) = _
          rw [hrestored.row]
          rfl
        simp only [Pool.free, Pool.decode] at hcovered ⊢
        omega
  · rw [hrecords]
    exact Dict.get?_set_self _ _ _

/-- An opening chain with a row and without a live snapshot is in its turn. -/
theorem solvent_of_opened (hrows : record.residentRows ≠ 0)
    (hdead : ∀ snapshot, runtime.env.snapshots.get? record.seqId = some snapshot →
      ¬ snapshot.Live) : Solvent config runtime := by
  obtain ⟨hactive, length, promised, hresting, hreserved, _⟩ := h.opening hstatus
  have hrow : runtime.env.rowSeqLens.get? record.seqId = some length := by
    rcases hresting.resident with ⟨_, hrow⟩ | ⟨hzero, _⟩
    · exact hrow
    · exact absurd hzero hrows
  refine ⟨⟨h.accounts.inv, fun {chainId otherRecord} hother => ?_⟩, h.covered⟩
  by_cases heq : chainId = plan.chainId
  · subst heq
    obtain rfl := Option.some.inj (h.get?_eq.symm.trans hother)
    refine (fits_active hactive).mpr ⟨length,
      { physical_eq := .inr hresting.physical_eq
        reserved_eq := ⟨promised, hreserved⟩
        grown := fun hlonger => ?_
        fresh := fun hnone => nomatch hrow.symm.trans hnone
        snapshot := fun hget => ⟨(hresting.snapshot hget).1, hdead _ hget⟩ }⟩
    exact (Option.some.inj (hrow.symm.trans hlonger)).le
  · exact fits_of_fitsOrOpens heq (h.accounts.record hother)

/-- `prepare_resumed_chain` leaves the chain in its turn, or opening. -/
theorem prepareResumedChain_wpe :
    wpe (prepareResumedChain (standardHooks config) record) (fun _ => Solvent config)
      (fun next => ∃ resident, Opened config plan next resident) runtime := by
  have hid : record.chainId = plan.chainId := h.accounts.inv.chainId_eq h.get?_eq
  have hinvalidate : ∀ {middle : ChainRuntime Fingerprint Digest ChainMemory}
      {resident : ChainRecord Fingerprint Digest}, Opened config plan middle resident →
      resident.seqId = record.seqId → resident.residentRows ≠ 0 →
      wpe (call ((standardHooks config).invalidateSnapshot record.seqId))
        (fun _ => Solvent config) (fun next => ∃ resident, Opened config plan next resident)
        middle := by
    intro middle resident hmiddle hseq hrows
    show wpe (call (inMemory (ChainMemory.invalidate record.seqId))) _ _ middle
    rw [wpe_inMemory]
    refine wpe_imp (ChainMemory.invalidate_wpe record.seqId) (fun _ memory hmemory => ?_)
      fun memory hmemory => ⟨resident, hmiddle.steady ⟨rfl, hmemory⟩⟩
    exact solvent_of_opened (hmiddle.steady ⟨rfl, hmemory.1⟩) hstatus hrows
      fun snapshot hsnapshot => hmemory.2 snapshot (hseq ▸ hsnapshot)
  unfold prepareResumedChain
  rw [wpe_whenDo]
  constructor
  · intro _
    rw [wpe_bind, wpe_whenDo]
    refine ⟨fun hrows => ?_, fun hrows => hinvalidate h rfl hrows⟩
    obtain ⟨_, length, _, hresting, _⟩ := h.opening hstatus
    have hnone : runtime.env.rowSeqLens.get? record.seqId = none := by
      rcases hresting.resident with ⟨hone, _⟩ | ⟨_, hrow, _⟩
      · rw [hrows] at hone
        exact absurd hone (by decide)
      · exact hrow
    rw [wpe_bind]
    show wpe (call (inMemory (ChainMemory.restore record.seqId))) _ _ runtime
    rw [wpe_inMemory]
    refine wpe_imp (ChainMemory.restore_wpe hnone) (fun _ memory hrestored => ?_)
      fun memory hmemory => ⟨record, h.steady ⟨rfl, hmemory⟩⟩
    obtain ⟨snapshot, hsnapshot, hlive, hrestored⟩ := hrestored
    have hrecord : (⟨runtime.index, memory⟩ :
        ChainRuntime Fingerprint Digest ChainMemory).index.records.get? record.chainId = some record := by
      rw [hid]
      exact h.get?_eq
    rw [wpe_assignResidency hrecord]
    apply hinvalidate (restored_opens h hstatus hrows hrestored ⟨snapshot, hsnapshot, hlive, rfl⟩ rfl (by rw [← hid]))
    · rfl
    · exact Int.one_ne_zero
  · -- without offload no chain was ever demoted, and there are no snapshots
    intro hnone
    obtain ⟨_, length, _, hresting, _⟩ := h.opening hstatus
    refine solvent_of_opened h hstatus (fun hrows => ?_) fun snapshot hsnapshot => ?_
    · rcases hresting.resident with ⟨hone, _⟩ | ⟨_, _, hoffload⟩
      · rw [hrows] at hone
        exact absurd hone (by decide)
      · exact hnone hoffload
    · exact absurd (hresting.snapshot hsnapshot).1 hnone

end

/-- For a created chain `prepare_resumed_chain` at most waits for a copy. -/
theorem prepareResumedChain_steady (hrows : record.residentRows ≠ 0) :
    wpe (prepareResumedChain (standardHooks config) record) (fun _ => Steady runtime) (Steady runtime) runtime := by
  have hharmless : ChainMemory.Harmless (ChainMemory.invalidate record.seqId) := fun memory =>
    after_of_wpe (wpe_imp (ChainMemory.invalidate_wpe record.seqId) (fun _ _ h => h.1) fun _ h => h)
  unfold prepareResumedChain
  rw [wpe_whenDo]
  refine ⟨fun _ => ?_, fun _ => .refl runtime⟩
  rw [wpe_bind, wpe_whenDo]
  refine ⟨fun hzero => absurd hzero hrows, fun _ => ?_⟩
  exact wpe_harmless hharmless (fun _ _ hnext => hnext) fun _ hnext => hnext

/-- A restore that fails, or not, leaves the memory solvent. -/
theorem openChain_solvent (h : Opened config plan runtime record)
    (hcreated : plan.status = .created → record.residentRows ≠ 0) :
    wpe (onError (prepareResumedChain (standardHooks config) record) (abandonResume plan record))
      (fun _ => Solvent config) (Solvent config) runtime := by
  have hid : record.chainId = plan.chainId := h.accounts.inv.chainId_eq h.get?_eq
  apply wpe_onError
  cases hstatus : plan.status with
  | resumed =>
      refine wpe_imp (prepareResumedChain_wpe h hstatus) (fun _ _ hnext => hnext) ?_
      intro next hnext
      obtain ⟨resident, hopened⟩ := hnext
      exact abandonResume_solvent hopened record hid
  | created =>
      refine wpe_imp (prepareResumedChain_steady (hcreated hstatus)) ?_ ?_
      · exact fun _ next hnext => (h.steady hnext).solvent_of_created hstatus
      · exact fun next hnext => abandonResume_solvent (h.steady hnext) record hid

/-! ## The whole admission -/

/-- The records of chains that are there. -/
theorem localVictims_wpe (chainIds : List String) :
    wpe (localVictims chainIds : Method Fingerprint Digest ChainMemory _)
      (fun seqIds next => next = runtime ∧ seqIds = chainIds.map (ownerOf runtime))
      (fun next => next = runtime) runtime := by
  induction chainIds with
  | nil => exact ⟨rfl, rfl⟩
  | cons chainId rest ih =>
      unfold localVictims
      rw [wpe_bind, wpe_onIndex]
      refine wpe_lookup (fun record hrecord => ?_) rfl
      refine wpe_then ih fun seqIds next hnext => ⟨hnext.1, ?_⟩
      rw [List.map_cons, ownerOf_eq hrecord, hnext.2]

/-- What the request may be called with: a chain that is there is named with its
own sequence (or the call raises), and a new chain gets a sequence that nothing
holds. -/
def FreshUnlessKnown (runtime : ChainRuntime Fingerprint Digest ChainMemory) (chainId : String)
    (seqId : ℕ) : Prop :=
  runtime.index.records.get? chainId = none →
    seqId ∉ runtime.index.seqIdToChainId.keys ∧ Unused runtime.env seqId

/-- The rows of the demoted chains come back first. -/
theorem demotions_wpe (h : Solvent config runtime) (hplanned : Planned config plan runtime) :
    wpe (whenDo ((standardHooks config : ChainHooks Fingerprint Digest ChainMemory).offload = true)
        (do
          demoteAll (standardHooks config) plan.demoteChainIds
          dropAll (standardHooks config) plan.victimChainIds))
      (fun _ next => Solvent config next ∧
        Touched plan.demoteChainIds (plan.demoteChainIds.map (ownerOf runtime)) runtime next ∧
        ∀ pool : Pool, pool.headroom next = pool.headroom runtime +
          heldBy pool runtime.env (plan.demoteChainIds.map (ownerOf runtime)))
      (Solvent config) runtime := by
  rw [wpe_whenDo]
  constructor
  · intro hoffload
    have hnodup := hplanned.victims.nodup_owners h.accounts.inv
    rw [List.map_append] at hnodup
    refine wpe_then (demoteAll_wpe h hoffload plan.demoteChainIds hnodup.of_append_left
      fun chainId hmem => ?_) fun _ demoted hdemoted => ?_
    · obtain ⟨record, hrecord, _⟩ := hplanned.victims.idle chainId (List.mem_append_left _ hmem)
      exact Dict.mem_keys_of_get? hrecord
    · obtain ⟨hsolvent, htouched, hheadroom⟩ := hdemoted
      refine wpe_imp (dropAll_wpe plan.victimChainIds) (fun _ next hnext => ?_)
        fun next hnext => hnext.solvent hsolvent
      refine ⟨hnext.solvent hsolvent, ?_, fun pool => ?_⟩
      · exact htouched.trans (steady_touched hnext [] []) (List.nil_subset _) (List.nil_subset _)
      · rw [← hheadroom pool]
        exact hnext.headroom_eq pool
  · intro hnone
    have hnil : plan.demoteChainIds = [] := hplanned.demote (Bool.eq_false_of_not_eq_true hnone)
    rw [hnil]
    exact ⟨h, steady_touched (.refl runtime) _ _, fun pool => (add_zero _).symm⟩

/-- The victims leave the index and the plan's chain is entered with its
reservation. -/
theorem applyAdmission_opens (h : Solvent config runtime) (sha : Sha256 Digest)
    (fingerprint : Fingerprint) (plan : ChainAdmissionPlan) (seqIds : List ℕ)
    (hvictims : plan.chainId ∉ plan.victimChainIds)
    (hreserves : Reserves config plan (runtime.index.records.get? plan.chainId))
    (hcreated : plan.status = .created → runtime.index.records.get? plan.chainId = none ∧
      plan.seqId ∉ seqIds ∧ Unused runtime.env plan.seqId)
    (horphan : ∀ {chainId record}, runtime.index.records.get? chainId = some record →
      chainId ∉ plan.victimChainIds → record.seqId ∉ seqIds) :
    wpe (onIndex (applyAdmission sha plan fingerprint))
      (fun record next => Accounts (FitsOrOpens config plan) next ∧
        next.index.records.get? plan.chainId = some record ∧
        (plan.status = .created → record.residentRows ≠ 0) ∧
        next.env = runtime.env ∧ Orphaned next seqIds ∧
        (∀ chainId ∈ runtime.index.records.keys, chainId ∉ plan.victimChainIds → chainId ∈ next.index.records.keys) ∧
        ∀ pool : Pool, pool.headroom runtime - planReserved pool plan ≤ pool.headroom next)
      (Solvent config) runtime := by
  rw [wpe_onIndex]
  unfold applyAdmission
  rw [wpe_bind]
  have hevicted := evictAll_solvent h plan.victimChainIds
  rw [wpe_onIndex] at hevicted
  refine wpe_mono hevicted fun _ index hindex => ?_
  obtain ⟨hsolvent, _, hget, hheadroom⟩ := hindex
  have htarget : index.records.get? plan.chainId = runtime.index.records.get? plan.chainId := by
    have htarget' := hget plan.chainId
    rwa [if_neg hvictims] at htarget'
  have hothers : ∀ {chainId record}, index.records.get? chainId = some record → record.seqId ∉ seqIds := by
    intro chainId record hrecord
    have hrecord' := (hget chainId).symm.trans hrecord
    split at hrecord'
    · cases hrecord'
    · next hnot => exact horphan hrecord' hnot
  -- entering the chain keeps the other records and their sequences
  have hentered : ∀ (entered : ChainRecord Fingerprint Digest) (next : ChainRuntime Fingerprint Digest ChainMemory),
      next.index.records = index.records.set plan.chainId entered → entered.seqId ∉ seqIds →
      Orphaned next seqIds ∧ ∀ chainId ∈ runtime.index.records.keys,
        chainId ∉ plan.victimChainIds → chainId ∈ next.index.records.keys := by
    intro entered next hrecords hseq
    refine ⟨fun {chainId record} hrecord => ?_, fun chainId hmem hnot => ?_⟩
    · rw [hrecords, Dict.get?_set] at hrecord
      split at hrecord
      · obtain rfl := Option.some.inj hrecord
        exact hseq
      · exact hothers hrecord
    · rw [hrecords, Dict.mem_keys_set]
      right
      obtain ⟨record, hrecord⟩ := Dict.mem_keys_iff.mp hmem
      have hkept := hget chainId
      rw [if_neg hnot] at hkept
      exact Dict.mem_keys_of_get? (hkept.trans hrecord)
  cases hstatus : plan.status with
  | created =>
      obtain ⟨hnone, hseq, hunused⟩ := hcreated hstatus
      rw [hnone] at hreserves
      refine applyCreated_wpe sha plan fingerprint hsolvent fun hnew howner => ?_
      obtain ⟨haccounts, hleft⟩ := created_opens hsolvent sha plan hstatus
        fingerprint hreserves hunused hnew howner rfl rfl
      obtain ⟨horphaned, hkept⟩ := hentered (createdRecord sha plan fingerprint (index.clock + 1))
        ⟨index.afterCreate plan (createdRecord sha plan fingerprint (index.clock + 1)), runtime.env⟩ rfl hseq
      refine ⟨haccounts, Dict.get?_set_self _ _ _, fun _ => Int.one_ne_zero, rfl, horphaned, hkept, fun pool => ?_⟩
      rw [← hheadroom pool]
      exact hleft pool
  | resumed =>
      refine applyResumed_wpe plan hsolvent fun record hrecord hidle => ?_
      rw [← htarget, hrecord] at hreserves
      obtain ⟨haccounts, hleft⟩ := resumed_opens hsolvent plan hstatus hrecord hidle hreserves rfl rfl
      have hseq : record.seqId ∉ seqIds := hothers hrecord
      obtain ⟨horphaned, hkept⟩ := hentered (resumedRecord record plan (index.clock + 1))
        ⟨index.afterActivate plan.chainId (resumedRecord record plan (index.clock + 1)), runtime.env⟩ rfl hseq
      refine ⟨haccounts, Dict.get?_set_self _ _ _, fun hcreated => ?_, rfl, horphaned, hkept, fun pool => ?_⟩
      · cases hcreated
      · rw [← hheadroom pool]
        exact hleft pool

/-- The records of chains that are there are found. -/
theorem localVictims_of_mem (chainIds : List String)
    (hids : ∀ chainId ∈ chainIds, chainId ∈ runtime.index.records.keys) :
    wpe (localVictims chainIds : Method Fingerprint Digest ChainMemory _)
      (fun _ next => next = runtime) (fun _ => False) runtime := by
  induction chainIds with
  | nil => exact rfl
  | cons chainId rest ih =>
      obtain ⟨record, hrecord⟩ := Dict.mem_keys_iff.mp (hids chainId List.mem_cons_self)
      have hrun : lookup chainId runtime.index = (.ok record, runtime.index) := by
        rw [lookup_apply, lookupRecord_eq_ok.mpr hrecord]
      unfold localVictims
      rw [wpe_bind, wpe_onIndex, wpe_of_ok hrun]
      exact wpe_then (ih fun other hmem => hids other (List.mem_cons_of_mem _ hmem)) fun _ _ hnext => hnext

theorem heldBy_append (pool : Pool) (memory : ChainMemory) (first second : List ℕ) :
    heldBy pool memory (first ++ second) = heldBy pool memory first + heldBy pool memory second := by
  unfold heldBy
  rw [List.map_append, List.sum_append]

/-- A plan that was just made is applied within the headroom. -/
theorem chainApplyAdmission_solvent (h : Solvent config runtime) (sha : Sha256 Digest)
    (fingerprint : Fingerprint) (hplanned : Planned config plan runtime)
    (hfresh : FreshUnlessKnown runtime plan.chainId plan.seqId) :
    wpe (chainApplyAdmission (standardHooks config) sha fingerprint plan)
      (fun _ => Solvent config) (Solvent config) runtime := by
  have hnodup := hplanned.victims.nodup_owners h.accounts.inv
  rw [List.map_append] at hnodup
  have hapart : ∀ seqId ∈ plan.victimChainIds.map (ownerOf runtime),
      seqId ∉ plan.demoteChainIds.map (ownerOf runtime) := fun seqId hmem hdemote =>
    (List.nodup_append.mp hnodup).2.2 seqId hdemote seqId hmem rfl
  have hvictims : ∀ chainId ∈ plan.victimChainIds, chainId ∉ plan.demoteChainIds :=
    fun chainId hmem hdemote => hapart _ (List.mem_map_of_mem hmem) (List.mem_map_of_mem hdemote)
  have hne : ∀ {victim}, victim ∈ plan.demoteChainIds ++ plan.victimChainIds →
      plan.chainId ≠ victim := fun hmem heq => hplanned.victims.ne _ hmem heq.symm
  -- a new chain's sequence is none of the victims'
  have hunowned : plan.status = .created →
      plan.seqId ∉ (plan.demoteChainIds ++ plan.victimChainIds).map (ownerOf runtime) := by
    intro hstatus hmem
    obtain ⟨victim, hvictim, howner⟩ := List.mem_map.mp hmem
    obtain ⟨record, hrecord, _⟩ := hplanned.victims.idle victim hvictim
    rw [ownerOf_eq hrecord] at howner
    have hlisted := Dict.mem_keys_of_get? (h.accounts.inv.owner.mpr ⟨record, hrecord, howner⟩)
    exact (hfresh (hplanned.created hstatus)).1 hlisted
  unfold chainApplyAdmission
  refine wpe_then_imp (localVictims_wpe plan.victimChainIds) (fun seqIds found hfound => ?_)
    fun next hnext => hnext ▸ h
  obtain ⟨hsame, hseqIds⟩ := hfound
  rw [hsame]
  subst hseqIds
  unfold applyPlan
  rw [wpe_bind]
  refine wpe_then (demotions_wpe h hplanned) fun _ demoted hdemoted => ?_
  obtain ⟨hsolvent, htouched, hheadroom⟩ := hdemoted
  have htarget := htouched.records plan.chainId fun hmem => hne (List.mem_append_left _ hmem) rfl
  have howners : plan.victimChainIds.map (ownerOf demoted) = plan.victimChainIds.map (ownerOf runtime) := by
    apply List.map_congr_left
    intro victim hmem
    unfold ownerOf
    rw [htouched.records victim (hvictims victim hmem)]
  have hopens := applyAdmission_opens hsolvent sha fingerprint plan
    (plan.victimChainIds.map (ownerOf runtime)) (fun hmem => hne (List.mem_append_right _ hmem) rfl)
    (by
      rw [htarget]
      exact ⟨hplanned.reservedSlots, hplanned.reservedRows⟩)
    (fun hstatus => by
      have hout := hunowned hstatus
      rw [List.map_append, List.mem_append, not_or] at hout
      refine ⟨htarget.trans (hplanned.created hstatus), hout.2, ?_⟩
      exact (hfresh (hplanned.created hstatus)).2.calm (htouched.memory _ hout.1))
    (fun {chainId record} hrecord hnot hmem => by
      rw [← howners] at hmem
      obtain ⟨victim, hvictim, howner⟩ := List.mem_map.mp hmem
      obtain ⟨found, hfound, _⟩ := hplanned.victims.idle victim (List.mem_append_right _ hvictim)
      rw [← htouched.records victim (hvictims victim hvictim)] at hfound
      rw [ownerOf_eq hfound] at howner
      exact Accounts.seqId_ne hsolvent.accounts.inv hfound hrecord (fun heq => hnot (heq ▸ hvictim)) howner.symm)
  refine wpe_mono hopens fun record opened hopened => ?_
  obtain ⟨haccounts, hrecord, hrows, hmemory, horphan, hkept, hleft⟩ := hopened
  -- the demoted chains are still there, so the next loop only reads
  refine wpe_then_imp (localVictims_of_mem plan.demoteChainIds fun chainId hmem => ?_)
    (fun _ next hnext => ?_) fun _ hfalse => hfalse.elim
  · obtain ⟨found, hfound, _⟩ := hplanned.victims.idle chainId (List.mem_append_left _ hmem)
    exact hkept chainId (htouched.kept chainId (Dict.mem_keys_of_get? hfound))
      fun hvictim => hvictims chainId hvictim hmem
  · subst hnext
    refine wpe_then_imp (freeAll_wpe haccounts (calmProperty_fitsOrOpens config plan) _
      (List.nodup_append.mp hnodup).2.1 horphan) (fun _ freed hfreed => ?_)
      fun _ hfalse => hfalse.elim
    obtain ⟨hindex, haccounts', _, hgain⟩ := hfreed
    have hopen : Opened config plan freed record := by
      refine ⟨haccounts', fun pool => ?_, by rw [hindex]; exact hrecord⟩
      have hheld : heldBy pool next.env (plan.victimChainIds.map (ownerOf runtime)) =
          heldBy pool runtime.env (plan.victimChainIds.map (ownerOf runtime)) := by
        rw [hmemory]
        exact heldBy_congr fun seqId hmem => (htouched.memory seqId (hapart seqId hmem)).row_eq
      have hcovered := hplanned.covered pool
      rw [List.map_append, heldBy_append] at hcovered
      have hdemotions := hheadroom pool
      have hopening := hleft pool
      have hfreeing := hgain pool
      omega
    refine wpe_then (openChain_solvent hopen hrows) fun _ last hlast => ?_
    rw [wpe_onIndex]
    exact wpe_lookup (fun _ _ => hlast) hlast

end ChainRuntime
