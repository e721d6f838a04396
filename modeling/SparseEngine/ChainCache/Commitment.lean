import SparseEngine.ChainCache.Restoring

/-!
# What a turn does to the memory

The prefill chunks of an admitted chain, the end of its promise, decode
windows and decoded tokens, and the ways a chain gives its memory up.  Each
keeps the promises covered, whether it returns or raises.
-/

open Routine ChainCacheIndex ChainRuntime

variable {Fingerprint Digest : Type}

namespace ChainMemory

/-- A row grew by some slots, or was begun with them. -/
structure Allocated (memory next : ChainMemory) (seqId size : ℕ) : Prop where
  slots : next.numFreeSlots + size = memory.numFreeSlots
  rows : next.numFreeRows + (if memory.rowSeqLens.get? seqId = none then 1 else 0) =
    memory.numFreeRows
  row : next.rowSeqLens.get? seqId = some ((memory.rowSeqLens.get? seqId).getD 0 + size)
  others : ∀ other, other ≠ seqId →
    next.rowSeqLens.get? other = memory.rowSeqLens.get? other
  snapshots : next.snapshots = memory.snapshots
  windows : next.decodeWindows = memory.decodeWindows

variable {memory : ChainMemory} {size : ℕ}

theorem Allocated.calm {next : ChainMemory} {seqId : ℕ} (h : Allocated memory next seqId size)
    {other : ℕ} (hne : other ≠ seqId) : Calm other memory next := by
  refine ⟨h.others other hne, fun {later} hlater => ?_⟩
  rw [h.snapshots] at hlater
  exact ⟨later, hlater, fun hlive => ⟨hlive, rfl⟩⟩

/-- `_allocate` takes the slots, or raises and takes nothing. -/
theorem allocate_wpe {config : MemoryConfig} (seqId size : ℕ) :
    wpe (allocate config seqId size) (fun _ next => Allocated memory next seqId size)
      (fun next => next = memory) memory := by
  unfold allocate
  rw [wpe_get]
  refine wpe_guarded rfl fun hrows => ?_
  refine wpe_guarded rfl fun _ => ?_
  refine wpe_guarded rfl fun hslots => ?_
  rw [wpe_write]
  refine ⟨Nat.sub_add_cancel (not_lt.mp hslots), ?_, Dict.get?_set_self _ _ _,
    fun other hne => Dict.get?_set_of_ne _ _ hne, rfl, rfl⟩
  show (if memory.rowSeqLens.get? seqId = none then memory.numFreeRows - 1
    else memory.numFreeRows) + _ = _
  by_cases hnone : memory.rowSeqLens.get? seqId = none
  · rw [if_pos hnone, if_pos hnone]
    exact Nat.sub_add_cancel (Nat.pos_of_ne_zero fun hzero => hrows ⟨hnone, hzero⟩)
  · rw [if_neg hnone, if_neg hnone, Nat.add_zero]

/-- With a row or a free one, and the slots in its row and in the pool,
`_allocate` returns. -/
theorem allocate_ok {config : MemoryConfig} {seqId : ℕ}
    (hrows : memory.rowSeqLens.get? seqId = none → 0 < memory.numFreeRows)
    (hcapacity : (memory.rowSeqLens.get? seqId).getD 0 + size ≤ config.rowCapacity)
    (hslots : size ≤ memory.numFreeSlots) : (allocate config seqId size memory).1 = .ok () := by
  have hrow : ¬ (memory.rowSeqLens.get? seqId = none ∧ memory.numFreeRows = 0) :=
    fun hboth => (hrows hboth.1).ne' hboth.2
  simp only [allocate, bind_apply, read_apply, raiseIf_apply, write_apply]
  rw [if_neg hrow]
  simp only []
  rw [if_neg (not_lt.mpr hcapacity)]
  simp only []
  rw [if_neg (not_lt.mpr hslots)]

end ChainMemory

namespace ChainRuntime

variable {config : MemoryConfig} {runtime next : ChainRuntime Fingerprint Digest ChainMemory}
  {record : ChainRecord Fingerprint Digest} {chainId : String}

/-! ## Chunks and tokens -/

variable {memory : ChainMemory} {size : ℕ}

/-- The row of a chain in its turn grows. -/
theorem accounts_grow (h : Accounts (fun _ => Fits config) runtime)
    (hrecord : runtime.index.records.get? chainId = some record) (hactive : record.state = .active)
    (hgrown : ChainMemory.Allocated runtime.env memory record.seqId size) :
    Accounts (fun _ => Fits config) { runtime with env := memory } ∧
      ∀ pool : Pool, pool.totalOwed { runtime with env := memory } + pool.owed runtime.env record =
        pool.totalOwed runtime + pool.owed memory record := by
  obtain ⟨base, hturning⟩ := (fits_active hactive).mp (h.record hrecord)
  have hsame : runtime.index.records = runtime.index.records.set chainId record :=
    (Dict.set_of_get? hrecord).symm
  have hcalm : ∀ seqId, seqId ≠ record.seqId →
      ChainMemory.Calm seqId runtime.env memory := fun _ hne => hgrown.calm hne
  have hfits : Fits config memory record := by
    refine (fits_active hactive).mpr ⟨base,
      { physical_eq := hturning.physical_eq
        reserved_eq := hturning.reserved_eq
        grown := fun {length} hlength => ?_
        fresh := fun hnone => nomatch hgrown.row.symm.trans hnone
        snapshot := fun hsnapshot => ?_ }⟩
    · obtain rfl := Option.some.inj (hgrown.row.symm.trans hlength)
      cases hrow : runtime.env.rowSeqLens.get? record.seqId with
      | none => rw [(hturning.fresh hrow).1]; exact Nat.zero_le _
      | some before => exact (hturning.grown hrow).trans (Nat.le_add_right _ _)
    · rw [hgrown.snapshots] at hsnapshot
      exact hturning.snapshot hsnapshot
  have haccounts : Accounts (fun _ => Fits config) { runtime with env := memory } :=
    h.revise (calmProperty_fits config) hrecord h.inv hsame hcalm hfits fun _ _ _ _ hothers => hothers
  exact ⟨haccounts, fun pool => h.totalOwed_revise pool hrecord hsame hcalm⟩

section

variable (h : Solvent config runtime)

include h

section

variable (hrecord : runtime.index.records.get? chainId = some record)
  (hactive : record.state = .active)

include hrecord hactive

/-- A chunk within the promise turns promise into residency. -/
theorem prefill_solvent (hpos : 0 < size) (hpromised : (size : ℤ) ≤ Pool.slots.owed runtime.env record)
    (hgrown : ChainMemory.Allocated runtime.env memory record.seqId size) :
    Solvent config { runtime with env := memory } := by
  obtain ⟨haccounts, htotal⟩ := accounts_grow h.accounts hrecord hactive hgrown
  obtain ⟨base, hturning⟩ := (fits_active hactive).mp (h.accounts.record hrecord)
  obtain ⟨promised, hreserved⟩ := hturning.reserved_eq
  have hbefore := owed_of_turning hactive hturning hreserved
  -- the chain is in its turn before and after, on the same base:
  have hturning' : Turning config memory record base := by
    obtain ⟨base', hfits⟩ := (fits_active hactive).mp (haccounts.record hrecord)
    have hbase : (base' : ℤ) = base :=
      hfits.physical_eq.headD_eq.symm.trans hturning.physical_eq.headD_eq
    rw [← Int.ofNat_inj.mp hbase]
    exact hfits
  have hafter := owed_of_turning hactive hturning' hreserved
  rw [hgrown.row] at hafter
  refine ⟨haccounts, fun pool => ?_⟩
  have hcovered := h.covered pool
  have htotal := htotal pool
  have hfreeSlots := hgrown.slots
  have hfreeRows := hgrown.rows
  unfold Pool.headroom at hcovered ⊢
  -- the first tokens take the promised row with them, later ones only slots
  cases hrow : runtime.env.rowSeqLens.get? record.seqId with
  | none =>
      obtain ⟨hbase, hrows⟩ := hturning.fresh hrow
      rw [hrow] at hbefore hafter hfreeRows
      simp only [Option.map_none, Option.map_some, Option.getD_none, Option.getD_some, if_true]
        at hbefore hafter hfreeRows
      cases pool with
      | slots =>
          simp only [Pool.free, Pool.decode, ChainMemory.decodeReserved, hgrown.windows] at hcovered ⊢
          omega
      | rows =>
          have hone : 1 ≤ record.reservedRows := by
            rcases hrows with hnone | hone
            · rw [hreserved.headD_eq] at hnone
              omega
            · exact hone
          have howed : Pool.rows.owed runtime.env record = max 0 record.reservedRows := by
            simp [Pool.owed, hactive, Pool.reserved, Pool.realized, hrow]
          have howed' : Pool.rows.owed memory record = max 0 (record.reservedRows - 1) := by
            simp [Pool.owed, hactive, Pool.reserved, Pool.realized, hgrown.row]
          simp only [Pool.free, Pool.decode] at hcovered ⊢
          omega
  | some before =>
      have hgrew := hturning.grown hrow
      rw [hrow] at hbefore hafter hfreeRows
      simp only [Option.map_some, Option.getD_some, reduceCtorEq, if_false] at hbefore hafter hfreeRows
      cases pool with
      | slots =>
          simp only [Pool.free, Pool.decode, ChainMemory.decodeReserved, hgrown.windows] at hcovered ⊢
          omega
      | rows =>
          have howed : Pool.rows.owed memory record = Pool.rows.owed runtime.env record := by
            simp [Pool.owed, Pool.realized, hrow, hgrown.row]
          simp only [Pool.free, Pool.decode] at hcovered ⊢
          omega

/-- A decoded token turns a token of the window into residency. -/
theorem decodeToken_solvent (hrow : runtime.env.rowSeqLens.get? record.seqId ≠ none) {left : ℕ}
    (hwindow : runtime.env.decodeWindows.get? record.seqId = some (left + 1)) :
    wpe (call (inMemory (ChainMemory.decodeToken config record.seqId))) (fun _ => Solvent config)
      (Solvent config) runtime := by
  obtain ⟨before, hbefore⟩ := Option.ne_none_iff_exists'.mp hrow
  rw [wpe_inMemory]
  unfold ChainMemory.decodeToken
  refine wpe_then_imp (ChainMemory.allocate_wpe record.seqId 1) (fun _ memory hgrown => ?_)
    fun memory hsame => hsame ▸ h
  rw [wpe_write, hgrown.windows, hwindow]
  obtain ⟨haccounts, htotal⟩ := accounts_grow h.accounts hrecord hactive hgrown
  generalize hnext : ({ memory with
    decodeWindows := runtime.env.decodeWindows.set record.seqId ((some (left + 1)).getD 0 - 1) } :
      ChainMemory) = next
  have hcalm : ∀ seqId, ChainMemory.Calm seqId memory next := by
    intro seqId
    rw [← hnext]
    exact ⟨rfl, fun hlater => ⟨_, hlater, fun hlive => ⟨hlive, rfl⟩⟩⟩
  have hsum := Dict.sum_values_set_of_get? left (fun left : ℕ => left) hwindow
  have hdecode : next.decodeReserved + 1 = runtime.env.decodeReserved := by
    rw [← hnext]
    show (runtime.env.decodeWindows.set record.seqId left).values.sum + 1 = _
    simp only [List.map_id'] at hsum
    unfold ChainMemory.decodeReserved
    omega
  have haccounts' := haccounts.calm (calmProperty_fits config) fun {_ record} _ => hcalm record.seqId
  refine ⟨haccounts', fun pool => ?_⟩
  have hsame : pool.totalOwed { runtime with env := next } = pool.totalOwed { runtime with env := memory } :=
    @Accounts.totalOwed_calm _ _ { runtime with env := memory } pool next fun {_ record} _ => hcalm record.seqId
  have howed : pool.owed memory record ≤ pool.owed runtime.env record := by
    unfold Pool.owed
    rw [if_pos hactive, if_pos hactive, hgrown.row, hbefore]
    cases pool with
    | slots =>
        simp only [Pool.realized, Option.map_some, Option.getD_some]
        omega
    | rows => simp [Pool.realized]
  have htotal := htotal pool
  have hcovered := h.covered pool
  have hfreeSlots := hgrown.slots
  have hfreeRows := hgrown.rows
  rw [hbefore] at hfreeRows
  simp only [reduceCtorEq, if_false] at hfreeRows
  unfold Pool.headroom at hcovered ⊢
  show 0 ≤ pool.free next - pool.totalOwed { runtime with env := next } - pool.decode next
  have hfree : pool.free next = pool.free memory := by
    rw [← hnext]
    cases pool <;> rfl
  rw [hsame, hfree]
  cases pool with
  | slots =>
      simp only [Pool.free, Pool.decode] at hcovered ⊢
      omega
  | rows =>
      simp only [Pool.free, Pool.decode] at hcovered ⊢
      omega

end

/-- A decode window that is acquired beside what the chains are owed. -/
theorem acquire_solvent (seqId tokens : ℕ) {prefillReserve : ℤ}
    (hreserve : Pool.slots.totalOwed runtime ≤ prefillReserve) :
    wpe (call (inMemory (ChainMemory.acquire seqId tokens prefillReserve)))
      (fun _ => Solvent config) (Solvent config) runtime := by
  rw [wpe_inMemory]
  unfold ChainMemory.acquire
  rw [wpe_get, wpe_ite]
  refine ⟨fun hfits => ?_, fun _ => h⟩
  rw [wpe_set]
  obtain ⟨hroom, hexhausted⟩ := hfits
  generalize hnext : ({ runtime.env with
    decodeWindows := runtime.env.decodeWindows.set seqId tokens } : ChainMemory) = next
  have hcalm : ∀ other, ChainMemory.Calm other runtime.env next := by
    intro other
    rw [← hnext]
    exact ⟨rfl, fun hlater => ⟨_, hlater, fun hlive => ⟨hlive, rfl⟩⟩⟩
  have hdecode : next.decodeReserved = runtime.env.decodeReserved + tokens := by
    rw [← hnext]
    show (runtime.env.decodeWindows.set seqId tokens).values.sum = _
    cases hwindow : runtime.env.decodeWindows.get? seqId with
    | none =>
        have hsum := Dict.sum_values_set_of_not_mem tokens (fun left : ℕ => left) (Dict.not_mem_keys_iff.mpr hwindow)
        simp only [List.map_id'] at hsum
        exact hsum
    | some left =>
        have hsum := Dict.sum_values_set_of_get? tokens (fun left : ℕ => left) hwindow
        rw [hwindow] at hexhausted
        simp only [List.map_id', Option.getD_some] at hsum hexhausted
        unfold ChainMemory.decodeReserved
        omega
  refine ⟨h.accounts.calm (calmProperty_fits config) fun {_ record} _ => hcalm record.seqId, fun pool => ?_⟩
  have hsame : pool.totalOwed { runtime with env := next } = pool.totalOwed runtime :=
    Accounts.totalOwed_calm fun {_ record} _ => hcalm record.seqId
  have hcovered := h.covered pool
  unfold Pool.headroom at hcovered ⊢
  show 0 ≤ pool.free next - pool.totalOwed { runtime with env := next } - pool.decode next
  have hfree : pool.free next = pool.free runtime.env := by
    rw [← hnext]
    cases pool <;> rfl
  rw [hsame, hfree]
  cases pool with
  | slots =>
      simp only [Pool.free, Pool.decode] at hcovered ⊢
      omega
  | rows =>
      simp only [Pool.free, Pool.decode] at hcovered ⊢
      omega

/-- The end of the last prefill chunk ends the promise. -/
theorem clearReservation_solvent (chainId : String) :
    wpe (clearReservation chainId) (fun _ => Solvent config) (Solvent config) runtime := by
  unfold clearReservation
  rw [wpe_bind, wpe_onIndex]
  refine wpe_lookup (fun record hrecord => ?_) h
  show wpe (onIndex (assignResidency chainId record.residentRows [] 0)) _ _ runtime
  rw [wpe_assignResidency hrecord]
  generalize hnext : ({ runtime with
    index.records := runtime.index.records.set chainId
      (record.assigned record.residentRows [] 0) } :
        ChainRuntime Fingerprint Digest ChainMemory) = next
  have hrecords : next.index.records =
      runtime.index.records.set chainId (record.assigned record.residentRows [] 0) := by
    rw [← hnext]
  have hinv : Inv next.index := by
    rw [← hnext]
    exact inv_assignResidency h.accounts.inv hrecord _ _ _
  have hmemory : next.env = runtime.env := by rw [← hnext]
  have hcalm : ∀ seqId, seqId ≠ record.seqId → ChainMemory.Calm seqId runtime.env next.env := by
    intro seqId _
    rw [hmemory]
    exact .refl _ _
  have hfits : Fits config next.env (record.assigned record.residentRows [] 0) := by
    rw [hmemory]
    cases hstate : record.state with
    | idle =>
        obtain ⟨length, hresting⟩ := (fits_idle hstate).mp (h.accounts.record hrecord)
        have hidle : (record.assigned record.residentRows [] 0).state = .idle := hstate
        exact (fits_idle hidle).mpr ⟨length, hresting.physical_eq, hresting.resident, hresting.snapshot⟩
    | active =>
        obtain ⟨base, hturning⟩ := (fits_active hstate).mp (h.accounts.record hrecord)
        have hactive : (record.assigned record.residentRows [] 0).state = .active := hstate
        exact (fits_active hactive).mpr ⟨base,
          { physical_eq := hturning.physical_eq
            reserved_eq := ⟨0, .nil⟩
            grown := hturning.grown
            fresh := fun hnone => ⟨(hturning.fresh hnone).1, .inl le_rfl⟩
            snapshot := hturning.snapshot }⟩
  refine ⟨h.accounts.revise (calmProperty_fits config) hrecord hinv hrecords hcalm hfits
    fun _ _ _ _ hothers => hothers, fun pool => ?_⟩
  have htotal := h.accounts.totalOwed_revise pool hrecord hrecords hcalm
  have hcleared := pool.owed_le_reserved next.env (record.assigned record.residentRows [] 0)
  -- without a reservation the record is owed nothing:
  have hzero : pool.reserved (record.assigned record.residentRows [] 0) = 0 := by
    cases pool <;> rfl
  have howed := pool.owed_nonneg runtime.env record
  have hcovered := h.covered pool
  rw [hzero, max_self] at hcleared
  unfold Pool.headroom at hcovered ⊢
  rw [hmemory] at hcleared htotal ⊢
  omega

end

/-! ## Leaving the index -/

section

variable (h : Solvent config runtime)

include h

/-- A chain leaves the index; its row is no one's until it is freed. -/
theorem solvent_retire (hrecord : runtime.index.records.get? record.chainId = some record) :
    Solvent config { runtime with index := runtime.index.afterRetire record } ∧
      Orphaned { runtime with index := runtime.index.afterRetire record } [record.seqId] := by
  have hcalm : ∀ seqId, seqId ≠ record.seqId → ChainMemory.Calm seqId runtime.env runtime.env :=
    fun seqId _ => .refl _ _
  have hinv := h.accounts.inv.afterRetire hrecord
  refine ⟨⟨h.accounts.retire (calmProperty_fits config) hrecord hinv rfl hcalm, fun pool => ?_⟩, ?_⟩
  · have htotal : pool.totalOwed { runtime with index := runtime.index.afterRetire record } +
        pool.owed runtime.env record = pool.totalOwed runtime :=
      h.accounts.totalOwed_retire pool hrecord rfl hcalm
    have howed := pool.owed_nonneg runtime.env record
    have hcovered := h.covered pool
    unfold Pool.headroom at hcovered ⊢
    show 0 ≤ pool.free runtime.env - _ - pool.decode runtime.env
    omega
  · intro other otherRecord hother hmem
    have hother' : (runtime.index.records.erase record.chainId).get? other = some otherRecord := hother
    rw [Dict.get?_erase] at hother'
    split at hother'
    · cases hother'
    · next hne =>
        exact Accounts.seqId_ne h.accounts.inv hrecord hother' hne (List.mem_singleton.mp hmem)

/-- `ChainCacheCoordinator.invalidate` retires the chain and returns whose row
is left. -/
theorem coordinatorInvalidate_solvent (chainId : String) :
    wpe (coordinatorInvalidate (standardHooks config) chainId)
      (fun retired next => Solvent config next ∧ Orphaned next [retired.seqId] ∧
        ∃ record, runtime.index.records.get? chainId = some record ∧ retired.seqId = record.seqId)
      (Solvent config) runtime := by
  have hdropped : wpe (whenDo ((standardHooks config : ChainHooks Fingerprint Digest ChainMemory).offload = true) (do
        let record ← onIndex (lookup chainId)
        call ((standardHooks config).dropSnapshot record.seqId)))
      (fun _ => Steady runtime) (Steady runtime) runtime := by
    rw [wpe_whenDo]
    refine ⟨fun _ => ?_, fun _ => .refl runtime⟩
    rw [wpe_bind, wpe_onIndex]
    refine wpe_lookup (fun record _ => ?_) (.refl runtime)
    exact wpe_harmless (ChainMemory.harmless_drop record.seqId) (fun _ _ hnext => hnext) fun _ hnext => hnext
  unfold coordinatorInvalidate
  refine wpe_then_imp hdropped (fun _ next hnext => ?_) fun next hnext => hnext.solvent h
  have hsolvent := hnext.solvent h
  rw [wpe_onIndex]
  refine ChainCacheIndex.invalidate_wpe hsolvent.accounts.inv hsolvent fun record hrecord hid => ?_
  rw [← hid] at hrecord
  obtain ⟨hretired, horphan⟩ := solvent_retire hsolvent hrecord
  refine ⟨hretired, horphan, record, ?_, rfl⟩
  rw [← hnext.index_eq, ← hid]
  exact hrecord

/-- Freeing an orphaned row. -/
theorem freeOrphan_solvent {seqId : ℕ} (horphan : Orphaned runtime [seqId]) :
    wpe (call ((standardHooks config).freeSeqPayload seqId)) (fun _ => Solvent config) (Solvent config) runtime := by
  rw [wpe_of_ok (freeSeqPayload_apply seqId)]
  obtain ⟨haccounts, hgain⟩ := accounts_freed h.accounts (calmProperty_fits config) horphan
  refine ⟨haccounts, fun pool => ?_⟩
  have hcovered := h.covered pool
  have hheld := pool.held_nonneg runtime.env seqId
  have hgain := hgain pool
  omega

/-- `chain_invalidate`. -/
theorem chainInvalidate_solvent (chainId : String) (expectedSeqId : Option ℕ) :
    wpe (chainInvalidate (standardHooks config) chainId expectedSeqId) (fun _ => Solvent config)
      (Solvent config) runtime := by
  unfold chainInvalidate
  rw [wpe_bind, wpe_onIndex]
  refine wpe_lookup (fun record _ => ?_) h
  refine wpe_guarded h fun _ => ?_
  refine wpe_then (coordinatorInvalidate_solvent h chainId) fun retired next hnext => ?_
  exact freeOrphan_solvent hnext.1 hnext.2.1

/-- Ending a decode window. -/
theorem release_solvent (seqId : ℕ) :
    Solvent config { runtime with env := { runtime.env with
      decodeWindows := runtime.env.decodeWindows.erase seqId } } := by
  have hcalm : ∀ other, ChainMemory.Calm other runtime.env
      { runtime.env with decodeWindows := runtime.env.decodeWindows.erase seqId } := fun other =>
    ⟨rfl, fun hlater => ⟨_, hlater, fun hlive => ⟨hlive, rfl⟩⟩⟩
  refine ⟨h.accounts.calm (calmProperty_fits config) fun {_ record} _ => hcalm record.seqId, fun pool => ?_⟩
  have hcovered := h.covered pool
  unfold Pool.headroom at hcovered ⊢
  rw [Accounts.totalOwed_calm fun {_ record} _ => hcalm record.seqId]
  cases pool with
  | slots =>
      have hle := ChainMemory.decodeReserved_release_le runtime.env seqId
      simp only [Pool.free, Pool.decode] at hcovered ⊢
      omega
  | rows => exact hcovered

end

theorem evict_apply {index : ChainCacheIndex Fingerprint Digest} (hidle : record.state = .idle)
    (hrecord : index.records.get? record.chainId = some record) :
    evict record.chainId index = (.ok { record with tokenIds := [] }, index.afterRetire record) := by
  unfold evict
  simp only [bind_apply, lookup_apply, lookupRecord_eq_ok.mpr hrecord, raiseIf_apply, hidle,
    reduceCtorEq, if_false, retire_apply hrecord, pure_apply]

/-- The row of an IDLE chain is freed before the chain is demoted or evicted. -/
theorem chainReclaimIdle_solvent (h : Solvent config runtime) (chainId : String) (expectedSeqId : ℕ) (demote : Bool) :
    wpe (chainReclaimIdle (standardHooks config) chainId expectedSeqId demote)
      (fun _ => Solvent config) (Solvent config) runtime := by
  unfold chainReclaimIdle
  rw [wpe_bind, wpe_onIndex]
  refine wpe_lookup (fun record hrecord => ?_) h
  refine wpe_guarded h fun _ => ?_
  refine wpe_guarded h fun hstate => ?_
  have hidle : record.state = .idle := not_not.mp hstate
  -- asking for residency changes nothing:
  have hresident : wpe (if record.residentRows ≤ 0 then pure false
      else call ((standardHooks config).chainHasResidency record.seqId))
      (fun _ next => next = runtime) (fun next => next = runtime) runtime := by
    rw [wpe_ite]
    exact ⟨fun _ => rfl, fun _ => (wpe_of_ok (chainHasResidency_apply record.seqId)).mpr rfl⟩
  refine wpe_then_imp hresident (fun resident _ hsame => ?_) fun next hnext => hnext ▸ h
  rw [hsame]
  refine wpe_guarded h fun _ => ?_
  -- neither does the snapshot, whether it is waited for or dropped:
  have hcopied : wpe
      (if demote = true then (do
        let valid ← (if (standardHooks config : ChainHooks Fingerprint Digest _).offload = true
          then call ((standardHooks config).waitSnapshot record.seqId) else pure false)
        raiseIf (valid = false) (.runtimeError "Cannot demote a chain without a valid CPU snapshot."))
      else whenDo ((standardHooks config : ChainHooks Fingerprint Digest _).offload = true)
        (call ((standardHooks config).dropSnapshot record.seqId)))
      (fun _ next => Steady runtime next ∧ (demote = true → config.offload = true))
      (Steady runtime) runtime := by
    rw [wpe_ite]
    constructor
    · intro _
      rw [wpe_bind, wpe_ite]
      refine ⟨fun hoffload => ?_, fun _ => ?_⟩
      · refine wpe_waitSnapshot (fun valid next hnext => ?_) fun next hnext => hnext
        exact wpe_raiseIf.mpr ⟨fun _ => hnext, fun _ => ⟨hnext, fun _ => hoffload⟩⟩
      · rw [wpe_pure, wpe_raiseIf]
        exact ⟨fun _ => .refl runtime, fun hvalid => absurd rfl hvalid⟩
    · intro hdemote
      rw [wpe_whenDo]
      refine ⟨fun _ => ?_, fun _ => ⟨.refl runtime, fun htrue => absurd htrue hdemote⟩⟩
      exact wpe_harmless (ChainMemory.harmless_drop record.seqId)
        (fun _ next hnext => ⟨hnext, fun htrue => absurd htrue hdemote⟩) fun _ hnext => hnext
  refine wpe_then_imp hcopied (fun _ copied hcopied => ?_) fun next hnext => hnext.solvent h
  obtain ⟨hsteady, hoffload⟩ := hcopied
  have hsolvent := hsteady.solvent h
  have hrecord' : copied.index.records.get? chainId = some record := by
    rw [hsteady.index_eq]
    exact hrecord
  rw [wpe_bind, wpe_of_ok (freeSeqPayload_apply record.seqId), wpe_ite]
  constructor
  · intro hdemote
    have hfreed : (⟨copied.index, freed copied.env record.seqId⟩ :
        ChainRuntime Fingerprint Digest ChainMemory).index.records.get? chainId = some record :=
      hrecord'
    rw [wpe_assignResidency hfreed]
    exact (solvent_demote (release_solvent hsolvent record.seqId) _ (hoffload hdemote) hrecord'
      hidle (inv_assignResidency hsolvent.accounts.inv hrecord' _ _ _) rfl rfl).1
  · intro _
    -- without a copy the chain is retired first, and its memory is nobody's
    have hid : record.chainId = chainId := h.accounts.inv.chainId_eq hrecord
    subst hid
    obtain ⟨hretired, horphan⟩ := solvent_retire hsolvent hrecord'
    rw [wpe_bind, wpe_onIndex, wpe_of_ok (evict_apply hidle hrecord'), wpe_pure]
    have hfree := freeOrphan_solvent hretired horphan
    rw [wpe_of_ok (freeSeqPayload_apply record.seqId)] at hfree
    exact hfree

end ChainRuntime
