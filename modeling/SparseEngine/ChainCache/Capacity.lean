import SparseEngine.ChainCache.Commitment

/-!
# Runs against the memory

The end of a turn may fail half way, after the reservation was cleared and
other chains lost their snapshots; its handler then takes the chain out of the
index and frees its row.  With it every call of a chain runtime keeps the
promises covered, so every run does.

`Finished` is the state between the finish and the saving of its snapshot,
`SolventFor` the one the handler is given.  `call_solvent` has one case for
each call, `Reachable.solvent` the induction.
-/

open Routine ChainCacheIndex ChainRuntime

variable {Fingerprint Digest : Type}

namespace ChainRuntime

variable {config : MemoryConfig} {runtime next : ChainRuntime Fingerprint Digest ChainMemory}
  {record : ChainRecord Fingerprint Digest}

/-! ## The end of a turn -/

/-- The chain of an id, if it is there, owns the sequence. -/
structure SolventFor (config : MemoryConfig) (chainId : String) (seqId : ℕ)
    (runtime : ChainRuntime Fingerprint Digest ChainMemory) : Prop where
  solvent : Solvent config runtime
  owner : ∀ {record}, runtime.index.records.get? chainId = some record → record.seqId = seqId

/-- A finished chain that rests in its row. -/
structure Finished (config : MemoryConfig) (record : ChainRecord Fingerprint Digest)
    (runtime : ChainRuntime Fingerprint Digest ChainMemory) : Prop where
  solvent : Solvent config runtime
  idle : record.state = .idle
  get?_eq : runtime.index.records.get? record.chainId = some record

theorem Finished.steady (h : Finished config record runtime) (hnext : Steady runtime next) :
    Finished config record next where
  solvent := hnext.solvent h.solvent
  idle := h.idle
  get?_eq := by
    rw [hnext.index_eq]
    exact h.get?_eq

theorem Finished.solventFor (h : Finished config record runtime) :
    SolventFor config record.chainId record.seqId runtime :=
  ⟨h.solvent, fun hget => by rw [Option.some.inj (hget.symm.trans h.get?_eq)]⟩

/-- Finishing the turn records the residency and ends the promise. -/
theorem finishValues_wpe {chainId : String} {seqId : ℕ} (h : SolventFor config chainId seqId runtime)
    (sha : Sha256 Digest) (processedTokenDigest : Digest) (processedTokenCount : ℤ) :
    wpe (finishValues (standardHooks config) sha chainId seqId processedTokenDigest processedTokenCount)
      (fun finished next => Finished config finished next ∧ finished.chainId = chainId ∧ finished.seqId = seqId)
      (SolventFor config chainId seqId) runtime := by
  unfold finishValues
  rw [wpe_bind, wpe_onIndex]
  refine wpe_lookup (fun record hrecord => ?_) h
  refine wpe_guarded h fun _ => ?_
  have hseq : record.seqId = seqId := h.owner hrecord
  rw [wpe_bind]
  cases hrow : runtime.env.rowSeqLens.get? seqId with
  | none =>
      -- without a resident row the finish raises before it writes:
      have hrun : call ((standardHooks config).chainPhysicalResidency seqId) runtime =
          (.error (.runtimeError s!"Missing chain row for seq_id={seqId}."), runtime) := by
        show (match ChainMemory.chainPhysicalResidency config seqId runtime.env with
          | (result, env) => (result, { runtime with env := env })) = _
        simp only [ChainMemory.chainPhysicalResidency, bind_apply, read_apply, ofExcept_apply, hrow]
      rw [wpe_def, hrun]
      exact h
  | some length =>
      rw [wpe_of_ok (chainPhysicalResidency_apply hrow), wpe_onIndex]
      refine finishDigest_wpe sha processedTokenDigest processedTokenCount _ 1 h
        fun found hfound hactive hprocessed _ => ?_
      obtain rfl := Option.some.inj (hrecord.symm.trans hfound)
      have hid : record.chainId = chainId := h.solvent.accounts.inv.chainId_eq hrecord
      generalize hfinished : finishedRecord record processedTokenDigest processedTokenCount
        (List.replicate config.numKvLayers (length : ℤ)) 1 (runtime.index.clock + 1) = finished
      generalize hnext : (⟨runtime.index.afterFinish chainId finished, runtime.env⟩ :
        ChainRuntime Fingerprint Digest ChainMemory) = next
      have hidle : finished.state = .idle := by rw [← hfinished]; rfl
      have hrecords : next.index.records = runtime.index.records.set chainId finished := by
        rw [← hnext]
        rfl
      have hmemory : next.env = runtime.env := by rw [← hnext]
      have hinv : Inv next.index := by
        rw [← hnext, ← hfinished]
        exact (Quiet.afterFinish h.solvent.accounts.inv hrecord hprocessed _ _ _ _).inv
      have hcalm : ∀ other, other ≠ record.seqId → ChainMemory.Calm other runtime.env next.env := by
        intro other _
        rw [hmemory]
        exact .refl _ _
      obtain ⟨base, hturning⟩ := (fits_active hactive).mp (h.solvent.accounts.record hrecord)
      -- the finished record is resident with the length of its row:
      have hfits : Fits config next.env finished := by
        rw [hmemory]
        refine (fits_idle hidle).mpr ⟨length, ?_⟩
        rw [← hfinished]
        refine ⟨rfl, .inl ⟨rfl, ?_⟩, fun hsnapshot => ?_⟩
        · show runtime.env.rowSeqLens.get? record.seqId = some length
          rw [hseq, hrow]
        · obtain ⟨hoffload, hdead⟩ := hturning.snapshot hsnapshot
          exact ⟨hoffload, fun hlive => absurd hlive hdead⟩
      refine ⟨⟨⟨h.solvent.accounts.revise (calmProperty_fits config) hrecord hinv hrecords hcalm
        hfits fun _ _ _ _ hothers => hothers, fun pool => ?_⟩, hidle, ?_⟩, ?_, ?_⟩
      · -- an IDLE record is owed nothing, so the pools only gain
        have htotal := h.solvent.accounts.totalOwed_revise pool hrecord hrecords hcalm
        have hnone : pool.owed next.env finished = 0 := Pool.owed_idle hidle
        have howed := pool.owed_nonneg runtime.env record
        have hcovered := h.solvent.covered pool
        unfold Pool.headroom at hcovered ⊢
        rw [hmemory] at htotal hnone ⊢
        omega
      · have hkey : finished.chainId = chainId := by
          rw [← hfinished]
          exact hid
        rw [hkey, hrecords]
        exact Dict.get?_set_self _ _ _
      · rw [← hfinished]
        exact hid
      · rw [← hfinished]
        exact hseq

section

variable (h : Finished config record runtime)

include h

/-- Evicting another chain leaves the finished one as it is. -/
theorem evict_finished {other : String} (hne : other ≠ record.chainId) :
    wpe (onIndex (evict other)) (fun _ => Finished config record) (Finished config record)
      runtime := by
  rw [wpe_onIndex]
  refine evict_wpe h.solvent.accounts.inv h fun victim hvictim _ hid => ?_
  rw [← hid] at hvictim
  refine ⟨(solvent_retire h.solvent hvictim).1, h.idle, ?_⟩
  show (runtime.index.records.erase victim.chainId).get? record.chainId = _
  rw [Dict.get?_erase, if_neg (by rw [hid]; exact hne.symm)]
  exact h.get?_eq

/-- Room for a snapshot is made at the cost of other chains. -/
theorem makeRoom_finished (oldBytes required : ℤ) (victims : List (ChainRecord Fingerprint Digest))
    (hne : ∀ victim ∈ victims, victim.chainId ≠ record.chainId) :
    wpe (makeRoom (standardHooks config) oldBytes required victims)
      (fun _ => Finished config record) (Finished config record) runtime := by
  induction victims generalizing runtime with
  | nil => exact h
  | cons victim rest ih =>
      have ih := fun {next} (hnext : Finished config record next) =>
        ih hnext fun other hmem => hne other (List.mem_cons_of_mem _ hmem)
      unfold makeRoom
      rw [wpe_bind]
      show wpe (if _ then _ else _) _ _ runtime
      rw [wpe_ite]
      refine ⟨fun _ => ?_, fun _ => h⟩
      rw [wpe_bind]
      refine wpe_harmless (ChainMemory.harmless_drop victim.seqId) (fun _ dropped hdropped => ?_)
        fun next hnext => h.steady hnext
      have hfinished := h.steady hdropped
      rw [wpe_bind, wpe_whenDo]
      refine ⟨fun _ => ?_, fun _ => ih hfinished⟩
      refine wpe_then (evict_finished hfinished (hne victim List.mem_cons_self)) fun _ next hnext => ?_
      exact ih hnext

/-- A snapshot of the row that the chain rests in. -/
theorem Finished.setSnapshot (hoffload : config.offload = true) {length : ℕ}
    (hrow : runtime.env.rowSeqLens.get? record.seqId = some length) :
    Finished config record { runtime with env := { runtime.env with
      snapshots := runtime.env.snapshots.set record.seqId ⟨length, false, true⟩ } } := by
  generalize hnext : ({ runtime with env := { runtime.env with
      snapshots := runtime.env.snapshots.set record.seqId ⟨length, false, true⟩ } } :
        ChainRuntime Fingerprint Digest ChainMemory) = next
  have hsame : next.index.records = runtime.index.records.set record.chainId record := by
    rw [← hnext]
    exact (Dict.set_of_get? h.get?_eq).symm
  have hcalm : ∀ other, other ≠ record.seqId → ChainMemory.Calm other runtime.env next.env := by
    intro other hne
    rw [← hnext]
    refine ⟨rfl, fun {later} hlater => ?_⟩
    have hlater' := (Dict.get?_set_of_ne runtime.env.snapshots _ hne).symm.trans hlater
    exact ⟨later, hlater', fun hlive => ⟨hlive, rfl⟩⟩
  have hfits : Fits config next.env record := by
    obtain ⟨rest, hresting⟩ := (fits_idle h.idle).mp (h.solvent.accounts.record h.get?_eq)
    -- the chain rests in its row, so the copy has its length:
    have hlength : rest = length := by
      rcases hresting.resident with ⟨_, hrest⟩ | ⟨_, hnone, _⟩
      · exact Option.some.inj (hrest.symm.trans hrow)
      · exact nomatch hnone.symm.trans hrow
    refine (fits_idle h.idle).mpr ⟨rest, hresting.physical_eq, ?_, fun {snapshot} hsnapshot => ?_⟩
    · rw [← hnext]
      exact hresting.resident
    · rw [← hnext] at hsnapshot
      obtain rfl := Option.some.inj ((Dict.get?_set_self _ _ _).symm.trans hsnapshot)
      exact ⟨hoffload, fun _ => hlength.symm⟩
  have hinv : Inv next.index := by
    rw [← hnext]
    exact h.solvent.accounts.inv
  refine ⟨⟨?_, fun pool => ?_⟩, h.idle, ?_⟩
  · exact h.solvent.accounts.revise (calmProperty_fits config) h.get?_eq hinv hsame hcalm hfits
      fun _ _ _ _ hothers => hothers
  · have htotal := h.solvent.accounts.totalOwed_revise pool h.get?_eq hsame hcalm
    have hbefore : pool.owed runtime.env record = 0 := Pool.owed_idle h.idle
    have hafter : pool.owed next.env record = 0 := Pool.owed_idle h.idle
    have hcovered := h.solvent.covered pool
    have hfree : pool.free next.env = pool.free runtime.env := by
      rw [← hnext]
      cases pool <;> rfl
    have hdecode : pool.decode next.env = pool.decode runtime.env := by
      rw [← hnext]
      cases pool <;> rfl
    unfold Pool.headroom at hcovered ⊢
    omega
  · rw [hsame]
    exact Dict.get?_set_self _ _ _

/-- Saving copies the row the chain rests in. -/
theorem save_finished (hoffload : config.offload = true) :
    wpe (call (inMemory (ChainMemory.save config record.seqId))) (fun _ => Finished config record)
      (Finished config record) runtime := by
  have hsteady : ∀ {memory}, ChainMemory.OnlySnapshots runtime.env memory →
      Finished config record { runtime with env := memory } := fun {memory} hmemory =>
    h.steady ⟨rfl, hmemory⟩
  rw [wpe_inMemory]
  unfold ChainMemory.save
  refine wpe_then_imp (ChainMemory.harmless_poll.wpe runtime.env) (fun _ polled hpolled => ?_)
    fun _ hnext => hsteady hnext
  unfold ChainMemory.residentLength
  rw [wpe_bind, wpe_get]
  refine wpe_ofExcept (fun length hlength => ?_) (hsteady hpolled)
  have hrow : polled.rowSeqLens.get? record.seqId = some length := by
    cases hfound : polled.rowSeqLens.get? record.seqId with
    | none =>
        rw [hfound] at hlength
        exact nomatch hlength
    | some found =>
        rw [hfound] at hlength
        rw [Except.ok.inj hlength]
  rw [wpe_get]
  refine wpe_guarded (hsteady hpolled) fun _ => ?_
  refine wpe_then_imp ((ChainMemory.harmless_drop record.seqId).wpe polled) (fun _ dropped hdropped => ?_)
    fun _ hnext => hsteady (hpolled.trans hnext)
  refine wpe_then_imp (ChainMemory.harmless_deviceCall.wpe dropped) (fun _ copying hcopying => ?_)
    fun _ hnext => hsteady ((hpolled.trans hdropped).trans hnext)
  have hmoved := hdropped.trans hcopying
  have hrow' : copying.rowSeqLens.get? record.seqId = some length :=
    (hmoved.calm record.seqId).row_eq.trans hrow
  exact (hsteady (hpolled.trans hmoved)).setSnapshot hoffload hrow'

end

/-- The records that have a snapshot are some of the records. -/
theorem withSnapshot_subset (records : List (ChainRecord Fingerprint Digest)) :
    wpe (withSnapshot (standardHooks config) records)
      (fun found next => next = runtime ∧ found ⊆ records) (fun next => next = runtime) runtime := by
  induction records with
  | nil => exact ⟨rfl, List.Subset.refl _⟩
  | cons record rest ih =>
      obtain ⟨snapshot, hsnapshot⟩ : ∃ snapshot,
          call ((standardHooks config).hasSnapshot record.seqId) runtime = (.ok snapshot, runtime) := ⟨_, rfl⟩
      unfold withSnapshot
      rw [wpe_bind, wpe_of_ok hsnapshot]
      refine wpe_then ih fun found next hfound => ?_
      refine ⟨hfound.1, ?_⟩
      have hrest : found ⊆ record :: rest := fun other hmem =>
        List.mem_cons_of_mem _ (hfound.2 hmem)
      split
      · exact List.cons_subset.mpr ⟨List.mem_cons_self, hrest⟩
      · exact hrest

/-- The snapshot of a finished chain is saved, at the cost of others if need
be. -/
theorem saveFinishedChain_wpe (h : Finished config record runtime) :
    wpe (saveFinishedChain (standardHooks config) record) (fun _ => Finished config record)
      (Finished config record) runtime := by
  unfold saveFinishedChain
  rw [wpe_whenDo]
  refine ⟨fun hoffload => ?_, fun _ => h⟩
  have hlength : ChainMemory.Harmless (ChainMemory.requiredBytes config record.seqId) :=
    .bind (.bind .read fun _ => .ofExcept _) fun _ => .pure _
  rw [wpe_bind]
  refine wpe_harmless hlength (fun required measured hmeasured => ?_) fun next hnext => h.steady hnext
  have hfinished := h.steady hmeasured
  rw [wpe_bind]
  show wpe (raiseIf _ _ >>= _) _ _ measured
  refine wpe_guarded hfinished fun _ => ?_
  rw [wpe_bind]
  show wpe (overBudget (standardHooks config) _ required >>= _) _ _ measured
  obtain ⟨exceeds, hexceeds⟩ : ∃ exceeds, overBudget (standardHooks config)
      (ChainMemory.snapshotBytes config measured.env record.seqId) required measured =
        (.ok exceeds, measured) := ⟨_, rfl⟩
  rw [wpe_bind, wpe_of_ok hexceeds, wpe_get, wpe_bind]
  generalize hothers : measured.index.records.values.filter
    (fun other => decide (other.chainId ≠ record.chainId)) = others
  have hcandidates : wpe (if exceeds = true then withSnapshot (standardHooks config) others else pure [])
      (fun found next => next = measured ∧ found ⊆ others) (fun next => next = measured)
      measured := by
    rw [wpe_ite]
    exact ⟨fun _ => withSnapshot_subset others, fun _ => ⟨rfl, List.nil_subset _⟩⟩
  refine wpe_imp hcandidates (fun found next hfound => ?_) fun next hsame => hsame ▸ hfinished
  obtain ⟨rfl, hfound⟩ := hfound
  refine wpe_then (makeRoom_finished hfinished _ required _ fun victim hmem => ?_)
    fun _ next hnext => save_finished hnext hoffload
  have hvictim := hfound ((List.perm_insertionSort _ _).mem_iff.mp hmem)
  rw [← hothers] at hvictim
  exact of_decide_eq_true (List.mem_filter.mp hvictim).2

/-- `chain_finish`: a turn that cannot be finished loses its chain and frees its
row. -/
theorem chainFinish_solvent (h : Solvent config runtime) (sha : Sha256 Digest) (chainId : String)
    (seqId : ℕ) (processedTokenDigest : Digest) (processedTokenCount : ℤ) :
    wpe (chainFinish (standardHooks config) sha chainId seqId processedTokenDigest processedTokenCount)
      (fun _ => Solvent config) (Solvent config) runtime := by
  unfold chainFinish
  rw [wpe_bind, wpe_onIndex]
  refine wpe_lookup (fun record hrecord => ?_) h
  refine wpe_guarded h fun howner => ?_
  refine wpe_guarded h fun _ => ?_
  have hfor : SolventFor config chainId seqId runtime := ⟨h, fun {found} hfound => by
    rw [Option.some.inj (hfound.symm.trans hrecord)]
    exact not_not.mp howner⟩
  apply wpe_onError
  -- the handler works on whatever the turn has already given up
  have hhandler : ∀ next, SolventFor config chainId seqId next →
      wpe (do
          let _ ← coordinatorInvalidate (standardHooks config) chainId
          call ((standardHooks config).freeSeqPayload seqId) :
            Method Fingerprint Digest ChainMemory Unit)
        (fun _ => Solvent config) (Solvent config) next := by
    intro next hnext
    refine wpe_then (coordinatorInvalidate_solvent hnext.solvent chainId) fun retired last hlast => ?_
    obtain ⟨hsolvent, horphan, found, hfound, hseq⟩ := hlast
    rw [hseq, hnext.owner hfound] at horphan
    exact freeOrphan_solvent hsolvent horphan
  suffices hbody : wpe _ (fun _ => Solvent config) (SolventFor config chainId seqId) runtime from
    wpe_imp hbody (fun _ _ hnext => hnext) hhandler
  rw [wpe_bind]
  show wpe (call (inMemory (ChainMemory.release seqId)) >>= _) _ _ runtime
  rw [wpe_bind]
  have hreleased : SolventFor config chainId seqId
      { runtime with env := { runtime.env with
        decodeWindows := runtime.env.decodeWindows.erase seqId } } :=
    ⟨release_solvent h seqId, hfor.owner⟩
  show wpe (finishValues (standardHooks config) sha chainId seqId processedTokenDigest
    processedTokenCount >>= _) _ _ _
  refine wpe_then (finishValues_wpe hreleased sha processedTokenDigest processedTokenCount)
    fun finished next hnext => ?_
  obtain ⟨hfinished, hid, hseq⟩ := hnext
  refine wpe_then_imp (saveFinishedChain_wpe hfinished) (fun _ _ hlast => hlast.solvent) fun last hlast => ?_
  rw [← hid, ← hseq]
  exact hlast.solventFor

end ChainRuntime

/-! ## Runs -/

/-- The calls of a chain runtime that move memory.  A plan is applied when it is
made; a chunk, a token and the last chunk are those of the chain's own turn. -/
inductive CapacityOp (Fingerprint Digest : Type) where
  | admission (chainId : String) (seqId : ℕ) (tokenIds : List ℤ) (fingerprint : Fingerprint)
  | prefill (chainId : String) (size : ℕ)
  | lastChunk (chainId : String)
  | acquire (seqId tokens : ℕ) (prefillReserve : ℤ)
  | decode (chainId : String)
  | finish (chainId : String) (seqId : ℕ) (processedTokenDigest : Digest)
      (processedTokenCount : ℤ)
  | reclaimIdle (chainId : String) (expectedSeqId : ℕ) (demote : Bool)
  | invalidate (chainId : String) (expectedSeqId : Option ℕ)

/-- What an ACTIVE chain is still owed in a layer: its reservation less what its
row has grown by since the last finish. -/
def ChainMemory.owedSlots (memory : ChainMemory) (record : ChainRecord Fingerprint Digest)
    (layer : ℕ) : ℤ :=
  let baseline := record.physicalSlotsByLayer.getD layer 0
  let current := match memory.rowSeqLens.get? record.seqId with
    | some length => (length : ℤ)
    | none => baseline
  max 0 (record.reservedSlotsByLayer.getD layer 0 - (current - baseline))

/-- The row an ACTIVE chain is still owed. -/
def ChainMemory.owedRows (memory : ChainMemory) (record : ChainRecord Fingerprint Digest) : ℤ :=
  max 0 (record.reservedRows - if (memory.rowSeqLens.get? record.seqId).isSome then 1 else 0)

namespace ChainRuntime

variable {config : MemoryConfig} {runtime next : ChainRuntime Fingerprint Digest ChainMemory}
  {record : ChainRecord Fingerprint Digest} {chainId : String}

/-- The records of the chains in a turn. -/
def turning (runtime : ChainRuntime Fingerprint Digest ChainMemory) :
    List (ChainRecord Fingerprint Digest) :=
  runtime.index.records.values.filter fun record => record.state = .active

/-- The sum of what is owed in a layer. -/
def outstandingSlots (runtime : ChainRuntime Fingerprint Digest ChainMemory) (layer : ℕ) : ℤ :=
  (runtime.turning.map fun record => runtime.env.owedSlots record layer).sum

def outstandingRows (runtime : ChainRuntime Fingerprint Digest ChainMemory) : ℤ :=
  (runtime.turning.map runtime.env.owedRows).sum

/-- No layer is promised more than is free, and every chain in a turn can be
given the slots it is owed, as far as its row is wide enough. -/
structure NeverOvercommits (config : MemoryConfig)
    (runtime : ChainRuntime Fingerprint Digest ChainMemory) : Prop where
  slots : ∀ layer < config.numKvLayers,
    runtime.outstandingSlots layer + runtime.env.decodeReserved ≤ runtime.env.numFreeSlots
  rows : runtime.outstandingRows ≤ runtime.env.numFreeRows
  prefill : ∀ {chainId record} {size : ℕ}, runtime.index.records.get? chainId = some record →
    record.state = .active → 0 < size →
    (∀ layer < config.numKvLayers, (size : ℤ) ≤ runtime.env.owedSlots record layer) →
    (runtime.env.rowSeqLens.get? record.seqId).getD 0 + size ≤ config.rowCapacity →
    (ChainMemory.allocate config record.seqId size runtime.env).1 = .ok ()

/-! ### From the accounts to the layers -/

variable {layer : ℕ}

/-- Every layer is owed the same. -/
theorem owedSlots_eq (h : Accounts (fun _ => Fits config) runtime)
    (hrecord : runtime.index.records.get? chainId = some record) (hactive : record.state = .active)
    (hlayer : layer < config.numKvLayers) :
    runtime.env.owedSlots record layer = Pool.slots.owed runtime.env record := by
  obtain ⟨base, hturning⟩ := (fits_active hactive).mp (h.record hrecord)
  obtain ⟨promised, hreserved⟩ := hturning.reserved_eq
  rw [owed_of_turning hactive hturning hreserved]
  unfold ChainMemory.owedSlots
  rw [hturning.physical_eq.getD_eq hlayer, hreserved.getD_eq hlayer]
  cases hrow : runtime.env.rowSeqLens.get? record.seqId with
  | none => simp
  | some length =>
      have hgrown := hturning.grown hrow
      simp only [Option.map_some, Option.getD_some]
      omega

theorem owedRows_eq (hactive : record.state = .active) :
    runtime.env.owedRows record = Pool.rows.owed runtime.env record := by
  unfold ChainMemory.owedRows Pool.owed
  rw [if_pos hactive]
  rfl

/-- Chains between two turns are owed nothing. -/
theorem sum_turning (pool : Pool) :
    (runtime.turning.map (pool.owed runtime.env)).sum = pool.totalOwed runtime := by
  apply sum_map_filter_of_zero
  intro record _ hinactive
  apply Pool.owed_idle
  cases hstate : record.state with
  | idle => rfl
  | active => exact absurd hstate (of_decide_eq_false hinactive)

theorem mem_turning {record : ChainRecord Fingerprint Digest} (hmem : record ∈ runtime.turning) :
    record.state = .active ∧ ∃ chainId, runtime.index.records.get? chainId = some record := by
  obtain ⟨hvalue, hactive⟩ := List.mem_filter.mp hmem
  exact ⟨of_decide_eq_true hactive, Dict.mem_values_iff.mp hvalue⟩

theorem outstandingSlots_eq (h : Accounts (fun _ => Fits config) runtime) (hlayer : layer < config.numKvLayers) :
    runtime.outstandingSlots layer = Pool.slots.totalOwed runtime := by
  rw [← sum_turning]
  apply congrArg List.sum
  apply List.map_congr_left
  intro record hmem
  obtain ⟨hactive, chainId, hrecord⟩ := mem_turning hmem
  exact owedSlots_eq h hrecord hactive hlayer

theorem outstandingRows_eq : runtime.outstandingRows = Pool.rows.totalOwed runtime := by
  rw [← sum_turning]
  apply congrArg List.sum
  apply List.map_congr_left
  intro record hmem
  exact owedRows_eq (mem_turning hmem).1

/-- One chain is owed at most what all are owed. -/
theorem owed_le_totalOwed (pool : Pool) (hrecord : runtime.index.records.get? chainId = some record) :
    pool.owed runtime.env record ≤ pool.totalOwed runtime := by
  apply List.single_le_sum
  · intro owed howed
    obtain ⟨other, _, rfl⟩ := List.mem_map.mp howed
    exact pool.owed_nonneg _ _
  · exact List.mem_map.mpr ⟨record, Dict.mem_values_iff.mpr ⟨chainId, hrecord⟩, rfl⟩

theorem neverOvercommits_of_solvent (h : Solvent config runtime) :
    NeverOvercommits config runtime where
  slots layer hlayer := by
    have hcovered : 0 ≤ (runtime.env.numFreeSlots : ℤ) - Pool.slots.totalOwed runtime -
      runtime.env.decodeReserved := h.covered .slots
    rw [outstandingSlots_eq h.accounts hlayer]
    omega
  rows := by
    have hcovered : 0 ≤ (runtime.env.numFreeRows : ℤ) - Pool.rows.totalOwed runtime - 0 :=
      h.covered .rows
    rw [outstandingRows_eq]
    omega
  prefill := by
    intro chainId record size hrecord hactive hpos hpromised hcapacity
    have hsize := hpromised 0 config.numKvLayers_pos
    rw [owedSlots_eq h.accounts hrecord hactive config.numKvLayers_pos] at hsize
    have hslots : 0 ≤ (runtime.env.numFreeSlots : ℤ) - Pool.slots.totalOwed runtime -
      runtime.env.decodeReserved := h.covered .slots
    have hone := owed_le_totalOwed Pool.slots hrecord
    refine ChainMemory.allocate_ok (fun hnone => ?_) hcapacity (by omega)
    -- a chain without a row that is owed slots is also owed a row
    obtain ⟨base, hturning⟩ := (fits_active hactive).mp (h.accounts.record hrecord)
    obtain ⟨promised, hreserved⟩ := hturning.reserved_eq
    have hrow : 1 ≤ record.reservedRows := by
      rcases (hturning.fresh hnone).2 with hnothing | hrow
      · rw [hreserved.headD_eq] at hnothing
        rw [owed_of_turning hactive hturning hreserved, hnone] at hsize
        simp only [Option.map_none, Option.getD_none] at hsize
        omega
      · exact hrow
    have howed : Pool.rows.owed runtime.env record = max 0 record.reservedRows := by
      simp [Pool.owed, hactive, Pool.reserved, Pool.realized, hnone]
    have hrows : 0 ≤ (runtime.env.numFreeRows : ℤ) - Pool.rows.totalOwed runtime - 0 :=
      h.covered .rows
    have hone := owed_le_totalOwed Pool.rows hrecord
    omega

end ChainRuntime

namespace CapacityOp

/-- What the engine keeps to: a new chain gets a new sequence, a chunk is within
the promise of its chain, a decode window leaves what the chains are owed, and a
token is within its window. -/
def Allowed (config : MemoryConfig) (runtime : ChainRuntime Fingerprint Digest ChainMemory) :
    CapacityOp Fingerprint Digest → Prop
  | admission chainId seqId _ _ => FreshUnlessKnown runtime chainId seqId
  | prefill chainId size => ∃ record, runtime.index.records.get? chainId = some record ∧
      record.state = .active ∧ 0 < size ∧
      ∀ layer < config.numKvLayers, (size : ℤ) ≤ runtime.env.owedSlots record layer
  | acquire _ _ prefillReserve =>
      ∀ layer < config.numKvLayers, runtime.outstandingSlots layer ≤ prefillReserve
  | decode chainId => ∃ record left, runtime.index.records.get? chainId = some record ∧
      record.state = .active ∧ runtime.env.rowSeqLens.get? record.seqId ≠ none ∧
      runtime.env.decodeWindows.get? record.seqId = some (left + 1)
  | _ => True

variable {size : ℕ}

theorem allowed_prefill {config : MemoryConfig}
    {runtime : ChainRuntime Fingerprint Digest ChainMemory} {chainId : String}
    (hfound : (runtime.index.records.get? chainId).any (fun record =>
      decide (record.state = .active ∧ 0 < size ∧
        ∀ layer < config.numKvLayers, (size : ℤ) ≤ runtime.env.owedSlots record layer)) = true) :
    (prefill chainId size).Allowed config runtime := by
  obtain ⟨record, hrecord, hkept⟩ := Option.any_eq_true _ _ |>.mp hfound
  obtain ⟨hactive, hpos, hpromised⟩ := of_decide_eq_true hkept
  exact ⟨record, hrecord, hactive, hpos, hpromised⟩

variable [DecidableEq Fingerprint] [DecidableEq Digest] (config : MemoryConfig)
  (sha : Sha256 Digest)

/-- The call an operation stands for. -/
def call : CapacityOp Fingerprint Digest → Method Fingerprint Digest ChainMemory Unit
  | admission chainId seqId tokenIds fingerprint => do
      let plan ← chainAdmissionPlan (standardHooks config) sha fingerprint chainId seqId tokenIds
      let _ ← chainApplyAdmission (standardHooks config) sha fingerprint plan
  | prefill chainId size => do
      let record ← onIndex (lookup chainId)
      ChainRuntime.call (inMemory (ChainMemory.allocate config record.seqId size))
  | lastChunk chainId => clearReservation chainId
  | acquire seqId tokens prefillReserve => do
      let _ ← ChainRuntime.call (inMemory (ChainMemory.acquire seqId tokens prefillReserve))
  | decode chainId => do
      let record ← onIndex (lookup chainId)
      ChainRuntime.call (inMemory (ChainMemory.decodeToken config record.seqId))
  | finish chainId seqId processedTokenDigest processedTokenCount => do
      let _ ← chainFinish (standardHooks config) sha chainId seqId processedTokenDigest
        processedTokenCount
  | reclaimIdle chainId expectedSeqId demote =>
      chainReclaimIdle (standardHooks config) chainId expectedSeqId demote
  | invalidate chainId expectedSeqId =>
      chainInvalidate (standardHooks config) chainId expectedSeqId

variable {config} {sha} {runtime : ChainRuntime Fingerprint Digest ChainMemory}

section

variable (h : Solvent config runtime)

include h

/-- An admission: between the plan and its application only snapshots move. -/
theorem admission_solvent {chainId : String} {seqId : ℕ} (tokenIds : List ℤ)
    (fingerprint : Fingerprint) (hfresh : FreshUnlessKnown runtime chainId seqId) :
    wpe ((admission chainId seqId tokenIds fingerprint).call config sha) (fun _ => Solvent config)
      (Solvent config) runtime := by
  unfold call
  refine wpe_then_imp (chainAdmissionPlan_planned h sha fingerprint chainId seqId tokenIds)
    (fun plan next hnext => ?_) fun next hnext => hnext.solvent h
  obtain ⟨hsteady, hplanned, hchain, hseq⟩ := hnext
  refine wpe_then (chainApplyAdmission_solvent (hsteady.solvent h) sha fingerprint hplanned ?_) fun _ _ hlast => hlast
  rw [hchain, hseq]
  intro hnone
  rw [hsteady.index_eq] at hnone ⊢
  obtain ⟨howner, hunused⟩ := hfresh hnone
  exact ⟨howner, hunused.calm (hsteady.memory.calm seqId)⟩

/-- A chunk within the promise. -/
theorem call_prefill_solvent {chainId : String} (hallowed : (prefill chainId size).Allowed config runtime) :
    wpe ((prefill chainId size).call config sha) (fun _ => Solvent config) (Solvent config)
      runtime := by
  obtain ⟨record, hrecord, hactive, hpos, hpromised⟩ := hallowed
  have hsize := hpromised 0 config.numKvLayers_pos
  rw [owedSlots_eq h.accounts hrecord hactive config.numKvLayers_pos] at hsize
  unfold call
  rw [wpe_bind, wpe_onIndex]
  refine wpe_lookup (fun found hfound => ?_) h
  obtain rfl := Option.some.inj (hrecord.symm.trans hfound)
  rw [wpe_inMemory]
  refine wpe_imp (ChainMemory.allocate_wpe record.seqId size) (fun _ memory hgrown => ?_) fun memory hsame => ?_
  · exact prefill_solvent h hrecord hactive hpos hsize hgrown
  · rw [hsame]
    exact h

/-- A token within its window. -/
theorem call_decode_solvent {chainId : String} (hallowed : (decode chainId).Allowed config runtime) :
    wpe ((decode chainId).call config sha) (fun _ => Solvent config) (Solvent config)
      runtime := by
  obtain ⟨record, left, hrecord, hactive, hrow, hwindow⟩ := hallowed
  unfold call
  rw [wpe_bind, wpe_onIndex]
  refine wpe_lookup (fun found hfound => ?_) h
  obtain rfl := Option.some.inj (hrecord.symm.trans hfound)
  exact decodeToken_solvent h hrecord hactive hrow hwindow

/-- Every call keeps the promises covered, whether it returns or raises. -/
theorem call_solvent (op : CapacityOp Fingerprint Digest) (hallowed : op.Allowed config runtime) :
    wpe (op.call config sha) (fun _ => Solvent config) (Solvent config) runtime := by
  cases op with
  | admission chainId seqId tokenIds fingerprint => exact admission_solvent h tokenIds fingerprint hallowed
  | prefill chainId size => exact call_prefill_solvent h hallowed
  | lastChunk chainId => exact clearReservation_solvent h chainId
  | acquire seqId tokens prefillReserve =>
      have hreserve := hallowed 0 config.numKvLayers_pos
      rw [outstandingSlots_eq h.accounts config.numKvLayers_pos] at hreserve
      unfold call
      exact wpe_then (acquire_solvent h seqId tokens hreserve) fun _ _ hnext => hnext
  | decode chainId => exact call_decode_solvent h hallowed
  | finish chainId seqId processedTokenDigest processedTokenCount =>
      unfold call
      exact wpe_then (chainFinish_solvent h sha chainId seqId processedTokenDigest
        processedTokenCount) fun _ _ hnext => hnext
  | reclaimIdle chainId expectedSeqId demote =>
      exact chainReclaimIdle_solvent h chainId expectedSeqId demote
  | invalidate chainId expectedSeqId => exact chainInvalidate_solvent h chainId expectedSeqId

end

variable (config) (sha)

/-- The states of a runtime that starts with an empty index and no rows. -/
inductive Reachable : ChainRuntime Fingerprint Digest ChainMemory → Prop
  | start {index : ChainCacheIndex Fingerprint Digest} {maxTombstones : ℤ}
      {maxTokenHistoryTokens : Option ℤ}
      (hnew : ChainCacheIndex.new maxTombstones maxTokenHistoryTokens = .ok index)
      (numFreeSlots numFreeRows : ℕ) (device : List Bool) :
      Reachable ⟨index, { numFreeSlots, numFreeRows, device }⟩
  | call {runtime : ChainRuntime Fingerprint Digest ChainMemory} (hreachable : Reachable runtime)
      (op : CapacityOp Fingerprint Digest) (hallowed : op.Allowed config runtime) :
      Reachable ((op.call config sha).after runtime)

variable {config} {sha}

theorem Reachable.solvent (h : Reachable config sha runtime) : Solvent config runtime := by
  induction h with
  | start hnew numFreeSlots numFreeRows device =>
      have hrecords := ChainOp.records_new hnew
      refine ⟨⟨ChainOp.inv_new hnew, fun hrecord => ?_⟩, fun pool => ?_⟩
      · rw [hrecords] at hrecord
        exact nomatch hrecord
      · unfold Pool.headroom Pool.totalOwed
        rw [hrecords]
        cases pool
        · exact Int.natCast_nonneg numFreeSlots
        · exact Int.natCast_nonneg numFreeRows
  | call hreachable op hallowed ih => exact after_of_wpe (call_solvent ih op hallowed)

/-- **Admissions never overcommit.** Whatever is admitted, prefilled, decoded,
finished, demoted, restored, reclaimed and invalidated, in any order and
whichever calls raise, what the chains in a turn are owed is free beside the
decode windows. -/
theorem chain_admission_never_overcommits (h : Reachable config sha runtime) :
    NeverOvercommits config runtime :=
  neverOvercommits_of_solvent h.solvent

/-- Two layers, rows of eight slots, snapshots on the host. -/
def smallMemory : MemoryConfig where
  numKvLayers := 2
  numKvLayers_pos := by decide
  rowCapacity := 8
  offload := true
  tokenBytes := 1
  capacityBytes := 64

/-- A call on the small memory. -/
def smallStep (op : CapacityOp Unit (Option (List UInt8)))
    (runtime : ChainRuntime Unit (Option (List UInt8)) ChainMemory) :
    ChainRuntime Unit (Option (List UInt8)) ChainMemory :=
  (op.call smallMemory ChainOp.transparentDigest).after runtime

/-- Five slots and a row, in which a first chain rests after its turn. -/
def afterFirstChain : ChainRuntime Unit (Option (List UInt8)) ChainMemory :=
  smallStep (.finish "chain_a" 0 (some []) 2) <| smallStep (.lastChunk "chain_a") <|
    smallStep (.prefill "chain_a" 3) <| smallStep (.admission "chain_a" 0 [1, 2, 3] ())
      ⟨{ maxTombstones := 4, maxTokenHistoryTokens := some 16 },
        { numFreeSlots := 5, numFreeRows := 1, device := [] }⟩

theorem reachable_afterFirstChain :
    Reachable smallMemory ChainOp.transparentDigest afterFirstChain := by
  have hnew : ChainCacheIndex.new 4 (some 16) =
      .ok ({ maxTombstones := 4, maxTokenHistoryTokens := some 16 } :
        ChainCacheIndex Unit (Option (List UInt8))) := rfl
  have hstart : Reachable smallMemory ChainOp.transparentDigest _ := .start hnew 5 1 []
  have hadmitted := hstart.call (.admission "chain_a" 0 [1, 2, 3] ()) fun _ =>
    ⟨by decide, by decide, by decide⟩
  have hprefilled := hadmitted.call (.prefill "chain_a" 3) (allowed_prefill (by decide +kernel))
  have hcleared := hprefilled.call (.lastChunk "chain_a") trivial
  exact hcleared.call (.finish "chain_a" 0 (some []) 2) trivial

/-- The admission of a second chain demotes the first one; what it still needs
is free. -/
theorem never_overcommits_second_chain :
    let second := smallStep (.admission "chain_b" 1 [4, 5, 6] ()) afterFirstChain
    let later := smallStep (.prefill "chain_b" 2) second
    later.env.rowSeqLens.keys = [1] ∧ later.outstandingSlots 1 = 1 ∧
      later.env.numFreeSlots = 3 ∧ NeverOvercommits smallMemory later := by
  intro second later
  have hsecond : Reachable smallMemory ChainOp.transparentDigest second :=
    reachable_afterFirstChain.call (.admission "chain_b" 1 [4, 5, 6] ()) fun _ =>
      ⟨by decide +kernel, by decide +kernel, by decide +kernel⟩
  have hlater : Reachable smallMemory ChainOp.transparentDigest later :=
    hsecond.call (.prefill "chain_b" 2) (allowed_prefill (by decide +kernel))
  exact ⟨by decide +kernel, by decide +kernel, by decide +kernel,
    chain_admission_never_overcommits hlater⟩

end CapacityOp
