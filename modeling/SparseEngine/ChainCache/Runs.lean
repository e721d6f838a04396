import SparseEngine.ChainCache.Methods

/-!
# Runs of the chain index

`ChainOp` is a call on the index, and a run is a list of them from the empty
index.  A call that raises is a step like any other.

Every call first retires some chains and then does at most one more thing: it
revises records in place, or enters one new chain (`Outcome`); `reset` alone
starts over.  What holds in every run follows from that.
-/

open Routine ChainCacheIndex

/-- A call on `ChainCacheIndex`, by its own methods or by the coordinator's.
`assignResidency` is what the coordinator writes to a record when it demotes or
restores a chain and what the runtime writes when the last prefill chunk is
done. -/
inductive ChainOp (Fingerprint Digest : Type) where
  | planAdmission (chainId : String) (seqId : ℕ) (tokenIds : List ℤ) (fingerprint : Fingerprint)
      (demand : AdmissionDemand)
  | planAdmissionDigest (chainId : String) (seqId : ℕ) (inputTokenCount : ℤ)
      (inputPrefixDigest : Digest) (fingerprint : Fingerprint) (demand : AdmissionDemand)
  | applyAdmission (plan : ChainAdmissionPlan) (fingerprint : Fingerprint)
  | finish (chainId : String) (tokenIds : List ℤ) (processedTokenCount : ℤ)
      (physicalSlotsByLayer : List ℤ) (residentRows : ℤ)
  | finishDigest (chainId : String) (processedTokenDigest : Digest) (processedTokenCount : ℤ)
      (physicalSlotsByLayer : List ℤ) (residentRows : ℤ)
  | prepareProcessedTokens (chainId : String) (seqId : ℕ) (tokenIds : List ℤ)
      (processedTokenCount : ℤ)
  | rememberPreparedTokens (prepared : PreparedChainTokens Digest)
  | rememberProcessedTokens (chainId : String) (seqId : ℕ) (tokenIds : List ℤ)
      (processedTokenCount : ℤ)
  | assignResidency (chainId : String) (residentRows : ℤ) (reservedSlotsByLayer : List ℤ)
      (reservedRows : ℤ)
  | invalidate (chainId : String)
  | evict (chainId : String)
  | routingSnapshot
  | reset

namespace ChainOp

variable {Fingerprint Digest : Type} [DecidableEq Fingerprint] [DecidableEq Digest]

/-- The index after the call. -/
def run (sha : Sha256 Digest) (index : ChainCacheIndex Fingerprint Digest) :
    ChainOp Fingerprint Digest → ChainCacheIndex Fingerprint Digest
  | .planAdmission chainId seqId tokenIds fingerprint demand =>
      (ofExcept (index.planAdmission sha chainId seqId tokenIds fingerprint demand)).after index
  | .planAdmissionDigest chainId seqId inputTokenCount inputPrefixDigest fingerprint demand =>
      (ofExcept (index.planAdmissionDigest sha chainId seqId inputTokenCount inputPrefixDigest
        fingerprint demand)).after index
  | .applyAdmission plan fingerprint =>
      (ChainCacheIndex.applyAdmission sha plan fingerprint).after index
  | .finish chainId tokenIds processedTokenCount physicalSlotsByLayer residentRows =>
      (ChainCacheIndex.finish sha chainId tokenIds processedTokenCount physicalSlotsByLayer
        residentRows).after index
  | .finishDigest chainId processedTokenDigest processedTokenCount physicalSlotsByLayer
      residentRows =>
      (ChainCacheIndex.finishDigest sha chainId processedTokenDigest processedTokenCount
        physicalSlotsByLayer residentRows).after index
  | .prepareProcessedTokens chainId seqId tokenIds processedTokenCount =>
      (ChainCacheCoordinator.prepareProcessedTokens sha chainId seqId tokenIds
        processedTokenCount).after index
  | .rememberPreparedTokens prepared =>
      (ChainCacheCoordinator.rememberPreparedTokens prepared).after index
  | .rememberProcessedTokens chainId seqId tokenIds processedTokenCount =>
      (ChainCacheCoordinator.rememberProcessedTokens sha chainId seqId tokenIds
        processedTokenCount).after index
  | .assignResidency chainId residentRows reservedSlotsByLayer reservedRows =>
      (ChainCacheIndex.assignResidency chainId residentRows reservedSlotsByLayer
        reservedRows).after index
  | .invalidate chainId => (ChainCacheIndex.invalidate chainId).after index
  | .evict chainId => (ChainCacheIndex.evict chainId).after index
  | .routingSnapshot => ChainCacheIndex.routingSnapshot.after index
  | .reset => ChainCacheIndex.reset.after index

/-- The index after a run. -/
def runAll (sha : Sha256 Digest) (index : ChainCacheIndex Fingerprint Digest)
    (ops : List (ChainOp Fingerprint Digest)) : ChainCacheIndex Fingerprint Digest :=
  ops.foldl (run sha) index

/-! ## One step -/

section

variable {sha : Sha256 Digest} {index next middle : ChainCacheIndex Fingerprint Digest}

omit [DecidableEq Fingerprint] [DecidableEq Digest]

/-- A chain was entered under an id that was not live. -/
structure Entered (index next : ChainCacheIndex Fingerprint Digest) (chainId : String) :
    Prop where
  inv : Inv next
  not_live : chainId ∉ index.records.keys
  get?_of_ne : ∀ {other}, other ≠ chainId → next.records.get? other = index.records.get? other
  tombstones_eq : next.tombstones = index.tombstones
  retired_eq : next.retired = index.retired

/-- Some chains were retired, then records were revised in place. -/
def Settles (index next : ChainCacheIndex Fingerprint Digest) : Prop :=
  ∃ chainIds middle, Retires index middle chainIds ∧ Quiet middle next

theorem Settles.of_quiet (h : Inv index) (hquiet : Quiet index next) : Settles index next :=
  ⟨[], index, Retires.nil h, hquiet⟩

theorem Settles.of_retires {chainIds : List String} (hretires : Retires index next chainIds) :
    Settles index next :=
  ⟨chainIds, next, hretires, Quiet.refl hretires.inv⟩

/-- Applying a plan settles, or enters the chain of a creating plan after its
victims were retired. -/
def Admits (index next : ChainCacheIndex Fingerprint Digest) (plan : ChainAdmissionPlan) : Prop :=
  Settles index next ∨ plan.status = .created ∧
    ∃ middle, Retires index middle plan.victimChainIds ∧ Entered middle next plan.chainId

/-- What `apply_admission` of any plan does. -/
theorem applyAdmission_admits (h : Inv index) (sha : Sha256 Digest) (plan : ChainAdmissionPlan)
    (fingerprint : Fingerprint) :
    Admits index ((ChainCacheIndex.applyAdmission sha plan fingerprint).after index) plan := by
  suffices hspec : wpe (ChainCacheIndex.applyAdmission sha plan fingerprint)
      (fun _ next => Admits index next plan) (fun next => Admits index next plan) index from
    after_of_wpe hspec
  unfold ChainCacheIndex.applyAdmission
  refine wpe_then_imp (evictAll_wpe h plan.victimChainIds) ?_ ?_
  · intro _ middle hretires
    have hraised : Admits index middle plan := .inl (.of_retires hretires)
    cases hstatus : plan.status with
    | created =>
        refine applyCreated_wpe sha plan fingerprint hraised fun hnew howner => ?_
        have hentered : Entered middle (middle.afterCreate plan
            (createdRecord sha plan fingerprint (middle.clock + 1))) plan.chainId :=
          { inv := hretires.inv.afterCreate sha fingerprint _ hnew howner
            not_live := hnew
            get?_of_ne := fun hne => Dict.get?_set_of_ne _ _ hne
            tombstones_eq := rfl
            retired_eq := rfl }
        exact .inr ⟨hstatus, middle, hretires, hentered⟩
    | resumed =>
        refine applyResumed_wpe plan hraised fun record hrecord _ => ?_
        exact .inl ⟨_, middle, hretires, Quiet.afterActivate hretires.inv hrecord plan _⟩
  · rintro next ⟨done, -, hretires⟩
    exact .inl (.of_retires hretires)

/-- A snapshot is kept for the next call. -/
theorem routingSnapshot_quiet (h : Inv index) :
    Quiet index (ChainCacheIndex.routingSnapshot.after index) := by
  unfold Routine.after
  cases hcache : index.routingSnapshotCache with
  | some snapshot =>
      have hsame : (ChainCacheIndex.routingSnapshot index).2 = index := by
        simp only [ChainCacheIndex.routingSnapshot, bind_apply, read_apply, hcache, pure_apply]
      rw [hsame]
      exact Quiet.refl h
  | none =>
      have hnext : (ChainCacheIndex.routingSnapshot index).2 =
          { index with routingSnapshotCache := some index.buildRoutingSnapshot } := by
        simp only [ChainCacheIndex.routingSnapshot, bind_apply, read_apply, hcache, write_apply, pure_apply]
      rw [hnext]
      have hinv : Inv { index with routingSnapshotCache := some index.buildRoutingSnapshot } :=
        { chainId_eq := h.chainId_eq
          mem_active := h.mem_active
          owner := h.owner
          tombstones_eq := h.tombstones_eq
          history_sum := h.history_sum
          history_le := h.history_le
          snapshot_eq := fun snapshot hmem => (Option.some.inj hmem).symm
          maxTombstones_pos := h.maxTombstones_pos
          limit_nonneg := h.limit_nonneg }
      exact
        { inv := hinv
          mem_keys := fun _ => Iff.rfl
          tombstones_eq := rfl
          retired_eq := rfl
          processed_le := (Quiet.refl h).processed_le }

end

variable {sha : Sha256 Digest} {index : ChainCacheIndex Fingerprint Digest}

/-- **One call** starts over, applies a plan, or settles. -/
theorem step (h : Inv index) (op : ChainOp Fingerprint Digest) :
    op = .reset ∨ (∃ plan fingerprint, op = .applyAdmission plan fingerprint) ∨ Settles index (op.run sha index) := by
  cases op with
  | planAdmission chainId seqId tokenIds fingerprint demand =>
      exact .inr (.inr <| .of_quiet h (Quiet.refl h))
  | planAdmissionDigest chainId seqId inputTokenCount inputPrefixDigest fingerprint demand =>
      exact .inr (.inr <| .of_quiet h (Quiet.refl h))
  | applyAdmission plan fingerprint => exact .inr (.inl ⟨plan, fingerprint, rfl⟩)
  | finish chainId tokenIds processedTokenCount physicalSlotsByLayer residentRows =>
      exact .inr (.inr <| .of_quiet h (after_of_wpe (finish_quiet h sha _ _ _ _)))
  | finishDigest chainId digest processedTokenCount physicalSlotsByLayer residentRows =>
      exact .inr (.inr <| .of_quiet h (after_of_wpe (finishDigest_quiet h sha _ _ _ _)))
  | prepareProcessedTokens chainId seqId tokenIds processedTokenCount =>
      refine .inr (.inr <| .of_quiet h (after_of_wpe ?_))
      exact ChainCacheCoordinator.prepareProcessedTokens_wpe sha chainId seqId tokenIds
        processedTokenCount (Quiet.refl h) fun _ _ _ _ _ _ _ _ _ _ => Quiet.refl h
  | rememberPreparedTokens prepared =>
      exact .inr (.inr <| .of_quiet h (after_of_wpe (ChainCacheCoordinator.rememberPreparedTokens_quiet h prepared)))
  | rememberProcessedTokens chainId seqId tokenIds processedTokenCount =>
      exact .inr (.inr <| .of_quiet h
        (after_of_wpe (ChainCacheCoordinator.rememberProcessedTokens_quiet h sha _ _ _ _)))
  | assignResidency chainId residentRows reservedSlotsByLayer reservedRows =>
      exact .inr (.inr <| .of_quiet h (assignResidency_quiet h _ _ _ _))
  | invalidate chainId =>
      refine .inr (.inr <| after_of_wpe (invalidate_wpe h (.of_quiet h (Quiet.refl h)) fun record hrecord hid => ?_))
      subst hid
      exact .of_retires (Retires.afterRetire h hrecord)
  | evict chainId =>
      refine .inr (.inr <| after_of_wpe (evict_wpe h (.of_quiet h (Quiet.refl h)) fun record hrecord _ hid => ?_))
      subst hid
      exact .of_retires (Retires.afterRetire h hrecord)
  | routingSnapshot => exact .inr (.inr <| .of_quiet h (routingSnapshot_quiet h))
  | reset => exact .inl rfl

/-! ## Whole runs -/

section

omit [DecidableEq Fingerprint] [DecidableEq Digest]

theorem Admits.inv {next : ChainCacheIndex Fingerprint Digest} {plan : ChainAdmissionPlan}
    (h : Admits index next plan) : Inv next := by
  rcases h with ⟨chainIds, middle, -, hquiet⟩ | ⟨-, middle, -, hentered⟩
  · exact hquiet.inv
  · exact hentered.inv

/-- An index without records. -/
theorem inv_empty {maxTombstones : ℤ} {maxTokenHistoryTokens : Option ℤ} (hpos : 0 < maxTombstones)
    (hlimit : ∀ limit ∈ maxTokenHistoryTokens, 0 ≤ limit) :
    Inv ({ maxTombstones := maxTombstones, maxTokenHistoryTokens := maxTokenHistoryTokens } :
      ChainCacheIndex Fingerprint Digest) where
  chainId_eq hrecord := by simp at hrecord
  mem_active := by simp
  owner := by simp
  tombstones_eq := by simp
  history_sum := rfl
  history_le := hlimit
  snapshot_eq _ hmem := by simp at hmem
  maxTombstones_pos := hpos
  limit_nonneg := hlimit

end

theorem run_inv (h : Inv index) (op : ChainOp Fingerprint Digest) : Inv (op.run sha index) := by
  rcases step h op with rfl | ⟨plan, fingerprint, rfl⟩ | ⟨chainIds, middle, -, hquiet⟩
  · exact inv_empty h.maxTombstones_pos h.limit_nonneg
  · exact (applyAdmission_admits h sha plan fingerprint).inv
  · exact hquiet.inv

theorem runAll_inv (h : Inv index) (ops : List (ChainOp Fingerprint Digest)) :
    Inv (runAll sha index ops) := by
  induction ops generalizing index with
  | nil => exact h
  | cons op rest ih => exact ih (run_inv h op)

section

omit [DecidableEq Fingerprint] [DecidableEq Digest]

variable {maxTombstones : ℤ} {maxTokenHistoryTokens : Option ℤ}

section

variable (hnew : ChainCacheIndex.new maxTombstones maxTokenHistoryTokens = .ok index)

include hnew

theorem inv_new : Inv index := by
  unfold ChainCacheIndex.new at hnew
  split at hnew
  · simp at hnew
  · next hpos =>
      cases maxTokenHistoryTokens with
      | none =>
          obtain rfl := Except.ok.inj hnew
          exact inv_empty (not_le.mp hpos) (by simp)
      | some limit =>
          dsimp only at hnew
          split at hnew
          · simp at hnew
          · next hlimit =>
              obtain rfl := Except.ok.inj hnew
              refine inv_empty (not_le.mp hpos) fun other hother => ?_
              obtain rfl := Option.some.inj hother
              omega

theorem records_new : index.records = .empty := by
  unfold ChainCacheIndex.new at hnew
  split at hnew
  · exact nomatch hnew
  · split at hnew
    · rw [← Except.ok.inj hnew]
    · split at hnew
      · exact nomatch hnew
      · rw [← Except.ok.inj hnew]

end

end

/-! ### Live chains and tombstones -/

/-- A chain that becomes live does not come from the tombstones: a creating plan
names neither a tombstone nor one of its own victims. -/
def FreshPlan (index : ChainCacheIndex Fingerprint Digest) (plan : ChainAdmissionPlan) : Prop :=
  plan.status = .created → plan.chainId ∉ index.tombstones.keys ∧
    plan.chainId ∉ plan.victimChainIds

/-- Every plan applied in the run is fresh when it is applied. -/
def FreshPlans (sha : Sha256 Digest) :
    ChainCacheIndex Fingerprint Digest → List (ChainOp Fingerprint Digest) → Prop
  | _, [] => True
  | index, op :: rest =>
      (∀ plan fingerprint, op = .applyAdmission plan fingerprint → FreshPlan index plan) ∧
        FreshPlans sha (op.run sha index) rest

/-- No chain id is both live and a tombstone. -/
def Separate (index : ChainCacheIndex Fingerprint Digest) : Prop :=
  ∀ chainId ∈ index.records.keys, chainId ∉ index.tombstones.keys

section

omit [DecidableEq Fingerprint] [DecidableEq Digest]

section

variable (h : Separate index)

include h

theorem Separate.retires {next : ChainCacheIndex Fingerprint Digest} {chainIds : List String}
    (hretires : Retires index next chainIds) : Separate next := by
  intro chainId hlive htombstone
  rw [Dict.mem_keys_iff, hretires.get?_eq] at hlive
  split at hlive
  · simp at hlive
  · next hnot =>
      rcases hretires.mem_tombstones chainId htombstone with hold | hretired
      · exact h chainId (Dict.mem_keys_iff.mpr hlive) hold
      · exact hnot hretired

theorem Separate.quiet {next : ChainCacheIndex Fingerprint Digest} (hquiet : Quiet index next) :
    Separate next := by
  intro chainId hlive
  rw [hquiet.tombstones_eq]
  exact h chainId ((hquiet.mem_keys chainId).mp hlive)

theorem Separate.entered {next : ChainCacheIndex Fingerprint Digest} {chainId : String}
    (hentered : Entered index next chainId) (hfresh : chainId ∉ index.tombstones.keys) :
    Separate next := by
  intro other hlive
  rw [hentered.tombstones_eq]
  by_cases heq : other = chainId
  · rwa [heq]
  · rw [Dict.mem_keys_iff, hentered.get?_of_ne heq, ← Dict.mem_keys_iff] at hlive
    exact h other hlive

theorem Separate.settles {next : ChainCacheIndex Fingerprint Digest} (hsettles : Settles index next) :
    Separate next := by
  obtain ⟨chainIds, middle, hretires, hquiet⟩ := hsettles
  exact (h.retires hretires).quiet hquiet

/-- Applying a fresh plan keeps live chains and tombstones apart. -/
theorem Separate.admits {next : ChainCacheIndex Fingerprint Digest} {plan : ChainAdmissionPlan}
    (hadmits : Admits index next plan) (hfresh : FreshPlan index plan) : Separate next := by
  rcases hadmits with hsettles | ⟨hcreated, middle, hretires, hentered⟩
  · exact h.settles hsettles
  · refine (h.retires hretires).entered hentered fun htombstone => ?_
    obtain ⟨hnotTombstone, hnotVictim⟩ := hfresh hcreated
    rcases hretires.mem_tombstones _ htombstone with hold | hvictim
    · exact hnotTombstone hold
    · exact hnotVictim hvictim

end

end

theorem run_separate (hinv : Inv index) (h : Separate index) {op : ChainOp Fingerprint Digest}
    (hfresh : ∀ plan fingerprint, op = .applyAdmission plan fingerprint → FreshPlan index plan) :
    Separate (op.run sha index) := by
  rcases step hinv op with rfl | ⟨plan, fingerprint, rfl⟩ | hsettles
  · intro chainId hlive
    simp [run, ChainCacheIndex.reset, Routine.after, write_apply] at hlive
  · exact h.admits (applyAdmission_admits hinv sha plan fingerprint) (hfresh plan fingerprint rfl)
  · exact h.settles hsettles

theorem runAll_separate (hinv : Inv index) (h : Separate index)
    {ops : List (ChainOp Fingerprint Digest)} (hfresh : FreshPlans sha index ops) :
    Separate (runAll sha index ops) := by
  induction ops generalizing index with
  | nil => exact h
  | cons op rest ih =>
      exact ih (run_inv hinv op) (run_separate hinv h hfresh.1) hfresh.2

omit [DecidableEq Fingerprint] [DecidableEq Digest] in
theorem takeVictims_subset (candidates : List (ChainRecord Fingerprint Digest)) (rowDeficit : ℤ)
    (slotDeficits : List ℤ) :
    ∀ chainId ∈ (takeVictims candidates rowDeficit slotDeficits).1,
      ∃ victim ∈ candidates, victim.chainId = chainId := by
  induction candidates generalizing rowDeficit slotDeficits with
  | nil => simp [takeVictims]
  | cons victim rest ih =>
      intro chainId hmem
      unfold takeVictims at hmem
      split at hmem
      · rcases List.mem_cons.mp hmem with rfl | htail
        · exact ⟨victim, List.mem_cons_self, rfl⟩
        · obtain ⟨other, hother, heq⟩ := ih _ _ chainId htail
          exact ⟨other, List.mem_cons_of_mem _ hother, heq⟩
      · simp at hmem

variable {chainId : String} {seqId : ℕ} {input : AdmissionInput Digest} {fingerprint : Fingerprint}
  {reusedTokens : ℤ}

/-- A chain with a record is resumed or refused. -/
theorem not_created_of_record {record : ChainRecord Fingerprint Digest}
    (hrecord : index.records.get? chainId = some record) :
    index.classifyAdmission sha chainId seqId input fingerprint ≠ .ok (.created, reusedTokens) := by
  unfold classifyAdmission
  rw [hrecord]
  dsimp only
  unfold classifyResume
  split_ifs
  · exact fun heq => nomatch heq
  · exact fun heq => nomatch heq
  · exact fun heq => nomatch heq
  · rcases inputDigest sha record chainId input with error | digest
    · exact fun heq => nomatch heq
    · show (if digest ≠ record.processedTokenDigest then _ else _) ≠ _
      split_ifs
      · exact fun heq => nomatch heq
      · exact fun heq => nomatch heq

/-- A request for a tombstone is refused. -/
theorem not_tombstone_of_created
    (hclass : index.classifyAdmission sha chainId seqId input fingerprint =
      .ok (.created, reusedTokens)) : chainId ∉ index.tombstones.keys := by
  intro htombstone
  cases hrecord : index.records.get? chainId with
  | some record => exact not_created_of_record hrecord hclass
  | none =>
      unfold classifyAdmission lookupRecord at hclass
      rw [hrecord] at hclass
      simp only [htombstone, if_true] at hclass
      exact nomatch hclass

omit [DecidableEq Fingerprint] [DecidableEq Digest] in
/-- A request does not evict its own chain. -/
theorem not_mem_chooseVictims {requiredSlotsByLayer : List ℤ} {rowDeficit : ℤ} {victims : List String}
    (hvictims : index.chooseVictims chainId requiredSlotsByLayer rowDeficit = .ok victims) :
    chainId ∉ victims := by
  intro hvictim
  unfold chooseVictims at hvictims
  dsimp only at hvictims
  split at hvictims
  · exact nomatch hvictims
  · obtain rfl := Except.ok.inj hvictims
    obtain ⟨victim, hmem, hid⟩ := takeVictims_subset _ _ _ chainId hvictim
    have hne := (List.mem_filter.mp hmem).2
    rw [decide_eq_true_eq] at hne
    exact hne hid

/-- A plan made on the current index is fresh. -/
theorem freshPlan_of_planAdmissionInput {demand : AdmissionDemand} {plan : ChainAdmissionPlan}
    (hplan : index.planAdmissionInput sha chainId seqId input fingerprint demand = .ok plan) :
    FreshPlan index plan := by
  unfold planAdmissionInput at hplan
  rcases hclass : index.classifyAdmission sha chainId seqId input fingerprint with error | result
  · rw [hclass] at hplan
    exact nomatch hplan
  · obtain ⟨status, reusedTokens⟩ := result
    rcases hvictims : index.chooseVictims chainId demand.requiredSlotsByLayer demand.rowDeficit with error | victims
    · rw [hclass, hvictims] at hplan
      exact nomatch hplan
    · rw [hclass, hvictims] at hplan
      obtain rfl := Except.ok.inj hplan
      intro hcreated
      obtain rfl : status = .created := hcreated
      exact ⟨not_tombstone_of_created hclass, not_mem_chooseVictims hvictims⟩

/-! ### The processed boundary -/

/-- A chain that stays live keeps its boundary or moves it forward. -/
def NeverBackwards (index next : ChainCacheIndex Fingerprint Digest) : Prop :=
  ∀ chainId record later, index.records.get? chainId = some record →
    next.records.get? chainId = some later →
    chainId ∉ next.retired.drop index.retired.length →
    record.processedTokenCount ≤ later.processedTokenCount

omit [DecidableEq Fingerprint] [DecidableEq Digest] in
/-- A retired chain shows in the history. -/
theorem Retires.drop_retired {next : ChainCacheIndex Fingerprint Digest} {chainIds : List String}
    (h : Retires index next chainIds) : next.retired.drop index.retired.length = chainIds := by
  rw [h.retired_eq, List.drop_left]

theorem run_neverBackwards (h : Inv index) (op : ChainOp Fingerprint Digest) :
    NeverBackwards index (op.run sha index) := by
  intro chainId record later hrecord hlater hkept
  rcases step h op with rfl | ⟨plan, fingerprint, rfl⟩ | hsettles
  · simp [run, ChainCacheIndex.reset, Routine.after, write_apply] at hlater
  · rcases applyAdmission_admits h sha plan fingerprint with
      hsettles | ⟨-, middle, hretires, hentered⟩
    · exact settled hsettles hrecord hlater hkept
    · change later.processedTokenCount ≥ _
      change chainId ∉ ((ChainCacheIndex.applyAdmission sha plan fingerprint).after index).retired.drop _ at hkept
      change ((ChainCacheIndex.applyAdmission sha plan fingerprint).after index).records.get? _ = _ at hlater
      rw [hentered.retired_eq, Retires.drop_retired hretires] at hkept
      have hmiddle : middle.records.get? chainId = some record := by
        rw [hretires.get?_eq, if_neg hkept, hrecord]
      -- the entered chain was not live before
      have hne : chainId ≠ plan.chainId := by
        rintro rfl
        exact hentered.not_live (Dict.mem_keys_of_get? hmiddle)
      rw [hentered.get?_of_ne hne, hmiddle] at hlater
      rw [Option.some.inj hlater]
  · exact settled hsettles hrecord hlater hkept
where
  settled {index next : ChainCacheIndex Fingerprint Digest} {chainId : String}
      {record later : ChainRecord Fingerprint Digest} (hsettles : Settles index next)
      (hrecord : index.records.get? chainId = some record)
      (hlater : next.records.get? chainId = some later)
      (hkept : chainId ∉ next.retired.drop index.retired.length) :
      record.processedTokenCount ≤ later.processedTokenCount := by
    obtain ⟨chainIds, middle, hretires, hquiet⟩ := hsettles
    rw [hquiet.retired_eq, Retires.drop_retired hretires] at hkept
    have hmiddle : middle.records.get? chainId = some record := by
      rw [hretires.get?_eq, if_neg hkept, hrecord]
    exact hquiet.processed_le hmiddle hlater

/-! ## The index is kept in step -/

/-- What the containers, the token total and the snapshot say about one
another. -/
structure WellKept (index : ChainCacheIndex Fingerprint Digest) : Prop where
  /-- `active_records` holds the ACTIVE records. -/
  active : ∀ chainId, chainId ∈ index.activeRecords.keys ↔
    ∃ record, index.records.get? chainId = some record ∧ record.state = .active
  /-- `seq_id_to_chain_id` maps each record's sequence to its chain and nothing else. -/
  owners : ∀ seqId chainId, index.seqIdToChainId.get? seqId = some chainId ↔
    ∃ record, index.records.get? chainId = some record ∧ record.seqId = seqId
  /-- No two live chains have the same resident sequence. -/
  oneChainPerSequence : ∀ first second record other, index.records.get? first = some record →
    index.records.get? second = some other → record.seqId = other.seqId → first = second
  tombstones_le : (index.tombstones.size : ℤ) ≤ index.maxTombstones
  /-- The tombstones kept are the most recently retired chains. -/
  tombstones_recent : index.tombstones.keys =
    index.retired.dedup.rtake index.maxTombstones.toNat
  history_sum : index.tokenHistoryTokens =
    (index.records.values.map fun record => (record.tokenIds.length : ℤ)).sum
  history_le : ∀ limit ∈ index.maxTokenHistoryTokens, index.tokenHistoryTokens ≤ limit
  /-- A snapshot answers as the index. -/
  snapshot : ∃ snapshot, (ChainCacheIndex.routingSnapshot index).1 = .ok snapshot ∧
    ∀ chainId, snapshot.matchChain chainId = index.routingMatch chainId

omit [DecidableEq Fingerprint] [DecidableEq Digest] in
theorem wellKept_of_inv (h : Inv index) : WellKept index where
  active chainId := h.mem_active
  owners seqId chainId := h.owner
  oneChainPerSequence first second record other hrecord hother hseq := by
    have hfirst := h.owner.mpr ⟨record, hrecord, rfl⟩
    have hsecond := h.owner.mpr ⟨other, hother, hseq.symm⟩
    rw [hfirst] at hsecond
    exact Option.some.inj hsecond
  tombstones_le := by
    have hpos := h.maxTombstones_pos
    rw [← Dict.length_keys, h.tombstones_eq, List.rtake, List.length_drop]
    omega
  tombstones_recent := h.tombstones_eq
  history_sum := h.history_sum
  history_le := h.history_le
  snapshot := by
    refine ⟨index.buildRoutingSnapshot, ?_, matchChain_buildRoutingSnapshot h⟩
    cases hcache : index.routingSnapshotCache with
    | some snapshot =>
        simp only [ChainCacheIndex.routingSnapshot, bind_apply, read_apply, hcache, pure_apply]
        rw [h.snapshot_eq snapshot hcache]
    | none =>
        simp only [ChainCacheIndex.routingSnapshot, bind_apply, read_apply, hcache, write_apply, pure_apply]

/-- **The chain index in every run.** The containers stay in step whatever is
called and whatever raises, and no chain's boundary moves backwards while it is
live.  Live chains and tombstones stay apart as long as the applied plans are
fresh, which plans made on the current index are. -/
theorem chain_index_well_kept (sha : Sha256 Digest) {maxTombstones : ℤ}
    {maxTokenHistoryTokens : Option ℤ} {start : ChainCacheIndex Fingerprint Digest}
    (hstart : ChainCacheIndex.new maxTombstones maxTokenHistoryTokens = .ok start)
    (ops : List (ChainOp Fingerprint Digest)) :
    WellKept (runAll sha start ops) ∧
      (∀ op, NeverBackwards (runAll sha start ops) (run sha (runAll sha start ops) op)) ∧
      (FreshPlans sha start ops → Separate (runAll sha start ops)) ∧
      ∀ chainId seqId input fingerprint demand plan,
        (runAll sha start ops).planAdmissionInput sha chainId seqId input fingerprint demand =
          .ok plan → FreshPlan (runAll sha start ops) plan := by
  have hinv : Inv (runAll sha start ops) := runAll_inv (inv_new hstart) ops
  refine ⟨wellKept_of_inv hinv, run_neverBackwards hinv, fun hfresh => ?_, ?_⟩
  · refine runAll_separate (inv_new hstart) ?_ hfresh
    intro chainId hlive
    simp [records_new hstart] at hlive
  · intro chainId seqId input fingerprint demand plan hplan
    exact freshPlan_of_planAdmissionInput hplan

/-- A digest that is the bytes themselves. -/
def transparentDigest : Sha256 (Option (List UInt8)) where
  digest := some
  emptyBytes := none
  length
    | some _ => 32
    | none => 0
  length_digest _ := rfl
  length_emptyBytes := rfl

/-- An admission that creates a chain and evicts nothing. -/
def creating (chainId : String) (seqId : ℕ) : ChainOp Unit (Option (List UInt8)) :=
  .applyAdmission { chainId := chainId, seqId := seqId, status := .created, reusedTokens := 0 } ()

/-- A creating plan that is applied again after its chain was invalidated leaves
the chain id live and a tombstone. -/
theorem live_and_tombstone_after_stale_plan :
    let start : ChainCacheIndex Unit (Option (List UInt8)) :=
      { maxTombstones := 1024, maxTokenHistoryTokens := none }
    let index := runAll transparentDigest start
      [creating "chain_a" 0, .invalidate "chain_a", creating "chain_a" 0]
    "chain_a" ∈ index.records.keys ∧ "chain_a" ∈ index.tombstones.keys := by
  decide

/-- Two chains, one of them evicted, with room for one tombstone. -/
theorem two_chains_well_kept :
    let start : ChainCacheIndex Unit (Option (List UInt8)) :=
      { maxTombstones := 1, maxTokenHistoryTokens := some 4 }
    let ops := [creating "chain_a" 0, creating "chain_b" 1, .invalidate "chain_a"]
    WellKept (runAll transparentDigest start ops) ∧
      Separate (runAll transparentDigest start ops) := by
  intro start ops
  have hstart : ChainCacheIndex.new 1 (some 4) = .ok start := rfl
  obtain ⟨hkept, -, hseparate, -⟩ := chain_index_well_kept transparentDigest hstart ops
  refine ⟨hkept, hseparate ⟨?_, ?_, ?_, trivial⟩⟩
  · rintro plan fingerprint hop
    obtain ⟨rfl, -⟩ := ChainOp.applyAdmission.inj hop
    exact fun _ => ⟨by decide, by decide⟩
  · rintro plan fingerprint hop
    obtain ⟨rfl, -⟩ := ChainOp.applyAdmission.inj hop
    exact fun _ => ⟨by decide, by decide⟩
  · rintro plan fingerprint hop
    exact nomatch hop

end ChainOp
