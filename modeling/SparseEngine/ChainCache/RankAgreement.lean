import SparseEngine.ChainCache.Runs
import SparseEngine.Lib.Lockstep

/-!
# Ranks agree on chain admission

Every rank of a tensor-parallel engine keeps its own chain index, and only
rank 0 keeps token histories.  The ranks run the same lifecycle calls in
lockstep, so their indices stay equal up to the histories, the clock included.
Rank 0 plans an admission from the tokens and the others from a digest; with
the digest that rank 0 sends they come to the same plan.
-/

open Routine

namespace ChainRecord

variable {Fingerprint Digest : Type}

/-- The record as a rank without histories has it. -/
def withoutHistory (record : ChainRecord Fingerprint Digest) : ChainRecord Fingerprint Digest :=
  { record with tokenIds := [] }

/-- Two records that differ in their histories at most. -/
def Same (record other : ChainRecord Fingerprint Digest) : Prop :=
  record.withoutHistory = other.withoutHistory

namespace Same

variable {record other : ChainRecord Fingerprint Digest} (h : Same record other)

include h

/-- What does not depend on the history is the same. -/
theorem eq_of {γ : Type} {field : ChainRecord Fingerprint Digest → γ}
    (hfield : ∀ record, field record.withoutHistory = field record) :
    field record = field other := by
  have hstripped : record.withoutHistory = other.withoutHistory := h
  rw [← hfield record, ← hfield other, hstripped]

theorem chainId : record.chainId = other.chainId := h.eq_of fun _ => rfl

theorem seqId : record.seqId = other.seqId := h.eq_of fun _ => rfl

theorem state : record.state = other.state := h.eq_of fun _ => rfl

theorem processedTokenCount : record.processedTokenCount = other.processedTokenCount :=
  h.eq_of fun _ => rfl

end Same

end ChainRecord

namespace ChainCacheIndex

variable {Fingerprint Digest : Type} {zero other : ChainCacheIndex Fingerprint Digest}
  {chainId : String}

/-- Two indices that differ in their histories and in their cached snapshots at
most. -/
structure Agree (zero other : ChainCacheIndex Fingerprint Digest) : Prop where
  records : zero.records.mapValues (fun _ => ChainRecord.withoutHistory) =
    other.records.mapValues (fun _ => ChainRecord.withoutHistory)
  activeRecords : zero.activeRecords = other.activeRecords
  seqIdToChainId : zero.seqIdToChainId = other.seqIdToChainId
  tombstones : zero.tombstones = other.tombstones
  clock : zero.clock = other.clock
  retired : zero.retired = other.retired
  maxTombstones : zero.maxTombstones = other.maxTombstones
  maxTokenHistoryTokens : zero.maxTokenHistoryTokens = other.maxTokenHistoryTokens

namespace Agree

theorem refl (index : ChainCacheIndex Fingerprint Digest) : Agree index index :=
  ⟨rfl, rfl, rfl, rfl, rfl, rfl, rfl, rfl⟩

section

variable (h : Agree zero other)

include h

theorem get? (chainId : String) :
    (zero.records.get? chainId).map ChainRecord.withoutHistory =
      (other.records.get? chainId).map ChainRecord.withoutHistory := by
  have hget := congrArg (fun records => records.get? chainId) h.records
  simpa using hget

/-- A chain is live on both ranks or on neither. -/
theorem cases_get? (chainId : String) :
    (zero.records.get? chainId = none ∧ other.records.get? chainId = none) ∨
      ∃ record record', zero.records.get? chainId = some record ∧
        other.records.get? chainId = some record' ∧ record.Same record' := by
  have hget := h.get? chainId
  cases hzero : zero.records.get? chainId with
  | none =>
      rw [hzero, Option.map_none, eq_comm, Option.map_eq_none_iff] at hget
      exact .inl ⟨rfl, hget⟩
  | some record =>
      rw [hzero, Option.map_some, eq_comm, Option.map_eq_some_iff] at hget
      obtain ⟨record', hother, hsame⟩ := hget
      exact .inr ⟨record, record', rfl, hother, hsame.symm⟩

theorem keys : zero.records.keys = other.records.keys := by
  have hkeys := congrArg Dict.keys h.records
  simpa using hkeys

/-- Writing the same record on both ranks. -/
theorem set (chainId : String) {record record' : ChainRecord Fingerprint Digest} (hsame : record.Same record') :
    (zero.records.set chainId record).mapValues (fun _ => ChainRecord.withoutHistory) =
      (other.records.set chainId record').mapValues (fun _ => ChainRecord.withoutHistory) := by
  rw [Dict.mapValues_set, Dict.mapValues_set, h.records, hsame]

end

end Agree

/-! ## The lifecycle calls in lockstep -/

/-- Two calls on the indices of two ranks. -/
abbrev InStep {α : Type} (values : α → α → Prop) (first second : Method Fingerprint Digest α) :
    Prop :=
  Lockstep Agree values first second

theorem lookup_inStep (chainId : String) :
    InStep ChainRecord.Same (lookup chainId : Method Fingerprint Digest _) (lookup chainId) := by
  intro zero other hagree
  refine ⟨?_, hagree⟩
  rw [lookup_apply, lookup_apply]
  unfold lookupRecord
  rcases hagree.cases_get? chainId with ⟨hzero, hother⟩ | ⟨record, record', hzero, hother, hsame⟩
  · rw [hzero, hother, hagree.tombstones]
    dsimp only
    split <;> rfl
  · rw [hzero, hother]
    exact hsame

theorem modifyRecord_inStep (chainId : String)
    {assign assign' : ChainRecord Fingerprint Digest → ChainRecord Fingerprint Digest}
    (hassign : ∀ record record', record.Same record' → (assign record).Same (assign' record')) :
    InStep (fun _ _ => True) (modifyRecord chainId assign) (modifyRecord chainId assign') := by
  apply Lockstep.write
  intro zero other hagree
  rcases hagree.cases_get? chainId with ⟨hzero, hother⟩ | ⟨record, record', hzero, hother, hsame⟩
  · rw [hzero, hother]
    exact hagree
  · rw [hzero, hother]
    exact { hagree with records := hagree.set chainId (hassign record record' hsame) }

theorem tick_inStep : InStep (fun now now' => now = now') (tick : Method Fingerprint Digest _)
    tick := by
  refine Lockstep.bind (Lockstep.write fun zero other hagree => ?_) fun _ _ _ => ?_
  · exact { hagree with clock := congrArg (· + 1) hagree.clock }
  · exact Lockstep.bind Lockstep.read fun _ _ hagree => Lockstep.pure hagree.clock

theorem setRecordState_inStep (chainId : String) (state : ChainState) :
    InStep (fun _ _ => True) (setRecordState chainId state : Method Fingerprint Digest _)
      (setRecordState chainId state) := by
  refine Lockstep.bind (Lockstep.write fun zero other hagree => { hagree with }) fun _ _ _ => ?_
  refine Lockstep.bind (modifyRecord_inStep chainId fun record record' hsame => ?_) fun _ _ _ => ?_
  · exact congrArg (fun record => { record with state := state }) hsame
  · apply Lockstep.write
    intro zero other hagree
    cases state with
    | active =>
        exact { hagree with activeRecords := congrArg (·.set chainId ()) hagree.activeRecords }
    | idle =>
        exact { hagree with activeRecords := congrArg (·.erase chainId) hagree.activeRecords }

theorem addTombstone_inStep (chainId : String) :
    InStep (fun _ _ => True) (addTombstone chainId : Method Fingerprint Digest _) (addTombstone chainId) := by
  refine Lockstep.bind (Lockstep.write fun zero other hagree => ?_) fun _ _ _ => ?_
  · exact { hagree with tombstones := congrArg (·.erase chainId) hagree.tombstones }
  refine Lockstep.bind tick_inStep fun now now' hnow => ?_
  subst hnow
  refine Lockstep.bind (Lockstep.write fun zero other hagree => ?_) fun _ _ _ => ?_
  · exact { hagree with tombstones := congrArg (·.set chainId now) hagree.tombstones }
  refine Lockstep.write fun zero other hagree => ?_
  exact
    { hagree with
      tombstones := by
        show dropOldest zero.maxTombstones zero.tombstones.size zero.tombstones =
          dropOldest other.maxTombstones other.tombstones.size other.tombstones
        rw [hagree.tombstones, hagree.maxTombstones]
      retired := congrArg (· ++ [chainId]) hagree.retired }

/-- Dropping a history shows on rank 0 only. -/
theorem dropTokenHistory_inStep {record record' : ChainRecord Fingerprint Digest} (hsame : record.Same record') :
    InStep (fun _ _ => True) (dropTokenHistory record) (dropTokenHistory record') := by
  refine Lockstep.bind (Lockstep.write fun zero other hagree => { hagree with }) fun _ _ _ => ?_
  rw [hsame.chainId]
  exact modifyRecord_inStep _ fun _ _ hrecords => hrecords

theorem retire_inStep {record record' : ChainRecord Fingerprint Digest}
    (hsame : record.Same record') (chainId : String) :
    InStep (fun _ _ => True) (retire record chainId) (retire record' chainId) := by
  refine Lockstep.bind (dropTokenHistory_inStep hsame) fun _ _ _ => ?_
  refine Lockstep.bind (Lockstep.write fun zero other hagree => ?_) fun _ _ _ => addTombstone_inStep chainId
  exact
    { hagree with
      records := by
        show (zero.records.erase chainId).mapValues _ = (other.records.erase chainId).mapValues _
        rw [Dict.mapValues_erase, Dict.mapValues_erase, hagree.records]
      activeRecords := congrArg (·.erase chainId) hagree.activeRecords
      seqIdToChainId := by
        show zero.seqIdToChainId.erase record.seqId = other.seqIdToChainId.erase record'.seqId
        rw [hagree.seqIdToChainId, hsame.seqId] }

theorem invalidate_inStep (chainId : String) :
    InStep ChainRecord.Same (invalidate chainId : Method Fingerprint Digest _) (invalidate chainId) := by
  refine Lockstep.bind (lookup_inStep chainId) fun record record' hsame => ?_
  exact Lockstep.bind (retire_inStep hsame chainId) fun _ _ _ => Lockstep.pure hsame

theorem evict_inStep (chainId : String) :
    InStep ChainRecord.Same (evict chainId : Method Fingerprint Digest _) (evict chainId) := by
  refine Lockstep.bind (lookup_inStep chainId) fun record record' hsame => ?_
  refine Lockstep.bind (Lockstep.raiseIf (by rw [hsame.state]) rfl) fun _ _ _ => ?_
  exact Lockstep.bind (retire_inStep hsame chainId) fun _ _ _ => Lockstep.pure hsame

theorem evictAll_inStep (chainIds : List String) :
    InStep (fun _ _ => True) (evictAll chainIds : Method Fingerprint Digest _) (evictAll chainIds) := by
  induction chainIds with
  | nil => exact Lockstep.pure trivial
  | cons chainId rest ih => exact Lockstep.bind (evict_inStep chainId) fun _ _ _ => ih

theorem applyCreated_inStep (sha : Sha256 Digest) (plan : ChainAdmissionPlan) (fingerprint : Fingerprint) :
    InStep ChainRecord.Same (applyCreated sha plan fingerprint) (applyCreated sha plan fingerprint) := by
  refine Lockstep.bind Lockstep.read fun zero other hagree => ?_
  refine Lockstep.bind (Lockstep.raiseIf (by rw [hagree.keys]) rfl) fun _ _ _ => ?_
  refine Lockstep.bind (Lockstep.raiseIf (by rw [hagree.seqIdToChainId])
    (by rw [hagree.seqIdToChainId])) fun _ _ _ => ?_
  refine Lockstep.bind tick_inStep fun now now' hnow => ?_
  subst hnow
  refine Lockstep.bind (Lockstep.write fun zero other hagree => ?_) fun _ _ _ => ?_
  · exact { hagree with records := hagree.set plan.chainId rfl }
  refine Lockstep.bind (setRecordState_inStep plan.chainId .active) fun _ _ _ => ?_
  refine Lockstep.bind (Lockstep.write fun zero other hagree => ?_) fun _ _ _ => ?_
  · exact
      { hagree with
        seqIdToChainId := congrArg (·.set plan.seqId plan.chainId) hagree.seqIdToChainId }
  refine Lockstep.bind (modifyRecord_inStep plan.chainId fun record record' hsame => ?_)
    fun _ _ _ => lookup_inStep plan.chainId
  exact congrArg (fun record => { record with
    reservedSlotsByLayer := plan.reservedSlotsByLayer
    reservedRows := plan.reservedRows }) hsame

theorem applyResumed_inStep (plan : ChainAdmissionPlan) :
    InStep ChainRecord.Same (applyResumed plan : Method Fingerprint Digest _) (applyResumed plan) := by
  refine Lockstep.bind (lookup_inStep plan.chainId) fun record record' hsame => ?_
  refine Lockstep.bind (Lockstep.raiseIf (by rw [hsame.state]) rfl) fun _ _ _ => ?_
  refine Lockstep.bind (setRecordState_inStep plan.chainId .active) fun _ _ _ => ?_
  refine Lockstep.bind tick_inStep fun now now' hnow => ?_
  subst hnow
  refine Lockstep.bind (modifyRecord_inStep plan.chainId fun record record' hsame => ?_)
    fun _ _ _ => lookup_inStep plan.chainId
  exact congrArg (fun record => { record with
    lastInputTokenCount := plan.inputTokenCount
    lastAccess := now
    reservedSlotsByLayer := plan.reservedSlotsByLayer
    reservedRows := plan.reservedRows }) hsame

/-- **`apply_admission` keeps the ranks in step.** -/
theorem applyAdmission_inStep (sha : Sha256 Digest) (plan : ChainAdmissionPlan) (fingerprint : Fingerprint) :
    InStep ChainRecord.Same (applyAdmission sha plan fingerprint) (applyAdmission sha plan fingerprint) := by
  refine Lockstep.bind (evictAll_inStep plan.victimChainIds) fun _ _ _ => ?_
  cases plan.status with
  | created => exact applyCreated_inStep sha plan fingerprint
  | resumed => exact applyResumed_inStep plan

theorem finishDigest_inStep (sha : Sha256 Digest) (chainId : String) (processedTokenDigest : Digest)
    (processedTokenCount : ℤ) (physicalSlotsByLayer : List ℤ) (residentRows : ℤ) :
    InStep ChainRecord.Same
      (finishDigest sha chainId processedTokenDigest processedTokenCount physicalSlotsByLayer
        residentRows : Method Fingerprint Digest _)
      (finishDigest sha chainId processedTokenDigest processedTokenCount physicalSlotsByLayer residentRows) := by
  refine Lockstep.bind (lookup_inStep chainId) fun record record' hsame => ?_
  refine Lockstep.bind (Lockstep.raiseIf (by rw [hsame.state]) rfl) fun _ _ _ => ?_
  refine Lockstep.bind (Lockstep.raiseIf (by rw [hsame.processedTokenCount])
    (by rw [hsame.processedTokenCount])) fun _ _ _ => ?_
  refine Lockstep.bind (Lockstep.raiseIf Iff.rfl rfl) fun _ _ _ => ?_
  refine Lockstep.bind (modifyRecord_inStep chainId fun record record' hsame => ?_) fun _ _ _ => ?_
  · exact congrArg (fun record => { record with
      processedTokenDigest := processedTokenDigest
      processedTokenCount := processedTokenCount
      physicalSlotsByLayer := physicalSlotsByLayer
      residentRows := residentRows
      reservedSlotsByLayer := []
      reservedRows := 0 }) hsame
  refine Lockstep.bind (setRecordState_inStep chainId .idle) fun _ _ _ => ?_
  refine Lockstep.bind tick_inStep fun now now' hnow => ?_
  subst hnow
  refine Lockstep.bind (modifyRecord_inStep chainId fun record record' hsame => ?_) fun _ _ _ => lookup_inStep chainId
  exact congrArg (fun record => { record with lastAccess := now }) hsame

/-! ## Planning -/

/-- The victims do not depend on the histories. -/
theorem takeVictims_withoutHistory (candidates : List (ChainRecord Fingerprint Digest))
    (rowDeficit : ℤ) (slotDeficits : List ℤ) :
    takeVictims (candidates.map ChainRecord.withoutHistory) rowDeficit slotDeficits =
      takeVictims candidates rowDeficit slotDeficits := by
  induction candidates generalizing rowDeficit slotDeficits with
  | nil => rfl
  | cons victim rest ih =>
      rw [List.map_cons, takeVictims, takeVictims, ih]
      rfl

theorem idleResidentLru_withoutHistory (index : ChainCacheIndex Fingerprint Digest) :
    index.idleResidentLru.map ChainRecord.withoutHistory =
      { index with
        records := index.records.mapValues fun _ => ChainRecord.withoutHistory }.idleResidentLru := by
  unfold idleResidentLru
  rw [List.map_insertionSort AccessedBefore AccessedBefore ChainRecord.withoutHistory _ fun _ _ _ _ => Iff.rfl]
  simp only [Dict.values, Dict.mapValues, List.map_map, List.filter_map, Function.comp_def]
  rfl

theorem Agree.chooseVictims (h : Agree zero other) (chainId : String)
    (requiredSlotsByLayer : List ℤ) (rowDeficit : ℤ) :
    zero.chooseVictims chainId requiredSlotsByLayer rowDeficit =
      other.chooseVictims chainId requiredSlotsByLayer rowDeficit := by
  have hlru : zero.idleResidentLru.map ChainRecord.withoutHistory =
      other.idleResidentLru.map ChainRecord.withoutHistory := by
    rw [idleResidentLru_withoutHistory, idleResidentLru_withoutHistory]
    unfold idleResidentLru
    rw [h.records]
  have hfilter : ∀ candidates : List (ChainRecord Fingerprint Digest),
      (candidates.filter fun candidate => candidate.chainId ≠ chainId).map ChainRecord.withoutHistory =
      (candidates.map ChainRecord.withoutHistory).filter fun candidate => candidate.chainId ≠ chainId := by
    intro candidates
    rw [List.filter_map]
    rfl
  have hcandidates : ∀ rows slots,
      (zero.victimCandidates chainId rows slots).map ChainRecord.withoutHistory =
        (other.victimCandidates chainId rows slots).map ChainRecord.withoutHistory := by
    intro rows slots
    unfold victimCandidates
    rw [hfilter, hfilter]
    split
    · rw [hlru]
    · rfl
  unfold ChainCacheIndex.chooseVictims
  dsimp only
  rw [← takeVictims_withoutHistory (zero.victimCandidates _ _ _),
    ← takeVictims_withoutHistory (other.victimCandidates _ _ _), hcandidates]

variable [DecidableEq Fingerprint] [DecidableEq Digest]

/-- Planning from a digest does not look at the histories. -/
theorem Agree.planAdmissionDigest (h : Agree zero other) (sha : Sha256 Digest) (chainId : String)
    (seqId : ℕ) (inputTokenCount : ℤ) (inputPrefixDigest : Digest) (fingerprint : Fingerprint)
    (demand : AdmissionDemand) :
    zero.planAdmissionDigest sha chainId seqId inputTokenCount inputPrefixDigest fingerprint demand =
      other.planAdmissionDigest sha chainId seqId inputTokenCount inputPrefixDigest fingerprint
        demand := by
  have hclass : zero.classifyAdmission sha chainId seqId (.digest inputTokenCount inputPrefixDigest)
      fingerprint = other.classifyAdmission sha chainId seqId
        (.digest inputTokenCount inputPrefixDigest) fingerprint := by
    unfold classifyAdmission
    rcases h.cases_get? chainId with ⟨hzero, hother⟩ | ⟨record, record', hzero, hother, hsame⟩
    · rw [hzero, hother]
      unfold lookupRecord
      rw [hzero, hother, h.tombstones]
    · have hstripped : ∀ record : ChainRecord Fingerprint Digest,
          classifyResume sha record.withoutHistory chainId seqId
            (.digest inputTokenCount inputPrefixDigest) fingerprint =
          classifyResume sha record chainId seqId (.digest inputTokenCount inputPrefixDigest)
            fingerprint := fun _ => rfl
      have hsame' : record.withoutHistory = record'.withoutHistory := hsame
      rw [hzero, hother]
      dsimp only
      rw [← hstripped record, ← hstripped record', hsame']
  unfold ChainCacheIndex.planAdmissionDigest planAdmissionInput
  rw [hclass, h.chooseVictims]

/-- `stable_token_digest((), count=0)`. -/
def emptyTokenDigest (sha : Sha256 Digest) : Digest := sha.digest (Packing.packSigned 8 [])

/-- The digest rank 0 sends with its plan. -/
def broadcastDigest (sha : Sha256 Digest) (index : ChainCacheIndex Fingerprint Digest)
    (chainId : String) (planned : Except PyError ChainAdmissionPlan) : Digest :=
  match planned, index.records.get? chainId with
  | .ok plan, some record =>
      if plan.status = .resumed then record.processedTokenDigest else emptyTokenDigest sha
  | _, _ => emptyTokenDigest sha

/-- The digest of a record is the digest of as many tokens as it has
processed. -/
def Digested (sha : Sha256 Digest) (record : ChainRecord Fingerprint Digest) : Prop :=
  ∃ tokenIds : List ℤ, (∀ token ∈ tokenIds, Packing.FitsSigned 8 token) ∧
    (tokenIds.length : ℤ) = record.processedTokenCount ∧
    record.processedTokenDigest = sha.digest (Packing.packSigned 8 tokenIds)

section

omit [DecidableEq Fingerprint] [DecidableEq Digest]

variable {tokenIds : List ℤ} {digest : Digest}

/-- A digest with a count is the digest of that many tokens. -/
theorem stableTokenDigest_eq_ok {sha : Sha256 Digest} {count : ℤ} :
    stableTokenDigest sha tokenIds (some count) = .ok digest ↔
      0 ≤ count ∧ count ≤ tokenIds.length ∧ (∀ token ∈ tokenIds.take count.toNat, Packing.FitsSigned 8 token) ∧
        digest = sha.digest (Packing.packSigned 8 (tokenIds.take count.toNat)) := by
  unfold stableTokenDigest
  dsimp only
  have hclamp : (max 0 count).toNat = count.toNat := by omega
  rw [hclamp]
  split
  · next hoverflow =>
      obtain ⟨token, hmem, hnot⟩ := hoverflow
      constructor
      · exact fun h => nomatch h
      · exact fun h => absurd (h.2.2.1 token hmem) hnot
  · next hfits =>
      have hfits' : ∀ token ∈ tokenIds.take count.toNat, Packing.FitsSigned 8 token := by
        intro token hmem
        by_contra hnot
        exact hfits ⟨token, hmem, hnot⟩
      split
      · next hlength =>
          constructor
          · exact fun h => nomatch h
          · rintro ⟨hnonneg, hle, -, -⟩
            rw [List.length_take] at hlength
            omega
      · next hlength =>
          rw [not_not, List.length_take] at hlength
          rw [Except.ok.injEq, eq_comm]
          constructor
          · exact fun h => ⟨by omega, by omega, hfits', h⟩
          · exact fun h => h.2.2.2

/-- What `inputDigest` returns for a token list. -/
theorem inputDigest_tokens_eq_ok {sha : Sha256 Digest} {record : ChainRecord Fingerprint Digest} :
    inputDigest sha record chainId (.tokens tokenIds) = .ok digest ↔
      stableTokenDigest sha tokenIds (some record.processedTokenCount) = .ok digest := by
  unfold inputDigest
  dsimp only
  split
  · next herror =>
      rw [herror]
      constructor <;> exact fun h => nomatch h
  · exact Iff.rfl

end

variable {fingerprint : Fingerprint} {result : AdmissionStatus × ℤ}
  {planned : Except PyError ChainAdmissionPlan} {tokenIds : List ℤ}

/-- A chain is resumed exactly if it is IDLE, its owner asks, and the input has
its digest. -/
theorem classifyResume_eq_ok {sha : Sha256 Digest} {record : ChainRecord Fingerprint Digest}
    {seqId : ℕ} {input : AdmissionInput Digest} :
    classifyResume sha record chainId seqId input fingerprint = .ok result ↔
      record.state = .idle ∧ record.fingerprint = fingerprint ∧ record.seqId = seqId ∧
        inputDigest sha record chainId input = .ok record.processedTokenDigest ∧
        result = (.resumed, record.processedTokenCount) := by
  unfold classifyResume
  by_cases hactive : record.state = .active
  · rw [if_pos hactive]
    constructor
    · exact fun h => nomatch h
    · exact fun h => absurd (hactive.symm.trans h.1) (by decide)
  rw [if_neg hactive]
  have hidle : record.state = .idle := by
    cases hcase : record.state with
    | active => exact absurd hcase hactive
    | idle => rfl
  by_cases hfingerprint : record.fingerprint = fingerprint
  · rw [if_neg (not_not.mpr hfingerprint)]
    by_cases hseq : record.seqId = seqId
    · rw [if_neg (not_not.mpr hseq)]
      rcases hdigest : inputDigest sha record chainId input with error | digest
      · constructor
        · exact fun h => nomatch h
        · exact fun h => nomatch h.2.2.2.1
      · show (if digest ≠ record.processedTokenDigest then _ else _) = _ ↔ _
        by_cases hsame : digest = record.processedTokenDigest
        · rw [if_neg (not_not.mpr hsame), Except.ok.injEq]
          constructor
          · exact fun h => ⟨hidle, hfingerprint, hseq, congrArg Except.ok hsame, h.symm⟩
          · exact fun h => h.2.2.2.2.symm
        · rw [if_pos hsame]
          constructor
          · exact fun h => nomatch h
          · exact fun h => absurd (Except.ok.inj h.2.2.2.1) hsame
    · rw [if_pos hseq]
      constructor
      · exact fun h => nomatch h
      · exact fun h => absurd h.2.2.1 hseq
  · rw [if_pos hfingerprint]
    constructor
    · exact fun h => nomatch h
    · exact fun h => absurd h.2.1 hfingerprint

/-- A plan is a classification with victims. -/
theorem planAdmissionInput_eq_ok {sha : Sha256 Digest} {index : ChainCacheIndex Fingerprint Digest}
    {seqId : ℕ} {input : AdmissionInput Digest} {fingerprint : Fingerprint}
    {demand : AdmissionDemand} {plan : ChainAdmissionPlan} :
    index.planAdmissionInput sha chainId seqId input fingerprint demand = .ok plan ↔
      ∃ status reusedTokens victims,
        index.classifyAdmission sha chainId seqId input fingerprint = .ok (status, reusedTokens) ∧
        index.chooseVictims chainId demand.requiredSlotsByLayer demand.rowDeficit = .ok victims ∧
        plan =
          { chainId := chainId
            seqId := seqId
            status := status
            reusedTokens := reusedTokens
            inputTokenCount := input.count
            victimChainIds := victims
            reservedSlotsByLayer := demand.reservedSlotsByLayer.map (max 0)
            reservedRows := max 0 demand.reservedRows } := by
  unfold planAdmissionInput
  rcases hclass : index.classifyAdmission sha chainId seqId input fingerprint with error | result
  · constructor
    · exact fun h => nomatch h
    · rintro ⟨_, _, _, h, -⟩
      exact nomatch h
  · obtain ⟨status, reusedTokens⟩ := result
    rcases hvictims : index.chooseVictims chainId demand.requiredSlotsByLayer demand.rowDeficit with error | victims
    · constructor
      · exact fun h => nomatch h
      · rintro ⟨_, _, _, -, h, -⟩
        exact nomatch h
    · constructor
      · exact fun h => ⟨status, reusedTokens, victims, rfl, rfl, (Except.ok.inj h).symm⟩
      · rintro ⟨_, _, _, hstatus, hchosen, rfl⟩
        obtain ⟨rfl, rfl⟩ := Prod.mk.inj (Except.ok.inj hstatus)
        obtain rfl := Except.ok.inj hchosen
        rfl

/-- Both ranks plan the same, or both refuse. -/
def SamePlan : Except PyError ChainAdmissionPlan → Except PyError ChainAdmissionPlan → Prop
  | .ok plan, .ok plan' => plan = plan'
  | .error _, .error _ => True
  | _, _ => False

theorem samePlan_of_iff {validated : Except PyError ChainAdmissionPlan}
    (hiff : ∀ plan, planned = .ok plan ↔ validated = .ok plan) : SamePlan planned validated := by
  rcases planned with error | plan
  · rcases validated with error' | plan'
    · exact trivial
    · exact nomatch (hiff plan').mpr rfl
  · have hvalidated := (hiff plan).mp rfl
    rw [hvalidated]
    exact rfl

/-- A request for a live chain: the digest that rank 0 sends leads to the same
answer as the tokens. -/
theorem classifyResume_broadcast {sha : Sha256 Digest} (hinjective : Function.Injective sha.digest)
    {record : ChainRecord Fingerprint Digest}
    (hdigested : record.state = .idle → Digested sha record) {seqId : ℕ} {digest : Digest}
    (hdigest : digest = record.processedTokenDigest ∧
        (∃ planned, classifyResume sha record chainId seqId (.tokens tokenIds) fingerprint =
          .ok planned) ∨ digest = emptyTokenDigest sha) :
    classifyResume sha record chainId seqId (.digest tokenIds.length digest) fingerprint = .ok result →
      classifyResume sha record chainId seqId (.tokens tokenIds) fingerprint = .ok result := by
  intro hplanned
  rw [classifyResume_eq_ok] at hplanned
  obtain ⟨hidle, hfingerprint, hseq, hinput, rfl⟩ := hplanned
  rcases hdigest with ⟨-, planned, htokens⟩ | hempty
  · rw [classifyResume_eq_ok] at htokens
    rw [classifyResume_eq_ok]
    exact ⟨hidle, hfingerprint, hseq, htokens.2.2.2.1, rfl⟩
  · -- only a chain without processed tokens has the digest of no tokens
    obtain ⟨processed, hfits, hlength, hrecord⟩ := hdigested hidle
    have hsame : digest = record.processedTokenDigest := by
      unfold inputDigest at hinput
      dsimp only at hinput
      split at hinput
      · exact nomatch hinput
      · exact Except.ok.inj hinput
    have hnil : processed = [] := by
      apply Packing.packSigned_inj (by decide : 0 < 8) hfits (by simp)
      apply hinjective
      calc sha.digest (Packing.packSigned 8 processed) = record.processedTokenDigest := hrecord.symm
        _ = digest := hsame.symm
        _ = sha.digest (Packing.packSigned 8 []) := hempty
    rw [hnil, List.length_nil] at hlength
    have hzero : record.processedTokenCount = 0 := hlength.symm
    rw [classifyResume_eq_ok, inputDigest_tokens_eq_ok, stableTokenDigest_eq_ok, hzero]
    refine ⟨hidle, hfingerprint, hseq, ⟨le_rfl, by omega, by simp, ?_⟩, rfl⟩
    rw [hrecord, hnil]
    rfl

/-- **Planning on one index**: the tokens and the digest that rank 0 sends for
them lead to the same plan. -/
theorem planAdmission_broadcast {sha : Sha256 Digest} (hinjective : Function.Injective sha.digest)
    {index : ChainCacheIndex Fingerprint Digest}
    (hdigested : ∀ record, index.records.get? chainId = some record → record.state = .idle →
      Digested sha record) {seqId : ℕ} {demand : AdmissionDemand}
    (hplanned : index.planAdmission sha chainId seqId tokenIds fingerprint demand = planned) :
    SamePlan planned (index.planAdmissionDigest sha chainId seqId tokenIds.length
      (index.broadcastDigest sha chainId planned) fingerprint demand) := by
  apply samePlan_of_iff
  intro plan
  have htokens := @planAdmissionInput_eq_ok _ _ chainId _ _ sha index seqId (.tokens tokenIds) fingerprint demand plan
  change index.planAdmission sha chainId seqId tokenIds fingerprint demand = .ok plan ↔ _ at htokens
  rw [hplanned] at htokens
  rw [htokens]
  unfold ChainCacheIndex.planAdmissionDigest
  rw [planAdmissionInput_eq_ok]
  cases hrecord : index.records.get? chainId with
  | none =>
      unfold classifyAdmission
      rw [hrecord]
      exact Iff.rfl
  | some record =>
      have hclassify : ∀ input, index.classifyAdmission sha chainId seqId input fingerprint =
          classifyResume sha record chainId seqId input fingerprint := by
        intro input
        unfold classifyAdmission
        rw [hrecord]
      simp only [hclassify] at htokens ⊢
      constructor
      · rintro ⟨status, reusedTokens, victims, hclass, hvictims, hplan⟩
        refine ⟨status, reusedTokens, victims, ?_, hvictims, hplan⟩
        have hok : planned = .ok plan :=
          htokens.mpr ⟨status, reusedTokens, victims, hclass, hvictims, hplan⟩
        rw [classifyResume_eq_ok] at hclass ⊢
        obtain ⟨hidle, hfingerprint, hseq, hinput, hresult⟩ := hclass
        -- rank 0 planned to resume, so it sends the record's digest
        have hbroadcast : index.broadcastDigest sha chainId planned =
            record.processedTokenDigest := by
          unfold broadcastDigest
          rw [hok, hrecord, hplan, (Prod.mk.inj hresult).1]
          exact if_pos rfl
        rw [inputDigest_tokens_eq_ok, stableTokenDigest_eq_ok] at hinput
        refine ⟨hidle, hfingerprint, hseq, ?_, hresult⟩
        unfold inputDigest
        dsimp only
        rw [if_neg (by omega), hbroadcast]
      · rintro ⟨status, reusedTokens, victims, hclass, hvictims, hplan⟩
        refine ⟨status, reusedTokens, victims, ?_, hvictims, hplan⟩
        refine classifyResume_broadcast hinjective (hdigested record hrecord) ?_ hclass
        unfold broadcastDigest
        rw [hrecord]
        cases planned with
        | error error => exact .inr rfl
        | ok planOf =>
            dsimp only
            split
            · -- the plan that was made shows that the tokens were accepted
              have hmade := planAdmissionInput_eq_ok.mp hplanned
              obtain ⟨_, _, _, hmadeClass, -⟩ := hmade
              rw [hclassify] at hmadeClass
              exact .inl ⟨rfl, _, hmadeClass⟩
            · exact .inr rfl

end ChainCacheIndex

/-! ## Runs of two ranks -/

/-- A call the ranks make on their chain indices.  A turn is finished with the
digest that rank 0 computed from the sequence's tokens.  Histories and snapshots
are kept on rank 0 only. -/
inductive RankOp (Fingerprint Digest : Type) where
  | applyAdmission (plan : ChainAdmissionPlan) (fingerprint : Fingerprint)
  | finishDigest (chainId : String) (tokenIds : List ℤ) (processedTokenCount : ℤ)
      (physicalSlotsByLayer : List ℤ) (residentRows : ℤ)
  | assignResidency (chainId : String) (residentRows : ℤ) (reservedSlotsByLayer : List ℤ)
      (reservedRows : ℤ)
  | invalidate (chainId : String)
  | evict (chainId : String)
  | rememberPreparedTokens (prepared : PreparedChainTokens Digest)
  | routingSnapshot

namespace RankOp

open ChainCacheIndex

variable {Fingerprint Digest : Type} [DecidableEq Digest]

/-- `finish_digest` with the digest of the processed tokens. -/
def finishTurn (sha : Sha256 Digest) (chainId : String) (tokenIds : List ℤ)
    (processedTokenCount : ℤ) (physicalSlotsByLayer : List ℤ) (residentRows : ℤ) :
    Method Fingerprint Digest (ChainRecord Fingerprint Digest) := do
  let digest ← ofExcept (stableTokenDigest sha tokenIds (some processedTokenCount))
  ChainCacheIndex.finishDigest sha chainId digest processedTokenCount physicalSlotsByLayer
    residentRows

/-- The index of a rank after the call. -/
def run (sha : Sha256 Digest) (rankZero : Bool) (index : ChainCacheIndex Fingerprint Digest) :
    RankOp Fingerprint Digest → ChainCacheIndex Fingerprint Digest
  | .applyAdmission plan fingerprint =>
      (ChainCacheIndex.applyAdmission sha plan fingerprint).after index
  | .finishDigest chainId tokenIds processedTokenCount physicalSlotsByLayer residentRows =>
      (finishTurn sha chainId tokenIds processedTokenCount physicalSlotsByLayer
        residentRows).after index
  | .assignResidency chainId residentRows reservedSlotsByLayer reservedRows =>
      (ChainCacheIndex.assignResidency chainId residentRows reservedSlotsByLayer
        reservedRows).after index
  | .invalidate chainId => (ChainCacheIndex.invalidate chainId).after index
  | .evict chainId => (ChainCacheIndex.evict chainId).after index
  | .rememberPreparedTokens prepared =>
      if rankZero then (ChainCacheCoordinator.rememberPreparedTokens prepared).after index
      else index
  | .routingSnapshot =>
      if rankZero then ChainCacheIndex.routingSnapshot.after index else index

/-- The index of a rank after a run. -/
def runAll (sha : Sha256 Digest) (rankZero : Bool) (index : ChainCacheIndex Fingerprint Digest)
    (ops : List (RankOp Fingerprint Digest)) : ChainCacheIndex Fingerprint Digest :=
  ops.foldl (run sha rankZero) index

variable {sha : Sha256 Digest} {zero other index next : ChainCacheIndex Fingerprint Digest}

/-! ### The indices stay equal up to the histories -/

omit [DecidableEq Digest] in
/-- Storing a history changes nothing that the other ranks have. -/
theorem Agree.afterStore {record : ChainRecord Fingerprint Digest} (h : Agree zero other)
    (hrecord : zero.records.get? record.chainId = some record) (logicalTokens : List UInt32) :
    Agree (zero.afterStore record logicalTokens) other := by
  have hsame : (zero.records.set record.chainId { record with tokenIds := logicalTokens }).mapValues
      (fun _ => ChainRecord.withoutHistory) =
      zero.records.mapValues (fun _ => ChainRecord.withoutHistory) := by
    rw [Dict.mapValues_set]
    apply Dict.set_of_get?
    rw [Dict.get?_mapValues, hrecord]
    rfl
  exact { h with records := hsame.trans h.records }

theorem rememberPreparedTokens_agree (hinv : Inv zero) (h : Agree zero other)
    (prepared : PreparedChainTokens Digest) :
    Agree ((ChainCacheCoordinator.rememberPreparedTokens prepared).after zero) other := by
  suffices hspec : wpe (ChainCacheCoordinator.rememberPreparedTokens prepared)
      (fun _ next => Agree next other) (fun next => Agree next other) zero from
    after_of_wpe hspec
  unfold ChainCacheCoordinator.rememberPreparedTokens
  rw [wpe_bind]
  refine wpe_lookup (fun record hrecord => ?_) h
  refine wpe_guarded h fun _ => ?_
  refine wpe_guarded h fun _ => ?_
  rw [wpe_bind]
  refine wpe_ofExcept (fun logicalTokens _ => ?_) h
  rw [wpe_bind]
  rw [← hinv.chainId_eq hrecord] at hrecord
  refine storeTokenHistory_wpe logicalTokens hrecord h fun _ => ?_
  have hstored := Agree.afterStore h hrecord logicalTokens
  exact wpe_lookup (fun _ _ => hstored) hstored

section

omit [DecidableEq Digest]

theorem routingSnapshot_agree (h : Agree zero other) :
    Agree (ChainCacheIndex.routingSnapshot.after zero) other := by
  unfold Routine.after
  cases hcache : zero.routingSnapshotCache with
  | some snapshot =>
      simp only [ChainCacheIndex.routingSnapshot, bind_apply, read_apply, hcache, pure_apply]
      exact h
  | none =>
      simp only [ChainCacheIndex.routingSnapshot, bind_apply, read_apply, hcache, write_apply, pure_apply]
      exact { h with }

theorem finishTurn_inStep (chainId : String) (tokenIds : List ℤ) (processedTokenCount : ℤ)
    (physicalSlotsByLayer : List ℤ) (residentRows : ℤ) :
    InStep ChainRecord.Same
      (finishTurn sha chainId tokenIds processedTokenCount physicalSlotsByLayer residentRows :
        Method Fingerprint Digest _)
      (finishTurn sha chainId tokenIds processedTokenCount physicalSlotsByLayer residentRows) := by
  refine Lockstep.bind (Lockstep.ofExcept_self _) fun digest digest' hdigest => ?_
  subst hdigest
  exact finishDigest_inStep sha chainId digest processedTokenCount physicalSlotsByLayer residentRows

end

/-- One call keeps the indices of the ranks equal up to the histories. -/
theorem run_agree (hinv : Inv zero) (h : Agree zero other) (op : RankOp Fingerprint Digest) :
    Agree (op.run sha true zero) (op.run sha false other) := by
  cases op with
  | applyAdmission plan fingerprint => exact (applyAdmission_inStep sha plan fingerprint).after h
  | finishDigest chainId tokenIds processedTokenCount physicalSlotsByLayer residentRows =>
      exact (finishTurn_inStep chainId tokenIds processedTokenCount physicalSlotsByLayer residentRows).after h
  | assignResidency chainId residentRows reservedSlotsByLayer reservedRows =>
      refine (modifyRecord_inStep chainId fun record record' hsame => ?_).after h
      exact congrArg (fun record => { record with
        residentRows := residentRows
        reservedSlotsByLayer := reservedSlotsByLayer
        reservedRows := reservedRows }) hsame
  | invalidate chainId => exact (invalidate_inStep chainId).after h
  | evict chainId => exact (evict_inStep chainId).after h
  | rememberPreparedTokens prepared => exact rememberPreparedTokens_agree hinv h prepared
  | routingSnapshot => exact routingSnapshot_agree h

/-! ### Digests of idle chains -/

/-- Every IDLE record has the digest of its processed tokens. -/
def IdleDigested (sha : Sha256 Digest) (index : ChainCacheIndex Fingerprint Digest) : Prop :=
  ∀ chainId record, index.records.get? chainId = some record → record.state = .idle →
    Digested sha record

/-- What rank 0 keeps along a run. -/
def RankInv (sha : Sha256 Digest) (index : ChainCacheIndex Fingerprint Digest) : Prop :=
  Inv index ∧ IdleDigested sha index

section

omit [DecidableEq Digest]

theorem IdleDigested.set (h : IdleDigested sha index) {chainId : String}
    {revised : ChainRecord Fingerprint Digest} (hrecords : next.records = index.records.set chainId revised)
    (hrevised : revised.state = .idle → Digested sha revised) : IdleDigested sha next := by
  intro other record hrecord hidle
  rw [hrecords, Dict.get?_set] at hrecord
  split at hrecord
  · obtain rfl := Option.some.inj hrecord
    exact hrevised hidle
  · exact h other record hrecord hidle

variable {chainIds : List String}

theorem IdleDigested.retires (h : IdleDigested sha index) (hretires : Retires index next chainIds) :
    IdleDigested sha next := by
  intro other record hrecord hidle
  rw [hretires.get?_eq] at hrecord
  split at hrecord
  · cases hrecord
  · exact h other record hrecord hidle

theorem RankInv.retires (h : RankInv sha index) (hretires : Retires index next chainIds) :
    RankInv sha next :=
  ⟨hretires.inv, h.2.retires hretires⟩

theorem applyAdmission_rankInv (h : RankInv sha index) (plan : ChainAdmissionPlan) (fingerprint : Fingerprint) :
    wpe (ChainCacheIndex.applyAdmission sha plan fingerprint) (fun _ => RankInv sha) (RankInv sha)
      index := by
  unfold ChainCacheIndex.applyAdmission
  refine wpe_then_imp (evictAll_wpe h.1 plan.victimChainIds) ?_ ?_
  · intro _ middle hretires
    have hmiddle := h.retires hretires
    cases plan.status with
    | created =>
        refine applyCreated_wpe sha plan fingerprint hmiddle fun hnew howner => ?_
        refine ⟨hmiddle.1.afterCreate sha fingerprint _ hnew howner, ?_⟩
        exact hmiddle.2.set rfl fun hidle => nomatch hidle
    | resumed =>
        refine applyResumed_wpe plan hmiddle fun record hrecord _ => ?_
        refine ⟨(Quiet.afterActivate hmiddle.1 hrecord plan _).inv, ?_⟩
        exact hmiddle.2.set rfl fun hidle => nomatch hidle
  · rintro next ⟨done, -, hretires⟩
    exact h.retires hretires

theorem digested_of_stableTokenDigest {tokenIds : List ℤ} {record : ChainRecord Fingerprint Digest}
    (hdigest : stableTokenDigest sha tokenIds (some record.processedTokenCount) =
      .ok record.processedTokenDigest) : Digested sha record := by
  obtain ⟨hnonneg, hle, hfits, heq⟩ := stableTokenDigest_eq_ok.mp hdigest
  refine ⟨tokenIds.take record.processedTokenCount.toNat, hfits, ?_, heq⟩
  rw [List.length_take]
  omega

theorem finishTurn_rankInv (h : RankInv sha index) (chainId : String) (tokenIds : List ℤ)
    (processedTokenCount : ℤ) (physicalSlotsByLayer : List ℤ) (residentRows : ℤ) :
    wpe (finishTurn sha chainId tokenIds processedTokenCount physicalSlotsByLayer residentRows)
      (fun _ => RankInv sha) (RankInv sha) index := by
  unfold finishTurn
  rw [wpe_bind]
  refine wpe_ofExcept (fun digest hdigest => ?_) h
  refine finishDigest_wpe sha digest processedTokenCount physicalSlotsByLayer residentRows h
    fun record hrecord _ hprocessed _ => ?_
  refine ⟨(Quiet.afterFinish h.1 hrecord hprocessed _ _ _ _).inv, h.2.set rfl fun _ => ?_⟩
  exact digested_of_stableTokenDigest hdigest

end

/-- The fields a residency change or a stored history leaves alone decide the
digest. -/
theorem rememberPreparedTokens_rankInv (h : RankInv sha index) (prepared : PreparedChainTokens Digest) :
    wpe (ChainCacheCoordinator.rememberPreparedTokens prepared) (fun _ => RankInv sha) (RankInv sha) index := by
  unfold ChainCacheCoordinator.rememberPreparedTokens
  rw [wpe_bind]
  refine wpe_lookup (fun record hrecord => ?_) h
  refine wpe_guarded h fun _ => ?_
  refine wpe_guarded h fun _ => ?_
  rw [wpe_bind]
  refine wpe_ofExcept (fun logicalTokens _ => ?_) h
  rw [wpe_bind]
  rw [← h.1.chainId_eq hrecord] at hrecord
  refine storeTokenHistory_wpe logicalTokens hrecord h fun hfits => ?_
  have hstored : RankInv sha (index.afterStore record logicalTokens) := by
    refine ⟨(Quiet.afterStore h.1 hrecord hfits).inv, h.2.set rfl fun hidle => ?_⟩
    exact h.2 _ record hrecord hidle
  exact wpe_lookup (fun _ _ => hstored) hstored

section

omit [DecidableEq Digest]

theorem assignResidency_rankInv (h : RankInv sha index) (chainId : String) (residentRows : ℤ)
    (reservedSlotsByLayer : List ℤ) (reservedRows : ℤ) :
    RankInv sha ((ChainCacheIndex.assignResidency chainId residentRows reservedSlotsByLayer
      reservedRows).after index) := by
  refine ⟨(assignResidency_quiet h.1 chainId residentRows reservedSlotsByLayer reservedRows).inv, ?_⟩
  unfold Routine.after ChainCacheIndex.assignResidency
  cases hrecord : index.records.get? chainId with
  | none =>
      simp only [modifyRecord, write_apply, hrecord]
      exact h.2
  | some record =>
      rw [modifyRecord_apply hrecord]
      exact h.2.set rfl fun hidle => h.2 chainId record hrecord hidle

theorem routingSnapshot_rankInv (h : RankInv sha index) :
    RankInv sha (ChainCacheIndex.routingSnapshot.after index) := by
  refine ⟨(ChainOp.routingSnapshot_quiet h.1).inv, ?_⟩
  unfold Routine.after
  cases hcache : index.routingSnapshotCache with
  | some snapshot =>
      simp only [ChainCacheIndex.routingSnapshot, bind_apply, read_apply, hcache, pure_apply]
      exact h.2
  | none =>
      simp only [ChainCacheIndex.routingSnapshot, bind_apply, read_apply, hcache, write_apply, pure_apply]
      exact h.2

end

/-- One call keeps the invariant of rank 0. -/
theorem run_rankInv (h : RankInv sha index) (op : RankOp Fingerprint Digest) :
    RankInv sha (op.run sha true index) := by
  cases op with
  | applyAdmission plan fingerprint => exact after_of_wpe (applyAdmission_rankInv h plan fingerprint)
  | finishDigest chainId tokenIds processedTokenCount physicalSlotsByLayer residentRows =>
      exact after_of_wpe (finishTurn_rankInv h chainId tokenIds processedTokenCount physicalSlotsByLayer residentRows)
  | assignResidency chainId residentRows reservedSlotsByLayer reservedRows =>
      exact assignResidency_rankInv h chainId residentRows reservedSlotsByLayer reservedRows
  | invalidate chainId =>
      refine after_of_wpe (invalidate_wpe h.1 h fun record hrecord hid => ?_)
      subst hid
      exact h.retires (Retires.afterRetire h.1 hrecord)
  | evict chainId =>
      refine after_of_wpe (evict_wpe h.1 h fun record hrecord _ hid => ?_)
      subst hid
      exact h.retires (Retires.afterRetire h.1 hrecord)
  | rememberPreparedTokens prepared =>
      exact after_of_wpe (rememberPreparedTokens_rankInv h prepared)
  | routingSnapshot => exact routingSnapshot_rankInv h

/-- Along a run the ranks stay in step and rank 0 keeps its invariant. -/
theorem runAll_agree (h : RankInv sha zero) (hagree : Agree zero other) (ops : List (RankOp Fingerprint Digest)) :
    RankInv sha (runAll sha true zero ops) ∧ Agree (runAll sha true zero ops) (runAll sha false other ops) := by
  induction ops generalizing zero other with
  | nil => exact ⟨h, hagree⟩
  | cons op rest ih => exact ih (run_rankInv h op) (run_agree h.1 hagree op)

/-- **The ranks agree on admission.** After any run that both ranks made, rank 0
planning from the tokens and the other rank planning from what rank 0 sends come
to the same plan or both refuse, and applying a plan on both leaves them equal
up to the histories. -/
theorem ranks_agree_on_admission [DecidableEq Fingerprint] (sha : Sha256 Digest)
    (hinjective : Function.Injective sha.digest) {maxTombstones : ℤ}
    {maxTokenHistoryTokens : Option ℤ} {start : ChainCacheIndex Fingerprint Digest}
    (hstart : ChainCacheIndex.new maxTombstones maxTokenHistoryTokens = .ok start)
    (ops : List (RankOp Fingerprint Digest)) (chainId : String) (seqId : ℕ) (tokenIds : List ℤ)
    (fingerprint : Fingerprint) (demand : AdmissionDemand) :
    let zero := runAll sha true start ops
    let other := runAll sha false start ops
    let planned := zero.planAdmission sha chainId seqId tokenIds fingerprint demand
    let validated := other.planAdmissionDigest sha chainId seqId tokenIds.length
      (zero.broadcastDigest sha chainId planned) fingerprint demand
    Agree zero other ∧ SamePlan planned validated ∧
      ∀ plan, planned = .ok plan →
        SameResult ChainRecord.Same
          (ChainCacheIndex.applyAdmission sha plan fingerprint zero).1
          (ChainCacheIndex.applyAdmission sha plan fingerprint other).1 ∧
        Agree (ChainCacheIndex.applyAdmission sha plan fingerprint zero).2
          (ChainCacheIndex.applyAdmission sha plan fingerprint other).2 := by
  intro zero other planned validated
  have hempty : IdleDigested sha start := by
    intro other record hrecord
    rw [ChainOp.records_new hstart] at hrecord
    exact nomatch hrecord
  obtain ⟨⟨-, hdigested⟩, hagree⟩ :=
    runAll_agree ⟨ChainOp.inv_new hstart, hempty⟩ (Agree.refl start) ops
  refine ⟨hagree, ?_, fun plan _ => applyAdmission_inStep sha plan fingerprint zero other hagree⟩
  have hone := planAdmission_broadcast hinjective (hdigested chainId)
    (rfl : zero.planAdmission sha chainId seqId tokenIds fingerprint demand = planned)
  rw [hagree.planAdmissionDigest] at hone
  exact hone

/-- A turn of three tokens was finished, and the next turn repeats two of
them. -/
theorem ranks_agree_on_second_turn :
    let sha := ChainOp.transparentDigest
    let start : ChainCacheIndex Unit (Option (List UInt8)) :=
      { maxTombstones := 4, maxTokenHistoryTokens := some 16 }
    let ops : List (RankOp Unit (Option (List UInt8))) :=
      [.applyAdmission
        { chainId := "chain_a", seqId := 0, status := .created, reusedTokens := 0 } (),
        .finishDigest "chain_a" [5, 6, 7] 2 [2] 1]
    let zero := runAll sha true start ops
    let planned := zero.planAdmission sha "chain_a" 0 [5, 6, 9] () {}
    (∃ plan, planned = .ok plan ∧ plan.status = .resumed ∧ plan.reusedTokens = 2) ∧
      SamePlan planned ((runAll sha false start ops).planAdmissionDigest sha "chain_a" 0 3
        (zero.broadcastDigest sha "chain_a" planned) () {}) := by
  intro sha start ops zero planned
  have hstart : ChainCacheIndex.new 4 (some 16) = .ok start := rfl
  have hinjective : Function.Injective sha.digest := fun _ _ heq => Option.some.inj heq
  refine ⟨⟨_, rfl, by decide, by decide⟩, ?_⟩
  exact (ranks_agree_on_admission sha hinjective hstart ops "chain_a" 0 [5, 6, 9] () {}).2.1

end RankOp
