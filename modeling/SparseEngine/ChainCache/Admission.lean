import SparseEngine.ChainCache.Runs

/-!
# Admission plans

Which chains `_plan_admission` picks as victims, and what `apply_admission`
leaves of the index when it returns and when it raises.

* **The plan.** The victims are the shortest prefix of the eviction order that
  covers the deficits (`takeVictims_shortest`).  There is an error exactly
  when all candidates do not.
* **Applying it.** The victims go one by one, up to the first that is not IDLE
  (`evictAll_cases`), and only then the chain is created or resumed.
  `applyAdmission_cases` moves the checks in front of the evictions
  (`Applicable`); a plan that fails them has lost the victims so far
  (`Stopped`).
* **A fresh plan** is always applicable (`appliesOwnPlan`).
-/

open Routine

namespace ChainCacheIndex

section

variable {Fingerprint Digest : Type}

/-- The rows and the slots of some chains cover the deficits. -/
def Covers (taken : List (ChainRecord Fingerprint Digest)) (rowDeficit : ℤ) (slotDeficits : List ℤ) :
    Prop :=
  rowDeficit ≤ (taken.map ChainRecord.residentRows).sum ∧
    ∀ layer deficit, slotDeficits[layer]? = some deficit →
      deficit ≤ (taken.map fun record => record.physicalSlotsByLayer.getD layer 0).sum

/-- The chains that may be evicted for a request, in the order of their last
access. -/
structure EvictionOrder (index : ChainCacheIndex Fingerprint Digest) (chainId : String)
    (candidates : List (ChainRecord Fingerprint Digest)) : Prop where
  sorted : candidates.Pairwise AccessedBefore
  perm : candidates.Perm (index.records.values.filter fun record =>
    record.state = .idle ∧ 0 < record.residentRows ∧ record.chainId ≠ chainId)

/-- The recorded slots of every chain are counts. -/
def CountsSlots (index : ChainCacheIndex Fingerprint Digest) : Prop :=
  ∀ chainId record, index.records.get? chainId = some record →
    ∀ slots ∈ record.physicalSlotsByLayer, 0 ≤ slots

/-! ## The victims -/

/-- A candidate whose rows and slots are counts. -/
def Counted (record : ChainRecord Fingerprint Digest) : Prop :=
  0 ≤ record.residentRows ∧ ∀ slots ∈ record.physicalSlotsByLayer, 0 ≤ slots

variable {record : ChainRecord Fingerprint Digest} {rowDeficit : ℤ} {slotDeficits : List ℤ}
  {taken candidates : List (ChainRecord Fingerprint Digest)}

theorem Counted.slots_nonneg (h : Counted record) (layer : ℕ) :
    0 ≤ record.physicalSlotsByLayer.getD layer 0 := by
  rw [List.getD_eq_getElem?_getD]
  rcases hslots : record.physicalSlotsByLayer[layer]? with - | slots
  · exact Int.le_refl 0
  · exact h.2 slots (List.mem_of_getElem? hslots)

theorem getElem?_coverSlots (slotDeficits physicalSlots : List ℤ) (layer : ℕ) :
    (coverSlots slotDeficits physicalSlots)[layer]? =
      (slotDeficits[layer]?).map fun deficit => max 0 (deficit - physicalSlots.getD layer 0) := by
  rw [coverSlots, List.getElem?_mapIdx]

/-- Nothing is missing exactly when no victim is needed. -/
theorem hasDeficit_iff (hslots : ∀ deficit ∈ slotDeficits, 0 ≤ deficit) :
    hasDeficit rowDeficit slotDeficits ↔
      ¬ Covers ([] : List (ChainRecord Fingerprint Digest)) rowDeficit slotDeficits := by
  unfold hasDeficit Covers
  simp only [List.map_nil, List.sum_nil, not_and_or, not_le]
  constructor
  · rintro (hrows | ⟨deficit, hmem, hne⟩)
    · exact .inl hrows
    · right
      intro hall
      obtain ⟨layer, hlayer⟩ := List.mem_iff_getElem?.mp hmem
      have hle := hall layer deficit hlayer
      have hnonneg := hslots deficit hmem
      omega
  · rintro (hrows | hmissing)
    · exact .inl hrows
    · right
      by_contra hnone
      apply hmissing
      intro layer deficit hlayer
      by_contra hlarge
      exact hnone ⟨deficit, List.mem_of_getElem? hlayer, by omega⟩

theorem sum_rows_nonneg (htaken : ∀ record ∈ taken, Counted record) :
    0 ≤ (taken.map ChainRecord.residentRows).sum := by
  apply List.sum_nonneg
  intro rows hmem
  obtain ⟨record, hrecord, rfl⟩ := List.mem_map.mp hmem
  exact (htaken record hrecord).1

theorem sum_slots_nonneg (htaken : ∀ record ∈ taken, Counted record) (layer : ℕ) :
    0 ≤ (taken.map fun record => record.physicalSlotsByLayer.getD layer 0).sum := by
  apply List.sum_nonneg
  intro slots hmem
  obtain ⟨record, hrecord, rfl⟩ := List.mem_map.mp hmem
  exact (htaken record hrecord).slots_nonneg layer

/-- Any chains cover what no chain has to cover. -/
theorem Covers.of_nil (hnone : Covers ([] : List (ChainRecord Fingerprint Digest)) rowDeficit slotDeficits)
    (htaken : ∀ record ∈ taken, Counted record) : Covers taken rowDeficit slotDeficits := by
  refine ⟨le_trans hnone.1 (sum_rows_nonneg htaken), fun layer deficit hlayer => ?_⟩
  exact le_trans (hnone.2 layer deficit hlayer) (sum_slots_nonneg htaken layer)

/-- The deficits that the loop starts from. -/
theorem covers_max (htaken : ∀ record ∈ taken, Counted record) (rowDeficit : ℤ) (slotDeficits : List ℤ) :
    Covers taken (max 0 rowDeficit) (slotDeficits.map (max 0)) ↔ Covers taken rowDeficit slotDeficits := by
  have hrows := sum_rows_nonneg htaken
  unfold Covers
  refine and_congr (by omega) ?_
  constructor
  · intro hall layer deficit hlayer
    have hcovered := hall layer (max 0 deficit) (by rw [List.getElem?_map, hlayer, Option.map_some])
    omega
  · intro hall layer deficit hlayer
    rw [List.getElem?_map] at hlayer
    obtain ⟨before, hbefore, rfl⟩ := Option.map_eq_some_iff.mp hlayer
    have hcovered := hall layer before hbefore
    have hslots := sum_slots_nonneg htaken layer
    omega

/-- One victim takes its rows and slots off the deficits. -/
theorem covers_cons {victim : ChainRecord Fingerprint Digest}
    (htaken : ∀ record ∈ taken, Counted record) (rowDeficit : ℤ) (slotDeficits : List ℤ) :
    Covers (victim :: taken) rowDeficit slotDeficits ↔
      Covers taken (max 0 (rowDeficit - victim.residentRows))
        (coverSlots slotDeficits victim.physicalSlotsByLayer) := by
  have hrows := sum_rows_nonneg htaken
  have hslots := sum_slots_nonneg htaken
  unfold Covers
  simp only [List.map_cons, List.sum_cons]
  refine and_congr (by omega) ?_
  constructor
  · intro hall layer deficit hlayer
    rw [getElem?_coverSlots] at hlayer
    obtain ⟨before, hbefore, rfl⟩ := Option.map_eq_some_iff.mp hlayer
    have hcovered := hall layer before hbefore
    have hnonneg := hslots layer
    omega
  · intro hall layer deficit hlayer
    have hcovered := hall layer _ (by rw [getElem?_coverSlots, hlayer, Option.map_some])
    omega

theorem coverSlots_nonneg (slotDeficits physicalSlots : List ℤ) :
    ∀ deficit ∈ coverSlots slotDeficits physicalSlots, 0 ≤ deficit := by
  intro deficit hmem
  obtain ⟨layer, hlayer, rfl⟩ := List.mem_mapIdx.mp hmem
  exact le_max_left _ _

/-- The loop takes the shortest run of candidates that covers the deficits. -/
theorem takeVictims_shortest {candidates : List (ChainRecord Fingerprint Digest)}
    (hcounted : ∀ record ∈ candidates, Counted record) {rowDeficit : ℤ} {slotDeficits : List ℤ}
    (hslots : ∀ deficit ∈ slotDeficits, 0 ≤ deficit) :
    ∃ n, (takeVictims candidates rowDeficit slotDeficits).1 = (candidates.take n).map ChainRecord.chainId ∧
      (∀ m < n, ¬ Covers (candidates.take m) rowDeficit slotDeficits) ∧
      (hasDeficit (takeVictims candidates rowDeficit slotDeficits).2.1
          (takeVictims candidates rowDeficit slotDeficits).2.2 ↔
        ¬ Covers candidates rowDeficit slotDeficits) ∧
      (Covers candidates rowDeficit slotDeficits → Covers (candidates.take n) rowDeficit slotDeficits) := by
  induction candidates generalizing rowDeficit slotDeficits with
  | nil =>
      exact ⟨0, rfl, fun m hm => absurd hm (Nat.not_lt_zero m), hasDeficit_iff hslots, id⟩
  | cons victim rest ih =>
      have hrest : ∀ record ∈ rest, Counted record :=
        fun record hrecord => hcounted record (List.mem_cons_of_mem _ hrecord)
      unfold takeVictims
      by_cases hdeficit : hasDeficit rowDeficit slotDeficits
      · rw [if_pos hdeficit]
        obtain ⟨n, hvictims, hshortest, hleft, hcovers⟩ :=
          @ih hrest (max 0 (rowDeficit - victim.residentRows)) (coverSlots slotDeficits victim.physicalSlotsByLayer)
            (coverSlots_nonneg slotDeficits victim.physicalSlotsByLayer)
        refine ⟨n + 1, ?_, ?_, ?_, ?_⟩
        · rw [List.take_succ_cons, List.map_cons, ← hvictims]
        · intro m hm
          cases m with
          | zero => exact (hasDeficit_iff hslots).mp hdeficit
          | succ m =>
              rw [List.take_succ_cons, covers_cons
                (fun record hrecord => hrest record (List.mem_of_mem_take hrecord))]
              exact hshortest m (by omega)
        · rw [covers_cons hrest]
          exact hleft
        · intro hall
          rw [List.take_succ_cons, covers_cons (fun record hrecord => hrest record (List.mem_of_mem_take hrecord))]
          exact hcovers ((covers_cons hrest _ _).mp hall)
      · rw [if_neg hdeficit]
        have hnone : Covers ([] : List (ChainRecord Fingerprint Digest)) rowDeficit slotDeficits :=
          not_not.mp (mt (hasDeficit_iff hslots).mpr hdeficit)
        have hall : Covers (victim :: rest) rowDeficit slotDeficits := hnone.of_nil hcounted
        exact ⟨0, rfl, fun m hm => absurd hm (Nat.not_lt_zero m),
          iff_of_false hdeficit (not_not.mpr hall), fun _ => hnone⟩

/-! ## The plan -/

instance : Std.Total (AccessedBefore : ChainRecord Fingerprint Digest → _ → Prop) where
  total first second := by
    unfold AccessedBefore
    rcases lt_trichotomy first.lastAccess second.lastAccess with hlt | heq | hlt
    · exact .inl (.inl hlt)
    · rcases le_total first.chainId second.chainId with hle | hle
      · exact .inl (.inr ⟨heq, hle⟩)
      · exact .inr (.inr ⟨heq.symm, hle⟩)
    · exact .inr (.inl hlt)

instance : IsTrans (ChainRecord Fingerprint Digest) AccessedBefore where
  trans first second third hfirst hsecond := by
    unfold AccessedBefore at *
    rcases hfirst with hlt | ⟨heq, hle⟩
    · rcases hsecond with hlater | ⟨hsame, -⟩
      · exact .inl (hlt.trans hlater)
      · exact .inl (hsame ▸ hlt)
    · rcases hsecond with hlater | ⟨hsame, hless⟩
      · exact .inl (heq ▸ hlater)
      · exact .inr ⟨heq.trans hsame, hle.trans hless⟩

/-- The chains that `idle_resident_lru` yields, but for the requested one. -/
theorem evictionOrder_idleResidentLru (index : ChainCacheIndex Fingerprint Digest) (chainId : String) :
    EvictionOrder index chainId (index.idleResidentLru.filter fun candidate => candidate.chainId ≠ chainId) where
  sorted := by
    have hsorted : index.idleResidentLru.Pairwise AccessedBefore :=
      List.pairwise_insertionSort AccessedBefore _
    exact hsorted.filter _
  perm := by
    unfold idleResidentLru
    refine ((List.perm_insertionSort _ _).filter _).trans ?_
    rw [List.filter_filter]
    apply List.Perm.of_eq
    apply List.filter_congr
    intro record _
    simp only [ne_eq, decide_not, Bool.decide_and, Bool.and_comm, Bool.and_left_comm]

variable {index next : ChainCacheIndex Fingerprint Digest} {chainId : String}

/-- Every chain that may be evicted has counted rows and slots. -/
theorem EvictionOrder.counted (h : EvictionOrder index chainId candidates)
    (hslots : CountsSlots index) : ∀ record ∈ candidates, Counted record := by
  intro record hmem
  obtain ⟨hvalue, htest⟩ := List.mem_filter.mp (h.perm.mem_iff.mp hmem)
  obtain ⟨key, hkey⟩ := Dict.mem_values_iff.mp hvalue
  have hrows := (decide_eq_true_iff.mp htest).2.1
  exact ⟨hrows.le, hslots key record hkey⟩

/-- Without deficits the loop takes no candidate, whatever there is. -/
theorem takeVictims_victimCandidates (index : ChainCacheIndex Fingerprint Digest) (chainId : String)
    (rowDeficit : ℤ) (slotDeficits : List ℤ) :
    takeVictims (index.victimCandidates chainId rowDeficit slotDeficits) rowDeficit slotDeficits =
      takeVictims (index.idleResidentLru.filter fun candidate => candidate.chainId ≠ chainId)
        rowDeficit slotDeficits := by
  unfold victimCandidates
  by_cases hdeficit : hasDeficit rowDeficit slotDeficits
  · rw [if_pos hdeficit]
  · rw [if_neg hdeficit, List.filter_nil]
    cases index.idleResidentLru.filter fun candidate => candidate.chainId ≠ chainId with
    | nil => rfl
    | cons victim rest => rw [takeVictims, takeVictims, if_neg hdeficit]

/-- The error of a request that cannot be admitted. -/
def capacityError (chainId : String) : PyError :=
  chainError .capacity
    ("No capacity is available for the chain request after evicting " ++
      "all IDLE chains; ACTIVE chains remain pinned.") (some chainId)

/-- The victims are the shortest run of candidates that covers the deficits, and
there is an error exactly when all of them do not. -/
theorem chooseVictims_spec (hslots : CountsSlots index) (requiredSlotsByLayer : List ℤ) (rowDeficit : ℤ) :
    let candidates := index.idleResidentLru.filter fun candidate => candidate.chainId ≠ chainId
    match index.chooseVictims chainId requiredSlotsByLayer rowDeficit with
    | .ok victims => Covers candidates rowDeficit requiredSlotsByLayer ∧
        ∃ n, victims = (candidates.take n).map ChainRecord.chainId ∧
          Covers (candidates.take n) rowDeficit requiredSlotsByLayer ∧
          ∀ m < n, ¬ Covers (candidates.take m) rowDeficit requiredSlotsByLayer
    | .error error => error = capacityError chainId ∧ ¬ Covers candidates rowDeficit requiredSlotsByLayer := by
  intro candidates
  have hcounted : ∀ record ∈ candidates, Counted record :=
    (evictionOrder_idleResidentLru index chainId).counted hslots
  have htake : ∀ n, ∀ record ∈ candidates.take n, Counted record :=
    fun n record hrecord => hcounted record (List.mem_of_mem_take hrecord)
  have hnonneg : ∀ deficit ∈ requiredSlotsByLayer.map (max 0), 0 ≤ deficit := by
    intro deficit hmem
    obtain ⟨before, -, rfl⟩ := List.mem_map.mp hmem
    exact le_max_left _ _
  obtain ⟨n, hvictims, hshortest, hleft, hcovers⟩ :=
    @takeVictims_shortest _ _ candidates hcounted (max 0 rowDeficit) _ hnonneg
  unfold chooseVictims
  simp only [takeVictims_victimCandidates]
  by_cases hmissing : Covers candidates rowDeficit requiredSlotsByLayer
  · have hmax := (covers_max hcounted rowDeficit requiredSlotsByLayer).mpr hmissing
    rw [if_neg (mt hleft.mp (not_not.mpr hmax))]
    refine ⟨hmissing, n, hvictims, (covers_max (htake n) _ _).mp (hcovers hmax), fun m hm => ?_⟩
    rw [← covers_max (htake m)]
    exact hshortest m hm
  · rw [if_pos (hleft.mpr (mt (covers_max hcounted rowDeficit requiredSlotsByLayer).mp hmissing))]
    exact ⟨rfl, hmissing⟩

section

variable [DecidableEq Fingerprint] [DecidableEq Digest]

/-- The exception is a `ChainCapacityError`. -/
def IsCapacityError (error : PyError) : Prop :=
  ∃ message subject, error = chainError .capacity message subject

theorem not_isCapacityError {errorClass : ChainErrorClass} {message : String}
    {subject : Option String} (hclass : errorClass ≠ .capacity) :
    ¬ IsCapacityError (chainError errorClass message subject) := by
  rintro ⟨other, about, heq⟩
  have hname := (PyError.defined.inj heq).1
  cases errorClass with
  | capacity => exact hclass rfl
  | _ => exact absurd hname (by decide)

section

omit [DecidableEq Fingerprint] [DecidableEq Digest]

variable {sha : Sha256 Digest} {error : PyError}

theorem stableTokenDigest_error {tokenIds : List ℤ} {count : Option ℤ}
    (hdigest : stableTokenDigest sha tokenIds count = .error error) :
    (∃ message, error = .overflowError message) ∨ ∃ message, error = chainError .prefixMismatch message none := by
  cases count with
  | none =>
      unfold stableTokenDigest at hdigest
      dsimp only at hdigest
      split at hdigest
      · exact .inl ⟨_, (Except.error.inj hdigest).symm⟩
      · exact nomatch hdigest
  | some limit =>
      unfold stableTokenDigest at hdigest
      dsimp only at hdigest
      split at hdigest
      · exact .inl ⟨_, (Except.error.inj hdigest).symm⟩
      · split at hdigest
        · exact .inr ⟨_, (Except.error.inj hdigest).symm⟩
        · exact nomatch hdigest

theorem inputDigest_error {record : ChainRecord Fingerprint Digest} {input : AdmissionInput Digest}
    (hdigest : inputDigest sha record chainId input = .error error) : ¬ IsCapacityError error := by
  cases input with
  | tokens tokenIds =>
      unfold inputDigest at hdigest
      rcases hstable : stableTokenDigest sha tokenIds (some record.processedTokenCount) with raised | value
      · simp only [hstable] at hdigest
        rcases stableTokenDigest_error hstable with ⟨message, rfl⟩ | ⟨message, rfl⟩
        · obtain rfl := Except.error.inj hdigest
          rintro ⟨other, subject, heq⟩
          exact nomatch heq
        · obtain rfl := Except.error.inj hdigest
          exact not_isCapacityError (by decide)
      · simp only [hstable] at hdigest
        exact nomatch hdigest
  | digest inputTokenCount inputPrefixDigest =>
      rw [inputDigest] at hdigest
      split at hdigest
      · obtain rfl := Except.error.inj hdigest
        exact not_isCapacityError (by decide)
      · exact nomatch hdigest

end

/-- Whether a request may use its chain has nothing to do with capacity. -/
theorem classifyAdmission_error {sha : Sha256 Digest} {seqId : ℕ} {input : AdmissionInput Digest}
    {fingerprint : Fingerprint} {error : PyError}
    (hclass : index.classifyAdmission sha chainId seqId input fingerprint = .error error) :
    ¬ IsCapacityError error := by
  unfold classifyAdmission at hclass
  rcases hrecord : index.records.get? chainId with - | record
  · simp only [hrecord, lookupRecord] at hclass
    split at hclass
    · obtain rfl := Except.error.inj hclass
      exact not_isCapacityError (by decide)
    · cases hclass
  · simp only [hrecord, classifyResume] at hclass
    split at hclass
    · obtain rfl := Except.error.inj hclass
      exact not_isCapacityError (by decide)
    · split at hclass
      · obtain rfl := Except.error.inj hclass
        exact not_isCapacityError (by decide)
      · split at hclass
        · obtain rfl := Except.error.inj hclass
          exact not_isCapacityError (by decide)
        · rcases hdigest : inputDigest sha record chainId input with raised | digest
          · rw [hdigest] at hclass
            obtain rfl := Except.error.inj hclass
            exact inputDigest_error hdigest
          · rw [hdigest] at hclass
            change (if digest ≠ record.processedTokenDigest then _ else _) = _ at hclass
            split at hclass
            · obtain rfl := Except.error.inj hclass
              exact not_isCapacityError (by decide)
            · cases hclass

/-- The plan of a request: the shortest run of evictable chains whose rows and
slots cover the deficits, or a `ChainCapacityError` exactly when all of them do
not. -/
def PlansShortest (sha : Sha256 Digest) (index : ChainCacheIndex Fingerprint Digest)
    (chainId : String) (seqId : ℕ) (input : AdmissionInput Digest) (fingerprint : Fingerprint)
    (demand : AdmissionDemand) : Prop :=
  ∃ candidates, EvictionOrder index chainId candidates ∧
    (∀ plan, index.planAdmissionInput sha chainId seqId input fingerprint demand = .ok plan →
      ∃ n, plan.victimChainIds = (candidates.take n).map ChainRecord.chainId ∧
        Covers (candidates.take n) demand.rowDeficit demand.requiredSlotsByLayer ∧
        ∀ m < n, ¬ Covers (candidates.take m) demand.rowDeficit demand.requiredSlotsByLayer) ∧
    ((∃ error, index.planAdmissionInput sha chainId seqId input fingerprint demand = .error error ∧
        IsCapacityError error) ↔
      (∃ outcome, index.classifyAdmission sha chainId seqId input fingerprint = .ok outcome) ∧
        ¬ Covers candidates demand.rowDeficit demand.requiredSlotsByLayer)

theorem plansShortest (hslots : CountsSlots index) (sha : Sha256 Digest) (chainId : String)
    (seqId : ℕ) (input : AdmissionInput Digest) (fingerprint : Fingerprint) (demand : AdmissionDemand) :
    PlansShortest sha index chainId seqId input fingerprint demand := by
  have hspec := @chooseVictims_spec _ _ index chainId hslots demand.requiredSlotsByLayer demand.rowDeficit
  refine ⟨_, evictionOrder_idleResidentLru index chainId, ?_⟩
  unfold planAdmissionInput
  rcases hclass : index.classifyAdmission sha chainId seqId input fingerprint with error | outcome
  · refine ⟨fun plan hplan => (nomatch hplan), ?_⟩
    constructor
    · rintro ⟨raised, heq, hcapacity⟩
      obtain rfl := Except.error.inj heq
      exact absurd hcapacity (classifyAdmission_error hclass)
    · rintro ⟨⟨outcome, houtcome⟩, -⟩
      exact nomatch houtcome
  · rcases hchosen : index.chooseVictims chainId demand.requiredSlotsByLayer demand.rowDeficit with error | victims
    · simp only [hchosen] at hspec
      obtain ⟨herror, hmissing⟩ := hspec
      refine ⟨fun plan hplan => (nomatch hplan), ?_⟩
      refine iff_of_true ⟨error, rfl, ?_⟩ ⟨⟨outcome, rfl⟩, hmissing⟩
      rw [herror]
      exact ⟨_, _, rfl⟩
    · simp only [hchosen] at hspec
      obtain ⟨hall, hvictims⟩ := hspec
      refine ⟨?_, iff_of_false ?_ fun h => h.2 hall⟩
      · intro plan hplan
        obtain rfl := Except.ok.inj hplan
        exact hvictims
      · rintro ⟨error, heq, -⟩
        exact nomatch heq

end

/-! ## Applying a plan -/

/-- An IDLE chain. -/
def Idle (index : ChainCacheIndex Fingerprint Digest) (chainId : String) : Prop :=
  ∃ record, index.records.get? chainId = some record ∧ record.state = .idle

/-- Chains that can be evicted one after another. -/
def Evictable (index : ChainCacheIndex Fingerprint Digest) (chainIds : List String) : Prop :=
  chainIds.Nodup ∧ ∀ chainId ∈ chainIds, Idle index chainId

/-- The first victim of the plan can be evicted. -/
def FirstIdle (index : ChainCacheIndex Fingerprint Digest) (chainIds : List String) : Prop :=
  ∃ first ∈ chainIds.head?, Idle index first

/-- The plan can be applied: its victims can be evicted, and then its chain can
be entered or is there to be resumed. -/
def Applicable (index : ChainCacheIndex Fingerprint Digest) (plan : ChainAdmissionPlan) : Prop :=
  Evictable index plan.victimChainIds ∧
    match plan.status with
    | .created =>
        (plan.chainId ∈ index.records.keys → plan.chainId ∈ plan.victimChainIds) ∧
          ∀ owner, index.seqIdToChainId.get? plan.seqId = some owner → owner ∈ plan.victimChainIds
    | .resumed => Idle index plan.chainId ∧ plan.chainId ∉ plan.victimChainIds

/-- What a call that raises has evicted. -/
structure Stopped (index next : ChainCacheIndex Fingerprint Digest) (chainIds : List String) : Prop where
  /-- No chain was evicted. -/
  unchanged : ¬ FirstIdle index chainIds → next = index
  /-- A chain was evicted. -/
  lost : FirstIdle index chainIds → ∃ done, done ≠ [] ∧ (∀ chainId ∈ done, Idle index chainId) ∧
    Retires index next done

theorem evict_cases (h : Inv index) (chainId : String) :
    (∃ record, index.records.get? chainId = some record ∧ record.state = .idle ∧ record.chainId = chainId ∧
      evict chainId index = (.ok { record with tokenIds := [] }, index.afterRetire record)) ∨
    (¬ Idle index chainId ∧ ∃ error, evict chainId index = (.error error, index)) := by
  unfold evict
  rw [bind_apply, lookup_apply]
  rcases hrecord : index.records.get? chainId with - | record
  · right
    refine ⟨fun hidle => ?_, ?_⟩
    · obtain ⟨record, hsome, -⟩ := hidle
      exact nomatch hrecord.symm.trans hsome
    · rcases hlookup : index.lookupRecord chainId with error | record
      · exact ⟨error, rfl⟩
      · exact nomatch hrecord.symm.trans (lookupRecord_eq_ok.mp hlookup)
  · have hid := h.chainId_eq hrecord
    rw [lookupRecord_eq_ok.mpr hrecord]
    cases hstate : record.state with
    | active =>
        right
        refine ⟨fun hidle => ?_, ?_⟩
        · obtain ⟨other, hsome, hidle⟩ := hidle
          obtain rfl := Option.some.inj (hrecord.symm.trans hsome)
          exact nomatch hstate.symm.trans hidle
        · simp only [bind_apply, raiseIf_apply, hstate, if_true]
          exact ⟨_, rfl⟩
    | idle =>
        left
        refine ⟨record, rfl, hstate, hid, ?_⟩
        subst hid
        simp only [bind_apply, raiseIf_apply, hstate, reduceCtorEq, if_false, retire_apply hrecord, pure_apply]

theorem Idle.afterRetire (h : Inv index) (hrecord : index.records.get? record.chainId = some record)
    (other : String) :
    Idle (index.afterRetire record) other ↔ other ≠ record.chainId ∧ Idle index other := by
  have hget := (Retires.afterRetire h hrecord).get?_eq other
  unfold Idle
  rw [hget]
  by_cases hother : other = record.chainId
  · simp [hother]
  · simp [hother]

theorem evictAll_cases (h : Inv index) (chainIds : List String) :
    (Evictable index chainIds ∧ ∃ next, evictAll chainIds index = (.ok (), next) ∧
      Retires index next chainIds ∧ (chainIds = [] → next = index)) ∨
    (¬ Evictable index chainIds ∧ ∃ error next, evictAll chainIds index = (.error error, next) ∧
      Stopped index next chainIds) := by
  induction chainIds generalizing index with
  | nil =>
      have hidle : ∀ chainId ∈ [], Idle index chainId := fun _ hmem => absurd hmem List.not_mem_nil
      exact .inl ⟨⟨List.nodup_nil, hidle⟩, index, rfl, Retires.nil h, fun _ => rfl⟩
  | cons head rest ih =>
      unfold evictAll
      rw [bind_apply]
      rcases evict_cases h head with ⟨record, hrecord, hidle, hid, hevict⟩ | ⟨hnot, error, hevict⟩
      · rw [hevict]
        subst hid
        have hhead := Retires.afterRetire h hrecord
        have hfirst : Idle index record.chainId := ⟨record, hrecord, hidle⟩
        -- the rest is judged after the head has left, so the head must not come again:
        have hevictable : Evictable index (record.chainId :: rest) ↔ Evictable (index.afterRetire record) rest := by
          unfold Evictable
          rw [List.nodup_cons, List.forall_mem_cons]
          constructor
          · rintro ⟨⟨hnew, hnodup⟩, -, hrest⟩
            refine ⟨hnodup, fun other hother => ?_⟩
            rw [Idle.afterRetire h hrecord]
            exact ⟨fun heq => hnew (heq ▸ hother), hrest other hother⟩
          · rintro ⟨hnodup, hrest⟩
            refine ⟨⟨fun hmem => ?_, hnodup⟩, hfirst, fun other hother => ?_⟩
            · exact ((Idle.afterRetire h hrecord _).mp (hrest _ hmem)).1 rfl
            · exact ((Idle.afterRetire h hrecord _).mp (hrest other hother)).2
        rw [hevictable]
        rcases ih hhead.inv with ⟨hall, next, hrun, hretires, -⟩ | ⟨hnot, error, next, hrun, hstopped⟩
        · exact .inl ⟨hall, next, hrun, hhead.cons hretires, fun hnil => absurd hnil (List.cons_ne_nil _ _)⟩
        · refine .inr ⟨hnot, error, next, hrun, fun hlast => ?_, fun _ => ?_⟩
          · exact absurd ⟨record.chainId, rfl, hfirst⟩ hlast
          · -- an error further on: the head is lost, with what the rest has lost
            by_cases hmore : FirstIdle (index.afterRetire record) rest
            · obtain ⟨done, -, hdone, hretires⟩ := hstopped.lost hmore
              refine ⟨record.chainId :: done, List.cons_ne_nil _ _, ?_, hhead.cons hretires⟩
              rw [List.forall_mem_cons]
              exact ⟨hfirst, fun other hother => ((Idle.afterRetire h hrecord _).mp (hdone other hother)).2⟩
            · rw [hstopped.unchanged hmore]
              refine ⟨[record.chainId], List.cons_ne_nil _ _, ?_, hhead⟩
              rw [List.forall_mem_singleton]
              exact hfirst
      · rw [hevict]
        right
        -- the head is not IDLE, and nothing has been evicted
        refine ⟨fun hall => hnot (hall.2 head List.mem_cons_self), error, index, rfl, fun _ => rfl, ?_⟩
        rintro ⟨first, hfirst, hidle⟩
        obtain rfl := Option.some.inj hfirst
        exact absurd hidle hnot

theorem applyCreated_cases (sha : Sha256 Digest) (plan : ChainAdmissionPlan)
    (fingerprint : Fingerprint) (index : ChainCacheIndex Fingerprint Digest) :
    (plan.chainId ∉ index.records.keys ∧ plan.seqId ∉ index.seqIdToChainId.keys ∧
      applyCreated sha plan fingerprint index =
        (.ok (createdRecord sha plan fingerprint (index.clock + 1)),
          index.afterCreate plan (createdRecord sha plan fingerprint (index.clock + 1)))) ∨
    (¬ (plan.chainId ∉ index.records.keys ∧ plan.seqId ∉ index.seqIdToChainId.keys) ∧
      ∃ error, applyCreated sha plan fingerprint index = (.error error, index)) := by
  unfold applyCreated
  rw [get_apply]
  simp only [bind_apply, raiseIf_apply]
  by_cases hlive : plan.chainId ∈ index.records.keys
  · rw [if_pos hlive]
    exact .inr ⟨fun h => h.1 hlive, _, rfl⟩
  · by_cases howned : plan.seqId ∈ index.seqIdToChainId.keys
    · simp only [if_neg hlive, if_pos howned]
      exact .inr ⟨fun h => h.2 howned, _, rfl⟩
    · refine .inl ⟨hlive, howned, ?_⟩
      simp only [if_neg hlive, if_neg howned, modifyRecord, setRecordState, tick, bind_apply,
        write_apply, read_apply, pure_apply, Dict.get?_set_self, Dict.set_set_self, lookup_apply,
        lookupRecord]
      rfl

theorem applyResumed_cases (plan : ChainAdmissionPlan) (index : ChainCacheIndex Fingerprint Digest) :
    (∃ record, index.records.get? plan.chainId = some record ∧ record.state = .idle ∧
      applyResumed plan index = (.ok (resumedRecord record plan (index.clock + 1)),
        index.afterActivate plan.chainId (resumedRecord record plan (index.clock + 1)))) ∨
    (¬ Idle index plan.chainId ∧ ∃ error, applyResumed plan index = (.error error, index)) := by
  unfold applyResumed
  rw [bind_apply, lookup_apply]
  rcases hrecord : index.records.get? plan.chainId with - | record
  · right
    refine ⟨fun hidle => ?_, ?_⟩
    · obtain ⟨record, hsome, -⟩ := hidle
      exact nomatch hrecord.symm.trans hsome
    · rcases hlookup : index.lookupRecord plan.chainId with error | record
      · exact ⟨error, rfl⟩
      · exact nomatch hrecord.symm.trans (lookupRecord_eq_ok.mp hlookup)
  · rw [lookupRecord_eq_ok.mpr hrecord]
    simp only [bind_apply, raiseIf_apply]
    by_cases hidle : record.state = .idle
    · refine .inl ⟨record, rfl, hidle, ?_⟩
      rw [if_neg (not_not.mpr hidle)]
      simp only [modifyRecord, setRecordState, tick, bind_apply, write_apply, read_apply, pure_apply,
        hrecord, Dict.get?_set_self, Dict.set_set_self, lookup_apply, lookupRecord]
      rfl
    · rw [if_pos hidle]
      refine .inr ⟨fun hother => ?_, _, rfl⟩
      obtain ⟨other, hsome, hother⟩ := hother
      obtain rfl := Option.some.inj (hrecord.symm.trans hsome)
      exact hidle hother

/-- What an applied plan leaves: its victims are gone, its chain is ACTIVE,
every other chain is as it was. -/
structure Applied (index next : ChainCacheIndex Fingerprint Digest) (plan : ChainAdmissionPlan) :
    Prop where
  active : ∃ record, next.records.get? plan.chainId = some record ∧ record.state = .active
  others : ∀ other, other ≠ plan.chainId → next.records.get? other =
    if other ∈ plan.victimChainIds then none else index.records.get? other
  retired_eq : next.retired = index.retired ++ plan.victimChainIds

/-- `apply_admission` applies a plan that can be applied; otherwise it raises,
and has evicted the victims up to where it stopped. -/
theorem applyAdmission_cases (h : Inv index) (sha : Sha256 Digest) (plan : ChainAdmissionPlan)
    (fingerprint : Fingerprint) :
    (Applicable index plan ∧ ∃ record next,
      applyAdmission sha plan fingerprint index = (.ok record, next) ∧ Applied index next plan) ∨
    (¬ Applicable index plan ∧ ∃ error next,
      applyAdmission sha plan fingerprint index = (.error error, next) ∧ Stopped index next plan.victimChainIds) := by
  unfold applyAdmission
  rw [bind_apply]
  rcases evictAll_cases h plan.victimChainIds with
    ⟨hvictims, middle, hrun, hretires, hsame⟩ | ⟨hvictims, error, next, hrun, hstopped⟩
  · rw [hrun]
    -- after the evictions a chain is live when it was and is no victim:
    have hlive : ∀ {chainId}, chainId ∈ middle.records.keys ↔
        chainId ∈ index.records.keys ∧ chainId ∉ plan.victimChainIds := by
      intro chainId
      rw [Dict.mem_keys_iff, Dict.mem_keys_iff, hretires.get?_eq]
      by_cases hmem : chainId ∈ plan.victimChainIds
      · simp [hmem]
      · simp [hmem]
    -- and a sequence keeps its owner unless the owner is a victim:
    have howner : ∀ {seqId owner}, middle.seqIdToChainId.get? seqId = some owner ↔
        index.seqIdToChainId.get? seqId = some owner ∧ owner ∉ plan.victimChainIds := by
      intro seqId owner
      rw [hretires.inv.owner, h.owner, hretires.get?_eq]
      by_cases hmem : owner ∈ plan.victimChainIds
      · simp [hmem]
      · simp [hmem]
    -- whatever the checks below say, the victims are gone:
    have hstopped : Stopped index middle plan.victimChainIds := by
      refine ⟨fun hnone => hsame ?_, fun hfirst => ⟨_, ?_, hvictims.2, hretires⟩⟩
      · cases hlist : plan.victimChainIds with
        | nil => rfl
        | cons head rest =>
            rw [hlist] at hnone hvictims
            exact absurd ⟨head, rfl, hvictims.2 head List.mem_cons_self⟩ hnone
      · obtain ⟨first, hmem, -⟩ := hfirst
        intro hnil
        rw [hnil] at hmem
        cases hmem
    cases hstatus : plan.status with
    | created =>
        -- the checks pass here exactly when they would have with the victims exempted
        rcases applyCreated_cases sha plan fingerprint middle with
          ⟨hnew, hfree, hcreated⟩ | ⟨hnot, error, hcreated⟩
        · left
          refine ⟨⟨hvictims, ?_⟩, _, _, hcreated, ?_⟩
          · simp only [hstatus]
            refine ⟨fun hmem => ?_, fun owner hsome => ?_⟩
            · by_contra hvictim
              exact hnew (hlive.mpr ⟨hmem, hvictim⟩)
            · by_contra hvictim
              exact hfree (Dict.mem_keys_of_get? (howner.mpr ⟨hsome, hvictim⟩))
          · exact ⟨⟨_, Dict.get?_set_self _ _ _, rfl⟩,
              fun other hne => (Dict.get?_set_of_ne _ _ hne).trans (hretires.get?_eq other),
              hretires.retired_eq⟩
        · right
          refine ⟨fun happlicable => hnot ?_, error, middle, hcreated, hstopped⟩
          obtain ⟨-, hcan⟩ := happlicable
          simp only [hstatus] at hcan
          refine ⟨fun hmem => ?_, fun hmem => ?_⟩
          · obtain ⟨hold, hvictim⟩ := hlive.mp hmem
            exact hvictim (hcan.1 hold)
          · obtain ⟨owner, hsome⟩ := Dict.mem_keys_iff.mp hmem
            obtain ⟨hold, hvictim⟩ := howner.mp hsome
            exact hvictim (hcan.2 owner hold)
    | resumed =>
        -- a chain that is resumed must not be a victim itself:
        have hidle : Idle middle plan.chainId ↔ Idle index plan.chainId ∧ plan.chainId ∉ plan.victimChainIds := by
          unfold Idle
          rw [hretires.get?_eq]
          by_cases hmem : plan.chainId ∈ plan.victimChainIds
          · simp [hmem]
          · simp [hmem]
        rcases applyResumed_cases plan middle with
          ⟨record, hrecord, hstate, hresumed⟩ | ⟨hnot, error, hresumed⟩
        · left
          refine ⟨⟨hvictims, ?_⟩, _, _, hresumed, ?_⟩
          · simp only [hstatus]
            exact hidle.mp ⟨record, hrecord, hstate⟩
          · exact ⟨⟨_, Dict.get?_set_self _ _ _, rfl⟩,
              fun other hne => (Dict.get?_set_of_ne _ _ hne).trans (hretires.get?_eq other),
              hretires.retired_eq⟩
        · right
          refine ⟨fun happlicable => hnot ?_, error, middle, hresumed, hstopped⟩
          obtain ⟨-, hcan⟩ := happlicable
          simp only [hstatus] at hcan
          exact hidle.mpr hcan
  · rw [hrun]
    -- a victim could not be evicted; those before it are gone
    exact .inr ⟨fun happlicable => hvictims happlicable.1, error, next, rfl, hstopped⟩

/-! ## A plan on the state it was made on -/

theorem EvictionOrder.evictable (h : Inv index) (horder : EvictionOrder index chainId candidates) (n : ℕ) :
    Evictable index ((candidates.take n).map ChainRecord.chainId) ∧
      chainId ∉ (candidates.take n).map ChainRecord.chainId := by
  have hcandidate : ∀ record ∈ candidates.take n, index.records.get? record.chainId = some record ∧
      record.state = .idle ∧ record.chainId ≠ chainId := by
    intro record hmem
    obtain ⟨hvalue, htest⟩ :=
      List.mem_filter.mp (horder.perm.mem_iff.mp (List.mem_of_mem_take hmem))
    obtain ⟨key, hkey⟩ := Dict.mem_values_iff.mp hvalue
    obtain ⟨hidle, -, hne⟩ := decide_eq_true_iff.mp htest
    exact ⟨h.chainId_eq hkey ▸ hkey, hidle, hne⟩
  refine ⟨⟨?_, fun victim hvictim => ?_⟩, fun hvictim => ?_⟩
  · have hall : (candidates.map ChainRecord.chainId).Nodup := by
      refine (horder.perm.map _).nodup_iff.mpr ?_
      refine List.Nodup.sublist (List.filter_sublist.map _) ?_
      rw [h.map_chainId]
      exact index.records.keys_nodup
    exact hall.sublist ((List.take_sublist n candidates).map _)
  · obtain ⟨record, hmem, rfl⟩ := List.mem_map.mp hvictim
    obtain ⟨hrecord, hidle, -⟩ := hcandidate record hmem
    exact ⟨record, hrecord, hidle⟩
  · obtain ⟨record, hmem, heq⟩ := List.mem_map.mp hvictim
    exact (hcandidate record hmem).2.2 heq

variable [DecidableEq Fingerprint] [DecidableEq Digest]

/-- The status of a plan says whether its chain is there. -/
theorem classifyAdmission_status {sha : Sha256 Digest} {seqId : ℕ} {input : AdmissionInput Digest}
    {fingerprint : Fingerprint} {status : AdmissionStatus} {reusedTokens : ℤ}
    (hclass : index.classifyAdmission sha chainId seqId input fingerprint = .ok (status, reusedTokens)) :
    match status with
    | .created => index.records.get? chainId = none
    | .resumed => Idle index chainId := by
  unfold classifyAdmission at hclass
  rcases hrecord : index.records.get? chainId with - | record
  · simp only [hrecord] at hclass
    split at hclass
    · rcases hlookup : index.lookupRecord chainId with error | record
      · rw [hlookup] at hclass
        cases hclass
      · cases hrecord.symm.trans (lookupRecord_eq_ok.mp hlookup)
    · obtain ⟨rfl, -⟩ := Prod.mk.inj (Except.ok.inj hclass)
      rfl
  · simp only [hrecord, classifyResume] at hclass
    split at hclass
    · cases hclass
    · next hidle =>
        have hstate : record.state = .idle := by
          cases hcase : record.state with
          | active => exact absurd hcase hidle
          | idle => rfl
        split at hclass
        · cases hclass
        · split at hclass
          · cases hclass
          · rcases hdigest : inputDigest sha record chainId input with raised | digest
            · rw [hdigest] at hclass
              cases hclass
            · rw [hdigest] at hclass
              change (if digest ≠ record.processedTokenDigest then _ else _) = _ at hclass
              split at hclass
              · cases hclass
              · obtain ⟨rfl, -⟩ := Prod.mk.inj (Except.ok.inj hclass)
                exact ⟨record, hrecord, hstate⟩

/-- What `apply_admission` makes of a plan for the index it was made on. -/
structure AppliesOwnPlan (sha : Sha256 Digest) (index : ChainCacheIndex Fingerprint Digest)
    (chainId : String) (plan : ChainAdmissionPlan) (fingerprint : Fingerprint) : Prop where
  chainId_eq : plan.chainId = chainId
  returns : ∃ record next, applyAdmission sha plan fingerprint index = (.ok record, next) ∧
    Applied index next plan
  /-- The victims are IDLE chains, each named once, and not the requested one. -/
  victims : Evictable index plan.victimChainIds ∧ chainId ∉ plan.victimChainIds

theorem appliesOwnPlan (h : Inv index) (hslots : CountsSlots index) {sha : Sha256 Digest} {seqId : ℕ}
    {input : AdmissionInput Digest} {fingerprint : Fingerprint} {demand : AdmissionDemand} {plan : ChainAdmissionPlan}
    (hplan : index.planAdmissionInput sha chainId seqId input fingerprint demand = .ok plan)
    (howner : ∀ other, index.seqIdToChainId.get? seqId = some other → other = chainId)
    (applied : Fingerprint) : AppliesOwnPlan sha index chainId plan applied := by
  obtain ⟨candidates, horder, hshortest, -⟩ :=
    plansShortest hslots sha chainId seqId input fingerprint demand
  obtain ⟨n, hvictims, -⟩ := hshortest plan hplan
  obtain ⟨hevictable, hnot⟩ := horder.evictable h n
  rw [← hvictims] at hevictable hnot
  unfold planAdmissionInput at hplan
  rcases hclass : index.classifyAdmission sha chainId seqId input fingerprint with error | outcome
  · rw [hclass] at hplan
    exact nomatch hplan
  · obtain ⟨status, reusedTokens⟩ := outcome
    rcases hchosen : index.chooseVictims chainId demand.requiredSlotsByLayer demand.rowDeficit with error | victims
    · rw [hclass, hchosen] at hplan
      exact nomatch hplan
    · rw [hclass, hchosen] at hplan
      obtain rfl := Except.ok.inj hplan
      have hstatus := classifyAdmission_status hclass
      refine ⟨rfl, ?_, hevictable, hnot⟩
      rcases applyAdmission_cases h sha _ applied with ⟨-, hreturns⟩ | ⟨hcannot, -⟩
      · exact hreturns
      · refine absurd ⟨hevictable, ?_⟩ hcannot
        cases status with
        | created =>
            refine ⟨fun hlive => ?_, fun owner hsome => ?_⟩
            · exact absurd hlive (Dict.not_mem_keys_iff.mpr hstatus)
            · obtain rfl := howner owner hsome
              obtain ⟨record, hrecord, -⟩ := h.owner.mp hsome
              exact nomatch hstatus.symm.trans hrecord
        | resumed => exact ⟨hstatus, hnot⟩

end

/-! ## Runs -/

section

variable {Fingerprint Digest : Type}

theorem CountsSlots.modifyRecord (chainId : String)
    {assign : ChainRecord Fingerprint Digest → ChainRecord Fingerprint Digest}
    (hassign : ∀ record, (∀ slots ∈ record.physicalSlotsByLayer, 0 ≤ slots) →
      ∀ slots ∈ (assign record).physicalSlotsByLayer, 0 ≤ slots) :
    Maintains CountsSlots (modifyRecord chainId assign) := by
  apply Maintains.write
  intro index h
  rcases hrecord : index.records.get? chainId with - | record
  · exact h
  · intro other found hfound
    change (index.records.set chainId (assign record)).get? other = some found at hfound
    rw [Dict.get?_set] at hfound
    split at hfound
    · obtain rfl := Option.some.inj hfound
      exact hassign record (h chainId record hrecord)
    · exact h other found hfound

theorem CountsSlots.tick : Maintains CountsSlots (tick : Method Fingerprint Digest ℤ) :=
  .bind (.write fun _ h => h) fun _ => .bind .read fun _ => .pure _

theorem CountsSlots.lookup (chainId : String) :
    Maintains CountsSlots (lookup chainId : Method Fingerprint Digest _) :=
  .bind .read fun _ => .ofExcept _

theorem CountsSlots.setRecordState (chainId : String) (state : ChainState) :
    Maintains CountsSlots (setRecordState chainId state : Method Fingerprint Digest Unit) := by
  refine .bind (.write fun _ h => h) fun _ => .bind (CountsSlots.modifyRecord chainId fun _ h => h) fun _ => ?_
  apply Maintains.write
  intro index h
  cases state with
  | active => exact h
  | idle => exact h

theorem CountsSlots.retire (record : ChainRecord Fingerprint Digest) (chainId : String) :
    Maintains CountsSlots (retire record chainId) := by
  refine .bind ?_ fun _ => .bind ?_ fun _ => ?_
  · exact .bind (.write fun _ h => h) fun _ => CountsSlots.modifyRecord _ fun _ h => h
  · apply Maintains.write
    intro index h other found hfound
    change (index.records.erase chainId).get? other = some found at hfound
    rw [Dict.get?_erase] at hfound
    split at hfound
    · cases hfound
    · exact h other found hfound
  · exact .bind (.write fun _ h => h) fun _ => .bind CountsSlots.tick fun _ =>
      .bind (.write fun _ h => h) fun _ => .write fun _ h => h

theorem CountsSlots.evict (chainId : String) :
    Maintains CountsSlots (evict chainId : Method Fingerprint Digest _) :=
  .bind (CountsSlots.lookup chainId) fun _ => .bind (.raiseIf _ _) fun _ => .bind (CountsSlots.retire _ _) fun _ => .pure _

theorem CountsSlots.evictAll (chainIds : List String) :
    Maintains CountsSlots (evictAll chainIds : Method Fingerprint Digest Unit) := by
  induction chainIds with
  | nil => exact .pure ()
  | cons head rest ih => exact .bind (CountsSlots.evict head) fun _ => ih

theorem CountsSlots.applyAdmission (sha : Sha256 Digest) (plan : ChainAdmissionPlan)
    (fingerprint : Fingerprint) : Maintains CountsSlots (applyAdmission sha plan fingerprint) := by
  refine .bind (CountsSlots.evictAll _) fun _ => ?_
  cases plan.status with
  | created =>
      refine .bind .read fun _ => .bind (.raiseIf _ _) fun _ => .bind (.raiseIf _ _) fun _ =>
        .bind CountsSlots.tick fun now => .bind ?_ fun _ => .bind (CountsSlots.setRecordState _ _) fun _ =>
        .bind (.write fun _ h => h) fun _ => .bind (CountsSlots.modifyRecord _ fun _ h => h) fun _ => CountsSlots.lookup _
      apply Maintains.write
      intro index h other found hfound
      rw [Dict.get?_set] at hfound
      split at hfound
      · obtain rfl := Option.some.inj hfound
        exact fun _ hslots => by cases hslots
      · exact h other found hfound
  | resumed =>
      exact .bind (CountsSlots.lookup _) fun _ => .bind (.raiseIf _ _) fun _ => .bind (CountsSlots.setRecordState _ _) fun _ =>
        .bind CountsSlots.tick fun _ => .bind (CountsSlots.modifyRecord _ fun _ h => h) fun _ => CountsSlots.lookup _

theorem CountsSlots.storeTokenHistory (record : ChainRecord Fingerprint Digest)
    (logicalTokens : List UInt32) : Maintains CountsSlots (storeTokenHistory record logicalTokens) :=
  .bind (.bind .read fun _ => .raiseIf _ _) fun _ => .bind (.write fun _ h => h) fun _ =>
    .bind (CountsSlots.modifyRecord _ fun _ h => h) fun _ => .write fun _ h => h

theorem CountsSlots.finishDigest (sha : Sha256 Digest) (chainId : String) (digest : Digest)
    (processedTokenCount : ℤ) {physicalSlotsByLayer : List ℤ}
    (hslots : ∀ slots ∈ physicalSlotsByLayer, 0 ≤ slots) (residentRows : ℤ) :
    Maintains CountsSlots (finishDigest sha chainId digest processedTokenCount physicalSlotsByLayer
      residentRows : Method Fingerprint Digest _) :=
  .bind (CountsSlots.lookup _) fun _ => .bind (.raiseIf _ _) fun _ => .bind (.raiseIf _ _) fun _ =>
    .bind (.raiseIf _ _) fun _ => .bind (CountsSlots.modifyRecord _ fun _ _ => hslots) fun _ =>
    .bind (CountsSlots.setRecordState _ _) fun _ => .bind CountsSlots.tick fun _ =>
    .bind (CountsSlots.modifyRecord _ fun _ h => h) fun _ => CountsSlots.lookup _

theorem CountsSlots.prepareTokenHistory (record : ChainRecord Fingerprint Digest) (tokenIds : List ℤ)
    (processedTokenCount : ℤ) :
    Maintains CountsSlots (prepareTokenHistory record tokenIds processedTokenCount) :=
  .bind (.raiseIf _ _) fun _ => .bind (.ofExcept _) fun _ => .bind (.raiseIf _ _) fun _ =>
    .bind (.bind .read fun _ => .raiseIf _ _) fun _ => .pure _

theorem CountsSlots.rememberPreparedTokens [DecidableEq Digest] (prepared : PreparedChainTokens Digest) :
    Maintains CountsSlots (ChainCacheCoordinator.rememberPreparedTokens prepared :
      Method Fingerprint Digest _) :=
  .bind (CountsSlots.lookup _) fun _ => .bind (.raiseIf _ _) fun _ => .bind (.raiseIf _ _) fun _ =>
    .bind (.ofExcept _) fun _ => .bind (CountsSlots.storeTokenHistory _ _) fun _ => CountsSlots.lookup _

theorem CountsSlots.prepareProcessedTokens (sha : Sha256 Digest) (chainId : String) (seqId : ℕ)
    (tokenIds : List ℤ) (processedTokenCount : ℤ) :
    Maintains CountsSlots (ChainCacheCoordinator.prepareProcessedTokens sha chainId seqId tokenIds
      processedTokenCount : Method Fingerprint Digest _) :=
  .bind (CountsSlots.lookup _) fun _ => .bind (.raiseIf _ _) fun _ => .bind (CountsSlots.prepareTokenHistory _ _ _) fun _ =>
    .bind (.ofExcept _) fun _ => .pure _

end

end ChainCacheIndex

namespace ChainOp

open ChainCacheIndex

variable {Fingerprint Digest : Type} [DecidableEq Fingerprint] [DecidableEq Digest]

/-- The slots that a call records are counts: a turn ends with the lengths of
its rows. -/
def RecordsCounts : ChainOp Fingerprint Digest → Prop
  | .finish _ _ _ physicalSlotsByLayer _ => ∀ slots ∈ physicalSlotsByLayer, 0 ≤ slots
  | .finishDigest _ _ _ physicalSlotsByLayer _ => ∀ slots ∈ physicalSlotsByLayer, 0 ≤ slots
  | _ => True

theorem run_countsSlots {index : ChainCacheIndex Fingerprint Digest} (h : CountsSlots index)
    (sha : Sha256 Digest) (op : ChainOp Fingerprint Digest) (hop : op.RecordsCounts) :
    CountsSlots (op.run sha index) := by
  cases op with
  | planAdmission chainId seqId tokenIds fingerprint demand => exact h
  | planAdmissionDigest chainId seqId inputTokenCount inputPrefixDigest fingerprint demand => exact h
  | applyAdmission plan fingerprint =>
      exact after_of_wpe (CountsSlots.applyAdmission sha plan fingerprint index h)
  | finish chainId tokenIds processedTokenCount physicalSlotsByLayer residentRows =>
      -- only a finish writes slot counts, and it writes those it is given:
      have hfinish : Maintains CountsSlots (ChainCacheIndex.finish sha chainId tokenIds
          processedTokenCount physicalSlotsByLayer residentRows : Method Fingerprint Digest _) :=
        .bind (CountsSlots.lookup _) fun _ => .bind (CountsSlots.prepareTokenHistory _ _ _) fun _ =>
          .bind (.ofExcept _) fun _ => .bind (CountsSlots.finishDigest sha chainId _ _ hop _) fun _ =>
          .bind (CountsSlots.storeTokenHistory _ _) fun _ => CountsSlots.lookup _
      exact after_of_wpe (hfinish index h)
  | finishDigest chainId digest processedTokenCount physicalSlotsByLayer residentRows =>
      exact after_of_wpe (CountsSlots.finishDigest sha chainId digest _ hop _ index h)
  | prepareProcessedTokens chainId seqId tokenIds processedTokenCount =>
      exact after_of_wpe (CountsSlots.prepareProcessedTokens sha chainId seqId tokenIds _ index h)
  | rememberPreparedTokens prepared =>
      exact after_of_wpe (CountsSlots.rememberPreparedTokens prepared index h)
  | rememberProcessedTokens chainId seqId tokenIds processedTokenCount =>
      have hremember : Maintains CountsSlots (ChainCacheCoordinator.rememberProcessedTokens sha chainId
          seqId tokenIds processedTokenCount : Method Fingerprint Digest _) :=
        .bind (CountsSlots.prepareProcessedTokens _ _ _ _ _) fun _ => CountsSlots.rememberPreparedTokens _
      exact after_of_wpe (hremember index h)
  | assignResidency chainId residentRows reservedSlotsByLayer reservedRows =>
      have hassign : Maintains CountsSlots (ChainCacheIndex.assignResidency chainId residentRows
          reservedSlotsByLayer reservedRows : Method Fingerprint Digest _) :=
        .modifyRecord chainId fun _ hrecord => hrecord
      exact after_of_wpe (hassign index h)
  | invalidate chainId =>
      have hinvalidate : Maintains CountsSlots (ChainCacheIndex.invalidate chainId :
          Method Fingerprint Digest _) :=
        .bind (CountsSlots.lookup _) fun _ => .bind (CountsSlots.retire _ _) fun _ => .pure _
      exact after_of_wpe (hinvalidate index h)
  | evict chainId => exact after_of_wpe (CountsSlots.evict chainId index h)
  | routingSnapshot =>
      have hsnapshot : Maintains CountsSlots (ChainCacheIndex.routingSnapshot :
          Method Fingerprint Digest _) := by
        refine .bind .read fun index => ?_
        cases index.routingSnapshotCache with
        | some snapshot => exact .pure _
        | none => exact .bind (.write fun _ h => h) fun _ => .pure _
      exact after_of_wpe (hsnapshot index h)
  | reset =>
      intro chainId record hrecord
      exact nomatch hrecord

theorem runAll_countsSlots {index : ChainCacheIndex Fingerprint Digest} (h : CountsSlots index)
    (sha : Sha256 Digest) {ops : List (ChainOp Fingerprint Digest)}
    (hops : ∀ op ∈ ops, op.RecordsCounts) : CountsSlots (runAll sha index ops) := by
  induction ops generalizing index with
  | nil => exact h
  | cons op rest ih =>
      exact ih (run_countsSlots h sha op (hops op List.mem_cons_self))
        fun next hnext => hops next (List.mem_cons_of_mem op hnext)

/-- A call of `apply_admission` that raises leaves the records, the tombstones,
the owners and the clock as they were. -/
def RaisesUnchanged (sha : Sha256 Digest) (index : ChainCacheIndex Fingerprint Digest)
    (plan : ChainAdmissionPlan) (fingerprint : Fingerprint) : Prop :=
  ∀ error next, ChainCacheIndex.applyAdmission sha plan fingerprint index = (.error error, next) →
    next.records = index.records ∧ next.tombstones = index.tombstones ∧
      next.seqIdToChainId = index.seqIdToChainId ∧ next.clock = index.clock

omit [DecidableEq Fingerprint] [DecidableEq Digest] in
theorem raisesUnchanged_iff {index : ChainCacheIndex Fingerprint Digest} (h : Inv index)
    (sha : Sha256 Digest) (plan : ChainAdmissionPlan) (fingerprint : Fingerprint) :
    RaisesUnchanged sha index plan fingerprint ↔ Applicable index plan ∨ ¬ FirstIdle index plan.victimChainIds := by
  unfold RaisesUnchanged
  rcases applyAdmission_cases h sha plan fingerprint with
    ⟨happlicable, record, next, hrun, -⟩ | ⟨hcannot, error, next, hrun, hstopped⟩
  · refine iff_of_true (fun error other hraised => ?_) (.inl happlicable)
    exact nomatch (congrArg Prod.fst (hrun.symm.trans hraised))
  · rw [or_iff_right hcannot]
    constructor
    · intro hunchanged hfirst
      obtain ⟨done, hne, hidle, hretires⟩ := hstopped.lost hfirst
      obtain ⟨first, hmem⟩ := List.exists_mem_of_ne_nil done hne
      obtain ⟨record, hrecord, -⟩ := hidle first hmem
      have hgone := hretires.get?_eq first
      rw [if_pos hmem, (hunchanged error next hrun).1, hrecord] at hgone
      exact nomatch hgone
    · intro hnone raised other hraised
      obtain ⟨-, rfl⟩ := Prod.mk.inj (hrun.symm.trans hraised)
      rw [hstopped.unchanged hnone]
      exact ⟨rfl, rfl, rfl, rfl⟩

/-- **Admission plans.** A plan's victims are the fewest chains in the order of
their last access that cover the deficits, and a plan applied to the index it
was made on evicts them and nothing else.  A call that raises leaves the index
alone exactly when its first victim cannot be evicted. -/
theorem admission_plans (sha : Sha256 Digest) {maxTombstones : ℤ} {maxTokenHistoryTokens : Option ℤ}
    {start : ChainCacheIndex Fingerprint Digest}
    (hstart : ChainCacheIndex.new maxTombstones maxTokenHistoryTokens = .ok start)
    (ops : List (ChainOp Fingerprint Digest)) (hops : ∀ op ∈ ops, op.RecordsCounts) :
    let index := runAll sha start ops
    (∀ chainId seqId input fingerprint demand,
      PlansShortest sha index chainId seqId input fingerprint demand) ∧
    (∀ chainId seqId input fingerprint demand plan applied,
      index.planAdmissionInput sha chainId seqId input fingerprint demand = .ok plan →
      (∀ other, index.seqIdToChainId.get? seqId = some other → other = chainId) →
      AppliesOwnPlan sha index chainId plan applied) ∧
    ∀ plan fingerprint, RaisesUnchanged sha index plan fingerprint ↔
      Applicable index plan ∨ ¬ FirstIdle index plan.victimChainIds := by
  intro index
  have hinv : Inv index := runAll_inv (inv_new hstart) ops
  have hempty : CountsSlots start := by
    intro chainId record hrecord
    rw [records_new hstart] at hrecord
    exact nomatch hrecord
  have hslots : CountsSlots index := runAll_countsSlots hempty sha hops
  refine ⟨plansShortest hslots sha, ?_, raisesUnchanged_iff hinv sha⟩
  intro chainId seqId input fingerprint demand plan applied hplan howner
  exact appliesOwnPlan hinv hslots hplan howner applied

/-- Two chains that have had a turn each. -/
def twoTurns : List (ChainOp Unit (Option (List UInt8))) :=
  [creating "chain_a" 0, creating "chain_b" 1, .finishDigest "chain_a" (some []) 0 [3] 1,
    .finishDigest "chain_b" (some []) 0 [4] 1]

/-- A plan that resumes the first chain and evicts the second. -/
def evictingPlan : ChainAdmissionPlan :=
  { chainId := "chain_a", seqId := 0, status := .resumed, reusedTokens := 0,
    victimChainIds := ["chain_b"] }

/-- The first chain is resumed with room for its turn. -/
def resuming : ChainOp Unit (Option (List UInt8)) :=
  .applyAdmission { evictingPlan with victimChainIds := [] } ()

theorem evictingPlan_planned :
    (runAll transparentDigest { maxTombstones := 4, maxTokenHistoryTokens := none }
      twoTurns).planAdmissionDigest transparentDigest "chain_a" 0 0 (some []) ()
        { rowDeficit := 1 } = .ok evictingPlan := by
  decide +kernel

/-- Two chains, of which the second makes room for the first. -/
theorem second_chain_makes_room :
    let index := runAll transparentDigest { maxTombstones := 4, maxTokenHistoryTokens := none } twoTurns
    AppliesOwnPlan transparentDigest index "chain_a" evictingPlan () ∧
      RaisesUnchanged transparentDigest index evictingPlan () := by
  have hops : ∀ op ∈ twoTurns, op.RecordsCounts := by
    intro op hop
    simp only [twoTurns, List.mem_cons, List.not_mem_nil, or_false] at hop
    rcases hop with rfl | rfl | rfl | rfl
    · trivial
    · trivial
    · exact fun slots hslots => by rw [List.mem_singleton.mp hslots]; decide
    · exact fun slots hslots => by rw [List.mem_singleton.mp hslots]; decide
  have hstart : ChainCacheIndex.new 4 none =
      .ok ({ maxTombstones := 4, maxTokenHistoryTokens := none } :
        ChainCacheIndex Unit (Option (List UInt8))) := rfl
  obtain ⟨-, hown, hraises⟩ := admission_plans transparentDigest hstart twoTurns hops
  have happlies := hown "chain_a" 0 (.digest 0 (some [])) () { rowDeficit := 1 } evictingPlan ()
    evictingPlan_planned fun other hother => by
      have howner : (runAll transparentDigest { maxTombstones := 4, maxTokenHistoryTokens := none }
        twoTurns).seqIdToChainId.get? 0 = some "chain_a" := by decide +kernel
      exact (Option.some.inj (howner.symm.trans hother)).symm
  refine ⟨happlies, fun error next hraised => ?_⟩
  obtain ⟨record, other, hreturned, -⟩ := happlies.returns
  exact nomatch (congrArg Prod.fst (hreturned.symm.trans hraised))

/-- The plan is applied after the chain has been resumed by another request: the
call raises, and the second chain is gone. -/
theorem stale_plan_drops_idle_chain :
    ¬ ∀ (ops later : List (ChainOp Unit (Option (List UInt8)))) (demand : AdmissionDemand)
      (plan : ChainAdmissionPlan),
      (runAll transparentDigest { maxTombstones := 4, maxTokenHistoryTokens := none }
        ops).planAdmissionDigest transparentDigest "chain_a" 0 0 (some []) () demand = .ok plan →
      RaisesUnchanged transparentDigest
        (runAll transparentDigest { maxTombstones := 4, maxTokenHistoryTokens := none } (ops ++ later))
        plan () := by
  intro hall
  have hunchanged := hall twoTurns [resuming] { rowDeficit := 1 } evictingPlan evictingPlan_planned
  have hraised : ∃ error, (ChainCacheIndex.applyAdmission transparentDigest evictingPlan ()
      (runAll transparentDigest { maxTombstones := 4, maxTokenHistoryTokens := none }
        (twoTurns ++ [resuming]))).1 = .error error := ⟨_, rfl⟩
  have hgone : (ChainCacheIndex.applyAdmission transparentDigest evictingPlan ()
      (runAll transparentDigest { maxTombstones := 4, maxTokenHistoryTokens := none }
        (twoTurns ++ [resuming]))).2.records.keys = ["chain_a"] := by decide +kernel
  have hkept : (runAll transparentDigest { maxTombstones := 4, maxTokenHistoryTokens := none }
      (twoTurns ++ [resuming])).records.keys = ["chain_a", "chain_b"] := by decide +kernel
  obtain ⟨error, herror⟩ := hraised
  have hrecords := (hunchanged error _ (Prod.ext herror rfl)).1
  rw [hrecords, hkept] at hgone
  exact absurd hgone (by decide)

end ChainOp
