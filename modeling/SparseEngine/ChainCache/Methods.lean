import SparseEngine.ChainCache.Invariant

/-!
# What each method of the chain index does

A method either leaves the set of live chains alone (`Quiet`), retires chains
(`Retires`), or enters one.  The specifications hold on returns and on raises.
-/

namespace ChainCacheIndex

open Routine

variable {Fingerprint Digest : Type} {index next last : ChainCacheIndex Fingerprint Digest}
  {chainId : String} {record : ChainRecord Fingerprint Digest}

/-! ## Calls that keep the live chains -/

/-- The same chains are live, and no processed boundary moved backwards. -/
structure Quiet (index next : ChainCacheIndex Fingerprint Digest) : Prop where
  inv : Inv next
  mem_keys : ∀ chainId, chainId ∈ next.records.keys ↔ chainId ∈ index.records.keys
  tombstones_eq : next.tombstones = index.tombstones
  retired_eq : next.retired = index.retired
  processed_le : ∀ {chainId record later}, index.records.get? chainId = some record →
    next.records.get? chainId = some later →
    record.processedTokenCount ≤ later.processedTokenCount

namespace Quiet

theorem refl (h : Inv index) : Quiet index index where
  inv := h
  mem_keys _ := Iff.rfl
  tombstones_eq := rfl
  retired_eq := rfl
  processed_le hrecord hlater := by
    rw [hrecord] at hlater
    rw [Option.some.inj hlater]

theorem trans (hfirst : Quiet index next) (hsecond : Quiet next last) : Quiet index last where
  inv := hsecond.inv
  mem_keys chainId := (hsecond.mem_keys chainId).trans (hfirst.mem_keys chainId)
  tombstones_eq := hsecond.tombstones_eq.trans hfirst.tombstones_eq
  retired_eq := hsecond.retired_eq.trans hfirst.retired_eq
  processed_le {chainId record later} hrecord hlater := by
    have hmem := (hfirst.mem_keys chainId).mpr (Dict.mem_keys_of_get? hrecord)
    obtain ⟨between, hbetween⟩ := Dict.mem_keys_iff.mp hmem
    exact (hfirst.processed_le hrecord hbetween).trans (hsecond.processed_le hbetween hlater)

/-- A revision that does not move the boundary backwards is quiet. -/
theorem revise (hrecord : index.records.get? chainId = some record)
    {revised : ChainRecord Fingerprint Digest} (hinv : Inv next)
    (hrecords : next.records = index.records.set chainId revised)
    (hprocessed : record.processedTokenCount ≤ revised.processedTokenCount)
    (hbooks : next.books = index.books) : Quiet index next where
  inv := hinv
  mem_keys other := by rw [hrecords, Dict.keys_set_of_get? _ hrecord]
  tombstones_eq := congrArg (fun books => books.2.1) hbooks
  retired_eq := congrArg (fun books => books.2.2.1) hbooks
  processed_le {other before later} hbefore hlater := by
    rw [hrecords, Dict.get?_set] at hlater
    split at hlater
    · next heq =>
        rw [heq, hrecord] at hbefore
        rw [← Option.some.inj hbefore, ← Option.some.inj hlater]
        exact hprocessed
    · rw [hbefore] at hlater
      rw [Option.some.inj hlater]

end Quiet

theorem lookup_apply (chainId : String) (index : ChainCacheIndex Fingerprint Digest) :
    lookup chainId index = (index.lookupRecord chainId, index) := rfl

theorem lookupRecord_eq_ok : index.lookupRecord chainId = .ok record ↔ index.records.get? chainId = some record := by
  unfold lookupRecord
  cases index.records.get? chainId with
  | none =>
      dsimp only
      split <;> simp
  | some found => simp

variable {post : ChainRecord Fingerprint Digest → ChainCacheIndex Fingerprint Digest → Prop}
  {bad : ChainCacheIndex Fingerprint Digest → Prop}

/-- A looked-up record is the record of the chain. -/
theorem wpe_lookup (hpost : ∀ record, index.records.get? chainId = some record → post record index)
    (hbad : bad index) : wpe (lookup chainId) post bad index := by
  rw [wpe_def, lookup_apply]
  rcases hfound : index.lookupRecord chainId with error | record
  · exact hbad
  · exact hpost record (lookupRecord_eq_ok.mp hfound)

theorem modifyRecord_apply (hrecord : index.records.get? chainId = some record)
    (assign : ChainRecord Fingerprint Digest → ChainRecord Fingerprint Digest) :
    modifyRecord chainId assign index =
      (.ok (), { index with records := index.records.set chainId (assign record) }) := by
  simp only [modifyRecord, write_apply, hrecord]

/-- A residency assignment is quiet. -/
theorem assignResidency_quiet (h : Inv index) (chainId : String) (residentRows : ℤ)
    (reservedSlotsByLayer : List ℤ) (reservedRows : ℤ) :
    Quiet index ((assignResidency chainId residentRows reservedSlotsByLayer reservedRows).after index) := by
  unfold Routine.after assignResidency
  cases hrecord : index.records.get? chainId with
  | none =>
      simp only [modifyRecord, write_apply, hrecord]
      exact Quiet.refl h
  | some record =>
      rw [modifyRecord_apply hrecord]
      refine Quiet.revise hrecord
        (h.revise hrecord rfl rfl rfl ?_ (.inr ⟨rfl, rfl⟩) rfl h.history_le rfl) rfl le_rfl rfl
      intro other
      split
      · next heq =>
          rw [heq]
          exact h.mem_active.trans (by rw [hrecord]; simp)
      · exact Iff.rfl

/-! ### Finishing a turn -/

/-- The record of a finished turn. -/
def finishedRecord (record : ChainRecord Fingerprint Digest) (processedTokenDigest : Digest)
    (processedTokenCount : ℤ) (physicalSlotsByLayer : List ℤ) (residentRows now : ℤ) :
    ChainRecord Fingerprint Digest :=
  { record with
    state := .idle
    processedTokenDigest := processedTokenDigest
    processedTokenCount := processedTokenCount
    physicalSlotsByLayer := physicalSlotsByLayer
    residentRows := residentRows
    reservedSlotsByLayer := []
    reservedRows := 0
    lastAccess := now }

/-- The index after `finish_digest` returned. -/
def afterFinish (index : ChainCacheIndex Fingerprint Digest) (chainId : String)
    (finished : ChainRecord Fingerprint Digest) : ChainCacheIndex Fingerprint Digest :=
  { index with
    routingSnapshotCache := none
    records := index.records.set chainId finished
    activeRecords := index.activeRecords.erase chainId
    clock := index.clock + 1 }

/-- `finish_digest` raises and changes nothing, or finishes the turn. -/
theorem finishDigest_wpe (sha : Sha256 Digest) (processedTokenDigest : Digest)
    (processedTokenCount : ℤ) (physicalSlotsByLayer : List ℤ) (residentRows : ℤ) (hbad : bad index)
    (hpost : ∀ record, index.records.get? chainId = some record → record.state = .active →
      record.processedTokenCount ≤ processedTokenCount → sha.length processedTokenDigest = 32 →
      post (finishedRecord record processedTokenDigest processedTokenCount physicalSlotsByLayer
          residentRows (index.clock + 1))
        (index.afterFinish chainId (finishedRecord record processedTokenDigest processedTokenCount
          physicalSlotsByLayer residentRows (index.clock + 1)))) :
    wpe (finishDigest sha chainId processedTokenDigest processedTokenCount physicalSlotsByLayer
      residentRows) post bad index := by
  unfold finishDigest
  rw [wpe_bind]
  refine wpe_lookup (fun record hrecord => ?_) hbad
  refine wpe_guarded hbad fun hactive => ?_
  refine wpe_guarded hbad fun hprocessed => ?_
  refine wpe_guarded hbad fun hlength => ?_
  have hrest := hpost record hrecord (not_not.mp hactive) (not_lt.mp hprocessed) (not_not.mp hlength)
  rw [wpe_def]
  simp only [bind_apply, modifyRecord, setRecordState, tick, write_apply, read_apply, pure_apply,
    hrecord, Dict.get?_set_self, Dict.set_set_self, lookup_apply, lookupRecord]
  exact hrest

/-- Finishing a turn is quiet. -/
theorem Quiet.afterFinish (h : Inv index) (hrecord : index.records.get? chainId = some record)
    {processedTokenCount : ℤ} (hprocessed : record.processedTokenCount ≤ processedTokenCount)
    (processedTokenDigest : Digest) (physicalSlotsByLayer : List ℤ) (residentRows now : ℤ) :
    Quiet index (index.afterFinish chainId (finishedRecord record processedTokenDigest
      processedTokenCount physicalSlotsByLayer residentRows now)) := by
  refine Quiet.revise hrecord (h.revise hrecord rfl rfl rfl ?_ (.inl rfl) rfl h.history_le rfl) rfl hprocessed rfl
  intro other
  show other ∈ (index.activeRecords.erase chainId).keys ↔ _
  rw [Dict.mem_keys_erase]
  split
  · next heq => simp [heq, finishedRecord]
  · next hne => simp [hne]

theorem checkTokenHistoryCapacity_wpe (tokenCount : ℕ)
    {post : Unit → ChainCacheIndex Fingerprint Digest → Prop} (hbad : bad index)
    (hpost : (∀ limit ∈ index.maxTokenHistoryTokens,
      index.tokenHistoryTokens - record.tokenIds.length + tokenCount ≤ limit) → post () index) :
    wpe (checkTokenHistoryCapacity record tokenCount) post bad index := by
  unfold checkTokenHistoryCapacity
  rw [wpe_get, wpe_raiseIf]
  refine ⟨fun _ => hbad, fun hfits => hpost fun limit hlimit => ?_⟩
  by_contra hover
  exact hfits ⟨limit, hlimit, not_le.mp hover⟩

/-- The index after a token history was stored. -/
def afterStore (index : ChainCacheIndex Fingerprint Digest)
    (record : ChainRecord Fingerprint Digest) (logicalTokens : List UInt32) :
    ChainCacheIndex Fingerprint Digest :=
  { index with
    tokenHistoryTokens :=
      index.tokenHistoryTokens - record.tokenIds.length + logicalTokens.length
    records := index.records.set record.chainId { record with tokenIds := logicalTokens } }

/-- `_store_token_history` raises and changes nothing, or replaces the
history. -/
theorem storeTokenHistory_wpe (logicalTokens : List UInt32)
    (hrecord : index.records.get? record.chainId = some record)
    {post : Unit → ChainCacheIndex Fingerprint Digest → Prop} (hbad : bad index)
    (hpost : (∀ limit ∈ index.maxTokenHistoryTokens,
        index.tokenHistoryTokens - record.tokenIds.length + logicalTokens.length ≤ limit) →
      post () (index.afterStore record logicalTokens)) :
    wpe (storeTokenHistory record logicalTokens) post bad index := by
  unfold storeTokenHistory
  rw [wpe_bind]
  refine checkTokenHistoryCapacity_wpe _ hbad fun hfits => ?_
  have hrest := hpost hfits
  rw [wpe_def]
  simp only [bind_apply, write_apply, modifyRecord, hrecord]
  exact hrest

/-- `_prepare_token_history` only reads. -/
theorem prepareTokenHistory_wpe (tokenIds : List ℤ) (processedTokenCount : ℤ)
    {post : List UInt32 → ChainCacheIndex Fingerprint Digest → Prop} (hbad : bad index)
    (hpost : ∀ logicalTokens, packTokenIds tokenIds = some logicalTokens →
      0 ≤ processedTokenCount → processedTokenCount ≤ logicalTokens.length →
      (∀ limit ∈ index.maxTokenHistoryTokens,
        index.tokenHistoryTokens - record.tokenIds.length + logicalTokens.length ≤ limit) →
      post logicalTokens index) :
    wpe (prepareTokenHistory record tokenIds processedTokenCount) post bad index := by
  unfold prepareTokenHistory
  refine wpe_guarded hbad fun hnonneg => ?_
  rw [wpe_bind]
  refine wpe_ofExcept (fun logicalTokens hpack => ?_) hbad
  have hpacked : packTokenIds tokenIds = some logicalTokens := by
    cases hcase : packTokenIds tokenIds with
    | none => simp [hcase] at hpack
    | some packed =>
        rw [hcase] at hpack
        exact congrArg some (Except.ok.inj hpack)
  refine wpe_guarded hbad fun hlength => ?_
  rw [wpe_bind]
  refine checkTokenHistoryCapacity_wpe _ hbad fun hfits => ?_
  rw [wpe_pure]
  exact hpost logicalTokens hpacked (not_lt.mp hnonneg) (not_lt.mp hlength) hfits

/-- Storing a history that fits is quiet. -/
theorem Quiet.afterStore (h : Inv index) {logicalTokens : List UInt32}
    (hrecord : index.records.get? record.chainId = some record)
    (hfits : ∀ limit ∈ index.maxTokenHistoryTokens,
      index.tokenHistoryTokens - record.tokenIds.length + logicalTokens.length ≤ limit) :
    Quiet index (index.afterStore record logicalTokens) := by
  have hinv : Inv (index.afterStore record logicalTokens) := by
    refine h.revise hrecord rfl rfl rfl ?_ (.inr ⟨rfl, rfl⟩) ?_ hfits rfl
    · intro other
      split
      · next heq =>
          subst heq
          exact h.mem_active.trans (by rw [hrecord]; simp)
      · exact Iff.rfl
    · show index.tokenHistoryTokens - record.tokenIds.length + logicalTokens.length +
        record.tokenIds.length = index.tokenHistoryTokens + logicalTokens.length
      omega
  exact Quiet.revise hrecord hinv rfl le_rfl rfl

/-- `_store_token_history` is quiet. -/
theorem storeTokenHistory_quiet (h : Inv index) (logicalTokens : List UInt32)
    (hrecord : index.records.get? record.chainId = some record) :
    wpe (storeTokenHistory record logicalTokens) (fun _ => Quiet index) (Quiet index) index :=
  storeTokenHistory_wpe logicalTokens hrecord (Quiet.refl h) fun hfits =>
    Quiet.afterStore h hrecord hfits

/-- A lookup at the end of a method changes nothing. -/
theorem lookup_quiet (hquiet : Quiet index next) :
    wpe (lookup chainId) (fun _ => Quiet index) (Quiet index) next :=
  wpe_lookup (fun _ _ => hquiet) hquiet

/-- `finish_digest` is quiet. -/
theorem finishDigest_quiet (h : Inv index) (sha : Sha256 Digest) (processedTokenDigest : Digest)
    (processedTokenCount : ℤ) (physicalSlotsByLayer : List ℤ) (residentRows : ℤ) :
    wpe (finishDigest sha chainId processedTokenDigest processedTokenCount physicalSlotsByLayer
      residentRows) (fun _ => Quiet index) (Quiet index) index :=
  finishDigest_wpe sha processedTokenDigest processedTokenCount physicalSlotsByLayer residentRows
    (Quiet.refl h) fun _ hrecord _ hprocessed _ =>
      Quiet.afterFinish h hrecord hprocessed _ _ _ _

/-- `finish` is quiet. -/
theorem finish_quiet (h : Inv index) (sha : Sha256 Digest) (tokenIds : List ℤ)
    (processedTokenCount : ℤ) (physicalSlotsByLayer : List ℤ) (residentRows : ℤ) :
    wpe (finish sha chainId tokenIds processedTokenCount physicalSlotsByLayer residentRows)
      (fun _ => Quiet index) (Quiet index) index := by
  have hsame := Quiet.refl h
  unfold finish
  rw [wpe_bind]
  refine wpe_lookup (fun existing hexisting => ?_) hsame
  rw [wpe_bind]
  refine prepareTokenHistory_wpe tokenIds processedTokenCount hsame fun logicalTokens _ _ _ _ => ?_
  rw [wpe_bind]
  refine wpe_ofExcept (fun digest _ => ?_) hsame
  rw [wpe_bind]
  refine finishDigest_wpe sha digest processedTokenCount physicalSlotsByLayer residentRows hsame
    fun record hrecord _ hprocessed _ => ?_
  have hfinished := Quiet.afterFinish h hrecord hprocessed digest physicalSlotsByLayer residentRows (index.clock + 1)
  rw [wpe_bind]
  -- the history is stored into the record that `finish_digest` returned
  have hstored : (index.afterFinish chainId (finishedRecord record digest processedTokenCount
      physicalSlotsByLayer residentRows (index.clock + 1))).records.get?
        (finishedRecord record digest processedTokenCount physicalSlotsByLayer residentRows
          (index.clock + 1)).chainId = some (finishedRecord record digest processedTokenCount
            physicalSlotsByLayer residentRows (index.clock + 1)) := by
    show (index.records.set chainId _).get? record.chainId = _
    rw [h.chainId_eq hrecord, Dict.get?_set_self]
  refine storeTokenHistory_wpe logicalTokens hstored hfinished fun hfits => ?_
  exact lookup_quiet (hfinished.trans (Quiet.afterStore hfinished.inv hstored hfits))

/-! ### Resuming a chain -/

/-- The record of a resumed chain. -/
def resumedRecord (record : ChainRecord Fingerprint Digest) (plan : ChainAdmissionPlan)
    (now : ℤ) : ChainRecord Fingerprint Digest :=
  { record with
    state := .active
    lastInputTokenCount := plan.inputTokenCount
    lastAccess := now
    reservedSlotsByLayer := plan.reservedSlotsByLayer
    reservedRows := plan.reservedRows }

/-- The index after a chain became ACTIVE. -/
def afterActivate (index : ChainCacheIndex Fingerprint Digest) (chainId : String)
    (activated : ChainRecord Fingerprint Digest) : ChainCacheIndex Fingerprint Digest :=
  { index with
    routingSnapshotCache := none
    records := index.records.set chainId activated
    activeRecords := index.activeRecords.set chainId ()
    clock := index.clock + 1 }

/-- The resuming branch of `apply_admission` raises and changes nothing, or
resumes the chain. -/
theorem applyResumed_wpe (plan : ChainAdmissionPlan) (hbad : bad index)
    (hpost : ∀ record, index.records.get? plan.chainId = some record → record.state = .idle →
      post (resumedRecord record plan (index.clock + 1))
        (index.afterActivate plan.chainId (resumedRecord record plan (index.clock + 1)))) :
    wpe (applyResumed plan) post bad index := by
  unfold applyResumed
  rw [wpe_bind]
  refine wpe_lookup (fun record hrecord => ?_) hbad
  refine wpe_guarded hbad fun hidle => ?_
  have hrest := hpost record hrecord (not_not.mp hidle)
  rw [wpe_def]
  simp only [bind_apply, modifyRecord, setRecordState, tick, write_apply, read_apply, pure_apply,
    hrecord, Dict.get?_set_self, Dict.set_set_self, lookup_apply, lookupRecord]
  exact hrest

/-- Resuming a chain is quiet. -/
theorem Quiet.afterActivate (h : Inv index) (hrecord : index.records.get? chainId = some record)
    (plan : ChainAdmissionPlan) (now : ℤ) :
    Quiet index (index.afterActivate chainId (resumedRecord record plan now)) := by
  refine Quiet.revise hrecord (h.revise hrecord rfl rfl rfl ?_ (.inl rfl) rfl h.history_le rfl) rfl le_rfl rfl
  intro other
  show other ∈ (index.activeRecords.set chainId ()).keys ↔ _
  rw [Dict.mem_keys_set]
  split
  · next heq => simp [heq, resumedRecord]
  · next hne => simp [hne]

/-! ## Calls that enter or retire chains -/

/-- The index after a chain was created. -/
def afterCreate (index : ChainCacheIndex Fingerprint Digest) (plan : ChainAdmissionPlan)
    (created : ChainRecord Fingerprint Digest) : ChainCacheIndex Fingerprint Digest :=
  { index.afterActivate plan.chainId created with
    seqIdToChainId := index.seqIdToChainId.set plan.seqId plan.chainId }

/-- The record a creating admission leaves. -/
def createdRecord (sha : Sha256 Digest) (plan : ChainAdmissionPlan) (fingerprint : Fingerprint)
    (now : ℤ) : ChainRecord Fingerprint Digest :=
  { newRecord sha plan fingerprint now with
    reservedSlotsByLayer := plan.reservedSlotsByLayer
    reservedRows := plan.reservedRows }

/-- The creating branch of `apply_admission` raises and changes nothing, or
enters the chain. -/
theorem applyCreated_wpe (sha : Sha256 Digest) (plan : ChainAdmissionPlan)
    (fingerprint : Fingerprint) (hbad : bad index)
    (hpost : plan.chainId ∉ index.records.keys → plan.seqId ∉ index.seqIdToChainId.keys →
      post (createdRecord sha plan fingerprint (index.clock + 1))
        (index.afterCreate plan (createdRecord sha plan fingerprint (index.clock + 1)))) :
    wpe (applyCreated sha plan fingerprint) post bad index := by
  unfold applyCreated
  rw [wpe_get]
  refine wpe_guarded hbad fun hnew => ?_
  refine wpe_guarded hbad fun howner => ?_
  have hrest := hpost hnew howner
  rw [wpe_def]
  simp only [bind_apply, modifyRecord, setRecordState, tick, write_apply, read_apply, pure_apply,
    Dict.get?_set_self, Dict.set_set_self, lookup_apply, lookupRecord]
  exact hrest

/-- Creating a chain keeps the invariant. -/
theorem Inv.afterCreate (h : Inv index) (sha : Sha256 Digest) {plan : ChainAdmissionPlan}
    (fingerprint : Fingerprint) (now : ℤ) (hnew : plan.chainId ∉ index.records.keys)
    (howner : plan.seqId ∉ index.seqIdToChainId.keys) :
    Inv (index.afterCreate plan (createdRecord sha plan fingerprint now)) :=
  h.enter rfl hnew howner rfl rfl rfl rfl rfl rfl rfl

/-- Chains of a list became tombstones; every other chain is as it was. -/
structure Retires (index next : ChainCacheIndex Fingerprint Digest) (chainIds : List String) :
    Prop where
  inv : Inv next
  get?_eq : ∀ other, next.records.get? other =
    if other ∈ chainIds then none else index.records.get? other
  mem_tombstones : ∀ other ∈ next.tombstones.keys,
    other ∈ index.tombstones.keys ∨ other ∈ chainIds
  retired_eq : next.retired = index.retired ++ chainIds

theorem Retires.nil (h : Inv index) : Retires index index [] where
  inv := h
  get?_eq _ := by simp
  mem_tombstones _ hmem := .inl hmem
  retired_eq := (List.append_nil _).symm

theorem Retires.cons {rest : List String} (hfirst : Retires index next [chainId])
    (hrest : Retires next last rest) : Retires index last (chainId :: rest) where
  inv := hrest.inv
  get?_eq other := by
    rw [hrest.get?_eq, hfirst.get?_eq]
    by_cases hother : other = chainId
    · simp [hother]
    · simp [hother]
  mem_tombstones other hmem := by
    rcases hrest.mem_tombstones other hmem with hnext | htail
    · rcases hfirst.mem_tombstones other hnext with hold | hhead
      · exact .inl hold
      · exact .inr (by rw [List.mem_singleton.mp hhead]; simp)
    · exact .inr (List.mem_cons_of_mem _ htail)
  retired_eq := by
    rw [hrest.retired_eq, hfirst.retired_eq, List.append_assoc]
    rfl

theorem Retires.afterRetire (h : Inv index) (hrecord : index.records.get? record.chainId = some record) :
    Retires index (index.afterRetire record) [record.chainId] where
  inv := h.afterRetire hrecord
  get?_eq other := by
    show (index.records.erase record.chainId).get? other = _
    rw [Dict.get?_erase]
    simp
  mem_tombstones other hmem := by
    have hdistinct : (index.retired ++ [record.chainId]).dedup =
        index.retired.dedup.filter (fun q => q ≠ record.chainId) ++ [record.chainId] :=
      dedup_concat _ _
    obtain ⟨count, hcount⟩ : ∃ count, index.maxTombstones.toNat = count + 1 :=
      ⟨index.maxTombstones.toNat - 1, by have := h.maxTombstones_pos; omega⟩
    rw [keys_tombstones_afterRetire h, hdistinct, hcount, List.rtake_concat_succ,
      rtake_filter_ne (List.nodup_dedup _), List.mem_append] at hmem
    rcases hmem with hold | hnew
    · left
      rw [h.tombstones_eq, hcount]
      exact List.mem_of_mem_filter (List.mem_of_mem_drop hold)
    · exact .inr hnew
  retired_eq := rfl

/-- `evict` raises and changes nothing, or retires an IDLE chain. -/
theorem evict_wpe (h : Inv index) (hbad : bad index)
    (hpost : ∀ record, index.records.get? chainId = some record → record.state = .idle → record.chainId = chainId →
      post { record with tokenIds := [] } (index.afterRetire record)) :
    wpe (evict chainId) post bad index := by
  unfold evict
  rw [wpe_bind]
  refine wpe_lookup (fun record hrecord => ?_) hbad
  refine wpe_guarded hbad fun hidle => ?_
  have hid := h.chainId_eq hrecord
  have hstate : record.state = .idle := by
    cases hcase : record.state with
    | active => exact absurd hcase hidle
    | idle => rfl
  have hrest := hpost record hrecord hstate hid
  subst hid
  rw [wpe_def]
  simp only [bind_apply, retire_apply hrecord, pure_apply]
  exact hrest

/-- `invalidate` raises and changes nothing, or retires the chain. -/
theorem invalidate_wpe (h : Inv index) (hbad : bad index)
    (hpost : ∀ record, index.records.get? chainId = some record → record.chainId = chainId →
      post { record with tokenIds := [] } (index.afterRetire record)) :
    wpe (invalidate chainId) post bad index := by
  unfold invalidate
  rw [wpe_bind]
  refine wpe_lookup (fun record hrecord => ?_) hbad
  have hid := h.chainId_eq hrecord
  have hrest := hpost record hrecord hid
  subst hid
  rw [wpe_def]
  simp only [bind_apply, retire_apply hrecord, pure_apply]
  exact hrest

/-- Evicting a list of chains stops at the first one that cannot be evicted. -/
theorem evictAll_wpe (h : Inv index) (chainIds : List String) :
    wpe (evictAll chainIds) (fun _ next => Retires index next chainIds)
      (fun next => ∃ done, done <+: chainIds ∧ Retires index next done) index := by
  induction chainIds generalizing index with
  | nil => exact Retires.nil h
  | cons head rest ih =>
      unfold evictAll
      rw [wpe_bind]
      refine evict_wpe h ⟨[], List.nil_prefix, Retires.nil h⟩ fun record hrecord _ hid => ?_
      subst hid
      have hhead := Retires.afterRetire h hrecord
      refine wpe_imp (ih hhead.inv) (fun _ last htail => hhead.cons htail) ?_
      rintro last ⟨done, hprefix, htail⟩
      exact ⟨record.chainId :: done, List.cons_prefix_cons.mpr ⟨rfl, hprefix⟩, hhead.cons htail⟩

end ChainCacheIndex

/-! ## The coordinator's token histories -/

namespace ChainCacheCoordinator

open Routine ChainCacheIndex

variable {Fingerprint Digest : Type} {index : ChainCacheIndex Fingerprint Digest}

/-- `prepare_processed_tokens` only reads. -/
theorem prepareProcessedTokens_wpe (sha : Sha256 Digest) (chainId : String) (seqId : ℕ)
    (tokenIds : List ℤ) (processedTokenCount : ℤ)
    {post : PreparedChainTokens Digest → ChainCacheIndex Fingerprint Digest → Prop}
    {bad : ChainCacheIndex Fingerprint Digest → Prop} (hbad : bad index)
    (hpost : ∀ record logicalTokens digest, index.records.get? chainId = some record →
      record.seqId = seqId → packTokenIds tokenIds = some logicalTokens →
      0 ≤ processedTokenCount → processedTokenCount ≤ logicalTokens.length →
      (∀ limit ∈ index.maxTokenHistoryTokens,
        index.tokenHistoryTokens - record.tokenIds.length + logicalTokens.length ≤ limit) →
      stableTokenDigest sha (unpackTokenIds logicalTokens) (some processedTokenCount) = .ok digest →
      post
        { chainId := chainId
          seqId := seqId
          processedTokenCount := processedTokenCount
          processedTokenDigest := digest
          tokenBytes := Packing.pack 4 (logicalTokens.map UInt32.toNat) } index) :
    wpe (prepareProcessedTokens sha chainId seqId tokenIds processedTokenCount) post bad index := by
  unfold prepareProcessedTokens
  rw [wpe_bind]
  refine wpe_lookup (fun record hrecord => ?_) hbad
  refine wpe_guarded hbad fun howner => ?_
  rw [wpe_bind]
  refine prepareTokenHistory_wpe tokenIds processedTokenCount hbad fun logicalTokens hpack hnonneg hlength hfits => ?_
  rw [wpe_bind]
  refine wpe_ofExcept (fun digest hdigest => ?_) hbad
  rw [wpe_pure]
  exact hpost record logicalTokens digest hrecord (not_not.mp howner) hpack hnonneg hlength hfits hdigest

/-- `remember_prepared_tokens` is quiet. -/
theorem rememberPreparedTokens_quiet [DecidableEq Digest] (h : Inv index) (prepared : PreparedChainTokens Digest) :
    wpe (rememberPreparedTokens prepared) (fun _ => Quiet index) (Quiet index) index := by
  have hsame := Quiet.refl h
  unfold rememberPreparedTokens
  rw [wpe_bind]
  refine wpe_lookup (fun record hrecord => ?_) hsame
  refine wpe_guarded hsame fun _ => ?_
  refine wpe_guarded hsame fun _ => ?_
  rw [wpe_bind]
  refine wpe_ofExcept (fun logicalTokens _ => ?_) hsame
  rw [wpe_bind]
  rw [← h.chainId_eq hrecord] at hrecord
  exact wpe_mono (storeTokenHistory_quiet h logicalTokens hrecord) fun _ _ hquiet =>
    lookup_quiet hquiet

/-- `remember_processed_tokens` is quiet. -/
theorem rememberProcessedTokens_quiet [DecidableEq Digest] (h : Inv index) (sha : Sha256 Digest)
    (chainId : String) (seqId : ℕ) (tokenIds : List ℤ) (processedTokenCount : ℤ) :
    wpe (rememberProcessedTokens sha chainId seqId tokenIds processedTokenCount)
      (fun _ => Quiet index) (Quiet index) index := by
  unfold rememberProcessedTokens
  rw [wpe_bind]
  exact prepareProcessedTokens_wpe sha chainId seqId tokenIds processedTokenCount (Quiet.refl h)
    fun _ _ _ _ _ _ _ _ _ _ => rememberPreparedTokens_quiet h _

end ChainCacheCoordinator
