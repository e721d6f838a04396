import SparseEngine.ChainCache.Resumption

/-!
# The writer of a chain

An ACTIVE chain is being written by one sequence, the one its record names.
This file follows who writes what through the calls on the index and the
runtime: an applied plan makes its sequence the writer of its chain, the end
of a turn and an invalidation take it away, and whatever happens to IDLE
chains changes no writer.  It also shows that a request on an ACTIVE chain is
refused as busy, never for its prompt, so that no chain is recreated while it
is written.
-/

open Routine

namespace ChainCacheIndex

variable {Fingerprint Digest : Type} {index next : ChainCacheIndex Fingerprint Digest}
  {writers : ℕ → Option String} {owned : String → ℕ → Prop} {chainId : String}
  {record : ChainRecord Fingerprint Digest}

/-- Exactly the ACTIVE chains have a writer, and every chain has an owner it may
have. -/
structure WrittenBy (writers : ℕ → Option String) (owned : String → ℕ → Prop)
    (index : ChainCacheIndex Fingerprint Digest) : Prop where
  inv : Inv index
  writer : ∀ {seqId chainId}, writers seqId = some chainId ↔
    ∃ record, index.records.get? chainId = some record ∧ record.state = .active ∧
      record.seqId = seqId
  owned : ∀ {chainId record}, index.records.get? chainId = some record →
    owned chainId record.seqId

/-- The writers without the one of a chain. -/
def unwrite (writers : ℕ → Option String) (chainId : String) (seqId : ℕ) : Option String :=
  if writers seqId = some chainId then none else writers seqId

namespace WrittenBy

section

variable (h : WrittenBy writers owned index)

include h

theorem imp {owned' : String → ℕ → Prop}
    (himp : ∀ {chainId record}, index.records.get? chainId = some record →
      owned chainId record.seqId → owned' chainId record.seqId) : WrittenBy writers owned' index :=
  { h with owned := fun hrecord => himp hrecord (h.owned hrecord) }

theorem congr {writers' : ℕ → Option String} (heq : ∀ seqId, writers' seqId = writers seqId) :
    WrittenBy writers' owned index :=
  { h with writer := by intro seqId chainId; rw [heq]; exact h.writer }

section

variable (hrecord : index.records.get? chainId = some record)

include hrecord

/-- A sequence that owns an IDLE chain writes no chain. -/
theorem not_writer (hidle : record.state = .idle) : writers record.seqId = none := by
  rw [Option.eq_none_iff_forall_ne_some]
  intro other hwriter
  obtain ⟨found, hfound, hactive, hseq⟩ := h.writer.mp hwriter
  have howner := h.inv.owner.mpr ⟨found, hfound, hseq⟩
  obtain rfl := Option.some.inj (howner.symm.trans (h.inv.owner.mpr ⟨record, hrecord, rfl⟩))
  obtain rfl := Option.some.inj (hfound.symm.trans hrecord)
  exact absurd (hactive.symm.trans hidle) (by decide)

/-- The writer of a chain is the owner its record names. -/
theorem unwrite_eq (seqId : ℕ) :
    unwrite writers chainId seqId = if seqId = record.seqId then none else writers seqId := by
  unfold unwrite
  by_cases hwriter : writers seqId = some chainId
  · obtain ⟨found, hfound, -, hseq⟩ := h.writer.mp hwriter
    obtain rfl := Option.some.inj (hfound.symm.trans hrecord)
    rw [if_pos hwriter, if_pos hseq.symm]
  · rw [if_neg hwriter]
    split
    · next heq =>
        rw [Option.eq_none_iff_forall_ne_some]
        intro other hother
        obtain ⟨found, hfound, -, hseq⟩ := h.writer.mp hother
        have howner := h.inv.owner.mpr ⟨found, hfound, hseq⟩
        rw [heq, h.inv.owner.mpr ⟨record, hrecord, rfl⟩] at howner
        exact hwriter (hother.trans howner.symm)
    · rfl

/-- An IDLE chain has no writer to lose. -/
theorem unwrite_of_idle (hidle : record.state = .idle) (seqId : ℕ) :
    unwrite writers chainId seqId = writers seqId := by
  rw [h.unwrite_eq hrecord]
  split
  · next heq => rw [heq, h.not_writer hrecord hidle]
  · rfl

end

/-- Retiring a chain takes its writer away. -/
theorem afterRetire (hrecord : index.records.get? record.chainId = some record) :
    WrittenBy (unwrite writers record.chainId) owned (index.afterRetire record) := by
  have hretires := Retires.afterRetire h.inv hrecord
  have hget : ∀ other, (index.afterRetire record).records.get? other =
      if other = record.chainId then none else index.records.get? other := by
    intro other
    rw [hretires.get?_eq]
    simp only [List.mem_singleton]
  refine ⟨hretires.inv, fun {seqId other} => ?_, fun {other found} hfound => ?_⟩
  · unfold unwrite
    rw [hget]
    by_cases hother : other = record.chainId
    · rw [if_pos hother, hother]
      by_cases hwriter : writers seqId = some record.chainId
      · simp [hwriter]
      · rw [if_neg hwriter]
        simp [hwriter]
    · rw [if_neg hother, ← h.writer]
      by_cases hwriter : writers seqId = some record.chainId
      · rw [if_pos hwriter, hwriter]
        simp [Ne.symm hother]
      · rw [if_neg hwriter]
  · rw [hget] at hfound
    split at hfound
    · cases hfound
    · exact h.owned hfound

end

theorem maintains_evict (chainId : String) :
    Maintains (WrittenBy writers owned) (evict chainId : Method Fingerprint Digest _) := by
  intro index h
  refine evict_wpe h.inv h fun record hrecord hidle hid => ?_
  rw [← hid] at hrecord
  exact (h.afterRetire hrecord).congr fun seqId => (h.unwrite_of_idle hrecord hidle seqId).symm

/-- An invalidated chain has no writer. -/
theorem invalidate_wpe (h : WrittenBy writers owned index) (chainId : String) :
    wpe (invalidate chainId) (fun _ => WrittenBy (unwrite writers chainId) owned) (fun _ => True)
      index := by
  refine ChainCacheIndex.invalidate_wpe h.inv trivial fun record hrecord hid => ?_
  subst hid
  exact h.afterRetire hrecord

variable {revised : ChainRecord Fingerprint Digest}

section

variable (h : WrittenBy writers owned index) (hrecord : index.records.get? chainId = some record)
  (hinv : Inv next) (hrecords : next.records = index.records.set chainId revised)
  (hseq : revised.seqId = record.seqId)

include h hrecord hinv hrecords hseq

/-- A revised record keeps its owner; its chain has a writer exactly if it is
ACTIVE. -/
theorem revise :
    WrittenBy (fun seqId => if seqId = record.seqId then
        (if revised.state = .active then some chainId else none) else writers seqId) owned next := by
  refine ⟨hinv, fun {seqId other} => ?_, fun {other found} hfound => ?_⟩
  · rw [hrecords, Dict.get?_set]
    by_cases hother : other = chainId
    · rw [if_pos hother, hother]
      by_cases heq : seqId = record.seqId
      · simp [heq, hseq]
      · rw [if_neg heq]
        have hnot : writers seqId ≠ some chainId := by
          intro hwriter
          obtain ⟨found, hfound, -, hfoundSeq⟩ := h.writer.mp hwriter
          obtain rfl := Option.some.inj (hfound.symm.trans hrecord)
          exact heq hfoundSeq.symm
        simp [hnot, hseq, Ne.symm heq]
    · rw [if_neg hother, ← h.writer]
      by_cases heq : seqId = record.seqId
      · have hnot : writers seqId ≠ some other := by
          intro hwriter
          obtain ⟨found, hfound, -, hfoundSeq⟩ := h.writer.mp hwriter
          have howner := h.inv.owner.mpr ⟨found, hfound, hfoundSeq⟩
          rw [heq, h.inv.owner.mpr ⟨record, hrecord, rfl⟩] at howner
          exact hother (Option.some.inj howner).symm
        rw [if_pos heq]
        split <;> simp [hnot, Ne.symm hother]
      · rw [if_neg heq]
  · rw [hrecords, Dict.get?_set] at hfound
    split at hfound
    · next heq =>
        obtain rfl := Option.some.inj hfound
        rw [hseq, heq]
        exact h.owned hrecord
    · exact h.owned hfound

/-- A revision that leaves the state alone. -/
theorem revise_same (hstate : revised.state = record.state) : WrittenBy writers owned next := by
  refine (h.revise hrecord hinv hrecords hseq).congr fun seqId => ?_
  split
  · next heq =>
      rw [heq, hstate]
      split
      · next hactive => exact h.writer.mpr ⟨record, hrecord, hactive, rfl⟩
      · next hidle =>
          apply h.not_writer hrecord
          cases hcase : record.state with
          | active => exact absurd hcase hidle
          | idle => rfl
  · rfl

end

theorem maintains_assignResidency (chainId : String) (residentRows : ℤ)
    (reservedSlotsByLayer : List ℤ) (reservedRows : ℤ) :
    Maintains (WrittenBy writers owned)
      (assignResidency chainId residentRows reservedSlotsByLayer reservedRows :
        Method Fingerprint Digest _) := by
  intro index h
  have hinv := (assignResidency_quiet h.inv chainId residentRows reservedSlotsByLayer reservedRows).inv
  unfold Routine.after assignResidency at hinv
  unfold assignResidency
  rw [wpe_def]
  cases hrecord : index.records.get? chainId with
  | none =>
      simp only [modifyRecord, write_apply, hrecord]
      exact h
  | some record =>
      rw [modifyRecord_apply hrecord] at hinv ⊢
      exact h.revise_same hrecord hinv rfl rfl rfl

theorem steady (writers : ℕ → Option String) (owned : String → ℕ → Prop) :
    Steady (WrittenBy writers owned : ChainCacheIndex Fingerprint Digest → Prop) :=
  ⟨maintains_evict, maintains_assignResidency⟩

section

variable (h : WrittenBy writers owned index)

include h

/-- A turn that ends takes the writer of its chain away. -/
theorem finishDigest_wpe (sha : Sha256 Digest) (chainId : String) (processedTokenDigest : Digest)
    (processedTokenCount : ℤ) (physicalSlotsByLayer : List ℤ) (residentRows : ℤ) :
    wpe (finishDigest sha chainId processedTokenDigest processedTokenCount physicalSlotsByLayer residentRows)
      (fun record next => record.chainId = chainId ∧
        WrittenBy (unwrite writers chainId) owned next) (fun _ => True) index := by
  refine ChainCacheIndex.finishDigest_wpe sha _ _ physicalSlotsByLayer residentRows trivial
    fun record hrecord _ hprocessed _ => ?_
  have hid : record.chainId = chainId := h.inv.chainId_eq hrecord
  refine ⟨hid, ?_⟩
  refine (h.revise hrecord (Quiet.afterFinish h.inv hrecord hprocessed _ _ _ _).inv rfl rfl).congr fun seqId => ?_
  rw [h.unwrite_eq hrecord]
  simp [finishedRecord]

/-- An applied plan makes its sequence the writer of its chain. -/
theorem applyAdmission_wpe (sha : Sha256 Digest) (plan : ChainAdmissionPlan)
    (fingerprint : Fingerprint) (hnewOwner : plan.status = .created → owned plan.chainId plan.seqId)
    (howner : plan.status = .resumed → ∀ seqId, owned plan.chainId seqId → seqId = plan.seqId) :
    wpe (applyAdmission sha plan fingerprint)
      (fun _ next => writers plan.seqId = none ∧
        WrittenBy (Function.update writers plan.seqId (some plan.chainId)) owned next)
      (fun _ => True) index := by
  -- evictions take no writer, as only an ACTIVE chain has one:
  have hevicts : ∀ (chainIds : List String) (start : ChainCacheIndex Fingerprint Digest),
      WrittenBy writers owned start → wpe (evictAll chainIds)
        (fun _ => WrittenBy writers owned) (fun _ => True) start := by
    intro chainIds
    induction chainIds with
    | nil => exact fun start hstart => hstart
    | cons chainId rest ih =>
        intro start hstart
        unfold evictAll
        refine wpe_then_imp (maintains_evict chainId start hstart) (fun _ next hnext => ?_) fun _ _ => trivial
        exact ih next hnext
  unfold applyAdmission
  refine wpe_then (hevicts plan.victimChainIds index h) fun _ middle hwritten => ?_
  cases hstatus : plan.status with
  | created =>
      refine applyCreated_wpe sha plan fingerprint trivial fun hnew hfree => ?_
      -- a fresh sequence has no writer yet:
      have hnone : writers plan.seqId = none := by
        rw [Option.eq_none_iff_forall_ne_some]
        intro other hwriter
        obtain ⟨found, hfound, -, hseq⟩ := hwritten.writer.mp hwriter
        exact hfree (Dict.mem_keys_of_get? (hwritten.inv.owner.mpr ⟨found, hfound, hseq⟩))
      refine ⟨hnone, hwritten.inv.afterCreate sha fingerprint _ hnew hfree,
        fun {seqId other} => ?_, fun {other found} hfound => ?_⟩
      · show _ ↔ ∃ record, (middle.records.set plan.chainId _).get? other = some record ∧ _
        rw [Dict.get?_set, Function.update_apply]
        by_cases hother : other = plan.chainId
        · rw [if_pos hother, hother]
          by_cases heq : seqId = plan.seqId
          · rw [if_pos heq, heq]
            simp [createdRecord, newRecord]
          · rw [if_neg heq, hwritten.writer]
            have hgone : middle.records.get? plan.chainId = none :=
              Dict.not_mem_keys_iff.mp hnew
            simp [hgone, createdRecord, newRecord, Ne.symm heq]
        · rw [if_neg hother, ← hwritten.writer]
          by_cases heq : seqId = plan.seqId
          · rw [if_pos heq, heq, hnone]
            simp [Ne.symm hother]
          · rw [if_neg heq]
      · replace hfound : (middle.records.set plan.chainId _).get? other = some found := hfound
        rw [Dict.get?_set] at hfound
        split at hfound
        · next heq =>
            obtain rfl := Option.some.inj hfound
            rw [heq]
            exact hnewOwner hstatus
        · exact hwritten.owned hfound
  | resumed =>
      refine applyResumed_wpe plan trivial fun record hrecord hidle => ?_
      have hseq := howner hstatus _ (hwritten.owned hrecord)
      refine ⟨hseq ▸ hwritten.not_writer hrecord hidle, ?_⟩
      refine (hwritten.revise hrecord (Quiet.afterActivate hwritten.inv hrecord plan _).inv rfl
        rfl).congr fun seqId => ?_
      rw [Function.update_apply, hseq]
      simp [resumedRecord]

/-- Storing a history changes no writer. -/
theorem rememberPreparedTokens_wpe [DecidableEq Digest] (prepared : PreparedChainTokens Digest) :
    wpe (ChainCacheCoordinator.rememberPreparedTokens prepared)
      (fun _ => WrittenBy writers owned) (fun _ => True) index := by
  unfold ChainCacheCoordinator.rememberPreparedTokens
  rw [wpe_bind]
  refine wpe_lookup (fun record hrecord => ?_) trivial
  refine wpe_guarded trivial fun _ => ?_
  refine wpe_guarded trivial fun _ => ?_
  rw [wpe_bind]
  refine wpe_ofExcept (fun logicalTokens _ => ?_) trivial
  rw [wpe_bind]
  rw [← h.inv.chainId_eq hrecord] at hrecord
  refine storeTokenHistory_wpe logicalTokens hrecord trivial fun hfits => ?_
  have hstored : WrittenBy writers owned (index.afterStore record logicalTokens) :=
    h.revise_same hrecord (Quiet.afterStore h.inv hrecord hfits).inv rfl rfl rfl
  exact wpe_lookup (fun _ _ => hstored) trivial

end

end WrittenBy

end ChainCacheIndex

/-! ## Calls of the runtime that return -/

namespace ChainRuntime

open ChainCacheIndex

variable {Fingerprint Digest Env : Type} {α : Type} {writers : ℕ → Option String} {owned : String → ℕ → Prop}
  {runtime : ChainRuntime Fingerprint Digest Env} (hooks : ChainHooks Fingerprint Digest Env)

/-- What a call maintains it has kept when it returns. -/
theorem returns_of_maintains {good : ChainCacheIndex Fingerprint Digest → Prop}
    {method : Method Fingerprint Digest Env α} (hmethod : Maintains (Holds good) method)
    (h : Holds good runtime) : wpe method (fun _ => Holds good) (fun _ => True) runtime :=
  wpe_imp (hmethod runtime h) (fun _ _ hnext => hnext) fun _ _ => trivial

theorem chainInvalidate_written (h : Holds (WrittenBy writers owned) runtime) (chainId : String)
    (expectedSeqId : Option ℕ) :
    wpe (chainInvalidate hooks chainId expectedSeqId)
      (fun _ => Holds (WrittenBy (unwrite writers chainId) owned)) (fun _ => True) runtime := by
  unfold chainInvalidate
  refine wpe_then (returns_of_maintains (maintains_lookup chainId) h) fun record next hnext => ?_
  refine wpe_guarded trivial fun _ => ?_
  unfold coordinatorInvalidate
  rw [wpe_bind, wpe_bind]
  have hdropped : Maintains (Holds (WrittenBy writers owned)) (whenDo hooks.offload (do
      let record ← onIndex (lookup chainId)
      call (hooks.dropSnapshot record.seqId))) :=
    .whenDo (.bind (maintains_lookup chainId) fun _ => maintains_call _)
  refine wpe_mono (returns_of_maintains hdropped hnext) fun _ next hnext => ?_
  rw [wpe_onIndex]
  refine wpe_mono (WrittenBy.invalidate_wpe hnext chainId) fun _ index hindex => ?_
  exact returns_of_maintains (maintains_call _) hindex

/-- An admission that returns makes its sequence the writer of the chain. -/
theorem chainApplyAdmission_written (h : Holds (WrittenBy writers owned) runtime)
    (sha : Sha256 Digest) (fingerprint : Fingerprint) (plan : ChainAdmissionPlan)
    (hnewOwner : plan.status = .created → owned plan.chainId plan.seqId)
    (howner : plan.status = .resumed → ∀ seqId, owned plan.chainId seqId → seqId = plan.seqId) :
    wpe (chainApplyAdmission hooks sha fingerprint plan)
      (fun _ next => writers plan.seqId = none ∧ Holds (WrittenBy
        (Function.update writers plan.seqId (some plan.chainId)) owned) next)
      (fun _ => True) runtime := by
  unfold chainApplyAdmission
  refine wpe_then (returns_of_maintains (maintains_localVictims _) h) fun victimSeqIds next hnext => ?_
  unfold applyPlan
  rw [wpe_bind, wpe_bind]
  have hmoved : Maintains (Holds (WrittenBy writers owned)) (whenDo hooks.offload (do
      demoteAll hooks plan.demoteChainIds
      dropAll hooks plan.victimChainIds)) :=
    .whenDo (.bind (maintains_demoteAll hooks (WrittenBy.steady _ _) _) fun _ =>
      maintains_dropAll hooks _)
  refine wpe_mono (returns_of_maintains hmoved hnext) fun _ next hnext => ?_
  rw [wpe_onIndex]
  refine wpe_mono (WrittenBy.applyAdmission_wpe hnext sha plan fingerprint hnewOwner howner)
    fun record index hindex => ?_
  obtain ⟨hnone, hwritten⟩ := hindex
  refine wpe_then (returns_of_maintains (maintains_localVictims _) hwritten) fun _ next hnext => ?_
  refine wpe_then (returns_of_maintains (maintains_freeAll hooks _) hnext) fun _ next hnext => ?_
  rw [wpe_bind]
  apply wpe_onError
  have hprepared := maintains_prepareResumedChain hooks (WrittenBy.steady
    (Function.update writers plan.seqId (some plan.chainId)) owned) record next hnext
  refine wpe_imp hprepared (fun _ next hnext => ?_) fun next _ => wpe_true _ next
  exact wpe_mono (returns_of_maintains (maintains_lookup _) hnext) fun _ _ hlast => ⟨hnone, hlast⟩

/-! ### An ACTIVE chain is busy, whatever the prompt -/

/-- Of the errors of a hook only those of the index are prefix mismatches. -/
def Foreign (hook : ChainHook Fingerprint Digest Env α) : Prop :=
  ∀ runtime error, (hook runtime).1 = .error error → LLMEngine.isPrefixMismatch error = false

/-- The memory of the chains does not raise the error of a prompt that
mismatches its chain. -/
structure ForeignErrors (hooks : ChainHooks Fingerprint Digest Env) : Prop where
  pollOffload : Foreign hooks.pollOffload
  decodeReservedSlots : Foreign hooks.decodeReservedSlots
  chainHasResidency : ∀ seqId, Foreign (hooks.chainHasResidency seqId)
  chainPhysicalResidency : ∀ seqId, Foreign (hooks.chainPhysicalResidency seqId)
  chainCapacityDeficits : ∀ suffixTokens existing outstanding rows needsRow,
    Foreign (hooks.chainCapacityDeficits suffixTokens existing outstanding rows needsRow)

/-- The error is no prefix mismatch. -/
abbrev NoMismatch (error : PyError) : Prop := LLMEngine.isPrefixMismatch error = false

theorem raisesOnly_call {hook : ChainHook Fingerprint Digest Env α} (h : Foreign hook) :
    RaisesOnly NoMismatch (call hook) := by
  intro runtime error hraise
  apply h runtime error
  unfold call at hraise
  rcases hrun : hook runtime with ⟨result, env⟩
  rw [hrun] at hraise
  exact hraise

theorem raisesOnly_lookup (chainId : String) :
    RaisesOnly NoMismatch (onIndex (lookup chainId) : Method Fingerprint Digest Env _) := by
  intro runtime error hraise
  unfold onIndex at hraise
  rw [lookup_apply] at hraise
  replace hraise : runtime.index.lookupRecord chainId = .error error := hraise
  unfold lookupRecord at hraise
  split at hraise
  · exact nomatch hraise
  · split at hraise <;>
    · obtain rfl := Except.error.inj hraise
      rfl

variable {hooks}

theorem raisesOnly_outstandingOf (h : ForeignErrors hooks) (chainIds : List String)
    (outstanding : List ℤ) (outstandingRows : ℤ) :
    RaisesOnly NoMismatch (outstandingOf hooks chainIds outstanding outstandingRows) := by
  induction chainIds generalizing outstanding outstandingRows with
  | nil => exact .pure _
  | cons chainId rest ih =>
      unfold outstandingOf
      refine .bind (raisesOnly_lookup chainId) fun record => .ite (ih _ _) ?_
      refine .bind (raisesOnly_call (h.chainHasResidency _)) fun resident => ?_
      refine .bind (.ite (raisesOnly_call (h.chainPhysicalResidency _)) (.pure _)) fun current => ?_
      exact ih _ _

theorem raisesOnly_admissionRequirements (h : ForeignErrors hooks) (chainId : String)
    (tokenCount : ℤ) (decodeReservedSlotsByLayer : List ℤ) :
    RaisesOnly NoMismatch
      (admissionRequirements hooks chainId tokenCount decodeReservedSlotsByLayer) := by
  unfold admissionRequirements
  refine .bind (.whenDo (raisesOnly_call h.pollOffload)) fun _ => .bind .read fun runtime => ?_
  refine .bind (.bind .read fun _ => raisesOnly_outstandingOf h _ _ _) fun owed => ?_
  exact .bind (raisesOnly_call (h.chainCapacityDeficits _ _ _ _ _)) fun _ => .pure _

variable [DecidableEq Fingerprint] [DecidableEq Digest]

/-- A request on an ACTIVE chain is refused, and not for its prompt. -/
theorem chainAdmissionPlan_busy (h : ForeignErrors hooks) (sha : Sha256 Digest)
    (fingerprint : Fingerprint) {chainId : String} (seqId : ℕ) (tokenIds : List ℤ)
    {record : ChainRecord Fingerprint Digest}
    (hrecord : runtime.index.records.get? chainId = some record) (hactive : record.state = .active) :
    ∃ error, (chainAdmissionPlan hooks sha fingerprint chainId seqId tokenIds runtime).1 =
      .error error ∧ NoMismatch error := by
  have hdecode := raisesOnly_call h.decodeReservedSlots runtime
  have hindex : Holds (fun index => index = runtime.index) runtime := rfl
  unfold chainAdmissionPlan
  rw [bind_apply]
  have hsame := maintains_call hooks.decodeReservedSlots runtime hindex
  rw [wpe_def] at hsame
  rcases hcall : call hooks.decodeReservedSlots runtime with ⟨error | decodeReserved, next⟩
  · exact ⟨error, rfl, hdecode error (by rw [hcall])⟩
  rw [hcall] at hsame
  unfold planWith
  dsimp only
  rw [bind_apply]
  have hrequired := raisesOnly_admissionRequirements h chainId
    (AdmissionInput.tokens tokenIds : AdmissionInput Digest).count decodeReserved next
  have hkept := maintains_admissionRequirements hooks chainId
    (AdmissionInput.tokens tokenIds : AdmissionInput Digest).count decodeReserved next hsame
  rw [wpe_def] at hkept
  rcases hdemand : admissionRequirements hooks chainId
    (AdmissionInput.tokens tokenIds : AdmissionInput Digest).count decodeReserved next with
    ⟨error | demand, last⟩
  · exact ⟨error, rfl, hrequired error (by rw [hdemand])⟩
  rw [hdemand] at hkept
  replace hkept : last.index = runtime.index := hkept
  have hbusy : last.index.planAdmissionInput sha chainId seqId (.tokens tokenIds) fingerprint
      demand = .error (chainError .busy
        s!"Chain {reprChainId chainId} already has an active writer." (some chainId)) := by
    unfold planAdmissionInput classifyAdmission classifyResume
    rw [hkept, hrecord]
    simp only [hactive, if_true]
    rfl
  refine ⟨_, ?_, (rfl : NoMismatch (chainError .busy
    s!"Chain {reprChainId chainId} already has an active writer." (some chainId)))⟩
  simp only [bind_apply, read_apply, hbusy, ofExcept_apply]

/-- A plan that resumes a chain is for the sequence that owns it. -/
theorem seqId_of_resumed {sha : Sha256 Digest} {index : ChainCacheIndex Fingerprint Digest}
    {chainId : String} {seqId : ℕ} {input : AdmissionInput Digest} {fingerprint : Fingerprint}
    {reusedTokens : ℤ} {record : ChainRecord Fingerprint Digest}
    (hclass : index.classifyAdmission sha chainId seqId input fingerprint = .ok (.resumed, reusedTokens))
    (hrecord : index.records.get? chainId = some record) : record.seqId = seqId := by
  unfold classifyAdmission classifyResume at hclass
  rw [hrecord] at hclass
  dsimp only at hclass
  split at hclass
  · exact nomatch hclass
  split at hclass
  · exact nomatch hclass
  split at hclass
  · exact nomatch hclass
  · next howner => exact not_not.mp howner

end ChainRuntime
