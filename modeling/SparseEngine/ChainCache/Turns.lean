import SparseEngine.ChainCache.Engine
import SparseEngine.ChainCache.RankAgreement

/-!
# The turns of a chain

A turn ends with two writes: `chain_finish` records the digest of the
processed tokens on every rank, and `remember_prepared_tokens` stores the
tokens on rank 0.  Between them the record carries the new digest beside the
old tokens.  This file shows that a chain none of whose turns failed at its
end is never left in between, over whole runs of an engine with arbitrary
hooks, and reads off what the next request on the chain finds.
-/

open Routine

/-- The part of a record that says which tokens its KV stands for. -/
structure ChainTurn (Fingerprint Digest : Type) where
  state : ChainState
  fingerprint : Fingerprint
  processedTokenCount : ℤ
  processedTokenDigest : Digest
  tokenIds : List UInt32

def ChainRecord.turn {Fingerprint Digest : Type} (record : ChainRecord Fingerprint Digest) :
    ChainTurn Fingerprint Digest :=
  { state := record.state
    fingerprint := record.fingerprint
    processedTokenCount := record.processedTokenCount
    processedTokenDigest := record.processedTokenDigest
    tokenIds := record.tokenIds }

/-- All but the last token are processed, and the digest is theirs. -/
structure ChainTurn.Resumable {Fingerprint Digest : Type} (sha : Sha256 Digest)
    (turn : ChainTurn Fingerprint Digest) : Prop where
  processed_eq : turn.processedTokenCount = max 0 ((turn.tokenIds.length : ℤ) - 1)
  digest_eq : stableTokenDigest sha (unpackTokenIds turn.tokenIds)
    (some turn.processedTokenCount) = .ok turn.processedTokenDigest

namespace ChainCacheIndex

variable {Fingerprint Digest : Type} {index next : ChainCacheIndex Fingerprint Digest}
  {chainId : String} {record : ChainRecord Fingerprint Digest}
  {P R : String → ChainTurn Fingerprint Digest → Prop}

/-! ## A property of every chain -/

/-- The index is sound and every chain's turn has the property. -/
structure Each (P : String → ChainTurn Fingerprint Digest → Prop)
    (index : ChainCacheIndex Fingerprint Digest) : Prop where
  inv : Inv index
  turn : ∀ {chainId record}, index.records.get? chainId = some record → P chainId record.turn

namespace Each

theorem imp (h : Each P index) (himp : ∀ chainId turn, P chainId turn → R chainId turn) :
    Each R index :=
  ⟨h.inv, fun hrecord => himp _ _ (h.turn hrecord)⟩

/-- A revised record has to have the property, the other chains keep it. -/
theorem revise (h : Each P index) {revised : ChainRecord Fingerprint Digest} (hinv : Inv next)
    (hrecords : next.records = index.records.set chainId revised) (hrevised : R chainId revised.turn)
    (hothers : ∀ other turn, other ≠ chainId → P other turn → R other turn) : Each R next := by
  refine ⟨hinv, fun {other otherRecord} hother => ?_⟩
  rw [hrecords, Dict.get?_set] at hother
  split at hother
  · next heq =>
      obtain rfl := Option.some.inj hother
      rw [heq]
      exact hrevised
  · next hne => exact hothers other _ hne (h.turn hother)

theorem retires {chainIds : List String} (h : Each P index) (hretires : Retires index next chainIds) :
    Each P next := by
  refine ⟨hretires.inv, fun {other otherRecord} hother => ?_⟩
  rw [hretires.get?_eq] at hother
  split at hother
  · cases hother
  · exact h.turn hother

theorem maintains_evict (chainId : String) :
    Maintains (Each P) (evict chainId : Method Fingerprint Digest _) := by
  intro index h
  refine evict_wpe h.inv h fun record hrecord _ hid => ?_
  rw [← hid] at hrecord
  exact h.retires (Retires.afterRetire h.inv hrecord)

theorem maintains_invalidate (chainId : String) :
    Maintains (Each P) (invalidate chainId : Method Fingerprint Digest _) := by
  intro index h
  refine invalidate_wpe h.inv h fun record hrecord hid => ?_
  rw [← hid] at hrecord
  exact h.retires (Retires.afterRetire h.inv hrecord)

/-- Assigning fields that are no part of a turn. -/
theorem maintains_modifyRecord (chainId : String)
    {assign : ChainRecord Fingerprint Digest → ChainRecord Fingerprint Digest}
    (hid : ∀ record, (assign record).chainId = record.chainId) (hseq : ∀ record, (assign record).seqId = record.seqId)
    (hturn : ∀ record, (assign record).turn = record.turn) :
    Maintains (Each P) (modifyRecord chainId assign) := by
  intro index h
  rw [wpe_def]
  cases hrecord : index.records.get? chainId with
  | none =>
      simp only [modifyRecord, write_apply, hrecord]
      exact h
  | some record =>
      rw [modifyRecord_apply hrecord]
      have hstate : (assign record).state = record.state := congrArg ChainTurn.state (hturn record)
      have htokens : (assign record).tokenIds = record.tokenIds :=
        congrArg ChainTurn.tokenIds (hturn record)
      have hactive : ∀ other, other ∈ index.activeRecords.keys ↔
          if other = chainId then (assign record).state = .active
            else other ∈ index.activeRecords.keys := by
        intro other
        split
        · next heq =>
            rw [heq, h.inv.mem_active, hrecord, hstate]
            simp
        · exact Iff.rfl
      refine h.revise (h.inv.revise hrecord rfl (hid record) (hseq record) hactive
        (.inr ⟨rfl, hstate⟩) ?_ h.inv.history_le rfl) rfl ?_ fun _ _ _ hother => hother
      · rw [htokens]
      · rw [hturn]
        exact h.turn hrecord

theorem maintains_assignResidency (chainId : String) (residentRows : ℤ)
    (reservedSlotsByLayer : List ℤ) (reservedRows : ℤ) :
    Maintains (Each P) (assignResidency chainId residentRows reservedSlotsByLayer reservedRows :
      Method Fingerprint Digest _) :=
  maintains_modifyRecord chainId (fun _ => rfl) (fun _ => rfl) fun _ => rfl

/-- A chain that goes back to IDLE. -/
theorem setRecordState_idle (h : Each P index) (chainId : String)
    (hidle : ∀ turn, P chainId turn → R chainId { turn with state := .idle })
    (hothers : ∀ other turn, P other turn → R other turn) :
    wpe (setRecordState chainId .idle) (fun _ => Each R) (Each R) index := by
  rw [wpe_def]
  cases hrecord : index.records.get? chainId with
  | none =>
      simp only [setRecordState, modifyRecord, bind_apply, write_apply, hrecord]
      have hinactive : chainId ∉ index.activeRecords.keys := by
        rw [h.inv.mem_active, hrecord]
        simp
      have hactive : (index.activeRecords.erase chainId).keys = index.activeRecords.keys := by
        rw [Dict.keys_erase]
        apply List.filter_eq_self.mpr
        intro other hother
        simpa using fun heq : other = chainId => hinactive (heq ▸ hother)
      exact
        { inv :=
            { h.inv with
              mem_active := by
                intro other
                show other ∈ (index.activeRecords.erase chainId).keys ↔ _
                rw [hactive]
                exact h.inv.mem_active
              snapshot_eq := fun _ hmem => by cases hmem }
          turn := fun hother => hothers _ _ (h.turn hother) }
  | some record =>
      simp only [setRecordState, modifyRecord, bind_apply, write_apply, hrecord]
      refine h.revise (h.inv.revise hrecord rfl rfl rfl ?_ (.inl rfl) rfl h.inv.history_le rfl) rfl
        (hidle _ (h.turn hrecord)) fun other turn _ hother => hothers other turn hother
      intro other
      show other ∈ (index.activeRecords.erase chainId).keys ↔ _
      rw [Dict.mem_keys_erase]
      split
      · next heq => simp [heq]
      · next hne => simp [hne]

end Each

/-- A property that the calls which end or move an IDLE chain keep. -/
structure Steady (good : ChainCacheIndex Fingerprint Digest → Prop) : Prop where
  evict : ∀ chainId, Maintains good (evict chainId)
  assignResidency : ∀ chainId residentRows reservedSlotsByLayer reservedRows,
    Maintains good (assignResidency chainId residentRows reservedSlotsByLayer reservedRows)

/-- A property that the calls which end or move a chain keep. -/
structure Stable (good : ChainCacheIndex Fingerprint Digest → Prop) : Prop extends Steady good where
  invalidate : ∀ chainId, Maintains good (invalidate chainId)

theorem Each.stable (P : String → ChainTurn Fingerprint Digest → Prop) : Stable (Each P) :=
  ⟨⟨Each.maintains_evict, Each.maintains_assignResidency⟩, Each.maintains_invalidate⟩

end ChainCacheIndex

/-! ## The runtime around the index -/

namespace ChainRuntime

open ChainCacheIndex

variable {Fingerprint Digest Env : Type} {α : Type}
  {good : ChainCacheIndex Fingerprint Digest → Prop}

variable {method : ChainCacheIndex.Method Fingerprint Digest α}
  {runtime : ChainRuntime Fingerprint Digest Env}

theorem wpe_onIndex {post : α → ChainRuntime Fingerprint Digest Env → Prop}
    {bad : ChainRuntime Fingerprint Digest Env → Prop} :
    wpe (onIndex method) post bad runtime ↔
      wpe method (fun a index => post a { runtime with index := index })
        (fun index => bad { runtime with index := index }) runtime.index := by
  rw [wpe_def, wpe_def]
  unfold onIndex
  rcases method runtime.index with ⟨error | a, index⟩ <;> exact Iff.rfl

/-- The index as seen from the runtime. -/
def Holds (good : ChainCacheIndex Fingerprint Digest → Prop)
    (runtime : ChainRuntime Fingerprint Digest Env) : Prop := good runtime.index

theorem maintains_onIndex (h : Maintains good method) :
    Maintains (Holds good) (onIndex method : Method Fingerprint Digest Env α) :=
  fun runtime hgood => wpe_onIndex.mpr (h runtime.index hgood)

theorem maintains_lookup (chainId : String) :
    Maintains (Holds good) (onIndex (lookup chainId) : Method Fingerprint Digest Env _) :=
  maintains_onIndex fun _ hgood => wpe_lookup (fun _ _ => hgood) hgood

/-- A hook does not write the index. -/
theorem maintains_call (hook : ChainHook Fingerprint Digest Env α) :
    Maintains (Holds good) (call hook) := by
  intro runtime hgood
  rw [wpe_def]
  unfold call
  rcases hook runtime with ⟨error | a, env⟩ <;> exact hgood

variable (hooks : ChainHooks Fingerprint Digest Env)

/-! ### Planning only reads the index -/

theorem maintains_outstandingOf (chainIds : List String) (outstanding : List ℤ) (outstandingRows : ℤ) :
    Maintains (Holds good) (outstandingOf hooks chainIds outstanding outstandingRows) := by
  induction chainIds generalizing outstanding outstandingRows with
  | nil => exact .pure _
  | cons chainId rest ih =>
      unfold outstandingOf
      refine .bind (maintains_lookup chainId) fun record => ?_
      refine .ite (ih _ _) ?_
      refine .bind (maintains_call _) fun resident => ?_
      refine .bind (.ite (maintains_call _) (.pure _)) fun current => ?_
      exact ih _ _

theorem maintains_admissionRequirements (chainId : String) (tokenCount : ℤ) (decodeReservedSlotsByLayer : List ℤ) :
    Maintains (Holds good) (admissionRequirements hooks chainId tokenCount decodeReservedSlotsByLayer) := by
  unfold admissionRequirements
  refine .bind (.whenDo (maintains_call _)) fun _ => ?_
  refine .bind .read fun runtime => ?_
  refine .bind ?_ fun owed => .bind (maintains_call _) fun deficits => .pure _
  exact .bind .read fun runtime => maintains_outstandingOf hooks _ _ _

theorem maintains_splitVictims (chainIds : List String) :
    Maintains (Holds good) (splitVictims hooks chainIds) := by
  induction chainIds with
  | nil => exact .pure _
  | cons chainId rest ih =>
      unfold splitVictims
      refine .bind .read fun runtime => ?_
      refine .bind (.ofExcept _) fun record => ?_
      refine .bind (maintains_call _) fun snapshot => ?_
      exact .bind ih fun _ => .pure _

theorem maintains_offloadPlan (plan : ChainAdmissionPlan) :
    Maintains (Holds good) (offloadPlan hooks plan) :=
  .ite (.bind (maintains_splitVictims hooks _) fun _ => .pure _) (.pure _)

section Planning

variable [DecidableEq Fingerprint] [DecidableEq Digest]

theorem maintains_planWith (sha : Sha256 Digest) (fingerprint : Fingerprint) (chainId : String)
    (seqId : ℕ) (input : AdmissionInput Digest) (decodeReserved : List ℤ) :
    Maintains (Holds good) (planWith hooks sha fingerprint chainId seqId input decodeReserved) := by
  unfold planWith
  refine .bind (maintains_admissionRequirements hooks _ _ _) fun demand => ?_
  refine .bind .read fun runtime => .bind (.ofExcept _) fun plan => ?_
  exact .bind (maintains_offloadPlan hooks plan) fun _ => .pure _

theorem maintains_chainAdmissionPlan (sha : Sha256 Digest) (fingerprint : Fingerprint)
    (chainId : String) (seqId : ℕ) (tokenIds : List ℤ) :
    Maintains (Holds good) (chainAdmissionPlan hooks sha fingerprint chainId seqId tokenIds) :=
  .bind (maintains_call _) fun _ => maintains_planWith hooks _ _ _ _ _ _

theorem maintains_chainValidateAdmissionPlan (sha : Sha256 Digest) (fingerprint : Fingerprint)
    (expected : ChainAdmissionPlan) (inputTokenCount : ℤ) (inputPrefixDigest : Digest) :
    Maintains (Holds good) (chainValidateAdmissionPlan hooks sha fingerprint expected
      inputTokenCount inputPrefixDigest) :=
  .bind (maintains_planWith hooks _ _ _ _ _ _) fun _ =>
    .bind (.raiseIf _ _) fun _ => .pure _

end Planning

/-! ### Calls that end or move chains -/

theorem maintains_demoteAll (h : Steady good) (chainIds : List String) :
    Maintains (Holds good) (demoteAll hooks chainIds) := by
  induction chainIds with
  | nil => exact .pure _
  | cons chainId rest ih =>
      unfold demoteAll
      refine .bind (maintains_lookup chainId) fun victim => ?_
      refine .bind (.raiseIf _ _) fun _ => .bind (maintains_call _) fun valid => ?_
      refine .bind (.raiseIf _ _) fun _ => .bind (maintains_call _) fun _ => ?_
      exact .bind (maintains_onIndex (h.assignResidency _ _ _ _)) fun _ => ih

theorem maintains_dropAll (chainIds : List String) :
    Maintains (Holds good) (dropAll hooks chainIds) := by
  induction chainIds with
  | nil => exact .pure _
  | cons chainId rest ih =>
      unfold dropAll
      exact .bind (maintains_lookup chainId) fun _ => .bind (maintains_call _) fun _ => ih

theorem maintains_prepareResumedChain (h : Steady good) (record : ChainRecord Fingerprint Digest) :
    Maintains (Holds good) (prepareResumedChain hooks record) := by
  unfold prepareResumedChain
  refine .whenDo (.bind (.whenDo ?_) fun _ => maintains_call _)
  exact .bind (maintains_call _) fun _ => maintains_onIndex (h.assignResidency _ _ _ _)

theorem maintains_localVictims (chainIds : List String) :
    Maintains (Holds good) (localVictims chainIds : Method Fingerprint Digest Env _) := by
  induction chainIds with
  | nil => exact .pure _
  | cons chainId rest ih =>
      unfold localVictims
      exact .bind (maintains_lookup chainId) fun _ => .bind ih fun _ => .pure _

theorem maintains_freeAll (seqIds : List ℕ) : Maintains (Holds good) (freeAll hooks seqIds) := by
  induction seqIds with
  | nil => exact .pure _
  | cons seqId rest ih => exact .bind (maintains_call _) fun _ => ih

theorem maintains_clearReservation (h : Steady good) (chainId : String) :
    Maintains (Holds good) (clearReservation chainId : Method Fingerprint Digest Env _) :=
  .bind (maintains_lookup chainId) fun _ => maintains_onIndex (h.assignResidency _ _ _ _)

theorem withSnapshot_wpe (records : List (ChainRecord Fingerprint Digest)) (h : Holds good runtime) :
    wpe (withSnapshot hooks records) (fun found next => Holds good next ∧ ∀ record ∈ found, record ∈ records)
      (Holds good) runtime := by
  induction records generalizing runtime with
  | nil => exact ⟨h, fun _ hmem => hmem⟩
  | cons head rest ih =>
      unfold withSnapshot
      refine wpe_then (maintains_call _ runtime h) fun snapshot next hnext => ?_
      refine wpe_then (ih hnext) fun others last hlast => ⟨hlast.1, fun record hmem => ?_⟩
      by_cases hsnapshot : snapshot = true
      · rw [if_pos hsnapshot] at hmem
        rcases List.mem_cons.mp hmem with heq | hothers
        · exact heq ▸ List.mem_cons_self
        · exact List.mem_cons_of_mem _ (hlast.2 record hothers)
      · rw [if_neg hsnapshot] at hmem
        exact List.mem_cons_of_mem _ (hlast.2 record hmem)

theorem maintains_overBudget (oldBytes required : ℤ) :
    Maintains (Holds good) (overBudget hooks oldBytes required) :=
  .bind (maintains_call _) fun _ => .bind (maintains_call _) fun _ => .pure _

theorem maintains_makeRoom (oldBytes required : ℤ) (victims : List (ChainRecord Fingerprint Digest))
    (hevict : ∀ victim ∈ victims, Maintains good (evict victim.chainId)) :
    Maintains (Holds good) (makeRoom hooks oldBytes required victims) := by
  induction victims with
  | nil => exact .pure _
  | cons victim rest ih =>
      have hrest := ih fun other hmem => hevict other (List.mem_cons_of_mem _ hmem)
      unfold makeRoom
      refine .bind (maintains_overBudget hooks _ _) fun exceeds => .ite ?_ (.pure _)
      refine .bind (maintains_call _) fun _ => .bind (.whenDo ?_) fun _ => hrest
      exact .bind (maintains_onIndex (hevict victim List.mem_cons_self)) fun _ => .pure _

/-- Saving a finished chain may evict other chains. -/
theorem maintains_saveFinishedChain (record : ChainRecord Fingerprint Digest)
    (hevict : ∀ chainId, chainId ≠ record.chainId → Maintains good (evict chainId)) :
    Maintains (Holds good) (saveFinishedChain hooks record) := by
  unfold saveFinishedChain
  refine .whenDo (.bind (maintains_call _) fun required => ?_)
  refine .bind (maintains_call _) fun capacity => .bind (.raiseIf _ _) fun _ => ?_
  refine .bind (maintains_call _) fun oldBytes => ?_
  refine .bind (maintains_overBudget hooks _ _) fun exceeds => .bind .read fun runtime => ?_
  intro current hcurrent
  have hcandidates : wpe (if exceeds then
        withSnapshot hooks (runtime.index.records.values.filter fun other =>
          other.chainId ≠ record.chainId)
      else pure [])
      (fun found next => Holds good next ∧ ∀ other ∈ found, other.chainId ≠ record.chainId)
      (Holds good) current := by
    rw [wpe_ite]
    refine ⟨fun _ => ?_, fun _ => ⟨hcurrent, fun _ hmem => nomatch hmem⟩⟩
    refine wpe_mono (withSnapshot_wpe hooks _ hcurrent) fun found next hfound => ⟨hfound.1, ?_⟩
    intro other hmem
    simpa using (List.mem_filter.mp (hfound.2 other hmem)).2
  refine wpe_then hcandidates fun found next hfound => ?_
  refine Maintains.bind (maintains_makeRoom hooks _ _ _ fun victim hmem => ?_)
    (fun _ => maintains_call _) next hfound.1
  exact hevict _ (hfound.2 victim ((List.perm_insertionSort _ _).mem_iff.mp hmem))

theorem maintains_coordinatorInvalidate (h : Stable good) (chainId : String) :
    Maintains (Holds good) (coordinatorInvalidate hooks chainId) := by
  unfold coordinatorInvalidate
  refine .bind (.whenDo ?_) fun _ => maintains_onIndex (h.invalidate _)
  exact .bind (maintains_lookup chainId) fun _ => maintains_call _

/-- `chain_finish` keeps whatever `finish_digest` of its chain keeps. -/
theorem maintains_chainFinish (h : Stable good) (sha : Sha256 Digest) (chainId : String)
    (seqId : ℕ) (processedTokenDigest : Digest) (processedTokenCount : ℤ)
    (hfinish : ∀ physicalSlots, Maintains good
      (finishDigest sha chainId processedTokenDigest processedTokenCount physicalSlots 1)) :
    Maintains (Holds good) (chainFinish hooks sha chainId seqId processedTokenDigest processedTokenCount) := by
  unfold chainFinish
  refine .bind (maintains_lookup chainId) fun record => .bind (.raiseIf _ _) fun _ => ?_
  refine .bind (.raiseIf _ _) fun _ => .onError ?_ ?_
  · refine .bind (maintains_call _) fun _ => .bind (maintains_call _) fun _ => ?_
    refine .bind ?_ fun finished =>
      .bind (maintains_saveFinishedChain hooks finished fun _ _ => h.evict _) fun _ => .pure _
    unfold finishValues
    refine .bind (maintains_lookup chainId) fun record => .bind (.raiseIf _ _) fun _ => ?_
    exact .bind (maintains_call _) fun slots => maintains_onIndex (hfinish slots)
  · exact .bind (maintains_coordinatorInvalidate hooks h chainId) fun _ => maintains_call _

/-- A `chain_finish` that returns has recorded the end of its chain's turn;
saving the chain may evict others, never the chain itself. -/
theorem chainFinish_wpe {finished : ChainCacheIndex Fingerprint Digest → Prop} (sha : Sha256 Digest)
    (chainId : String) (seqId : ℕ) (processedTokenDigest : Digest) (processedTokenCount : ℤ)
    (hfinish : ∀ physicalSlots index, good index →
      wpe (finishDigest sha chainId processedTokenDigest processedTokenCount physicalSlots 1)
        (fun record next => record.chainId = chainId ∧ finished next) (fun _ => True) index)
    (hevict : ∀ other, other ≠ chainId → Maintains finished (evict other)) (h : Holds good runtime) :
    wpe (chainFinish hooks sha chainId seqId processedTokenDigest processedTokenCount)
      (fun _ => Holds finished) (fun _ => True) runtime := by
  have hkept : ∀ {β : Type} {method : Method Fingerprint Digest Env β}
      {current : ChainRuntime Fingerprint Digest Env}
      {post : β → ChainRuntime Fingerprint Digest Env → Prop},
      Maintains (Holds good) method → Holds good current →
      (∀ value next, Holds good next → post value next) → wpe method post (fun _ => True) current :=
    fun hmethod hcurrent hpost => wpe_imp (hmethod _ hcurrent) hpost fun _ _ => trivial
  unfold chainFinish
  rw [wpe_bind]
  refine hkept (maintains_lookup _) h fun record next hnext => ?_
  refine wpe_guarded trivial fun _ => ?_
  refine wpe_guarded trivial fun _ => ?_
  apply wpe_onError
  refine wpe_imp ?_ (fun _ _ hpost => hpost) fun next (_ : True) => wpe_true _ next
  rw [wpe_bind]
  refine hkept (maintains_call _) hnext fun _ next hnext => ?_
  rw [wpe_bind]
  refine hkept (maintains_call _) hnext fun _ next hnext => ?_
  unfold finishValues
  rw [wpe_bind, wpe_bind]
  refine hkept (maintains_lookup _) hnext fun record next hnext => ?_
  refine wpe_guarded trivial fun _ => ?_
  rw [wpe_bind]
  refine hkept (maintains_call _) hnext fun slots next hnext => ?_
  rw [wpe_onIndex]
  refine wpe_mono (hfinish slots next.index hnext) fun finishedRecord index hindex => ?_
  refine wpe_then_imp (maintains_saveFinishedChain hooks finishedRecord (fun other hother => ?_) _
    hindex.2) (fun _ next hnext => hnext) fun _ _ => trivial
  rw [hindex.1] at hother
  exact hevict other hother

theorem maintains_chainReclaimIdle (h : Steady good) (chainId : String) (expectedSeqId : ℕ) (demote : Bool) :
    Maintains (Holds good) (chainReclaimIdle hooks chainId expectedSeqId demote) := by
  unfold chainReclaimIdle
  refine .bind (maintains_lookup chainId) fun record => .bind (.raiseIf _ _) fun _ => ?_
  refine .bind (.raiseIf _ _) fun _ => .bind (.ite (.pure _) (maintains_call _)) fun resident => ?_
  refine .bind (.raiseIf _ _) fun _ => .bind (.ite ?_ (.whenDo (maintains_call _))) fun _ => ?_
  · exact .bind (.ite (maintains_call _) (.pure _)) fun _ => .raiseIf _ _
  · refine .bind (maintains_call _) fun _ => .ite (maintains_onIndex (h.assignResidency _ _ _ _)) ?_
    exact .bind (maintains_onIndex (h.evict _)) fun _ => .pure _

theorem maintains_chainInvalidate (h : Stable good) (chainId : String) (expectedSeqId : Option ℕ) :
    Maintains (Holds good) (chainInvalidate hooks chainId expectedSeqId) := by
  unfold chainInvalidate
  refine .bind (maintains_lookup chainId) fun record => .bind (.raiseIf _ _) fun _ => ?_
  exact .bind (maintains_coordinatorInvalidate hooks h chainId) fun _ => maintains_call _

end ChainRuntime

/-! ## Settled chains -/

namespace ChainCacheIndex

variable {Fingerprint Digest : Type} {index : ChainCacheIndex Fingerprint Digest}
  {sha : Sha256 Digest} {fingerprint : Fingerprint} {failed : List String}

/-- The chain is in a turn, or its last turn can be continued; chains in
`failed` excepted. -/
def Settled (sha : Sha256 Digest) (fingerprint : Fingerprint) (failed : List String)
    (chainId : String) (turn : ChainTurn Fingerprint Digest) : Prop :=
  turn.fingerprint = fingerprint ∧
    (chainId ∈ failed ∨ turn.state = .active ∨ turn.Resumable sha)

/-- A settled chain whose turn was resumed by the plan can still be
continued. -/
def Resumes (sha : Sha256 Digest) (fingerprint : Fingerprint) (failed : List String)
    (plan : ChainAdmissionPlan) (chainId : String) (turn : ChainTurn Fingerprint Digest) : Prop :=
  Settled sha fingerprint failed chainId turn ∧
    (chainId = plan.chainId → plan.status = .resumed → chainId ∈ failed ∨ turn.Resumable sha)

theorem Settled.mono {failed' : List String} (hle : ∀ other ∈ failed, other ∈ failed')
    {chainId : String} {turn : ChainTurn Fingerprint Digest} (h : Settled sha fingerprint failed chainId turn) :
    Settled sha fingerprint failed' chainId turn :=
  ⟨h.1, h.2.imp_left (hle chainId)⟩

/-- Applying a plan resumes an IDLE chain as it was, or enters a chain in its
first turn. -/
theorem applyAdmission_settled (h : Each (Settled sha fingerprint failed) index) (plan : ChainAdmissionPlan) :
    wpe (applyAdmission sha plan fingerprint)
      (fun record next => record.chainId = plan.chainId ∧ Each (Resumes sha fingerprint failed plan) next)
      (Each (Settled sha fingerprint failed)) index := by
  unfold applyAdmission
  refine wpe_then_imp (evictAll_wpe h.inv plan.victimChainIds) ?_ ?_
  · intro _ middle hretires
    have hmiddle := h.retires hretires
    cases hstatus : plan.status with
    | created =>
        refine applyCreated_wpe sha plan fingerprint hmiddle fun hnew howner => ⟨rfl, ?_⟩
        refine hmiddle.revise (hmiddle.inv.afterCreate sha fingerprint _ hnew howner) rfl ?_ ?_
        · exact ⟨⟨rfl, .inr (.inl rfl)⟩, fun _ hresumed =>
            absurd (hstatus.symm.trans hresumed) (by decide)⟩
        · exact fun other turn hne hother => ⟨hother, fun heq => absurd heq hne⟩
    | resumed =>
        refine applyResumed_wpe plan hmiddle fun record hrecord hidle => ?_
        have hid : record.chainId = plan.chainId := hmiddle.inv.chainId_eq hrecord
        refine ⟨hid, ?_⟩
        obtain ⟨hfingerprint, hsettled⟩ := hmiddle.turn hrecord
        have hturn : plan.chainId ∈ failed ∨ record.turn.Resumable sha := by
          rcases hsettled with hfailed | hactive | hresumable
          · exact .inl hfailed
          · exact absurd (hidle.symm.trans hactive) (by decide)
          · exact .inr hresumable
        -- the resumed turn differs from the idle one in its state only
        have hresumed : plan.chainId ∈ failed ∨ (resumedRecord record plan (middle.clock + 1)).turn.Resumable sha :=
          hturn.imp_right fun hresumable => ⟨hresumable.processed_eq, hresumable.digest_eq⟩
        refine hmiddle.revise (Quiet.afterActivate hmiddle.inv hrecord plan _).inv rfl ?_ ?_
        · exact ⟨⟨hfingerprint, .inr (.inl rfl)⟩, fun _ _ => hresumed⟩
        · exact fun other turn hne hother => ⟨hother, fun heq => absurd heq hne⟩
  · rintro next ⟨done, -, hretires⟩
    exact h.retires hretires

/-- `finish_digest` may leave its chain between the two writes. -/
theorem finishDigest_settled (chainId : String) (processedTokenDigest : Digest)
    (processedTokenCount : ℤ) (physicalSlotsByLayer : List ℤ) (residentRows : ℤ) :
    Maintains (Each (Settled sha fingerprint (chainId :: failed)))
      (finishDigest sha chainId processedTokenDigest processedTokenCount physicalSlotsByLayer residentRows) := by
  intro index h
  refine finishDigest_wpe sha processedTokenDigest processedTokenCount physicalSlotsByLayer
    residentRows h fun record hrecord _ hprocessed _ => ?_
  refine h.revise (Quiet.afterFinish h.inv hrecord hprocessed _ _ _ _).inv rfl ?_ fun _ _ _ hother => hother
  exact ⟨(h.turn hrecord).1, .inl List.mem_cons_self⟩

/-! ### The stored history -/

variable {stored : List UInt32}

theorem length_packTokenIds {tokenIds : List ℤ} (hpack : packTokenIds tokenIds = some stored) :
    stored.length = tokenIds.length := by
  unfold packTokenIds at hpack
  induction tokenIds generalizing stored with
  | nil =>
      rw [List.mapM_nil] at hpack
      rw [← Option.some.inj hpack]
      rfl
  | cons token rest ih =>
      rw [List.mapM_cons] at hpack
      obtain ⟨first, -, hrest⟩ := Option.bind_eq_some_iff.mp hpack
      obtain ⟨others, hothers, heq⟩ := Option.bind_eq_some_iff.mp hrest
      rw [← Option.some.inj heq, List.length_cons, ih hothers, List.length_cons]

/-- The bytes that rank 0 keeps between the two writes are read back as they
were. -/
theorem readTokenBytes_pack (stored : List UInt32) :
    ChainCacheCoordinator.readTokenBytes (Packing.pack 4 (stored.map UInt32.toNat)) = .ok stored := by
  have hbound : ∀ value ∈ stored.map UInt32.toNat, value < 256 ^ 4 := by
    intro value hvalue
    obtain ⟨token, -, rfl⟩ := List.mem_map.mp hvalue
    exact token.toNat_lt
  unfold ChainCacheCoordinator.readTokenBytes
  have hsame : UInt32.ofNat ∘ UInt32.toNat = id := funext fun _ => UInt32.ofNat_toNat
  rw [Packing.unpack_pack (by decide) hbound]
  simp [hsame]

/-- `remember_prepared_tokens` of what `prepare_processed_tokens` returned
settles the chain. -/
theorem rememberPreparedTokens_settled [DecidableEq Digest] {chainId : String} {seqId : ℕ}
    {digest : Digest} (hdigest : stableTokenDigest sha (unpackTokenIds stored)
      (some (max 0 ((stored.length : ℤ) - 1))) = .ok digest)
    (h : Each (Settled sha fingerprint (chainId :: failed)) index) :
    wpe (ChainCacheCoordinator.rememberPreparedTokens
        { chainId := chainId
          seqId := seqId
          processedTokenCount := max 0 ((stored.length : ℤ) - 1)
          processedTokenDigest := digest
          tokenBytes := Packing.pack 4 (stored.map UInt32.toNat) })
      (fun _ => Each (Settled sha fingerprint failed))
      (Each (Settled sha fingerprint (chainId :: failed))) index := by
  unfold ChainCacheCoordinator.rememberPreparedTokens
  rw [wpe_bind]
  refine wpe_lookup (fun record hrecord => ?_) h
  refine wpe_guarded h fun _ => ?_
  refine wpe_guarded h fun hboundary => ?_
  obtain ⟨hcount, hsame⟩ := not_or.mp hboundary
  rw [wpe_bind]
  refine wpe_ofExcept (fun logicalTokens hread => ?_) h
  rw [readTokenBytes_pack] at hread
  obtain rfl := Except.ok.inj hread
  rw [wpe_bind]
  have hid := h.inv.chainId_eq hrecord
  rw [← hid] at hrecord
  refine storeTokenHistory_wpe _ hrecord h fun hfits => ?_
  have hresumable : ({ record with tokenIds := stored } :
      ChainRecord Fingerprint Digest).turn.Resumable sha := by
    refine ⟨(not_not.mp hcount).symm, ?_⟩
    show stableTokenDigest sha (unpackTokenIds stored) (some record.processedTokenCount) =
      .ok record.processedTokenDigest
    rw [← not_not.mp hcount, ← not_not.mp hsame]
    exact hdigest
  have hstored : Each (Settled sha fingerprint failed) (index.afterStore record stored) := by
    refine h.revise (Quiet.afterStore h.inv hrecord hfits).inv rfl
      ⟨(h.turn hrecord).1, .inr (.inr hresumable)⟩ fun other turn hne hother => ?_
    refine ⟨hother.1, hother.2.imp_left fun hmem => ?_⟩
    exact (List.mem_cons.mp hmem).resolve_left fun heq => hne (heq.trans hid.symm)
  refine wpe_lookup (fun _ _ => hstored) (hstored.imp fun _ _ hsettled => ?_)
  exact hsettled.mono fun _ hmem => List.mem_cons_of_mem _ hmem

end ChainCacheIndex

namespace ChainRuntime

open ChainCacheIndex

variable {Fingerprint Digest Env : Type} {sha : Sha256 Digest} {fingerprint : Fingerprint}
  {failed : List String} (hooks : ChainHooks Fingerprint Digest Env)

/-- A chain whose restore failed goes back to IDLE as it was before the plan. -/
theorem abandonResume_settled (plan : ChainAdmissionPlan) (record : ChainRecord Fingerprint Digest)
    (hid : record.chainId = plan.chainId) {runtime : ChainRuntime Fingerprint Digest Env}
    (h : Each (Resumes sha fingerprint failed plan) runtime.index) :
    wpe (abandonResume plan record) (fun _ => Holds (Each (Settled sha fingerprint failed)))
      (Holds (Each (Settled sha fingerprint failed))) runtime := by
  have hsettled : Each (Settled sha fingerprint failed) runtime.index :=
    h.imp fun _ _ hturn => hturn.1
  unfold abandonResume
  rw [wpe_whenDo]
  refine ⟨fun hresumed => ?_, fun _ => hsettled⟩
  rw [wpe_bind, wpe_onIndex, hid]
  refine wpe_imp (h.setRecordState_idle plan.chainId (R := Settled sha fingerprint failed) ?_ ?_) ?_ ?_
  · intro turn hturn
    refine ⟨hturn.1.1, (hturn.2 rfl hresumed).imp_right fun hresumable => .inr ?_⟩
    exact ⟨hresumable.processed_eq, hresumable.digest_eq⟩
  · exact fun _ _ hturn => hturn.1
  · intro _ next hnext
    rw [wpe_onIndex]
    apply Each.maintains_modifyRecord
    · exact fun _ => rfl
    · exact fun _ => rfl
    · exact fun _ => rfl
    · exact hnext
  · exact fun _ hnext => hnext

/-- Applying an admission settles the chains, whatever the hooks do. -/
theorem chainApplyAdmission_settled (plan : ChainAdmissionPlan) :
    Maintains (Holds (Each (Settled sha fingerprint failed))) (chainApplyAdmission hooks sha fingerprint plan) := by
  have hstable := Each.stable (Settled sha fingerprint failed)
  have hresumes := Each.stable (Resumes sha fingerprint failed plan)
  unfold chainApplyAdmission
  refine .bind (maintains_localVictims _) fun victimSeqIds => ?_
  intro runtime h
  -- applying the plan is the one call after which the chain of the plan is known to resume
  have happlied : wpe (applyPlan hooks sha fingerprint plan)
      (fun record next => record.chainId = plan.chainId ∧ Holds (Each (Resumes sha fingerprint failed plan)) next)
      (Holds (Each (Settled sha fingerprint failed))) runtime := by
    unfold applyPlan
    refine wpe_then (Maintains.whenDo (.bind (maintains_demoteAll hooks hstable.toSteady _) fun _ =>
      maintains_dropAll hooks _) runtime h) fun _ next hnext => ?_
    exact wpe_onIndex.mpr (applyAdmission_settled hnext plan)
  refine wpe_then happlied fun record next hnext => ?_
  obtain ⟨hid, hnext⟩ := hnext
  have hweaken : ∀ runtime : ChainRuntime Fingerprint Digest Env,
      Holds (Each (Resumes sha fingerprint failed plan)) runtime →
        Holds (Each (Settled sha fingerprint failed)) runtime :=
    fun _ hheld => hheld.imp fun _ _ hturn => hturn.1
  refine wpe_then_imp (maintains_localVictims _ next hnext) (fun _ next hnext => ?_) hweaken
  refine wpe_then_imp (maintains_freeAll hooks _ next hnext) (fun _ next hnext => ?_) hweaken
  rw [wpe_bind]
  apply wpe_onError
  refine wpe_imp (maintains_prepareResumedChain hooks hresumes.toSteady record next hnext) ?_ ?_
  · exact fun _ next hnext => maintains_lookup record.chainId next (hweaken next hnext)
  · exact fun _ hnext => abandonResume_settled plan record hid hnext

end ChainRuntime

/-! ## Runs of the engine -/

namespace LLMEngine

open ChainCacheIndex ChainRuntime

variable {Fingerprint Digest Env : Type} {α : Type}
  {good : ChainCacheIndex Fingerprint Digest → Prop} (config : EngineConfig Fingerprint Digest Env)

variable {method : ChainRuntime.Method Fingerprint Digest Env α}

theorem wpe_onRuntime {post : α → LLMEngine Fingerprint Digest Env → Prop}
    {bad : LLMEngine Fingerprint Digest Env → Prop} {engine : LLMEngine Fingerprint Digest Env} :
    wpe (onRuntime method) post bad engine ↔
      wpe method (fun a runtime => post a { engine with runtime := runtime })
        (fun runtime => bad { engine with runtime := runtime }) engine.runtime := by
  rw [wpe_def, wpe_def]
  unfold onRuntime
  rcases method engine.runtime with ⟨error | a, runtime⟩ <;> exact Iff.rfl

/-- The index as seen from the engine. -/
def Holds (good : ChainCacheIndex Fingerprint Digest → Prop)
    (engine : LLMEngine Fingerprint Digest Env) : Prop := good engine.runtime.index

theorem maintains_onRuntime (h : Maintains (ChainRuntime.Holds good) method) :
    Maintains (Holds good) (onRuntime method) :=
  fun engine hgood => wpe_onRuntime.mpr (h engine.runtime hgood)

theorem maintains_broadcast (h : Maintains (ChainRuntime.Holds good) method) :
    Maintains (Holds good) (broadcast config method) :=
  .onError
    (.bind (maintains_onRuntime h) fun _ =>
      .bind (maintains_onRuntime (maintains_call _)) fun _ => .pure _)
    (.write fun _ hgood => hgood)

theorem maintains_invalidation (h : Stable good) (chainId : String) (expectedSeqId : Option ℕ) :
    Maintains (Holds good) (broadcast config (chainInvalidate config.hooks chainId expectedSeqId)) :=
  maintains_broadcast config (maintains_chainInvalidate config.hooks h chainId expectedSeqId)

theorem maintains_schedulerAbort (seqId : ℕ) :
    Maintains (Holds good) (schedulerAbort seqId : Method Fingerprint Digest Env _) :=
  .write fun _ hgood => hgood

theorem maintains_popActive (seqId : ℕ) :
    Maintains (Holds good) (popActive seqId : Method Fingerprint Digest Env _) :=
  .write fun _ hgood => hgood

theorem maintains_sentDigest (plan : ChainAdmissionPlan) (chainId : String) :
    Maintains (Holds good) (sentDigest config plan chainId) :=
  .ite (.bind (maintains_onRuntime (ChainRuntime.maintains_lookup chainId)) fun _ => .pure _)
    (maintains_onRuntime (.ofExcept _))

section Admission

variable [DecidableEq Fingerprint] [DecidableEq Digest]

theorem maintains_planRequest (h : Stable good) (request : AdmissionRequest)
    (existing : Option (ChainRecord Fingerprint Digest)) (chainId recreatedId : String)
    (seqId : ℕ) (prompt : List ℤ) :
    Maintains (Holds good) (planRequest config request existing chainId recreatedId seqId prompt) := by
  have hplan : ∀ chainId, Maintains (Holds good) (onRuntime
      (chainAdmissionPlan config.hooks config.sha config.fingerprint chainId seqId prompt)) :=
    fun chainId => maintains_onRuntime (maintains_chainAdmissionPlan config.hooks _ _ _ _ _)
  unfold planRequest
  refine .catchWhen (.bind (hplan chainId) fun _ => .pure _) fun error => ?_
  refine .bind (maintains_invalidation config h _ _) fun _ => ?_
  exact .bind (hplan recreatedId) fun _ => .pure _

/-- An admission keeps whatever applying its plan keeps. -/
theorem maintains_admitRequest (h : Stable good)
    (happly : ∀ plan, Maintains (ChainRuntime.Holds good)
      (chainApplyAdmission config.hooks config.sha config.fingerprint plan))
    (request : AdmissionRequest) (freshId recreatedId : String) (addError : Option PyError) :
    Maintains (Holds good) (admitRequest config request freshId recreatedId addError) := by
  unfold admitRequest
  refine .bind ?_ fun existing => .bind (.ofExcept _) fun prompt => ?_
  · refine .ite ?_ (.pure _)
    exact .bind (maintains_onRuntime (ChainRuntime.maintains_lookup _)) fun _ => .pure _
  refine .bind (.raiseIf _ _) fun _ => .bind .read fun engine => ?_
  refine .bind (.write fun _ hgood => hgood) fun _ => .ite ?_ ?_
  · unfold admitChain
    refine .bind (maintains_planRequest config h _ _ _ _ _ _) fun planned => ?_
    refine .bind (.raiseIf _ _) fun _ => .bind (maintains_sentDigest config _ _) fun digest => ?_
    refine .bind (maintains_broadcast config
      (maintains_chainValidateAdmissionPlan config.hooks _ _ _ _ _)) fun _ => ?_
    refine .bind (maintains_broadcast config (happly _)) fun _ => .bind ?_ fun _ => ?_
    · cases addError with
      | none => exact .pure _
      | some error => exact .bind (maintains_invalidation config h _ _) fun _ => .raise _
    · exact .bind (.write fun _ hgood => hgood) fun _ => .pure _
  · unfold admitPlain
    refine .bind (.raiseIf _ _) fun _ => .bind ?_ fun _ => ?_
    · cases addError with
      | none => exact .pure _
      | some error => exact .raise _
    · exact .bind (.write fun _ hgood => hgood) fun _ => .pure _

end Admission

theorem maintains_reclaimFailed (h : Stable good) (seqId : ℕ) :
    Maintains (Holds good) (reclaimFailed config seqId) := by
  unfold reclaimFailed
  refine .bind .read fun engine => .bind ?_ fun _ =>
    .bind (maintains_popActive seqId) fun _ => maintains_schedulerAbort seqId
  cases engine.activeChainSequences.get? seqId with
  | none => exact maintains_broadcast config (maintains_call _)
  | some sequence => exact maintains_invalidation config h _ _

theorem maintains_abortRequest (h : Stable good) (seqId : ℕ) :
    Maintains (Holds good) (abortRequest config seqId) := by
  unfold abortRequest
  refine .bind .read fun engine => ?_
  cases engine.activeChainSequences.get? seqId with
  | some sequence =>
      exact .bind (maintains_invalidation config h _ _) fun _ =>
        .bind (maintains_schedulerAbort seqId) fun _ => maintains_popActive seqId
  | none =>
      cases engine.runtime.index.seqIdToChainId.get? seqId with
      | some chainId =>
          exact .bind (maintains_invalidation config h _ _) fun _ => maintains_schedulerAbort seqId
      | none =>
          exact .bind (maintains_broadcast config (maintains_call _)) fun _ =>
            maintains_schedulerAbort seqId

theorem maintains_invalidateChain (h : Stable good) (chainId : String) :
    Maintains (Holds good) (invalidateChain config chainId) := by
  unfold invalidateChain
  refine .bind (.raiseIf _ _) fun _ => ?_
  refine .bind (maintains_onRuntime (ChainRuntime.maintains_lookup chainId)) fun record => ?_
  exact .bind (maintains_popActive _) fun _ => maintains_invalidation config h _ _

theorem maintains_discardChain (h : Stable good) (chainId : String) (expectedSeqId : ℕ) :
    Maintains (Holds good) (discardChain config chainId expectedSeqId) := by
  unfold discardChain
  refine .bind (.raiseIf _ _) fun _ => .bind .read fun engine => ?_
  cases engine.runtime.index.records.get? chainId with
  | none => exact .pure _
  | some record =>
      refine .bind (.raiseIf _ _) fun _ => .bind (maintains_schedulerAbort _) fun _ => ?_
      refine .bind (maintains_popActive _) fun _ => ?_
      exact .bind (maintains_invalidation config h _ _) fun _ => .pure _

end LLMEngine
