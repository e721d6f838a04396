import SparseEngine.Materialization.Runs

/-!
# The boundaries of the coordinator

`_record_tokens` of the coordinator tests the same boundaries and hands every
whole block to `add_block`.  What `add_block` does with a block, what it
reserves, skips or raises, does not depend on the leftover tokens
(`addBlock_unreached`).  So a run of calls is the loop of `add_block` over the
pages of the whole stream, and how the stream is cut is seen only in the
leftover of a call that raised (`recordAllTokens_settles`).
-/

variable {Id Payload σ : Type}

namespace MixedPrefixRecords

open Routine

variable {hash : List ℤ → Option Id → Id} {blockSize : ℕ} {calls : MixedPrefixStores Id Payload σ}
  {seq : RecordedSequence Id} {records : MixedPrefixRecords Id Payload σ} {seqId : ℤ} {first second : List ℤ}

/-! ## The leftover tokens -/

/-- The sequence has a runtime state with this leftover, and a list of pending
blocks. -/
structure Open (records : MixedPrefixRecords Id Payload σ) (seqId : ℤ) (tokens : List ℤ) : Prop where
  state : ∃ state, records.runtimeStates.get? seqId = some state ∧ state.pendingTokens = tokens
  blocks : (records.pendingBlocks.get? seqId).isSome

theorem setPending_setPending :
    setPending seqId second (setPending seqId first records) = setPending seqId second records := by
  unfold setPending
  cases hstate : records.runtimeStates.get? seqId with
  | none => simp [hstate]
  | some state => simp [setState]

theorem Open.setPending_self (h : records.Open seqId first) : setPending seqId first records = records := by
  obtain ⟨state, hstate, rfl⟩ := h.state
  unfold setPending
  rw [hstate]
  exact congrArg (fun states => { records with runtimeStates := states }) (Dict.set_of_get? hstate)

theorem Open.setPending (h : records.Open seqId first) : (records.setPending seqId second).Open seqId second := by
  obtain ⟨state, hstate, -⟩ := h.state
  unfold MixedPrefixRecords.setPending
  rw [hstate]
  exact ⟨⟨_, Dict.get?_set_self _ _ _, rfl⟩, h.blocks⟩

theorem Open.opened_self (h : records.Open seq.seqId first) : records.opened seq = records := by
  obtain ⟨state, hstate, -⟩ := h.state
  obtain ⟨blocks, hblocks⟩ := Option.isSome_iff_exists.mp h.blocks
  unfold opened runtimeState
  rw [hstate, hblocks, Option.getD_some, Dict.set_of_get? hstate, Dict.set_of_get? hblocks]

theorem opened_open : (records.opened seq).Open seq.seqId (records.runtimeState seq).pendingTokens :=
  ⟨⟨_, Dict.get?_set_self _ _ _, rfl⟩, by rw [opened, Dict.get?_set_self]; rfl⟩

theorem Open.pendingTokens_eq (h : records.Open seq.seqId first) :
    (records.runtimeState seq).pendingTokens = first := by
  obtain ⟨state, hstate, rfl⟩ := h.state
  rw [runtimeState, hstate]

/-! ## `add_block` -/

theorem setPending_advance (stableBlockId : Id) : advance seqId stableBlockId (setPending seqId first records) =
    setPending seqId first (advance seqId stableBlockId records) := by
  unfold advance setPending
  cases hstate : records.runtimeStates.get? seqId with
  | none => simp [hstate]
  | some state => simp [setState]

theorem setPending_of_states (update : MixedPrefixRecords Id Payload σ → MixedPrefixRecords Id Payload σ)
    (hstates : ∀ records, (update records).runtimeStates = records.runtimeStates)
    (hupdate : ∀ records states, update { records with runtimeStates := states } =
      { update records with runtimeStates := states }) :
    update (setPending seqId first records) = setPending seqId first (update records) := by
  unfold setPending
  rw [hstates]
  rcases records.runtimeStates.get? seqId with _ | state
  · rfl
  · have hset := hupdate records (records.runtimeStates.set seqId { state with pendingTokens := first })
    dsimp only [setState]
    rw [hstates]
    exact hset

theorem stores_setPending : (setPending seqId first records).stores = records.stores := by
  unfold setPending
  split <;> rfl

theorem onStores_unreached {α : Type} (call : Routine σ α) :
    Unreached (setPending seqId first) (onStores call : Routine (MixedPrefixRecords Id Payload σ) α) :=
  .focus (fun _ => stores_setPending) fun part _ =>
    setPending_of_states (fun records => { records with stores := part }) (fun _ => rfl) fun _ _ => rfl

/-- Of the runtime state, `add_block` reads the end of the chain only. -/
theorem runtimeState_setPending :
    ((setPending seq.seqId first records).runtimeState seq).parentBlockId = (records.runtimeState seq).parentBlockId ∧
      ((setPending seq.seqId first records).runtimeState seq).nextLogicalBlockIdx =
        (records.runtimeState seq).nextLogicalBlockIdx := by
  unfold setPending
  cases hstate : records.runtimeStates.get? seq.seqId with
  | none => exact ⟨rfl, rfl⟩
  | some state => simp [runtimeState, setState, hstate]

theorem Open.advance (h : records.Open seqId first) (stableBlockId : Id) :
    (records.advance seqId stableBlockId).Open seqId first := by
  obtain ⟨state, hstate, rfl⟩ := h.state
  unfold MixedPrefixRecords.advance
  rw [hstate]
  exact ⟨⟨_, Dict.get?_set_self _ _ _, rfl⟩, h.blocks⟩

theorem onStores_keeps {α : Type} {good : MixedPrefixRecords Id Payload σ → Prop}
    (hgood : ∀ records stores, good records → good { records with stores := stores }) (call : Routine σ α) :
    Maintains good (onStores call) :=
  .focus (fun state (_ : True) => wpe_true call state) (fun _ _ => trivial) fun records stores h _ =>
    hgood records stores h

theorem onStores_maintains {α : Type} (call : Routine σ α) :
    Maintains (Open · seqId first) (onStores call : Routine (MixedPrefixRecords Id Payload σ) α) :=
  onStores_keeps (fun _ _ h => ⟨h.state, h.blocks⟩) call

/-! ## The blocks that become pending -/

/-- The tokens of the pending blocks of a sequence. -/
def pendingTokenIds (records : MixedPrefixRecords Id Payload σ) (seqId : ℤ) : List (List ℤ) :=
  ((records.pendingBlocks.get? seqId).getD []).map (·.tokenIds)

/-- Some of the blocks have become pending behind the others, each with its own
tokens and in their order. -/
def Kept (records next : MixedPrefixRecords Id Payload σ) (seqId : ℤ) (blocks : List (List ℤ)) : Prop :=
  ∃ kept, kept.Sublist blocks ∧ next.pendingTokenIds seqId = records.pendingTokenIds seqId ++ kept

section

variable {next last : MixedPrefixRecords Id Payload σ} {blocks rest : List (List ℤ)}

theorem Kept.none (h : next.pendingTokenIds seqId = records.pendingTokenIds seqId) :
    records.Kept next seqId blocks :=
  ⟨[], List.nil_sublist _, by rw [h, List.append_nil]⟩

theorem Kept.trans (h : records.Kept next seqId blocks) (hrest : next.Kept last seqId rest) :
    records.Kept last seqId (blocks ++ rest) := by
  obtain ⟨kept, hkept, hnext⟩ := h
  obtain ⟨more, hmore, hlast⟩ := hrest
  exact ⟨kept ++ more, hkept.append hmore, by rw [hlast, hnext, List.append_assoc]⟩

/-- When every block was reserved, they are all there. -/
theorem Kept.all (h : records.Kept next seqId blocks)
    (hcount : (next.pendingTokenIds seqId).length = (records.pendingTokenIds seqId).length + blocks.length) :
    next.pendingTokenIds seqId = records.pendingTokenIds seqId ++ blocks := by
  obtain ⟨kept, hkept, hnext⟩ := h
  rw [hnext, List.length_append, Nat.add_left_cancel_iff] at hcount
  rw [hnext, hkept.eq_of_length hcount]

theorem pendingTokenIds_advance (stableBlockId : Id) :
    (records.advance seqId stableBlockId).pendingTokenIds seqId = records.pendingTokenIds seqId := by
  unfold advance
  split <;> rfl

theorem pendingTokenIds_setPending :
    (records.setPending seqId first).pendingTokenIds seqId = records.pendingTokenIds seqId := by
  unfold setPending
  split <;> rfl

end

variable [DecidableEq Id]

/-- **`add_block` neither reads nor writes the leftover tokens.** -/
theorem addBlock_unreached (blockTokens : List ℤ) :
    Unreached (setPending seq.seqId first) (addBlock hash blockSize calls seq blockTokens) := by
  have hadvance (stableBlockId : Id) : Unreached (setPending seq.seqId first)
      (write (advance seq.seqId stableBlockId) : Routine (MixedPrefixRecords Id Payload σ) Unit) :=
    .write fun _ => setPending_advance stableBlockId
  unfold addBlock
  refine .read (fun records => ?_) fun records => ?_
  · dsimp only
    rw [runtimeState_setPending.1, runtimeState_setPending.2]
  refine .bind (onStores_unreached _) fun held => .ite (hadvance _) ?_
  refine .read (fun records => by rw [stores_setPending]) fun records => .ite ?_ ?_
  · refine .bind (.write fun _ => ?_) fun _ => hadvance _
    exact setPending_of_states _ (fun _ => rfl) fun _ _ => rfl
  · refine .bind (onStores_unreached _) fun reserved => .ite ?_ (.write fun _ => ?_)
    · refine .bind (.onError (onStores_unreached _) (onStores_unreached _)) fun payload => ?_
      refine .bind (.write fun _ => ?_) fun _ => hadvance _
      exact setPending_of_states _ (fun _ => rfl) fun _ _ => rfl
    · exact setPending_of_states _ (fun _ => rfl) fun _ _ => rfl

theorem addBlock_maintains (blockTokens : List ℤ) :
    Maintains (Open · seq.seqId first) (addBlock hash blockSize calls seq blockTokens) := by
  have hadvance (stableBlockId : Id) : Maintains (Open · seq.seqId first)
      (write (advance seq.seqId stableBlockId) : Routine (MixedPrefixRecords Id Payload σ) Unit) :=
    .write fun _ h => h.advance stableBlockId
  unfold addBlock
  refine .bind .read fun records => .bind (onStores_maintains _) fun held => .ite (hadvance _) ?_
  refine .bind .read fun records => .ite ?_ ?_
  · exact .bind (.write fun _ h => ⟨h.state, h.blocks⟩) fun _ => hadvance _
  · refine .bind (onStores_maintains _) fun reserved => .ite ?_ (.write fun _ h => ⟨h.state, h.blocks⟩)
    refine .bind (.onError (onStores_maintains _) (onStores_maintains _)) fun payload => ?_
    refine .bind (.write fun _ h => ⟨h.state, ?_⟩) fun _ => hadvance _
    rw [appendPending, Dict.get?_set_self]
    rfl

theorem addBlock_kept (blockTokens : List ℤ) :
    wpe (addBlock hash blockSize calls seq blockTokens) (fun _ next => records.Kept next seq.seqId [blockTokens])
      (fun next => records.Kept next seq.seqId [blockTokens]) records := by
  have hstores {α : Type} (call : Routine σ α) : Maintains
      (fun next : MixedPrefixRecords Id Payload σ =>
        next.pendingTokenIds seq.seqId = records.pendingTokenIds seq.seqId) (onStores call) :=
    onStores_keeps (fun _ _ h => h) call
  rw [addBlock, wpe_get]
  refine wpe_bind.mpr (wpe_imp (hstores _ records rfl) (fun held next hnext => ?_) fun next => .none)
  rw [wpe_ite]
  refine ⟨fun _ => .none ((pendingTokenIds_advance _).trans hnext), fun _ => ?_⟩
  rw [wpe_get, wpe_ite]
  refine ⟨fun _ => .none ((pendingTokenIds_advance _).trans hnext), fun _ => ?_⟩
  refine wpe_bind.mpr (wpe_imp (hstores _ next hnext) (fun reserved next hnext => ?_) fun next => .none)
  rw [wpe_ite]
  refine ⟨fun _ => ?_, fun _ => .none hnext⟩
  refine wpe_bind.mpr (wpe_imp ((hstores _).onError (hstores _) next hnext) (fun payload next hnext => ?_)
    fun next => .none)
  -- the one place where a block becomes pending
  refine ⟨[blockTokens], .refl _, (pendingTokenIds_advance _).trans ?_⟩
  rw [← hnext, pendingTokenIds, appendPending, Dict.get?_set_self, Option.getD_some, List.map_append]
  rfl

variable (hash blockSize calls seq records) in
theorem addBlocks_kept (blocks : List (List ℤ)) :
    wpe (forEach (addBlock hash blockSize calls seq) blocks)
      (fun _ next => records.Kept next seq.seqId blocks) (fun next => records.Kept next seq.seqId blocks)
      records := by
  induction blocks generalizing records with
  | nil => exact .none rfl
  | cons block rest ih =>
      refine wpe_bind.mpr (wpe_imp (addBlock_kept block) (fun _ next hnext => ?_) fun next hnext => ?_)
      · exact wpe_imp (ih next) (fun _ _ => hnext.trans) fun _ => hnext.trans
      · have hrest : next.Kept next seq.seqId rest := .none rfl
        exact hnext.trans hrest

/-! ## A call, and a run of calls -/

/-- A call that hands blocks to `add_block` and keeps a leftover ends like the
loop over the blocks, with the leftover in place.  A call that raises may have
got to another leftover. -/
def Settles (seqId : ℤ) (leftover : List ℤ)
    (outcome expected : Except PyError Unit × MixedPrefixRecords Id Payload σ) : Prop :=
  outcome.1 = expected.1 ∧ ∃ tokens, outcome.2 = setPending seqId tokens expected.2 ∧
    (outcome.1 = .ok () → tokens = leftover)

omit [DecidableEq Id] in
/-- The blocks of a loop, handed over with another leftover in place. -/
theorem loop_settles {body : List ℤ → Routine (MixedPrefixRecords Id Payload σ) Unit}
    (hbody : ∀ tokens blockTokens, Unreached (setPending seqId tokens) (body blockTokens))
    (blocks : List (List ℤ)) (leftover tokens : List ℤ) (records : MixedPrefixRecords Id Payload σ) :
    Settles seqId leftover
      ((forEach body blocks >>= fun _ => write (setPending seqId leftover)) (setPending seqId tokens records))
      (forEach body blocks records) := by
  have hloop := Unreached.forEach (fun block (_ : block ∈ blocks) => hbody tokens block) records
  rw [bind_apply, hloop]
  rcases forEach body blocks records with ⟨error | _, next⟩
  · exact ⟨rfl, tokens, rfl, fun hok => nomatch hok⟩
  · exact ⟨rfl, leftover, setPending_setPending, fun _ => rfl⟩

theorem recordTokensFrom_eq (hsize : 0 < blockSize) (tokenIds : List ℤ) (offset : ℕ) :
    recordTokensFrom hash blockSize calls seq tokenIds offset =
      forEach (addBlock hash blockSize calls seq) (Pages.complete blockSize (tokenIds.drop offset)) >>=
        fun _ => write (setPending seq.seqId (Pages.tail blockSize (tokenIds.drop offset))) := by
  unfold recordTokensFrom
  dsimp only
  rw [PrefixRecords.pyRange_eq hsize, PrefixRecords.leftover_eq, ← Pages.map_slices_eq_complete, forEach_map]

variable {pending : List ℤ}

variable (hash calls) in
/-- **One call** is the loop of `add_block` over the pages of the leftover and
its tokens. -/
theorem recordTokens_settles (hsize : 0 < blockSize) (tokenIds : List ℤ)
    (hopen : records.Open seq.seqId pending) (hpending : pending.length < blockSize)
    (htext : seq.isMultimodal = false) :
    Settles seq.seqId (Pages.tail blockSize (pending ++ tokenIds))
      (recordTokens hash blockSize calls seq tokenIds records)
      (forEach (addBlock hash blockSize calls seq) (Pages.complete blockSize (pending ++ tokenIds)) records) := by
  have hadd (tokens blockTokens : List ℤ) : Unreached (setPending seq.seqId tokens)
      (addBlock hash blockSize calls seq blockTokens) := addBlock_unreached blockTokens
  unfold recordTokens
  rw [htext, if_neg Bool.false_ne_true]
  by_cases hnil : tokenIds = []
  · rw [if_pos hnil, hnil, List.append_nil, Pages.complete_of_lt hpending, Pages.tail_of_lt hpending]
    exact ⟨rfl, pending, hopen.setPending_self.symm, fun _ => rfl⟩
  rw [if_neg hnil, get_apply]
  dsimp only
  rw [set_apply]
  rw [hopen.opened_self, hopen.pendingTokens_eq]
  by_cases hempty : pending = []
  · -- the stream ends with a complete page
    rw [if_pos hempty, recordTokensFrom_eq hsize, List.drop_zero, hempty, List.nil_append]
    have hloop := loop_settles hadd (Pages.complete blockSize tokenIds) (Pages.tail blockSize tokenIds)
      pending records
    rwa [hopen.setPending_self] at hloop
  rw [if_neg hempty, set_apply]
  by_cases hfill : (pending ++ tokenIds.take (min (blockSize - pending.length) tokenIds.length)).length = blockSize
  · -- the tokens complete the page the stream ends in
    rw [if_pos hfill]
    rw [List.length_append, List.length_take, Nat.min_eq_left (Nat.min_le_right _ _)] at hfill
    have htake : min (blockSize - pending.length) tokenIds.length = blockSize - pending.length := by omega
    have hneed : pending.length + (blockSize - pending.length) = blockSize := by omega
    rw [htake, Pages.complete_append_of_fill hsize hneed (by omega),
      Pages.tail_append_of_fill hsize hneed (by omega), forEach, bind_apply, bind_apply, hadd]
    rcases addBlock hash blockSize calls seq (pending ++ tokenIds.take (blockSize - pending.length)) records
      with ⟨error | _, next⟩
    · exact ⟨rfl, _, rfl, fun hok => by cases hok⟩
    · dsimp only
      rw [set_apply]
      rw [setPending_setPending, recordTokensFrom_eq hsize]
      exact loop_settles hadd _ _ _ _
  · -- the tokens end in the page the stream ends in
    rw [if_neg hfill]
    rw [List.length_append, List.length_take, Nat.min_eq_left (Nat.min_le_right _ _)] at hfill
    have htake : min (blockSize - pending.length) tokenIds.length = tokenIds.length := by omega
    have hlt : (pending ++ tokenIds).length < blockSize := by
      rw [List.length_append]
      omega
    rw [htake, List.take_length, Pages.complete_of_lt hlt, Pages.tail_of_lt hlt]
    exact ⟨rfl, _, rfl, fun _ => rfl⟩

/-- The calls, one after the other. -/
def recordAllTokens (hash : List ℤ → Option Id → Id) (blockSize : ℕ) (calls : MixedPrefixStores Id Payload σ)
    (seq : RecordedSequence Id) (chunks : List (List ℤ)) : Routine (MixedPrefixRecords Id Payload σ) Unit :=
  forEach (recordTokens hash blockSize calls seq) chunks

variable (hash calls) in
/-- **A run** is the loop of `add_block` over the pages of the whole stream. -/
theorem recordAllTokens_settles (hsize : 0 < blockSize) (chunks : List (List ℤ))
    (hopen : records.Open seq.seqId pending) (hpending : pending.length < blockSize)
    (htext : seq.isMultimodal = false) :
    Settles seq.seqId (Pages.tail blockSize (pending ++ chunks.flatten))
      (recordAllTokens hash blockSize calls seq chunks records)
      (forEach (addBlock hash blockSize calls seq) (Pages.complete blockSize (pending ++ chunks.flatten))
        records) := by
  induction chunks generalizing pending records with
  | nil =>
      rw [List.flatten_nil, List.append_nil, Pages.complete_of_lt hpending, Pages.tail_of_lt hpending]
      exact ⟨rfl, pending, hopen.setPending_self.symm, fun _ => rfl⟩
  | cons chunk rest ih =>
      have hcall : Settles seq.seqId (Pages.tail blockSize (pending ++ chunk))
        (recordTokens hash blockSize calls seq chunk records) _ :=
          recordTokens_settles hash calls hsize chunk hopen hpending htext
      have hpages : Pages.complete blockSize (pending ++ chunk ++ rest.flatten) = _ :=
        Pages.complete_append hsize
      have htail : Pages.tail blockSize (pending ++ chunk ++ rest.flatten) = _ := Pages.tail_append hsize
      have hkeep : Maintains (Open · seq.seqId pending) (forEach (addBlock hash blockSize calls seq)
        (Pages.complete blockSize (pending ++ chunk))) := .forEach fun block _ => addBlock_maintains block
      have hmid := wpe_def.mp (hkeep records hopen)
      rw [List.flatten_cons, ← List.append_assoc, hpages, htail, recordAllTokens, forEach, forEach_append,
        bind_apply, bind_apply]
      rcases hloop : forEach (addBlock hash blockSize calls seq)
        (Pages.complete blockSize (pending ++ chunk)) records with ⟨error | _, mid⟩
      · rw [hloop] at hcall
        obtain ⟨hresult, tokens, hnext, -⟩ := hcall
        -- a block that raises ends the run as it ends the one call
        rcases hrun : recordTokens hash blockSize calls seq chunk records with ⟨error' | _, next⟩
        · rw [hrun] at hresult hnext
          exact ⟨hresult, tokens, hnext, fun hok => by cases hok⟩
        · rw [hrun] at hresult
          cases hresult
      · rw [hloop] at hcall hmid
        obtain ⟨hresult, tokens, hnext, hleft⟩ := hcall
        rw [hresult] at hleft
        obtain rfl := hleft rfl
        have hcallRun : recordTokens hash blockSize calls seq chunk records =
          (.ok (), setPending seq.seqId (Pages.tail blockSize (pending ++ chunk)) mid) :=
            Prod.ext hresult hnext
        rw [hcallRun]
        have hlt : (Pages.tail blockSize (pending ++ chunk)).length < blockSize := by
          rw [Pages.length_tail]
          exact Nat.mod_lt _ hsize
        have hrest := ih hmid.setPending hlt
        rw [Unreached.forEach (fun block _ => addBlock_unreached block)] at hrest
        obtain ⟨hresult, tokens, hnext, hleft⟩ := hrest
        rw [setPending_setPending] at hnext
        exact ⟨hresult, tokens, hnext, hleft⟩

/-! ## The first call -/

theorem recordTokens_opened {tokenIds : List ℤ} (hnil : tokenIds ≠ []) :
    recordTokens hash blockSize calls seq tokenIds records =
      if seq.isMultimodal then (.ok (), records)
      else recordTokens hash blockSize calls seq tokenIds (records.opened seq) := by
  have hopen : (records.opened seq).Open seq.seqId (records.runtimeState seq).pendingTokens := opened_open
  unfold recordTokens
  by_cases htext : seq.isMultimodal = true
  · rw [if_pos htext, if_pos htext]
    rfl
  · rw [if_neg htext, if_neg htext, if_neg hnil, bind_apply, get_apply, read_apply]
    dsimp only
    rw [bind_apply, set_apply, write_apply]
    dsimp only
    rw [hopen.opened_self, hopen.pendingTokens_eq]

theorem recordTokens_nil : recordTokens hash blockSize calls seq [] records = (.ok (), records) := by
  unfold recordTokens
  split <;> rfl

theorem recordAllTokens_opened {chunks : List (List ℤ)} (htext : seq.isMultimodal = false)
    (hnil : chunks.flatten ≠ []) :
    recordAllTokens hash blockSize calls seq chunks records =
      recordAllTokens hash blockSize calls seq chunks (records.opened seq) := by
  induction chunks with
  | nil => exact absurd rfl hnil
  | cons chunk rest ih =>
      rw [recordAllTokens, forEach, bind_apply, bind_apply]
      by_cases hchunk : chunk = []
      · rw [hchunk, recordTokens_nil, recordTokens_nil]
        refine ih ?_
        rwa [hchunk, List.flatten_cons, List.nil_append] at hnil
      · rw [recordTokens_opened hchunk, htext, if_neg Bool.false_ne_true]

theorem recordAllTokens_multimodal (htext : seq.isMultimodal = true) (chunks : List (List ℤ)) :
    recordAllTokens hash blockSize calls seq chunks records = (.ok (), records) := by
  induction chunks with
  | nil => rfl
  | cons chunk rest ih =>
      have hcall : recordTokens hash blockSize calls seq chunk records = (.ok (), records) := by
        rw [recordTokens, if_pos htext, pure_apply]
      rw [recordAllTokens, forEach, bind_apply, hcall]
      exact ih

variable (hash calls seq) in
/-- **The coordinator does not depend on chunking either.** -/
theorem recordAllTokens_chunking (hsize : 0 < blockSize)
    (hfresh : records.runtimeStates.get? seq.seqId = none) (chunks : List (List ℤ)) :
    let run := recordAllTokens hash blockSize calls seq chunks records
    let whole := recordTokens hash blockSize calls seq chunks.flatten records
    let blocks := forEach (addBlock hash blockSize calls seq) (Pages.complete blockSize chunks.flatten)
      (records.opened seq)
    run.1 = whole.1 ∧ (∃ leftover, run.2 = setPending seq.seqId leftover whole.2) ∧
      (run.1 = .ok () → run.2 = whole.2) ∧
      (seq.isMultimodal = false → chunks.flatten ≠ [] →
        Settles seq.seqId (Pages.tail blockSize chunks.flatten) run blocks) ∧
      records.Kept run.2 seq.seqId (Pages.complete blockSize chunks.flatten) := by
  intro run whole blocks
  have hsetPending : setPending seq.seqId [] records = records := by
    unfold setPending
    rw [hfresh]
  by_cases htext : seq.isMultimodal = true
  · have hrun : run = (.ok (), records) := recordAllTokens_multimodal htext chunks
    have hwhole : whole = (.ok (), records) := by
      rw [show whole = recordTokens hash blockSize calls seq chunks.flatten records from rfl, recordTokens,
        if_pos htext, pure_apply]
    rw [hrun, hwhole]
    refine ⟨rfl, ⟨[], hsetPending.symm⟩, fun _ => rfl, fun hno => ?_, .none rfl⟩
    rw [hno] at htext
    exact nomatch htext
  rw [Bool.not_eq_true] at htext
  by_cases hnil : chunks.flatten = []
  · have hrun : ∀ chunks : List (List ℤ), chunks.flatten = [] →
        recordAllTokens hash blockSize calls seq chunks records = (.ok (), records) := by
      intro chunks
      induction chunks with
      | nil => exact fun _ => rfl
      | cons chunk rest ih =>
          intro hflat
          obtain ⟨hchunk, hrest⟩ := List.append_eq_nil_iff.mp hflat
          rw [recordAllTokens, forEach, bind_apply, hchunk, recordTokens_nil]
          exact ih hrest
    have hwhole : whole = (.ok (), records) := by
      rw [show whole = recordTokens hash blockSize calls seq chunks.flatten records from rfl, hnil, recordTokens_nil]
    rw [show run = (.ok (), records) from hrun chunks hnil, hwhole]
    exact ⟨rfl, ⟨[], hsetPending.symm⟩, fun _ => rfl, fun _ hne => absurd hnil hne, .none rfl⟩
  · -- both start with the opened records
    have hpending : (records.runtimeState seq).pendingTokens = [] := by
      rw [runtimeState, hfresh]
    have hopen : (records.opened seq).Open seq.seqId [] := hpending ▸ opened_open
    have hrun : Settles seq.seqId (Pages.tail blockSize chunks.flatten) run blocks := by
      have hsettles := recordAllTokens_settles hash calls hsize chunks hopen hsize htext
      rwa [← recordAllTokens_opened htext hnil] at hsettles
    have hwhole : Settles seq.seqId (Pages.tail blockSize chunks.flatten) whole blocks := by
      have hsettles := recordTokens_settles hash calls hsize chunks.flatten hopen hsize htext
      rw [show whole = _ from recordTokens_opened hnil, htext, if_neg Bool.false_ne_true]
      exact hsettles
    obtain ⟨hresult, tokens, hstate, hleft⟩ := hrun
    obtain ⟨hresult', tokens', hstate', hleft'⟩ := hwhole
    refine ⟨hresult.trans hresult'.symm, ⟨tokens, ?_⟩, fun hok => ?_, fun _ _ => ⟨hresult, tokens, hstate, hleft⟩, ?_⟩
    · rw [hstate, hstate', setPending_setPending]
    · rw [hstate, hstate', hleft hok, hleft' (hresult'.trans (hresult.symm.trans hok))]
    · -- neither `opened` nor the leftover is seen in the pending blocks
      have hopened : (records.opened seq).pendingTokenIds seq.seqId = records.pendingTokenIds seq.seqId := by
        rw [pendingTokenIds, opened, Dict.get?_set_self]
        rfl
      have hkept : (records.opened seq).Kept blocks.2 seq.seqId (Pages.complete blockSize chunks.flatten) := by
        have hloop := wpe_def.mp (addBlocks_kept hash blockSize calls seq (records.opened seq)
          (Pages.complete blockSize chunks.flatten))
        split at hloop <;> exact hloop
      rw [hstate]
      unfold Kept at hkept ⊢
      rwa [pendingTokenIds_setPending, ← hopened]

end MixedPrefixRecords

open Routine PrefixRecords MixedPrefixRecords in
/-- **Materialization does not depend on chunking.** Whatever calls cut the
stream of a sequence, with calls for other sequences in between, what is kept is
what one call with the whole stream keeps.  The coordinator, however it gets the
tokens, hands the same blocks to `add_block` in the same order, and what it
reserves of them is pending with its own tokens. -/
theorem materialization_chunking {Slot Block : Type} [DecidableEq Id] (hash : List ℤ → Option Id → Id)
    {blockSize : ℕ} (hsize : 0 < blockSize)
    (makePayloads : List (List Slot) → Except PyError (List Payload)) (seq : RecordedSequence Id)
    (calls : List (RecordCall Id Slot)) (records : PrefixRecords Id Slot Payload)
    (hseq : ∀ call ∈ calls, seq.seqId = call.seq.seqId → seq = call.seq)
    (hseqs : ∀ first ∈ calls, ∀ second ∈ calls, first.seq.seqId = second.seq.seqId → first.seq = second.seq)
    (hcalls : ∀ call ∈ calls, records.Unrecorded call.seq) (hfresh : records.Unrecorded seq) :
    let stream := streamOf seq.seqId calls
    let tokens := stream.map Prod.fst
    let run := recordAll hash blockSize makePayloads calls records
    let whole := recordFrozenPrefixMaterialization hash blockSize makePayloads seq tokens
      (stream.map Prod.snd) records
    (Makes blockSize makePayloads → run.1 = .ok () ∧ whole.1 = .ok ()) ∧
      (run.1 = .ok () → Materialized hash blockSize seq stream run.2 ∧
        (run.2.pendingBlocks seq.seqId).map (·.tokenIds) = Pages.complete blockSize tokens ∧
        (whole.1 = .ok () → run.2.kept seq = whole.2.kept seq)) ∧
      ∀ (stores : MixedPrefixStores Id Block σ) (mixed : MixedPrefixRecords Id Block σ)
        (chunks : List (List ℤ)), mixed.runtimeStates.get? seq.seqId = none → chunks.flatten = tokens →
        let run := recordAllTokens hash blockSize stores seq chunks mixed
        let whole := recordTokens hash blockSize stores seq tokens mixed
        run.1 = whole.1 ∧ (∃ leftover, run.2 = setPending seq.seqId leftover whole.2) ∧
          (run.1 = .ok () → run.2 = whole.2) ∧
          (seq.isMultimodal = false → tokens ≠ [] →
            Settles seq.seqId (Pages.tail blockSize tokens) run
              (forEach (addBlock hash blockSize stores seq) (Pages.complete blockSize tokens)
                (mixed.opened seq))) ∧
          mixed.Kept run.2 seq.seqId (Pages.complete blockSize tokens) ∧
          ((run.2.pendingTokenIds seq.seqId).length =
              (mixed.pendingTokenIds seq.seqId).length + (Pages.complete blockSize tokens).length →
            run.2.pendingTokenIds seq.seqId =
              mixed.pendingTokenIds seq.seqId ++ Pages.complete blockSize tokens) := by
  intro stream tokens run whole
  have hrun := wpe_def.mp (recordAll_recorded makePayloads hsize hseq hseqs
    (fun call hcall => ⟨[], (hcalls call hcall).recorded hash blockSize⟩) (hfresh.recorded hash blockSize))
  have hwhole := wpe_def.mp
    (recordFrozen_recorded makePayloads stream hsize (hfresh.recorded hash blockSize))
  refine ⟨fun hmakes => ⟨?_, ?_⟩, fun hok => ?_, fun stores mixed chunks hmixed hchunks => ?_⟩
  · -- a run that raises has met a payload that could not be made
    rcases hresult : run.1 with error | _
    · rw [hresult] at hrun
      exact absurd hmakes hrun
    · rfl
  · rcases hresult : whole.1 with error | _
    · rw [hresult] at hwhole
      exact absurd hmakes hwhole
    · rfl
  · rw [hok] at hrun
    rw [List.nil_append] at hrun
    refine ⟨hrun.materialized hsize, hrun.map_tokenIds, fun hok' => ?_⟩
    rw [hok', List.nil_append] at hwhole
    rw [hrun.kept_eq, hwhole.kept_eq]
  · rw [← hchunks]
    obtain ⟨hresult, hstate, hreturn, hsettles, hkept⟩ :=
      recordAllTokens_chunking hash stores seq hsize hmixed chunks
    exact ⟨hresult, hstate, hreturn, hsettles, hkept, hkept.all⟩

/-! ## A run with two sequences -/

namespace PrefixRecords

/-- A sequence that hit one block of two tokens. -/
def hitSequence : RecordedSequence ℤ := ⟨7, false, 1, some 5⟩

/-- Three of its tokens in two calls, with a call for another sequence in
between. -/
def interleavedCalls : List (RecordCall ℤ ℕ) :=
  [⟨hitSequence, [(1, 10)]⟩, ⟨⟨8, false, 0, none⟩, [(4, 40), (5, 50)]⟩, ⟨hitSequence, [(2, 20), (3, 30)]⟩]

theorem materialization_chunking_interleaved :
    let run := recordAll (fun tokens parent => tokens.sum + parent.getD 0) 2
      (fun blocks => .ok (blocks.map fun _ => ())) interleavedCalls ⟨Dict.empty, Dict.empty⟩
    run.1 = .ok () ∧ (run.2.pendingBlocks 7).map (·.tokenIds) = [[1, 2]] ∧
      (run.2.runtimeState hitSequence).pendingTokens = [3] := by
  have hmakes : Makes 2 fun blocks : List (List ℕ) => .ok (blocks.map fun _ => ()) :=
    fun blocks _ => ⟨_, rfl, List.length_map _⟩
  obtain ⟨hreturns, hkept, -⟩ := @materialization_chunking ℤ Unit Unit ℕ Unit _
    (fun tokens parent => tokens.sum + parent.getD 0) 2 (by decide)
    (fun blocks => .ok (blocks.map fun _ => ())) hitSequence interleavedCalls ⟨Dict.empty, Dict.empty⟩
    (by simp [interleavedCalls, hitSequence]) (by simp [interleavedCalls, hitSequence])
    (fun _ _ => rfl) rfl
  have hok := (hreturns hmakes).1
  obtain ⟨hstream, htokens, -⟩ := hkept hok
  exact ⟨hok, htokens, hstream.tokens⟩

end PrefixRecords
