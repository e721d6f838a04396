import SparseEngine.AsyncScheduling.Ending

/-!
# The synchronous step

It runs while no step is pending.  The outputs it publishes are those that
`postprocess` accepts, and the requests that end with them are released at
once.

`Sound.answered` is what the step does to the view: one output for each
answered row, issued, sampled and published at once.  `processed_sound` reads
the rows off `Processed`, and `stepSync_settled` goes through schedule, device
run, answers and releases.
-/

namespace Sequence

variable {Id : Type}

theorem endsWith_congr {seq later : Sequence Id} (h : later.history = seq.history) (configured : List ℤ) (token : ℤ) :
    later.endsWith configured token = seq.endsWith configured token := by
  obtain ⟨_, htokens, hprompt, _, hmax, _, _, _, hignore, heos⟩ := history_eq_iff.mp h
  unfold endsWith numCompletionTokens
  rw [hignore, heos, htokens, hprompt, hmax]

end Sequence

namespace AsyncView

variable [PrefixReuse] {Id : Type} {sampled : ℕ → ℕ → ℤ} {configured : List ℤ} {held : List ℕ}
  {view : AsyncView Id}

section

variable (h : view.Sound sampled configured held [] []) (hpending : view.pending = [])

include h hpending

/-- Nothing is due without a pending step. -/
theorem Sound.numPendingOutputs_eq (seqId : ℕ) : (view.seqs seqId).numPendingOutputs = 0 := by
  have hdue : view.due sampled = [] := by
    unfold due
    rw [hpending, List.flatMap_nil]
  rw [h.outstanding, hdue]
  rfl

/-- A synchronous step publishes an output of every request of `seqIds`.  Those
that end with it are still queued. -/
theorem Sound.answered {seqs : ℕ → Sequence Id} {waiting decoding seqIds closing : List ℕ}
    (token : ℕ → ℤ) (hnodup : seqIds.Nodup) (howned : ∀ seqId ∈ seqIds, seqId ∈ view.owned held)
    (hothers : ∀ seqId ∉ seqIds, (seqs seqId).history = (view.seqs seqId).history)
    (happended : ∀ seqId ∈ seqIds, (seqs seqId).history = ((view.seqs seqId).appendToken (token seqId)).history)
    (hunspent : ∀ seqId ∈ seqIds, (view.seqs seqId).Unspent) (hwell : ∀ seqId, (seqs seqId).Wellformed)
    (hdecoding : ∀ seqId ∈ decoding, (seqs seqId).Decoding) (hperm : (waiting ++ decoding).Perm (view.owned held))
    (hclosing : ∀ seqId, seqId ∈ closing ↔ seqId ∈ seqIds ∧
      ((view.seqs seqId).appendToken (token seqId)).endsWith configured (token seqId) = true) :
    Sound sampled configured [] [] closing { view with
      seqs := seqs
      waiting := waiting
      decoding := decoding
      history := { view.history with
        issued := view.history.issued ++ seqIds.map fun seqId => (seqId, token seqId)
        sampled := view.history.sampled ++ seqIds.map fun seqId => (seqId, token seqId)
        published := view.history.published ++ seqIds.map fun seqId => (seqId, token seqId) } } := by
  have hmem : ∀ seqId, seqId ∈ waiting ++ decoding ++ [] ↔ seqId ∈ view.owned held := by
    intro seqId
    rw [List.append_nil]
    exact hperm.mem_iff
  have hout : ∀ (outputs : List (ℕ × ℤ)) (seqId : ℕ),
      outputsOf seqId (outputs ++ seqIds.map fun other => (other, token other)) =
        outputsOf seqId outputs ++ if seqId ∈ seqIds then [token seqId] else [] := by
    intro outputs seqId
    rw [outputsOf_append, outputsOf_map hnodup]
  have hnone := h.numPendingOutputs_eq hpending
  -- an answered request has one completion token more, nobody an output in flight:
  have hcounts : ∀ seqId, (seqs seqId).numPendingOutputs = 0 ∧ (seqs seqId).maxTokens = (view.seqs seqId).maxTokens ∧
      (seqs seqId).numCompletionTokens = (view.seqs seqId).numCompletionTokens +
        if seqId ∈ seqIds then 1 else 0 := by
    intro seqId
    by_cases hin : seqId ∈ seqIds
    · have hhistory := happended seqId hin
      obtain ⟨_, _, _, hpend, hmax, _⟩ := Sequence.history_eq_iff.mp hhistory
      refine ⟨hpend.trans (hnone seqId), hmax, ?_⟩
      rw [if_pos hin, Sequence.numCompletionTokens_congr hhistory]
      show (view.seqs seqId).numTokens + 1 - (view.seqs seqId).numPromptTokens =
        (view.seqs seqId).numTokens - (view.seqs seqId).numPromptTokens + 1
      omega
    · have hhistory := hothers seqId hin
      obtain ⟨_, _, _, hpend, hmax, _⟩ := Sequence.history_eq_iff.mp hhistory
      refine ⟨hpend.trans (hnone seqId), hmax, ?_⟩
      rw [if_neg hin, Int.add_zero, Sequence.numCompletionTokens_congr hhistory]
  constructor
  · -- the queues and the budgets
    refine ⟨hwell, hdecoding, fun seqId _ => (hcounts seqId).1, ?_, h.queued.inflight, fun seqId => ?_⟩
    · show (waiting ++ decoding ++ []).Nodup
      rw [List.append_nil]
      exact hperm.nodup_iff.mpr h.queued.nodup
    · obtain ⟨hpend, hmax, hcompletion⟩ := hcounts seqId
      show (seqs seqId).numCompletionTokens + (seqs seqId).numPendingOutputs ≤ (seqs seqId).maxTokens
      rw [hpend, hmax, hcompletion]
      have hbudget := h.queued.budget seqId
      rw [hnone seqId] at hbudget
      split
      · next hin =>
        have hmore := hunspent seqId hin
        unfold Sequence.Unspent at hmore
        rw [hnone seqId] at hmore
        omega
      · omega
  · refine h.accounted.moved hmem fun seqId hnone => ?_
    -- a request never admitted is not in the batch:
    have hnot : seqId ∉ seqIds := by
      intro hin
      have hsome := h.accounted.admitted seqId (.inl (howned seqId hin))
      rw [hnone] at hsome
      exact absurd hsome Bool.false_ne_true
    rw [hout, hout, if_neg hnot, List.append_nil, List.append_nil]
    exact h.accounted.nothing hnone
  · intro step hstep
    rw [show view.pending = [] from hpending] at hstep
    exact absurd hstep List.not_mem_nil
  · exact h.tickets
  · exact h.results
  · exact h.order
  · exact fun _ hin => absurd hin List.not_mem_nil
  · intro seqId
    show (seqs seqId).numPendingOutputs = (outputsOf seqId ([] ++ view.due sampled)).length
    rw [(hcounts seqId).1, ← h.outstanding seqId, hnone seqId]
  · intro seqId
    have hissued := h.issued seqId
    have hdue : outputsOf seqId ([] ++ view.due sampled) = [] := by
      unfold due
      rw [hpending]
      rfl
    show outputsOf seqId (view.history.issued ++ _) =
      outputsOf seqId (view.history.sampled ++ _) ++ outputsOf seqId ([] ++ view.due sampled)
    rw [hout, hout, hissued, hdue, List.append_nil, List.append_nil]
  · intro seqId request hrequest
    have htracked := h.tracked seqId request hrequest
    by_cases hin : seqId ∈ seqIds
    · have howns := howned seqId hin
      have hunended : seqId ∉ view.history.ended := fun hended => h.accounted.gone seqId hended howns
      refine htracked.extended howns hunended ((htracked.follows.append _).of_history (happended seqId hin))
        ((hout _ seqId).trans (by rw [if_pos hin])) ((hout _ seqId).trans (by rw [if_pos hin])) rfl
        (fun hdiscarded => h.not_ended hdiscarded howns) ?_
      rw [hclosing, and_iff_right hin]
      show _ ↔ (seqs seqId).endsWith configured (token seqId) = true
      rw [Sequence.endsWith_congr (happended seqId hin)]
    · have hsame : ∀ outputs : List (ℕ × ℤ), outputsOf seqId (outputs ++ seqIds.map fun other =>
          (other, token other)) = outputsOf seqId outputs := by
        intro outputs
        rw [hout, if_neg hin, List.append_nil]
      have hopen : seqId ∉ closing := fun hlast => hin ((hclosing seqId).mp hlast).1
      exact htracked.mono (htracked.follows.of_history (hothers seqId hin)) (hsame _) (hsame _) rfl rfl
        (hmem seqId).mp (iff_of_false hopen List.not_mem_nil) (Finset.Subset.refl _)

end

end AsyncView

namespace AsyncScheduler

open Routine AsyncView Scheduler

variable [PrefixReuse] {Id Env Key Resource : Type} {ledger : Env → List (Sequence Id)}
  {engine : AsyncEngine Id Env Key Resource} {state : AsyncScheduler Id Env}

/-- A synchronous run of the model, which may raise. -/
theorem runSync_view (hquiet : Unobtrusive ledger engine) (batch : ScheduleResult) :
    wpe (runSync engine batch) (fun _ next => next.view = state.view) (fun next => next.view = state.view) state := by
  unfold runSync
  rw [wpe_get, wpe_bind]
  refine wpe_ofExcept (fun execution hexecution => ?_) rfl
  rw [wpe_set]
  have hresults : execution.results = state.execution.results := by
    unfold AsyncExecution.prepareSynchronousExecution at hexecution
    split at hexecution
    · rw [← Except.ok.inj hexecution]
    · exact nomatch hexecution
  have hview : ({ state with execution := execution } : AsyncScheduler Id Env).view =
      state.view := by
    show { state.view with results := execution.results } = state.view
    rw [hresults]
    rfl
  refine (view_call (hquiet.run batch.seqs batch.isPrefill)).wpe (fun _ next hnext => ?_) fun next hnext => ?_
  · exact hnext.trans hview
  · exact hnext.trans hview

variable {closing : List ℕ} {bad : AsyncScheduler Id Env → Prop} {batch : ScheduleResult}

/-- The releases of a loop all succeed. -/
theorem releaseEach_view (hquiet : Unobtrusive ledger engine) (passOver : Bool) {held : List ℕ}
    (h : engine.Sound held [] closing state.view) (hpending : state.pending = []) (seqIds : List ℕ) :
    wpe (releaseEach engine passOver seqIds)
      (fun released next => released = (seqIds, none) ∧ next.view = state.view) bad state := by
  induction seqIds generalizing state with
  | nil => exact ⟨rfl, rfl⟩
  | cons seqId seqIds ih =>
      unfold releaseEach
      rw [wpe_bind]
      have hfree : state.execution.holds {seqId} = false := by
        refine holds_eq_false h fun other _ step hstep => ?_
        rw [hpending] at hstep
        exact absurd hstep List.not_mem_nil
      apply wpe_catchWhen
      rw [wpe_bind]
      unfold releaseSlotsTransaction
      refine wpe_mono (releaseSlots_view hquiet.release hfree h.accounted.released) fun _ next hnext => ?_
      rw [wpe_pure]
      dsimp only
      rw [wpe_bind]
      have hnextPending : next.pending = [] :=
        (congrArg AsyncView.pending hnext).trans hpending
      refine wpe_mono (ih (hnext.symm ▸ h) hnextPending) fun released last hlast => ?_
      obtain ⟨rfl, hview⟩ := hlast
      exact ⟨rfl, hview.trans hnext⟩

/-- A batch whose run fails is given up. -/
theorem reclaimBatch_settled (hquiet : Unobtrusive ledger engine) (h : engine.Sound (taken batch) [] [] state.view)
    (hchosen : Chosen batch state.view) (hpending : state.pending = []) (hdrained : state.discarded = ∅) :
    wpe (reclaimBatch engine batch) (fun _ next => engine.Settled next.view) bad state := by
  have howned : ∀ seqId ∈ batch.seqs, seqId ∈ state.view.owned (taken batch) := hchosen.owned
  unfold reclaimBatch
  rw [wpe_bind]
  have hback : wpe (whenDo (batch.isPrefill = true) (write (putBack batch.seqs)))
      (fun _ next => next.pending = [] ∧ next.discarded = ∅ ∧ (∀ seqId ∈ batch.seqs, seqId ∈ next.view.owned []) ∧
        engine.Sound [] [] [] next.view) bad state := by
    unfold taken at h howned
    rw [wpe_whenDo]
    refine ⟨fun hprefill => ?_, fun hdecode => ?_⟩
    · rw [if_pos hprefill] at h
      rw [wpe_write]
      refine ⟨hpending, hdrained, fun seqId hmem => mem_owned.mpr (.inl ?_), h.putBack⟩
      exact List.mem_append_left _ hmem
    · rw [if_neg hdecode] at h howned
      exact ⟨hpending, hdrained, howned, h⟩
  refine wpe_mono hback fun _ s1 hs1 => ?_
  obtain ⟨hpending1, hdiscarded1, howned1, hsound1⟩ := hs1
  refine wpe_then (releaseEach_view hquiet true hsound1 hpending1 batch.seqs) fun released s2 hs2 => ?_
  obtain ⟨rfl, hview2⟩ := hs2
  have hpending2 : s2.pending = [] := (congrArg AsyncView.pending hview2).trans hpending1
  refine wpe_mono (abortReleased_sound hquiet (hview2.symm ▸ hsound1) hpending2
    (List.nil_subset _) (hview2.symm ▸ howned1)) fun _ last hlast => ?_
  obtain ⟨-, hdiscarded, hsound⟩ := hlast
  refine ⟨hsound, fun _ => hdiscarded.trans ?_⟩
  exact (congrArg AsyncView.discarded hview2).trans hdiscarded1

/-- What `postprocess` needs of a batch holds while no step is pending. -/
theorem Sound.orderly (h : engine.Sound (taken batch) [] [] state.view)
    (hchosen : Chosen batch state.view) (hpending : state.pending = []) :
    Orderly state.scheduler ∧ Batch batch.isPrefill batch.seqs state.scheduler := by
  have hnodup := h.queued.nodup
  unfold owned at hnodup
  obtain ⟨hqueues, -, hdisjoint⟩ := List.nodup_append.mp hnodup
  refine ⟨⟨h.queued.wellformed, h.queued.decoding, hqueues, h.numPendingOutputs_eq hpending,
    h.queued.inflight⟩, hchosen.nodup, fun hprefill seqId hmem => ⟨hchosen.chunked hprefill seqId hmem,
    fun hqueued => ?_⟩, hchosen.decode⟩
  refine hdisjoint seqId hqueued seqId ?_ rfl
  unfold taken
  rw [if_pos hprefill]
  exact hmem

omit [PrefixReuse] in
/-- The rows that the synchronous step publishes are those that `postprocess`
accepts. -/
theorem publishesSync_eq {isPrefill : Bool} {seq : Sequence Id} (hchunked : isPrefill = true → seq.Chunked) :
    publishesSync isPrefill seq = .ok (seq.accepts isPrefill) := by
  unfold publishesSync Sequence.shouldPublishSample Sequence.accepts
  cases seq.isRecomputeReplay with
  | true => rfl
  | false =>
      cases isPrefill with
      | false => rfl
      | true =>
          obtain ⟨chunkSize, hsome, _⟩ := hchunked rfl
          unfold AsyncExecution.publishesRow Sequence.isLastChunkPrefill
          rw [hsome]
          rfl

section

variable (h : engine.Sound (taken batch) [] [] state.view)
  (hchosen : Chosen batch state.view)

include h hchosen

/-- An accepted output is within the limit. -/
theorem unspent_of_accepts {seqId : ℕ} (hmem : seqId ∈ batch.seqs)
    (haccepts : (state.seq seqId).accepts batch.isPrefill = true) : (state.seq seqId).Unspent := by
  cases hprefill : batch.isPrefill with
  | false => exact hchosen.unspent hprefill seqId hmem
  | true =>
      have hchunked := hchosen.chunked hprefill seqId hmem
      have hlive : (state.seq seqId).isRecomputeReplay = false := by
        unfold Sequence.accepts at haccepts
        rw [Bool.and_eq_true, Bool.not_eq_true'] at haccepts
        exact haccepts.1
      obtain ⟨-, -, hprompting⟩ := noted_wellformed (h.queued.wellformed seqId) hlive
        (fun _ => hchunked) fun hdecode => absurd hdecode.symm Bool.false_ne_true
      have hprompting : (state.seq seqId).Prompting := hprompting rfl
      have hmax := h.maxTokens_pos (hchosen.owned seqId hmem)
      unfold Sequence.Unspent
      rw [hprompting.completion_eq, hprompting.pending_eq]
      exact hmax

/-- The batch has moved on, and its accepted outputs are published. -/
theorem processed_sound {next : Scheduler Id Env} {token : ℕ → ℤ} (hpending : state.pending = [])
    (horderly : Orderly next) (hprocessed : Processed ledger engine.eosTokenIds true batch.isPrefill
      (batch.seqs.map fun seqId => (seqId, token seqId)) state.scheduler next) :
    ∃ closing, (∀ seqId ∈ closing, seqId ∈ batch.seqs ∧ (next.seq seqId).status = .finished) ∧
      (∀ seqId ∈ batch.seqs, seqId ∈ next.waiting ++ next.decoding) ∧
      engine.Sound [] [] closing
        (noteOutputs ((batch.seqs.filter fun seqId =>
            (state.seq seqId).accepts batch.isPrefill).map fun seqId => (seqId, token seqId))
          { state with scheduler := next }).view := by
  have hids : (batch.seqs.map fun seqId => (seqId, token seqId)).map Prod.fst = batch.seqs := by
    rw [List.map_map]
    exact List.map_id _
  have hperm : (next.waiting ++ next.decoding).Perm (state.view.owned (taken batch)) := by
    have hqueues := hprocessed.queues rfl
    rw [hids] at hqueues
    exact hqueues
  generalize hpublished : (batch.seqs.filter fun seqId =>
    (state.seq seqId).accepts batch.isPrefill) = published
  have hmem : ∀ seqId, seqId ∈ published ↔ seqId ∈ batch.seqs ∧ (state.seq seqId).accepts batch.isPrefill = true := by
    intro seqId
    rw [← hpublished, List.mem_filter]
  have hstepped : ∀ seqId ∈ batch.seqs, Stepped engine.eosTokenIds batch.isPrefill (token seqId)
      (state.seq seqId) (next.seq seqId) := fun seqId hin =>
    hprocessed.each (seqId, token seqId) (List.mem_map_of_mem hin)
  -- the history after the step is the old one, or the old one and the token:
  have hhistory : ∀ seqId ∈ batch.seqs,
      ((state.seq seqId).afterStep batch.isPrefill (token seqId)).history =
        if (state.seq seqId).accepts batch.isPrefill then
          ((state.seq seqId).appendToken (token seqId)).history
        else (state.seq seqId).history := by
    intro seqId hin
    apply Sequence.afterStep_history
    intro hdecode
    exact (h.queued.decoding seqId (hchosen.decode hdecode hin)).prefilled_eq.ge
  have hlater : ∀ seqId ∈ batch.seqs, (next.seq seqId).history =
      ((state.seq seqId).afterStep batch.isPrefill (token seqId)).history := by
    intro seqId hin
    obtain ⟨status, hnext, -⟩ := hstepped seqId hin
    rw [hnext]
    rfl
  -- the requests that end with this token:
  let closing := published.filter fun seqId =>
    ((state.seq seqId).appendToken (token seqId)).endsWith engine.eosTokenIds (token seqId)
  refine ⟨closing, fun seqId hclosing => ?_, fun seqId hin => ?_, ?_⟩
  · obtain ⟨hin, hends⟩ := List.mem_filter.mp hclosing
    obtain ⟨hin, haccepts⟩ := (hmem seqId).mp hin
    refine ⟨hin, ?_⟩
    obtain ⟨status, hnext, hfinished⟩ := hstepped seqId hin
    have hsame := hhistory seqId hin
    rw [if_pos haccepts] at hsame
    rw [hnext]
    exact hfinished haccepts ((Sequence.endsWith_congr hsame _ _).trans hends)
  · exact hperm.mem_iff.mpr (hchosen.owned seqId hin)
  · have hinflight : next.asyncInflight = state.view.asyncInflight :=
      horderly.inflight.trans h.queued.inflight.symm
    show engine.Sound [] [] closing { state.view with
      seqs := next.seq
      waiting := next.waiting
      decoding := next.decoding
      asyncInflight := next.asyncInflight
      history := { state.view.history with
        issued := state.view.history.issued ++ published.map fun seqId => (seqId, token seqId)
        sampled := state.view.history.sampled ++ published.map fun seqId => (seqId, token seqId)
        published := state.view.history.published ++ published.map fun seqId => (seqId, token seqId) } }
    rw [hinflight]
    refine h.answered hpending token (hpublished ▸ hchosen.nodup.filter _)
      (fun seqId hin => hchosen.owned seqId ((hmem seqId).mp hin).1) (fun seqId hnot => ?_)
      (fun seqId hin => ?_) (fun seqId hin => ?_) horderly.wellformed horderly.decoding hperm
      fun seqId => List.mem_filter
    · -- rows without an answer are prompts with chunks left
      by_cases hin : seqId ∈ batch.seqs
      · have hsame := hhistory seqId hin
        rw [if_neg fun haccepts => hnot ((hmem seqId).mpr ⟨hin, haccepts⟩)] at hsame
        exact (hlater seqId hin).trans hsame
      · exact congrArg Sequence.history (hprocessed.others seqId (hids.symm ▸ hin))
    · obtain ⟨hin, haccepts⟩ := (hmem seqId).mp hin
      have hsame := hhistory seqId hin
      rw [if_pos haccepts] at hsame
      exact (hlater seqId hin).trans hsame
    · obtain ⟨hin, haccepts⟩ := (hmem seqId).mp hin
      exact unspent_of_accepts h hchosen hin haccepts

end

/-- The finished requests of a batch are released. -/
theorem releaseFinished_settled (hquiet : Unobtrusive ledger engine) (h : engine.Sound [] [] closing state.view)
    (hclosing : ∀ seqId ∈ closing, seqId ∈ batch.seqs ∧ (state.seq seqId).status = .finished)
    (howned : ∀ seqId ∈ batch.seqs, seqId ∈ state.view.owned []) (hpending : state.pending = [])
    (hdrained : state.discarded = ∅) :
    wpe (releaseFinished engine batch) (fun _ next => engine.Settled next.view) bad state := by
  unfold releaseFinished
  rw [wpe_get]
  refine wpe_then (releaseEach_view hquiet false h hpending _) fun released s1 hs1 => ?_
  obtain ⟨rfl, hview⟩ := hs1
  have hpending1 : s1.pending = [] := (congrArg AsyncView.pending hview).trans hpending
  refine wpe_then (abortReleased_sound hquiet (hview.symm ▸ h) hpending1 (fun seqId hmem => ?_)
    fun seqId hmem => ?_) fun _ last hlast => ?_
  · obtain ⟨hin, hfinished⟩ := hclosing seqId hmem
    exact List.mem_filter.mpr ⟨hin, decide_eq_true hfinished⟩
  · rw [hview]
    exact howned seqId (List.mem_filter.mp hmem).1
  · obtain ⟨-, hdiscarded, hsound⟩ := hlast
    refine ⟨hsound, fun _ => hdiscarded.trans ?_⟩
    exact (congrArg AsyncView.discarded hview).trans hdrained

/-- **A synchronous step** keeps the invariant. -/
theorem stepSync_settled [DecidableEq Key] [DecidableEq Resource] (hquiet : Unobtrusive ledger engine)
    (h : engine.Settled state.view) (hpending : state.pending = []) (token : ℕ → ℤ) :
    wpe (stepSync engine token) (fun _ next => engine.Settled next.view)
      (fun next => engine.Settled next.view) state := by
  -- nothing is in flight, so nothing waits to be discarded:
  have hdrained : state.discarded = ∅ := h.drained hpending
  have hzero : (state.pending.length : ℤ) = 0 := by
    rw [hpending]
    rfl
  have hstart : ({ state.scheduler with asyncInflight := state.pending.length } :
      Scheduler Id Env) = state.scheduler := by
    rw [hzero, ← h.sound.queued.inflight]
    rfl
  have hschedule := schedule_sound hquiet.tame h.sound
  rw [hstart, hzero] at hschedule
  have hview : ∀ next : Scheduler Id Env, next.asyncInflight = 0 →
      ({ state with scheduler := next } : AsyncScheduler Id Env).view = (scheduled state next).view := by
    intro next hnext
    show AsyncView.mk next.world.seqs next.waiting next.decoding next.asyncInflight _ _ _ _ _ _ _ = _
    rw [hnext]
    rfl
  unfold stepSync
  rw [wpe_bind, wpe_onScheduler]
  refine wpe_imp hschedule (fun batch s1 hs1 => ?_) fun next hnext => ?_
  · obtain ⟨hsound1, hchosen1, hinflight1⟩ := hs1
    rw [← hview s1 hinflight1] at hsound1 hchosen1
    -- preempted requests are released first:
    refine wpe_then (releasePreempted_view hquiet.release hsound1 fun _ => hpending) fun _ s2 hs2 => ?_
    have hsound2 := hs2.symm ▸ hsound1
    have hchosen2 : Chosen batch s2.view := hs2.symm ▸ hchosen1
    have hpending2 : s2.pending = [] := (congrArg AsyncView.pending hs2).trans hpending
    have hdrained2 : s2.discarded = ∅ := (congrArg AsyncView.discarded hs2).trans hdrained
    rw [wpe_get, wpe_ite]
    refine ⟨fun hnone => ?_, fun _ => ?_⟩
    · -- an empty batch: the step returns, or raises on a stuck queue
      have htaken : taken batch = [] := by
        unfold taken
        rw [hnone, ite_self]
      rw [htaken] at hsound2
      have hsettled2 : engine.Settled s2.view :=
        ⟨hsound2, fun _ => hdrained2⟩
      rw [wpe_raiseIf]
      exact ⟨fun _ => hsettled2, fun _ => hsettled2⟩
    · rw [wpe_bind]
      apply wpe_onError
      -- a batch runs; when the device raises, its requests are reclaimed
      refine wpe_imp (runSync_view hquiet batch) (fun _ s3 hs3 => ?_) fun s3 hs3 => ?_
      · have hsound3 := hs3.symm ▸ hsound2
        have hchosen3 : Chosen batch s3.view := hs3.symm ▸ hchosen2
        have hpending3 : s3.pending = [] := (congrArg AsyncView.pending hs3).trans hpending2
        have hdrained3 : s3.discarded = ∅ := (congrArg AsyncView.discarded hs3).trans hdrained2
        obtain ⟨horderly, hbatch⟩ := Sound.orderly hsound3 hchosen3 hpending3
        have hpublishes : batch.seqs.mapM (fun seqId =>
            publishesSync batch.isPrefill (s3.seq seqId)) =
              .ok (batch.seqs.map fun seqId => (s3.seq seqId).accepts batch.isPrefill) :=
          mapM_eq_ok fun seqId hmem =>
            publishesSync_eq fun hprefill => hchosen3.chunked hprefill seqId hmem
        rw [wpe_get, hpublishes, wpe_bind, wpe_ok, wpe_bind, wpe_onScheduler]
        have hids : (batch.seqs.map fun seqId => (seqId, token seqId)).map Prod.fst =
            batch.seqs := by
          rw [List.map_map]
          exact List.map_id _
        refine wpe_mono (postprocess_processed hquiet.complete hquiet.monotonic _ horderly
          (hids.symm ▸ hbatch)) fun _ s4 hs4 => ?_
        obtain ⟨closing, hclosing, howned, hsound4⟩ :=
          processed_sound hsound3 hchosen3 hpending3 hs4.1 hs4.2
        -- the rows that publish are exactly those that postprocess answered:
        have houtputs : ((batch.seqs.zip (batch.seqs.map fun seqId =>
            (s3.seq seqId).accepts batch.isPrefill)).filter Prod.snd).map
              (fun row => (row.1, token row.1)) = (batch.seqs.filter fun seqId =>
                (s3.seq seqId).accepts batch.isPrefill).map fun seqId => (seqId, token seqId) := by
          rw [show batch.seqs.zip (batch.seqs.map fun seqId =>
              (s3.seq seqId).accepts batch.isPrefill) = batch.seqs.map fun seqId =>
                (seqId, (s3.seq seqId).accepts batch.isPrefill) by
            rw [← List.zip_map', List.map_id'], List.filter_map, List.map_map]
          rfl
        rw [wpe_set, houtputs]
        exact releaseFinished_settled hquiet hsound4 hclosing
          (fun seqId hmem => List.mem_append_left [] (howned seqId hmem)) hpending3 hdrained3
      · refine reclaimBatch_settled hquiet (hs3.symm ▸ hsound2) (hs3.symm ▸ hchosen2) ?_ ?_
        · exact (congrArg AsyncView.pending hs3).trans hpending2
        · exact (congrArg AsyncView.discarded hs3).trans hdrained2
  · refine ⟨?_, fun _ => hdrained⟩
    rw [hview next hnext.2]
    exact hnext.1

end AsyncScheduler
