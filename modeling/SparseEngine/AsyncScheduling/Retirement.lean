import SparseEngine.AsyncScheduling.Collection

/-!
# Retirement

A discarded request is released once no pending step refers to it.  The oldest
steps whose requests are all discarded are drained before that.  A release
itself is assumed to succeed: a failed one ends the engine.
-/

namespace AsyncView

variable [PrefixReuse] {Id : Type} {sampled : ℕ → ℕ → ℤ} {configured : List ℤ} {view : AsyncView Id}

/-- No call is under way. -/
structure Settled (sampled : ℕ → ℕ → ℤ) (configured : List ℤ) (view : AsyncView Id) : Prop where
  sound : view.Sound sampled configured [] [] []
  drained : view.pending = [] → view.discarded = ∅

/-- The oldest step leaves the pending ones; its outputs are still to be
noted. -/
theorem Sound.popped (h : view.Sound sampled configured [] [] []) {step : PendingStep Id}
    {others : List (PendingStep Id)} (hpending : view.pending = step :: others) :
    Sound sampled configured [] (step.outputs sampled) [] { view with
      pending := others
      results := view.results.erase step.ticket
      history := { view.history with collected := view.history.collected ++ [step.ticket] } } := by
  have htickets := h.tickets
  have hsubmitted := h.submitted
  have hresults := h.results
  have horder := h.order
  -- the outputs of the popped step become those left to collect:
  have hdue : view.due sampled = step.outputs sampled ++ others.flatMap (·.outputs sampled) := by
    unfold due
    rw [hpending, List.flatMap_cons]
  rw [hpending] at htickets hsubmitted hresults horder
  obtain ⟨hnew, hnodup⟩ := List.nodup_cons.mp htickets
  constructor
  · exact ⟨h.queued.wellformed, h.queued.decoding, h.queued.idle, h.queued.nodup, h.queued.inflight, h.queued.budget⟩
  · exact h.accounted.moved (fun _ => .rfl) fun _ => h.accounted.nothing
  · intro other hother
    refine (hsubmitted other (List.mem_cons_of_mem _ hother)).mono ?_ (Nat.le_refl _) fun _ _ hmember => hmember
    show (view.results.erase step.ticket).get? other.ticket = _
    rw [Dict.get?_erase, if_neg]
    exact fun heq => hnew (List.mem_map.mpr ⟨other, hother, heq⟩)
  · exact hnodup
  · intro ticket result hget
    change (view.results.erase step.ticket).get? ticket = some result at hget
    rw [Dict.get?_erase] at hget
    split at hget
    · exact absurd hget.symm (Option.some_ne_none result)
    · next hne =>
      obtain ⟨other, hother, hticket, hrows⟩ := hresults ticket result hget
      refine ⟨other, (List.mem_cons.mp hother).resolve_left fun heq => ?_, hticket, hrows⟩
      exact hne (heq ▸ hticket.symm)
  · show view.history.submitted = view.history.collected ++ [step.ticket] ++ _
    rw [horder, List.map_cons, List.append_assoc]
    rfl
  · intro output houtput
    obtain ⟨seqId, hseq, rfl⟩ := List.mem_map.mp houtput
    obtain ⟨row, hrow, rfl⟩ := List.mem_map.mp hseq
    -- the rows that publish are rows of the step, which are owned or withdrawn:
    have hmem : row.1 ∈ step.seqs := (List.of_mem_zip (List.mem_filter.mp hrow).1).1
    exact (hsubmitted step List.mem_cons_self).members row.1 hmem
  · intro seqId
    have hcount := h.outstanding seqId
    rw [hdue] at hcount
    exact hcount
  · intro seqId
    have hissued := h.issued seqId
    rw [hdue] at hissued
    exact hissued
  · intro seqId request hrequest
    have htracked := h.tracked seqId request hrequest
    exact htracked.mono htracked.follows rfl rfl rfl rfl id .rfl (Finset.Subset.refl _)

/-- Discarded requests that no pending step refers to are released. -/
theorem Sound.retired (h : view.Sound sampled configured [] [] []) {ready : Finset ℕ}
    (hready : ready ⊆ view.discarded) (hfree : ∀ seqId ∈ ready, ∀ step ∈ view.pending, seqId ∉ step.seqs) :
    Sound sampled configured [] [] [] { view with
      retiring := view.retiring \ ready
      discarded := view.discarded \ ready
      history := { view.history with retired := fun seqId =>
        if seqId ∈ ready then view.history.retired seqId + 1 else view.history.retired seqId } } := by
  constructor
  · exact ⟨h.queued.wellformed, h.queued.decoding, h.queued.idle, h.queued.nodup, h.queued.inflight, h.queued.budget⟩
  · have hold := h.accounted
    refine ⟨hold.admitted, hold.kept, hold.gone, hold.withdrawn_sub,
      Finset.sdiff_subset.trans hold.discarded_sub, ?_, hold.released, fun seqId => ?_, hold.fresh⟩
    · show view.retiring \ ready = view.discarded \ ready
      rw [hold.retiring_eq]
    · show (if seqId ∈ ready then view.history.retired seqId + 1
        else view.history.retired seqId) = if seqId ∈ view.history.withdrawn ∧
          seqId ∉ view.discarded \ ready then 1 else 0
      rw [hold.retired_eq seqId]
      by_cases hmem : seqId ∈ ready
      · have hdiscarded := hready hmem
        rw [if_pos hmem, if_neg fun hgone => hgone.2 hdiscarded, if_pos]
        exact ⟨hold.discarded_sub hdiscarded, fun hstays => (Finset.mem_sdiff.mp hstays).2 hmem⟩
      · have hstays : seqId ∈ view.discarded \ ready ↔ seqId ∈ view.discarded := by
          rw [Finset.mem_sdiff, and_iff_left hmem]
        rw [if_neg hmem]
        exact if_congr (and_congr_right fun _ => not_congr hstays.symm) rfl rfl
  · intro step hstep
    refine (h.submitted step hstep).mono rfl (Nat.le_refl _) fun seqId hseq hmember => ?_
    refine hmember.imp_right fun hdiscarded => Finset.mem_sdiff.mpr ⟨hdiscarded, fun hmem => ?_⟩
    exact hfree seqId hmem step hstep hseq
  · exact h.tickets
  · exact h.results
  · exact h.order
  · exact fun _ hmem => absurd hmem List.not_mem_nil
  · exact h.outstanding
  · exact h.issued
  · intro seqId request hrequest
    have htracked := h.tracked seqId request hrequest
    exact htracked.mono htracked.follows rfl rfl rfl rfl id .rfl Finset.sdiff_subset

end AsyncView

abbrev AsyncEngine.Settled [PrefixReuse] {Id Env Key Resource : Type} (engine : AsyncEngine Id Env Key Resource) :
    AsyncView Id → Prop :=
  AsyncView.Settled engine.sampled engine.eosTokenIds

namespace AsyncScheduler

open Routine AsyncView Scheduler

variable [PrefixReuse] {Id Env Key Resource : Type} {ledger : Env → List (Sequence Id)}
  {engine : AsyncEngine Id Env Key Resource} {state : AsyncScheduler Id Env}

/-! ## Calls -/

variable {bad : AsyncScheduler Id Env → Prop} {seqIds : Finset ℕ}

section

omit [PrefixReuse]

theorem wpe_onScheduler {α : Type} {method : Routine (Scheduler Id Env) α} {post : α → AsyncScheduler Id Env → Prop} :
    wpe (onScheduler method) post bad state ↔
      wpe method (fun a next => post a { state with scheduler := next })
        (fun next => bad { state with scheduler := next }) state.scheduler := by
  rw [wpe_def, wpe_def]
  unfold onScheduler
  dsimp only
  rcases (method state.scheduler).1 with error | a <;> exact Iff.rfl

/-- A hook that writes no sequence. -/
theorem view_call {α : Type} {hook : Hook Id Env α} (h : Untouching ledger hook) :
    Preserves view (call hook) := by
  intro state
  show AsyncView.mk (hook state.scheduler).2.seqs _ _ _ _ _ _ _ _ _ _ = _
  rw [(h state.scheduler).1]
  rfl

theorem wpe_quiet {α : Type} {hook : Hook Id Env α} (h : Quiet ledger hook) {post : α → AsyncScheduler Id Env → Prop}
    (hpost : ∀ a next, next.view = state.view → post a next) : wpe (call hook) post bad state := by
  obtain ⟨a, hreturn⟩ := h.returns state.scheduler
  have hview := view_call h.untouching state
  rw [wpe_def]
  have hresult : (call hook state).1 = .ok a := hreturn
  rw [hresult]
  exact hpost a _ hview

end

/-- No result is waited for that a request of `seqIds` has a part in. -/
theorem holds_eq_false {held closing : List ℕ} {extra : List (ℕ × ℤ)} (h : engine.Sound held extra closing state.view)
    (hfree : ∀ seqId ∈ seqIds, ∀ step ∈ state.pending, seqId ∉ step.seqs) :
    state.execution.holds seqIds = false := by
  unfold AsyncExecution.holds
  rw [List.any_eq_false]
  intro result hresult
  rw [List.any_eq_true]
  rintro ⟨row, hrow, hmem⟩
  obtain ⟨step, hstep, hrows⟩ := h.rows_of_result hresult
  refine hfree row.1 (of_decide_eq_true hmem) step hstep ?_
  rw [← hrows]
  exact List.mem_map_of_mem hrow

section

omit [PrefixReuse]

variable (hrelease : ∀ seqIds, Quiet ledger (engine.runner.releaseSlots seqIds))
  (hfree : state.execution.holds seqIds = false)

include hrelease hfree

/-- The slots are released, and nothing that the invariant is about changes. -/
theorem freeSlotsBatch_view :
    wpe (freeSlotsBatch engine seqIds) (fun _ next => next.view = state.view) bad state := by
  unfold freeSlotsBatch
  rw [wpe_get, wpe_guard, hfree]
  refine ⟨fun htrue => absurd htrue Bool.false_ne_true, fun _ => ?_⟩
  rw [wpe_bind]
  refine wpe_quiet (hrelease seqIds) fun _ next hnext => ?_
  rw [wpe_write]
  exact hnext

theorem releaseSlots_view (hreleased : state.pendingSlotReleases = ∅) :
    wpe (releaseSlots engine seqIds) (fun _ next => next.view = state.view) bad state := by
  unfold releaseSlots
  rw [wpe_set, wpe_bind]
  have hstart : wpe (freeSlotsBatch engine seqIds) (fun _ next => next.view = { state.view with
      pendingSlotReleases := state.pendingSlotReleases ∪ seqIds }) bad
      { state with pendingSlotReleases := state.pendingSlotReleases ∪ seqIds } := by
    apply freeSlotsBatch_view hrelease
    exact hfree
  refine wpe_mono hstart fun _ next hnext => ?_
  rw [wpe_write]
  show { next.view with pendingSlotReleases := next.view.pendingSlotReleases \ seqIds } = state.view
  rw [hnext, hreleased, Finset.empty_union, Finset.sdiff_self, ← hreleased]
  rfl

end

/-! ## Draining -/

omit [PrefixReuse] in
/-- The result of the oldest step is fetched. -/
theorem collectAsync_view (hcollect : ∀ ticket discarded,
      Untouching ledger (engine.runner.collect ticket discarded)) {step : PendingStep Id}
    {held : List ℕ} (hstep : Submitted engine.sampled held state.view step) :
    wpe (collectAsync engine step.ticket)
      (fun tokens next => tokens = step.seqs.map (engine.sampled step.ticket) ∧
        next.view = { state.view with results := state.view.results.erase step.ticket })
      (fun next => next.view = state.view) state := by
  obtain ⟨result, hget, htokens⟩ := hstep.result
  have hget' : state.execution.results.get? step.ticket = some result := hget
  unfold collectAsync
  rw [wpe_get]
  dsimp only
  rw [hget']
  dsimp only
  rw [wpe_bind]
  refine (view_call (hcollect step.ticket state.discarded)).wpe (fun _ next hnext => ?_) fun next hnext => hnext
  rw [wpe_set, wpe_pure]
  refine ⟨htokens, ?_⟩
  show { next.view with results := next.view.results.erase step.ticket } = _
  rw [hnext]

omit [PrefixReuse] in
/-- The outputs of the rows are those of the step. -/
theorem rowOutputs_step (sampled : ℕ → ℕ → ℤ) (step : PendingStep Id) :
    rowOutputs (step.seqs.zip ((step.seqs.map (sampled step.ticket)).zip step.publishes)) = step.outputs sampled :=
  rowOutputs_zip (sampled step.ticket) step.seqs step.publishes

/-- The oldest steps are drained while their requests are all discarded. -/
theorem drainLoop_sound (hcollect : ∀ ticket discarded,
      Untouching ledger (engine.runner.collect ticket discarded)) (fuel : ℕ)
    (h : engine.Sound [] [] [] state.view) :
    wpe (drainLoop engine fuel) (fun _ next => engine.Sound [] [] [] next.view)
      (fun next => engine.Sound [] [] [] next.view ∧ next.pending ≠ []) state := by
  induction fuel generalizing state with
  | zero => exact h
  | succ fuel ih =>
      unfold drainLoop
      rw [wpe_get]
      cases hpending : state.pending with
      | nil => exact h
      | cons step others =>
          dsimp only
          rw [wpe_ite]
          refine ⟨fun hall => ?_, fun _ => h⟩
          have hstep := h.submitted step (by
            show step ∈ state.pending
            rw [hpending]
            exact List.mem_cons_self)
          refine wpe_then_imp (collectAsync_view hcollect hstep) (fun tokens s1 hs1 => ?_) fun next hnext => ?_
          · obtain ⟨htokens, hview1⟩ := hs1
            rw [wpe_set, wpe_set]
            apply ih
            apply drainRows_sound
            · rw [htokens, rowOutputs_step]
              have hpopped := h.popped hpending
              show Sound _ _ _ _ _ { s1.view with
                pending := others
                history := { s1.view.history with
                  collected := s1.view.history.collected ++ [step.ticket] } }
              rw [hview1]
              exact hpopped
            · intro row hrow
              have hmem : row.1 ∈ step.seqs := (List.of_mem_zip hrow).1
              have hdiscarded : row.1 ∈ state.discarded :=
                of_decide_eq_true (List.all_eq_true.mp hall row.1 hmem)
              show row.1 ∈ s1.view.discarded
              rw [hview1]
              exact hdiscarded
          · have hsame : next.pending = state.pending := congrArg AsyncView.pending hnext
            rw [hnext, hsame, hpending]
            exact ⟨h, List.cons_ne_nil step others⟩

/-- Everything that no pending step refers to is released. -/
theorem retireReady_settled (hrelease : ∀ seqIds, Quiet ledger (engine.runner.releaseSlots seqIds))
    (h : engine.Sound [] [] [] state.view) :
    wpe (retireReady engine)
      (fun _ next => engine.Sound [] [] [] next.view ∧ next.discarded ⊆ next.referenced) bad state := by
  have hretiring : state.retiring = state.discarded := h.accounted.retiring_eq
  have hreleased : state.pendingSlotReleases = ∅ := h.accounted.released
  unfold retireReady
  rw [wpe_get]
  dsimp only
  generalize hready : state.retiring \ state.referenced = ready
  have hmem : ∀ seqId, seqId ∈ ready ↔ seqId ∈ state.discarded ∧ seqId ∉ state.referenced := by
    intro seqId
    rw [← hready, Finset.mem_sdiff, hretiring]
  -- no pending step refers to a request that is ready:
  have hfree : ∀ seqId ∈ ready, ∀ step ∈ state.pending, seqId ∉ step.seqs := by
    intro seqId hin step hstep hseq
    refine ((hmem seqId).mp hin).2 (List.mem_toFinset.mpr ?_)
    exact List.mem_flatMap.mpr ⟨step, hstep, hseq⟩
  have hunheld := holds_eq_false h hfree
  rw [wpe_whenDo]
  refine ⟨fun _ => ?_, fun hnone => ⟨h, fun seqId hdiscarded => ?_⟩⟩
  · rw [wpe_set, wpe_bind]
    have hfreed : wpe (freeSlotsBatch engine ready) (fun _ next => next.view = { state.view with
        pendingSlotReleases := state.pendingSlotReleases ∪ ready }) bad
        { state with pendingSlotReleases := state.pendingSlotReleases ∪ ready } := by
      apply freeSlotsBatch_view hrelease
      exact hunheld
    refine wpe_mono hfreed fun _ next hnext => ?_
    rw [wpe_write]
    have hretired := h.retired (fun seqId hin => ((hmem seqId).mp hin).1) hfree
    have hpending : next.pending = state.pending := congrArg AsyncView.pending hnext
    have hdiscarded : next.discarded = state.discarded := congrArg AsyncView.discarded hnext
    refine ⟨?_, fun seqId hin => ?_⟩
    · show Sound _ _ _ _ _ { next.view with
        pendingSlotReleases := next.view.pendingSlotReleases \ ready
        retiring := next.view.retiring \ ready
        discarded := next.view.discarded \ ready
        history := { next.view.history with retired := fun seqId => (if seqId ∈ ready then
          next.view.history.retired seqId + 1 else next.view.history.retired seqId) } }
      rw [hnext, hreleased, Finset.empty_union, Finset.sdiff_self]
      rw [← hreleased]
      exact hretired
    · -- what stays withdrawn is still referred to:
      have hkept : seqId ∈ next.discarded \ ready := hin
      rw [Finset.mem_sdiff, hdiscarded, hmem, not_and, not_not] at hkept
      show seqId ∈ (next.pending.flatMap PendingStep.seqs).toFinset
      rw [hpending]
      exact hkept.2 hkept.1
  · rw [not_not] at hnone
    -- nothing is ready, so every withdrawn request is referred to
    by_contra hin
    have hlast := (hmem seqId).mpr ⟨hdiscarded, hin⟩
    rw [hnone] at hlast
    exact absurd hlast (Finset.notMem_empty seqId)

/-- A state with nothing to release. -/
theorem settled_of_referenced (h : engine.Sound [] [] [] state.view)
    (hreferenced : state.discarded ⊆ state.referenced) :
    engine.Settled state.view := by
  refine ⟨h, fun hpending => ?_⟩
  have hnone : state.pending = [] := hpending
  unfold referenced at hreferenced
  rw [hnone, List.flatMap_nil, List.toFinset_nil] at hreferenced
  exact Finset.subset_empty.mp hreferenced

section

variable (hcollect : ∀ ticket discarded, Untouching ledger (engine.runner.collect ticket discarded))
  (hrelease : ∀ seqIds, Quiet ledger (engine.runner.releaseSlots seqIds))

include hcollect hrelease

/-- **The end of a collection or an abort.** -/
theorem drainAndRetire_settled (h : engine.Sound [] [] [] state.view) :
    wpe (do
        drainDiscarded engine
        retireReady engine)
      (fun _ next => engine.Settled next.view ∧ next.discarded ⊆ next.referenced)
      (fun next => engine.Settled next.view) state := by
  rw [wpe_bind]
  unfold drainDiscarded
  rw [wpe_get]
  refine wpe_imp (drainLoop_sound hcollect _ h) (fun _ s1 hs1 => ?_) fun next hnext =>
    ⟨hnext.1, fun hpending => absurd hpending hnext.2⟩
  exact wpe_mono (retireReady_settled hrelease hs1) fun _ s2 hs2 =>
    ⟨settled_of_referenced hs2.1 hs2.2, hs2.2⟩

/-- **A collection** keeps the invariant. -/
theorem collect_settled (h : engine.Settled state.view) :
    wpe (collect engine) (fun _ next => engine.Settled next.view) (fun next => engine.Settled next.view) state := by
  unfold collect
  rw [wpe_get]
  cases hpending : state.pending with
  | nil => exact h
  | cons step others =>
      dsimp only
      have hstep := h.sound.submitted step (by
        show step ∈ state.pending
        rw [hpending]
        exact List.mem_cons_self)
      refine wpe_then_imp (collectAsync_view hcollect hstep) (fun tokens s1 hs1 => ?_) fun next hnext => ?_
      · obtain ⟨htokens, hview1⟩ := hs1
        rw [wpe_set, wpe_set]
        refine wpe_mono (drainAndRetire_settled hcollect hrelease ?_) fun _ s2 hs2 => hs2.1
        apply collectRows_sound
        rw [htokens, rowOutputs_step]
        have hpopped := h.sound.popped hpending
        show Sound _ _ _ _ _ { s1.view with
          pending := others
          history := { s1.view.history with
            collected := s1.view.history.collected ++ [step.ticket] } }
        rw [hview1]
        exact hpopped
      · rw [hnext]
        exact h

end

end AsyncScheduler
