import SparseEngine.AsyncScheduling.Submission

/-!
# Every step keeps the invariant

The model runner writes neither the queues nor the sequences, and may raise
anywhere but in a release.

A submission takes a batch from the queues, notes its rows one by one and
pushes the step.  The facts about one noted row come first (`noted_row` to
`idle_after`); `pushStep_sound` puts them together, and a batch that is not
pushed is put back (`putBack_sound`).
-/

namespace AsyncScheduler

open Routine AsyncView Scheduler

variable [PrefixReuse] {Id Env Key Resource : Type} [DecidableEq Key] [DecidableEq Resource]
  {ledger : Env → List (Sequence Id)} {engine : AsyncEngine Id Env Key Resource}
  {state : AsyncScheduler Id Env}

omit [DecidableEq Key] [DecidableEq Resource]

/-- What the hooks of the engine leave alone. -/
structure Unobtrusive (ledger : Env → List (Sequence Id))
    (engine : AsyncEngine Id Env Key Resource) : Prop where
  tame : Tame ledger engine.oracle engine.callbacks
  complete : ∀ seqId, Quiet ledger (engine.completePrefillExecution seqId)
  forward : ∀ rows isPrefill, Untouching ledger (engine.runner.forward rows isPrefill)
  sample : ∀ rows, Untouching ledger (engine.runner.sample rows)
  collect : ∀ ticket discarded, Untouching ledger (engine.runner.collect ticket discarded)
  run : ∀ seqIds isPrefill, Untouching ledger (engine.runner.run seqIds isPrefill)
  release : ∀ seqIds, Quiet ledger (engine.runner.releaseSlots seqIds)

theorem Unobtrusive.monotonic (hquiet : Unobtrusive ledger engine) :
    Quiet ledger engine.callbacks.monotonic :=
  ⟨hquiet.tame.monotonic, hquiet.tame.monotonic_returns⟩

theorem Unobtrusive.reset (hquiet : Unobtrusive ledger engine) (seqId : ℕ) :
    Quiet ledger (engine.oracle.resetPrefillExecutionState seqId) :=
  ⟨hquiet.tame.resetPrefillExecutionState seqId, hquiet.tame.reset_returns seqId⟩

variable {batch : ScheduleResult}

section

variable {submitted next : AsyncScheduler Id Env} (hseqs : submitted.view.seqs = state.view.seqs)
  (hnoted : Noted batch.isPrefill
    (batch.seqs.map fun seqId => (seqId, publishFlag batch.isPrefill (state.seq seqId))) submitted next)

include hseqs hnoted

omit [PrefixReuse] in
theorem noted_row {seqId : ℕ} (hmem : seqId ∈ batch.seqs) : ∃ status, next.seq seqId =
    { (state.seq seqId).noted batch.isPrefill (publishFlag batch.isPrefill (state.seq seqId)) with
      status := status } := by
  have heach := hnoted.each (seqId, publishFlag batch.isPrefill (state.seq seqId)) (List.mem_map_of_mem hmem)
  rwa [show submitted.seq seqId = state.seq seqId from congrFun hseqs seqId] at heach

omit [PrefixReuse] in
theorem noted_other {seqId : ℕ} (hnot : seqId ∉ batch.seqs) : next.seq seqId = state.seq seqId := by
  rw [hnoted.others seqId, show submitted.seq seqId = state.seq seqId from congrFun hseqs seqId]
  rw [List.map_map]
  simpa using hnot

end

section

variable (h : engine.Sound (taken batch) [] [] state.view)

include h

/-- The requests of a prefill batch are in no queue. -/
theorem prefill_unqueued (hprefill : batch.isPrefill = true) {seqId : ℕ} (hmem : seqId ∈ batch.seqs) :
    seqId ∉ state.scheduler.waiting ++ state.scheduler.decoding := by
  intro hqueued
  have hnodup := h.queued.nodup
  unfold owned taken at hnodup
  rw [if_pos hprefill] at hnodup
  exact (List.nodup_append.mp hnodup).2.2 seqId hqueued seqId hmem rfl

section

variable (hchosen : Chosen batch state.view)

include hchosen

/-- The requests of a batch do not wait. -/
theorem chosen_not_waiting {seqId : ℕ} (hmem : seqId ∈ batch.seqs) : seqId ∉ state.scheduler.waiting := by
  intro hqueued
  cases hprefill : batch.isPrefill with
  | true => exact prefill_unqueued h hprefill hmem (List.mem_append_left _ hqueued)
  | false =>
      have hnodup := (List.nodup_append.mp h.queued.nodup).1
      exact (List.nodup_append.mp hnodup).2.2 seqId hqueued seqId (hchosen.decode hprefill hmem) rfl

variable (hreplay : ∀ seqId ∈ batch.seqs, (state.seq seqId).isRecomputeReplay = false)

include hreplay

/-- The sequences of the batch, once the step is noted in them. -/
theorem chosen_noted {seqId : ℕ} (hmem : seqId ∈ batch.seqs) :
    ((state.seq seqId).noted batch.isPrefill (publishFlag batch.isPrefill (state.seq seqId))).Wellformed ∧
      (publishFlag batch.isPrefill (state.seq seqId) = true →
        ((state.seq seqId).noted batch.isPrefill (publishFlag batch.isPrefill (state.seq seqId))).Decoding) ∧
      (batch.isPrefill = true → (state.seq seqId).Prompting) :=
  noted_wellformed (h.queued.wellformed seqId) (hreplay seqId hmem)
    (fun hprefill => hchosen.chunked hprefill seqId hmem)
    fun hdecode => h.queued.decoding seqId (hchosen.decode hdecode hmem)

variable {submitted next : AsyncScheduler Id Env} (hseqs : submitted.view.seqs = state.view.seqs)
  (hnoted : Noted batch.isPrefill
    (batch.seqs.map fun seqId => (seqId, publishFlag batch.isPrefill (state.seq seqId))) submitted next)

include hseqs hnoted

theorem wellformed_after (seqId : ℕ) : (next.seq seqId).Wellformed := by
  by_cases hmem : seqId ∈ batch.seqs
  · obtain ⟨status, hnext⟩ := noted_row hseqs hnoted hmem
    rw [hnext]
    exact (Sequence.rescheduled_status _ status).wellformed (chosen_noted h hchosen hreplay hmem).1
  · rw [noted_other hseqs hnoted hmem]
    exact h.queued.wellformed seqId

theorem decoding_after (hdecoding : submitted.scheduler.decoding = state.scheduler.decoding) {seqId : ℕ}
    (hmem : seqId ∈ next.scheduler.decoding) : (next.seq seqId).Decoding := by
  have hdecodes : seqId ∈ batch.seqs →
      publishFlag batch.isPrefill (state.seq seqId) = true → (next.seq seqId).Decoding := by
    intro hin hflag
    obtain ⟨status, hnext⟩ := noted_row hseqs hnoted hin
    rw [hnext]
    exact ((chosen_noted h hchosen hreplay hin).2.1 hflag).rescheduled (Sequence.rescheduled_status _ status)
  rcases hnoted.decoding seqId hmem with hqueued | ⟨-, hnow⟩
  · rw [hdecoding] at hqueued
    by_cases hin : seqId ∈ batch.seqs
    · apply hdecodes hin
      cases hprefill : batch.isPrefill with
      | false => rfl
      | true => exact absurd (List.mem_append_right _ hqueued) (prefill_unqueued h hprefill hin)
    · rw [noted_other hseqs hnoted hin]
      exact h.queued.decoding seqId hqueued
  · obtain ⟨other, hin, heq⟩ := List.mem_map.mp hnow
    obtain ⟨rfl, hflag⟩ := Prod.mk.inj heq
    exact hdecodes hin hflag

theorem idle_after (hwaiting : submitted.scheduler.waiting = state.scheduler.waiting) {seqId : ℕ}
    (hmem : seqId ∈ next.scheduler.waiting) : (next.seq seqId).numPendingOutputs = 0 := by
  rcases hnoted.waiting seqId hmem with hqueued | ⟨hprefill, hnow⟩
  · rw [hwaiting] at hqueued
    rw [noted_other hseqs hnoted fun hin => chosen_not_waiting h hchosen hin hqueued]
    exact h.queued.idle seqId (List.mem_append_left _ hqueued)
  · obtain ⟨other, hin, heq⟩ := List.mem_map.mp hnow
    obtain ⟨rfl, hflag⟩ := Prod.mk.inj heq
    obtain ⟨status, hnext⟩ := noted_row hseqs hnoted hin
    rw [hnext, hflag]
    show (state.seq other).numPendingOutputs + 0 = 0
    rw [Int.add_zero]
    exact ((chosen_noted h hchosen hreplay hin).2.2 hprefill).pending_eq

end

/-- The state after a submission that returned. -/
theorem pushStep_sound (hchosen : Chosen batch state.view)
    (hreplay : ∀ seqId ∈ batch.seqs, (state.seq seqId).isRecomputeReplay = false)
    {step : PendingStep Id} {result : DeviceResult Id} {submitted next : AsyncScheduler Id Env}
    (hticket : step.ticket = state.nextTicket) (hseqs : step.seqs = batch.seqs)
    (hpublishes : step.publishes = batch.seqs.map fun seqId =>
      publishFlag batch.isPrefill (state.seq seqId)) (hrows : result.rows.map Prod.fst = batch.seqs)
    (htokens : result.tokens = batch.seqs.map (engine.sampled step.ticket))
    (hview : submitted.view = { state.view with
      nextTicket := state.nextTicket + 1
      results := state.view.results.set step.ticket result })
    (hnoted : Noted batch.isPrefill (step.seqs.zip step.publishes) submitted next) :
    engine.Sound [] [] [] (pushStep engine step next).view := by
  have hzip : step.seqs.zip step.publishes = batch.seqs.map fun seqId =>
      (seqId, publishFlag batch.isPrefill (state.seq seqId)) := by
    rw [hseqs, hpublishes, ← List.zip_map', List.map_id']
  rw [hzip] at hnoted
  -- the rows that publish are those whose flag was set when the batch was noted:
  have hpublished : ∀ seqId, seqId ∈ step.published ↔
      seqId ∈ batch.seqs ∧ publishFlag batch.isPrefill (state.seq seqId) = true := by
    have hfilter : step.published = batch.seqs.filter fun seqId =>
        publishFlag batch.isPrefill (state.seq seqId) := by
      unfold PendingStep.published
      rw [hzip, List.filter_map, List.map_map]
      exact List.map_id _
    intro seqId
    rw [hfilter, List.mem_filter]
  have hsame : submitted.view.seqs = state.view.seqs := by rw [hview]
  have hwaiting : submitted.scheduler.waiting = state.scheduler.waiting :=
    congrArg AsyncView.waiting hview
  have hdecoding : submitted.scheduler.decoding = state.scheduler.decoding :=
    congrArg AsyncView.decoding hview
  have hview' : next.view = { state.view with
      seqs := next.view.seqs
      waiting := next.view.waiting
      decoding := next.view.decoding
      nextTicket := state.nextTicket + 1
      results := state.view.results.set step.ticket result } := by
    rw [hnoted.view_eq, hview]
  -- the state after the push, with the queues as noting left them:
  have hpushed : engine.Sound [] [] [] { state.view with
      seqs := next.view.seqs
      waiting := next.view.waiting
      decoding := next.view.decoding
      pending := state.view.pending ++ [step]
      nextTicket := step.ticket + 1
      results := state.view.results.set step.ticket result
      history := { state.view.history with
        submitted := state.view.history.submitted ++ [step.ticket]
        issued := state.view.history.issued ++ step.outputs engine.sampled } } := by
    refine h.pushed hticket (hseqs ▸ hchosen.nodup) (by rw [hpublishes, hseqs, List.length_map])
      (fun seqId hmem => hchosen.owned seqId (hseqs ▸ hmem)) (hrows.trans hseqs.symm)
      (hseqs ▸ htokens) (fun seqId => ?_) (fun seqId => ?_)
      (wellformed_after h hchosen hreplay hsame hnoted) (fun seqId hmem => ?_)
      (fun _ => decoding_after h hchosen hreplay hsame hnoted hdecoding)
      (fun _ => idle_after h hchosen hreplay hsame hnoted hwaiting) ?_
    · -- placeholders do not count for what a request accepts
      unfold accepts
      show ({ next.seq seqId with numPendingOutputs := 0 } : Sequence Id).history =
        ({ state.seq seqId with numPendingOutputs := 0 } : Sequence Id).history
      by_cases hmem : seqId ∈ batch.seqs
      · obtain ⟨status, hnext⟩ := noted_row hsame hnoted hmem
        rw [hnext]
        rfl
      · rw [noted_other hsame hnoted hmem]
    · show (next.seq seqId).numPendingOutputs = (state.seq seqId).numPendingOutputs +
        if seqId ∈ step.published then 1 else 0
      by_cases hmem : seqId ∈ batch.seqs
      · obtain ⟨status, hnext⟩ := noted_row hsame hnoted hmem
        rw [hnext, if_congr ((hpublished seqId).trans (and_iff_right hmem)) rfl rfl]
        rfl
      · rw [noted_other hsame hnoted hmem, if_neg fun hin => hmem ((hpublished seqId).mp hin).1, Int.add_zero]
    · obtain ⟨hin, -⟩ := (hpublished seqId).mp hmem
      cases hprefill : batch.isPrefill with
      | false => exact hchosen.unspent hprefill seqId hin
      | true =>
          -- a prefill publishes the first token, and every admitted request may have one:
          have hprompting := (chosen_noted h hchosen hreplay hin).2.2 hprefill
          have hmax := h.maxTokens_pos (hchosen.owned seqId hin)
          unfold Sequence.Unspent
          rw [show (state.view.seqs seqId).numCompletionTokens = 0 from hprompting.completion_eq,
            show (state.view.seqs seqId).numPendingOutputs = 0 from hprompting.pending_eq]
          exact hmax
    · -- prefilled rows come back to the queues, decoded ones never left:
      have hperm := hnoted.perm
      rw [hwaiting, hdecoding, List.map_map] at hperm
      have htaken : (if batch.isPrefill = true then
          batch.seqs.map (Prod.fst ∘ fun seqId =>
            (seqId, publishFlag batch.isPrefill (state.seq seqId))) else []) = taken batch := by
        unfold taken
        congr 1
        exact List.map_id _
      rw [htaken] at hperm
      exact hperm
  show Sound _ _ _ _ _ { next.view with
    pending := next.view.pending ++ [step]
    history := { next.view.history with
      submitted := next.view.history.submitted ++ [step.ticket]
      issued := next.view.history.issued ++ step.outputs engine.sampled } }
  rw [hview', ← hticket]
  exact hpushed

/-- A batch whose submission fails goes back to its queue. -/
theorem putBack_sound {post : Unit → AsyncScheduler Id Env → Prop} {bad : AsyncScheduler Id Env → Prop}
    (hpost : ∀ next, next.pending = state.pending → next.discarded = state.discarded →
      engine.Sound [] [] [] next.view → post () next) :
    wpe (whenDo (batch.isPrefill = true) (write (putBack batch.seqs))) post bad state := by
  unfold taken at h
  rw [wpe_whenDo]
  refine ⟨fun hprefill => ?_, fun hdecode => ?_⟩
  · rw [if_pos hprefill] at h
    rw [wpe_write]
    exact hpost _ rfl rfl h.putBack
  · rw [if_neg hdecode] at h
    exact hpost state rfl rfl h

end

/-- The submission of a batch without replays. -/
theorem submitBatch_settled (hquiet : Unobtrusive ledger engine)
    (h : engine.Sound (taken batch) [] [] state.view) (hchosen : Chosen batch state.view)
    (hreplay : ∀ seqId ∈ batch.seqs, (state.seq seqId).isRecomputeReplay = false)
    (hdrained : state.pending = [] → state.discarded = ∅) :
    wpe (submitBatch engine batch) (fun _ next => engine.Settled next.view)
      (fun next => engine.Settled next.view) state := by
  have hpublishes : (batch.seqs.map fun seqId => (state.seq seqId).executionSnapshot).mapM
      (AsyncExecution.publishesRow batch.isPrefill) =
        .ok (batch.seqs.map fun seqId => publishFlag batch.isPrefill (state.seq seqId)) := by
    rw [List.mapM_map]
    exact mapM_eq_ok fun seqId hmem =>
      publishesRow_eq fun hprefill => hchosen.chunked hprefill seqId hmem
  unfold submitBatch
  rw [wpe_get]
  dsimp only
  rw [hpublishes, wpe_bind, wpe_ok, wpe_set, wpe_bind]
  generalize hsnapshots : (batch.seqs.map fun seqId => (state.seq seqId).executionSnapshot) = snapshots
  have hlength : snapshots.length = batch.seqs.length := by rw [← hsnapshots, List.length_map]
  have hids : (batch.seqs.zip snapshots).map Prod.fst = batch.seqs :=
    List.map_fst_zip (Nat.le_of_eq hlength.symm)
  apply wpe_onError
  -- a device error puts the batch back; otherwise the rows are noted and the step queued
  refine wpe_imp (submitAsync_view hquiet.forward hquiet.sample _ _ _) (fun _ s1 hs1 => ?_) fun s1 hs1 => ?_
  · obtain ⟨result, hrows, htokens, hview⟩ := hs1
    have hseqs : ∀ seqId, s1.seq seqId = state.seq seqId := fun seqId =>
      congrFun (congrArg AsyncView.seqs hview) seqId
    rw [wpe_bind]
    have hzip : batch.seqs.zip (batch.seqs.map fun seqId =>
        publishFlag batch.isPrefill (state.seq seqId)) = batch.seqs.map fun seqId =>
          (seqId, publishFlag batch.isPrefill (state.seq seqId)) := by
      rw [← List.zip_map', List.map_id']
    refine wpe_mono (noteRows_noted hquiet.complete hquiet.monotonic _ ?_ (fun row hrow => ?_)
      fun hprefill row hrow => ?_) fun _ s2 hs2 => ?_
    · rw [hzip, List.map_map]
      exact (List.map_id _).symm ▸ hchosen.nodup
    · rw [hzip] at hrow
      obtain ⟨seqId, hmem, rfl⟩ := List.mem_map.mp hrow
      rw [hseqs]
    · -- a chosen prefill row has a chunk size:
      rw [hzip] at hrow
      obtain ⟨seqId, hmem, rfl⟩ := List.mem_map.mp hrow
      obtain ⟨chunkSize, hsome, _⟩ := hchosen.chunked hprefill seqId hmem
      rw [hseqs]
      exact fun hnone => absurd (hsome.symm.trans hnone) (Option.some_ne_none chunkSize)
    · rw [wpe_write]
      refine ⟨?_, fun hempty => ?_⟩
      · refine pushStep_sound h hchosen hreplay rfl rfl rfl ?_ ?_ hview hs2
        · rw [hrows, hids]
        · rw [htokens]
          exact (List.map_map.symm).trans (congrArg (List.map (engine.sampled state.nextTicket)) hids)
      · exact absurd hempty (List.append_ne_nil_of_right_ne_nil _ (List.cons_ne_nil _ _))
  · have hticketed : engine.Sound (taken batch) [] [] s1.view :=
      hs1.symm ▸ h.ticketed
    refine putBack_sound hticketed fun next hpending hdiscarded hnext => ⟨hnext, fun hempty => ?_⟩
    have hempty' : s1.pending = [] := hpending.symm.trans hempty
    exact hdiscarded.trans ((congrArg AsyncView.discarded hs1).trans
      (hdrained ((congrArg AsyncView.pending hs1).symm.trans hempty')))

/-- **A submission** keeps the invariant. -/
theorem submit_settled [DecidableEq Key] [DecidableEq Resource] (hquiet : Unobtrusive ledger engine)
    (h : engine.Settled state.view) :
    wpe (submit engine) (fun _ next => engine.Settled next.view) (fun next => engine.Settled next.view) state := by
  have hsettled : ∀ next : AsyncScheduler Id Env, next.pending = state.pending → next.discarded = state.discarded →
      engine.Sound [] [] [] next.view →
      engine.Settled next.view := fun next hpending hdiscarded hnext =>
    ⟨hnext, fun hempty => hdiscarded.trans (h.drained (hpending.symm.trans hempty))⟩
  unfold submit
  rw [wpe_get, wpe_ite]
  refine ⟨fun _ => h, fun _ => ?_⟩
  refine wpe_then_imp (scheduleAhead_sound hquiet.tame h.sound) (fun chosen s1 hs1 => ?_)
    fun next hnext => hsettled next hnext.1 hnext.2.1 hnext.2.2
  obtain ⟨hpending1, hdiscarded1, hs1⟩ := hs1
  -- nothing to schedule ahead leaves the state as it was
  cases chosen with
  | none => exact hsettled s1 hpending1 hdiscarded1 hs1
  | some batch =>
      obtain ⟨hsound1, hchosen1⟩ := hs1
      dsimp only
      refine wpe_then (releasePreempted_view hquiet.release hsound1 hchosen1.drained) fun _ s2 hs2 => ?_
      have hsound2 : engine.Sound (taken batch) [] [] s2.view :=
        hs2.symm ▸ hsound1
      have hchosen2 : Chosen batch s2.view := hs2.symm ▸ hchosen1
      have hpending2 : s2.pending = state.pending :=
        (congrArg AsyncView.pending hs2).trans hpending1
      have hdiscarded2 : s2.discarded = state.discarded :=
        (congrArg AsyncView.discarded hs2).trans hdiscarded1
      have hdrained2 : s2.pending = [] → s2.discarded = ∅ := fun hempty =>
        hdiscarded2.trans (h.drained (hpending2.symm.trans hempty))
      rw [wpe_ite]
      refine ⟨fun hnone => ?_, fun _ => ?_⟩
      · refine hsettled s2 hpending2 hdiscarded2 ?_
        have htaken : taken batch = [] := by
          unfold taken
          -- an empty batch took no request from the queues
          rw [hnone, ite_self]
        rw [htaken] at hsound2
        exact hsound2
      -- a replayed row needs tokens still in flight: the batch is put back
      rw [wpe_get, wpe_ite]
      refine ⟨fun _ => ?_, fun hnone => ?_⟩
      · rw [wpe_bind]
        refine putBack_sound hsound2 fun next hpending hdiscarded hnext => ?_
        exact hsettled next (hpending.trans hpending2) (hdiscarded.trans hdiscarded2) hnext
      · refine wpe_then (submitBatch_settled hquiet hsound2 hchosen2 (fun seqId hmem => ?_)
          hdrained2) fun _ next hnext => hnext
        rw [Bool.not_eq_true, List.any_eq_false] at hnone
        exact Bool.not_eq_true _ ▸ hnone seqId hmem

end AsyncScheduler
