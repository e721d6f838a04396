import SparseEngine.AsyncScheduling.Retirement

/-!
# Submission

A batch is scheduled ahead of the outputs that are pending.  `schedule`
preempts nothing while steps are in flight, so the requests of pending steps
stay in the decoding queue; a batch with a replay and a batch whose submission
fails go back to their queues.

`Chosen` is what `schedule` promises of a batch, and `Sound.pushed` what a
pushed step adds to the invariant.
-/

/-- A list that is mapped by a function that does not raise there. -/
theorem mapM_eq_ok {α β : Type} {f : α → Except PyError β} {g : α → β} {xs : List α}
    (h : ∀ x ∈ xs, f x = .ok (g x)) : xs.mapM f = .ok (xs.map g) := by
  induction xs with
  | nil => rfl
  | cons x xs ih =>
      obtain ⟨hfirst, hrest⟩ := List.forall_mem_cons.mp h
      rw [List.mapM_cons, hfirst, ih hrest]
      rfl

/-- The output of one row for each request. -/
theorem outputsOf_map {seqIds : List ℕ} (hnodup : seqIds.Nodup) (token : ℕ → ℤ) (seqId : ℕ) :
    outputsOf seqId (seqIds.map fun other => (other, token other)) =
      if seqId ∈ seqIds then [token seqId] else [] := by
  induction seqIds with
  | nil => rfl
  | cons other seqIds ih =>
      obtain ⟨hnot, hrest⟩ := List.nodup_cons.mp hnodup
      rw [List.map_cons]
      by_cases heq : other = seqId
      · subst heq
        rw [outputsOf_cons_self, ih hrest, if_neg hnot, if_pos List.mem_cons_self]
      · rw [outputsOf_cons_of_ne heq, ih hrest]
        refine if_congr ?_ rfl rfl
        rw [List.mem_cons]
        exact (or_iff_right (Ne.symm heq)).symm

/-- The requests of a step that publish are some of its requests. -/
theorem PendingStep.published_sublist {Id : Type} (step : PendingStep Id) :
    step.published.Sublist step.seqs := by
  unfold published
  generalize step.seqs = seqIds
  generalize step.publishes = publishes
  induction seqIds generalizing publishes with
  | nil => exact List.nil_sublist _
  | cons seqId seqIds ih =>
      cases publishes with
      | nil => exact List.nil_sublist _
      | cons publish publishes =>
          cases publish with
          | false => exact (ih publishes).cons _
          | true => exact (ih publishes).cons_cons _

namespace AsyncView

variable [PrefixReuse] {Id : Type} {sampled : ℕ → ℕ → ℤ} {configured : List ℤ} {held : List ℕ}
  {view : AsyncView Id}

/-- What is pending does not count. -/
def accepts (seqs : ℕ → Sequence Id) (seqId : ℕ) : Sequence.History :=
  ({ seqs seqId with numPendingOutputs := 0 } : Sequence Id).history

omit [PrefixReuse] in
theorem accepts_fields {seqs later : ℕ → Sequence Id} {seqId : ℕ} (h : accepts later seqId = accepts seqs seqId) :
    (later seqId).numCompletionTokens = (seqs seqId).numCompletionTokens ∧
      (later seqId).maxTokens = (seqs seqId).maxTokens := by
  unfold accepts at h
  simp only [Sequence.history, Sequence.History.mk.injEq] at h
  obtain ⟨_, htokens, hprompt, _, hmax, _⟩ := h
  unfold Sequence.numCompletionTokens
  rw [htokens, hprompt]
  exact ⟨rfl, hmax⟩

/-- A step is submitted: its requests are back in the queues, and its outputs
are due. -/
theorem Sound.pushed (h : view.Sound sampled configured held [] []) {step : PendingStep Id}
    {result : DeviceResult Id} {seqs : ℕ → Sequence Id} {waiting decoding : List ℕ}
    (hticket : step.ticket = view.nextTicket) (hnodup : step.seqs.Nodup)
    (hlength : step.publishes.length = step.seqs.length)
    (howned : ∀ seqId ∈ step.seqs, seqId ∈ view.owned held) (hrows : result.rows.map Prod.fst = step.seqs)
    (htokens : result.tokens = step.seqs.map (sampled step.ticket))
    (haccepts : ∀ seqId, accepts seqs seqId = accepts view.seqs seqId)
    (hpending : ∀ seqId, (seqs seqId).numPendingOutputs = (view.seqs seqId).numPendingOutputs +
      if seqId ∈ step.published then 1 else 0)
    (hwell : ∀ seqId, (seqs seqId).Wellformed) (hunspent : ∀ seqId ∈ step.published, (view.seqs seqId).Unspent)
    (hdecoding : ∀ seqId ∈ decoding, (seqs seqId).Decoding)
    (hidle : ∀ seqId ∈ waiting, (seqs seqId).numPendingOutputs = 0)
    (hperm : (waiting ++ decoding).Perm (view.owned held)) :
    Sound sampled configured [] [] [] { view with
      seqs := seqs
      waiting := waiting
      decoding := decoding
      pending := view.pending ++ [step]
      nextTicket := step.ticket + 1
      results := view.results.set step.ticket result
      history := { view.history with
        submitted := view.history.submitted ++ [step.ticket]
        issued := view.history.issued ++ step.outputs sampled } } := by
  have hmem : ∀ seqId, seqId ∈ waiting ++ decoding ++ [] ↔ seqId ∈ view.owned held := by
    intro seqId
    rw [List.append_nil]
    exact hperm.mem_iff
  -- the new ticket is larger than every pending one:
  have hold : ∀ other ∈ view.pending, other.ticket ≠ step.ticket := fun other hother =>
    Nat.ne_of_lt (hticket ▸ (h.submitted other hother).ticket_lt)
  have hout : ∀ seqId, outputsOf seqId (step.outputs sampled) =
      if seqId ∈ step.published then [sampled step.ticket seqId] else [] := fun seqId =>
    outputsOf_map (hnodup.sublist step.published_sublist) (sampled step.ticket) seqId
  have hdue : ∀ seqId, outputsOf seqId ((view.pending ++ [step]).flatMap (·.outputs sampled)) =
      outputsOf seqId (view.due sampled) ++ outputsOf seqId (step.outputs sampled) := by
    intro seqId
    rw [List.flatMap_append, outputsOf_append, List.flatMap_singleton]
    rfl
  constructor
  · -- a publishing row spends one more token of its budget:
    refine ⟨hwell, hdecoding, fun seqId hwaits => hidle seqId ?_, ?_, h.queued.inflight, fun seqId => ?_⟩
    · rwa [List.append_nil] at hwaits
    · show (waiting ++ decoding ++ []).Nodup
      rw [List.append_nil]
      exact hperm.nodup_iff.mpr h.queued.nodup
    · obtain ⟨hcompletion, hmax⟩ := accepts_fields (haccepts seqId)
      have hbudget := h.queued.budget seqId
      show (seqs seqId).numCompletionTokens + (seqs seqId).numPendingOutputs ≤ (seqs seqId).maxTokens
      rw [hcompletion, hmax, hpending]
      split
      · next hpublished =>
        have hmore := hunspent seqId hpublished
        unfold Sequence.Unspent at hmore
        omega
      · omega
  · -- only admitted requests are in the step:
    refine h.accounted.moved hmem fun seqId hnone => ?_
    obtain ⟨hissued, hpublished⟩ := h.accounted.nothing hnone
    refine ⟨?_, hpublished⟩
    rw [outputsOf_append, hissued, hout, if_neg, List.append_nil]
    intro hin
    have hsome := h.accounted.admitted seqId (.inl (howned seqId (step.published_sublist.subset hin)))
    rw [hnone] at hsome
    exact absurd hsome Bool.false_ne_true
  · intro other hother
    -- the results of the earlier steps stay; the new one is read back at its own ticket
    rcases List.mem_append.mp hother with hbefore | hnow
    · refine (h.submitted other hbefore).mono ?_ ?_ fun seqId _ hin => hin.imp_left (hmem seqId).mpr
      · show (view.results.set step.ticket result).get? other.ticket = _
        rw [Dict.get?_set, if_neg (hold other hbefore)]
      · show view.nextTicket ≤ step.ticket + 1
        omega
    · obtain rfl := List.mem_singleton.mp hnow
      exact ⟨hnodup, hlength, ⟨result, Dict.get?_set_self _ _ _, htokens⟩, Nat.lt_succ_self _,
        fun seqId hin => .inl ((hmem seqId).mpr (howned seqId hin))⟩
  · show ((view.pending ++ [step]).map PendingStep.ticket).Nodup
    rw [List.map_append, List.map_singleton, List.nodup_append]
    refine ⟨h.tickets, List.nodup_singleton _, fun ticket hticket other hother heq => ?_⟩
    obtain ⟨before, hbefore, rfl⟩ := List.mem_map.mp hticket
    exact hold before hbefore (heq.trans (List.mem_singleton.mp hother))
  · intro ticket found hget
    change (view.results.set step.ticket result).get? ticket = some found at hget
    rw [Dict.get?_set] at hget
    split at hget
    · next heq =>
      obtain rfl := Option.some.inj hget
      exact ⟨step, List.mem_append_right _ (List.mem_singleton_self step), heq.symm, hrows⟩
    · obtain ⟨other, hother, hsame⟩ := h.results ticket found hget
      exact ⟨other, List.mem_append_left _ hother, hsame⟩
  · show view.history.submitted ++ [step.ticket] =
      view.history.collected ++ (view.pending ++ [step]).map PendingStep.ticket
    rw [h.order, List.map_append, List.map_singleton, List.append_assoc]
  · exact fun _ hin => absurd hin List.not_mem_nil
  · intro seqId
    -- a publishing row makes one more output outstanding:
    have hcount := h.outstanding seqId
    show (seqs seqId).numPendingOutputs =
      (outputsOf seqId ([] ++ (view.pending ++ [step]).flatMap (·.outputs sampled))).length
    rw [List.nil_append] at hcount ⊢
    rw [hpending, hcount, hdue, hout, List.length_append, Nat.cast_add]
    split <;> rfl
  · intro seqId
    have hissued := h.issued seqId
    show outputsOf seqId (view.history.issued ++ step.outputs sampled) =
      outputsOf seqId view.history.sampled ++
        outputsOf seqId ([] ++ (view.pending ++ [step]).flatMap (·.outputs sampled))
    rw [List.nil_append] at hissued ⊢
    rw [outputsOf_append, hissued, hdue, List.append_assoc]
  · intro seqId request hrequest
    -- appending placeholders changes nothing that a request follows:
    have htracked := h.tracked seqId request hrequest
    exact htracked.mono ((haccepts seqId).trans htracked.follows) rfl rfl rfl rfl (hmem seqId).mp .rfl
      (Finset.Subset.refl _)

end AsyncView

namespace Scheduler

variable [PrefixReuse] {Id Env : Type} {ledger : Env → List (Sequence Id)} {start next : Scheduler Id Env}

variable {victims : List ℕ}

/-- What a call of `schedule` leaves of every sequence. -/
theorem Settled.each (h : Settled ledger start victims next)
    (hwell : ∀ seqId, (start.seq seqId).Wellformed) (seqId : ℕ) :
    (next.seq seqId).history = (start.seq seqId).history ∧ (next.seq seqId).Wellformed := by
  by_cases hvictim : seqId ∈ victims
  · have hrestarted := h.restarted seqId hvictim
    exact ⟨hrestarted.history_eq, hrestarted.wellformed (hwell seqId)⟩
  · have hmove := h.moves seqId hvictim
    exact ⟨hmove.history_eq, hmove.wellformed (hwell seqId)⟩

theorem Settled.decodes (h : Settled ledger start victims next)
    (hdecoding : ∀ seqId ∈ start.decoding, (start.seq seqId).Decoding) :
    ∀ seqId ∈ next.decoding, (next.seq seqId).Decoding := by
  intro seqId hmem
  obtain ⟨hbefore, hnot⟩ := h.queued seqId hmem
  exact (hdecoding seqId hbefore).rescheduled (h.moves seqId hnot)

/-- A chunk is scheduled only for a sequence without pending outputs. -/
theorem pending_of_chunked {seq : Sequence Id} (hchunked : seq.Chunked) (hwell : seq.Wellformed) :
    seq.numPendingOutputs = 0 := by
  rcases hchunked.prefilling hwell with hprompting | hrebuilding
  · exact hprompting.pending_eq
  · exact hrebuilding.pending_eq

end Scheduler

namespace AsyncView

variable [PrefixReuse] {Id : Type}

/-- A batch that `schedule` has returned. -/
structure Chosen (batch : ScheduleResult) (view : AsyncView Id) : Prop where
  nodup : batch.seqs.Nodup
  chunked : batch.isPrefill = true → ∀ seqId ∈ batch.seqs, (view.seqs seqId).Chunked
  decode : batch.isPrefill = false → batch.seqs ⊆ view.decoding
  unspent : batch.isPrefill = false → ∀ seqId ∈ batch.seqs, (view.seqs seqId).Unspent
  drained : batch.preempted ≠ [] → view.pending = []

omit [PrefixReuse] in
theorem Chosen.owned {batch : ScheduleResult} {view : AsyncView Id} (h : Chosen batch view) :
    ∀ seqId ∈ batch.seqs, seqId ∈ view.owned (Scheduler.taken batch) := by
  intro seqId hmem
  rw [mem_owned]
  cases hprefill : batch.isPrefill with
  | false => exact .inr (.inl (h.decode hprefill hmem))
  | true =>
      unfold Scheduler.taken
      rw [if_pos hprefill]
      exact .inr (.inr hmem)

end AsyncView

namespace AsyncExecution

variable {Id : Type}

theorem applyPenalties_results (hasSamplingPenalty : ℕ → Bool) (rows : List (ℕ × Sequence Id))
    (execution : AsyncExecution Id) :
    (execution.applyPenalties hasSamplingPenalty rows).results = execution.results := by
  unfold applyPenalties
  induction rows.filter fun row => hasSamplingPenalty row.1 generalizing execution with
  | nil => rfl
  | cons row rows ih =>
      rw [List.foldl_cons, ih]
      unfold seedPenalty
      split <;> rfl

theorem noteSamples_results {isPrefill : Bool} {rows : List ((ℕ × Sequence Id) × ℤ)}
    {execution later : AsyncExecution Id} (h : noteSamples isPrefill rows execution = .ok later) :
    later.results = execution.results := by
  induction rows generalizing execution with
  | nil => rw [← Except.ok.inj h]
  | cons row rows ih =>
      obtain ⟨⟨seqId, seq⟩, token⟩ := row
      unfold noteSamples at h
      split at h
      · exact nomatch h
      · exact ih h
      · have hrest := ih h
        exact hrest

end AsyncExecution

namespace AsyncScheduler

open Routine AsyncView Scheduler

variable [PrefixReuse] {Id Env Key Resource : Type} [DecidableEq Key] [DecidableEq Resource]
  {ledger : Env → List (Sequence Id)} {engine : AsyncEngine Id Env Key Resource}
  {state : AsyncScheduler Id Env}

/-- The state after a call of `schedule`. -/
def scheduled (state : AsyncScheduler Id Env) (next : Scheduler Id Env) : AsyncScheduler Id Env :=
  { state with scheduler := { next with asyncInflight := 0 } }

/-- **A call of `schedule`** with the number of steps in flight. -/
theorem schedule_sound (hTame : Tame ledger engine.oracle engine.callbacks) (h : engine.Sound [] [] [] state.view) :
    wpe (schedule engine.config engine.oracle engine.callbacks)
      (fun batch next =>
        engine.Sound (taken batch) [] [] (scheduled state next).view ∧
          Chosen batch (scheduled state next).view ∧ next.asyncInflight = state.pending.length)
      (fun next =>
        engine.Sound [] [] [] (scheduled state next).view ∧ next.asyncInflight = state.pending.length)
      { state.scheduler with asyncInflight := state.pending.length } := by
  generalize hstart : ({ state.scheduler with asyncInflight := state.pending.length } :
    Scheduler Id Env) = start
  have hseq : ∀ seqId, start.seq seqId = state.view.seqs seqId := fun _ => hstart ▸ rfl
  have hwaiting : start.waiting = state.view.waiting := hstart ▸ rfl
  have hdecoding : start.decoding = state.view.decoding := hstart ▸ rfl
  have hinflight : start.asyncInflight = state.pending.length := hstart ▸ rfl
  have hqueues : state.view.owned [] = start.waiting ++ start.decoding := by
    unfold owned
    rw [List.append_nil, hwaiting, hdecoding]
  have hnodup : (start.waiting ++ start.decoding).Nodup := hqueues ▸ h.queued.nodup
  have hwell : ∀ seqId, (start.seq seqId).Wellformed := fun seqId =>
    (hseq seqId).symm ▸ h.queued.wellformed seqId
  have hdecodes : ∀ seqId ∈ start.decoding, (start.seq seqId).Decoding := by
    intro seqId hmem
    rw [hseq]
    exact h.queued.decoding seqId (hdecoding ▸ hmem)
  -- nothing is pending without a step in flight
  have hnone : state.pending = [] → ∀ seqId, (state.view.seqs seqId).numPendingOutputs = 0 := by
    intro hempty seqId
    have hdue : state.view.due engine.sampled = [] := by
      unfold due
      rw [show state.view.pending = [] from hempty, List.flatMap_nil]
    rw [h.outstanding, hdue]
    rfl
  have hready : Ready start := by
    refine ⟨hwell, hdecodes, (List.nodup_append.mp hnodup).2.1, fun hzero seqId _ => ?_⟩
    rw [hinflight] at hzero
    rw [hseq]
    exact hnone (List.length_eq_zero_iff.mp (Int.ofNat.inj hzero)) seqId
  -- the queues take no request with pending outputs
  have hsound : ∀ (next : Scheduler Id Env) (victims queue : List ℕ), Scheduler.Settled ledger start victims next →
      (next.waiting ++ next.decoding ++ queue).Perm (start.waiting ++ start.decoding) →
      (state.pending ≠ [] → next.waiting ⊆ start.waiting) →
      (∀ seqId ∈ queue, (next.seq seqId).Chunked) →
      engine.Sound queue [] [] (scheduled state next).view := by
    intro next victims queue hsettled hperm hlined hchunked
    have heach := hsettled.each hwell
    have hpending : ∀ seqId, (next.seq seqId).numPendingOutputs = (state.view.seqs seqId).numPendingOutputs := by
      intro seqId
      rw [(Sequence.history_eq_iff.mp (heach seqId).1).2.2.2.1, hseq]
    refine h.requeue (fun seqId => ?_) (fun seqId => (heach seqId).2) (hsettled.decodes hdecodes)
      (fun seqId hmem => ?_) (hqueues ▸ hperm) rfl
    · rw [← hseq]
      exact (heach seqId).1
    · rcases List.mem_append.mp hmem with hwaits | htaken
      · by_cases hempty : state.pending = []
        · exact hnone hempty seqId
        · have hbefore : seqId ∈ state.view.waiting := hwaiting ▸ hlined hempty hwaits
          exact h.queued.idle seqId (List.mem_append_left _ hbefore)
      · rw [← hpending]
        exact pending_of_chunked (hchunked seqId htaken) (heach seqId).2
  have hlined : state.pending ≠ [] →
      wpe (schedule engine.config engine.oracle engine.callbacks)
        (fun _ next => next.waiting ⊆ start.waiting) (fun next => next.waiting ⊆ start.waiting)
        start := by
    intro hsome
    refine schedule_lined hTame ?_
    rw [hinflight]
    exact fun hzero => hsome (List.length_eq_zero_iff.mp (Int.ofNat.inj hzero))
  have hboth : wpe (schedule engine.config engine.oracle engine.callbacks)
      (fun batch next => (Scheduled ledger start batch next ∧ Divided start batch next) ∧
        (state.pending ≠ [] → next.waiting ⊆ start.waiting))
      (fun next => (Halted ledger start next ∧
        (next.waiting ++ next.decoding).Perm (start.waiting ++ start.decoding)) ∧
          (state.pending ≠ [] → next.waiting ⊆ start.waiting)) start := by
    have hdivided : wpe (schedule engine.config engine.oracle engine.callbacks) _ _ start :=
      schedule_divided hTame hready hnodup
    by_cases hempty : state.pending = []
    · exact wpe_imp hdivided (fun _ _ hnext => ⟨hnext, fun hsome => absurd hempty hsome⟩)
        fun _ hnext => ⟨hnext, fun hsome => absurd hempty hsome⟩
    · exact wpe_imp (wpe_and hdivided (hlined hempty))
        (fun _ _ hnext => ⟨hnext.1, fun _ => hnext.2⟩) fun _ hnext => ⟨hnext.1, fun _ => hnext.2⟩
  refine wpe_imp hboth (fun batch next hnext => ?_) fun next hnext => ?_
  · obtain ⟨⟨hscheduled, hdivided⟩, hline⟩ := hnext
    have htaken : ∀ seqId ∈ taken batch, (next.seq seqId).Chunked := by
      intro seqId hmem
      unfold taken at hmem
      split at hmem
      · next hprefill => exact hscheduled.chunked hprefill seqId hmem
      · exact absurd hmem List.not_mem_nil
    refine ⟨hsound next _ _ hscheduled.settled hdivided.perm hline htaken,
      ⟨hdivided.batch.nodup, hscheduled.chunked, hdivided.batch.decode,
        fun hdecode seqId hmem => ?_, fun hvictims => ?_⟩,
      hscheduled.settled.inflight_eq.trans hinflight⟩
    · exact (hscheduled.unspent hdecode seqId hmem).congr ((hscheduled.settled.each hwell seqId).1)
    · by_contra hsome
      obtain ⟨victim, hvictim⟩ := List.exists_mem_of_ne_nil _ hvictims
      have hwaits := hline hsome (hscheduled.settled.waits victim hvictim)
      have hevicted := hscheduled.settled.evicted victim hvictim
      exact (List.nodup_append.mp hnodup).2.2 victim hwaits victim hevicted rfl
  · obtain ⟨⟨⟨victims, hsettled⟩, hperm⟩, hline⟩ := hnext
    refine ⟨hsound next victims [] hsettled ?_ hline fun _ hmem => absurd hmem List.not_mem_nil,
      hsettled.inflight_eq.trans hinflight⟩
    rwa [List.append_nil]

/-- The number of steps in flight is set for the call only. -/
theorem scheduleAhead_sound (hTame : Tame ledger engine.oracle engine.callbacks)
    (h : engine.Sound [] [] [] state.view) :
    wpe (scheduleAhead engine)
      (fun chosen next => next.pending = state.pending ∧ next.discarded = state.discarded ∧
        match chosen with
        | none => engine.Sound [] [] [] next.view
        | some batch => engine.Sound (taken batch) [] [] next.view ∧ Chosen batch next.view)
      (fun next => next.pending = state.pending ∧ next.discarded = state.discarded ∧
        engine.Sound [] [] [] next.view) state := by
  unfold scheduleAhead
  rw [wpe_set, wpe_finallyDo]
  apply wpe_catchWhen
  rw [wpe_bind, wpe_onScheduler]
  refine wpe_imp (schedule_sound hTame h) (fun batch next hnext => ?_) fun next hnext => ?_
  · rw [wpe_pure, wpe_write]
    exact ⟨rfl, rfl, hnext.1, hnext.2.1⟩
  · rw [wpe_write]
    refine ⟨⟨rfl, rfl, hnext.1⟩, fun error => ?_⟩
    rw [wpe_pure, wpe_write]
    exact ⟨rfl, rfl, hnext.1⟩

section

omit [DecidableEq Key] [DecidableEq Resource]

/-- The preempted requests are released; none is preempted while steps are in
flight. -/
theorem releasePreempted_view (hrelease : ∀ seqIds, Quiet ledger (engine.runner.releaseSlots seqIds)) {held : List ℕ}
    (h : engine.Sound held [] [] state.view) {preempted : List ℕ}
    (hdrained : preempted ≠ [] → state.pending = []) {bad : AsyncScheduler Id Env → Prop} :
    wpe (releasePreemptedSequences engine preempted) (fun _ next => next.view = state.view) bad
      state := by
  unfold releasePreemptedSequences
  rw [wpe_whenDo]
  refine ⟨fun hsome => ?_, fun _ => rfl⟩
  refine releaseSlots_view hrelease (holds_eq_false h fun seqId _ step hstep => ?_) h.accounted.released
  rw [hdrained hsome] at hstep
  exact absurd hstep List.not_mem_nil

omit [PrefixReuse] in
/-- A failed submission leaves everything but the feedback as it was. -/
theorem submitAsync_view (hforward : ∀ rows isPrefill, Untouching ledger (engine.runner.forward rows isPrefill))
    (hsample : ∀ rows, Untouching ledger (engine.runner.sample rows)) (ticket : ℕ)
    (rows : List (ℕ × Sequence Id)) (isPrefill : Bool) :
    wpe (submitAsync engine ticket rows isPrefill)
      (fun _ next => ∃ result : DeviceResult Id, result.rows = rows ∧
        result.tokens = rows.map (fun row => engine.sampled ticket row.1) ∧
        next.view = { state.view with results := state.view.results.set ticket result })
      (fun next => next.view = state.view) state := by
  unfold submitAsync
  rw [wpe_get]
  refine wpe_guarded rfl fun _ => ?_
  rw [wpe_bind]
  refine Preserves.wpe ?_ (fun inputs s1 hs1 => ?_) fun next hnext => hnext
  · refine .ite (.pure _) ?_
    exact Preserves.read.bind fun _ => (Preserves.ofExcept _).bind fun _ => .pure _
  rw [wpe_bind]
  refine (view_call (hforward rows isPrefill)).wpe (fun slots s2 hs2 => ?_) fun next hnext => hnext.trans hs1
  have hfilled : ({ s2 with execution :=
      s2.execution.applyPenalties engine.hasSamplingPenalty rows } :
      AsyncScheduler Id Env).view = state.view := by
    show { s2.view with
      results := (s2.execution.applyPenalties engine.hasSamplingPenalty rows).results } = state.view
    rw [AsyncExecution.applyPenalties_results]
    exact hs2.trans hs1
  rw [wpe_set, wpe_bind]
  refine (view_call (hsample rows)).wpe (fun _ s3 hs3 => ?_) fun next hnext =>
    hnext.trans hfilled
  have hsame := hs3.trans hfilled
  dsimp only
  rw [wpe_get, wpe_bind]
  refine wpe_ofExcept (fun execution hexecution => ?_) hsame
  rw [wpe_write]
  have hview : ∀ result : DeviceResult Id, ({ s3 with execution := { execution with
      results := execution.results.set ticket result } } : AsyncScheduler Id Env).view =
        { state.view with results := state.view.results.set ticket result } := by
    intro result
    show { s3.view with results := execution.results.set ticket result } = _
    rw [AsyncExecution.noteSamples_results hexecution, show s3.execution.results = s3.view.results from rfl, hsame]
  exact ⟨⟨rows, isPrefill, rows.map fun row => engine.sampled ticket row.1, inputs,
    prefixRecords isPrefill rows slots⟩, rfl, rfl, hview _⟩

end

end AsyncScheduler

/-! ## The rows of a submitted step -/

/-- A sequence after its row is submitted, but for its status. -/
def Sequence.noted {Id : Type} (isPrefill publish : Bool) (seq : Sequence Id) : Sequence Id :=
  { seq with
    numPendingOutputs := seq.numPendingOutputs + if publish then 1 else 0
    numPrefilledTokens :=
      if isPrefill then seq.numPrefilledTokens + seq.currentChunkSize.getD 0
      else seq.numPrefilledTokens }

namespace AsyncScheduler

open Routine AsyncView Scheduler

variable {Id Env Key Resource : Type} {ledger : Env → List (Sequence Id)}
  {engine : AsyncEngine Id Env Key Resource} {state before next : AsyncScheduler Id Env}
  {seqId : ℕ} {later : Sequence Id} {waiting decoding : List ℕ}

/-- One sequence is `later` now, and the queues are as given. -/
def Placed (before : AsyncScheduler Id Env) (seqId : ℕ) (later : Sequence Id)
    (waiting decoding : List ℕ) (next : AsyncScheduler Id Env) : Prop :=
  next.view = { before.view with
    seqs := Function.update before.view.seqs seqId later
    waiting := waiting
    decoding := decoding }

theorem Placed.start (state : AsyncScheduler Id Env) (seqId : ℕ) :
    Placed state seqId (state.seq seqId) state.scheduler.waiting state.scheduler.decoding state := by
  have hsame : Function.update state.view.seqs seqId (state.seq seqId) = state.view.seqs :=
    Function.update_eq_self seqId _
  unfold Placed
  rw [hsame]
  rfl

section

variable (h : Placed before seqId later waiting decoding next)

include h

theorem Placed.seq_eq (other : ℕ) :
    next.seq other = if other = seqId then later else before.seq other := by
  have hseqs := congrFun (congrArg AsyncView.seqs h) other
  exact hseqs.trans (Function.update_apply _ _ _ _)

theorem Placed.seq_self : next.seq seqId = later := by
  rw [h.seq_eq, if_pos rfl]

theorem Placed.set (update : Sequence Id → Sequence Id) :
    Placed before seqId (update later) waiting decoding (setSeq seqId update next) := by
  have hseq : next.view.seqs seqId = later := h.seq_self
  unfold Placed at h ⊢
  show { next.view with
    seqs := Function.update next.view.seqs seqId (update (next.view.seqs seqId)) } = _
  rw [hseq, h, Function.update_idem]

end

variable {bad : AsyncScheduler Id Env → Prop} {isPrefill publish : Bool} {seq : Sequence Id}

theorem Placed.wpe_quiet (h : Placed before seqId later waiting decoding next) {α : Type}
    {hook : Hook Id Env α} (hhook : Quiet ledger hook) {post : α → AsyncScheduler Id Env → Prop}
    (hpost : ∀ a last, Placed before seqId later waiting decoding last → post a last) :
    wpe (call hook) post bad next :=
  AsyncScheduler.wpe_quiet hhook fun a last hlast => hpost a last (hlast.trans h)

/-- The rows of a submitted step. -/
structure Noted (isPrefill : Bool) (rows : List (ℕ × Bool)) (before next : AsyncScheduler Id Env) :
    Prop where
  view_eq : next.view = { before.view with
    seqs := next.view.seqs, waiting := next.view.waiting, decoding := next.view.decoding }
  others : ∀ seqId ∉ rows.map Prod.fst, next.seq seqId = before.seq seqId
  each : ∀ row ∈ rows, ∃ status,
    next.seq row.1 = { (before.seq row.1).noted isPrefill row.2 with status := status }
  perm : (next.scheduler.waiting ++ next.scheduler.decoding).Perm (before.scheduler.waiting ++
    before.scheduler.decoding ++ if isPrefill then rows.map Prod.fst else [])
  waiting : ∀ seqId ∈ next.scheduler.waiting,
    seqId ∈ before.scheduler.waiting ∨ isPrefill = true ∧ (seqId, false) ∈ rows
  decoding : ∀ seqId ∈ next.scheduler.decoding,
    seqId ∈ before.scheduler.decoding ∨ isPrefill = true ∧ (seqId, true) ∈ rows

theorem Placed.noted {status : SequenceStatus}
    (h : Placed before seqId { (before.seq seqId).noted isPrefill publish with status := status }
      waiting decoding next) (hqueues : isPrefill = false ∧ waiting = before.scheduler.waiting ∧
        decoding = before.scheduler.decoding ∨
      isPrefill = true ∧ publish = false ∧ waiting = seqId :: before.scheduler.waiting ∧
        decoding = before.scheduler.decoding ∨
      isPrefill = true ∧ publish = true ∧ waiting = before.scheduler.waiting ∧
        decoding = before.scheduler.decoding ++ [seqId]) :
    Noted isPrefill [(seqId, publish)] before next := by
  have hwaiting : next.scheduler.waiting = waiting := congrArg AsyncView.waiting h
  have hdecoding : next.scheduler.decoding = decoding := congrArg AsyncView.decoding h
  refine ⟨?_, fun other hother => ?_, fun row hrow => ?_, ?_, ?_, ?_⟩
  · unfold Placed at h
    rw [h]
  · rw [h.seq_eq, if_neg]
    exact fun heq => hother (List.mem_singleton.mpr heq)
  · obtain rfl := List.mem_singleton.mp hrow
    exact ⟨status, h.seq_self⟩
  · rw [hwaiting, hdecoding]
    rcases hqueues with ⟨rfl, rfl, rfl⟩ | ⟨rfl, -, rfl, rfl⟩ | ⟨rfl, -, rfl, rfl⟩
    · rw [if_neg Bool.false_ne_true, List.append_nil]
    · exact (List.perm_append_singleton seqId _).symm
    · rw [if_pos rfl, ← List.append_assoc]
      exact List.Perm.refl _
  · rw [hwaiting]
    intro other hother
    rcases hqueues with ⟨-, rfl, -⟩ | ⟨hprefill, rfl, rfl, -⟩ | ⟨-, -, rfl, -⟩
    · exact .inl hother
    · rcases List.mem_cons.mp hother with rfl | hbefore
      · exact .inr ⟨hprefill, List.mem_singleton_self _⟩
      · exact .inl hbefore
    · exact .inl hother
  · rw [hdecoding]
    intro other hother
    rcases hqueues with ⟨-, -, rfl⟩ | ⟨-, -, -, rfl⟩ | ⟨hprefill, rfl, -, rfl⟩
    · exact .inl hother
    · exact .inl hother
    · rcases List.mem_append.mp hother with hbefore | hnow
      · exact .inl hbefore
      · obtain rfl := List.mem_singleton.mp hnow
        exact .inr ⟨hprefill, List.mem_singleton_self _⟩

theorem Noted.cons {row : ℕ × Bool} {rows : List (ℕ × Bool)} {last : AsyncScheduler Id Env}
    (hnot : row.1 ∉ rows.map Prod.fst) (hfirst : Noted isPrefill [row] before next)
    (hrest : Noted isPrefill rows next last) : Noted isPrefill (row :: rows) before last := by
  refine ⟨?_, fun seqId hmem => ?_, fun other hother => ?_, ?_, fun seqId hmem => ?_, fun seqId hmem => ?_⟩
  · rw [hrest.view_eq, hfirst.view_eq]
  · rw [List.map_cons, List.mem_cons, not_or] at hmem
    rw [hrest.others seqId hmem.2]
    exact hfirst.others seqId fun heq => hmem.1 (List.mem_singleton.mp heq)
  · rcases List.mem_cons.mp hother with rfl | hlater
    · rw [hrest.others other.1 hnot]
      exact hfirst.each other (List.mem_singleton_self other)
    · have hne : other.1 ∉ [row].map Prod.fst := by
        intro heq
        have hmem : other.1 ∈ rows.map Prod.fst := List.mem_map_of_mem hlater
        rw [List.mem_singleton.mp heq] at hmem
        exact hnot hmem
      have hstep := hrest.each other hlater
      rw [hfirst.others other.1 hne] at hstep
      exact hstep
  · have hlast := hrest.perm
    have hnext := hfirst.perm
    cases isPrefill with
    | false =>
        simp only [Bool.false_eq_true, if_false, List.append_nil] at hlast hnext ⊢
        exact hlast.trans hnext
    | true =>
        simp only [if_true, List.map_cons, List.map_nil] at hlast hnext ⊢
        have hboth := hlast.trans (hnext.append_right (rows.map Prod.fst))
        rwa [List.append_assoc, List.singleton_append] at hboth
  · rcases hrest.waiting seqId hmem with hnext | ⟨hprefill, hlater⟩
    · refine (hfirst.waiting seqId hnext).imp_right fun ⟨hprefill, hnow⟩ => ⟨hprefill, ?_⟩
      exact List.mem_singleton.mp hnow ▸ List.mem_cons_self
    · exact .inr ⟨hprefill, List.mem_cons_of_mem _ hlater⟩
  · rcases hrest.decoding seqId hmem with hnext | ⟨hprefill, hlater⟩
    · refine (hfirst.decoding seqId hnext).imp_right fun ⟨hprefill, hnow⟩ => ⟨hprefill, ?_⟩
      exact List.mem_singleton.mp hnow ▸ List.mem_cons_self
    · exact .inr ⟨hprefill, List.mem_cons_of_mem _ hlater⟩

/-- Whether a row publishes: the last chunk of a prompt does, and every decode
row. -/
def publishFlag (isPrefill : Bool) (seq : Sequence Id) : Bool :=
  !isPrefill || decide (seq.numPromptTokens ≤ seq.numPrefilledTokens + seq.currentChunkSize.getD 0)

section

variable (hcomplete : ∀ seqId, Quiet ledger (engine.completePrefillExecution seqId))
  (hmonotonic : Quiet ledger engine.callbacks.monotonic)

include hcomplete hmonotonic

/-- One row. -/
theorem noteRow_noted (hpublish : publish = publishFlag isPrefill (state.seq seqId))
    (hchunk : isPrefill = true → (state.seq seqId).currentChunkSize ≠ none) :
    wpe (noteRow engine isPrefill seqId publish)
      (fun _ next => Noted isPrefill [(seqId, publish)] state next) bad state := by
  generalize hseq : state.seq seqId = seq at hpublish hchunk
  have hstart : Placed state seqId seq state.scheduler.waiting state.scheduler.decoding state :=
    hseq ▸ .start state seqId
  unfold noteRow
  rw [wpe_bind]
  have hpended : wpe (whenDo (publish = true) (write (setSeq seqId fun seq => { seq with
      numPendingOutputs := seq.numPendingOutputs + 1 })))
      (fun _ next => Placed state seqId { seq with
        numPendingOutputs := seq.numPendingOutputs + if publish then 1 else 0 }
        state.scheduler.waiting state.scheduler.decoding next) bad state := by
    rw [wpe_whenDo]
    refine ⟨fun hyes => ?_, fun hno => ?_⟩
    · rw [wpe_write, if_pos hyes]
      exact hstart.set _
    · rw [if_neg hno, Int.add_zero]
      exact hstart
  refine wpe_mono hpended fun _ s1 hs1 => ?_
  rw [wpe_whenDo]
  refine ⟨fun hprefill => ?_, fun hdecode => ?_⟩
  swap
  · rw [Bool.not_eq_true] at hdecode
    subst hdecode
    have hlast : Placed state seqId
        { (state.seq seqId).noted false publish with status := seq.status }
        state.scheduler.waiting state.scheduler.decoding s1 := by
      rw [hseq]
      exact hs1
    exact hlast.noted (.inl ⟨rfl, rfl, rfl⟩)
  subst hprefill
  obtain ⟨chunkSize, hsome⟩ := Option.ne_none_iff_exists'.mp (hchunk rfl)
  have hprefilled : (s1.seq seqId).prefilledAfterChunk = .ok (seq.numPrefilledTokens + chunkSize) := by
    rw [hs1.seq_self]
    unfold Sequence.prefilledAfterChunk
    dsimp only
    rw [hsome]
  have hflag : publish = decide (seq.numPromptTokens ≤ seq.numPrefilledTokens + chunkSize) := by
    rw [hpublish]
    unfold publishFlag
    rw [hsome]
    rfl
  -- the sequence but for its status, and the queues
  have hnoted : ∀ (status : SequenceStatus) (waiting decoding : List ℕ)
      (last : AsyncScheduler Id Env), Placed state seqId { seq with
        status := status
        numPendingOutputs := seq.numPendingOutputs + if publish then 1 else 0
        numPrefilledTokens := seq.numPrefilledTokens + chunkSize } waiting decoding last →
      Placed state seqId { (state.seq seqId).noted true publish with status := status } waiting decoding last := by
    intro status waiting decoding last hlast
    have hsize : seq.currentChunkSize.getD 0 = chunkSize := by
      rw [hsome]
      rfl
    unfold Sequence.noted
    rw [if_pos rfl, hseq, hsize]
    exact hlast
  rw [wpe_get, wpe_bind, hprefilled, wpe_ok, wpe_set, wpe_get]
  have hs2 := hs1.set fun other =>
    { other with numPrefilledTokens := seq.numPrefilledTokens + chunkSize }
  rw [hs2.seq_self, wpe_ite]
  refine ⟨fun hlt => ?_, fun hend => ?_⟩
  · rw [wpe_set, wpe_bind]
    have hs3 := hs2.set fun other => { other with status := .waiting }
    refine hs3.wpe_quiet hmonotonic fun now s4 hs4 => ?_
    rw [wpe_write]
    refine Placed.noted (hnoted .waiting (seqId :: state.scheduler.waiting)
      state.scheduler.decoding _ ?_) (.inr (.inl ⟨rfl, ?_, rfl, rfl⟩))
    · show { s4.view with waiting := seqId :: s4.view.waiting } = _
      rw [show s4.view = _ from hs4]
    · rw [hflag]
      exact decide_eq_false (Int.not_le.mpr hlt)
  · rw [wpe_bind]
    refine hs2.wpe_quiet (hcomplete seqId) fun _ s3 hs3 => ?_
    rw [wpe_set, wpe_write]
    have hs4 := hs3.set fun other => { other with status := .running }
    refine Placed.noted (hnoted .running state.scheduler.waiting
      (state.scheduler.decoding ++ [seqId]) _ ?_) (.inr (.inr ⟨rfl, ?_, rfl, rfl⟩))
    · generalize setSeq seqId (fun other => { other with status := .running }) s3 = s4 at hs4 ⊢
      show { s4.view with decoding := s4.view.decoding ++ [seqId] } = _
      rw [show s4.view = _ from hs4]
    · rw [hflag]
      exact decide_eq_true (Int.not_lt.mp hend)

/-- All rows. -/
theorem noteRows_noted (rows : List (ℕ × Bool)) (hnodup : (rows.map Prod.fst).Nodup)
    (hpublish : ∀ row ∈ rows, row.2 = publishFlag isPrefill (state.seq row.1))
    (hchunk : isPrefill = true → ∀ row ∈ rows, (state.seq row.1).currentChunkSize ≠ none) :
    wpe (noteRows engine isPrefill rows) (fun _ next => Noted isPrefill rows state next) bad
      state := by
  induction rows generalizing state with
  | nil =>
      refine ⟨rfl, fun _ _ => rfl, fun _ hrow => absurd hrow List.not_mem_nil, ?_,
        fun _ hmem => .inl hmem, fun _ hmem => .inl hmem⟩
      rw [List.map_nil, ite_self, List.append_nil]
      exact List.Perm.refl _
  | cons row rows ih =>
      obtain ⟨seqId, publish⟩ := row
      obtain ⟨hnot, hrest⟩ := List.nodup_cons.mp hnodup
      obtain ⟨hfirst, hothers⟩ := List.forall_mem_cons.mp hpublish
      unfold noteRows
      refine wpe_then (noteRow_noted hcomplete hmonotonic hfirst fun hprefill =>
        hchunk hprefill _ List.mem_cons_self) fun _ s1 hs1 => ?_
      have hsame : ∀ other ∈ rows, s1.seq other.1 = state.seq other.1 := by
        intro other hother
        refine hs1.others other.1 fun heq => hnot ?_
        exact List.mem_singleton.mp heq ▸ List.mem_map_of_mem hother
      refine wpe_mono (ih hrest (fun other hother => ?_) fun hprefill other hother => ?_)
        fun _ s2 hs2 => hs1.cons hnot hs2
      · rw [hsame other hother]
        exact hothers other hother
      · rw [hsame other hother]
        exact hchunk hprefill other (List.mem_cons_of_mem _ hother)

end

/-- A sequence whose row is submitted decodes, unless a part of its prompt is
left. -/
theorem noted_wellformed [PrefixReuse] (hwell : seq.Wellformed) (hreplay : seq.isRecomputeReplay = false)
    (hchunked : isPrefill = true → seq.Chunked) (hdecoding : isPrefill = false → seq.Decoding) :
    (seq.noted isPrefill (publishFlag isPrefill seq)).Wellformed ∧
      (publishFlag isPrefill seq = true → (seq.noted isPrefill (publishFlag isPrefill seq)).Decoding) ∧
      (isPrefill = true → seq.Prompting) := by
  have hcursor : seq.recomputeReplayCursor = none := by
    unfold Sequence.isRecomputeReplay at hreplay
    exact Option.not_isSome_iff_eq_none.mp (by rw [hreplay]; exact Bool.false_ne_true)
  cases isPrefill with
  | false =>
      obtain ⟨hlater, hdecodes⟩ := hwell.submitted (hdecoding rfl) hcursor
      exact ⟨hlater, fun _ => hdecodes, fun hprefill => absurd hprefill Bool.false_ne_true⟩
  | true =>
      have hprompting : seq.Prompting := by
        rcases (hchunked rfl).prefilling hwell with hprompting | hrebuilding
        · exact hprompting
        · exact absurd (hcursor.symm.trans hrebuilding.cursor_eq).symm (Option.some_ne_none _)
      obtain ⟨chunkSize, hsome, hpos, hle⟩ := hchunked rfl
      have hsize : seq.currentChunkSize.getD 0 = chunkSize := by
        rw [hsome]
        rfl
      unfold publishFlag Sequence.noted
      rw [hsize]
      by_cases hend : seq.numPromptTokens ≤ seq.numPrefilledTokens + chunkSize
      · obtain ⟨hlater, hdecodes⟩ := hwell.lastSubmitted hprompting hpos (Int.le_antisymm hle hend)
        rw [decide_eq_true hend]
        exact ⟨hlater, fun _ => hdecodes, fun _ => hprompting⟩
      · have hlater := hwell.chunkSubmitted hprompting hpos (Int.not_le.mp hend)
        rw [decide_eq_false hend]
        refine ⟨?_, fun hyes => absurd hyes Bool.false_ne_true, fun _ => hprompting⟩
        simp only [Bool.not_true, Bool.false_or, Bool.false_eq_true, if_false, if_true, Int.add_zero]
        exact hlater

theorem publishesRow_eq (hchunked : isPrefill = true → seq.Chunked) :
    AsyncExecution.publishesRow isPrefill seq.executionSnapshot = .ok (publishFlag isPrefill seq) := by
  cases isPrefill with
  | false => rfl
  | true =>
      obtain ⟨chunkSize, hsome, _⟩ := hchunked rfl
      unfold AsyncExecution.publishesRow publishFlag Sequence.isLastChunkPrefill
      rw [if_pos rfl, show seq.executionSnapshot.currentChunkSize = some chunkSize from hsome, hsome]
      rfl

end AsyncScheduler

namespace AsyncView

variable [PrefixReuse] {Id : Type} {sampled : ℕ → ℕ → ℤ} {configured : List ℤ} {held : List ℕ}
  {view : AsyncView Id}

section

variable (h : view.Sound sampled configured held [] [])

include h

/-- A ticket that is handed out and not used. -/
theorem Sound.ticketed :
    Sound sampled configured held [] [] { view with nextTicket := view.nextTicket + 1 } := by
  constructor
  · exact ⟨h.queued.wellformed, h.queued.decoding, h.queued.idle, h.queued.nodup, h.queued.inflight, h.queued.budget⟩
  · exact h.accounted.moved (fun _ => .rfl) fun _ => h.accounted.nothing
  · exact fun step hstep =>
      (h.submitted step hstep).mono rfl (Nat.le_succ _) fun _ _ hmember => hmember
  · exact h.tickets
  · exact h.results
  · exact h.order
  · exact h.remaining
  · exact h.outstanding
  · exact h.issued
  · intro seqId request hrequest
    have htracked := h.tracked seqId request hrequest
    exact htracked.mono htracked.follows rfl rfl rfl rfl id .rfl (Finset.Subset.refl _)

/-- An owned request may have an output. -/
theorem Sound.maxTokens_pos {seqId : ℕ} (hmem : seqId ∈ view.owned held) :
    0 < (view.seqs seqId).maxTokens := by
  have hrequest := h.accounted.admitted seqId (.inl hmem)
  obtain ⟨request, hsome⟩ := Option.isSome_iff_exists.mp hrequest
  have htracked := h.tracked seqId request hsome
  exact (htracked.follows.completion htracked.isNew).2.2

/-- The requests of a prefill batch go back to the waiting queue. -/
theorem Sound.putBack :
    Sound sampled configured [] [] [] { view with waiting := held ++ view.waiting } := by
  refine h.requeue (fun _ => rfl) h.queued.wellformed h.queued.decoding (fun seqId hmem => ?_) ?_ h.queued.inflight
  · rw [List.append_nil] at hmem
    exact h.queued.idle seqId (List.perm_append_comm.mem_iff.mp hmem)
  · unfold owned
    rw [List.append_nil, List.append_assoc]
    exact List.perm_append_comm

end

end AsyncView
