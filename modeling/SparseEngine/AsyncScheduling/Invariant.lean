import SparseEngine.AsyncScheduling.Model
import SparseEngine.AsyncScheduling.Accepted
import SparseEngine.Scheduler.Waiting

/-!
# What a run keeps

The invariant of asynchronous scheduling (`Sound`) is about a part of the
state that the hooks of the model runner do not write (`AsyncView`).  Between
two calls the outputs that are due are those of the pending steps.  While a
step is collected, those of its other rows are due as well; while a prefill
step is submitted, its requests are in no queue; and a request that has ended
leaves its queue a little later.  So `Sound` has the requests of such a batch
(`held`), the rest of such a step (`extra`) and the ended requests that are
still queued (`closing`) as parameters.
-/

/-! ## Sequences with pending outputs -/

namespace Sequence

variable {Id : Type} {seq : Sequence Id}

theorem Counted.of_pending (h : seq.Counted) {pending : ℤ} (hnonneg : 0 ≤ pending) :
    ({ seq with numPendingOutputs := pending } : Sequence Id).Counted :=
  ⟨h.numTokens_eq, h.prompt_nonneg, h.prompt_le, h.promptTokens_eq, h.lastToken_eq, hnonneg⟩

variable [PrefixReuse]

/-- Only a sequence that decodes accepted tokens has pending outputs. -/
theorem Wellformed.decoding_of_pending (h : seq.Wellformed) (hpending : 0 < seq.numPendingOutputs) :
    seq.Decoding ∧ seq.recomputeReplayCursor = none := by
  rcases h.stage with hprompting | hrebuilding | hdecoding
  · exact absurd hprompting.pending_eq (Int.ne_of_gt hpending)
  · exact absurd hrebuilding.pending_eq (Int.ne_of_gt hpending)
  · refine ⟨hdecoding, ?_⟩
    cases hcursor : seq.recomputeReplayCursor with
    | none => rfl
    | some cursor => exact absurd (hdecoding.replaying cursor hcursor).1 (Int.ne_of_gt hpending)

/-- An output is not pending any more, and is not accepted. -/
theorem Wellformed.unpended (h : seq.Wellformed) (hpending : 0 < seq.numPendingOutputs) :
    ({ seq with numPendingOutputs := seq.numPendingOutputs - 1 } : Sequence Id).Wellformed := by
  obtain ⟨hdecoding, hcursor⟩ := h.decoding_of_pending hpending
  have hcompletion : 0 ≤ seq.numCompletionTokens := Int.sub_nonneg_of_le h.counted.prompt_le
  refine ⟨h.counted.of_pending (by omega), h.prefilled_nonneg, h.hit_nonneg, h.attached, ?_⟩
  by_cases hlast : seq.numCompletionTokens = 0 ∧ seq.numPendingOutputs = 1
  · -- a request whose first output is dropped is one with an unfinished prompt again
    left
    refine ⟨hcursor, hlast.1, ?_, Int.le_of_eq hdecoding.prefilled_eq⟩
    show seq.numPendingOutputs - 1 = 0
    omega
  · right; right
    refine ⟨hdecoding.prefilled_eq, hdecoding.prompt_pos, ?_, fun cursor hsome => ?_⟩
    · show 0 < seq.numCompletionTokens + (seq.numPendingOutputs - 1)
      omega
    · exact absurd (hcursor.symm.trans hsome).symm (Option.some_ne_none cursor)

/-- An output is accepted. -/
theorem Wellformed.collected (h : seq.Wellformed) (hpending : 0 < seq.numPendingOutputs) (token : ℤ) :
    (appendToken token { seq with
        numPendingOutputs := seq.numPendingOutputs - 1 } : Sequence Id).Wellformed ∧
      (appendToken token { seq with
        numPendingOutputs := seq.numPendingOutputs - 1 } : Sequence Id).Decoding := by
  obtain ⟨hdecoding, hcursor⟩ := h.decoding_of_pending hpending
  have houtput := hdecoding.output_pos
  have hdecodes : (appendToken token { seq with
      numPendingOutputs := seq.numPendingOutputs - 1 } : Sequence Id).Decoding := by
    refine ⟨hdecoding.prefilled_eq, hdecoding.prompt_pos, ?_, fun cursor hsome => ?_⟩
    · show 0 < seq.numTokens + 1 - seq.numPromptTokens + (seq.numPendingOutputs - 1)
      unfold numCompletionTokens at houtput
      omega
    · exact absurd (hcursor.symm.trans hsome).symm (Option.some_ne_none cursor)
  exact ⟨⟨(h.counted.of_pending (by omega)).appended token, h.prefilled_nonneg, h.hit_nonneg, h.attached,
    .inr (.inr hdecodes)⟩, hdecodes⟩

/-- A decode step is submitted. -/
theorem Wellformed.submitted (h : seq.Wellformed) (hdecoding : seq.Decoding)
    (hcursor : seq.recomputeReplayCursor = none) :
    ({ seq with numPendingOutputs := seq.numPendingOutputs + 1 } : Sequence Id).Wellformed ∧
      ({ seq with numPendingOutputs := seq.numPendingOutputs + 1 } : Sequence Id).Decoding := by
  have houtput := hdecoding.output_pos
  have hnonneg := h.counted.pending_nonneg
  have hdecodes :
      ({ seq with numPendingOutputs := seq.numPendingOutputs + 1 } : Sequence Id).Decoding := by
    refine ⟨hdecoding.prefilled_eq, hdecoding.prompt_pos, ?_, fun cursor hsome => ?_⟩
    · show 0 < seq.numCompletionTokens + (seq.numPendingOutputs + 1)
      omega
    · exact absurd (hcursor.symm.trans hsome).symm (Option.some_ne_none cursor)
  exact ⟨⟨h.counted.of_pending (by omega), h.prefilled_nonneg, h.hit_nonneg, h.attached,
    .inr (.inr hdecodes)⟩, hdecodes⟩

variable {chunkSize : ℤ}

/-- A chunk within the prompt is submitted. -/
theorem Wellformed.chunkSubmitted (h : seq.Wellformed) (hprompting : seq.Prompting)
    (hpos : 0 < chunkSize) (hlt : seq.numPrefilledTokens + chunkSize < seq.numPromptTokens) :
    ({ seq with numPrefilledTokens := seq.numPrefilledTokens + chunkSize } :
      Sequence Id).Wellformed := by
  have hnonneg := h.prefilled_nonneg
  refine ⟨h.counted.congr rfl, by dsimp only; omega, h.hit_nonneg, h.attached.mono rfl (by dsimp only; omega),
    .inl ⟨hprompting.cursor_eq, hprompting.completion_eq, hprompting.pending_eq, ?_⟩⟩
  show seq.numPrefilledTokens + chunkSize ≤ seq.numPromptTokens
  omega

/-- The last chunk of a prompt is submitted. -/
theorem Wellformed.lastSubmitted (h : seq.Wellformed) (hprompting : seq.Prompting)
    (hpos : 0 < chunkSize) (heq : seq.numPrefilledTokens + chunkSize = seq.numPromptTokens) :
    ({ seq with
        numPrefilledTokens := seq.numPrefilledTokens + chunkSize
        numPendingOutputs := seq.numPendingOutputs + 1 } : Sequence Id).Wellformed ∧
      ({ seq with
        numPrefilledTokens := seq.numPrefilledTokens + chunkSize
        numPendingOutputs := seq.numPendingOutputs + 1 } : Sequence Id).Decoding := by
  have hnonneg := h.prefilled_nonneg
  have hpending := hprompting.pending_eq
  have hcompletion := hprompting.completion_eq
  have hdecodes : ({ seq with
      numPrefilledTokens := seq.numPrefilledTokens + chunkSize
      numPendingOutputs := seq.numPendingOutputs + 1 } : Sequence Id).Decoding := by
    refine ⟨heq, ?_, ?_, fun cursor hsome => ?_⟩
    · show 0 < seq.numPromptTokens
      omega
    · show 0 < seq.numCompletionTokens + (seq.numPendingOutputs + 1)
      omega
    · exact absurd (hprompting.cursor_eq.symm.trans hsome).symm (Option.some_ne_none cursor)
  have hcounted : ({ seq with numPrefilledTokens := seq.numPrefilledTokens + chunkSize } :
      Sequence Id).Counted := h.counted.congr rfl
  refine ⟨⟨hcounted.of_pending ?_, ?_, h.hit_nonneg, h.attached.mono rfl (by dsimp only; omega),
    .inr (.inr hdecodes)⟩, hdecodes⟩
  · show 0 ≤ seq.numPendingOutputs + 1
    omega
  · show 0 ≤ seq.numPrefilledTokens + chunkSize
    omega

end Sequence

/-! ## The outputs of one request -/

section

variable {seqId other : ℕ} {token : ℤ} {outputs : List (ℕ × ℤ)}

@[simp] theorem outputsOf_nil (seqId : ℕ) : outputsOf seqId [] = [] := rfl

@[simp] theorem outputsOf_append (xs ys : List (ℕ × ℤ)) :
    outputsOf seqId (xs ++ ys) = outputsOf seqId xs ++ outputsOf seqId ys := by
  unfold outputsOf
  rw [List.filter_append, List.map_append]

@[simp] theorem outputsOf_cons_self :
    outputsOf seqId ((seqId, token) :: outputs) = token :: outputsOf seqId outputs := by
  unfold outputsOf
  rw [List.filter_cons_of_pos (by simp), List.map_cons]

theorem outputsOf_cons_of_ne (hne : other ≠ seqId) :
    outputsOf seqId ((other, token) :: outputs) = outputsOf seqId outputs := by
  unfold outputsOf
  rw [List.filter_cons_of_neg]
  exact fun htrue => hne (of_decide_eq_true htrue)

theorem outputsOf_concat_self :
    outputsOf seqId (outputs ++ [(seqId, token)]) = outputsOf seqId outputs ++ [token] := by
  rw [outputsOf_append, outputsOf_cons_self, outputsOf_nil]

theorem outputsOf_concat_of_ne (hne : other ≠ seqId) :
    outputsOf seqId (outputs ++ [(other, token)]) = outputsOf seqId outputs := by
  rw [outputsOf_append, outputsOf_cons_of_ne hne, outputsOf_nil, List.append_nil]

end

/-! ## The invariant -/

/-- The requests that `retire_async` has to release. -/
def AsyncHistory.withdrawn {Id : Type} (history : AsyncHistory Id) : Finset ℕ :=
  history.finished ∪ history.abortedHolding

/-- The part of the state that the invariant is about. -/
structure AsyncView (Id : Type) where
  seqs : ℕ → Sequence Id
  waiting : List ℕ
  decoding : List ℕ
  asyncInflight : ℤ
  pending : List (PendingStep Id)
  retiring : Finset ℕ
  discarded : Finset ℕ
  nextTicket : ℕ
  pendingSlotReleases : Finset ℕ
  results : Dict ℕ (DeviceResult Id)
  history : AsyncHistory Id

/-- The view of a state. -/
def AsyncScheduler.view {Id Env : Type} (state : AsyncScheduler Id Env) : AsyncView Id where
  seqs := state.scheduler.world.seqs
  waiting := state.scheduler.waiting
  decoding := state.scheduler.decoding
  asyncInflight := state.scheduler.asyncInflight
  pending := state.pending
  retiring := state.retiring
  discarded := state.discarded
  nextTicket := state.nextTicket
  pendingSlotReleases := state.pendingSlotReleases
  results := state.execution.results
  history := state.history

namespace AsyncView

variable {Id : Type}

/-- The outputs that the pending steps will have. -/
def due (sampled : ℕ → ℕ → ℤ) (view : AsyncView Id) : List (ℕ × ℤ) :=
  view.pending.flatMap (PendingStep.outputs sampled)

/-- The queues, and the requests that are being submitted. -/
def owned (held : List ℕ) (view : AsyncView Id) : List ℕ :=
  view.waiting ++ view.decoding ++ held

/-- A pending step, its result, and its requests. -/
structure Submitted (sampled : ℕ → ℕ → ℤ) (held : List ℕ) (view : AsyncView Id)
    (step : PendingStep Id) : Prop where
  nodup : step.seqs.Nodup
  length_eq : step.publishes.length = step.seqs.length
  result : ∃ result, view.results.get? step.ticket = some result ∧
    result.tokens = step.seqs.map (sampled step.ticket)
  ticket_lt : step.ticket < view.nextTicket
  members : ∀ seqId ∈ step.seqs, seqId ∈ view.owned held ∨ seqId ∈ view.discarded

/-- A request, and what has become of it. -/
structure Tracked (configured : List ℤ) (held closing : List ℕ) (view : AsyncView Id)
    (seqId : ℕ) (request : Sequence Id) : Prop where
  isNew : request.IsNew
  follows : request.Follows (outputsOf seqId view.history.published) (view.seqs seqId)
  accepted : outputsOf seqId view.history.published <+:
    request.accepted configured (outputsOf seqId view.history.sampled)
  live : seqId ∈ view.owned held →
    (seqId ∉ closing → request.Unended configured (outputsOf seqId view.history.sampled)) ∧
      outputsOf seqId view.history.published = outputsOf seqId view.history.sampled
  unaborted : view.history.aborted seqId = none → outputsOf seqId view.history.published =
    request.accepted configured (outputsOf seqId view.history.sampled)
  aborted : ∀ outputs, view.history.aborted seqId = some outputs →
    outputsOf seqId view.history.published = outputs ∧ seqId ∈ view.history.ended
  isOver : seqId ∈ closing ∨ seqId ∈ view.discarded → view.history.aborted seqId = none →
    ¬ request.Unended configured (outputsOf seqId view.history.sampled)

variable [PrefixReuse]

/-- The sequences and the queues. -/
structure Queued (held : List ℕ) (view : AsyncView Id) : Prop where
  wellformed : ∀ seqId, (view.seqs seqId).Wellformed
  decoding : ∀ seqId ∈ view.decoding, (view.seqs seqId).Decoding
  idle : ∀ seqId ∈ view.waiting ++ held, (view.seqs seqId).numPendingOutputs = 0
  nodup : (view.owned held).Nodup
  inflight : view.asyncInflight = 0
  budget : ∀ seqId, (view.seqs seqId).numCompletionTokens + (view.seqs seqId).numPendingOutputs ≤
    (view.seqs seqId).maxTokens

/-- The requests, from their admission to their release. -/
structure Accounted (held : List ℕ) (view : AsyncView Id) : Prop where
  admitted : ∀ seqId, seqId ∈ view.owned held ∨ seqId ∈ view.history.ended →
    (view.history.requests seqId).isSome
  kept : ∀ seqId, (view.history.requests seqId).isSome → seqId ∉ view.history.ended →
    seqId ∈ view.owned held
  gone : ∀ seqId ∈ view.history.ended, seqId ∉ view.owned held
  withdrawn_sub : view.history.withdrawn ⊆ view.history.ended
  discarded_sub : view.discarded ⊆ view.history.withdrawn
  retiring_eq : view.retiring = view.discarded
  released : view.pendingSlotReleases = ∅
  retired_eq : ∀ seqId, view.history.retired seqId =
    if seqId ∈ view.history.withdrawn ∧ seqId ∉ view.discarded then 1 else 0
  fresh : ∀ seqId, view.history.requests seqId = none →
    outputsOf seqId view.history.issued = [] ∧ outputsOf seqId view.history.published = [] ∧
      view.history.aborted seqId = none

/-- **The invariant**, while the requests of a batch are in no queue (`held`),
outputs of a collected step are not noted yet (`extra`), and ended requests are
still queued (`closing`). -/
structure Sound (sampled : ℕ → ℕ → ℤ) (configured : List ℤ) (held : List ℕ)
    (extra : List (ℕ × ℤ)) (closing : List ℕ) (view : AsyncView Id) : Prop where
  queued : view.Queued held
  accounted : view.Accounted held
  submitted : ∀ step ∈ view.pending, view.Submitted sampled held step
  tickets : (view.pending.map PendingStep.ticket).Nodup
  results : ∀ ticket result, view.results.get? ticket = some result →
    ∃ step ∈ view.pending, step.ticket = ticket ∧ result.rows.map Prod.fst = step.seqs
  order : view.history.submitted =
    view.history.collected ++ view.pending.map PendingStep.ticket
  remaining : ∀ output ∈ extra, output.1 ∈ view.owned held ∨ output.1 ∈ view.discarded
  outstanding : ∀ seqId, (view.seqs seqId).numPendingOutputs =
    (outputsOf seqId (extra ++ view.due sampled)).length
  issued : ∀ seqId, outputsOf seqId view.history.issued =
    outputsOf seqId view.history.sampled ++ outputsOf seqId (extra ++ view.due sampled)
  tracked : ∀ seqId request, view.history.requests seqId = some request →
    view.Tracked configured held closing seqId request

variable {sampled : ℕ → ℕ → ℤ} {configured : List ℤ} {held closing : List ℕ}
  {extra : List (ℕ × ℤ)} {view : AsyncView Id}

omit [PrefixReuse] in
theorem mem_owned {seqId : ℕ} : seqId ∈ view.owned held ↔
    seqId ∈ view.waiting ∨ seqId ∈ view.decoding ∨ seqId ∈ held := by
  unfold owned
  rw [List.mem_append, List.mem_append, or_assoc]

/-- A request with pending outputs is in no queue but the decoding one. -/
theorem Queued.mem_decoding (h : view.Queued held) {seqId : ℕ} (howned : seqId ∈ view.owned held)
    (hpending : 0 < (view.seqs seqId).numPendingOutputs) : seqId ∈ view.decoding := by
  have hbusy : seqId ∉ view.waiting ++ held := fun hmem =>
    absurd (h.idle seqId hmem) (Int.ne_of_gt hpending)
  rw [List.mem_append, not_or] at hbusy
  rcases mem_owned.mp howned with hwaiting | hdecoding | hheld
  · exact absurd hwaiting hbusy.1
  · exact hdecoding
  · exact absurd hheld hbusy.2

theorem Sound.not_ended (h : view.Sound sampled configured held extra closing) {seqId : ℕ}
    (hmem : seqId ∈ view.discarded) : seqId ∉ view.owned held :=
  h.accounted.gone seqId (h.accounted.withdrawn_sub (h.accounted.discarded_sub hmem))

/-- The step that a result is of. -/
theorem Sound.rows_of_result (h : view.Sound sampled configured held extra closing)
    {result : DeviceResult Id} (hresult : result ∈ view.results.values) :
    ∃ step ∈ view.pending, result.rows.map Prod.fst = step.seqs := by
  obtain ⟨ticket, hget⟩ := Dict.mem_values_iff.mp hresult
  obtain ⟨step, hstep, _, hrows⟩ := h.results ticket result hget
  exact ⟨step, hstep, hrows⟩

/-! ## Frames -/

variable {queue : List ℕ} {seqs : ℕ → Sequence Id}

section

omit [PrefixReuse]

theorem Submitted.mono {later : AsyncView Id} {step : PendingStep Id} (h : view.Submitted sampled held step)
    (hresults : later.results.get? step.ticket = view.results.get? step.ticket)
    (hticket : view.nextTicket ≤ later.nextTicket)
    (hmembers : ∀ seqId ∈ step.seqs, seqId ∈ view.owned held ∨ seqId ∈ view.discarded →
      seqId ∈ later.owned queue ∨ seqId ∈ later.discarded) : later.Submitted sampled queue step :=
  ⟨h.nodup, h.length_eq, hresults ▸ h.result, Nat.lt_of_lt_of_le h.ticket_lt hticket,
    fun seqId hmem => hmembers seqId hmem (h.members seqId hmem)⟩

/-- The requests with other steps and outputs, in queues that own the same. -/
theorem Accounted.moved (h : view.Accounted held) {waiting decoding submitted collected : List ℕ}
    {inflight : ℤ} {pending : List (PendingStep Id)} {nextTicket : ℕ} {results : Dict ℕ (DeviceResult Id)}
    {issued noted published : List (ℕ × ℤ)}
    (hmem : ∀ seqId, seqId ∈ waiting ++ decoding ++ queue ↔ seqId ∈ view.owned held)
    (hfresh : ∀ seqId, view.history.requests seqId = none →
      outputsOf seqId issued = [] ∧ outputsOf seqId published = []) :
    Accounted queue { view with
      seqs := seqs, waiting := waiting, decoding := decoding, asyncInflight := inflight
      pending := pending, nextTicket := nextTicket, results := results
      history := { view.history with
        submitted := submitted, collected := collected
        issued := issued, sampled := noted, published := published } } where
  admitted seqId hin := h.admitted seqId (hin.imp_left (hmem seqId).mp)
  kept seqId hrequest hmore := (hmem seqId).mpr (h.kept seqId hrequest hmore)
  gone seqId hended hin := h.gone seqId hended ((hmem seqId).mp hin)
  withdrawn_sub := h.withdrawn_sub
  discarded_sub := h.discarded_sub
  retiring_eq := h.retiring_eq
  released := h.released
  retired_eq := h.retired_eq
  fresh seqId hnone :=
    ⟨(hfresh seqId hnone).1, (hfresh seqId hnone).2, (h.fresh seqId hnone).2.2⟩

theorem Accounted.nothing (h : view.Accounted held) {seqId : ℕ} (hnone : view.history.requests seqId = none) :
    outputsOf seqId view.history.issued = [] ∧ outputsOf seqId view.history.published = [] :=
  ⟨(h.fresh seqId hnone).1, (h.fresh seqId hnone).2.1⟩

/-- A request with the outputs it had, whose sequence may have moved. -/
theorem Tracked.mono {later : AsyncView Id} {ending : List ℕ} {seqId : ℕ} {request : Sequence Id}
    (h : view.Tracked configured held closing seqId request)
    (hfollows : request.Follows (outputsOf seqId view.history.published) (later.seqs seqId))
    (hpublished : outputsOf seqId later.history.published = outputsOf seqId view.history.published)
    (hsampled : outputsOf seqId later.history.sampled = outputsOf seqId view.history.sampled)
    (haborted : later.history.aborted = view.history.aborted) (hended : later.history.ended = view.history.ended)
    (howned : seqId ∈ later.owned queue → seqId ∈ view.owned held)
    (hclosing : seqId ∈ ending ↔ seqId ∈ closing) (hdiscarded : later.discarded ⊆ view.discarded) :
    later.Tracked configured queue ending seqId request := by
  constructor
  · exact h.isNew
  · rwa [hpublished]
  · rw [hpublished, hsampled]
    exact h.accepted
  · rw [hpublished, hsampled, hclosing]
    exact fun hin => h.live (howned hin)
  · rw [haborted, hpublished, hsampled]
    exact h.unaborted
  · rw [haborted, hpublished, hended]
    exact h.aborted
  · rw [haborted, hsampled, hclosing]
    exact fun hover => h.isOver (hover.imp_right fun hin => hdiscarded hin)

/-- A live request with one output more.  It has accepted everything that was
sampled, so it accepts this one too, and has ended exactly if it ends with
it. -/
theorem Tracked.extended {later : AsyncView Id} {ending : List ℕ} {seqId : ℕ} {request : Sequence Id}
    {token : ℤ} (h : view.Tracked configured held [] seqId request) (howned : seqId ∈ view.owned held)
    (hunended : seqId ∉ view.history.ended)
    (hfollows : request.Follows (outputsOf seqId view.history.published ++ [token]) (later.seqs seqId))
    (hpublished : outputsOf seqId later.history.published = outputsOf seqId view.history.published ++ [token])
    (hsampled : outputsOf seqId later.history.sampled = outputsOf seqId view.history.sampled ++ [token])
    (haborted : later.history.aborted = view.history.aborted) (hdiscarded : seqId ∉ later.discarded)
    (hending : seqId ∈ ending ↔ (later.seqs seqId).endsWith configured token = true) :
    later.Tracked configured queue ending seqId request := by
  obtain ⟨hmore, hall⟩ := h.live howned
  have hmore := hmore List.not_mem_nil
  have hsame : outputsOf seqId later.history.published = outputsOf seqId later.history.sampled := by
    rw [hpublished, hsampled, hall]
  have haccepted : request.accepted configured (outputsOf seqId later.history.sampled) =
      outputsOf seqId later.history.sampled := by
    rw [hsampled]
    exact Sequence.accepted_concat token hmore
  have hends : request.Unended configured (outputsOf seqId later.history.sampled) ↔ seqId ∉ ending := by
    rw [hsampled, Sequence.unended_concat, hending, hfollows.endsWith_eq, Sequence.extended_concat, hall,
      Bool.not_eq_true]
    exact and_iff_right hmore
  constructor
  · exact h.isNew
  · rwa [hpublished]
  · rw [haccepted, hsame]
  · exact fun _ => ⟨hends.mpr, hsame⟩
  · exact fun _ => hsame.trans haccepted.symm
  · rw [haborted]
    exact fun outputs hsome => absurd (h.aborted outputs hsome).2 hunended
  · exact fun hover _ hopen => hends.mp hopen (hover.resolve_right hdiscarded)

end

/-- Sequences that have moved without a new output, in other queues. -/
theorem Sound.requeue (h : view.Sound sampled configured held extra closing)
    {waiting decoding : List ℕ} {inflight : ℤ} (hhistory : ∀ seqId, (seqs seqId).history = (view.seqs seqId).history)
    (hwell : ∀ seqId, (seqs seqId).Wellformed) (hdecoding : ∀ seqId ∈ decoding, (seqs seqId).Decoding)
    (hidle : ∀ seqId ∈ waiting ++ queue, (view.seqs seqId).numPendingOutputs = 0)
    (hperm : (waiting ++ decoding ++ queue).Perm (view.owned held)) (hinflight : inflight = 0) :
    Sound sampled configured queue extra closing { view with
      seqs := seqs, waiting := waiting, decoding := decoding, asyncInflight := inflight } := by
  have hpending : ∀ seqId, (seqs seqId).numPendingOutputs = (view.seqs seqId).numPendingOutputs :=
    fun seqId => (Sequence.history_eq_iff.mp (hhistory seqId)).2.2.2.1
  have hmax : ∀ seqId, (seqs seqId).maxTokens = (view.seqs seqId).maxTokens := fun seqId =>
    (Sequence.history_eq_iff.mp (hhistory seqId)).2.2.2.2.1
  have hmem : ∀ seqId, seqId ∈ waiting ++ decoding ++ queue ↔ seqId ∈ view.owned held :=
    fun seqId => hperm.mem_iff
  constructor
  · refine ⟨hwell, hdecoding, fun seqId hwaits => (hpending seqId).trans (hidle seqId hwaits),
      hperm.nodup_iff.mpr h.queued.nodup, hinflight, fun seqId => ?_⟩
    show (seqs seqId).numCompletionTokens + (seqs seqId).numPendingOutputs ≤ (seqs seqId).maxTokens
    rw [Sequence.numCompletionTokens_congr (hhistory seqId), hpending, hmax]
    exact h.queued.budget seqId
  · exact h.accounted.moved hmem fun _ => h.accounted.nothing
  · intro step hstep
    exact (h.submitted step hstep).mono rfl (Nat.le_refl _) fun seqId _ hin =>
      hin.imp_left (hmem seqId).mpr
  · exact h.tickets
  · exact h.results
  · exact h.order
  · exact fun output hin => (h.remaining output hin).imp_left (hmem output.1).mpr
  · exact fun seqId => (hpending seqId).trans (h.outstanding seqId)
  · exact h.issued
  · intro seqId request hrequest
    have htracked := h.tracked seqId request hrequest
    exact htracked.mono (htracked.follows.of_history (hhistory seqId)) rfl rfl rfl rfl (hmem seqId).mp .rfl
      (Finset.Subset.refl _)

/-! ## Requests that end -/

/-- How requests end: the sequences with their new statuses, the requests that
are taken out of the queues, those of them that end (`gone`) or are discarded
(`out`), and what is noted of them. -/
structure Departure (Id : Type) where
  seqs : ℕ → Sequence Id
  leaving : List ℕ
  gone : Finset ℕ
  out : Finset ℕ
  finished : Finset ℕ
  abortedHolding : Finset ℕ
  aborted : ℕ → Option (List ℤ)

/-- The state after the requests have ended. -/
def depart (view : AsyncView Id) (departure : Departure Id) : AsyncView Id :=
  { view with
    seqs := departure.seqs
    waiting := view.waiting.filter fun seqId => seqId ∉ departure.leaving
    decoding := view.decoding.filter fun seqId => seqId ∉ departure.leaving
    discarded := view.discarded ∪ departure.out
    retiring := view.retiring ∪ departure.out
    history := { view.history with
      ended := view.history.ended ∪ departure.gone
      finished := departure.finished
      abortedHolding := departure.abortedHolding
      aborted := departure.aborted } }

/-- Requests may end so: they leave the queues, those of them that a step still
refers to are discarded, and exactly the discarded ones are noted as finished or
as aborted while they held slots. -/
structure Departs (configured : List ℤ) (closing : List ℕ) (extra : List (ℕ × ℤ))
    (view : AsyncView Id) (departure : Departure Id) : Prop where
  seqs_eq : ∀ seqId, ∃ status,
    departure.seqs seqId = { view.seqs seqId with status := status }
  closing_sub : closing ⊆ departure.leaving
  gone_leaves : ∀ seqId ∈ departure.gone,
    seqId ∈ departure.leaving ∧ (view.history.requests seqId).isSome
  leaving_gone : ∀ seqId ∈ departure.leaving, seqId ∈ view.owned [] → seqId ∈ departure.gone
  withdrawn_eq : departure.finished ∪ departure.abortedHolding =
    view.history.withdrawn ∪ departure.out
  out_ended : ∀ seqId ∈ departure.out, (seqId ∈ view.history.ended ∨ seqId ∈ departure.gone) ∧
    (seqId ∈ view.history.withdrawn → seqId ∈ view.discarded)
  steps_out : ∀ seqId ∈ departure.gone, (∃ step ∈ view.pending, seqId ∈ step.seqs) ∨
    seqId ∈ extra.map Prod.fst → seqId ∈ departure.out
  aborted_eq : ∀ seqId, departure.aborted seqId = view.history.aborted seqId ∨
    (seqId ∈ view.history.ended ∨ seqId ∈ departure.gone) ∧ view.history.aborted seqId = none ∧
      departure.aborted seqId = some (outputsOf seqId view.history.published)
  isOver : ∀ seqId ∈ departure.out, seqId ∉ view.discarded → departure.aborted seqId = none →
    ∀ request, view.history.requests seqId = some request →
      ¬ request.Unended configured (outputsOf seqId view.history.sampled)

variable {departure : Departure Id} (hdeparts : Departs configured closing extra view departure)

include hdeparts

theorem Departs.rescheduled (seqId : ℕ) :
    (view.seqs seqId).Rescheduled (departure.seqs seqId) := by
  obtain ⟨status, hstatus⟩ := hdeparts.seqs_eq seqId
  rw [hstatus]
  exact Sequence.rescheduled_status (view.seqs seqId) status

theorem Departs.pending_eq (seqId : ℕ) :
    (departure.seqs seqId).numPendingOutputs = (view.seqs seqId).numPendingOutputs :=
  (Sequence.history_eq_iff.mp (hdeparts.rescheduled seqId).history_eq).2.2.2.1

theorem Departs.maxTokens_eq (seqId : ℕ) :
    (departure.seqs seqId).maxTokens = (view.seqs seqId).maxTokens :=
  (Sequence.history_eq_iff.mp (hdeparts.rescheduled seqId).history_eq).2.2.2.2.1

omit [PrefixReuse] hdeparts in
theorem mem_depart_owned {seqId : ℕ} : seqId ∈ (view.depart departure).owned [] ↔
    seqId ∈ view.owned [] ∧ seqId ∉ departure.leaving := by
  rw [mem_owned, mem_owned]
  simp only [depart, List.mem_filter, List.not_mem_nil, or_false, decide_eq_true_eq]
  exact or_and_right.symm

omit [PrefixReuse] in
/-- A request that a step refers to stays in its queue or is discarded. -/
theorem Departs.stays {seqId : ℕ}
    (hreferenced : (∃ step ∈ view.pending, seqId ∈ step.seqs) ∨ seqId ∈ extra.map Prod.fst)
    (hmember : seqId ∈ view.owned [] ∨ seqId ∈ view.discarded) :
    seqId ∈ (view.depart departure).owned [] ∨ seqId ∈ (view.depart departure).discarded := by
  by_cases hleaves : seqId ∈ departure.leaving
  · right
    rcases hmember with hin | hdiscarded
    · have hgone := hdeparts.leaving_gone seqId hleaves hin
      exact Finset.mem_union_right _ (hdeparts.steps_out seqId hgone hreferenced)
    · exact Finset.mem_union_left _ hdiscarded
  · rcases hmember with hin | hdiscarded
    · exact .inl (mem_depart_owned.mpr ⟨hin, hleaves⟩)
    · exact .inr (Finset.mem_union_left _ hdiscarded)

theorem Queued.depart (h : view.Queued []) : (view.depart departure).Queued [] where
  wellformed seqId := (hdeparts.rescheduled seqId).wellformed (h.wellformed seqId)
  decoding seqId hmem :=
    (h.decoding seqId (List.mem_filter.mp hmem).1).rescheduled (hdeparts.rescheduled seqId)
  idle seqId hmem := by
    rw [List.append_nil] at hmem
    refine (hdeparts.pending_eq seqId).trans (h.idle seqId ?_)
    rw [List.append_nil]
    exact (List.mem_filter.mp hmem).1
  nodup := h.nodup.sublist ((List.filter_sublist.append List.filter_sublist).append_right [])
  inflight := h.inflight
  budget seqId := by
    show (departure.seqs seqId).numCompletionTokens + (departure.seqs seqId).numPendingOutputs ≤
      (departure.seqs seqId).maxTokens
    rw [Sequence.numCompletionTokens_congr (hdeparts.rescheduled seqId).history_eq,
      hdeparts.pending_eq, hdeparts.maxTokens_eq]
    exact h.budget seqId

omit [PrefixReuse] in
/-- A request is noted as released once it is discarded no more. -/
theorem Accounted.retired_depart (h : view.Accounted []) (seqId : ℕ) :
    view.history.retired seqId = if seqId ∈ (view.depart departure).history.withdrawn ∧
      seqId ∉ (view.depart departure).discarded then 1 else 0 := by
  have hwithdrawn : (view.depart departure).history.withdrawn =
      view.history.withdrawn ∪ departure.out := hdeparts.withdrawn_eq
  have hdiscarded : (view.depart departure).discarded = view.discarded ∪ departure.out := rfl
  rw [h.retired_eq seqId, hwithdrawn, hdiscarded]
  refine if_congr ?_ rfl rfl
  rw [Finset.mem_union, Finset.mem_union, not_or]
  constructor
  · exact fun hretired => ⟨.inl hretired.1, hretired.2,
      fun hnow => hretired.2 ((hdeparts.out_ended seqId hnow).2 hretired.1)⟩
  · exact fun hretired => ⟨hretired.1.resolve_right hretired.2.2, hretired.2.1⟩

omit [PrefixReuse] in
theorem Accounted.depart (h : view.Accounted []) : (view.depart departure).Accounted [] := by
  have hended : ∀ seqId, seqId ∈ view.history.ended ∨ seqId ∈ departure.gone →
      (view.history.requests seqId).isSome := fun seqId hin =>
    hin.elim (fun hbefore => h.admitted seqId (.inr hbefore)) fun hnow => (hdeparts.gone_leaves seqId hnow).2
  have hwithdrawn : (view.depart departure).history.withdrawn =
      view.history.withdrawn ∪ departure.out := hdeparts.withdrawn_eq
  refine ⟨fun seqId hin => ?_, fun seqId hrequest hmore => ?_, fun seqId hin howned => ?_, ?_,
    hwithdrawn ▸ Finset.union_subset_union_left h.discarded_sub, ?_, h.released,
    h.retired_depart hdeparts, fun seqId hnone => ?_⟩
  · rcases hin with hin | hin
    · exact h.admitted seqId (.inl (mem_depart_owned.mp hin).1)
    · exact hended seqId (Finset.mem_union.mp hin)
  · have hin := h.kept seqId hrequest fun hbefore => hmore (Finset.mem_union_left _ hbefore)
    refine mem_depart_owned.mpr ⟨hin, fun hleaves => hmore ?_⟩
    exact Finset.mem_union_right _ (hdeparts.leaving_gone seqId hleaves hin)
  · obtain ⟨howned, hstay⟩ := mem_depart_owned.mp howned
    rcases Finset.mem_union.mp hin with hbefore | hnow
    · exact h.gone seqId hbefore howned
    · exact hstay (hdeparts.gone_leaves seqId hnow).1
  · rw [hwithdrawn]
    intro seqId hin
    rcases Finset.mem_union.mp hin with hbefore | hnow
    · exact Finset.mem_union_left _ (h.withdrawn_sub hbefore)
    · exact Finset.mem_union.mpr (hdeparts.out_ended seqId hnow).1
  · show view.retiring ∪ departure.out = view.discarded ∪ departure.out
    rw [h.retiring_eq]
  · obtain ⟨hissued, hpublished, haborted⟩ := h.fresh seqId hnone
    refine ⟨hissued, hpublished, ?_⟩
    rcases hdeparts.aborted_eq seqId with hsame | ⟨hin, _⟩
    · exact hsame.trans haborted
    · have hsome : ((view.depart departure).history.requests seqId).isSome := hended seqId hin
      rw [hnone] at hsome
      exact absurd hsome Bool.false_ne_true

theorem Tracked.depart {seqId : ℕ} {request : Sequence Id} (hrequest : view.history.requests seqId = some request)
    (h : view.Tracked configured [] closing seqId request) :
    (view.depart departure).Tracked configured [] [] seqId request := by
  have hunset : departure.aborted seqId = none → view.history.aborted seqId = none := fun hnone =>
    (hdeparts.aborted_eq seqId).elim (fun hsame => hsame.symm.trans hnone) fun hset => hset.2.1
  refine ⟨h.isNew, h.follows.of_history (hdeparts.rescheduled seqId).history_eq, h.accepted,
    fun hin => ?_, fun hnone => h.unaborted (hunset hnone), fun outputs hsome => ?_,
    fun hin hnone => ?_⟩
  · obtain ⟨hbefore, hstay⟩ := mem_depart_owned.mp hin
    obtain ⟨hmore, hall⟩ := h.live hbefore
    exact ⟨fun _ => hmore fun hends => hstay (hdeparts.closing_sub hends), hall⟩
  · rcases hdeparts.aborted_eq seqId with hsame | ⟨hended, _, hset⟩
    · obtain ⟨hpublished, hended⟩ := h.aborted outputs (hsame.symm.trans hsome)
      exact ⟨hpublished, Finset.mem_union_left _ hended⟩
    · exact ⟨Option.some.inj (hset.symm.trans hsome), Finset.mem_union.mpr hended⟩
  · by_cases hbefore : seqId ∈ view.discarded
    · exact h.isOver (.inr hbefore) (hunset hnone)
    · have hnow := (Finset.mem_union.mp (hin.resolve_left List.not_mem_nil)).resolve_left hbefore
      exact hdeparts.isOver seqId hnow hbefore hnone request hrequest

/-- **Requests that end** leave the invariant as it is. -/
theorem Sound.depart (h : view.Sound sampled configured [] extra closing) :
    (view.depart departure).Sound sampled configured [] extra [] where
  queued := h.queued.depart hdeparts
  accounted := h.accounted.depart hdeparts
  submitted step hstep := (h.submitted step hstep).mono rfl (Nat.le_refl _) fun _ hin =>
    hdeparts.stays (.inl ⟨step, hstep, hin⟩)
  tickets := h.tickets
  results := h.results
  order := h.order
  remaining output hin :=
    hdeparts.stays (.inr (List.mem_map_of_mem hin)) (h.remaining output hin)
  outstanding seqId := (hdeparts.pending_eq seqId).trans (h.outstanding seqId)
  issued := h.issued
  tracked seqId request hrequest := (h.tracked seqId request hrequest).depart hdeparts hrequest

end AsyncView

/-- The invariant of an engine's view. -/
abbrev AsyncEngine.Sound [PrefixReuse] {Id Env Key Resource : Type} (engine : AsyncEngine Id Env Key Resource) :
    List ℕ → List (ℕ × ℤ) → List ℕ → AsyncView Id → Prop :=
  AsyncView.Sound engine.sampled engine.eosTokenIds
