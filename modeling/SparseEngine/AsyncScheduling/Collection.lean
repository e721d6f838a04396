import SparseEngine.AsyncScheduling.Invariant

/-!
# Collection

A step is collected when it is the oldest one.  Each of its rows that
publishes is one output less that is due for its request: a discarded request
drops it, every other one accepts it.

`Sound.noted` has what the two cases share (`Sound.dropped`, `Sound.taken`). A
row that ends its request is followed by `Sound.finished`, and
`collectRow_sound` is one round of the loop.
-/

namespace AsyncView

variable [PrefixReuse] {Id : Type} {sampled : ℕ → ℕ → ℤ} {configured : List ℤ} {rest : List (ℕ × ℤ)}
  {view : AsyncView Id} {seqId : ℕ} {token : ℤ}

/-- An output of the request that is due. -/
theorem Sound.pending_pos (h : view.Sound sampled configured [] ((seqId, token) :: rest) []) :
    0 < (view.seqs seqId).numPendingOutputs := by
  rw [h.outstanding, List.cons_append, outputsOf_cons_self, List.length_cons]
  omega

variable {later : Sequence Id}

section

variable (h : view.Sound sampled configured [] ((seqId, token) :: rest) [])

include h

/-- One output is noted. -/
theorem Sound.noted {published : List (ℕ × ℤ)} {closing : List ℕ} (hwell : later.Wellformed)
    (hdecoding : seqId ∈ view.decoding → later.Decoding)
    (hpending : later.numPendingOutputs = (view.seqs seqId).numPendingOutputs - 1)
    (hbudget : later.numCompletionTokens + later.numPendingOutputs ≤ later.maxTokens) (hclosing : closing ⊆ [seqId])
    (hfresh : view.history.requests seqId = none → outputsOf seqId published = [])
    (hothers : ∀ other, other ≠ seqId → outputsOf other published = outputsOf other view.history.published)
    (hself : ∀ request, view.history.requests seqId = some request →
      Tracked configured [] closing { view with
        seqs := Function.update view.seqs seqId later
        history := { view.history with
          sampled := view.history.sampled ++ [(seqId, token)]
          published := published } } seqId request) :
    Sound sampled configured [] rest closing { view with
      seqs := Function.update view.seqs seqId later
      history := { view.history with
        sampled := view.history.sampled ++ [(seqId, token)]
        published := published } } := by
  have hsame : ∀ other, other ≠ seqId → Function.update view.seqs seqId later other =
      view.seqs other := fun other hne => Function.update_of_ne hne _ _
  -- the row has an outstanding output, so its request is not waiting:
  have hidle : ∀ other ∈ view.waiting ++ [], other ≠ seqId := by
    intro other hmem heq
    exact absurd (h.queued.idle other hmem) (heq ▸ Int.ne_of_gt h.pending_pos)
  have hsampled : ∀ other, other ≠ seqId →
      outputsOf other (view.history.sampled ++ [(seqId, token)]) =
        outputsOf other view.history.sampled := fun other hne => outputsOf_concat_of_ne (Ne.symm hne)
  constructor
  · -- the queues: only the collected request changes
    refine ⟨fun other => ?_, fun other hmem => ?_, fun other hmem => ?_, h.queued.nodup,
      h.queued.inflight, fun other => ?_⟩
    · show (Function.update view.seqs seqId later other).Wellformed
      by_cases heq : other = seqId
      · subst heq
        rw [Function.update_self]
        exact hwell
      · rw [hsame other heq]
        exact h.queued.wellformed other
    · show (Function.update view.seqs seqId later other).Decoding
      by_cases heq : other = seqId
      · subst heq
        rw [Function.update_self]
        exact hdecoding hmem
      · rw [hsame other heq]
        exact h.queued.decoding other hmem
    · show (Function.update view.seqs seqId later other).numPendingOutputs = 0
      rw [hsame other (hidle other hmem)]
      exact h.queued.idle other hmem
    · show (Function.update view.seqs seqId later other).numCompletionTokens +
        (Function.update view.seqs seqId later other).numPendingOutputs ≤
          (Function.update view.seqs seqId later other).maxTokens
      by_cases heq : other = seqId
      · subst heq
        rw [Function.update_self]
        exact hbudget
      · rw [hsame other heq]
        exact h.queued.budget other
  · refine h.accounted.moved (fun _ => .rfl) fun other hnone => ?_
    obtain ⟨hissued, hpublished⟩ := h.accounted.nothing hnone
    refine ⟨hissued, ?_⟩
    by_cases heq : other = seqId
    · subst heq
      exact hfresh hnone
    · exact (hothers other heq).trans hpublished
  · exact fun step hstep =>
      (h.submitted step hstep).mono rfl (Nat.le_refl _) fun _ _ hmember => hmember
  · exact h.tickets
  · exact h.results
  · exact h.order
  · exact fun output hmem => h.remaining output (List.mem_cons_of_mem _ hmem)
  · intro other
    -- one output leaves the outstanding ones and joins the sampled ones:
    have hcount := h.outstanding other
    rw [List.cons_append] at hcount
    show (Function.update view.seqs seqId later other).numPendingOutputs = _
    by_cases heq : other = seqId
    · subst heq
      rw [outputsOf_cons_self, List.length_cons] at hcount
      rw [Function.update_self, hpending, hcount]
      rw [Nat.cast_add, Nat.cast_one, Int.add_sub_cancel]
      rfl
    · rw [outputsOf_cons_of_ne (Ne.symm heq)] at hcount
      rw [hsame other heq, hcount]
      rfl
  · intro other
    have hissued := h.issued other
    rw [List.cons_append] at hissued
    show outputsOf other view.history.issued =
      outputsOf other (view.history.sampled ++ [(seqId, token)]) ++ outputsOf other (rest ++ _)
    by_cases heq : other = seqId
    · subst heq
      rw [outputsOf_cons_self] at hissued
      rw [hissued, outputsOf_concat_self, List.append_assoc]
      rfl
    · rw [outputsOf_cons_of_ne (Ne.symm heq)] at hissued
      rw [hissued, hsampled other heq]
      rfl
  · intro other request hrequest
    -- the other requests follow what they followed before:
    by_cases heq : other = seqId
    · subst heq
      exact hself request hrequest
    · have htracked := h.tracked other request hrequest
      have hopen : other ∉ closing := fun hends => heq (List.mem_singleton.mp (hclosing hends))
      refine htracked.mono ?_ (hothers other heq) (hsampled other heq) rfl rfl id
        (iff_of_false hopen List.not_mem_nil) (Finset.Subset.refl _)
      show request.Follows _ (Function.update view.seqs seqId later other)
      rw [hsame other heq]
      exact htracked.follows

/-- The output of a discarded request. -/
theorem Sound.dropped (hdiscarded : seqId ∈ view.discarded) :
    Sound sampled configured [] rest [] { view with
      seqs := Function.update view.seqs seqId { view.seqs seqId with
        numPendingOutputs := (view.seqs seqId).numPendingOutputs - 1 }
      history := { view.history with sampled := view.history.sampled ++ [(seqId, token)] } } := by
  have hgone := h.not_ended hdiscarded
  have hbudget := h.queued.budget seqId
  refine h.noted ((h.queued.wellformed seqId).unpended h.pending_pos) (fun hmem => ?_) rfl ?_
    (List.nil_subset _) (fun hnone => (h.accounted.fresh seqId hnone).2.1) (fun _ _ => rfl) fun request hrequest => ?_
  · exact absurd (mem_owned.mpr (.inr (.inl hmem))) hgone
  · show (view.seqs seqId).numCompletionTokens + ((view.seqs seqId).numPendingOutputs - 1) ≤
      (view.seqs seqId).maxTokens
    omega
  obtain ⟨hnew, hfollows, haccepted, hlive, hunaborted, haborted, hover⟩ :=
    h.tracked seqId request hrequest
  have hsampled : outputsOf seqId (view.history.sampled ++ [(seqId, token)]) =
      outputsOf seqId view.history.sampled ++ [token] := outputsOf_concat_self
  constructor
  · exact hnew
  · show request.Follows _ (Function.update view.seqs seqId _ seqId)
    rw [Function.update_self]
    exact hfollows.of_pending _
  · show _ <+: request.accepted configured (outputsOf seqId (_ ++ _))
    rw [hsampled]
    exact haccepted.trans (Sequence.accepted_prefix _ _)
  · exact fun howned => absurd howned hgone
  · intro hnone
    show _ = request.accepted configured (outputsOf seqId (_ ++ _))
    rw [hsampled, Sequence.accepted_of_ended _ _ (hover (.inr hdiscarded) hnone)]
    exact hunaborted hnone
  · exact haborted
  · intro hmem hnone
    show ¬ request.Unended configured (outputsOf seqId (_ ++ _))
    rw [hsampled, Sequence.unended_append]
    exact fun hmore => hover hmem hnone hmore.1

end

/-- The output of a request that goes on, or ends with it. -/
theorem Sound.taken (h : view.Sound sampled configured [] ((seqId, token) :: rest) [])
    (hlive : seqId ∉ view.discarded)
    (hlater : later = Sequence.appendToken token { view.seqs seqId with
      numPendingOutputs := (view.seqs seqId).numPendingOutputs - 1 }) :
    seqId ∈ view.decoding ∧ later.numCompletionTokens ≤ later.maxTokens ∧
    Sound sampled configured [] rest
      (if later.endsWith configured token then [seqId] else []) { view with
        seqs := Function.update view.seqs seqId later
        history := { view.history with
          sampled := view.history.sampled ++ [(seqId, token)]
          published := view.history.published ++ [(seqId, token)] } } := by
  have hpending := h.pending_pos
  have hbudget := h.queued.budget seqId
  -- a live row belongs to a request that is still queued:
  have howned : seqId ∈ view.owned [] :=
    (h.remaining (seqId, token) List.mem_cons_self).resolve_right hlive
  have hrequest := h.accounted.admitted seqId (.inl howned)
  obtain ⟨hwell, hdecoding⟩ := (h.queued.wellformed seqId).collected hpending token
  rw [← hlater] at hwell hdecoding
  have hcompletion : later.numCompletionTokens = (view.seqs seqId).numCompletionTokens + 1 := by
    rw [hlater]
    show (view.seqs seqId).numTokens + 1 - (view.seqs seqId).numPromptTokens =
      (view.seqs seqId).numTokens - (view.seqs seqId).numPromptTokens + 1
    omega
  have hless : later.numPendingOutputs = (view.seqs seqId).numPendingOutputs - 1 := by rw [hlater]; rfl
  have hmax : later.maxTokens = (view.seqs seqId).maxTokens := by rw [hlater]; rfl
  refine ⟨h.queued.mem_decoding howned hpending, by omega, ?_⟩
  refine h.noted hwell (fun _ => hdecoding) hless (by omega) ?_ (fun hnone => ?_)
    (fun other hne => ?_) fun request hsome => ?_
  · split
    · exact List.Subset.refl _
    · exact List.nil_subset _
  · rw [hnone] at hrequest
    exact absurd hrequest Bool.false_ne_true
  · exact outputsOf_concat_of_ne (Ne.symm hne)
  have htracked := h.tracked seqId request hsome
  refine htracked.extended howned (fun hended => h.accounted.gone seqId hended howned) ?_
    outputsOf_concat_self outputsOf_concat_self rfl hlive ?_
  · show request.Follows _ (Function.update view.seqs seqId later seqId)
    rw [Function.update_self, hlater]
    exact (htracked.follows.of_pending _).append token
  · show _ ↔ (Function.update view.seqs seqId later seqId).endsWith configured token = true
    rw [Function.update_self]
    split
    · next hends => exact iff_of_true (List.mem_singleton_self seqId) hends
    · next hends => exact iff_of_false List.not_mem_nil hends

/-- A request that has ended leaves the decoding queue and is discarded. -/
theorem Sound.finished (h : view.Sound sampled configured [] rest [seqId]) (hmem : seqId ∈ view.decoding) :
    Sound sampled configured [] rest [] { view with
      seqs := Function.update view.seqs seqId { view.seqs seqId with status := .finished }
      decoding := view.decoding.erase seqId
      discarded := insert seqId view.discarded
      retiring := insert seqId view.retiring
      history := { view.history with
        ended := insert seqId view.history.ended
        finished := insert seqId view.history.finished } } := by
  have howned : seqId ∈ view.owned [] := mem_owned.mpr (.inr (.inl hmem))
  have hrequest := h.accounted.admitted seqId (.inl howned)
  have hnew : seqId ∉ view.history.withdrawn := fun hwithdrawn =>
    h.accounted.gone seqId (h.accounted.withdrawn_sub hwithdrawn) howned
  have hnodup := h.queued.nodup
  unfold owned at hnodup
  rw [List.append_nil] at hnodup
  obtain ⟨_, hdecoding, hdisjoint⟩ := List.nodup_append.mp hnodup
  -- a decoding request is in no other queue:
  have hwaiting : view.waiting.filter (fun other => other ∉ [seqId]) = view.waiting := by
    apply List.filter_eq_self.mpr
    intro other hother
    rw [decide_eq_true_eq, List.mem_singleton]
    exact hdisjoint other hother seqId hmem
  have herase : view.decoding.filter (fun other => other ∉ [seqId]) = view.decoding.erase seqId := by
    rw [hdecoding.erase_eq_filter]
    apply List.filter_congr
    intro other _
    simp [bne, beq_eq_decide]
  -- finishing is the departure of one request that may own slots:
  have hdeparts : Departs configured [seqId] rest view
      { seqs := Function.update view.seqs seqId { view.seqs seqId with status := .finished }
        leaving := [seqId]
        gone := {seqId}
        out := {seqId}
        finished := view.history.finished ∪ {seqId}
        abortedHolding := view.history.abortedHolding
        aborted := view.history.aborted } := by
    refine ⟨fun other => ?_, List.Subset.refl _, fun other hother => ?_, fun other hother _ => ?_,
      Finset.union_right_comm _ _ _, fun other hother => ?_, fun other hother _ => hother,
      fun _ => .inl rfl, fun other hother _ hnone request hsome => ?_⟩
    · by_cases heq : other = seqId
      · subst heq
        exact ⟨.finished, Function.update_self _ _ _⟩
      · exact ⟨_, Function.update_of_ne heq _ _⟩
    · rw [Finset.mem_singleton.mp hother]
      exact ⟨List.mem_singleton_self seqId, hrequest⟩
    · exact Finset.mem_singleton.mpr (List.mem_singleton.mp hother)
    · refine ⟨.inr hother, fun hwithdrawn => ?_⟩
      rw [Finset.mem_singleton.mp hother] at hwithdrawn
      exact absurd hwithdrawn hnew
    · obtain rfl := Finset.mem_singleton.mp hother
      exact (h.tracked other request hsome).isOver (.inl (List.mem_singleton_self other)) hnone
  have hended := h.depart hdeparts
  dsimp only [AsyncView.depart] at hended
  rw [hwaiting, herase, Finset.union_singleton, Finset.union_singleton, Finset.union_singleton,
    Finset.union_singleton] at hended
  exact hended

end AsyncView

/-! ## The rows of a step -/

/-- The outputs of the rows that publish. -/
def rowOutputs : List (ℕ × ℤ × Bool) → List (ℕ × ℤ)
  | [] => []
  | (seqId, token, publish) :: rows =>
      if publish then (seqId, token) :: rowOutputs rows else rowOutputs rows

/-- The rows of a step have its outputs. -/
theorem rowOutputs_zip (token : ℕ → ℤ) (seqIds : List ℕ) (publishes : List Bool) :
    rowOutputs (seqIds.zip ((seqIds.map token).zip publishes)) =
      (((seqIds.zip publishes).filter Prod.snd).map Prod.fst).map fun seqId => (seqId, token seqId) := by
  induction seqIds generalizing publishes with
  | nil => rfl
  | cons seqId seqIds ih =>
      cases publishes with
      | nil => rfl
      | cons publish publishes =>
          have hrest := ih publishes
          cases publish with
          | false => exact hrest
          | true => exact congrArg (List.cons (seqId, token seqId)) hrest

namespace AsyncScheduler

open Routine AsyncView

variable [PrefixReuse] {Id Env Key Resource : Type} {engine : AsyncEngine Id Env Key Resource}
  {state : AsyncScheduler Id Env}

omit [PrefixReuse] in
/-- The test of `step` agrees with that of `postprocess` while the outputs stay
within the limit. -/
theorem endsCollected_eq {token : ℤ} {seq : Sequence Id} (hle : seq.numCompletionTokens ≤ seq.maxTokens) :
    endsCollected engine token seq = seq.endsWith engine.eosTokenIds token := by
  unfold endsCollected Sequence.endsWith
  congr 1
  exact decide_eq_decide.mpr ⟨Int.le_antisymm hle, fun heq => Int.le_of_eq heq.symm⟩

omit [PrefixReuse] in
/-- An output of a discarded request is dropped. -/
theorem collectRow_of_discarded {seqId : ℕ} {token : ℤ} (h : seqId ∈ state.discarded) :
    collectRow engine state (seqId, token, true) = unpend seqId token state := by
  unfold collectRow
  dsimp only
  exact if_pos (.inr h)

omit [PrefixReuse] in
/-- Every other one is accepted, and may be the last one. -/
theorem collectRow_of_live {seqId : ℕ} {token : ℤ} (h : seqId ∉ state.discarded) :
    collectRow engine state (seqId, token, true) =
      if endsCollected engine token ((publishRow seqId token (unpend seqId token state)).seq seqId) then
        finishRow seqId (publishRow seqId token (unpend seqId token state))
      else publishRow seqId token (unpend seqId token state) := by
  unfold collectRow
  dsimp only
  rw [if_pos rfl, if_neg]
  rintro (hpublish | hdiscarded)
  · exact nomatch hpublish
  · exact h hdiscarded

omit [PrefixReuse] in
theorem publishRow_view (seqId : ℕ) (token : ℤ) :
    (publishRow seqId token (unpend seqId token state)).view = { state.view with
      seqs := Function.update state.view.seqs seqId (Sequence.appendToken token
        { state.view.seqs seqId with
          numPendingOutputs := (state.view.seqs seqId).numPendingOutputs - 1 })
      history := { state.view.history with
        sampled := state.view.history.sampled ++ [(seqId, token)]
        published := state.view.history.published ++ [(seqId, token)] } } := by
  simp only [publishRow, unpend, setSeq, Scheduler.setSeq, view, Function.update_self, Function.update_idem]

/-- A row of the collected step. -/
theorem collectRow_sound {row : ℕ × ℤ × Bool} {rows : List (ℕ × ℤ × Bool)}
    (h : engine.Sound [] (rowOutputs (row :: rows)) [] state.view) :
    engine.Sound [] (rowOutputs rows) [] (collectRow engine state row).view := by
  obtain ⟨seqId, token, publish⟩ := row
  cases publish with
  | false => exact h
  | true =>
      have hdue : engine.Sound [] ((seqId, token) :: rowOutputs rows) []
          state.view := h
      by_cases hdiscarded : seqId ∈ state.discarded
      · rw [collectRow_of_discarded hdiscarded]
        exact hdue.dropped hdiscarded
      · obtain ⟨hmem, hle, htaken⟩ := hdue.taken hdiscarded rfl
        have hview : (publishRow seqId token (unpend seqId token state)).view = _ :=
          publishRow_view seqId token
        rw [← hview] at htaken
        rw [collectRow_of_live hdiscarded]
        generalize publishRow seqId token (unpend seqId token state) = next at hview htaken ⊢
        have hseq : next.seq seqId = Sequence.appendToken token { state.view.seqs seqId with
            numPendingOutputs := (state.view.seqs seqId).numPendingOutputs - 1 } := by
          show next.view.seqs seqId = _
          rw [hview]
          exact Function.update_self _ _ _
        rw [hseq, endsCollected_eq hle]
        split
        · next hends =>
          rw [if_pos hends] at htaken
          have hqueued : next.view.decoding = state.view.decoding := by rw [hview]
          exact htaken.finished (hqueued ▸ hmem)
        · next hmore =>
          rw [if_neg hmore] at htaken
          exact htaken

/-- The rows of the collected step. -/
theorem collectRows_sound (rows : List (ℕ × ℤ × Bool)) (h : engine.Sound [] (rowOutputs rows) [] state.view) :
    engine.Sound [] [] [] (rows.foldl (collectRow engine) state).view := by
  induction rows generalizing state with
  | nil => exact h
  | cons row rows ih => exact ih (collectRow_sound h)

/-- The rows of a step whose requests are all discarded. -/
theorem drainRows_sound (rows : List (ℕ × ℤ × Bool)) (h : engine.Sound [] (rowOutputs rows) [] state.view)
    (hdiscarded : ∀ row ∈ rows, row.1 ∈ state.discarded) :
    engine.Sound [] [] [] (rows.foldl drainRow state).view := by
  induction rows generalizing state with
  | nil => exact h
  | cons row rows ih =>
      obtain ⟨seqId, token, publish⟩ := row
      obtain ⟨hfirst, hrest⟩ := List.forall_mem_cons.mp hdiscarded
      cases publish with
      | false => exact ih h hrest
      | true => exact ih (AsyncView.Sound.dropped h hfirst) hrest

end AsyncScheduler
