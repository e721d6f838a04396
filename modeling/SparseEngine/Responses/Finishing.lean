import SparseEngine.Responses.Agreement

/-!
# Finishing the open items

`finish_open_items` finishes the message item, then the reasoning item, and
opens and finishes an empty message if nothing was streamed.  So it adds no
item but that one, and it leaves every item completed.
-/

namespace Responses

open Routine

/-- The item that is left for a bare one, without identifiers. -/
def BareItem.item : BareItem → OutputItem
  | .reasoning text => .reasoning "" text
  | .message text => .message "" "completed" [text]
  | .functionCall name arguments => .functionCall "" "" name arguments "completed"

theorem BareItem.item_injective : Function.Injective BareItem.item := by
  intro first second heq
  cases first <;> cases second <;> simp_all [BareItem.item]

/-- The items after the pieces of a stream: an empty message if there are
none. -/
def BareItem.finished (items : List BareItem) : List BareItem := if items = [] then [.message ""] else items

namespace ResponseStreamState

variable {hex : ℕ → String} {state : ResponseStreamState} {events : List StreamEvent}

/-- Every item is completed. -/
def Completed (state : ResponseStreamState) : Prop :=
  ∀ item ∈ state.output, item.withoutIds = item.bare.item

theorem Completed.map_withoutIds (h : Completed state) :
    state.output.map OutputItem.withoutIds = (state.output.map OutputItem.bare).map BareItem.item := by
  rw [List.map_map]
  exact List.map_congr_left h

/-- What finishing the message leaves. -/
structure MessageFinished (state next : ResponseStreamState) (events frames : List StreamEvent) : Prop where
  bare : next.output.map OutputItem.bare = state.output.map OutputItem.bare
  completed : Completed next
  reasoning_at : ∀ (index : ℕ) id text, next.output[index]? = some (OutputItem.reasoning id text) ↔
    state.output[index]? = some (OutputItem.reasoning id text)
  reasoningIndex : next.reasoningIndex = state.reasoningIndex
  reasoningText : next.reasoningText = state.reasoningText
  reasoningDone : next.reasoningDone = state.reasoningDone
  messageIndex : next.messageIndex = state.messageIndex
  function_none : next.functionIndex = none
  framed : Framed state events → Framed next (events ++ frames)
  closed : ∀ index, next.messageIndex = some index → next.messageDone = true
  nothing : state.messageIndex = none → next = state ∧ frames = []

theorem withoutIds_of_tracks (h : Tracks state events) {index : ℕ} {item : OutputItem}
    (hitem : state.output[index]? = some item) (hindex : state.messageIndex ≠ some index) :
    item.withoutIds = item.bare.item := by
  cases item with
  | reasoning id text => rfl
  | message id status content => exact absurd (h.message_only index id status content hitem) hindex
  | functionCall id callId name arguments status =>
      rw [h.function_done index id callId name arguments status hitem]
      rfl

theorem finishMessage_step (h : Tracks state events) :
    ∃ frames next, finishMessage state = (.ok frames, next) ∧ MessageFinished state next events frames := by
  rcases hindex : state.messageIndex with _ | index
  · refine ⟨[], state, finishMessage_nothing hindex, rfl, fun item hitem => ?_, fun _ _ _ => Iff.rfl, rfl, rfl, rfl,
      rfl, h.function_none, by simp, by simp [hindex], fun _ => ⟨rfl, rfl⟩⟩
    obtain ⟨other, hother⟩ := List.mem_iff_getElem?.mp hitem
    exact withoutIds_of_tracks h hother (by simp [hindex])
  · obtain ⟨id, hitem⟩ := h.message_at index hindex
    have hbound := lt_of_getElem? hitem
    refine ⟨_, _, finishMessage_open hindex h.message_open hitem, ?_, ?_, fun other id' text => ?_, rfl, rfl, rfl,
      rfl, h.function_none, fun hframed => ?_, fun _ _ => rfl, fun hnone => by cases hindex.symm.trans hnone⟩
    · rw [List.map_set]
      refine List.ext_getElem? fun other => ?_
      rw [List.getElem?_set]
      split_ifs with hsame hlt
      · subst hsame
        rw [List.getElem?_map, hitem]
        rfl
      · exact (hlt (by simpa using hsame ▸ hbound)).elim
      · rfl
    · intro item hmem
      obtain ⟨other, hother⟩ := List.mem_iff_getElem?.mp hmem
      rw [getElem?_set_item hbound] at hother
      split_ifs at hother with hsame
      · rw [← Option.some.inj hother]
        simp [OutputItem.withoutIds, OutputItem.bare, BareItem.item]
      · refine withoutIds_of_tracks h hother ?_
        rw [hindex]
        simpa using Ne.symm hsame
    · rw [getElem?_set_item hbound]
      split_ifs with hsame
      · subst hsame
        simp [hitem]
      · rfl
    · have hway : UnderWay state index := Or.inr ⟨hindex, h.message_open⟩
      have hopened : Opened events index (OutputItem.message id "completed" [state.messageText]).text :=
        hframed.underWay index (.message id "in_progress" [state.messageText]) hitem hway
      refine hframed.step index (by simp [StreamEvent.outputIndex]) (by simp) (by simpa using hbound)
        (fun other hne => by rw [getElem?_set_item hbound, if_neg hne]) (fun other hne => ?_) (fun hnext => ?_)
        fun _ item hsame => ?_
      · have hindexNe : state.messageIndex ≠ some other := by
          rw [hindex]
          simpa using Ne.symm hne
        simp [UnderWay, hindexNe]
      · -- it is not the reasoning item, and the message is done
        rcases hnext with ⟨hnext, -⟩ | ⟨-, hnext⟩
        · exact absurd rfl (h.ne hnext hindex)
        · cases hnext
      · rw [getElem?_set_item hbound, if_pos rfl, Option.some.injEq] at hsame
        subst hsame
        have hinner : ∀ event ∈ [StreamEvent.outputTextDone id index 0 state.messageText,
            .contentPartDone id index 0 state.messageText],
            event.outputIndex = index ∧ event.isBoundary = false := by
          simp [StreamEvent.outputIndex, StreamEvent.isBoundary]
        exact hopened.done rfl (fun event hevent => (hinner event hevent).1)
          (fun event hevent => (hinner event hevent).2) rfl (by simp [StreamEvent.reported, OutputItem.text])

theorem reasoningFinished_eq (hex : ℕ → String) {index : ℕ} (hindex : state.reasoningIndex = some index)
    (hopen : state.reasoningDone = false) : reasoningFinished hex state = finishReasoning hex state := by
  have hsomething : ¬(state.reasoningIndex.isNone ∨ state.reasoningDone) := by simp [hindex, hopen]
  simp only [finishReasoning, bind_apply, read_apply, branch_apply, if_neg hsomething]

theorem Framed.streamed (h : Framed state events) (hnone : ∀ index, ¬UnderWay state index) :
    Streamed state events :=
  ⟨h.beyond, fun index item hitem => h.done index item hitem (hnone index)⟩

/-- A stream without pieces ends in an empty message. -/
theorem finishOpenItems_empty (hex : ℕ → String) (h : Tracks state events) (hempty : state.output = []) :
    ∃ frames final, finishOpenItems hex state = (.ok frames, final) ∧
      final.output.map OutputItem.bare = [.message ""] ∧ Completed final ∧
      (Framed state events → Streamed final (events ++ frames)) := by
  have hmessage : state.messageIndex = none := by
    rcases hindex : state.messageIndex with _ | index
    · rfl
    · have := h.message_lt hindex
      simp [hempty] at this
  have hreasoning : state.reasoningIndex = none := by
    rcases hindex : state.reasoningIndex with _ | index
    · rfl
    · have := h.reasoning_lt hindex
      simp [hempty] at this
  refine ⟨[.outputItemAdded 0 (.message s!"msg_{hex state.drawn}" "in_progress" []),
    .contentPartAdded s!"msg_{hex state.drawn}" 0 0 "", .outputTextDone s!"msg_{hex state.drawn}" 0 0 "",
    .contentPartDone s!"msg_{hex state.drawn}" 0 0 "",
    .outputItemDone 0 (.message s!"msg_{hex state.drawn}" "completed" [""])],
    { state with
      drawn := state.drawn + 1, messageIndex := some 0, messageDone := true
      output := [.message s!"msg_{hex state.drawn}" "completed" [""]] }, ?_, rfl, ?_, fun hframed => ?_⟩
  · simp [finishOpenItems, bind_apply, read_apply, hreasoning, h.function_none, hempty, ensureMessage, hmessage,
      write_apply, pure_apply, finishMessage, h.message_open, itemAt, OutputItem.complete, OutputItem.id,
      h.message_none hmessage]
  · simp [Completed, OutputItem.withoutIds, OutputItem.bare, BareItem.item]
  · have hevents : events = [] := by
      refine List.eq_nil_iff_forall_not_mem.mpr fun event hevent => ?_
      have := hframed.beyond event hevent
      simp [hempty] at this
    subst hevents
    refine ⟨by simp [StreamEvent.outputIndex], fun index item hitem => ?_⟩
    rcases index with _ | index
    · refine ⟨.message s!"msg_{hex state.drawn}" "in_progress" [], [
        .contentPartAdded s!"msg_{hex state.drawn}" 0 0 "", .outputTextDone s!"msg_{hex state.drawn}" 0 0 "",
        .contentPartDone s!"msg_{hex state.drawn}" 0 0 ""], ?_, ?_, ?_, ?_⟩
      all_goals obtain rfl := Option.some.inj hitem
      · rfl
      · simp [StreamEvent.isBoundary]
      · rfl
      · simp [StreamEvent.reported, OutputItem.text]
    · simp at hitem

/-- **What `finish_open_items` leaves.** -/
theorem finishOpenItems_step (hex : ℕ → String) (h : Tracks state events) :
    ∃ frames final, finishOpenItems hex state = (.ok frames, final) ∧
      final.output.map OutputItem.bare = BareItem.finished (state.output.map OutputItem.bare) ∧ Completed final ∧
      (Framed state events → Streamed final (events ++ frames)) := by
  by_cases hempty : state.output = []
  · obtain ⟨frames, final, hrun, hbare, hcompleted, hstreamed⟩ := finishOpenItems_empty hex h hempty
    exact ⟨frames, final, hrun, by simpa [hempty, BareItem.finished] using hbare, hcompleted, hstreamed⟩
  · -- the message is closed first, then the reasoning if it is still open
    obtain ⟨message, middle, hmessage, hfinished⟩ := finishMessage_step h
    have hsome : middle.output ≠ [] := by
      intro hnil
      have := hfinished.bare
      rw [hnil] at this
      exact hempty (List.map_eq_nil_iff.mp this.symm)
    have hbare : middle.output.map OutputItem.bare = BareItem.finished (state.output.map OutputItem.bare) := by
      rw [hfinished.bare, BareItem.finished, if_neg (by simpa using hempty)]
    by_cases hopen : ∃ index, state.reasoningIndex = some index ∧ state.reasoningDone = false
    · obtain ⟨index, hindex, hdone⟩ := hopen
      obtain ⟨id, hitem⟩ := h.reasoning_at index hindex
      have hindex' : middle.reasoningIndex = some index := hfinished.reasoningIndex.trans hindex
      have hdone' : middle.reasoningDone = false := hfinished.reasoningDone.trans hdone
      have hitem' := (hfinished.reasoning_at index id state.reasoningText).mpr hitem
      have hreasoning : reasoningFinished hex middle = (.ok (reasoningEvents index id state.reasoningText),
          { middle with reasoningDone := true }) := by
        rw [reasoningFinished_eq hex hindex' hdone', finishReasoning_open hindex' hdone' hitem',
          hfinished.reasoningText]
        rfl
      have hcondition : middle.reasoningIndex.isSome ∧ ¬middle.reasoningDone := by simp [hindex', hdone']
      refine ⟨message ++ reasoningEvents index id state.reasoningText, { middle with reasoningDone := true }, ?_,
        hbare, hfinished.completed, fun hframed => ?_⟩
      · simp only [finishOpenItems, bind_apply, hmessage, read_apply, branch_apply, if_pos hcondition, hreasoning,
          hfinished.function_none, Option.isSome_none, Bool.false_eq_true, if_false, pure_apply, if_neg hsome,
          List.append_nil]
      · rw [← List.append_assoc]
        refine ((hfinished.framed hframed).finishReasoning hindex' hdone' hitem' fun hsame => ?_).streamed ?_
        · exact h.ne hindex (hfinished.messageIndex ▸ hsame) rfl
        · rintro other (⟨-, hway⟩ | ⟨hother, hway⟩)
          · exact nomatch hway
          · exact nomatch (hfinished.closed other hother).symm.trans hway
    · have hnothing : middle.reasoningIndex = none ∨ middle.reasoningDone = true := by
        rw [hfinished.reasoningIndex, hfinished.reasoningDone]
        rcases hindex : state.reasoningIndex with _ | index
        · exact Or.inl rfl
        · rcases hdone : state.reasoningDone with _ | _
          · exact absurd ⟨index, hindex, hdone⟩ hopen
          · exact Or.inr rfl
      have hcondition : ¬(middle.reasoningIndex.isSome ∧ ¬middle.reasoningDone) := by
        rcases hnothing with hnone | hdone <;> simp [*]
      refine ⟨message, middle, ?_, hbare, hfinished.completed, fun hframed => ?_⟩
      · simp only [finishOpenItems, bind_apply, hmessage, read_apply, branch_apply, if_neg hcondition,
          hfinished.function_none, Option.isSome_none, Bool.false_eq_true, if_false, pure_apply, if_neg hsome,
          List.append_nil]
      · refine (hfinished.framed hframed).streamed ?_
        rintro other (⟨hother, hway⟩ | ⟨hother, hway⟩)
        · rcases hnothing with hnone | hdone
          · exact nomatch hnone.symm.trans hother
          · exact nomatch hdone.symm.trans hway
        · exact nomatch (hfinished.closed other hother).symm.trans hway

end ResponseStreamState

end Responses
