import SparseEngine.Responses.Streaming

/-!
# What one piece preserves

Each piece finishes the reasoning item first unless it is a reasoning text
itself, and then either opens an item at the end of the output, grows the one
that is open, or adds a whole tool call.  So there are three ways in which the
output changes, and `Tracks` and `Framed` follow each of them.
-/

namespace Responses

namespace ResponseStreamState

variable {hex : ℕ → String} {state next : ResponseStreamState} {events frames : List StreamEvent} {index : ℕ}
  {id text : String} {item : OutputItem}

/-! ## The output with one item more or another text -/

theorem getElem?_append_item (output : List OutputItem) (item : OutputItem) (index : ℕ) :
    (output ++ [item])[index]? = if index = output.length then some item else output[index]? := by
  by_cases hlast : index = output.length
  · subst hlast
    simp
  · rw [if_neg hlast]
    rcases Nat.lt_or_gt_of_ne hlast with hlt | hgt
    · exact List.getElem?_append_left hlt
    · rw [List.getElem?_eq_none (by simp; omega), List.getElem?_eq_none (by omega)]

variable {output : List OutputItem}

theorem getElem?_set_item (hindex : index < output.length) (item : OutputItem) (other : ℕ) :
    (output.set index item)[other]? = if other = index then some item else output[other]? := by
  by_cases hsame : other = index
  · subst hsame
    simp [hindex]
  · rw [if_neg hsame, List.getElem?_set_ne (Ne.symm hsame)]

theorem lt_of_getElem? (h : output[index]? = some item) : index < output.length :=
  (List.getElem?_eq_some_iff.mp h).1

theorem Tracks.more (h : Tracks state events) (frames : List StreamEvent) : Tracks state (events ++ frames) where
  reasoning_at := h.reasoning_at
  reasoning_only := h.reasoning_only
  reasoning_none := h.reasoning_none
  message_at := h.message_at
  message_only := h.message_only
  message_none := h.message_none
  message_open := h.message_open
  function_none := h.function_none
  function_done := h.function_done
  closed := fun hdone => by
    obtain ⟨index, item, hindex, hmem⟩ := h.closed hdone
    exact ⟨index, item, hindex, List.mem_append_left _ hmem⟩

/-- The reasoning item and the message item are not at the same place. -/
theorem Tracks.ne (h : Tracks state events) {other : ℕ} (hreasoning : state.reasoningIndex = some index)
    (hmessage : state.messageIndex = some other) : index ≠ other := by
  rintro rfl
  obtain ⟨id, hitem⟩ := h.reasoning_at index hreasoning
  obtain ⟨id', hitem'⟩ := h.message_at index hmessage
  exact nomatch hitem.symm.trans hitem'

theorem Tracks.reasoning_lt (h : Tracks state events) (hindex : state.reasoningIndex = some index) :
    index < state.output.length := by
  obtain ⟨id, hitem⟩ := h.reasoning_at index hindex
  exact lt_of_getElem? hitem

theorem Tracks.message_lt (h : Tracks state events) (hindex : state.messageIndex = some index) :
    index < state.output.length := by
  obtain ⟨id, hitem⟩ := h.message_at index hindex
  exact lt_of_getElem? hitem

/-- Events of one position, and an output that changes there alone. -/
theorem Framed.step (h : Framed state events) (index : ℕ) (hat : ∀ event ∈ frames, event.outputIndex = index)
    (hlength : state.output.length ≤ next.output.length) (hindex : index < next.output.length)
    (hother : ∀ other, other ≠ index → next.output[other]? = state.output[other]?)
    (hway : ∀ other, other ≠ index → (UnderWay next other ↔ UnderWay state other))
    (hopened : UnderWay next index → ∀ item, next.output[index]? = some item →
      Opened (events ++ frames) index item.text)
    (hdone : ¬UnderWay next index → ∀ item, next.output[index]? = some item →
      ItemStreamed (events ++ frames) index item) :
    Framed next (events ++ frames) where
  beyond := fun event hevent => by
    rcases List.mem_append.mp hevent with hevent | hevent
    · exact Nat.lt_of_lt_of_le (h.beyond event hevent) hlength
    · rw [hat event hevent]
      exact hindex
  underWay := fun other item hitem hunderWay => by
    by_cases hsame : other = index
    · subst hsame
      exact hopened hunderWay item hitem
    · rw [hother other hsame] at hitem
      refine (h.underWay other item hitem ((hway other hsame).mp hunderWay)).append fun event hevent => ?_
      rw [hat event hevent]
      exact Ne.symm hsame
  done := fun other item hitem hunderWay => by
    by_cases hsame : other = index
    · subst hsame
      exact hdone hunderWay item hitem
    · rw [hother other hsame] at hitem
      refine (h.done other item hitem fun hway' => hunderWay ((hway other hsame).mpr hway')).append
        fun event hevent => ?_
      rw [hat event hevent]
      exact Ne.symm hsame

/-! ## Finishing the reasoning item -/

/-- The events of a reasoning item that is finished. -/
def reasoningEvents (index : ℕ) (id text : String) : List StreamEvent :=
  [.reasoningTextDone id index 0 text, .reasoningPartDone id index 0 text,
    .outputItemDone index (.reasoning id text)]

/-- Finishing the reasoning item closes it and nothing else. -/
theorem Framed.finishReasoning (hframed : Framed state events) (hindex : state.reasoningIndex = some index)
    (hopen : state.reasoningDone = false) (hitem : state.output[index]? = some (.reasoning id text))
    (hmessage : state.messageIndex ≠ some index) :
    Framed { state with reasoningDone := true } (events ++ reasoningEvents index id text) := by
  have hopened := hframed.underWay index _ hitem (Or.inl ⟨hindex, hopen⟩)
  refine hframed.step index (by simp [reasoningEvents, StreamEvent.outputIndex]) (Nat.le_refl _)
    (lt_of_getElem? hitem) (fun _ _ => rfl) (fun other hne => ?_) (fun hway => ?_) fun _ item hsame => ?_
  · have hindexNe : state.reasoningIndex ≠ some other := by
      rw [hindex]
      simpa using Ne.symm hne
    simp [UnderWay, hindexNe]
  · -- it is not the message item, and the reasoning item is done
    rcases hway with ⟨-, hway⟩ | ⟨hway, -⟩
    · cases hway
    · exact absurd hway hmessage
  · obtain rfl := Option.some.inj (hitem.symm.trans hsame)
    have hinner : ∀ event ∈ [StreamEvent.reasoningTextDone id index 0 text, .reasoningPartDone id index 0 text],
        event.outputIndex = index ∧ event.isBoundary = false := by
      simp [StreamEvent.outputIndex, StreamEvent.isBoundary]
    exact hopened.done rfl (fun event hevent => (hinner event hevent).1)
      (fun event hevent => (hinner event hevent).2) rfl (by simp [StreamEvent.reported, OutputItem.text])

/-- What `finish_reasoning` leaves. -/
theorem finishReasoning_step (hex : ℕ → String) (h : Tracks state events) :
    ∃ frames done, finishReasoning hex state = (.ok frames, { state with reasoningDone := done }) ∧
      Tracks { state with reasoningDone := done } (events ++ frames) ∧
      (∀ index, state.reasoningIndex = some index → done = true) ∧
      (Framed state events → Framed { state with reasoningDone := done } (events ++ frames)) := by
  by_cases hopen : ∃ index, state.reasoningIndex = some index ∧ state.reasoningDone = false
  · obtain ⟨index, hindex, hdone⟩ := hopen
    obtain ⟨id, hitem⟩ := h.reasoning_at index hindex
    refine ⟨_, true, finishReasoning_open hindex hdone hitem, ?_, fun _ _ => rfl, fun hframed =>
      hframed.finishReasoning hindex hdone hitem fun hmessage => h.ne hindex hmessage rfl⟩
    exact { h.more (reasoningEvents index id state.reasoningText) with
      reasoning_none := fun hnone => nomatch hindex.symm.trans hnone
      closed := fun _ => ⟨index, .reasoning id state.reasoningText, hindex, by simp⟩ }
  · have hnothing : state.reasoningIndex = none ∨ state.reasoningDone = true := by
      rcases hindex : state.reasoningIndex with _ | index
      · exact Or.inl rfl
      · rcases hdone : state.reasoningDone with _ | _
        · exact absurd ⟨index, hindex, hdone⟩ hopen
        · exact Or.inr rfl
    refine ⟨[], state.reasoningDone, finishReasoning_nothing hnothing, h.more [], fun index hindex => ?_, ?_⟩
    · exact hnothing.resolve_left (by simp [hindex])
    · simp

/-! ## Texts and tool calls -/

/-- Growing the one item of a kind. -/
theorem map_bare_set {kind : BareItem → Bool} {old : OutputItem} (hold : output[index]? = some old)
    (hkind : kind old.bare = true) (hgrow : item.bare = old.bare.grow text)
    (honly : ∀ other found, output[other]? = some found → kind found.bare = true → other = index) :
    (output.set index item).map OutputItem.bare =
      (output.map OutputItem.bare).map fun found => if kind found then found.grow text else found := by
  apply List.ext_getElem?
  intro other
  rw [List.getElem?_map, getElem?_set_item (lt_of_getElem? hold), List.getElem?_map, List.getElem?_map]
  by_cases hsame : other = index
  · subst hsame
    simp [hold, hkind, hgrow]
  · rw [if_neg hsame]
    rcases hfound : output[other]? with _ | found
    · rfl
    · have hnot : kind found.bare = false :=
        Bool.eq_false_iff.mpr fun htrue => hsame (honly other found hfound htrue)
      simp [hnot]

theorem Tracks.any_isMessage (h : Tracks state events) :
    (state.output.map OutputItem.bare).any BareItem.isMessage = state.messageIndex.isSome := by
  rcases hindex : state.messageIndex with _ | index
  · refine Bool.eq_false_iff.mpr fun hany => ?_
    obtain ⟨found, hfound, hkind⟩ := List.any_eq_true.mp hany
    obtain ⟨item, hitem, rfl⟩ := List.mem_map.mp hfound
    obtain ⟨other, hother⟩ := List.mem_iff_getElem?.mp hitem
    cases item with
    | message id status content =>
        have := h.message_only other id status content hother
        simp [hindex] at this
    | reasoning id text => simp [OutputItem.bare, BareItem.isMessage] at hkind
    | functionCall id callId name arguments status => simp [OutputItem.bare, BareItem.isMessage] at hkind
  · obtain ⟨id, hitem⟩ := h.message_at index hindex
    refine List.any_eq_true.mpr ⟨_, List.mem_map_of_mem (List.mem_of_getElem? hitem), rfl⟩

theorem Tracks.any_isReasoning (h : Tracks state events) :
    (state.output.map OutputItem.bare).any BareItem.isReasoning = state.reasoningIndex.isSome := by
  rcases hindex : state.reasoningIndex with _ | index
  · refine Bool.eq_false_iff.mpr fun hany => ?_
    obtain ⟨found, hfound, hkind⟩ := List.any_eq_true.mp hany
    obtain ⟨item, hitem, rfl⟩ := List.mem_map.mp hfound
    obtain ⟨other, hother⟩ := List.mem_iff_getElem?.mp hitem
    cases item with
    | reasoning id text =>
        have := h.reasoning_only other id text hother
        simp [hindex] at this
    | message id status content => simp [OutputItem.bare, BareItem.isReasoning] at hkind
    | functionCall id callId name arguments status => simp [OutputItem.bare, BareItem.isReasoning] at hkind
  · obtain ⟨id, hitem⟩ := h.reasoning_at index hindex
    refine List.any_eq_true.mpr ⟨_, List.mem_map_of_mem (List.mem_of_getElem? hitem), rfl⟩

/-- What `message_delta` leaves. -/
theorem messageDelta_step (hex : ℕ → String) (h : Tracks state events) (htext : text ≠ "") :
    ∃ frames next, messageDelta hex text state = (.ok frames, next) ∧ Tracks next (events ++ frames) ∧
      next.output.map OutputItem.bare = BareItem.absorb (state.output.map OutputItem.bare) (.content text) ∧
      next.reasoningIndex = state.reasoningIndex ∧ next.reasoningDone = state.reasoningDone ∧
      (Framed state events → Framed next (events ++ frames)) := by
  obtain ⟨hat, honly, hnone, hmat, hmonly, hmnone, hmopen, hfnone, hfdone, hclosed⟩ := id h
  have hlt := fun index => @Tracks.reasoning_lt state events index h
  rcases hindex : state.messageIndex with _ | index
  · -- the first fragment opens the item and its part
    obtain ⟨id, hrun⟩ := @messageDelta_new hex state text htext hindex
    rw [hmnone hindex, String.empty_append] at hrun
    refine ⟨_, _, hrun, ?_, ?_, rfl, rfl, fun hframed => ?_⟩
    · constructor
      all_goals simp only [getElem?_append_item]
      all_goals grind
    · have hany := h.any_isMessage
      rw [hindex, Option.isSome_none] at hany
      simp [BareItem.absorb, hany, OutputItem.bare]
    · refine hframed.step state.output.length (by simp [StreamEvent.outputIndex]) (by simp) (by simp)
        (fun other hne => by rw [getElem?_append_item, if_neg hne]) (fun other hne => ?_) (fun _ item hitem => ?_)
        fun hway => ?_
      · simp only [UnderWay, Option.some.injEq, hindex, reduceCtorEq, false_and, or_false]
        grind
      · rw [getElem?_append_item, if_pos rfl, Option.some.injEq] at hitem
        subst hitem
        have hopened := @Opened.start events _ [.contentPartAdded id state.output.length 0 "",
          .outputTextDelta id state.output.length 0 text] state.output.length
          (.message id "in_progress" []) hframed.eventsAt_length rfl (by simp [StreamEvent.outputIndex])
          (by simp [StreamEvent.isBoundary]) rfl
        have hjoin : String.join [text] = (OutputItem.message id "in_progress" [text]).text := rfl
        exact hjoin ▸ hopened
      · exact absurd (Or.inr ⟨rfl, hmopen⟩) hway
  · obtain ⟨id, hitem⟩ := hmat index hindex
    -- a later one extends the item it opened
    have hrun := @messageDelta_old hex state index id text htext hindex _ _ hitem
    have hbound := lt_of_getElem? hitem
    refine ⟨_, _, hrun, ?_, ?_, rfl, rfl, fun hframed => ?_⟩
    · constructor
      all_goals simp only [getElem?_set_item hbound]
      all_goals grind
    · have hany := h.any_isMessage
      rw [hindex, Option.isSome_some] at hany
      rw [BareItem.absorb, if_pos hany]
      refine map_bare_set hitem rfl (by simp [OutputItem.bare, BareItem.grow]) fun other found hfound hkind => ?_
      cases found with
      | message id' status content => simpa [hindex, eq_comm] using hmonly other id' status content hfound
      | reasoning id' text => simp [OutputItem.bare, BareItem.isMessage] at hkind
      | functionCall id' callId name arguments status => simp [OutputItem.bare, BareItem.isMessage] at hkind
    · have hway : UnderWay state index := Or.inr ⟨hindex, hmopen⟩
      have hopened := hframed.underWay index _ hitem hway
      refine hframed.step index (by simp [StreamEvent.outputIndex]) (by simp) (by simpa using hbound)
        (fun other hne => by rw [getElem?_set_item hbound, if_neg hne]) (fun other hne => Iff.rfl)
        (fun _ item hsame => ?_) fun hnot => absurd hway hnot
      rw [getElem?_set_item hbound, if_pos rfl, Option.some.injEq] at hsame
      subst hsame
      have hgrown := @Opened.grow events [.outputTextDelta id index 0 text] index _ hopened
        (by simp [StreamEvent.outputIndex]) (by simp [StreamEvent.isBoundary]) rfl
      simpa [StreamEvent.piece, OutputItem.text] using hgrown

/-- What `reasoning_delta` leaves.  The events stay framed if the reasoning item
is not done yet. -/
theorem reasoningDelta_step (hex : ℕ → String) (h : Tracks state events) (htext : text ≠ "") :
    ∃ frames next index, reasoningDelta hex text state = (.ok frames, next) ∧ Tracks next (events ++ frames) ∧
      next.output.map OutputItem.bare = BareItem.absorb (state.output.map OutputItem.bare) (.reasoning text) ∧
      next.reasoningIndex = some index ∧ next.reasoningDone = state.reasoningDone ∧
      (∀ other, state.reasoningIndex = some other → other = index) ∧ eventsAt index frames ≠ [] ∧
      (Framed state events → state.reasoningDone = false → Framed next (events ++ frames)) := by
  obtain ⟨hat, honly, hnone, hmat, hmonly, hmnone, hmopen, hfnone, hfdone, hclosed⟩ := id h
  have hlt := fun index => @Tracks.message_lt state events index h
  rcases hindex : state.reasoningIndex with _ | index
  · -- the first fragment opens the item and its part
    obtain ⟨id, hrun⟩ := @reasoningDelta_new hex state text htext hindex
    rw [(hnone hindex).1, String.empty_append] at hrun
    refine ⟨_, _, state.output.length, hrun, ?_, ?_, rfl, rfl, nofun, ?_, fun hframed hopen => ?_⟩
    · constructor
      all_goals simp only [getElem?_append_item]
      all_goals grind
    · have hany := h.any_isReasoning
      rw [hindex, Option.isSome_none] at hany
      simp [BareItem.absorb, hany, OutputItem.bare]
    · simp [eventsAt, StreamEvent.outputIndex]
    · refine hframed.step state.output.length (by simp [StreamEvent.outputIndex]) (by simp) (by simp)
        (fun other hne => by rw [getElem?_append_item, if_neg hne]) (fun other hne => ?_) (fun _ item hitem => ?_)
        fun hway => ?_
      · simp only [UnderWay, Option.some.injEq, hindex, reduceCtorEq, false_and, false_or]
        grind
      · rw [getElem?_append_item, if_pos rfl, Option.some.injEq] at hitem
        subst hitem
        have hopened := @Opened.start events _ [.reasoningPartAdded id state.output.length 0 "",
          .reasoningTextDelta id state.output.length 0 text] state.output.length
          (.reasoning id "") hframed.eventsAt_length rfl (by simp [StreamEvent.outputIndex])
          (by simp [StreamEvent.isBoundary]) rfl
        have hjoin : String.join [text] = text := by simp
        exact hjoin ▸ hopened
      · exact absurd (Or.inl ⟨rfl, hopen⟩) hway
  · obtain ⟨id, hitem⟩ := hat index hindex
    -- a later one extends the item it opened
    have hrun := @reasoningDelta_old hex state index id text htext hindex _ hitem
    have hbound := lt_of_getElem? hitem
    refine ⟨_, _, index, hrun, ?_, ?_, hindex, rfl, by simp, ?_, fun hframed hopen => ?_⟩
    · constructor
      all_goals simp only [getElem?_set_item hbound]
      all_goals grind
    · have hany := h.any_isReasoning
      rw [hindex, Option.isSome_some] at hany
      rw [BareItem.absorb, if_pos hany]
      refine map_bare_set hitem rfl rfl fun other found hfound hkind => ?_
      cases found with
      | reasoning id' text => simpa [hindex, eq_comm] using honly other id' text hfound
      | message id' status content => simp [OutputItem.bare, BareItem.isReasoning] at hkind
      | functionCall id' callId name arguments status => simp [OutputItem.bare, BareItem.isReasoning] at hkind
    · simp [eventsAt, StreamEvent.outputIndex]
    · have hway : UnderWay state index := Or.inl ⟨hindex, hopen⟩
      have hopened := hframed.underWay index _ hitem hway
      refine hframed.step index (by simp [StreamEvent.outputIndex]) (by simp) (by simpa using hbound)
        (fun other hne => by rw [getElem?_set_item hbound, if_neg hne]) (fun other hne => Iff.rfl)
        (fun _ item hsame => ?_) fun hnot => absurd hway hnot
      rw [getElem?_set_item hbound, if_pos rfl, Option.some.injEq] at hsame
      subst hsame
      have hgrown := @Opened.grow events [.reasoningTextDelta id index 0 text] index _ hopened
        (by simp [StreamEvent.outputIndex]) (by simp [StreamEvent.isBoundary]) rfl
      simpa [StreamEvent.piece, OutputItem.text] using hgrown

/-- What a whole tool call leaves, once the reasoning item is finished. -/
theorem toolCall_step (hex : ℕ → String) (h : Tracks state events) {function : ToolFunction}
    (hname : function.name ≠ "") :
    ∃ started arguments done first second next, functionCallStarted hex function.name state = (.ok started, first) ∧
      functionCallArgumentsDelta function.arguments first = (.ok arguments, second) ∧
      functionCallDone second = (.ok done, next) ∧ Tracks next (events ++ (started ++ arguments ++ done)) ∧
      next.output.map OutputItem.bare = BareItem.absorb (state.output.map OutputItem.bare) (.toolCall function) ∧
      next.reasoningIndex = state.reasoningIndex ∧ next.reasoningDone = state.reasoningDone ∧
      (Framed state events → Framed next (events ++ (started ++ arguments ++ done))) := by
  obtain ⟨hat, honly, hnone, hmat, hmonly, hmnone, hmopen, hfnone, hfdone, hclosed⟩ := id h
  have hlt := fun index => @Tracks.message_lt state events index h
  have hrlt := fun index => @Tracks.reasoning_lt state events index h
  obtain ⟨id, callId, started, arguments, done, first, second, next, hstarted, harguments, hdone, hevents, rfl⟩ :=
    @toolCall_apply hex state function hname hfnone
  refine ⟨started, arguments, done, first, second, _, hstarted, harguments, hdone, ?_, ?_, rfl, rfl, ?_⟩
  · constructor
    all_goals simp only [getElem?_append_item]
    all_goals grind
  · simp [BareItem.absorb, OutputItem.bare]
  · intro hframed
    rw [hevents]
    have hat' : ∀ event ∈ callEvents state.output.length id callId function,
        event.outputIndex = state.output.length := by
      intro event hevent
      unfold callEvents at hevent
      split_ifs at hevent <;> simp at hevent <;> grind [StreamEvent.outputIndex]
    refine hframed.step state.output.length hat' (by simp) (by simp)
      (fun other hne => by rw [getElem?_append_item, if_neg hne]) (fun other hne => Iff.rfl) (fun hway => ?_)
      fun _ item hitem => ?_
    · -- nothing is under way beyond the end of the output
      rcases hway with ⟨hway, -⟩ | ⟨hway, -⟩
      · exact absurd (hrlt _ hway) (Nat.lt_irrefl _)
      · exact absurd (hlt _ hway) (Nat.lt_irrefl _)
    · rw [getElem?_append_item, if_pos rfl, Option.some.injEq] at hitem
      subst hitem
      refine ⟨.functionCall id callId function.name "" "in_progress",
        (if function.arguments = "" then []
          else [.functionCallArgumentsDelta id state.output.length function.arguments]) ++
        [.functionCallArgumentsDone id state.output.length function.arguments], ?_, ?_, ?_, ?_⟩
      · rw [eventsAt_append, hframed.eventsAt_length, List.nil_append, eventsAt_of_all hat']
        simp [callEvents]
      · split_ifs <;> simp [StreamEvent.isBoundary]
      · split_ifs with hempty <;> simp [List.filterMap_cons, StreamEvent.piece, OutputItem.text, hempty]
      · split_ifs <;> simp [List.filterMap_cons, StreamEvent.reported, OutputItem.text]

end ResponseStreamState

end Responses
