import SparseEngine.Responses.Model

/-!
# The events of one output item

A client follows an output item through the events that carry its position:
the item is added, it grows by deltas, and it is done.  `Opened` is an item
under way and `ItemStreamed` one that is done.  Events of other positions
change neither.
-/

namespace Responses

/-! ## Reading an event -/

/-- The `output_index` that an event carries. -/
def StreamEvent.outputIndex : StreamEvent → ℕ
  | .outputItemAdded index _ | .outputItemDone index _ | .contentPartAdded _ index _ _
  | .contentPartDone _ index _ _ | .reasoningPartAdded _ index _ _ | .reasoningPartDone _ index _ _
  | .outputTextDelta _ index _ _ | .outputTextDone _ index _ _ | .reasoningTextDelta _ index _ _
  | .reasoningTextDone _ index _ _ | .functionCallArgumentsDelta _ index _
  | .functionCallArgumentsDone _ index _ => index

/-- An event that adds an item or is its last. -/
def StreamEvent.isBoundary : StreamEvent → Bool
  | .outputItemAdded .. | .outputItemDone .. => true
  | _ => false

/-- The text or the arguments that an event adds. -/
def StreamEvent.piece : StreamEvent → Option String
  | .outputTextDelta _ _ _ delta | .reasoningTextDelta _ _ _ delta | .functionCallArgumentsDelta _ _ delta =>
      some delta
  | _ => none

/-- The whole text or arguments that an event reports at the end. -/
def StreamEvent.reported : StreamEvent → Option String
  | .outputTextDone _ _ _ text | .contentPartDone _ _ _ text | .reasoningTextDone _ _ _ text
  | .reasoningPartDone _ _ _ text | .functionCallArgumentsDone _ _ text => some text
  | _ => none

/-- The text or the arguments of an item. -/
def OutputItem.text : OutputItem → String
  | .reasoning _ text => text
  | .message _ _ content => String.join content
  | .functionCall _ _ _ arguments _ => arguments

/-- An item without the identifiers that are drawn for it. -/
def OutputItem.withoutIds : OutputItem → OutputItem
  | .reasoning _ text => .reasoning "" text
  | .message _ status content => .message "" status content
  | .functionCall _ _ name arguments status => .functionCall "" "" name arguments status

/-- The events that carry a position. -/
def eventsAt (index : ℕ) (events : List StreamEvent) : List StreamEvent :=
  events.filter fun event => event.outputIndex = index

/-- **The events of an item that is done.** One event adds it and one is its
last, every delta lies between the two, and the deltas concatenate to the text
that is reported. -/
def ItemStreamed (events : List StreamEvent) (index : ℕ) (item : OutputItem) : Prop :=
  ∃ added inner, eventsAt index events = .outputItemAdded index added :: (inner ++ [.outputItemDone index item]) ∧
    (∀ event ∈ inner, event.isBoundary = false) ∧
    String.join (inner.filterMap StreamEvent.piece) = item.text ∧
    ∀ text ∈ inner.filterMap StreamEvent.reported, text = item.text

/-- The events of an item that has grown to a text so far. -/
def Opened (events : List StreamEvent) (index : ℕ) (text : String) : Prop :=
  ∃ added inner, eventsAt index events = .outputItemAdded index added :: inner ∧
    (∀ event ∈ inner, event.isBoundary = false) ∧
    String.join (inner.filterMap StreamEvent.piece) = text ∧ inner.filterMap StreamEvent.reported = []

/-! ## More events -/

variable {events frames inner : List StreamEvent} {index : ℕ} {text : String} {item added : OutputItem}

theorem eventsAt_append (index : ℕ) (events frames : List StreamEvent) :
    eventsAt index (events ++ frames) = eventsAt index events ++ eventsAt index frames :=
  List.filter_append ..

theorem eventsAt_of_all (h : ∀ event ∈ frames, event.outputIndex = index) : eventsAt index frames = frames :=
  List.filter_eq_self.mpr fun event hevent => by simp [h event hevent]

theorem eventsAt_of_none (h : ∀ event ∈ frames, event.outputIndex ≠ index) : eventsAt index frames = [] :=
  List.filter_eq_nil_iff.mpr fun event hevent => by simp [h event hevent]

theorem eventsAt_append_of_none (h : ∀ event ∈ frames, event.outputIndex ≠ index) :
    eventsAt index (events ++ frames) = eventsAt index events := by
  rw [eventsAt_append, eventsAt_of_none h, List.append_nil]

/-- Events of other positions change nothing. -/
theorem ItemStreamed.append (hitem : ItemStreamed events index item)
    (h : ∀ event ∈ frames, event.outputIndex ≠ index) : ItemStreamed (events ++ frames) index item := by
  unfold ItemStreamed
  rw [eventsAt_append_of_none h]
  exact hitem

theorem Opened.append (hopened : Opened events index text) (h : ∀ event ∈ frames, event.outputIndex ≠ index) :
    Opened (events ++ frames) index text := by
  unfold Opened
  rw [eventsAt_append_of_none h]
  exact hopened

/-- An item is added. -/
theorem Opened.start (hnone : eventsAt index events = [])
    (hframes : frames = .outputItemAdded index added :: inner) (hat : ∀ event ∈ inner, event.outputIndex = index)
    (hinner : ∀ event ∈ inner, event.isBoundary = false) (hreported : inner.filterMap StreamEvent.reported = []) :
    Opened (events ++ frames) index (String.join (inner.filterMap StreamEvent.piece)) := by
  refine ⟨added, inner, ?_, hinner, rfl, hreported⟩
  subst hframes
  rw [eventsAt_append, hnone, List.nil_append, eventsAt_of_all]
  intro event hevent
  rcases List.mem_cons.mp hevent with rfl | hevent
  · rfl
  · exact hat event hevent

/-- An item grows. -/
theorem Opened.grow (hopened : Opened events index text) (hat : ∀ event ∈ frames, event.outputIndex = index)
    (hinner : ∀ event ∈ frames, event.isBoundary = false) (hreported : frames.filterMap StreamEvent.reported = []) :
    Opened (events ++ frames) index (text ++ String.join (frames.filterMap StreamEvent.piece)) := by
  obtain ⟨added, inner, heq, hboundary, hjoin, hnone⟩ := hopened
  refine ⟨added, inner ++ frames, ?_, ?_, ?_, ?_⟩
  · rw [eventsAt_append, heq, eventsAt_of_all hat, List.cons_append]
  · intro event hevent
    exact (List.mem_append.mp hevent).elim (hboundary event) (hinner event)
  · rw [List.filterMap_append, String.join_append, hjoin]
  · rw [List.filterMap_append, hnone, hreported, List.append_nil]

/-- An item is done. -/
theorem Opened.done (hopened : Opened events index item.text)
    (hframes : frames = inner ++ [.outputItemDone index item]) (hat : ∀ event ∈ inner, event.outputIndex = index)
    (hinner : ∀ event ∈ inner, event.isBoundary = false) (hpieces : inner.filterMap StreamEvent.piece = [])
    (hreported : ∀ text ∈ inner.filterMap StreamEvent.reported, text = item.text) :
    ItemStreamed (events ++ frames) index item := by
  obtain ⟨added, before, heq, hboundary, hjoin, hnone⟩ := hopened
  refine ⟨added, before ++ inner, ?_, ?_, ?_, ?_⟩
  · subst hframes
    rw [eventsAt_append, heq, eventsAt_of_all, List.cons_append, List.append_assoc]
    intro event hevent
    rcases List.mem_append.mp hevent with hevent | hevent
    · exact hat event hevent
    · rw [List.mem_singleton.mp hevent]
      rfl
  · intro event hevent
    exact (List.mem_append.mp hevent).elim (hboundary event) (hinner event)
  · rw [List.filterMap_append, hpieces, List.append_nil, hjoin]
  · rw [List.filterMap_append, hnone, List.nil_append]
    exact hreported

/-- After its last event an item has no other. -/
theorem ItemStreamed.eventsAt_eq_nil (h : ItemStreamed (events ++ frames) index item)
    (hdone : .outputItemDone index added ∈ events) : eventsAt index frames = [] := by
  obtain ⟨opened, inner, heq, hboundary, -, -⟩ := h
  rw [eventsAt_append, ← List.cons_append] at heq
  -- the events before the last one of the item are none that ends it
  have hbefore : ∀ event ∈ .outputItemAdded index opened :: inner, event ≠ .outputItemDone index added := by
    intro event hevent
    rcases List.mem_cons.mp hevent with rfl | hevent
    · exact nofun
    · rintro rfl
      exact nomatch hboundary _ hevent
  have hmem : .outputItemDone index added ∈ eventsAt index events := by
    simpa [eventsAt, StreamEvent.outputIndex] using hdone
  rcases List.append_eq_append_iff.mp heq with ⟨more, hmore, -⟩ | ⟨more, hmore, hrest⟩
  · exact absurd rfl (hbefore _ (hmore ▸ List.mem_append_left _ hmem))
  · rcases more with _ | ⟨first, more⟩
    · rw [List.append_nil] at hmore
      exact absurd rfl (hbefore _ (hmore ▸ hmem))
    · rw [List.cons_append, List.cons.injEq] at hrest
      exact (List.append_eq_nil_iff.mp hrest.2.symm).2

end Responses
