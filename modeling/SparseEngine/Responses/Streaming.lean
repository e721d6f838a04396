import SparseEngine.Responses.Events

/-!
# Streaming piece by piece

A list of deltas is a sequence of pieces: a reasoning text, a content text or
a tool call.  `Tracks` says what the state knows of its items before every
piece, and holds in every run.  `Framed` says that every item is either under
way or done in the events so far.  A reasoning text that arrives when the
reasoning item is done breaks it, and nothing else does.
-/

namespace Responses

open Routine

/-- A piece of a delta. -/
inductive StreamPiece where
  | reasoning (text : String)
  | content (text : String)
  | toolCall (function : ToolFunction)

/-- The pieces of a delta, in the order in which they are handled. -/
def ParserDelta.pieces (delta : ParserDelta) : List StreamPiece :=
  (match delta.reasoningContent with
    | none => []
    | some text => if text = "" then [] else [.reasoning text]) ++
  (match delta.content with
    | none => []
    | some text => if text = "" then [] else [.content text]) ++
  delta.toolCalls.map .toolCall

/-- A piece as the parser sends them: texts are not empty, and tool calls have a
name. -/
def StreamPiece.Valid : StreamPiece → Prop
  | .reasoning text => text ≠ ""
  | .content text => text ≠ ""
  | .toolCall function => function.name ≠ ""

/-- No reasoning text after a content text or a tool call. -/
def PiecesInOrder : List StreamPiece → Prop
  | [] => True
  | .reasoning _ :: rest => PiecesInOrder rest
  | .content _ :: rest | .toolCall _ :: rest => ∀ text, .reasoning text ∉ rest

/-- An item without identifiers and status. -/
inductive BareItem where
  | reasoning (text : String)
  | message (text : String)
  | functionCall (name arguments : String)
  deriving DecidableEq

/-- What an item is without identifiers and status. -/
def OutputItem.bare : OutputItem → BareItem
  | .reasoning _ text => .reasoning text
  | .message _ _ content => .message (String.join content)
  | .functionCall _ _ name arguments _ => .functionCall name arguments

namespace BareItem

/-- A reasoning item. -/
def isReasoning : BareItem → Bool
  | .reasoning _ => true
  | _ => false

/-- A message item. -/
def isMessage : BareItem → Bool
  | .message _ => true
  | _ => false

/-- A reasoning text goes to the reasoning item, a content text to the message
item. -/
def grow (text : String) : BareItem → BareItem
  | .reasoning old => .reasoning (old ++ text)
  | .message old => .message (old ++ text)
  | .functionCall name arguments => .functionCall name arguments

/-- The items after one more piece. -/
def absorb (items : List BareItem) : StreamPiece → List BareItem
  | .reasoning text =>
      if items.any isReasoning then items.map fun item => if item.isReasoning then item.grow text else item
      else items ++ [.reasoning text]
  | .content text =>
      if items.any isMessage then items.map fun item => if item.isMessage then item.grow text else item
      else items ++ [.message text]
  | .toolCall function => items ++ [.functionCall function.name function.arguments]

end BareItem

namespace ResponseStreamState

variable {hex : ℕ → String} {state : ResponseStreamState} {events : List StreamEvent} {index : ℕ}
  {id text : String}

/-- One piece. -/
def pieceFrames (hex : ℕ → String) : StreamPiece → Routine ResponseStreamState (List StreamEvent)
  | .reasoning text => reasoningDelta hex text
  | .content text => do
      let finished ← finishReasoning hex
      let frames ← messageDelta hex text
      pure (finished ++ frames)
  | .toolCall function => do
      let finished ← finishReasoning hex
      let started ← functionCallStarted hex function.name
      let arguments ← functionCallArgumentsDelta function.arguments
      let done ← functionCallDone
      pure (finished ++ started ++ arguments ++ done)

/-- What the state knows of its items before a piece. -/
structure Tracks (state : ResponseStreamState) (events : List StreamEvent) : Prop where
  reasoning_at : ∀ index, state.reasoningIndex = some index →
    ∃ id, state.output[index]? = some (.reasoning id state.reasoningText)
  reasoning_only : ∀ index id text, state.output[index]? = some (.reasoning id text) →
    state.reasoningIndex = some index
  reasoning_none : state.reasoningIndex = none → state.reasoningText = "" ∧ state.reasoningDone = false
  message_at : ∀ index, state.messageIndex = some index →
    ∃ id, state.output[index]? = some (.message id "in_progress" [state.messageText])
  message_only : ∀ index id status content, state.output[index]? = some (.message id status content) →
    state.messageIndex = some index
  message_none : state.messageIndex = none → state.messageText = ""
  message_open : state.messageDone = false
  function_none : state.functionIndex = none
  function_done : ∀ (index : ℕ) id callId name arguments status,
    state.output[index]? = some (OutputItem.functionCall id callId name arguments status) → status = "completed"
  closed : state.reasoningDone = true → ∃ index item, state.reasoningIndex = some index ∧
    .outputItemDone index item ∈ events

/-- The item at an index is still under way. -/
def UnderWay (state : ResponseStreamState) (index : ℕ) : Prop :=
  (state.reasoningIndex = some index ∧ state.reasoningDone = false) ∨
    (state.messageIndex = some index ∧ state.messageDone = false)

/-- Every item is under way or done in the events so far. -/
structure Framed (state : ResponseStreamState) (events : List StreamEvent) : Prop where
  beyond : ∀ event ∈ events, event.outputIndex < state.output.length
  underWay : ∀ index item, state.output[index]? = some item → UnderWay state index →
    Opened events index item.text
  done : ∀ index item, state.output[index]? = some item → ¬UnderWay state index →
    ItemStreamed events index item

theorem Framed.eventsAt_length (h : Framed state events) : eventsAt state.output.length events = [] :=
  eventsAt_of_none fun event hevent => Nat.ne_of_lt (h.beyond event hevent)

theorem tracks_initial : Tracks {} [] where
  reasoning_at := nofun
  reasoning_only := nofun
  reasoning_none := fun _ => ⟨rfl, rfl⟩
  message_at := nofun
  message_only := nofun
  message_none := fun _ => rfl
  message_open := rfl
  function_none := rfl
  function_done := nofun
  closed := nofun

theorem framed_initial : Framed {} [] where
  beyond := nofun
  underWay := nofun
  done := nofun

/-! ## What each method does -/

theorem itemAt_apply {item : OutputItem} (h : state.output[index]? = some item) :
    itemAt (some index) state = (.ok (index, item), state) := by
  simp [itemAt, bind_apply, read_apply, h, pure_apply]

theorem finishReasoning_nothing (h : state.reasoningIndex = none ∨ state.reasoningDone = true) :
    finishReasoning hex state = (.ok [], state) := by
  have hnothing : state.reasoningIndex.isNone ∨ state.reasoningDone := by simpa using h
  simp only [finishReasoning, bind_apply, read_apply, branch_apply, if_pos hnothing]
  rfl

theorem finishReasoning_open (hindex : state.reasoningIndex = some index) (hopen : state.reasoningDone = false)
    (hitem : state.output[index]? = some (.reasoning id text)) :
    finishReasoning hex state =
      (.ok [.reasoningTextDone id index 0 state.reasoningText, .reasoningPartDone id index 0 state.reasoningText,
        .outputItemDone index (.reasoning id text)], { state with reasoningDone := true }) := by
  have hsomething : ¬(state.reasoningIndex.isNone ∨ state.reasoningDone) := by simp [hindex, hopen]
  simp only [finishReasoning, reasoningFinished, ensureReasoning, bind_apply, read_apply, branch_apply,
    if_neg hsomething]
  simp [hindex, hopen, itemAt_apply hitem, write_apply, pure_apply, OutputItem.id]

theorem reasoningDelta_new (htext : text ≠ "") (hindex : state.reasoningIndex = none) :
    ∃ id, reasoningDelta hex text state =
      (.ok [.outputItemAdded state.output.length (.reasoning id ""),
        .reasoningPartAdded id state.output.length 0 "", .reasoningTextDelta id state.output.length 0 text],
        { state with
          drawn := state.drawn + 1, reasoningIndex := some state.output.length
          reasoningText := state.reasoningText ++ text
          output := state.output ++ [.reasoning id (state.reasoningText ++ text)] }) := by
  refine ⟨s!"rs_{hex state.drawn}", ?_⟩
  have hadded : (state.output ++ [OutputItem.reasoning s!"rs_{hex state.drawn}" ""])[state.output.length]? =
      some (.reasoning s!"rs_{hex state.drawn}" "") := by simp
  simp only [reasoningDelta, ensureReasoning, bind_apply, read_apply, branch_apply, if_neg htext, hindex,
    Option.isSome_none, Bool.false_eq_true, if_false, write_apply, pure_apply]
  rw [itemAt_apply hadded]
  simp [OutputItem.id, OutputItem.setText]

theorem reasoningDelta_old (htext : text ≠ "") (hindex : state.reasoningIndex = some index) {old : String}
    (hitem : state.output[index]? = some (.reasoning id old)) :
    reasoningDelta hex text state = (.ok [.reasoningTextDelta id index 0 text],
      { state with
        reasoningText := state.reasoningText ++ text
        output := state.output.set index (.reasoning id (state.reasoningText ++ text)) }) := by
  simp only [reasoningDelta, ensureReasoning, bind_apply, read_apply, branch_apply, if_neg htext, hindex,
    Option.isSome_some, if_true, pure_apply, itemAt_apply hitem]
  simp [write_apply, hindex, OutputItem.id, OutputItem.setText]

theorem messageDelta_new (htext : text ≠ "") (hindex : state.messageIndex = none) :
    ∃ id, messageDelta hex text state =
      (.ok [.outputItemAdded state.output.length (.message id "in_progress" []),
        .contentPartAdded id state.output.length 0 "", .outputTextDelta id state.output.length 0 text],
        { state with
          drawn := state.drawn + 1, messageIndex := some state.output.length
          messageText := state.messageText ++ text
          output := state.output ++ [.message id "in_progress" [state.messageText ++ text]] }) := by
  refine ⟨s!"msg_{hex state.drawn}", ?_⟩
  have hadded : (state.output ++ [OutputItem.message s!"msg_{hex state.drawn}" "in_progress" [""]])[
      state.output.length]? = some (.message s!"msg_{hex state.drawn}" "in_progress" [""]) := by simp
  simp only [messageDelta, ensureMessage, bind_apply, read_apply, branch_apply, if_neg htext, hindex,
    Option.isSome_none, Bool.false_eq_true, if_false, write_apply, pure_apply]
  rw [itemAt_apply hadded]
  simp [OutputItem.id, OutputItem.setText]

theorem messageDelta_old (htext : text ≠ "") (hindex : state.messageIndex = some index) {old status : String}
    (hitem : state.output[index]? = some (.message id status [old])) :
    messageDelta hex text state = (.ok [.outputTextDelta id index 0 text],
      { state with
        messageText := state.messageText ++ text
        output := state.output.set index (.message id status [state.messageText ++ text]) }) := by
  simp only [messageDelta, ensureMessage, bind_apply, read_apply, branch_apply, if_neg htext, hindex,
    Option.isSome_some, if_true, pure_apply, itemAt_apply hitem]
  simp [write_apply, hindex, OutputItem.id, OutputItem.setText]

theorem functionCallStarted_apply {name : String} (hname : name ≠ "") (hnone : state.functionIndex = none) :
    ∃ id callId, functionCallStarted hex name state =
      (.ok [.outputItemAdded state.output.length (.functionCall id callId name "" "in_progress")],
        { state with
          drawn := state.drawn + 2, functionIndex := some state.output.length, functionArguments := ""
          output := state.output ++ [.functionCall id callId name "" "in_progress"] }) := by
  refine ⟨s!"fc_{hex state.drawn}", s!"call_{hex (state.drawn + 1)}", ?_⟩
  simp only [functionCallStarted, bind_apply, raiseIf_apply, if_neg hname, read_apply, hnone, Option.isSome_none,
    Bool.false_eq_true, if_false, write_apply, pure_apply]

theorem functionCallArgumentsDelta_apply {arguments callId name old status : String}
    (hindex : state.functionIndex = some index)
    (hitem : state.output[index]? = some (.functionCall id callId name old status))
    (hold : state.functionArguments = "") (hnew : old = "") :
    functionCallArgumentsDelta arguments state =
      (.ok (if arguments = "" then [] else [.functionCallArgumentsDelta id index arguments]),
        { state with
          functionArguments := arguments
          output := state.output.set index (.functionCall id callId name arguments status) }) := by
  obtain ⟨hbound, hget⟩ := List.getElem?_eq_some_iff.mp hitem
  simp only [functionCallArgumentsDelta, bind_apply, read_apply, raiseIf_apply, hindex, Option.isNone_some,
    Bool.false_eq_true, if_false, branch_apply]
  by_cases hempty : arguments = ""
  · -- nothing to add: the item has the empty arguments already
    subst hempty hnew
    simp only [if_true, pure_apply, ← hget, List.set_getElem_self]
    rw [← hold, ← hindex]
  · simp only [if_neg hempty, itemAt_apply hitem, write_apply, pure_apply, hold, OutputItem.id,
      OutputItem.setText, String.empty_append, hindex]

theorem functionCallDone_apply {arguments callId name status : String} (hindex : state.functionIndex = some index)
    (hitem : state.output[index]? = some (.functionCall id callId name arguments status)) :
    functionCallDone state =
      (.ok [.functionCallArgumentsDone id index state.functionArguments,
        .outputItemDone index (.functionCall id callId name arguments "completed")],
        { state with
          output := state.output.set index (.functionCall id callId name arguments "completed")
          functionIndex := none, functionArguments := "" }) := by
  simp only [functionCallDone, bind_apply, read_apply, raiseIf_apply, hindex, Option.isNone_some,
    Bool.false_eq_true, if_false, itemAt_apply hitem, write_apply, pure_apply, OutputItem.id, OutputItem.complete]

/-- The events of a whole tool call. -/
def callEvents (index : ℕ) (id callId : String) (function : ToolFunction) : List StreamEvent :=
  [.outputItemAdded index (.functionCall id callId function.name "" "in_progress")] ++
    (if function.arguments = "" then [] else [.functionCallArgumentsDelta id index function.arguments]) ++
    [.functionCallArgumentsDone id index function.arguments,
      .outputItemDone index (.functionCall id callId function.name function.arguments "completed")]

theorem toolCall_apply {function : ToolFunction} (hname : function.name ≠ "") (hnone : state.functionIndex = none) :
    ∃ id callId started arguments done first second third,
      functionCallStarted hex function.name state = (.ok started, first) ∧
      functionCallArgumentsDelta function.arguments first = (.ok arguments, second) ∧
      functionCallDone second = (.ok done, third) ∧
      started ++ arguments ++ done = callEvents state.output.length id callId function ∧
      third = { state with
        drawn := state.drawn + 2, functionIndex := none, functionArguments := ""
        output := state.output ++ [.functionCall id callId function.name function.arguments "completed"] } := by
  obtain ⟨id, callId, hstarted⟩ := @functionCallStarted_apply hex state function.name hname hnone
  have hadded : (state.output ++ [OutputItem.functionCall id callId function.name "" "in_progress"])[
      state.output.length]? = some (.functionCall id callId function.name "" "in_progress") := by simp
  have harguments := @functionCallArgumentsDelta_apply { state with
    drawn := state.drawn + 2, functionIndex := some state.output.length, functionArguments := ""
    output := state.output ++ [OutputItem.functionCall id callId function.name "" "in_progress"] }
    state.output.length id function.arguments callId function.name "" "in_progress" rfl hadded rfl rfl
  have hset : ((state.output ++ [OutputItem.functionCall id callId function.name "" "in_progress"]).set
      state.output.length (.functionCall id callId function.name function.arguments "in_progress"))[
        state.output.length]? = some (.functionCall id callId function.name function.arguments "in_progress") := by
    simp
  have hdone := @functionCallDone_apply { state with
    drawn := state.drawn + 2, functionIndex := some state.output.length, functionArguments := function.arguments
    output := (state.output ++ [OutputItem.functionCall id callId function.name "" "in_progress"]).set
      state.output.length (.functionCall id callId function.name function.arguments "in_progress") }
    state.output.length id function.arguments callId function.name "in_progress" rfl hset
  refine ⟨id, callId, _, _, _, _, _, _, hstarted, harguments, hdone, rfl, ?_⟩
  simp

end ResponseStreamState

end Responses
