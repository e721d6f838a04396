import SparseEngine.Lib.Routine
import Mathlib.Data.List.Basic

/-!
# Responses, whole and streamed

`serving/responses.py`: the output items of `/v1/responses`.  Without
streaming they are built from the parsed model response
(`responseOutputItems`).  With streaming a `_ResponseStreamState` grows and
closes them delta by delta and emits an event for each change.

An item that the state refers to (`_message_item` and its kin) is the object
in `output` at the index kept beside it, so here the index alone refers to it.
An event holds the item as it was when the event was written.  Its rendering
as text is left out.  `hex` gives the hexadecimal form of the identifiers
drawn, in the order in which they are drawn.
-/

namespace Responses

/-- `tool_call["function"]`. -/
structure ToolFunction where
  name : String
  arguments : String
  deriving DecidableEq

/-- `ParsedModelResponse`. -/
structure ParsedModelResponse where
  reasoningContent : Option String
  content : String
  toolCalls : List ToolFunction

/-- A delta of the stream parser. -/
structure ParserDelta where
  reasoningContent : Option String
  content : Option String
  toolCalls : List ToolFunction

/-- An output item.  The content of a message is the list of the texts of its
`output_text` parts. -/
inductive OutputItem where
  | reasoning (id text : String)
  | message (id status : String) (content : List String)
  | functionCall (id callId name arguments status : String)
  deriving DecidableEq

/-- An event of the stream. -/
inductive StreamEvent where
  | outputItemAdded (outputIndex : ℕ) (item : OutputItem)
  | outputItemDone (outputIndex : ℕ) (item : OutputItem)
  | contentPartAdded (itemId : String) (outputIndex contentIndex : ℕ) (text : String)
  | contentPartDone (itemId : String) (outputIndex contentIndex : ℕ) (text : String)
  | reasoningPartAdded (itemId : String) (outputIndex contentIndex : ℕ) (text : String)
  | reasoningPartDone (itemId : String) (outputIndex contentIndex : ℕ) (text : String)
  | outputTextDelta (itemId : String) (outputIndex contentIndex : ℕ) (delta : String)
  | outputTextDone (itemId : String) (outputIndex contentIndex : ℕ) (text : String)
  | reasoningTextDelta (itemId : String) (outputIndex contentIndex : ℕ) (delta : String)
  | reasoningTextDone (itemId : String) (outputIndex contentIndex : ℕ) (text : String)
  | functionCallArgumentsDelta (itemId : String) (outputIndex : ℕ) (delta : String)
  | functionCallArgumentsDone (itemId : String) (outputIndex : ℕ) (arguments : String)
  deriving DecidableEq

/-! ## Without streaming -/

/-- `_message_output_item`. -/
def messageOutputItem (hex text : String) : OutputItem := .message s!"msg_{hex}" "completed" [text]

/-- `_response_output_items`. -/
def responseOutputItems (hex : ℕ → String) (parsed : ParsedModelResponse) : List OutputItem :=
  let output := match parsed.reasoningContent with
    | some text => [.reasoning s!"rs_{hex 0}" text]
    | none => []
  let drawn := output.length
  if parsed.toolCalls ≠ [] then
    output ++ parsed.toolCalls.zipIdx.map fun (function, index) =>
      .functionCall s!"fc_{hex (drawn + 2 * index)}" s!"call_{hex (drawn + 2 * index + 1)}" function.name
        function.arguments "completed"
  else if parsed.content ≠ "" ∨ parsed.reasoningContent = none then
    output ++ [messageOutputItem (hex drawn) parsed.content]
  else output

/-! ## Streaming -/

/-- The fields of `_ResponseStreamState` that the items and events depend on. -/
structure ResponseStreamState where
  /-- How many identifiers have been drawn. -/
  drawn : ℕ := 0
  output : List OutputItem := []
  messageIndex : Option ℕ := none
  messageText : String := ""
  messageDone : Bool := false
  reasoningIndex : Option ℕ := none
  reasoningText : String := ""
  reasoningDone : Bool := false
  functionIndex : Option ℕ := none
  functionArguments : String := ""

/-- `item["id"]`. -/
def OutputItem.id : OutputItem → String
  | .reasoning id _ => id
  | .message id _ _ => id
  | .functionCall id _ _ _ _ => id

/-- `item["text"] = text`, `item["content"][0]["text"] = text` or
`item["arguments"] = text`. -/
def OutputItem.setText (text : String) : OutputItem → OutputItem
  | .reasoning id _ => .reasoning id text
  | .message id status content => .message id status (content.set 0 text)
  | .functionCall id callId name _ status => .functionCall id callId name text status

/-- `item["status"] = "completed"`. -/
def OutputItem.complete : OutputItem → OutputItem
  | .reasoning id text => .reasoning id text
  | .message id _ content => .message id "completed" content
  | .functionCall id callId name arguments _ => .functionCall id callId name arguments "completed"

namespace ResponseStreamState

open Routine

variable (hex : ℕ → String)

/-- The item that an index of the state refers to. -/
def itemAt (index : Option ℕ) : Routine ResponseStreamState (ℕ × OutputItem) := do
  let state ← read
  match index.bind fun index => (state.output[index]?).map fun item => (index, item) with
  | some found => pure found
  | none => raise (.defined "AssertionError" "" none)

/-- `_ensure_message`. -/
def ensureMessage : Routine ResponseStreamState (List StreamEvent) := do
  let state ← read
  if state.messageIndex.isSome then return []
  let index := state.output.length
  let id := s!"msg_{hex state.drawn}"
  write fun state => { state with
    drawn := state.drawn + 1, messageIndex := some index
    output := state.output ++ [.message id "in_progress" [""]] }
  return [.outputItemAdded index (.message id "in_progress" []), .contentPartAdded id index 0 ""]

/-- `_finish_message`. -/
def finishMessage : Routine ResponseStreamState (List StreamEvent) := do
  let state ← read
  if state.messageIndex.isNone ∨ state.messageDone then return []
  let (index, item) ← itemAt state.messageIndex
  write fun state => { state with output := state.output.set index item.complete, messageDone := true }
  let part := match item with
    | .message _ _ (text :: _) => text
    | _ => ""
  return [.outputTextDone item.id index 0 state.messageText, .contentPartDone item.id index 0 part,
    .outputItemDone index item.complete]

/-- `_ensure_reasoning`. -/
def ensureReasoning : Routine ResponseStreamState (List StreamEvent) := do
  let state ← read
  if state.reasoningIndex.isSome then return []
  let index := state.output.length
  let id := s!"rs_{hex state.drawn}"
  write fun state => { state with
    drawn := state.drawn + 1, reasoningIndex := some index, output := state.output ++ [.reasoning id ""] }
  return [.outputItemAdded index (.reasoning id ""), .reasoningPartAdded id index 0 ""]

/-- `message_delta`. -/
def messageDelta (text : String) : Routine ResponseStreamState (List StreamEvent) := do
  if text = "" then return []
  let frames ← ensureMessage hex
  let state ← read
  let (index, item) ← itemAt state.messageIndex
  write fun state => { state with
    messageText := state.messageText ++ text
    output := state.output.set index (item.setText (state.messageText ++ text)) }
  return frames ++ [.outputTextDelta item.id index 0 text]

/-- `reasoning_delta`. -/
def reasoningDelta (text : String) : Routine ResponseStreamState (List StreamEvent) := do
  if text = "" then return []
  let frames ← ensureReasoning hex
  let state ← read
  let (index, item) ← itemAt state.reasoningIndex
  write fun state => { state with
    reasoningText := state.reasoningText ++ text
    output := state.output.set index (item.setText (state.reasoningText ++ text)) }
  return frames ++ [.reasoningTextDelta item.id index 0 text]

/-- `reasoning_done`. -/
def reasoningFinished : Routine ResponseStreamState (List StreamEvent) := do
  let frames ← ensureReasoning hex
  let state ← read
  if state.reasoningDone then return frames
  let (index, item) ← itemAt state.reasoningIndex
  write fun state => { state with reasoningDone := true }
  return frames ++ [.reasoningTextDone item.id index 0 state.reasoningText,
    .reasoningPartDone item.id index 0 state.reasoningText, .outputItemDone index item]

/-- `finish_reasoning`. -/
def finishReasoning : Routine ResponseStreamState (List StreamEvent) := do
  let state ← read
  if state.reasoningIndex.isNone ∨ state.reasoningDone then return []
  reasoningFinished hex

/-- `function_call_started`. -/
def functionCallStarted (name : String) : Routine ResponseStreamState (List StreamEvent) := do
  raiseIf (name = "") (.defined "ResponseParseError" "tool call stream event missing function name." none)
  let state ← read
  raiseIf state.functionIndex.isSome
    (.defined "ResponseParseError" "new tool call started before previous tool call finished." none)
  let index := state.output.length
  let item := OutputItem.functionCall s!"fc_{hex state.drawn}" s!"call_{hex (state.drawn + 1)}" name ""
    "in_progress"
  write fun state => { state with
    drawn := state.drawn + 2, functionIndex := some index, functionArguments := ""
    output := state.output ++ [item] }
  return [.outputItemAdded index item]

/-- `function_call_arguments_delta`. -/
def functionCallArgumentsDelta (argumentsDelta : String) : Routine ResponseStreamState (List StreamEvent) := do
  let state ← read
  raiseIf state.functionIndex.isNone
    (.defined "ResponseParseError" "tool call arguments arrived before tool call item." none)
  if argumentsDelta = "" then return []
  let (index, item) ← itemAt state.functionIndex
  write fun state => { state with
    functionArguments := state.functionArguments ++ argumentsDelta
    output := state.output.set index (item.setText (state.functionArguments ++ argumentsDelta)) }
  return [.functionCallArgumentsDelta item.id index argumentsDelta]

/-- `function_call_done`. -/
def functionCallDone : Routine ResponseStreamState (List StreamEvent) := do
  let state ← read
  raiseIf state.functionIndex.isNone
    (.defined "ResponseParseError" "tool call done arrived before tool call item." none)
  let (index, item) ← itemAt state.functionIndex
  write fun state => { state with
    output := state.output.set index item.complete, functionIndex := none, functionArguments := "" }
  return [.functionCallArgumentsDone item.id index state.functionArguments, .outputItemDone index item.complete]

/-- `finish_open_items`. -/
def finishOpenItems : Routine ResponseStreamState (List StreamEvent) := do
  let message ← finishMessage
  let state ← read
  let reasoning ← if state.reasoningIndex.isSome ∧ ¬state.reasoningDone then reasoningFinished hex else pure []
  let state ← read
  let function ← if state.functionIndex.isSome then functionCallDone else pure []
  let state ← read
  let empty ← if state.output = [] then do
      let added ← ensureMessage hex
      let done ← finishMessage
      pure (added ++ done)
    else pure []
  return message ++ reasoning ++ function ++ empty

/-- The tool calls of a delta. -/
def toolCallFrames : List ToolFunction → Routine ResponseStreamState (List StreamEvent)
  | [] => pure []
  | function :: rest => do
      let finished ← finishReasoning hex
      let started ← functionCallStarted hex function.name
      let arguments ← functionCallArgumentsDelta function.arguments
      let done ← functionCallDone
      let more ← toolCallFrames rest
      pure (finished ++ started ++ arguments ++ done ++ more)

/-- The frames of one delta. -/
def deltaFrames (delta : ParserDelta) : Routine ResponseStreamState (List StreamEvent) := do
  let reasoning ← match delta.reasoningContent with
    | none => pure []
    | some text => if text = "" then pure [] else reasoningDelta hex text
  let content ← match delta.content with
    | none => pure []
    | some text => if text = "" then pure [] else do
        let finished ← finishReasoning hex
        let frames ← messageDelta hex text
        pure (finished ++ frames)
  let tools ← toolCallFrames hex delta.toolCalls
  pure (reasoning ++ content ++ tools)

/-- `_response_stream_deltas`. -/
def responseStreamDeltas : List ParserDelta → Routine ResponseStreamState (List StreamEvent)
  | [] => pure []
  | delta :: rest => do
      let frames ← deltaFrames hex delta
      let more ← responseStreamDeltas rest
      pure (frames ++ more)

/-- Every delta, then `finish_open_items`: the items and events between
`response.created` and `response.completed`. -/
def streamItems (deltas : List ParserDelta) : Routine ResponseStreamState (List StreamEvent) := do
  let frames ← responseStreamDeltas hex deltas
  let closing ← finishOpenItems hex
  pure (frames ++ closing)

end ResponseStreamState

end Responses
