import SparseEngine.Responses.Finishing

/-!
# The items of the two modes

The items that are streamed are a function of the pieces (`BareItem.absorb`),
and so is the order in which they are opened.  The whole response drops its
content when there are tool calls and has a reasoning item for an empty
reasoning text (`wholeItems`).  The stream does neither.
-/

namespace Responses

/-- The text of a reasoning piece. -/
def StreamPiece.reasoningText : StreamPiece → Option String
  | .reasoning text => some text
  | _ => none

/-- The text of a content piece. -/
def StreamPiece.contentText : StreamPiece → Option String
  | .content text => some text
  | _ => none

/-- The function of a tool call. -/
def StreamPiece.function : StreamPiece → Option ToolFunction
  | .toolCall function => some function
  | _ => none

/-- The pieces of a list of deltas. -/
def piecesOf (deltas : List ParserDelta) : List StreamPiece := deltas.flatMap ParserDelta.pieces

/-- The deltas concatenate to the response. -/
structure Concatenates (deltas : List ParserDelta) (parsed : ParsedModelResponse) : Prop where
  reasoning : String.join (deltas.map fun delta => delta.reasoningContent.getD "") =
    parsed.reasoningContent.getD ""
  content : String.join (deltas.map fun delta => delta.content.getD "") = parsed.content
  toolCalls : deltas.flatMap ParserDelta.toolCalls = parsed.toolCalls

/-- The pieces concatenate to the response. -/
structure PiecesConcatenate (pieces : List StreamPiece) (parsed : ParsedModelResponse) : Prop where
  reasoning : String.join (pieces.filterMap StreamPiece.reasoningText) = parsed.reasoningContent.getD ""
  content : String.join (pieces.filterMap StreamPiece.contentText) = parsed.content
  toolCalls : pieces.filterMap StreamPiece.function = parsed.toolCalls

/-- **The streamed response is the whole one.** Its items are the same but for
their identifiers, and each is streamed from its first event to its last. -/
def StreamAgrees (hex hex' : ℕ → String) (parsed : ParsedModelResponse) (deltas : List ParserDelta) : Prop :=
  ∃ frames final, ResponseStreamState.streamItems hex deltas {} = (.ok frames, final) ∧
    final.output.map OutputItem.withoutIds = (responseOutputItems hex' parsed).map OutputItem.withoutIds ∧
    ResponseStreamState.Streamed final frames

/-! ## The items of the whole response -/

/-- The items of the whole response. -/
def wholeItems (parsed : ParsedModelResponse) : List BareItem :=
  (match parsed.reasoningContent with
    | some text => [.reasoning text]
    | none => []) ++
  if parsed.toolCalls ≠ [] then parsed.toolCalls.map fun function => .functionCall function.name function.arguments
  else if parsed.content ≠ "" ∨ parsed.reasoningContent = none then [.message parsed.content]
  else []

theorem responseOutputItems_withoutIds (hex : ℕ → String) (parsed : ParsedModelResponse) :
    (responseOutputItems hex parsed).map OutputItem.withoutIds = (wholeItems parsed).map BareItem.item := by
  have hcalls : ∀ named : ToolFunction × ℕ → OutputItem, (∀ entry, (named entry).withoutIds =
        OutputItem.functionCall "" "" entry.1.name entry.1.arguments "completed") →
      (parsed.toolCalls.zipIdx.map named).map OutputItem.withoutIds =
        (parsed.toolCalls.map fun function => BareItem.functionCall function.name function.arguments).map
          BareItem.item := by
    intro named hnamed
    rw [List.map_map, List.map_map]
    calc _ = parsed.toolCalls.zipIdx.map ((fun function => OutputItem.functionCall "" "" function.name
          function.arguments "completed") ∘ Prod.fst) := List.map_congr_left fun entry _ => hnamed entry
      _ = _ := by rw [← List.map_map, List.zipIdx_map_fst]; rfl
  unfold responseOutputItems wholeItems
  rcases parsed.reasoningContent with _ | text <;> dsimp only <;> rw [List.map_append]
  all_goals
    split_ifs
    · rw [List.map_append, hcalls _ fun _ => rfl]
      rfl
    · simp [messageOutputItem, OutputItem.withoutIds, BareItem.item]
    · simp [OutputItem.withoutIds, BareItem.item]

/-! ## The items of the pieces -/

namespace BareItem

theorem isReasoning_grow (text : String) (item : BareItem) : (item.grow text).isReasoning = item.isReasoning := by
  cases item <;> rfl

theorem isMessage_grow (text : String) (item : BareItem) : (item.grow text).isMessage = item.isMessage := by
  cases item <;> rfl

/-- Growing items keeps what kinds they are. -/
theorem any_grow {kind : BareItem → Bool} {text : String} (hkind : ∀ item, kind (item.grow text) = kind item)
    (test : BareItem → Bool) (items : List BareItem) :
    (items.map fun item => if test item then item.grow text else item).any kind = items.any kind := by
  induction items with
  | nil => rfl
  | cons item rest ih =>
      rw [List.map_cons, List.any_cons, List.any_cons, ih]
      split_ifs
      · rw [hkind]
      · rfl

theorem any_isReasoning_absorb (items : List BareItem) (piece : StreamPiece) :
    (absorb items piece).any isReasoning = (items.any isReasoning || piece.reasoningText.isSome) := by
  cases piece with
  | reasoning text =>
      by_cases hany : items.any isReasoning
      · rw [absorb, if_pos hany, any_grow (isReasoning_grow text), hany]
        rfl
      · rw [absorb, if_neg hany]
        simp [StreamPiece.reasoningText, isReasoning]
  | content text =>
      by_cases hany : items.any isMessage
      · rw [absorb, if_pos hany, any_grow (isReasoning_grow text)]
        simp [StreamPiece.reasoningText]
      · rw [absorb, if_neg hany]
        simp [StreamPiece.reasoningText, isReasoning]
  | toolCall function => simp [absorb, StreamPiece.reasoningText, isReasoning]

theorem any_isMessage_absorb (items : List BareItem) (piece : StreamPiece) :
    (absorb items piece).any isMessage = (items.any isMessage || piece.contentText.isSome) := by
  cases piece with
  | content text =>
      by_cases hany : items.any isMessage
      · rw [absorb, if_pos hany, any_grow (isMessage_grow text), hany]
        rfl
      · rw [absorb, if_neg hany]
        simp [StreamPiece.contentText, isMessage]
  | reasoning text =>
      by_cases hany : items.any isReasoning
      · rw [absorb, if_pos hany, any_grow (isMessage_grow text)]
        simp [StreamPiece.contentText]
      · rw [absorb, if_neg hany]
        simp [StreamPiece.contentText, isMessage]
  | toolCall function => simp [absorb, StreamPiece.contentText, isMessage]

theorem any_isReasoning_foldl (pieces : List StreamPiece) (items : List BareItem) :
    (pieces.foldl absorb items).any isReasoning =
      (items.any isReasoning || pieces.any fun piece => piece.reasoningText.isSome) := by
  induction pieces generalizing items with
  | nil => simp
  | cons piece rest ih => rw [List.foldl_cons, ih, any_isReasoning_absorb, List.any_cons, Bool.or_assoc]

theorem any_isMessage_foldl (pieces : List StreamPiece) (items : List BareItem) :
    (pieces.foldl absorb items).any isMessage =
      (items.any isMessage || pieces.any fun piece => piece.contentText.isSome) := by
  induction pieces generalizing items with
  | nil => simp
  | cons piece rest ih => rw [List.foldl_cons, ih, any_isMessage_absorb, List.any_cons, Bool.or_assoc]

/-- The first item stays of its kind. -/
theorem head_absorb (first : BareItem) (rest : List BareItem) (piece : StreamPiece) :
    ∃ first' rest', absorb (first :: rest) piece = first' :: rest' ∧ first'.isReasoning = first.isReasoning := by
  have hgrow : ∀ (text : String) (test : BareItem → Bool),
      (if test first then first.grow text else first).isReasoning = first.isReasoning := by
    intro text test
    split_ifs
    · exact isReasoning_grow text first
    · rfl
  cases piece with
  | reasoning text =>
      rw [absorb]
      split_ifs
      · exact ⟨_, _, rfl, hgrow text isReasoning⟩
      · exact ⟨first, _, rfl, rfl⟩
  | content text =>
      rw [absorb]
      split_ifs
      · exact ⟨_, _, rfl, hgrow text isMessage⟩
      · exact ⟨first, _, rfl, rfl⟩
  | toolCall function => exact ⟨first, _, rfl, rfl⟩

theorem head_foldl (pieces : List StreamPiece) (first : BareItem) (rest : List BareItem) :
    ∃ first' rest', pieces.foldl absorb (first :: rest) = first' :: rest' ∧
      first'.isReasoning = first.isReasoning := by
  induction pieces generalizing first rest with
  | nil => exact ⟨first, rest, rfl, rfl⟩
  | cons piece more ih =>
      obtain ⟨middle, items, heq, hmiddle⟩ := head_absorb first rest piece
      obtain ⟨last, items', heq', hlast⟩ := ih middle items
      exact ⟨last, items', by rw [List.foldl_cons, heq, heq'], hlast.trans hmiddle⟩

theorem foldl_reasoning (texts : List String) (text : String) :
    (texts.map StreamPiece.reasoning).foldl absorb [.reasoning text] = [.reasoning (text ++ String.join texts)] := by
  induction texts generalizing text with
  | nil => simp
  | cons first rest ih =>
      have habsorb : absorb [.reasoning text] (.reasoning first) = [.reasoning (text ++ first)] := rfl
      rw [List.map_cons, List.foldl_cons, habsorb, ih, String.join_cons, String.append_assoc]

theorem foldl_content {before : List BareItem} (hnone : before.any isMessage = false) (texts : List String)
    (text : String) :
    (texts.map StreamPiece.content).foldl absorb (before ++ [.message text]) =
      before ++ [.message (text ++ String.join texts)] := by
  induction texts generalizing text with
  | nil => simp
  | cons first rest ih =>
      have hbefore : (before.map fun item => if item.isMessage then item.grow first else item) = before := by
        rw [List.map_congr_left (g := id) fun item hitem => ?_, List.map_id]
        rw [if_neg (by simpa using List.any_eq_false.mp hnone item hitem), id]
      have habsorb : absorb (before ++ [.message text]) (.content first) = before ++ [.message (text ++ first)] := by
        rw [absorb, if_pos (by simp [isMessage]), List.map_append, hbefore]
        rfl
      rw [List.map_cons, List.foldl_cons, habsorb, ih, String.join_cons, String.append_assoc]

theorem foldl_toolCalls (functions : List ToolFunction) (before : List BareItem) :
    (functions.map StreamPiece.toolCall).foldl absorb before =
      before ++ functions.map fun function => .functionCall function.name function.arguments := by
  induction functions generalizing before with
  | nil => simp
  | cons function rest ih => simp [absorb, ih]

end BareItem

end Responses
