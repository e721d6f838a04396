import SparseEngine.Responses.Modes

/-!
# When the two modes agree

`streaming_agrees_iff`: the stream of any deltas is the response that they
concatenate to exactly if the reasoning is not an empty text, there are not
both content and tool calls, and no reasoning text follows a content text or a
tool call.  A response without reasoning, content and tool calls is an empty
message in either mode.
-/

namespace Responses

open Routine

variable {hex : ℕ → String} {parsed : ParsedModelResponse} {deltas : List ParserDelta} {pieces : List StreamPiece}

/-! ## The pieces of the deltas -/

theorem ParserDelta.join_reasoning (delta : ParserDelta) :
    String.join (delta.pieces.filterMap StreamPiece.reasoningText) = delta.reasoningContent.getD "" := by
  obtain ⟨reasoning, content, toolCalls⟩ := delta
  have htools : (toolCalls.map StreamPiece.toolCall).filterMap StreamPiece.reasoningText = [] := by
    simp [StreamPiece.reasoningText]
  rcases reasoning with _ | text <;> rcases content with _ | other
  all_goals
    simp only [ParserDelta.pieces, List.filterMap_append, htools]
    try split_ifs
    all_goals simp_all [StreamPiece.reasoningText, List.filterMap_cons]

theorem ParserDelta.join_content (delta : ParserDelta) :
    String.join (delta.pieces.filterMap StreamPiece.contentText) = delta.content.getD "" := by
  obtain ⟨reasoning, content, toolCalls⟩ := delta
  have htools : (toolCalls.map StreamPiece.toolCall).filterMap StreamPiece.contentText = [] := by
    simp [StreamPiece.contentText]
  rcases reasoning with _ | text <;> rcases content with _ | other
  all_goals
    simp only [ParserDelta.pieces, List.filterMap_append, htools]
    try split_ifs
    all_goals simp_all [StreamPiece.contentText, List.filterMap_cons]

theorem ParserDelta.functions (delta : ParserDelta) :
    delta.pieces.filterMap StreamPiece.function = delta.toolCalls := by
  obtain ⟨reasoning, content, toolCalls⟩ := delta
  have htools : (toolCalls.map StreamPiece.toolCall).filterMap StreamPiece.function = toolCalls := by
    rw [List.filterMap_map]
    exact List.filterMap_some
  rcases reasoning with _ | text <;> rcases content with _ | other
  all_goals
    simp only [ParserDelta.pieces, List.filterMap_append, htools]
    try split_ifs
    all_goals simp [StreamPiece.function, List.filterMap_cons]

/-- Splitting the deltas into pieces loses nothing. -/
theorem Concatenates.to_pieces (h : Concatenates deltas parsed) : PiecesConcatenate (piecesOf deltas) parsed where
  reasoning := by
    rw [← h.reasoning]
    clear h
    induction deltas with
    | nil => rfl
    | cons delta rest ih =>
        rw [piecesOf] at ih ⊢
        rw [List.flatMap_cons, List.filterMap_append, String.join_append, ih, delta.join_reasoning, List.map_cons,
          String.join_cons]
  content := by
    rw [← h.content]
    clear h
    induction deltas with
    | nil => rfl
    | cons delta rest ih =>
        rw [piecesOf] at ih ⊢
        rw [List.flatMap_cons, List.filterMap_append, String.join_append, ih, delta.join_content, List.map_cons,
          String.join_cons]
  toolCalls := by
    rw [← h.toolCalls]
    clear h
    induction deltas with
    | nil => rfl
    | cons delta rest ih =>
        rw [piecesOf] at ih ⊢
        rw [List.flatMap_cons, List.filterMap_append, ih, delta.functions, List.flatMap_cons]

/-- The pieces of deltas are as the parser sends them if the tool calls have
names. -/
theorem Concatenates.valid (h : Concatenates deltas parsed)
    (hnamed : ∀ function ∈ parsed.toolCalls, function.name ≠ "") :
    ∀ piece ∈ piecesOf deltas, piece.Valid := by
  intro piece hpiece
  obtain ⟨delta, hdelta, hmem⟩ := List.mem_flatMap.mp hpiece
  cases piece with
  | toolCall function =>
      refine hnamed function ?_
      rw [← h.to_pieces.toolCalls]
      exact List.mem_filterMap.mpr ⟨_, hpiece, rfl⟩
  | reasoning text =>
      obtain ⟨reasoning, content, toolCalls⟩ := delta
      rcases reasoning with _ | text <;> rcases content with _ | other
      all_goals
        simp only [ParserDelta.pieces] at hmem
        try split_ifs at hmem
        all_goals simp_all [StreamPiece.Valid]
  | content text =>
      obtain ⟨reasoning, content, toolCalls⟩ := delta
      rcases reasoning with _ | text <;> rcases content with _ | other
      all_goals
        simp only [ParserDelta.pieces] at hmem
        try split_ifs at hmem
        all_goals simp_all [StreamPiece.Valid]

theorem join_eq_empty_iff (texts : List String) : String.join texts = "" ↔ ∀ text ∈ texts, text = "" := by
  induction texts with
  | nil => simp
  | cons text rest ih => rw [String.join_cons, String.append_eq_empty_iff, ih, List.forall_mem_cons]

/-- There is a reasoning piece exactly if the reasoning is not empty. -/
theorem PiecesConcatenate.no_reasoning_iff (h : PiecesConcatenate pieces parsed)
    (hvalid : ∀ piece ∈ pieces, piece.Valid) :
    (∀ text, .reasoning text ∉ pieces) ↔ parsed.reasoningContent.getD "" = "" := by
  rw [← h.reasoning, join_eq_empty_iff]
  constructor
  · intro hnone text htext
    obtain ⟨piece, hpiece, heq⟩ := List.mem_filterMap.mp htext
    cases piece with
    | reasoning other => exact absurd hpiece (hnone other)
    | content other => exact nomatch heq
    | toolCall function => exact nomatch heq
  · intro hempty text htext
    exact hvalid _ htext (hempty text (List.mem_filterMap.mpr ⟨_, htext, rfl⟩))

/-- There is a content piece exactly if the content is not empty. -/
theorem PiecesConcatenate.no_content_iff (h : PiecesConcatenate pieces parsed)
    (hvalid : ∀ piece ∈ pieces, piece.Valid) :
    (∀ text, .content text ∉ pieces) ↔ parsed.content = "" := by
  rw [← h.content, join_eq_empty_iff]
  constructor
  · intro hnone text htext
    obtain ⟨piece, hpiece, heq⟩ := List.mem_filterMap.mp htext
    cases piece with
    | content other => exact absurd hpiece (hnone other)
    | reasoning other => exact nomatch heq
    | toolCall function => exact nomatch heq
  · intro hempty text htext
    exact hvalid _ htext (hempty text (List.mem_filterMap.mpr ⟨_, htext, rfl⟩))

/-- There is a tool call among the pieces exactly if there is one in the
response. -/
theorem PiecesConcatenate.no_toolCall_iff (h : PiecesConcatenate pieces parsed) :
    (∀ function, .toolCall function ∉ pieces) ↔ parsed.toolCalls = [] := by
  rw [← h.toolCalls, List.filterMap_eq_nil_iff]
  constructor
  · intro hnone piece hpiece
    cases piece with
    | toolCall function => exact absurd hpiece (hnone function)
    | reasoning text => rfl
    | content text => rfl
  · intro hnone function hfunction
    exact nomatch hnone _ hfunction

/-! ## In order -/

/-- In order, the reasoning texts come first. -/
theorem PiecesInOrder.split (h : PiecesInOrder pieces) :
    ∃ (texts : List String) (rest : List StreamPiece),
      pieces = texts.map .reasoning ++ rest ∧ ∀ text, .reasoning text ∉ rest := by
  induction pieces with
  | nil => exact ⟨[], [], rfl, fun _ => List.not_mem_nil⟩
  | cons piece rest ih =>
      cases piece with
      | reasoning text =>
          obtain ⟨texts, more, rfl, hnone⟩ := ih h
          exact ⟨text :: texts, more, rfl, hnone⟩
      | content text => exact ⟨[], .content text :: rest, rfl, fun other => by simpa using h other⟩
      | toolCall function => exact ⟨[], .toolCall function :: rest, rfl, fun other => by simpa using h other⟩

/-- Pieces that are all content texts. -/
theorem exists_contents (hreasoning : ∀ text, .reasoning text ∉ pieces)
    (hcalls : ∀ function, .toolCall function ∉ pieces) :
    pieces = (pieces.filterMap StreamPiece.contentText).map .content := by
  induction pieces with
  | nil => rfl
  | cons piece rest ih =>
      have hrest := ih (fun text htext => hreasoning text (List.mem_cons_of_mem _ htext))
        fun function hfunction => hcalls function (List.mem_cons_of_mem _ hfunction)
      cases piece with
      | reasoning text => exact absurd List.mem_cons_self (hreasoning text)
      | content text => exact congrArg (.content text :: ·) hrest
      | toolCall function => exact absurd List.mem_cons_self (hcalls function)

/-- Pieces that are all tool calls. -/
theorem exists_functions (hreasoning : ∀ text, .reasoning text ∉ pieces) (hcontent : ∀ text, .content text ∉ pieces) :
    pieces = (pieces.filterMap StreamPiece.function).map .toolCall := by
  induction pieces with
  | nil => rfl
  | cons piece rest ih =>
      have hrest := ih (fun text htext => hreasoning text (List.mem_cons_of_mem _ htext))
        fun text htext => hcontent text (List.mem_cons_of_mem _ htext)
      cases piece with
      | reasoning text => exact absurd List.mem_cons_self (hreasoning text)
      | content text => exact absurd List.mem_cons_self (hcontent text)
      | toolCall function => exact congrArg (.toolCall function :: ·) hrest

/-- The reasoning item of a response. -/
def reasoningItems (parsed : ParsedModelResponse) : List BareItem :=
  match parsed.reasoningContent with
  | some text => [.reasoning text]
  | none => []

/-- The items of reasoning texts that come first. -/
theorem foldl_reasoning_first {texts : List String} {rest : List StreamPiece}
    (hpieces : pieces = texts.map .reasoning ++ rest)
    (hnone : ∀ text, .reasoning text ∉ rest) (h : PiecesConcatenate pieces parsed)
    (hvalid : ∀ piece ∈ pieces, piece.Valid) (hempty : parsed.reasoningContent ≠ some "") :
    (texts.map StreamPiece.reasoning).foldl BareItem.absorb [] = reasoningItems parsed := by
  have hrest : rest.filterMap StreamPiece.reasoningText = [] := by
    refine List.filterMap_eq_nil_iff.mpr fun piece hpiece => ?_
    cases piece with
    | reasoning text => exact absurd hpiece (hnone text)
    | content text => rfl
    | toolCall function => rfl
  have htexts : (texts.map StreamPiece.reasoning).filterMap StreamPiece.reasoningText = texts := by
    rw [List.filterMap_map]
    exact List.filterMap_some
  have hjoin : String.join texts = parsed.reasoningContent.getD "" := by
    rw [← h.reasoning, hpieces, List.filterMap_append, hrest, htexts, List.append_nil]
  unfold reasoningItems
  rcases texts with _ | ⟨text, texts⟩
  · rcases hreasoning : parsed.reasoningContent with _ | text
    · rfl
    · rw [hreasoning] at hjoin hempty
      exact absurd (congrArg some hjoin.symm) hempty
  · have htext : text ≠ "" := hvalid (.reasoning text) (by simp [hpieces])
    rcases hreasoning : parsed.reasoningContent with _ | whole
    · rw [hreasoning, String.join_cons] at hjoin
      exact absurd (String.append_eq_empty_iff.mp hjoin).1 htext
    · rw [hreasoning] at hjoin
      calc _ = (texts.map StreamPiece.reasoning).foldl BareItem.absorb [.reasoning text] := rfl
        _ = [.reasoning (String.join (text :: texts))] := by rw [BareItem.foldl_reasoning, String.join_cons]
        _ = [.reasoning whole] := by rw [hjoin, Option.getD_some]

/-- **In order, the items of the pieces are those of the whole response.** -/
theorem finished_eq_wholeItems (horder : PiecesInOrder pieces) (h : PiecesConcatenate pieces parsed)
    (hvalid : ∀ piece ∈ pieces, piece.Valid) (hempty : parsed.reasoningContent ≠ some "")
    (hone : parsed.toolCalls = [] ∨ parsed.content = "") :
    BareItem.finished (pieces.foldl BareItem.absorb []) = wholeItems parsed := by
  obtain ⟨texts, rest, hpieces, hnone⟩ := horder.split
  have hfirst := foldl_reasoning_first hpieces hnone h hvalid hempty
  have hkeep : ∀ piece ∈ rest, piece ∈ pieces := fun piece hpiece => hpieces ▸ List.mem_append_right _ hpiece
  have hfold : pieces.foldl BareItem.absorb [] = rest.foldl BareItem.absorb (reasoningItems parsed) := by
    rw [hpieces, List.foldl_append, hfirst]
  have hmessage : (reasoningItems parsed).any BareItem.isMessage = false := by
    unfold reasoningItems
    rcases parsed.reasoningContent with _ | text <;> rfl
  by_cases hcalls : parsed.toolCalls = []
  · -- no tool calls: what follows the reasoning is one message
    have hrest := exists_contents hnone fun function hfunction =>
      h.no_toolCall_iff.mpr hcalls function (hkeep _ hfunction)
    have hjoin : String.join (rest.filterMap StreamPiece.contentText) = parsed.content := by
      rw [← h.content, hpieces, List.filterMap_append, List.filterMap_map]
      simp [Function.comp_def, StreamPiece.contentText]
    rw [hfold, hrest]
    rcases hcontents : rest.filterMap StreamPiece.contentText with _ | ⟨text, contents⟩
    · have hnothing : parsed.content = "" := by rw [← hjoin, hcontents]; rfl
      unfold wholeItems reasoningItems
      rcases parsed.reasoningContent with _ | reasoning <;> simp [BareItem.finished, hcalls, hnothing]
    · have htext : text ≠ "" := by
        refine hvalid (.content text) (hkeep _ ?_)
        rw [hrest, hcontents]
        exact List.mem_map_of_mem List.mem_cons_self
      have hsome : parsed.content ≠ "" := by
        rw [← hjoin, hcontents, String.join_cons]
        exact fun hboth => htext (String.append_eq_empty_iff.mp hboth).1
      have habsorb : BareItem.absorb (reasoningItems parsed) (.content text) =
          reasoningItems parsed ++ [.message text] := by
        rw [BareItem.absorb, if_neg (by simp [hmessage])]
      rw [List.map_cons, List.foldl_cons, habsorb, BareItem.foldl_content hmessage, ← String.join_cons, ← hcontents,
        hjoin, BareItem.finished, if_neg (by simp), wholeItems, if_neg (by simp [hcalls]), if_pos (Or.inl hsome)]
      rfl
  · have hcontent := hone.resolve_left hcalls
    -- tool calls without content: one item for each
    have hrest := exists_functions hnone fun text htext =>
      (h.no_content_iff hvalid).mpr hcontent text (hkeep _ htext)
    have hfunctions : rest.filterMap StreamPiece.function = parsed.toolCalls := by
      rw [← h.toolCalls, hpieces, List.filterMap_append, List.filterMap_map]
      simp [Function.comp_def, StreamPiece.function]
    rw [hfold, hrest, hfunctions, BareItem.foldl_toolCalls, BareItem.finished, if_neg (by simp [hcalls]), wholeItems,
      if_pos hcalls]
    rfl

/-! ## Out of order -/

namespace ResponseStreamState

variable {state next : ResponseStreamState} {events : List StreamEvent}

/-- A reasoning text that resumes spoils the reasoning item. -/
theorem runPieces_resumed (hex : ℕ → String) (h : Tracks state events)
    (hvalid : ∀ piece ∈ pieces, piece.Valid) {index : ℕ} (hindex : state.reasoningIndex = some index)
    (horder : ¬PiecesInOrder pieces) {frames : List StreamEvent}
    (hrun : runPieces hex pieces state = (.ok frames, next)) :
    ∃ index, next.reasoningIndex = some index ∧ ∀ more item, ¬ItemStreamed (events ++ frames ++ more) index item := by
  induction pieces generalizing state events frames with
  | nil => exact absurd trivial horder
  | cons piece rest ih =>
      have hvalidRest : ∀ other ∈ rest, other.Valid :=
        fun other hother => hvalid other (List.mem_cons_of_mem _ hother)
      obtain ⟨first, middle, hfirst, hstep⟩ := pieceFrames_step hex h (hvalid piece List.mem_cons_self)
      obtain ⟨later, last, hlater, -⟩ := runPieces_tracks hex hstep.tracks hvalidRest
      simp only [runPieces, bind_apply, hfirst, hlater, pure_apply, Prod.mk.injEq, Except.ok.injEq] at hrun
      obtain ⟨rfl, rfl⟩ := hrun
      have hmiddle := hstep.index_kept hindex
      rw [← List.append_assoc]
      -- a content text or a tool call finishes the reasoning item, and a reasoning text is yet to come
      have hlate : (∀ text, piece ≠ .reasoning text) → (¬∀ text, .reasoning text ∉ rest) →
          ∃ index, last.reasoningIndex = some index ∧
            ∀ more item, ¬ItemStreamed (events ++ first ++ later ++ more) index item := by
        intro hother hsome
        obtain ⟨text, htext⟩ := not_forall.mp hsome
        have hdone := (hstep.other hother).2 index hmiddle
        exact runPieces_spoils hex hstep.tracks hvalidRest hdone (not_not.mp htext) hlater
      cases piece with
      | reasoning text => exact ih hstep.tracks hvalidRest hmiddle horder hlater
      | content text => exact hlate (by simp) horder
      | toolCall function => exact hlate (by simp) horder

/-- **What is streamed.** The items are those of the pieces, in order each is
streamed from its first event to its last, and a reasoning text that resumes
spoils its item. -/
theorem streamItems_spec (hex : ℕ → String) (hvalid : ∀ piece ∈ piecesOf deltas, piece.Valid) :
    ∃ frames final, streamItems hex deltas {} = (.ok frames, final) ∧
      final.output.map OutputItem.withoutIds =
        (BareItem.finished ((piecesOf deltas).foldl BareItem.absorb [])).map BareItem.item ∧
      (PiecesInOrder (piecesOf deltas) → Streamed final frames) ∧
      ∀ text rest, piecesOf deltas = .reasoning text :: rest → ¬PiecesInOrder rest → ¬Streamed final frames := by
  obtain ⟨frames, state, hrun, htracks, hbare, -⟩ := runPieces_tracks hex tracks_initial hvalid
  obtain ⟨closing, final, hclosing, hfinished, hcompleted, hstreamed⟩ := finishOpenItems_step hex htracks
  rw [List.nil_append] at htracks hstreamed
  refine ⟨frames ++ closing, final, ?_, ?_, fun horder => ?_, fun text rest hpieces horder hall => ?_⟩
  · have hdeltas : responseStreamDeltas hex deltas = runPieces hex (piecesOf deltas) := responseStreamDeltas_eq deltas
    simp only [streamItems, hdeltas, bind_apply, hrun, hclosing, pure_apply]
  · rw [hcompleted.map_withoutIds, hfinished, hbare]
    rfl
  · exact hstreamed (runPieces_framed hex tracks_initial hvalid framed_initial (Or.inr ⟨rfl, horder⟩) hrun)
  · rw [hpieces] at hvalid hrun
    have hvalidRest : ∀ other ∈ rest, other.Valid :=
      fun other hother => hvalid other (List.mem_cons_of_mem _ hother)
    obtain ⟨first, middle, hfirst, hstep⟩ := pieceFrames_step hex tracks_initial (hvalid _ List.mem_cons_self)
    obtain ⟨later, last, hlater, -⟩ := runPieces_tracks hex hstep.tracks hvalidRest
    simp only [runPieces, bind_apply, hfirst, hlater, pure_apply, Prod.mk.injEq, Except.ok.injEq] at hrun
    obtain ⟨rfl, rfl⟩ := hrun
    obtain ⟨-, index, hindex, -, -⟩ := hstep.reasoning text rfl
    obtain ⟨index, hindex, hspoiled⟩ := runPieces_resumed hex hstep.tracks hvalidRest hindex horder hlater
    -- the item is still there at the end
    obtain ⟨id, hitem⟩ := htracks.reasoning_at index hindex
    have hsome : last.output.map OutputItem.bare ≠ [] := by
      rintro hnil
      rw [List.map_eq_nil_iff.mp hnil] at hitem
      cases hitem
    rw [BareItem.finished, if_neg hsome] at hfinished
    have hlength : final.output.length = last.output.length := by simpa using congrArg List.length hfinished
    have hbound : index < final.output.length := hlength ▸ lt_of_getElem? hitem
    have hstreamed := hall.items index _ (List.getElem?_eq_getElem hbound)
    exact hspoiled closing _ (by simpa using hstreamed)

end ResponseStreamState

/-! ## What the modes do differently -/

variable {text : String}

theorem wholeItems_reasoning (h : parsed.reasoningContent = some text) :
    ∃ items, wholeItems parsed = .reasoning text :: items := by
  rw [wholeItems, h]
  exact ⟨_, rfl⟩

/-- With tool calls the whole response has no message. -/
theorem wholeItems_no_message (h : parsed.toolCalls ≠ []) : (wholeItems parsed).any BareItem.isMessage = false := by
  rw [wholeItems, if_pos h]
  rcases parsed.reasoningContent with _ | text <;> simp [BareItem.isMessage]

/-- Without a reasoning text no reasoning item is streamed. -/
theorem finished_no_reasoning (h : ∀ text, .reasoning text ∉ pieces) :
    (BareItem.finished (pieces.foldl BareItem.absorb [])).any BareItem.isReasoning = false := by
  have hfold : (pieces.foldl BareItem.absorb []).any BareItem.isReasoning = false := by
    rw [BareItem.any_isReasoning_foldl, List.any_nil, Bool.false_or, List.any_eq_false]
    intro piece hpiece
    cases piece with
    | reasoning text => exact absurd hpiece (h text)
    | content text => exact nofun
    | toolCall function => exact nofun
  unfold BareItem.finished
  split_ifs
  · rfl
  · exact hfold

/-- A content text is streamed in a message. -/
theorem finished_message (h : .content text ∈ pieces) :
    (BareItem.finished (pieces.foldl BareItem.absorb [])).any BareItem.isMessage = true := by
  have hfold : (pieces.foldl BareItem.absorb []).any BareItem.isMessage = true := by
    rw [BareItem.any_isMessage_foldl, List.any_nil, Bool.false_or, List.any_eq_true]
    exact ⟨_, h, rfl⟩
  unfold BareItem.finished
  split_ifs
  · rfl
  · exact hfold

/-- Without reasoning at the front the streamed items do not start with it. -/
theorem finished_head {piece : StreamPiece} (rest : List StreamPiece) (hpiece : ∀ text, piece ≠ .reasoning text) :
    ∃ first items, BareItem.finished ((piece :: rest).foldl BareItem.absorb []) = first :: items ∧
      first.isReasoning = false := by
  have hstart : ∃ first, BareItem.absorb [] piece = [first] ∧ first.isReasoning = false := by
    cases piece with
    | reasoning text => exact absurd rfl (hpiece text)
    | content text => exact ⟨_, rfl, rfl⟩
    | toolCall function => exact ⟨_, rfl, rfl⟩
  obtain ⟨start, heq, hkind⟩ := hstart
  obtain ⟨first, items, hfold, hfirst⟩ := BareItem.head_foldl rest start []
  refine ⟨first, items, ?_, hfirst.trans hkind⟩
  rw [List.foldl_cons, heq, hfold, BareItem.finished, if_neg (by simp)]

/-- **Streaming agrees with the whole response** exactly if the reasoning is not
an empty text, there are not both content and tool calls, and no reasoning text
follows a content text or a tool call. -/
theorem streaming_agrees_iff (hex hex' : ℕ → String) (parsed : ParsedModelResponse) (deltas : List ParserDelta)
    (hconcat : Concatenates deltas parsed) (hnamed : ∀ function ∈ parsed.toolCalls, function.name ≠ "") :
    StreamAgrees hex hex' parsed deltas ↔ parsed.reasoningContent ≠ some "" ∧
      (parsed.toolCalls = [] ∨ parsed.content = "") ∧ PiecesInOrder (piecesOf deltas) := by
  have hvalid := hconcat.valid hnamed
  have hpieces := hconcat.to_pieces
  obtain ⟨frames, final, hrun, hitems, hstreamed, hspoiled⟩ := ResponseStreamState.streamItems_spec hex hvalid
  constructor
  · rintro ⟨frames', final', hrun', hsame, hall⟩
    obtain ⟨hframes, rfl⟩ := Prod.mk.inj (hrun.symm.trans hrun')
    obtain rfl := Except.ok.inj hframes
    have hwhole : BareItem.finished ((piecesOf deltas).foldl BareItem.absorb []) = wholeItems parsed := by
      rw [hitems, responseOutputItems_withoutIds] at hsame
      exact List.map_injective_iff.mpr BareItem.item_injective hsame
    refine ⟨fun hempty => ?_, ?_, ?_⟩
    · -- the whole response has a reasoning item, the stream has none
      have hnone := finished_no_reasoning ((hpieces.no_reasoning_iff hvalid).mpr (by rw [hempty]; rfl))
      obtain ⟨items, heq⟩ := wholeItems_reasoning hempty
      rw [hwhole, heq] at hnone
      exact nomatch hnone
    · -- the stream has a message, the whole response has none
      by_contra hboth
      obtain ⟨hcalls, hcontent⟩ := not_or.mp hboth
      obtain ⟨text, htext⟩ := not_forall.mp (mt (hpieces.no_content_iff hvalid).mp hcontent)
      have hmessage := finished_message (not_not.mp htext)
      rw [hwhole, wholeItems_no_message hcalls] at hmessage
      exact nomatch hmessage
    · rcases hcases : piecesOf deltas with _ | ⟨piece, rest⟩
      · trivial
      · -- the whole response starts with its reasoning
        have hlate : (∀ text, piece ≠ .reasoning text) → ∀ text, .reasoning text ∉ rest := by
          intro hpiece text htext
          have hreasoning : .reasoning text ∈ piecesOf deltas := hcases ▸ List.mem_cons_of_mem _ htext
          rcases hnone : parsed.reasoningContent with _ | whole
          · exact (hpieces.no_reasoning_iff hvalid).mpr (by rw [hnone]; rfl) text hreasoning
          · obtain ⟨first, items, heq, hkind⟩ := finished_head rest hpiece
            obtain ⟨others, hothers⟩ := wholeItems_reasoning hnone
            rw [← hcases, hwhole, hothers] at heq
            obtain ⟨rfl, -⟩ := List.cons.inj heq
            exact nomatch hkind
        cases piece with
        | reasoning text => exact not_not.mp fun horder => hspoiled text rest hcases horder hall
        | content text => exact hlate nofun
        | toolCall function => exact hlate nofun
  · rintro ⟨hempty, hone, horder⟩
    refine ⟨frames, final, hrun, ?_, hstreamed horder⟩
    rw [hitems, finished_eq_wholeItems horder hpieces hvalid hempty hone, responseOutputItems_withoutIds]

/-- A reasoning text, then a content text in two deltas. -/
theorem streaming_agrees_reasoned :
    StreamAgrees (fun n => toString n) (fun n => toString n) ⟨some "Think.", "An answer.", []⟩
      [⟨some "Think.", some "An ", []⟩, ⟨none, some "answer.", []⟩] :=
  (streaming_agrees_iff _ _ _ _ ⟨by decide, by decide, rfl⟩ (by decide)).mpr
    ⟨by decide, Or.inl rfl, by simp [piecesOf, ParserDelta.pieces, PiecesInOrder]⟩

/-- A content text before a tool call is streamed as a message, which the whole
response does not have. -/
theorem contentBeforeCall_not_streaming_agrees :
    ∃ parsed deltas, Concatenates deltas parsed ∧ (∀ function ∈ parsed.toolCalls, function.name ≠ "") ∧
      parsed = ⟨none, "Let me look.", [⟨"search", "\x7b\x7d"⟩]⟩ ∧
      deltas = [⟨none, some "Let me look.", []⟩, ⟨none, none, [⟨"search", "\x7b\x7d"⟩]⟩] ∧
      ¬StreamAgrees (fun n => toString n) (fun n => toString n) parsed deltas := by
  refine ⟨_, _, ⟨by decide, by decide, rfl⟩, by decide, rfl, rfl, ?_⟩
  rintro ⟨frames, final, hrun, hsame, -⟩
  have hvalid : ∀ piece ∈ piecesOf [⟨none, some "Let me look.", []⟩, ⟨none, none, [⟨"search", "\x7b\x7d"⟩]⟩],
      piece.Valid := by
    simp [piecesOf, ParserDelta.pieces, StreamPiece.Valid]
  obtain ⟨frames', final', hrun', hitems, -⟩ := ResponseStreamState.streamItems_spec (fun n => toString n) hvalid
  obtain ⟨-, rfl⟩ := Prod.mk.inj (hrun.symm.trans hrun')
  -- two items against one
  exact absurd (congrArg List.length (hitems.symm.trans hsame)) (by decide)

end Responses
