import SparseEngine.Responses.Steps

/-!
# The pieces of a stream

The deltas of a stream are a sequence of pieces (`responseStreamDeltas_eq`),
and the items grow with it (`runPieces_tracks`).  As long as no reasoning text
follows a content text or a tool call every item is streamed as it should be
(`runPieces_framed`).  A reasoning text that follows one after the last event
of its item spoils that item (`runPieces_spoils`).
-/

namespace Responses

open Routine

variable {hex : ℕ → String}

/-! ## Deltas as pieces -/

theorem bind_bind {σ α β γ : Type} (m : Routine σ α) (f : α → Routine σ β) (g : β → Routine σ γ) :
    (m >>= f) >>= g = m >>= fun a => f a >>= g := by
  funext state
  simp only [bind_apply]
  rcases m state with ⟨_ | _, _⟩ <;> rfl

theorem pure_bind_eq {σ α β : Type} (a : α) (f : α → Routine σ β) : (pure a : Routine σ α) >>= f = f a := rfl

namespace ResponseStreamState

/-- Piece after piece. -/
def runPieces (hex : ℕ → String) : List StreamPiece → Routine ResponseStreamState (List StreamEvent)
  | [] => pure []
  | piece :: rest => do
      let frames ← pieceFrames hex piece
      let more ← runPieces hex rest
      pure (frames ++ more)

theorem runPieces_append (first second : List StreamPiece) :
    runPieces hex (first ++ second) = (do
      let frames ← runPieces hex first
      let more ← runPieces hex second
      pure (frames ++ more)) := by
  induction first with
  | nil =>
      funext state
      simp only [List.nil_append, runPieces, bind_apply, pure_apply]
      rcases runPieces hex second state with ⟨_ | _, _⟩ <;> rfl
  | cons piece rest ih =>
      simp only [List.cons_append, runPieces, ih, bind_bind, pure_bind_eq, List.append_assoc]

theorem toolCallFrames_eq (functions : List ToolFunction) :
    toolCallFrames hex functions = runPieces hex (functions.map .toolCall) := by
  induction functions with
  | nil => rfl
  | cons function rest ih =>
      simp only [toolCallFrames, List.map_cons, runPieces, pieceFrames, ih, bind_bind, pure_bind_eq]

theorem runPieces_singleton (piece : StreamPiece) : runPieces hex [piece] = pieceFrames hex piece := by
  funext state
  simp only [runPieces, bind_apply, pure_apply]
  rcases pieceFrames hex piece state with ⟨_ | _, _⟩ <;> simp

theorem deltaFrames_eq (delta : ParserDelta) : deltaFrames hex delta = runPieces hex delta.pieces := by
  obtain ⟨reasoning, content, toolCalls⟩ := delta
  have hnil : runPieces hex [] = pure [] := rfl
  have htools := @toolCallFrames_eq hex toolCalls
  rcases reasoning with _ | text <;> rcases content with _ | other
  all_goals
    simp only [deltaFrames, ParserDelta.pieces, runPieces_append, ← htools]
    try split_ifs
    all_goals
      simp only [hnil, runPieces_singleton, pieceFrames, bind_bind, pure_bind_eq, List.nil_append,
        List.append_nil, List.append_assoc]

theorem responseStreamDeltas_eq (deltas : List ParserDelta) :
    responseStreamDeltas hex deltas = runPieces hex (deltas.flatMap ParserDelta.pieces) := by
  induction deltas with
  | nil => rfl
  | cons delta rest ih =>
      rw [List.flatMap_cons, runPieces_append, ← deltaFrames_eq, ← ih]
      rfl

/-! ## One piece -/

/-- What a piece leaves, by its kind. -/
structure PieceStep (state next : ResponseStreamState) (events frames : List StreamEvent) (piece : StreamPiece) :
    Prop where
  tracks : Tracks next (events ++ frames)
  bare : next.output.map OutputItem.bare = BareItem.absorb (state.output.map OutputItem.bare) piece
  reasoning : ∀ text, piece = .reasoning text → next.reasoningDone = state.reasoningDone ∧
    ∃ index, next.reasoningIndex = some index ∧ (∀ other, state.reasoningIndex = some other → other = index) ∧
      eventsAt index frames ≠ []
  other : (∀ text, piece ≠ .reasoning text) → next.reasoningIndex = state.reasoningIndex ∧
    ∀ index, next.reasoningIndex = some index → next.reasoningDone = true
  framed : Framed state events → ((∃ text, piece = .reasoning text) → state.reasoningDone = false) →
    Framed next (events ++ frames)

variable {piece : StreamPiece} {frames : List StreamEvent} {index : ℕ}

theorem pieceFrames_step {state : ResponseStreamState} {events : List StreamEvent}
    (hex : ℕ → String) (h : Tracks state events) (hvalid : piece.Valid) :
    ∃ frames next, pieceFrames hex piece state = (.ok frames, next) ∧ PieceStep state next events frames piece := by
  cases piece with
  | reasoning text =>
      obtain ⟨frames, next, index, hrun, htracks, hbare, hindex, hdone, hsame, hat, hframed⟩ :=
        reasoningDelta_step hex h hvalid
      exact ⟨frames, next, hrun, htracks, hbare, fun _ _ => ⟨hdone, index, hindex, hsame, hat⟩,
        fun hnot => absurd rfl (hnot text), fun hbefore hopen => hframed hbefore (hopen ⟨text, rfl⟩)⟩
  | content text =>
      obtain ⟨finished, done, hfinished, htracks, hdone, hframed⟩ := finishReasoning_step hex h
      obtain ⟨frames, next, hrun, htracks', hbare, hindex, hdone', hframed'⟩ :=
        messageDelta_step hex htracks hvalid
      refine ⟨finished ++ frames, next, ?_, ?_, hbare, nofun, fun _ => ⟨hindex, fun index hnext => ?_⟩,
        fun hbefore _ => ?_⟩
      · simp only [pieceFrames, bind_apply, hfinished, hrun, pure_apply]
      · rw [← List.append_assoc]
        exact htracks'
      · rw [hdone']
        exact hdone index (hindex ▸ hnext)
      · rw [← List.append_assoc]
        exact hframed' (hframed hbefore)
  | toolCall function =>
      obtain ⟨finished, done, hfinished, htracks, hdone, hframed⟩ := finishReasoning_step hex h
      obtain ⟨started, arguments, ended, first, second, next, hstarted, harguments, hended, htracks', hbare, hindex,
        hdone', hframed'⟩ := toolCall_step hex htracks hvalid
      refine ⟨finished ++ (started ++ arguments ++ ended), next, ?_, ?_, hbare, nofun,
        fun _ => ⟨hindex, fun index hnext => ?_⟩, fun hbefore _ => ?_⟩
      · simp only [pieceFrames, bind_apply, hfinished, hstarted, harguments, hended, pure_apply, List.append_assoc]
      · rw [← List.append_assoc]
        exact htracks'
      · rw [hdone']
        exact hdone index (hindex ▸ hnext)
      · rw [← List.append_assoc]
        exact hframed' (hframed hbefore)

/-- The reasoning item stays where it is. -/
theorem PieceStep.index_kept {state next : ResponseStreamState} {events : List StreamEvent}
    (h : PieceStep state next events frames piece) (hindex : state.reasoningIndex = some index) :
    next.reasoningIndex = some index := by
  by_cases hreasoning : ∃ text, piece = .reasoning text
  · obtain ⟨text, htext⟩ := hreasoning
    obtain ⟨-, found, hfound, hsame, -⟩ := h.reasoning text htext
    rw [hfound, hsame index hindex]
  · rw [(h.other fun text htext => hreasoning ⟨text, htext⟩).1, hindex]

/-! ## All pieces -/

variable {state next : ResponseStreamState} {events : List StreamEvent} {pieces : List StreamPiece}

/-- A run of pieces grows the items and keeps what the state knows of them. -/
theorem runPieces_tracks (hex : ℕ → String) (h : Tracks state events) (hvalid : ∀ piece ∈ pieces, piece.Valid) :
    ∃ frames next, runPieces hex pieces state = (.ok frames, next) ∧ Tracks next (events ++ frames) ∧
      next.output.map OutputItem.bare = pieces.foldl BareItem.absorb (state.output.map OutputItem.bare) ∧
      ∀ index, state.reasoningIndex = some index → next.reasoningIndex = some index := by
  induction pieces generalizing state events with
  | nil => exact ⟨[], state, rfl, h.more [], rfl, fun _ hindex => hindex⟩
  | cons piece rest ih =>
      obtain ⟨frames, next, hrun, hstep⟩ := pieceFrames_step hex h (hvalid piece List.mem_cons_self)
      obtain ⟨more, last, hmore, htracks, hbare, hkept⟩ :=
        ih hstep.tracks fun other hother => hvalid other (List.mem_cons_of_mem _ hother)
      refine ⟨frames ++ more, last, ?_, ?_, ?_, fun index hindex => hkept index (hstep.index_kept hindex)⟩
      · simp only [runPieces, bind_apply, hrun, hmore, pure_apply]
      · rw [← List.append_assoc]
        exact htracks
      · rw [hbare, hstep.bare, List.foldl_cons]

/-- In order, every item stays framed. -/
theorem runPieces_framed (hex : ℕ → String) (h : Tracks state events)
    (hvalid : ∀ piece ∈ pieces, piece.Valid) (hframed : Framed state events)
    (horder : (∀ text, .reasoning text ∉ pieces) ∨ (state.reasoningDone = false ∧ PiecesInOrder pieces))
    (hrun : runPieces hex pieces state = (.ok frames, next)) : Framed next (events ++ frames) := by
  induction pieces generalizing state events frames with
  | nil =>
      simp only [runPieces, pure_apply, Prod.mk.injEq, Except.ok.injEq] at hrun
      obtain ⟨rfl, rfl⟩ := hrun
      rwa [List.append_nil]
  | cons piece rest ih =>
      obtain ⟨first, middle, hfirst, hstep⟩ := pieceFrames_step hex h (hvalid piece List.mem_cons_self)
      obtain ⟨more, last, hmore, -⟩ := @runPieces_tracks middle _ rest hex hstep.tracks
        fun other hother => hvalid other (List.mem_cons_of_mem _ hother)
      simp only [runPieces, bind_apply, hfirst, hmore, pure_apply, Prod.mk.injEq, Except.ok.injEq] at hrun
      obtain ⟨rfl, rfl⟩ := hrun
      rw [← List.append_assoc]
      have hvalidRest : ∀ other ∈ rest, other.Valid :=
        fun other hother => hvalid other (List.mem_cons_of_mem _ hother)
      have hopen : (∃ text, piece = .reasoning text) → state.reasoningDone = false := by
        rintro ⟨text, rfl⟩
        rcases horder with hnone | ⟨hopen, -⟩
        · exact absurd List.mem_cons_self (hnone text)
        · exact hopen
      refine ih hstep.tracks hvalidRest (hstep.framed hframed hopen) ?_ hmore
      rcases horder with hnone | ⟨hclosed, horder⟩
      · exact Or.inl fun text htext => hnone text (List.mem_cons_of_mem _ htext)
      · cases piece with
        | reasoning text => exact Or.inr ⟨(hstep.reasoning text rfl).1.trans hclosed, horder⟩
        | content text => exact Or.inl horder
        | toolCall function => exact Or.inl horder

/-- A reasoning text after the last event of the reasoning item spoils that
item. -/
theorem runPieces_spoils (hex : ℕ → String) (h : Tracks state events)
    (hvalid : ∀ piece ∈ pieces, piece.Valid) (hdone : state.reasoningDone = true) {text : String}
    (htext : .reasoning text ∈ pieces) (hrun : runPieces hex pieces state = (.ok frames, next)) :
    ∃ index, next.reasoningIndex = some index ∧ ∀ more item, ¬ItemStreamed (events ++ frames ++ more) index item := by
  induction pieces generalizing state events frames with
  | nil => exact absurd htext List.not_mem_nil
  | cons piece rest ih =>
      have hvalidRest : ∀ other ∈ rest, other.Valid :=
        fun other hother => hvalid other (List.mem_cons_of_mem _ hother)
      obtain ⟨first, middle, hfirst, hstep⟩ := pieceFrames_step hex h (hvalid piece List.mem_cons_self)
      obtain ⟨later, last, hlater, -, -, hkept⟩ := runPieces_tracks hex hstep.tracks hvalidRest
      simp only [runPieces, bind_apply, hfirst, hlater, pure_apply, Prod.mk.injEq, Except.ok.injEq] at hrun
      obtain ⟨rfl, rfl⟩ := hrun
      obtain ⟨index, closed, hindex, hclosed⟩ := h.closed hdone
      by_cases hreasoning : ∃ text, piece = .reasoning text
      · obtain ⟨text, rfl⟩ := hreasoning
        obtain ⟨-, found, hfound, hsame, hat⟩ := hstep.reasoning text rfl
        obtain rfl := hsame index hindex
        refine ⟨index, hkept index hfound, fun more item hitem => hat ?_⟩
        -- the delta comes after the last event of the item
        rw [List.append_assoc, List.append_assoc] at hitem
        have hnil := hitem.eventsAt_eq_nil hclosed
        rw [eventsAt_append, List.append_eq_nil_iff] at hnil
        exact hnil.1
      · have hother := hstep.other fun text htext => hreasoning ⟨text, htext⟩
        have hrest : .reasoning text ∈ rest := by
          rcases List.mem_cons.mp htext with heq | hmem
          · exact absurd ⟨text, heq.symm⟩ hreasoning
          · exact hmem
        have hstill := hother.2 index (hstep.index_kept hindex)
        obtain ⟨found, hfound, hspoiled⟩ := ih hstep.tracks hvalidRest hstill hrest hlater
        refine ⟨found, hfound, fun more item => ?_⟩
        rw [← List.append_assoc events]
        exact hspoiled more item

/-! ## Finishing the open items -/

/-- Every item is done and no event is of another position. -/
structure Streamed (state : ResponseStreamState) (events : List StreamEvent) : Prop where
  beyond : ∀ event ∈ events, event.outputIndex < state.output.length
  items : ∀ index item, state.output[index]? = some item → ItemStreamed events index item

theorem finishMessage_nothing (h : state.messageIndex = none) : finishMessage state = (.ok [], state) := by
  simp only [finishMessage, bind_apply, read_apply, branch_apply, h, Option.isNone_none, true_or, if_true]
  rfl

theorem finishMessage_open {id text : String} (hindex : state.messageIndex = some index)
    (hopen : state.messageDone = false) (hitem : state.output[index]? = some (.message id "in_progress" [text])) :
    finishMessage state =
      (.ok [.outputTextDone id index 0 state.messageText, .contentPartDone id index 0 text,
        .outputItemDone index (.message id "completed" [text])],
        { state with
          output := state.output.set index (.message id "completed" [text]), messageDone := true }) := by
  have hsomething : ¬(state.messageIndex.isNone ∨ state.messageDone) := by simp [hindex, hopen]
  simp only [finishMessage, bind_apply, read_apply, branch_apply, if_neg hsomething]
  simp [hindex, itemAt_apply hitem, write_apply, pure_apply, OutputItem.id, OutputItem.complete]

end ResponseStreamState

end Responses
