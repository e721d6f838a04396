import SparseEngine.Lib.Occurrences

/-!
# Streaming up to a stop string

The visible text of a request in `AsyncEngineDispatcher`: every step appends
what the detokenizer returns, the end that may become a stop string is held
back, and a stop string cuts the text and ends the request.  The request has
`stream = True`: any other publishes no token event.  Left out are the token
ids, the logprobs and the raw text with the errors of its paths (a boundary
before the emitted text, a stop match that the final detokenization loses).  A
delta without text counts as an event.
-/

open Occurrences

/-- `_find_stop_index`. -/
def findStopIndex (text : List Char) (stop : List (List Char)) : Option ℕ :=
  (stop.filterMap fun item => if item = [] then none else find text item).min?

/-- `_safe_stream_text_len`. -/
def safeStreamTextLen (text : List Char) (stop : List (List Char)) : ℕ :=
  text.length - longestOverlap stop text

/-- `visible_text`. -/
def visibleText (fullText : List Char) (stop : List (List Char)) : List Char :=
  match findStopIndex fullText stop with
  | none => fullText
  | some stopIndex => fullText.take stopIndex

/-- What the dispatcher keeps of the text of an active request that is
streamed. -/
structure StreamedRequest where
  /-- `detokenizer.text`. -/
  text : List Char
  emittedTextLen : ℕ

/-- What a finished request has published: the texts of its token events, and
its final event. -/
structure PublishedText where
  deltas : List (List Char)
  text : List Char
  textDelta : List Char

namespace StreamedRequest

variable (stop : List (List Char))

/-- `_publish_token_deltas`: the text of the event, and whether a stop string
ends the request. -/
def publishTokenDelta (fragment : List Char) (request : StreamedRequest) :
    List Char × Bool × StreamedRequest :=
  let fullText := request.text ++ fragment
  let stopped := (findStopIndex fullText stop).isSome
  let visible := visibleText fullText stop
  let emitLen := if stopped then visible.length else safeStreamTextLen visible stop
  ((visible.take emitLen).drop request.emittedTextLen, stopped, ⟨fullText, emitLen⟩)

/-- `_publish_finished`.  The final text is the one of the detokenizer with
`suffix` behind it; `pending` says whether there are tokens for one more
event. -/
def publishFinished (suffix : List Char) (pending : Bool) (request : StreamedRequest) : PublishedText :=
  let text := visibleText (request.text ++ suffix) stop
  let textDelta := text.drop request.emittedTextLen
  if pending ∧ textDelta ≠ [] then ⟨[textDelta], text, text.drop text.length⟩ else ⟨[], text, textDelta⟩

/-- A request from here on, over the fragments of its steps. -/
def publish (suffix : List Char) (pending : Bool) : List (List Char) → StreamedRequest → PublishedText
  | [], request => request.publishFinished stop suffix pending
  | fragment :: rest, request =>
      let (delta, stopped, next) := request.publishTokenDelta stop fragment
      let visible := visibleText next.text stop
      let later := if stopped then ⟨[], visible, visible.drop next.emittedTextLen⟩
        else publish suffix pending rest next
      { later with deltas := delta :: later.deltas }

end StreamedRequest

variable {stop : List (List Char)} {text : List Char} {i : ℕ}

theorem findStopIndex_eq_none (h : findStopIndex text stop = none) (i : ℕ) : ¬ OccursAt stop text i := by
  rintro ⟨item, hmem, hne, hstarts⟩
  have hnone := List.filterMap_eq_nil_iff.mp (List.min?_eq_none_iff.mp h) item hmem
  rw [if_neg hne] at hnone
  exact find_eq_none hne hnone hstarts

theorem findStopIndex_eq_some (h : findStopIndex text stop = some i) :
    OccursAt stop text i ∧ ∀ j, OccursAt stop text j → i ≤ j := by
  obtain ⟨hfound, hleast⟩ := List.min?_eq_some_iff.mp h
  constructor
  · obtain ⟨item, hmem, hitem⟩ := List.mem_filterMap.mp hfound
    split at hitem
    · cases hitem
    · next hne => exact ⟨item, hmem, hne, (find_eq_some hitem).1⟩
  · rintro j ⟨item, hmem, hne, hstarts⟩
    rcases hfirst : find text item with - | first
    · exact absurd hstarts (find_eq_none hne hfirst)
    · have hle := hleast first (List.mem_filterMap.mpr ⟨item, hmem, by rw [if_neg hne, hfirst]⟩)
      exact hle.trans ((find_eq_some hfirst).2 j hstarts)

/-- A text cut at its first stop string, if it has one. -/
structure StopCut (stop : List (List Char)) (text cut : List Char) : Prop where
  isPrefix : cut <+: text
  clean : ∀ i, ¬ OccursAt stop cut i
  whole_or_first : cut = text ∨ OccursAt stop text cut.length ∧ ∀ j, OccursAt stop text j → cut.length ≤ j

theorem cut_visibleText (text : List Char) (stop : List (List Char)) : StopCut stop text (visibleText text stop) := by
  unfold visibleText
  split
  · next hnone => exact ⟨List.prefix_refl _, findStopIndex_eq_none hnone, .inl rfl⟩
  · next i hsome =>
    obtain ⟨hoccurs, hfirst⟩ := findStopIndex_eq_some hsome
    have hlength : (text.take i).length = i := by
      obtain ⟨item, -, hne, hstarts⟩ := hoccurs
      exact List.length_take_of_le (lt_length_of_prefix_drop hne hstarts).le
    refine ⟨List.take_prefix i text, ?_, .inr (hlength.symm ▸ ⟨hoccurs, hfirst⟩)⟩
    rintro j ⟨item, hmem, hne, hstarts⟩
    have hlt := lt_length_of_prefix_drop hne hstarts
    rw [List.drop_take] at hstarts
    have hle := hfirst j ⟨item, hmem, hne, hstarts.trans (List.take_prefix _ _)⟩
    omega

/-- What is safe stays safe, also when the text is cut. -/
theorem safeStreamTextLen_le (hnone : ∀ j, ¬ OccursAt stop text j) (more : List Char) :
    safeStreamTextLen text stop ≤ safeStreamTextLen (text ++ more) stop ∧
      safeStreamTextLen text stop ≤ (visibleText (text ++ more) stop).length := by
  have hgrown : longestOverlap stop (text ++ more) ≤ longestOverlap stop text + more.length :=
    longestOverlap_append_le
  unfold safeStreamTextLen
  rcases (cut_visibleText (text ++ more) stop).whole_or_first with hwhole | ⟨hoccurs, -⟩
  · rw [hwhole, List.length_append]
    omega
  · have hheld := length_le_of_occursAt_append hnone hoccurs
    rw [List.length_append]
    omega

/-- What was emitted of a text without stop strings is the beginning of all that
is emitted later. -/
theorem emitted_append (hnone : ∀ j, ¬ OccursAt stop text j) (more : List Char) {emitLen : ℕ}
    (hle : safeStreamTextLen text stop ≤ emitLen) :
    text.take (safeStreamTextLen text stop) ++
        ((visibleText (text ++ more) stop).take emitLen).drop (safeStreamTextLen text stop) =
      (visibleText (text ++ more) stop).take emitLen := by
  have hvisible := List.prefix_iff_eq_take.mp (cut_visibleText (text ++ more) stop).isPrefix
  have hsame : ((visibleText (text ++ more) stop).take emitLen).take (safeStreamTextLen text stop) =
      text.take (safeStreamTextLen text stop) := by
    rw [hvisible, List.take_take, List.take_take, min_eq_left hle, min_eq_left (safeStreamTextLen_le hnone more).2]
    exact List.take_append_of_le_length (Nat.sub_le _ _)
  rw [← hsame, List.take_append_drop]

/-- What is published, after what was emitted `before`, is the text: all of it,
or what a step has seen of it up to the first stop string. -/
structure PublishedText.Exact (stop : List (List Char)) (before all : List Char) (published : PublishedText) :
    Prop where
  streamed : before ++ (published.deltas.flatten ++ published.textDelta) = published.text
  cut : ∃ seen, seen <+: all ∧ StopCut stop seen published.text ∧ (seen = all ∨ published.text ≠ seen)

namespace StreamedRequest

/-- A request from here on, when no stop string has come yet and all that is
safe has been emitted. -/
theorem publish_exact (suffix : List Char) (pending : Bool) (fragments : List (List Char))
    (hnone : ∀ j, ¬ OccursAt stop text j) :
    (publish stop suffix pending fragments ⟨text, safeStreamTextLen text stop⟩).Exact stop
      (text.take (safeStreamTextLen text stop)) (text ++ (fragments.flatten ++ suffix)) := by
  induction fragments generalizing text with
  | nil =>
      have hkept := emitted_append hnone suffix (safeStreamTextLen_le hnone suffix).2
      rw [List.take_length] at hkept
      unfold publish publishFinished
      dsimp only
      split
      · refine ⟨?_, _, List.prefix_refl _, cut_visibleText _ stop, .inl rfl⟩
        rw [List.drop_length, List.append_nil, List.flatten_singleton, hkept]
      · exact ⟨hkept, _, List.prefix_refl _, cut_visibleText _ stop, .inl rfl⟩
  | cons fragment rest ih =>
      rw [List.flatten_cons, List.append_assoc, ← List.append_assoc]
      obtain ⟨hsafe, hlength⟩ := safeStreamTextLen_le hnone fragment
      unfold publish publishTokenDelta
      dsimp only
      rcases hstop : findStopIndex (text ++ fragment) stop with - | stopIndex
      · -- nothing to cut, and the next step starts behind what is safe now
        have hvisible : visibleText (text ++ fragment) stop = text ++ fragment := by
          rw [visibleText, hstop]
        have hkept := emitted_append hnone fragment hsafe
        obtain ⟨hstreamed, hcut⟩ := ih (findStopIndex_eq_none hstop)
        simp only [Option.isSome_none, Bool.false_eq_true, if_false, hvisible] at hkept ⊢
        refine ⟨?_, hcut⟩
        rw [List.flatten_cons, List.append_assoc, ← List.append_assoc, hkept]
        exact hstreamed
      · have hkept := emitted_append hnone fragment hlength
        have hcut := cut_visibleText (text ++ fragment) stop
        simp only [Option.isSome_some, if_true, List.drop_length]
        refine ⟨?_, _, List.prefix_append _ _, hcut, .inr fun hwhole => ?_⟩
        · rw [List.append_nil, List.flatten_singleton, hkept, List.take_length]
        · have hclean := hcut.clean stopIndex
          rw [show visibleText _ stop = _ from hwhole] at hclean
          exact hclean (findStopIndex_eq_some hstop).1

/-- **Streamed text is the final text**, however the text is divided over the
steps: nothing behind the first stop string, and no part of it, is ever
emitted. -/
theorem streamed_text_exact (stop : List (List Char)) (suffix : List Char) (pending : Bool)
    (fragments : List (List Char)) :
    (publish stop suffix pending fragments ⟨[], 0⟩).Exact stop [] (fragments.flatten ++ suffix) := by
  have hnone : ∀ j, ¬ OccursAt stop [] j := by
    rintro j ⟨item, -, hne, hstarts⟩
    exact Nat.not_lt_zero j (lt_length_of_prefix_drop hne hstarts)
  have hexact := publish_exact suffix pending fragments hnone
  rw [safeStreamTextLen, List.length_nil, Nat.zero_sub] at hexact
  exact hexact

end StreamedRequest
