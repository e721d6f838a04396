import SparseEngine.Sequence

/-!
# How far a sequence has come

A sequence is in its prompt, in the prompt of a replay, or decoding
(`Wellformed`).  Which of the three follows from four counters that scheduling
and postprocessing write at different times.  A call of the scheduler accepts
no token: it leaves the `history` of every sequence as it is, and moves its
progress only when a fresh prompt is admitted (`Rescheduled`) or a decoding
sequence starts over (`Restarted`).

Managers differ in one thing that matters here.  Some look up the cached
prefix of a waiting prompt again; a prompt may then have a longer cached
prefix than it has prefilled tokens, and the manager counts the longer of both
as done.  The others only clear it: what they have is the prefix with which a
chain was resumed, and it is prefilled from the start (`Attached`).
-/

/-- The kind of the cache manager. -/
class PrefixReuse where
  /-- It looks up cached prefixes for waiting prompts (`standard.py`, `quest.py`, the prefix-cache
  coordinator); SnapKV and StreamingLLM do not. -/
  refreshes : Prop

namespace Sequence

variable {Id : Type}

/-- What is accepted of a sequence, and the parameters of its request. -/
structure History where
  tokenIds : List ℤ
  numTokens : ℤ
  numPromptTokens : ℤ
  numPendingOutputs : ℤ
  maxTokens : ℤ
  lastToken : Option ℤ
  promptTokens : Option (List ℤ)
  multimodalPositionDelta : ℤ
  ignoreEos : Bool
  eosTokenIds : List ℤ

/-- The part of a sequence that scheduling leaves as it is. -/
def history (seq : Sequence Id) : History where
  tokenIds := seq.tokenIds
  numTokens := seq.numTokens
  numPromptTokens := seq.numPromptTokens
  numPendingOutputs := seq.numPendingOutputs
  maxTokens := seq.maxTokens
  lastToken := seq.lastToken
  promptTokens := seq.promptTokens
  multimodalPositionDelta := seq.multimodalPositionDelta
  ignoreEos := seq.ignoreEos
  eosTokenIds := seq.eosTokenIds

/-- Sequences with the same history, field by field. -/
theorem history_eq_iff {seq other : Sequence Id} : other.history = seq.history ↔
    other.tokenIds = seq.tokenIds ∧ other.numTokens = seq.numTokens ∧ other.numPromptTokens = seq.numPromptTokens ∧
      other.numPendingOutputs = seq.numPendingOutputs ∧ other.maxTokens = seq.maxTokens ∧
      other.lastToken = seq.lastToken ∧ other.promptTokens = seq.promptTokens ∧
      other.multimodalPositionDelta = seq.multimodalPositionDelta ∧
      other.ignoreEos = seq.ignoreEos ∧ other.eosTokenIds = seq.eosTokenIds := by
  simp only [history, History.mk.injEq]

theorem numCompletionTokens_congr {seq other : Sequence Id} (h : other.history = seq.history) :
    other.numCompletionTokens = seq.numCompletionTokens := by
  obtain ⟨_, htokens, hprompt, _⟩ := history_eq_iff.mp h
  unfold numCompletionTokens
  rw [htokens, hprompt]

/-- The counters of the accepted tokens agree with the tokens. -/
structure Counted (seq : Sequence Id) : Prop where
  numTokens_eq : seq.numTokens = seq.tokenIds.length
  prompt_nonneg : 0 ≤ seq.numPromptTokens
  prompt_le : seq.numPromptTokens ≤ seq.numTokens
  promptTokens_eq : seq.promptTokens = some (seq.tokenIds.take seq.numPromptTokens.toNat)
  lastToken_eq : seq.lastToken = seq.tokenIds.getLast?
  pending_nonneg : 0 ≤ seq.numPendingOutputs

theorem Counted.congr {seq other : Sequence Id} (h : seq.Counted)
    (hhistory : other.history = seq.history) : other.Counted := by
  obtain ⟨hids, htokens, hprompt, hpending, _, hlast, hprompts, _⟩ := history_eq_iff.mp hhistory
  constructor
  · rw [htokens, hids]; exact h.numTokens_eq
  · rw [hprompt]; exact h.prompt_nonneg
  · rw [hprompt, htokens]; exact h.prompt_le
  · rw [hprompts, hids, hprompt]; exact h.promptTokens_eq
  · rw [hlast, hids]; exact h.lastToken_eq
  · rw [hpending]; exact h.pending_nonneg

/-- The request may have another output. -/
def Unspent (seq : Sequence Id) : Prop :=
  seq.numCompletionTokens + seq.numPendingOutputs < seq.maxTokens

theorem Unspent.congr {seq other : Sequence Id} (h : seq.Unspent)
    (hhistory : other.history = seq.history) : other.Unspent := by
  obtain ⟨_, _, _, hpending, hmax, _⟩ := history_eq_iff.mp hhistory
  unfold Unspent
  rw [numCompletionTokens_congr hhistory, hpending, hmax]
  exact h

/-- The prompt is being prefilled, or waits to be. -/
structure Prompting (seq : Sequence Id) : Prop where
  cursor_eq : seq.recomputeReplayCursor = none
  completion_eq : seq.numCompletionTokens = 0
  pending_eq : seq.numPendingOutputs = 0
  prefilled_le : seq.numPrefilledTokens ≤ seq.numPromptTokens

/-- The prompt of a replay is being prefilled again, or waits to be. -/
structure Rebuilding (seq : Sequence Id) : Prop where
  cursor_eq : seq.recomputeReplayCursor = some 0
  completion_pos : 0 < seq.numCompletionTokens
  pending_eq : seq.numPendingOutputs = 0
  prefilled_lt : seq.numPrefilledTokens < seq.numPromptTokens
  hit_eq : seq.prefixCacheHitLen = 0

/-- The prompt is done; the sequence decodes, or replays what it decoded
before. -/
structure Decoding (seq : Sequence Id) : Prop where
  prefilled_eq : seq.numPrefilledTokens = seq.numPromptTokens
  prompt_pos : 0 < seq.numPromptTokens
  output_pos : 0 < seq.numCompletionTokens + seq.numPendingOutputs
  replaying : ∀ cursor, seq.recomputeReplayCursor = some cursor →
    seq.numPendingOutputs = 0 ∧ 0 ≤ cursor ∧ cursor < seq.numCompletionTokens - 1

/-- A decoding sequence goes on decoding unless it starts over. -/
theorem Decoding.congr {seq later : Sequence Id} (h : seq.Decoding) (hhistory : later.history = seq.history)
    (hcursor : later.recomputeReplayCursor = seq.recomputeReplayCursor)
    (hprefilled : later.numPrefilledTokens = seq.numPrefilledTokens) : later.Decoding := by
  obtain ⟨_, _, hprompt, hpending, _⟩ := history_eq_iff.mp hhistory
  have hcompletion := numCompletionTokens_congr hhistory
  constructor
  · rw [hprefilled, hprompt]; exact h.prefilled_eq
  · rw [hprompt]; exact h.prompt_pos
  · rw [hcompletion, hpending]; exact h.output_pos
  · rw [hcursor, hcompletion, hpending]; exact h.replaying

variable [PrefixReuse]

/-- Only a manager that refreshes cached prefixes has one that is not
prefilled. -/
def Attached (seq : Sequence Id) : Prop :=
  PrefixReuse.refreshes ∨ seq.prefixCacheHitLen ≤ seq.numPrefilledTokens

theorem Attached.mono {seq later : Sequence Id} (h : seq.Attached)
    (hhit : later.prefixCacheHitLen = seq.prefixCacheHitLen)
    (hle : seq.numPrefilledTokens ≤ later.numPrefilledTokens) : later.Attached :=
  h.imp_right fun hseq => Int.le_trans (Int.le_trans (Int.le_of_eq hhit) hseq) hle

/-- The states between two calls. -/
structure Wellformed (seq : Sequence Id) : Prop where
  counted : seq.Counted
  prefilled_nonneg : 0 ≤ seq.numPrefilledTokens
  hit_nonneg : 0 ≤ seq.prefixCacheHitLen
  attached : seq.Attached
  stage : seq.Prompting ∨ seq.Rebuilding ∨ seq.Decoding

/-- A sequence with tokens to prefill is not decoding. -/
theorem Wellformed.prefilling {seq : Sequence Id} (h : seq.Wellformed)
    (hlt : seq.numPrefilledTokens < seq.numPromptTokens) : seq.Prompting ∨ seq.Rebuilding := by
  rcases h.stage with hprompting | hrebuilding | hdecoding
  · exact .inl hprompting
  · exact .inr hrebuilding
  · exact absurd hdecoding.prefilled_eq (Int.ne_of_lt hlt)

/-- A chunk was scheduled that stays within the prompt. -/
def Chunked (seq : Sequence Id) : Prop :=
  ∃ chunkSize, seq.currentChunkSize = some chunkSize ∧ 0 < chunkSize ∧
    seq.numPrefilledTokens + chunkSize ≤ seq.numPromptTokens

theorem Chunked.prefilling {seq : Sequence Id} (h : seq.Chunked) (hwell : seq.Wellformed) :
    seq.Prompting ∨ seq.Rebuilding := by
  obtain ⟨chunkSize, _, hpos, hle⟩ := h
  exact hwell.prefilling (by omega)

/-! ## What a call of the scheduler does to a sequence -/

/-- Scheduling accepts nothing.  The progress stays, or a fresh prompt starts
behind its cached prefix. -/
structure Rescheduled (seq later : Sequence Id) : Prop where
  history_eq : later.history = seq.history
  wellformed : seq.Wellformed → later.Wellformed
  progress :
    (later.recomputeReplayCursor = seq.recomputeReplayCursor ∧
      later.numPrefilledTokens = seq.numPrefilledTokens) ∨
    (seq.recomputeReplayCursor = none ∧ later.recomputeReplayCursor = none ∧
      seq.numPrefilledTokens = 0)

/-- A decoding sequence starts over. -/
structure Restarted (seq later : Sequence Id) : Prop where
  history_eq : later.history = seq.history
  wellformed : seq.Wellformed → later.Wellformed
  decoding : seq.Decoding
  cursor_eq : later.recomputeReplayCursor = some 0
  prefilled_eq : later.numPrefilledTokens = 0

namespace Rescheduled

variable {seq later last : Sequence Id}

theorem refl (seq : Sequence Id) : Rescheduled seq seq :=
  ⟨rfl, fun h => h, .inl ⟨rfl, rfl⟩⟩

theorem trans (hfirst : Rescheduled seq later) (hsecond : Rescheduled later last) :
    Rescheduled seq last := by
  refine ⟨hsecond.history_eq.trans hfirst.history_eq, fun h => hsecond.wellformed (hfirst.wellformed h), ?_⟩
  rcases hsecond.progress with ⟨hcursor, hprefilled⟩ | ⟨hnone, hnone', hzero⟩
  · rw [hcursor, hprefilled]
    exact hfirst.progress
  · right
    rcases hfirst.progress with ⟨hcursor, hprefilled⟩ | ⟨hbefore, _, hzero'⟩
    · exact ⟨hcursor ▸ hnone, hnone', hprefilled ▸ hzero⟩
    · exact ⟨hbefore, hnone', hzero'⟩

/-- The fields that `Wellformed` reads. -/
theorem of_fields (hhistory : later.history = seq.history)
    (hcursor : later.recomputeReplayCursor = seq.recomputeReplayCursor)
    (hprefilled : later.numPrefilledTokens = seq.numPrefilledTokens)
    (hhit : later.prefixCacheHitLen = seq.prefixCacheHitLen ∨ later.prefixCacheHitLen = 0 ∨
      PrefixReuse.refreshes ∧ seq.numCompletionTokens = 0 ∧ 0 ≤ later.prefixCacheHitLen) :
    Rescheduled seq later := by
  obtain ⟨_, _, hprompt, hpending, _⟩ := history_eq_iff.mp hhistory
  have hcompletion := numCompletionTokens_congr hhistory
  refine ⟨hhistory, fun h => ?_, .inl ⟨hcursor, hprefilled⟩⟩
  have hstarted : 0 ≤ later.numPrefilledTokens := hprefilled ▸ h.prefilled_nonneg
  obtain ⟨hnonneg, hattached⟩ : 0 ≤ later.prefixCacheHitLen ∧ later.Attached := by
    rcases hhit with hsame | hzero | ⟨hrefreshes, _, hnonneg⟩
    · exact ⟨hsame ▸ h.hit_nonneg, h.attached.mono hsame (Int.le_of_eq hprefilled.symm)⟩
    · exact ⟨Int.le_of_eq hzero.symm, .inr (hzero ▸ hstarted)⟩
    · exact ⟨hnonneg, .inl hrefreshes⟩
  refine ⟨h.counted.congr hhistory, hstarted, hnonneg, hattached, ?_⟩
  rcases h.stage with hprompting | hrebuilding | hdecoding
  · left
    constructor
    · rw [hcursor]; exact hprompting.cursor_eq
    · rw [hcompletion]; exact hprompting.completion_eq
    · rw [hpending]; exact hprompting.pending_eq
    · rw [hprefilled, hprompt]; exact hprompting.prefilled_le
  · right; left
    constructor
    · rw [hcursor]; exact hrebuilding.cursor_eq
    · rw [hcompletion]; exact hrebuilding.completion_pos
    · rw [hpending]; exact hrebuilding.pending_eq
    · rw [hprefilled, hprompt]; exact hrebuilding.prefilled_lt
    · rcases hhit with hsame | hzero | ⟨_, hfresh, _⟩
      · exact hsame.trans hrebuilding.hit_eq
      · exact hzero
      · exact absurd hfresh (Int.ne_of_gt hrebuilding.completion_pos)
  · right; right
    constructor
    · rw [hprefilled, hprompt]; exact hdecoding.prefilled_eq
    · rw [hprompt]; exact hdecoding.prompt_pos
    · rw [hcompletion, hpending]; exact hdecoding.output_pos
    · rw [hcursor, hcompletion, hpending]; exact hdecoding.replaying

end Rescheduled

theorem Decoding.rescheduled {seq later : Sequence Id} (h : seq.Decoding)
    (hmove : seq.Rescheduled later) : later.Decoding := by
  rcases hmove.progress with ⟨hcursor, hprefilled⟩ | ⟨_, _, hzero⟩
  · exact h.congr hmove.history_eq hcursor hprefilled
  · have hpos := h.prompt_pos
    rw [← h.prefilled_eq, hzero] at hpos
    exact absurd hpos (Int.lt_irrefl 0)

/-- A prompt is admitted behind its cached prefix. -/
theorem rescheduled_hit {seq : Sequence Id} (hwell : seq.Wellformed)
    (hstart : seq.numPrefilledTokens = 0) (hpos : 0 < seq.prefixCacheHitLen)
    (hle : seq.prefixCacheHitLen ≤ seq.numPromptTokens) :
    Rescheduled seq { seq with numPrefilledTokens := seq.prefixCacheHitLen } := by
  rcases hwell.stage with hprompting | hrebuilding | hdecoding
  · have hcursor := hprompting.cursor_eq
    refine ⟨rfl, fun h => ?_, .inr ⟨hcursor, hcursor, hstart⟩⟩
    exact ⟨h.counted.congr rfl, h.hit_nonneg, h.hit_nonneg, .inr (Int.le_refl _),
      .inl ⟨hcursor, hprompting.completion_eq, hprompting.pending_eq, hle⟩⟩
  · exact absurd hrebuilding.hit_eq (Int.ne_of_gt hpos)
  · have hpos := hdecoding.prompt_pos
    rw [← hdecoding.prefilled_eq, hstart] at hpos
    exact absurd hpos (Int.lt_irrefl 0)

/-- What starts over stays at its start. -/
theorem Restarted.trans {seq later last : Sequence Id} (hfirst : Restarted seq later)
    (hsecond : Rescheduled later last) : Restarted seq last := by
  have hstays : last.recomputeReplayCursor = some 0 ∧ last.numPrefilledTokens = 0 := by
    rcases hsecond.progress with ⟨hcursor, hprefilled⟩ | ⟨hnone, _⟩
    · exact ⟨hcursor.trans hfirst.cursor_eq, hprefilled.trans hfirst.prefilled_eq⟩
    · rw [hfirst.cursor_eq] at hnone
      exact nomatch hnone
  exact ⟨hsecond.history_eq.trans hfirst.history_eq,
    fun h => hsecond.wellformed (hfirst.wellformed h), hfirst.decoding, hstays.1, hstays.2⟩

/-- `start_recompute_replay`, for a decoding sequence without pending
outputs. -/
theorem startRecomputeReplay_of_decoding {seq : Sequence Id} (h : seq.Decoding)
    (hpending : seq.numPendingOutputs = 0) :
    ∃ replay, seq.startRecomputeReplay = .ok replay ∧ Restarted seq replay ∧ replay.currentChunkSize = none := by
  have hpos : 0 < seq.numCompletionTokens := by
    have houtput := h.output_pos
    omega
  unfold startRecomputeReplay
  rw [if_neg (Int.not_le.mpr hpos)]
  refine ⟨_, rfl, ⟨rfl, fun hwell => ?_, h, rfl, rfl⟩, rfl⟩
  exact ⟨hwell.counted.congr rfl, Int.le_refl 0, Int.le_refl 0, .inr (Int.le_refl 0),
    .inr (.inl ⟨rfl, hpos, hpending, h.prompt_pos, rfl⟩)⟩

end Sequence
