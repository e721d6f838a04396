import SparseEngine.PrefillScoring.Staging

/-!
# The forward pass

Layer by layer the scores of the sequences that end their prompts are
recorded, exactly on the layers whose visible length is above the budget, and
taken out again: behind each layer for a staged step, behind the pass for all
others.

`Passed n` and `Collected n` are the states of the pass before and inside
layer `n`, `Evicted n` that of the evictions behind it; each method takes one
to the next.
-/

namespace ScoringConfig

variable {Id : Type} {config : ScoringConfig} {kv : SequenceKv} {seq : ChainSequence Id}
  {table : ℕ → SequenceKv} {batch : List (ChainSequence Id)} {staging : PrefillStaging}

section

variable (config kv seq staging)

/-- The length the queries of the chunk see in a layer. -/
def visibleLen (layer : ℕ) : ℤ :=
  if seq.isChainResume then (prepareLayer staging seq (kv.rowSeqLens layer)).1
  else seq.numPromptTokens

/-- The scores of a layer are needed and computed. -/
def Scored (layer : ℕ) : Prop :=
  seq.endsPrompt = true ∧ 0 < config.snapkvWindowSize ∧ ∃ budget,
    config.prefillScoreLayerBudget layer = some budget ∧ budget < visibleLen kv seq staging layer

/-- The sequence goes through the staging tensor as the step does. -/
structure Fits : Prop where
  full_eq : staging = .full → seq.numPrefilledTokens = 0 ∧ seq.chunkSize = seq.remainingPrefillTokens
  long_eq : staging = .longOffload → config.rawOffloads kv seq = true

end

instance (layer : ℕ) : Decidable (config.Scored kv seq staging layer) := by
  unfold Scored
  cases h : config.prefillScoreLayerBudget layer with
  | none => exact isFalse fun hscored => by simp at hscored
  | some budget =>
      exact decidable_of_iff (seq.endsPrompt = true ∧ 0 < config.snapkvWindowSize ∧
        budget < visibleLen kv seq staging layer) (by simp)

/-- A prompt behind a resumed chain is not staged as a first prefill. -/
theorem Fits.not_full (hfits : config.Fits kv seq staging) (hrun : config.Runnable kv seq)
    (hresume : seq.isChainResume = true) : staging ≠ .full := by
  intro hfull
  have hpos := hrun.attached_pos hresume
  have hle := hrun.attached_le (isRecomputeReplay_of_resume hresume)
  have hzero := (hfits.full_eq hfull).1
  omega

/-- Behind a resumed chain the context is the row and what the turn has appended
to it. -/
theorem prepareLayer_resume (hresume : seq.isChainResume = true) (hrun : config.Runnable kv seq)
    (hnotfull : staging ≠ .full) (layer : ℕ) :
    (prepareLayer staging seq (kv.rowSeqLens layer)).1 = (kv.rowSeqLens layer).getD 0 +
      (if staging = .longOffload then seq.numPrefilledTokens - seq.attachedTokens else 0) +
      seq.chunkSize := by
  cases staging with
  | none =>
      unfold prepareLayer
      simp [hresume]
  | full => exact absurd rfl hnotfull
  | longOffload =>
      have hstart : residualStart .longOffload seq = seq.attachedTokens := by
        unfold residualStart
        rw [if_pos ⟨rfl, isRecomputeReplay_of_resume hresume⟩]
      unfold prepareLayer
      dsimp only
      rw [hstart, if_pos (hrun.attached_pos hresume), if_pos rfl]

/-- At the end of the prompt no layer is longer than `finalLen`. -/
theorem visibleLen_le (hrun : config.Runnable kv seq) (hfits : config.Fits kv seq staging)
    (hends : seq.endsPrompt = true) (layer : ℕ) :
    visibleLen kv seq staging layer ≤ config.finalLen kv seq layer := by
  have hchunk := hrun.endsPrompt_iff.mp hends
  unfold visibleLen finalLen
  split
  · next hresume =>
    have hnotfull := hfits.not_full hrun hresume
    have hle := hrun.attached_le (isRecomputeReplay_of_resume hresume)
    rw [prepareLayer_resume hresume hrun hnotfull, hchunk]
    unfold ChainSequence.remainingPrefillTokens
    split
    · next hlong =>
      rw [if_pos (hfits.long_eq hlong)]
      have hmax := le_max_right 0 (seq.numPromptTokens - seq.attachedTokens)
      omega
    · split
      · have hmax := le_max_right 0 (seq.numPromptTokens - seq.attachedTokens)
        omega
      · omega
  · exact le_refl _

variable {layer n : ℕ} {budget : ℤ} {current : SequenceKv} {staged : Bool}

section

variable (hrun : config.Runnable kv seq) (hfits : config.Fits kv seq staging)
  (hends : seq.endsPrompt = true)

include hrun hfits hends

/-- A scored layer is one of those the scheduler kept the window for. -/
theorem needsScore_of_long (hlayer : layer < config.numKvLayers)
    (hbudget : config.prefillScoreLayerBudget layer = some budget)
    (hlong : budget < visibleLen kv seq staging layer) : config.NeedsScore kv seq :=
  ⟨layer, hlayer, budget, hbudget, hlong.trans_le (visibleLen_le hrun hfits hends layer)⟩

/-- The context length of a prompt that ends is what its queries see. -/
theorem contextLen_eq (layer : ℕ) :
    (prepareLayer staging seq (kv.rowSeqLens layer)).1 = visibleLen kv seq staging layer := by
  unfold visibleLen
  split
  · rfl
  · next hresume =>
    rw [Bool.not_eq_true] at hresume
    have hchunk := hrun.endsPrompt_iff.mp hends
    unfold ChainSequence.remainingPrefillTokens at hchunk
    cases hstaging : staging with
    | none =>
        unfold prepareLayer
        simp only [hresume, Bool.false_eq_true, if_false]
        omega
    | full =>
        have hfirst := (hfits.full_eq hstaging).1
        unfold prepareLayer
        dsimp only
        omega
    | longOffload =>
        have hstart : residualStart .longOffload seq = 0 := by
          unfold residualStart
          split
          · next hfresh => exact hrun.unattached hresume hfresh.2
          · rfl
        unfold prepareLayer
        dsimp only
        rw [hstart, if_neg (Int.lt_irrefl 0)]
        omega

end

/-! ## One sequence -/

/-- The sequence with its context lengths. -/
def prepared (staging : PrefillStaging) (kv : SequenceKv) (seq : ChainSequence Id) :
    PreparedSequence Id :=
  ⟨seq, fun layer => (prepareLayer staging seq (kv.rowSeqLens layer)).1⟩

/-- The rows a step prepares. -/
def preparedKv (config : ScoringConfig) (staging : PrefillStaging) (seq : ChainSequence Id)
    (kv : SequenceKv) : SequenceKv :=
  let rows : ℕ → Option ℤ := fun layer =>
    if layer < config.numKvLayers then some (prepareLayer staging seq (kv.rowSeqLens layer)).2
    else kv.rowSeqLens layer
  { kv with rowSeqLens := rows }

theorem prepareSequence_eq (staging : PrefillStaging) (hrun : config.Runnable kv seq) :
    config.prepareSequence staging seq kv = .ok (config.preparedKv staging seq kv) := by
  have hcleared : (if seq.numPrefilledTokens = 0 ∨
      (seq.isChainResume && decide (seq.numPrefilledTokens = seq.chainReusedTokens)) = true then
        ({ kv with scoreAccumulators := fun _ => none } : SequenceKv) else kv) = kv := by
    split
    · have hscores : kv.scoreAccumulators = fun _ => none := funext hrun.scores
      rw [← hscores]
    · rfl
  have hstart : residualStart staging seq ≤ seq.numPrefilledTokens := by
    unfold residualStart
    split
    · next hlong => exact hrun.attached_le hlong.2
    · exact hrun.prefilled_nonneg
  unfold prepareSequence
  dsimp only
  rw [hcleared, if_neg (by omega), if_neg]
  · rfl
  · rintro ⟨hpos, hmissing⟩
    have hresume : seq.isChainResume = true := by
      by_contra hnot
      rw [Bool.not_eq_true] at hnot
      unfold residualStart at hpos
      split at hpos
      · next hlong =>
        rw [hrun.unattached hnot hlong.2] at hpos
        exact absurd hpos (Int.lt_irrefl 0)
      · exact absurd hpos (Int.lt_irrefl 0)
    obtain ⟨layer, hlayer, hnone⟩ := List.any_eq_true.mp hmissing
    have hsome := hrun.rows hresume layer (List.mem_range.mp hlayer)
    cases hrow : kv.rowSeqLens layer with
    | none =>
        rw [hrow] at hsome
        exact nomatch hsome
    | some length =>
        rw [hrow] at hnone
        exact nomatch hnone

/-- The row behind an unstaged chunk. -/
theorem prepareLayer_none_resume (hresume : seq.isChainResume = true) (row : Option ℤ) :
    (prepareLayer .none seq row).2 = (prepareLayer .none seq row).1 := by
  unfold prepareLayer
  simp [hresume]

theorem physicalContextLen_eq (hlayer : layer < config.numKvLayers)
    (hrows : current.rowSeqLens layer = (config.preparedKv staging seq kv).rowSeqLens layer) :
    physicalContextLen staging layer (prepared staging kv seq) current = .ok (visibleLen kv seq staging layer) := by
  have hsame : (prepared staging kv seq).seq.isChainResume = seq.isChainResume := rfl
  unfold physicalContextLen visibleLen
  by_cases hresume : seq.isChainResume = true
  · rw [if_pos (hsame.trans hresume), if_pos hresume]
    unfold stagingContextLen
    cases hstaging : staging with
    | none =>
        rw [if_pos rfl]
        unfold SequenceKv.chainPhysicalKvLen
        rw [hrows]
        unfold preparedKv
        simp only [hlayer, if_true, hstaging]
        exact congrArg Except.ok (prepareLayer_none_resume hresume _)
    | full => rfl
    | longOffload => rfl
  · rw [if_neg (hsame ▸ hresume), if_neg hresume]
    rfl

/-- The window fits: `_prefill_score_rows` never raises, and it takes the row of
the last chunk. -/
theorem prefillScoreRow_eq (hlayer : layer < config.numKvLayers) (hrun : config.Runnable kv seq)
    (hfits : config.Fits kv seq staging)
    (hrows : current.rowSeqLens layer = (config.preparedKv staging seq kv).rowSeqLens layer) :
    ∃ row, config.prefillScoreRow staging layer (prepared staging kv seq) current = .ok row ∧
      (row.isSome = true ↔ config.Scored kv seq staging layer) := by
  have hlen := physicalContextLen_eq hlayer hrows
  unfold prefillScoreRow Scored
  cases hbudget : config.prefillScoreLayerBudget layer with
  | none => exact ⟨none, rfl, by simp⟩
  | some budget =>
    dsimp only
    split
    · next hwindow => exact ⟨none, rfl, by simp; omega⟩
    · next hwindow =>
      rw [Int.not_le] at hwindow
      have hchunk : (prepared staging kv seq).seq.currentChunkSize = some seq.chunkSize := hrun.chunk_eq
      rw [hchunk]
      dsimp only
      rw [hlen]
      change ∃ row, (if visibleLen kv seq staging layer ≤ budget then _ else _) = Except.ok row ∧ _
      split
      · next hshort => exact ⟨none, rfl, by simp; omega⟩
      · next hlong =>
        rw [Int.not_le] at hlong
        have hkept : seq.endsPrompt = true →
            seq.numPrefilledTokens ≤ seq.numPromptTokens - seq.scoreWindow config.snapkvWindowSize := by
          intro hends
          have hwin := hrun.window hwindow (needsScore_of_long hrun hfits hends hlayer hbudget hlong)
          unfold ChainSequence.remainingPrefillTokens at hwin
          omega
        have hscored : seq.endsPrompt = true ↔ seq.endsPrompt = true ∧ 0 < config.snapkvWindowSize ∧
            ∃ b, some budget = some b ∧ b < visibleLen kv seq staging layer :=
          ⟨fun h => ⟨h, hwindow, budget, rfl, hlong⟩, fun h => h.1⟩
        rw [← hscored]
        have hseq : (prepared staging kv seq).seq = seq := rfl
        rw [hseq]
        by_cases hends : seq.endsPrompt = true
        · have hlast := of_decide_eq_true hends
          have hfits := hkept hends
          have hmax := le_max_right 0 (seq.numPromptTokens - seq.scoreWindow config.snapkvWindowSize)
          rw [if_pos ⟨by omega, hlast⟩]
          split
          · exact ⟨_, rfl, by simp [hends]⟩
          · exact ⟨_, rfl, by simp [hends]⟩
        · have hmore : ¬ seq.numPromptTokens ≤ seq.numPrefilledTokens + seq.chunkSize :=
            fun h => hends (decide_eq_true h)
          rw [if_neg fun h => hmore h.2, if_neg fun h => hends h.1]
          exact ⟨none, rfl, by simp [hends]⟩

/-! ## The passes over one sequence -/

section

variable (config kv seq staging)

/-- What a compaction to the budget leaves of a layer that sees `visibleLen`. -/
def cutLen (layer : ℕ) (row : Option ℤ) : Option ℤ :=
  match config.prefillScoreLayerBudget layer with
  | none => row
  | some budget =>
      if visibleLen kv seq staging layer ≤ budget then row
      else some (snapkvSelectCount config.toWindowConfig (visibleLen kv seq staging layer) budget)

/-- The phase of the sequence was asked about, or not. -/
def SamePhase (current : SequenceKv) : Prop :=
  current.rawOffloadPrefillPhase = kv.rawOffloadPrefillPhase ∨
    current.rawOffloadPrefillPhase = (config.asked kv seq).rawOffloadPrefillPhase

/-- The sequence after the attention of the layers below `n`. -/
structure Passed (staged : Bool) (n : ℕ) (current : SequenceKv) : Prop where
  rows : ∀ layer < config.numKvLayers, current.rowSeqLens layer =
    if staged = true ∧ layer < n then
      config.cutLen kv seq staging layer (some (visibleLen kv seq staging layer))
    else (config.preparedKv staging seq kv).rowSeqLens layer
  scores : ∀ layer, (current.scoreAccumulators layer).isSome = true ↔
    staged = false ∧ layer < n ∧ config.Scored kv seq staging layer
  phase : config.SamePhase kv seq current

/-- The sequence after the scores of layer `n` are recorded. -/
structure Collected (staged : Bool) (n : ℕ) (current : SequenceKv) : Prop where
  rows : ∀ layer < config.numKvLayers, current.rowSeqLens layer =
    if staged = true ∧ layer < n then
      config.cutLen kv seq staging layer (some (visibleLen kv seq staging layer))
    else (config.preparedKv staging seq kv).rowSeqLens layer
  scores : ∀ layer, (current.scoreAccumulators layer).isSome = true ↔
    (staged = false ∧ layer < n ∨ layer = n) ∧ config.Scored kv seq staging layer
  phase : config.SamePhase kv seq current

/-- The sequence after the eviction of the layers below `n`. -/
structure Evicted (n : ℕ) (current : SequenceKv) : Prop where
  rows : ∀ layer < config.numKvLayers, current.rowSeqLens layer =
    if layer < n then
      config.cutLen kv seq staging layer ((config.preparedKv staging seq kv).rowSeqLens layer)
    else (config.preparedKv staging seq kv).rowSeqLens layer
  scores : ∀ layer, (current.scoreAccumulators layer).isSome = true ↔
    n ≤ layer ∧ layer < config.numKvLayers ∧ config.Scored kv seq staging layer
  phase : config.SamePhase kv seq current

end

section

variable (h : current.rawOffloadPrefillPhase = kv.rawOffloadPrefillPhase)

include h

/-- The phase of a record decides how it is asked about. -/
theorem rawOffloads_congr : config.rawOffloads current seq = config.rawOffloads kv seq := by
  unfold rawOffloads
  rw [h]

theorem asked_phase_congr :
    (config.asked current seq).rawOffloadPrefillPhase = (config.asked kv seq).rawOffloadPrefillPhase := by
  unfold asked
  rw [rawOffloads_congr h]
  split
  · exact h
  · rfl

end

theorem SamePhase.asked (h : config.SamePhase kv seq current) :
    config.SamePhase kv seq (config.asked current seq) := by
  rcases h with h | h
  · exact .inr (asked_phase_congr h)
  · right
    rw [asked_phase_congr h, asked_asked]

theorem Passed.asked (h : config.Passed kv seq staging staged n current) :
    config.Passed kv seq staging staged n (config.asked current seq) := by
  refine ⟨?_, ?_, h.phase.asked⟩
  · rw [asked_rowSeqLens]
    exact h.rows
  · rw [asked_scoreAccumulators]
    exact h.scores

/-- A step starts with the prepared rows and no scores. -/
theorem Passed.start (hrun : config.Runnable kv seq) (staged : Bool) :
    config.Passed kv seq staging staged 0 (config.preparedKv staging seq kv) := by
  refine ⟨fun layer _ => ?_, fun layer => ?_, .inl rfl⟩
  · rw [if_neg fun h => Nat.not_lt_zero layer h.2]
  · have hnone : (config.preparedKv staging seq kv).scoreAccumulators layer = none := hrun.scores layer
    rw [hnone]
    simp

/-- The scores of a layer are recorded when its rows are scored. -/
theorem collectScore_eq (hn : n < config.numKvLayers) (hrun : config.Runnable kv seq)
    (hfits : config.Fits kv seq staging) (h : config.Passed kv seq staging staged n current) :
    ∃ later, config.collectScore staging n (prepared staging kv seq) current = .ok later ∧
      config.Collected kv seq staging staged n later := by
  have hrow := h.rows n hn
  rw [if_neg fun hlt => Nat.lt_irrefl n hlt.2] at hrow
  obtain ⟨row, hscore, hscored⟩ := prefillScoreRow_eq hn hrun hfits hrow
  have hfree : current.scoreAccumulators n = none := by
    have hnot : ¬ (current.scoreAccumulators n).isSome = true :=
      fun hsome => Nat.lt_irrefl n ((h.scores n).mp hsome).2.1
    simpa using hnot
  unfold collectScore
  rw [hscore]
  cases row with
  | none =>
      have hnot : ¬ config.Scored kv seq staging n := fun hs => nomatch hscored.mpr hs
      refine ⟨current, rfl, h.rows, fun layer => ?_, h.phase⟩
      rw [h.scores layer]
      constructor
      · exact fun hsome => ⟨.inl ⟨hsome.1, hsome.2.1⟩, hsome.2.2⟩
      · rintro ⟨hlayer | rfl, hs⟩
        · exact ⟨hlayer.1, hlayer.2, hs⟩
        · exact absurd hs hnot
  | some range =>
      have hs : config.Scored kv seq staging n := hscored.mp rfl
      have hexisting : (if (prepared staging kv seq).seq.numPrefilledTokens = 0 then none
          else current.scoreAccumulators n) = none := by
        rw [hfree]
        split <;> rfl
      refine ⟨current.setScores n (some ((prepared staging kv seq).contextLens n)), ?_, h.rows,
        fun layer => ?_, h.phase⟩
      · change (if Option.any _ (if (prepared staging kv seq).seq.numPrefilledTokens = 0 then none
          else current.scoreAccumulators n) = true then _ else _) = _
        rw [hexisting]
        rfl
      · change (Function.update current.scoreAccumulators n (some _) layer).isSome = true ↔ _
        by_cases hlayer : layer = n
        · subst hlayer
          simp [hs]
        · rw [Function.update_of_ne hlayer, h.scores layer]
          constructor
          · exact fun hsome => ⟨.inl ⟨hsome.1, hsome.2.1⟩, hsome.2.2⟩
          · rintro ⟨hlt | heq, hscore⟩
            · exact ⟨hlt.1, hlt.2, hscore⟩
            · exact absurd heq hlayer

/-- Without staging nothing else happens behind a layer. -/
theorem Collected.unstaged (h : config.Collected kv seq staging false n current) :
    config.Passed kv seq staging false (n + 1) current := by
  refine ⟨fun layer hlayer => ?_, fun layer => ?_, h.phase⟩
  · rw [h.rows layer hlayer, if_neg (by simp), if_neg (by simp)]
  · rw [h.scores layer]
    constructor
    · rintro ⟨hlt | rfl, hs⟩
      · exact ⟨rfl, hlt.2.trans n.lt_succ_self, hs⟩
      · exact ⟨rfl, layer.lt_succ_self, hs⟩
    · rintro ⟨-, hlt, hs⟩
      rcases Nat.lt_succ_iff_lt_or_eq.mp hlt with hlt | rfl
      · exact ⟨.inl ⟨rfl, hlt⟩, hs⟩
      · exact ⟨.inr rfl, hs⟩

/-- Where scores are needed, they are there. -/
theorem scored_of_long (hlayer : layer < config.numKvLayers) (hrun : config.Runnable kv seq)
    (hfits : config.Fits kv seq staging) (hends : seq.endsPrompt = true)
    (hcondition : config.NeedsScore kv seq → 0 < config.snapkvWindowSize)
    (hbudget : config.prefillScoreLayerBudget layer = some budget)
    (hlong : budget < visibleLen kv seq staging layer) : config.Scored kv seq staging layer :=
  ⟨hends, hcondition (needsScore_of_long hrun hfits hends hlayer hbudget hlong), budget, hbudget, hlong⟩

/-- The staged tokens of a layer are written to its row. -/
theorem materializeStaging_eq (hn : n < config.numKvLayers) (hrun : config.Runnable kv seq)
    (hfits : config.Fits kv seq staging) (hends : seq.endsPrompt = true) (hstaging : staging ≠ .none)
    (hcondition : config.NeedsScore kv seq → 0 < config.snapkvWindowSize)
    (h : config.Collected kv seq staging true n current) :
    ∃ later, config.materializeStaging staging n (prepared staging kv seq) current = .ok later ∧
      config.Passed kv seq staging true (n + 1) later := by
  have hlen : (prepared staging kv seq).contextLens n = visibleLen kv seq staging n :=
    contextLen_eq hrun hfits hends n
  -- only the layer just collected has scores:
  have hscores : ∀ layer, (current.scoreAccumulators layer).isSome = true ↔
      layer = n ∧ config.Scored kv seq staging layer := by
    intro layer
    rw [h.scores layer]
    simp
  unfold materializeStaging stagingContextLen
  rw [if_neg hstaging]
  dsimp only
  rw [hlen]
  have hrows : ∀ (row : Option ℤ), row = config.cutLen kv seq staging n (some (visibleLen kv seq staging n)) →
      ∀ layer < config.numKvLayers, Function.update current.rowSeqLens n row layer =
        if true = true ∧ layer < n + 1 then
          config.cutLen kv seq staging layer (some (visibleLen kv seq staging layer))
        else (config.preparedKv staging seq kv).rowSeqLens layer := by
    rintro row rfl layer hlayer
    by_cases heq : layer = n
    · subst heq
      rw [Function.update_self, if_pos ⟨rfl, layer.lt_succ_self⟩]
    · rw [Function.update_of_ne heq, h.rows layer hlayer]
      apply if_congr _ rfl rfl
      simp only [true_and]
      omega
  unfold keepScored
  cases hbudget : config.prefillScoreLayerBudget n with
  | none =>
      refine ⟨_, rfl, hrows _ ?_, fun layer => ?_, h.phase⟩
      · unfold cutLen
        rw [hbudget]
      · change (current.scoreAccumulators layer).isSome = true ↔ _
        rw [hscores layer]
        constructor
        · rintro ⟨rfl, -, -, budget, hsome, -⟩
          rw [hbudget] at hsome
          exact nomatch hsome
        · rintro ⟨hfalse, -⟩
          exact nomatch hfalse
  | some budget =>
    dsimp only
    split
    · next hshort =>
      refine ⟨_, rfl, hrows _ ?_, fun layer => ?_, h.phase⟩
      · unfold cutLen
        rw [hbudget]
        dsimp only
        rw [if_pos hshort]
      · change (current.scoreAccumulators layer).isSome = true ↔ _
        rw [hscores layer]
        constructor
        · rintro ⟨rfl, -, -, found, hsome, hlong⟩
          rw [hbudget] at hsome
          obtain rfl := Option.some.inj hsome
          exact absurd hlong (Int.not_lt.mpr hshort)
        · rintro ⟨hfalse, -⟩
          exact nomatch hfalse
    · next hlong =>
      -- a row over the budget is cut, so its scores must have been collected:
      have hs := scored_of_long hn hrun hfits hends hcondition hbudget (Int.not_le.mp hlong)
      obtain ⟨size, hsize⟩ := Option.isSome_iff_exists.mp ((hscores n).mpr ⟨rfl, hs⟩)
      rw [hsize]
      refine ⟨_, rfl, hrows _ ?_, fun layer => ?_, h.phase⟩
      · unfold cutLen
        rw [hbudget]
        dsimp only
        rw [if_neg hlong]
      · change (Function.update current.scoreAccumulators n none layer).isSome = true ↔ _
        by_cases heq : layer = n
        · subst heq
          rw [Function.update_self]
          simp
        · rw [Function.update_of_ne heq, hscores layer]
          simp [heq]

/-- A prompt that has ended is cut back layer by layer. -/
theorem evictPrompt_eq (hn : n < config.numKvLayers) (hrun : config.Runnable kv seq)
    (hfits : config.Fits kv seq .none) (hends : seq.endsPrompt = true)
    (hcondition : config.NeedsScore kv seq → 0 < config.snapkvWindowSize)
    (h : config.Evicted kv seq .none n current) :
    ∃ later, config.evictPrompt n (prepared .none kv seq) current = .ok later ∧
      config.Evicted kv seq .none (n + 1) later := by
  have hrow : current.rowSeqLens n = (config.preparedKv .none seq kv).rowSeqLens n := by
    rw [h.rows n hn, if_neg (Nat.lt_irrefl n)]
  have hkvLen : evictedKvLen n seq current = .ok (visibleLen kv seq .none n) := by
    unfold evictedKvLen visibleLen
    split
    · next hresume =>
      unfold SequenceKv.chainPhysicalKvLen
      rw [hrow]
      unfold preparedKv
      simp only [hn, if_true]
      exact congrArg Except.ok (prepareLayer_none_resume hresume _)
    · have hchunk := hrun.endsPrompt_iff.mp hends
      unfold ChainSequence.remainingPrefillTokens at hchunk
      exact congrArg Except.ok (by omega)
  -- the layer is cut to `row`, and its scores are gone
  have hnext : ∀ (row : Option ℤ) (scores : Option ℤ),
      row = config.cutLen kv seq .none n ((config.preparedKv .none seq kv).rowSeqLens n) →
      scores = none → ∀ later : SequenceKv,
      later.rowSeqLens = Function.update current.rowSeqLens n row →
      later.scoreAccumulators = Function.update current.scoreAccumulators n scores →
      later.rawOffloadPrefillPhase = current.rawOffloadPrefillPhase →
      config.Evicted kv seq .none (n + 1) later := by
    rintro row scores rfl rfl later hrows hscores hphase
    refine ⟨fun layer hlayer => ?_, fun layer => ?_, ?_⟩
    · rw [hrows]
      by_cases heq : layer = n
      · subst heq
        rw [Function.update_self, if_pos layer.lt_succ_self]
      · rw [Function.update_of_ne heq, h.rows layer hlayer]
        apply if_congr _ rfl rfl
        omega
    · rw [hscores]
      by_cases heq : layer = n
      · subst heq
        rw [Function.update_self]
        simp
      · rw [Function.update_of_ne heq, h.scores layer]
        apply and_congr_left
        intro _
        omega
    · unfold SamePhase
      rw [hphase]
      exact h.phase
  have hskipped : ¬ config.Scored kv seq .none n →
      config.cutLen kv seq .none n ((config.preparedKv .none seq kv).rowSeqLens n) =
        (config.preparedKv .none seq kv).rowSeqLens n →
      config.Evicted kv seq .none (n + 1) current := by
    intro hnot hsame
    have hfree : current.scoreAccumulators n = none := by
      have hnone : ¬ (current.scoreAccumulators n).isSome = true :=
        fun hsome => hnot ((h.scores n).mp hsome).2.2
      simpa using hnone
    apply hnext _ _ rfl rfl current _ _ rfl
    · rw [hsame, ← hrow, Function.update_eq_self]
    · rw [← hfree, Function.update_eq_self]
  unfold evictPrompt
  cases hbudget : config.prefillScoreLayerBudget n with
  | none =>
      refine ⟨current, rfl, hskipped ?_ ?_⟩
      · rintro ⟨-, -, budget, hsome, -⟩
        rw [hbudget] at hsome
        exact nomatch hsome
      · unfold cutLen
        rw [hbudget]
  | some budget =>
    change ∃ later, ((evictedKvLen n seq current).bind fun kvLen =>
      if kvLen ≤ budget then Except.ok current else config.keepScored n kvLen current) = .ok later ∧ _
    rw [hkvLen]
    change ∃ later, (if visibleLen kv seq .none n ≤ budget then Except.ok current
      else config.keepScored n (visibleLen kv seq .none n) current) = .ok later ∧ _
    split
    · next hshort =>
      refine ⟨current, rfl, hskipped ?_ ?_⟩
      · rintro ⟨-, -, found, hsome, hlong⟩
        rw [hbudget] at hsome
        obtain rfl := Option.some.inj hsome
        exact absurd hlong (Int.not_lt.mpr hshort)
      · unfold cutLen
        rw [hbudget]
        dsimp only
        rw [if_pos hshort]
    · next hlong =>
      have hs := scored_of_long hn hrun hfits hends hcondition hbudget (Int.not_le.mp hlong)
      obtain ⟨size, hsize⟩ :=
        Option.isSome_iff_exists.mp ((h.scores n).mpr ⟨Nat.le_refl n, hn, hs⟩)
      unfold keepScored
      rw [hbudget]
      dsimp only
      rw [if_neg hlong, hsize]
      refine ⟨_, rfl, hnext _ _ ?_ rfl _ rfl rfl rfl⟩
      unfold cutLen
      rw [hbudget]
      dsimp only
      rw [if_neg hlong]

end ScoringConfig
