import SparseEngine.DecodeWindow.Growth

/-!
# The observation window of R-KV

R-KV compacts a row at the end of an interval, when the row is long enough and
the queries of the last tokens have been recorded since the last prefill,
replay step or compaction.  A row that is long enough but lacks queries is not
compacted for another interval (`exists_overgrown`); this comes about only
when a replay ends shortly before the end of an interval.
-/

namespace DecodeRow

open Sawtooth

variable {Id : Type} {config : WindowConfig} {step : DecodeStep} {row next : DecodeRow Id}

/-- A sequence that generates new tokens. -/
structure Generating (config : WindowConfig) (row : DecodeRow Id) : Prop where
  replay_eq : row.seq.isRecomputeReplay = false
  completion_pos : 0 < row.seq.numCompletionTokens
  uniform : ∀ layer < config.numKvLayers, row.rowSeqLens layer = row.rowSeqLens 0

/-- The decode steps up to the end of the interval. -/
def stepsToBoundary (config : WindowConfig) (row : DecodeRow Id) : ℤ :=
  config.rkvCompressionInterval -
    (row.seq.numCompletionTokens - 1) % config.rkvCompressionInterval

/-- The queries of the last tokens before length `kvLen` are there, as far as
the row goes. -/
def Observed (config : WindowConfig) (row : DecodeRow Id) (kvLen : ℤ) : Prop :=
  ∀ layer < config.numKvLayers, ∀ position, kvLen - config.rkvObservationTokens ≤ position →
    position < row.rowSeqLens 0 →
      row.queryPositions layer (position % config.rkvObservationTokens) = position

/-- If the row is long enough at the end of the interval, then all queries will
be there, or the row has lost tokens, and the step raises. -/
def ObservedInTime (config : WindowConfig) (row : DecodeRow Id) : Prop :=
  config.keepBudget + config.rkvCompressionInterval ≤
      row.rowSeqLens 0 + row.stepsToBoundary config →
    row.rowSeqLens 0 + 1 < row.seq.numTokens ∨
      row.Observed config (row.rowSeqLens 0 + row.stepsToBoundary config)

section

variable (hvalid : config.Validated)

include hvalid

theorem interval_pos : 0 < config.rkvCompressionInterval :=
  hvalid.observation_pos.trans_le hvalid.observation_le

theorem stepsToBoundary_pos (row : DecodeRow Id) :
    0 < row.stepsToBoundary config ∧ row.stepsToBoundary config ≤ config.rkvCompressionInterval := by
  have hlow := Int.emod_nonneg (row.seq.numCompletionTokens - 1) (interval_pos hvalid).ne'
  have hhigh := Int.emod_lt_of_pos (row.seq.numCompletionTokens - 1) (interval_pos hvalid)
  unfold stepsToBoundary
  omega

/-- The interval ends with the next step. -/
theorem stepsToBoundary_eq_one_iff :
    row.stepsToBoundary config = 1 ↔ row.seq.numCompletionTokens % config.rkvCompressionInterval = 0 := by
  have hnext := emod_succ (interval_pos hvalid) (row.seq.numCompletionTokens - 1)
  have hlow := Int.emod_nonneg (row.seq.numCompletionTokens - 1) (interval_pos hvalid).ne'
  rw [Int.sub_add_cancel] at hnext
  unfold stepsToBoundary
  rw [hnext]
  split <;> omega

/-- One more token has been generated. -/
theorem stepsToBoundary_succ (hnext : next.seq.numCompletionTokens = row.seq.numCompletionTokens + 1) :
    next.stepsToBoundary config = if row.stepsToBoundary config = 1 then
      config.rkvCompressionInterval else row.stepsToBoundary config - 1 := by
  have hsucc := emod_succ (interval_pos hvalid) (row.seq.numCompletionTokens - 1)
  rw [Int.sub_add_cancel] at hsucc
  unfold stepsToBoundary
  rw [hnext, Int.add_sub_cancel, hsucc]
  split <;> split <;> omega

theorem observationReady_iff {kvLen : ℤ} :
    row.observationReady config kvLen = true ↔ ∀ layer < config.numKvLayers, ∀ position,
      kvLen - config.rkvObservationTokens ≤ position → position < kvLen →
        row.queryPositions layer (position % config.rkvObservationTokens) = position := by
  have hpos := hvalid.observation_pos
  unfold observationReady
  simp only [List.all_eq_true, List.mem_range, decide_eq_true_eq]
  constructor
  · intro hready layer hlt position hlow hhigh
    have hentry := hready layer hlt (position - (kvLen - config.rkvObservationTokens)).toNat (by omega)
    rw [Int.toNat_of_nonneg (by omega)] at hentry
    rwa [show kvLen - config.rkvObservationTokens +
      (position - (kvLen - config.rkvObservationTokens)) = position by omega] at hentry
  · intro hready layer hlt offset hoffset
    exact hready layer hlt _ (by omega) (by omega)

end

variable {layer : ℕ}

/-- A step records the query of its token, in the place of one that is out of
the window. -/
theorem append_queryPositions (hgenerating : row.Generating config) (hlt : layer < config.numKvLayers) {position : ℤ}
    (hlow : row.rowSeqLens 0 - config.rkvObservationTokens < position) (hhigh : position < row.rowSeqLens 0) :
    (row.append config).queryPositions layer (position % config.rkvObservationTokens) =
      row.queryPositions layer (position % config.rkvObservationTokens) := by
  show (if config.sparseMethod = .rkv ∧ position % config.rkvObservationTokens =
      (row.rowSeqLens layer + 1 - 1) % config.rkvObservationTokens then _ else _) = _
  rw [if_neg]
  rintro ⟨-, hcolumn⟩
  rw [Int.add_sub_cancel, hgenerating.uniform layer hlt] at hcolumn
  -- two positions of one column are a window apart
  have hzero : (row.rowSeqLens 0 - position) % config.rkvObservationTokens = 0 := by
    rw [Int.sub_emod, hcolumn, Int.sub_self, Int.zero_emod]
  have hsmall : (row.rowSeqLens 0 - position) % config.rkvObservationTokens =
      row.rowSeqLens 0 - position := Int.emod_eq_of_lt (by omega) (by omega)
  omega

theorem append_queryPositions_self (hmethod : config.sparseMethod = .rkv)
    (hgenerating : row.Generating config) (hlt : layer < config.numKvLayers) :
    (row.append config).queryPositions layer (row.rowSeqLens 0 % config.rkvObservationTokens) = row.rowSeqLens 0 := by
  show (if config.sparseMethod = .rkv ∧ row.rowSeqLens 0 % config.rkvObservationTokens =
      (row.rowSeqLens layer + 1 - 1) % config.rkvObservationTokens then
        row.rowSeqLens layer + 1 - 1 else _) = _
  rw [Int.add_sub_cancel, hgenerating.uniform layer hlt, if_pos ⟨hmethod, rfl⟩]

/-- The counters after a step outside a replay. -/
theorem afterDecode_generating {seq : Sequence Id} (h : seq.isRecomputeReplay = false) (token : ℤ) :
    seq.afterDecode token = seq.appendToken token := by
  unfold Sequence.afterDecode Sequence.isRecomputeDecode
  rw [h, Bool.false_and, if_neg Bool.false_ne_true]

section

variable (hvalid : config.Validated)

include hvalid

/-- After the slot of a step, the queries are ready when the older ones are
there. -/
theorem observationReady_append_iff (hmethod : config.sparseMethod = .rkv) (hgenerating : row.Generating config) :
    (row.append config).observationReady config (row.rowSeqLens 0 + 1) = true ↔
      row.Observed config (row.rowSeqLens 0 + 1) := by
  rw [observationReady_iff hvalid]
  constructor
  · intro hall layer hlt position hlow hhigh
    rw [← append_queryPositions hgenerating hlt (by omega) hhigh]
    exact hall layer hlt position hlow (by omega)
  · intro hall layer hlt position hlow hhigh
    rcases Int.lt_or_eq_of_le (Int.lt_add_one_iff.mp hhigh) with hbefore | rfl
    · rw [append_queryPositions hgenerating hlt (by omega) hbefore]
      exact hall layer hlt position hlow hbefore
    · exact append_queryPositions_self hmethod hgenerating hlt

/-- **A step of a generating sequence**: the row grows, or is compacted at the
end of an interval. -/
theorem decodeStep_rkv (hmethod : config.sparseMethod = .rkv) (hgenerating : row.Generating config)
    (hstep : row.decodeStep config step = .ok next) :
    next.seq = row.seq.appendToken step.token ∧
      ((¬ (row.append config).AtBoundary config ∧
          next = { row.append config with seq := row.seq.appendToken step.token }) ∨
        ((row.append config).AtBoundary config ∧ row.Observed config (row.rowSeqLens 0 + 1) ∧
          next = ⟨row.seq.appendToken step.token, fun _ => config.keepBudget, fun _ _ => -1⟩) ∨
        ((row.append config).AtBoundary config ∧ ¬ row.Observed config (row.rowSeqLens 0 + 1) ∧
          row.seq.numTokens ≤ row.rowSeqLens 0 + 1 ∧
          next = { row.append config with seq := row.seq.appendToken step.token })) := by
  obtain ⟨later, hfinish, rfl⟩ := decodeStep_eq_ok hstep
  have hready := observationReady_append_iff hvalid hmethod hgenerating
  unfold finishStep at hfinish
  rw [hmethod] at hfinish
  obtain ⟨-, hcases⟩ := rkvFinishStep_eq_ok hvalid hfinish
  rw [afterDecode_generating hgenerating.replay_eq]
  refine ⟨rfl, ?_⟩
  have hlength : (row.append config).rowSeqLens 0 = row.rowSeqLens 0 + 1 := rfl
  rw [hlength] at hcases
  rcases hcases with ⟨hreplay, -⟩ | ⟨-, hno, rfl⟩ | ⟨-, hyes, hobserved, rfl⟩ | ⟨-, hyes, hmissing, hwhole, rfl⟩
  · exact absurd (hreplay.symm.trans hgenerating.replay_eq) Bool.false_ne_true.symm
  · exact .inl ⟨hno, rfl⟩
  · exact .inr (.inl ⟨hyes, hready.mp hobserved, rfl⟩)
  · refine .inr (.inr ⟨hyes, fun hobserved => ?_, hwhole, rfl⟩)
    exact absurd (hmissing.symm.trans (hready.mpr hobserved)) Bool.false_ne_true

/-- The row after the slot of the next step is at a boundary. -/
theorem append_atBoundary_iff (hgenerating : row.Generating config) :
    (row.append config).AtBoundary config ↔ row.stepsToBoundary config = 1 ∧
      config.keepBudget + config.rkvCompressionInterval ≤ row.rowSeqLens 0 + 1 := by
  rw [stepsToBoundary_eq_one_iff hvalid]
  exact and_iff_right hgenerating.completion_pos

section

variable (hmethod : config.sparseMethod = .rkv) (hgenerating : row.Generating config)

include hmethod hgenerating

theorem Generating.stepped (hstep : row.decodeStep config step = .ok next) :
    next.Generating config ∧ next.seq.numCompletionTokens = row.seq.numCompletionTokens + 1 ∧
      next.seq.numTokens = row.seq.numTokens + 1 := by
  obtain ⟨hseq, hcases⟩ := decodeStep_rkv hvalid hmethod hgenerating hstep
  have htokens : next.seq.numTokens = row.seq.numTokens + 1 := by rw [hseq]; rfl
  have hcompletion : next.seq.numCompletionTokens = row.seq.numCompletionTokens + 1 := by
    rw [hseq]
    show row.seq.numTokens + 1 - row.seq.numPromptTokens = row.seq.numTokens - row.seq.numPromptTokens + 1
    omega
  have hpos := hgenerating.completion_pos
  refine ⟨⟨?_, by omega, fun layer hlt => ?_⟩, hcompletion, htokens⟩
  · rw [hseq]
    exact hgenerating.replay_eq
  · have hsame := hgenerating.uniform layer hlt
    rcases hcases with ⟨-, rfl⟩ | ⟨-, -, rfl⟩ | ⟨-, -, -, rfl⟩
    · show row.rowSeqLens layer + 1 = row.rowSeqLens 0 + 1
      rw [hsame]
    · rfl
    · show row.rowSeqLens layer + 1 = row.rowSeqLens 0 + 1
      rw [hsame]

/-- **A step keeps the observations in time**, and a row that ends an interval
is short then. -/
theorem ObservedInTime.stepped (hintime : row.ObservedInTime config) (hstep : row.decodeStep config step = .ok next) :
    next.ObservedInTime config ∧ (row.stepsToBoundary config = 1 →
      next.rowSeqLens 0 < config.keepBudget + config.rkvCompressionInterval) := by
  obtain ⟨-, hcompletion, htokens⟩ := hgenerating.stepped hvalid hmethod hstep
  obtain ⟨-, hcases⟩ := decodeStep_rkv hvalid hmethod hgenerating hstep
  have hboundary := append_atBoundary_iff hvalid hgenerating
  have hsteps := stepsToBoundary_succ hvalid hcompletion
  have hwindow := hvalid.observation_le
  have hpositive := interval_pos hvalid
  -- a whole interval is left after a boundary, and the window fits into it
  have hfresh : row.stepsToBoundary config = 1 → next.ObservedInTime config := by
    intro hlast _
    rw [if_pos hlast] at hsteps
    exact .inr fun layer _ position hlow hhigh => by omega
  rcases hcases with ⟨hno, hnext⟩ | ⟨hyes, -, hnext⟩ | ⟨hyes, hmissing, hwhole, -⟩
  · have hlength : next.rowSeqLens 0 = row.rowSeqLens 0 + 1 := by rw [hnext]; rfl
    rw [hboundary, not_and] at hno
    refine ⟨?_, fun hlast => hlength ▸ Int.not_le.mp (hno hlast)⟩
    by_cases hlast : row.stepsToBoundary config = 1
    · exact hfresh hlast
    · rw [if_neg hlast] at hsteps
      intro hlong
      have hsum : next.rowSeqLens 0 + next.stepsToBoundary config =
          row.rowSeqLens 0 + row.stepsToBoundary config := by omega
      rw [hsum] at hlong ⊢
      rcases hintime hlong with hlost | hobserved
      · left
        omega
      · right
        intro layer hlt position hlow hhigh
        have hqueries : next.queryPositions = (row.append config).queryPositions := by rw [hnext]
        have hmore := stepsToBoundary_pos hvalid row
        rw [hqueries]
        rcases Int.lt_or_eq_of_le (Int.lt_add_one_iff.mp (hlength ▸ hhigh)) with hbefore | rfl
        · rw [append_queryPositions hgenerating hlt (by omega) hbefore]
          exact hobserved layer hlt position hlow hbefore
        · exact append_queryPositions_self hmethod hgenerating hlt
  · have hlast := (hboundary.mp hyes).1
    refine ⟨hfresh hlast, fun _ => ?_⟩
    rw [hnext]
    show config.keepBudget < _
    omega
  · -- the queries were in time, so they are not missing
    obtain ⟨hlast, hlong⟩ := hboundary.mp hyes
    rcases hintime (hlast.symm ▸ hlong) with hlost | hobserved
    · omega
    · rw [hlast] at hobserved
      exact absurd hobserved hmissing

/-- With the observations in time, a row grows by at most an interval beyond the
trigger length or its start. -/
theorem growthBounded_of_observedInTime (hintime : row.ObservedInTime config) {n : ℕ}
    (hlt : layer < config.numKvLayers) :
    row.GrowthBounded config n layer (min n
      (max (row.rowSeqLens layer) (config.keepBudget + config.rkvCompressionInterval - 1) +
        config.rkvCompressionInterval - row.rowSeqLens layer)) := by
  have hpositive := interval_pos hvalid
  refine growthBounded_of_append hvalid hlt (by omega) fun steps next hfew hrun => ?_
  have hgrown := decodeRun_grows hvalid hrun hlt
  have hperiod := length_le_of_period (fun row : DecodeRow Id => row.Generating config ∧ row.ObservedInTime config)
    (fun row => row.rowSeqLens layer) (fun row => row.seq.numCompletionTokens - 1)
    (config.keepBudget + config.rkvCompressionInterval) hpositive
    (fun step before after hbefore hstep => ⟨(hbefore.1.stepped hvalid hmethod hstep).1,
      (ObservedInTime.stepped hvalid hmethod hbefore.1 hbefore.2 hstep).1⟩)
    (fun step before after _ hstep => decodeStep_grows hvalid hstep hlt)
    (fun step before after hbefore hstep => by
      have hcount := (hbefore.1.stepped hvalid hmethod hstep).2.1
      omega)
    (fun step before after hbefore hstep hend => by
      obtain ⟨hafter, hcount, -⟩ := hbefore.1.stepped hvalid hmethod hstep
      rw [hcount, Int.add_sub_cancel] at hend
      have hlast := (stepsToBoundary_eq_one_iff hvalid).mpr hend
      rw [hafter.uniform layer hlt]
      exact (ObservedInTime.stepped hvalid hmethod hbefore.1 hbefore.2 hstep).2 hlast)
    hrun ⟨hgenerating, hintime⟩
  omega

end

end

/-! ## Rows that grow too long -/

/-- A row that is not compacted at a boundary, because queries are missing, goes
on growing. -/
theorem decodeStep_quiet (hvalid : config.Validated) (hmethod : config.sparseMethod = .rkv)
    (hgenerating : row.Generating config)
    (hquiet : (row.append config).AtBoundary config →
      ¬ row.Observed config (row.rowSeqLens 0 + 1) ∧ row.seq.numTokens ≤ row.rowSeqLens 0 + 1) :
    row.decodeStep config step = .ok { row.append config with seq := row.seq.appendToken step.token } := by
  have hfinish : (row.append config).finishStep config step = .ok (row.append config) := by
    unfold finishStep
    rw [hmethod]
    unfold rkvFinishStep
    have hsame : ¬ ((List.range config.numKvLayers).any fun layer =>
        decide ((row.append config).rowSeqLens layer ≠ (row.append config).rowSeqLens 0)) = true := by
      rw [Bool.not_eq_true, List.any_eq_false]
      intro layer hmem
      have huniform := hgenerating.uniform layer (List.mem_range.mp hmem)
      rw [decide_eq_true_eq, not_not]
      show row.rowSeqLens layer + 1 = row.rowSeqLens 0 + 1
      rw [huniform]
    have hlive : ¬ (row.append config).seq.isRecomputeReplay = true := by
      rw [show (row.append config).seq = row.seq from rfl, hgenerating.replay_eq]
      exact Bool.false_ne_true
    rw [if_neg hvalid.layers_pos.ne']
    dsimp only
    rw [if_neg hsame, if_neg hlive]
    split
    · next hboundary =>
      obtain ⟨hmissing, hwhole⟩ := hquiet hboundary
      have hnotready : ¬ (row.append config).observationReady config
          ((row.append config).rowSeqLens 0) = true := fun hready =>
        hmissing ((observationReady_append_iff hvalid hmethod hgenerating).mp hready)
      have hnotlost : ¬ (row.append config).rowSeqLens 0 < (row.append config).seq.numTokens :=
        Int.not_lt.mpr hwhole
      rw [if_neg hnotready, if_neg hnotlost]
    · rfl
  unfold decodeStep
  rw [hfinish, afterDecode_generating hgenerating.replay_eq]

/-- A step without a sampled token of interest and without other rows in the
batch. -/
def plainStep : DecodeStep := ⟨0, fun _ => [], none⟩

/-- The row has grown by `count` slots in as many steps. -/
structure Grown (config : WindowConfig) (count : ℕ) (row next : DecodeRow Id) : Prop where
  generating : next.Generating config
  length_eq : next.rowSeqLens 0 = row.rowSeqLens 0 + count
  completion_eq : next.seq.numCompletionTokens = row.seq.numCompletionTokens + count
  tokens_eq : next.seq.numTokens = row.seq.numTokens + count
  missing : ∀ kvLen, row.rowSeqLens 0 + count ≤ kvLen →
    ¬ row.Observed config kvLen → ¬ next.Observed config kvLen

theorem Grown.refl (hgenerating : row.Generating config) : Grown config 0 row row :=
  ⟨hgenerating, (Int.add_zero _).symm, (Int.add_zero _).symm, (Int.add_zero _).symm, fun _ _ hmissing => hmissing⟩

theorem Grown.trans {first second : ℕ} {last : DecodeRow Id} (hfirst : Grown config first row next)
    (hsecond : Grown config second next last) : Grown config (first + second) row last := by
  obtain ⟨-, hlength, hcompletion, htokens, hmissing⟩ := hfirst
  obtain ⟨hgenerating, hlength', hcompletion', htokens', hmissing'⟩ := hsecond
  refine ⟨hgenerating, ?_, ?_, ?_, fun kvLen hle hlacks => ?_⟩
  · push_cast
    omega
  · push_cast
    omega
  · push_cast
    omega
  · push_cast at hle
    exact hmissing' kvLen (by omega) (hmissing kvLen (by omega) hlacks)

section

variable (hvalid : config.Validated) (hmethod : config.sparseMethod = .rkv)

include hvalid hmethod

/-- A step that does not compact. -/
theorem exists_grown_one (hgenerating : row.Generating config)
    (hquiet : (row.append config).AtBoundary config →
      ¬ row.Observed config (row.rowSeqLens 0 + 1) ∧ row.seq.numTokens ≤ row.rowSeqLens 0 + 1) :
    ∃ next, row.decodeStep config plainStep = .ok next ∧ Grown config 1 row next := by
  have hstep : row.decodeStep config plainStep =
      .ok { row.append config with seq := row.seq.appendToken plainStep.token } :=
    decodeStep_quiet hvalid hmethod hgenerating hquiet
  refine ⟨_, hstep, ?_⟩
  obtain ⟨hnext, hcompletion, htokens⟩ := hgenerating.stepped hvalid hmethod hstep
  refine ⟨hnext, rfl, hcompletion, htokens, fun kvLen hle hmissing hall => hmissing ?_⟩
  intro layer hlt position hlow hhigh
  rw [← append_queryPositions hgenerating hlt (by push_cast at hle; omega) hhigh]
  exact hall layer hlt position hlow (hhigh.trans (Int.lt_add_one_iff.mpr (Int.le_refl _)))

/-- Up to the end of the interval the row grows. -/
theorem exists_grown (count : ℕ) (hgenerating : row.Generating config)
    (hbefore : count < row.stepsToBoundary config) :
    ∃ next, row.decodeRun config (List.replicate count plainStep) = .ok next ∧ Grown config count row next ∧
      next.stepsToBoundary config = row.stepsToBoundary config - count := by
  induction count generalizing row with
  | zero => exact ⟨row, rfl, .refl hgenerating, (Int.sub_zero _).symm⟩
  | succ count ih =>
      have hnotlast : row.stepsToBoundary config ≠ 1 := by
        push_cast at hbefore
        omega
      obtain ⟨middle, hstep, hone⟩ := exists_grown_one hvalid hmethod hgenerating fun hboundary =>
        absurd ((append_atBoundary_iff hvalid hgenerating).mp hboundary).1 hnotlast
      have hsteps := stepsToBoundary_succ hvalid hone.completion_eq
      rw [if_neg hnotlast] at hsteps
      obtain ⟨last, hrun, hmore, hleft⟩ := ih hone.generating (by push_cast at hbefore; omega)
      refine ⟨last, (runSteps_cons_of_ok hstep).trans hrun, ?_, ?_⟩
      · rw [Nat.add_comm]
        exact hone.trans hmore
      · push_cast
        omega

/-- **Without the observations in time**, a row grows by more than an interval
beyond both the trigger length and its start. -/
theorem exists_overgrown (hgenerating : row.Generating config) (hlate : ¬ row.ObservedInTime config) :
    ∃ steps next, row.decodeRun config steps = .ok next ∧
      max (row.rowSeqLens 0) (config.keepBudget + config.rkvCompressionInterval - 1) +
        config.rkvCompressionInterval < (next.append config).rowSeqLens 0 := by
  unfold ObservedInTime at hlate
  rw [Classical.not_imp, not_or, Int.not_lt] at hlate
  obtain ⟨hlong, hwhole, hmissing⟩ := hlate
  obtain ⟨hpos, -⟩ := stepsToBoundary_pos hvalid row
  have hperiod := interval_pos hvalid
  -- the last step of the interval does not compact the row, and no step of the next interval does
  have hcount : ((row.stepsToBoundary config - 1).toNat : ℤ) = row.stepsToBoundary config - 1 :=
    Int.toNat_of_nonneg (by omega)
  obtain ⟨before, hfirst, hgrown, hleft⟩ := exists_grown hvalid hmethod
    (row.stepsToBoundary config - 1).toNat hgenerating (by omega)
  have hlength := hgrown.length_eq
  have htokens := hgrown.tokens_eq
  rw [hcount] at hlength htokens hleft
  obtain ⟨middle, hstep, hone⟩ := exists_grown_one hvalid hmethod hgrown.generating fun _ => by
    refine ⟨?_, by omega⟩
    rw [show before.rowSeqLens 0 + 1 = row.rowSeqLens 0 + row.stepsToBoundary config by omega]
    exact hgrown.missing _ (by omega) hmissing
  have hfresh := stepsToBoundary_succ hvalid hone.completion_eq
  rw [if_pos (by omega)] at hfresh
  have hinterval : ((config.rkvCompressionInterval - 1).toNat : ℤ) =
      config.rkvCompressionInterval - 1 := Int.toNat_of_nonneg (by omega)
  obtain ⟨last, hsecond, hmore, -⟩ := exists_grown hvalid hmethod
    (config.rkvCompressionInterval - 1).toNat hone.generating (by omega)
  have hlonger := hone.length_eq
  have hlongest := hmore.length_eq
  refine ⟨_, last, (runSteps_append hfirst).trans ((runSteps_cons_of_ok hstep).trans hsecond), ?_⟩
  show _ < last.rowSeqLens 0 + 1
  omega

end

end DecodeRow
