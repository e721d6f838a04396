import SparseEngine.DecodeWindow.Model

/-!
# Rows that are compacted at a length

SnapKV rows only grow.  PyramidKV and StreamingLLM compact a row as soon as it
reaches the trigger length, so it stays below that length or below where it
started.
-/

/-- What `mapM` returns, entry by entry. -/
theorem getD_of_mapM {n : ℕ} {f : ℕ → Except PyError ℤ} {values : List ℤ}
    (h : (List.range n).mapM f = .ok values) {i : ℕ} (hlt : i < n) :
    f i = .ok (values.getD i 0) := by
  have hgeneral : ∀ (xs : List ℕ) (ys : List ℤ), xs.mapM f = .ok ys → ∀ j, (hj : j < xs.length) →
      f (xs.get ⟨j, hj⟩) = .ok (ys.getD j 0) := by
    intro xs
    induction xs with
    | nil => exact fun _ _ j hj => absurd hj (Nat.not_lt_zero j)
    | cons x xs ih =>
        intro ys hys j hj
        rw [List.mapM_cons] at hys
        cases hx : f x with
        | error error =>
            rw [hx] at hys
            exact nomatch hys
        | ok y =>
            rw [hx] at hys
            cases hrest : xs.mapM f with
            | error error =>
                rw [hrest] at hys
                exact nomatch hys
            | ok rest =>
                rw [hrest] at hys
                obtain rfl : y :: rest = ys := Except.ok.inj hys
                cases j with
                | zero => exact hx
                | succ j => exact ih rest hrest j (Nat.lt_of_succ_lt_succ hj)
  have hentry := hgeneral (List.range n) values h i (by rw [List.length_range]; exact hlt)
  simpa using hentry

/-- The longest row of a batch is at least as long as each. -/
theorem le_foldl_max (others : List ℤ) (kvLen : ℤ) : kvLen ≤ others.foldl max kvLen := by
  induction others generalizing kvLen with
  | nil => exact Int.le_refl kvLen
  | cons other others ih => exact (Int.le_max_left kvLen other).trans (ih (max kvLen other))

/-- The other rows of the batch do not keep a row from being compacted. -/
theorem decodeTriggered_iff {budget triggerLen : ℤ} {others : List ℤ} {kvLen : ℤ} :
    decodeTriggered budget triggerLen others kvLen = true ↔ budget < kvLen ∧ triggerLen ≤ kvLen := by
  have hlongest := le_foldl_max others kvLen
  unfold decodeTriggered
  simp only [Bool.and_eq_true, Bool.not_eq_true', Bool.or_eq_false_iff, decide_eq_false_iff_not,
    Int.not_le, Int.not_lt]
  omega

namespace DecodeRow

open Sawtooth

variable {Id : Type} {config : WindowConfig} {step : DecodeStep} {row next : DecodeRow Id}

theorem decodeStep_eq_ok (h : row.decodeStep config step = .ok next) :
    ∃ later, (row.append config).finishStep config step = .ok later ∧
      next = { later with seq := row.seq.afterDecode step.token } := by
  unfold decodeStep at h
  split at h
  · exact nomatch h
  · next later hlater => exact ⟨later, hlater, (Except.ok.inj h).symm⟩

theorem evictLayers_eq_ok {evict : DecodeRow Id → ℕ → Except PyError ℤ}
    (h : row.evictLayers config evict = .ok next) :
    ∀ layer < config.numKvLayers, evict row layer = .ok (next.rowSeqLens layer) := by
  unfold evictLayers at h
  split at h
  · exact nomatch h
  · next lengths hlengths =>
    obtain rfl := Except.ok.inj h
    exact fun layer hlt => getD_of_mapM hlengths hlt

/-- PyramidKV keeps the budget of a row that exceeds it. -/
theorem snapkvSelectCount_eq (hvalid : config.Validated) {budget kvLen : ℤ}
    (hkeeps : config.sinkKeepTokens + config.recentKeepTokens ≤ budget) (hlong : budget < kvLen) :
    snapkvSelectCount config kvLen budget = budget := by
  have hsink := hvalid.sink_nonneg
  have hrecent := hvalid.recent_nonneg
  unfold snapkvSelectCount
  dsimp only
  split
  · omega
  · next hnone =>
    rw [not_and_or] at hnone
    omega

variable {length : ℤ}

/-- PyramidKV compacts a row to its budget when it is above it and has reached
the trigger length. -/
theorem pyramidkvEviction_eq (hvalid : config.Validated) {layer : ℕ}
    (h : row.pyramidkvEviction config step layer = .ok length) :
    length = if config.isFullLayer layer = false ∧ config.pyramidkvLayerBudget layer < row.rowSeqLens layer ∧
        config.pyramidkvLayerBudget layer + config.scaledTopTokens layer ≤ row.rowSeqLens layer
      then config.pyramidkvLayerBudget layer else row.rowSeqLens layer := by
  have htop : config.pyramidkvLayerBudget layer - config.sinkKeepTokens - config.recentKeepTokens =
      config.scaledTopTokens layer := by
    unfold WindowConfig.pyramidkvLayerBudget
    omega
  have hscaled := hvalid.scaled_nonneg layer
  unfold pyramidkvEviction at h
  dsimp only at h
  rw [htop] at h
  split at h
  · next hfull =>
    rw [if_neg fun hnot => absurd (hfull.symm.trans hnot.1) Bool.false_ne_true.symm]
    exact (Except.ok.inj h).symm
  · next hnotfull =>
    rw [Bool.not_eq_true] at hnotfull
    generalize hbudget : config.pyramidkvLayerBudget layer = budget at h htop ⊢
    have hkeeps : config.sinkKeepTokens + config.recentKeepTokens ≤ budget := by omega
    generalize htrigger : budget + config.scaledTopTokens layer = triggerLen at h ⊢
    generalize row.rowSeqLens layer = kvLen at h ⊢
    split at h
    · exact nomatch h
    · next scored hscored =>
      by_cases hreached : budget < kvLen ∧ triggerLen ≤ kvLen
      · -- a row that has reached the trigger length is scored
        have hyes : scored = true := by
          unfold needsAttentionScore at hscored
          dsimp only at hscored
          split at hscored
          · next capacity hcapacity =>
            split at hscored
            · exact nomatch hscored
            · next hcovers =>
              have hlongest := le_foldl_max (step.others layer) kvLen
              rw [← Except.ok.inj hscored, Bool.and_eq_true, decide_eq_true_eq, decide_eq_true_eq]
              omega
          · rw [← Except.ok.inj hscored, List.any_cons, Bool.or_eq_true, Bool.and_eq_true,
              decide_eq_true_eq, decide_eq_true_eq]
            exact .inl ⟨hreached.2, hreached.1⟩
        rw [hyes, decodeTriggered_iff.mpr hreached, Bool.and_self, if_pos rfl,
          snapkvSelectCount_eq hvalid hkeeps hreached.1] at h
        rw [if_pos ⟨hnotfull, hreached⟩]
        exact (Except.ok.inj h).symm
      · have hno : ¬ decodeTriggered budget triggerLen (step.others layer) kvLen = true :=
          fun htrue => hreached (decodeTriggered_iff.mp htrue)
        rw [if_neg fun hboth => hno (Bool.and_eq_true_iff.mp hboth).2] at h
        rw [if_neg fun hall => hreached hall.2]
        exact (Except.ok.inj h).symm

/-- StreamingLLM compacts a row that has reached twice the budget. -/
theorem streamingllmEviction_eq (hvalid : config.Validated) {layer : ℕ}
    (h : row.streamingllmEviction config step layer = .ok length) :
    length = if 0 < config.streamingBudget ∧ 2 * config.streamingBudget ≤ row.rowSeqLens layer
      then config.streamingBudget else row.rowSeqLens layer := by
  have hsink := hvalid.sink_nonneg
  have hrecent := hvalid.recent_nonneg
  unfold streamingllmEviction at h
  dsimp only at h
  generalize row.rowSeqLens layer = kvLen at h ⊢
  split at h
  · next hnone =>
    rw [if_neg fun hsome => absurd hsome.1 (Int.not_lt.mpr hnone)]
    exact (Except.ok.inj h).symm
  · next hsome =>
    rw [Int.not_le] at hsome
    split at h
    · next htriggered =>
      have hreached := decodeTriggered_iff.mp htriggered
      rw [if_pos ⟨hsome, hreached.2⟩]
      unfold WindowConfig.streamingBudget at hsome hreached ⊢
      unfold prefixRecentLen at h
      dsimp only at h
      split at h
      · exact nomatch h
      · split at h
        · rw [← Except.ok.inj h]
          omega
        · rw [← Except.ok.inj h]
          omega
    · next hcalm =>
      have hshort : ¬ (0 < config.streamingBudget ∧ 2 * config.streamingBudget ≤ kvLen) := by
        intro hboth
        exact hcalm (decodeTriggered_iff.mpr ⟨by omega, hboth.2⟩)
      rw [if_neg hshort]
      exact (Except.ok.inj h).symm

/-- The domain of the global selection has just been completed: the row is long
enough, and the interval of generated tokens is over. -/
def AtBoundary (config : WindowConfig) (row : DecodeRow Id) : Prop :=
  0 < row.seq.numTokens - row.seq.numPromptTokens ∧
    (row.seq.numTokens - row.seq.numPromptTokens) % config.rkvCompressionInterval = 0 ∧
    config.keepBudget + config.rkvCompressionInterval ≤ row.rowSeqLens 0

/-- R-KV keeps the row, compacts it with all its queries there, or refuses. -/
theorem rkvFinishStep_eq_ok (hvalid : config.Validated) (h : row.rkvFinishStep config = .ok next) :
    (∀ layer < config.numKvLayers, row.rowSeqLens layer = row.rowSeqLens 0) ∧
      ((row.seq.isRecomputeReplay = true ∧ next = row.clearQueries) ∨
        (row.seq.isRecomputeReplay = false ∧ ¬ row.AtBoundary config ∧ next = row) ∨
        (row.seq.isRecomputeReplay = false ∧ row.AtBoundary config ∧
          row.observationReady config (row.rowSeqLens 0) = true ∧
          next = { row.clearQueries with rowSeqLens := fun _ => config.keepBudget }) ∨
        (row.seq.isRecomputeReplay = false ∧ row.AtBoundary config ∧
          row.observationReady config (row.rowSeqLens 0) = false ∧
          row.seq.numTokens ≤ row.rowSeqLens 0 ∧ next = row)) := by
  unfold rkvFinishStep at h
  rw [if_neg hvalid.layers_pos.ne'] at h
  dsimp only at h
  split at h
  · exact nomatch h
  · next hsame =>
    refine ⟨fun layer hlt => ?_, ?_⟩
    · rw [Bool.not_eq_true, List.any_eq_false] at hsame
      have hlayer := hsame layer (List.mem_range.mpr hlt)
      simpa using hlayer
    split at h
    · next hreplay => exact .inl ⟨hreplay, (Except.ok.inj h).symm⟩
    · next hreplay =>
      rw [Bool.not_eq_true] at hreplay
      split at h
      · next hboundary =>
        split at h
        · next hready =>
          rw [Int.sub_add_cancel] at h
          exact .inr (.inr (.inl ⟨hreplay, hboundary, hready, (Except.ok.inj h).symm⟩))
        · next hready =>
          rw [Bool.not_eq_true] at hready
          split at h
          · exact nomatch h
          · next hwhole =>
            exact .inr (.inr (.inr ⟨hreplay, hboundary, hready, Int.not_lt.mp hwhole, (Except.ok.inj h).symm⟩))
      · next hboundary =>
        exact .inr (.inl ⟨hreplay, hboundary, (Except.ok.inj h).symm⟩)

/-- **A decode step** adds at most one slot to every row. -/
theorem decodeStep_grows (hvalid : config.Validated) (h : row.decodeStep config step = .ok next)
    {layer : ℕ} (hlt : layer < config.numKvLayers) :
    next.rowSeqLens layer ≤ row.rowSeqLens layer + 1 := by
  obtain ⟨later, hfinish, rfl⟩ := decodeStep_eq_ok h
  show later.rowSeqLens layer ≤ (row.append config).rowSeqLens layer
  generalize row.append config = appended at hfinish ⊢
  unfold finishStep at hfinish
  cases hmethod : config.sparseMethod with
  | snapkv =>
      rw [hmethod] at hfinish
      rw [← Except.ok.inj hfinish]
  | pyramidkv =>
      rw [hmethod] at hfinish
      have hlength := pyramidkvEviction_eq hvalid (evictLayers_eq_ok hfinish layer hlt)
      rw [hlength]
      split
      · next hreached => exact hreached.2.1.le
      · exact Int.le_refl _
  | streamingllm =>
      rw [hmethod] at hfinish
      have hlength := streamingllmEviction_eq hvalid (evictLayers_eq_ok hfinish layer hlt)
      rw [hlength]
      split
      · omega
      · exact Int.le_refl _
  | rkv =>
      rw [hmethod] at hfinish
      obtain ⟨hsame, hcases⟩ := rkvFinishStep_eq_ok hvalid hfinish
      rcases hcases with ⟨-, rfl⟩ | ⟨-, -, rfl⟩ | ⟨-, hboundary, -, rfl⟩ | ⟨-, -, -, -, rfl⟩
      · exact Int.le_refl _
      · exact Int.le_refl _
      · have hlong := hboundary.2.2
        have hobservation := hvalid.observation_pos
        have hinterval := hvalid.observation_le
        show config.keepBudget ≤ appended.rowSeqLens layer
        rw [hsame layer hlt]
        omega
      · exact Int.le_refl _

/-- The rows stay within `bound` more slots for `n` decode steps, the slot of
the step that is under way included. -/
def GrowthBounded (config : WindowConfig) (row : DecodeRow Id) (n : ℕ) (layer : ℕ) (bound : ℤ) :
    Prop :=
  (∀ steps next, steps.length ≤ n → row.decodeRun config steps = .ok next →
      next.rowSeqLens layer ≤ row.rowSeqLens layer + bound) ∧
    ∀ steps next, steps.length < n → row.decodeRun config steps = .ok next →
      (next.append config).rowSeqLens layer ≤ row.rowSeqLens layer + bound

section

variable (hvalid : config.Validated)

include hvalid

theorem decodeRun_grows {steps : List DecodeStep} (h : row.decodeRun config steps = .ok next)
    {layer : ℕ} (hlt : layer < config.numKvLayers) :
    next.rowSeqLens layer ≤ row.rowSeqLens layer + steps.length :=
  length_le_add (fun _ => True) (fun row : DecodeRow Id => row.rowSeqLens layer)
    (fun _ _ _ _ _ => trivial) (fun _ _ _ _ hstep => decodeStep_grows hvalid hstep hlt) h trivial

/-- It is enough that every step has its slot. -/
theorem growthBounded_of_append {n layer : ℕ} {bound : ℤ} (hlt : layer < config.numKvLayers) (hnonneg : 0 ≤ bound)
    (happend : ∀ steps next, steps.length < n → row.decodeRun config steps = .ok next →
      next.rowSeqLens layer + 1 ≤ row.rowSeqLens layer + bound) :
    row.GrowthBounded config n layer bound := by
  refine ⟨fun steps next hle hrun => ?_, happend⟩
  induction steps using List.reverseRecOn with
  | nil =>
      obtain rfl := Except.ok.inj hrun
      exact Int.le_add_of_nonneg_right hnonneg
  | append_singleton steps step _ =>
      rw [List.length_append, List.length_singleton] at hle
      obtain ⟨middle, hsteps, hlast⟩ := runSteps_concat hrun
      calc next.rowSeqLens layer ≤ middle.rowSeqLens layer + 1 := decodeStep_grows hvalid hlast hlt
        _ ≤ row.rowSeqLens layer + bound := happend steps middle hle hsteps

/-- A window of `n` slots is always enough. -/
theorem growthBounded_all {n layer : ℕ} (hlt : layer < config.numKvLayers) :
    row.GrowthBounded config n layer n := by
  refine growthBounded_of_append hvalid hlt (Int.natCast_nonneg n) fun steps next hfew hrun => ?_
  have hgrown := decodeRun_grows hvalid hrun hlt
  omega

/-- A row that is compacted at `triggerLen` needs no slots beyond that, but one
to get there. -/
theorem growthBounded_of_trigger {n layer : ℕ} {triggerLen : ℤ} (hlt : layer < config.numKvLayers)
    (hcut : ∀ step (row next : DecodeRow Id), row.decodeStep config step = .ok next →
      triggerLen ≤ row.rowSeqLens layer + 1 → next.rowSeqLens layer < triggerLen) :
    row.GrowthBounded config n layer (min n (max 1 (triggerLen - row.rowSeqLens layer))) := by
  refine growthBounded_of_append hvalid hlt (by omega) fun steps next hfew hrun => ?_
  have hgrown := decodeRun_grows hvalid hrun hlt
  have hbelow := length_le_of_limit (fun _ => True)
    (fun row : DecodeRow Id => row.rowSeqLens layer) (fun _ _ _ _ _ => trivial)
    (fun _ _ _ _ hstep => decodeStep_grows hvalid hstep hlt)
    (fun step before after _ hstep => hcut step before after hstep) hrun trivial
  omega

/-- PyramidKV cuts a row back at its trigger length. -/
theorem pyramidkv_cut (hmethod : config.sparseMethod = .pyramidkv) {layer : ℕ}
    (hlt : layer < config.numKvLayers) (hfull : config.isFullLayer layer = false)
    (hstep : row.decodeStep config step = .ok next)
    (hreached : max (config.pyramidkvLayerBudget layer + 1)
      (config.pyramidkvLayerBudget layer + config.scaledTopTokens layer) ≤ row.rowSeqLens layer + 1) :
    next.rowSeqLens layer < max (config.pyramidkvLayerBudget layer + 1)
      (config.pyramidkvLayerBudget layer + config.scaledTopTokens layer) := by
  obtain ⟨later, hfinish, rfl⟩ := decodeStep_eq_ok hstep
  unfold finishStep at hfinish
  rw [hmethod] at hfinish
  have hlength := pyramidkvEviction_eq hvalid (evictLayers_eq_ok hfinish layer hlt)
  have happend : (row.append config).rowSeqLens layer = row.rowSeqLens layer + 1 := rfl
  rw [happend, if_pos ⟨hfull, by omega, by omega⟩] at hlength
  show later.rowSeqLens layer < _
  omega

/-- StreamingLLM cuts a row back at twice its budget. -/
theorem streamingllm_cut (hmethod : config.sparseMethod = .streamingllm) {layer : ℕ}
    (hlt : layer < config.numKvLayers) (hpos : 0 < config.streamingBudget)
    (hstep : row.decodeStep config step = .ok next)
    (hreached : 2 * config.streamingBudget ≤ row.rowSeqLens layer + 1) :
    next.rowSeqLens layer < 2 * config.streamingBudget := by
  obtain ⟨later, hfinish, rfl⟩ := decodeStep_eq_ok hstep
  unfold finishStep at hfinish
  rw [hmethod] at hfinish
  have hlength := streamingllmEviction_eq hvalid (evictLayers_eq_ok hfinish layer hlt)
  have happend : (row.append config).rowSeqLens layer = row.rowSeqLens layer + 1 := rfl
  rw [happend, if_pos ⟨hpos, hreached⟩] at hlength
  show later.rowSeqLens layer < _
  omega

end

/-! ## The costs in closed form -/

end DecodeRow

namespace WindowConfig

variable {config : WindowConfig} {isRecomputeReplay : Bool} {existing tokens : ℤ} {layer : ℕ}

/-- Rows that are not compacted at decode need every slot of the window. -/
theorem decodeWindowCost_of_unbounded (hnonneg : 0 ≤ tokens)
    (hmethod : config.sparseMethod = .snapkv ∨ config.isFullLayer layer = true ∨
      config.sparseMethod = .rkv ∧ isRecomputeReplay = true ∨
      config.sparseMethod = .streamingllm ∧ config.streamingBudget ≤ 0) :
    config.decodeWindowCost isRecomputeReplay existing layer tokens = tokens := by
  unfold decodeWindowCost chainRequiredSlots chainBudget chainTriggerLen
  cases hcase : config.sparseMethod with
  | snapkv =>
      dsimp only
      cases config.isFullLayer layer with
      | true => simp; omega
      | false => simp; omega
  | pyramidkv =>
      have hfull : config.isFullLayer layer = true := by simpa [hcase] using hmethod
      simp [hfull]
      omega
  | rkv =>
      have hreplay : isRecomputeReplay = true := by
        simpa [hcase, isFullLayer] using hmethod
      simp [hreplay]
  | streamingllm =>
      have hnone : config.streamingBudget ≤ 0 := by simpa [hcase, isFullLayer] using hmethod
      simp [Int.not_lt.mpr hnone, hnonneg]

theorem decodeWindowCost_of_pyramidkv (hvalid : config.Validated) (hnonneg : 0 ≤ tokens)
    (hmethod : config.sparseMethod = .pyramidkv) (hfull : config.isFullLayer layer = false) :
    config.decodeWindowCost isRecomputeReplay existing layer tokens =
      min tokens (max 1 (max (config.pyramidkvLayerBudget layer + 1)
        (config.pyramidkvLayerBudget layer + config.scaledTopTokens layer) - existing)) := by
  have htop : config.pyramidkvLayerBudget layer - config.sinkKeepTokens - config.recentKeepTokens =
      config.scaledTopTokens layer := by
    unfold pyramidkvLayerBudget
    omega
  have hscaled := hvalid.scaled_nonneg layer
  unfold decodeWindowCost chainRequiredSlots chainBudget chainTriggerLen residentAfterPrefill
  rw [hmethod]
  dsimp only
  rw [hfull, htop]
  simp only [Bool.false_and, Bool.false_eq_true, if_false, reduceCtorEq, or_false, if_true,
    Int.max_eq_right hscaled, Int.max_self, Int.add_sub_cancel, Int.max_eq_right hnonneg,
    Int.add_zero]
  generalize max (config.pyramidkvLayerBudget layer + 1) _ = triggerLen
  split
  · omega
  · split
    · rw [Int.max_eq_right (Int.le_add_of_nonneg_right Int.one_nonneg)]
      omega
    · have hgrown : existing ≤ existing + min tokens (triggerLen - existing) := by omega
      rw [Int.max_eq_right hgrown]
      omega

theorem decodeWindowCost_of_streamingllm (hnonneg : 0 ≤ tokens)
    (hmethod : config.sparseMethod = .streamingllm) (hpos : 0 < config.streamingBudget) :
    config.decodeWindowCost isRecomputeReplay existing layer tokens =
      min tokens (max 1 (2 * config.streamingBudget - existing)) := by
  unfold decodeWindowCost
  rw [hmethod]
  dsimp only
  rw [if_pos hpos, Int.max_eq_right hnonneg]

theorem decodeWindowCost_of_rkv (hvalid : config.Validated) (hnonneg : 0 ≤ tokens)
    (hmethod : config.sparseMethod = .rkv) :
    config.decodeWindowCost false existing layer tokens =
      min tokens (max existing (config.keepBudget + config.rkvCompressionInterval - 1) +
        config.rkvCompressionInterval - existing) := by
  have hobservation := hvalid.observation_pos
  have hinterval := hvalid.observation_le
  unfold decodeWindowCost chainRequiredSlots chainBudget chainTriggerLen residentAfterPrefill
  rw [hmethod]
  simp only [Bool.false_and, Bool.false_eq_true, if_false, or_true, if_true]
  split <;> omega

/-- **The costs are monotone in the horizon.** -/
theorem decodeWindowCost_mono (hvalid : config.Validated) {fewer more : ℤ} (hnonneg : 0 ≤ fewer)
    (hle : fewer ≤ more) :
    config.decodeWindowCost isRecomputeReplay existing layer fewer ≤
      config.decodeWindowCost isRecomputeReplay existing layer more := by
  have hmore : 0 ≤ more := hnonneg.trans hle
  cases hmethod : config.sparseMethod with
  | snapkv =>
      rw [decodeWindowCost_of_unbounded hnonneg (.inl hmethod), decodeWindowCost_of_unbounded hmore (.inl hmethod)]
      exact hle
  | pyramidkv =>
      cases hfull : config.isFullLayer layer with
      | true =>
          rw [decodeWindowCost_of_unbounded hnonneg (.inr (.inl hfull)),
            decodeWindowCost_of_unbounded hmore (.inr (.inl hfull))]
          exact hle
      | false =>
          rw [decodeWindowCost_of_pyramidkv hvalid hnonneg hmethod hfull,
            decodeWindowCost_of_pyramidkv hvalid hmore hmethod hfull]
          omega
  | rkv =>
      cases isRecomputeReplay with
      | true =>
          rw [decodeWindowCost_of_unbounded hnonneg (.inr (.inr (.inl ⟨hmethod, rfl⟩))),
            decodeWindowCost_of_unbounded hmore (.inr (.inr (.inl ⟨hmethod, rfl⟩)))]
          exact hle
      | false =>
          rw [decodeWindowCost_of_rkv hvalid hnonneg hmethod, decodeWindowCost_of_rkv hvalid hmore hmethod]
          omega
  | streamingllm =>
      rcases Int.lt_or_le 0 config.streamingBudget with hpos | hnone
      · rw [decodeWindowCost_of_streamingllm hnonneg hmethod hpos,
          decodeWindowCost_of_streamingllm hmore hmethod hpos]
        omega
      · rw [decodeWindowCost_of_unbounded hnonneg (.inr (.inr (.inr ⟨hmethod, hnone⟩))),
          decodeWindowCost_of_unbounded hmore (.inr (.inr (.inr ⟨hmethod, hnone⟩)))]
        exact hle

end WindowConfig
