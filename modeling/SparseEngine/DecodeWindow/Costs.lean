import SparseEngine.DecodeWindow.Observation

/-!
# The costs of a decode window

`decode_window_costs` is monotone in the horizon.  It bounds the growth of
every row, but for those of R-KV that lack queries at the end of an interval.
-/

namespace DecodeRow

variable {Id : Type} {config : WindowConfig} {row next : DecodeRow Id}

/-- What holds of every state in which a sequence is decoded. -/
structure Decodable (config : WindowConfig) (row : DecodeRow Id) : Prop where
  wellformed : ∃ _ : PrefixReuse, row.seq.Wellformed
  decoding : row.seq.Decoding
  pending_eq : row.seq.numPendingOutputs = 0
  uniform : config.sparseMethod = .rkv →
    ∀ layer < config.numKvLayers, row.rowSeqLens layer = row.rowSeqLens 0

theorem Decodable.stepped (hvalid : config.Validated) (h : row.Decodable config)
    {step : DecodeStep} (hstep : row.decodeStep config step = .ok next) :
    next.Decodable config := by
  obtain ⟨later, hfinish, rfl⟩ := decodeStep_eq_ok hstep
  obtain ⟨reuse, hwellformed⟩ := h.wellformed
  obtain ⟨hwell, hdecoding⟩ := hwellformed.afterDecode h.decoding step.token
  have hpending : (row.seq.afterDecode step.token).numPendingOutputs =
      row.seq.numPendingOutputs := (Sequence.afterStep_kept false step.token row.seq).1
  refine ⟨⟨reuse, hwell⟩, hdecoding, hpending.trans h.pending_eq, fun hmethod layer hlt => ?_⟩
  unfold finishStep at hfinish
  rw [hmethod] at hfinish
  obtain ⟨hsame, hcases⟩ := rkvFinishStep_eq_ok hvalid hfinish
  rcases hcases with ⟨-, rfl⟩ | ⟨-, -, rfl⟩ | ⟨-, -, -, rfl⟩ | ⟨-, -, -, -, rfl⟩
  · exact hsame layer hlt
  · exact hsame layer hlt
  · rfl
  · exact hsame layer hlt

theorem Reachable.decodable (hvalid : config.Validated) (h : row.Reachable config) :
    row.Decodable config := by
  induction h with
  | prefilled seq rowSeqLens hwell hdecoding hpending _ _ huniform =>
      exact ⟨⟨_, hwell⟩, hdecoding, hpending, fun hmethod layer _ => huniform hmethod layer⟩
  | decoded step row next _ hstep ih => exact ih.stepped hvalid hstep

theorem Decodable.generating (h : row.Decodable config) (hmethod : config.sparseMethod = .rkv)
    (hreplay : row.seq.isRecomputeReplay = false) : row.Generating config := by
  have houtput := h.decoding.output_pos
  rw [h.pending_eq, Int.add_zero] at houtput
  exact ⟨hreplay, houtput, h.uniform hmethod⟩

/-- A sequence that is not replayed has its queries in time from its prefill
on. -/
theorem fresh_run_observedInTime (hvalid : config.Validated)
    (hmethod : config.sparseMethod = .rkv) (hgenerating : row.Generating config)
    (hfirst : row.seq.numCompletionTokens = 1) {steps : List DecodeStep}
    (hrun : row.decodeRun config steps = .ok next) : next.ObservedInTime config := by
  have hwindow := hvalid.observation_le
  have hstart : row.ObservedInTime config := by
    intro _
    have hall : row.stepsToBoundary config = config.rkvCompressionInterval := by
      unfold stepsToBoundary
      rw [hfirst, Int.sub_self, Int.zero_emod, Int.sub_zero]
    exact .inr fun layer _ position hlow hhigh => by omega
  have hkeeps : ∀ step (before after : DecodeRow Id),
      (before.Generating config ∧ before.ObservedInTime config) →
        before.decodeStep config step = .ok after → after.Generating config ∧ after.ObservedInTime config :=
    fun step before after hbefore hstep => ⟨(hbefore.1.stepped hvalid hmethod hstep).1,
      (ObservedInTime.stepped hvalid hmethod hbefore.1 hbefore.2 hstep).1⟩
  exact (Sawtooth.runSteps_keeps hkeeps hrun ⟨hgenerating, hstart⟩).2

/-- **The costs of a decode window** are monotone and bound the growth of every
row, exactly when R-KV has the queries in time for the end of the interval. -/
theorem decode_window_costs_bound_growth (hvalid : config.Validated)
    (hrow : row.Reachable config) :
    (∀ layer < config.numKvLayers,
      (∀ fewer more : ℕ, fewer ≤ more →
        row.decodeWindowCost config layer fewer ≤ row.decodeWindowCost config layer more) ∧
      ∀ n : ℕ, row.GrowthBounded config n layer (row.decodeWindowCost config layer n)) ↔
    (config.sparseMethod = .rkv → row.seq.isRecomputeReplay = false →
      row.ObservedInTime config) := by
  have hdecodable := hrow.decodable hvalid
  constructor
  · intro hbounds hmethod hreplay
    have hgenerating := hdecodable.generating hmethod hreplay
    -- a row observed too late outgrows the bound of R-KV
    by_contra hlate
    obtain ⟨steps, next, hrun, hlong⟩ := exists_overgrown hvalid hmethod hgenerating hlate
    have hbound := ((hbounds 0 hvalid.layers_pos).2 (steps.length + 1)).2 steps next
      (Nat.lt_succ_self _) hrun
    unfold decodeWindowCost at hbound
    rw [hreplay, WindowConfig.decodeWindowCost_of_rkv hvalid (Int.natCast_nonneg _) hmethod]
      at hbound
    omega
  · intro hintime layer hlt
    refine ⟨fun fewer more hle => WindowConfig.decodeWindowCost_mono hvalid
      (Int.natCast_nonneg fewer) (Int.ofNat_le.mpr hle), fun n => ?_⟩
    have hn : (0 : ℤ) ≤ n := Int.natCast_nonneg n
    unfold decodeWindowCost
    -- without a cut every output may take a slot; with one the row stays below its trigger
    cases hmethod : config.sparseMethod with
    | snapkv =>
        rw [WindowConfig.decodeWindowCost_of_unbounded hn (.inl hmethod)]
        exact growthBounded_all hvalid hlt
    | pyramidkv =>
        cases hfull : config.isFullLayer layer with
        | true =>
            rw [WindowConfig.decodeWindowCost_of_unbounded hn (.inr (.inl hfull))]
            exact growthBounded_all hvalid hlt
        | false =>
            rw [WindowConfig.decodeWindowCost_of_pyramidkv hvalid hn hmethod hfull]
            exact growthBounded_of_trigger hvalid hlt fun step before after hstep hreached =>
              pyramidkv_cut hvalid hmethod hlt hfull hstep hreached
    | rkv =>
        cases hreplay : row.seq.isRecomputeReplay with
        | true =>
            rw [WindowConfig.decodeWindowCost_of_unbounded hn
              (.inr (.inr (.inl ⟨hmethod, rfl⟩)))]
            exact growthBounded_all hvalid hlt
        | false =>
            rw [WindowConfig.decodeWindowCost_of_rkv hvalid hn hmethod]
            exact growthBounded_of_observedInTime hvalid hmethod
              (hdecodable.generating hmethod hreplay) (hintime hmethod hreplay) hlt
    | streamingllm =>
        rcases Int.lt_or_le 0 config.streamingBudget with hpos | hnone
        · rw [WindowConfig.decodeWindowCost_of_streamingllm hn hmethod hpos]
          exact growthBounded_of_trigger hvalid hlt fun step before after hstep hreached =>
            streamingllm_cut hvalid hmethod hlt hpos hstep hreached
        · rw [WindowConfig.decodeWindowCost_of_unbounded hn
            (.inr (.inr (.inr ⟨hmethod, hnone⟩)))]
          exact growthBounded_all hvalid hlt

/-- R-KV with a budget of three tokens, an interval of two and two observed
queries. -/
def shortInterval : WindowConfig where
  sparseMethod := .rkv
  numKvLayers := 1
  sinkKeepTokens := 0
  decodeKeepTokens := 3
  recentKeepTokens := 0
  snapkvNumFullLayers := 0
  scaledTopTokens _ := 0
  rkvCompressionInterval := 2
  rkvObservationTokens := 2
  fullPrefillStaging := false

theorem shortInterval_validated : shortInterval.Validated :=
  ⟨by decide, by decide, by decide, by decide, fun _ => Int.le_refl 0, by decide, by decide, fun _ => by decide⟩

/-- A request whose prompt of five tokens has been prefilled. -/
def freshRow : DecodeRow Unit :=
  ⟨{ Sequence.new [1, 2, 3, 4, 5] 9 true [] with
      tokenIds := [1, 2, 3, 4, 5, 6], numTokens := 6, lastToken := some 6,
      numPrefilledTokens := 5 }, fun _ => 5, fun _ _ => -1⟩

/-- The same request after its second output token, with the prompt rebuilt for
a replay. -/
def rebuiltRow : DecodeRow Unit :=
  ⟨{ Sequence.new [1, 2, 3, 4, 5] 9 true [] with
      tokenIds := [1, 2, 3, 4, 5, 6, 7], numTokens := 7, lastToken := some 7,
      numPrefilledTokens := 5, recomputeReplayCursor := some 0 }, fun _ => 5, fun _ _ => -1⟩

/-- The request after its replay. -/
def replayedRow : DecodeRow Unit :=
  ⟨{ rebuiltRow.seq with recomputeReplayCursor := none, decodeProgressCheckpoint := 2 },
    fun layer => rebuiltRow.rowSeqLens layer + 1, fun _ _ => -1⟩

theorem freshRow_reachable : freshRow.Reachable shortInterval :=
  let : PrefixReuse := ⟨False⟩
  .prefilled _ _
    ⟨⟨rfl, by decide, by decide, rfl, rfl, by decide⟩, by decide, by decide, .inr (by decide),
      .inr (.inr ⟨rfl, by decide, by decide, fun _ hsome => nomatch hsome⟩)⟩
    ⟨rfl, by decide, by decide, fun _ hsome => nomatch hsome⟩ rfl (fun _ => by decide)
    (fun _ => by decide) fun _ _ => rfl

theorem replayedRow_reachable : replayedRow.Reachable shortInterval := by
  have hdecoding : rebuiltRow.seq.Decoding := by
    refine ⟨rfl, by decide, by decide, fun cursor hsome => ?_⟩
    obtain rfl := Option.some.inj hsome
    exact ⟨rfl, by decide, by decide⟩
  let : PrefixReuse := ⟨False⟩
  have hrebuilt : rebuiltRow.Reachable shortInterval :=
    .prefilled _ _
      ⟨⟨rfl, by decide, by decide, rfl, rfl, by decide⟩, by decide, by decide, .inr (by decide),
        .inr (.inr hdecoding)⟩
      hdecoding rfl (fun htrue => absurd htrue (by decide)) (fun _ => by decide) fun _ _ => rfl
  exact .decoded plainStep rebuiltRow replayedRow hrebuilt rfl

/-- The window of a fresh request is bounded. -/
theorem freshRow_bounded :
    freshRow.decodeWindowCost shortInterval 0 9 = 2 ∧
      ∀ n : ℕ, freshRow.GrowthBounded shortInterval n 0
        (freshRow.decodeWindowCost shortInterval 0 n) := by
  refine ⟨by decide +kernel, fun n => ?_⟩
  have hbounds := (decode_window_costs_bound_growth shortInterval_validated
    freshRow_reachable).mpr fun hmethod hreplay => ?_
  · exact (hbounds 0 (by decide)).2 n
  · have hgenerating := (freshRow_reachable.decodable shortInterval_validated).generating hmethod
      hreplay
    have hrun : freshRow.decodeRun shortInterval [] = .ok freshRow := rfl
    exact fresh_run_observedInTime shortInterval_validated hmethod hgenerating (by decide) hrun

/-- A request that has just been replayed needs a third slot before it is
compacted. -/
theorem replayedRow_overgrows :
    ¬ ∀ (config : WindowConfig) (row : DecodeRow Unit), config.Validated → row.Reachable config →
      ∀ layer < config.numKvLayers, ∀ n : ℕ,
        row.GrowthBounded config n layer (row.decodeWindowCost config layer n) := by
  intro hbounded
  obtain ⟨-, happend⟩ := hbounded shortInterval replayedRow shortInterval_validated
    replayedRow_reachable 0 (by decide) 3
  have hcost : replayedRow.decodeWindowCost shortInterval 0 (3 : ℕ) = 2 := by decide +kernel
  have hlength : replayedRow.rowSeqLens 0 = 6 := by decide +kernel
  have hlast : ∃ next, replayedRow.decodeRun shortInterval [plainStep, plainStep] = .ok next ∧
      next.rowSeqLens 0 = 8 := ⟨_, rfl, by decide +kernel⟩
  obtain ⟨next, hrun, hlong⟩ := hlast
  have hbound := happend [plainStep, plainStep] next (by decide) hrun
  rw [hcost, hlength] at hbound
  change next.rowSeqLens 0 + 1 ≤ 6 + 2 at hbound
  omega

end DecodeRow
