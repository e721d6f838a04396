import SparseEngine.PrefillScoring.Modes

/-!
# The chunks of a prompt

`finalLen` is the length a layer has for the queries at the end of the prompt.
A chunk that does not end the prompt leaves the part of it that fits the
window, as soon as one layer ends up above its budget.

Each function of the planner has a lemma on what it answers when it returns
(`_eq_ok`), up to `candidateChunk_eq_ok`; `Scanned` says how the loop over the
candidates puts the chunks together.
-/

namespace ScoringConfig

variable {Id : Type} {config : ScoringConfig} {kv later : SequenceKv} {seq : ChainSequence Id}

section

variable (config kv seq)

/-- The length of a layer at the end of the prompt. -/
def finalLen (layer : ℕ) : ℤ :=
  if seq.isChainResume then
    (kv.rowSeqLens layer).getD 0 +
      if config.rawOffloads kv seq then max 0 (seq.numPromptTokens - seq.attachedTokens)
      else seq.remainingPrefillTokens
  else seq.numPromptTokens

/-- Some layer ends up above its budget. -/
def NeedsScore : Prop :=
  ∃ layer < config.numKvLayers, ∃ budget, config.prefillScoreLayerBudget layer = some budget ∧
    budget < config.finalLen kv seq layer

/-- No layer of a SnapKV row is longer than the first. -/
def Dominated (rows : ℕ → Option ℤ) : Prop :=
  config.sparseMethod = .snapkv → ∀ layer < config.numKvLayers,
    (rows layer).getD 0 ≤ (rows 0).getD 0

/-- What the configuration is checked for. -/
structure Accepted : Prop where
  validated : config.toWindowConfig.Validated
  no_full_layers : config.snapkvNumFullLayers = 0

end

theorem Asked.finalLen (h : config.Asked seq kv later) (layer : ℕ) :
    config.finalLen later seq layer = config.finalLen kv seq layer := by
  unfold ScoringConfig.finalLen
  rw [h.rowSeqLens, h.rawOffloads]

theorem Asked.needsScore (h : config.Asked seq kv later) :
    config.NeedsScore later seq ↔ config.NeedsScore kv seq := by
  unfold NeedsScore
  simp only [h.finalLen]

/-! ## The minimum for the last chunk -/

variable {turnTokens : Option ℤ} {needed : Bool} {minFinal remaining stepFreeCount proposed : ℤ}
  {mode : PrefillExecutionMode} {candidates : List (ChainSequence Id × ℤ)}

/-- PyramidKV looks at every layer that it compacts. -/
theorem pyramidkvNeedsScore_eq (hmethod : config.sparseMethod = .pyramidkv)
    (hturn : seq.isChainResume = true → turnTokens =
      if config.rawOffloads kv seq then
        some (max 0 (seq.numPromptTokens - seq.attachedTokens)) else none) {layers : List ℕ}
    (h : config.pyramidkvNeedsScore kv seq turnTokens layers = .ok needed)
    (hlayer : ∃ layer ∈ layers, ∃ budget, config.prefillScoreLayerBudget layer = some budget ∧
      budget < config.finalLen kv seq layer) : needed = true := by
  induction layers with
  | nil =>
      obtain ⟨layer, hmem, -⟩ := hlayer
      exact absurd hmem List.not_mem_nil
  | cons first rest ih =>
      obtain ⟨layer, hmem, budget, hbudget, hlong⟩ := hlayer
      unfold pyramidkvNeedsScore at h
      split at h
      · next hfull =>
        apply ih h
        rcases List.mem_cons.mp hmem with rfl | hmem
        · -- a full layer has no budget, so the long one comes later
          unfold prefillScoreLayerBudget at hbudget
          rw [if_pos hfull] at hbudget
          exact nomatch hbudget
        · exact ⟨layer, hmem, budget, hbudget, hlong⟩
      · cases hlength : ScoringConfig.finalPhysicalLen kv seq turnTokens first with
        | error error =>
            rw [hlength] at h
            exact nomatch h
        | ok length =>
            rw [hlength] at h
            change (if config.pyramidkvLayerBudget first < length then .ok true
              else config.pyramidkvNeedsScore kv seq turnTokens rest) = Except.ok needed at h
            split at h
            · exact (Except.ok.inj h).symm
            · next hshort =>
              apply ih h
              rcases List.mem_cons.mp hmem with rfl | hmem
              · exfalso
                apply hshort
                have hbudget' : config.pyramidkvLayerBudget layer = budget := by
                  unfold prefillScoreLayerBudget at hbudget
                  rw [if_neg (by assumption), hmethod] at hbudget
                  exact Option.some.inj hbudget
                -- the length the loop asks for is the final one, on a resumed turn as well:
                have hlen : length = config.finalLen kv seq layer := by
                  unfold ScoringConfig.finalPhysicalLen at hlength
                  unfold ScoringConfig.finalLen
                  split at hlength
                  · next hresume =>
                    rw [if_pos hresume]
                    unfold SequenceKv.chainPhysicalKvLen at hlength
                    cases hrow : kv.rowSeqLens layer with
                    | none =>
                        rw [hrow] at hlength
                        exact nomatch hlength
                    | some current =>
                        rw [hrow] at hlength
                        rw [hturn hresume] at hlength
                        have hsum := Except.ok.inj hlength
                        rw [Option.getD_some, ← hsum]
                        cases config.rawOffloads kv seq <;> rfl
                  · next hresume =>
                    rw [if_neg hresume]
                    exact (Except.ok.inj hlength).symm
                rw [hbudget', hlen]
                exact hlong
              · exact ⟨layer, hmem, budget, hbudget, hlong⟩

theorem rawOffloadTurnTokens_eq_ok (h : config.rawOffloadTurnTokens kv seq = .ok (turnTokens, later)) :
    config.Asked seq kv later ∧
      (config.sparseMethod = .pyramidkv → seq.isChainResume = true → turnTokens =
        if config.rawOffloads kv seq then
          some (max 0 (seq.numPromptTokens - seq.attachedTokens)) else none) := by
  unfold rawOffloadTurnTokens at h
  split at h
  · cases hasks : config.requiresLongPrefillOffload kv seq with
    | error error =>
        rw [hasks] at h
        exact nomatch h
    | ok answer =>
        obtain ⟨offloads, kv'⟩ := answer
        rw [hasks] at h
        obtain ⟨rfl, rfl⟩ := requiresLongPrefillOffload_eq_ok hasks
        obtain ⟨rfl, rfl⟩ := Prod.mk.inj (Except.ok.inj h)
        exact ⟨.once, fun _ _ => rfl⟩
  · next hnot =>
    obtain ⟨rfl, rfl⟩ := Prod.mk.inj (Except.ok.inj h)
    exact ⟨.refl, fun hmethod hresume => absurd ⟨hmethod, hresume⟩ hnot⟩

theorem needsScore_eq (hdominated : config.Dominated kv.rowSeqLens)
    (hturn : config.sparseMethod = .pyramidkv → seq.isChainResume = true → turnTokens =
      if config.rawOffloads kv seq then
        some (max 0 (seq.numPromptTokens - seq.attachedTokens)) else none)
    (hmethod : config.sparseMethod = .snapkv ∨ config.sparseMethod = .pyramidkv)
    (h : config.needsScore kv seq turnTokens = .ok needed) (hneeds : config.NeedsScore kv seq) :
    needed = true := by
  obtain ⟨layer, hlayer, budget, hbudget, hlong⟩ := hneeds
  rcases hmethod with hsnap | hpyramid
  · have hkeep : config.keepBudget = budget := by
      unfold prefillScoreLayerBudget at hbudget
      split at hbudget
      · exact nomatch hbudget
      · rw [hsnap] at hbudget
        exact Option.some.inj hbudget
    have hchunked : config.rawOffloads kv seq = false := by
      unfold rawOffloads canUseFullPrefillStaging
      simp [hsnap]
    unfold ScoringConfig.needsScore at h
    rw [if_pos hsnap] at h
    unfold ScoringConfig.finalPhysicalLen at h
    unfold ScoringConfig.finalLen at hlong
    rw [hchunked, if_neg Bool.false_ne_true] at hlong
    split at h
    · next hresume =>
      rw [if_pos hresume] at hlong
      unfold SequenceKv.chainPhysicalKvLen at h
      cases hrow : kv.rowSeqLens 0 with
      | none =>
          rw [hrow] at h
          exact nomatch h
      | some first =>
          rw [hrow] at h
          obtain rfl := Except.ok.inj h
          -- SnapKV asks the first layer, which is the longest:
          have hle := hdominated hsnap layer hlayer
          rw [hrow, Option.getD_some] at hle
          apply decide_eq_true
          rw [Option.getD_none]
          omega
    · next hresume =>
      rw [if_neg hresume] at hlong
      obtain rfl := Except.ok.inj h
      apply decide_eq_true
      omega
  · unfold ScoringConfig.needsScore at h
    rw [if_neg (by simp [hpyramid])] at h
    apply pyramidkvNeedsScore_eq hpyramid (hturn hpyramid) h
    exact ⟨layer, List.mem_range.mpr hlayer, budget, hbudget, hlong⟩

/-- Only SnapKV and PyramidKV have layers with a budget. -/
theorem method_of_budget {layer : ℕ} {budget : ℤ} (h : config.prefillScoreLayerBudget layer = some budget) :
    config.sparseMethod = .snapkv ∨ config.sparseMethod = .pyramidkv := by
  unfold prefillScoreLayerBudget at h
  split at h
  · exact nomatch h
  · split at h
    · next hmethod => exact .inr hmethod
    · next hmethod => exact .inl hmethod
    · exact nomatch h

/-- `min_final_prefill_chunk_size` keeps the window back when a layer ends up
above its budget. -/
theorem minFinalPrefillChunkSize_eq_ok (hdominated : config.Dominated kv.rowSeqLens)
    (h : config.minFinalPrefillChunkSize kv seq = .ok (minFinal, later)) :
    config.Asked seq kv later ∧
      (0 < config.snapkvWindowSize → config.NeedsScore kv seq →
        minFinal = min config.snapkvWindowSize seq.remainingPrefillTokens) := by
  unfold minFinalPrefillChunkSize at h
  split at h
  · next hother =>
    obtain ⟨rfl, rfl⟩ := Prod.mk.inj (Except.ok.inj h)
    refine ⟨.refl, fun _ hneeds => ?_⟩
    obtain ⟨layer, -, budget, hbudget, -⟩ := hneeds
    rcases method_of_budget hbudget with hmethod | hmethod
    · exact absurd hmethod hother.1
    · exact absurd hmethod hother.2
  next hmethod =>
  split at h
  · next hwindow =>
    obtain ⟨rfl, rfl⟩ := Prod.mk.inj (Except.ok.inj h)
    exact ⟨.refl, fun hpos => absurd hwindow (Int.not_le.mpr hpos)⟩
  split at h
  · next hfull =>
    obtain ⟨rfl, rfl⟩ := Prod.mk.inj (Except.ok.inj h)
    refine ⟨.refl, fun _ hneeds => ?_⟩
    obtain ⟨layer, hlayer, budget, hbudget, -⟩ := hneeds
    unfold prefillScoreLayerBudget at hbudget
    rw [if_pos (by omega)] at hbudget
    exact nomatch hbudget
  cases hturn : config.rawOffloadTurnTokens kv seq with
  | error error =>
      rw [hturn] at h
      exact nomatch h
  | ok answer =>
    obtain ⟨turnTokens, kv'⟩ := answer
    rw [hturn] at h
    obtain ⟨hasked, hturnTokens⟩ := rawOffloadTurnTokens_eq_ok hturn
    change ((config.needsScore kv' seq turnTokens).bind fun needsScore => Except.ok
      ((if needsScore = true then min config.snapkvWindowSize seq.remainingPrefillTokens else 0),
        kv')) = .ok (minFinal, later) at h
    cases hneeded : config.needsScore kv' seq turnTokens with
    | error error =>
        rw [hneeded] at h
        exact nomatch h
    | ok needed =>
      rw [hneeded] at h
      obtain ⟨rfl, rfl⟩ := Prod.mk.inj (Except.ok.inj h)
      refine ⟨hasked, fun _ hneeds => ?_⟩
      -- a layer above its budget is one that `needsScore` finds:
      have htrue : needed = true := by
        apply needsScore_eq _ _ _ hneeded (hasked.needsScore.mpr hneeds)
        · rw [hasked.rowSeqLens]
          exact hdominated
        · rw [hasked.rawOffloads]
          exact hturnTokens
        · by_contra hnot
          rw [not_or] at hnot
          exact hmethod hnot
      rw [htrue, if_pos rfl]

/-! ## One candidate -/

theorem prefillStepTokens_le {scheduling : SchedulerConfig} {numBatchedTokens : ℤ} (hremaining : 0 < remaining) :
    Scheduler.prefillStepTokens scheduling mode remaining numBatchedTokens stepFreeCount ≤
      remaining := by
  have hmin : min (min (min remaining scheduling.enginePrefillChunkSize)
      (scheduling.maxNumBatchedTokens - numBatchedTokens)) stepFreeCount ≤ remaining :=
    (min_le_left _ _).trans ((min_le_left _ _).trans (min_le_left _ _))
  unfold Scheduler.prefillStepTokens
  cases mode with
  | chunked => exact hmin
  | rawOffload => exact hmin
  | full =>
      dsimp only
      split <;> omega

/-- A full step takes the rest of the prompt or nothing. -/
theorem prefillStepTokens_full (scheduling : SchedulerConfig) (remaining numBatchedTokens stepFreeCount : ℤ) :
    Scheduler.prefillStepTokens scheduling .full remaining numBatchedTokens stepFreeCount = remaining ∨
      Scheduler.prefillStepTokens scheduling .full remaining numBatchedTokens stepFreeCount = 0 := by
  unfold Scheduler.prefillStepTokens
  dsimp only
  split
  · exact .inl rfl
  · exact .inr rfl

/-- A chunk that does not end the prompt leaves the minimum. -/
theorem respectMinFinal_leaves (hpos : 0 < minFinal) (hle : minFinal ≤ remaining) (hproposed : proposed ≤ remaining) :
    respectMinFinal minFinal remaining proposed = remaining ∨
      minFinal ≤ remaining - respectMinFinal minFinal remaining proposed := by
  unfold respectMinFinal
  dsimp only
  split
  · next hkeeps => rcases hkeeps with hzero | hends | hleaves <;> omega
  · rw [max_eq_right (by omega)]
    omega

theorem respectMinFinal_le (hminFinal : 0 ≤ minFinal) (hremaining : 0 < remaining)
    (hproposed : proposed ≤ remaining) :
    respectMinFinal minFinal remaining proposed ≤ remaining := by
  unfold respectMinFinal
  dsimp only
  split
  · exact hproposed
  · apply max_le hremaining.le
    calc remaining - minFinal ≤ remaining - 0 := Int.sub_le_sub_left hminFinal remaining
      _ = remaining := Int.sub_zero remaining

/-- What is known about a chunk when it is decided. -/
theorem candidateChunk_eq_ok {scheduling : SchedulerConfig} {numBatchedTokens chunk : ℤ}
    (hdominated : config.Dominated kv.rowSeqLens)
    (h : config.candidateChunk scheduling mode numBatchedTokens stepFreeCount kv seq = .ok (chunk, later)) :
    config.Asked seq kv later ∧ 0 < seq.remainingPrefillTokens ∧ chunk ≤ seq.remainingPrefillTokens ∧
      (mode = .full → 0 < chunk → chunk = seq.remainingPrefillTokens) ∧
      (0 < config.snapkvWindowSize → config.NeedsScore kv seq →
        chunk = seq.remainingPrefillTokens ∨
          min config.snapkvWindowSize seq.remainingPrefillTokens ≤ seq.remainingPrefillTokens - chunk) := by
  unfold candidateChunk at h
  dsimp only at h
  split at h
  · exact nomatch h
  · next hremaining =>
    rw [Int.not_le] at hremaining
    cases hminFinal : config.minFinalPrefillChunkSize kv seq with
    | error error =>
        rw [hminFinal] at h
        exact nomatch h
    | ok answer =>
      obtain ⟨minFinal, kv'⟩ := answer
      rw [hminFinal] at h
      obtain ⟨hasked, hwindow⟩ := minFinalPrefillChunkSize_eq_ok hdominated hminFinal
      change (if minFinal < 0 then _ else Except.ok (respectMinFinal minFinal
        seq.remainingPrefillTokens (Scheduler.prefillStepTokens scheduling mode
          seq.remainingPrefillTokens numBatchedTokens stepFreeCount), kv')) = _ at h
      split at h
      · exact nomatch h
      · next hnonneg =>
        obtain ⟨rfl, rfl⟩ := Prod.mk.inj (Except.ok.inj h)
        rw [Int.not_lt] at hnonneg
        refine ⟨hasked, hremaining, respectMinFinal_le hnonneg hremaining (prefillStepTokens_le hremaining), ?_, ?_⟩
        · -- full mode takes all that is left or nothing
          rintro rfl hpos
          rcases prefillStepTokens_full scheduling seq.remainingPrefillTokens numBatchedTokens
            stepFreeCount with hall | hnone
          · rw [hall]
            unfold respectMinFinal
            dsimp only
            rw [if_pos (.inr (.inl (by omega)))]
          · rw [hnone] at hpos ⊢
            unfold respectMinFinal at hpos
            dsimp only at hpos
            split at hpos
            · omega
            · next hmore =>
              rw [not_or, not_or] at hmore
              rw [max_eq_left (by omega)] at hpos
              omega
        · intro hpos hneeds
          -- otherwise the window of the prompt is left for the last chunk
          rw [← hwindow hpos hneeds]
          apply respectMinFinal_leaves
          · rw [hwindow hpos hneeds]
            exact lt_min hpos hremaining
          · rw [hwindow hpos hneeds]
            exact min_le_right _ _
          · exact prefillStepTokens_le hremaining

/-! ## The scan -/

variable (config kv later seq) in
/-- What the scan decides for a candidate it takes. -/
structure Cut (target : PrefillExecutionMode) (cut : ChainSequence Id) : Prop where
  cut_eq : cut = { seq with currentChunkSize := some cut.chunkSize }
  remaining_pos : 0 < seq.remainingPrefillTokens
  chunk_pos : 0 < cut.chunkSize
  chunk_le : cut.chunkSize ≤ seq.remainingPrefillTokens
  full_eq : target = .full → cut.chunkSize = seq.remainingPrefillTokens
  leaves : 0 < config.snapkvWindowSize → config.NeedsScore kv seq →
    cut.chunkSize = seq.remainingPrefillTokens ∨
      min config.snapkvWindowSize seq.remainingPrefillTokens ≤
        seq.remainingPrefillTokens - cut.chunkSize
  mode_eq : target = .full ∨ target = config.ownMode kv seq ∧ later = config.asked kv seq ∧
    (config.rawOffloads kv seq = true → config.stagingKvCache = true)

theorem runtimeExecutionMode_eq_ok (h : config.runtimeExecutionMode kv seq = .ok (mode, later)) :
    config.Asked seq kv later ∧
      (mode = .full ∨ mode = config.ownMode kv seq ∧ later = config.asked kv seq ∧
        (config.rawOffloads kv seq = true → config.stagingKvCache = true)) := by
  unfold runtimeExecutionMode at h
  split at h
  · obtain ⟨rfl, rfl⟩ := Prod.mk.inj (Except.ok.inj h)
    exact ⟨.refl, .inl rfl⟩
  · obtain ⟨rfl, rfl, hstaging⟩ := prefillExecutionMode_eq_ok h
    exact ⟨.once, .inr ⟨rfl, rfl, hstaging⟩⟩

variable {scheduling : SchedulerConfig} {target : PrefillExecutionMode} {numBatchedTokens : ℤ}
  {batch : List (ChainSequence Id)} {table table' : ℕ → SequenceKv}

variable (config target table table' batch) in
/-- What a scan leaves. -/
structure Scanned (candidates : List (ChainSequence Id × ℤ)) : Prop where
  cuts : ∀ cut ∈ batch, ∃ candidate ∈ candidates, cut.seqId = candidate.1.seqId ∧
    config.Cut (table candidate.1.seqId) (table' candidate.1.seqId) candidate.1 target cut
  sublist : (batch.map ChainSequence.seqId).Sublist
    (candidates.map fun candidate => candidate.1.seqId)
  alone : target = .rawOffload → batch.length ≤ 1
  asked : ∀ candidate ∈ candidates,
    config.Asked candidate.1 (table candidate.1.seqId) (table' candidate.1.seqId)
  others : ∀ other, other ∉ candidates.map (fun candidate => candidate.1.seqId) →
    table' other = table other

/-- The candidates behind the first, on a table that differs from `table` in the
first only. -/
theorem Scanned.skipped (hfresh : seq.seqId ∉ candidates.map fun candidate => candidate.1.seqId)
    (hasked : config.Asked seq (table seq.seqId) later)
    (h : config.Scanned target batch (Function.update table seq.seqId later) table' candidates) :
    config.Scanned target batch table table' ((seq, stepFreeCount) :: candidates) := by
  have hne : ∀ candidate ∈ candidates, candidate.1.seqId ≠ seq.seqId := by
    rintro candidate hmem heq
    exact hfresh (heq ▸ List.mem_map_of_mem (f := fun candidate => candidate.1.seqId) hmem)
  refine ⟨?_, h.sublist.cons _, h.alone, ?_, ?_⟩
  · intro cut hcut
    obtain ⟨candidate, hmem, hid, hcut⟩ := h.cuts cut hcut
    rw [Function.update_of_ne (hne candidate hmem)] at hcut
    exact ⟨candidate, List.mem_cons_of_mem _ hmem, hid, hcut⟩
  · intro candidate hmem
    rcases List.mem_cons.mp hmem with rfl | hmem
    · rw [h.others _ hfresh, Function.update_self]
      exact hasked
    · have hask := h.asked candidate hmem
      rw [Function.update_of_ne (hne candidate hmem)] at hask
      exact hask
  · intro other hother
    rw [List.map_cons, List.mem_cons, not_or] at hother
    rw [h.others other hother.2, Function.update_of_ne hother.1]

/-- A scan that takes nothing. -/
theorem Scanned.nothing (candidates : List (ChainSequence Id × ℤ)) :
    config.Scanned target [] table table candidates :=
  ⟨fun _ hcut => absurd hcut List.not_mem_nil, List.nil_sublist _, fun _ => Nat.zero_le 1,
    fun _ _ => .refl, fun _ _ => rfl⟩

/-- A candidate that is taken, in front of what the scan takes behind it. -/
theorem Scanned.taken {cut : ChainSequence Id}
    (hfresh : seq.seqId ∉ candidates.map fun candidate => candidate.1.seqId)
    (hasked : config.Asked seq (table seq.seqId) later) (hid : cut.seqId = seq.seqId)
    (hcut : config.Cut (table seq.seqId) later seq target cut) (halone : target = .rawOffload → batch = [])
    (h : config.Scanned target batch (Function.update table seq.seqId later) table' candidates) :
    config.Scanned target (cut :: batch) table table' ((seq, stepFreeCount) :: candidates) := by
  have hskipped : config.Scanned target batch table table' ((seq, stepFreeCount) :: candidates) :=
    h.skipped hfresh hasked
  have hlater : table' seq.seqId = later := by
    rw [h.others _ hfresh, Function.update_self]
  refine ⟨?_, ?_, ?_, hskipped.asked, hskipped.others⟩
  · intro next hnext
    rcases List.mem_cons.mp hnext with rfl | hnext
    · refine ⟨(seq, stepFreeCount), List.mem_cons_self, hid, ?_⟩
      rw [hlater]
      exact hcut
    · exact hskipped.cuts next hnext
  · rw [List.map_cons, List.map_cons, hid]
    exact h.sublist.cons_cons seq.seqId
  · intro hraw
    rw [halone hraw]
    exact Nat.le_refl 1

/-- The scan decides every chunk on what the cache manager held before it. -/
theorem scanCandidates_eq_ok (hnodup : (candidates.map fun candidate => candidate.1.seqId).Nodup)
    (hdominated : ∀ candidate ∈ candidates, config.Dominated (table candidate.1.seqId).rowSeqLens)
    (h : config.scanCandidates scheduling target candidates numBatchedTokens table =
      .ok (batch, table')) : config.Scanned target batch table table' candidates := by
  induction candidates generalizing numBatchedTokens table batch with
  | nil =>
      obtain ⟨rfl, rfl⟩ := Prod.mk.inj (Except.ok.inj h)
      exact .nothing []
  | cons candidate rest ih =>
    obtain ⟨seq, stepFreeCount⟩ := candidate
    rw [List.map_cons, List.nodup_cons] at hnodup
    -- a later candidate is another request, so its rows are as they were:
    have hrest : ∀ kv, ∀ candidate ∈ rest,
        config.Dominated (Function.update table seq.seqId kv candidate.1.seqId).rowSeqLens := by
      intro kv candidate hmem
      rw [Function.update_of_ne]
      · exact hdominated candidate (List.mem_cons_of_mem _ hmem)
      · rintro heq
        exact hnodup.1 (heq ▸ List.mem_map_of_mem (f := fun candidate => candidate.1.seqId) hmem)
    unfold scanCandidates at h
    cases hmode : config.runtimeExecutionMode (table seq.seqId) seq with
    | error error =>
        rw [hmode] at h
        exact nomatch h
    | ok answer =>
    obtain ⟨mode, kv⟩ := answer
    obtain ⟨hasked, hmodes⟩ := runtimeExecutionMode_eq_ok hmode
    rw [hmode] at h
    change (if mode ≠ target then _ else _) = _ at h
    split at h
    · exact (ih hnodup.2 (hrest kv) h).skipped hnodup.1 hasked
    · next htarget =>
      rw [not_not] at htarget
      have hdom : config.Dominated kv.rowSeqLens := by
        rw [hasked.rowSeqLens]
        exact hdominated _ List.mem_cons_self
      cases hchunk : config.candidateChunk scheduling mode numBatchedTokens stepFreeCount kv seq with
      | error error =>
          rw [hchunk] at h
          exact nomatch h
      | ok decided =>
      obtain ⟨chunk, kv'⟩ := decided
      rw [hchunk] at h
      obtain ⟨hagain, hremaining, hle, hfull, hleaves⟩ := candidateChunk_eq_ok hdom hchunk
      have hboth : config.Asked seq (table seq.seqId) kv' := hasked.trans hagain
      change (if chunk ≤ 0 then _ else _) = _ at h
      split at h
      · exact (ih hnodup.2 (hrest kv') h).skipped hnodup.1 hboth
      · next hpos =>
        rw [Int.not_le] at hpos
        -- the chunk is one the mode allows:
        have hcut : config.Cut (table seq.seqId) kv' seq target
            { seq with currentChunkSize := some chunk } := by
          refine ⟨rfl, hremaining, hpos, hle, fun hisfull => hfull (htarget.trans hisfull) hpos,
            fun hwindow hneeds => hleaves hwindow (hasked.needsScore.mpr hneeds), ?_⟩
          rcases hmodes with rfl | ⟨rfl, rfl, hstaging⟩
          · exact .inl htarget.symm
          · refine .inr ⟨htarget.symm, ?_, hstaging⟩
            rcases hagain with rfl | rfl
            · rfl
            · exact asked_asked
        change (if target = .rawOffload then _ else _) = _ at h
        split at h
        · -- raw offload takes one sequence a batch
          obtain ⟨rfl, rfl⟩ := Prod.mk.inj (Except.ok.inj h)
          exact .taken hnodup.1 hboth rfl hcut (fun _ => rfl) (.nothing rest)
        · next hmore =>
          cases hscan : config.scanCandidates scheduling target rest (numBatchedTokens + chunk)
              (Function.update table seq.seqId kv') with
          | error error =>
              rw [hscan] at h
              exact nomatch h
          | ok found =>
            obtain ⟨scheduled, final⟩ := found
            rw [hscan] at h
            obtain ⟨rfl, rfl⟩ := Prod.mk.inj (Except.ok.inj h)
            exact .taken hnodup.1 hboth rfl hcut (fun hraw => absurd hraw hmore) (ih hnodup.2 (hrest kv') hscan)

end ScoringConfig
