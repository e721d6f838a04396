import SparseEngine.PrefillScoring.Forward

/-!
# Prefill steps

A step of prompts that fit is executed without a raise, whatever the prompts
of the batch are, and leaves no score behind.
-/

namespace ScoringConfig

open Keyed Sawtooth

variable {Id : Type} {config : ScoringConfig} {kv : SequenceKv} {seq : ChainSequence Id}
  {table asked : ℕ → SequenceKv} {batch : List (ChainSequence Id)} {staging : PrefillStaging}

/-- A batch whose chunks have been decided. -/
structure Ready (config : ScoringConfig) (table : ℕ → SequenceKv) (batch : List (ChainSequence Id)) :
    Prop where
  nodup : (batch.map ChainSequence.seqId).Nodup
  runnable : ∀ seq ∈ batch, config.Runnable (table seq.seqId) seq
  unfinished : ∀ seq ∈ batch, seq.endsPrompt = false → config.canUseFullPrefillStaging = true →
    batch = [seq] ∧ config.rawOffloads (table seq.seqId) seq = true ∧ config.stagingKvCache = true
  condition : ∀ seq ∈ batch, seq.endsPrompt = true → config.NeedsScore (table seq.seqId) seq →
    0 < config.snapkvWindowSize

/-- What a step leaves of a sequence of its batch. -/
structure Stepped (config : ScoringConfig) (kv : SequenceKv) (seq : ChainSequence Id)
    (staging : PrefillStaging) (later : SequenceKv) : Prop where
  rows : ∀ layer < config.numKvLayers, later.rowSeqLens layer =
    if seq.endsPrompt = true then
      config.cutLen kv seq staging layer
        (if staging = .none then (config.preparedKv staging seq kv).rowSeqLens layer
        else some (visibleLen kv seq staging layer))
    else (config.preparedKv staging seq kv).rowSeqLens layer
  scores : ∀ layer, later.scoreAccumulators layer = none
  phase : config.SamePhase kv seq later

theorem Ready.askedAll (h : config.Ready table batch) (hasked : config.AskedAll batch table asked) :
    config.Ready asked batch := by
  refine ⟨h.nodup, fun seq hmem => (h.runnable seq hmem).asked (hasked.1 seq hmem), ?_, ?_⟩
  · intro seq hmem hunfinished hcan
    rw [(hasked.1 seq hmem).rawOffloads]
    exact h.unfinished seq hmem hunfinished hcan
  · intro seq hmem hends
    rw [(hasked.1 seq hmem).needsScore]
    exact h.condition seq hmem hends

/-- Every sequence goes through the staging tensor as the step does. -/
theorem Staged.fits (h : config.Staged table batch staging)
    (hasked : config.AskedAll batch table asked) (hmem : seq ∈ batch) :
    config.Fits (asked seq.seqId) seq staging := by
  refine ⟨fun hfull => h.full_eq hfull seq hmem, fun hlong => ?_⟩
  obtain ⟨other, rfl, hraw⟩ := h.long_eq hlong
  obtain rfl := List.mem_singleton.mp hmem
  rw [(hasked.1 seq hmem).rawOffloads]
  exact hraw

variable {current : SequenceKv}

theorem SamePhase.rawOffloads (h : config.SamePhase kv seq current) :
    config.rawOffloads current seq = config.rawOffloads kv seq := by
  rcases h with h | h
  · exact rawOffloads_congr h
  · rw [rawOffloads_congr h, rawOffloads_asked]

/-- The step writes every layer from the staging tensor. -/
def stagedStep (config : ScoringConfig) (staging : PrefillStaging)
    (batch : List (ChainSequence Id)) : Bool :=
  decide (config.sparseMethod = .pyramidkv) && decide (staging ≠ .none) &&
    batch.all fun seq => seq.endsPrompt

/-- All sequences of the batch have passed the layers below `n`. -/
def PassedAll (config : ScoringConfig) (asked : ℕ → SequenceKv) (batch : List (ChainSequence Id))
    (staging : PrefillStaging) (n : ℕ) (table : ℕ → SequenceKv) : Prop :=
  (∀ seq ∈ batch, config.Passed (asked seq.seqId) seq staging (config.stagedStep staging batch) n
    (table seq.seqId)) ∧
    ∀ other, other ∉ batch.map ChainSequence.seqId → table other = asked other

theorem mem_preparedBatch {entry : PreparedSequence Id} (h : entry ∈ preparedBatch staging batch asked) :
    ∃ seq ∈ batch, entry = prepared staging (asked seq.seqId) seq := by
  obtain ⟨seq, hmem, rfl⟩ := List.mem_map.mp h
  exact ⟨seq, hmem, rfl⟩

theorem map_preparedBatch : (preparedBatch staging batch asked).map (fun entry => entry.seq.seqId) =
    batch.map ChainSequence.seqId := by
  unfold preparedBatch
  rw [List.map_map]
  rfl

/-- A loop over the prepared batch, sequence by sequence. -/
theorem updatePrepared_ok (body : PreparedSequence Id → SequenceKv → Except PyError SequenceKv)
    (table : ℕ → SequenceKv) (good : ChainSequence Id → SequenceKv → Prop) (entries : List (PreparedSequence Id))
    (hsub : ∀ entry ∈ entries, ∃ seq ∈ batch, entry = prepared staging (asked seq.seqId) seq)
    (hnodup : (entries.map fun entry => entry.seq.seqId).Nodup)
    (hbody : ∀ seq ∈ batch, prepared staging (asked seq.seqId) seq ∈ entries →
      ∃ later, body (prepared staging (asked seq.seqId) seq) (table seq.seqId) = .ok later ∧ good seq later) :
    ∃ later, updateEach (fun entry => entry.seq.seqId) body entries table = .ok later ∧
      (∀ seq ∈ batch, prepared staging (asked seq.seqId) seq ∈ entries → good seq (later seq.seqId)) ∧
      ∀ other, other ∉ entries.map (fun entry => entry.seq.seqId) → later other = table other := by
  obtain ⟨later, hrun, hgood, hothers⟩ := updateEach_ok
    (fun (entry : PreparedSequence Id) value => good entry.seq value) table hnodup
    fun entry hentry => by
      obtain ⟨seq, hmem, rfl⟩ := hsub entry hentry
      exact hbody seq hmem hentry
  exact ⟨later, hrun, fun seq _ hentry => hgood _ hentry, hothers⟩

/-- What is fixed before the forward pass. -/
structure Launched (config : ScoringConfig) (asked : ℕ → SequenceKv)
    (batch : List (ChainSequence Id)) (staging : PrefillStaging) : Prop where
  ready : config.Ready asked batch
  fits : ∀ seq ∈ batch, config.Fits (asked seq.seqId) seq staging
  canUse : staging ≠ .none → config.canUseFullPrefillStaging = true
  stagingKvCache : staging ≠ .none → config.stagingKvCache = true

theorem Launched.prepared_mem (hmem : seq ∈ batch) :
    prepared staging (asked seq.seqId) seq ∈ preparedBatch staging batch asked :=
  List.mem_map.mpr ⟨seq, hmem, rfl⟩

/-- A chunk in the staging tensor that does not end its prompt is alone in its
step. -/
theorem Launched.alone (h : config.Launched asked batch staging) (hstaging : staging ≠ .none)
    (hmem : seq ∈ batch) (hunfinished : seq.endsPrompt = false) :
    batch = [seq] ∧ config.rawOffloads (asked seq.seqId) seq = true :=
  have hoffloaded := h.ready.unfinished seq hmem hunfinished (h.canUse hstaging)
  ⟨hoffloaded.1, hoffloaded.2.1⟩

/-- The question behind a layer of a chunk that does not end its prompt. -/
theorem Launched.anyLongOffload_eq (h : config.Launched asked [seq] staging)
    (hstaging : staging ≠ .none) (hraw : config.rawOffloads (asked seq.seqId) seq = true)
    (entry : PreparedSequence Id) (hentry : entry.seq = seq)
    (hphase : config.SamePhase (asked seq.seqId) seq (table seq.seqId)) :
    config.anyLongOffload [entry] table = .ok (true,
      Function.update table seq.seqId (config.asked (table seq.seqId) seq)) := by
  have hrun := h.ready.runnable seq (List.mem_singleton.mpr rfl)
  unfold anyLongOffload
  rw [hentry, askLongOffload_eq hrun.remaining_pos (h.stagingKvCache hstaging), hphase.rawOffloads, hraw]
  rfl

/-- The attention of a layer. -/
theorem Launched.forwardLayer_ok (h : config.Launched asked batch staging) {n : ℕ}
    (hn : n < config.numKvLayers) (hpassed : config.PassedAll asked batch staging n table) :
    ∃ later, config.forwardLayer staging (preparedBatch staging batch asked) n table = .ok later ∧
      config.PassedAll asked batch staging (n + 1) later := by
  have hnodup : ((preparedBatch staging batch asked).map fun entry => entry.seq.seqId).Nodup := by
    rw [map_preparedBatch]
    exact h.ready.nodup
  obtain ⟨middle, hmiddle, hcollected, hothers⟩ := updatePrepared_ok (config.collectScore staging n) table
    (fun seq => config.Collected (asked seq.seqId) seq staging (config.stagedStep staging batch) n)
    (preparedBatch staging batch asked) (fun entry => mem_preparedBatch) hnodup
    fun seq hmem _ => collectScore_eq hn (h.ready.runnable seq hmem) (h.fits seq hmem) (hpassed.1 seq hmem)
  rw [map_preparedBatch] at hothers
  have houtside : ∀ other, other ∉ batch.map ChainSequence.seqId → middle other = asked other :=
    fun other hother => (hothers other hother).trans (hpassed.2 other hother)
  have hfound : ∀ seq ∈ batch, config.Collected (asked seq.seqId) seq staging
      (config.stagedStep staging batch) n (middle seq.seqId) :=
    fun seq hmem => hcollected seq hmem (Launched.prepared_mem hmem)
  unfold forwardLayer
  change ∃ later, (Except.bind (updateEach _ _ _ _) _) = Except.ok later ∧ _
  rw [hmiddle]
  change ∃ later, config.onAttentionEnd staging (preparedBatch staging batch asked) n middle = .ok later ∧ _
  unfold onAttentionEnd
  by_cases hplain : config.sparseMethod ≠ .pyramidkv ∨ staging = .none
  · have hstaged : config.stagedStep staging batch = false := by
      unfold stagedStep
      rcases hplain with hmethod | hnone
      · simp [hmethod]
      · simp [hnone]
    rw [if_pos hplain]
    refine ⟨middle, rfl, fun seq hmem => ?_, houtside⟩
    have hone := hfound seq hmem
    rw [hstaged] at hone ⊢
    exact hone.unstaged
  rw [if_neg hplain]
  rw [not_or, not_not] at hplain
  obtain ⟨hpyramid, hstaging⟩ := hplain
  split
  · next hany =>
    -- an offloaded prompt that is not at its end
    obtain ⟨entry, hentry, hmore⟩ := List.any_eq_true.mp hany
    obtain ⟨seq, hmem, rfl⟩ := mem_preparedBatch hentry
    have hunfinished : seq.endsPrompt = false := by
      rw [Bool.not_eq_true'] at hmore
      exact hmore
    obtain ⟨rfl, hraw⟩ := h.alone hstaging hmem hunfinished
    have hstaged : config.stagedStep staging [seq] = false := by
      unfold stagedStep
      simp [hunfinished]
    have hone := hfound seq hmem
    rw [hstaged] at hone
    have hask := h.anyLongOffload_eq hstaging hraw (prepared staging (asked seq.seqId) seq) rfl hone.phase
    refine ⟨Function.update middle seq.seqId (config.asked (middle seq.seqId) seq), ?_, ?_, ?_⟩
    · change (Except.bind (config.anyLongOffload [prepared staging (asked seq.seqId) seq] middle) _) = _
      rw [hask]
      rfl
    · intro next hnext
      obtain rfl := List.mem_singleton.mp hnext
      rw [hstaged, Function.update_self]
      exact hone.unstaged.asked
    · intro other hother
      rw [List.map_singleton, List.mem_singleton] at hother
      rw [Function.update_of_ne hother]
      exact houtside other (by simpa using hother)
  · next hall =>
    have hends : ∀ seq ∈ batch, seq.endsPrompt = true := by
      intro seq hmem
      by_contra hnot
      apply hall
      rw [Bool.not_eq_true] at hnot
      refine List.any_eq_true.mpr ⟨_, Launched.prepared_mem hmem, ?_⟩
      change (!seq.endsPrompt) = true
      rw [hnot]
      rfl
    have hstaged : config.stagedStep staging batch = true := by
      unfold stagedStep
      simp only [hpyramid, decide_true, Bool.true_and, Bool.and_eq_true, decide_eq_true_eq]
      exact ⟨hstaging, List.all_eq_true.mpr hends⟩
    rw [hstaged] at hfound
    obtain ⟨later, hlater, hpass, hrest⟩ := updatePrepared_ok (config.materializeStaging staging n) middle
      (fun seq => config.Passed (asked seq.seqId) seq staging true (n + 1))
      (preparedBatch staging batch asked) (fun entry => mem_preparedBatch) hnodup
      fun seq hmem _ => materializeStaging_eq hn (h.ready.runnable seq hmem) (h.fits seq hmem)
        (hends seq hmem) hstaging (h.ready.condition seq hmem (hends seq hmem)) (hfound seq hmem)
    rw [map_preparedBatch] at hrest
    refine ⟨later, hlater, fun seq hmem => ?_, fun other hother => (hrest other hother).trans (houtside other hother)⟩
    rw [hstaged]
    exact hpass seq hmem (Launched.prepared_mem hmem)

/-- The sequences of a batch that end their prompts. -/
theorem finalSeqs_eq : (preparedBatch staging batch asked).filter (fun entry => entry.seq.endsPrompt) =
    preparedBatch staging (batch.filter fun seq => seq.endsPrompt) asked := by
  unfold preparedBatch
  rw [List.filter_map]
  rfl

/-- What the forward pass leaves of a sequence, when it is not evicted. -/
theorem Launched.stepped_of_passed (h : config.Launched asked batch staging) (hmem : seq ∈ batch)
    (hpassed : config.Passed (asked seq.seqId) seq staging
      (config.stagedStep staging batch) config.numKvLayers current)
    (hends : seq.endsPrompt = true → config.stagedStep staging batch = true) :
    config.Stepped (asked seq.seqId) seq staging current := by
  refine ⟨fun layer hlayer => ?_, fun layer => ?_, hpassed.phase⟩
  · rw [hpassed.rows layer hlayer]
    by_cases hend : seq.endsPrompt = true
    · have hstaged := hends hend
      have hstaging : staging ≠ .none := by
        rintro rfl
        unfold stagedStep at hstaged
        simp at hstaged
      rw [if_pos ⟨hstaged, hlayer⟩, if_pos hend, if_neg hstaging]
    · have hstaged : config.stagedStep staging batch = false := by
        unfold stagedStep
        have hnot : (batch.all fun seq => seq.endsPrompt) = false := by
          rw [← Bool.not_eq_true]
          exact fun hall => hend (List.all_eq_true.mp hall seq hmem)
        rw [hnot, Bool.and_false]
      rw [if_neg (by simp [hstaged]), if_neg hend]
  · have hnone : ¬ (current.scoreAccumulators layer).isSome = true := by
      intro hsome
      obtain ⟨hstaged, -, hscored⟩ := (hpassed.scores layer).mp hsome
      rw [hends hscored.1] at hstaged
      exact nomatch hstaged
    simpa using hnone

theorem Launched.finishStep_ok (h : config.Launched asked batch staging)
    (hpassed : config.PassedAll asked batch staging config.numKvLayers table) :
    ∃ later, config.finishStep staging (preparedBatch staging batch asked) table = .ok later ∧
      (∀ seq ∈ batch, config.Stepped (asked seq.seqId) seq staging (later seq.seqId)) ∧
      ∀ other, other ∉ batch.map ChainSequence.seqId → later other = asked other := by
  unfold finishStep
  rw [finalSeqs_eq]
  dsimp only
  split
  · next hnone =>
    -- no prompt ends with this step
    have hmore : ∀ seq ∈ batch, ¬ seq.endsPrompt = true := by
      intro seq hmem hends
      have hempty : (batch.filter fun seq => seq.endsPrompt) = [] := List.map_eq_nil_iff.mp hnone
      exact List.filter_eq_nil_iff.mp hempty seq hmem hends
    exact ⟨table, rfl, fun seq hmem => h.stepped_of_passed hmem (hpassed.1 seq hmem)
      fun hends => absurd hends (hmore seq hmem), hpassed.2⟩
  next hsome =>
  split
  · next hstaged =>
    obtain ⟨hpyramid, hstaging⟩ := hstaged
    have hall : ∀ seq ∈ batch, seq.endsPrompt = true := by
      intro seq hmem
      by_contra hnot
      rw [Bool.not_eq_true] at hnot
      obtain ⟨rfl, -⟩ := h.alone hstaging hmem hnot
      apply hsome
      unfold preparedBatch
      simp [hnot]
    refine ⟨table, rfl, fun seq hmem => h.stepped_of_passed hmem (hpassed.1 seq hmem) fun _ => ?_, hpassed.2⟩
    unfold stagedStep
    simp only [hpyramid, decide_true, Bool.true_and, Bool.and_eq_true, decide_eq_true_eq]
    exact ⟨hstaging, List.all_eq_true.mpr hall⟩
  next hplain =>
  have hstaging : staging = .none := by
    by_contra hnot
    have hcan := h.canUse hnot
    unfold canUseFullPrefillStaging at hcan
    rw [Bool.and_eq_true, decide_eq_true_iff] at hcan
    exact hplain ⟨hcan.1, hnot⟩
  subst hstaging
  have hunstaged : config.stagedStep .none batch = false := by
    unfold stagedStep
    simp
  have hsub : ∀ entry ∈ preparedBatch .none (batch.filter fun seq => seq.endsPrompt) asked,
      ∃ seq ∈ batch, entry = prepared .none (asked seq.seqId) seq := by
    intro entry hentry
    obtain ⟨seq, hmem, hentry⟩ := mem_preparedBatch hentry
    exact ⟨seq, (List.mem_filter.mp hmem).1, hentry⟩
  have hends : ∀ seq, prepared .none (asked seq.seqId) seq ∈
      preparedBatch .none (batch.filter fun seq => seq.endsPrompt) asked → seq.endsPrompt = true := by
    intro seq hentry
    obtain ⟨other, hmem, heq⟩ := mem_preparedBatch hentry
    have hsame : seq = other := congrArg PreparedSequence.seq heq
    rw [hsame]
    exact (List.mem_filter.mp hmem).2
  have hnodup : ((preparedBatch .none (batch.filter fun seq => seq.endsPrompt) asked).map
      fun entry => entry.seq.seqId).Nodup := by
    rw [map_preparedBatch]
    exact h.ready.nodup.sublist (List.filter_sublist.map _)
  -- the layers below `n` of the prompts that have ended are cut back
  obtain ⟨later, hlater, hevicted, hothers⟩ := runSteps_range
    (fun layer => updateEach (fun entry : PreparedSequence Id => entry.seq.seqId) (config.evictPrompt layer)
      (preparedBatch .none (batch.filter fun seq => seq.endsPrompt) asked))
    (fun n current => (∀ seq ∈ batch, prepared .none (asked seq.seqId) seq ∈
        preparedBatch .none (batch.filter fun seq => seq.endsPrompt) asked →
        config.Evicted (asked seq.seqId) seq .none n (current seq.seqId)) ∧
      ∀ other, other ∉ (preparedBatch .none (batch.filter fun seq => seq.endsPrompt) asked).map
        (fun entry => entry.seq.seqId) → current other = table other)
    config.numKvLayers table
    (fun n hn current hcurrent => by
      obtain ⟨next, hnext, hgood, hrest⟩ := updatePrepared_ok (config.evictPrompt n) current
        (fun seq => config.Evicted (asked seq.seqId) seq .none (n + 1)) _ hsub hnodup
        fun seq hmem hentry => evictPrompt_eq hn (h.ready.runnable seq hmem) (h.fits seq hmem)
          (hends seq hentry) (h.ready.condition seq hmem (hends seq hentry))
          (hcurrent.1 seq hmem hentry)
      exact ⟨next, hnext, hgood, fun other hother =>
        (hrest other hother).trans (hcurrent.2 other hother)⟩)
    ⟨fun seq hmem hentry => by
      have hone := hpassed.1 seq hmem
      rw [hunstaged] at hone
      refine ⟨fun layer hlayer => ?_, fun layer => ?_, hone.phase⟩
      · rw [hone.rows layer hlayer, if_neg (by simp), if_neg (Nat.not_lt_zero layer)]
      · rw [hone.scores layer]
        simp, fun _ _ => rfl⟩
  refine ⟨later, hlater, fun seq hmem => ?_, fun other hother => ?_⟩
  · by_cases hend : seq.endsPrompt = true
    · have hentry : prepared .none (asked seq.seqId) seq ∈
          preparedBatch .none (batch.filter fun seq => seq.endsPrompt) asked :=
        List.mem_map.mpr ⟨seq, List.mem_filter.mpr ⟨hmem, hend⟩, rfl⟩
      have hone := hevicted seq hmem hentry
      refine ⟨fun layer hlayer => ?_, fun layer => ?_, hone.phase⟩
      · rw [hone.rows layer hlayer, if_pos hlayer, if_pos hend, if_pos rfl]
      · have hnone : ¬ ((later seq.seqId).scoreAccumulators layer).isSome = true := by
          intro hsome
          obtain ⟨hle, hlt, -⟩ := (hone.scores layer).mp hsome
          omega
        simpa using hnone
    · have hid : seq.seqId ∉ (preparedBatch .none (batch.filter fun seq => seq.endsPrompt) asked).map
          (fun entry => entry.seq.seqId) := by
        rw [map_preparedBatch]
        intro hin
        obtain ⟨other, hother, heq⟩ := List.mem_map.mp hin
        have hboth := List.mem_filter.mp hother
        have hsame := List.inj_on_of_nodup_map h.ready.nodup hboth.1 hmem heq
        exact hend (hsame ▸ hboth.2)
      rw [hothers seq.seqId hid]
      exact h.stepped_of_passed hmem (hpassed.1 seq hmem) fun hends => absurd hends hend
  · rw [hothers other, hpassed.2 other hother]
    rw [map_preparedBatch]
    exact fun hin => hother ((List.filter_sublist.map _).subset hin)

/-- A prefill step never raises for want of scores. -/
theorem prefillStep_ok (hready : config.Ready table batch) :
    ∃ staging asked later, config.prefillStaging table batch = .ok (staging, asked) ∧
      config.AskedAll batch table asked ∧ config.Staged table batch staging ∧
      config.Launched asked batch staging ∧ config.prefillStep batch table = .ok later ∧
      (∀ seq ∈ batch, config.Stepped (asked seq.seqId) seq staging (later seq.seqId)) ∧
      ∀ other, other ∉ batch.map ChainSequence.seqId → later other = table other := by
  obtain ⟨staging, asked, hstaging, hasked, hstaged⟩ :=
    prefillStaging_eq hready.nodup hready.runnable
  have hlaunched : config.Launched asked batch staging :=
    ⟨hready.askedAll hasked, fun seq hmem => hstaged.fits hasked hmem, hstaged.canUse, hstaged.stagingKvCache⟩
  obtain ⟨kvs, hkvs, hprepared, hothers⟩ := updateEach_ok
    (fun (seq : ChainSequence Id) later => later = config.preparedKv staging seq (asked seq.seqId))
    asked hready.nodup fun seq hmem =>
      ⟨_, prepareSequence_eq staging (hlaunched.ready.runnable seq hmem), rfl⟩
  obtain ⟨passed, hpassed, hall⟩ := runSteps_range (config.forwardLayer staging (preparedBatch staging batch asked))
    (config.PassedAll asked batch staging) config.numKvLayers kvs
    (fun n hn current hcurrent => hlaunched.forwardLayer_ok hn hcurrent)
    ⟨fun seq hmem => by
      rw [hprepared seq hmem]
      exact .start (hlaunched.ready.runnable seq hmem) _, hothers⟩
  obtain ⟨later, hlater, hstepped, hrest⟩ := hlaunched.finishStep_ok hall
  refine ⟨staging, asked, later, hstaging, hasked, hstaged, hlaunched, ?_, hstepped, fun other hother =>
    (hrest other hother).trans (hasked.2 other hother)⟩
  unfold prefillStep
  rw [hstaging]
  change (Except.bind (updateEach _ _ _ _) _) = _
  rw [hkvs]
  change (Except.bind (runSteps _ _ _) _) = _
  rw [hpassed]
  exact hlater

end ScoringConfig
