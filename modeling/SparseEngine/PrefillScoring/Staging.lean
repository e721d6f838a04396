import SparseEngine.PrefillScoring.Chunks

/-!
# The staging of a step

A prompt that is offloaded is alone in its step and goes through the staging
tensor chunk by chunk; a step of whole first prefills may go through it at
once; in all other steps the chunk is appended to the rows.  In each case the
queries at the end of the prompt see no more than `finalLen`.
-/

namespace ScoringConfig

variable {Id : Type} {config : ScoringConfig} {kv : SequenceKv} {seq : ChainSequence Id}
  {table : ℕ → SequenceKv} {batch : List (ChainSequence Id)} {staging : PrefillStaging}

/-- A sequence with a chunk, as the forward pass needs it. -/
structure Runnable (config : ScoringConfig) (kv : SequenceKv) (seq : ChainSequence Id) : Prop where
  chunk_eq : seq.currentChunkSize = some seq.chunkSize
  chunk_pos : 0 < seq.chunkSize
  chunk_le : seq.chunkSize ≤ seq.remainingPrefillTokens
  prefilled_nonneg : 0 ≤ seq.numPrefilledTokens
  attached_le : seq.isRecomputeReplay = false → seq.attachedTokens ≤ seq.numPrefilledTokens
  attached_pos : seq.isChainResume = true → 0 < seq.attachedTokens
  unattached : seq.isChainResume = false → seq.isRecomputeReplay = false → seq.attachedTokens = 0
  rows : seq.isChainResume = true → ∀ layer < config.numKvLayers, (kv.rowSeqLens layer).isSome = true
  scores : ∀ layer, kv.scoreAccumulators layer = none
  window : 0 < config.snapkvWindowSize → config.NeedsScore kv seq →
    seq.scoreWindow config.snapkvWindowSize ≤ seq.remainingPrefillTokens

/-- A sequence of a resumed chain is not a replay. -/
theorem isRecomputeReplay_of_resume (h : seq.isChainResume = true) :
    seq.isRecomputeReplay = false := by
  unfold ChainSequence.isChainResume at h
  simpa using (Bool.and_eq_true_iff.mp h).2

theorem Runnable.asked {later : SequenceKv} (h : config.Runnable kv seq)
    (hasked : config.Asked seq kv later) : config.Runnable later seq := by
  refine ⟨h.chunk_eq, h.chunk_pos, h.chunk_le, h.prefilled_nonneg, h.attached_le, h.attached_pos,
    h.unattached, ?_, ?_, ?_⟩
  · rw [hasked.rowSeqLens]
    exact h.rows
  · rw [hasked.scoreAccumulators]
    exact h.scores
  · rw [hasked.needsScore]
    exact h.window

theorem Runnable.remaining_pos (h : config.Runnable kv seq) : 0 < seq.remainingPrefillTokens :=
  h.chunk_pos.trans_le h.chunk_le

/-- A chunk ends the prompt when it is the rest of it. -/
theorem Runnable.endsPrompt_iff (h : config.Runnable kv seq) :
    seq.endsPrompt = true ↔ seq.chunkSize = seq.remainingPrefillTokens := by
  have hle := h.chunk_le
  unfold ChainSequence.endsPrompt
  unfold ChainSequence.remainingPrefillTokens at hle ⊢
  rw [decide_eq_true_iff]
  omega

/-! ## Which staging -/

/-- What a step knows about its staging. -/
structure Staged (config : ScoringConfig) (table : ℕ → SequenceKv) (batch : List (ChainSequence Id))
    (staging : PrefillStaging) : Prop where
  full_eq : staging = .full → ∀ seq ∈ batch,
    seq.numPrefilledTokens = 0 ∧ seq.chunkSize = seq.remainingPrefillTokens
  long_eq : staging = .longOffload → ∃ seq, batch = [seq] ∧
    config.rawOffloads (table seq.seqId) seq = true
  canUse : staging ≠ .none → config.canUseFullPrefillStaging = true
  stagingKvCache : staging ≠ .none → config.stagingKvCache = true
  of_offloads : ∀ seq, batch = [seq] → config.rawOffloads (table seq.seqId) seq = true →
    config.stagingKvCache = true → staging = .longOffload

theorem askLongOffload_eq (h : 0 < seq.remainingPrefillTokens) (hstaging : config.stagingKvCache = true) :
    config.askLongOffload table seq = .ok (config.rawOffloads (table seq.seqId) seq,
      Function.update table seq.seqId (config.asked (table seq.seqId) seq)) := by
  unfold askLongOffload
  rw [requiresLongPrefillOffload_eq h fun _ => hstaging]
  rfl

/-- The entries of a table that may have been asked about. -/
def AskedAll (config : ScoringConfig) (batch : List (ChainSequence Id))
    (table later : ℕ → SequenceKv) : Prop :=
  (∀ seq ∈ batch, config.Asked seq (table seq.seqId) (later seq.seqId)) ∧
    ∀ other, other ∉ batch.map ChainSequence.seqId → later other = table other

theorem AskedAll.refl : config.AskedAll batch table table := ⟨fun _ _ => .refl, fun _ _ => rfl⟩

theorem AskedAll.trans {middle later : ℕ → SequenceKv} (hfirst : config.AskedAll batch table middle)
    (hsecond : config.AskedAll batch middle later) : config.AskedAll batch table later :=
  ⟨fun seq hmem => (hfirst.1 seq hmem).trans (hsecond.1 seq hmem),
    fun other hother => (hsecond.2 other hother).trans (hfirst.2 other hother)⟩

/-- One question. -/
theorem AskedAll.ask (hnodup : (batch.map ChainSequence.seqId).Nodup) (hmem : seq ∈ batch) :
    config.AskedAll batch table (Function.update table seq.seqId (config.asked (table seq.seqId) seq)) := by
  refine ⟨?_, ?_⟩
  · intro next hnext
    by_cases hid : next.seqId = seq.seqId
    · obtain rfl : next = seq := List.inj_on_of_nodup_map hnodup hnext hmem hid
      rw [Function.update_self]
      exact .once
    · rw [Function.update_of_ne hid]
      exact .refl
  · intro other hother
    apply Function.update_of_ne
    rintro rfl
    exact hother (List.mem_map_of_mem hmem)

/-- The loop over first prefills always returns. -/
theorem allFirstPrefills_eq (rest : List (ChainSequence Id)) (total : ℤ) (table : ℕ → SequenceKv)
    (hnodup : (batch.map ChainSequence.seqId).Nodup) (hsub : ∀ seq ∈ rest, seq ∈ batch)
    (hremaining : ∀ seq ∈ batch, 0 < seq.remainingPrefillTokens) (hstaging : config.stagingKvCache = true) :
    ∃ useFull later, config.allFirstPrefills rest total table = .ok (useFull, later) ∧
      config.AskedAll batch table later ∧ (useFull = true → ∀ seq ∈ rest,
        seq.numPrefilledTokens = 0 ∧ seq.chunkSize = seq.remainingPrefillTokens) := by
  induction rest generalizing table total with
  | nil => exact ⟨_, table, rfl, .refl, fun _ seq hmem => absurd hmem List.not_mem_nil⟩
  | cons seq rest ih =>
      have hmem := hsub seq List.mem_cons_self
      have hask : config.AskedAll batch table
          (Function.update table seq.seqId (config.asked (table seq.seqId) seq)) :=
        .ask hnodup hmem
      unfold allFirstPrefills
      rw [askLongOffload_eq (hremaining seq hmem) hstaging]
      change ∃ useFull later, (if config.rawOffloads (table seq.seqId) seq = true then _ else _) =
        Except.ok (useFull, later) ∧ _
      split
      · exact ⟨false, _, rfl, hask, fun h => absurd h Bool.false_ne_true⟩
      · split
        · exact ⟨false, _, rfl, hask, fun h => absurd h Bool.false_ne_true⟩
        · next hfirst =>
          rw [not_or, not_not, not_not] at hfirst
          obtain ⟨useFull, later, hrun, hlater, hall⟩ :=
            ih (total + seq.chunkSize) (Function.update table seq.seqId (config.asked (table seq.seqId) seq))
              fun next hnext => hsub next (List.mem_cons_of_mem _ hnext)
          refine ⟨useFull, later, hrun, hask.trans hlater, fun huse next hnext => ?_⟩
          rcases List.mem_cons.mp hnext with rfl | hnext
          · exact hfirst
          · exact hall huse next hnext

section

variable (hnodup : (batch.map ChainSequence.seqId).Nodup)
  (hrunnable : ∀ seq ∈ batch, config.Runnable (table seq.seqId) seq)

include hnodup hrunnable

/-- The question about a single prompt. -/
theorem shouldUseLongOffloadStaging_eq (hcan : config.canUseFullPrefillStaging = true)
    (hstaging : config.stagingKvCache = true) :
    ∃ useLong later, config.shouldUseLongOffloadStaging table batch = .ok (useLong, later) ∧
      config.AskedAll batch table later ∧
      (useLong = true ↔ ∃ seq, batch = [seq] ∧ config.rawOffloads (table seq.seqId) seq = true) := by
  unfold shouldUseLongOffloadStaging
  rw [if_neg (by simp [hcan, hstaging])]
  match batch with
  | [] =>
      refine ⟨false, table, rfl, .refl, fun h => absurd h Bool.false_ne_true, ?_⟩
      rintro ⟨seq, hbatch, -⟩
      exact nomatch hbatch
  | [seq] =>
      have hrun := hrunnable seq List.mem_cons_self
      dsimp only
      rw [askLongOffload_eq hrun.remaining_pos hstaging]
      refine ⟨_, _, rfl, .ask hnodup List.mem_cons_self, ?_⟩
      rw [Bool.and_eq_true_iff, decide_eq_true_iff]
      constructor
      · exact fun h => ⟨seq, rfl, h.1⟩
      · rintro ⟨other, hbatch, hraw⟩
        obtain rfl := List.singleton_inj.mp hbatch
        exact ⟨hraw, hrun.chunk_pos⟩
  | first :: second :: rest =>
      refine ⟨false, table, rfl, .refl, fun h => absurd h Bool.false_ne_true, ?_⟩
      rintro ⟨seq, hbatch, -⟩
      exact nomatch hbatch

/-- The staging of a step is always decided. -/
theorem prefillStaging_eq :
    ∃ staging later, config.prefillStaging table batch = .ok (staging, later) ∧
      config.AskedAll batch table later ∧ config.Staged table batch staging := by
  by_cases hnone : config.canUseFullPrefillStaging = false ∨ config.stagingKvCache = false
  · refine ⟨.none, table, ?_, .refl, ⟨fun h => PrefillStaging.noConfusion h,
      fun h => PrefillStaging.noConfusion h, fun h => absurd rfl h, fun h => absurd rfl h, ?_⟩⟩
    · unfold prefillStaging shouldUseLongOffloadStaging shouldUseFullStaging
      rw [if_pos hnone]
      -- without the buffer nothing is staged:
      have hfull : config.canUseFullPrefillStaging = false ∨ config.stagingKvCache = false ∨
          batch = [] := hnone.imp_right .inl
      change ((if config.canUseFullPrefillStaging = false ∨ config.stagingKvCache = false ∨
        batch = [] then _ else _) : Except PyError (Bool × (ℕ → SequenceKv))).bind _ = _
      rw [if_pos hfull]
      rfl
    · intro seq _ hraw hstaging
      rw [rawOffloads_canUse hraw, hstaging] at hnone
      rcases hnone with hnone | hnone <;> exact nomatch hnone
  rw [not_or, Bool.not_eq_false, Bool.not_eq_false] at hnone
  obtain ⟨hcan, hstaging⟩ := hnone
  obtain ⟨useLong, middle, hlong, hmiddle, huse⟩ :=
    shouldUseLongOffloadStaging_eq hnodup hrunnable hcan hstaging
  -- full staging is for batches of whole prompts:
  have hfull : ∃ useFull later, config.shouldUseFullStaging middle batch = .ok (useFull, later) ∧
      config.AskedAll batch middle later ∧ (useFull = true → ∀ seq ∈ batch,
        seq.numPrefilledTokens = 0 ∧ seq.chunkSize = seq.remainingPrefillTokens) := by
    unfold shouldUseFullStaging
    split
    · exact ⟨false, middle, rfl, .refl, fun h => absurd h Bool.false_ne_true⟩
    · exact allFirstPrefills_eq batch 0 middle hnodup (fun _ hmem => hmem)
        (fun seq hmem => (hrunnable seq hmem).remaining_pos) hstaging
  obtain ⟨useFull, later, hrun, hlater, hall⟩ := hfull
  refine ⟨if useLong then .longOffload else if useFull then .full else .none, later, ?_,
    hmiddle.trans hlater, ⟨?_, ?_, fun _ => hcan, fun _ => hstaging, ?_⟩⟩
  · unfold prefillStaging
    rw [hlong]
    change (config.shouldUseFullStaging middle batch).bind _ = _
    rw [hrun]
    rfl
  · intro hisfull
    split at hisfull
    · exact nomatch hisfull
    · split at hisfull
      · next h => exact hall h
      · exact nomatch hisfull
  · intro hislong
    split at hislong
    · next h => exact huse.mp h
    · split at hislong <;> exact nomatch hislong
  · intro seq hbatch hraw _
    rw [if_pos (huse.mpr ⟨seq, hbatch, hraw⟩)]

end

end ScoringConfig
