import SparseEngine.PrefillScoring.Runs
import SparseEngine.DecodeWindow.Growth

/-!
# The observation window

Between the steps a prompt waits with the part of its window that no chunk has
taken, and no score is left over.  With that every batch the scheduler cuts is
ready for its step.
-/

namespace ScoringState

open Keyed

variable {Id : Type} {config : ScoringConfig} {scheduling : SchedulerConfig}
  {state next : ScoringState Id} {kv later : SequenceKv}
  {seq : ChainSequence Id}

/-- A request whose prompt has not ended. -/
structure Waiting (config : ScoringConfig) (kv : SequenceKv) (seq : ChainSequence Id) : Prop where
  prefilled_nonneg : 0 ≤ seq.numPrefilledTokens
  attached_le : seq.isRecomputeReplay = false → seq.attachedTokens ≤ seq.numPrefilledTokens
  attached_pos : seq.isChainResume = true → 0 < seq.attachedTokens
  unattached : seq.isChainResume = false → seq.isRecomputeReplay = false → seq.attachedTokens = 0
  rows : seq.isChainResume = true → ∀ layer < config.numKvLayers, (kv.rowSeqLens layer).isSome = true
  window : 0 < config.snapkvWindowSize → config.NeedsScore kv seq →
    seq.scoreWindow config.snapkvWindowSize ≤ seq.remainingPrefillTokens

/-- A request of the engine. -/
structure Live (config : ScoringConfig) (kv : SequenceKv) (seqId : ℕ) (seq : ChainSequence Id) :
    Prop where
  seqId_eq : seq.seqId = seqId
  prompt_pos : 0 < seq.numPromptTokens
  waiting : 0 < seq.remainingPrefillTokens → Waiting config kv seq

/-- The invariant. -/
structure Sound (config : ScoringConfig) (state : ScoringState Id) : Prop where
  scores : ∀ seqId layer, (state.table seqId).scoreAccumulators layer = none
  dominated : ∀ seqId, config.Dominated (state.table seqId).rowSeqLens
  chains : ∀ seqId rows, state.chainRows seqId = some rows → config.Dominated rows
  live : ∀ seqId seq, state.seqs seqId = some seq → Live config (state.table seqId) seqId seq

theorem dominated_empty : config.Dominated SequenceKv.empty.rowSeqLens := fun _ _ _ => le_refl _

theorem sound_start : Sound config (start : ScoringState Id) :=
  ⟨fun _ _ => rfl, fun _ => dominated_empty, fun _ _ h => (nomatch h), fun _ _ h => (nomatch h)⟩

/-- Writing one sequence and its record. -/
theorem Sound.update (h : Sound config state) (seqId : ℕ) (kv : SequenceKv)
    (entry : Option (ChainSequence Id)) (hscores : ∀ layer, kv.scoreAccumulators layer = none)
    (hdominated : config.Dominated kv.rowSeqLens) (hlive : ∀ seq, entry = some seq → Live config kv seqId seq) :
    Sound config { state with
      table := Function.update state.table seqId kv
      seqs := Function.update state.seqs seqId entry } := by
  refine ⟨fun other layer => ?_, fun other => ?_, h.chains, fun other seq hseq => ?_⟩
  · show (Function.update state.table seqId kv other).scoreAccumulators layer = none
    by_cases hid : other = seqId
    · rw [hid, Function.update_self]
      exact hscores layer
    · rw [Function.update_of_ne hid]
      exact h.scores other layer
  · show config.Dominated (Function.update state.table seqId kv other).rowSeqLens
    by_cases hid : other = seqId
    · rw [hid, Function.update_self]
      exact hdominated
    · rw [Function.update_of_ne hid]
      exact h.dominated other
  · change Function.update state.seqs seqId entry other = some seq at hseq
    show Live config (Function.update state.table seqId kv other) other seq
    by_cases hid : other = seqId
    · subst hid
      rw [Function.update_self] at hseq ⊢
      exact hlive seq hseq
    · rw [Function.update_of_ne hid] at hseq ⊢
      exact h.live other seq hseq

/-- Writing one sequence. -/
theorem Sound.updateSeq (h : Sound config state) (seqId : ℕ) (entry : Option (ChainSequence Id))
    (hlive : ∀ seq, entry = some seq → Live config (state.table seqId) seqId seq) :
    Sound config { state with seqs := Function.update state.seqs seqId entry } := by
  have hupdate := h.update seqId (state.table seqId) entry (h.scores seqId) (h.dominated seqId) hlive
  rw [Function.update_eq_self] at hupdate
  exact hupdate

/-- Writing one record. -/
theorem Sound.updateKv (h : Sound config state) (seqId : ℕ) (kv : SequenceKv)
    (hscores : ∀ layer, kv.scoreAccumulators layer = none) (hdominated : config.Dominated kv.rowSeqLens)
    (hlive : ∀ seq, state.seqs seqId = some seq → Live config kv seqId seq) :
    Sound config { state with table := Function.update state.table seqId kv } := by
  have hupdate := h.update seqId kv (state.seqs seqId) hscores hdominated hlive
  rw [Function.update_eq_self] at hupdate
  exact hupdate

/-! ## Requests -/

theorem scoreWindow_le (seq : ChainSequence Id) (window : ℤ) : seq.scoreWindow window ≤ window := by
  unfold ChainSequence.scoreWindow
  dsimp only
  split
  · exact le_refl _
  · exact min_le_left _ _

/-- A prompt that is computed from its first token on. -/
theorem Waiting.fromStart (hfirst : seq.numPrefilledTokens = 0) (hresume : seq.isChainResume = false)
    (hreused : seq.reusedTokens = 0) (hprompt : 0 < seq.numPromptTokens)
    (hattached : seq.isRecomputeReplay = false → seq.attachedTokens = 0) : Waiting config kv seq := by
  refine ⟨hfirst.ge, fun hfresh => ?_, fun h => ?_, fun _ hfresh => hattached hfresh, fun h => ?_, fun _ _ => ?_⟩
  · rw [hattached hfresh, hfirst]
  · rw [hresume] at h
    exact nomatch h
  · rw [hresume] at h
    exact nomatch h
  · unfold ChainSequence.scoreWindow ChainSequence.remainingPrefillTokens
    dsimp only
    rw [hreused, hfirst, Int.sub_zero, max_eq_right hprompt.le, if_neg hprompt.ne']
    exact min_le_right _ _

variable {seqId layer : ℕ} {chunk : ℤ} {tokens : ℕ → ℤ}

/-- A request is not affected by a question about it. -/
theorem Live.asked (h : Live config kv seqId seq) (hasked : config.Asked seq kv later) :
    Live config later seqId seq := by
  refine ⟨h.seqId_eq, h.prompt_pos, fun hremaining => ?_⟩
  have hwaiting := h.waiting hremaining
  refine ⟨hwaiting.prefilled_nonneg, hwaiting.attached_le, hwaiting.attached_pos, hwaiting.unattached, ?_, ?_⟩
  · rw [hasked.rowSeqLens]
    exact hwaiting.rows
  · rw [hasked.needsScore]
    exact hwaiting.window

/-- A request whose prompt has ended. -/
theorem Live.ended (hid : seq.seqId = seqId) (hprompt : 0 < seq.numPromptTokens)
    (hended : seq.remainingPrefillTokens ≤ 0) : Live config kv seqId seq :=
  ⟨hid, hprompt, fun h => absurd h (Int.not_lt.mpr hended)⟩

theorem live_fresh (seqId : ℕ) (chainStatus : ChainStatus) (multimodalFullPrefill : Bool)
    (tokenIds : List ℤ) (maxTokens : ℤ) (ignoreEos : Bool) (eosTokenIds : List ℤ)
    (htokens : tokenIds ≠ []) (hstatus : chainStatus ≠ .resumed) :
    Live config kv seqId (ChainSequence.fresh seqId chainStatus multimodalFullPrefill tokenIds
      maxTokens ignoreEos eosTokenIds : ChainSequence Id) := by
  have hprompt : (0 : ℤ) < tokenIds.length := by
    exact_mod_cast List.length_pos_of_ne_nil htokens
  refine ⟨rfl, hprompt, fun _ => .fromStart rfl ?_ rfl hprompt fun _ => rfl⟩
  change (decide (chainStatus = .resumed) && _) = false
  rw [decide_eq_false hstatus, Bool.false_and]

theorem live_resume (seqId : ℕ) (multimodalFullPrefill : Bool) (tokenIds : List ℤ) (maxTokens : ℤ)
    (ignoreEos : Bool) (eosTokenIds : List ℤ) {reusedTokens : ℤ}
    (hrows : ∀ layer < config.numKvLayers, (kv.rowSeqLens layer).isSome = true)
    (hpos : 0 < reusedTokens) (hsuffix : reusedTokens < tokenIds.length) :
    Live config kv seqId ((ChainSequence.fresh seqId .resumed multimodalFullPrefill tokenIds
      maxTokens ignoreEos eosTokenIds : ChainSequence Id).resume reusedTokens) := by
  generalize hseq : (ChainSequence.fresh seqId .resumed multimodalFullPrefill tokenIds maxTokens
    ignoreEos eosTokenIds : ChainSequence Id).resume reusedTokens = seq
  have hresume : seq.isChainResume = true := by
    rw [← hseq]
    rfl
  have hattached : seq.attachedTokens = reusedTokens := by
    rw [← hseq]
    exact max_self reusedTokens
  have hprefilled : seq.numPrefilledTokens = reusedTokens := by
    rw [← hseq]
    rfl
  have hprompt : seq.numPromptTokens = tokenIds.length := by
    rw [← hseq]
    rfl
  refine ⟨by rw [← hseq]; rfl, by omega, fun _ => ⟨by omega, fun _ => by omega, fun _ => by omega,
    fun h => ?_, fun _ => hrows, fun _ _ => ?_⟩⟩
  · rw [hresume] at h
    exact nomatch h
  · have hreused : seq.reusedTokens = reusedTokens := by
      rw [← hseq]
      rfl
    unfold ChainSequence.scoreWindow ChainSequence.remainingPrefillTokens
    dsimp only
    rw [hreused, hprefilled, hprompt, max_eq_right (by omega), if_neg (by omega)]
    exact min_le_right _ _

/-- A preempted request starts over. -/
theorem live_replay {replay : Sequence Id} (h : Live config kv seqId seq)
    (hreplay : seq.toSequence.startRecomputeReplay = .ok replay) :
    Live config later seqId { seq with toSequence := replay } := by
  unfold Sequence.startRecomputeReplay at hreplay
  split at hreplay
  · exact nomatch hreplay
  · obtain rfl := Except.ok.inj hreplay
    refine ⟨h.seqId_eq, h.prompt_pos, fun _ => .fromStart rfl ?_ rfl h.prompt_pos fun hfresh => ?_⟩
    · unfold ChainSequence.isChainResume
      exact Bool.and_false _
    · exact nomatch hfresh

theorem live_afterDecode (h : Live config kv seqId seq) (token : ℤ) (hended : seq.remainingPrefillTokens ≤ 0) :
    Live config later seqId { seq with toSequence := seq.toSequence.afterDecode token } := by
  have hfields : (seq.toSequence.afterDecode token).numPromptTokens = seq.numPromptTokens ∧
      (seq.toSequence.afterDecode token).numPrefilledTokens = seq.numPrefilledTokens := by
    unfold Sequence.afterDecode
    dsimp only
    split
    · split <;> exact ⟨rfl, rfl⟩
    · exact ⟨rfl, rfl⟩
  refine .ended h.seqId_eq ?_ ?_
  · rw [hfields.1]
    exact h.prompt_pos
  · unfold ChainSequence.remainingPrefillTokens at hended ⊢
    rw [hfields.1, hfields.2]
    exact hended

/-! ## The batch of a scan -/

variable {table asked : ℕ → SequenceKv} {candidates : List (ChainSequence Id × ℤ)}
  {target : PrefillExecutionMode} {batch : List (ChainSequence Id)} {cut : ChainSequence Id}

/-- A chunk of a waiting request can be executed. -/
theorem Waiting.runnable (h : Waiting config kv seq) (hcut : config.Cut kv later seq target cut)
    (hscores : ∀ layer, kv.scoreAccumulators layer = none) : config.Runnable kv cut := by
  obtain ⟨chunk, hchunk⟩ : ∃ chunk, cut.chunkSize = chunk := ⟨_, rfl⟩
  have hpos := hcut.chunk_pos
  have hle := hcut.chunk_le
  have heq := hcut.cut_eq
  rw [hchunk] at hpos hle heq
  subst heq
  exact ⟨rfl, hpos, hle, h.prefilled_nonneg, h.attached_le, h.attached_pos, h.unattached, h.rows, hscores, h.window⟩

section

variable (hcut : config.Cut kv later seq target cut)

include hcut

/-- The fields of a chunk that are those of its candidate. -/
theorem cut_same :
    cut.remainingPrefillTokens = seq.remainingPrefillTokens ∧ cut.isRecomputeReplay = seq.isRecomputeReplay ∧
      (∀ current, config.rawOffloads current cut = config.rawOffloads current seq) ∧
      ∀ current, config.asked current cut = config.asked current seq := by
  obtain ⟨chunk, hchunk⟩ : ∃ chunk, cut.chunkSize = chunk := ⟨_, rfl⟩
  have heq := hcut.cut_eq
  rw [hchunk] at heq
  subst heq
  exact ⟨rfl, rfl, fun _ => rfl, fun _ => rfl⟩

theorem cut_asked {current : SequenceKv} (hasked : config.Asked seq kv current) :
    config.Asked cut kv current := by
  unfold ScoringConfig.Asked
  rw [(cut_same hcut).2.2.2]
  exact hasked

/-- A chunk that does not end its prompt is cut in the mode of the cache
manager. -/
theorem cut_unfinished (hends : cut.endsPrompt = false) (hcan : config.canUseFullPrefillStaging = true) :
    target = .rawOffload ∧ later = config.asked kv seq ∧ config.rawOffloads kv seq = true ∧
      config.stagingKvCache = true := by
  have hmore : cut.chunkSize ≠ seq.remainingPrefillTokens := by
    intro hall
    have hprefilled : cut.numPrefilledTokens = seq.numPrefilledTokens := by rw [hcut.cut_eq]
    have hprompt : cut.numPromptTokens = seq.numPromptTokens := by rw [hcut.cut_eq]
    unfold ChainSequence.remainingPrefillTokens at hall
    unfold ChainSequence.endsPrompt at hends
    rw [decide_eq_false_iff_not] at hends
    omega
  rcases hcut.mode_eq with hfull | ⟨hmode, hlater, hstaging⟩
  · exact absurd (hcut.full_eq hfull) hmore
  · have hraw : config.rawOffloads kv seq = true := by
      by_contra hnot
      unfold ScoringConfig.ownMode at hmode
      rw [if_neg (by simp [hcan]), if_neg hnot] at hmode
      exact hmore (hcut.full_eq hmode)
    refine ⟨?_, hlater, hraw, hstaging hraw⟩
    unfold ScoringConfig.ownMode at hmode
    rw [if_neg (by simp [hcan]), if_pos hraw] at hmode
    exact hmode

end

section

variable (h : Sound config state) (hcandidates : state.Candidates candidates)
  (hscanned : config.Scanned target batch state.table table candidates)

include h hcandidates hscanned

/-- The candidate behind a chunk. -/
theorem Sound.candidate (hmem : cut ∈ batch) :
    ∃ seq, state.seqs cut.seqId = some seq ∧ config.Cut (state.table cut.seqId) (table cut.seqId) seq target cut ∧
      Waiting config (state.table cut.seqId) seq ∧
      config.Asked cut (state.table cut.seqId) (table cut.seqId) := by
  obtain ⟨candidate, hcandidate, hid, hcut⟩ := hscanned.cuts cut hmem
  have hfound := hcandidates.found candidate hcandidate
  have hasked := hscanned.asked candidate hcandidate
  rw [← hid] at hfound hcut hasked
  exact ⟨candidate.1, hfound, hcut, (h.live _ _ hfound).waiting hcut.remaining_pos, cut_asked hcut hasked⟩

/-- Every batch is ready for its step. -/
theorem Sound.ready (hscorable : Scorable config table batch) : config.Ready table batch := by
  refine ⟨hcandidates.nodup.sublist hscanned.sublist, fun cut hmem => ?_, fun cut hmem hends hcan => ?_, hscorable⟩
  · obtain ⟨seq, -, hcut, hwaiting, hasked⟩ := h.candidate hcandidates hscanned hmem
    exact (hwaiting.runnable hcut (h.scores _)).asked hasked
  · obtain ⟨seq, -, hcut, -, hasked⟩ := h.candidate hcandidates hscanned hmem
    obtain ⟨htarget, -, hraw, hstaging⟩ := cut_unfinished hcut hends hcan
    refine ⟨?_, ?_, hstaging⟩
    · have hlength : batch.length = 1 :=
        le_antisymm (hscanned.alone htarget) (List.length_pos_of_mem hmem)
      obtain ⟨only, hbatch⟩ := List.length_eq_one_iff.mp hlength
      rw [hbatch, List.mem_singleton] at hmem
      rw [hbatch, hmem]
    · rw [hasked.rawOffloads, (cut_same hcut).2.2.1]
      exact hraw

end

/-! ## A step -/

variable {staging : ScoringConfig.PrefillStaging}

theorem layerBudget_snapkv (hconfig : config.Accepted) (hmethod : config.sparseMethod = .snapkv)
    (layer : ℕ) : config.prefillScoreLayerBudget layer = some config.keepBudget := by
  unfold ScoringConfig.prefillScoreLayerBudget
  rw [hconfig.no_full_layers, if_neg (by omega), hmethod]

/-- The row of a layer behind an unstaged chunk. -/
theorem preparedKv_none (hlayer : layer < config.numKvLayers) :
    (config.preparedKv .none seq kv).rowSeqLens layer = some ((kv.rowSeqLens layer).getD 0 + seq.chunkSize) := by
  unfold ScoringConfig.preparedKv
  dsimp only
  rw [if_pos hlayer]
  rfl

/-- A step keeps the first layer of SnapKV the longest. -/
theorem dominated_stepped (hconfig : config.Accepted) (hdominated : config.Dominated kv.rowSeqLens)
    (hstepped : config.Stepped kv seq staging later) (hplain : config.sparseMethod = .snapkv → staging = .none) :
    config.Dominated later.rowSeqLens := by
  intro hmethod layer hlayer
  obtain rfl := hplain hmethod
  have hzero : 0 < config.numKvLayers := hconfig.validated.layers_pos
  have hle := hdominated hmethod layer hlayer
  rw [hstepped.rows layer hlayer, hstepped.rows 0 hzero, preparedKv_none hlayer, preparedKv_none hzero]
  split
  · have hkeeps : config.sinkKeepTokens + config.recentKeepTokens ≤ config.keepBudget := by
      have hdecode := hconfig.validated.decode_nonneg
      unfold WindowConfig.keepBudget
      omega
    have hcut : ∀ kvLen, config.keepBudget < kvLen →
        snapkvSelectCount config.toWindowConfig kvLen config.keepBudget = config.keepBudget :=
      fun kvLen hlong => DecodeRow.snapkvSelectCount_eq hconfig.validated hkeeps hlong
    unfold ScoringConfig.cutLen ScoringConfig.visibleLen
    rw [layerBudget_snapkv hconfig hmethod, layerBudget_snapkv hconfig hmethod, if_pos rfl, if_pos rfl]
    dsimp only
    by_cases hresume : seq.isChainResume = true
    · -- the queries see the rows
      rw [if_pos hresume, if_pos hresume]
      unfold ScoringConfig.prepareLayer
      simp only [hresume, if_true]
      split
      · next hshort =>
        split
        · rw [Option.getD_some, Option.getD_some]
          omega
        · next hlong =>
          rw [hcut _ (Int.not_le.mp hlong), Option.getD_some, Option.getD_some]
          exact hshort
      · next hlong =>
        rw [if_neg (by omega), hcut _ (by omega), hcut _ (by omega)]
    · rw [if_neg hresume, if_neg hresume]
      split
      · rw [Option.getD_some, Option.getD_some]
        omega
      · exact le_refl _
  · rw [Option.getD_some, Option.getD_some]
    omega

/-- How an unfinished chunk is executed. -/
theorem unfinished_cases (hcut : config.Cut kv (table cut.seqId) seq target cut)
    (hlater : config.Asked cut (table cut.seqId) (asked cut.seqId))
    (hbatch : config.canUseFullPrefillStaging = true → batch = [cut])
    (hstaged : config.Staged table batch staging) (hunfinished : cut.endsPrompt = false) :
    config.canUseFullPrefillStaging = false ∧ staging = .none ∨
      staging = .longOffload ∧ config.rawOffloads kv seq = true ∧ asked cut.seqId = config.asked kv seq ∧
        config.asked (asked cut.seqId) cut = config.asked kv seq := by
  cases hcan : config.canUseFullPrefillStaging with
  | false =>
      refine .inl ⟨rfl, ?_⟩
      by_contra hnot
      rw [hstaged.canUse hnot] at hcan
      exact nomatch hcan
  | true =>
      obtain ⟨-, hmid, hraw, hcache⟩ := cut_unfinished hcut hunfinished hcan
      obtain ⟨-, -, hsame, hsameAsked⟩ := cut_same hcut
      have hagain : config.asked (table cut.seqId) cut = config.asked kv seq := by
        rw [hmid, hsameAsked, ScoringConfig.asked_asked]
      have hfound : asked cut.seqId = config.asked kv seq := by
        rcases hlater with heq | heq
        · rw [heq, hmid]
        · rw [heq, hagain]
      refine .inr ⟨?_, hraw, hfound, ?_⟩
      · apply hstaged.of_offloads cut (hbatch hcan) _ hcache
        rw [hmid, hsame, ScoringConfig.rawOffloads_asked]
        exact hraw
      · rw [hfound, hsameAsked, ScoringConfig.asked_asked]

/-- `next` is the request behind a chunk that does not end its prompt. -/
structure Continues (seq next : ChainSequence Id) (chunk : ℤ) : Prop where
  seqId_eq : next.seqId = seq.seqId
  resume_eq : next.isChainResume = seq.isChainResume
  replay_eq : next.isRecomputeReplay = seq.isRecomputeReplay
  prompt_eq : next.numPromptTokens = seq.numPromptTokens
  attached_eq : next.attachedTokens = seq.attachedTokens
  reused_eq : next.reusedTokens = seq.reusedTokens
  prefilled_eq : next.numPrefilledTokens = seq.numPrefilledTokens + chunk

theorem Continues.remaining_eq {next : ChainSequence Id} (h : Continues seq next chunk) :
    next.remainingPrefillTokens = seq.remainingPrefillTokens - chunk := by
  unfold ChainSequence.remainingPrefillTokens
  rw [h.prompt_eq, h.prefilled_eq]
  omega

theorem Continues.scoreWindow_eq {next : ChainSequence Id} (h : Continues seq next chunk)
    (window : ℤ) : next.scoreWindow window = seq.scoreWindow window := by
  unfold ChainSequence.scoreWindow
  rw [h.prompt_eq, h.reused_eq]

theorem continues_afterPrefill (hcut : config.Cut kv later seq target cut)
    (hunfinished : cut.endsPrompt = false) (token : ℤ) :
    Continues seq (cut.afterPrefill token) cut.chunkSize := by
  obtain ⟨chunk, hchunk⟩ : ∃ chunk, cut.chunkSize = chunk := ⟨_, rfl⟩
  have heq := hcut.cut_eq
  rw [hchunk] at heq
  subst heq
  unfold ChainSequence.endsPrompt at hunfinished
  rw [decide_eq_false_iff_not, Int.not_le] at hunfinished
  unfold ChainSequence.afterPrefill
  rw [Sequence.afterPrefill_of_lt hunfinished]
  exact ⟨rfl, rfl, rfl, rfl, rfl, rfl, rfl⟩

/-- A chunk that does not end the prompt moves the length from the prompt to the
rows, or leaves both. -/
theorem finalLen_stepped (hcut : config.Cut kv (table cut.seqId) seq target cut)
    (hlater : config.Asked cut (table cut.seqId) (asked cut.seqId))
    (hrows : (asked cut.seqId).rowSeqLens = kv.rowSeqLens)
    (hbatch : config.canUseFullPrefillStaging = true → batch = [cut]) (hstaged : config.Staged table batch staging)
    (hstepped : config.Stepped (asked cut.seqId) cut staging later)
    (hunfinished : cut.endsPrompt = false) {next : ChainSequence Id}
    (hnext : Continues seq next cut.chunkSize) (hlayer : layer < config.numKvLayers) :
    config.finalLen later next layer = config.finalLen kv seq layer := by
  have hrow := hstepped.rows layer hlayer
  rw [hunfinished, if_neg Bool.false_ne_true] at hrow
  unfold ScoringConfig.finalLen
  rw [hnext.resume_eq, hnext.prompt_eq, hnext.attached_eq, hnext.remaining_eq, hrow]
  split
  · rcases unfinished_cases hcut hlater hbatch hstaged hunfinished with
      ⟨hcan, rfl⟩ | ⟨rfl, hraw, hasked, hagain⟩
    · have hnever : ∀ (current : SequenceKv) (other : ChainSequence Id),
          config.rawOffloads current other = false := by
        intro current other
        unfold ScoringConfig.rawOffloads
        rw [hcan, Bool.false_and]
      rw [hnever, hnever, preparedKv_none hlayer, hrows, Option.getD_some, if_neg Bool.false_ne_true,
        if_neg Bool.false_ne_true]
      omega
    · -- the phase keeps an offloaded prompt offloaded
      have hphase : later.rawOffloadPrefillPhase = (config.asked kv seq).rawOffloadPrefillPhase := by
        rcases hstepped.phase with h | h
        · rw [h, hasked]
        · rw [h, hagain]
      have hstill : config.rawOffloads later next = true := by
        rw [ScoringConfig.rawOffloads_congr hphase]
        exact ScoringConfig.rawOffloads_of_asked hraw hnext.replay_eq
      have hkept : (config.preparedKv .longOffload cut (asked cut.seqId)).rowSeqLens layer =
          some ((kv.rowSeqLens layer).getD 0) := by
        unfold ScoringConfig.preparedKv
        dsimp only
        rw [if_pos hlayer, hrows]
        rfl
      rw [hstill, hraw, hkept, Option.getD_some, if_pos rfl, if_pos rfl]
  · rfl

/-- What waits behind an unfinished chunk: the chunk has left the window
alone. -/
theorem Waiting.stepped (h : Waiting config kv seq) (hcut : config.Cut kv (table cut.seqId) seq target cut)
    (hlater : config.Asked cut (table cut.seqId) (asked cut.seqId))
    (hrows : (asked cut.seqId).rowSeqLens = kv.rowSeqLens)
    (hbatch : config.canUseFullPrefillStaging = true → batch = [cut]) (hstaged : config.Staged table batch staging)
    (hstepped : config.Stepped (asked cut.seqId) cut staging later)
    (hunfinished : cut.endsPrompt = false) {next : ChainSequence Id}
    (hnext : Continues seq next cut.chunkSize) (hmore : 0 < next.remainingPrefillTokens) :
    Waiting config later next := by
  have hpos := hcut.chunk_pos
  have hprefilled := h.prefilled_nonneg
  refine ⟨?_, fun hfresh => ?_, fun hresume => ?_, fun hresume hfresh => ?_, fun _ layer hlayer => ?_,
    fun hwindow hneeds => ?_⟩
  · rw [hnext.prefilled_eq]
    omega
  · rw [hnext.replay_eq] at hfresh
    have hle := h.attached_le hfresh
    rw [hnext.attached_eq, hnext.prefilled_eq]
    omega
  · rw [hnext.resume_eq] at hresume
    rw [hnext.attached_eq]
    exact h.attached_pos hresume
  · rw [hnext.resume_eq] at hresume
    rw [hnext.replay_eq] at hfresh
    rw [hnext.attached_eq]
    exact h.unattached hresume hfresh
  · rw [hstepped.rows layer hlayer, hunfinished, if_neg Bool.false_ne_true]
    unfold ScoringConfig.preparedKv
    dsimp only
    rw [if_pos hlayer]
    rfl
  · have hbefore : config.NeedsScore kv seq := by
      obtain ⟨layer, hlayer, budget, hbudget, hlong⟩ := hneeds
      refine ⟨layer, hlayer, budget, hbudget, ?_⟩
      rw [← finalLen_stepped hcut hlater hrows hbatch hstaged hstepped hunfinished hnext hlayer]
      exact hlong
    have hfits := h.window hwindow hbefore
    have hwide := scoreWindow_le seq config.snapkvWindowSize
    rw [hnext.remaining_eq] at hmore
    rw [hnext.scoreWindow_eq, hnext.remaining_eq]
    rcases hcut.leaves hwindow hbefore with hall | hleaves
    · omega
    · exact (le_min hwide hfits).trans hleaves

theorem afterPrefill_fields (cut : ChainSequence Id) (token : ℤ) :
    (cut.afterPrefill token).seqId = cut.seqId ∧ (cut.afterPrefill token).numPromptTokens = cut.numPromptTokens ∧
      (cut.afterPrefill token).numPrefilledTokens = cut.numPrefilledTokens + cut.chunkSize := by
  unfold ChainSequence.afterPrefill Sequence.afterPrefill
  dsimp only
  split
  · exact ⟨rfl, rfl, rfl⟩
  · split
    · split <;> exact ⟨rfl, rfl, rfl⟩
    · exact ⟨rfl, rfl, rfl⟩

/-- What a prefill step changes. -/
theorem executePrefill_eq_ok {final : ℕ → SequenceKv} (hnodup : (batch.map ChainSequence.seqId).Nodup)
    (hstep : config.prefillStep batch table = .ok final)
    (h : state.executePrefill config batch tokens table = .ok next) :
    (∀ cut ∈ batch,
      next.table cut.seqId = (if cut.endsPrompt then
        { final cut.seqId with rawOffloadPrefillPhase := none } else final cut.seqId) ∧
      next.seqs cut.seqId = some (cut.afterPrefill (tokens cut.seqId))) ∧
      (∀ other, other ∉ batch.map ChainSequence.seqId →
        next.table other = final other ∧ next.seqs other = state.seqs other) ∧
      next.chainRows = state.chainRows := by
  unfold executePrefill at h
  rw [hstep] at h
  change (Except.bind (updateEach _ completePrefill batch final) _) = _ at h
  cases hcomplete : updateEach ChainSequence.seqId completePrefill batch final with
  | error error =>
      rw [hcomplete] at h
      exact nomatch h
  | ok completed =>
    rw [hcomplete] at h
    change (Except.bind (updateEach _ _ batch state.seqs) _) = _ at h
    cases hseqs : updateEach ChainSequence.seqId
        (fun seq _ => .ok (some (seq.afterPrefill (tokens seq.seqId)))) batch state.seqs with
    | error error =>
        rw [hseqs] at h
        exact nomatch h
    | ok seqs =>
      rw [hseqs] at h
      obtain rfl := Except.ok.inj h
      obtain ⟨hone, hrest⟩ := updateEach_eq_ok hnodup hcomplete
      obtain ⟨htwo, hothers⟩ := updateEach_eq_ok hnodup hseqs
      refine ⟨fun cut hmem => ⟨(Except.ok.inj (hone cut hmem)).symm,
        (Except.ok.inj (htwo cut hmem)).symm⟩, fun other hother => ⟨hrest other hother, hothers other hother⟩, rfl⟩

/-- A prefill step keeps the invariant. -/
theorem Sound.prefilled (hconfig : config.Accepted) (h : Sound config state)
    (hcandidates : state.Candidates candidates)
    (hscan : config.scanCandidates scheduling target candidates 0 state.table = .ok (batch, table))
    (hscorable : Scorable config table batch)
    (hrun : state.executePrefill config batch tokens table = .ok next) : Sound config next := by
  have hscanned : config.Scanned target batch state.table table candidates :=
    ScoringConfig.scanCandidates_eq_ok hcandidates.nodup (fun _ _ => h.dominated _) hscan
  have hready := h.ready hcandidates hscanned hscorable
  obtain ⟨staging, asked, final, -, hasked, hstaged, -, hstep, hstepped, hothers⟩ :=
    ScoringConfig.prefillStep_ok hready
  obtain ⟨hinside, houtside, hchains⟩ := executePrefill_eq_ok hready.nodup hstep hrun
  -- the rows of a candidate are those it had before the scan
  have hrows : ∀ cut ∈ batch, (asked cut.seqId).rowSeqLens = (state.table cut.seqId).rowSeqLens := by
    intro cut hmem
    obtain ⟨seq, -, -, -, hscanAsked⟩ := h.candidate hcandidates hscanned hmem
    rw [(hasked.1 cut hmem).rowSeqLens, hscanAsked.rowSeqLens]
  -- a sequence outside the batch has been asked about, or not
  have houtsideAsked : ∀ other, other ∉ batch.map ChainSequence.seqId →
      next.table other = state.table other ∨
        ∃ candidate ∈ candidates, candidate.1.seqId = other ∧
          config.Asked candidate.1 (state.table other) (next.table other) := by
    intro other hother
    have heq : next.table other = table other := (houtside other hother).1.trans (hothers other hother)
    by_cases hin : other ∈ candidates.map fun candidate => candidate.1.seqId
    · obtain ⟨candidate, hmem, hid⟩ := List.mem_map.mp hin
      refine .inr ⟨candidate, hmem, hid, ?_⟩
      rw [heq, ← hid]
      exact hscanned.asked candidate hmem
    · left
      rw [heq, hscanned.others other hin]
  have hphaseOnly : ∀ cut ∈ batch,
      (next.table cut.seqId).rowSeqLens = (final cut.seqId).rowSeqLens ∧
        (next.table cut.seqId).scoreAccumulators = (final cut.seqId).scoreAccumulators := by
    intro cut hmem
    rw [(hinside cut hmem).1]
    split <;> exact ⟨rfl, rfl⟩
  refine ⟨fun seqId layer => ?_, fun seqId => ?_, ?_, fun seqId seq hseq => ?_⟩
  · by_cases hin : seqId ∈ batch.map ChainSequence.seqId
    · obtain ⟨cut, hmem, rfl⟩ := List.mem_map.mp hin
      rw [(hphaseOnly cut hmem).2]
      exact (hstepped cut hmem).scores layer
    · rcases houtsideAsked seqId hin with heq | ⟨candidate, -, -, hask⟩
      · rw [heq]
        exact h.scores seqId layer
      · rw [hask.scoreAccumulators]
        exact h.scores seqId layer
  · by_cases hin : seqId ∈ batch.map ChainSequence.seqId
    · obtain ⟨cut, hmem, rfl⟩ := List.mem_map.mp hin
      rw [(hphaseOnly cut hmem).1]
      apply dominated_stepped hconfig _ (hstepped cut hmem)
      · intro hmethod
        by_contra hstaging
        have hcan := hstaged.canUse hstaging
        unfold ScoringConfig.canUseFullPrefillStaging at hcan
        rw [hmethod] at hcan
        exact nomatch hcan
      · rw [hrows cut hmem]
        exact h.dominated cut.seqId
    · rcases houtsideAsked seqId hin with heq | ⟨candidate, -, -, hask⟩
      · rw [heq]
        exact h.dominated seqId
      · rw [hask.rowSeqLens]
        exact h.dominated seqId
  · rw [hchains]
    exact h.chains
  · by_cases hin : seqId ∈ batch.map ChainSequence.seqId
    · obtain ⟨cut, hmem, rfl⟩ := List.mem_map.mp hin
      obtain ⟨before, hfound, hcut, hwaiting, -⟩ := h.candidate hcandidates hscanned hmem
      have hprompt : 0 < cut.numPromptTokens := by
        have heq : cut.numPromptTokens = before.numPromptTokens := by rw [hcut.cut_eq]
        rw [heq]
        exact (h.live _ _ hfound).prompt_pos
      have hfields := afterPrefill_fields cut (tokens cut.seqId)
      rw [(hinside cut hmem).2] at hseq
      obtain rfl := Option.some.inj hseq
      cases hends : cut.endsPrompt with
      | true =>
          refine .ended hfields.1 (hfields.2.1 ▸ hprompt) ?_
          unfold ChainSequence.endsPrompt at hends
          rw [decide_eq_true_iff] at hends
          unfold ChainSequence.remainingPrefillTokens
          rw [hfields.2.1, hfields.2.2]
          omega
      | false =>
          have hnextTable : next.table cut.seqId = final cut.seqId := by
            rw [(hinside cut hmem).1, hends]
            rfl
          refine ⟨hfields.1, hfields.2.1 ▸ hprompt, fun hmore => ?_⟩
          rw [hnextTable]
          exact hwaiting.stepped hcut (hasked.1 cut hmem) (hrows cut hmem)
            (fun hcan => (hready.unfinished cut hmem hends hcan).1) hstaged (hstepped cut hmem) hends
            (continues_afterPrefill hcut hends _) hmore
    · rw [(houtside seqId hin).2] at hseq
      have hlive := h.live seqId seq hseq
      rcases houtsideAsked seqId hin with heq | ⟨candidate, hmem, hid, hask⟩
      · rw [heq]
        exact hlive
      · have hsame : seq = candidate.1 := by
          have hfound := hcandidates.found candidate hmem
          rw [hid, hseq] at hfound
          exact Option.some.inj hfound
        rw [hsame] at hlive ⊢
        exact hlive.asked hask

/-! ## Runs -/

/-- A decode step appends to every layer of SnapKV. -/
theorem dominated_decoded {lengths : ℕ → ℤ} {queryPositions : ℕ → ℤ → ℤ} {input : DecodeStep}
    {row : DecodeRow Id} (hdominated : config.Dominated kv.rowSeqLens)
    (hrows : ∀ layer < config.numKvLayers, kv.rowSeqLens layer = some (lengths layer))
    (hstep : DecodeRow.decodeStep config.toWindowConfig input ⟨seq.toSequence, lengths, queryPositions⟩ = .ok row) :
    config.Dominated (kv.decodeRows config.numKvLayers row.rowSeqLens).rowSeqLens := by
  intro hmethod layer hlayer
  have hzero : 0 < config.numKvLayers := (Nat.zero_le layer).trans_lt hlayer
  have hle := hdominated hmethod layer hlayer
  rw [hrows layer hlayer, hrows 0 hzero, Option.getD_some, Option.getD_some] at hle
  obtain ⟨later, hfinish, rfl⟩ := DecodeRow.decodeStep_eq_ok hstep
  unfold DecodeRow.finishStep at hfinish
  rw [hmethod] at hfinish
  obtain rfl := Except.ok.inj hfinish
  unfold SequenceKv.decodeRows DecodeRow.append
  dsimp only
  rw [if_pos hlayer, if_pos hzero, Option.getD_some, Option.getD_some]
  omega

/-- Nothing that happens in the engine breaks the invariant. -/
theorem Sound.step (hconfig : config.Accepted) (h : Sound config state)
    (hstep : Step config scheduling state next) : Sound config next := by
  cases hstep with
  | admitted seqId chainStatus multimodalFullPrefill tokenIds maxTokens ignoreEos eosTokenIds hfree
      hrows htokens hstatus =>
      apply h.updateSeq seqId _
      intro seq hseq
      obtain rfl := Option.some.inj hseq
      exact live_fresh seqId chainStatus multimodalFullPrefill tokenIds maxTokens ignoreEos
        eosTokenIds htokens hstatus
  | resumed seqId multimodalFullPrefill tokenIds maxTokens ignoreEos eosTokenIds reusedTokens hfree
      hrows hpos hsuffix =>
      apply h.updateSeq seqId _
      intro seq hseq
      obtain rfl := Option.some.inj hseq
      exact live_resume seqId multimodalFullPrefill tokenIds maxTokens ignoreEos eosTokenIds hrows hpos hsuffix
  | asked seq mode kv hseq hmode =>
      have hasked : config.Asked seq (state.table seq.seqId) kv :=
        .inr (ScoringConfig.prefillExecutionMode_eq_ok hmode).2.1
      apply h.updateKv seq.seqId kv
      · rw [hasked.scoreAccumulators]
        exact h.scores seq.seqId
      · rw [hasked.rowSeqLens]
        exact h.dominated seq.seqId
      · intro found hfound
        obtain rfl : seq = found := Option.some.inj (hseq.symm.trans hfound)
        exact (h.live _ _ hseq).asked hasked
  | prefilled next candidates target batch table tokens hcandidates hscan hscorable hrun =>
      exact h.prefilled hconfig hcandidates hscan hscorable hrun
  | decoded seq lengths queryPositions input row hseq hprompt hrows hstep =>
      apply h.update seq.seqId ((state.table seq.seqId).decodeRows config.numKvLayers row.rowSeqLens) _
        (h.scores seq.seqId)
      · exact dominated_decoded (h.dominated seq.seqId) hrows hstep
      · intro found hfound
        obtain rfl := Option.some.inj hfound
        -- the sequence takes its token; its prompt was and stays prefilled
        obtain ⟨later, -, rfl⟩ := DecodeRow.decodeStep_eq_ok hstep
        exact live_afterDecode (h.live _ _ hseq) input.token hprompt
  | preempted seq replay hseq hprompt hreplay =>
      apply h.update seq.seqId _ _ (fun _ => rfl) dominated_empty
      intro found hfound
      obtain rfl := Option.some.inj hfound
      exact live_replay (h.live _ _ hseq) hreplay
  | freed seqId => exact h.update seqId _ _ (fun _ => rfl) dominated_empty fun _ hnone => nomatch hnone
  | turnEnded seqId => exact h.updateSeq seqId none fun _ hnone => nomatch hnone
  | offloaded seqId hidle =>
      -- the rows move to the chain, which keeps their lengths:
      have hfreed : Sound config { state with table := Function.update state.table seqId .empty } :=
        h.updateKv seqId .empty (fun _ => rfl) dominated_empty fun seq hseq => by
          rw [hidle] at hseq
          exact nomatch hseq
      refine ⟨hfreed.scores, hfreed.dominated, fun other rows hrows => ?_, hfreed.live⟩
      change Function.update state.chainRows seqId (some (state.table seqId).rowSeqLens) other = some rows at hrows
      by_cases hid : other = seqId
      · rw [hid, Function.update_self] at hrows
        rw [← Option.some.inj hrows]
        exact h.dominated seqId
      · rw [Function.update_of_ne hid] at hrows
        exact h.chains other rows hrows
  | restored seqId rows hidle hrows =>
      apply h.updateKv seqId _ (fun _ => rfl) (h.chains seqId rows hrows)
      intro seq hseq
      rw [hidle] at hseq
      exact nomatch hseq

theorem Reachable.sound (hconfig : config.Accepted) (h : Reachable config scheduling state) :
    Sound config state := by
  induction h with
  | start => exact sound_start
  | step _ _ _ hstep ih => exact ih.step hconfig hstep

end ScoringState
