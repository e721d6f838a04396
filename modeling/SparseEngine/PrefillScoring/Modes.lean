import SparseEngine.PrefillScoring.Model

/-!
# Execution modes

Asking for the execution mode of a prompt may record that it is offloaded, and
from then on the answer stays the same until the prompt ends.  Asking twice is
asking once, and changes neither the rows nor the scores of the sequence.
-/

namespace ScoringConfig

variable {Id : Type} {config : ScoringConfig} {kv later : SequenceKv} {seq : ChainSequence Id}

variable (config kv seq)

/-- The cache manager runs the prompt through the offload buffer. -/
def rawOffloads : Bool :=
  config.canUseFullPrefillStaging &&
    ((kv.rawOffloadPrefillPhase.filter fun phase => phase == seq.isRecomputeReplay).isSome ||
      decide (config.longPrefillOffloadThreshold < seq.remainingPrefillTokens))

/-- What the question for the execution mode leaves. -/
def asked : SequenceKv :=
  if config.canUseFullPrefillStaging = false then kv
  else
    { kv with rawOffloadPrefillPhase :=
      if config.rawOffloads kv seq then some seq.isRecomputeReplay else none }

/-- The mode of the cache manager. -/
def ownMode : PrefillExecutionMode :=
  if config.canUseFullPrefillStaging = false then .chunked
  else if config.rawOffloads kv seq then .rawOffload
  else .full

variable {config kv seq}

theorem rawOffloads_canUse (h : config.rawOffloads kv seq = true) :
    config.canUseFullPrefillStaging = true :=
  (Bool.and_eq_true_iff.mp h).1

@[simp] theorem asked_rowSeqLens : (config.asked kv seq).rowSeqLens = kv.rowSeqLens := by
  unfold asked
  split <;> rfl

@[simp] theorem asked_scoreAccumulators :
    (config.asked kv seq).scoreAccumulators = kv.scoreAccumulators := by
  unfold asked
  split <;> rfl

/-- An offloaded prompt stays offloaded while it gets shorter. -/
theorem rawOffloads_of_asked {other : ChainSequence Id} (h : config.rawOffloads kv seq = true)
    (hreplay : other.isRecomputeReplay = seq.isRecomputeReplay) :
    config.rawOffloads (config.asked kv seq) other = true := by
  have hcan := rawOffloads_canUse h
  unfold rawOffloads asked
  rw [hcan, if_neg (by simp), h]
  simp [hreplay]

theorem rawOffloads_asked : config.rawOffloads (config.asked kv seq) seq = config.rawOffloads kv seq := by
  cases h : config.rawOffloads kv seq with
  | true => exact rawOffloads_of_asked h rfl
  | false =>
      unfold rawOffloads at h ⊢
      unfold asked
      cases hcan : config.canUseFullPrefillStaging with
      | false => rw [Bool.false_and]
      | true =>
          rw [hcan, Bool.true_and, Bool.or_eq_false_iff] at h
          rw [if_neg (by simp)]
          unfold rawOffloads
          simp [hcan, h.1, h.2]

theorem asked_asked : config.asked (config.asked kv seq) seq = config.asked kv seq := by
  have hsame : config.rawOffloads (config.asked kv seq) seq = config.rawOffloads kv seq :=
    rawOffloads_asked
  generalize hfirst : config.asked kv seq = first at hsame ⊢
  unfold asked
  split
  · rfl
  · next hcan =>
    rw [hsame]
    unfold asked at hfirst
    rw [if_neg hcan] at hfirst
    rw [← hfirst]

/-- The sticky mode, in one formula. -/
theorem applySticky_eq (hcan : config.canUseFullPrefillStaging = true) :
    applyStickyRawOffloadMode kv seq
        (if seq.remainingPrefillTokens ≤ config.longPrefillOffloadThreshold then
          PrefillExecutionMode.full else .rawOffload) =
      (config.ownMode kv seq, config.asked kv seq) := by
  unfold applyStickyRawOffloadMode ownMode asked rawOffloads
  simp only [hcan, Bool.true_and, Bool.true_eq_false, if_false]
  generalize hphase : (kv.rawOffloadPrefillPhase.filter fun phase =>
    phase == seq.isRecomputeReplay) = phase
  cases phase with
  | some value =>
      have hvalue : value = seq.isRecomputeReplay := by
        have hmem := Option.eq_some_of_filter_eq_some hphase
        rw [hmem, Option.filter_some] at hphase
        split at hphase
        · next heq => exact eq_of_beq heq
        · exact nomatch hphase
      simp [hvalue]
  | none =>
      by_cases hle : seq.remainingPrefillTokens ≤ config.longPrefillOffloadThreshold
      · simp [hle, Int.not_lt.mpr hle]
      · simp [hle, Int.not_le.mp hle]

/-- What an answer means. -/
theorem prefillExecutionMode_eq_ok {mode : PrefillExecutionMode}
    (h : config.prefillExecutionMode kv seq = .ok (mode, later)) :
    mode = config.ownMode kv seq ∧ later = config.asked kv seq ∧
      (config.rawOffloads kv seq = true → config.stagingKvCache = true) := by
  unfold prefillExecutionMode at h
  split at h
  · next hcan =>
    obtain ⟨rfl, rfl⟩ := Prod.mk.inj (Except.ok.inj h)
    refine ⟨by rw [ownMode, if_pos hcan], by rw [asked, if_pos hcan], fun hraw => ?_⟩
    rw [rawOffloads_canUse hraw] at hcan
    exact nomatch hcan
  · next hcan =>
    rw [Bool.not_eq_false] at hcan
    dsimp only at h
    split at h
    · exact nomatch h
    · rw [applySticky_eq hcan] at h
      split at h
      · exact nomatch h
      · next hready =>
        obtain ⟨rfl, rfl⟩ := Prod.mk.inj (Except.ok.inj h)
        refine ⟨rfl, rfl, fun hraw => ?_⟩
        by_contra hnone
        apply hready
        rw [Bool.not_eq_true] at hnone
        exact ⟨by rw [ownMode, if_neg (by simp [hcan]), if_pos hraw], hnone⟩

/-- When the question is answered. -/
theorem prefillExecutionMode_eq (hremaining : 0 < seq.remainingPrefillTokens)
    (hstaging : config.rawOffloads kv seq = true → config.stagingKvCache = true) :
    config.prefillExecutionMode kv seq = .ok (config.ownMode kv seq, config.asked kv seq) := by
  unfold prefillExecutionMode
  split
  · next hcan => rw [ownMode, if_pos hcan, asked, if_pos hcan]
  · next hcan =>
    rw [Bool.not_eq_false] at hcan
    dsimp only
    rw [if_neg (Int.not_le.mpr hremaining), applySticky_eq hcan, if_neg]
    rintro ⟨hmode, hnone⟩
    have hraw : config.rawOffloads kv seq = true := by
      by_contra hnot
      rw [ownMode, if_neg (by simp [hcan]), if_neg hnot] at hmode
      exact nomatch hmode
    rw [hstaging hraw] at hnone
    exact nomatch hnone

theorem ownMode_eq_rawOffload :
    decide (config.ownMode kv seq = .rawOffload) = config.rawOffloads kv seq := by
  unfold ownMode
  split
  · next hcan =>
    unfold rawOffloads
    simp [hcan]
  · split
    · next hraw => simp [hraw]
    · next hraw => simp [hraw]

theorem requiresLongPrefillOffload_eq_ok {offloads : Bool}
    (h : config.requiresLongPrefillOffload kv seq = .ok (offloads, later)) :
    offloads = config.rawOffloads kv seq ∧ later = config.asked kv seq := by
  unfold requiresLongPrefillOffload at h
  cases hmode : config.prefillExecutionMode kv seq with
  | error error =>
      rw [hmode] at h
      exact nomatch h
  | ok answer =>
      obtain ⟨mode, kv'⟩ := answer
      rw [hmode] at h
      obtain ⟨rfl, rfl, -⟩ := prefillExecutionMode_eq_ok hmode
      obtain ⟨rfl, rfl⟩ := Prod.mk.inj (Except.ok.inj h)
      exact ⟨ownMode_eq_rawOffload, rfl⟩

theorem requiresLongPrefillOffload_eq (hremaining : 0 < seq.remainingPrefillTokens)
    (hstaging : config.rawOffloads kv seq = true → config.stagingKvCache = true) :
    config.requiresLongPrefillOffload kv seq = .ok (config.rawOffloads kv seq, config.asked kv seq) := by
  unfold requiresLongPrefillOffload
  rw [prefillExecutionMode_eq hremaining hstaging]
  exact congrArg (fun offloads => Except.ok (offloads, config.asked kv seq)) ownMode_eq_rawOffload

/-! ## Questions asked any number of times -/

variable (config seq) in
/-- The sequence has been asked about, or not. -/
def Asked (kv later : SequenceKv) : Prop := later = kv ∨ later = config.asked kv seq

namespace Asked

theorem refl : config.Asked seq kv kv := .inl rfl

theorem once : config.Asked seq kv (config.asked kv seq) := .inr rfl

theorem trans {last : SequenceKv} (hfirst : config.Asked seq kv later)
    (hsecond : config.Asked seq later last) : config.Asked seq kv last := by
  rcases hfirst with rfl | rfl
  · exact hsecond
  · rcases hsecond with rfl | rfl
    · exact .inr rfl
    · exact .inr asked_asked

section

variable (h : config.Asked seq kv later)

include h

theorem rowSeqLens : later.rowSeqLens = kv.rowSeqLens := by
  rcases h with rfl | rfl
  · rfl
  · exact asked_rowSeqLens

theorem scoreAccumulators : later.scoreAccumulators = kv.scoreAccumulators := by
  rcases h with rfl | rfl
  · rfl
  · exact asked_scoreAccumulators

theorem rawOffloads : config.rawOffloads later seq = config.rawOffloads kv seq := by
  rcases h with rfl | rfl
  · rfl
  · exact rawOffloads_asked

end

end Asked

end ScoringConfig
