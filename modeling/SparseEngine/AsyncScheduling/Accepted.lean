import SparseEngine.Scheduler.Postprocess

/-!
# The tokens that a request accepts

When the model goes on sampling for a request, `postprocess` accepts the
tokens up to the first one that ends it (`accepted`).  What a request has
accepted is the history of its sequence (`Follows`).
-/

namespace Sequence

variable {Id : Type} {configured : List ℤ} {seq request later : Sequence Id}
  {tokens outputs : List ℤ}

/-- The sequence with `tokens` appended. -/
def extended (seq : Sequence Id) (tokens : List ℤ) : Sequence Id :=
  tokens.foldl (fun seq token => seq.appendToken token) seq

/-- What `postprocess` accepts when the model samples `tokens`. -/
def accepted (configured : List ℤ) : Sequence Id → List ℤ → List ℤ
  | _, [] => []
  | seq, token :: rest =>
      if (seq.appendToken token).endsWith configured token then [token]
      else token :: accepted configured (seq.appendToken token) rest

/-- None of the tokens ends the request. -/
def Unended (configured : List ℤ) : Sequence Id → List ℤ → Prop
  | _, [] => True
  | seq, token :: rest =>
      (seq.appendToken token).endsWith configured token = false ∧
        Unended configured (seq.appendToken token) rest

theorem extended_concat (seq : Sequence Id) (tokens : List ℤ) (token : ℤ) :
    seq.extended (tokens ++ [token]) = (seq.extended tokens).appendToken token := by
  unfold extended
  rw [List.foldl_append]
  rfl

theorem unended_append (xs ys : List ℤ) :
    Unended configured seq (xs ++ ys) ↔ Unended configured seq xs ∧ Unended configured (seq.extended xs) ys := by
  induction xs generalizing seq with
  | nil => exact (and_iff_right trivial).symm
  | cons token xs ih =>
      show _ ∧ Unended configured (seq.appendToken token) (xs ++ ys) ↔ _
      rw [ih, ← and_assoc]
      rfl

theorem unended_concat (token : ℤ) :
    Unended configured seq (tokens ++ [token]) ↔ Unended configured seq tokens ∧
      ((seq.extended tokens).appendToken token).endsWith configured token = false := by
  rw [unended_append]
  exact and_congr_right fun _ => and_iff_left trivial

/-- Before the end everything is accepted. -/
theorem accepted_append (xs ys : List ℤ) (h : Unended configured seq xs) :
    accepted configured seq (xs ++ ys) = xs ++ accepted configured (seq.extended xs) ys := by
  induction xs generalizing seq with
  | nil => rfl
  | cons token xs ih =>
      obtain ⟨hmore, hrest⟩ := h
      show (if (seq.appendToken token).endsWith configured token then [token]
        else token :: accepted configured (seq.appendToken token) (xs ++ ys)) = _
      rw [if_neg (by rw [hmore]; exact Bool.false_ne_true), ih hrest]
      rfl

theorem accepted_of_unended (h : Unended configured seq tokens) :
    accepted configured seq tokens = tokens := by
  have happend := accepted_append tokens [] h
  rw [List.append_nil] at happend
  exact happend.trans (List.append_nil tokens)

/-- The token that ends the request is accepted. -/
theorem accepted_concat (token : ℤ) (h : Unended configured seq tokens) :
    accepted configured seq (tokens ++ [token]) = tokens ++ [token] := by
  rw [accepted_append tokens [token] h]
  unfold accepted accepted
  rw [ite_self]

/-- After the end nothing is accepted. -/
theorem accepted_of_ended (xs ys : List ℤ) (h : ¬ Unended configured seq xs) :
    accepted configured seq (xs ++ ys) = accepted configured seq xs := by
  induction xs generalizing seq with
  | nil => exact absurd trivial h
  | cons token xs ih =>
      show (if (seq.appendToken token).endsWith configured token then [token]
          else token :: accepted configured (seq.appendToken token) (xs ++ ys)) =
        if (seq.appendToken token).endsWith configured token then [token]
          else token :: accepted configured (seq.appendToken token) xs
      by_cases hends : (seq.appendToken token).endsWith configured token = true
      · rw [if_pos hends, if_pos hends]
      · rw [if_neg hends, if_neg hends, ih fun hrest => h ⟨Bool.not_eq_true _ ▸ hends, hrest⟩]

theorem accepted_prefix (xs ys : List ℤ) :
    accepted configured seq xs <+: accepted configured seq (xs ++ ys) := by
  by_cases h : Unended configured seq xs
  · rw [accepted_append xs ys h, accepted_of_unended h]
    exact List.prefix_append _ _
  · rw [accepted_of_ended xs ys h]

/-! ## The sequence of a request -/

/-- The sequence has accepted `outputs`. -/
def Follows (request : Sequence Id) (outputs : List ℤ) (seq : Sequence Id) : Prop :=
  ({ seq with numPendingOutputs := 0 } : Sequence Id).history = (request.extended outputs).history

section

variable (h : Follows request outputs seq)

include h

theorem Follows.of_history (hsame : later.history = seq.history) :
    Follows request outputs later := by
  refine Eq.trans ?_ h
  simp only [history, History.mk.injEq] at hsame ⊢
  simp only [hsame, and_self]

/-- Pending outputs are not accepted yet. -/
theorem Follows.of_pending (pending : ℤ) :
    Follows request outputs { seq with numPendingOutputs := pending } := h

theorem Follows.append (token : ℤ) :
    Follows request (outputs ++ [token]) (seq.appendToken token) := by
  unfold Follows at h ⊢
  rw [extended_concat]
  generalize request.extended outputs = reached at h ⊢
  simp only [history, appendToken, History.mk.injEq] at h ⊢
  simp only [h, and_self]

theorem Follows.endsWith_eq (token : ℤ) :
    seq.endsWith configured token = (request.extended outputs).endsWith configured token := by
  unfold Follows at h
  generalize request.extended outputs = reached at h ⊢
  simp only [history, History.mk.injEq] at h
  obtain ⟨_, htokens, hprompt, _, hmax, _, _, _, hignore, heos⟩ := h
  unfold endsWith numCompletionTokens
  rw [hignore, heos, htokens, hprompt, hmax]

end

/-- What a new request keeps while tokens are appended to it. -/
theorem extended_fields (request : Sequence Id) (outputs : List ℤ) :
    (request.extended outputs).tokenIds = request.tokenIds ++ outputs ∧
      (request.extended outputs).numPromptTokens = request.numPromptTokens ∧
      (request.extended outputs).numTokens = request.numTokens + outputs.length ∧
      (request.extended outputs).maxTokens = request.maxTokens := by
  induction outputs using List.reverseRecOn with
  | nil => exact ⟨(List.append_nil _).symm, rfl, (Int.add_zero _).symm, rfl⟩
  | append_singleton outputs token ih =>
      obtain ⟨htokens, hprompt, hcount, hmax⟩ := ih
      rw [extended_concat]
      refine ⟨?_, hprompt, ?_, hmax⟩
      · show (request.extended outputs).tokenIds ++ [token] = _
        rw [htokens, List.append_assoc]
      · show (request.extended outputs).numTokens + 1 = _
        rw [hcount, List.length_append, List.length_singleton]
        omega

/-- A request as it is admitted. -/
def IsNew (request : Sequence Id) : Prop :=
  ∃ tokenIds maxTokens ignoreEos eosTokenIds,
    request = Sequence.new tokenIds maxTokens ignoreEos eosTokenIds ∧ 0 < maxTokens

/-- The accepted outputs are the completion. -/
theorem Follows.completion (h : Follows request outputs seq) (hnew : request.IsNew) :
    seq.completionTokenIds = outputs ∧ seq.numCompletionTokens = outputs.length ∧ 0 < seq.maxTokens := by
  obtain ⟨tokenIds, maxTokens, ignoreEos, eosTokenIds, rfl, hpos⟩ := hnew
  obtain ⟨htokens, hprompt, hcount, hmax⟩ :=
    extended_fields (Sequence.new tokenIds maxTokens ignoreEos eosTokenIds : Sequence Id) outputs
  unfold Follows at h
  generalize (Sequence.new tokenIds maxTokens ignoreEos eosTokenIds : Sequence Id).extended outputs =
    reached at h htokens hprompt hcount hmax
  simp only [history, History.mk.injEq] at h
  obtain ⟨hids, hnum, hlength, _, hlimit, _⟩ := h
  have hprompt' : seq.numPromptTokens = (tokenIds.length : ℤ) := hlength.trans hprompt
  refine ⟨?_, ?_, ?_⟩
  · unfold completionTokenIds
    rw [hids, htokens, hprompt', pySlice_of_nonneg (Int.natCast_nonneg _) (Int.natCast_nonneg _),
      Int.toNat_natCast, Int.toNat_natCast, List.take_length]
    exact List.drop_left
  · unfold numCompletionTokens
    rw [hnum, hcount, hprompt']
    show (tokenIds.length : ℤ) + outputs.length - tokenIds.length = _
    omega
  · rw [hlimit, hmax]
    exact hpos

/-- What a step accepts. -/
theorem afterStep_history {isPrefill : Bool} (token : ℤ)
    (hdecode : isPrefill = false → seq.numPromptTokens ≤ seq.numPrefilledTokens) :
    (seq.afterStep isPrefill token).history =
      if seq.accepts isPrefill then (seq.appendToken token).history else seq.history := by
  unfold afterStep accepts
  cases isPrefill with
  | true =>
      unfold afterPrefill
      by_cases hlt : seq.numPrefilledTokens + seq.currentChunkSize.getD 0 < seq.numPromptTokens
      · simp only [hlt, if_true, Bool.not_true, Bool.false_or, decide_eq_false (Int.not_le.mpr hlt),
          Bool.and_false, Bool.false_eq_true, if_false]
        rfl
      · have hreplay : ({ seq with numPrefilledTokens := seq.numPrefilledTokens +
            seq.currentChunkSize.getD 0 } : Sequence Id).isRecomputeReplay =
            seq.isRecomputeReplay := rfl
        simp only [hlt, if_false, if_true, hreplay, Bool.not_true, Bool.false_or,
          decide_eq_true (Int.not_lt.mp hlt), Bool.and_true]
        cases seq.isRecomputeReplay with
        | true =>
            simp only [if_true, Bool.not_true, Bool.false_eq_true, if_false]
            split <;> rfl
        | false =>
            rfl
  | false =>
      have hreplay : seq.isRecomputeDecode = seq.isRecomputeReplay := by
        unfold isRecomputeDecode
        rw [decide_eq_true (hdecode rfl), Bool.and_true]
      unfold afterDecode
      simp only [Bool.false_eq_true, if_false, hreplay, Bool.not_false, Bool.true_or, Bool.and_true]
      cases seq.isRecomputeReplay with
      | true =>
          simp only [if_true, Bool.not_true, Bool.false_eq_true, if_false]
          split <;> rfl
      | false => simp only [Bool.false_eq_true, if_false, Bool.not_false, if_true]

end Sequence
