import SparseEngine.AsyncScheduling.Steps

/-!
# Admissions and aborts

A request that is aborted leaves its queue at once.  It is discarded when it
may own slots or a pending step refers to it, and its later outputs are
dropped.

An abort is a departure (`abort_departs`, `Sound.depart`), as the end of a
collected request is.
-/

/-- A request as it is admitted waits with nothing computed. -/
theorem Sequence.new_wellformed [PrefixReuse] {Id : Type} (tokenIds : List ℤ) (maxTokens : ℤ) (ignoreEos : Bool)
    (eosTokenIds : List ℤ) :
    (Sequence.new tokenIds maxTokens ignoreEos eosTokenIds : Sequence Id).Wellformed := by
  have hnonneg : (0 : ℤ) ≤ tokenIds.length := Int.natCast_nonneg _
  refine ⟨⟨rfl, hnonneg, Int.le_refl _, ?_, rfl, Int.le_refl 0⟩, Int.le_refl 0, Int.le_refl 0,
    .inr (Int.le_refl 0), .inl ⟨rfl, Int.sub_self _, rfl, hnonneg⟩⟩
  show some tokenIds = some (tokenIds.take (tokenIds.length : ℤ).toNat)
  rw [Int.toNat_natCast, List.take_length]

namespace AsyncView

variable [PrefixReuse] {Id : Type} {sampled : ℕ → ℕ → ℤ} {configured : List ℤ} {view : AsyncView Id}

/-! ## Admissions -/

/-- The view once the request waits. -/
def enqueue (view : AsyncView Id) (seqId : ℕ) (request : Sequence Id) : AsyncView Id :=
  { view with
    seqs := Function.update view.seqs seqId request
    waiting := view.waiting ++ [seqId]
    history := { view.history with
      requests := Function.update view.history.requests seqId (some request) } }

omit [PrefixReuse] in
theorem mem_owned_admitted {seqId other : ℕ} : other ∈ (view.waiting ++ [seqId]) ++ view.decoding ++ [] ↔
    other = seqId ∨ other ∈ view.owned [] := by
  rw [mem_owned]
  simp only [List.mem_append, List.mem_singleton, List.not_mem_nil, or_false]
  constructor
  · rintro ((hwaits | heq) | hdecodes)
    · exact .inr (.inl hwaits)
    · exact .inl heq
    · exact .inr (.inr hdecodes)
  · rintro (heq | hwaits | hdecodes)
    · exact .inl (.inr heq)
    · exact .inl (.inl hwaits)
    · exact .inr hdecodes

section

variable (h : view.Sound sampled configured [] [] []) {seqId : ℕ} {request : Sequence Id}
  (hunknown : view.history.requests seqId = none)

include h hunknown

/-- The queues and the steps know nothing of a request before it is admitted. -/
theorem Sound.unknown : seqId ∉ view.owned [] ∧ seqId ∉ view.history.ended ∧ seqId ∉ view.discarded := by
  have hnone : ¬(view.history.requests seqId).isSome := by
    rw [hunknown]
    exact Bool.false_ne_true
  have hended : seqId ∉ view.history.ended := fun hmem => hnone (h.accounted.admitted seqId (.inr hmem))
  exact ⟨fun hmem => hnone (h.accounted.admitted seqId (.inl hmem)), hended,
    fun hmem => hended (h.accounted.withdrawn_sub (h.accounted.discarded_sub hmem))⟩

/-- It has no outputs, and none are due. -/
theorem Sound.silent : outputsOf seqId view.history.published = [] ∧
    outputsOf seqId view.history.sampled = [] ∧ outputsOf seqId ([] ++ view.due sampled) = [] ∧
    view.history.aborted seqId = none := by
  obtain ⟨hissued, hpublished, haborted⟩ := h.accounted.fresh seqId hunknown
  have hnothing := h.issued seqId
  rw [hissued] at hnothing
  obtain ⟨hsampled, hdue⟩ := List.append_eq_nil_iff.mp hnothing.symm
  exact ⟨hpublished, hsampled, hdue, haborted⟩

theorem Accounted.enqueue : (view.enqueue seqId request).Accounted [] := by
  have hold := h.accounted
  obtain ⟨-, hunended, -⟩ := h.unknown hunknown
  refine ⟨fun other hin => ?_, fun other hsome hmore => ?_, fun other hended hin => ?_,
    hold.withdrawn_sub, hold.discarded_sub, hold.retiring_eq, hold.released, hold.retired_eq,
    fun other hnone => ?_⟩
  · show (Function.update view.history.requests seqId (some request) other).isSome
    rw [Function.update_apply]
    split
    · rfl
    · next hne => exact hold.admitted other (hin.imp_left fun hmem => (mem_owned_admitted.mp hmem).resolve_left hne)
  · refine mem_owned_admitted.mpr ?_
    by_cases heq : other = seqId
    · exact .inl heq
    · change (Function.update view.history.requests seqId (some request) other).isSome at hsome
      rw [Function.update_of_ne heq] at hsome
      exact .inr (hold.kept other hsome hmore)
  · rcases mem_owned_admitted.mp hin with rfl | hbefore
    · exact hunended hended
    · exact hold.gone other hended hbefore
  · change Function.update view.history.requests seqId (some request) other = none at hnone
    rw [Function.update_apply] at hnone
    split at hnone
    · exact absurd hnone (Option.some_ne_none _)
    · exact hold.fresh other hnone

variable (hnew : request.IsNew)

include hnew

theorem Queued.enqueue : (view.enqueue seqId request).Queued [] := by
  obtain ⟨hunowned, -, -⟩ := h.unknown hunknown
  obtain ⟨tokenIds, maxTokens, ignoreEos, eosTokenIds, hrequest, hpos⟩ := hnew
  have hpending : request.numPendingOutputs = 0 := hrequest ▸ rfl
  refine ⟨fun other => ?_, fun other hmem => ?_, fun other hmem => ?_, ?_, h.queued.inflight, fun other => ?_⟩
  · show (Function.update view.seqs seqId request other).Wellformed
    rw [Function.update_apply]
    split
    · exact hrequest ▸ Sequence.new_wellformed _ _ _ _
    · exact h.queued.wellformed other
  · show (Function.update view.seqs seqId request other).Decoding
    have hne : other ≠ seqId := fun heq => hunowned (mem_owned.mpr (.inr (.inl (heq ▸ hmem))))
    rw [Function.update_of_ne hne]
    exact h.queued.decoding other hmem
  · show (Function.update view.seqs seqId request other).numPendingOutputs = 0
    rw [Function.update_apply]
    split
    · exact hpending
    · next hne =>
      refine h.queued.idle other ?_
      rw [List.append_nil] at hmem ⊢
      exact (List.mem_append.mp hmem).resolve_right fun heq => hne (List.mem_singleton.mp heq)
  · have hperm : (view.waiting ++ [seqId] ++ view.decoding).Perm (seqId :: (view.waiting ++ view.decoding)) := by
      rw [List.append_assoc, List.singleton_append]
      exact List.perm_middle
    have hbefore := h.queued.nodup
    unfold owned at hbefore hunowned ⊢
    rw [List.append_nil] at hbefore hunowned ⊢
    exact hperm.nodup_iff.mpr (List.nodup_cons.mpr ⟨hunowned, hbefore⟩)
  · show (Function.update view.seqs seqId request other).numCompletionTokens +
      (Function.update view.seqs seqId request other).numPendingOutputs ≤
        (Function.update view.seqs seqId request other).maxTokens
    rw [Function.update_apply]
    split
    · rw [hpending, show request.numCompletionTokens = 0 from hrequest ▸ Int.sub_self _]
      exact hrequest ▸ hpos.le
    · exact h.queued.budget other

/-- It has accepted nothing of nothing. -/
theorem Tracked.enqueue : (view.enqueue seqId request).Tracked configured [] [] seqId request := by
  obtain ⟨hpublished, hsampled, -, haborted⟩ := h.silent hunknown
  constructor
  · exact hnew
  · show request.Follows (outputsOf seqId view.history.published) (Function.update view.seqs seqId request seqId)
    rw [Function.update_self, hpublished]
    obtain ⟨_, _, _, _, rfl, -⟩ := hnew
    rfl
  · show outputsOf seqId view.history.published <+: _
    rw [hpublished]
    exact List.nil_prefix
  · intro _
    show (_ → request.Unended configured (outputsOf seqId view.history.sampled)) ∧
      outputsOf seqId view.history.published = outputsOf seqId view.history.sampled
    rw [hsampled, hpublished]
    exact ⟨fun _ => trivial, rfl⟩
  · intro _
    show outputsOf seqId view.history.published = request.accepted configured (outputsOf seqId view.history.sampled)
    rw [hsampled, hpublished]
    rfl
  · intro outputs hsome
    exact absurd (hsome.symm.trans haborted) (Option.some_ne_none outputs)
  · exact fun hover _ => absurd (hover.resolve_left List.not_mem_nil) (h.unknown hunknown).2.2

/-- A new request waits. -/
theorem Sound.admitted : (view.enqueue seqId request).Sound sampled configured [] [] [] := by
  constructor
  · exact .enqueue h hunknown hnew
  · exact .enqueue h hunknown
  · intro step hstep
    exact (h.submitted step hstep).mono rfl (Nat.le_refl _) fun other _ hmember =>
      hmember.imp_left fun hbefore => mem_owned_admitted.mpr (.inr hbefore)
  · exact h.tickets
  · exact h.results
  · exact h.order
  · exact fun _ hmem => absurd hmem List.not_mem_nil
  · intro other
    show (Function.update view.seqs seqId request other).numPendingOutputs = _
    rw [Function.update_apply]
    split
    · next heq =>
      obtain ⟨_, _, _, _, rfl, -⟩ := hnew
      exact (congrArg (fun outputs : List ℤ => (outputs.length : ℤ)) (heq ▸ (h.silent hunknown).2.2.1)).symm
    · exact h.outstanding other
  · exact h.issued
  · intro other found hfound
    change Function.update view.history.requests seqId (some request) other = some found at hfound
    rw [Function.update_apply] at hfound
    by_cases heq : other = seqId
    · subst heq
      rw [if_pos rfl] at hfound
      obtain rfl := Option.some.inj hfound
      exact .enqueue h hunknown hnew
    · rw [if_neg heq] at hfound
      have htracked := h.tracked other found hfound
      refine htracked.mono ?_ rfl rfl rfl rfl (fun hin => (mem_owned_admitted.mp hin).resolve_left heq) .rfl
        (Finset.Subset.refl _)
      show found.Follows _ (Function.update view.seqs seqId request other)
      rw [Function.update_of_ne heq]
      exact htracked.follows

end

end AsyncView

namespace AsyncScheduler

open Routine AsyncView Scheduler

variable [PrefixReuse] {Id Env Key Resource : Type} {ledger : Env → List (Sequence Id)}
  {engine : AsyncEngine Id Env Key Resource} {state : AsyncScheduler Id Env}

variable {bad : AsyncScheduler Id Env → Prop}

theorem requireReleased_settled (h : engine.Settled state.view)
    {post : Unit → AsyncScheduler Id Env → Prop} (hpost : post () state) :
    wpe requireReleased post bad state := by
  unfold requireReleased
  rw [wpe_get, wpe_raiseIf]
  refine ⟨fun hsome => absurd h.sound.accounted.released hsome, fun _ => hpost⟩

section

variable (hquiet : Unobtrusive ledger engine)

include hquiet

/-- **An admission** keeps the invariant. -/
theorem admitRequest_settled (h : engine.Settled state.view) (seqId : ℕ)
    (tokenIds : List ℤ) (maxTokens : ℤ) (ignoreEos : Bool) (eosTokenIds : List ℤ) :
    wpe (admitRequest engine seqId tokenIds maxTokens ignoreEos eosTokenIds) (fun _ next => engine.Settled next.view)
      (fun next => engine.Settled next.view) state := by
  unfold admitRequest
  rw [wpe_bind]
  refine requireReleased_settled h ?_
  refine wpe_guarded h fun hpos => ?_
  rw [wpe_get, wpe_whenDo]
  refine ⟨fun hunknown => ?_, fun _ => h⟩
  rw [wpe_set, wpe_set, wpe_onScheduler]
  refine wpe_mono (add_moved hquiet.monotonic seqId) fun _ next hnext => ?_
  obtain ⟨hrest, hwaiting⟩ := hnext
  have hnew : (Sequence.new tokenIds maxTokens ignoreEos eosTokenIds : Sequence Id).IsNew :=
    ⟨tokenIds, maxTokens, ignoreEos, eosTokenIds, rfl, Int.not_le.mp hpos⟩
  have hadmitted := h.sound.admitted hunknown hnew
  refine ⟨?_, h.drained⟩
  have hseqs : next.world.seqs = Function.update state.view.seqs seqId
      (Sequence.new tokenIds maxTokens ignoreEos eosTokenIds) := congrArg Prod.fst hrest
  have hdecoding : next.decoding = state.view.decoding := congrArg (·.2.1) hrest
  have hinflight : next.asyncInflight = state.view.asyncInflight := congrArg (·.2.2.1) hrest
  have hqueue : next.waiting = state.view.waiting ++ [seqId] := hwaiting
  generalize Sequence.new tokenIds maxTokens ignoreEos eosTokenIds = request at *
  show Sound _ _ _ _ _ { state.view with
    seqs := next.world.seqs
    waiting := next.waiting
    decoding := next.decoding
    asyncInflight := next.asyncInflight
    history := { state.view.history with
      requests := Function.update state.view.history.requests seqId (some request) } }
  rw [hseqs, hdecoding, hinflight, hqueue]
  exact hadmitted

/-- The requests leave both queues. -/
theorem abortMany_view (seqIds : List ℕ) :
    wpe (onScheduler (Scheduler.abortMany engine.oracle.resetPrefillExecutionState seqIds))
      (fun removed next => ∃ seqs : ℕ → Sequence Id,
        (∀ seqId, ∃ status, seqs seqId = { state.view.seqs seqId with status := status }) ∧
        next.view = { state.view with
          seqs := seqs
          waiting := state.view.waiting.filter fun seqId => seqId ∉ seqIds
          decoding := state.view.decoding.filter fun seqId => seqId ∉ seqIds } ∧
        ∀ seqId ∈ seqIds, (removed.get? seqId).getD false = true ↔
          seqId ∈ state.scheduler.waiting ∧ Owning false (state.scheduler.seq seqId) ∨
            seqId ∈ state.scheduler.decoding) bad state := by
  rw [wpe_onScheduler]
  refine wpe_mono (abortMany_restatused hquiet.reset seqIds) fun removed next hnext => ?_
  obtain ⟨hstatus, hwaiting, hdecoding, hanswer⟩ := hnext
  refine ⟨next.world.seqs, hstatus.seqs, ?_, hanswer⟩
  show { state.view with
    seqs := next.world.seqs
    waiting := next.waiting
    decoding := next.decoding
    asyncInflight := next.asyncInflight } = _
  rw [hwaiting, hdecoding, hstatus.inflight_eq]
  rfl

/-- Requests that are released without a pending step. -/
theorem abortReleased_sound {closing seqIds : List ℕ} (h : engine.Sound [] [] closing state.view)
    (hpending : state.pending = []) (hclosing : closing ⊆ seqIds)
    (howned : ∀ seqId ∈ seqIds, seqId ∈ state.view.owned []) :
    wpe (abortReleased engine seqIds)
      (fun _ next => next.pending = [] ∧ next.discarded = state.discarded ∧
        engine.Sound [] [] [] next.view) bad state := by
  unfold abortReleased
  refine wpe_then (abortMany_view hquiet seqIds) fun removed next hnext => ?_
  obtain ⟨seqs, hseqs, hview, -⟩ := hnext
  refine ⟨(congrArg AsyncView.pending hview).trans hpending, congrArg AsyncView.discarded hview, ?_⟩
  have hdeparts : Departs engine.eosTokenIds closing [] state.view
      { seqs := seqs
        leaving := seqIds
        gone := seqIds.toFinset
        out := ∅
        finished := state.history.finished
        abortedHolding := state.history.abortedHolding
        aborted := state.history.aborted } := by
    refine ⟨hseqs, hclosing, fun seqId hmem => ?_, fun seqId hmem _ => List.mem_toFinset.mpr hmem,
      (Finset.union_empty _).symm, fun seqId hmem => absurd hmem (Finset.notMem_empty seqId),
      fun seqId _ hstep => ?_, fun _ => .inl rfl,
      fun seqId hmem => absurd hmem (Finset.notMem_empty seqId)⟩
    · have hin := List.mem_toFinset.mp hmem
      exact ⟨hin, h.accounted.admitted seqId (.inl (howned seqId hin))⟩
    · rcases hstep with ⟨step, hstep, _⟩ | hextra
      · rw [show state.view.pending = [] from hpending] at hstep
        exact absurd hstep List.not_mem_nil
      · exact absurd hextra List.not_mem_nil
  have hended := h.depart hdeparts
  dsimp only [AsyncView.depart] at hended
  rw [Finset.union_empty, Finset.union_empty] at hended
  show Sound _ _ _ _ _ { next.view with history := { next.view.history with
    ended := next.view.history.ended ∪ seqIds.toFinset } }
  rw [hview]
  exact hended

end

/-- How an abort ends a request: it is discarded if it may own slots or a
pending step refers to it. -/
def abortDeparture (state : AsyncScheduler Id Env) (seqs : ℕ → Sequence Id) (seqId : ℕ)
    (discards : Prop) [Decidable discards] : Departure Id where
  seqs := seqs
  leaving := [seqId]
  gone := if (state.history.requests seqId).isSome then {seqId} else ∅
  out := if discards then {seqId} else ∅
  finished := state.history.finished
  abortedHolding := state.history.abortedHolding ∪ if discards then {seqId} else ∅
  aborted := fun other =>
    if other = seqId ∧ (state.history.requests seqId).isSome then
      (state.history.aborted seqId).or (some (outputsOf seqId state.history.published))
    else state.history.aborted other

omit [PrefixReuse] in
theorem mem_ite_singleton {condition : Prop} [Decidable condition] {seqId other : ℕ} :
    (other ∈ if condition then ({seqId} : Finset ℕ) else ∅) ↔ other = seqId ∧ condition := by
  split
  · next hyes => rw [Finset.mem_singleton, and_iff_left hyes]
  · next hno => exact ⟨fun hmem => absurd hmem (Finset.notMem_empty other), fun hboth => absurd hboth.2 hno⟩

omit [PrefixReuse] in
theorem union_ite_singleton {condition : Prop} [Decidable condition] {seqId : ℕ}
    {before : Finset ℕ} : (before ∪ if condition then ({seqId} : Finset ℕ) else ∅) =
      if condition then insert seqId before else before := by
  split
  · rw [Finset.union_singleton]
  · rw [Finset.union_empty]

theorem abort_departs {seqId : ℕ} {discards : Prop} [Decidable discards] {seqs : ℕ → Sequence Id}
    (h : engine.Sound [] [] [] state.view)
    (hseqs : ∀ other, ∃ status, seqs other = { state.view.seqs other with status := status })
    (hdiscards : discards → seqId ∈ state.view.owned [] ∨ seqId ∈ state.referenced)
    (hreferenced : seqId ∈ state.referenced → discards) :
    Departs engine.eosTokenIds [] [] state.view (abortDeparture state seqs seqId discards) := by
  -- a discarded request is in a queue or already withdrawn:
  have hknown : discards → seqId ∈ state.view.owned [] ∨ seqId ∈ state.view.discarded := by
    intro hyes
    rcases hdiscards hyes with hqueued | hreferenced
    · exact .inl hqueued
    · obtain ⟨step, hstep, hmem⟩ := List.mem_flatMap.mp (List.mem_toFinset.mp hreferenced)
      exact (h.submitted step hstep).members seqId hmem
  have hadmitted : discards → (state.view.history.requests seqId).isSome := by
    intro hyes
    refine h.accounted.admitted seqId ((hknown hyes).imp_right fun hmem => ?_)
    exact h.accounted.withdrawn_sub (h.accounted.discarded_sub hmem)
  refine ⟨hseqs, List.nil_subset _, fun other hmem => ?_, fun other hmem howned => ?_,
    (Finset.union_assoc _ _ _).symm, fun other hmem => ?_, fun other hmem hstep => ?_,
    fun other => ?_, fun other hmem _ hnone => ?_⟩
  · obtain ⟨rfl, hsome⟩ := mem_ite_singleton.mp hmem
    exact ⟨List.mem_singleton_self other, hsome⟩
  · obtain rfl := List.mem_singleton.mp hmem
    exact mem_ite_singleton.mpr ⟨rfl, h.accounted.admitted other (.inl howned)⟩
  · -- it cannot be withdrawn twice
    obtain ⟨rfl, hyes⟩ := mem_ite_singleton.mp hmem
    refine ⟨.inr (mem_ite_singleton.mpr ⟨rfl, hadmitted hyes⟩), fun hwithdrawn => ?_⟩
    exact (hknown hyes).resolve_left (h.accounted.gone other (h.accounted.withdrawn_sub hwithdrawn))
  · obtain ⟨rfl, -⟩ := mem_ite_singleton.mp hmem
    refine mem_ite_singleton.mpr ⟨rfl, hreferenced ?_⟩
    obtain ⟨step, hstep, hseq⟩ := hstep.resolve_right List.not_mem_nil
    exact List.mem_toFinset.mpr (List.mem_flatMap.mpr ⟨step, hstep, hseq⟩)
  · unfold abortDeparture
    dsimp only
    split
    · next hboth =>
      obtain ⟨rfl, hsome⟩ := hboth
      -- the outputs of the first abort stand
      cases hwas : state.history.aborted other with
      | some outputs => exact .inl hwas.symm
      | none => exact .inr ⟨.inr (mem_ite_singleton.mpr ⟨rfl, hsome⟩), hwas, rfl⟩
    · exact .inl rfl
  · obtain ⟨rfl, hyes⟩ := mem_ite_singleton.mp hmem
    unfold abortDeparture at hnone
    dsimp only at hnone
    rw [if_pos ⟨rfl, hadmitted hyes⟩] at hnone
    cases hwas : state.history.aborted other with
    | some outputs => exact absurd (hwas ▸ hnone) (Option.some_ne_none _)
    | none => exact absurd (hwas ▸ hnone) (Option.some_ne_none _)

/-- **An abort** keeps the invariant. -/
theorem abort_settled (hquiet : Unobtrusive ledger engine) (h : engine.Settled state.view) (seqId : ℕ) :
    wpe (abort engine seqId) (fun _ next => engine.Settled next.view ∧ next.discarded ⊆ next.referenced)
      (fun next => engine.Settled next.view) state := by
  unfold abort
  rw [wpe_get]
  refine wpe_then (abortMany_view hquiet [seqId]) fun removed s1 hs1 => ?_
  obtain ⟨seqs, hseqs, hview, hanswer⟩ := hs1
  have hpending : s1.referenced = state.referenced := by
    unfold referenced
    rw [show s1.pending = state.pending from congrArg AsyncView.pending hview]
  have hnodup : (state.scheduler.waiting ++ state.scheduler.decoding).Nodup := by
    have hqueues := h.sound.queued.nodup
    unfold owned at hqueues
    rwa [List.append_nil] at hqueues
  -- `abort_many` answers what `request_may_own_slots` would have answered before
  have howns : (removed.get? seqId).getD false = true ↔ state.scheduler.requestMayOwnSlots seqId = true :=
    (hanswer seqId (List.mem_singleton_self seqId)).trans (requestMayOwnSlots_iff hnodup seqId).symm
  have hdeparts : Departs engine.eosTokenIds [] [] state.view (abortDeparture state seqs seqId
      (state.scheduler.requestMayOwnSlots seqId = true ∨ seqId ∈ state.referenced)) := by
    refine abort_departs h.sound hseqs (fun hyes => hyes.imp_left fun howning => ?_) .inr
    rcases (requestMayOwnSlots_iff hnodup seqId).mp howning with ⟨hwaits, -⟩ | hdecodes
    · exact mem_owned.mpr (.inl hwaits)
    · exact mem_owned.mpr (.inr (.inl hdecodes))
  have hsound := h.sound.depart hdeparts
  dsimp only [AsyncView.depart, abortDeparture] at hsound
  simp only [union_ite_singleton] at hsound
  rw [wpe_set, wpe_get, wpe_bind, wpe_whenDo]
  have hholds : ((removed.get? seqId).getD false = true ∨ seqId ∈ s1.referenced) ↔
      state.scheduler.requestMayOwnSlots seqId = true ∨ seqId ∈ state.referenced := by
    rw [howns, hpending]
  have hhistory : s1.history = state.history := congrArg AsyncView.history hview
  refine ⟨fun hyes => ?_, fun hno => ?_⟩
  · rw [wpe_write]
    refine drainAndRetire_settled hquiet.collect hquiet.release ?_
    have hholding := hholds.mp hyes
    rw [hhistory]
    simp only [if_pos hholding] at hsound ⊢
    show Sound _ _ _ _ _ { s1.view with
      discarded := insert seqId s1.view.discarded
      retiring := insert seqId s1.view.retiring
      history := _ }
    rw [hview]
    exact hsound
  · refine drainAndRetire_settled hquiet.collect hquiet.release ?_
    have hfree := mt hholds.mpr hno
    rw [hhistory]
    simp only [if_neg hfree] at hsound ⊢
    show Sound _ _ _ _ _ { s1.view with history := _ }
    rw [hview]
    exact hsound

end AsyncScheduler
