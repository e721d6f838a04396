import SparseEngine.Scheduler.Settled
import SparseEngine.Scheduler.Schedule

/-!
# The preempted sequence, and `schedule` as a whole

The decode scan holds sequences that it has popped; the one that is preempted
is none of them and not in the queue, so the rest of the decoding queue goes
on (`preemptDecodeVictim_scheduled`).  A second pass runs only after a pass
that preempted nothing.
-/

namespace Scheduler

open Routine

variable [PrefixReuse] {Id Env Key Resource : Type} {ledger : Env → List (Sequence Id)}
  {start scheduler next : Scheduler Id Env} {config : SchedulerConfig}
  {oracle : MemoryOracle Id Env Key Resource} {callbacks : SchedulerCallbacks Id Env}

/-! ## Preemption -/

/-- The victim has started over, and is in no queue yet. -/
structure Evicted (ledger : Env → List (Sequence Id)) (start : Scheduler Id Env) (victim : ℕ)
    (scheduler : Scheduler Id Env) : Prop where
  moves : ∀ seqId, seqId ≠ victim → (start.seq seqId).Rescheduled (scheduler.seq seqId)
  restarted : (start.seq victim).Restarted (scheduler.seq victim)
  leftover : Leftover start [] scheduler
  inflight_eq : scheduler.asyncInflight = start.asyncInflight
  logged : Logged ledger start scheduler

variable {victim : ℕ}

theorem Evicted.refreshed (h : Evicted ledger start victim scheduler) {α : Type}
    {hook : Hook Id Env α} (hhook : Refreshing ledger [] hook) :
    Evicted ledger start victim (call hook scheduler).2 := by
  obtain ⟨hrehit, hlogged⟩ := hhook scheduler
  refine ⟨fun seqId hne => (h.moves seqId hne).trans (hrehit seqId).rescheduled,
    h.restarted.trans (hrehit victim).rescheduled, fun seqId hnot => ?_, h.inflight_eq,
    fun handed hmem => ?_⟩
  · have hold := h.leftover seqId hnot
    rw [← (hrehit seqId).chunk_eq] at hold
    exact hold
  · rcases hlogged handed hmem with hold | ⟨seqId, hseq, _⟩
    · exact h.logged handed hold
    · exact absurd hseq List.not_mem_nil

theorem Evicted.of_rest (h : Evicted ledger start victim scheduler)
    (hrest : next.rest ledger = scheduler.rest ledger) : Evicted ledger start victim next := by
  refine ⟨fun seqId hne => ?_, ?_, fun seqId hnot => ?_,
    (congrArg (·.2.2.1) hrest).trans h.inflight_eq, h.logged.of_ledger (congrArg (·.2.2.2) hrest)⟩
  · rw [seq_of_rest hrest]
    exact h.moves seqId hne
  · rw [seq_of_rest hrest]
    exact h.restarted
  · rw [seq_of_rest hrest]
    exact h.leftover seqId hnot

omit [PrefixReuse] in
/-- A hook that returns. -/
theorem wpe_returns {α : Type} {hook : Hook Id Env α} (hhook : Returns hook)
    {post : α → Scheduler Id Env → Prop} {bad : Scheduler Id Env → Prop}
    (hpost : ∀ a, post a (call hook scheduler).2) : wpe (call hook) post bad scheduler := by
  obtain ⟨a, ha⟩ := hhook scheduler
  have hrun : call hook scheduler = (.ok a, (call hook scheduler).2) := Prod.ext ha rfl
  rw [wpe_of_ok hrun]
  exact hpost a

omit [PrefixReuse] in
/-- The survivors' progress is recorded: no other field changes. -/
theorem checkpoint_survivors (survivors : List ℕ) (seqs : ℕ → Sequence Id) (seqId : ℕ) :
    ∃ checkpoint, survivors.foldl
      (fun seqs survivor => Function.update seqs survivor
        { seqs survivor with decodeProgressCheckpoint := (seqs survivor).numCompletionTokens })
      seqs seqId = { seqs seqId with decodeProgressCheckpoint := checkpoint } := by
  induction survivors generalizing seqs with
  | nil => exact ⟨_, rfl⟩
  | cons survivor others ih =>
      obtain ⟨checkpoint, hfold⟩ := ih (Function.update seqs survivor
        { seqs survivor with decodeProgressCheckpoint := (seqs survivor).numCompletionTokens })
      refine ⟨checkpoint, ?_⟩
      rw [List.foldl_cons, hfold, Function.update_apply]
      split
      · next heq => rw [heq]
      · rfl

/-- The victim starts over. -/
theorem resetVictim_evicted (hready : Ready start) (hkept : Kept ledger start [] scheduler)
    (hvictim : victim ∈ start.decoding) (hdrained : scheduler.asyncInflight = 0) :
    ∃ next, resetVictim victim scheduler = (.ok (), next) ∧ next.decoding = scheduler.decoding ∧
      Evicted ledger start victim next := by
  have hinflight := hkept.inflight_eq.symm.trans hdrained
  have hdecoding := (hready.decoding victim hvictim).rescheduled (hkept.moves victim)
  obtain ⟨_, _, _, hpending, _⟩ := Sequence.history_eq_iff.mp (hkept.moves victim).history_eq
  have hpending0 := hpending.trans (hready.drained hinflight victim hvictim)
  have hcompletion : 0 < (scheduler.seq victim).numCompletionTokens := by
    have houtput := hdecoding.output_pos
    omega
  -- the victim waits, then its replay starts
  have hwaiting : (scheduler.seq victim).Rescheduled
      { scheduler.seq victim with status := .waiting } := .of_fields rfl rfl rfl (.inl rfl)
  obtain ⟨replay, hreplay, hrestarted, hchunk⟩ := Sequence.startRecomputeReplay_of_decoding
    (hdecoding.rescheduled hwaiting) hpending0
  have hset := seq_setSeq victim victim (fun seq => { seq with status := .waiting }) scheduler
  rw [if_pos rfl] at hset
  have hrun : ∃ next, resetVictim victim scheduler = (.ok (), next) ∧
      next.decoding = scheduler.decoding ∧ next.world.env = scheduler.world.env ∧
      next.asyncInflight = scheduler.asyncInflight ∧ ∀ seqId, ∃ checkpoint, next.seq seqId =
        { (if seqId = victim then replay else scheduler.seq seqId) with
          decodeProgressCheckpoint := checkpoint } := by
    unfold resetVictim
    rw [set_apply]
    dsimp only
    rw [get_apply]
    rw [hset, bind_apply, if_pos (show 0 < ({ scheduler.seq victim with
      status := .waiting } : Sequence Id).numCompletionTokens from hcompletion)]
    rw [bind_apply, ofExcept_apply, hreplay]
    dsimp only
    rw [set_apply]
    rw [write_apply]
    dsimp only
    rw [write_apply]
    refine ⟨_, rfl, rfl, rfl, rfl, fun seqId => ?_⟩
    obtain ⟨checkpoint, hfold⟩ := checkpoint_survivors scheduler.decoding
      (setSeq victim (fun _ => replay) (setSeq victim (fun seq => { seq with status := .waiting })
        scheduler)).world.seqs seqId
    refine ⟨checkpoint, hfold.trans ?_⟩
    have hseq : (setSeq victim (fun _ => replay) (setSeq victim
        (fun seq => { seq with status := .waiting }) scheduler)).world.seqs seqId =
        if seqId = victim then replay else scheduler.seq seqId := by
      refine (seq_setSeq victim seqId _ _).trans ?_
      split
      · rfl
      · next hne => exact (seq_setSeq victim seqId _ _).trans (if_neg hne)
    rw [hseq]
  obtain ⟨next, hnext, hqueue, henv, hsteps, hseqs⟩ := hrun
  have hcheckpoint : ∀ (seq : Sequence Id) (checkpoint : ℤ),
      seq.Rescheduled { seq with decodeProgressCheckpoint := checkpoint } :=
    fun seq checkpoint => .of_fields rfl rfl rfl (.inl rfl)
  refine ⟨next, hnext, hqueue, fun seqId hne => ?_, ?_, fun seqId hnot => ?_,
    hsteps.trans hkept.inflight_eq, hkept.logged.of_ledger (congrArg ledger henv)⟩
  · obtain ⟨checkpoint, hseq⟩ := hseqs seqId
    rw [if_neg hne] at hseq
    rw [hseq]
    exact (hkept.moves seqId).trans (hcheckpoint _ _)
  · obtain ⟨checkpoint, hseq⟩ := hseqs victim
    rw [if_pos rfl] at hseq
    rw [hseq]
    refine Sequence.Restarted.trans ?_ (hcheckpoint _ _)
    have hmove := (hkept.moves victim).trans hwaiting
    exact ⟨hrestarted.history_eq.trans hmove.history_eq,
      fun hwell => hrestarted.wellformed (hmove.wellformed hwell), hready.decoding victim hvictim,
      hrestarted.cursor_eq, hrestarted.prefilled_eq⟩
  · obtain ⟨checkpoint, hseq⟩ := hseqs seqId
    rw [hseq]
    by_cases heq : seqId = victim
    · rw [if_pos heq]
      exact .inr hchunk
    · rw [if_neg heq]
      exact hkept.leftover seqId hnot

/-- The queue takes back sequences that decode. -/
theorem Kept.requeued {batch queue : List ℕ} (h : Kept ledger start batch scheduler) (hsub : queue ⊆ start.decoding) :
    Settled ledger start [] { scheduler with decoding := queue } where
  moves _ _ := h.moves _
  restarted _ hmem := absurd hmem List.not_mem_nil
  waits _ hmem := absurd hmem List.not_mem_nil
  evicted _ hmem := absurd hmem List.not_mem_nil
  queued _ hmem := ⟨hsub hmem, List.not_mem_nil⟩
  inflight_eq := h.inflight_eq
  logged := h.logged

/-- **Preemption.** Only the victim starts over, and it is the one that
waits. -/
theorem preemptDecodeVictim_scheduled (h : Tame ledger oracle callbacks) (hready : Ready start)
    (hkept : Kept ledger start [] scheduler) {scheduledSeqs : List ℕ}
    (hvictim : victim ∈ start.decoding) (hsub : scheduledSeqs ⊆ start.decoding)
    (hdistinct : victim ∉ scheduledSeqs ++ scheduler.decoding) :
    wpe (preemptDecodeVictim config oracle callbacks victim scheduledSeqs [])
      (Scheduled ledger start) (Halted ledger start) scheduler := by
  have hback : scheduledSeqs ++ victim :: scheduler.decoding ⊆ start.decoding :=
    List.append_subset.mpr ⟨hsub, List.cons_subset.mpr ⟨hvictim, hkept.subset⟩⟩
  unfold preemptDecodeVictim
  rw [wpe_get, wpe_ite]
  refine ⟨fun _ => ?_, fun hinflight => ?_⟩
  · rw [wpe_set, wpe_raise]
    exact ⟨[], hkept.requeued hback⟩
  rw [not_not] at hinflight
  dsimp only
  rw [wpe_ite]
  refine ⟨fun _ => ?_, fun _ => ?_⟩
  · rw [wpe_set, wpe_raise]
    exact ⟨[], hkept.requeued hback⟩
  rw [wpe_bind]
  have hdebug : Preserves (rest ledger) (whenDo (config.debugSlots = true) (do
      let _ ← call oracle.numFreeSlots) : Routine (Scheduler Id Env) Unit) :=
    .whenDo ((untouched h.numFreeSlots).bind fun _ => .pure _)
  refine hkept.wpe hdebug fun _ s1 hs1 hkept1 => ?_
  have hinflight1 : s1.asyncInflight = 0 := (congrArg (·.2.2.1) hs1).trans hinflight
  have hdecoding1 := decoding_of_rest hs1
  obtain ⟨s2, hreset, hdecoding2, hevicted⟩ :=
    resetVictim_evicted hready hkept1 hvictim hinflight1
  rw [wpe_bind, wpe_of_ok hreset, wpe_bind]
  refine wpe_returns (h.clear_returns victim) fun _ => ?_
  have hcleared := hevicted.refreshed (h.clearPrefixCacheHit victim)
  rw [wpe_bind]
  refine wpe_returns (h.reset_returns victim) fun _ => ?_
  have hforgotten := hcleared.of_rest (untouched (h.resetPrefillExecutionState victim) _)
  rw [wpe_bind]
  refine wpe_returns h.monotonic_returns fun now => ?_
  have hstamped := hforgotten.of_rest (untouched h.monotonic _)
  rw [wpe_set]
  -- the victim waits, the others are back in the queue
  have hsettled : ∀ last : Scheduler Id Env, Evicted ledger start victim last →
      last.decoding = scheduledSeqs ++ scheduler.decoding → victim ∈ last.waiting →
      Settled ledger start [victim] last := by
    intro last hlast hdecoding hwaits
    refine ⟨fun seqId hnot => ?_, fun seqId hmem => ?_, fun seqId hmem => ?_, fun seqId hmem => ?_,
      fun seqId hmem => ?_, hlast.inflight_eq, hlast.logged⟩
    · exact hlast.moves seqId fun heq => hnot (List.mem_singleton.mpr heq)
    · rw [List.mem_singleton] at hmem
      exact hmem ▸ hlast.restarted
    · rw [List.mem_singleton] at hmem
      exact hmem ▸ hwaits
    · rw [List.mem_singleton] at hmem
      exact hmem ▸ hvictim
    · rw [hdecoding] at hmem
      refine ⟨List.append_subset.mpr ⟨hsub, hkept.subset⟩ hmem, fun heq => ?_⟩
      rw [List.mem_singleton] at heq
      exact hdistinct (heq ▸ hmem)
  generalize hlast : ({ (call callbacks.monotonic _).2 with
    prefillWaitSince := _, waiting := _, decoding := _, totalPreemptions := _ } :
      Scheduler Id Env) = last
  have hevictedLast : Evicted ledger start victim last := by
    subst hlast
    exact ⟨hstamped.moves, hstamped.restarted, hstamped.leftover, hstamped.inflight_eq, hstamped.logged⟩
  have hdecodingLast : last.decoding = scheduledSeqs ++ scheduler.decoding := by
    subst hlast
    show scheduledSeqs ++ s2.decoding = _
    rw [hdecoding2, hdecoding1]
  have hwaitsLast : victim ∈ last.waiting := by
    subst hlast
    exact List.mem_append_right _ (List.mem_singleton_self victim)
  clear hlast
  rw [wpe_bind]
  have hqueues := preserves_call oracle.freeSlotStats last
  have hsame : ∀ next : Scheduler Id Env, next.rest ledger = last.rest ledger →
      next.queues = last.queues → Settled ledger start [victim] next ∧ Leftover start [] next := by
    intro next hnext hqueue
    have hevictedNext := hevictedLast.of_rest hnext
    refine ⟨hsettled next hevictedNext ((decoding_of_rest hnext).trans hdecodingLast) ?_, hevictedNext.leftover⟩
    have hwaiting : next.waiting = last.waiting := congrArg Prod.fst hqueue
    rw [hwaiting]
    exact hwaitsLast
  obtain ⟨hsettledNext, hleftoverNext⟩ := hsame _ (untouched h.freeSlotStats last) hqueues
  rw [wpe_def]
  rcases (call oracle.freeSlotStats last).1 with error | _
  · exact ⟨[victim], hsettledNext⟩
  · exact ⟨hsettledNext, fun hprefill => absurd hprefill Bool.false_ne_true, hleftoverNext,
      fun _ _ hmem => absurd hmem List.not_mem_nil⟩

/-! ## The decode scan -/

/-- What the decode scan keeps. -/
structure Picking (ledger : Env → List (Sequence Id)) (start : Scheduler Id Env)
    (scan : DecodeScan) (scheduler : Scheduler Id Env) : Prop where
  kept : Kept ledger start [] scheduler
  subset : scan.scheduledSeqs ⊆ start.decoding
  nodup : (scan.scheduledSeqs ++ scheduler.decoding).Nodup
  blocked : ∀ victim, scan.blockedDecodeVictim = some victim → victim ∈ start.decoding
  unspent : ∀ seqId ∈ scan.scheduledSeqs, (start.seq seqId).Unspent

/-- The head of the queue has been popped. -/
structure Popped (ledger : Env → List (Sequence Id)) (start : Scheduler Id Env)
    (scan : DecodeScan) (seqId : ℕ) (scheduler : Scheduler Id Env) : Prop where
  picking : Picking ledger start scan scheduler
  mem : seqId ∈ start.decoding
  distinct : seqId ∉ scan.scheduledSeqs ++ scheduler.decoding

variable {scan : DecodeScan} {seqId : ℕ}

theorem Picking.pop {others : List ℕ} (h : Picking ledger start scan scheduler)
    (hdecoding : scheduler.decoding = seqId :: others) :
    Popped ledger start scan seqId { scheduler with decoding := others } := by
  have hsub := h.kept.subset
  have hqueue := h.kept.nodup
  have hnodup := h.nodup
  rw [hdecoding] at hsub hqueue hnodup
  rw [List.cons_subset] at hsub
  rw [List.nodup_middle, List.nodup_cons] at hnodup
  refine ⟨⟨⟨h.kept.moves, h.kept.leftover, hsub.2, hqueue.of_cons, h.kept.inflight_eq,
    h.kept.logged⟩, h.subset, hnodup.2, h.blocked, h.unspent⟩, hsub.1, hnodup.1⟩

theorem Popped.of_rest (h : Popped ledger start scan seqId scheduler)
    (hrest : next.rest ledger = scheduler.rest ledger) : Popped ledger start scan seqId next := by
  have hdecoding := decoding_of_rest hrest
  refine ⟨⟨h.picking.kept.of_rest hrest, h.picking.subset, ?_, h.picking.blocked, h.picking.unspent⟩, h.mem, ?_⟩
  · rw [hdecoding]
    exact h.picking.nodup
  · rw [hdecoding]
    exact h.distinct

/-- The popped sequence goes to the end of the queue. -/
theorem Popped.rotate (h : Popped ledger start scan seqId scheduler) {blocked : Option ℕ}
    (hblocked : blocked = scan.blockedDecodeVictim ∨ blocked = scan.blockedDecodeVictim.or (some seqId)) :
    Picking ledger start { scan with blockedDecodeVictim := blocked }
      { scheduler with decoding := scheduler.decoding ++ [seqId] } := by
  have hkept := h.picking.kept
  have hdistinct := h.distinct
  rw [List.mem_append, not_or] at hdistinct
  refine ⟨⟨hkept.moves, hkept.leftover, ?_, ?_, hkept.inflight_eq, hkept.logged⟩,
    h.picking.subset, ?_, fun victim hvictim => ?_, h.picking.unspent⟩
  · exact List.append_subset.mpr ⟨hkept.subset, List.cons_subset.mpr ⟨h.mem, List.nil_subset _⟩⟩
  · exact List.nodup_append_comm.mp (List.nodup_cons.mpr ⟨hdistinct.2, hkept.nodup⟩)
  · rw [← List.append_assoc]
    exact List.nodup_append_comm.mp (List.nodup_cons.mpr ⟨h.distinct, h.picking.nodup⟩)
  · dsimp only at hvictim
    rcases hblocked with rfl | rfl
    · exact h.picking.blocked victim hvictim
    · rcases Option.or_eq_some_iff.mp hvictim with hold | ⟨_, hnew⟩
      · exact h.picking.blocked victim hold
      · exact Option.some.inj hnew ▸ h.mem

/-- The popped sequence joins the batch. -/
theorem Popped.take (h : Popped ledger start scan seqId scheduler)
    (hunspent : (scheduler.seq seqId).Unspent) (free count : ℤ) :
    Picking ledger start { scan with
      decodeLogicalFreeCount := free
      numBatchedSeqs := count
      scheduledSeqs := scan.scheduledSeqs ++ [seqId] } scheduler := by
  refine ⟨h.picking.kept, ?_, ?_, h.picking.blocked, fun other hmem => ?_⟩
  · exact List.append_subset.mpr ⟨h.picking.subset, List.cons_subset.mpr ⟨h.mem, List.nil_subset _⟩⟩
  · dsimp only
    rw [List.append_assoc, List.singleton_append, List.nodup_middle]
    exact List.nodup_cons.mpr ⟨h.distinct, h.picking.nodup⟩
  · rcases List.mem_append.mp hmem with hold | hnew
    · exact h.picking.unspent other hold
    · obtain rfl := List.mem_singleton.mp hnew
      exact hunspent.congr (h.picking.kept.moves other).history_eq.symm

theorem decodeLoop_picking (h : Tame ledger oracle callbacks) (hready : Ready start)
    (budget : ℕ) (scan : DecodeScan) (hpicking : Picking ledger start scan scheduler) :
    wpe (decodeLoop config oracle callbacks budget scan)
      (fun found next =>
        match found with
        | .inl result => Scheduled ledger start result next
        | .inr scan => Picking ledger start scan next)
      (Halted ledger start) scheduler := by
  induction budget generalizing scan scheduler with
  | zero => exact hpicking
  | succ budget ih =>
      unfold decodeLoop
      rw [wpe_get]
      cases hdecoding : scheduler.decoding with
      | nil => exact hpicking
      | cons seqId others =>
          dsimp only
          rw [wpe_ite]
          refine ⟨fun _ => hpicking, fun _ => ?_⟩
          rw [wpe_set, wpe_get]
          have hpopped := hpicking.pop hdecoding
          generalize ({ scheduler with decoding := others } : Scheduler Id Env) = s1 at hpopped ⊢
          rw [wpe_ite]
          refine ⟨fun _ => ?_, fun hspent => ?_⟩
          · rw [wpe_set]
            exact ih scan (hpopped.rotate (.inl rfl))
          rw [wpe_bind]
          refine (untouched (h.decodeStepFreeSlotsFor seqId)).wpe (fun seqFree s2 hs2 => ?_)
            fun next hnext => (hpopped.of_rest hnext).picking.kept.halted
          rw [wpe_bind]
          refine (untouched (h.decodeStepReservationCost seqId)).wpe (fun cost s3 hs3 => ?_)
            fun next hnext => (hpopped.of_rest (hnext.trans hs2)).picking.kept.halted
          have hpopped3 := hpopped.of_rest (hs3.trans hs2)
          rw [wpe_ite, wpe_ite, wpe_ite]
          refine ⟨fun _ => ⟨fun _ => ?_, fun _ => ⟨fun _ => ?_, fun _ => ?_⟩⟩, fun _ => ?_⟩
          · rw [wpe_set]
            exact ih _ (hpopped3.rotate (.inr rfl))
          · rw [wpe_set, wpe_pure]
            exact hpopped3.rotate (.inr rfl)
          · exact wpe_then (preemptDecodeVictim_scheduled h hready hpopped3.picking.kept
              hpopped3.mem hpopped3.picking.subset hpopped3.distinct) fun result next hnext => hnext
          · have hunspent : (s1.seq seqId).Unspent := Int.not_le.mp hspent
            rw [← seq_of_rest (hs3.trans hs2)] at hunspent
            exact ih _ (hpopped3.take hunspent _ _)

/-- The batch goes back to the front of the queue. -/
theorem returnDecodeBatch_scheduled (hpicking : Picking ledger start scan scheduler) :
    wpe (returnDecodeBatch scan : Routine (Scheduler Id Env) ScheduleResult)
      (Scheduled ledger start) (Halted ledger start) scheduler := by
  have hall : scan.scheduledSeqs ++ scheduler.decoding ⊆ start.decoding :=
    List.append_subset.mpr ⟨hpicking.subset, hpicking.kept.subset⟩
  have hfront : frontDecoding scan scheduler.decoding ⊆ start.decoding := by
    unfold frontDecoding
    cases hblocked : scan.blockedDecodeVictim with
    | none => exact hall
    | some victim =>
        refine List.cons_subset.mpr ⟨hpicking.blocked victim hblocked, ?_⟩
        exact List.Subset.trans List.erase_subset hall
  unfold returnDecodeBatch
  rw [wpe_set, wpe_pure]
  exact ⟨hpicking.kept.requeued hfront, fun hprefill => absurd hprefill Bool.false_ne_true,
    hpicking.kept.leftover, fun _ => hpicking.unspent⟩

/-- The victim is taken out of the queue. -/
theorem Kept.erased (h : Kept ledger start [] scheduler) (victim : ℕ) :
    Kept ledger start [] { scheduler with decoding := scheduler.decoding.erase victim } :=
  ⟨h.moves, h.leftover, List.Subset.trans List.erase_subset h.subset, h.nodup.erase victim, h.inflight_eq, h.logged⟩

/-- The victim is taken out of the queue and preempted. -/
theorem preemptQueued_scheduled (h : Tame ledger oracle callbacks) (hready : Ready start)
    (hkept : Kept ledger start [] scheduler) (hvictim : victim ∈ start.decoding) :
    wpe (preemptDecodeVictim config oracle callbacks victim [] []) (Scheduled ledger start) (Halted ledger start)
      { scheduler with decoding := scheduler.decoding.erase victim } := by
  refine preemptDecodeVictim_scheduled h hready (hkept.erased victim) hvictim (List.nil_subset _) ?_
  exact hkept.nodup.not_mem_erase

/-- **The decode phase.** It retries only when it has preempted nothing. -/
theorem decodePhase_scheduled (h : Tame ledger oracle callbacks) (hready : Ready start)
    (retry : Option (Routine (Scheduler Id Env) ScheduleResult))
    (hretry : ∀ again ∈ retry, ∀ scheduler, Kept ledger start [] scheduler →
      wpe again (Scheduled ledger start) (Halted ledger start) scheduler)
    (prefill : PrefillScan Resource) (decodeLogicalFreeCount : ℤ) (hkept : Kept ledger start [] scheduler) :
    wpe (decodePhase config oracle callbacks retry prefill decodeLogicalFreeCount)
      (Scheduled ledger start) (Halted ledger start) scheduler := by
  unfold decodePhase
  rw [wpe_set, wpe_get, wpe_bind]
  have hpicking : Picking ledger start { decodeLogicalFreeCount := decodeLogicalFreeCount }
      { scheduler with phaseReason :=
          if scheduler.waiting = [] then "no_prefill" else "prefill_unavailable" } :=
    ⟨hkept.of_rest rfl, List.nil_subset _, hkept.nodup, fun _ hvictim => absurd hvictim.symm (Option.some_ne_none _),
      fun _ hmem => absurd hmem List.not_mem_nil⟩
  refine wpe_mono (decodeLoop_picking h hready _ _ hpicking) fun found s1 hs1 => ?_
  match found with
  | .inl result => exact hs1
  | .inr scan =>
      dsimp only at hs1 ⊢
      rw [wpe_ite]
      refine ⟨fun _ => returnDecodeBatch_scheduled hs1, fun _ => ?_⟩
      cases hblocked : scan.blockedDecodeVictim with
      | some victim =>
          dsimp only
          rw [wpe_set]
          exact preemptQueued_scheduled h hready hs1.kept (hs1.blocked victim hblocked)
      | none =>
          dsimp only
          rw [wpe_bind]
          refine hs1.kept.wpe (rest_reclaimPrefill h _ prefill) fun again s2 _ hkept2 => ?_
          have hidle : wpe (do
              raiseBlocked config oracle prefill
              return ⟨[], false, []⟩) (Scheduled ledger start) (Halted ledger start) s2 := by
            rw [wpe_bind]
            refine hkept2.wpe (rest_raiseBlocked h prefill) fun _ s3 _ hkept3 => ?_
            exact ⟨hkept3.settled, fun hprefill => absurd hprefill Bool.false_ne_true,
              hkept3.leftover, fun _ _ hmem => absurd hmem List.not_mem_nil⟩
          cases again with
          | false => exact hidle
          | true =>
              cases retry with
              | none => exact hidle
              | some retry => exact hretry retry rfl s2 hkept2

/-! ## `schedule` -/

/-- The decode affinity test picks only sequences that may have another
output. -/
theorem eligibleLoop_unspent (h : Tame ledger oracle callbacks) (seqIds : List ℕ) (free : ℤ)
    (batch : List ℕ) (hbatch : ∀ seqId ∈ batch, (scheduler.seq seqId).Unspent) :
    wpe (eligibleLoop config oracle seqIds free batch)
      (fun found next => next.rest ledger = scheduler.rest ledger ∧ ∀ seqId ∈ found, (scheduler.seq seqId).Unspent)
      (fun next => next.rest ledger = scheduler.rest ledger) scheduler := by
  suffices hloop : ∀ next : Scheduler Id Env, next.rest ledger = scheduler.rest ledger →
      wpe (eligibleLoop config oracle seqIds free batch)
        (fun found next => next.rest ledger = scheduler.rest ledger ∧ ∀ seqId ∈ found, (scheduler.seq seqId).Unspent)
        (fun next => next.rest ledger = scheduler.rest ledger) next from hloop scheduler rfl
  induction seqIds generalizing free batch with
  | nil => exact fun _ hnext => ⟨hnext, hbatch⟩
  | cons seqId others ih =>
      intro next hnext
      unfold eligibleLoop
      rw [wpe_get, wpe_ite]
      refine ⟨fun _ => ih free batch hbatch next hnext, fun hspent => ?_⟩
      have hunspent : (next.seq seqId).Unspent := Int.not_le.mp hspent
      rw [seq_of_rest hnext] at hunspent
      have hlonger : ∀ other ∈ batch ++ [seqId], (scheduler.seq other).Unspent := by
        intro other hmem
        rcases List.mem_append.mp hmem with hold | hnew
        · exact hbatch other hold
        · obtain rfl := List.mem_singleton.mp hnew
          exact hunspent
      rw [wpe_bind]
      refine (untouched (h.decodeStepReservationCost seqId)).wpe (fun cost s1 hs1 => ?_)
        fun last hlast => hlast.trans hnext
      rw [wpe_bind]
      refine (untouched (h.decodeStepFreeSlotsFor seqId)).wpe (fun seqFree s2 hs2 => ?_)
        fun last hlast => hlast.trans (hs1.trans hnext)
      have hrest := hs2.trans (hs1.trans hnext)
      rw [wpe_ite, wpe_ite, wpe_ite]
      exact ⟨fun _ => ⟨fun _ => ⟨hrest, hbatch⟩, fun _ => ih free batch hbatch s2 hrest⟩,
        fun _ => ⟨fun _ => ⟨hrest, hlonger⟩, fun _ => ih _ _ hlonger s2 hrest⟩⟩

theorem decodeAffinity_unspent (h : Tame ledger oracle callbacks) (failure : Option ℕ) :
    wpe (decodeAffinity config oracle callbacks failure)
      (fun chosen next => next.rest ledger = scheduler.rest ledger ∧
        ∀ batch, chosen.1 = some batch → ∀ seqId ∈ batch, (scheduler.seq seqId).Unspent)
      (fun next => next.rest ledger = scheduler.rest ledger) scheduler := by
  have hnone : ∀ (overdue : Bool) (next : Scheduler Id Env),
      next.rest ledger = scheduler.rest ledger → next.rest ledger = scheduler.rest ledger ∧
        ∀ batch : List ℕ, ((none, overdue) : Option (List ℕ) × Bool).1 = some batch →
          ∀ seqId ∈ batch, (scheduler.seq seqId).Unspent :=
    fun _ _ hnext => ⟨hnext, fun _ hbatch => nomatch hbatch⟩
  unfold decodeAffinity
  rw [wpe_set, wpe_ite]
  refine ⟨fun _ => hnone _ _ rfl, fun _ => ?_⟩
  rw [wpe_get, wpe_bind]
  refine (rest_anyOverdue h _).wpe (fun overdue s1 hs1 => ?_) fun _ hnext => hnext
  rw [wpe_set, wpe_get, wpe_ite]
  refine ⟨fun _ => ?_, fun _ => hnone _ _ hs1⟩
  rw [wpe_bind]
  unfold eligibleDecodeBatch
  rw [wpe_get, wpe_ite]
  refine ⟨fun _ => ?_, fun _ => ?_⟩
  · rw [wpe_pure, wpe_get, wpe_ite]
    exact ⟨fun hbatch => absurd rfl hbatch.1, fun _ => hnone _ _ hs1⟩
  · rw [wpe_bind]
    refine (untouched h.decodeStepFreeSlots).wpe (fun free s2 hs2 => ?_) fun next hnext => hnext.trans hs1
    have hrest2 : s2.rest ledger = scheduler.rest ledger := hs2.trans hs1
    rw [wpe_get]
    refine wpe_imp (eligibleLoop_unspent h s2.decoding (max 0 free) []
      fun _ hmem => absurd hmem List.not_mem_nil) (fun batch s3 hs3 => ?_)
      fun next hnext => hnext.trans hrest2
    obtain ⟨hrest3, hunspent⟩ := hs3
    rw [wpe_get, wpe_ite]
    refine ⟨fun _ => ?_, fun _ => hnone _ _ (hrest3.trans hrest2)⟩
    rw [wpe_set, wpe_pure]
    refine ⟨hrest3.trans hrest2, fun found hfound seqId hmem => ?_⟩
    obtain rfl := Option.some.inj hfound
    have hseq := hunspent seqId hmem
    rw [seq_of_rest hrest2] at hseq
    exact hseq

section

variable [DecidableEq Key] [DecidableEq Resource]

theorem removeDecoding_kept (hkept : Kept ledger start [] scheduler) (victim : ℕ)
    {post : Unit → Scheduler Id Env → Prop}
    (hpost : victim ∈ start.decoding → post () { scheduler with decoding := scheduler.decoding.erase victim }) :
    wpe (removeDecoding victim) post (Halted ledger start) scheduler := by
  unfold removeDecoding
  rw [wpe_get]
  refine wpe_guarded hkept.halted fun hmem => ?_
  rw [not_not] at hmem
  rw [wpe_write]
  exact hpost (hkept.subset hmem)

omit [DecidableEq Key] [DecidableEq Resource] in
theorem prefillCapacity_kept (h : Tame ledger oracle callbacks) (physicalFreeCount : ℤ)
    (hkept : Kept ledger start [] scheduler) :
    wpe (prefillCapacity config oracle physicalFreeCount)
      (fun found next => found.1.scheduledSeqs = [] ∧ Kept ledger start [] next)
      (Halted ledger start) scheduler := by
  unfold prefillCapacity reservedPrefillTokens
  rw [wpe_get, wpe_ite]
  refine ⟨fun _ => ⟨rfl, hkept⟩, fun _ => ?_⟩
  rw [wpe_bind]
  refine hkept.wpe (untouched (h.reservedPrefillSlots _)) fun _ s1 _ h1 => ?_
  rw [wpe_bind]
  refine h1.wpe (untouched h.promptAdmissionFreeSlots) fun _ s2 _ h2 => ?_
  rw [wpe_bind]
  refine h2.wpe (untouched h.prefillStepFreeSlots) fun _ s3 _ h3 => ?_
  rw [wpe_bind]
  refine h3.wpe (untouched (h.promptAdmissionBudgets _)) fun _ s4 _ h4 => ?_
  rw [wpe_bind]
  exact h4.wpe (untouched h.prefillBatchedTokensMargin) fun _ s5 _ h5 => ⟨rfl, h5⟩

/-- The pass after the decode windows are settled. -/
theorem afterReservation_scheduled (h : Tame ledger oracle callbacks) (hready : Ready start)
    (retry : Option (Routine (Scheduler Id Env) ScheduleResult))
    (hretry : ∀ again ∈ retry, ∀ scheduler, Kept ledger start [] scheduler →
      wpe again (Scheduled ledger start) (Halted ledger start) scheduler)
    (failure : Option ℕ) (hkept : Kept ledger start [] scheduler) :
    wpe (schedulePass.afterReservation config oracle callbacks retry failure)
      (Scheduled ledger start) (Halted ledger start) scheduler := by
  unfold schedulePass.afterReservation
  refine wpe_then_imp (decodeAffinity_unspent h failure) (fun chosen s1 hs1 => ?_)
    fun next hnext => (hkept.of_rest hnext).halted
  obtain ⟨hrest1, hunspent⟩ := hs1
  have hkept1 := hkept.of_rest hrest1
  obtain ⟨affinity, overdue⟩ := chosen
  cases affinity with
  | some batch =>
      exact ⟨hkept1.settled, fun hprefill => absurd hprefill Bool.false_ne_true, hkept1.leftover,
        fun _ seqId hmem => (hunspent batch rfl seqId hmem).congr (hkept.moves seqId).history_eq.symm⟩
  | none =>
      dsimp only
      rw [wpe_bind]
      refine hkept1.wpe (untouched h.numFreeSlots) fun physical s2 _ hkept2 => ?_
      refine wpe_then (prefillCapacity_kept h physical hkept2) fun found s3 hs3 => ?_
      obtain ⟨hscan, hkept3⟩ := hs3
      obtain ⟨scan, margin⟩ := found
      dsimp only
      rw [wpe_bind]
      refine hkept3.wpe (untouched h.decodeStepFreeSlots) fun decodeFree s4 _ hkept4 => ?_
      rw [wpe_bind]
      refine hkept4.wpe (Preserves.whenDo rest_sortWaiting) fun _ s5 _ hkept5 => ?_
      refine wpe_then (prefillPhase_choosing h hready.wellformed scan margin hscan hkept5) fun later s6 hs6 => ?_
      rw [wpe_ite]
      refine ⟨fun _ => ?_, fun hnone => ?_⟩
      · exact ⟨hs6.kept.settled, fun _ => hs6.chunked, hs6.kept.leftover,
          fun hdecode => absurd hdecode.symm Bool.false_ne_true⟩
      · rw [not_not] at hnone
        have hkept6 : Kept ledger start [] s6 := hnone ▸ hs6.kept
        cases failure with
        | none => exact decodePhase_scheduled h hready retry hretry later _ hkept6
        | some victim =>
            dsimp only
            rw [wpe_bind]
            refine removeDecoding_kept hkept6 victim fun hvictim => ?_
            exact preemptQueued_scheduled h hready hkept6 hvictim

theorem schedulePass_scheduled (h : Tame ledger oracle callbacks) (hready : Ready start)
    (retry : Option (Routine (Scheduler Id Env) ScheduleResult))
    (hretry : ∀ again ∈ retry, ∀ scheduler, Kept ledger start [] scheduler →
      wpe again (Scheduled ledger start) (Halted ledger start) scheduler)
    (hkept : Kept ledger start [] scheduler) :
    wpe (schedulePass config oracle callbacks retry) (Scheduled ledger start) (Halted ledger start) scheduler := by
  unfold schedulePass
  rw [wpe_bind]
  refine hkept.wpe (untouched h.reserveDecodeWindows) fun reserved s1 _ hkept1 => ?_
  rw [wpe_bind]
  refine hkept1.wpe (rest_reclaimDecode h reserved) fun failure s2 _ hkept2 => ?_
  cases failure with
  | none => exact afterReservation_scheduled h hready retry hretry none hkept2
  | some victim =>
      dsimp only
      rw [wpe_get, wpe_ite]
      refine ⟨fun _ => ?_, fun _ =>
        afterReservation_scheduled h hready retry hretry (some victim) hkept2⟩
      rw [wpe_bind]
      refine removeDecoding_kept hkept2 victim fun hvictim => ?_
      have herased := hkept2.nodup.not_mem_erase (a := victim)
      rw [wpe_bind]
      refine (hkept2.erased victim).wpe (untouched h.numFreeSlots) fun _ s3 hs3 hkept3 => ?_
      unfold reservedPrefillTokens
      rw [wpe_bind]
      refine hkept3.wpe (untouched (h.reservedPrefillSlots _)) fun _ s4 hs4 hkept4 => ?_
      refine preemptDecodeVictim_scheduled h hready hkept4 hvictim (List.nil_subset _) ?_
      rw [List.nil_append, decoding_of_rest (hs4.trans hs3)]
      exact herased

/-- A pass, and its retry. -/
theorem scheduleImpl_scheduled (h : Tame ledger oracle callbacks) (hready : Ready start)
    (allowPrefillReclaim : Bool) (hkept : Kept ledger start [] scheduler) :
    wpe (scheduleImpl config oracle callbacks allowPrefillReclaim)
      (Scheduled ledger start) (Halted ledger start) scheduler := by
  have hlast : ∀ scheduler : Scheduler Id Env, Kept ledger start [] scheduler →
      wpe (schedulePass config oracle callbacks none)
        (Scheduled ledger start) (Halted ledger start) scheduler := fun scheduler hkept =>
    schedulePass_scheduled h hready none (fun _ hmem => nomatch hmem) hkept
  cases allowPrefillReclaim with
  | false => exact hlast scheduler hkept
  | true =>
      refine schedulePass_scheduled h hready _ (fun again hmem scheduler hkept => ?_) hkept
      obtain rfl := Option.some.inj hmem
      exact hlast scheduler hkept

section

omit [DecidableEq Key] [DecidableEq Resource]

/-- The handler puts back what `schedule` popped, and only what still decodes
into the decoding queue. -/
theorem Halted.restored (h : Halted ledger start scheduler) (waitingBefore : List ℕ) :
    wpe (restoreOwned waitingBefore start.decoding : Routine (Scheduler Id Env) Unit)
      (fun _ next => Halted ledger start next) (Halted ledger start) scheduler := by
  obtain ⟨victims, hsettled⟩ := h
  unfold restoreOwned
  rw [wpe_write]
  refine ⟨victims, hsettled.moves, hsettled.restarted, fun seqId hmem => ?_, hsettled.evicted,
    fun seqId hmem => ?_, hsettled.inflight_eq, hsettled.logged⟩
  · exact List.mem_append_left _ (hsettled.waits seqId hmem)
  · rcases List.mem_append.mp hmem with hqueued | hpopped
    · exact hsettled.queued seqId hqueued
    · rw [List.mem_filter, decide_eq_true_eq] at hpopped
      obtain ⟨hbefore, howned, _⟩ := hpopped
      refine ⟨hbefore, fun hvictim => howned ?_⟩
      exact List.mem_append_left _ (hsettled.waits seqId hvictim)

theorem Settled.of_rest {victims : List ℕ} (h : Settled ledger start victims scheduler)
    (hrest : next.rest ledger = scheduler.rest ledger)
    (hwaiting : next.waiting = scheduler.waiting) : Settled ledger start victims next := by
  refine ⟨fun seqId hnot => ?_, fun seqId hmem => ?_, fun seqId hmem => ?_, h.evicted,
    fun seqId hmem => ?_, (congrArg (·.2.2.1) hrest).trans h.inflight_eq,
    h.logged.of_ledger (congrArg (·.2.2.2) hrest)⟩
  · rw [seq_of_rest hrest]
    exact h.moves seqId hnot
  · rw [seq_of_rest hrest]
    exact h.restarted seqId hmem
  · rw [hwaiting]
    exact h.waits seqId hmem
  · rw [decoding_of_rest hrest] at hmem
    exact h.queued seqId hmem

variable {result : ScheduleResult}

theorem Scheduled.of_rest (h : Scheduled ledger start result scheduler)
    (hrest : next.rest ledger = scheduler.rest ledger) (hwaiting : next.waiting = scheduler.waiting) :
    Scheduled ledger start result next := by
  refine ⟨h.settled.of_rest hrest hwaiting, fun hprefill seqId hmem => ?_, fun seqId hnot => ?_, h.unspent⟩
  · rw [seq_of_rest hrest]
    exact h.chunked hprefill seqId hmem
  · rw [seq_of_rest hrest]
    exact h.leftover seqId hnot

theorem Scheduled.recorded (h : Scheduled ledger start result scheduler) (now : ℚ) :
    Scheduled ledger start result (recordPhase now result scheduler) := by
  refine h.of_rest ?_ (congrArg Prod.fst (recordPhase_queues now result scheduler))
  unfold recordPhase
  split <;> rfl

end

/-- **A call of `schedule`**, whether it returns or raises. -/
theorem schedule_scheduled (h : Tame ledger oracle callbacks) (hready : Ready start) :
    wpe (schedule config oracle callbacks) (Scheduled ledger start) (Halted ledger start) start := by
  have hsnapshot := h.schedulerCapacitySnapshot
  unfold schedule
  rw [wpe_bind]
  refine hready.kept.wpe (untouched h.monotonic) fun now s1 hs1 hkept1 => ?_
  rw [wpe_set, wpe_get, wpe_bind]
  have hbefore : s1.decoding = start.decoding := decoding_of_rest hs1
  dsimp only
  apply wpe_onError
  -- the pass, inside the capacity snapshot when there is one
  suffices hpass : wpe (scheduleInSnapshot config oracle callbacks) (Scheduled ledger start)
      (Halted ledger start) { s1 with
        skippedPrefill := []
        prefillWaitSince := s1.waiting.foldl (fun since seqId => setdefault since seqId now)
          s1.prefillWaitSince } from
    wpe_imp hpass (fun result next hnext => Scheduled.recorded hnext now)
      fun next hnext => hbefore ▸ Halted.restored hnext _
  have hkept2 : Kept ledger start [] { s1 with
      skippedPrefill := []
      prefillWaitSince := s1.waiting.foldl (fun since seqId => setdefault since seqId now)
        s1.prefillWaitSince } := hkept1.of_rest rfl
  unfold scheduleInSnapshot
  cases hcapacity : oracle.schedulerCapacitySnapshot with
  | none => exact scheduleImpl_scheduled h hready true hkept2
  | some snapshot =>
      obtain ⟨enter, leave⟩ := snapshot
      obtain ⟨henter, hleave⟩ := hsnapshot (enter, leave) hcapacity
      dsimp only
      rw [wpe_bind]
      refine hkept2.wpe (untouched henter) fun _ s3 _ hkept3 => ?_
      rw [wpe_finallyDo]
      refine wpe_imp (scheduleImpl_scheduled h hready true hkept3) (fun result next hnext => ?_) fun next hnext => ?_
      · have hlast := hnext.of_rest (untouched hleave next) rfl
        rw [wpe_def]
        rcases (call leave next).1 with error | _
        · exact ⟨_, hlast.settled⟩
        · exact hlast
      · obtain ⟨victims, hsettled⟩ := hnext
        have hlast := hsettled.of_rest (untouched hleave next) rfl
        rw [wpe_def]
        rcases (call leave next).1 with error | _
        · exact ⟨victims, hlast⟩
        · exact ⟨victims, hlast⟩

end

end Scheduler
