import SparseEngine.Scheduler.Schedule

/-!
# The decode affinity test mirrors the decode scan

`_eligible_decode_batch` walks over the decoding queue without touching it, to
learn which batch the decode phase would run.  The decode phase pops and
rotates the same queue.  `Selects` describes the walk: one constructor for
each thing that can happen to a sequence, with the answers the oracle gave
about it.  The fast walk is a derivation of `Selects`
(`eligibleLoop_selects`), and by induction on a derivation the decode loop
takes the same batch (`decodeLoop_of_selects`).

Both walks must see the same oracle: `SteadyDecode` says that its answers
about decoding depend on the sequences and on its own state, and that asking
changes neither.
-/

namespace Scheduler

open Routine

variable {Id Env Key Resource : Type}

/-- The answer depends on the world only, and asking leaves the world as it
is. -/
def Steady {α : Type} (hook : Hook Id Env α) : Prop :=
  ∃ answer : World Id Env → Except PyError α,
    ∀ scheduler, hook scheduler = (answer scheduler.world, scheduler.world)

/-- The questions about decoding are steady. -/
structure SteadyDecode (oracle : MemoryOracle Id Env Key Resource) : Prop where
  freeSlots : Steady oracle.decodeStepFreeSlots
  freeSlotsFor : ∀ seqId, Steady (oracle.decodeStepFreeSlotsFor seqId)
  reservationCost : ∀ seqId, Steady (oracle.decodeStepReservationCost seqId)

/-- What a steady hook answers in one state it answers in every state of that
world. -/
theorem Steady.same {α : Type} {hook : Hook Id Env α} (hsteady : Steady hook)
    {scheduler : Scheduler Id Env} {a : α} (ha : (hook scheduler).1 = .ok a)
    {other : Scheduler Id Env} (hworld : other.world = scheduler.world) :
    call hook other = (.ok a, other) := by
  obtain ⟨answer, hanswer⟩ := hsteady
  rw [hanswer] at ha
  have hvalue : answer scheduler.world = .ok a := ha
  unfold Scheduler.call
  rw [hanswer, hworld, hvalue, ← hworld]

/-- Asking a steady hook changes nothing. -/
theorem Steady.run {α : Type} {hook : Hook Id Env α} (hsteady : Steady hook)
    (scheduler : Scheduler Id Env) : call hook scheduler = ((hook scheduler).1, scheduler) := by
  obtain ⟨answer, hanswer⟩ := hsteady
  unfold Scheduler.call
  rw [hanswer]

/-- The oracle's answers about a decoding sequence: what its step costs, and
what is free for it. -/
structure Answers (oracle : MemoryOracle Id Env Key Resource) (start : Scheduler Id Env)
    (seqId : ℕ) (cost seqFree : ℤ) : Prop where
  cost : (oracle.decodeStepReservationCost seqId start).1 = .ok cost
  seqFree : (oracle.decodeStepFreeSlotsFor seqId start).1 = .ok seqFree

/-- The sequence has, or will have, all the tokens it asked for. -/
abbrev Spent (scheduler : Scheduler Id Env) (seqId : ℕ) : Prop :=
  (scheduler.seq seqId).maxTokens ≤
    (scheduler.seq seqId).numCompletionTokens + (scheduler.seq seqId).numPendingOutputs

section

variable (config : SchedulerConfig) (oracle : MemoryOracle Id Env Key Resource)
  (start : Scheduler Id Env)

/-- The walk over a queue with `free` slots left and `batch` taken selects
`result`. -/
inductive Selects : List ℕ → ℤ → List ℕ → List ℕ → Prop
  | finished (free : ℤ) (batch : List ℕ) : Selects [] free batch batch
  | spent {seqId : ℕ} {rest : List ℕ} {free : ℤ} {batch result : List ℕ} :
      Spent start seqId → Selects rest free batch result →
      Selects (seqId :: rest) free batch result
  | exhausted {seqId : ℕ} {rest : List ℕ} {free : ℤ} {batch : List ℕ} {cost seqFree : ℤ} :
      ¬ Spent start seqId → Answers oracle start seqId cost seqFree → min free seqFree < cost →
      free ≤ 0 → Selects (seqId :: rest) free batch batch
  | blocked {seqId : ℕ} {rest : List ℕ} {free : ℤ} {batch result : List ℕ} {cost seqFree : ℤ} :
      ¬ Spent start seqId → Answers oracle start seqId cost seqFree → min free seqFree < cost →
      0 < free → Selects rest free batch result → Selects (seqId :: rest) free batch result
  | filled {seqId : ℕ} {rest : List ℕ} {free : ℤ} {batch : List ℕ} {cost seqFree : ℤ} :
      ¬ Spent start seqId → Answers oracle start seqId cost seqFree → cost ≤ min free seqFree →
      (batch.length : ℤ) + 1 = config.maxDecodingSeqs →
      Selects (seqId :: rest) free batch (batch ++ [seqId])
  | taken {seqId : ℕ} {rest : List ℕ} {free : ℤ} {batch result : List ℕ} {cost seqFree : ℤ} :
      ¬ Spent start seqId → Answers oracle start seqId cost seqFree → cost ≤ min free seqFree →
      (batch.length : ℤ) + 1 ≠ config.maxDecodingSeqs →
      Selects rest (free - cost) (batch ++ [seqId]) result →
      Selects (seqId :: rest) free batch result

end

section

variable {config : SchedulerConfig} {oracle : MemoryOracle Id Env Key Resource}
  {start : Scheduler Id Env} {queue batch result : List ℕ} {free : ℤ}

/-! ## The walk of the affinity test -/

/-- **The walk over the untouched queue** is a derivation. -/
theorem eligibleLoop_selects (hsteady : SteadyDecode oracle) {scheduler : Scheduler Id Env}
    (hworld : scheduler.world = start.world)
    (hrun : (eligibleLoop config oracle queue free batch scheduler).1 = .ok result) :
    Selects config oracle start queue free batch result := by
  induction queue generalizing free batch with
  | nil =>
      obtain rfl := Except.ok.inj hrun
      exact Selects.finished free batch
  | cons seqId rest ih =>
      -- the calls of the loop leave the sequences alone:
      have hseq : scheduler.seq seqId = start.seq seqId := by
        unfold seq
        rw [hworld]
      rw [eligibleLoop, get_apply] at hrun
      rw [branch_apply, hseq] at hrun
      by_cases hspent : Spent start seqId
      · rw [if_pos hspent] at hrun
        exact Selects.spent hspent (ih hrun)
      · rw [if_neg hspent, bind_apply, (hsteady.reservationCost seqId).run] at hrun
        rcases hcost : (oracle.decodeStepReservationCost seqId scheduler).1 with error | cost
        · rw [hcost] at hrun
          cases hrun
        rw [hcost] at hrun
        dsimp only at hrun
        rw [bind_apply, (hsteady.freeSlotsFor seqId).run] at hrun
        rcases hfree : (oracle.decodeStepFreeSlotsFor seqId scheduler).1 with error | seqFree
        · rw [hfree] at hrun
          cases hrun
        rw [hfree] at hrun
        dsimp only at hrun
        -- a steady oracle answers here as it did at the start:
        have hanswers : Answers oracle start seqId cost seqFree := by
          obtain ⟨costs, hcosts⟩ := hsteady.reservationCost seqId
          obtain ⟨frees, hfrees⟩ := hsteady.freeSlotsFor seqId
          rw [hcosts, hworld] at hcost
          rw [hfrees, hworld] at hfree
          refine ⟨?_, ?_⟩
          · rw [hcosts]
            exact hcost
          · rw [hfrees]
            exact hfree
        rw [branch_apply, branch_apply, branch_apply] at hrun
        by_cases hshort : min free seqFree < cost
        · rw [if_pos hshort] at hrun
          by_cases hout : free ≤ 0
          · rw [if_pos hout] at hrun
            obtain rfl := Except.ok.inj hrun
            exact Selects.exhausted hspent hanswers hshort hout
          · rw [if_neg hout] at hrun
            exact Selects.blocked hspent hanswers hshort (not_le.mp hout) (ih hrun)
        · rw [if_neg hshort, List.length_append, List.length_singleton, Nat.cast_add, Nat.cast_one] at hrun
          by_cases hfull : (batch.length : ℤ) + 1 = config.maxDecodingSeqs
          · rw [if_pos hfull] at hrun
            obtain rfl := Except.ok.inj hrun
            exact Selects.filled hspent hanswers (not_lt.mp hshort) hfull
          · rw [if_neg hfull] at hrun
            exact Selects.taken hspent hanswers (not_lt.mp hshort) hfull (ih hrun)

/-- `_eligible_decode_batch` walks with what the oracle reports free. -/
theorem eligibleDecodeBatch_selects (hsteady : SteadyDecode oracle)
    (hfree : (oracle.decodeStepFreeSlots start).1 = .ok free)
    (hrun : (eligibleDecodeBatch config oracle start).1 = .ok result) :
    Selects config oracle start start.decoding (max 0 free) [] result := by
  unfold eligibleDecodeBatch at hrun
  rw [get_apply] at hrun
  rw [branch_apply] at hrun
  by_cases hidle : start.decoding = []
  · rw [if_pos hidle] at hrun
    obtain rfl := Except.ok.inj hrun
    rw [hidle]
    exact Selects.finished _ _
  · rw [if_neg hidle, bind_apply, hsteady.freeSlots.run, hfree] at hrun
    exact eligibleLoop_selects hsteady rfl hrun

/-! ## What is selected -/

/-- **The batch is within its budget**: no member costs more than is free for
it, and all of them together no more than is free. -/
theorem Selects.within (h : Selects config oracle start queue free batch result)
    (hfree : 0 ≤ free) : ∃ picked costs, result = batch ++ picked ∧
      List.Forall₂ (fun seqId cost => ∃ seqFree, Answers oracle start seqId cost seqFree ∧
        cost ≤ seqFree) picked costs ∧ costs.sum ≤ free := by
  induction h with
  | finished free batch => exact ⟨[], [], by simp, List.Forall₂.nil, hfree⟩
  | spent _ _ ih => exact ih hfree
  | exhausted => exact ⟨[], [], by simp, List.Forall₂.nil, hfree⟩
  | blocked _ _ _ _ _ ih => exact ih hfree
  | @filled seqId rest free batch cost seqFree _ hanswers hfits _ =>
      refine ⟨[seqId], [cost], rfl, ?_, ?_⟩
      · exact List.Forall₂.cons ⟨seqFree, hanswers, hfits.trans (min_le_right _ _)⟩ List.Forall₂.nil
      · rw [List.sum_singleton]
        exact hfits.trans (min_le_left _ _)
  | @taken seqId rest free batch result cost seqFree _ hanswers hfits _ _ ih =>
      have hleft : 0 ≤ free - cost := Int.sub_nonneg_of_le (hfits.trans (min_le_left _ _))
      obtain ⟨picked, costs, hresult, hpicked, hsum⟩ := ih hleft
      refine ⟨seqId :: picked, cost :: costs, by simp [hresult], ?_, ?_⟩
      · exact List.Forall₂.cons ⟨seqFree, hanswers, hfits.trans (min_le_right _ _)⟩ hpicked
      · rw [List.sum_cons]
        omega

end

/-! ## The decode scan -/

section

variable (config : SchedulerConfig) (oracle : MemoryOracle Id Env Key Resource)
  (callbacks : SchedulerCallbacks Id Env) {start : Scheduler Id Env}

/-- What a preemption would change. -/
def calm (scheduler : Scheduler Id Env) : World Id Env × List ℕ × ℤ :=
  (scheduler.world, scheduler.waiting, scheduler.totalPreemptions)

/-- No batch of decoding sequences. -/
def NoDecodeBatch (result : ScheduleResult) : Prop :=
  result.isPrefill = false → result.seqs = []

/-- A preemption returns no batch. -/
theorem preemptDecodeVictim_noDecodeBatch (victim : ℕ) (scheduledSeqs preempted : List ℕ)
    (scheduler : Scheduler Id Env) :
    wpe (preemptDecodeVictim config oracle callbacks victim scheduledSeqs preempted)
      (fun result _ => NoDecodeBatch result) (fun _ => True) scheduler := by
  unfold preemptDecodeVictim
  rw [wpe_get, wpe_ite]
  refine ⟨fun _ => trivial, fun _ => ?_⟩
  rw [wpe_ite]
  refine ⟨fun _ => trivial, fun _ => ?_⟩
  rw [wpe_bind]
  apply wpe_mono (wpe_true _ _)
  intro _ s1 _
  rw [wpe_bind]
  apply wpe_mono (wpe_true _ _)
  intro _ s2 _
  rw [wpe_bind]
  apply wpe_mono (wpe_true _ _)
  intro _ s3 _
  rw [wpe_bind]
  apply wpe_mono (wpe_true _ _)
  intro _ s4 _
  rw [wpe_bind]
  apply wpe_mono (wpe_true _ _)
  intro now s5 _
  rw [wpe_set, wpe_bind]
  apply wpe_mono (wpe_true _ _)
  intro _ s6 _ _
  rfl

/-- What the loop ends with when the walk selects `result`. -/
def Decoded (start : Scheduler Id Env) (result : List ℕ) :
    ScheduleResult ⊕ DecodeScan → Scheduler Id Env → Prop
  | .inl early, _ => NoDecodeBatch early ∧ result = []
  | .inr scan, next => scan.scheduledSeqs = result ∧ next.calm = start.calm

variable {config oracle}

section

variable {post : ScheduleResult ⊕ DecodeScan → Scheduler Id Env → Prop}
  {bad : Scheduler Id Env → Prop} {scan : DecodeScan} {scheduler : Scheduler Id Env} {seqId : ℕ}
  {rest : List ℕ}

/-- One turn of the loop on a sequence that has all its tokens: it goes to the
end. -/
theorem wpe_decodeLoop_spent (budget : ℕ) (hqueue : scheduler.decoding = seqId :: rest)
    (hroom : scan.numBatchedSeqs < config.maxDecodingSeqs) (hspent : Spent scheduler seqId) :
    wpe (decodeLoop config oracle callbacks (budget + 1) scan) post bad scheduler ↔
      wpe (decodeLoop config oracle callbacks budget scan) post bad
        { scheduler with decoding := rest ++ [seqId] } := by
  have hopen : ¬ config.maxDecodingSeqs ≤ scan.numBatchedSeqs := not_le.mpr hroom
  have hstill : Spent { scheduler with decoding := rest } seqId := hspent
  rw [decodeLoop, wpe_get, hqueue]
  dsimp only
  rw [if_neg hopen, wpe_set, wpe_get, if_pos hstill, wpe_set]

/-- One turn of the loop on any other sequence, with the answers of the
oracle. -/
theorem wpe_decodeLoop_answered (hsteady : SteadyDecode oracle) {cost seqFree : ℤ} (budget : ℕ)
    (hqueue : scheduler.decoding = seqId :: rest)
    (hroom : scan.numBatchedSeqs < config.maxDecodingSeqs) (hspent : ¬ Spent scheduler seqId)
    (hanswers : Answers oracle scheduler seqId cost seqFree) :
    wpe (decodeLoop config oracle callbacks (budget + 1) scan) post bad scheduler ↔
      if min scan.decodeLogicalFreeCount seqFree < cost then
        if 0 < scan.decodeLogicalFreeCount then
          wpe (decodeLoop config oracle callbacks budget { scan with
            blockedDecodeVictim := scan.blockedDecodeVictim.or (some seqId) }) post bad
            { scheduler with decoding := rest ++ [seqId] }
        else if scan.scheduledSeqs ≠ [] then
          post (.inr { scan with
            blockedDecodeVictim := scan.blockedDecodeVictim.or (some seqId) })
            { scheduler with decoding := rest ++ [seqId] }
        else
          wpe (preemptDecodeVictim config oracle callbacks seqId scan.scheduledSeqs [])
            (fun result => post (.inl result)) bad { scheduler with decoding := rest }
      else
        wpe (decodeLoop config oracle callbacks budget { scan with
          decodeLogicalFreeCount := scan.decodeLogicalFreeCount - cost
          numBatchedSeqs := scan.numBatchedSeqs + 1
          scheduledSeqs := scan.scheduledSeqs ++ [seqId] }) post bad
          { scheduler with decoding := rest } := by
  have hopen : ¬ config.maxDecodingSeqs ≤ scan.numBatchedSeqs := not_le.mpr hroom
  have hstill : ¬ Spent { scheduler with decoding := rest } seqId := hspent
  have hfree : call (oracle.decodeStepFreeSlotsFor seqId) { scheduler with decoding := rest } =
      (.ok seqFree, { scheduler with decoding := rest }) :=
    (hsteady.freeSlotsFor seqId).same hanswers.seqFree rfl
  have hcost : call (oracle.decodeStepReservationCost seqId) { scheduler with decoding := rest } =
      (.ok cost, { scheduler with decoding := rest }) :=
    (hsteady.reservationCost seqId).same hanswers.cost rfl
  rw [decodeLoop, wpe_get, hqueue]
  dsimp only
  rw [if_neg hopen, wpe_set, wpe_get, if_neg hstill, wpe_bind, wpe_of_ok hfree, wpe_bind, wpe_of_ok hcost]
  split_ifs
  · rw [wpe_set]
  · rw [wpe_set, wpe_pure]
  · rw [wpe_bind]
    rfl
  · rfl

end

/-- A full batch ends the loop. -/
theorem decodeLoop_full {scan : DecodeScan} {scheduler : Scheduler Id Env} (budget : ℕ)
    (hfull : config.maxDecodingSeqs ≤ scan.numBatchedSeqs) :
    decodeLoop config oracle callbacks budget scan scheduler = (.ok (.inr scan), scheduler) := by
  cases budget with
  | zero => rfl
  | succ budget =>
      rw [decodeLoop, get_apply]
      dsimp only
      cases scheduler.decoding with
      | nil => rfl
      | cons seqId rest =>
          dsimp only
          rw [if_pos hfull]
          rfl

/-- The answers of the oracle are the same in every state of one world. -/
theorem Answers.congr (hsteady : SteadyDecode oracle) {seqId : ℕ} {cost seqFree : ℤ}
    (h : Answers oracle start seqId cost seqFree) {scheduler : Scheduler Id Env}
    (hworld : scheduler.world = start.world) : Answers oracle scheduler seqId cost seqFree where
  cost := congrArg Prod.fst ((hsteady.reservationCost seqId).same h.cost hworld)
  seqFree := congrArg Prod.fst ((hsteady.freeSlotsFor seqId).same h.seqFree hworld)

theorem world_of_calm {scheduler : Scheduler Id Env} (hcalm : scheduler.calm = start.calm) :
    scheduler.world = start.world :=
  congrArg Prod.fst hcalm

/-- Whether a sequence has all its tokens is a matter of the world. -/
theorem spent_congr {scheduler : Scheduler Id Env} (hworld : scheduler.world = start.world)
    (seqId : ℕ) : Spent scheduler seqId ↔ Spent start seqId := by
  unfold Spent seq
  rw [hworld]

/-- **The decode loop takes what the walk selects.** The loop has the rest of
the walk's queue at the front of its own; what it rotated lies behind.  It
raises, or preempts, only where the walk selects nothing. -/
theorem decodeLoop_of_selects (hsteady : SteadyDecode oracle) {queue batch result : List ℕ}
    {free : ℤ} (h : Selects config oracle start queue free batch result)
    {scan : DecodeScan} (hbatch : scan.scheduledSeqs = batch)
    (hcount : scan.numBatchedSeqs = batch.length) (hroom : (batch.length : ℤ) < config.maxDecodingSeqs)
    (hfree : scan.decodeLogicalFreeCount = free) {scheduler : Scheduler Id Env} (rotated : List ℕ)
    (hqueue : scheduler.decoding = queue ++ rotated) (hcalm : scheduler.calm = start.calm) :
    wpe (decodeLoop config oracle callbacks queue.length scan) (Decoded start result)
      (fun _ => result = []) scheduler := by
  have hworld {next : Scheduler Id Env} (hnext : next.calm = start.calm) :
      next.world = start.world := world_of_calm hnext
  induction h generalizing scan scheduler rotated with
  | finished free batch =>
      rw [List.length_nil, decodeLoop, wpe_pure]
      exact ⟨hbatch, hcalm⟩
  | @spent seqId rest free batch result hspent hrest ih =>
      rw [List.cons_append] at hqueue
      have hopen : scan.numBatchedSeqs < config.maxDecodingSeqs := hcount ▸ hroom
      have hthere := (spent_congr (hworld hcalm) seqId).mpr hspent
      rw [List.length_cons, wpe_decodeLoop_spent callbacks _ hqueue hopen hthere]
      refine ih hbatch hcount hroom hfree (rotated ++ [seqId]) ?_ ?_
      · exact List.append_assoc rest rotated [seqId]
      · exact hcalm
  | @exhausted seqId rest free batch cost seqFree hspent hanswers hshort hout =>
      rw [List.cons_append] at hqueue
      have hopen : scan.numBatchedSeqs < config.maxDecodingSeqs := hcount ▸ hroom
      have hthere := mt (spent_congr (hworld hcalm) seqId).mp hspent
      have hsame := hanswers.congr hsteady (hworld hcalm)
      rw [List.length_cons, wpe_decodeLoop_answered callbacks hsteady _ hqueue hopen hthere hsame,
        hfree, if_pos hshort, if_neg (not_lt.mpr hout)]
      by_cases hempty : scan.scheduledSeqs = []
      · -- nothing is scheduled yet: the loop preempts, and the walk returns nothing
        rw [if_neg (not_not.mpr hempty)]
        refine wpe_imp (preemptDecodeVictim_noDecodeBatch config oracle callbacks seqId _ [] _)
          (fun early next hearly => ?_) fun next _ => hbatch.symm.trans hempty
        exact ⟨hearly, hbatch.symm.trans hempty⟩
      · rw [if_pos hempty]
        exact ⟨hbatch, hcalm⟩
  | @blocked seqId rest free batch result cost seqFree hspent hanswers hshort hleft hrest ih =>
      rw [List.cons_append] at hqueue
      have hopen : scan.numBatchedSeqs < config.maxDecodingSeqs := hcount ▸ hroom
      have hthere := mt (spent_congr (hworld hcalm) seqId).mp hspent
      have hsame := hanswers.congr hsteady (hworld hcalm)
      rw [List.length_cons, wpe_decodeLoop_answered callbacks hsteady _ hqueue hopen hthere hsame,
        hfree, if_pos hshort, if_pos hleft]
      refine ih ?_ ?_ hroom rfl (rotated ++ [seqId]) ?_ ?_
      · exact hbatch
      · exact hcount
      · exact List.append_assoc rest rotated [seqId]
      · exact hcalm
  | @filled seqId rest free batch cost seqFree hspent hanswers hfits hfull =>
      rw [List.cons_append] at hqueue
      have hopen : scan.numBatchedSeqs < config.maxDecodingSeqs := hcount ▸ hroom
      have hthere := mt (spent_congr (hworld hcalm) seqId).mp hspent
      have hsame := hanswers.congr hsteady (hworld hcalm)
      rw [List.length_cons, wpe_decodeLoop_answered callbacks hsteady _ hqueue hopen hthere hsame,
        hfree, if_neg (not_lt.mpr hfits), wpe_of_ok (decodeLoop_full callbacks _ (by dsimp only; omega))]
      exact ⟨by rw [hbatch], hcalm⟩
  | @taken seqId rest free batch result cost seqFree hspent hanswers hfits hmore hrest ih =>
      rw [List.cons_append] at hqueue
      have hopen : scan.numBatchedSeqs < config.maxDecodingSeqs := hcount ▸ hroom
      have hthere := mt (spent_congr (hworld hcalm) seqId).mp hspent
      have hsame := hanswers.congr hsteady (hworld hcalm)
      have hlength : ((batch ++ [seqId]).length : ℤ) = batch.length + 1 := by simp
      rw [List.length_cons, wpe_decodeLoop_answered callbacks hsteady _ hqueue hopen hthere hsame,
        hfree, if_neg (not_lt.mpr hfits)]
      refine ih ?_ ?_ (by omega) rfl rotated rfl ?_
      · rw [hbatch]
      · rw [hlength, hcount]
      · exact hcalm

end

/-! ## The prefill phase leaves the decoding queue alone -/

section

theorem decoding_of_queues {α : Type} {m : Routine (Scheduler Id Env) α}
    (hm : Preserves queues m) : Preserves Scheduler.decoding m :=
  hm.comp fun view => view.2.2

theorem decoding_call {α : Type} (hook : Hook Id Env α) :
    Preserves Scheduler.decoding (call hook) := fun _ => rfl

theorem decoding_setSeq (seqId : ℕ) (update : Sequence Id → Sequence Id) :
    Preserves Scheduler.decoding (write (setSeq seqId update) : Routine (Scheduler Id Env) Unit) :=
  Preserves.write fun _ => rfl

theorem decoding_requeue (seqId : ℕ) :
    Preserves Scheduler.decoding (requeue seqId : Routine (Scheduler Id Env) Unit) :=
  Preserves.write fun _ => rfl

theorem decoding_sortWaiting :
    Preserves Scheduler.decoding (sortWaiting : Routine (Scheduler Id Env) Unit) := by
  unfold sortWaiting
  refine Preserves.read.bind fun scheduler => (Preserves.ofExcept _).bind fun keyed => ?_
  exact Preserves.write fun _ => rfl

variable [DecidableEq Key] [DecidableEq Resource] (config : SchedulerConfig)
  (oracle : MemoryOracle Id Env Key Resource) (callbacks : SchedulerCallbacks Id Env)

omit [DecidableEq Key] [DecidableEq Resource] in
theorem decoding_prefillCapacity (physicalFreeCount : ℤ) :
    Preserves Scheduler.decoding (prefillCapacity config oracle physicalFreeCount) := by
  unfold prefillCapacity reservedPrefillTokens
  refine Preserves.read.bind fun scheduler => Preserves.ite (Preserves.pure _) ?_
  refine (decoding_call _).bind fun _ => (decoding_call _).bind fun _ => ?_
  refine (decoding_call _).bind fun _ => (decoding_call _).bind fun _ => ?_
  exact (decoding_call _).bind fun _ => Preserves.pure _

omit [DecidableEq Resource] in
theorem decoding_popLoop (target : PrefillExecutionMode × Key) (replayPending : Bool) (fuel : ℕ) :
    Preserves Scheduler.decoding (popLoop config oracle target replayPending fuel) := by
  induction fuel with
  | zero => exact Preserves.pure _
  | succ fuel ih =>
      unfold popLoop
      refine Preserves.read.bind fun scheduler => ?_
      cases scheduler.waiting with
      | nil => exact Preserves.pure _
      | cons seqId rest =>
          dsimp only
          refine (decoding_of_queues (preserves_matchesTarget config oracle target replayPending
            seqId)).bind fun found => Preserves.ite ?_ ?_
          · exact Preserves.bind (Preserves.write fun _ => rfl) fun _ => Preserves.pure _
          · exact Preserves.bind (Preserves.write fun _ => rfl) fun _ => ih

section

omit [DecidableEq Key]

theorem decoding_admitPrompt (scan : PrefillScan Resource) (seqId : ℕ) :
    Preserves Scheduler.decoding (admitPrompt config oracle scan seqId) := by
  unfold admitPrompt
  refine (decoding_call _).bind fun rawCosts => ?_
  refine (decoding_of_queues (preserves_sharedAdmissionCosts oracle seqId)).bind fun shared => ?_
  refine (Preserves.ofExcept _).bind fun costs => ?_
  cases failedBudget scan.admissionBudgets costs with
  | some failed =>
      obtain ⟨name, need, free⟩ := failed
      dsimp only
      refine (decoding_call _).bind fun action => Preserves.ite ?_ (Preserves.raise _)
      refine (decoding_of_queues (preserves_warnDeferred config oracle seqId)).bind fun _ => ?_
      exact (decoding_requeue seqId).bind fun _ => Preserves.pure _
  | none =>
      dsimp only
      refine Preserves.bind (Preserves.write fun _ => rfl) fun _ => (decoding_setSeq _ _).bind fun _ => ?_
      refine (decoding_call _).bind fun _ => (decoding_setSeq _ _).bind fun _ => ?_
      refine (decoding_call _).bind fun reservation => (Preserves.raiseIf _ _).bind fun _ => ?_
      exact Preserves.pure _

theorem decoding_scanCandidate (mode : PrefillExecutionMode) (scan : PrefillScan Resource)
    (seqId : ℕ) : Preserves Scheduler.decoding (scanCandidate config oracle mode scan seqId) := by
  unfold scanCandidate
  refine (decoding_call _).bind fun remaining => ?_
  refine (decoding_of_queues (preserves_candidateStepFree oracle mode scan seqId)).bind
    fun candidateFree => (Preserves.raiseIf _ _).bind fun _ => ?_
  refine (decoding_of_queues (preserves_respectMinFinalPrefillChunk oracle seqId _ _)).bind
    fun canPrefill => Preserves.ite ?_ ?_
  · refine (decoding_call _).bind fun minFinal => (decoding_requeue seqId).bind fun _ => ?_
    exact Preserves.pure _
  · refine Preserves.read.bind fun scheduler => Preserves.bind ?_ fun admitted => ?_
    · exact Preserves.ite (decoding_admitPrompt config oracle scan seqId) (Preserves.pure _)
    obtain ⟨admitted, scan⟩ := admitted
    cases admitted with
    | none => exact Preserves.pure _
    | some scan =>
        refine (decoding_setSeq _ _).bind fun _ => (decoding_call _).bind fun cost => ?_
        exact (decoding_setSeq _ _).bind fun _ => Preserves.pure _

end

theorem decoding_scanLoop (target : PrefillExecutionMode × Key) (replayPending : Bool)
    (margin : ℤ) (budget : ℕ) (scan : PrefillScan Resource) :
    Preserves Scheduler.decoding (scanLoop config oracle target replayPending margin budget scan) := by
  induction budget generalizing scan with
  | zero => exact Preserves.pure _
  | succ budget ih =>
      unfold scanLoop popNextPrefillSeq
      refine Preserves.read.bind fun scheduler => Preserves.ite ?_ (Preserves.pure _)
      refine Preserves.bind (Preserves.read.bind fun next =>
        decoding_popLoop config oracle target replayPending _) fun found => ?_
      cases found with
      | none => exact Preserves.pure _
      | some seqId =>
          refine (decoding_scanCandidate config oracle target.1 scan seqId).bind fun scanned => ?_
          exact Preserves.ite (Preserves.pure _) (ih _)

theorem decoding_bucketLoop (replayPending : Bool) (margin : ℤ)
    (targets : List (PrefillExecutionMode × Key)) (scan : PrefillScan Resource) :
    Preserves Scheduler.decoding (bucketLoop config oracle replayPending margin targets scan) := by
  induction targets generalizing scan with
  | nil => exact Preserves.pure _
  | cons target rest ih =>
      unfold bucketLoop
      refine Preserves.ite (Preserves.pure _) ?_
      refine Preserves.bind (Preserves.write fun _ => rfl) fun _ => Preserves.read.bind fun scheduler => ?_
      refine Preserves.bind ?_ fun scan => ih scan
      refine (decoding_scanLoop config oracle target replayPending margin _ scan).finallyDo ?_
      exact Preserves.write fun _ => rfl

/-- **The prefill phase** does not touch the decoding queue. -/
theorem decoding_prefillPhase (scan : PrefillScan Resource) (margin : ℤ) :
    Preserves Scheduler.decoding (prefillPhase config oracle callbacks scan margin) := by
  unfold prefillPhase
  refine Preserves.read.bind fun scheduler => Preserves.bind ?_ fun modes => ?_
  · exact Preserves.ite (decoding_of_queues (preserves_prefillModeOrder config oracle callbacks)) (Preserves.pure _)
  · exact Preserves.read.bind fun next => decoding_bucketLoop config oracle _ margin modes scan

end

/-! ## The decode phase -/

section

variable {config : SchedulerConfig} {oracle : MemoryOracle Id Env Key Resource}
  (callbacks : SchedulerCallbacks Id Env) {scheduler : Scheduler Id Env}

/-- A batch of decoding sequences leaves the frame as it is. -/
theorem returnDecodeBatch_calm (scan : DecodeScan) (scheduler : Scheduler Id Env) :
    wpe (returnDecodeBatch scan) (fun result next => result = ⟨scan.scheduledSeqs, false, []⟩ ∧
      next.calm = scheduler.calm) (fun _ => False) scheduler := by
  unfold returnDecodeBatch
  rw [wpe_set, wpe_pure]
  exact ⟨rfl, rfl⟩

/-- Prefill capacity is reclaimed, and the pass tried again, only when nothing
decodes. -/
theorem reclaimPrefill_idle (allowPrefillReclaim : Bool) (scan : PrefillScan Resource)
    (scheduler : Scheduler Id Env) :
    wpe (reclaimPrefill callbacks allowPrefillReclaim scan)
      (fun again next => again = true → next.decoding = []) (fun _ => True) scheduler := by
  unfold reclaimPrefill
  rw [wpe_get]
  cases callbacks.prefillCapacityReclaimer with
  | none => exact nofun
  | some reclaim =>
      cases scheduler.waiting with
      | nil => exact nofun
      | cons first rest =>
          dsimp only
          rw [wpe_ite]
          refine ⟨fun hidle => ?_, fun _ => nofun⟩
          refine wpe_guarded trivial fun _ => ?_
          exact (decoding_call _).wpe (fun _ _ hsame _ => hsame.trans hidle.1) fun _ _ => trivial

/-- **The decode phase runs what the walk selects**, and preempts nobody for it.
When the walk selects nothing, no decode batch comes out of it, whatever else it
does. -/
theorem decodePhase_of_selects (hsteady : SteadyDecode oracle) (hmax : 0 < config.maxDecodingSeqs)
    (retry : Option (Routine (Scheduler Id Env) ScheduleResult))
    (hretry : ∀ again, retry = some again → ∀ next : Scheduler Id Env, next.decoding = [] →
      wpe again (fun result _ => NoDecodeBatch result) (fun _ => True) next)
    (prefill : PrefillScan Resource) {free : ℤ} {batch : List ℕ}
    (h : Selects config oracle scheduler scheduler.decoding free [] batch) :
    wpe (decodePhase config oracle callbacks retry prefill free)
      (fun result next => (batch ≠ [] → result = ⟨batch, false, []⟩ ∧ next.calm = scheduler.calm) ∧
        (batch = [] → NoDecodeBatch result)) (fun _ => batch = []) scheduler := by
  unfold decodePhase
  rw [wpe_set, wpe_get]
  refine wpe_then (decodeLoop_of_selects callbacks hsteady h rfl rfl hmax rfl []
    (List.append_nil _).symm rfl) fun found s1 hfound => ?_
  cases found with
  | inl early =>
      obtain ⟨hearly, hempty⟩ := hfound
      exact ⟨fun hsome => absurd hempty hsome, fun _ => hearly⟩
  | inr scan =>
      obtain ⟨hbatch, hcalm⟩ := hfound
      dsimp only
      rw [wpe_ite]
      refine ⟨fun hsome => ?_, fun hnone => ?_⟩
      · refine wpe_imp (returnDecodeBatch_calm scan s1) (fun result next hresult => ?_) fun _ hfalse => hfalse.elim
        rw [hbatch] at hresult hsome
        exact ⟨fun _ => ⟨hresult.1, hresult.2.trans hcalm⟩, fun hempty => absurd hempty hsome⟩
      · rw [not_not, hbatch] at hnone
        -- the walk selects nothing: every way out returns no decode batch
        have hgoal {result : ScheduleResult} {next : Scheduler Id Env} (hresult : NoDecodeBatch result) :
            (batch ≠ [] → result = ⟨batch, false, []⟩ ∧ next.calm = scheduler.calm) ∧
              (batch = [] → NoDecodeBatch result) :=
          ⟨fun hsome => absurd hnone hsome, fun _ => hresult⟩
        cases scan.blockedDecodeVictim with
        | some victim =>
            dsimp only
            rw [wpe_set]
            exact wpe_imp (preemptDecodeVictim_noDecodeBatch config oracle callbacks victim [] [] _)
              (fun _ _ hresult => hgoal hresult) fun _ _ => hnone
        | none =>
            dsimp only
            refine wpe_then_imp (reclaimPrefill_idle callbacks retry.isSome prefill s1)
              (fun again s2 hagain => ?_) fun _ _ => hnone
            have hquiet : wpe (do
                raiseBlocked config oracle prefill
                return (⟨[], false, []⟩ : ScheduleResult))
                (fun result _ => NoDecodeBatch result) (fun _ => True) s2 := by
              exact wpe_then (wpe_true _ _) fun _ _ _ _ => rfl
            cases again with
            | false => exact wpe_imp hquiet (fun _ _ hresult => hgoal hresult) fun _ _ => hnone
            | true =>
                cases hcall : retry with
                | none => exact wpe_imp hquiet (fun _ _ hresult => hgoal hresult) fun _ _ => hnone
                | some call =>
                    exact wpe_imp (hretry call hcall s2 (hagain rfl))
                      (fun _ _ hresult => hgoal hresult) fun _ _ => hnone

variable [DecidableEq Key] [DecidableEq Resource]

/-- **A pass over an idle decoding queue** returns no decode batch. -/
theorem schedulePass_idle (hsteady : SteadyDecode oracle) (hmax : 0 < config.maxDecodingSeqs)
    (hidle : scheduler.decoding = []) :
    wpe (schedulePass config oracle callbacks none) (fun result _ => NoDecodeBatch result)
      (fun _ => True) scheduler := by
  -- once the reservations are made, nothing adds to the decoding queue:
  have hpass (failure : Option ℕ) (next : Scheduler Id Env) (hnext : next.decoding = []) :
      wpe (schedulePass.afterReservation config oracle callbacks none failure)
        (fun result _ => NoDecodeBatch result) (fun _ => True) next := by
    unfold schedulePass.afterReservation
    refine wpe_then_imp (decodeAffinity_sublist config oracle callbacks failure next)
      (fun chosen s1 hchosen => ?_) fun _ _ => trivial
    obtain ⟨affinity, overdue⟩ := chosen
    obtain ⟨hqueues, hbatch⟩ := hchosen
    have h1 : s1.decoding = [] := (congrArg (fun view => view.2.2) hqueues).trans hnext
    cases affinity with
    | some batch =>
        -- affinity takes its batch from the decoding queue, which is empty
        have hsub := hbatch batch rfl
        rw [h1, List.sublist_nil] at hsub
        exact fun _ => hsub
    | none =>
        dsimp only
        rw [wpe_bind]
        refine (decoding_call _).wpe (fun physicalFreeCount s2 h2 => ?_) fun _ _ => trivial
        rw [wpe_bind]
        refine (decoding_prefillCapacity config oracle physicalFreeCount).wpe
          (fun capacity s3 h3 => ?_) fun _ _ => trivial
        obtain ⟨scan, margin⟩ := capacity
        dsimp only
        rw [wpe_bind]
        refine (decoding_call _).wpe (fun decodeFree s4 h4 => ?_) fun _ _ => trivial
        rw [wpe_bind]
        refine (decoding_sortWaiting.whenDo).wpe (fun _ s5 h5 => ?_) fun _ _ => trivial
        rw [wpe_bind]
        refine (decoding_prefillPhase config oracle callbacks scan margin).wpe
          (fun scan s6 h6 => ?_) fun _ _ => trivial
        have hidle6 : s6.decoding = [] :=
          h6.trans (h5.trans (h4.trans (h3.trans (h2.trans h1))))
        rw [wpe_ite]
        refine ⟨fun _ => nofun, fun _ => ?_⟩
        cases failure with
        | some victim =>
            dsimp only
            -- a preempted victim is the only row it could have had
            exact wpe_then (wpe_true _ _) fun _ s7 _ =>
              preemptDecodeVictim_noDecodeBatch config oracle callbacks victim [] [] s7
        | none =>
            -- the greedy selection over an empty queue is empty:
            have hnothing : Selects config oracle s6 s6.decoding (max 0 decodeFree) [] [] := by
              rw [hidle6]
              exact Selects.finished _ _
            exact wpe_imp (decodePhase_of_selects callbacks hsteady hmax none nofun scan hnothing)
              (fun _ _ hresult => hresult.2 rfl) fun _ _ => trivial
  unfold schedulePass
  rw [wpe_bind]
  refine (decoding_call _).wpe (fun reserved s1 h1 => ?_) fun _ _ => trivial
  rw [wpe_bind]
  refine (decoding_of_queues (preserves_reclaimDecode callbacks reserved)).wpe
    (fun failure s2 h2 => ?_) fun _ _ => trivial
  have hidle2 : s2.decoding = [] := h2.trans (h1.trans hidle)
  cases failure with
  | none => exact hpass none s2 hidle2
  | some victim =>
      dsimp only
      rw [wpe_get, wpe_ite, hidle2]
      exact ⟨fun hmany => absurd hmany (by simp), fun _ => hpass (some victim) s2 hidle2⟩

/-- The recursive call of the decode phase in the two passes of
`_schedule_impl`. -/
theorem retry_idle (hsteady : SteadyDecode oracle) (hmax : 0 < config.maxDecodingSeqs)
    {retry : Option (Routine (Scheduler Id Env) ScheduleResult)}
    (hretry : retry = none ∨ retry = some (schedulePass config oracle callbacks none))
    (again : Routine (Scheduler Id Env) ScheduleResult) (hagain : retry = some again)
    (next : Scheduler Id Env) (hnext : next.decoding = []) :
    wpe again (fun result _ => NoDecodeBatch result) (fun _ => True) next := by
  rcases hretry with rfl | rfl
  · cases hagain
  · obtain rfl := Option.some.inj hagain
    exact schedulePass_idle callbacks hsteady hmax hnext

/-- **The decode affinity test mirrors the decode phase.** When
`_eligible_decode_batch` returns a batch, the decode phase on the same state
returns exactly that batch and preempts nobody; when it returns the empty list,
the decode phase returns no decode batch.  Either way every member fits what is
free for it, and the batch fits what the phase counts with: the free slots of
the oracle, or none when it reports fewer. -/
theorem decodePhase_mirrors_eligible (hsteady : SteadyDecode oracle)
    (hmax : 0 < config.maxDecodingSeqs)
    (retry : Option (Routine (Scheduler Id Env) ScheduleResult))
    (hretry : retry = none ∨ retry = some (schedulePass config oracle callbacks none))
    (prefill : PrefillScan Resource) {free : ℤ} {batch : List ℕ}
    (hfree : (oracle.decodeStepFreeSlots scheduler).1 = .ok free)
    (heligible : (eligibleDecodeBatch config oracle scheduler).1 = .ok batch) :
    (batch ≠ [] → ∃ next,
      decodePhase config oracle callbacks retry prefill (max 0 free) scheduler =
        (.ok ⟨batch, false, []⟩, next) ∧
      next.world = scheduler.world ∧ next.waiting = scheduler.waiting ∧
      next.totalPreemptions = scheduler.totalPreemptions) ∧
    (batch = [] → ∀ result,
      (decodePhase config oracle callbacks retry prefill (max 0 free) scheduler).1 = .ok result →
      result.isPrefill = false → result.seqs = []) ∧
    ∃ costs : List ℤ, costs.sum ≤ max 0 free ∧
      List.Forall₂ (fun seqId cost =>
        (oracle.decodeStepReservationCost seqId scheduler).1 = .ok cost ∧
        ∃ seqFree, (oracle.decodeStepFreeSlotsFor seqId scheduler).1 = .ok seqFree ∧
          cost ≤ seqFree) batch costs := by
  have hselects := eligibleDecodeBatch_selects hsteady hfree heligible
  have hphase := decodePhase_of_selects callbacks hsteady hmax retry
    (retry_idle callbacks hsteady hmax hretry) prefill hselects
  rw [wpe_def] at hphase
  refine ⟨fun hsome => ?_, fun hempty result hresult => ?_, ?_⟩
  · rcases hrun : decodePhase config oracle callbacks retry prefill (max 0 free) scheduler
      with ⟨error | result, next⟩
    · rw [hrun] at hphase
      exact absurd hphase hsome
    · rw [hrun] at hphase
      obtain ⟨rfl, hcalm⟩ := hphase.1 hsome
      exact ⟨next, rfl, congrArg Prod.fst hcalm, congrArg (fun frame => frame.2.1) hcalm,
        congrArg (fun frame => frame.2.2) hcalm⟩
  · rw [hresult] at hphase
    exact hphase.2 hempty
  · obtain ⟨picked, costs, hpicked, hcosts, hsum⟩ := hselects.within (le_max_left 0 free)
    rw [List.nil_append] at hpicked
    subst hpicked
    refine ⟨costs, hsum, hcosts.imp fun seqId cost hmember => ?_⟩
    obtain ⟨seqFree, hanswers, hle⟩ := hmember
    exact ⟨hanswers.cost, seqFree, hanswers.seqFree, hle⟩

end

/-! ## An oracle that reports fewer than no free slots -/

theorem steady_answering {α : Type} (answer : α) :
    Steady (answering answer : Hook Id Env α) :=
  ⟨fun _ => .ok answer, fun _ => rfl⟩

/-- The oracle of `tightOracle` with its decode slots overdrawn, and decode
steps that cost nothing. -/
def overdrawnOracle : MemoryOracle Unit Unit Unit Unit :=
  { tightOracle with
    decodeStepFreeSlots := answering (-1)
    decodeStepFreeSlotsFor := fun _ => answering 0
    decodeStepReservationCost := fun _ => answering 0 }

theorem overdrawnOracle_steady : SteadyDecode overdrawnOracle where
  freeSlots := steady_answering _
  freeSlotsFor _ := steady_answering _
  reservationCost _ := steady_answering _

/-- The batch costs more than the oracle reports free: no slot, of minus one. -/
theorem free_batch_overdraws :
    let config : SchedulerConfig := ⟨8, 64, 8, 0, 16, false⟩
    SteadyDecode overdrawnOracle ∧
      (overdrawnOracle.decodeStepFreeSlots twoWaiting).1 = .ok (-1) ∧
      (eligibleDecodeBatch config overdrawnOracle twoWaiting).1 = .ok [9] ∧
      (overdrawnOracle.decodeStepReservationCost 9 twoWaiting).1 = .ok 0 ∧
      ¬ (0 : ℤ) ≤ -1 := by
  refine ⟨overdrawnOracle_steady, rfl, rfl, rfl, by decide⟩

/-- The mirror on the one decoding sequence of `twoWaiting`. -/
theorem sole_decode_mirrored :
    let config : SchedulerConfig := ⟨8, 64, 8, 0, 16, false⟩
    ∃ next, decodePhase config overdrawnOracle idleCallbacks none
        ⟨[], 0, 0, 0, 0, Dict.empty, Dict.empty, none, none, none, none⟩ (max 0 (-1)) twoWaiting =
          (.ok ⟨[9], false, []⟩, next) ∧
      next.world = twoWaiting.world := by
  intro config
  have hmirror := (@decodePhase_mirrors_eligible Unit Unit Unit Unit config overdrawnOracle
    idleCallbacks twoWaiting _ _ overdrawnOracle_steady (by decide) none (Or.inl rfl)
    ⟨[], 0, 0, 0, 0, Dict.empty, Dict.empty, none, none, none, none⟩ (-1) [9] rfl rfl).1 (by decide)
  obtain ⟨next, hrun, hworld, _⟩ := hmirror
  exact ⟨next, hrun, hworld⟩

end Scheduler
