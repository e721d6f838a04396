import SparseEngine.RecurrentState.Isolation

/-!
# Calls on a recurrent state manager

Each call keeps the invariant of a run.  A call is about one sequence, and
what holds of the others is left as it was (`Invariant.changed`); the batch of
a step is only entered and left as a whole (`Invariant.begin_step`,
`Invariant.restep`).
-/

namespace RecurrentRun

open Routine RecurrentStateManager

variable {Data : Type} {config : RecurrentConfig} {run : RecurrentRun Data}
  {manager next : RecurrentStateManager Data} {seqId layer row : ℕ}

/-! ## One sequence -/

variable {step : ModelStep}

theorem StepOk.congr (h : StepOk config run step) {after : RecurrentRun Data}
    (hstepped : ∀ seqId ∈ step.batch, ∀ history, after.history seqId = some history →
      history.stepped = true) (hgone : ∀ seqId ∈ step.batch, seqId ∉ step.live →
      after.manager.pendingPrefixPayloads.get? seqId = none) : StepOk config after step :=
  ⟨h.unread_mem, h.settable_mem, h.disjoint, hstepped, hgone⟩

/-- A layer that was read may be set. -/
theorem StepOk.read (h : StepOk config run step) (hunread : (seqId, layer) ∈ step.unread) :
    StepOk config run { step with
      unread := step.unread.erase (seqId, layer), settable := insert (seqId, layer) step.settable } where
  unread_mem entry hentry := h.unread_mem entry (Finset.mem_of_mem_erase hentry)
  settable_mem entry hentry := by
    rcases Finset.mem_insert.mp hentry with rfl | hold
    · exact h.unread_mem _ hunread
    · exact h.settable_mem entry hold
  disjoint entry hentry hmem := by
    obtain ⟨hne, hmem⟩ := Finset.mem_erase.mp hmem
    exact h.disjoint entry ((Finset.mem_insert.mp hentry).resolve_left hne) hmem
  stepped := h.stepped
  gone := h.gone

theorem StepOk.set (h : StepOk config run step) :
    StepOk config run { step with settable := step.settable.erase (seqId, layer) } where
  unread_mem := h.unread_mem
  settable_mem entry hentry := h.settable_mem entry (Finset.mem_of_mem_erase hentry)
  disjoint entry hentry := h.disjoint entry (Finset.mem_of_mem_erase hentry)
  stepped := h.stepped
  gone := h.gone

/-- A read by one sequence is none by another. -/
theorem unread_read_iff {step : Option ModelStep} {other : ℕ} (hne : other ≠ seqId)
    (history : SeqHistory Data) (layer' : ℕ) :
    Unread (step.map fun step => { step with
      unread := step.unread.erase (seqId, layer), settable := insert (seqId, layer) step.settable })
      other history layer' ↔ Unread step other history layer' := by
  have hpair : (other, layer') ≠ (seqId, layer) := fun heq => hne (congrArg Prod.fst heq)
  unfold Unread
  cases step with
  | none => simp
  | some step => simp [hne]

variable [Zero Data]

/-- What the invariant says of one resident sequence. -/
structure SeqOk (config : RecurrentConfig) (manager : RecurrentStateManager Data)
    (step : Option ModelStep) (seqId row : ℕ) (history : SeqHistory Data) : Prop where
  unstepped : history.stepped = false → ∀ layer, history.lastSet layer = none
  pending : ∀ {payload readinessEvents},
    manager.pendingPrefixPayloads.get? seqId = some (payload, readinessEvents) →
    PendingOk config step seqId history payload readinessEvents
  content : ∀ layer ∈ config.linearLayers, ¬ Waiting manager seqId layer →
    ∀ name ∈ config.stateSpec.stateNames,
    manager.layerBuffers layer name row = history.value layer name
  unset : ∀ {layer}, Waiting manager seqId layer → history.lastSet layer = none

namespace Invariant

theorem seqOk (h : Invariant config run) (hrow : run.manager.seqIdToRow.get? seqId = some row)
    {history : SeqHistory Data} (hhistory : run.history seqId = some history) :
    SeqOk config run.manager run.step seqId row history where
  unstepped := h.unstepped hhistory
  pending hpending := by
    obtain ⟨known, hknown, hok⟩ := h.pending hpending
    obtain rfl := Option.some.inj (hhistory.symm.trans hknown)
    exact hok
  content := h.content hrow hhistory
  unset hwaiting := h.unset hwaiting hhistory

variable {history : ℕ → Option (SeqHistory Data)} {step : Option ModelStep}

/-- A change that is about one resident sequence, the row it has and its part in
the step. -/
theorem changed (h : Invariant config run) {known : SeqHistory Data}
    (hrow : run.manager.seqIdToRow.get? seqId = some row)
    (hrows : next.seqIdToRow = run.manager.seqIdToRow ∧ next.rowToSeqId = run.manager.rowToSeqId ∧
      next.freeRows = run.manager.freeRows) (hknown : history seqId = some known)
    (hhistory : ∀ other, other ≠ seqId → history other = run.history other)
    (hpending : ∀ other, other ≠ seqId →
      next.pendingPrefixPayloads.get? other = run.manager.pendingPrefixPayloads.get? other)
    (hbuffers : ∀ layer name row', row' ≠ row →
      next.layerBuffers layer name row' = run.manager.layerBuffers layer name row')
    (hunread : ∀ other, other ≠ seqId → ∀ (other_history : SeqHistory Data) layer,
      Unread step other other_history layer ↔ Unread run.step other other_history layer)
    (hok : SeqOk config next step seqId row known)
    (hstep : ∀ {current}, step = some current → StepOk config ⟨next, history, step⟩ current) :
    Invariant config ⟨next, history, step⟩ := by
  have hwaiting : ∀ {other}, other ≠ seqId → ∀ layer, Waiting next other layer ↔ Waiting run.manager other layer := by
    intro other hne layer
    unfold Waiting
    rw [hpending other hne]
  exact
    { rows := h.rows.congr hrows.1 hrows.2.1 hrows.2.2
      resident_iff := fun other => by
        dsimp only
        rw [hrows.1]
        by_cases hne : other = seqId
        · subst hne
          rw [hknown, hrow]
          exact ⟨nofun, nofun⟩
        · rw [hhistory other hne]
          exact h.resident_iff other
      unstepped := fun {other other_history} hother => by
        dsimp only at hother
        by_cases hne : other = seqId
        · subst hne
          obtain rfl := Option.some.inj (hknown.symm.trans hother)
          exact hok.unstepped
        · rw [hhistory other hne] at hother
          exact h.unstepped hother
      pending := fun {other payload events} hother => by
        dsimp only at hother
        by_cases hne : other = seqId
        · subst hne
          exact ⟨known, hknown, hok.pending hother⟩
        · rw [hpending other hne] at hother
          obtain ⟨other_history, hsame, hthere⟩ := h.pending hother
          exact ⟨other_history, (hhistory other hne).trans hsame, hthere.attached, hthere.wellFormed,
            hthere.subset, fun layer hlayer =>
              (hthere.unread_iff layer hlayer).trans (hunread other hne other_history layer).symm,
            hthere.nonempty⟩
      content := fun {other row' other_history} hother hthere layer hlayer hnot name hname => by
        dsimp only at hother hthere hnot ⊢
        rw [hrows.1] at hother
        by_cases hne : other = seqId
        · subst hne
          obtain rfl := Option.some.inj (hknown.symm.trans hthere)
          obtain rfl := Option.some.inj (hrow.symm.trans hother)
          exact hok.content layer hlayer hnot name hname
        · -- two sequences do not share a row:
          have hne_row : row' ≠ row := by
            rintro rfl
            exact hne (h.rows.seqId_eq hother hrow)
          rw [hhistory other hne] at hthere
          rw [hbuffers layer name row' hne_row]
          exact h.content hother hthere layer hlayer (fun hwait => hnot ((hwaiting hne layer).mpr hwait)) name hname
      unset := fun {other layer other_history} hwait hthere => by
        dsimp only at hwait hthere
        by_cases hne : other = seqId
        · subst hne
          obtain rfl := Option.some.inj (hknown.symm.trans hthere)
          exact hok.unset hwait
        · rw [hhistory other hne] at hthere
          exact h.unset ((hwaiting hne layer).mp hwait) hthere
      step_ok := hstep }

/-- The step changes, and reads of pending payloads stay where they were. -/
theorem restep (h : Invariant config run)
    (hunread : ∀ {seqId payload events}, run.manager.pendingPrefixPayloads.get? seqId =
      some (payload, events) → ∀ (history : SeqHistory Data), ∀ layer ∈ payload.layerStates.keys,
      Unread step seqId history layer ↔ Unread run.step seqId history layer)
    (hstep : ∀ {current}, step = some current → StepOk config run current) :
    Invariant config ⟨run.manager, run.history, step⟩ where
  rows := h.rows
  resident_iff := h.resident_iff
  unstepped := h.unstepped
  pending hpending := by
    obtain ⟨history, hhistory, hok⟩ := h.pending hpending
    exact ⟨history, hhistory, hok.attached, hok.wellFormed, hok.subset, fun layer hlayer =>
      (hok.unread_iff layer hlayer).trans (hunread hpending history layer hlayer).symm, hok.nonempty⟩
  content := h.content
  unset := h.unset
  step_ok hcurrent := (hstep hcurrent).congr (hstep hcurrent).stepped (hstep hcurrent).gone

/-! ## A step begins -/

/-- The sequences of a batch are marked, and all their layers are to be read. -/
theorem begin_step (h : Invariant config run) (hnone : run.step = none) (seqIds : List ℕ)
    (hhistory : ∀ seqId, history seqId = if seqId ∈ seqIds then
      (run.history seqId).map fun known => { known with stepped := true } else run.history seqId) :
    Invariant config ⟨run.manager, history, some ⟨seqIds.toFinset, seqIds.toFinset,
      seqIds.toFinset ×ˢ config.linearLayers.toFinset, ∅⟩⟩ := by
  -- a sequence has the history it had, up to the mark
  have hback : ∀ {seqId known}, history seqId = some known → ∃ before,
      run.history seqId = some before ∧ before.attached = known.attached ∧
      before.lastSet = known.lastSet ∧
      known.stepped = (decide (seqId ∈ seqIds) || before.stepped) := by
    intro seqId known hknown
    rw [hhistory] at hknown
    by_cases hmem : seqId ∈ seqIds
    · rw [if_pos hmem] at hknown
      obtain ⟨before, hbefore, rfl⟩ := Option.map_eq_some_iff.mp hknown
      exact ⟨before, hbefore, rfl, rfl, by simp [hmem]⟩
    · rw [if_neg hmem] at hknown
      exact ⟨known, hknown, rfl, rfl, by simp [hmem]⟩
  have hforth : ∀ {seqId before}, run.history seqId = some before → ∃ known,
      history seqId = some known ∧ known.attached = before.attached ∧
      known.stepped = (decide (seqId ∈ seqIds) || before.stepped) := by
    intro seqId before hbefore
    rw [hhistory, hbefore]
    by_cases hmem : seqId ∈ seqIds
    · exact ⟨_, if_pos hmem, rfl, by simp [hmem]⟩
    · exact ⟨_, if_neg hmem, rfl, by simp [hmem]⟩
  exact
    { rows := h.rows
      resident_iff := fun seqId => by
        rw [← h.resident_iff seqId]
        dsimp only
        rw [hhistory]
        split
        · exact Option.map_eq_none_iff
        · exact Iff.rfl
      unstepped := fun {seqId known} hknown hstepped => by
        obtain ⟨before, hbefore, _, hlast, hmark⟩ := hback hknown
        rw [hstepped] at hmark
        rw [← hlast]
        exact h.unstepped hbefore (Bool.or_eq_false_iff.mp hmark.symm).2
      pending := fun {seqId payload events} hpending => by
        obtain ⟨before, hbefore, hok⟩ := h.pending hpending
        obtain ⟨known, hknown, hattached, hmark⟩ := hforth hbefore
        refine ⟨known, hknown, hattached.trans hok.attached, hok.wellFormed, hok.subset, ?_, hok.nonempty⟩
        intro layer hlayer
        have hunread := hok.unread_iff layer hlayer
        -- outside a step, what waits belongs to a sequence that has made no step
        have hbefore_iff : Unread run.step seqId before layer ↔ before.stepped = false := by
          unfold Unread
          rw [hnone]
          simp
        have hafter_iff : Unread (some ⟨seqIds.toFinset, seqIds.toFinset,
            seqIds.toFinset ×ˢ config.linearLayers.toFinset, ∅⟩) seqId known layer ↔
            known.stepped = false ∨ seqId ∈ seqIds := by
          unfold Unread
          simp [hok.wellFormed.declared layer hlayer]
        rw [hunread, hbefore_iff, hafter_iff, hmark]
        constructor
        · intro hnew
          by_cases hmem : seqId ∈ seqIds
          · exact .inr hmem
          · exact .inl (by simp [hmem, hnew])
        · intro hor
          by_contra hstepped
          have hempty : events.keys = [] := by
            rw [List.eq_nil_iff_forall_not_mem]
            intro other hother
            have hwait := (hok.unread_iff other (hok.subset hother)).mp hother
            unfold Unread at hwait
            rw [hnone] at hwait
            simp [hstepped] at hwait
          rw [hok.nonempty hempty] at hlayer
          exact nomatch hlayer
      content := fun {seqId row known} hrow hknown layer hlayer hwaiting name hname => by
        obtain ⟨before, hbefore, hattached, hlast, _⟩ := hback hknown
        have hcontent := h.content hrow hbefore layer hlayer hwaiting name hname
        unfold SeqHistory.value at hcontent ⊢
        rw [← hattached, ← hlast]
        exact hcontent
      unset := fun {seqId layer known} hwaiting hknown => by
        obtain ⟨before, hbefore, _, hlast, _⟩ := hback hknown
        rw [← hlast]
        exact h.unset hwaiting hbefore
      step_ok := fun {step} hstep => by
        obtain rfl := Option.some.inj hstep
        have hmem : ∀ entry ∈ seqIds.toFinset ×ˢ config.linearLayers.toFinset,
            entry.1 ∈ seqIds.toFinset ∧ entry.2 ∈ config.linearLayers := by
          intro entry hentry
          have hboth := Finset.mem_product.mp hentry
          exact ⟨hboth.1, List.mem_toFinset.mp hboth.2⟩
        refine ⟨hmem, by simp, by simp, fun seqId hbatch known hknown => ?_, fun _ hin hout =>
          absurd hin hout⟩
        obtain ⟨before, _, _, _, hmark⟩ := hback hknown
        simpa [List.mem_toFinset.mp hbatch] using hmark }

end Invariant

/-- Rows are allocated one after the other. -/
theorem wpe_prepareStep (seqIds : List ℕ) {history : ℕ → Option (SeqHistory Data)}
    (manager : RecurrentStateManager Data) (h : Invariant config ⟨manager, begun manager history, none⟩) :
    wpe (prepareStep seqIds) (fun _ after => Invariant config ⟨after, begun after history, none⟩)
      (fun after => Invariant config ⟨after, begun after history, none⟩) manager := by
  unfold prepareStep
  induction seqIds generalizing manager with
  | nil => exact h
  | cons seqId rest ih =>
      rw [forEach, wpe_bind]
      refine wpe_then_imp (wpe_allocateRow manager seqId) (fun row after hafter => ?_) fun after hafter => ?_
      · have hnext := h.allocated hafter fun _ hstep => by cases hstep
        dsimp only at hnext
        rw [begun_begun hafter] at hnext
        exact ih after hnext
      · obtain rfl := hafter.1
        exact h

/-- The calls keep the invariant, whether they return or raise. -/
def Kept (config : RecurrentConfig) (run : RecurrentRun Data) (call : RecurrentCall Data) : Prop :=
  wpe (call.run config)
    (fun _ after => Invariant config
      ⟨after, nextHistory after true run.history call, nextStep config true run.step call⟩)
    (fun after => Invariant config
      ⟨after, nextHistory after false run.history call, nextStep config false run.step call⟩)
    run.manager

theorem kept_prepare (h : Invariant config run) (hnone : run.step = none) (seqIds : List ℕ) :
    Kept config run (.prepare seqIds) := by
  have hstart : Invariant config ⟨run.manager, begun run.manager run.history, none⟩ := by
    rw [begun_eq_self h, ← hnone]
    exact h
  refine wpe_imp (wpe_prepareStep seqIds run.manager hstart) (fun _ after hafter => ?_) fun after hafter => ?_
  · refine hafter.begin_step rfl seqIds fun seqId => ?_
    dsimp only [nextHistory]
    simp only [true_and]
  · dsimp only [nextHistory, nextStep]
    simp only [Bool.false_eq_true, false_and, if_false]
    rw [hnone]
    exact hafter

end RecurrentRun
