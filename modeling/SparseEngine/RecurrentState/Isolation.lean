import SparseEngine.RecurrentState.History

/-!
# Isolation of recurrent state

The invariant of a run: a layer of a sequence waits for its payload exactly as
long as it has not been read, and the row of a layer that does not wait has
the content that the history of its sequence gives.

A call is about one sequence and its row.  What the invariant says of the
others carries over, as rows are not shared; the lemmas on single calls differ
in what they show of that one.
-/

namespace RecurrentRun

open Routine RecurrentStateManager

variable {Data : Type} {config : RecurrentConfig} {run : RecurrentRun Data}
  {manager : RecurrentStateManager Data} {seqId layer row : ℕ}

/-- A payload will be written to the layer when it is read. -/
def Waiting (manager : RecurrentStateManager Data) (seqId layer : ℕ) : Prop :=
  ∃ payload readinessEvents,
    manager.pendingPrefixPayloads.get? seqId = some (payload, readinessEvents) ∧
    layer ∈ readinessEvents.keys

theorem not_waiting_of_none (hnone : manager.pendingPrefixPayloads.get? seqId = none) :
    ¬ Waiting manager seqId layer := by
  rintro ⟨payload, events, hpending, _⟩
  exact nomatch hnone.symm.trans hpending

/-- A sequence has not read a layer since its payload was attached. -/
def Unread (step : Option ModelStep) (seqId : ℕ) (history : SeqHistory Data) (layer : ℕ) : Prop :=
  history.stepped = false ∨
    ∃ current, step = some current ∧ seqId ∈ current.live ∧ (seqId, layer) ∈ current.unread

/-- What holds of a pending payload. -/
structure PendingOk (config : RecurrentConfig) (step : Option ModelStep) (seqId : ℕ)
    (history : SeqHistory Data) (payload : RecurrentPrefixPayload Data)
    (readinessEvents : Dict ℕ ℕ) : Prop where
  attached : history.attached = some payload
  wellFormed : payload.WellFormed config
  subset : readinessEvents.keys ⊆ payload.layerStates.keys
  unread_iff : ∀ layer ∈ payload.layerStates.keys,
    layer ∈ readinessEvents.keys ↔ Unread step seqId history layer
  nonempty : readinessEvents.keys = [] → payload.layerStates.keys = []

/-- What holds of a step under way. -/
structure StepOk (config : RecurrentConfig) (run : RecurrentRun Data) (step : ModelStep) : Prop where
  unread_mem : ∀ entry ∈ step.unread, entry.1 ∈ step.batch ∧ entry.2 ∈ config.linearLayers
  settable_mem : ∀ entry ∈ step.settable, entry.1 ∈ step.batch ∧ entry.2 ∈ config.linearLayers
  disjoint : ∀ entry ∈ step.settable, entry ∉ step.unread
  stepped : ∀ seqId ∈ step.batch, ∀ history, run.history seqId = some history →
    history.stepped = true
  gone : ∀ seqId ∈ step.batch, seqId ∉ step.live →
    run.manager.pendingPrefixPayloads.get? seqId = none

variable {history : ℕ → Option (SeqHistory Data)} {freeRows : List ℕ}

theorem begun_of_some {known : SeqHistory Data} (hknown : history seqId = some known) :
    begun manager history seqId = some known := by
  unfold begun
  rw [hknown]

variable [Zero Data]

structure Invariant (config : RecurrentConfig) (run : RecurrentRun Data) : Prop where
  rows : Rows config run.manager
  resident_iff : ∀ seqId, run.history seqId = none ↔ run.manager.seqIdToRow.get? seqId = none
  unstepped : ∀ {seqId history}, run.history seqId = some history → history.stepped = false →
    ∀ layer, history.lastSet layer = none
  pending : ∀ {seqId payload readinessEvents},
    run.manager.pendingPrefixPayloads.get? seqId = some (payload, readinessEvents) →
    ∃ history, run.history seqId = some history ∧
      PendingOk config run.step seqId history payload readinessEvents
  content : ∀ {seqId row history}, run.manager.seqIdToRow.get? seqId = some row →
    run.history seqId = some history → ∀ layer ∈ config.linearLayers,
    ¬ Waiting run.manager seqId layer → ∀ name ∈ config.stateSpec.stateNames,
    run.manager.layerBuffers layer name row = history.value layer name
  unset : ∀ {seqId layer history}, Waiting run.manager seqId layer →
    run.history seqId = some history → history.lastSet layer = none
  step_ok : ∀ {step}, run.step = some step → StepOk config run step

theorem invariant_init : Invariant config
    (⟨RecurrentStateManager.init config, fun _ => none, none⟩ : RecurrentRun Data) where
  rows := rows_init
  resident_iff seqId := ⟨fun _ => Dict.get?_empty seqId, fun _ => rfl⟩
  unstepped hhistory := nomatch hhistory
  pending hpending := nomatch (Dict.get?_empty _).symm.trans hpending
  content hrow := nomatch (Dict.get?_empty _).symm.trans hrow
  unset _ hhistory := nomatch hhistory
  step_ok hstep := nomatch hstep

namespace Invariant

theorem resident (h : Invariant config run) (hrow : run.manager.seqIdToRow.get? seqId = some row) :
    ∃ history, run.history seqId = some history := by
  rcases hhistory : run.history seqId with _ | history
  · exact nomatch ((h.resident_iff seqId).mp hhistory).symm.trans hrow
  · exact ⟨history, rfl⟩

variable {history : SeqHistory Data} {step : ModelStep}

section

variable (h : Invariant config run)

include h

theorem row_of_history (hhistory : run.history seqId = some history) :
    ∃ row, run.manager.seqIdToRow.get? seqId = some row := by
  rcases hrow : run.manager.seqIdToRow.get? seqId with _ | row
  · exact nomatch ((h.resident_iff seqId).mpr hrow).symm.trans hhistory
  · exact ⟨row, rfl⟩

/-- A sequence without history has nothing pending. -/
theorem pending_none (hnone : run.history seqId = none) :
    run.manager.pendingPrefixPayloads.get? seqId = none := by
  rcases hpending : run.manager.pendingPrefixPayloads.get? seqId with _ | ⟨payload, events⟩
  · rfl
  · obtain ⟨history, hhistory, _⟩ := h.pending hpending
    exact nomatch hnone.symm.trans hhistory

/-- Neither has one without payload. -/
theorem pending_of_not_attached (hhistory : run.history seqId = some history)
    (hnone : history.attached = none) : run.manager.pendingPrefixPayloads.get? seqId = none := by
  rcases hpending : run.manager.pendingPrefixPayloads.get? seqId with _ | ⟨payload, events⟩
  · rfl
  · obtain ⟨known, hknown, hok⟩ := h.pending hpending
    obtain rfl := Option.some.inj (hhistory.symm.trans hknown)
    exact nomatch hnone.symm.trans hok.attached

/-- What a sequence of the batch waits for it has not read. -/
theorem unread_of_waiting (hstep : run.step = some step) (hbatch : seqId ∈ step.batch)
    (hwaiting : Waiting run.manager seqId layer) : (seqId, layer) ∈ step.unread := by
  obtain ⟨payload, events, hpending, hevent⟩ := hwaiting
  obtain ⟨history, hhistory, hok⟩ := h.pending hpending
  rcases (hok.unread_iff layer (hok.subset hevent)).mp hevent with hnew | ⟨current, hcurrent, _, hunread⟩
  · exact nomatch hnew.symm.trans ((h.step_ok hstep).stepped seqId hbatch history hhistory)
  · obtain rfl := Option.some.inj (hstep.symm.trans hcurrent)
    exact hunread

/-- A payload that is pending when a layer of it is to be read has its event. -/
theorem waiting_of_unread (hstep : run.step = some step) (hunread : (seqId, layer) ∈ step.unread)
    {payload : RecurrentPrefixPayload Data} {events : Dict ℕ ℕ}
    (hpending : run.manager.pendingPrefixPayloads.get? seqId = some (payload, events))
    (hlayer : layer ∈ payload.layerStates.keys) : layer ∈ events.keys := by
  obtain ⟨history, _, hok⟩ := h.pending hpending
  rw [hok.unread_iff layer hlayer]
  refine .inr ⟨step, hstep, ?_, hunread⟩
  by_contra hgone
  have hnone := (h.step_ok hstep).gone seqId ((h.step_ok hstep).unread_mem _ hunread).1 hgone
  exact nomatch hnone.symm.trans hpending

end

end Invariant

/-! ## Rows -/

/-- A sequence gets a row, and its history begins with zeros.  A sequence of the
batch of a step can only be one that was freed during the step. -/
theorem Invariant.got (h : Invariant config run) (hnone : run.manager.seqIdToRow.get? seqId = none)
    (hfree : run.manager.freeRows = row :: freeRows) (stepped : Bool)
    (hstepped : ∀ step, run.step = some step → seqId ∈ step.batch → stepped = true) :
    Invariant config ⟨run.manager.withRow seqId row freeRows,
      Function.update run.history seqId (some { SeqHistory.fresh with stepped := stepped }),
      run.step⟩ := by
  have hallocates := Allocates.got hnone hfree
  have hhistory : run.history seqId = none := (h.resident_iff seqId).mpr hnone
  have hrow_free : row ∈ run.manager.freeRows := hfree ▸ List.mem_cons_self
  exact
    { rows := hallocates.rows h.rows
      resident_iff := fun other => by
        by_cases hne : other = seqId
        · subst hne
          dsimp only
          rw [Function.update_self, hallocates.row_eq]
          exact ⟨nofun, nofun⟩
        · dsimp only
          rw [Function.update_of_ne hne, hallocates.other_eq hne]
          exact h.resident_iff other
      unstepped := fun {other history} hknown => by
        by_cases hne : other = seqId
        · subst hne
          dsimp only at hknown
          rw [Function.update_self] at hknown
          obtain rfl := Option.some.inj hknown
          exact fun _ _ => rfl
        · dsimp only at hknown
          rw [Function.update_of_ne hne] at hknown
          exact h.unstepped hknown
      pending := fun {other payload events} hpending => by
        -- a sequence without a row has nothing pending
        have hne : other ≠ seqId := by
          rintro rfl
          exact nomatch (h.pending_none hhistory).symm.trans hpending
        obtain ⟨history, hknown, hok⟩ := h.pending hpending
        exact ⟨history, (Function.update_of_ne hne _ _).trans hknown, hok⟩
      content := fun {other row' history} hrow' hknown layer hlayer hwaiting name hname => by
        by_cases hne : other = seqId
        · subst hne
          dsimp only at hknown
          rw [Function.update_self] at hknown
          obtain rfl := Option.some.inj hknown
          obtain rfl := Option.some.inj (hallocates.row_eq.symm.trans hrow')
          exact if_pos rfl
        · dsimp only at hknown hrow'
          rw [Function.update_of_ne hne] at hknown
          rw [hallocates.other_eq hne] at hrow'
          -- the new row was free, so it is nobody else's:
          have hne_row : row' ≠ row := by
            rintro rfl
            exact (h.rows.mem_freeRows_iff.mp hrow_free).2 other hrow'
          exact (hallocates.buffers_of_ne hne_row layer name).trans
            (h.content hrow' hknown layer hlayer hwaiting name hname)
      unset := fun {other layer history} hwaiting hknown => by
        have hne : other ≠ seqId := by
          rintro rfl
          exact not_waiting_of_none (h.pending_none hhistory) hwaiting
        dsimp only at hknown
        rw [Function.update_of_ne hne] at hknown
        exact h.unset hwaiting hknown
      step_ok := fun {step} hstep => by
        have hok := h.step_ok hstep
        refine ⟨hok.unread_mem, hok.settable_mem, hok.disjoint, fun other hother history hknown => ?_, hok.gone⟩
        by_cases hne : other = seqId
        · subst hne
          dsimp only at hknown
          rw [Function.update_self] at hknown
          obtain rfl := Option.some.inj hknown
          exact hstepped step hstep hother
        · dsimp only at hknown
          rw [Function.update_of_ne hne] at hknown
          exact hok.stepped other hother history hknown }

/-- Histories that have begun already. -/
theorem begun_eq_self (h : Invariant config run) : begun run.manager run.history = run.history := by
  funext seqId
  unfold begun
  rcases hhistory : run.history seqId with _ | known
  · dsimp only
    rw [(h.resident_iff seqId).mp hhistory]
    rfl
  · rfl

/-- The history that begins with a new row. -/
theorem begun_withRow (h : Invariant config run) (hnone : run.manager.seqIdToRow.get? seqId = none) :
    begun (run.manager.withRow seqId row freeRows) run.history = Function.update run.history seqId (some .fresh) := by
  funext other
  by_cases hne : other = seqId
  · subst hne
    have hrow : (run.manager.withRow other row freeRows).seqIdToRow.get? other = some row :=
      Dict.get?_set_self _ _ _
    rw [Function.update_self]
    unfold begun
    rw [(h.resident_iff other).mpr hnone, hrow]
    rfl
  · have hrow : (run.manager.withRow seqId row freeRows).seqIdToRow.get? other =
        run.manager.seqIdToRow.get? other := Dict.get?_set_of_ne _ _ hne
    rw [Function.update_of_ne hne, ← congrFun (begun_eq_self h) other]
    unfold begun
    rw [hrow]

/-- A row is allocated outside the batch of a step. -/
theorem Invariant.allocated (h : Invariant config run) {next : RecurrentStateManager Data}
    (hnext : Allocates run.manager seqId row next) (hbatch : ∀ step, run.step = some step → seqId ∉ step.batch) :
    Invariant config ⟨next, begun next run.history, run.step⟩ := by
  cases hnext with
  | had hrow =>
      rw [begun_eq_self h]
      exact h
  | got hnone hfree =>
      rw [begun_withRow h hnone]
      exact h.got hnone hfree false fun step hstep hmem => absurd hmem (hbatch step hstep)

theorem begun_begun {first second : RecurrentStateManager Data} (hnext : Allocates first seqId row second) :
    begun second (begun first history) = begun second history := by
  funext other
  unfold begun
  rcases history other with _ | known
  · rcases hrow : first.seqIdToRow.get? other with _ | row'
    · rfl
    · have hsecond : (second.seqIdToRow.get? other).isSome := by
        by_cases hne : other = seqId
        · subst hne
          rw [hnext.row_eq]
          rfl
        · rw [hnext.other_eq hne, hrow]
          rfl
      simp [hsecond]
  · rfl

end RecurrentRun
