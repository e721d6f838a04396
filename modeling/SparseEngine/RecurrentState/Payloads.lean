import SparseEngine.RecurrentState.Calls

/-!
# Prefix payloads

A payload is attached before the first step of a sequence: with readiness
events it waits, without them all its layers are written at once.  What waits
is written when its layer is read.
-/

namespace RecurrentStateManager

open Routine

variable {Data : Type} {config : RecurrentConfig} {manager : RecurrentStateManager Data}
  {seqId layer row : ℕ}

/-- The content of the tensors of several layers. -/
def contentOfLayers (entries : List (ℕ × LayerState Data)) (layer : ℕ) (name : String) : Option Data :=
  (entries.lookup layer).bind fun states => contentOf states name

/-- The content of a row of several layers, where there is a new one. -/
def overwriteLayers (row : ℕ) (entries : List (ℕ × LayerState Data))
    (manager : RecurrentStateManager Data) : RecurrentStateManager Data :=
  { manager with layerBuffers := fun layer name row' =>
      if row' = row then (contentOfLayers entries layer name).getD (manager.layerBuffers layer name row')
      else manager.layerBuffers layer name row' }

theorem overwriteLayers_nil (row : ℕ) (manager : RecurrentStateManager Data) :
    manager.overwriteLayers row [] = manager := by
  unfold overwriteLayers contentOfLayers
  simp

variable {states : LayerState Data}

theorem overwriteLayers_cons {rest : List (ℕ × LayerState Data)} (hnodup : layer ∉ rest.map Prod.fst) :
    (manager.overwrite layer row (contentOf states)).overwriteLayers row rest =
      manager.overwriteLayers row ((layer, states) :: rest) := by
  have hlookup : rest.lookup layer = none := by
    rw [List.lookup_eq_none_iff]
    intro other hother
    have hne : layer ≠ other.1 := by
      rintro rfl
      exact hnodup (List.mem_map_of_mem hother)
    simpa using hne
  unfold overwriteLayers overwrite contentOfLayers
  congr 1
  funext layer' name row'
  by_cases hrow : row' = row
  · subst hrow
    by_cases hlayer : layer' = layer
    · subst hlayer
      simp [hlookup]
    · simp [hlayer, List.lookup_cons, beq_false_of_ne hlayer]
  · simp [hrow]

variable [Zero Data]

/-- All layers of a resident sequence are written. -/
theorem wpe_setLayers_of_row (entries : List (ℕ × LayerState Data)) (hnodup : (entries.map Prod.fst).Nodup)
    (hentries : ∀ entry ∈ entries, entry.1 ∈ config.linearLayers ∧ WellTyped config entry.2)
    (manager : RecurrentStateManager Data) (hrow : manager.seqIdToRow.get? seqId = some row) :
    wpe (forEach (fun entry => setLayerState config seqId entry.1 entry.2) entries)
      (fun _ after => after = manager.overwriteLayers row entries) (fun _ => False) manager := by
  induction entries generalizing manager with
  | nil => exact (overwriteLayers_nil row manager).symm
  | cons entry rest ih =>
      obtain ⟨layer, states⟩ := entry
      rw [List.map_cons, List.nodup_cons] at hnodup
      rw [List.forall_mem_cons] at hentries
      rw [forEach]
      refine wpe_then_imp (wpe_setLayerState hentries.1.2 hentries.1.1 manager seqId)
        (fun _ after hafter => ?_) fun after hafter => by cases hafter.2.1.symm.trans hrow
      obtain ⟨row', middle, hmiddle, rfl⟩ := hafter
      cases hmiddle with
      | got hnone _ => cases hnone.symm.trans hrow
      | had hrow' =>
          obtain rfl := Option.some.inj (hrow.symm.trans hrow')
          refine wpe_mono (ih hnodup.2 hentries.2 _ hrow) fun _ last hlast => ?_
          rw [hlast]
          exact overwriteLayers_cons hnodup.1

/-- With the first layer a sequence gets its row. -/
theorem wpe_setLayers (entries : List (ℕ × LayerState Data)) (hnodup : (entries.map Prod.fst).Nodup)
    (hentries : ∀ entry ∈ entries, entry.1 ∈ config.linearLayers ∧ WellTyped config entry.2)
    (manager : RecurrentStateManager Data) (seqId : ℕ) :
    wpe (forEach (fun entry => setLayerState config seqId entry.1 entry.2) entries)
      (fun _ after =>
        (manager.seqIdToRow.get? seqId = none ∧ entries = [] ∧ after = manager) ∨
        ∃ row middle, Allocates manager seqId row middle ∧ after = middle.overwriteLayers row entries)
      (fun after => after = manager ∧ manager.Full seqId) manager := by
  cases entries with
  | nil =>
      rw [forEach, wpe_pure]
      rcases hrow : manager.seqIdToRow.get? seqId with _ | row
      · exact .inl ⟨rfl, rfl, rfl⟩
      · exact .inr ⟨row, manager, .had hrow, (overwriteLayers_nil row manager).symm⟩
  | cons entry rest =>
      obtain ⟨layer, states⟩ := entry
      rw [List.map_cons, List.nodup_cons] at hnodup
      rw [List.forall_mem_cons] at hentries
      rw [forEach]
      refine wpe_then (wpe_setLayerState hentries.1.2 hentries.1.1 manager seqId) fun _ after hafter => ?_
      obtain ⟨row, middle, hmiddle, rfl⟩ := hafter
      refine wpe_imp (wpe_setLayers_of_row rest hnodup.2 hentries.2 _ hmiddle.row_eq)
        (fun _ last hlast => ?_) fun _ => False.elim
      refine .inr ⟨row, middle, hmiddle, ?_⟩
      rw [hlast]
      exact overwriteLayers_cons hnodup.1

/-- A payload of a boundary is attached, unless there is no row for the
sequence. -/
theorem wpe_attach {payload : RecurrentPrefixPayload Data} {readinessEvents : Option (Dict ℕ ℕ)}
    (hwell : payload.WellFormed config) (hpositive : 0 < payload.tokenCount)
    (hboundary : 0 < config.prefixCacheBlockSize → payload.tokenCount % config.prefixCacheBlockSize = 0)
    (hevents : ∀ events, readinessEvents = some events →
      ∀ layer, layer ∈ events.keys ↔ layer ∈ payload.layerStates.keys) :
    wpe (attachPrefixRecurrentPayload config seqId (some payload) readinessEvents) (fun _ _ => True)
      (fun _ => manager.Full seqId) manager := by
  show wpe (raiseIf _ _ >>= _) _ _ _
  rw [wpe_guard]
  refine ⟨fun hnot => absurd hpositive (not_lt.mpr hnot), fun _ => ?_⟩
  rw [wpe_guard]
  refine ⟨fun hnot => absurd (hboundary hnot.1) hnot.2, fun _ => ?_⟩
  cases readinessEvents with
  | some events =>
      show wpe (raiseIf _ _ >>= _) _ _ _
      rw [wpe_guard]
      refine ⟨fun hnot => absurd ?_ hnot, fun _ => ?_⟩
      · exact ⟨fun layer hlayer => (hevents events rfl layer).mp hlayer,
          fun layer hlayer => (hevents events rfl layer).mpr hlayer⟩
      · refine wpe_then_imp (wpe_allocateRow manager seqId) (fun _ _ _ => ?_) fun _ hafter => hafter.2
        rw [wpe_write]
        trivial
  | none =>
      refine wpe_imp (wpe_setLayers payload.layerStates.entries payload.layerStates.nodup_keys
        (fun entry hentry => ?_) manager seqId) (fun _ _ _ => trivial) fun _ hafter => hafter.2
      have hstates := Dict.get?_eq_some_iff.mpr hentry
      exact ⟨hwell.declared _ (Dict.mem_keys_of_get? hstates), hwell.wellTyped hstates⟩

omit [Zero Data] in
/-- A well typed state has every declared tensor. -/
theorem WellTyped.content_isSome (h : WellTyped config states) {name : String}
    (hname : name ∈ config.stateSpec.stateNames) : ∃ data, contentOf states name = some data := by
  obtain ⟨value, hvalue⟩ := Dict.mem_keys_iff.mp ((h.names name).mpr hname)
  exact ⟨value.data, by rw [contentOf, hvalue, Option.map_some]⟩

end RecurrentStateManager

namespace RecurrentRun

open Routine RecurrentStateManager

variable {Data : Type} {config : RecurrentConfig} {run : RecurrentRun Data}
  {manager next : RecurrentStateManager Data} {seqId layer row : ℕ}
  {payload : RecurrentPrefixPayload Data} {readinessEvents : Dict ℕ ℕ} {capturing : Bool}

/-! ## Attaching -/

variable {history : ℕ → Option (SeqHistory Data)} {step : ModelStep}

/-- A sequence that may get a payload has done nothing. -/
theorem begun_untouched (hrow : manager.seqIdToRow.get? seqId = some row)
    (huntouched : ∀ known, history seqId = some known → known.stepped = false ∧ known.attached = none) :
    ∃ known, begun manager history seqId = some known ∧ known.stepped = false ∧ known.attached = none := by
  rcases hhistory : history seqId with _ | known
  · refine ⟨.fresh, ?_, rfl, rfl⟩
    unfold begun
    rw [hhistory, hrow]
    rfl
  · exact ⟨known, begun_of_some hhistory, huntouched known hhistory⟩

theorem nextHistory_attach {known : SeqHistory Data} (payload : RecurrentPrefixPayload Data)
    (events : Option (Dict ℕ ℕ)) (hknown : begun manager history seqId = some known) :
    nextHistory manager true history (.attach seqId (some payload) events) =
      Function.update (begun manager history) seqId (some { known with attached := some payload }) := by
  dsimp only [nextHistory]
  rw [hknown, Option.map_some]

variable [Zero Data]

/-- A sequence that has done nothing has zeros. -/
theorem SeqOk.zero {history : SeqHistory Data} (h : SeqOk config manager run.step seqId row history)
    (hstepped : history.stepped = false) (hattached : history.attached = none)
    (hlayer : layer ∈ config.linearLayers) {name : String} (hname : name ∈ config.stateSpec.stateNames)
    (hpending : manager.pendingPrefixPayloads.get? seqId = none) :
    manager.layerBuffers layer name row = 0 := by
  rw [h.content layer hlayer (not_waiting_of_none hpending) name hname]
  unfold SeqHistory.value
  rw [h.unstepped hstepped layer, hattached]
  rfl

section Attach

variable {known : SeqHistory Data} (h : Invariant config run)
  (hrow : run.manager.seqIdToRow.get? seqId = some row) (hknown : run.history seqId = some known)
  (hstepped : known.stepped = false) (hattached : known.attached = none)

include h hrow hknown hstepped hattached

/-- The payload waits. -/
theorem Invariant.attached_waiting (hwell : payload.WellFormed config)
    (hevents : readinessEvents.keys ⊆ payload.layerStates.keys)
    (hlayers : payload.layerStates.keys ⊆ readinessEvents.keys) :
    Invariant config ⟨run.manager.setPending seqId payload readinessEvents,
      Function.update run.history seqId (some { known with attached := some payload }),
      run.step⟩ := by
  have hok := h.seqOk hrow hknown
  have hpending := h.pending_of_not_attached hknown hattached
  have hset : (run.manager.setPending seqId payload readinessEvents).pendingPrefixPayloads.get? seqId =
      some (payload, readinessEvents) := Dict.get?_set_self _ _ _
  refine h.changed hrow ⟨rfl, rfl, rfl⟩ (Function.update_self _ _ _)
    (fun other hne => Function.update_of_ne hne _ _) (fun other hne => Dict.get?_set_of_ne _ _ hne)
    (fun _ _ _ _ => rfl) (fun _ _ _ _ => Iff.rfl) ?_ fun {current} hcurrent => ?_
  · exact
      { unstepped := hok.unstepped
        pending := fun {payload' events'} hthere => by
          obtain ⟨rfl, rfl⟩ := Prod.mk.inj (Option.some.inj (hset.symm.trans hthere))
          refine ⟨rfl, hwell, hevents, fun layer hlayer => ?_, fun hempty => ?_⟩
          · exact ⟨fun _ => .inl hstepped, fun _ => hlayers hlayer⟩
          · rw [hempty] at hlayers
            exact List.eq_nil_of_subset_nil hlayers
        content := fun layer hlayer hnot name hname => by
          have hnone : payload.layerStates.get? layer = none := by
            rw [← Dict.not_mem_keys_iff]
            exact fun hmem => hnot ⟨payload, readinessEvents, hset, hlayers hmem⟩
          unfold SeqHistory.value
          dsimp only
          rw [hok.unstepped hstepped layer, Option.bind_some, hnone]
          exact hok.zero hstepped hattached hlayer hname hpending
        unset := fun _ => hok.unstepped hstepped _ }
  · have hthere := h.step_ok hcurrent
    have hout : seqId ∉ current.batch := fun hmem =>
      nomatch hstepped.symm.trans (hthere.stepped seqId hmem known hknown)
    refine hthere.congr (fun other hother history hhistory => ?_) fun other hother hgone => ?_
    · have hne : other ≠ seqId := fun heq => hout (heq ▸ hother)
      dsimp only at hhistory
      rw [Function.update_of_ne hne] at hhistory
      exact hthere.stepped other hother history hhistory
    · have hne : other ≠ seqId := fun heq => hout (heq ▸ hother)
      exact (Dict.get?_set_of_ne _ _ hne).trans (hthere.gone other hother hgone)

/-- The payload is written. -/
theorem Invariant.attached_written :
    Invariant config ⟨run.manager.overwriteLayers row payload.layerStates.entries,
      Function.update run.history seqId (some { known with attached := some payload }),
      run.step⟩ := by
  have hok := h.seqOk hrow hknown
  have hpending := h.pending_of_not_attached hknown hattached
  refine h.changed hrow ⟨rfl, rfl, rfl⟩ (Function.update_self _ _ _)
    (fun other hne => Function.update_of_ne hne _ _) (fun _ _ => rfl)
    (fun _ _ _ hne => if_neg hne) (fun _ _ _ _ => Iff.rfl) ?_ fun {current} hcurrent => ?_
  · exact
      { unstepped := hok.unstepped
        pending := fun hthere => nomatch hpending.symm.trans hthere
        content := fun layer hlayer _ name hname => by
          have hzero := hok.zero hstepped hattached hlayer hname hpending
          show (if row = row then _ else _) = _
          rw [if_pos rfl, hzero]
          unfold SeqHistory.value
          dsimp only
          rw [hok.unstepped hstepped layer, Option.bind_some]
          show ((payload.layerStates.get? layer).bind fun states => contentOf states name).getD 0 = _
          rcases hstates : payload.layerStates.get? layer with _ | states
          · rfl
          · rfl
        unset := fun _ => hok.unstepped hstepped _ }
  · have hthere := h.step_ok hcurrent
    refine hthere.congr (fun other hother history hhistory => ?_) hthere.gone
    have hne : other ≠ seqId := by
      rintro rfl
      exact nomatch hstepped.symm.trans (hthere.stepped other hother known hknown)
    dsimp only at hhistory
    rw [Function.update_of_ne hne] at hhistory
    exact hthere.stepped other hother history hhistory

end Attach

/-- A call that raises without having changed anything. -/
theorem Invariant.unchanged (h : Invariant config run) :
    Invariant config ⟨run.manager, begun run.manager run.history, run.step⟩ := by
  rw [begun_eq_self h]
  exact h

theorem kept_attach (h : Invariant config run) {payload : Option (RecurrentPrefixPayload Data)}
    {readinessEvents : Option (Dict ℕ ℕ)} (hproper : run.Proper config (.attach seqId payload readinessEvents)) :
    Kept config run (.attach seqId payload readinessEvents) := by
  obtain ⟨hbatch, huntouched, hwell⟩ := hproper
  cases payload with
  | none => exact h.unchanged
  | some payload =>
      have hpayload := hwell payload rfl
      show wpe (raiseIf _ _ >>= _) _ _ _
      refine wpe_guarded h.unchanged fun _ => ?_
      refine wpe_guarded h.unchanged fun _ => ?_
      cases readinessEvents with
      | some readinessEvents =>
          show wpe (raiseIf _ _ >>= _) _ _ _
          refine wpe_guarded h.unchanged fun hkeys => ?_
          rw [not_not] at hkeys
          refine wpe_then_imp (wpe_allocateRow run.manager seqId) (fun row middle hmiddle => ?_)
            fun after hafter => ?_
          · rw [wpe_write]
            have hnext := h.allocated hmiddle hbatch
            obtain ⟨known, hknown, hstepped, hattached⟩ :=
              begun_untouched hmiddle.row_eq huntouched
            have hhistory := nextHistory_attach payload (some readinessEvents) hknown
            show Invariant config ⟨middle.setPending seqId payload readinessEvents, nextHistory middle true
              run.history (.attach seqId (some payload) (some readinessEvents)), run.step⟩
            rw [hhistory]
            exact hnext.attached_waiting hmiddle.row_eq hknown hstepped hattached hpayload hkeys.1 hkeys.2
          · rw [hafter.1]
            exact h.unchanged
      | none =>
          refine wpe_imp (wpe_setLayers payload.layerStates.entries payload.layerStates.nodup_keys ?_
            run.manager seqId) (fun _ after hafter => ?_) fun after hafter => ?_
          · intro entry hentry
            have hstates := Dict.get?_eq_some_iff.mpr hentry
            exact ⟨hpayload.declared _ (Dict.mem_keys_of_get? hstates), hpayload.wellTyped hstates⟩
          · rcases hafter with ⟨hnone, _, rfl⟩ | ⟨row, middle, hmiddle, rfl⟩
            · -- without a row and without layers nothing happens
              have hhistory : run.history seqId = none := (h.resident_iff seqId).mpr hnone
              show Invariant config ⟨run.manager, Function.update (begun run.manager run.history) seqId
                ((begun run.manager run.history seqId).map _), run.step⟩
              rw [begun_eq_self h, hhistory, Option.map_none, ← hhistory, Function.update_eq_self]
              exact h
            · have hnext := h.allocated hmiddle hbatch
              obtain ⟨known, hknown, hstepped, hattached⟩ :=
                begun_untouched hmiddle.row_eq huntouched
              have hhistory := nextHistory_attach payload none hknown
              show Invariant config ⟨middle.overwriteLayers row payload.layerStates.entries, nextHistory
                middle true run.history (.attach seqId (some payload) none), run.step⟩
              rw [hhistory]
              exact hnext.attached_written hmiddle.row_eq hknown hstepped hattached
          · rw [hafter.1]
            exact h.unchanged

/-! ## Reading -/

section

variable (h : Invariant config run)

include h

section

variable (hstep : run.step = some step) (hunread : (seqId, layer) ∈ step.unread)

include hstep hunread

/-- The step under way after a read. -/
theorem step_ok_read {current : ModelStep}
    (hcurrent : nextStep config true run.step (.read capturing seqId layer : RecurrentCall Data) =
      some current) : StepOk config run current := by
  rw [hstep] at hcurrent
  obtain rfl := Option.some.inj hcurrent
  exact (h.step_ok hstep).read hunread

/-- Nothing waits for the layer that is read. -/
theorem Invariant.read_unchanged
    (hpayload : ∀ payload events, run.manager.pendingPrefixPayloads.get? seqId =
      some (payload, events) → layer ∉ payload.layerStates.keys) :
    Invariant config ⟨run.manager, run.history,
      nextStep config true run.step (.read capturing seqId layer : RecurrentCall Data)⟩ := by
  refine h.restep (fun {other payload events} hpending history layer' hlayer' => ?_) (step_ok_read h hstep hunread)
  by_cases hne : other = seqId
  · subst hne
    have hpair : (other, layer') ≠ (other, layer) := by
      intro heq
      obtain rfl := congrArg Prod.snd heq
      exact hpayload payload events hpending hlayer'
    rw [hstep]
    unfold Unread
    simp [nextStep, hpair]
  · exact unread_read_iff hne history layer'

/-- The layer that is read is written from the payload, and its event is
used. -/
theorem Invariant.materialized (hrow : run.manager.seqIdToRow.get? seqId = some row)
    (hpending : run.manager.pendingPrefixPayloads.get? seqId = some (payload, readinessEvents))
    {states : LayerState Data} (hstates : payload.layerStates.get? layer = some states)
    (hrows : next.seqIdToRow = run.manager.seqIdToRow ∧ next.rowToSeqId = run.manager.rowToSeqId ∧
      next.freeRows = run.manager.freeRows)
    (hbuffers : next.layerBuffers = (run.manager.overwrite layer row (contentOf states)).layerBuffers)
    (hothers : ∀ other, other ≠ seqId →
      next.pendingPrefixPayloads.get? other = run.manager.pendingPrefixPayloads.get? other)
    (hself : next.pendingPrefixPayloads.get? seqId = if (readinessEvents.erase layer).keys = [] then none
      else some (payload, readinessEvents.erase layer)) :
    Invariant config ⟨next, run.history,
      nextStep config true run.step (.read capturing seqId layer : RecurrentCall Data)⟩ ∧
      ¬ Waiting next seqId layer := by
  obtain ⟨known, hknown, hok⟩ := h.pending hpending
  have hseq := h.seqOk hrow hknown
  -- an unread layer of a pending payload still has its event:
  have hevent := h.waiting_of_unread hstep hunread hpending (Dict.mem_keys_of_get? hstates)
  have hstepped := (h.step_ok hstep).stepped seqId ((h.step_ok hstep).unread_mem _ hunread).1 known hknown
  have hkeys : ∀ {other}, other ∈ (readinessEvents.erase layer).keys ↔
      other ∈ readinessEvents.keys ∧ other ≠ layer := by
    intro other
    rw [Dict.keys_erase]
    simp
  have hwaiting : ∀ {other}, Waiting next seqId other ↔ other ∈ (readinessEvents.erase layer).keys := by
    intro other
    unfold Waiting
    rw [hself]
    split
    · next hempty => simp [hempty]
    · simp
  have hwaited : ∀ {other}, Waiting run.manager seqId other ↔ other ∈ readinessEvents.keys := by
    intro other
    unfold Waiting
    rw [hpending]
    simp
  refine ⟨?_, fun hwait => (hkeys.mp (hwaiting.mp hwait)).2 rfl⟩
  refine h.changed hrow hrows hknown (fun _ _ => rfl) hothers (fun layer' name row' hne => ?_)
    (fun other hne history layer' => unread_read_iff hne history layer') ?_ fun hcurrent => ?_
  · rw [hbuffers]
    exact if_neg fun hboth => hne hboth.2
  · exact
      { unstepped := hseq.unstepped
        pending := fun {payload' events'} hthere => by
          rw [hself] at hthere
          split at hthere
          · exact nomatch hthere
          · next hleft =>
              obtain ⟨rfl, rfl⟩ := Prod.mk.inj (Option.some.inj hthere)
              refine ⟨hok.attached, hok.wellFormed, fun other hother => hok.subset (hkeys.mp hother).1,
                fun layer' hlayer' => ?_, fun hempty => absurd hempty hleft⟩
              rw [hkeys, hok.unread_iff layer' hlayer', hstep]
              unfold Unread
              simp only [hstepped, nextStep, Option.map_some, Option.some.injEq, exists_eq_left',
                Finset.mem_erase, ne_eq, Prod.mk.injEq, true_and, Bool.true_eq_false, false_or]
              exact ⟨fun hthere => ⟨hthere.1.1, hthere.2, hthere.1.2⟩,
                fun hthere => ⟨⟨hthere.1, hthere.2.2⟩, hthere.2.1⟩⟩
        content := fun layer' hlayer' hnot name hname => by
          rw [hbuffers]
          -- the layer read now has the values of the snapshot; the others are untouched
          by_cases hsame : layer' = layer
          · subst hsame
            obtain ⟨data, hdata⟩ := (hok.wellFormed.wellTyped hstates).content_isSome hname
            show (if layer' = layer' ∧ row = row then _ else _) = _
            rw [if_pos ⟨rfl, rfl⟩, hdata]
            unfold SeqHistory.value
            rw [hseq.unset (hwaited.mpr hevent), hok.attached, Option.bind_some, hstates]
            dsimp only
            rw [hdata]
            rfl
          · have hnot_before : ¬ Waiting run.manager seqId layer' := fun hwait =>
              hnot (hwaiting.mpr (hkeys.mpr ⟨hwaited.mp hwait, hsame⟩))
            refine Eq.trans (if_neg fun hboth => hsame hboth.1) ?_
            exact hseq.content layer' hlayer' hnot_before name hname
        unset := fun hwait => hseq.unset (hwaited.mpr (hkeys.mp (hwaiting.mp hwait)).1) }
  · have hthere := step_ok_read h hstep hunread hcurrent
    refine hthere.congr hthere.stepped fun other hbatch hgone => ?_
    have hne : other ≠ seqId := by
      rintro rfl
      exact nomatch (hthere.gone other hbatch hgone).symm.trans hpending
    rw [hothers other hne]
    exact hthere.gone other hbatch hgone

end

/-- Whatever waits for a layer has reached its row when the read is over. -/
theorem wpe_materialize (hproper : run.Proper config (.read capturing seqId layer)) :
    wpe (materializePendingPrefixLayer config capturing seqId layer)
      (fun _ after => Invariant config ⟨after, run.history,
          nextStep config true run.step (.read capturing seqId layer : RecurrentCall Data)⟩ ∧
        ¬ Waiting after seqId layer ∧ after.seqIdToRow = run.manager.seqIdToRow)
      (fun _ => False) run.manager := by
  obtain ⟨⟨step, hstep, hunread⟩, hcapture⟩ := hproper
  rw [materializePendingPrefixLayer, wpe_get]
  rcases hpending : run.manager.pendingPrefixPayloads.get? seqId with _ | ⟨payload, events⟩
  · rw [wpe_pure]
    have hnever : ∀ payload events, run.manager.pendingPrefixPayloads.get? seqId =
        some (payload, events) → layer ∉ payload.layerStates.keys := fun payload events hthere =>
      nomatch hpending.symm.trans hthere
    exact ⟨h.read_unchanged hstep hunread hnever, not_waiting_of_none hpending, rfl⟩
  dsimp only
  rcases hstates : payload.layerStates.get? layer with _ | states
  · have hnot := Dict.not_mem_keys_iff.mpr hstates
    rw [wpe_pure]
    refine ⟨h.read_unchanged hstep hunread fun payload' events' hthere => ?_, ?_, rfl⟩
    · obtain ⟨rfl, _⟩ := Prod.mk.inj (Option.some.inj (hpending.symm.trans hthere))
      exact hnot
    · rintro ⟨payload', events', hthere, hevent⟩
      obtain ⟨rfl, rfl⟩ := Prod.mk.inj (Option.some.inj (hpending.symm.trans hthere))
      obtain ⟨_, _, hok⟩ := h.pending hpending
      exact hnot (hok.subset hevent)
  dsimp only
  have hlayer := Dict.mem_keys_of_get? hstates
  obtain ⟨event, hevent⟩ :=
    Dict.mem_keys_iff.mp (h.waiting_of_unread hstep hunread hpending hlayer)
  obtain ⟨known, hknown, hok⟩ := h.pending hpending
  obtain ⟨row, hrow⟩ := h.row_of_history hknown
  rw [hevent]
  dsimp only
  rw [wpe_set, wpe_guard]
  refine ⟨fun hcapturing => ?_, fun _ => ?_⟩
  · exact nomatch (hcapture hcapturing).symm.trans hpending
  refine wpe_then_imp (wpe_setLayerState (hok.wellFormed.wellTyped hstates)
    (hok.wellFormed.declared layer hlayer) _ seqId) (fun _ after hafter => ?_)
    fun after hafter => by cases hafter.2.1.symm.trans hrow
  obtain ⟨row', middle, hmiddle, rfl⟩ := hafter
  cases hmiddle with
  | got hnone _ => exact nomatch hnone.symm.trans hrow
  | had hrow' =>
      obtain rfl := Option.some.inj (hrow.symm.trans hrow')
      rw [wpe_whenDo]
      -- the payload goes with its last event
      refine ⟨fun hempty => ?_, fun hleft => ?_⟩
      · rw [wpe_write]
        refine and_assoc.mp ⟨h.materialized hstep hunread hrow hpending hstates ⟨rfl, rfl, rfl⟩ rfl
          (fun other hne => ?_) ?_, rfl⟩
        · exact (Dict.get?_erase _ _ _).trans ((if_neg hne).trans (Dict.get?_set_of_ne _ _ hne))
        · rw [if_pos hempty]
          exact (Dict.get?_erase _ _ _).trans (if_pos rfl)
      · refine and_assoc.mp ⟨h.materialized hstep hunread hrow hpending hstates ⟨rfl, rfl, rfl⟩ rfl
          (fun other hne => Dict.get?_set_of_ne _ _ hne) ?_, rfl⟩
        rw [if_neg hleft]
        exact Dict.get?_set_self _ _ _

end

end RecurrentRun
