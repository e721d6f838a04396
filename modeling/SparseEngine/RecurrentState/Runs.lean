import SparseEngine.RecurrentState.Payloads

/-!
# Every run isolates its sequences

The remaining calls, the invariant of every run, and what it says of reads and
snapshots.
-/

namespace RecurrentStateManager

variable {Data : Type} {config : RecurrentConfig} {manager : RecurrentStateManager Data}
  {seqId row : ℕ}

/-- What a sequence without row leaves. -/
def withoutRow (seqId row : ℕ) (manager : RecurrentStateManager Data) : RecurrentStateManager Data :=
  { manager with
    seqIdToRow := manager.seqIdToRow.erase seqId
    rowToSeqId := manager.rowToSeqId.set row none
    freeRows := manager.freeRows ++ [row] }

theorem Rows.withoutRow (h : Rows config manager) (hrow : manager.seqIdToRow.get? seqId = some row) :
    Rows config (manager.withoutRow seqId row) := by
  have howner := (h.inverse seqId row).mp hrow
  have hlt : row < manager.rowToSeqId.length := (List.getElem?_eq_some_iff.mp howner).1
  have hused : row ∉ manager.freeRows := fun hfree =>
    nomatch howner.symm.trans ((h.free_iff row).mp hfree)
  exact
    { length_eq := by
        show (manager.rowToSeqId.set row none).length = _
        rw [List.length_set, h.length_eq]
      inverse := fun other row' => by
        show (manager.seqIdToRow.erase seqId).get? other = some row' ↔ (manager.rowToSeqId.set row none)[row']? = _
        rw [Dict.get?_erase, List.getElem?_set]
        by_cases hother : other = seqId
        · subst hother
          rw [if_pos rfl]
          by_cases hrow' : row = row'
          · subst hrow'
            simp [hlt]
          · have hnot : manager.rowToSeqId[row']? ≠ some (some other) := fun howner' =>
              hrow' (Option.some.inj (hrow.symm.trans ((h.inverse other row').mpr howner')))
            simp [hrow', hnot]
        · rw [if_neg hother]
          by_cases hrow' : row = row'
          · subst hrow'
            have hnot : manager.seqIdToRow.get? other ≠ some row := fun howner' =>
              hother (h.seqId_eq howner' hrow)
            simp [hlt, hnot]
          · rw [if_neg hrow']
            exact h.inverse other row'
      free_nodup := by
        show (manager.freeRows ++ [row]).Nodup
        rw [List.nodup_append]
        refine ⟨h.free_nodup, List.nodup_singleton row, fun other hother last hlast heq => ?_⟩
        rw [List.mem_singleton] at hlast
        exact hused (hlast ▸ heq ▸ hother)
      free_iff := fun row' => by
        show row' ∈ manager.freeRows ++ [row] ↔ (manager.rowToSeqId.set row none)[row']? = _
        rw [List.mem_append, List.mem_singleton, h.free_iff row', List.getElem?_set]
        by_cases hrow' : row = row'
        · subst hrow'
          simp [hlt]
        · rw [if_neg hrow']
          exact or_iff_left (Ne.symm hrow') }

end RecurrentStateManager

namespace RecurrentRun

open Routine RecurrentStateManager

variable {Data : Type} [Zero Data] {config : RecurrentConfig} {run : RecurrentRun Data}
  {manager next : RecurrentStateManager Data} {seqId layer row : ℕ} {states : LayerState Data}

/-! ## Setting -/

variable {known : SeqHistory Data} {capturing : Bool} {call : RecurrentCall Data} {tokenCount : ℤ}

/-- A layer that does not wait is set. -/
theorem Invariant.overwritten (h : Invariant config run)
    (hrow : run.manager.seqIdToRow.get? seqId = some row) (hknown : run.history seqId = some known)
    (hstepped : known.stepped = true) (hready : ¬ Waiting run.manager seqId layer)
    (htyped : WellTyped config states) :
    Invariant config ⟨run.manager.overwrite layer row (contentOf states),
      Function.update run.history seqId
        (some { known with lastSet := Function.update known.lastSet layer (some states) }),
      run.step⟩ := by
  have hok := h.seqOk hrow hknown
  refine h.changed hrow ⟨rfl, rfl, rfl⟩ (Function.update_self _ _ _)
    (fun other hne => Function.update_of_ne hne _ _) (fun _ _ => rfl)
    (fun _ _ _ hne => if_neg fun hboth => hne hboth.2) (fun _ _ _ _ => Iff.rfl) ?_
    fun {current} hcurrent => ?_
  · exact
      { unstepped := fun hnew => nomatch hnew.symm.trans hstepped
        pending := fun hthere => by
          have hbefore := hok.pending hthere
          exact ⟨hbefore.attached, hbefore.wellFormed, hbefore.subset, hbefore.unread_iff, hbefore.nonempty⟩
        content := fun layer' hlayer' hnot name hname => by
          by_cases hsame : layer' = layer
          · subst hsame
            obtain ⟨data, hdata⟩ := htyped.content_isSome hname
            show (if layer' = layer' ∧ row = row then _ else _) = _
            rw [if_pos ⟨rfl, rfl⟩, hdata]
            unfold SeqHistory.value
            dsimp only
            rw [Function.update_self]
            dsimp only
            rw [hdata]
            rfl
          · refine Eq.trans (if_neg fun hboth => hsame hboth.1) ?_
            have hbefore := hok.content layer' hlayer' hnot name hname
            unfold SeqHistory.value at hbefore ⊢
            dsimp only
            rw [Function.update_of_ne hsame]
            exact hbefore
        unset := fun {layer'} hwait => by
          have hne : layer' ≠ layer := fun heq => hready (heq ▸ hwait)
          dsimp only
          rw [Function.update_of_ne hne]
          exact hok.unset hwait }
  · have hthere := h.step_ok hcurrent
    refine hthere.congr (fun other hother history hhistory => ?_) hthere.gone
    dsimp only at hhistory
    by_cases hne : other = seqId
    · subst hne
      rw [Function.update_self] at hhistory
      obtain rfl := Option.some.inj hhistory
      exact hstepped
    · rw [Function.update_of_ne hne] at hhistory
      exact hthere.stepped other hother history hhistory

/-- A layer cannot be set a second time in a step. -/
theorem Invariant.set_done (h : Invariant config run) (done : Bool) :
    Invariant config ⟨run.manager, run.history, nextStep config done run.step (.set seqId layer states)⟩ := by
  refine h.restep (fun _ history layer' _ => ?_) fun {current} hcurrent => ?_
  · unfold Unread nextStep
    cases run.step with
    | none => simp
    | some step => simp
  · dsimp only [nextStep] at hcurrent
    obtain ⟨step, hstep, rfl⟩ := Option.map_eq_some_iff.mp hcurrent
    exact (h.step_ok hstep).set

theorem kept_set (h : Invariant config run) (hproper : run.Proper config (.set seqId layer states)) :
    Kept config run (.set seqId layer states) := by
  obtain ⟨⟨step, hstep, hsettable⟩, htyped⟩ := hproper
  have hok := h.step_ok hstep
  obtain ⟨hbatch, hlayer⟩ := hok.settable_mem _ hsettable
  refine wpe_imp (wpe_setLayerState htyped hlayer run.manager seqId) (fun _ after hafter => ?_) fun after hafter => ?_
  · obtain ⟨row, middle, hmiddle, rfl⟩ := hafter
    dsimp only [nextHistory]
    rw [if_pos rfl]
    cases hmiddle with
    | had hrow =>
        obtain ⟨known, hknown⟩ := h.resident hrow
        have hready : ¬ Waiting run.manager seqId layer := fun hwait =>
          hok.disjoint _ hsettable (h.unread_of_waiting hstep hbatch hwait)
        have hset := h.overwritten hrow hknown (hok.stepped seqId hbatch known hknown) hready htyped
        rw [hknown, Option.getD_some]
        exact hset.set_done true
    | got hnone hfree =>
        -- the sequence was freed during the step, and its row is a new one
        have hgot := h.got hnone hfree true fun _ _ _ => rfl
        have hhistory : run.history seqId = none := (h.resident_iff seqId).mpr hnone
        have hready : ¬ Waiting run.manager seqId layer :=
          not_waiting_of_none (h.pending_none hhistory)
        have hset := hgot.overwritten (Dict.get?_set_self _ _ _) (Function.update_self _ _ _) rfl hready htyped
        dsimp only at hset
        rw [Function.update_idem] at hset
        rw [hhistory, Option.getD_none]
        exact hset.set_done true
  · rw [hafter.1]
    exact h.set_done false

/-! ## Leaving -/

section

variable (h : Invariant config run)

include h

theorem kept_finish (hproper : run.Proper config .finish) : Kept config run .finish := by
  obtain ⟨step, hstep, hread⟩ := hproper
  refine h.restep (fun _ history layer' _ => ?_) fun hcurrent => nomatch hcurrent
  unfold Unread
  rw [hstep]
  constructor
  · rintro (hnew | ⟨_, hnone, _⟩)
    · exact .inl hnew
    · exact nomatch hnone
  · rintro (hnew | ⟨current, hcurrent, hlive, hunread⟩)
    · exact .inl hnew
    · obtain rfl := Option.some.inj hcurrent
      exact absurd hlive (hread _ hunread)

/-- A sequence goes, with its payload. -/
theorem Invariant.freed (hrows : Rows config next) (hself : next.seqIdToRow.get? seqId = none)
    (hothers : ∀ other, other ≠ seqId → next.seqIdToRow.get? other = run.manager.seqIdToRow.get? other)
    (hpending : next.pendingPrefixPayloads = run.manager.pendingPrefixPayloads.erase seqId)
    (hbuffers : next.layerBuffers = run.manager.layerBuffers) (done : Bool) :
    Invariant config ⟨next, Function.update run.history seqId none,
      nextStep config done run.step (.free seqId : RecurrentCall Data)⟩ := by
  -- the freed sequence has no payload pending, the others have theirs:
  have hsome : ∀ {other entry}, next.pendingPrefixPayloads.get? other = some entry →
      other ≠ seqId ∧ run.manager.pendingPrefixPayloads.get? other = some entry := by
    intro other entry hentry
    rw [hpending, Dict.get?_erase] at hentry
    split at hentry
    · exact nomatch hentry
    · next hne => exact ⟨hne, hentry⟩
  have hwaiting : ∀ {other layer}, other ≠ seqId → (Waiting next other layer ↔ Waiting run.manager other layer) := by
    intro other layer hne
    unfold Waiting
    rw [hpending, Dict.get?_erase, if_neg hne]
  have hknown : ∀ {other known}, Function.update run.history seqId none other = some known →
      other ≠ seqId ∧ run.history other = some known := by
    intro other known hthere
    by_cases hne : other = seqId
    · subst hne
      rw [Function.update_self] at hthere
      exact nomatch hthere
    · rw [Function.update_of_ne hne] at hthere
      exact ⟨hne, hthere⟩
  exact
    { rows := hrows
      resident_iff := fun other => by
        dsimp only
        by_cases hne : other = seqId
        · subst hne
          rw [Function.update_self, hself]
          exact ⟨fun _ => rfl, fun _ => rfl⟩
        · rw [Function.update_of_ne hne, hothers other hne]
          exact h.resident_iff other
      unstepped := fun hthere => h.unstepped (hknown hthere).2
      pending := fun {other payload events} hthere => by
        obtain ⟨hne, hbefore⟩ := hsome hthere
        obtain ⟨known, hsame, hok⟩ := h.pending hbefore
        refine ⟨known, (Function.update_of_ne hne _ _).trans hsame, hok.attached, hok.wellFormed,
          hok.subset, fun layer hlayer => (hok.unread_iff layer hlayer).trans ?_, hok.nonempty⟩
        unfold Unread nextStep
        cases run.step with
        | none => simp
        | some step => simp [hne]
      content := fun {other row known} hrow hthere layer hlayer hnot name hname => by
        obtain ⟨hne, hbefore⟩ := hknown hthere
        dsimp only at hrow hnot ⊢
        rw [hothers other hne] at hrow
        rw [hbuffers]
        exact h.content hrow hbefore layer hlayer (fun hwait => hnot ((hwaiting hne).mpr hwait)) name hname
      unset := fun hwait hthere => by
        obtain ⟨hne, hbefore⟩ := hknown hthere
        exact h.unset ((hwaiting hne).mp hwait) hbefore
      step_ok := fun {current} hcurrent => by
        dsimp only [nextStep] at hcurrent
        obtain ⟨step, hstep, rfl⟩ := Option.map_eq_some_iff.mp hcurrent
        have hok := h.step_ok hstep
        refine ⟨hok.unread_mem, hok.settable_mem, hok.disjoint, fun other hbatch known hthere =>
          hok.stepped other hbatch known (hknown hthere).2, fun other hbatch hgone => ?_⟩
        dsimp only
        rw [hpending, Dict.get?_erase]
        split
        · rfl
        · next hne =>
            refine hok.gone other hbatch fun hlive => hgone ?_
            exact Finset.mem_erase.mpr ⟨hne, hlive⟩ }

theorem kept_free (seqId : ℕ) : Kept config run (.free seqId) := by
  show wpe (freeSeq seqId) _ _ _
  rw [freeSeq, wpe_set, wpe_get]
  have hdropped : Rows config (run.manager.dropPending seqId) := h.rows.congr rfl rfl rfl
  rcases hrow : run.manager.seqIdToRow.get? seqId with _ | row
  · have hget : (run.manager.dropPending seqId).seqIdToRow.get? seqId = none := hrow
    rw [hget, wpe_pure]
    exact h.freed hdropped hget (fun _ _ => rfl) rfl rfl true
  · have hget : (run.manager.dropPending seqId).seqIdToRow.get? seqId = some row := hrow
    rw [hget]
    dsimp only
    rw [wpe_set, wpe_guard]
    refine ⟨fun hother => absurd ((h.rows.inverse seqId row).mp hrow) hother, fun _ => ?_⟩
    rw [wpe_write]
    refine h.freed (hdropped.withoutRow hget) ?_ (fun other hne => ?_) rfl rfl true
    · exact (Dict.get?_erase _ _ _).trans (if_pos rfl)
    · exact (Dict.get?_erase _ _ _).trans (if_neg hne)

/-- After a warmup nothing is resident, and nothing is left in the rows. -/
theorem kept_reset : Kept config run .reset := by
  have hfresh : Invariant config (⟨init config, fun _ => none, none⟩ : RecurrentRun Data) :=
    invariant_init
  refine hfresh.restep (fun hthere => nomatch (Dict.get?_empty _).symm.trans hthere) fun hcurrent => ?_
  obtain ⟨step, hstep, rfl⟩ := Option.map_eq_some_iff.mp hcurrent
  have hok := h.step_ok hstep
  refine ⟨hok.unread_mem, hok.settable_mem, hok.disjoint, fun _ _ _ hthere => ?_, fun _ _ _ => Dict.get?_empty _⟩
  exact nomatch hthere

theorem kept_read (hproper : run.Proper config (.read capturing seqId layer)) :
    Kept config run (.read capturing seqId layer) := by
  show wpe (getLayerState config capturing seqId layer >>= _) _ _ _
  rw [wpe_bind, getLayerState]
  refine wpe_then_imp (wpe_materialize h hproper) (fun _ after hafter => ?_) fun _ => False.elim
  rw [wpe_get]
  rcases after.seqIdToRow.get? seqId with _ | row
  · exact hafter.1
  · dsimp only
    rw [wpe_ite]
    exact ⟨fun _ => hafter.1, fun _ => hafter.1⟩

theorem kept_snapshot (tokenCount : ℤ) : Kept config run (.snapshot seqId tokenCount) := by
  show wpe (buildPrefixRecurrentPayload config seqId tokenCount >>= _) _ _ _
  rw [wpe_bind, buildPrefixRecurrentPayload]
  refine wpe_guarded h fun _ => ?_
  refine wpe_guarded h fun _ => ?_
  rw [wpe_get]
  rcases run.manager.seqIdToRow.get? seqId with _ | row
  · exact h
  · exact h

end

/-! ## Runs -/

/-- Every call keeps the invariant. -/
theorem kept (h : Invariant config run) (hproper : run.Proper config call) :
    Kept config run call := by
  cases call with
  | prepare seqIds => exact kept_prepare h hproper seqIds
  | attach seqId payload readinessEvents => exact kept_attach h hproper
  | read capturing seqId layer => exact kept_read h hproper
  | set seqId layer states => exact kept_set h hproper
  | finish => exact kept_finish h hproper
  | free seqId => exact kept_free h seqId
  | reset => exact kept_reset h
  | snapshot seqId tokenCount => exact kept_snapshot h tokenCount

theorem Invariant.called (h : Invariant config run) (hproper : run.Proper config call) :
    Invariant config (run.next config call) := by
  have hkept := wpe_def.mp (kept h hproper)
  unfold RecurrentRun.next
  dsimp only
  rcases hrun : (call.run config run.manager).1 with error | result
  · rw [hrun] at hkept
    exact hkept
  · rw [hrun] at hkept
    exact hkept

theorem Reaches.invariant (h : Reaches config run) : Invariant config run := by
  induction h with
  | init => exact invariant_init
  | call call hreach hproper ih => exact ih.called hproper

/-! ## Reads and snapshots -/

omit [Zero Data] in
/-- Only declared tensors are in a state. -/
theorem layerState_congr {first second : String → Data}
    (hsame : ∀ name ∈ config.stateSpec.stateNames, first name = second name) :
    config.layerState first = config.layerState second := by
  have hentries : (config.layerState first).entries = (config.layerState second).entries := by
    refine List.map_congr_left fun spec hspec => ?_
    rw [hsame spec.name (List.mem_map_of_mem hspec)]
  unfold RecurrentConfig.layerState at hentries ⊢
  congr 1

/-- A resident sequence reads what its history says. -/
theorem Invariant.read_eq (h : Invariant config run) (hknown : run.history seqId = some known)
    (hproper : run.Proper config (.read capturing seqId layer)) :
    (getLayerState config capturing seqId layer run.manager).1 =
      .ok (some (config.layerState (known.value layer))) := by
  obtain ⟨row, hrow⟩ := h.row_of_history hknown
  obtain ⟨⟨step, hstep, hunread⟩, _⟩ := id hproper
  have hlayer := ((h.step_ok hstep).unread_mem _ hunread).2
  have hread : wpe (getLayerState config capturing seqId layer)
      (fun result _ => result = some (config.layerState (known.value layer))) (fun _ => False)
      run.manager := by
    rw [getLayerState]
    refine wpe_then (wpe_materialize h hproper) fun _ after hafter => ?_
    obtain ⟨hinvariant, hready, hrows⟩ := hafter
    have hrow_after : after.seqIdToRow.get? seqId = some row := by rw [hrows, hrow]
    rw [wpe_get, hrow_after]
    dsimp only
    rw [wpe_ite]
    refine ⟨fun hnot => ?_, fun _ => ?_⟩
    · exact (hnot.elim (fun hout => hout hlayer) config.stateSpec.tensorSpecs_ne).elim
    · rw [wpe_pure, layerState_congr fun name hname =>
        hinvariant.content hrow_after hknown layer hlayer hready name hname]
  rw [wpe_def] at hread
  rcases hrun : (getLayerState config capturing seqId layer run.manager).1 with error | result
  · rw [hrun] at hread
    exact hread.elim
  · rw [hrun] at hread
    rw [hread]

/-- Between steps nothing waits for a sequence that has made one. -/
theorem Invariant.not_waiting (h : Invariant config run) (hnone : run.step = none)
    (hknown : run.history seqId = some known) (hstepped : known.stepped = true) :
    ¬ Waiting run.manager seqId layer := by
  rintro ⟨payload, events, hpending, hevent⟩
  obtain ⟨history, hhistory, hok⟩ := h.pending hpending
  obtain rfl := Option.some.inj (hknown.symm.trans hhistory)
  rcases (hok.unread_iff layer (hok.subset hevent)).mp hevent with hnew | ⟨_, hcurrent, _⟩
  · exact nomatch hnew.symm.trans hstepped
  · exact nomatch hnone.symm.trans hcurrent

section

omit [Zero Data]

theorem get?_allLayers (content : ℕ → String → Data) (hlayer : layer ∈ config.linearLayers) :
    (config.allLayers content).get? layer = some (config.layerState (content layer)) :=
  Dict.get?_eq_some_iff.mpr (List.mem_map_of_mem hlayer)

variable {name : String}

theorem get?_layerState (content : String → Data) {value : StateTensor Data} :
    (config.layerState content).get? name = some value ↔ ∃ spec ∈ config.stateSpec.tensorSpecs,
      spec.name = name ∧ value = ⟨spec.shape, spec.dtype, config.device, content name⟩ := by
  rw [Dict.get?_eq_some_iff]
  show (name, value) ∈ config.stateSpec.tensorSpecs.map _ ↔ _
  rw [List.mem_map]
  constructor
  · rintro ⟨spec, hspec, heq⟩
    obtain ⟨rfl, rfl⟩ := Prod.mk.inj heq
    exact ⟨spec, hspec, rfl, rfl⟩
  · rintro ⟨spec, hspec, rfl, rfl⟩
    exact ⟨spec, hspec, rfl⟩

/-- The tensors of a layer are as declared. -/
theorem layerState_wellTyped (content : String → Data) :
    WellTyped config (config.layerState content) where
  names name := by
    show name ∈ (config.stateSpec.tensorSpecs.map _).map Prod.fst ↔ name ∈ config.stateSpec.tensorSpecs.map _
    rw [List.map_map]
    exact Iff.rfl
  declared hvalue spec hspec hname := by
    obtain ⟨other, hother, hname', rfl⟩ := (get?_layerState content).mp hvalue
    have hsame : other = spec :=
      List.inj_on_of_nodup_map config.stateSpec.names_nodup hother hspec (hname'.trans hname.symm)
    rw [hsame]
    exact ⟨rfl, rfl, rfl⟩

theorem contentOf_layerState (content : String → Data) (hname : name ∈ config.stateSpec.stateNames) :
    contentOf (config.layerState content) name = some (content name) := by
  obtain ⟨spec, hspec, rfl⟩ := List.mem_map.mp hname
  rw [contentOf, (get?_layerState content).mpr ⟨spec, hspec, rfl, rfl⟩]
  rfl

end

/-- Another sequence with the payload has the content of the row it was built
from. -/
theorem value_of_snapshot {content : ℕ → String → Data}
    (hattached : known.attached = some ⟨tokenCount, config.allLayers content⟩)
    (hunset : known.lastSet layer = none) (hlayer : layer ∈ config.linearLayers) :
    config.layerState (known.value layer) = config.layerState (content layer) := by
  refine layerState_congr fun name hname => ?_
  unfold SeqHistory.value
  rw [hunset, hattached]
  dsimp only [Option.bind_some]
  rw [get?_allLayers content hlayer]
  dsimp only
  rw [contentOf_layerState _ hname, Option.getD_some]

/-- A snapshot at a boundary between blocks is a payload, and has all that the
sequence holds. -/
theorem Invariant.snapshot_eq (h : Invariant config run) (hnone : run.step = none)
    (hknown : run.history seqId = some known) (hstepped : known.stepped = true) (hpositive : 0 < tokenCount)
    (hboundary : 0 < config.prefixCacheBlockSize → tokenCount % config.prefixCacheBlockSize = 0) :
    ∃ content : ℕ → String → Data,
      buildPrefixRecurrentPayload config seqId tokenCount run.manager =
        (.ok ⟨tokenCount, config.allLayers content⟩, run.manager) ∧
      ∀ layer ∈ config.linearLayers, config.layerState (content layer) = config.layerState (known.value layer) := by
  obtain ⟨row, hrow⟩ := h.row_of_history hknown
  refine ⟨fun layer name => run.manager.layerBuffers layer name row, ?_, fun layer hlayer => ?_⟩
  · have hbuild : wpe (buildPrefixRecurrentPayload config seqId tokenCount)
        (fun payload after => payload = ⟨tokenCount, config.allLayers fun layer name =>
          run.manager.layerBuffers layer name row⟩ ∧ after = run.manager) (fun _ => False)
        run.manager := by
      rw [buildPrefixRecurrentPayload, wpe_guard]
      refine ⟨fun hnot => absurd hpositive (not_lt.mpr hnot), fun _ => ?_⟩
      rw [wpe_guard]
      refine ⟨fun hnot => hnot.2 (hboundary hnot.1), fun _ => ?_⟩
      rw [wpe_get, hrow]
      exact ⟨rfl, rfl⟩
    rw [wpe_def] at hbuild
    rcases hrun : buildPrefixRecurrentPayload config seqId tokenCount run.manager with
      ⟨error | payload, after⟩
    · rw [hrun] at hbuild
      exact hbuild.elim
    · rw [hrun] at hbuild
      have hsame : after = run.manager := hbuild.2
      rw [hbuild.1, hsame]
  · exact layerState_congr fun name hname =>
      h.content hrow hknown layer hlayer (h.not_waiting hnone hknown hstepped) name hname

omit [Zero Data] in
/-- It may be attached. -/
theorem wellFormed_allLayers (tokenCount : ℤ) (content : ℕ → String → Data) :
    RecurrentPrefixPayload.WellFormed config ⟨tokenCount, config.allLayers content⟩ := by
  have hstates : ∀ {layer states}, (config.allLayers content).get? layer = some states →
      layer ∈ config.linearLayers ∧ states = config.layerState (content layer) := by
    intro layer states hthere
    obtain ⟨other, hother, heq⟩ := List.mem_map.mp (Dict.get?_eq_some_iff.mp hthere)
    obtain ⟨rfl, rfl⟩ := Prod.mk.inj heq
    exact ⟨hother, rfl⟩
  refine ⟨fun layer hlayer => ?_, fun hthere => ?_⟩
  · obtain ⟨states, hthere⟩ := Dict.mem_keys_iff.mp hlayer
    exact (hstates hthere).1
  · rw [(hstates hthere).2]
    exact layerState_wellTyped _

/-- What is seen of the sequences at one point of a run. -/
structure Isolated (config : RecurrentConfig) (run : RecurrentRun Data) : Prop where
  /-- The two tables are mutually inverse. -/
  inverse : ∀ seqId row, run.manager.seqIdToRow.get? seqId = some row ↔
    run.manager.rowToSeqId[row]? = some (some seqId)
  /-- The other rows are free, each once. -/
  free_nodup : run.manager.freeRows.Nodup
  free_iff : ∀ row, row ∈ run.manager.freeRows ↔
    row < config.rowCapacity ∧ ∀ seqId, run.manager.seqIdToRow.get? seqId ≠ some row
  /-- The resident sequences are those with a history. -/
  resident_iff : ∀ seqId, (run.manager.seqIdToRow.get? seqId).isSome ↔ (run.history seqId).isSome
  /-- A read returns the state last set, else that of the payload, else zeros. -/
  read : ∀ seqId known, run.history seqId = some known → ∀ capturing layer,
    run.Proper config (.read capturing seqId layer) →
    (getLayerState config capturing seqId layer run.manager).1 =
      .ok (some (config.layerState (known.value layer)))
  /-- A payload of a boundary is attached, with readiness events or without, when the sequence has a
  row or one is free. -/
  attach : ∀ seqId payload readinessEvents, payload.WellFormed config → 0 < payload.tokenCount →
    (0 < config.prefixCacheBlockSize → payload.tokenCount % config.prefixCacheBlockSize = 0) →
    (∀ events, readinessEvents = some events →
      ∀ layer, layer ∈ events.keys ↔ layer ∈ payload.layerStates.keys) →
    (run.history seqId).isSome ∨ run.manager.freeRows ≠ [] →
    (attachPrefixRecurrentPayload config seqId (some payload) readinessEvents run.manager).1 = .ok ()
  /-- A snapshot after a step can be attached to any sequence, which then reads what the first one
  held, until it sets the layer itself. -/
  snapshot : ∀ seqId known, run.history seqId = some known → run.step = none →
    known.stepped = true → ∀ tokenCount, 0 < tokenCount →
    (0 < config.prefixCacheBlockSize → tokenCount % config.prefixCacheBlockSize = 0) →
    ∃ payload, buildPrefixRecurrentPayload config seqId tokenCount run.manager =
        (.ok payload, run.manager) ∧
      payload.WellFormed config ∧ payload.tokenCount = tokenCount ∧
      payload.layerStates.keys = config.linearLayers ∧
      ∀ later, Reaches config later → ∀ other known', later.history other = some known' →
        known'.attached = some payload → ∀ layer, known'.lastSet layer = none → ∀ capturing,
        later.Proper config (.read capturing other layer) →
        (getLayerState config capturing other layer later.manager).1 =
          .ok (some (config.layerState (known.value layer)))

/-- Every run isolates its sequences. -/
theorem Reaches.isolated (h : Reaches config run) : Isolated config run where
  inverse := h.invariant.rows.inverse
  free_nodup := h.invariant.rows.free_nodup
  free_iff _ := h.invariant.rows.mem_freeRows_iff
  resident_iff seqId := by
    rw [Option.isSome_iff_ne_none, Option.isSome_iff_ne_none, ne_eq, ne_eq,
      h.invariant.resident_iff seqId]
  read _ _ hknown _ _ hproper := h.invariant.read_eq hknown hproper
  attach seqId payload readinessEvents hwell hpositive hboundary hevents hroom := by
    have hattach : wpe (attachPrefixRecurrentPayload config seqId (some payload) readinessEvents)
        (fun _ _ => True) (fun _ => run.manager.Full seqId) run.manager :=
      wpe_attach hwell hpositive hboundary hevents
    rw [wpe_def] at hattach
    rcases hrun : (attachPrefixRecurrentPayload config seqId (some payload) readinessEvents
      run.manager).1 with error | ⟨⟩
    · rw [hrun] at hattach
      obtain ⟨hrow, hfree⟩ := hattach
      rcases hroom with hknown | hroom
      · rw [(h.invariant.resident_iff seqId).mpr hrow] at hknown
        exact absurd hknown Bool.false_ne_true
      · exact absurd hfree hroom
    · rfl
  snapshot _ _ hknown hnone hstepped tokenCount hpositive hboundary := by
    obtain ⟨content, hbuild, hcontent⟩ :=
      h.invariant.snapshot_eq hnone hknown hstepped hpositive hboundary
    refine ⟨_, hbuild, wellFormed_allLayers tokenCount content, rfl, ?_, ?_⟩
    · exact (List.map_map ..).trans (List.map_id _)
    intro later hlater other known' hknown' hattached layer hunset capturing hproper
    obtain ⟨⟨step, hstep, hunread⟩, _⟩ := id hproper
    have hlayer := ((hlater.invariant.step_ok hstep).unread_mem _ hunread).2
    rw [hlater.invariant.read_eq hknown' hproper, value_of_snapshot hattached hunset hlayer,
      hcontent layer hlayer]

/-! ## A run -/

/-- One layer with one tensor, and rows for two sequences. -/
def smallConfig : RecurrentConfig where
  rowCapacity := 2
  linearLayers := [0]
  layers_nodup := List.nodup_singleton 0
  stateSpec := ⟨[⟨"conv_state", [2], 0⟩], List.cons_ne_nil _ _, List.nodup_singleton _⟩
  device := 0
  prefixCacheBlockSize := 4

/-- Sequence 7 sets its layer in a step. -/
def setRun : RecurrentRun ℕ :=
  [.prepare [7], .read false 7 0, .set 7 0 (smallConfig.layerState fun _ => 5), .finish].foldl
    (RecurrentRun.next smallConfig) ⟨RecurrentStateManager.init smallConfig, fun _ => none, none⟩

theorem setRun_reaches : Reaches smallConfig setRun := by
  have hprepare := Reaches.call (.prepare [7]) (Reaches.init : Reaches smallConfig (_ : RecurrentRun ℕ)) rfl
  have hread := Reaches.call (.read false 7 0) hprepare ⟨⟨_, rfl, by decide⟩, nofun⟩
  have hset := Reaches.call (.set 7 0 (smallConfig.layerState fun _ => 5)) hread
    ⟨⟨_, rfl, by decide⟩, layerState_wellTyped _⟩
  exact Reaches.call .finish hset ⟨_, rfl, by decide⟩

/-- Sequence 8 gets what sequence 7 held after four tokens, with a readiness
event, and sequence 9 the row of sequence 7. -/
def attachedRun (payload : RecurrentPrefixPayload ℕ) : RecurrentRun ℕ :=
  [.snapshot 7 4, .free 7, .attach 8 (some payload) (some (Dict.empty.set 0 1)),
    .prepare [8, 9]].foldl (RecurrentRun.next smallConfig) setRun

/-- Sequence 8 reads the snapshot, and sequence 9 zeros where sequence 7 had its
state. -/
theorem attachedRun_isolated : ∃ payload,
    (buildPrefixRecurrentPayload smallConfig 7 4 setRun.manager).1 = .ok payload ∧
      (getLayerState smallConfig false 8 0 (attachedRun payload).manager).1 =
        .ok (some (smallConfig.layerState fun _ => 5)) ∧
      (attachedRun payload).manager.seqIdToRow.get? 9 = some 0 ∧
      (getLayerState smallConfig false 9 0 (attachedRun payload).manager).1 =
        .ok (some (smallConfig.layerState fun _ => 0)) := by
  obtain ⟨payload, hbuild, hwell, -, -, hlater⟩ :=
    setRun_reaches.isolated.snapshot 7 _ rfl rfl rfl 4 (by decide) fun _ => by decide
  have hbuilt := congrArg Prod.fst hbuild
  refine ⟨payload, hbuilt, ?_⟩
  obtain rfl := Except.ok.inj hbuilt
  have hsnapshot := Reaches.call (.snapshot 7 4) setRun_reaches rfl
  have hattach := Reaches.call (.attach 8 (some _) (some (Dict.empty.set 0 1)))
    (Reaches.call (.free 7) hsnapshot trivial)
    ⟨nofun, nofun, fun attached heq => Option.some.inj heq ▸ hwell⟩
  have hreach := Reaches.call (.prepare [8, 9]) hattach rfl
  refine ⟨?_, by decide, ?_⟩
  · exact hlater _ hreach 8 _ rfl rfl 0 rfl false ⟨⟨_, rfl, by decide⟩, nofun⟩
  · exact hreach.isolated.read 9 _ rfl false 0 ⟨⟨_, rfl, by decide⟩, nofun⟩

end RecurrentRun
