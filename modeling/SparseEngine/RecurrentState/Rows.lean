import SparseEngine.RecurrentState.Model

/-!
# Rows of recurrent state

Each row is free or has one owner, and the two tables say the same.  A row is
cleared when it gets an owner, not when it loses one.
-/

namespace RecurrentStateManager

open Routine

variable {Data : Type} {config : RecurrentConfig}
  {manager middle next : RecurrentStateManager Data} {seqId row : ℕ}

/-- The tables of the rows agree. -/
structure Rows (config : RecurrentConfig) (manager : RecurrentStateManager Data) : Prop where
  length_eq : manager.rowToSeqId.length = config.rowCapacity
  inverse : ∀ seqId row, manager.seqIdToRow.get? seqId = some row ↔
    manager.rowToSeqId[row]? = some (some seqId)
  free_nodup : manager.freeRows.Nodup
  free_iff : ∀ row, row ∈ manager.freeRows ↔ manager.rowToSeqId[row]? = some none

namespace Rows

/-- The free rows are those that no sequence has. -/
theorem mem_freeRows_iff (h : Rows config manager) :
    row ∈ manager.freeRows ↔ row < config.rowCapacity ∧ ∀ seqId, manager.seqIdToRow.get? seqId ≠ some row := by
  rw [h.free_iff]
  constructor
  · intro hrow
    have hlt := (List.getElem?_eq_some_iff.mp hrow).1
    rw [h.length_eq] at hlt
    refine ⟨hlt, fun seqId hseq => ?_⟩
    have howner := (h.inverse seqId row).mp hseq
    rw [hrow] at howner
    exact nomatch howner
  · rintro ⟨hlt, hnone⟩
    rw [← h.length_eq] at hlt
    rcases hrow : manager.rowToSeqId[row] with _ | seqId
    · rw [List.getElem?_eq_getElem hlt, hrow]
    · have howner := (h.inverse seqId row).mpr (by rw [List.getElem?_eq_getElem hlt, hrow])
      exact absurd howner (hnone seqId)

/-- Two sequences have two rows. -/
theorem seqId_eq (h : Rows config manager) {other : ℕ} (hseq : manager.seqIdToRow.get? seqId = some row)
    (hother : manager.seqIdToRow.get? other = some row) : seqId = other := by
  have hfirst := (h.inverse seqId row).mp hseq
  rw [(h.inverse other row).mp hother] at hfirst
  exact (Option.some.inj (Option.some.inj hfirst)).symm

/-- The tables do not see buffers and pending payloads. -/
theorem congr (h : Rows config manager) (hrows : next.seqIdToRow = manager.seqIdToRow)
    (howners : next.rowToSeqId = manager.rowToSeqId) (hfree : next.freeRows = manager.freeRows) :
    Rows config next where
  length_eq := howners ▸ h.length_eq
  inverse seqId row := by
    rw [hrows, howners]
    exact h.inverse seqId row
  free_nodup := hfree ▸ h.free_nodup
  free_iff row := by
    rw [hfree, howners]
    exact h.free_iff row

end Rows

/-! ## Writing a layer -/

/-- The content of a row of a layer, where there is a new one. -/
def overwrite (layer row : ℕ) (content : String → Option Data) (manager : RecurrentStateManager Data) :
    RecurrentStateManager Data :=
  { manager with layerBuffers := fun layer' name row' =>
      if layer' = layer ∧ row' = row then (content name).getD (manager.layerBuffers layer' name row')
      else manager.layerBuffers layer' name row' }

/-- The content of the tensors of a state, by name. -/
def contentOf (states : LayerState Data) (name : String) : Option Data :=
  (states.get? name).map StateTensor.data

/-- A state with the declared tensors. -/
structure WellTyped (config : RecurrentConfig) (states : LayerState Data) : Prop where
  names : ∀ name, name ∈ states.keys ↔ name ∈ config.stateSpec.stateNames
  declared : ∀ {name value}, states.get? name = some value →
    ∀ spec ∈ config.stateSpec.tensorSpecs, spec.name = name →
      value.shape = spec.shape ∧ value.dtype = spec.dtype ∧ value.device = config.device

variable {states : LayerState Data} {layer : ℕ}

section

variable (htyped : WellTyped config states) (hlayer : layer ∈ config.linearLayers)

include htyped hlayer

theorem wpe_ensureBuffer {name : String} {value : StateTensor Data}
    (hvalue : states.get? name = some value) (manager : RecurrentStateManager Data) :
    wpe (ensureBuffer config layer name value) (fun _ after => after = manager) (fun _ => False)
      manager := by
  rw [ensureBuffer, wpe_guard]
  refine ⟨fun hnot => hnot hlayer, fun _ => ?_⟩
  rcases hfind : config.stateSpec.tensorSpecs.find? fun spec => spec.name = name with _ | spec
  · have hname := (htyped.names name).mp (Dict.mem_keys_of_get? hvalue)
    obtain ⟨spec, hspec, hspec_name⟩ := List.mem_map.mp hname
    exact absurd hspec_name (by simpa using List.find?_eq_none.mp hfind spec hspec)
  · have hname : spec.name = name := by simpa using List.find?_some hfind
    obtain ⟨hshape, hdtype, hdevice⟩ :=
      htyped.declared hvalue spec (List.mem_of_find?_eq_some hfind) hname
    rw [hfind]
    show wpe (raiseIf _ _ >>= _) _ _ _
    rw [wpe_guard]
    refine ⟨fun hne => hne hshape.symm, fun _ => ?_⟩
    rw [wpe_raiseIf]
    refine ⟨fun hne => ?_, fun _ => rfl⟩
    exact hne.elim (fun hne => hne hdtype.symm) fun hne => hne hdevice.symm

/-- The tensors of a state are written one after the other, each under another
name. -/
theorem wpe_writeTensors (row : ℕ) (entries : List (String × StateTensor Data))
    (hnodup : (entries.map Prod.fst).Nodup) (hentries : ∀ entry ∈ entries, states.get? entry.1 = some entry.2)
    (manager : RecurrentStateManager Data) :
    wpe (forEach (fun entry => do
        ensureBuffer config layer entry.1 entry.2
        Routine.write (writeBuffer layer entry.1 row entry.2.data)) entries)
      (fun _ after => after = manager.overwrite layer row fun name =>
        (entries.lookup name).map StateTensor.data) (fun _ => False) manager := by
  induction entries generalizing manager with
  | nil =>
      rw [forEach, wpe_pure]
      simp [overwrite]
  | cons entry rest ih =>
      obtain ⟨key, value⟩ := entry
      rw [List.map_cons, List.nodup_cons] at hnodup
      rw [List.forall_mem_cons] at hentries
      have hlookup : rest.lookup key = none := by
        rw [List.lookup_eq_none_iff]
        intro other hother
        have hne : key ≠ other.1 := by
          rintro rfl
          have hmem : other.1 ∈ rest.map Prod.fst := List.mem_map_of_mem hother
          exact hnodup.1 hmem
        simpa using hne
      rw [forEach, wpe_bind]
      refine wpe_then (wpe_ensureBuffer htyped hlayer hentries.1 manager) fun _ after hafter => ?_
      obtain rfl := hafter
      rw [wpe_write]
      refine wpe_mono (ih hnodup.2 hentries.2 _) fun _ last hlast => ?_
      rw [hlast]
      unfold overwrite writeBuffer
      congr 1
      funext layer' name row'
      by_cases hthere : layer' = layer ∧ row' = row
      · obtain ⟨rfl, rfl⟩ := hthere
        by_cases hname : name = key
        · subst hname
          simp [hlookup]
        · simp [hname, List.lookup_cons, beq_false_of_ne hname]
      · have hnot : ¬ (layer' = layer ∧ name = key ∧ row' = row) := fun h => hthere ⟨h.1, h.2.2⟩
        simp only [if_neg hthere, if_neg hnot]

end

variable [Zero Data]

theorem rows_init : Rows config (init config : RecurrentStateManager Data) where
  length_eq := List.length_replicate
  inverse seqId row := by
    show (Dict.empty : Dict ℕ ℕ).get? seqId = some row ↔ (List.replicate _ none)[row]? = _
    rw [Dict.get?_empty, List.getElem?_replicate]
    split <;> simp
  free_nodup := List.nodup_range
  free_iff row := by
    show row ∈ List.range _ ↔ (List.replicate _ none)[row]? = _
    rw [List.mem_range, List.getElem?_replicate]
    split
    · next hlt => simp [hlt]
    · next hlt => simp [hlt]

/-! ## Getting a row -/

/-- What a new owner of a row changes. -/
def withRow (seqId row : ℕ) (freeRows : List ℕ) (manager : RecurrentStateManager Data) :
    RecurrentStateManager Data :=
  { manager with
    freeRows := freeRows
    seqIdToRow := manager.seqIdToRow.set seqId row
    rowToSeqId := manager.rowToSeqId.set row (some seqId)
    layerBuffers := fun layer name row' => if row' = row then 0 else manager.layerBuffers layer name row' }

/-- A sequence has a row, or gets the first free one. -/
inductive Allocates (manager : RecurrentStateManager Data) (seqId : ℕ) :
    ℕ → RecurrentStateManager Data → Prop where
  | had {row : ℕ} (hrow : manager.seqIdToRow.get? seqId = some row) : Allocates manager seqId row manager
  | got {row : ℕ} {freeRows : List ℕ} (hnone : manager.seqIdToRow.get? seqId = none)
      (hfree : manager.freeRows = row :: freeRows) :
      Allocates manager seqId row (manager.withRow seqId row freeRows)

/-- There is no row for the sequence. -/
def Full (manager : RecurrentStateManager Data) (seqId : ℕ) : Prop :=
  manager.seqIdToRow.get? seqId = none ∧ manager.freeRows = []

theorem wpe_allocateRow (manager : RecurrentStateManager Data) (seqId : ℕ) :
    wpe (allocateRow seqId) (fun row after => Allocates manager seqId row after)
      (fun after => after = manager ∧ manager.Full seqId) manager := by
  rw [allocateRow, wpe_get]
  rcases hget : manager.seqIdToRow.get? seqId with _ | row
  · rcases hfree : manager.freeRows with _ | ⟨row, freeRows⟩
    · rw [wpe_raise]
      exact ⟨rfl, hget, hfree⟩
    · rw [wpe_set, wpe_pure]
      exact .got hget hfree
  · rw [wpe_pure]
    exact .had hget

namespace Allocates

section

variable (h : Allocates manager seqId row next)

include h

theorem row_eq : next.seqIdToRow.get? seqId = some row := by
  cases h with
  | had hrow => exact hrow
  | got _ _ => exact Dict.get?_set_self _ _ _

theorem other_eq {other : ℕ} (hne : other ≠ seqId) :
    next.seqIdToRow.get? other = manager.seqIdToRow.get? other := by
  cases h with
  | had _ => rfl
  | got _ _ => exact Dict.get?_set_of_ne _ _ hne

theorem rows (hrows : Rows config manager) : Rows config next := by
  cases h with
  | had _ => exact hrows
  | @got freeRows hnone hfree =>
      have hnodup := hrows.free_nodup
      rw [hfree, List.nodup_cons] at hnodup
      have hrow : manager.rowToSeqId[row]? = some none :=
        (hrows.free_iff row).mp (hfree ▸ List.mem_cons_self)
      have hlt : row < manager.rowToSeqId.length := (List.getElem?_eq_some_iff.mp hrow).1
      exact
        { length_eq := by
            show (manager.rowToSeqId.set row (some seqId)).length = _
            rw [List.length_set, hrows.length_eq]
          inverse := fun other row' => by
            show (manager.seqIdToRow.set seqId row).get? other = some row' ↔
              (manager.rowToSeqId.set row (some seqId))[row']? = _
            rw [Dict.get?_set, List.getElem?_set]
            by_cases hother : other = seqId
            · subst hother
              rw [if_pos rfl]
              by_cases hrow' : row = row'
              · subst hrow'
                simp [hlt]
              · have hnot : manager.rowToSeqId[row']? ≠ some (some other) := fun howner =>
                  nomatch hnone.symm.trans ((hrows.inverse other row').mpr howner)
                simp [hrow', hnot]
            · rw [if_neg hother]
              by_cases hrow' : row = row'
              · subst hrow'
                have hnot : manager.seqIdToRow.get? other ≠ some row := fun howner =>
                  nomatch hrow.symm.trans ((hrows.inverse other row).mp howner)
                simp [hlt, hnot, Ne.symm hother]
              · rw [if_neg hrow']
                exact hrows.inverse other row'
          free_nodup := hnodup.2
          free_iff := fun row' => by
            show row' ∈ freeRows ↔ (manager.rowToSeqId.set row (some seqId))[row']? = _
            have hmem := hrows.free_iff row'
            rw [hfree, List.mem_cons] at hmem
            rw [List.getElem?_set]
            by_cases hrow' : row = row'
            · subst hrow'
              simp [hlt, hnodup.1]
            · rw [if_neg hrow', ← hmem]
              exact ⟨.inr, fun hor => hor.resolve_left (Ne.symm hrow')⟩ }

/-- Other rows keep their content. -/
theorem buffers_of_ne {row' : ℕ} (hne : row' ≠ row) (layer : ℕ) (name : String) :
    next.layerBuffers layer name row' = manager.layerBuffers layer name row' := by
  cases h with
  | had _ => rfl
  | got _ _ => exact if_neg hne

end

end Allocates

/-! ## Setting a layer -/

/-- A well typed state is written, and the only thing that can go wrong is that
there is no row. -/
theorem wpe_setLayerState (htyped : WellTyped config states) (hlayer : layer ∈ config.linearLayers)
    (manager : RecurrentStateManager Data) (seqId : ℕ) :
    wpe (setLayerState config seqId layer states)
      (fun _ after => ∃ row middle, Allocates manager seqId row middle ∧
        after = middle.overwrite layer row (contentOf states))
      (fun after => after = manager ∧ manager.Full seqId) manager := by
  rw [setLayerState, wpe_guard]
  refine ⟨fun hnot => absurd hlayer hnot, fun _ => ?_⟩
  rw [wpe_guard]
  constructor
  · intro hschema
    exfalso
    rcases hschema with hmissing | hunexpected
    · apply hmissing
      rw [List.filter_eq_nil_iff]
      intro name hname
      simpa using (htyped.names name).mpr hname
    · apply hunexpected
      rw [List.filter_eq_nil_iff]
      intro name hname
      simpa using (htyped.names name).mp hname
  intro _
  refine wpe_then (wpe_allocateRow manager seqId) fun row middle hmiddle => ?_
  refine wpe_imp (wpe_writeTensors htyped hlayer row states.entries states.nodup_keys
    (fun entry hentry => Dict.get?_eq_some_iff.mpr hentry) middle)
    (fun _ after hafter => ⟨row, middle, hmiddle, hafter⟩) (fun _ => False.elim)

end RecurrentStateManager
