import SparseEngine.SlotTables.Steps

/-!
# Compactions, materializations, frees and restores

The checks of a compaction make sure that the positions to keep are positions
of the rows, each once.  A loop over different layers finds each of them as it
was when the checks were made.
-/

namespace SlotTables

open Routine Cells

variable {config : SlotConfig} {tables : SlotTables}

/-- A loop over different layers: what it relies on at a layer holds until the
layer is reached. -/
theorem forEachLayer_wpe {Item : Type} (items : List Item) (layerOf : Item → ℕ)
    (body : Item → Routine SlotTables Unit) (good : Item → LayerSlots → Prop)
    (hnodup : (items.map layerOf).Nodup) (h : Conserved config tables)
    (hgood : ∀ item ∈ items, good item (tables.layers (layerOf item)))
    (hbody : ∀ item ∈ items, ∀ current : SlotTables, Conserved config current →
      good item (current.layers (layerOf item)) →
        wpe (body item) (fun _ next => Conserved config next ∧
          ∀ other, other ≠ layerOf item → next.layers other = current.layers other)
          (Conserved config) current) :
    wpe (forEach body items) (fun _ => Conserved config) (Conserved config) tables := by
  refine wpe_mono (wpe_forEach (fun rest current => Conserved config current ∧
      (rest.map layerOf).Nodup ∧ ∀ item ∈ rest, item ∈ items ∧ good item (current.layers (layerOf item)))
    (Conserved config) ⟨h, hnodup, fun item hitem => ⟨hitem, hgood item hitem⟩⟩ ?_) fun _ _ hnext => hnext.1
  intro item rest current hcurrent
  obtain ⟨hcurrent, hdistinct, hleft⟩ := hcurrent
  rw [List.map_cons, List.nodup_cons] at hdistinct
  rw [List.forall_mem_cons] at hleft
  refine wpe_mono (hbody item hleft.1.1 current hcurrent hleft.1.2) fun _ next hnext => ?_
  refine ⟨hnext.1, hdistinct.2, fun other hother => ⟨(hleft.2 other hother).1, ?_⟩⟩
  have hne : layerOf other ≠ layerOf item := by
    intro heq
    apply hdistinct.1
    rw [← heq]
    exact List.mem_map_of_mem hother
  rw [hnext.2 _ hne]
  exact (hleft.2 other hother).2

/-! ## Checks -/

variable {layer curLen kvLen sinkEnd : ℕ} {post : Unit → SlotTables → Prop}
  {bad : SlotTables → Prop} {operation : String} {keepIndices : List (List ℕ)} {slots : LayerSlots}
  {seqIds layers : List ℕ} {entries : List (ℕ × ℕ)} {rows : List (ℕ × List ℕ)}

theorem kvLayerIndex_wpe (hbad : bad tables) (hpost : layer < config.numKvLayers → post () tables) :
    wpe (kvLayerIndex config layer) post bad tables := by
  unfold kvLayerIndex
  rw [wpe_raiseIf]
  exact ⟨fun _ => hbad, fun hlayer => hpost (Nat.not_le.mp hlayer)⟩

theorem checkKeepIndices_wpe {rowLens : List ℕ} (hbad : bad tables)
    (hpost : (∀ entry ∈ keepIndices.zip rowLens, ∀ index ∈ entry.1, index < entry.2) →
      (∀ keep ∈ keepIndices, keep.Pairwise (· < ·)) → post () tables) :
    wpe (checkKeepIndices operation rowLens keepIndices) post bad tables := by
  unfold checkKeepIndices
  refine wpe_guarded hbad fun hbounds => ?_
  rw [wpe_raiseIf]
  refine ⟨fun _ => hbad, fun hunique => hpost ?_ ?_⟩
  · simpa using hbounds
  · intro keep hkeep
    rw [← List.isChain_iff_pairwise]
    by_contra hchain
    exact hunique (List.any_eq_true.mpr ⟨keep, hkeep, decide_eq_true hchain⟩)

theorem preflight_wpe {releaseCount : ℤ} (hbad : bad tables) (hpost : post () tables) :
    wpe (preflightCompactionFreeCapacity config operation layer releaseCount) post bad tables := by
  unfold preflightCompactionFreeCapacity
  rw [wpe_get, wpe_raiseIf]
  exact ⟨fun _ => hbad, fun _ => hpost⟩

theorem tileElements_wpe {post : ℕ → SlotTables → Prop} (hbad : bad tables)
    (hpost : 0 < config.compactionTileElements → post config.compactionTileElements tables) :
    wpe (tileElements config) post bad tables := by
  unfold tileElements
  refine wpe_guarded hbad fun htile => ?_
  rw [wpe_pure]
  exact hpost (Nat.pos_of_ne_zero htile)

/-- The rows and lengths of resident sequences. -/
theorem rowsAndLens_ok (hentries : slots.rowsAndLens seqIds = .ok entries) :
    slots.Entered seqIds entries := by
  have hall := forall₂_of_mapM hentries
  clear hentries
  induction hall with
  | nil => exact ⟨rfl, List.forall_mem_nil _⟩
  | cons hentry _ ih =>
      split at hentry
      · exact nomatch hentry
      · next row hrow =>
        obtain rfl := Except.ok.inj hentry
        refine ⟨?_, ?_⟩
        · unfold LayerSlots.RowsOf
          rw [List.map_cons, List.map_cons, List.map_cons, ih.rows, hrow]
        · rw [List.forall_mem_cons]
          exact ⟨rfl, ih.lens⟩

/-! ## Compaction -/

/-- Rows that were checked, with the positions to keep. -/
structure Compactable (rows : List (ℕ × List ℕ)) (slots : LayerSlots) : Prop where
  nodup : (rows.map Prod.fst).Nodup
  resident : ∀ row ∈ rows.map Prod.fst, row ∈ slots.seqIdToRow.values
  valid : slots.ValidKeep rows

/-- A layer whose rows are compacted. -/
theorem compactRows_wpe (h : Conserved config tables)
    (hrows : Compactable rows (tables.layers layer)) {update : LayerSlots → LayerSlots}
    (hcompacts : LayerSlots.Compacts rows (tables.layers layer) (update (tables.layers layer))) :
    wpe (onLayer layer (Routine.write update)) (fun _ next => Conserved config next ∧
      ∀ other, other ≠ layer → next.layers other = tables.layers other) (Conserved config) tables := by
  apply onLayer_wpe
  rw [wpe_write]
  refine ⟨fun other hother => ?_, fun other hne => Function.update_of_ne hne _ _⟩
  by_cases heq : other = layer
  · subst heq
    simp only [Function.update_self]
    exact (h other hother).compacted hcompacts hrows.nodup hrows.resident hrows.valid
  · simp only [Function.update_of_ne heq]
    exact h other hother

theorem freePartSlots_wpe (h : Conserved config tables) (layer seqId : ℕ) (keepIndices : List ℕ)
    (keepIndicesSorted : Bool) :
    wpe (freePartSlots config layer seqId keepIndices keepIndicesSorted) (fun _ next =>
      Conserved config next ∧ ∀ other, other ≠ layer → next.layers other = tables.layers other)
      (Conserved config) tables := by
  unfold freePartSlots
  rw [wpe_bind]
  refine kvLayerIndex_wpe h fun _ => ?_
  rw [wpe_get]
  split
  · exact h
  · next row hrow =>
    refine wpe_guarded h fun _ => ?_
    rw [wpe_bind]
    refine checkKeepIndices_wpe h fun hbounds hsorted => ?_
    rw [wpe_bind]
    refine preflight_wpe h ?_
    rw [wpe_bind]
    unfold clearUniform
    rw [wpe_write]
    have hcleared : Conserved config { tables with uniformDecodeMetadata := false } := h
    have hrows : Compactable [(row, sortKeepIndices keepIndicesSorted keepIndices)] (tables.layers layer) := by
      refine ⟨List.nodup_singleton row, ?_, ?_⟩
      · simpa using Dict.mem_values_iff.mpr ⟨seqId, hrow⟩
      · intro entry hentry
        obtain rfl := List.mem_singleton.mp hentry
        exact ⟨hsorted _ (List.mem_singleton_self _), hbounds (_, _) (List.mem_singleton_self _)⟩
    exact compactRows_wpe hcleared hrows (LayerSlots.applyFreePartSlots_compacts row _)

/-- `free_part_slots` on one sequence after the other touches one layer. -/
theorem freePartSlotsEach_wpe (h : Conserved config tables) (layer : ℕ) (seqIds : List ℕ)
    (keepIndices : List (List ℕ)) :
    wpe (freePartSlotsEach config layer seqIds keepIndices) (fun _ next => Conserved config next ∧
      ∀ other, other ≠ layer → next.layers other = tables.layers other) (Conserved config) tables := by
  refine wpe_forEach (fun _ current => Conserved config current ∧
      ∀ other, other ≠ layer → current.layers other = tables.layers other)
    (Conserved config) ⟨h, fun _ _ => rfl⟩ fun entry rest current hcurrent => ?_
  refine wpe_mono (freePartSlots_wpe hcurrent.1 layer entry.1 entry.2 true) fun _ next hnext => ?_
  exact ⟨hnext.1, fun other hne => (hnext.2 other hne).trans (hcurrent.2 other hne)⟩

/-- The rows of a tensor of keep indices that was checked. -/
theorem compactable_of_entered (hentered : slots.Entered seqIds entries)
    (hnodup : (entries.map Prod.fst).Nodup) (hlength : keepIndices.length = seqIds.length)
    (hbounds : ∀ entry ∈ keepIndices.zip (entries.map Prod.snd), ∀ index ∈ entry.1, index < entry.2)
    (hsorted : ∀ keep ∈ keepIndices, keep.Pairwise (· < ·)) :
    Compactable ((entries.map Prod.fst).zip keepIndices) slots := by
  have hkeys : ((entries.map Prod.fst).zip keepIndices).map Prod.fst = entries.map Prod.fst := by
    apply List.map_fst_zip
    rw [hentered.rows.length_eq, hlength]
  refine ⟨hkeys.symm ▸ hnodup, ?_, ?_⟩
  · rw [hkeys]
    exact hentered.rows.mem_values
  · intro pair hpair
    rw [List.zip_map_left, List.mem_map] at hpair
    obtain ⟨⟨⟨row, len⟩, keep⟩, hmem, rfl⟩ := hpair
    refine ⟨hsorted keep (List.of_mem_zip hmem).2, ?_⟩
    have hlen := hentered.lens _ (List.of_mem_zip hmem).1
    have hswap : (keep, len) ∈ keepIndices.zip (entries.map Prod.snd) := by
      rw [List.zip_map_right, List.mem_map]
      refine ⟨(keep, (row, len)), ?_, rfl⟩
      rw [← List.zip_swap, List.mem_map]
      exact ⟨((row, len), keep), hmem, rfl⟩
    show ∀ index ∈ keep, index < slots.rowSeqLens row
    rw [← hlen]
    exact hbounds _ hswap

theorem compactUniformRowsBounded_wpe (h : Conserved config tables) (hrows : Compactable rows (tables.layers layer))
    (hlens : ∀ entry ∈ rows, (tables.layers layer).rowSeqLens entry.1 = curLen) :
    wpe (compactUniformRowsBounded config layer curLen rows) (fun _ next => Conserved config next ∧
      ∀ other, other ≠ layer → next.layers other = tables.layers other) (Conserved config) tables := by
  unfold compactUniformRowsBounded
  rw [wpe_bind]
  refine tileElements_wpe h fun htile => ?_
  exact compactRows_wpe h hrows (LayerSlots.compactUniformRowsBounded_compacts htile hrows.nodup
    (fun entry hentry => (hrows.valid entry hentry).1) hlens)

/-- The lengths of rows that are all alike. -/
theorem lens_of_entered (hentered : slots.Entered seqIds entries)
    (hlens : ∀ length ∈ entries.map Prod.snd, length = curLen) :
    ∀ entry ∈ (entries.map Prod.fst).zip keepIndices, slots.rowSeqLens entry.1 = curLen := by
  intro entry hentry
  obtain ⟨rowLen, hmem, hrow⟩ := List.mem_map.mp (List.of_mem_zip hentry).1
  rw [← hrow, ← hentered.lens rowLen hmem]
  exact hlens _ (List.mem_map_of_mem hmem)

theorem maintains_freePartSlotsBatch (layer : ℕ) (seqIds : List ℕ) (keepIndices : List (List ℕ))
    (keepIndicesSorted : Bool) :
    Maintains (Conserved config) (freePartSlotsBatch config layer seqIds keepIndices keepIndicesSorted) := by
  intro tables h
  unfold freePartSlotsBatch
  rw [wpe_ite]
  refine ⟨fun _ => h, fun _ => ?_⟩
  rw [wpe_bind]
  refine kvLayerIndex_wpe h fun _ => ?_
  refine wpe_guarded h fun hshape => ?_
  refine wpe_guarded h fun _ => ?_
  rw [wpe_ite]
  refine ⟨fun _ => wpe_mono (freePartSlots_wpe h _ _ _ _) fun _ _ hnext => hnext.1, fun _ => ?_⟩
  rw [wpe_get, wpe_bind]
  refine wpe_ofExcept (fun entries hentries => ?_) h
  have hentered := rowsAndLens_ok hentries
  refine wpe_guarded h fun hdistinct => ?_
  rw [wpe_bind]
  refine checkKeepIndices_wpe h fun hbounds hsorted => ?_
  rw [wpe_bind]
  refine preflight_wpe h ?_
  rw [wpe_bind]
  unfold clearUniform
  rw [wpe_write]
  have hcleared : Conserved config { tables with uniformDecodeMetadata := false } := h
  rw [wpe_ite]
  constructor
  · intro _
    exact wpe_mono (freePartSlotsEach_wpe hcleared _ _ _) fun _ _ hnext => hnext.1
  · intro hsame
    rw [ne_eq, not_not] at hshape
    have hlength : (keepIndices.map (sortKeepIndices keepIndicesSorted)).length = seqIds.length := by
      rw [List.length_map, hshape]
    have hlens : ∀ length ∈ entries.map Prod.snd, length = (entries.map Prod.snd).headD 0 := by
      intro length hmem
      by_contra hne
      exact hsame (List.any_eq_true.mpr ⟨length, hmem, decide_eq_true hne⟩)
    have hrows := compactable_of_entered hentered (not_not.mp hdistinct) hlength hbounds hsorted
    exact wpe_mono (compactUniformRowsBounded_wpe hcleared hrows (lens_of_entered hentered hlens))
      fun _ _ hnext => hnext.1

/-! ## Several layers -/

/-- A layer that was checked. -/
structure Checked (seqIds : List ℕ) (plan : LayerPlan) (slots : LayerSlots) : Prop where
  entered : slots.Entered seqIds plan.entries
  compactable : Compactable plan.rows slots

theorem compactLayer_wpe (h : Conserved config tables) {plan : LayerPlan}
    (hplan : Checked seqIds plan (tables.layers plan.layer)) :
    wpe (compactLayer config seqIds plan) (fun _ next => Conserved config next ∧
      ∀ other, other ≠ plan.layer → next.layers other = tables.layers other)
      (Conserved config) tables := by
  unfold compactLayer
  rw [wpe_ite]
  constructor
  · intro hsame
    have hlens : ∀ length ∈ plan.entries.map Prod.snd, length = plan.curLens.headD 0 :=
      fun length hmem => of_decide_eq_true (List.all_eq_true.mp hsame length hmem)
    exact compactUniformRowsBounded_wpe h hplan.compactable (lens_of_entered hplan.entered hlens)
  · intro _
    exact freePartSlotsEach_wpe h _ _ _

theorem compactLayers_wpe (h : Conserved config tables) {plans : List LayerPlan}
    (hnodup : (plans.map LayerPlan.layer).Nodup)
    (hplans : ∀ plan ∈ plans, Checked seqIds plan (tables.layers plan.layer)) :
    wpe (compactLayers config seqIds plans) (fun _ => Conserved config) (Conserved config) tables := by
  unfold compactLayers
  rw [wpe_bind]
  refine tileElements_wpe h fun htile => ?_
  rw [wpe_ite]
  constructor
  · intro hsame
    have hpos : 0 < max 1 (config.compactionTileElements / max 1 (seqIds.length *
        ((plans.head?).map fun plan => plan.curLens.headD 0).getD 0)) := by omega
    unfold compactUniformLayerTile
    rw [forEach_flatMap, flatMap_tiles plans hpos]
    refine forEachLayer_wpe plans LayerPlan.layer _ (Checked seqIds) hnodup h hplans ?_
    intro plan hplan current hcurrent hchecked
    apply compactRows_wpe hcurrent hchecked.compactable
    apply LayerSlots.compactUniformRowTile_compacts hchecked.compactable.nodup
    apply lens_of_entered hchecked.entered
    have hall := List.all_eq_true.mp (List.all_eq_true.mp hsame.1 plan hplan)
    exact fun length hmem => of_decide_eq_true (hall length hmem)
  · intro _
    exact forEachLayer_wpe plans LayerPlan.layer _ (Checked seqIds) hnodup h hplans
      fun plan _ current hcurrent hchecked => compactLayer_wpe hcurrent hchecked

/-- Items of two lists of lists that lie at one place. -/
theorem mem_zip_flatten {α β : Type} {first : List (List α)} {second : List (List β)}
    (hlengths : ∀ pair ∈ first.zip second, pair.1.length = pair.2.length)
    {pair : List α × List β} (hpair : pair ∈ first.zip second) {item : α × β}
    (hitem : item ∈ pair.1.zip pair.2) : item ∈ first.flatten.zip second.flatten := by
  induction first generalizing second with
  | nil => simp at hpair
  | cons row rest ih =>
      cases second with
      | nil => simp at hpair
      | cons other others =>
          rw [List.zip_cons_cons, List.forall_mem_cons] at hlengths
          rw [List.flatten_cons, List.flatten_cons, List.zip_append hlengths.1, List.mem_append]
          rw [List.zip_cons_cons, List.mem_cons] at hpair
          rcases hpair with rfl | hpair
          · exact .inl hitem
          · exact .inr (ih hlengths.2 hpair)

/-- What the checks of `free_part_slots_batch_layers` establish for every
layer. -/
theorem checked_plans {entries : List (List (ℕ × ℕ))} {keepIndices : List (List (List ℕ))}
    (hentries : layers.mapM (tables.layerEntries seqIds) = .ok entries) (hlayers : keepIndices.length = layers.length)
    (hshape : ∀ rows ∈ keepIndices, rows.length = seqIds.length)
    (hdistinct : ∀ rows ∈ entries, (rows.map Prod.fst).Nodup)
    (hbounds : ∀ entry ∈ keepIndices.flatten.zip (entries.flatten.map Prod.snd), ∀ index ∈ entry.1, index < entry.2)
    (hsorted : ∀ keep ∈ keepIndices.flatten, keep.Pairwise (· < ·)) :
    let plans := (layers.zip (entries.zip keepIndices)).map fun entry =>
      (⟨entry.1, entry.2.1, entry.2.2⟩ : LayerPlan)
    plans.map LayerPlan.layer = layers ∧ ∀ plan ∈ plans, Checked seqIds plan (tables.layers plan.layer) := by
  have hpairs := List.forall₂_iff_zip.mp (forall₂_of_mapM hentries)
  have hentered : ∀ {layer : ℕ} {rows : List (ℕ × ℕ)}, (layer, rows) ∈ layers.zip entries →
      (tables.layers layer).Entered seqIds rows := fun hmem => rowsAndLens_ok (hpairs.2 hmem)
  have hrowsLength : ∀ rows ∈ entries, rows.length = seqIds.length := by
    intro rows hrows
    rw [← List.map_snd_zip hpairs.1.ge] at hrows
    obtain ⟨⟨layer, rows⟩, hmem, rfl⟩ := List.mem_map.mp hrows
    have hlength := (hentered hmem).rows.length_eq
    rwa [List.length_map] at hlength
  have hcount : keepIndices.length = entries.length := hlayers.trans hpairs.1
  constructor
  · rw [List.map_map]
    exact List.map_fst_zip (by rw [List.length_zip]; omega)
  · intro plan hplan
    obtain ⟨⟨layer, rows, keep⟩, hmem, rfl⟩ := List.mem_map.mp hplan
    have hrowsKeep : (rows, keep) ∈ entries.zip keepIndices := (List.of_mem_zip hmem).2
    have hrows := (List.of_mem_zip hrowsKeep).1
    have hkeep := (List.of_mem_zip hrowsKeep).2
    have hlayer : (layer, rows) ∈ layers.zip entries := by
      rw [← List.map_fst_zip hcount.ge, List.zip_map_right]
      exact List.mem_map.mpr ⟨_, hmem, rfl⟩
    have hswap : (keep, rows.map Prod.snd) ∈ keepIndices.zip (entries.map (List.map Prod.snd)) := by
      rw [List.zip_map_right, ← List.zip_swap]
      exact List.mem_map.mpr ⟨(keep, rows), List.mem_map.mpr ⟨(rows, keep), hrowsKeep, rfl⟩, rfl⟩
    refine ⟨hentered hlayer, compactable_of_entered (hentered hlayer) (hdistinct rows hrows)
      (hshape keep hkeep) (fun entry hentry => hbounds entry ?_) fun row hrow =>
        hsorted row (List.mem_flatten.mpr ⟨keep, hkeep, hrow⟩)⟩
    rw [List.map_flatten]
    refine mem_zip_flatten (fun pair hpair => ?_) hswap hentry
    obtain ⟨hfirst, hsecond⟩ := List.of_mem_zip hpair
    obtain ⟨other, hother, heq⟩ := List.mem_map.mp hsecond
    rw [hshape _ hfirst, ← heq, List.length_map, hrowsLength other hother]

theorem maintains_freePartSlotsBatchLayers (layers seqIds : List ℕ)
    (keepIndices : List (List (List ℕ))) (keepIndicesSorted : Bool) :
    Maintains (Conserved config) (freePartSlotsBatchLayers config layers seqIds keepIndices keepIndicesSorted) := by
  intro tables h
  unfold freePartSlotsBatchLayers
  rw [wpe_ite]
  refine ⟨fun _ => h, fun _ => ?_⟩
  rw [wpe_bind]
  have hkv : Maintains (fun next => next = tables) (forEach (kvLayerIndex config) layers) :=
    .forEach fun _ _ => .raiseIf _ _
  refine wpe_imp (hkv tables rfl) ?_ fun next hnext => hnext ▸ h
  rintro _ next rfl
  refine wpe_guarded h fun hshape => ?_
  refine wpe_guarded h fun _ => ?_
  refine wpe_guarded h fun hlayers => ?_
  rw [wpe_ite]
  refine ⟨fun _ => maintains_freePartSlotsBatch _ _ _ _ _ h, fun _ => ?_⟩
  rw [wpe_get, wpe_bind]
  refine wpe_ofExcept (fun entries hentries => ?_) h
  refine wpe_guarded h fun hdistinct => ?_
  rw [wpe_bind]
  refine checkKeepIndices_wpe h fun hbounds hsorted => ?_
  rw [not_or, not_not] at hshape
  have hplans := checked_plans hentries (by rw [List.length_map, hshape.1]) ?_ ?_ hbounds hsorted
  · obtain ⟨hplanLayers, hchecked⟩ := hplans
    rw [wpe_bind]
    have hpreflight : ∀ plans : List LayerPlan, Maintains (fun current => current = next)
        (forEach (fun plan : LayerPlan =>
          preflightCompactionFreeCapacity config "free_part_slots_batch_layers" plan.layer
            ((plan.curLens.zip plan.keepIndices).map fun entry =>
              (entry.1 : ℤ) - entry.2.length).sum) plans) := fun plans =>
      .forEach fun _ _ => .bind .read fun _ => .raiseIf _ _
    refine wpe_imp (hpreflight _ next rfl) ?_ fun current hcurrent => hcurrent ▸ h
    rintro _ current rfl
    rw [wpe_bind]
    unfold clearUniform
    rw [wpe_write]
    have hcleared : Conserved config { current with uniformDecodeMetadata := false } := h
    exact compactLayers_wpe hcleared (hplanLayers.symm ▸ not_not.mp hlayers) hchecked
  · intro rows hrows
    obtain ⟨original, horiginal, rfl⟩ := List.mem_map.mp hrows
    rw [List.length_map]
    by_contra hne
    exact hshape.2 (List.any_eq_true.mpr ⟨original, horiginal, decide_eq_true hne⟩)
  · intro rows hrows
    by_contra hrepeated
    exact hdistinct (List.any_eq_true.mpr ⟨rows, hrows, decide_eq_true hrepeated⟩)

theorem kvLayerIndices_wpe (hbad : bad tables)
    (hpost : (∀ layer ∈ layers, layer < config.numKvLayers) → post () tables) :
    wpe (forEach (kvLayerIndex config) layers) post bad tables := by
  induction layers with
  | nil => exact hpost (List.forall_mem_nil _)
  | cons layer rest ih =>
      rw [forEach, wpe_bind]
      refine kvLayerIndex_wpe hbad fun hlayer => ih fun hrest => hpost ?_
      exact List.forall_mem_cons.mpr ⟨hlayer, hrest⟩

theorem prefixRecentKeep_sorted {recentStart : ℕ} (hsink : sinkEnd ≤ recentStart) :
    (LayerSlots.prefixRecentKeep kvLen sinkEnd recentStart).Pairwise (· < ·) := by
  apply List.pairwise_append.mpr
  refine ⟨List.pairwise_lt_range', List.pairwise_lt_range', ?_⟩
  intro first hfirst second hsecond
  rw [List.mem_range'_1] at hfirst hsecond
  omega

theorem prefixRecent_wpe (h : Conserved config tables) (hlayers : layers.Nodup)
    (hseqs : seqIds.Nodup) (hkv : ∀ layer ∈ layers, layer < config.numKvLayers) {recentStart : ℕ}
    (hsink : sinkEnd ≤ recentStart) (hrecent : recentStart ≤ kvLen) :
    wpe (prefixRecent layers seqIds kvLen sinkEnd recentStart) (fun _ => Conserved config)
      (Conserved config) tables := by
  unfold prefixRecent
  rw [wpe_get, wpe_bind]
  refine wpe_ofExcept (fun entries hentries => ?_) h
  refine wpe_guarded h fun huniform => ?_
  have hpairs := List.forall₂_iff_zip.mp (forall₂_of_mapM hentries)
  have hkeys : (layers.zip entries).map Prod.fst = layers := List.map_fst_zip hpairs.1.le
  refine forEachLayer_wpe _ Prod.fst _ (fun entry slots => slots.Entered seqIds entry.2)
    (hkeys.symm ▸ hlayers) h (fun entry hentry => rowsAndLens_ok (hpairs.2 hentry)) ?_
  intro entry hentry current hcurrent hentered
  have hlayer := hkv entry.1 (List.of_mem_zip hentry).1
  have hrows : (entry.2.map Prod.fst).Nodup := hentered.rows.nodup (hcurrent _ hlayer) hseqs
  have hlens : ∀ row ∈ entry.2.map Prod.fst, (current.layers entry.1).rowSeqLens row = kvLen := by
    intro row hrow
    obtain ⟨rowLen, hmem, rfl⟩ := List.mem_map.mp hrow
    rw [← hentered.lens rowLen hmem]
    by_contra hne
    apply huniform
    refine List.any_eq_true.mpr ⟨entry.2, (List.of_mem_zip hentry).2, ?_⟩
    exact List.any_eq_true.mpr ⟨rowLen, hmem, decide_eq_true hne⟩
  have hfirst : ((entry.2.map Prod.fst).map fun row =>
      (row, LayerSlots.prefixRecentKeep kvLen sinkEnd recentStart)).map Prod.fst =
      entry.2.map Prod.fst := by
    rw [List.map_map]
    exact List.map_id' _
  refine compactRows_wpe hcurrent ⟨hfirst.symm ▸ hrows, hfirst.symm ▸ hentered.rows.mem_values, ?_⟩
    (LayerSlots.freePrefixRecentSlots_compacts hrows hlens hsink hrecent)
  intro pair hpair
  obtain ⟨row, hrow, rfl⟩ := List.mem_map.mp hpair
  refine ⟨prefixRecentKeep_sorted hsink, fun index hindex => ?_⟩
  rw [hlens row hrow]
  rcases List.mem_append.mp hindex with hindex | hindex
  · rw [List.mem_range'_1] at hindex
    omega
  · rw [List.mem_range'_1] at hindex
    omega

theorem maintains_freePrefixRecent (hlayers : layers.Nodup) (hseqs : seqIds.Nodup)
    (kvLen sinkKeepTokens recentKeepTokens : ℕ) :
    Maintains (Conserved config) (freePrefixRecent config layers seqIds kvLen sinkKeepTokens recentKeepTokens) := by
  refine .bind ?_ fun _ => .whenDo (.write fun _ h => h)
  intro tables h
  unfold snapkvFreePrefixRecent
  rw [wpe_ite]
  refine ⟨fun _ => h, fun _ => ?_⟩
  rw [wpe_bind]
  refine kvLayerIndices_wpe h fun hkv => ?_
  rw [wpe_bind]
  unfold clearUniform
  rw [wpe_write]
  have hcleared : Conserved config { tables with uniformDecodeMetadata := false } := h
  refine wpe_guarded hcleared fun _ => ?_
  rw [wpe_ite]
  refine ⟨fun _ => hcleared, fun _ => ?_⟩
  exact prefixRecent_wpe hcleared hlayers hseqs hkv (by omega) (by omega)

/-! ## Materialization -/

theorem reclaimPrefix_wpe (h : Conserved config tables) {seqId row residentPrefixLen : ℕ}
    (hlayer : layer < config.numKvLayers) (hrow : (tables.layers layer).seqIdToRow.get? seqId = some row) :
    wpe (reclaimPrefix layer row residentPrefixLen) (fun _ => Conserved config) (Conserved config)
      tables := by
  unfold reclaimPrefix
  rw [wpe_get]
  refine wpe_guarded h fun hlen => ?_
  rw [ne_eq, not_not] at hlen
  subst hlen
  apply onLayer_wpe
  rw [wpe_write]
  have hvalues := Dict.mem_values_iff.mpr ⟨seqId, hrow⟩
  exact h.setLayer ((h layer hlayer).emptied hvalues _)

theorem stagedRow_wpe {seqId : ℕ} {post : ℕ → SlotTables → Prop} (hbad : bad tables)
    (hpost : ∀ row, (tables.layers layer).seqIdToRow.get? seqId = some row → post row tables) :
    wpe (stagedRow layer seqId) post bad tables := by
  unfold stagedRow
  rw [wpe_get]
  refine wpe_guarded hbad fun _ => ?_
  split
  · exact hbad
  · next row hrow => exact hpost row hrow

theorem maintains_materialize (hlayer : layer < config.numKvLayers) (seqId numKeep : ℕ) :
    Maintains (Conserved config) (onLayer layer (LayerSlots.allocate config.maxModelLen seqId numKeep none)) :=
  maintains_onLayer hlayer (LayerSlots.maintains_allocate _ _ _ _)

theorem maintains_materializePrefillStagingLayer (layer seqId numKeep : ℕ) :
    Maintains (Conserved config) (materializePrefillStagingLayer config layer seqId numKeep) := by
  intro tables h
  unfold materializePrefillStagingLayer requireStagingView
  rw [wpe_bind, wpe_bind]
  refine kvLayerIndex_wpe h fun hlayer => ?_
  rw [wpe_get, wpe_raiseIf]
  refine ⟨fun _ => h, fun _ => ?_⟩
  rw [wpe_bind]
  refine stagedRow_wpe h fun row hrow => ?_
  rw [wpe_get, wpe_bind, wpe_whenDo]
  have hrest : Maintains (Conserved config) (do
      requireEmptyRow layer row
      raiseIf (numKeep = 0) (.runtimeError "PyramidKV staging materialization cannot keep zero tokens.")
      let _ ← onLayer layer (LayerSlots.allocate config.maxModelLen seqId numKeep none)
      requireStaged seqId
      finishMaterialization config layer [seqId]) := by
    refine .bind (.bind .read fun _ => .raiseIf _ _) fun _ => .bind (.raiseIf _ _) fun _ => ?_
    refine .bind (maintains_materialize hlayer seqId numKeep) fun _ => ?_
    exact .bind (.bind .read fun _ => .raiseIf _ _) fun _ => .write fun _ h => h
  constructor
  · intro _
    exact wpe_mono (reclaimPrefix_wpe h hlayer hrow) fun _ next hnext => hrest next hnext
  · intro _
    exact hrest tables h

theorem maintains_materializePrefillStagingLayerBatch (layer : ℕ) (entries : List (ℕ × ℕ)) :
    Maintains (Conserved config) (materializePrefillStagingLayerBatch config layer entries) := by
  unfold materializePrefillStagingLayerBatch
  split
  · exact .pure ()
  · exact maintains_materializePrefillStagingLayer _ _ _
  · intro tables h
    unfold requireStagingView
    rw [wpe_bind, wpe_bind]
    refine kvLayerIndex_wpe h fun hlayer => ?_
    rw [wpe_get, wpe_raiseIf]
    refine ⟨fun _ => h, fun _ => ?_⟩
    have hrest : Maintains (Conserved config) (do
        forEach (checkMaterialization layer) entries
        forEach (fun entry : ℕ × ℕ => onLayer layer do
          let _ ← LayerSlots.allocate config.maxModelLen entry.1 entry.2 none
          return ()) entries
        finishMaterialization config layer (entries.map Prod.fst)) := by
      refine .bind (.forEach fun entry _ => ?_) fun _ => .bind (.forEach fun entry _ => ?_) fun _ =>
        .write fun _ h => h
      · intro current hcurrent
        unfold checkMaterialization
        rw [wpe_bind]
        refine stagedRow_wpe hcurrent fun row _ => ?_
        have hchecks : Maintains (Conserved config) (do
            requireEmptyRow layer row
            raiseIf (entry.2 = 0) (.runtimeError "PyramidKV staging materialization cannot keep zero tokens.")
            requireStaged entry.1) :=
          .bind (.bind .read fun _ => .raiseIf _ _) fun _ => .bind (.raiseIf _ _) fun _ =>
            .bind .read fun _ => .raiseIf _ _
        exact hchecks current hcurrent
      · apply maintains_onLayer hlayer
        exact .bind (LayerSlots.maintains_allocate _ _ _ _) fun _ => .pure ()
    exact hrest tables h

/-! ## Frees and restores -/

theorem maintains_freeSeq (seqId : ℕ) : Maintains (Conserved config) (freeSeq config seqId) :=
  .forEach fun _ hlayer =>
    maintains_onLayer (mem_layerIds.mp hlayer) (LayerSlots.maintains_freeSeq seqId)

theorem maintains_allocateChainRestore (seqId : ℕ) (lengthsByLayer : List ℕ) (fault : ℕ → Option PyError) :
    Maintains (Conserved config) (allocateChainRestore config seqId lengthsByLayer fault) := by
  refine .bind (.raiseIf _ _) fun _ => .bind .read fun tables => .bind (.raiseIf _ _) fun _ => ?_
  refine .bind (.forEach fun _ _ => .bind (.raiseIf _ _) fun _ => .raiseIf _ _) fun _ => ?_
  refine .onError (.mapEach fun entry hentry => ?_) (maintains_freeSeq seqId)
  have hlayer := mem_layerIds.mp (List.of_mem_zip hentry).1
  exact maintains_onLayer hlayer (LayerSlots.maintains_allocate _ _ _ _)

end SlotTables
