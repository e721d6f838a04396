import SparseEngine.SlotTables.Acceptance
import SparseEngine.SlotTables.Runs

/-!
# All compaction paths agree

On every layer that a call compacts, the rows are left as by `free_part_slots`
on one sequence after the other (`freeLayers_decides`): row tiles, column
tiles, layer tiles, rows of mixed lengths and the compaction to a sink and a
recent window all satisfy `Compacts`, which fixes what is live of a layer
(`Compacts.agree`).  The loops over layers rest on the layers being different
(`forEachLayers_decides`).
-/

namespace LayerSlots

open Cells

/-- Two layers with the same rows, lengths, live cells and stack. -/
structure Agree (first second : LayerSlots) : Prop where
  lens : first.rowSeqLens = second.rowSeqLens
  cells : ∀ row column, column < first.rowSeqLens row →
    first.reqToTokenSlots row column = second.reqToTokenSlots row column
  height : first.numFreeSlots = second.numFreeSlots
  stack : ∀ position < first.numFreeSlots, first.freeSlotsStack position = second.freeSlotsStack position
  seqIdToRow : first.seqIdToRow = second.seqIdToRow
  freeRows : first.freeRows = second.freeRows

variable {slots first second : LayerSlots}

theorem eq_of_read_eq {cells other : ℕ → ℕ} {count : ℕ} (h : read cells 0 count = read other 0 count) :
    ∀ position < count, cells position = other position := by
  intro position hposition
  have hget : (read cells 0 count)[position]? = (read other 0 count)[position]? := by rw [h]
  rw [getElem?_read, getElem?_read, if_pos hposition, if_pos hposition, Nat.zero_add] at hget
  exact Option.some.inj hget

theorem Agree.of_lists (hrows : ∀ row, first.rowSlots row = second.rowSlots row)
    (hstack : first.freeSlots = second.freeSlots) (hseqIdToRow : first.seqIdToRow = second.seqIdToRow)
    (hfreeRows : first.freeRows = second.freeRows) : Agree first second := by
  have hlens : ∀ row, first.rowSeqLens row = second.rowSeqLens row := by
    intro row
    have hlength := congrArg List.length (hrows row)
    rwa [rowSlots, rowSlots, length_read, length_read] at hlength
  have hheight : first.numFreeSlots = second.numFreeSlots := by
    have hlength := congrArg List.length hstack
    rwa [freeSlots, freeSlots, length_read, length_read] at hlength
  refine ⟨funext hlens, fun row => ?_, hheight, ?_, hseqIdToRow, hfreeRows⟩
  · have hrow := hrows row
    rw [rowSlots, rowSlots, ← hlens] at hrow
    exact eq_of_read_eq hrow
  · rw [freeSlots, freeSlots, ← hheight] at hstack
    exact eq_of_read_eq hstack

variable {rows : List (ℕ × List ℕ)}

/-- **Compactions of the same rows agree.** -/
theorem Compacts.agree (hfirst : Compacts rows slots first) (hsecond : Compacts rows slots second) :
    Agree first second := by
  refine .of_lists (fun row => ?_) (hfirst.stack.trans hsecond.stack.symm)
    (hfirst.seqIdToRow.trans hsecond.seqIdToRow.symm) (hfirst.freeRows.trans hsecond.freeRows.symm)
  by_cases hrow : row ∈ rows.map Prod.fst
  · obtain ⟨entry, hentry, rfl⟩ := List.mem_map.mp hrow
    rw [hfirst.kept entry hentry, hsecond.kept entry hentry]
  · rw [hfirst.rowSlots hrow, hsecond.rowSlots hrow]

/-- A compaction that keeps every position changes nothing. -/
theorem Compacts.of_keepAll (hkeep : ∀ row ∈ rows, row.2 = List.range (slots.rowSeqLens row.1)) :
    Compacts rows slots slots where
  stack := by
    have hdropped : ∀ row ∈ rows, slots.droppedSlots row.1 (slots.rowSeqLens row.1) row.2 = [] := by
      intro row hrow
      rw [droppedSlots, hkeep row hrow, List.map_eq_nil_iff]
      exact List.filter_eq_nil_iff.mpr fun index hindex => by simpa using hindex
    rw [List.flatMap_eq_nil_iff.mpr hdropped, List.append_nil]
  kept row hrow := by
    rw [LayerSlots.rowSlots, keptSlots, hkeep row hrow, List.range_eq_range']
    rfl
  table _ _ := rfl
  lens _ _ := rfl
  seqIdToRow := rfl
  freeRows := rfl

theorem Agree.refl : Agree slots slots := ⟨rfl, fun _ _ _ => rfl, rfl, fun _ _ => rfl, rfl, rfl⟩

end LayerSlots

namespace SlotTables

open Routine Cells

variable {config : SlotConfig} {keepIndicesSorted : Bool} {tables : SlotTables}

/-- The sequences of every listed layer, with their keep indices. -/
abbrev LayerSeqs : Type := List (ℕ × List (ℕ × List ℕ))

/-- The rows of the listed layers are compacted, and the other layers are as
before. -/
structure CompactsLayers (keepIndicesSorted : Bool) (items : LayerSeqs) (tables next : SlotTables) : Prop where
  compacts : ∀ item ∈ items, LayerSlots.Compacts
    ((tables.layers item.1).rowsToKeep keepIndicesSorted item.2) (tables.layers item.1) (next.layers item.1)
  others : ∀ layer ∉ items.map Prod.fst, next.layers layer = tables.layers layer

variable {layer : ℕ} {seqs : List (ℕ × List ℕ)} {items : LayerSeqs} {call : Routine SlotTables Unit}

theorem Accepted.congr {other : SlotTables} (hlayer : other.layers layer = tables.layers layer)
    (h : Accepted config layer keepIndicesSorted seqs tables) :
    Accepted config layer keepIndicesSorted seqs other :=
  ⟨h.kvLayer, by rw [hlayer]; exact h.accepts⟩

/-- A loop over different layers decides on each of them as it was before the
loop. -/
theorem forEachLayers_decides (body : ℕ × List (ℕ × List ℕ) → Routine SlotTables Unit)
    (hnodup : (items.map Prod.fst).Nodup)
    (hbody : ∀ item ∈ items, ∀ current : SlotTables, current.layers item.1 = tables.layers item.1 →
      wpe (body item)
        (fun _ next => Accepted config item.1 keepIndicesSorted item.2 current ∧
          CompactsLayer item.1 ((current.layers item.1).rowsToKeep keepIndicesSorted item.2) current next)
        (fun _ => ¬ Accepted config item.1 keepIndicesSorted item.2 current) current) :
    wpe (forEach body items)
      (fun _ next => (∀ item ∈ items, Accepted config item.1 keepIndicesSorted item.2 tables) ∧
        CompactsLayers keepIndicesSorted items tables next)
      (fun _ => ¬ ∀ item ∈ items, Accepted config item.1 keepIndicesSorted item.2 tables) tables := by
  induction items generalizing tables with
  | nil => exact ⟨List.forall_mem_nil _, List.forall_mem_nil _, fun _ _ => rfl⟩
  | cons first rest ih =>
      rw [List.map_cons, List.nodup_cons] at hnodup
      rw [List.forall_mem_cons] at hbody
      have hne : ∀ item ∈ rest, item.1 ≠ first.1 := by
        intro item hitem heq
        exact hnodup.1 (heq ▸ List.mem_map_of_mem hitem)
      rw [forEach]
      refine wpe_then_imp (hbody.1 tables rfl) ?_ fun _ hnot hall => hnot (hall first List.mem_cons_self)
      rintro _ middle ⟨hfirst, hmiddle⟩
      -- the first call leaves the other layers
      have hkept : ∀ item ∈ rest, middle.layers item.1 = tables.layers item.1 :=
        fun item hitem => hmiddle.others item.1 (hne item hitem)
      refine wpe_imp (ih hnodup.2 fun item hitem current hcurrent =>
        hbody.2 item hitem current (hcurrent.trans (hkept item hitem))) ?_ ?_
      · rintro _ next ⟨haccepted, hnext⟩
        refine ⟨?_, ?_, fun layer hlayer => ?_⟩
        · rw [List.forall_mem_cons]
          exact ⟨hfirst, fun item hitem => (haccepted item hitem).congr (hkept item hitem).symm⟩
        · rw [List.forall_mem_cons]
          refine ⟨?_, fun item hitem => ?_⟩
          · rw [hnext.others first.1 hnodup.1]
            exact hmiddle.compacts
          · have hcompacts := hnext.compacts item hitem
            rwa [hkept item hitem] at hcompacts
        · rw [List.map_cons, List.mem_cons, not_or] at hlayer
          exact (hnext.others layer hlayer.2).trans (hmiddle.others layer hlayer.1)
      · intro _ hnot hall
        rw [List.forall_mem_cons] at hall
        exact hnot fun item hitem => (hall.2 item hitem).congr (hkept item hitem)

/-- `free_part_slots` for every layer and sequence, in order. -/
def freeLayers (config : SlotConfig) (keepIndicesSorted : Bool) (items : LayerSeqs) : Routine SlotTables Unit :=
  forEach (fun item : ℕ × List (ℕ × List ℕ) =>
    forEach (fun seq : ℕ × List ℕ => freePartSlots config item.1 seq.1 seq.2 keepIndicesSorted) item.2) items

/-- Different layers, each with different sequences that have rows of their
own. -/
structure DistinctSeqs (items : LayerSeqs) (tables : SlotTables) : Prop where
  layers : (items.map Prod.fst).Nodup
  seqs : ∀ item ∈ items, (item.2.map Prod.fst).Nodup
  values : ∀ item ∈ items, (tables.layers item.1).seqIdToRow.values.Nodup

/-- **`free_part_slots` for every layer and sequence** returns exactly when all
rows are accepted at once. -/
theorem freeLayers_decides (h : DistinctSeqs items tables) :
    wpe (freeLayers config keepIndicesSorted items)
      (fun _ next => (∀ item ∈ items, Accepted config item.1 keepIndicesSorted item.2 tables) ∧
        CompactsLayers keepIndicesSorted items tables next)
      (fun _ => ¬ ∀ item ∈ items, Accepted config item.1 keepIndicesSorted item.2 tables) tables :=
  forEachLayers_decides _ h.layers fun item hitem _ hcurrent =>
    freeEach_decides (hcurrent ▸ h.values item hitem) (h.seqs item hitem)

/-! ## Several layers at once -/

theorem kvLayers_decides (config : SlotConfig) (layers : List ℕ) (tables : SlotTables) :
    wpe (forEach (kvLayerIndex config) layers)
      (fun _ next => next = tables ∧ ∀ layer ∈ layers, layer < config.numKvLayers)
      (fun next => next = tables ∧ ¬ ∀ layer ∈ layers, layer < config.numKvLayers) tables := by
  induction layers with
  | nil => exact ⟨rfl, List.forall_mem_nil _⟩
  | cons layer rest ih =>
      unfold kvLayerIndex at ih ⊢
      rw [forEach, wpe_guard]
      refine ⟨fun hlayer => ⟨rfl, fun hall => ?_⟩, fun hlayer => ?_⟩
      · have hlt := hall layer List.mem_cons_self
        omega
      refine wpe_imp ih (fun _ _ hnext => ⟨hnext.1, ?_⟩) fun _ hnext => ⟨hnext.1, fun hall => ?_⟩
      · rw [List.forall_mem_cons]
        exact ⟨by omega, hnext.2⟩
      · exact hnext.2 fun other hother => hall other (List.mem_cons_of_mem _ hother)

/-- The rows and lengths that are read for a layer. -/
def entriesOf (tables : SlotTables) (item : ℕ × List (ℕ × List ℕ)) : List (ℕ × ℕ) :=
  item.2.map fun seq => ((tables.layers item.1).rowAt seq.1,
    (tables.layers item.1).rowSeqLens ((tables.layers item.1).rowAt seq.1))

/-- The keep indices of a layer, in order. -/
def keepOf (keepIndicesSorted : Bool) (item : ℕ × List (ℕ × List ℕ)) : List (List ℕ) :=
  (item.2.map Prod.snd).map (sortKeepIndices keepIndicesSorted)

/-- What the branches read for a layer. -/
def planOf (keepIndicesSorted : Bool) (tables : SlotTables) (item : ℕ × List (ℕ × List ℕ)) : LayerPlan :=
  ⟨item.1, entriesOf tables item, keepOf keepIndicesSorted item⟩

theorem rows_planOf (item : ℕ × List (ℕ × List ℕ)) :
    (planOf keepIndicesSorted tables item).rows = (tables.layers item.1).rowsToKeep keepIndicesSorted item.2 := by
  rw [← zip_rowsToKeep]
  unfold LayerPlan.rows planOf entriesOf keepOf LayerSlots.rowsToKeep
  rw [List.map_map, List.map_map, List.map_map]
  rfl

theorem curLens_planOf (item : ℕ × List (ℕ × List ℕ)) : (planOf keepIndicesSorted tables item).curLens =
    item.2.map fun seq => (tables.layers item.1).rowSeqLens ((tables.layers item.1).rowAt seq.1) := by
  unfold LayerPlan.curLens planOf entriesOf
  rw [List.map_map]
  rfl

theorem layerEntries_of_resident {seqIds : List ℕ} (hitems : ∀ item ∈ items, item.2.map Prod.fst = seqIds)
    (hresident : ∀ item ∈ items, ∀ seq ∈ item.2, ((tables.layers item.1).seqIdToRow.get? seq.1).isSome = true) :
    (items.map Prod.fst).mapM (tables.layerEntries seqIds) = .ok (items.map (entriesOf tables)) := by
  induction items with
  | nil => rfl
  | cons item rest ih =>
      rw [List.forall_mem_cons] at hitems hresident
      have hfirst : tables.layerEntries seqIds item.1 = .ok (entriesOf tables item) := by
        rw [layerEntries, ← hitems.1, rowsAndLens_of_resident hresident.1]
        rfl
      rw [List.map_cons, List.mapM_cons, hfirst, ih hitems.2 hresident.2]
      rfl

theorem resident_of_layerEntries {seqIds : List ℕ} {entries : List (List (ℕ × ℕ))}
    (hitems : ∀ item ∈ items, item.2.map Prod.fst = seqIds)
    (hentries : (items.map Prod.fst).mapM (tables.layerEntries seqIds) = .ok entries) :
    ∀ item ∈ items, ∀ seq ∈ item.2, ((tables.layers item.1).seqIdToRow.get? seq.1).isSome = true := by
  intro item hitem
  obtain ⟨rows, hrows⟩ : ∃ rows, tables.layerEntries seqIds item.1 = .ok rows := by
    have hpairs := List.forall₂_iff_get.mp (forall₂_of_mapM hentries)
    obtain ⟨index, hindex, hget⟩ := List.mem_iff_getElem.mp (List.mem_map_of_mem (f := Prod.fst) hitem)
    have hrows := hpairs.2 index hindex (hpairs.1 ▸ hindex)
    rw [List.get_eq_getElem, hget] at hrows
    exact ⟨_, hrows⟩
  rw [layerEntries, ← hitems item hitem] at hrows
  exact resident_of_rowsAndLens hrows

/-- Lists of lists that are read side by side. -/
theorem zip_flatten_map {ι α β : Type} {items : List ι} {first : ι → List α} {second : ι → List β}
    (hlength : ∀ item ∈ items, (first item).length = (second item).length) :
    (items.map first).flatten.zip (items.map second).flatten =
      (items.map fun item => (first item).zip (second item)).flatten := by
  induction items with
  | nil => rfl
  | cons item rest ih =>
      rw [List.forall_mem_cons] at hlength
      rw [List.map_cons, List.map_cons, List.map_cons, List.flatten_cons, List.flatten_cons, List.flatten_cons,
        List.zip_append hlength.1, ih hlength.2]

/-- The checks of a tensor over layers are those of its layers. -/
theorem validKeep_layers :
    (∀ item ∈ items, (tables.layers item.1).ValidKeep ((tables.layers item.1).rowsToKeep keepIndicesSorted item.2)) ↔
      (∀ entry ∈ (items.map (keepOf keepIndicesSorted)).flatten.zip
          ((items.map (entriesOf tables)).flatten.map Prod.snd), ∀ index ∈ entry.1, index < entry.2) ∧
        ∀ keep ∈ (items.map (keepOf keepIndicesSorted)).flatten, keep.Pairwise (· < ·) := by
  have hlens : (items.map (entriesOf tables)).flatten.map Prod.snd = (items.map fun item =>
      item.2.map fun seq => (tables.layers item.1).rowSeqLens ((tables.layers item.1).rowAt seq.1)).flatten := by
    rw [List.map_flatten, List.map_map]
    congr 1
    refine List.map_congr_left fun item _ => ?_
    rw [Function.comp_apply, entriesOf, List.map_map]
    rfl
  have hlength : ∀ item ∈ items, (keepOf keepIndicesSorted item).length =
      (item.2.map fun seq => (tables.layers item.1).rowSeqLens ((tables.layers item.1).rowAt seq.1)).length := by
    intro item _
    rw [keepOf, List.length_map, List.length_map, List.length_map]
  rw [hlens, zip_flatten_map hlength]
  simp only [validKeep_rowsToKeep, List.mem_flatten, List.mem_map]
  constructor
  · intro h
    refine ⟨?_, ?_⟩
    · rintro entry ⟨_, ⟨item, hitem, rfl⟩, hentry⟩
      exact (h item hitem).1 entry hentry
    · rintro keep ⟨_, ⟨item, hitem, rfl⟩, hkeep⟩
      exact (h item hitem).2 keep (by simpa [keepOf] using hkeep)
  · rintro ⟨hbounds, hsorted⟩ item hitem
    refine ⟨fun entry hentry => hbounds entry ⟨_, ⟨item, hitem, rfl⟩, hentry⟩, fun keep hkeep => ?_⟩
    exact hsorted keep ⟨_, ⟨item, hitem, rfl⟩, by simpa [keepOf] using hkeep⟩

/-- The preflights of all layers. -/
theorem preflights_decides (operation : String)
    (hvalid : ∀ item ∈ items, (tables.layers item.1).ValidKeep
      ((tables.layers item.1).rowsToKeep keepIndicesSorted item.2)) :
    wpe (forEach (fun plan : LayerPlan => preflightCompactionFreeCapacity config operation plan.layer
        ((plan.curLens.zip plan.keepIndices).map fun entry => (entry.1 : ℤ) - entry.2.length).sum)
        (items.map (planOf keepIndicesSorted tables)))
      (fun _ next => next = tables ∧ ∀ item ∈ items, (tables.layers item.1).numFreeSlots +
        (tables.layers item.1).releaseCount ((tables.layers item.1).rowsToKeep keepIndicesSorted item.2) ≤
          config.layerNumSlots item.1)
      (fun next => next = tables ∧ ¬ ∀ item ∈ items, (tables.layers item.1).numFreeSlots +
        (tables.layers item.1).releaseCount ((tables.layers item.1).rowsToKeep keepIndicesSorted item.2) ≤
          config.layerNumSlots item.1) tables := by
  rw [forEach_map]
  induction items with
  | nil => exact ⟨rfl, List.forall_mem_nil _⟩
  | cons item rest ih =>
      rw [List.forall_mem_cons] at hvalid
      have hsum : (((planOf keepIndicesSorted tables item).curLens.zip
          (planOf keepIndicesSorted tables item).keepIndices).map fun entry => (entry.1 : ℤ) - entry.2.length).sum =
          (tables.layers item.1).releaseCount ((tables.layers item.1).rowsToKeep keepIndicesSorted item.2) := by
        rw [curLens_planOf]
        exact sum_releaseCount hvalid.1
      rw [forEach, hsum]
      refine wpe_then_imp (preflight_decides _ _ _) ?_ ?_
      · rintro _ next ⟨rfl, -, hfits⟩
        refine wpe_imp (ih hvalid.2) (fun _ _ hnext => ⟨hnext.1, ?_⟩) fun _ hnext => ⟨hnext.1, fun hall => ?_⟩
        · rw [List.forall_mem_cons]
          exact ⟨by exact_mod_cast hfits, hnext.2⟩
        · exact hnext.2 fun other hother => hall other (List.mem_cons_of_mem _ hother)
      · rintro next ⟨rfl, hover⟩
        refine ⟨rfl, fun hall => hover ⟨Int.natCast_nonneg _, ?_⟩⟩
        exact_mod_cast hall item List.mem_cons_self

/-- Layers that were accepted: in layer tiles, or one after the other. -/
theorem compactLayers_done (htile : 0 < config.compactionTileElements) {seqIds : List ℕ}
    (hitems : ∀ item ∈ items, item.2.map Prod.fst = seqIds) (h : DistinctSeqs items tables)
    (haccepted : ∀ item ∈ items, Accepted config item.1 keepIndicesSorted item.2 tables) {bad : SlotTables → Prop} :
    wpe (compactLayers config seqIds (items.map (planOf keepIndicesSorted tables)))
      (fun _ next => CompactsLayers keepIndicesSorted items tables next) bad tables := by
  unfold compactLayers tileElements
  rw [wpe_bind, wpe_guard]
  refine ⟨fun hzero => absurd hzero htile.ne', fun _ => ?_⟩
  rw [wpe_pure, wpe_ite]
  constructor
  · intro hsame
    have hpos : 0 < max 1 (config.compactionTileElements / max 1 (seqIds.length *
        (((items.map (planOf keepIndicesSorted tables)).head?).map fun plan =>
          plan.curLens.headD 0).getD 0)) := by omega
    unfold compactUniformLayerTile
    rw [forEach_flatMap, flatMap_tiles _ hpos, forEach_map]
    refine wpe_imp (forEachLayers_decides _ h.layers fun item hitem current hcurrent => ?_)
      (fun _ _ hnext => hnext.2) fun _ hnot => absurd haccepted hnot
    -- every row of every layer has one length: the uniform tile
    have hall := List.all_eq_true.mp hsame.1 _ (List.mem_map_of_mem hitem)
    rw [curLens_planOf] at hall
    have hcurrentAccepted := (haccepted item hitem).congr hcurrent
    refine wpe_mono (compactsLayer_wpe ?_) fun _ next hnext => ⟨hcurrentAccepted, hnext⟩
    rw [rows_planOf, ← hcurrent]
    refine LayerSlots.compactUniformRowTile_compacts (LayerSlots.nodup_rowsToKeep
      (hcurrent ▸ h.values item hitem) (h.seqs item hitem) hcurrentAccepted.accepts.resident) fun row hrow => ?_
    obtain ⟨seq, hseq, rfl⟩ := List.mem_map.mp hrow
    show (current.layers item.1).rowSeqLens ((current.layers item.1).rowAt seq.1) = _
    rw [hcurrent]
    exact of_decide_eq_true (List.all_eq_true.mp hall _ (List.mem_map_of_mem hseq))
  · intro _
    rw [forEach_map]
    refine wpe_imp (forEachLayers_decides _ h.layers fun item hitem current hcurrent => ?_)
      (fun _ _ hnext => hnext.2) fun _ hnot => absurd haccepted hnot
    have hcurrentAccepted := (haccepted item hitem).congr hcurrent
    have hvalues := hcurrent ▸ h.values item hitem
    unfold compactLayer
    rw [wpe_ite]
    constructor
    · -- a layer of its own may still be uniform
      intro hsame
      rw [rows_planOf, ← hcurrent]
      refine wpe_mono (compactUniformRowsBounded_done hcurrentAccepted hvalues (h.seqs item hitem) htile
        fun seq hseq => ?_) fun _ next hnext => ⟨hcurrentAccepted, hnext⟩
      rw [hcurrent]
      refine of_decide_eq_true (List.all_eq_true.mp hsame _ ?_)
      rw [curLens_planOf]
      exact List.mem_map_of_mem hseq
    · intro _
      -- mixed lengths go row by row
      rw [← hitems item hitem]
      exact wpe_mono (freePartSlotsEach_done hcurrentAccepted hvalues (h.seqs item hitem)) fun _ next hnext =>
        ⟨hcurrentAccepted, hnext⟩

/-- **`free_part_slots_batch_layers`** returns exactly when all rows of all
layers are accepted, and writes nothing else. -/
theorem freePartSlotsBatchLayers_decides (htile : 0 < config.compactionTileElements)
    {seqIds : List ℕ} (hne : items ≠ []) (hseqIds : seqIds ≠ [])
    (hitems : ∀ item ∈ items, item.2.map Prod.fst = seqIds) (h : DistinctSeqs items tables) :
    wpe (freePartSlotsBatchLayers config (items.map Prod.fst) seqIds
        (items.map fun item => item.2.map Prod.snd) keepIndicesSorted)
      (fun _ next => (∀ item ∈ items, Accepted config item.1 keepIndicesSorted item.2 tables) ∧
        CompactsLayers keepIndicesSorted items tables next)
      (fun next => (¬ ∀ item ∈ items, Accepted config item.1 keepIndicesSorted item.2 tables) ∧
        next.layers = tables.layers) tables := by
  have hseqs : ∀ item ∈ items, item.2 ≠ [] := by
    intro item hitem hnil
    apply hseqIds
    rw [← hitems item hitem, hnil]
    rfl
  unfold freePartSlotsBatchLayers
  rw [if_neg (by simpa using ⟨hne, hseqIds⟩)]
  refine wpe_then_imp (kvLayers_decides _ _ _) ?_ ?_
  · rintro _ tables ⟨rfl, hkv⟩
    rw [List.forall_mem_map] at hkv
    rw [wpe_guard]
    refine ⟨fun hshape => absurd hshape ?_, fun _ => ?_⟩
    · rw [not_or, not_not, List.length_map, List.length_map]
      refine ⟨rfl, ?_⟩
      rw [List.any_map, Bool.not_eq_true, List.any_eq_false]
      intro item hitem
      have hlength := congrArg List.length (hitems item hitem)
      rw [List.length_map] at hlength
      simpa using hlength
    rw [wpe_guard]
    refine ⟨fun hempty => ⟨fun hall => ?_, rfl⟩, fun hnonempty => ?_⟩
    · simp only [List.any_eq_true, List.mem_map, decide_eq_true_eq] at hempty
      obtain ⟨_, ⟨item, hitem, rfl⟩, hmem⟩ := hempty
      obtain ⟨seq, hseq, hkeep⟩ := List.mem_map.mp hmem
      exact (hall item hitem).accepts.nonempty seq hseq hkeep
    rw [wpe_guard]
    refine ⟨fun hlayers => absurd h.layers hlayers, fun _ => ?_⟩
    rw [wpe_ite]
    refine ⟨fun hone => ?_, fun _ => ?_⟩
    · -- one layer
      rw [List.length_map] at hone
      obtain ⟨item, rfl⟩ := List.length_eq_one_iff.mp hone
      have hitem := List.mem_singleton_self item
      rw [← hitems item hitem]
      refine wpe_imp (freePartSlotsBatch_decides htile (hseqs item hitem) (h.values item hitem)
        (h.seqs item hitem)) ?_ ?_
      · rintro _ next ⟨haccepted, hnext⟩
        refine ⟨fun other hother => ?_, fun other hother => ?_, fun layer hlayer => hnext.others layer ?_⟩
        · exact List.mem_singleton.mp hother ▸ haccepted
        · exact List.mem_singleton.mp hother ▸ hnext.compacts
        · simpa using hlayer
      · rintro next ⟨hnot, hlayers⟩
        exact ⟨fun hall => hnot (hall item hitem), hlayers⟩
    rw [wpe_get, wpe_bind]
    rcases hentries : (items.map Prod.fst).mapM (tables.layerEntries seqIds) with error | entries
    · refine ⟨fun hall => ?_, rfl⟩
      rw [layerEntries_of_resident hitems fun item hitem => (hall item hitem).accepts.resident] at hentries
      exact nomatch hentries
    have hresident := resident_of_layerEntries hitems hentries
    obtain rfl : _ = entries :=
      Except.ok.inj ((layerEntries_of_resident hitems hresident).symm.trans hentries)
    rw [wpe_ok, wpe_guard]
    refine ⟨fun hdistinct => ?_, fun _ => ?_⟩
    · simp only [List.any_eq_true, List.mem_map, decide_eq_true_eq] at hdistinct
      obtain ⟨_, ⟨item, hitem, rfl⟩, hrows⟩ := hdistinct
      refine absurd ?_ hrows
      have hnodup : (((tables.layers item.1).rowsToKeep keepIndicesSorted item.2).map Prod.fst).Nodup :=
        LayerSlots.nodup_rowsToKeep (h.values item hitem) (h.seqs item hitem) (hresident item hitem)
      rw [LayerSlots.rowsToKeep, List.map_map] at hnodup
      rw [entriesOf, List.map_map]
      exact hnodup
    have hkeep : (items.map fun item => item.2.map Prod.snd).map (List.map (sortKeepIndices keepIndicesSorted)) =
        items.map (keepOf keepIndicesSorted) := by
      rw [List.map_map]
      rfl
    have hplans : (((items.map Prod.fst).zip ((items.map (entriesOf tables)).zip
        (items.map (keepOf keepIndicesSorted)))).map fun entry =>
          (⟨entry.1, entry.2.1, entry.2.2⟩ : LayerPlan)) = items.map (planOf keepIndicesSorted tables) := by
      rw [List.zip_map', List.zip_map', List.map_map]
      rfl
    rw [hkeep]
    dsimp only
    rw [hplans]
    refine wpe_then_imp (checkKeepIndices_decides _ _ _) ?_ ?_
    · rintro _ tables ⟨rfl, hpassed⟩
      have hvalid := validKeep_layers.mpr hpassed
      refine wpe_then_imp (preflights_decides _ hvalid) ?_ ?_
      · rintro _ tables ⟨rfl, hfits⟩
        have haccepted : ∀ item ∈ items, Accepted config item.1 keepIndicesSorted item.2 tables := by
          intro item hitem
          refine ⟨fun _ => hkv item hitem, hresident item hitem, fun seq hseq hempty => ?_, hvalid item hitem,
            fun _ => hfits item hitem⟩
          refine hnonempty (List.any_eq_true.mpr ⟨_, List.mem_map_of_mem hitem, decide_eq_true ?_⟩)
          exact List.mem_map.mpr ⟨seq, hseq, hempty⟩
        have hcleared : ∀ item ∈ items, Accepted config item.1 keepIndicesSorted item.2
          { tables with uniformDecodeMetadata := false } :=
          fun item hitem => ⟨(haccepted item hitem).kvLayer, (haccepted item hitem).accepts⟩
        rw [wpe_bind]
        unfold clearUniform
        rw [wpe_write]
        have hdistinct : DistinctSeqs items { tables with uniformDecodeMetadata := false } :=
          ⟨h.layers, h.seqs, h.values⟩
        exact wpe_mono (compactLayers_done htile hitems hdistinct hcleared) fun _ next hnext =>
          ⟨haccepted, hnext.compacts, hnext.others⟩
      · rintro tables ⟨rfl, hover⟩
        refine ⟨fun hall => hover fun item hitem => ?_, rfl⟩
        exact (hall item hitem).accepts.fits (hseqs item hitem)
    · rintro tables ⟨rfl, hinvalid⟩
      exact ⟨fun hall => hinvalid (validKeep_layers.mp fun item hitem => (hall item hitem).accepts.valid), rfl⟩
  · rintro tables ⟨rfl, hkv⟩
    refine ⟨fun hall => hkv ?_, rfl⟩
    rw [List.forall_mem_map]
    exact fun item hitem => (hall item hitem).kvLayer (hseqs item hitem)

/-! ## A sink and a recent window -/

/-- The indices `[0, sink)` and `[kv_len - recent, kv_len)`. -/
def sinkRecentKeep (kvLen sinkKeepTokens recentKeepTokens : ℕ) : List ℕ :=
  LayerSlots.prefixRecentKeep kvLen (min sinkKeepTokens kvLen)
    (max (min sinkKeepTokens kvLen) (kvLen - recentKeepTokens))

theorem length_sinkRecentKeep (kvLen sinkKeepTokens recentKeepTokens : ℕ) :
    (sinkRecentKeep kvLen sinkKeepTokens recentKeepTokens).length = min sinkKeepTokens kvLen +
      (kvLen - max (min sinkKeepTokens kvLen) (kvLen - recentKeepTokens)) := by
  unfold sinkRecentKeep LayerSlots.prefixRecentKeep
  rw [List.length_append, List.length_range', List.length_range']

theorem sorted_sinkRecentKeep (kvLen sinkKeepTokens recentKeepTokens : ℕ) :
    (sinkRecentKeep kvLen sinkKeepTokens recentKeepTokens).Pairwise (· < ·) := by
  unfold sinkRecentKeep LayerSlots.prefixRecentKeep
  refine List.pairwise_append.mpr ⟨List.pairwise_lt_range', List.pairwise_lt_range', fun first hfirst second hsecond => ?_⟩
  rw [List.mem_range'_1] at hfirst hsecond
  omega

theorem sortKeepIndices_of_sorted {keep : List ℕ} (hsorted : keep.Pairwise (· < ·)) :
    sortKeepIndices keepIndicesSorted keep = keep := by
  unfold sortKeepIndices
  split
  · rfl
  · exact (hsorted.imp fun hlt => hlt.le).insertionSort_eq

/-- The same sequences and indices on every layer. -/
def uniformItems (layers seqIds keep : List ℕ) : LayerSeqs :=
  layers.map fun layer => (layer, seqIds.map fun seqId => (seqId, keep))

section

variable {layers seqIds : List ℕ} {kvLen sinkKeepTokens recentKeepTokens : ℕ}

theorem rowsToKeep_uniform (slots : LayerSlots) : slots.rowsToKeep keepIndicesSorted
    (seqIds.map fun seqId => (seqId, sinkRecentKeep kvLen sinkKeepTokens recentKeepTokens)) =
      (seqIds.map slots.rowAt).map fun row => (row, sinkRecentKeep kvLen sinkKeepTokens recentKeepTokens) := by
  unfold LayerSlots.rowsToKeep
  rw [List.map_map, List.map_map]
  refine List.map_congr_left fun seqId _ => ?_
  dsimp only [Function.comp_apply]
  rw [sortKeepIndices_of_sorted (sorted_sinkRecentKeep _ _ _)]

/-- **`free_prefix_recent_slots_batch_layers`** on rows of length `kv_len`, when
`free_part_slots` accepts the same indices. -/
theorem freePrefixRecent_done (hlayers : layers ≠ []) (hseqIds : seqIds ≠ [])
    (h : DistinctSeqs (uniformItems layers seqIds (sinkRecentKeep kvLen sinkKeepTokens recentKeepTokens)) tables)
    (hlens : ∀ layer ∈ layers, ∀ seqId ∈ seqIds,
      (tables.layers layer).rowSeqLens ((tables.layers layer).rowAt seqId) = kvLen)
    (haccepted : ∀ item ∈ uniformItems layers seqIds (sinkRecentKeep kvLen sinkKeepTokens recentKeepTokens),
      Accepted config item.1 keepIndicesSorted item.2 tables) {bad : SlotTables → Prop} :
    wpe (freePrefixRecent config layers seqIds kvLen sinkKeepTokens recentKeepTokens)
      (fun _ next => CompactsLayers keepIndicesSorted
        (uniformItems layers seqIds (sinkRecentKeep kvLen sinkKeepTokens recentKeepTokens)) tables next)
      bad tables := by
  obtain ⟨items, hitems⟩ : ∃ items,
      uniformItems layers seqIds (sinkRecentKeep kvLen sinkKeepTokens recentKeepTokens) = items := ⟨_, rfl⟩
  rw [hitems] at h haccepted ⊢
  have hlayerOf : items.map Prod.fst = layers := by
    rw [← hitems, uniformItems, List.map_map]
    exact List.map_id layers
  have hseqsOf : ∀ item ∈ items, item.1 ∈ layers ∧ item.2 =
      seqIds.map fun seqId => (seqId, sinkRecentKeep kvLen sinkKeepTokens recentKeepTokens) := by
    intro item hitem
    rw [← hitems] at hitem
    obtain ⟨layer, hlayer, rfl⟩ := List.mem_map.mp hitem
    exact ⟨hlayer, rfl⟩
  have hidsOf : ∀ item ∈ items, item.2.map Prod.fst = seqIds := by
    intro item hitem
    rw [(hseqsOf item hitem).2, List.map_map]
    exact List.map_id seqIds
  have hlength := length_sinkRecentKeep kvLen sinkKeepTokens recentKeepTokens
  -- an empty list of indices is not accepted
  have hnonempty : sinkRecentKeep kvLen sinkKeepTokens recentKeepTokens ≠ [] := by
    obtain ⟨layer, hlayer⟩ := List.exists_mem_of_ne_nil layers hlayers
    obtain ⟨seqId, hseqId⟩ := List.exists_mem_of_ne_nil seqIds hseqIds
    obtain ⟨item, hitem, -⟩ := List.mem_map.mp (hlayerOf.symm ▸ hlayer)
    refine (haccepted item hitem).accepts.nonempty (seqId, _) ?_
    rw [(hseqsOf item hitem).2]
    exact List.mem_map_of_mem hseqId
  unfold freePrefixRecent snapkvFreePrefixRecent
  rw [if_neg (by simpa using ⟨hlayers, hseqIds⟩), wpe_bind]
  refine wpe_then_imp (kvLayers_decides _ _ _) ?_ ?_
  · rintro _ tables ⟨rfl, -⟩
    -- the flag of the streaming manager is no part of a layer
    have hflag : ∀ current : SlotTables, CompactsLayers keepIndicesSorted items tables current →
        wpe (whenDo (config.streaming = true ∧ layers ≠ [] ∧ layers.length = config.numLayers)
          (Routine.write fun tables => { tables with uniformDecodeMetadata := true }))
          (fun _ next => CompactsLayers keepIndicesSorted items tables next) bad current := by
      intro current hcurrent
      rw [wpe_whenDo]
      exact ⟨fun _ => ⟨hcurrent.compacts, hcurrent.others⟩, fun _ => hcurrent⟩
    rw [wpe_bind]
    unfold clearUniform
    rw [wpe_write, wpe_guard]
    refine ⟨fun hzero => ?_, fun _ => ?_⟩
    · rw [← hlength] at hzero
      exact absurd (List.length_eq_zero_iff.mp hzero) hnonempty
    rw [wpe_ite]
    refine ⟨fun hall => hflag _ ⟨fun item hitem => ?_, fun _ _ => rfl⟩, fun _ => ?_⟩
    · have hkeep : sinkRecentKeep kvLen sinkKeepTokens recentKeepTokens = List.range kvLen := by
        have hwhole := range'_append_range' (Nat.zero_le (min sinkKeepTokens kvLen))
          (Nat.min_le_right sinkKeepTokens kvLen)
        rw [Nat.sub_zero, Nat.sub_zero] at hwhole
        unfold sinkRecentKeep LayerSlots.prefixRecentKeep
        rw [show max (min sinkKeepTokens kvLen) (kvLen - recentKeepTokens) = min sinkKeepTokens kvLen by omega,
          hwhole, List.range_eq_range']
      refine LayerSlots.Compacts.of_keepAll fun row hrow => ?_
      rw [(hseqsOf item hitem).2, rowsToKeep_uniform] at hrow
      obtain ⟨_, hrowAt, rfl⟩ := List.mem_map.mp hrow
      obtain ⟨seqId, hseqId, rfl⟩ := List.mem_map.mp hrowAt
      rw [hlens item.1 (hseqsOf item hitem).1 seqId hseqId]
      exact hkeep
    · have hentries : layers.mapM (tables.layerEntries seqIds) = .ok (items.map (entriesOf tables)) := by
        have hall := layerEntries_of_resident hidsOf fun item hitem => (haccepted item hitem).accepts.resident
        rwa [hlayerOf] at hall
      have hzip : layers.zip (items.map (entriesOf tables)) =
          items.map fun item => (item.1, entriesOf tables item) := by
        rw [← hlayerOf, List.zip_map']
      unfold prefixRecent
      rw [wpe_get, wpe_bind]
      rw [show ({ tables with uniformDecodeMetadata := false } : SlotTables).layerEntries seqIds =
        tables.layerEntries seqIds from rfl, hentries, wpe_ok, wpe_guard]
      refine ⟨fun hother => ?_, fun _ => ?_⟩
      · simp only [List.any_eq_true, List.mem_map, decide_eq_true_eq] at hother
        obtain ⟨_, ⟨item, hitem, rfl⟩, entry, hentry, hne⟩ := hother
        rw [entriesOf, (hseqsOf item hitem).2, List.map_map] at hentry
        obtain ⟨seqId, hseqId, rfl⟩ := List.mem_map.mp hentry
        exact absurd (hlens item.1 (hseqsOf item hitem).1 seqId hseqId) hne
      · rw [hzip, forEach_map]
        have hcleared : ∀ item ∈ items, Accepted config item.1 keepIndicesSorted item.2
            { tables with uniformDecodeMetadata := false } :=
          fun item hitem => ⟨(haccepted item hitem).kvLayer, (haccepted item hitem).accepts⟩
        refine wpe_imp (forEachLayers_decides _ h.layers fun item hitem current hcurrent => ?_)
          (fun _ next hnext => hflag next ⟨hnext.2.compacts, hnext.2.others⟩) fun _ hnot => absurd hcleared hnot
        have hcurrentAccepted := (hcleared item hitem).congr hcurrent
        refine wpe_mono (compactsLayer_wpe ?_) fun _ next hnext => ⟨hcurrentAccepted, hnext⟩
        have hrows : (entriesOf tables item).map Prod.fst = seqIds.map (current.layers item.1).rowAt := by
          rw [hcurrent, entriesOf, (hseqsOf item hitem).2, List.map_map, List.map_map]
          rfl
        have hkeys : (((current.layers item.1).rowsToKeep keepIndicesSorted item.2).map Prod.fst).Nodup :=
          LayerSlots.nodup_rowsToKeep (hcurrent ▸ h.values item hitem) (h.seqs item hitem)
            hcurrentAccepted.accepts.resident
        rw [(hseqsOf item hitem).2, rowsToKeep_uniform] at hkeys
        rw [hrows, (hseqsOf item hitem).2, rowsToKeep_uniform]
        refine LayerSlots.freePrefixRecentSlots_compacts ?_ (fun row hrow => ?_) (Nat.le_max_left _ _) (by omega)
        · simpa [Function.comp_def] using hkeys
        · obtain ⟨seqId, hseqId, rfl⟩ := List.mem_map.mp hrow
          rw [hcurrent]
          exact hlens item.1 (hseqsOf item hitem).1 seqId hseqId
  · rintro tables ⟨rfl, hkv⟩
    refine absurd (fun layer hlayer => ?_) hkv
    obtain ⟨item, hitem, rfl⟩ := List.mem_map.mp (hlayerOf.symm ▸ hlayer)
    refine (haccepted item hitem).kvLayer ?_
    rw [(hseqsOf item hitem).2]
    simpa using hseqIds

end

/-- `free_prefix_recent_slots_batch_layers` raises before it writes a layer. -/
theorem freePrefixRecent_unchanged (layers seqIds : List ℕ) (kvLen sinkKeepTokens recentKeepTokens : ℕ) :
    wpe (freePrefixRecent config layers seqIds kvLen sinkKeepTokens recentKeepTokens) (fun _ _ => True)
      (fun next => next.layers = tables.layers) tables := by
  have hflag : ∀ current : SlotTables,
      wpe (whenDo (config.streaming = true ∧ layers ≠ [] ∧ layers.length = config.numLayers)
        (Routine.write fun tables => { tables with uniformDecodeMetadata := true })) (fun _ _ => True)
        (fun next => next.layers = tables.layers) current := by
    intro current
    rw [wpe_whenDo]
    exact ⟨fun _ => trivial, fun _ => trivial⟩
  unfold freePrefixRecent snapkvFreePrefixRecent clearUniform
  rw [wpe_bind, wpe_ite]
  refine ⟨fun _ => hflag tables, fun _ => ?_⟩
  refine wpe_then_imp (kvLayers_decides _ _ _) ?_ fun next hnext => by rw [hnext.1]
  rintro _ tables ⟨rfl, -⟩
  rw [wpe_set]
  refine wpe_guarded rfl fun _ => ?_
  rw [wpe_ite]
  refine ⟨fun _ => hflag _, fun _ => ?_⟩
  unfold prefixRecent
  rw [wpe_get, wpe_bind]
  refine wpe_ofExcept (fun entries _ => ?_) rfl
  refine wpe_guarded rfl fun _ => ?_
  exact wpe_mono (wpe_forEach (fun _ _ => True) _ trivial fun _ _ _ _ => trivial) fun _ next _ => hflag next

/-! ## Agreement -/

/-- A call that does what a sequence of calls does: it returns when they do and
leaves what they leave, and otherwise it changes no layer. -/
structure DoesAs (call calls : Routine SlotTables Unit) (tables : SlotTables) : Prop where
  returns : (call tables).1 = .ok () ↔ (calls tables).1 = .ok ()
  agree : (call tables).1 = .ok () →
    ∀ layer, LayerSlots.Agree ((call tables).2.layers layer) ((calls tables).2.layers layer)
  unchanged : (call tables).1 ≠ .ok () → (call tables).2.layers = tables.layers

theorem CompactsLayers.agree {first second : SlotTables}
    (hfirst : CompactsLayers keepIndicesSorted items tables first)
    (hsecond : CompactsLayers keepIndicesSorted items tables second) (layer : ℕ) :
    LayerSlots.Agree (first.layers layer) (second.layers layer) := by
  by_cases hlayer : layer ∈ items.map Prod.fst
  · obtain ⟨item, hitem, rfl⟩ := List.mem_map.mp hlayer
    exact (hfirst.compacts item hitem).agree (hsecond.compacts item hitem)
  · rw [hfirst.others layer hlayer, hsecond.others layer hlayer]
    exact .refl

/-- Two calls that are decided by the same condition. -/
theorem doesAs_of_decides {calls : Routine SlotTables Unit} {accepted : Prop}
    {done : SlotTables → Prop} (hagree : ∀ first second, done first → done second →
      ∀ layer, LayerSlots.Agree (first.layers layer) (second.layers layer))
    (hcall : wpe call (fun _ next => accepted ∧ done next)
      (fun next => ¬ accepted ∧ next.layers = tables.layers) tables)
    (hcalls : wpe calls (fun _ next => accepted ∧ done next) (fun _ => ¬ accepted) tables) :
    DoesAs call calls tables := by
  rw [wpe_def] at hcall hcalls
  rcases hfirst : (call tables).1 with error | ⟨⟩
  · rw [hfirst] at hcall
    rcases hsecond : (calls tables).1 with error' | ⟨⟩
    · refine ⟨?_, fun h => absurd (hfirst.symm.trans h) (by simp), fun _ => hcall.2⟩
      rw [hfirst, hsecond]
      simp
    · rw [hsecond] at hcalls
      exact absurd hcalls.1 hcall.1
  · rw [hfirst] at hcall
    rcases hsecond : (calls tables).1 with error' | ⟨⟩
    · rw [hsecond] at hcalls
      exact absurd hcall.1 hcalls
    · rw [hsecond] at hcalls
      exact ⟨by rw [hfirst, hsecond], fun _ => hagree _ _ hcall.2 hcalls.2, fun h => absurd hfirst h⟩

/-- Positions to keep as a caller gives them, on layers whose stack has room for
all slots of the rows. -/
structure Keepable (config : SlotConfig) (keepIndicesSorted : Bool) (items : LayerSeqs) (tables : SlotTables) :
    Prop where
  kvLayer : ∀ item ∈ items, item.1 < config.numKvLayers
  resident : ∀ item ∈ items, ∀ seq ∈ item.2, ((tables.layers item.1).seqIdToRow.get? seq.1).isSome = true
  nonempty : ∀ item ∈ items, ∀ seq ∈ item.2, seq.2 ≠ []
  nodup : ∀ item ∈ items, ∀ seq ∈ item.2, seq.2.Nodup
  inRange : ∀ item ∈ items, ∀ seq ∈ item.2, ∀ index ∈ seq.2,
    index < (tables.layers item.1).rowSeqLens ((tables.layers item.1).rowAt seq.1)
  sorted : keepIndicesSorted = true → ∀ item ∈ items, ∀ seq ∈ item.2, seq.2.Pairwise (· < ·)
  fits : ∀ item ∈ items, (tables.layers item.1).numFreeSlots + (item.2.map fun seq =>
    (tables.layers item.1).rowSeqLens ((tables.layers item.1).rowAt seq.1)).sum ≤ config.layerNumSlots item.1

theorem Keepable.accepted (h : Keepable config keepIndicesSorted items tables) :
    ∀ item ∈ items, Accepted config item.1 keepIndicesSorted item.2 tables := by
  intro item hitem
  refine ⟨fun _ => h.kvLayer item hitem, h.resident item hitem, h.nonempty item hitem, ?_, fun _ => ?_⟩
  · unfold LayerSlots.ValidKeep LayerSlots.rowsToKeep
    rw [List.forall_mem_map]
    intro seq hseq
    unfold sortKeepIndices
    split
    · next hsorted => exact ⟨h.sorted hsorted item hitem seq hseq, h.inRange item hitem seq hseq⟩
    · have hperm := List.perm_insertionSort (· ≤ ·) seq.2
      refine ⟨?_, fun index hindex => h.inRange item hitem seq hseq index (hperm.mem_iff.mp hindex)⟩
      have hle := List.pairwise_insertionSort (· ≤ ·) seq.2
      have hne : (seq.2.insertionSort (· ≤ ·)).Pairwise (· ≠ ·) :=
        hperm.nodup_iff.mpr (h.nodup item hitem seq hseq)
      exact (hle.and hne).imp fun hboth => lt_of_le_of_ne hboth.1 hboth.2
  · have hfits := h.fits item hitem
    have hle : (tables.layers item.1).releaseCount
        ((tables.layers item.1).rowsToKeep keepIndicesSorted item.2) ≤ (item.2.map fun seq =>
          (tables.layers item.1).rowSeqLens ((tables.layers item.1).rowAt seq.1)).sum := by
      unfold LayerSlots.releaseCount LayerSlots.rowsToKeep
      rw [List.map_map]
      exact List.sum_le_sum fun seq _ => Nat.sub_le _ _
    omega

theorem doesAs_of_noop {calls : Routine SlotTables Unit} (hcall : call tables = (.ok (), tables))
    (hcalls : calls tables = (.ok (), tables)) : DoesAs call calls tables := by
  refine ⟨?_, fun _ layer => ?_, fun h => ?_⟩
  · rw [hcall, hcalls]
  · rw [hcall, hcalls]
    exact .refl
  · rw [hcall]

/-- No sequences, no calls. -/
theorem freeLayers_of_nil (hitems : ∀ item ∈ items, item.2 = []) :
    freeLayers config keepIndicesSorted items tables = (.ok (), tables) := by
  induction items with
  | nil => rfl
  | cons item rest ih =>
      rw [List.forall_mem_cons] at hitems
      unfold freeLayers at ih ⊢
      rw [forEach, hitems.1, bind_apply]
      exact ih hitems.2

theorem freePartSlotsBatch_doesAs (htile : 0 < config.compactionTileElements)
    (h : DistinctSeqs [(layer, seqs)] tables) :
    DoesAs (freePartSlotsBatch config layer (seqs.map Prod.fst) (seqs.map Prod.snd) keepIndicesSorted)
      (freeLayers config keepIndicesSorted [(layer, seqs)]) tables := by
  rcases eq_or_ne seqs [] with rfl | hne
  · exact doesAs_of_noop rfl (freeLayers_of_nil fun item hitem => by rw [List.mem_singleton.mp hitem])
  have hmem : (layer, seqs) ∈ [(layer, seqs)] := List.mem_singleton_self _
  refine doesAs_of_decides (fun _ _ hfirst hsecond => hfirst.agree hsecond) ?_ (freeLayers_decides h)
  refine wpe_imp (freePartSlotsBatch_decides htile hne (h.values _ hmem) (h.seqs _ hmem)) ?_ ?_
  · rintro _ next ⟨haccepted, hnext⟩
    refine ⟨fun item hitem => ?_, fun item hitem => ?_, fun other hother => hnext.others other ?_⟩
    · exact List.mem_singleton.mp hitem ▸ haccepted
    · exact List.mem_singleton.mp hitem ▸ hnext.compacts
    · simpa using hother
  · rintro next ⟨hnot, hlayers⟩
    exact ⟨fun hall => hnot (hall _ hmem), hlayers⟩

theorem freePartSlotsBatchLayers_doesAs (htile : 0 < config.compactionTileElements)
    {seqIds : List ℕ} (hitems : ∀ item ∈ items, item.2.map Prod.fst = seqIds) (h : DistinctSeqs items tables) :
    DoesAs (freePartSlotsBatchLayers config (items.map Prod.fst) seqIds
        (items.map fun item => item.2.map Prod.snd) keepIndicesSorted)
      (freeLayers config keepIndicesSorted items) tables := by
  rcases eq_or_ne items [] with rfl | hne
  · exact doesAs_of_noop rfl rfl
  rcases eq_or_ne seqIds [] with rfl | hseqIds
  · refine doesAs_of_noop ?_ (freeLayers_of_nil fun item hitem => List.map_eq_nil_iff.mp (hitems item hitem))
    unfold freePartSlotsBatchLayers
    rw [if_pos (Or.inr rfl)]
    rfl
  exact doesAs_of_decides (fun _ _ hfirst hsecond => hfirst.agree hsecond)
    (freePartSlotsBatchLayers_decides htile hne hseqIds hitems h) (freeLayers_decides h)

/-- When `free_part_slots` returns on every row, the compaction to a sink and a
recent window returns, and leaves the same. -/
theorem freePrefixRecent_agrees {layers seqIds : List ℕ} {kvLen sinkKeepTokens recentKeepTokens : ℕ}
    (h : DistinctSeqs (uniformItems layers seqIds (sinkRecentKeep kvLen sinkKeepTokens recentKeepTokens)) tables)
    (hlens : ∀ layer ∈ layers, ∀ seqId ∈ seqIds,
      (tables.layers layer).rowSeqLens ((tables.layers layer).rowAt seqId) = kvLen)
    (hcalls : (freeLayers config keepIndicesSorted
      (uniformItems layers seqIds (sinkRecentKeep kvLen sinkKeepTokens recentKeepTokens)) tables).1 = .ok ()) :
    (freePrefixRecent config layers seqIds kvLen sinkKeepTokens recentKeepTokens tables).1 = .ok () ∧
      ∀ layer, LayerSlots.Agree
        ((freePrefixRecent config layers seqIds kvLen sinkKeepTokens recentKeepTokens tables).2.layers layer)
        ((freeLayers config keepIndicesSorted
          (uniformItems layers seqIds (sinkRecentKeep kvLen sinkKeepTokens recentKeepTokens))
            tables).2.layers layer) := by
  have hreturns : ∀ {done : SlotTables → Prop},
      wpe (freePrefixRecent config layers seqIds kvLen sinkKeepTokens recentKeepTokens)
        (fun _ next => done next) (fun _ => False) tables →
      (freePrefixRecent config layers seqIds kvLen sinkKeepTokens recentKeepTokens tables).1 = .ok () ∧
        done (freePrefixRecent config layers seqIds kvLen sinkKeepTokens recentKeepTokens tables).2 := by
    intro done hwpe
    rw [wpe_def] at hwpe
    rcases hrun : (freePrefixRecent config layers seqIds kvLen sinkKeepTokens recentKeepTokens tables).1 with
      error | ⟨⟩
    · rw [hrun] at hwpe
      exact hwpe.elim
    · rw [hrun] at hwpe
      exact ⟨rfl, hwpe⟩
  by_cases hempty : layers = [] ∨ seqIds = []
  · -- no rows: both leave all layers alone
    have hnil : ∀ item ∈ uniformItems layers seqIds
        (sinkRecentKeep kvLen sinkKeepTokens recentKeepTokens), item.2 = [] := by
      intro item hitem
      obtain ⟨layer, hlayer, rfl⟩ := List.mem_map.mp hitem
      rcases hempty with rfl | rfl
      · exact nomatch hlayer
      · rfl
    have hprefix : wpe (freePrefixRecent config layers seqIds kvLen sinkKeepTokens recentKeepTokens)
        (fun _ next => next.layers = tables.layers) (fun _ => False) tables := by
      unfold freePrefixRecent snapkvFreePrefixRecent
      rw [if_pos hempty, wpe_bind, wpe_pure, wpe_whenDo]
      exact ⟨fun _ => rfl, fun _ => rfl⟩
    obtain ⟨hok, hlayers⟩ := hreturns hprefix
    refine ⟨hok, fun layer => ?_⟩
    rw [hlayers, freeLayers_of_nil hnil]
    exact .refl
  rw [not_or] at hempty
  have hdecides : wpe (freeLayers config keepIndicesSorted
      (uniformItems layers seqIds (sinkRecentKeep kvLen sinkKeepTokens recentKeepTokens))) _ _ tables :=
    freeLayers_decides h
  rw [wpe_def, hcalls] at hdecides
  obtain ⟨hok, hdone⟩ := hreturns (freePrefixRecent_done hempty.1 hempty.2 h hlens hdecides.1)
  exact ⟨hok, fun layer => hdone.agree hdecides.2 layer⟩

/-- **All compaction paths agree** with `free_part_slots` on every layer and
sequence, for every tile size.  They return when these calls return, which they
do for positions that are distinct and in range. -/
theorem compaction_paths (htile : 0 < config.compactionTileElements) (keepIndicesSorted : Bool)
    (tables : SlotTables) (items : LayerSeqs) (h : DistinctSeqs items tables) :
    (Keepable config keepIndicesSorted items tables →
      (freeLayers config keepIndicesSorted items tables).1 = .ok ()) ∧
    (∀ layer seqs, items = [(layer, seqs)] →
      DoesAs (freePartSlotsBatch config layer (seqs.map Prod.fst) (seqs.map Prod.snd) keepIndicesSorted)
        (freeLayers config keepIndicesSorted items) tables) ∧
    (∀ seqIds, (∀ item ∈ items, item.2.map Prod.fst = seqIds) →
      DoesAs (freePartSlotsBatchLayers config (items.map Prod.fst) seqIds
          (items.map fun item => item.2.map Prod.snd) keepIndicesSorted)
        (freeLayers config keepIndicesSorted items) tables) ∧
    ∀ layers seqIds kvLen sinkKeepTokens recentKeepTokens,
      items = uniformItems layers seqIds (sinkRecentKeep kvLen sinkKeepTokens recentKeepTokens) →
      ((freePrefixRecent config layers seqIds kvLen sinkKeepTokens recentKeepTokens tables).1 ≠ .ok () →
        (freePrefixRecent config layers seqIds kvLen sinkKeepTokens recentKeepTokens tables).2.layers =
          tables.layers) ∧
      ((∀ layer ∈ layers, ∀ seqId ∈ seqIds,
          (tables.layers layer).rowSeqLens ((tables.layers layer).rowAt seqId) = kvLen) →
        (freeLayers config keepIndicesSorted items tables).1 = .ok () →
        (freePrefixRecent config layers seqIds kvLen sinkKeepTokens recentKeepTokens tables).1 = .ok () ∧
          ∀ layer, LayerSlots.Agree
            ((freePrefixRecent config layers seqIds kvLen sinkKeepTokens recentKeepTokens tables).2.layers layer)
            ((freeLayers config keepIndicesSorted items tables).2.layers layer)) := by
  refine ⟨fun hkeep => ?_, ?_, fun seqIds hitems => freePartSlotsBatchLayers_doesAs htile hitems h, ?_⟩
  · have hdecides : wpe (freeLayers config keepIndicesSorted items) _ _ tables := freeLayers_decides h
    rw [wpe_def] at hdecides
    rcases hrun : (freeLayers config keepIndicesSorted items tables).1 with error | ⟨⟩
    · rw [hrun] at hdecides
      exact absurd hkeep.accepted hdecides
    · rfl
  · rintro layer seqs rfl
    exact freePartSlotsBatch_doesAs htile h
  · rintro layers seqIds kvLen sinkKeepTokens recentKeepTokens rfl
    refine ⟨fun hraise => ?_, fun hlens hcalls => freePrefixRecent_agrees h hlens hcalls⟩
    have hwpe : wpe (freePrefixRecent config layers seqIds kvLen sinkKeepTokens recentKeepTokens) _ _ tables :=
      freePrefixRecent_unchanged layers seqIds kvLen sinkKeepTokens recentKeepTokens
    rw [wpe_def] at hwpe
    rcases hrun : (freePrefixRecent config layers seqIds kvLen sinkKeepTokens recentKeepTokens tables).1 with
      error | ⟨⟩
    · rw [hrun] at hwpe
      exact hwpe
    · exact absurd hrun hraise

/-- Two layers of rows with four cells, compacted in tiles of two elements. -/
def narrowTiles : SlotConfig :=
  { twoCells with numKvCacheSlots := .uniform 8, maxModelLen := 4, compactionTileElements := 2 }

/-- Two prompts of four tokens have their rows on both layers. -/
def fullRows : SlotTables :=
  ((SlotCall.prefill .none [promptOf 7 [5, 5, 5, 5], promptOf 8 [5, 5, 5, 5]]).run narrowTiles).after
    (start narrowTiles)

/-- The second of two layers, with unsorted positions to keep: a tile has half a
row. -/
theorem compaction_paths_narrow_tiles :
    LayerSlots.Agree
      ((freePartSlotsBatchLayers narrowTiles [0, 1] [7, 8] [[[2, 0], [3, 1]], [[1, 3], [2, 1]]] false
        fullRows).2.layers 1)
      ((freeLayers narrowTiles false [(0, [(7, [2, 0]), (8, [3, 1])]), (1, [(7, [1, 3]), (8, [2, 1])])]
        fullRows).2.layers 1) := by
  have hvalues : ∀ layer < 2, (fullRows.layers layer).seqIdToRow.values.Nodup := by decide
  have hpaths := @compaction_paths narrowTiles (by decide) false fullRows
    [(0, [(7, [2, 0]), (8, [3, 1])]), (1, [(7, [1, 3]), (8, [2, 1])])]
    ⟨by decide, by decide, by simpa using ⟨hvalues 0 (by decide), hvalues 1 (by decide)⟩⟩
  obtain ⟨hkeep, -, hlayers, -⟩ := hpaths
  have hdoes := hlayers [7, 8] (by decide)
  exact hdoes.agree (hdoes.returns.mpr (hkeep (by constructor <;> decide))) 1

end SlotTables
