import SparseEngine.SlotTables.Sequential
import SparseEngine.SlotTables.Numbering
import SparseEngine.SlotTables.Runs

/-!
# Batched allocation equals sequential allocation

A batch over all layers takes rows layer by layer, computes the slots of all
layers at once, and writes tables and lists in passes of their own, the tables
by KV index and the lists by layer.  A listed layer sees of this one call that
takes its rows and writes its blocks (`writePrefill_eq`, `writeDecode_eq`),
and on one layer that is what `_allocate` and `_allocate_batch` do
(`Sequential.lean`).  So the manager is left as by these calls, one layer
after the other (`prefill_batch_eq_allocate`, `decode_batch_eq_allocate`):
layers differ in their KV indices, and what is filled in last stands.
-/

open Routine Cells SlotTables

/-- Slot tables of a manager in which every row is free and empty, or belongs to
one sequence. -/
structure OwnedTensors (layout : RuntimeLayout) where
  tensors : LayerTensors
  rowsOwned : ∀ layer ∈ layout.layerIds, (LayerTensors.layer layout layer tensors).RowsOwned

namespace LayerTensors

variable {Id : Type} {layout : RuntimeLayout} {config : SlotConfig}

/-- A fresh manager. -/
def fresh (layout : RuntimeLayout) (config : SlotConfig) : LayerTensors where
  freeSlotsStackTensor := match config.numKvCacheSlots with
    | .uniform _ => some fun _ slot => slot
    | .byLayer _ => none
  ownStacks _ slot := slot
  reqToTokenSlotsTensor _ _ _ := 0
  numFreeSlots layer := if (layout.layerIdxToKvIdx layer).isSome then config.layerNumSlots layer else 0
  seqIdToRow _ := .empty
  freeRows _ := List.range config.maxBufferRows
  rowSeqLens _ _ := 0

/-- A fresh manager has only free rows. -/
def freshOwned (layout : RuntimeLayout) (config : SlotConfig) : OwnedTensors layout where
  tensors := fresh layout config
  rowsOwned _ _ := {
    nodup := by
      show (List.range config.maxBufferRows ++ []).Nodup
      rw [List.append_nil]
      exact List.nodup_range
    free_empty := fun _ _ => rfl }

/-! ## The slots of a batch -/

theorem take_drop_read {cells : ℕ → ℕ} {start count skip width : ℕ} (h : skip + width ≤ count) :
    ((read cells start count).drop skip).take width = read cells (start + skip) width := by
  obtain ⟨rest, rfl⟩ : ∃ rest, count = skip + (width + rest) := ⟨count - skip - width, by omega⟩
  rw [read_add, read_add, List.drop_left' length_read, List.take_left' length_read]

/-- A slice of the stack, viewed as blocks and flipped, has the first sequence's
block on top. -/
theorem flippedSlots_eq (stack : ℕ → ℕ) (ptr batchSize chunkSize : ℕ) :
    flippedSlots stack ptr batchSize chunkSize = prefillSlots stack ptr batchSize chunkSize := by
  unfold flippedSlots prefillSlots
  dsimp only
  refine List.ext_getElem (by simp) fun index hleft hright => ?_
  rw [List.length_map, List.length_range] at hright
  rw [List.getElem_reverse, List.getElem_map, List.getElem_map, List.getElem_range, List.getElem_range,
    List.length_map, List.length_range]
  refine take_drop_read ?_
  rw [← Nat.succ_mul]
  exact Nat.mul_le_mul_right chunkSize (by omega)

/-- The offsets address the same slots. -/
theorem offsetSlots_eq (stack : ℕ → ℕ) (ptr batchSize chunkSize : ℕ) :
    offsetSlots stack ptr batchSize chunkSize = prefillSlots stack ptr batchSize chunkSize := by
  unfold offsetSlots prefillSlots Cells.read
  refine List.map_congr_left fun index _ => ?_
  rw [List.range'_eq_map_range, List.map_map]
  rfl

theorem zip_map_self {α β : Type} (items : List α) (f : α → β) :
    items.zip (items.map f) = items.map fun item => (item, f item) := by
  rw [List.zip, List.zipWith_map_right, List.zipWith_self]

/-- Both ways to select take the blocks at the top of every layer's own
stack. -/
theorem selectedSlots_eq (stackRows : ℕ → ℕ → ℕ) (heights : ℕ → ℕ) (firstLayer batchSize chunkSize : ℕ) :
    (if (layout.layerIds.all fun layer => decide (heights layer = heights firstLayer)) = true then
        (layout.layerIds.map layout.kvIdx).map fun kvLayer =>
          flippedSlots (stackRows kvLayer) (heights firstLayer) batchSize chunkSize
      else ((layout.layerIds.map layout.kvIdx).zip layout.layerIds).map fun item =>
        offsetSlots (stackRows item.1) (heights item.2) batchSize chunkSize) =
      layout.layerIds.map fun layer =>
        prefillSlots (stackRows (layout.kvIdx layer)) (heights layer) batchSize chunkSize := by
  split_ifs with hequal
  · rw [List.all_eq_true] at hequal
    rw [List.map_map]
    refine List.map_congr_left fun layer hlayer => ?_
    rw [of_decide_eq_true (hequal layer hlayer)]
    exact flippedSlots_eq _ _ _ _
  · rw [List.zip, List.zipWith_map_left, List.zipWith_self, List.map_map]
    exact List.map_congr_left fun layer _ => offsetSlots_eq _ _ _ _

/-! ## Passes over the tensors and over the lists -/

theorem writeTable_eq (layout : RuntimeLayout) (layer : ℕ) (f : (ℕ → ℕ → ℕ) → ℕ → ℕ → ℕ) (tensors : LayerTensors) :
    { tensors with
      reqToTokenSlotsTensor := Function.update tensors.reqToTokenSlotsTensor (layout.kvIdx layer)
        (f (tensors.reqToTokenSlotsTensor (layout.kvIdx layer))) } =
      (parts layout).set layer { (parts layout).get layer tensors with
        reqToTokenSlots := f ((parts layout).get layer tensors).reqToTokenSlots } tensors := by
  obtain ⟨stackTensor, _⟩ := tensors
  cases stackTensor <;> simp [parts, LayerTensors.layer, setLayer, freeSlotsStack]

theorem writeLists_eq (layout : RuntimeLayout) (layer height : ℕ) (lens : ℕ → ℕ) (tensors : LayerTensors) :
    { tensors with
      numFreeSlots := Function.update tensors.numFreeSlots layer height
      rowSeqLens := Function.update tensors.rowSeqLens layer lens } =
      (parts layout).set layer { (parts layout).get layer tensors with
        numFreeSlots := height
        rowSeqLens := lens } tensors := by
  obtain ⟨stackTensor, _⟩ := tensors
  cases stackTensor <;> simp [parts, LayerTensors.layer, setLayer, freeSlotsStack]

theorem writeRows_eq (entries : List ((ℕ × ℕ) × List ℕ)) (slots : LayerSlots) :
    slots.writeRows entries = { slots with reqToTokenSlots := writeBlocks slots.reqToTokenSlots entries } := by
  induction entries generalizing slots with
  | nil => rfl
  | cons entry rest ih => exact ih _

/-- **What a batched prefill writes** is one write to every listed layer. -/
theorem writePrefill_eq (entries : ℕ → List (ℕ × ℕ)) (selected : ℕ → List (List ℕ))
    (batchSize chunkSize : ℕ) (hentries : ∀ layer ∈ layout.layerIds, (entries layer).length = batchSize)
    (tensors : LayerTensors) :
    writePrefill (layout.layerIds.map layout.kvIdx) layout.layerIds (layout.layerIds.map entries)
      (layout.layerIds.map selected) (batchSize * chunkSize) chunkSize tensors =
        (parts layout).fill layout.layerIds (fun layer =>
          SlotTables.writePrefill (entries layer) (selected layer) chunkSize
            ((parts layout).get layer tensors)) tensors := by
  have hvalid : ∀ layer ∈ layout.layerIds, (parts layout).valid layer := fun _ hlayer => hlayer
  have hnodup : layout.layerIds.Nodup := RuntimeLayout.layerIds_nodup
  calc writePrefill (layout.layerIds.map layout.kvIdx) layout.layerIds (layout.layerIds.map entries)
        (layout.layerIds.map selected) (batchSize * chunkSize) chunkSize tensors
      = (parts layout).modifyEach (fun layer slots => { slots with
          numFreeSlots := slots.numFreeSlots - batchSize * chunkSize
          rowSeqLens := fun row => if row ∈ (entries layer).map Prod.fst then
            slots.rowSeqLens row + chunkSize else slots.rowSeqLens row }) layout.layerIds
          ((parts layout).modifyEach (fun layer slots => { slots with
            reqToTokenSlots :=
              writeBlocks slots.reqToTokenSlots ((entries layer).zip (selected layer)) })
            layout.layerIds tensors) := by
        unfold writePrefill Parts.modifyEach
        dsimp only
        rw [List.zip_map', List.zip_map', zip_map_self, List.foldl_map, List.foldl_map]
        refine (List.foldl_ext _ _ _ fun tensors layer _ => writeLists_eq layout layer _ _ tensors).trans ?_
        congr 1
        exact List.foldl_ext _ _ _ fun tensors layer _ =>
          writeTable_eq layout layer (fun table => writeBlocks table _) tensors
    _ = (parts layout).fill layout.layerIds (fun layer =>
          SlotTables.writePrefill (entries layer) (selected layer) chunkSize
            ((parts layout).get layer tensors)) tensors := by
        rw [Parts.modifyEach_modifyEach hvalid hnodup, Parts.modifyEach_eq_fill hvalid hnodup]
        refine Parts.fill_congr fun layer hlayer => ?_
        unfold SlotTables.writePrefill
        rw [writeRows_eq, hentries layer hlayer]
        rfl

/-! ## Prefill -/

variable {seqs : List (ChainSequence Id)} {mapping after : ℕ → ℕ → ℕ} {tensors next : LayerTensors}
  {layers seqIds : List ℕ} {layer : ℕ} {staticCap : Option ℕ} {slotOutput : Option (ℕ → ℕ → ℤ)}
  {batch : DecodeBatch}

/-- A batched prefill that returns `True`, taken apart. -/
theorem allocatePrefillBatch_ok
    (h : allocatePrefillBatchSameSizeAllLayers layout config seqs mapping tensors = (.ok (some after), next)) :
    ∃ (chunkSize : ℕ) (entries : List (List (ℕ × ℕ))) (selected : ℕ → List (List ℕ)) (taken : LayerTensors),
      (∀ seq ∈ seqs, seq.chunkSize = chunkSize) ∧
      (∀ layer ∈ layout.layerIds, seqs.length * chunkSize ≤ tensors.numFreeSlots layer) ∧
      mapEach (fun layer => (parts layout).on layer (mapEach (SlotTables.prefillRow config chunkSize) seqs))
        layout.layerIds tensors = (.ok entries, taken) ∧
      (∀ layer, selected layer = prefillSlots (freeSlotsStack layout tensors layer) (taken.numFreeSlots layer)
        seqs.length chunkSize) ∧
      next = writePrefill (layout.layerIds.map layout.kvIdx) layout.layerIds entries
        (layout.layerIds.map selected) (seqs.length * chunkSize) chunkSize taken ∧
      after = Parts.ofFunction.modifyEach (fun layer row => write row 0 (selected layer).flatten)
        layout.layerIds mapping := by
  unfold allocatePrefillBatchSameSizeAllLayers at h
  rw [get_apply] at h
  dsimp only at h
  rcases hstack : tensors.freeSlotsStackTensor with _ | stackRows
  · rw [hstack] at h
    cases (Prod.mk.inj h).1
  rcases seqs with _ | ⟨firstSeq, seqs⟩
  · rw [hstack] at h
    cases (Prod.mk.inj h).1
  rw [hstack, List.head?_cons] at h
  dsimp only at h
  split_ifs at h with hchunk
  · cases (Prod.mk.inj h).1
  rw [not_or, not_le, Bool.not_eq_true, List.any_eq_false] at hchunk
  -- the call did not return `None`, so the chunks are positive and equal:
  obtain ⟨hpos, hsame⟩ := hchunk
  obtain ⟨chunkSize, hchunkSize⟩ : ∃ chunkSize : ℕ, firstSeq.chunkSize = chunkSize :=
    ⟨_, (Int.toNat_of_nonneg hpos.le).symm⟩
  rw [hchunkSize] at h hsame
  rw [Int.toNat_natCast] at h
  rcases hlayers : layout.layerIds.head? with _ | firstLayer
  · rw [hlayers] at h
    cases (Prod.mk.inj h).1
  rw [hlayers] at h
  dsimp only at h
  rw [bind_apply, raiseIf_apply] at h
  split_ifs at h with hfree
  · cases (Prod.mk.inj h).1
  rw [Bool.not_eq_true, List.any_eq_false] at hfree
  dsimp only at h
  rw [bind_apply] at h
  rcases hrows : mapEach (fun layer => (parts layout).on layer
    (mapEach (SlotTables.prefillRow config chunkSize) (firstSeq :: seqs))) layout.layerIds tensors
      with ⟨error | entries, taken⟩
  · rw [hrows] at h
    cases (Prod.mk.inj h).1
  rw [hrows, RuntimeLayout.mapM_kvLayerIndex] at h
  dsimp only at h
  rw [bind_apply, ofExcept_apply] at h
  dsimp only at h
  rw [get_apply] at h
  rw [set_apply] at h
  rw [selectedSlots_eq, zip_map_self, List.foldl_map] at h
  obtain ⟨hafter, rfl⟩ := Prod.mk.inj h
  refine ⟨chunkSize, entries, _, taken, fun seq hseq => ?_, fun layer hlayer => ?_, hrows, fun layer => ?_, rfl,
    (Option.some.inj (Except.ok.inj hafter)).symm⟩
  · simpa using hsame seq hseq
  · simpa using hfree layer hlayer
  · rw [freeSlotsStack, hstack]

/-- Calls on all sequences of a layer, layer after layer. -/
theorem mapEach_parts {α β : Type} (body : ℕ → α → Routine LayerSlots β) (items : List α) :
    mapEach (fun layer => mapEach (fun item => (parts layout).on layer (body layer item)) items) layout.layerIds =
      mapEach (fun layer => (parts layout).on layer (mapEach (body layer) items)) layout.layerIds :=
  Parts.mapEach_congr fun _ hlayer => Parts.mapEach_on_one hlayer _ items

/-- What the calls have taken is filled in once more by the writes. -/
theorem fill_taken {taken : LayerTensors} (htaken : taken =
    (parts layout).fill layout.layerIds (fun layer => (parts layout).get layer taken) tensors)
    (part : ℕ → LayerSlots) :
    (parts layout).fill layout.layerIds part taken = (parts layout).fill layout.layerIds part tensors := by
  conv_lhs => rw [htaken]
  exact Parts.fill_fill (fun _ hlayer => hlayer) RuntimeLayout.layerIds_nodup _ _

theorem modifyRows_of_mem {β : Type} (hnodup : layers.Nodup) (f : ℕ → β → β) (rows : ℕ → β)
    (hlayer : layer ∈ layers) :
    Parts.ofFunction.modifyEach f layers rows layer = f layer (rows layer) := by
  have hvalid : ∀ layer ∈ layers, (Parts.ofFunction (τ := β)).valid layer := fun _ _ => trivial
  exact Parts.get_modifyEach_of_mem hvalid hnodup f hlayer

theorem modifyRows_of_not_mem {β : Type} (hnodup : layers.Nodup) (f : ℕ → β → β) (rows : ℕ → β)
    (hlayer : layer ∉ layers) : Parts.ofFunction.modifyEach f layers rows layer = rows layer := by
  have hvalid : ∀ layer ∈ layers, (Parts.ofFunction (τ := β)).valid layer := fun _ _ => trivial
  exact Parts.get_modifyEach_of_not_mem hvalid hnodup f trivial hlayer

/-- **A batched prefill that returns `True`** leaves what `_allocate` leaves,
called on every layer for one sequence after the other, and maps the slots that
these calls return. -/
theorem prefill_batch_eq_allocate (hseqs : (seqs.map ChainSequence.seqId).Nodup) (manager : OwnedTensors layout)
    (h : allocatePrefillBatchSameSizeAllLayers layout config seqs mapping manager.tensors =
      (.ok (some after), next)) :
    ∃ selected : ℕ → List (List ℕ),
      mapEach (fun layer => mapEach (fun seq => allocate layout config layer seq.seqId seq.chunkSize) seqs)
        layout.layerIds manager.tensors = (.ok (layout.layerIds.map selected), next) ∧
      (∀ layer ∈ layout.layerIds, after layer = write (mapping layer) 0 (selected layer).flatten) ∧
      ∀ layer ∉ layout.layerIds, after layer = mapping layer := by
  obtain ⟨tensors, howned⟩ := manager
  dsimp only at h ⊢
  obtain ⟨chunkSize, entries, selected, taken, hsame, hfree, hrows, hselected, rfl, rfl⟩ :=
    allocatePrefillBatch_ok h
  have hvalid : ∀ layer ∈ layout.layerIds, (parts layout).valid layer := fun _ hlayer => hlayer
  have hnodup : layout.layerIds.Nodup := RuntimeLayout.layerIds_nodup
  obtain ⟨entries, rfl, hcalls, htaken⟩ := Parts.of_mapEach_on_ok hvalid hnodup hrows
  -- one layer, sequence by sequence
  have hone : ∀ layer ∈ layout.layerIds,
      mapEach (fun seq => LayerSlots.allocate config.maxModelLen seq.seqId seq.chunkSize none) seqs
        ((parts layout).get layer tensors) = (.ok (selected layer),
          SlotTables.writePrefill (entries layer) (selected layer) chunkSize ((parts layout).get layer taken)) := by
    intro layer hlayer
    obtain ⟨-, hsubset, -⟩ := (howned layer hlayer).prefillRows (hcalls layer hlayer)
    have hheight : taken.numFreeSlots layer = tensors.numFreeSlots layer := hsubset.height
    have hsize : ∀ seq ∈ seqs, LayerSlots.allocate config.maxModelLen seq.seqId seq.chunkSize none =
        LayerSlots.allocate config.maxModelLen seq.seqId chunkSize none := by
      intro seq hseq
      rw [hsame seq hseq]
    rw [Parts.mapEach_congr hsize, hselected, hheight]
    exact (howned layer hlayer).allocateEach_eq hseqs (hfree layer hlayer) (hcalls layer hlayer)
  refine ⟨selected, ?_, fun layer hlayer => ?_, fun layer hlayer => ?_⟩
  · have hlength : ∀ layer ∈ layout.layerIds, (entries layer).length = seqs.length := by
      intro layer hlayer
      obtain ⟨-, -, -, hlength⟩ := (howned layer hlayer).prefillRows (hcalls layer hlayer)
      exact hlength
    calc mapEach (fun layer => mapEach (fun seq => allocate layout config layer seq.seqId seq.chunkSize) seqs)
          layout.layerIds tensors
        = mapEach (fun layer => (parts layout).on layer (mapEach (fun seq =>
            LayerSlots.allocate config.maxModelLen seq.seqId seq.chunkSize none) seqs)) layout.layerIds
            tensors := congrFun (mapEach_parts _ seqs) tensors
      _ = (.ok (layout.layerIds.map selected), (parts layout).fill layout.layerIds (fun layer =>
            SlotTables.writePrefill (entries layer) (selected layer) chunkSize
              ((parts layout).get layer taken)) tensors) := Parts.mapEach_on_eq hvalid hnodup hone
      _ = _ := by
        rw [writePrefill_eq entries selected seqs.length chunkSize hlength taken, fill_taken htaken]
  · exact modifyRows_of_mem hnodup _ mapping hlayer
  · exact modifyRows_of_not_mem hnodup _ mapping hlayer

/-- The rows of a manager stay owned by a batched prefill. -/
theorem prefill_batch_rowsOwned (manager : OwnedTensors layout)
    (h : allocatePrefillBatchSameSizeAllLayers layout config seqs mapping manager.tensors =
      (.ok (some after), next)) :
    ∀ layer ∈ layout.layerIds, ((parts layout).get layer next).RowsOwned := by
  obtain ⟨chunkSize, entries, selected, taken, -, -, hrun, -, rfl, -⟩ := allocatePrefillBatch_ok h
  have hnodup : layout.layerIds.Nodup := RuntimeLayout.layerIds_nodup
  obtain ⟨entries, rfl, hcalls, -⟩ := Parts.of_mapEach_on_ok (fun _ hlayer => hlayer) hnodup hrun
  have hrows := fun layer hlayer => (manager.rowsOwned layer hlayer).prefillRows (hcalls layer hlayer)
  intro layer hlayer
  rw [writePrefill_eq entries selected seqs.length chunkSize (fun layer hlayer => (hrows layer hlayer).2.2.2) taken,
    Parts.get_fill_of_mem (fun _ hlayer => hlayer) hnodup _ hlayer]
  obtain ⟨howned, -, hrowsOf, -⟩ := hrows layer hlayer
  refine howned.of_lens hrowsOf ?_ ?_ fun row hrow => ?_
  all_goals rw [SlotTables.writePrefill, writeRows_eq]
  · rfl
  · rfl
  · exact if_neg hrow

/-! ## Decode -/

theorem writeLens_eq (layout : RuntimeLayout) (layer : ℕ) (lens : ℕ → ℕ) (tensors : LayerTensors) :
    { tensors with rowSeqLens := Function.update tensors.rowSeqLens layer lens } =
      (parts layout).set layer { (parts layout).get layer tensors with rowSeqLens := lens } tensors := by
  have hwrite := writeLists_eq layout layer (tensors.numFreeSlots layer) lens tensors
  rw [Function.update_eq_self] at hwrite
  exact hwrite

theorem writeHeight_eq (layout : RuntimeLayout) (layer height : ℕ) (tensors : LayerTensors) :
    { tensors with numFreeSlots := Function.update tensors.numFreeSlots layer height } =
      (parts layout).set layer { (parts layout).get layer tensors with numFreeSlots := height } tensors := by
  have hwrite := writeLists_eq layout layer height (tensors.rowSeqLens layer) tensors
  rw [Function.update_eq_self] at hwrite
  exact hwrite

/-- **What a batched decode step writes** is one write to every listed layer. -/
theorem writeDecode_eq (rows selected : ℕ → List ℕ) (batchSize : ℕ)
    (hrows : ∀ layer ∈ layout.layerIds, (rows layer).length = batchSize) (tensors : LayerTensors) :
    writeDecode (layout.layerIds.map layout.kvIdx) layout.layerIds (layout.layerIds.map rows)
      (layout.layerIds.map fun layer => (rows layer).map (tensors.rowSeqLens layer))
      (layout.layerIds.map selected) (lowerStacks layout.layerIds batchSize tensors) =
        (parts layout).fill layout.layerIds (fun layer =>
          ((parts layout).get layer tensors).writeDecode (rows layer) (selected layer)) tensors := by
  have hvalid : ∀ layer ∈ layout.layerIds, (parts layout).valid layer := fun _ hlayer => hlayer
  have hnodup : layout.layerIds.Nodup := RuntimeLayout.layerIds_nodup
  have hlower : lowerStacks layout.layerIds batchSize tensors = (parts layout).modifyEach
      (fun _ slots => slots.lowerStack batchSize) layout.layerIds tensors :=
    List.foldl_ext _ _ _ fun tensors layer _ => writeHeight_eq layout layer _ tensors
  calc writeDecode (layout.layerIds.map layout.kvIdx) layout.layerIds (layout.layerIds.map rows)
        (layout.layerIds.map fun layer => (rows layer).map (tensors.rowSeqLens layer))
        (layout.layerIds.map selected) (lowerStacks layout.layerIds batchSize tensors)
      = (parts layout).modifyEach (fun layer slots => slots.addLens (rows layer) 1) layout.layerIds
          ((parts layout).modifyEach (fun layer slots => slots.scatterSlots (rows layer)
            ((rows layer).map (tensors.rowSeqLens layer)) (selected layer)) layout.layerIds
            ((parts layout).modifyEach (fun _ slots => slots.lowerStack batchSize) layout.layerIds tensors)) := by
        rw [← hlower]
        unfold writeDecode
        dsimp only
        rw [List.zip_map', List.zip_map', List.zip_map', zip_map_self, List.foldl_map, List.foldl_map]
        refine (List.foldl_ext _ _ _ fun tensors layer _ => writeLens_eq layout layer _ tensors).trans ?_
        unfold Parts.modifyEach
        congr 1
        exact List.foldl_ext _ _ _ fun tensors layer _ =>
          writeTable_eq layout layer (fun table => LayerSlots.scatter table _ _ _) tensors
    _ = (parts layout).fill layout.layerIds (fun layer =>
          ((parts layout).get layer tensors).writeDecode (rows layer) (selected layer)) tensors := by
        rw [Parts.modifyEach_modifyEach hvalid hnodup, Parts.modifyEach_modifyEach hvalid hnodup,
          Parts.modifyEach_eq_fill hvalid hnodup]
        refine Parts.fill_congr fun layer hlayer => ?_
        rw [LayerSlots.writeDecode, hrows layer hlayer]
        rfl

theorem lookup_map_self {β : Type} (items : List ℕ) (f : ℕ → β) {item : ℕ} (hitem : item ∈ items) :
    (items.map fun item => (item, f item)).lookup item = some (f item) := by
  induction items with
  | nil => exact nomatch hitem
  | cons first rest ih =>
      rw [List.map_cons, List.lookup_cons]
      rcases eq_or_ne item first with rfl | hne
      · rw [beq_self_eq_true]
      · rw [beq_false_of_ne hne]
        exact ih ((List.mem_cons.mp hitem).resolve_left hne)

/-- A tensor over the stacks and stacks of their own give the same slots. -/
theorem activeSlots_eq (batchSize : ℕ) (tensors : LayerTensors) :
    activeSlots layout (layout.layerIds.map layout.kvIdx) batchSize tensors = layout.layerIds.map fun layer =>
      read (freeSlotsStack layout tensors layer) (tensors.numFreeSlots layer - batchSize) batchSize := by
  unfold activeSlots
  rcases hstack : tensors.freeSlotsStackTensor with _ | stackRows
  · rfl
  · dsimp only
    rw [List.zip, List.zipWith_map_left, List.zipWith_self, List.map_map]
    refine List.map_congr_left fun layer _ => ?_
    rw [freeSlotsStack, hstack, Cells.read, List.range'_eq_map_range, List.map_map]
    rfl

/-- The selected slots are read back from the output buffer. -/
theorem read_selectedSlots (hnodup : layers.Nodup) (output : ℕ → ℕ → ℤ) (selected : ℕ → List ℕ)
    {batchSize : ℕ} (hlength : ∀ layer, (selected layer).length = batchSize) (hlayer : layer ∈ layers) :
    (read (writeSelected output (layers.map fun layer => (layer, selected layer)) layer) 0 batchSize).map
      Int.toNat = selected layer := by
  have hwrite : writeSelected output (layers.map fun layer => (layer, selected layer)) layer =
      write (output layer) 0 ((selected layer).map Nat.cast) := by
    unfold writeSelected
    rw [List.foldl_map]
    exact modifyRows_of_mem hnodup (fun layer row => write row 0 ((selected layer).map Nat.cast)) output hlayer
  have hsize : ((selected layer).map (Nat.cast : ℕ → ℤ)).length = batchSize := by
    rw [List.length_map, hlength]
  rw [hwrite, ← hsize, read_write_self, List.map_map]
  exact (List.map_congr_left fun slot _ => Int.toNat_natCast slot).trans (List.map_id _)

/-- A batched decode step that returns, taken apart. -/
theorem allocateDecodeBatch_ok
    (h : allocateDecodeBatchAllLayers layout config seqIds staticCap slotOutput tensors = (.ok batch, next)) :
    ∃ (rows selected : ℕ → List ℕ) (taken : LayerTensors),
      mapEach (fun layer => (parts layout).on layer (mapEach LayerSlots.getFreeRow seqIds)) layout.layerIds
        tensors = (.ok (layout.layerIds.map rows), taken) ∧
      (∀ layer ∈ layout.layerIds, seqIds.length ≤ taken.numFreeSlots layer ∧
        ∀ row ∈ rows layer, taken.rowSeqLens layer row + 1 ≤ config.maxModelLen) ∧
      (∀ layer, selected layer = read (freeSlotsStack layout taken layer)
        (taken.numFreeSlots layer - seqIds.length) seqIds.length) ∧
      next = writeDecode (layout.layerIds.map layout.kvIdx) layout.layerIds (layout.layerIds.map rows)
        (layout.layerIds.map fun layer => (rows layer).map (taken.rowSeqLens layer))
        (layout.layerIds.map selected) (lowerStacks layout.layerIds seqIds.length taken) ∧
      batch.selectedSlots = Parts.ofFunction.modifyEach
        (fun layer row => write row 0 ((selected layer).map Nat.cast)) layout.layerIds
        (slotOutput.getD fun _ _ => -1) ∧
      ∀ layer ∈ layout.layerIds, batch.rowIndices layer = rows layer ∧
        batch.nextLens layer = (rows layer).map fun row => taken.rowSeqLens layer row + 1 := by
  have hvalid : ∀ layer ∈ layout.layerIds, (parts layout).valid layer := fun _ hlayer => hlayer
  have hnodup : layout.layerIds.Nodup := RuntimeLayout.layerIds_nodup
  unfold allocateDecodeBatchAllLayers at h
  rw [bind_apply] at h
  rcases hrun : mapEach (fun layer => (parts layout).on layer (mapEach LayerSlots.getFreeRow seqIds))
    layout.layerIds tensors with ⟨error | values, taken⟩
  · rw [hrun] at h
    cases (Prod.mk.inj h).1
  -- the call returned, so each layer gave its rows and no guard fired:
  obtain ⟨rows, rfl, -⟩ := Parts.of_mapEach_on_ok hvalid hnodup hrun
  rw [hrun] at h
  dsimp only at h
  rw [get_apply] at h
  rw [zip_map_self, List.map_map, bind_apply, raiseIf_apply] at h
  split_ifs at h with hlong
  · cases (Prod.mk.inj h).1
  dsimp only at h
  rw [bind_apply, raiseIf_apply] at h
  split_ifs at h with hcap
  · cases (Prod.mk.inj h).1
  dsimp only at h
  rw [bind_apply, raiseIf_apply] at h
  split_ifs at h with hlayers
  · cases (Prod.mk.inj h).1
  dsimp only at h
  rw [bind_apply, raiseIf_apply] at h
  split_ifs at h with hfree
  · cases (Prod.mk.inj h).1
  dsimp only at h
  rw [RuntimeLayout.mapM_kvLayerIndex, bind_apply, ofExcept_apply] at h
  dsimp only at h
  rw [activeSlots_eq, zip_map_self, set_apply] at h
  rw [set_apply] at h
  obtain ⟨hbatch, rfl⟩ := Prod.mk.inj h
  have hbatch := (Except.ok.inj hbatch).symm
  -- the slots written out are read back from the padded output:
  have hselected : (layout.layerIds.map fun layer => (read (writeSelected (slotOutput.getD fun _ _ => -1)
      (layout.layerIds.map fun layer => (layer, read (freeSlotsStack layout taken layer)
        (taken.numFreeSlots layer - seqIds.length) seqIds.length)) layer) 0 seqIds.length).map Int.toNat) =
      layout.layerIds.map fun layer => read (freeSlotsStack layout taken layer)
        (taken.numFreeSlots layer - seqIds.length) seqIds.length :=
    List.map_congr_left fun layer hlayer =>
      read_selectedSlots hnodup _ _ (fun _ => length_read) hlayer
  refine ⟨rows, _, taken, rfl, fun layer hlayer => ⟨?_, fun row hrow => ?_⟩, fun _ => rfl, ?_, ?_,
    fun layer hlayer => ?_⟩
  · rw [Bool.not_eq_true, List.any_eq_false] at hfree
    simpa using hfree layer hlayer
  · have hmem : taken.rowSeqLens layer row ∈ (layout.layerIds.map ((fun item : ℕ × List ℕ =>
        item.2.map (taken.rowSeqLens item.1)) ∘ fun layer => (layer, rows layer))).flatten :=
      List.mem_flatten.mpr ⟨_, List.mem_map_of_mem hlayer, List.mem_map_of_mem hrow⟩
    have hmax := List.le_max?_getD_of_mem (k := 0) hmem
    omega
  · rw [hselected]
    rfl
  · rw [hbatch]
    unfold writeSelected
    rw [List.foldl_map]
    rfl
  · rw [hbatch]
    dsimp only
    rw [lookup_map_self _ _ hlayer, zip_map_self, lookup_map_self _ _ hlayer]
    exact ⟨rfl, List.map_map⟩

/-- **A batched decode step that returns** leaves what `_allocate_batch` leaves,
called on every layer.  That is also what `_allocate` leaves, called on the
sequences in reverse order when their rows have been taken in forward order. -/
theorem decode_batch_eq_allocate (hseqIds : seqIds.Nodup) (manager : OwnedTensors layout)
    (h : allocateDecodeBatchAllLayers layout config seqIds staticCap slotOutput manager.tensors = (.ok batch, next)) :
    ∃ (selected : ℕ → List ℕ) (taken : LayerTensors),
      mapEach (fun layer => allocateBatch layout config layer seqIds) layout.layerIds manager.tensors =
        (.ok (layout.layerIds.map selected), next) ∧
      mapEach (fun layer => mapEach (getFreeRow layout layer) seqIds) layout.layerIds manager.tensors =
        (.ok (layout.layerIds.map batch.rowIndices), taken) ∧
      mapEach (fun layer => mapEach (fun seqId => allocate layout config layer seqId 1) seqIds.reverse)
        layout.layerIds taken =
          (.ok (layout.layerIds.map fun layer => (selected layer).reverse.map fun slot => [slot]), next) ∧
      (∀ layer ∈ layout.layerIds,
        batch.selectedSlots layer = write (slotOutput.getD (fun _ _ => -1) layer) 0 ((selected layer).map Nat.cast) ∧
        batch.nextLens layer = (batch.rowIndices layer).map (next.rowSeqLens layer)) ∧
      ∀ layer ∉ layout.layerIds, batch.selectedSlots layer = slotOutput.getD (fun _ _ => -1) layer := by
  obtain ⟨tensors, howned⟩ := manager
  dsimp only at h ⊢
  obtain ⟨rows, selected, taken, hrun, hchecks, hselected, rfl, hslots, hreturned⟩ := allocateDecodeBatch_ok h
  have hvalid : ∀ layer ∈ layout.layerIds, (parts layout).valid layer := fun _ hlayer => hlayer
  have hnodup : layout.layerIds.Nodup := RuntimeLayout.layerIds_nodup
  obtain ⟨values, hvalues, hcalls, htaken⟩ := Parts.of_mapEach_on_ok hvalid hnodup hrun
  have hrows : ∀ layer ∈ layout.layerIds, mapEach LayerSlots.getFreeRow seqIds
      ((parts layout).get layer tensors) = (.ok (rows layer), (parts layout).get layer taken) := by
    intro layer hlayer
    rw [hcalls layer hlayer, List.map_eq_map_iff.mp hvalues layer hlayer]
  have hlength : ∀ layer ∈ layout.layerIds, (rows layer).length = seqIds.length := by
    intro layer hlayer
    obtain ⟨-, -, hrowsOf⟩ := (howned layer hlayer).getFreeRows (hrows layer hlayer)
    exact hrowsOf.length_eq
  have hnext := writeDecode_eq rows selected seqIds.length hlength taken
  have htop : ∀ layer ∈ layout.layerIds,
      selected layer = ((parts layout).get layer taken).topSlots seqIds.length := by
    intro layer hlayer
    rw [hselected]
    rfl
  -- the stack of a layer is the same before and after its rows are taken
  have hstack : ∀ layer ∈ layout.layerIds,
      selected layer = ((parts layout).get layer tensors).topSlots seqIds.length ∧
        seqIds.length ≤ ((parts layout).get layer tensors).numFreeSlots := by
    intro layer hlayer
    obtain ⟨-, hsubset, -⟩ := (howned layer hlayer).getFreeRows (hrows layer hlayer)
    have hfree : seqIds.length ≤ ((parts layout).get layer taken).numFreeSlots := (hchecks layer hlayer).1
    rw [htop layer hlayer, LayerSlots.topSlots, LayerSlots.topSlots]
    rw [hsubset.height] at hfree ⊢
    refine ⟨?_, hfree⟩
    rw [hsubset.stack]
    rfl
  rw [hnext]
  refine ⟨selected, taken, ?_, ?_, ?_, fun layer hlayer => ⟨?_, ?_⟩, fun layer hlayer => ?_⟩
  · rw [fill_taken htaken]
    refine Parts.mapEach_on_eq hvalid hnodup fun layer hlayer => ?_
    obtain ⟨hselect, hfree⟩ := hstack layer hlayer
    rw [hselect]
    exact (howned layer hlayer).allocateBatch_eq hseqIds (hrows layer hlayer) hfree (hchecks layer hlayer).2
  · have hindices : layout.layerIds.map batch.rowIndices = layout.layerIds.map rows :=
      List.map_congr_left fun layer hlayer => (hreturned layer hlayer).1
    rw [hindices]
    exact (congrFun (mapEach_parts (fun _ => LayerSlots.getFreeRow) seqIds) tensors).trans hrun
  · refine (congrFun (mapEach_parts (fun _ seqId => LayerSlots.allocate config.maxModelLen seqId 1 none)
      seqIds.reverse) taken).trans (Parts.mapEach_on_eq hvalid hnodup fun layer hlayer => ?_)
    obtain ⟨hlast, -, hrowsOf⟩ := (howned layer hlayer).getFreeRows (hrows layer hlayer)
    rw [htop layer hlayer]
    exact hlast.allocateReverse_eq hseqIds hrowsOf (hchecks layer hlayer).1 (hchecks layer hlayer).2
  · rw [hslots]
    exact modifyRows_of_mem hnodup _ _ hlayer
  · obtain ⟨hindices, hlens⟩ := hreturned layer hlayer
    have hview : ((parts layout).get layer ((parts layout).fill layout.layerIds (fun layer =>
        ((parts layout).get layer taken).writeDecode (rows layer) (selected layer)) taken)) =
          ((parts layout).get layer taken).writeDecode (rows layer) (selected layer) :=
      Parts.get_fill_of_mem hvalid hnodup _ hlayer
    rw [hlens, hindices]
    refine List.map_congr_left fun row hrow => ?_
    exact ((congrFun (congrArg LayerSlots.rowSeqLens hview) row).trans (if_pos hrow)).symm
  · rw [hslots]
    exact modifyRows_of_not_mem hnodup _ _ hlayer

/-- The rows of a manager stay owned by a batched decode step. -/
theorem decode_batch_rowsOwned (manager : OwnedTensors layout)
    (h : allocateDecodeBatchAllLayers layout config seqIds staticCap slotOutput manager.tensors = (.ok batch, next)) :
    ∀ layer ∈ layout.layerIds, ((parts layout).get layer next).RowsOwned := by
  obtain ⟨rows, selected, taken, hrun, -, -, rfl, -, -⟩ := allocateDecodeBatch_ok h
  have hnodup : layout.layerIds.Nodup := RuntimeLayout.layerIds_nodup
  obtain ⟨values, hvalues, hcalls, -⟩ := Parts.of_mapEach_on_ok (fun _ hlayer => hlayer) hnodup hrun
  have hsame := List.map_eq_map_iff.mp hvalues
  have hrows := fun layer hlayer => (manager.rowsOwned layer hlayer).getFreeRows (hcalls layer hlayer)
  intro layer hlayer
  rw [writeDecode_eq rows selected seqIds.length
    (fun layer hlayer => hsame layer hlayer ▸ (hrows layer hlayer).2.2.length_eq) taken,
    Parts.get_fill_of_mem (fun _ hlayer => hlayer) hnodup _ hlayer, hsame layer hlayer]
  obtain ⟨howned, -, hrowsOf⟩ := hrows layer hlayer
  exact howned.of_lens hrowsOf rfl rfl fun row hrow => if_neg hrow

/-! ## Both batches -/

/-- **Batched allocation equals sequential allocation**, on every manager whose
rows are owned. -/
theorem batched_allocation (manager : OwnedTensors layout) :
    (∀ (seqs : List (ChainSequence Id)) (mapping after : ℕ → ℕ → ℕ) (next : LayerTensors),
      (seqs.map ChainSequence.seqId).Nodup →
      allocatePrefillBatchSameSizeAllLayers layout config seqs mapping manager.tensors =
        (.ok (some after), next) →
      ∃ selected : ℕ → List (List ℕ),
        mapEach (fun layer => mapEach (fun seq => allocate layout config layer seq.seqId seq.chunkSize) seqs)
          layout.layerIds manager.tensors = (.ok (layout.layerIds.map selected), next) ∧
        (∀ layer ∈ layout.layerIds, after layer = write (mapping layer) 0 (selected layer).flatten) ∧
        ∀ layer ∉ layout.layerIds, after layer = mapping layer) ∧
    ∀ (seqIds : List ℕ) (staticCap : Option ℕ) (slotOutput : Option (ℕ → ℕ → ℤ)) (batch : DecodeBatch)
      (next : LayerTensors), seqIds.Nodup →
      allocateDecodeBatchAllLayers layout config seqIds staticCap slotOutput manager.tensors =
        (.ok batch, next) →
      ∃ (selected : ℕ → List ℕ) (taken : LayerTensors),
        mapEach (fun layer => allocateBatch layout config layer seqIds) layout.layerIds manager.tensors =
          (.ok (layout.layerIds.map selected), next) ∧
        mapEach (fun layer => mapEach (getFreeRow layout layer) seqIds) layout.layerIds manager.tensors =
          (.ok (layout.layerIds.map batch.rowIndices), taken) ∧
        mapEach (fun layer => mapEach (fun seqId => allocate layout config layer seqId 1) seqIds.reverse)
          layout.layerIds taken =
            (.ok (layout.layerIds.map fun layer => (selected layer).reverse.map fun slot => [slot]), next) ∧
        (∀ layer ∈ layout.layerIds,
          batch.selectedSlots layer =
            write (slotOutput.getD (fun _ _ => -1) layer) 0 ((selected layer).map Nat.cast) ∧
          batch.nextLens layer = (batch.rowIndices layer).map (next.rowSeqLens layer)) ∧
        ∀ layer ∉ layout.layerIds, batch.selectedSlots layer = slotOutput.getD (fun _ _ => -1) layer :=
  ⟨fun _ _ _ _ hseqs h => prefill_batch_eq_allocate hseqs manager h,
    fun _ _ _ _ _ hseqIds h => decode_batch_eq_allocate hseqIds manager h⟩

/-- Two KV layers behind a layer of linear attention. -/
def linearFirst : RuntimeLayout where
  layerIdxToKvIdx layer := if layer = 1 then some 0 else if layer = 2 then some 1 else none
  kvIdxToLayerIdx := [1, 2]
  inverse kvIdx layer h := by
    rcases kvIdx with _ | _ | kvIdx
    · obtain rfl := Option.some.inj h
      rfl
    · obtain rfl := Option.some.inj h
      rfl
    · exact nomatch h

/-- Three rows of two cells, and four slots for every layer. -/
def threeRows : SlotConfig := { twoCells with maxBufferRows := 3 }

/-- The stack of one layer is lower: a sequence has a slot there. -/
def unevenTensors : LayerTensors := (allocate linearFirst threeRows 1 6 1).after (fresh linearFirst threeRows)

def unevenStacks : OwnedTensors linearFirst where
  tensors := unevenTensors
  rowsOwned layer hlayer := by
    have hnodup : ∀ layer ∈ linearFirst.layerIds, ((unevenTensors.freeRows layer) ++
        (unevenTensors.seqIdToRow layer).values).Nodup := by decide
    have hempty : ∀ layer ∈ linearFirst.layerIds, ∀ row ∈ unevenTensors.freeRows layer,
        unevenTensors.rowSeqLens layer row = 0 := by decide
    exact ⟨hnodup layer hlayer, hempty layer hlayer⟩

/-- Two prompts on stacks of different heights, and a decode step over an old
and a new sequence. -/
theorem batched_allocation_uneven :
    (∃ selected : ℕ → List (List ℕ),
      mapEach (fun layer => mapEach (fun seq : ChainSequence Unit =>
        allocate linearFirst threeRows layer seq.seqId seq.chunkSize) [promptOf 7 [5], promptOf 8 [5]]) [1, 2]
        unevenTensors = (.ok ([1, 2].map selected), (allocatePrefillBatchSameSizeAllLayers linearFirst threeRows
          [promptOf 7 [5], promptOf 8 [5]] (fun _ _ => 0) unevenTensors).2)) ∧
    ∃ selected : ℕ → List ℕ,
      mapEach (fun layer => allocateBatch linearFirst threeRows layer [6, 7]) [1, 2] unevenTensors =
        (.ok ([1, 2].map selected),
          (allocateDecodeBatchAllLayers linearFirst threeRows [6, 7] none none unevenTensors).2) := by
  have hboth := @batched_allocation Unit linearFirst threeRows unevenStacks
  constructor
  · have hreturn : (allocatePrefillBatchSameSizeAllLayers linearFirst threeRows
        [promptOf 7 [5], promptOf 8 [5]] (fun _ _ => 0) unevenTensors).1.toOption.join.isSome = true := by decide
    rcases hrun : allocatePrefillBatchSameSizeAllLayers linearFirst threeRows
      [promptOf 7 [5], promptOf 8 [5]] (fun _ _ => 0) unevenTensors with ⟨error | _ | after, next⟩
    · rw [hrun] at hreturn
      exact nomatch hreturn
    · rw [hrun] at hreturn
      exact nomatch hreturn
    · obtain ⟨selected, hcalls, -⟩ := hboth.1 _ _ _ _ (by decide) hrun
      exact ⟨selected, hcalls⟩
  · have hreturn : (allocateDecodeBatchAllLayers linearFirst threeRows [6, 7] none none
        unevenTensors).1.toOption.isSome = true := by decide
    rcases hrun : allocateDecodeBatchAllLayers linearFirst threeRows [6, 7] none none unevenTensors with
      ⟨error | batch, next⟩
    · rw [hrun] at hreturn
      exact nomatch hreturn
    · obtain ⟨selected, -, hcalls, -⟩ := hboth.2 _ _ _ _ _ (by decide) hrun
      exact ⟨selected, hcalls⟩

end LayerTensors
