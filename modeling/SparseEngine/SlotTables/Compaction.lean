import SparseEngine.SlotTables.Manager

/-!
# Compaction

A compaction keeps some positions of a row and pushes the slots of the others
on the stack.  The kept slots move to the front of the row.  Materialization
gives a prompt that was prefilled in the staging tensor the slots of the
positions it keeps.

A tensor of keep indices is a list of rows, or of such lists by layer, and its
width is read off each row.  The check of the indices raises: on a device it
is an assertion that stops the device.
-/

namespace LayerSlots

open Routine Cells

/-- `old_slots[keep_indices]`. -/
def keptSlots (row : ℕ) (keep : List ℕ) (slots : LayerSlots) : List ℕ :=
  keep.map (slots.reqToTokenSlots row)

/-- `old_slots[mask]`. -/
def droppedSlots (row curLen : ℕ) (keep : List ℕ) (slots : LayerSlots) : List ℕ :=
  (dropped keep curLen).map (slots.reqToTokenSlots row)

/-- A row that holds `values` and zeros behind them. -/
def setRow (row : ℕ) (values : List ℕ) (slots : LayerSlots) : LayerSlots :=
  { slots with reqToTokenSlots :=
      Function.update slots.reqToTokenSlots row (write (fun _ => 0) 0 values) }.setLen row
    values.length

/-- Several rows, one after the other. -/
def setRows (entries : List (ℕ × List ℕ)) (slots : LayerSlots) : LayerSlots :=
  entries.foldl (fun slots entry => slots.setRow entry.1 entry.2) slots

/-- `_apply_free_part_slots`. -/
def applyFreePartSlots (row curLen : ℕ) (keep : List ℕ) (slots : LayerSlots) : LayerSlots :=
  (slots.pushSlots (slots.droppedSlots row curLen keep)).setRow row (slots.keptSlots row keep)

/-- `_compact_uniform_row_tile` on rows with their keep indices. -/
def compactUniformRowTile (curLen : ℕ) (entries : List (ℕ × List ℕ)) (slots : LayerSlots) :
    LayerSlots :=
  let newSlots := entries.map fun entry => (entry.1, slots.keptSlots entry.1 entry.2)
  let released := entries.flatMap fun entry => slots.droppedSlots entry.1 curLen entry.2
  (slots.pushSlots released).setRows newSlots

/-- The slots that a column tile drops. -/
def droppedInTile (row : ℕ) (keep : List ℕ) (start stop : ℕ) (slots : LayerSlots) : List ℕ :=
  let left := keep.countP (· < start)
  let right := keep.countP (· < stop)
  let kept := (keep.drop left).take (right - left)
  ((List.range' start (stop - start)).filter fun index => index ∉ kept).map
    (slots.reqToTokenSlots row)

/-- `_compact_single_row_column_tiles`. -/
def compactSingleRowColumnTiles (tile row curLen : ℕ) (keep : List ℕ) (slots : LayerSlots) :
    LayerSlots :=
  let slots := (tileStarts curLen tile).foldl (fun slots start =>
    slots.pushSlots (slots.droppedInTile row keep start (min curLen (start + tile)))) slots
  let newLen := keep.length
  let slots := (tileStarts newLen tile).foldl (fun slots start =>
    slots.writeRow row start
      (slots.keptSlots row ((keep.drop start).take (min newLen (start + tile) - start)))) slots
  let table := fun column => if column < newLen then slots.reqToTokenSlots row column else 0
  { slots with reqToTokenSlots := Function.update slots.reqToTokenSlots row table }.setLen row newLen

/-- `_compact_uniform_rows_bounded`. -/
def compactUniformRowsBounded (tile curLen : ℕ) (entries : List (ℕ × List ℕ)) (slots : LayerSlots) :
    LayerSlots :=
  if curLen ≤ tile then
    let rowsPerTile := max 1 (tile / max 1 curLen)
    (tileStarts entries.length rowsPerTile).foldl (fun slots start =>
      slots.compactUniformRowTile curLen ((entries.drop start).take rowsPerTile)) slots
  else
    entries.foldl (fun slots entry =>
      slots.compactSingleRowColumnTiles tile entry.1 curLen entry.2) slots

/-- The rows and lengths of resident sequences. -/
def rowsAndLens (slots : LayerSlots) (seqIds : List ℕ) : Except PyError (List (ℕ × ℕ)) :=
  seqIds.mapM fun seqId =>
    match slots.seqIdToRow.get? seqId with
    | none => .error (.valueError "")
    | some row => .ok (row, slots.rowSeqLens row)

/-- The part of `free_prefix_recent_slots_batch_layers` that writes a layer. -/
def freePrefixRecentSlots (rows : List ℕ) (kvLen sinkEnd recentStart : ℕ) (slots : LayerSlots) :
    LayerSlots :=
  let dropCount := recentStart - sinkEnd
  let newLen := sinkEnd + (kvLen - recentStart)
  let slots := slots.pushSlots (rows.flatMap fun row =>
    read (slots.reqToTokenSlots row) sinkEnd dropCount)
  let slots := slots.writeRows (rows.map fun row =>
    ((row, sinkEnd), read (slots.reqToTokenSlots row) recentStart (kvLen - recentStart)))
  let slots := slots.writeRows (rows.map fun row =>
    ((row, newLen), List.replicate (kvLen - newLen) 0))
  { slots with rowSeqLens := fun row => if row ∈ rows then newLen else slots.rowSeqLens row }

end LayerSlots

namespace SlotTables

open Routine Cells

variable (config : SlotConfig)

/-- `kv_layer_index`. -/
def kvLayerIndex (layer : ℕ) : Routine SlotTables Unit :=
  raiseIf (config.numKvLayers ≤ layer)
    (.runtimeError "layer_idx is linear_attention and has no KV cache.")

/-- The sort in `_prepare_compaction_keep_indices`. -/
def sortKeepIndices (keepIndicesSorted : Bool) (keep : List ℕ) : List ℕ :=
  if keepIndicesSorted then keep else keep.insertionSort (· ≤ ·)

/-- The checks in `_prepare_compaction_keep_indices`, with a row length for each
row of the tensor. -/
def checkKeepIndices (operation : String) (rowLens : List ℕ) (keepIndices : List (List ℕ)) :
    Routine SlotTables Unit := do
  raiseIf ((keepIndices.zip rowLens).any fun entry => entry.1.any fun index => decide (entry.2 ≤ index))
    (.runtimeError (operation ++ " keep_indices out of bounds."))
  raiseIf (keepIndices.any fun keep => decide (¬ keep.IsChain (· < ·)))
    (.runtimeError (operation ++ " keep_indices must be unique."))

/-- `_preflight_compaction_free_capacity`. -/
def preflightCompactionFreeCapacity (operation : String) (layer : ℕ) (releaseCount : ℤ) :
    Routine SlotTables Unit := do
  let tables ← Routine.read
  raiseIf (releaseCount < 0 ∨
      (config.layerNumSlots layer : ℤ) < (tables.layers layer).numFreeSlots + releaseCount)
    (.runtimeError (operation ++ " would overflow the free-slot stack"))

/-- `self._uniform_decode_metadata = False`. -/
def clearUniform : Routine SlotTables Unit :=
  Routine.write fun tables => { tables with uniformDecodeMetadata := false }

/-- `free_part_slots`. -/
def freePartSlots (layer seqId : ℕ) (keepIndices : List ℕ) (keepIndicesSorted : Bool) :
    Routine SlotTables Unit := do
  kvLayerIndex config layer
  let tables ← Routine.read
  match (tables.layers layer).seqIdToRow.get? seqId with
  | none => raise (.valueError "")
  | some row => do
      let curLen := (tables.layers layer).rowSeqLens row
      raiseIf (keepIndices = []) (.runtimeError "free_part_slots got empty keep_indices")
      let keep := sortKeepIndices keepIndicesSorted keepIndices
      checkKeepIndices "free_part_slots" [curLen] [keep]
      preflightCompactionFreeCapacity config "free_part_slots" layer ((curLen : ℤ) - keep.length)
      clearUniform
      onLayer layer (Routine.write (LayerSlots.applyFreePartSlots row curLen keep))

/-- `_page_table_compaction_tile_elements()`. -/
def tileElements : Routine SlotTables ℕ := do
  raiseIf (config.compactionTileElements = 0)
    (.runtimeError "Page-table compaction tile size must be positive")
  return config.compactionTileElements

/-- `_compact_uniform_rows_bounded`. -/
def compactUniformRowsBounded (layer curLen : ℕ) (entries : List (ℕ × List ℕ)) :
    Routine SlotTables Unit := do
  let tile ← tileElements config
  onLayer layer (Routine.write (LayerSlots.compactUniformRowsBounded tile curLen entries))

/-- `free_part_slots` on one sequence after the other, with keep indices that
were checked. -/
def freePartSlotsEach (layer : ℕ) (seqIds : List ℕ) (keepIndices : List (List ℕ)) :
    Routine SlotTables Unit :=
  forEach (fun entry : ℕ × List ℕ => freePartSlots config layer entry.1 entry.2 true)
    (seqIds.zip keepIndices)

/-- `free_part_slots_batch`. -/
def freePartSlotsBatch (layer : ℕ) (seqIds : List ℕ) (keepIndices : List (List ℕ))
    (keepIndicesSorted : Bool) : Routine SlotTables Unit :=
  if seqIds = [] then pure ()
  else do
    kvLayerIndex config layer
    raiseIf (keepIndices.length ≠ seqIds.length)
      (.runtimeError "free_part_slots_batch expected keep_indices with shape [batch, keep]")
    raiseIf ([] ∈ keepIndices) (.runtimeError "free_part_slots_batch got empty keep_indices")
    if seqIds.length = 1 then
      freePartSlots config layer (seqIds.headD 0) (keepIndices.headD []) keepIndicesSorted
    else do
      let tables ← Routine.read
      let entries ← ofExcept ((tables.layers layer).rowsAndLens seqIds)
      let rows := entries.map Prod.fst
      let curLens := entries.map Prod.snd
      raiseIf (¬ rows.Nodup) (.runtimeError "free_part_slots_batch received duplicate physical rows")
      let keepIndices := keepIndices.map (sortKeepIndices keepIndicesSorted)
      checkKeepIndices "free_part_slots_batch" curLens keepIndices
      preflightCompactionFreeCapacity config "free_part_slots_batch" layer
        ((curLens.zip keepIndices).map fun entry => (entry.1 : ℤ) - entry.2.length).sum
      clearUniform
      let firstLen := curLens.headD 0
      if (curLens.any fun curLen => decide (curLen ≠ firstLen)) = true then
        freePartSlotsEach config layer seqIds keepIndices
      else compactUniformRowsBounded config layer firstLen (rows.zip keepIndices)

/-- A layer of the first loops in `free_part_slots_batch_layers`: rows and
lengths of the sequences. -/
def layerEntries (tables : SlotTables) (seqIds : List ℕ) (layer : ℕ) :
    Except PyError (List (ℕ × ℕ)) :=
  (tables.layers layer).rowsAndLens seqIds

/-- What the branches of `free_part_slots_batch_layers` read: the layer, the
rows and lengths of the sequences, and their keep indices. -/
structure LayerPlan where
  layer : ℕ
  entries : List (ℕ × ℕ)
  keepIndices : List (List ℕ)

/-- The rows with their keep indices. -/
def LayerPlan.rows (plan : LayerPlan) : List (ℕ × List ℕ) :=
  (plan.entries.map Prod.fst).zip plan.keepIndices

/-- `cur_lens[local_layer]`. -/
def LayerPlan.curLens (plan : LayerPlan) : List ℕ := plan.entries.map Prod.snd

/-- `_compact_uniform_layer_tile`. -/
def compactUniformLayerTile (curLen : ℕ) (tile : List LayerPlan) : Routine SlotTables Unit :=
  forEach (fun plan : LayerPlan =>
    onLayer plan.layer (Routine.write (LayerSlots.compactUniformRowTile curLen plan.rows))) tile

/-- A layer of the last loop in `free_part_slots_batch_layers`. -/
def compactLayer (seqIds : List ℕ) (plan : LayerPlan) : Routine SlotTables Unit :=
  let curLen := plan.curLens.headD 0
  if (plan.curLens.all fun length => decide (length = curLen)) = true then
    compactUniformRowsBounded config plan.layer curLen plan.rows
  else freePartSlotsEach config plan.layer seqIds plan.keepIndices

/-- The branches of `free_part_slots_batch_layers`. -/
def compactLayers (seqIds : List ℕ) (plans : List LayerPlan) : Routine SlotTables Unit := do
  let tile ← tileElements config
  let curLen := ((plans.head?).map fun plan => plan.curLens.headD 0).getD 0
  let elementsPerLayer := seqIds.length * curLen
  if (plans.all fun plan => plan.curLens.all fun length => decide (length = curLen)) = true ∧
      elementsPerLayer ≤ tile then
    let layersPerTile := max 1 (tile / max 1 elementsPerLayer)
    forEach (fun start => compactUniformLayerTile curLen ((plans.drop start).take layersPerTile))
      (tileStarts plans.length layersPerTile)
  else forEach (compactLayer config seqIds) plans

/-- `free_part_slots_batch_layers`. -/
def freePartSlotsBatchLayers (layers seqIds : List ℕ) (keepIndices : List (List (List ℕ)))
    (keepIndicesSorted : Bool) : Routine SlotTables Unit :=
  if layers = [] ∨ seqIds = [] then pure ()
  else do
    forEach (kvLayerIndex config) layers
    raiseIf (keepIndices.length ≠ layers.length ∨
        (keepIndices.any fun rows => decide (rows.length ≠ seqIds.length)) = true)
      (.runtimeError "free_part_slots_batch_layers expected keep_indices with shape [layers, batch, keep]")
    raiseIf (keepIndices.any fun rows => decide ([] ∈ rows))
      (.runtimeError "free_part_slots_batch_layers got empty keep_indices.")
    raiseIf (¬ layers.Nodup) (.runtimeError "free_part_slots_batch_layers received duplicate layers")
    if layers.length = 1 then
      freePartSlotsBatch config (layers.headD 0) seqIds (keepIndices.headD []) keepIndicesSorted
    else do
      let tables ← Routine.read
      let entries ← ofExcept (layers.mapM (tables.layerEntries seqIds))
      raiseIf (entries.any fun rows => decide (¬ (rows.map Prod.fst).Nodup))
        (.runtimeError "free_part_slots_batch_layers received duplicate physical rows")
      let keepIndices := keepIndices.map (List.map (sortKeepIndices keepIndicesSorted))
      checkKeepIndices "free_part_slots_batch_layers" (entries.flatten.map Prod.snd)
        keepIndices.flatten
      let plans := (layers.zip (entries.zip keepIndices)).map fun entry =>
        (⟨entry.1, entry.2.1, entry.2.2⟩ : LayerPlan)
      forEach (fun plan : LayerPlan =>
          preflightCompactionFreeCapacity config "free_part_slots_batch_layers" plan.layer
            ((plan.curLens.zip plan.keepIndices).map fun entry => (entry.1 : ℤ) - entry.2.length).sum)
        plans
      clearUniform
      compactLayers config seqIds plans

/-- The part of `free_prefix_recent_slots_batch_layers` behind its early
return. -/
def prefixRecent (layers seqIds : List ℕ) (kvLen sinkEnd recentStart : ℕ) :
    Routine SlotTables Unit := do
  let tables ← Routine.read
  let entries ← ofExcept (layers.mapM (tables.layerEntries seqIds))
  raiseIf (entries.any fun rows => rows.any fun entry => decide (entry.2 ≠ kvLen))
    (.runtimeError "prefix/recent compaction expected uniform row lengths")
  forEach (fun entry : ℕ × List (ℕ × ℕ) => onLayer entry.1 (Routine.write
      (LayerSlots.freePrefixRecentSlots (entry.2.map Prod.fst) kvLen sinkEnd recentStart)))
    (layers.zip entries)

/-- `SnapKVCacheManager.free_prefix_recent_slots_batch_layers`. -/
def snapkvFreePrefixRecent (layers seqIds : List ℕ) (kvLen sinkKeepTokens recentKeepTokens : ℕ) :
    Routine SlotTables Unit :=
  if layers = [] ∨ seqIds = [] then pure ()
  else do
    forEach (kvLayerIndex config) layers
    clearUniform
    let sinkEnd := min sinkKeepTokens kvLen
    let recentStart := max sinkEnd (kvLen - recentKeepTokens)
    let newLen := sinkEnd + (kvLen - recentStart)
    raiseIf (newLen = 0) (.runtimeError "prefix/recent compaction cannot keep zero tokens.")
    if kvLen ≤ newLen then pure ()
    else prefixRecent layers seqIds kvLen sinkEnd recentStart

/-- `free_prefix_recent_slots_batch_layers`. -/
def freePrefixRecent (layers seqIds : List ℕ) (kvLen sinkKeepTokens recentKeepTokens : ℕ) :
    Routine SlotTables Unit := do
  snapkvFreePrefixRecent config layers seqIds kvLen sinkKeepTokens recentKeepTokens
  whenDo (config.streaming = true ∧ layers ≠ [] ∧ layers.length = config.numLayers)
    (Routine.write fun tables => { tables with uniformDecodeMetadata := true })

/-! ## Materialization -/

/-- The reclaim of the resident prefix in
`materialize_prefill_staging_layer`. -/
def reclaimPrefix (layer row residentPrefixLen : ℕ) : Routine SlotTables Unit := do
  let tables ← Routine.read
  raiseIf ((tables.layers layer).rowSeqLens row ≠ residentPrefixLen)
    (.runtimeError "PyramidKV raw_offload resident prefix changed before final materialization")
  onLayer layer (Routine.write fun slots =>
    let slots := slots.pushSlots (read (slots.reqToTokenSlots row) 0 residentPrefixLen)
    let slots := slots.writeRow row 0 (List.replicate residentPrefixLen 0)
    slots.setLen row 0)

/-- Pairs are compared lawfully. -/
local instance : LawfulBEq (ℕ × ℕ) := inferInstance

/-- The checks before a materialization: the row of the sequence. -/
def stagedRow (layer seqId : ℕ) : Routine SlotTables ℕ := do
  let tables ← Routine.read
  raiseIf ((layer, seqId) ∈ tables.materializedLayers)
    (.runtimeError "PyramidKV prefill staging layer materialized twice")
  match (tables.layers layer).seqIdToRow.get? seqId with
  | none => raise (.runtimeError "PyramidKV staging row is missing")
  | some row => return row

/-- The check that the row is empty. -/
def requireEmptyRow (layer row : ℕ) : Routine SlotTables Unit := do
  let tables ← Routine.read
  raiseIf ((tables.layers layer).rowSeqLens row ≠ 0) (.runtimeError
    "PyramidKV full-prefill staging expects an empty persistent row before materialization.")

/-- The end of a materialization. -/
def finishMaterialization (layer : ℕ) (seqIds : List ℕ) : Routine SlotTables Unit :=
  Routine.write fun tables =>
    let materialized :=
      (tables.materializedLayers ++ seqIds.map fun seqId => (layer, seqId)).eraseDups
    { tables with
      materializedLayers := materialized
      stagingActive := tables.stagingActive &&
        decide (materialized.length ≠ config.numKvLayers * tables.stagingSeqIds.eraseDups.length) }

/-- `has_prefill_staging_view`, which a materialization needs. -/
def requireStagingView (layer : ℕ) : Routine SlotTables Unit := do
  kvLayerIndex config layer
  let tables ← Routine.read
  raiseIf (tables.stagingActive = false) (.runtimeError "PyramidKV prefill staging is not active.")

/-- The lookup of the sequence in the staging tensor. -/
def requireStaged (seqId : ℕ) : Routine SlotTables Unit := do
  let tables ← Routine.read
  raiseIf (seqId ∉ tables.stagingSeqIds) (.keyError "seq_id")

/-- `materialize_prefill_staging_layer`, on the number of positions to keep. -/
def materializePrefillStagingLayer (layer seqId numKeep : ℕ) : Routine SlotTables Unit := do
  requireStagingView config layer
  let row ← stagedRow layer seqId
  let tables ← Routine.read
  let residentPrefixLen := (tables.residentPrefixLens layer).getD 0
  whenDo (0 < residentPrefixLen) (reclaimPrefix layer row residentPrefixLen)
  requireEmptyRow layer row
  raiseIf (numKeep = 0) (.runtimeError "PyramidKV staging materialization cannot keep zero tokens.")
  let _ ← onLayer layer (LayerSlots.allocate config.maxModelLen seqId numKeep none)
  requireStaged seqId
  finishMaterialization config layer [seqId]

/-- A sequence in the first loop of
`materialize_prefill_staging_layer_batch`. -/
def checkMaterialization (layer : ℕ) (entry : ℕ × ℕ) : Routine SlotTables Unit := do
  let row ← stagedRow layer entry.1
  requireEmptyRow layer row
  raiseIf (entry.2 = 0) (.runtimeError "PyramidKV staging materialization cannot keep zero tokens.")
  requireStaged entry.1

/-- `materialize_prefill_staging_layer_batch`, on sequences with the number of
positions to keep. -/
def materializePrefillStagingLayerBatch (layer : ℕ) (entries : List (ℕ × ℕ)) :
    Routine SlotTables Unit :=
  match entries with
  | [] => pure ()
  | [entry] => materializePrefillStagingLayer config layer entry.1 entry.2
  | _ => do
      requireStagingView config layer
      forEach (checkMaterialization layer) entries
      forEach (fun entry : ℕ × ℕ => onLayer layer do
          let _ ← LayerSlots.allocate config.maxModelLen entry.1 entry.2 none
          return ()) entries
      finishMaterialization config layer (entries.map Prod.fst)

end SlotTables
