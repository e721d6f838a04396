import SparseEngine.SlotTables.Manager
import SparseEngine.Lib.Parts

/-!
# Two numberings of the layers

The manager keeps lists with an entry for every transformer layer, and tensors
with a row for every KV layer.  `RuntimeLayout` has the maps between the two
numberings; layers that share the KV tensors of another one have its KV index,
and `kv_transformer_layer_indices` lists one layer for each index.
`free_slots_stack` and `buffer_req_to_token_slots` are lists of views of the
tensors, except that the stacks are tensors of their own when the layers have
different numbers of slots.

`LayerTensors.parts` is what a layer's entry of the lists and its rows of the
tensors make up, the `LayerSlots` that `_allocate` and `_allocate_batch` work
on.  The batched allocations are written here with the numbering that each of
their accesses uses.
-/

/-- `RuntimeLayout`, as far as the manager uses it. -/
structure RuntimeLayout where
  layerIdxToKvIdx : ℕ → Option ℕ
  kvIdxToLayerIdx : List ℕ
  inverse : ∀ kvIdx layer, kvIdxToLayerIdx[kvIdx]? = some layer → layerIdxToKvIdx layer = some kvIdx

namespace RuntimeLayout

variable (layout : RuntimeLayout)

/-- `kv_layer_index`. -/
def kvLayerIndex (layer : ℕ) : Except PyError ℕ :=
  match layout.layerIdxToKvIdx layer with
  | none => .error (.runtimeError "layer_idx is linear_attention and has no KV cache.")
  | some kvIdx => .ok kvIdx

/-- `kv_transformer_layer_indices()`. -/
def layerIds : List ℕ := layout.kvIdxToLayerIdx

/-- The row of the tensors that is a layer's. -/
def kvIdx (layer : ℕ) : ℕ := (layout.layerIdxToKvIdx layer).getD 0

variable {layout}

theorem kvIdx_of_getElem? {kvIdx layer : ℕ} (h : layout.layerIds[kvIdx]? = some layer) :
    layout.kvIdx layer = kvIdx := by
  rw [RuntimeLayout.kvIdx, layout.inverse kvIdx layer h]
  rfl

theorem layerIds_nodup : layout.layerIds.Nodup := by
  rw [List.nodup_iff_getElem?_ne_getElem?]
  intro first second hlt hsecond heq
  obtain ⟨layer, hlayer⟩ : ∃ layer, layout.layerIds[second]? = some layer :=
    ⟨_, List.getElem?_eq_getElem hsecond⟩
  have hfirst := kvIdx_of_getElem? (heq.trans hlayer)
  rw [kvIdx_of_getElem? hlayer] at hfirst
  omega

/-- Listed layers have different KV indices. -/
theorem kvIdx_ne {first second : ℕ} (hfirst : first ∈ layout.layerIds) (hsecond : second ∈ layout.layerIds)
    (hne : second ≠ first) : layout.kvIdx second ≠ layout.kvIdx first := by
  obtain ⟨i, hi⟩ := List.mem_iff_getElem?.mp hfirst
  obtain ⟨j, hj⟩ := List.mem_iff_getElem?.mp hsecond
  rw [kvIdx_of_getElem? hi, kvIdx_of_getElem? hj]
  rintro rfl
  exact hne (Option.some.inj (hj.symm.trans hi))

theorem mapM_kvLayerIndex : layout.layerIds.mapM layout.kvLayerIndex = .ok (layout.layerIds.map layout.kvIdx) := by
  have hall : ∀ layers : List ℕ, (∀ layer ∈ layers, layer ∈ layout.layerIds) →
      layers.mapM layout.kvLayerIndex = .ok (layers.map layout.kvIdx) := by
    intro layers hlayers
    induction layers with
    | nil => rfl
    | cons layer rest ih =>
        rw [List.forall_mem_cons] at hlayers
        obtain ⟨kvIdx, hkvIdx⟩ := List.mem_iff_getElem?.mp hlayers.1
        have hindex := layout.inverse kvIdx layer hkvIdx
        rw [List.mapM_cons, ih hlayers.2, kvLayerIndex, hindex, List.map_cons, RuntimeLayout.kvIdx, hindex]
        rfl
  exact hall layout.layerIds fun _ hlayer => hlayer

end RuntimeLayout

/-- The slot tables of the manager, as tensors and lists. -/
structure LayerTensors where
  /-- `free_slots_stack_tensor`, by KV layer. -/
  freeSlotsStackTensor : Option (ℕ → ℕ → ℕ)
  /-- The stacks of `free_slots_stack` that are tensors of their own, by layer. -/
  ownStacks : ℕ → ℕ → ℕ
  /-- `buffer_req_to_token_slots_tensor`, by KV layer. -/
  reqToTokenSlotsTensor : ℕ → ℕ → ℕ → ℕ
  /-- `_num_free_slots`, and the other lists, by layer. -/
  numFreeSlots : ℕ → ℕ
  seqIdToRow : ℕ → Dict ℕ ℕ
  freeRows : ℕ → List ℕ
  rowSeqLens : ℕ → ℕ → ℕ

namespace LayerTensors

open Routine Cells

variable (layout : RuntimeLayout)

/-- `free_slots_stack[layer]`. -/
def freeSlotsStack (tensors : LayerTensors) (layer : ℕ) : ℕ → ℕ :=
  match tensors.freeSlotsStackTensor with
  | some stackRows => stackRows (layout.kvIdx layer)
  | none => tensors.ownStacks layer

/-- A layer's entry of the lists. -/
def layer (layer : ℕ) (tensors : LayerTensors) : LayerSlots where
  freeSlotsStack := freeSlotsStack layout tensors layer
  numFreeSlots := tensors.numFreeSlots layer
  reqToTokenSlots := tensors.reqToTokenSlotsTensor (layout.kvIdx layer)
  seqIdToRow := tensors.seqIdToRow layer
  freeRows := tensors.freeRows layer
  rowSeqLens := tensors.rowSeqLens layer

/-- Writes to a layer's entry of the lists, which go to its rows of the
tensors. -/
def setLayer (layer : ℕ) (slots : LayerSlots) (tensors : LayerTensors) : LayerTensors where
  freeSlotsStackTensor := tensors.freeSlotsStackTensor.map fun stackRows =>
    Function.update stackRows (layout.kvIdx layer) slots.freeSlotsStack
  ownStacks := match tensors.freeSlotsStackTensor with
    | some _ => tensors.ownStacks
    | none => Function.update tensors.ownStacks layer slots.freeSlotsStack
  reqToTokenSlotsTensor :=
    Function.update tensors.reqToTokenSlotsTensor (layout.kvIdx layer) slots.reqToTokenSlots
  numFreeSlots := Function.update tensors.numFreeSlots layer slots.numFreeSlots
  seqIdToRow := Function.update tensors.seqIdToRow layer slots.seqIdToRow
  freeRows := Function.update tensors.freeRows layer slots.freeRows
  rowSeqLens := Function.update tensors.rowSeqLens layer slots.rowSeqLens

/-- The listed layers are parts of the manager. -/
def parts : Parts ℕ LayerTensors LayerSlots where
  get := layer layout
  set := setLayer layout
  valid layer := layer ∈ layout.layerIds
  get_set slots tensors _ := by
    obtain ⟨stackTensor, _⟩ := tensors
    cases stackTensor <;> simp [layer, setLayer, freeSlotsStack]
  set_get layer tensors := by
    obtain ⟨stackTensor, _⟩ := tensors
    cases stackTensor <;> simp [LayerTensors.layer, setLayer, freeSlotsStack]
  set_set layer first second tensors := by
    obtain ⟨stackTensor, _⟩ := tensors
    cases stackTensor <;> simp [setLayer]
  get_set_of_ne slots tensors hfirst hsecond hne := by
    have hkv := RuntimeLayout.kvIdx_ne hfirst hsecond hne
    obtain ⟨stackTensor, _⟩ := tensors
    cases stackTensor <;> simp [layer, setLayer, freeSlotsStack, hne, hkv]
  set_comm first second tensors hfirst hsecond hne := by
    have hkv := RuntimeLayout.kvIdx_ne hsecond hfirst hne
    obtain ⟨stackTensor, _⟩ := tensors
    cases stackTensor <;> simp [setLayer, Function.update_comm hne, Function.update_comm hkv]

/-! ## `_allocate` and `_allocate_batch` -/

/-- `_get_free_row`. -/
def getFreeRow (layer seqId : ℕ) : Routine LayerTensors ℕ :=
  (parts layout).on layer (LayerSlots.getFreeRow seqId)

/-- `_allocate`. -/
def allocate (config : SlotConfig) (layer seqId : ℕ) (size : ℤ) : Routine LayerTensors (List ℕ) :=
  (parts layout).on layer (LayerSlots.allocate config.maxModelLen seqId size none)

/-- `_allocate_batch`. -/
def allocateBatch (config : SlotConfig) (layer : ℕ) (seqIds : List ℕ) : Routine LayerTensors (List ℕ) :=
  (parts layout).on layer (LayerSlots.allocateBatch config.maxModelLen seqIds none)

/-! ## Batches over all layers -/

/-- `tensor[rows[:, None], columns] = values` for a block of values behind every
row's length. -/
def writeBlocks (table : ℕ → ℕ → ℕ) (entries : List ((ℕ × ℕ) × List ℕ)) : ℕ → ℕ → ℕ :=
  entries.foldl (fun table entry =>
    Function.update table entry.1.1 (write (table entry.1.1) entry.1.2 entry.2)) table

/-- `selected_slots` of a KV layer when the stack pointers are equal: a slice of
the stack, viewed as blocks and flipped. -/
def flippedSlots (stack : ℕ → ℕ) (ptr batchSize chunkSize : ℕ) : List (List ℕ) :=
  let slice := read stack (ptr - batchSize * chunkSize) (batchSize * chunkSize)
  ((List.range batchSize).map fun index => (slice.drop (index * chunkSize)).take chunkSize).reverse

/-- `selected_slots` of a KV layer when they are not: the slots at computed
offsets. -/
def offsetSlots (stack : ℕ → ℕ) (ptr batchSize chunkSize : ℕ) : List (List ℕ) :=
  (List.range batchSize).map fun index => (List.range chunkSize).map fun token =>
    stack (ptr - batchSize * chunkSize + (batchSize - 1 - index) * chunkSize + token)

/-- What a batched prefill writes, KV layer by KV layer and then layer by
layer. -/
def writePrefill (kvLayers layers : List ℕ) (entries : List (List (ℕ × ℕ))) (selected : List (List (List ℕ)))
    (totalSize chunkSize : ℕ) (tensors : LayerTensors) : LayerTensors :=
  let tensors := (kvLayers.zip (entries.zip selected)).foldl (fun (tensors : LayerTensors) item =>
    { tensors with
      reqToTokenSlotsTensor := Function.update tensors.reqToTokenSlotsTensor item.1
        (writeBlocks (tensors.reqToTokenSlotsTensor item.1) (item.2.1.zip item.2.2)) }) tensors
  (layers.zip entries).foldl (fun (tensors : LayerTensors) item =>
    let rows := item.2.map Prod.fst
    { tensors with
      numFreeSlots :=
        Function.update tensors.numFreeSlots item.1 (tensors.numFreeSlots item.1 - totalSize)
      rowSeqLens := Function.update tensors.rowSeqLens item.1 fun row =>
        if row ∈ rows then tensors.rowSeqLens item.1 row + chunkSize else tensors.rowSeqLens item.1 row })
    tensors

/-- `_allocate_prefill_batch_same_size_all_layers`, with the rows of
`layers_slot_mapping`: the mapping after the call, or `none` for `False`. -/
def allocatePrefillBatchSameSizeAllLayers {Id : Type} (config : SlotConfig) (seqs : List (ChainSequence Id))
    (layersSlotMapping : ℕ → ℕ → ℕ) : Routine LayerTensors (Option (ℕ → ℕ → ℕ)) := do
  let tensors ← Routine.read
  match tensors.freeSlotsStackTensor, seqs.head? with
  | some stackRows, some firstSeq =>
      let chunkSize := firstSeq.chunkSize
      if chunkSize ≤ 0 ∨ (seqs.any fun seq => decide (seq.chunkSize ≠ chunkSize)) = true then return none
      else
        let totalSize := seqs.length * chunkSize.toNat
        match layout.layerIds.head? with
        | none => return none
        | some firstLayer => do
            raiseIf (layout.layerIds.any fun layer => decide (tensors.numFreeSlots layer < totalSize))
              (.runtimeError "Out of KV cache slots in batched prefill allocation")
            let entries ← mapEach (fun layer =>
              (parts layout).on layer (mapEach (SlotTables.prefillRow config chunkSize) seqs)) layout.layerIds
            let kvLayers ← ofExcept (layout.layerIds.mapM layout.kvLayerIndex)
            let tensors ← Routine.read
            let ptr := tensors.numFreeSlots firstLayer
            let selected :=
              if (layout.layerIds.all fun layer => decide (tensors.numFreeSlots layer = ptr)) = true then
                kvLayers.map fun kvLayer =>
                  flippedSlots (stackRows kvLayer) ptr seqs.length chunkSize.toNat
              else
                (kvLayers.zip layout.layerIds).map fun item =>
                  offsetSlots (stackRows item.1) (tensors.numFreeSlots item.2) seqs.length chunkSize.toNat
            Routine.write
              (writePrefill kvLayers layout.layerIds entries selected totalSize chunkSize.toNat)
            return some ((layout.layerIds.zip selected).foldl (fun mapping item =>
              Function.update mapping item.1 (write (mapping item.1) 0 item.2.flatten)) layersSlotMapping)
  | _, _ => return none

/-- What `_allocate_decode_batch_all_layers` returns. -/
structure DecodeBatch where
  /-- `selected_slots`, by layer and column. -/
  selectedSlots : ℕ → ℕ → ℤ
  /-- `next_lens`, by layer. -/
  nextLens : ℕ → List ℕ
  /-- `row_indices`, by layer. -/
  rowIndices : ℕ → List ℕ
  wroteSlotOutput : Bool

/-- The slots that a decode step selects, by listed layer: from the tensor over
the stacks, or stack by stack. -/
def activeSlots (kvLayers : List ℕ) (batchSize : ℕ) (tensors : LayerTensors) : List (List ℕ) :=
  match tensors.freeSlotsStackTensor with
  | some stackRows => (kvLayers.zip layout.layerIds).map fun item =>
      (List.range batchSize).map fun index => stackRows item.1 (tensors.numFreeSlots item.2 - batchSize + index)
  | none => layout.layerIds.map fun layer =>
      read (freeSlotsStack layout tensors layer) (tensors.numFreeSlots layer - batchSize) batchSize

/-- `output[layers, :count] = values`. -/
def writeSelected (output : ℕ → ℕ → ℤ) (items : List (ℕ × List ℕ)) : ℕ → ℕ → ℤ :=
  items.foldl (fun output item =>
    Function.update output item.1 (write (output item.1) 0 (item.2.map Nat.cast))) output

/-- What a batched decode step writes. -/
def writeDecode (kvLayers layers : List ℕ) (rows curLens : List (List ℕ)) (selected : List (List ℕ))
    (tensors : LayerTensors) : LayerTensors :=
  let tensors := (kvLayers.zip (rows.zip (curLens.zip selected))).foldl (fun (tensors : LayerTensors) item =>
    { tensors with
      reqToTokenSlotsTensor := Function.update tensors.reqToTokenSlotsTensor item.1
        (LayerSlots.scatter (tensors.reqToTokenSlotsTensor item.1) item.2.1 item.2.2.1 item.2.2.2) }) tensors
  (layers.zip rows).foldl (fun (tensors : LayerTensors) item =>
    { tensors with
      rowSeqLens := Function.update tensors.rowSeqLens item.1 fun row =>
        if row ∈ item.2 then tensors.rowSeqLens item.1 row + 1 else tensors.rowSeqLens item.1 row })
    tensors

/-- `self._num_free_slots[layer] -= count`, for every layer. -/
def lowerStacks (layers : List ℕ) (count : ℕ) (tensors : LayerTensors) : LayerTensors :=
  layers.foldl (fun (tensors : LayerTensors) layer =>
    { tensors with
      numFreeSlots := Function.update tensors.numFreeSlots layer (tensors.numFreeSlots layer - count) })
    tensors

/-- `_allocate_decode_batch_all_layers`. -/
def allocateDecodeBatchAllLayers (config : SlotConfig) (seqIds : List ℕ) (staticCap : Option ℕ)
    (slotOutput : Option (ℕ → ℕ → ℤ)) : Routine LayerTensors DecodeBatch := do
  let rows ← mapEach (fun layer =>
    (parts layout).on layer (mapEach LayerSlots.getFreeRow seqIds)) layout.layerIds
  let tensors ← Routine.read
  let curLens := (layout.layerIds.zip rows).map fun item => item.2.map (tensors.rowSeqLens item.1)
  raiseIf (config.maxModelLen < curLens.flatten.max?.getD 0 + 1)
    (.runtimeError "KV row length exceeds max_model_len in batched static decode allocation")
  raiseIf (curLens.flatten.any fun length => staticCap.any fun cap => decide (cap < length + 1))
    (.runtimeError "static decode context length exceeds captured graph max_context_len")
  raiseIf (layout.layerIds = []) (.valueError "min() arg is an empty sequence")
  raiseIf (layout.layerIds.any fun layer => decide (tensors.numFreeSlots layer < seqIds.length))
    (.runtimeError "Out of KV cache slots in batched static decode allocation")
  let kvLayers ← ofExcept (layout.layerIds.mapM layout.kvLayerIndex)
  let output := slotOutput.getD fun _ _ => -1
  let selectedSlots :=
    writeSelected output (layout.layerIds.zip (activeSlots layout kvLayers seqIds.length tensors))
  Routine.write (lowerStacks layout.layerIds seqIds.length)
  let selected := layout.layerIds.map fun layer =>
    (read (selectedSlots layer) 0 seqIds.length).map Int.toNat
  Routine.write (writeDecode kvLayers layout.layerIds rows curLens selected)
  return ⟨selectedSlots,
    fun layer => ((layout.layerIds.zip curLens).lookup layer).elim
      (List.replicate seqIds.length 1) (List.map (· + 1)),
    fun layer => ((layout.layerIds.zip rows).lookup layer).getD (List.replicate seqIds.length 0),
    slotOutput.isSome⟩

end LayerTensors
