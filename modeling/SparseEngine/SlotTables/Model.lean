import SparseEngine.Lib.Cells
import SparseEngine.Lib.Loops
import SparseEngine.PrefillScoring.Model

/-!
# Slot tables

`SnapKVCacheManager` gives every KV layer a stack of free slots and a table
with one row of slots for each resident sequence.  `StreamingLLMCacheManager`
and `RKVCacheManager` inherit both; what `RKVCacheManager` adds is a query
cache, which is left out.

Layers are KV layer indices, so that a layer of the model is one for which
`is_full_attention_layer` holds.  A tensor is a function on its indices, and
its bounds are checked where the code leaves the check to the tensor library.
KV tensors, input tokens, positions and the padding of a graph batch are left
out, and so is the buffer that holds the chunks of an offloaded prompt.  A
call returns the slots, lengths and rows that it publishes for each layer.
-/

/-- `config.num_kvcache_slots`. -/
inductive NumKvCacheSlots where
  /-- One number for all layers, and a stack tensor over them. -/
  | uniform (numSlots : ℕ)
  /-- A list, with the ratios of PyramidKV. -/
  | byLayer (numSlots : ℕ → ℕ)

/-- What the manager is configured with. -/
structure SlotConfig where
  numLayers : ℕ
  numKvLayers : ℕ
  numKvCacheSlots : NumKvCacheSlots
  maxBufferRows : ℕ
  maxModelLen : ℕ
  /-- `_sparse_eviction_never_triggers`, or the class is `StreamingLLMCacheManager`. -/
  startsUniform : Bool
  /-- `_decode_graph_metadata_always_uniform`. -/
  alwaysUniform : Bool
  /-- The class is `StreamingLLMCacheManager`. -/
  streaming : Bool
  validateRuntimeInvariants : Bool
  /-- `_page_table_compaction_tile_elements`. -/
  compactionTileElements : ℕ
  pyramidkvPrefillStagingNumSlots : ℤ

/-- `free_slots_stack_tensor is not None`. -/
def SlotConfig.stackTensor (config : SlotConfig) : Bool :=
  match config.numKvCacheSlots with
  | .uniform _ => true
  | .byLayer _ => false

/-- `layer_num_slots`. -/
def SlotConfig.layerNumSlots (config : SlotConfig) (layer : ℕ) : ℕ :=
  match config.numKvCacheSlots with
  | .uniform numSlots => numSlots
  | .byLayer numSlots => numSlots layer

/-- One layer: its stack, its table, and its rows. -/
structure LayerSlots where
  freeSlotsStack : ℕ → ℕ
  numFreeSlots : ℕ
  /-- `buffer_req_to_token_slots`, by row and column. -/
  reqToTokenSlots : ℕ → ℕ → ℕ
  seqIdToRow : Dict ℕ ℕ
  freeRows : List ℕ
  rowSeqLens : ℕ → ℕ

/-- What a step publishes for one layer. -/
structure LayerStep where
  slotMapping : List ℕ
  contextLens : List ℕ
  reqIndices : List ℕ
  deriving DecidableEq

/-- An index that a tensor does not have. -/
def indexError : PyError := .defined "IndexError" "index is out of bounds" none

/-- `assert` that fails. -/
def assertionError : PyError := .defined "AssertionError" "" none

namespace LayerSlots

open Routine Cells

/-- A layer of a fresh manager. -/
def fresh (numSlots maxBufferRows : ℕ) : LayerSlots where
  freeSlotsStack := id
  numFreeSlots := numSlots
  reqToTokenSlots _ _ := 0
  seqIdToRow := .empty
  freeRows := List.range maxBufferRows
  rowSeqLens _ := 0

/-- The slots of a row. -/
def rowSlots (slots : LayerSlots) (row : ℕ) : List ℕ :=
  read (slots.reqToTokenSlots row) 0 (slots.rowSeqLens row)

/-- The slots on the stack. -/
def freeSlots (slots : LayerSlots) : List ℕ := read slots.freeSlotsStack 0 slots.numFreeSlots

/-- A write to a row from a column on. -/
def writeRow (row column : ℕ) (values : List ℕ) (slots : LayerSlots) : LayerSlots :=
  { slots with reqToTokenSlots :=
      Function.update slots.reqToTokenSlots row (write (slots.reqToTokenSlots row) column values) }

/-- A write to several rows, one after the other. -/
def writeRows (entries : List ((ℕ × ℕ) × List ℕ)) (slots : LayerSlots) : LayerSlots :=
  entries.foldl (fun slots entry => slots.writeRow entry.1.1 entry.1.2 entry.2) slots

/-- `row_seq_lens[row] = length`. -/
def setLen (row length : ℕ) (slots : LayerSlots) : LayerSlots :=
  { slots with rowSeqLens := Function.update slots.rowSeqLens row length }

/-- `row_seq_lens[rows] += count`. -/
def addLens (rows : List ℕ) (count : ℕ) (slots : LayerSlots) : LayerSlots :=
  { slots with rowSeqLens := fun row =>
      if row ∈ rows then slots.rowSeqLens row + count else slots.rowSeqLens row }

/-- `_num_free_slots -= count`. -/
def lowerStack (count : ℕ) (slots : LayerSlots) : LayerSlots :=
  { slots with numFreeSlots := slots.numFreeSlots - count }

/-- The topmost `count` slots of the stack. -/
def topSlots (slots : LayerSlots) (count : ℕ) : List ℕ :=
  read slots.freeSlotsStack (slots.numFreeSlots - count) count

/-- `_append_compaction_free_slots`, and the other writes behind the top of the
stack. -/
def pushSlots (released : List ℕ) (slots : LayerSlots) : LayerSlots :=
  { slots with
    freeSlotsStack := write slots.freeSlotsStack slots.numFreeSlots released
    numFreeSlots := slots.numFreeSlots + released.length }

/-- `table[rows, columns] = values`. -/
def scatter (table : ℕ → ℕ → ℕ) : List ℕ → List ℕ → List ℕ → ℕ → ℕ → ℕ
  | row :: rows, column :: columns, value :: values =>
      scatter (Function.update table row (Function.update (table row) column value)) rows columns
        values
  | _, _, _ => table

/-- `buffer_req_to_token_slots[rows, columns] = values`. -/
def scatterSlots (rows columns values : List ℕ) (slots : LayerSlots) : LayerSlots :=
  { slots with reqToTokenSlots := scatter slots.reqToTokenSlots rows columns values }

/-! ## Rows and slots of one layer -/

/-- `_get_free_row`. -/
def getFreeRow (seqId : ℕ) : Routine LayerSlots ℕ := do
  let slots ← Routine.read
  match slots.seqIdToRow.get? seqId with
  | some row => return row
  | none =>
      match slots.freeRows with
      | [] => raise (.runtimeError "No free rows in cache manager buffer!")
      | row :: freeRows => do
          Routine.write fun slots =>
            { slots with freeRows := freeRows, seqIdToRow := slots.seqIdToRow.set seqId row }
          return row

/-- The row of a resident sequence. -/
def rowOf (slots : LayerSlots) (seqId : ℕ) : Except PyError ℕ :=
  match slots.seqIdToRow.get? seqId with
  | some row => .ok row
  | none => .error (.keyError "seq_id")

/-- `cur_len` of a sequence with or without a row. -/
def currentLen (slots : LayerSlots) (seqId : ℕ) : ℕ :=
  match slots.seqIdToRow.get? seqId with
  | some row => slots.rowSeqLens row
  | none => 0

/-- The handler of `_allocate`. -/
def undoAllocate (seqId row curLen ptr : ℕ) (isNew : Bool) (slots : LayerSlots) : LayerSlots :=
  let slots := { slots with numFreeSlots := ptr }.setLen row curLen
  if isNew then
    { slots with seqIdToRow := slots.seqIdToRow.erase seqId, freeRows := row :: slots.freeRows }
  else slots

/-- `_allocate`.  `fault` is an exception of the device while the row is
written. -/
def allocate (maxModelLen seqId : ℕ) (size : ℤ) (fault : Option PyError) :
    Routine LayerSlots (List ℕ) := do
  raiseIf (size < 0) (.valueError "KV allocation size must be a non-negative integer.")
  let before ← Routine.read
  raiseIf (before.numFreeSlots < size) (.runtimeError "Out of KV cache slots")
  let curLen := before.currentLen seqId
  raiseIf (maxModelLen < curLen + size)
    (.runtimeError "KV row length exceeds max_model_len in _allocate")
  let row ← getFreeRow seqId
  let slots ← Routine.read
  let ptr := slots.numFreeSlots
  let selectIndex := slots.topSlots size.toNat
  onError
    (match fault with
      | some error => raise error
      | none => Routine.write fun slots =>
          lowerStack size.toNat ((slots.writeRow row curLen selectIndex).setLen row
            (curLen + size.toNat)))
    (Routine.write (undoAllocate seqId row curLen ptr (before.seqIdToRow.get? seqId).isNone))
  return selectIndex

/-- The new sequences of a batch. -/
def newSeqIds (slots : LayerSlots) (seqIds : List ℕ) : List ℕ :=
  (seqIds.filter fun seqId => (slots.seqIdToRow.get? seqId).isNone).eraseDups

/-- The handler of `_allocate_batch`. -/
def undoAllocateBatch (newSeqIds rows curLens : List ℕ) (ptr : ℕ) (slots : LayerSlots) :
    LayerSlots :=
  let slots := { slots with
    reqToTokenSlots := scatter slots.reqToTokenSlots rows curLens (rows.map fun _ => 0)
    rowSeqLens := (rows.zip curLens).foldl
      (fun lens (entry : ℕ × ℕ) => Function.update lens entry.1 entry.2)
      slots.rowSeqLens }
  let slots := newSeqIds.reverse.foldl (fun slots seqId =>
    { slots with
      seqIdToRow := slots.seqIdToRow.erase seqId
      freeRows := (slots.seqIdToRow.get? seqId).getD 0 :: slots.freeRows }) slots
  { slots with numFreeSlots := ptr }

/-- `_allocate_batch` with a size of one.  `fault` is an exception of the device
while the rows are written; whether they have been is `written`. -/
def allocateBatch (maxModelLen : ℕ) (seqIds : List ℕ) (fault : Option (PyError × Bool)) :
    Routine LayerSlots (List ℕ) := do
  let before ← Routine.read
  raiseIf (before.numFreeSlots < seqIds.length) assertionError
  let newIds := before.newSeqIds seqIds
  raiseIf (before.freeRows.length < newIds.length) (.runtimeError "No free rows for decode batch")
  raiseIf (seqIds.any fun seqId => (before.seqIdToRow.get? seqId).any fun row =>
      decide (maxModelLen < before.rowSeqLens row + 1))
    (.runtimeError "KV row length exceeds max_model_len in _allocate_batch.")
  let rows ← mapEach getFreeRow seqIds
  let slots ← Routine.read
  let curLens := rows.map slots.rowSeqLens
  let ptr := slots.numFreeSlots
  let selectIndices := slots.topSlots seqIds.length
  Routine.write (lowerStack seqIds.length)
  let body : Routine LayerSlots Unit :=
    match fault with
    | some (error, written) => do
        whenDo written (Routine.write (scatterSlots rows curLens selectIndices))
        raise error
    | none => do
        raiseIf (curLens.any fun length => decide (maxModelLen ≤ length)) indexError
        Routine.write fun slots => (slots.scatterSlots rows curLens selectIndices).addLens rows 1
  onError body (Routine.write (undoAllocateBatch newIds rows curLens ptr))
  return selectIndices

/-- A layer of the loop in `_prepare_decode`. -/
def prepareDecode (maxModelLen : ℕ) (seqIds : List ℕ) : Routine LayerSlots LayerStep := do
  let before ← Routine.read
  raiseIf (before.numFreeSlots < seqIds.length) assertionError
  let rows ← mapEach getFreeRow seqIds
  let slots ← Routine.read
  let curLens := rows.map slots.rowSeqLens
  let selectIndices := slots.topSlots seqIds.length
  Routine.write (lowerStack seqIds.length)
  raiseIf (curLens.any fun length => decide (maxModelLen ≤ length)) indexError
  Routine.write (scatterSlots rows curLens selectIndices)
  Routine.write (addLens rows 1)
  let slots ← Routine.read
  return ⟨selectIndices, rows.map slots.rowSeqLens, rows⟩

/-- A layer of the loop in `free_seq`. -/
def freeSeq (seqId : ℕ) : Routine LayerSlots Unit := do
  let slots ← Routine.read
  match slots.seqIdToRow.get? seqId with
  | none => return ()
  | some row =>
      Routine.write fun slots =>
        let slots := { slots with seqIdToRow := slots.seqIdToRow.erase seqId }
        let slots := slots.pushSlots (slots.rowSlots row)
        let slots := { slots with
          reqToTokenSlots := Function.update slots.reqToTokenSlots row fun _ => 0 }
        let slots := slots.setLen row 0
        { slots with freeRows := slots.freeRows ++ [row] }

end LayerSlots
