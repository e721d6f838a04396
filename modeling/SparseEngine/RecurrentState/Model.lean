import SparseEngine.Lib.Dict
import SparseEngine.Lib.Loops
import Mathlib.Algebra.GroupWithZero.Nat

/-!
# Recurrent state

`RecurrentStateManager` keeps, for each linear attention layer, one row of
each declared tensor for each resident sequence.  A prefix payload gives a
sequence its first state; with readiness events it is written layer by layer,
when a layer is read for the first time.

A tensor is a shape, a type, a device and its content.  The content of a row
is a value of `Data`, in which zero is what `zero_` writes.  Memory budgets,
byte counters and the buffers of a captured decode are left out.
-/

/-- `RecurrentTensorSpec`.  A type is a number. -/
structure RecurrentTensorSpec where
  name : String
  shape : List ℕ
  dtype : ℕ

/-- `RecurrentStateSpec`, which has names, and distinct ones. -/
structure RecurrentStateSpec where
  tensorSpecs : List RecurrentTensorSpec
  tensorSpecs_ne : tensorSpecs ≠ []
  names_nodup : (tensorSpecs.map RecurrentTensorSpec.name).Nodup

/-- `state_names`. -/
def RecurrentStateSpec.stateNames (spec : RecurrentStateSpec) : List String :=
  spec.tensorSpecs.map RecurrentTensorSpec.name

/-- A tensor of a layer state. -/
structure StateTensor (Data : Type) where
  shape : List ℕ
  dtype : ℕ
  device : ℕ
  data : Data

/-- The tensors of one layer, by name. -/
abbrev LayerState (Data : Type) := Dict String (StateTensor Data)

structure RecurrentPrefixPayload (Data : Type) where
  tokenCount : ℤ
  layerStates : Dict ℕ (LayerState Data)

/-- What a manager is configured with. -/
structure RecurrentConfig where
  rowCapacity : ℕ
  /-- `linear_attention_layer_indices`, which are the layers with buffers. -/
  linearLayers : List ℕ
  layers_nodup : linearLayers.Nodup
  stateSpec : RecurrentStateSpec
  device : ℕ
  prefixCacheBlockSize : ℤ

structure RecurrentStateManager (Data : Type) where
  seqIdToRow : Dict ℕ ℕ
  rowToSeqId : List (Option ℕ)
  freeRows : List ℕ
  /-- `layer_buffers`, by layer, name and row. -/
  layerBuffers : ℕ → String → ℕ → Data
  pendingPrefixPayloads : Dict ℕ (RecurrentPrefixPayload Data × Dict ℕ ℕ)

namespace RecurrentConfig

variable {Data : Type} (config : RecurrentConfig)

/-- The tensors of a layer with the given content. -/
def layerState (content : String → Data) : LayerState Data where
  entries := config.stateSpec.tensorSpecs.map fun spec =>
    (spec.name, ⟨spec.shape, spec.dtype, config.device, content spec.name⟩)
  nodup_keys := by
    rw [List.map_map]
    exact config.stateSpec.names_nodup

/-- A state for each linear attention layer. -/
def allLayers (content : ℕ → String → Data) : Dict ℕ (LayerState Data) where
  entries := config.linearLayers.map fun layer => (layer, config.layerState (content layer))
  nodup_keys := by
    rw [List.map_map]
    exact (List.map_id config.linearLayers).symm ▸ config.layers_nodup

end RecurrentConfig

namespace RecurrentStateManager

open Routine

variable {Data : Type} [Zero Data] (config : RecurrentConfig)

/-- `__init__`. -/
def init : RecurrentStateManager Data where
  seqIdToRow := .empty
  rowToSeqId := List.replicate config.rowCapacity none
  freeRows := List.range config.rowCapacity
  layerBuffers _ _ _ := 0
  pendingPrefixPayloads := .empty

/-- `buffer[row].copy_(data)`. -/
def writeBuffer (layer : ℕ) (name : String) (row : ℕ) (data : Data)
    (manager : RecurrentStateManager Data) : RecurrentStateManager Data :=
  { manager with layerBuffers := fun layer' name' row' =>
      if layer' = layer ∧ name' = name ∧ row' = row then data
      else manager.layerBuffers layer' name' row' }

/-- `pending_prefix_payloads[seq_id] = (payload, readiness_events)`. -/
def setPending (seqId : ℕ) (payload : RecurrentPrefixPayload Data) (readinessEvents : Dict ℕ ℕ)
    (manager : RecurrentStateManager Data) : RecurrentStateManager Data :=
  { manager with
    pendingPrefixPayloads := manager.pendingPrefixPayloads.set seqId (payload, readinessEvents) }

/-- `pending_prefix_payloads.pop(seq_id, None)`. -/
def dropPending (seqId : ℕ) (manager : RecurrentStateManager Data) : RecurrentStateManager Data :=
  { manager with pendingPrefixPayloads := manager.pendingPrefixPayloads.erase seqId }

/-- `_allocate_row`. -/
def allocateRow (seqId : ℕ) : Routine (RecurrentStateManager Data) ℕ := do
  let manager ← Routine.read
  match manager.seqIdToRow.get? seqId with
  | some row => return row
  | none =>
      match manager.freeRows with
      | [] => raise (.runtimeError "Recurrent state row capacity exhausted")
      | row :: freeRows => do
          Routine.write fun manager =>
            { manager with
              freeRows := freeRows
              seqIdToRow := manager.seqIdToRow.set seqId row
              rowToSeqId := manager.rowToSeqId.set row (some seqId)
              layerBuffers := fun layer name row' =>
                if row' = row then 0 else manager.layerBuffers layer name row' }
          return row

/-- `_ensure_buffer`. -/
def ensureBuffer (layer : ℕ) (name : String) (value : StateTensor Data) :
    Routine (RecurrentStateManager Data) Unit := do
  raiseIf (layer ∉ config.linearLayers)
    (.runtimeError "Recurrent state was requested for undeclared layer_idx")
  match config.stateSpec.tensorSpecs.find? fun spec => spec.name = name with
  | none => raise (.runtimeError "Recurrent state was requested for undeclared tensor name")
  | some spec => do
      raiseIf (spec.shape ≠ value.shape)
        (.runtimeError "Recurrent state shape changed after row pool allocation")
      raiseIf (spec.dtype ≠ value.dtype ∨ config.device ≠ value.device)
        (.runtimeError "Recurrent state dtype/device changed after row pool allocation")

/-- `set_layer_state`. -/
def setLayerState (seqId layer : ℕ) (states : LayerState Data) :
    Routine (RecurrentStateManager Data) Unit := do
  raiseIf (layer ∉ config.linearLayers)
    (.runtimeError "layer is full_attention and has no recurrent state")
  raiseIf ((config.stateSpec.stateNames.filter fun name => name ∉ states.keys) ≠ [] ∨
      (states.keys.filter fun name => name ∉ config.stateSpec.stateNames) ≠ [])
    (.runtimeError "recurrent state schema mismatch")
  let row ← allocateRow seqId
  forEach (fun entry => do
    ensureBuffer config layer entry.1 entry.2
    Routine.write (writeBuffer layer entry.1 row entry.2.data)) states.entries

/-- `prepare_step`. -/
def prepareStep (seqIds : List ℕ) : Routine (RecurrentStateManager Data) Unit :=
  forEach (fun seqId => do
    let _ ← allocateRow seqId) seqIds

/-- `free_seq`. -/
def freeSeq (seqId : ℕ) : Routine (RecurrentStateManager Data) Unit := do
  Routine.write (dropPending seqId)
  let manager ← Routine.read
  match manager.seqIdToRow.get? seqId with
  | none => return ()
  | some row => do
      Routine.write fun manager => { manager with seqIdToRow := manager.seqIdToRow.erase seqId }
      raiseIf (manager.rowToSeqId[row]? ≠ some (some seqId))
        (.runtimeError "Recurrent state row ownership is inconsistent")
      Routine.write fun manager =>
        { manager with
          rowToSeqId := manager.rowToSeqId.set row none
          freeRows := manager.freeRows ++ [row] }

/-- `reset_after_warmup`. -/
def resetAfterWarmup : Routine (RecurrentStateManager Data) Unit :=
  Routine.write fun _ => init config

/-- `_materialize_pending_prefix_layer`.  `capturing` is
`device_runtime.is_stream_capturing()`. -/
def materializePendingPrefixLayer (capturing : Bool) (seqId layer : ℕ) :
    Routine (RecurrentStateManager Data) Unit := do
  let manager ← Routine.read
  match manager.pendingPrefixPayloads.get? seqId with
  | none => return ()
  | some (payload, readinessEvents) =>
      match payload.layerStates.get? layer with
      | none => return ()
      | some state =>
          match readinessEvents.get? layer with
          | none => raise (.runtimeError "Recurrent prefix layer is missing its H2D readiness event.")
          | some _ => do
              let readinessEvents := readinessEvents.erase layer
              Routine.write (setPending seqId payload readinessEvents)
              raiseIf (capturing = true) (.runtimeError
                "Recurrent prefix H2D readiness waits are forbidden during graph capture.")
              setLayerState config seqId layer state
              whenDo (readinessEvents.keys = []) (Routine.write (dropPending seqId))

/-- `get_layer_state`. -/
def getLayerState (capturing : Bool) (seqId layer : ℕ) :
    Routine (RecurrentStateManager Data) (Option (LayerState Data)) := do
  materializePendingPrefixLayer config capturing seqId layer
  let manager ← Routine.read
  match manager.seqIdToRow.get? seqId with
  | none => return none
  | some row =>
      if layer ∉ config.linearLayers ∨ config.stateSpec.tensorSpecs = [] then return none
      else return some (config.layerState fun name => manager.layerBuffers layer name row)

/-- `build_prefix_recurrent_payload`. -/
def buildPrefixRecurrentPayload (seqId : ℕ) (tokenCount : ℤ) :
    Routine (RecurrentStateManager Data) (RecurrentPrefixPayload Data) := do
  raiseIf (tokenCount ≤ 0) (.valueError "token_count must be > 0")
  raiseIf (0 < config.prefixCacheBlockSize ∧ tokenCount % config.prefixCacheBlockSize ≠ 0)
    (.valueError "Recurrent prefix snapshots are only valid at prefix block boundaries")
  let manager ← Routine.read
  match manager.seqIdToRow.get? seqId with
  | none => raise (.runtimeError "Cannot snapshot recurrent state for unknown seq_id")
  | some row =>
      return ⟨tokenCount, config.allLayers fun layer name => manager.layerBuffers layer name row⟩

/-- `attach_prefix_recurrent_payload`. -/
def attachPrefixRecurrentPayload (seqId : ℕ) (payload : Option (RecurrentPrefixPayload Data))
    (readinessEvents : Option (Dict ℕ ℕ)) : Routine (RecurrentStateManager Data) Unit :=
  match payload with
  | none => return ()
  | some payload => do
      raiseIf (payload.tokenCount ≤ 0)
        (.runtimeError "Invalid recurrent prefix payload token_count")
      raiseIf (0 < config.prefixCacheBlockSize ∧
          payload.tokenCount % config.prefixCacheBlockSize ≠ 0)
        (.runtimeError "Cannot attach recurrent prefix payload from a non-boundary snapshot")
      match readinessEvents with
      | some readinessEvents => do
          raiseIf (¬ (readinessEvents.keys ⊆ payload.layerStates.keys ∧
              payload.layerStates.keys ⊆ readinessEvents.keys))
            (.runtimeError "Recurrent prefix readiness events do not match payload layers")
          let _ ← allocateRow seqId
          Routine.write (setPending seqId payload readinessEvents)
      | none =>
          forEach (fun entry => setLayerState config seqId entry.1 entry.2) payload.layerStates.entries

end RecurrentStateManager
