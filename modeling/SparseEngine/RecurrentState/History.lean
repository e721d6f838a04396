import Mathlib.Data.Finset.Prod
import SparseEngine.RecurrentState.Rows

/-!
# Runs of a recurrent state manager

A model step reads each linear attention layer of each sequence of its batch
once, and sets it at most once afterwards.  Sequences are freed at any time;
one that is freed during a step may still be read and set by the rest of it.

Beside the manager a run keeps what happened to each resident sequence since
its row was assigned.  From this the state that a sequence should have follows
without rows, buffers and pending payloads.
-/

/-- What happened to a sequence since its row was assigned. -/
structure SeqHistory (Data : Type) where
  /-- It was in the batch of a step. -/
  stepped : Bool
  attached : Option (RecurrentPrefixPayload Data)
  lastSet : ℕ → Option (LayerState Data)

namespace SeqHistory

variable {Data : Type}

/-- A row was assigned, and nothing else. -/
def fresh : SeqHistory Data := ⟨false, none, fun _ => none⟩

/-- The state last set for a layer, else that of the payload attached, else
zeros. -/
def value [Zero Data] (history : SeqHistory Data) (layer : ℕ) (name : String) : Data :=
  match history.lastSet layer with
  | some states => (RecurrentStateManager.contentOf states name).getD 0
  | none =>
      match history.attached.bind fun payload => payload.layerStates.get? layer with
      | some states => (RecurrentStateManager.contentOf states name).getD 0
      | none => 0

end SeqHistory

/-- A model step that is under way.  `live` are the sequences of its batch that
have not been freed. -/
structure ModelStep where
  batch : Finset ℕ
  live : Finset ℕ
  unread : Finset (ℕ × ℕ)
  settable : Finset (ℕ × ℕ)

/-- A manager, the histories of its resident sequences and the step under
way. -/
structure RecurrentRun (Data : Type) where
  manager : RecurrentStateManager Data
  history : ℕ → Option (SeqHistory Data)
  step : Option ModelStep

inductive RecurrentCall (Data : Type) where
  | prepare (seqIds : List ℕ)
  | attach (seqId : ℕ) (payload : Option (RecurrentPrefixPayload Data))
      (readinessEvents : Option (Dict ℕ ℕ))
  | read (capturing : Bool) (seqId layer : ℕ)
  | set (seqId layer : ℕ) (states : LayerState Data)
  | finish
  | free (seqId : ℕ)
  | reset
  | snapshot (seqId : ℕ) (tokenCount : ℤ)

/-- A payload of this model: declared layers with declared tensors. -/
structure RecurrentPrefixPayload.WellFormed {Data : Type} (config : RecurrentConfig)
    (payload : RecurrentPrefixPayload Data) : Prop where
  declared : ∀ layer ∈ payload.layerStates.keys, layer ∈ config.linearLayers
  wellTyped : ∀ {layer states}, payload.layerStates.get? layer = some states →
    RecurrentStateManager.WellTyped config states

namespace RecurrentCall

variable {Data : Type} [Zero Data] (config : RecurrentConfig)

/-- The call of the manager; `on_forward_end` does nothing. -/
def run : RecurrentCall Data → Routine (RecurrentStateManager Data) Unit
  | prepare seqIds => RecurrentStateManager.prepareStep seqIds
  | attach seqId payload readinessEvents =>
      RecurrentStateManager.attachPrefixRecurrentPayload config seqId payload readinessEvents
  | read capturing seqId layer => do
      let _ ← RecurrentStateManager.getLayerState config capturing seqId layer
  | set seqId layer states => RecurrentStateManager.setLayerState config seqId layer states
  | finish => return ()
  | free seqId => RecurrentStateManager.freeSeq seqId
  | reset => RecurrentStateManager.resetAfterWarmup config
  | snapshot seqId tokenCount => do
      let _ ← RecurrentStateManager.buildPrefixRecurrentPayload config seqId tokenCount

end RecurrentCall

namespace RecurrentRun

variable {Data : Type} (config : RecurrentConfig)

/-- What a call may be at this point of a run.  A payload is attached at most
once, before the first step of its sequence, and no layer with a pending payload
is read while a graph is captured. -/
def Proper (run : RecurrentRun Data) : RecurrentCall Data → Prop
  | .prepare _ => run.step = none
  | .attach seqId payload _ =>
      (∀ step, run.step = some step → seqId ∉ step.batch) ∧
      (∀ history, run.history seqId = some history →
        history.stepped = false ∧ history.attached = none) ∧
      ∀ attached, payload = some attached → attached.WellFormed config
  | .read capturing seqId layer =>
      (∃ step, run.step = some step ∧ (seqId, layer) ∈ step.unread) ∧
      (capturing = true → run.manager.pendingPrefixPayloads.get? seqId = none)
  | .set seqId layer states =>
      (∃ step, run.step = some step ∧ (seqId, layer) ∈ step.settable) ∧
      RecurrentStateManager.WellTyped config states
  | .finish => ∃ step, run.step = some step ∧ ∀ entry ∈ step.unread, entry.1 ∉ step.live
  | .free _ => True
  | .reset => True
  | .snapshot _ _ => run.step = none

/-- A history begins when a row is assigned. -/
def begun (manager : RecurrentStateManager Data) (history : ℕ → Option (SeqHistory Data))
    (seqId : ℕ) : Option (SeqHistory Data) :=
  match history seqId with
  | some known => some known
  | none => if (manager.seqIdToRow.get? seqId).isSome then some .fresh else none

/-- What a call adds to the histories. -/
def nextHistory (manager : RecurrentStateManager Data) (done : Bool)
    (history : ℕ → Option (SeqHistory Data)) :
    RecurrentCall Data → ℕ → Option (SeqHistory Data)
  | .prepare seqIds => fun seqId =>
      if done = true ∧ seqId ∈ seqIds then
        (begun manager history seqId).map fun known => { known with stepped := true }
      else begun manager history seqId
  | .attach seqId payload _ =>
      match done, payload with
      | true, some attached => Function.update (begun manager history) seqId
          ((begun manager history seqId).map fun known => { known with attached := some attached })
      | _, _ => begun manager history
  | .set seqId layer states =>
      if done = true then
        let known := (history seqId).getD { SeqHistory.fresh with stepped := true }
        Function.update history seqId
          (some { known with lastSet := Function.update known.lastSet layer (some states) })
      else history
  | .free seqId => Function.update history seqId none
  | .reset => fun _ => none
  | .read _ _ _ => history
  | .finish => history
  | .snapshot _ _ => history

/-- What a call does to the step under way. -/
def nextStep (done : Bool) (step : Option ModelStep) : RecurrentCall Data → Option ModelStep
  | .prepare seqIds =>
      if done = true then
        some ⟨seqIds.toFinset, seqIds.toFinset, seqIds.toFinset ×ˢ config.linearLayers.toFinset, ∅⟩
      else step
  | .read _ seqId layer => step.map fun step =>
      { step with unread := step.unread.erase (seqId, layer), settable := insert (seqId, layer) step.settable }
  | .set seqId layer _ => step.map fun step =>
      { step with settable := step.settable.erase (seqId, layer) }
  | .finish => none
  | .free seqId => step.map fun step => { step with live := step.live.erase seqId }
  | .reset => step.map fun step => { step with live := ∅ }
  | .attach _ _ _ => step
  | .snapshot _ _ => step

/-- Whether a call returned. -/
def returned {α : Type} : Except PyError α → Bool
  | .ok _ => true
  | .error _ => false

variable [Zero Data]

/-- A run after a call. -/
def next (run : RecurrentRun Data) (call : RecurrentCall Data) : RecurrentRun Data :=
  let outcome := call.run config run.manager
  ⟨outcome.2, nextHistory outcome.2 (returned outcome.1) run.history call,
    nextStep config (returned outcome.1) run.step call⟩

/-- The runs from a fresh manager. -/
inductive Reaches : RecurrentRun Data → Prop where
  | init : Reaches ⟨RecurrentStateManager.init config, fun _ => none, none⟩
  | call {run : RecurrentRun Data} (call : RecurrentCall Data) (hreach : Reaches run)
      (hproper : run.Proper config call) : Reaches (run.next config call)

end RecurrentRun
