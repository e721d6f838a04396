import SparseEngine.Lib.Cells
import SparseEngine.Lib.Dict
import SparseEngine.Lib.Routine
import Mathlib.Data.List.Sort

/-!
# The raw KV offload buffer

`RawKVOffloadBuffer` of `raw_kv_offload.py`: host memory for the raw KV of a
prompt, one entry a layer, row and kind.  A contiguous entry is one array as
long as the prompt.  A chunked entry keeps every put as a chunk of its own, by
its start, and a read walks the chunks in that order with a cursor.

A tensor is the list of its rows with the rest of its shape, and an array of
the buffer is a function on row numbers.  The pool hands out memory with
contents of its own.  What `to(dtype)` does to a row is a parameter.  The
producer events order the device copies and are left out, and so is pinning.
-/

/-- `mode` of the buffer. -/
inductive RawKVMode where
  | contiguous
  | chunked
  deriving DecidableEq

/-- A tensor that is put: its rows, and `shape[1:]`. -/
structure RowTensor (α : Type) where
  rows : List α
  tail : List ℕ

/-- A tensor that is copied to: its rows, `shape[0]` and `shape[1:]`. -/
structure RowTarget (α : Type) where
  rows : ℕ → α
  length : ℕ
  tail : List ℕ

/-- `target[start : start + len(rows)].copy_(rows)`. -/
def RowTarget.copy {α : Type} (target : RowTarget α) (start : ℕ) (rows : List α) : RowTarget α :=
  { target with rows := Cells.write target.rows start rows }

/-- A chunk: the rows of `k_cpu` and of `v_cpu`. -/
structure RawKVChunk (K V : Type) where
  k : List K
  v : List V

/-- `_RawKVEntry`. -/
structure RawKVEntry (Dtype K V : Type) where
  k : Option (ℕ → K)
  v : Option (ℕ → V)
  filledUntil : ℕ
  capacity : ℕ
  kShapeTail : List ℕ
  vShapeTail : List ℕ
  dtype : Dtype
  chunks : Option (Dict ℕ (RawKVChunk K V))

/-- The key of an entry. -/
structure RawKVKey where
  layerIdx : ℤ
  rowIdx : ℤ
  kind : String
  deriving DecidableEq

/-- `f"{key}"`. -/
def RawKVKey.text (key : RawKVKey) : String := s!"({key.layerIdx}, {key.rowIdx}, '{key.kind}')"

/-- `f"{shape}"` of a tuple of sizes. -/
def shapeText : List ℕ → String
  | [] => "()"
  | [size] => s!"({size},)"
  | sizes => "(" ++ ", ".intercalate (sizes.map fun size => s!"{size}") ++ ")"

/-- What `to(dtype)` does to a row of `k` and of `v`. -/
structure RowConversion (Dtype K V : Type) where
  k : Dtype → K → K
  v : Dtype → V → V

/-- The two tensors that a prefix is copied to. -/
structure PrefixTargets (K V : Type) where
  kOut : RowTarget K
  vOut : RowTarget V

/-- `RawKVOffloadBuffer`. -/
structure RawKVOffloadBuffer (Dtype K V : Type) where
  mode : RawKVMode
  entries : RawKVKey → Option (RawKVEntry Dtype K V)

variable {Dtype K V : Type}

namespace RawKVEntry

/-- `entry.chunks[start] = (k_cpu, v_cpu)` or the copy into the array, with the
new `filled_until`. -/
def store (convert : RowConversion Dtype K V) (key : RawKVKey) (start : ℤ) (k : RowTensor K) (v : RowTensor V)
    (entry : RawKVEntry Dtype K V) : Except PyError (RawKVEntry Dtype K V) :=
  let stop := (start + k.rows.length).toNat
  let kRows := k.rows.map (convert.k entry.dtype)
  let vRows := v.rows.map (convert.v entry.dtype)
  match entry.chunks with
  | some chunks =>
      if (entry.filledUntil : ℤ) < start then
        .error (.runtimeError ("RawKVOffloadBuffer chunked put_range cannot leave a gap: " ++
          s!"key={key.text} start={start} filled_until={entry.filledUntil}."))
      else
        .ok { entry with
          chunks := some (chunks.set start.toNat ⟨kRows, vRows⟩)
          filledUntil := max entry.filledUntil stop }
  | none =>
      match entry.k, entry.v with
      | some kArray, some vArray =>
          .ok { entry with
            k := some (Cells.write kArray start.toNat kRows)
            v := some (Cells.write vArray start.toNat vRows)
            filledUntil := max entry.filledUntil stop }
      | _, _ => .error (.runtimeError
          s!"RawKVOffloadBuffer contiguous entry is missing tensors for key={key.text}.")

/-- The checks of `put_range`, then the store. -/
def putRange (convert : RowConversion Dtype K V) (key : RawKVKey) (start : ℤ) (k : RowTensor K) (v : RowTensor V)
    (entry : RawKVEntry Dtype K V) : Except PyError (RawKVEntry Dtype K V) :=
  let stop := start + k.rows.length
  if start < 0 ∨ (entry.capacity : ℤ) < stop ∨ v.rows.length ≠ k.rows.length then
    .error (.runtimeError ("RawKVOffloadBuffer put_range shape mismatch: " ++
      s!"key={key.text} start={start} end={stop} capacity={entry.capacity} " ++
      s!"k={shapeText (k.rows.length :: k.tail)} v={shapeText (v.rows.length :: v.tail)}."))
  else if k.tail ≠ entry.kShapeTail ∨ v.tail ≠ entry.vShapeTail then
    .error (.runtimeError ("RawKVOffloadBuffer put_range shape tail mismatch: " ++
      s!"key={key.text} k={shapeText (k.rows.length :: k.tail)} expected_tail={shapeText entry.kShapeTail} " ++
      s!"v={shapeText (v.rows.length :: v.tail)} expected_tail={shapeText entry.vShapeTail}."))
  else entry.store convert key start k v

open Routine

/-- The walk over the chunks, with its cursor. -/
def copyChunks (key : RawKVKey) (chunks : Dict ℕ (RawKVChunk K V)) (stop : ℕ) :
    List ℕ → ℕ → Routine (PrefixTargets K V) ℕ
  | [], cursor => pure cursor
  | chunkStart :: rest, cursor => do
      match chunks.get? chunkStart with
      | none => raise (.keyError s!"{chunkStart}")
      | some chunk => do
          let chunkEnd := chunkStart + chunk.k.length
          raiseIf (cursor < chunkStart) (.runtimeError
            ("RawKVOffloadBuffer chunked copy_prefix_to found a gap: " ++
              s!"key={key.text} cursor={cursor} next_start={chunkStart}."))
          if chunkEnd ≤ cursor then copyChunks key chunks stop rest cursor
          else
            let copyStart := max cursor chunkStart
            let copyEnd := min stop chunkEnd
            if copyStart < copyEnd then do
              let srcStart := copyStart - chunkStart
              let srcEnd := copyEnd - chunkStart
              write fun targets =>
                { kOut := targets.kOut.copy copyStart ((chunk.k.take srcEnd).drop srcStart)
                  vOut := targets.vOut.copy copyStart ((chunk.v.take srcEnd).drop srcStart) }
              if stop ≤ copyEnd then pure copyEnd else copyChunks key chunks stop rest copyEnd
            else if stop ≤ cursor then pure cursor
            else copyChunks key chunks stop rest cursor

/-- `copy_prefix_to` of an entry. -/
def copyPrefixTo (key : RawKVKey) (stop : ℤ) (entry : RawKVEntry Dtype K V) : Routine (PrefixTargets K V) Unit := do
  let targets ← read
  raiseIf (stop < 0 ∨ (entry.filledUntil : ℤ) < stop) (.runtimeError
    ("RawKVOffloadBuffer copy_prefix_to reads an unwritten range: " ++
      s!"key={key.text} end={stop} filled_until={entry.filledUntil}."))
  raiseIf ((targets.kOut.length : ℤ) < stop ∨ (targets.vOut.length : ℤ) < stop) (.runtimeError
    ("RawKVOffloadBuffer copy_prefix_to destination is too short: " ++
      s!"key={key.text} end={stop} k_out={shapeText (targets.kOut.length :: targets.kOut.tail)} " ++
      s!"v_out={shapeText (targets.vOut.length :: targets.vOut.tail)}."))
  raiseIf (targets.kOut.tail ≠ entry.kShapeTail ∨ targets.vOut.tail ≠ entry.vShapeTail) (.runtimeError
    ("RawKVOffloadBuffer copy_prefix_to destination tail mismatch: " ++
      s!"key={key.text} k_out={shapeText (targets.kOut.length :: targets.kOut.tail)} " ++
      s!"expected_k_tail={shapeText entry.kShapeTail} " ++
      s!"v_out={shapeText (targets.vOut.length :: targets.vOut.tail)} " ++
      s!"expected_v_tail={shapeText entry.vShapeTail}."))
  match entry.chunks with
  | some chunks => do
      let cursor ← copyChunks key chunks stop.toNat (chunks.keys.insertionSort (· ≤ ·)) 0
      raiseIf (cursor ≠ stop.toNat) (.runtimeError
        ("RawKVOffloadBuffer chunked copy_prefix_to did not fill requested prefix: " ++
          s!"key={key.text} cursor={cursor} end={stop}."))
  | none =>
      match entry.k, entry.v with
      | some kArray, some vArray =>
          write fun targets =>
            { kOut := targets.kOut.copy 0 (Cells.read kArray 0 stop.toNat)
              vOut := targets.vOut.copy 0 (Cells.read vArray 0 stop.toNat) }
      | _, _ => raise (.runtimeError
          s!"RawKVOffloadBuffer contiguous entry is missing tensors for key={key.text}.")

end RawKVEntry

namespace RawKVOffloadBuffer

/-- `RawKVOffloadBuffer.__init__`. -/
def new (mode : RawKVMode) : RawKVOffloadBuffer Dtype K V := ⟨mode, fun _ => none⟩

/-- `self._entries[key] = entry`. -/
def setEntry (key : RawKVKey) (entry : RawKVEntry Dtype K V) (buffer : RawKVOffloadBuffer Dtype K V) :
    RawKVOffloadBuffer Dtype K V :=
  { buffer with entries := fun other => if other = key then some entry else buffer.entries other }

/-- `ensure_entry`.  `memory` is what the pool's memory holds when it is handed
out. -/
def ensureEntry (key : RawKVKey) (totalLen : ℤ) (kShapeTail vShapeTail : List ℕ) (dtype : Dtype)
    (memory : (ℕ → K) × (ℕ → V)) : Routine (RawKVOffloadBuffer Dtype K V) Unit := fun buffer =>
  if totalLen < 0 then
    (.error (.valueError s!"RawKVOffloadBuffer total_len must be non-negative, got {totalLen}."), buffer)
  else
    match buffer.entries key with
    | some entry =>
        if (entry.capacity : ℤ) < totalLen then
          (.error (.runtimeError ("RawKVOffloadBuffer cannot grow an existing entry: " ++
            s!"key={key.text} existing={entry.capacity} requested={totalLen}.")), buffer)
        else if entry.kShapeTail ≠ kShapeTail ∨ entry.vShapeTail ≠ vShapeTail then
          (.error (.runtimeError ("RawKVOffloadBuffer existing entry shape tail mismatch: " ++
            s!"key={key.text} existing_k_tail={shapeText entry.kShapeTail} " ++
            s!"requested_k_tail={shapeText kShapeTail} existing_v_tail={shapeText entry.vShapeTail} " ++
            s!"requested_v_tail={shapeText vShapeTail}.")), buffer)
        else (.ok (), buffer)
    | none =>
        match buffer.mode with
        | .chunked => (.ok (), buffer.setEntry key
            { k := none, v := none, filledUntil := 0, capacity := totalLen.toNat, kShapeTail := kShapeTail,
              vShapeTail := vShapeTail, dtype := dtype, chunks := some Dict.empty })
        | .contiguous => (.ok (), buffer.setEntry key
            { k := some memory.1, v := some memory.2, filledUntil := 0, capacity := totalLen.toNat,
              kShapeTail := kShapeTail, vShapeTail := vShapeTail, dtype := dtype, chunks := none })

/-- `put_range`. -/
def putRange (convert : RowConversion Dtype K V) (key : RawKVKey) (start : ℤ) (k : RowTensor K) (v : RowTensor V) :
    Routine (RawKVOffloadBuffer Dtype K V) Unit := fun buffer =>
  match buffer.entries key with
  | none => (.error (.runtimeError s!"RawKVOffloadBuffer entry is missing for key={key.text}."), buffer)
  | some entry =>
      match entry.putRange convert key start k v with
      | .error error => (.error error, buffer)
      | .ok entry => (.ok (), buffer.setEntry key entry)

/-- `copy_prefix_to`. -/
def copyPrefixTo (buffer : RawKVOffloadBuffer Dtype K V) (key : RawKVKey) (stop : ℤ) :
    Routine (PrefixTargets K V) Unit :=
  match buffer.entries key with
  | none => Routine.raise (.runtimeError s!"RawKVOffloadBuffer entry is missing for key={key.text}.")
  | some entry => entry.copyPrefixTo key stop

/-- `release_layer`. -/
def releaseLayer (layerIdx rowIdx : ℤ) (kind : Option String) : Routine (RawKVOffloadBuffer Dtype K V) Unit :=
  Routine.write fun buffer => { buffer with
    entries := fun key =>
      if key.layerIdx = layerIdx ∧ key.rowIdx = rowIdx ∧ (kind = none ∨ kind = some key.kind) then none
      else buffer.entries key }

/-- `release_row`. -/
def releaseRow (rowIdx : ℤ) : Routine (RawKVOffloadBuffer Dtype K V) Unit :=
  Routine.write fun buffer => { buffer with
    entries := fun key => if key.rowIdx = rowIdx then none else buffer.entries key }

end RawKVOffloadBuffer
