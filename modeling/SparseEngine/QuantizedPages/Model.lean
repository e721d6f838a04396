import SparseEngine.Lib.Dict
import SparseEngine.Lib.Loops
import SparseEngine.Lib.Pages
import Mathlib.Algebra.GroupWithZero.Nat

/-!
# Pages of a quantized cache

`QuantizedPagePool` owns the pages, `QuantizedKVStorage` holds their codes and
a raw page for each row, and the kernels of `quantized_kv.py` write and read
them.

A value of `Vec` is the key and the value of one token at one layer, for all
heads.  A tensor is a function on its indices.  The codec is a function of the
vectors of one page: the heads and the tiles of a page, its scales and its
bits are inside it.
-/

/-- A call on whole pages that a sequence is grown by. -/
structure PageAppend where
  start : ℕ
  stop : ℕ
  pages : List ℕ
  deriving DecidableEq

structure QuantizedPagePool where
  pageSize : ℕ
  maxLength : ℕ
  free : List ℕ
  pages : Dict ℕ (List ℕ)
  lengths : Dict ℕ ℕ

namespace QuantizedPagePool

open Routine

/-- `__init__`. -/
def init (numPages pageSize maxLength : ℕ) : Except PyError QuantizedPagePool :=
  if min numPages (min pageSize maxLength) = 0 then
    .error (.valueError "Page capacity, size, and maximum length must be positive.")
  else
    .ok ⟨pageSize, maxLength, List.range numPages, .empty, .empty⟩

/-- `lengths.get(seq_id, 0)`. -/
def lengthOf (pool : QuantizedPagePool) (seqId : ℕ) : ℕ := (pool.lengths.get? seqId).getD 0

/-- `append_cost`. -/
def appendCost (pool : QuantizedPagePool) (seqId : ℕ) (count : ℤ) : Except PyError ℕ :=
  if count < 0 then .error (.valueError "Append token count cannot be negative.")
  else if pool.maxLength < pool.lengthOf seqId + count.toNat then
    .error (.valueError "Append exceeds max_model_len.")
  else
    .ok (Pages.count pool.pageSize (pool.lengthOf seqId + count.toNat) -
      Pages.count pool.pageSize (pool.lengthOf seqId))

/-- What `append` leaves: the topmost `needed` pages of `free` are the
sequence's. -/
def grown (pool : QuantizedPagePool) (seqId needed count : ℕ) : QuantizedPagePool :=
  { pool with
    free := pool.free.take (pool.free.length - needed)
    pages := pool.pages.set seqId
      ((pool.pages.get? seqId).getD [] ++ pool.free.drop (pool.free.length - needed))
    lengths := pool.lengths.set seqId (pool.lengthOf seqId + count) }

/-- `append`. -/
def append (seqId : ℕ) (count : ℤ) : Routine QuantizedPagePool PageAppend := do
  let pool ← Routine.read
  let needed ← ofExcept (pool.appendCost seqId count)
  raiseIf (pool.free.length < needed) (.runtimeError "Out of quantized KV pages")
  let start := pool.lengthOf seqId
  let stop := start + count.toNat
  Routine.write fun pool => pool.grown seqId needed count.toNat
  let pool ← Routine.read
  let pages := (pool.pages.get? seqId).getD []
  let firstPage := start / pool.pageSize
  let lastPage := Pages.count pool.pageSize stop
  let touchedPages := if count = 0 then [] else (pages.drop firstPage).take (lastPage - firstPage)
  return ⟨start, stop, touchedPages⟩

/-- `release`. -/
def release (seqId : ℕ) : Routine QuantizedPagePool Unit := do
  let pool ← Routine.read
  match pool.pages.get? seqId with
  | none => raise (.valueError "Unknown quantized cache sequence")
  | some pages => Routine.write fun pool =>
      { pool with
        free := pool.free ++ pages
        pages := pool.pages.erase seqId
        lengths := pool.lengths.erase seqId }

end QuantizedPagePool

/-! ## Storage and kernels -/

/-- What a manager is configured with.  `encode` is `_encode_vectors` on a whole
page; `rotation` is there for `turboquant`, and rounds to the type of the
cache. -/
structure QuantizedConfig (Vec Code : Type) where
  numPages : ℕ
  pageSize : ℕ
  maxModelLen : ℕ
  maxBufferRows : ℕ
  numKvLayers : ℕ
  encode : List Vec → Code
  rotation : Option (Vec → Vec)

/-- A layer of `QuantizedKVStorage`: a code for each page and `page_size` raw
vectors for each row. -/
structure QuantizedKVLayer (Vec Code : Type) where
  data : ℕ → Code
  raw : ℕ → ℕ → Vec

/-- A vector as a kernel loads it. -/
inductive LoadedVector (Vec Code : Type) where
  /-- The vector at an offset of a page, dequantized. -/
  | packed (code : Code) (offset : ℕ)
  /-- An unquantized vector. -/
  | raw (vector : Vec)

/-- An entry of `_write_plan`. -/
structure WriteEntry where
  row : ℕ
  start : ℕ
  stop : ℕ
  offset : ℕ
  pageIds : List ℕ
  deriving DecidableEq

/-- A request of a decode batch, as the kernel sees it. -/
structure AppendEntry (Vec : Type) where
  key : Vec
  row : ℕ
  stop : ℕ
  /-- Its write slot. -/
  write : ℤ

section

variable {Vec Code : Type} (config : QuantizedConfig Vec Code)

/-- `k @ layer.rotation`, where there is one. -/
def QuantizedConfig.rotate (vectors : List Vec) : List Vec :=
  match config.rotation with
  | some rotation => vectors.map rotation
  | none => vectors

namespace QuantizedKVLayer

open Routine

variable (layer : QuantizedKVLayer Vec Code)

/-- `raw_key[row, start:] = vectors`. -/
def writeRaw (row start : ℕ) (vectors : List Vec) : QuantizedKVLayer Vec Code :=
  { layer with raw := Function.update layer.raw row (Cells.write (layer.raw row) start vectors) }

/-- One program of `_decode_append`.  A padded request has a negative write
slot. -/
def appendToken (slots : ℕ → ℕ → ℕ) (entry : AppendEntry Vec) : QuantizedKVLayer Vec Code :=
  if entry.write < 0 then layer
  else if entry.stop % config.pageSize = 0 then
    let page := slots entry.row (entry.stop - config.pageSize) / config.pageSize
    let vectors := Cells.read (layer.raw entry.row) 0 (config.pageSize - 1) ++ [entry.key]
    { layer with data := Function.update layer.data page (config.encode vectors) }
  else
    let tail := Function.update (layer.raw entry.row) ((entry.stop - 1) % config.pageSize) entry.key
    { layer with raw := Function.update layer.raw entry.row tail }

/-- The requests of a batch. -/
def appendEntries (key : List Vec) (rows lengths : List ℕ) (writes : List ℤ) :
    List (AppendEntry Vec) :=
  (key.zip (rows.zip (lengths.zip writes))).map fun entry => ⟨entry.1, entry.2.1, entry.2.2.1, entry.2.2.2⟩

/-- `quantized_decode_append`. -/
def quantizedDecodeAppend (key : List Vec) (slots : ℕ → ℕ → ℕ) (rows lengths : List ℕ)
    (writes : List ℤ) : Routine (QuantizedKVLayer Vec Code) Unit := do
  raiseIf (key.length ≠ rows.length ∨ lengths.length ≠ rows.length)
    (.valueError "Quantized decode append requires one token and length per cache row.")
  raiseIf (writes.length ≠ rows.length)
    (.valueError "Quantized decode write slots must match request rows.")
  Routine.write fun layer =>
    (appendEntries key rows lengths writes).foldl (fun layer => layer.appendToken config slots) layer

/-- `encode_pages`. -/
def encodePages (key : List Vec) (pages : List ℕ) : Routine (QuantizedKVLayer Vec Code) Unit := do
  raiseIf (key.length ≠ pages.length * config.pageSize)
    (.valueError "Page codec input must contain exactly the requested complete pages.")
  Routine.write fun layer =>
    { layer with data := Pages.encodeAll config.encode config.pageSize key pages layer.data }

/-- `_load_vectors`, at one position of a row of the given length. -/
def loadVectors (slots : ℕ → ℕ → ℕ) (row position length : ℕ) : LoadedVector Vec Code :=
  let slot := slots row position
  if position < length / config.pageSize * config.pageSize then
    .packed (layer.data (slot / config.pageSize)) (slot % config.pageSize)
  else
    .raw (layer.raw row (position % config.pageSize))

/-- `materialize_sequence`. -/
def materializeSequence (slots : ℕ → ℕ → ℕ) (row length : ℕ) :
    Except PyError (List (LoadedVector Vec Code)) :=
  if config.maxModelLen < length ∨ config.maxBufferRows ≤ row then
    .error (.valueError "Materialization row/length exceeds the cache map.")
  else
    .ok ((List.range length).map fun position => layer.loadVectors config slots row position length)

/-- The last loop of `store_attention_payload`, for one entry of the plan. -/
def storeEntry (key : List Vec) (entry : WriteEntry) : Routine (QuantizedKVLayer Vec Code) Unit := do
  let layer ← Routine.read
  let chunk := (key.drop entry.offset).take (entry.stop - entry.start)
  let previous := entry.start % config.pageSize
  let current := if previous ≠ 0 then Cells.read (layer.raw entry.row) 0 previous ++ chunk else chunk
  let fullTokens := current.length / config.pageSize * config.pageSize
  whenDo (fullTokens ≠ 0) (encodePages config (current.take fullTokens) entry.pageIds)
  let residual := current.length - fullTokens
  whenDo (residual ≠ 0) (Routine.write fun layer => layer.writeRaw entry.row 0 (current.drop fullTokens))

end QuantizedKVLayer

end
