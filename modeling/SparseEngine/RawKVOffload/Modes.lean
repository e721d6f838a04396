import SparseEngine.RawKVOffload.Reading

/-!
# Chunked and contiguous buffers under the same calls

Two buffers get the same calls, and every put is accepted by the chunked one.
Then both have the same entries, with the same `filled_until`, and the arrays
of the contiguous one hold the rows that were put last (`Paired`).  The
chunked one reads these rows exactly as long as its chunks hold them
(`Readable`), and a put keeps that exactly under the condition of
`Patches.Keeps`: the chunks are neither split nor merged, so an older chunk
that starts earlier hides the new rows, and a shorter chunk with the same
start drops the rest of the one it replaces.
-/

variable {Dtype K V : Type}

/-- A call on the buffer. -/
inductive RawKVCall (Dtype K V : Type) where
  | ensureEntry (key : RawKVKey) (totalLen : ℤ) (kShapeTail vShapeTail : List ℕ) (dtype : Dtype)
      (memory : (ℕ → K) × (ℕ → V))
  | putRange (key : RawKVKey) (start : ℤ) (k : RowTensor K) (v : RowTensor V)
  | copyPrefixTo (key : RawKVKey) (stop : ℤ) (targets : PrefixTargets K V)
  | releaseLayer (layerIdx rowIdx : ℤ) (kind : Option String)
  | releaseRow (rowIdx : ℤ)

/-- What `to(dtype)` does to a row of `k` with its row of `v`. -/
def RowConversion.row (convert : RowConversion Dtype K V) (dtype : Dtype) (row : K × V) : K × V :=
  (convert.k dtype row.1, convert.v dtype row.2)

namespace RawKVCall

/-- The call on the buffer.  A copy leaves the buffer as it is. -/
def run (convert : RowConversion Dtype K V) : RawKVCall Dtype K V → Routine (RawKVOffloadBuffer Dtype K V) Unit
  | .ensureEntry key totalLen kShapeTail vShapeTail dtype memory =>
      RawKVOffloadBuffer.ensureEntry key totalLen kShapeTail vShapeTail dtype memory
  | .putRange key start k v => RawKVOffloadBuffer.putRange convert key start k v
  | .copyPrefixTo key stop targets => fun buffer => ((buffer.copyPrefixTo key stop targets).1, buffer)
  | .releaseLayer layerIdx rowIdx kind => RawKVOffloadBuffer.releaseLayer layerIdx rowIdx kind
  | .releaseRow rowIdx => RawKVOffloadBuffer.releaseRow rowIdx

/-- The rows most recently put at each position of each entry, once the call has
been made. -/
def record (last : RawKVKey → ℕ → Option (K × V)) : RawKVCall Dtype K V → RawKVKey → ℕ → Option (K × V)
  | .putRange key start k v => fun other position =>
      if other = key ∧ start.toNat ≤ position ∧ position < start.toNat + k.rows.length then
        (k.rows.zip v.rows)[position - start.toNat]?
      else last other position
  | .releaseLayer layerIdx rowIdx kind => fun key =>
      if key.layerIdx = layerIdx ∧ key.rowIdx = rowIdx ∧ (kind = none ∨ kind = some key.kind) then fun _ => none
      else last key
  | .releaseRow rowIdx => fun key => if key.rowIdx = rowIdx then fun _ => none else last key
  | .ensureEntry .. => last
  | .copyPrefixTo .. => last

/-- The chunked buffer does not refuse the call, if it is a put. -/
def Accepted (convert : RowConversion Dtype K V) (buffer : RawKVOffloadBuffer Dtype K V) :
    RawKVCall Dtype K V → Prop
  | .putRange key start k v => (buffer.putRange convert key start k v).1 = .ok ()
  | _ => True

/-- A put hides no new row behind an old chunk of its entry and uncovers no
older row. -/
def Keeps (convert : RowConversion Dtype K V) (buffer : RawKVOffloadBuffer Dtype K V) :
    RawKVCall Dtype K V → Prop
  | .putRange key start k v => ∀ entry chunks, buffer.entries key = some entry → entry.chunks = some chunks →
      Patches.Keeps RawKVChunk.length RawKVChunk.row chunks start.toNat
        ⟨k.rows.map (convert.k entry.dtype), v.rows.map (convert.v entry.dtype)⟩
  | _ => True

/-- The condition holds at every call of a run, in the state before it. -/
def Every (convert : RowConversion Dtype K V)
    (condition : RawKVOffloadBuffer Dtype K V → RawKVCall Dtype K V → Prop) :
    List (RawKVCall Dtype K V) → RawKVOffloadBuffer Dtype K V → Prop
  | [], _ => True
  | call :: rest, buffer => condition buffer call ∧ Every convert condition rest (call.run convert buffer).2

/-- The buffer after the calls. -/
def runAll (convert : RowConversion Dtype K V) (calls : List (RawKVCall Dtype K V))
    (buffer : RawKVOffloadBuffer Dtype K V) : RawKVOffloadBuffer Dtype K V :=
  calls.foldl (fun buffer call => (call.run convert buffer).2) buffer

/-- The rows most recently put in the calls. -/
def recordAll (last : RawKVKey → ℕ → Option (K × V)) (calls : List (RawKVCall Dtype K V)) :
    RawKVKey → ℕ → Option (K × V) :=
  calls.foldl record last

end RawKVCall

namespace RawKVOffloadBuffer

/-- Every copy of a prefix that has been filled writes the same to the same
targets in both buffers: at each position below the end the rows most recently
put there, and nothing from the end on. -/
def Interchangeable (convert : RowConversion Dtype K V) (chunked contiguous : RawKVOffloadBuffer Dtype K V)
    (last : RawKVKey → ℕ → Option (K × V)) : Prop :=
  ∀ key entry, chunked.entries key = some entry → ∀ stop : ℕ, stop ≤ entry.filledUntil →
    ∀ targets : PrefixTargets K V, stop ≤ targets.kOut.length → stop ≤ targets.vOut.length →
      targets.kOut.tail = entry.kShapeTail → targets.vOut.tail = entry.vShapeTail →
        ∃ written, chunked.copyPrefixTo key stop targets = (.ok (), written) ∧
          contiguous.copyPrefixTo key stop targets = (.ok (), written) ∧
          (∀ position < stop, (last key position).map (convert.row entry.dtype) =
            some (written.kOut.rows position, written.vOut.rows position)) ∧
          ∀ position, stop ≤ position → written.kOut.rows position = targets.kOut.rows position ∧
            written.vOut.rows position = targets.vOut.rows position

/-! ## Entries under the same calls -/

/-- An entry of the two buffers after the same calls. -/
structure EntryPaired (convert : RowConversion Dtype K V) (chunked contiguous : RawKVEntry Dtype K V)
    (last : ℕ → Option (K × V)) (chunks : Dict ℕ (RawKVChunk K V)) (kArray : ℕ → K) (vArray : ℕ → V) : Prop where
  chunks_eq : chunked.chunks = some chunks
  contiguous_eq : contiguous = { chunked with k := some kArray, v := some vArray, chunks := none }
  lengths : ∀ start chunk, chunks.get? start = some chunk →
    chunk.v.length = chunk.k.length ∧ start + chunk.k.length ≤ chunked.filledUntil
  content : ∀ position < chunked.filledUntil,
    (last position).map (convert.row chunked.dtype) = some (kArray position, vArray position)

/-- What the chunks of an entry have to hold. -/
def arrayRows (kArray : ℕ → K) (vArray : ℕ → V) (position : ℕ) : Option (K × V) :=
  some (kArray position, vArray position)

/-- The chunks hold what the arrays do, as far as the entry is filled. -/
def EntryReadable (chunks : Dict ℕ (RawKVChunk K V)) (kArray : ℕ → K) (vArray : ℕ → V) (filledUntil : ℕ) : Prop :=
  Patches.Holds RawKVChunk.length RawKVChunk.row chunks (arrayRows kArray vArray) filledUntil

variable {convert : RowConversion Dtype K V} {chunked contiguous : RawKVEntry Dtype K V}
  {last : ℕ → Option (K × V)} {chunks : Dict ℕ (RawKVChunk K V)} {kArray : ℕ → K} {vArray : ℕ → V}
  {key : RawKVKey} {stop : ℕ} {targets written : PrefixTargets K V}

section

variable (h : EntryPaired convert chunked contiguous last chunks kArray vArray)

include h

section

variable (hstop : stop ≤ chunked.filledUntil) (hk : stop ≤ targets.kOut.length)
  (hv : stop ≤ targets.vOut.length) (hkTail : targets.kOut.tail = chunked.kShapeTail)
  (hvTail : targets.vOut.tail = chunked.vShapeTail)

include hstop hk hv hkTail hvTail

/-- A copy that passes the checks reads the arrays of a contiguous entry. -/
theorem EntryPaired.copy_contiguous :
    contiguous.copyPrefixTo key stop targets = (.ok (), targets.fill kArray vArray 0 stop) := by
  have hrange : ¬((stop : ℤ) < 0 ∨ (chunked.filledUntil : ℤ) < stop) := by omega
  have hlong : ¬((targets.kOut.length : ℤ) < stop ∨ (targets.vOut.length : ℤ) < stop) := by omega
  have htail : ¬(targets.kOut.tail ≠ chunked.kShapeTail ∨ targets.vOut.tail ≠ chunked.vShapeTail) := by
    simp [hkTail, hvTail]
  have hfill : ∀ {α : Type} (cells array : ℕ → α),
      Cells.write cells 0 (Cells.read array 0 stop) = fillCells cells array 0 stop := by
    intro α cells array
    funext position
    simp only [Cells.write, Nat.zero_le, if_true, Nat.sub_zero, Cells.getElem?_read, Nat.zero_add, fillCells,
      true_and]
    split_ifs <;> rfl
  rw [h.contiguous_eq]
  simp only [RawKVEntry.copyPrefixTo, Routine.bind_apply, Routine.read_apply, Routine.raiseIf_apply, if_neg hrange,
    if_neg hlong, if_neg htail, Routine.write_apply, RowTarget.copy, Int.toNat_natCast, hfill]
  rfl

/-- A copy that passes the checks is the walk over the chunks. -/
theorem EntryPaired.copy_chunked :
    chunked.copyPrefixTo key stop targets = (.ok (), written) ↔
      RawKVEntry.copyChunks key chunks stop (chunks.keys.insertionSort (· ≤ ·)) 0 targets = (.ok stop, written) := by
  have hrange : ¬((stop : ℤ) < 0 ∨ (chunked.filledUntil : ℤ) < stop) := by omega
  have hlong : ¬((targets.kOut.length : ℤ) < stop ∨ (targets.vOut.length : ℤ) < stop) := by omega
  have htail : ¬(targets.kOut.tail ≠ chunked.kShapeTail ∨ targets.vOut.tail ≠ chunked.vShapeTail) := by
    simp [hkTail, hvTail]
  simp only [RawKVEntry.copyPrefixTo, Routine.bind_apply, Routine.read_apply, Routine.raiseIf_apply, if_neg hrange,
    if_neg hlong, if_neg htail, h.chunks_eq, Int.toNat_natCast]
  rcases RawKVEntry.copyChunks key chunks stop (chunks.keys.insertionSort (· ≤ ·)) 0 targets with
    ⟨error | cursor, after⟩
  · simp
  · by_cases hcursor : cursor = stop
    · simp [hcursor]
    · simp [hcursor]

end

/-- With nothing to copy the walk gets to the end. -/
theorem EntryPaired.copyChunks_zero (hreadable : EntryReadable chunks kArray vArray chunked.filledUntil) :
    RawKVEntry.copyChunks key chunks 0 (chunks.keys.insertionSort (· ≤ ·)) 0 targets = (.ok 0, targets) := by
  have hahead := RawKVEntry.ahead_start chunks
  rcases hstarts : chunks.keys.insertionSort (· ≤ ·) with _ | ⟨first, rest⟩
  · rfl
  · rw [hstarts] at hahead
    obtain ⟨chunk, hchunk⟩ := hahead.held first List.mem_cons_self
    have hbound := (h.lengths first chunk hchunk).2
    have hfirst : first = 0 := by
      by_contra hpositive
      -- the chunk that serves position 0 starts there, so it is not after the first one
      obtain ⟨start, serving, hle, hserves, -⟩ := hreadable 0 (by omega)
      have := hahead.start_le hserves
      omega
    subst hfirst
    by_cases hempty : chunk.k.length = 0
    · have hrest : rest = [] := by
        rcases rest with _ | ⟨second, rest⟩
        · rfl
        · -- an entry with another chunk is filled, and its first chunk would serve position 0
          exfalso
          obtain ⟨later, hlater⟩ := hahead.held second (by simp)
          have hsecond := (List.pairwise_cons.mp hahead.increasing).1 second List.mem_cons_self
          have hfilled := (h.lengths second later hlater).2
          obtain ⟨start, serving, hle, hserves, -⟩ := hreadable 0 (by omega)
          obtain rfl : start = 0 := by omega
          obtain rfl := Option.some.inj (hchunk.symm.trans hserves.held)
          have := hserves.reaches
          simp only [RawKVChunk.length] at this
          omega
      simp [RawKVEntry.copyChunks, hchunk, Routine.bind_apply, Routine.raiseIf_apply, hempty, hrest,
        Routine.pure_apply]
    · simp [RawKVEntry.copyChunks, hchunk, Routine.bind_apply, Routine.raiseIf_apply, hempty, Routine.pure_apply]

/-- A chunked entry whose chunks hold the rows copies what the contiguous one
does. -/
theorem EntryPaired.copyChunks_of_readable (hreadable : EntryReadable chunks kArray vArray chunked.filledUntil)
    (hstop : stop ≤ chunked.filledUntil) :
    RawKVEntry.copyChunks key chunks stop (chunks.keys.insertionSort (· ≤ ·)) 0 targets =
      (.ok stop, targets.fill kArray vArray 0 stop) := by
  rcases Nat.eq_zero_or_pos stop with rfl | hpositive
  · rw [h.copyChunks_zero hreadable, PrefixTargets.fill_self]
  · exact RawKVEntry.copyChunks_eq (RawKVEntry.ahead_start chunks) hpositive
      (fun start chunk hchunk => (h.lengths start chunk hchunk).1)
      fun position _ hbefore => hreadable position (by omega)

/-- Chunks that are copied as the arrays are hold their rows. -/
theorem EntryPaired.readable_of_copyChunks
    (hcopy : RawKVEntry.copyChunks key chunks chunked.filledUntil (chunks.keys.insertionSort (· ≤ ·)) 0 targets =
      (.ok chunked.filledUntil, targets.fill kArray vArray 0 chunked.filledUntil)) :
    EntryReadable chunks kArray vArray chunked.filledUntil := by
  have hahead := RawKVEntry.ahead_start chunks
  have hserved : ∀ position < chunked.filledUntil, ∃ row start chunk, start ≤ position ∧
      Patches.Serves RawKVChunk.length chunks position start chunk ∧ chunk.row (position - start) = some row := by
    intro position hposition
    obtain ⟨start, chunk, hle, hserves⟩ := RawKVEntry.copyChunks_served hahead
      hcopy position (Nat.zero_le _) hposition
    have hreaches : position - start < (chunk.k.zip chunk.v).length := by
      have := hserves.reaches
      rw [List.length_zip, (h.lengths start chunk hserves.held).1, min_self]
      simp only [RawKVChunk.length] at this
      omega
    exact ⟨_, start, chunk, hle, hserves, List.getElem?_eq_getElem hreaches⟩
  intro position hposition
  obtain ⟨row, start, chunk, hle, hserves, hrow⟩ := hserved position hposition
  refine ⟨start, chunk, hle, hserves, ?_⟩
  -- the walk also copies the rows of the chunks themselves, so these are the rows of the arrays
  choose rows hrows using hserved
  have hwalk := @RawKVEntry.copyChunks_eq K V key chunks _ 0 chunked.filledUntil targets
    (fun position => if hposition : position < chunked.filledUntil then (rows position hposition).1
      else kArray position)
    (fun position => if hposition : position < chunked.filledUntil then (rows position hposition).2
      else vArray position)
    hahead (by omega) (fun start chunk hchunk => (h.lengths start chunk hchunk).1) (by
      intro position _ hbefore
      simp only [hbefore, dif_pos]
      exact hrows position hbefore)
  have hsame := hcopy.symm.trans hwalk
  have hk := congrArg (fun result => result.2.kOut.rows position) hsame
  have hv := congrArg (fun result => result.2.vOut.rows position) hsame
  simp only [PrefixTargets.fill, fillCells, Nat.zero_le, true_and, hposition, if_true, dif_pos] at hk hv
  obtain ⟨other, found, -, hfound, hother⟩ := hrows position hposition
  obtain rfl := hserves.start_eq hfound
  obtain rfl := hserves.chunk_eq hfound
  rw [hother, arrayRows, hk, hv]

end

end RawKVOffloadBuffer
