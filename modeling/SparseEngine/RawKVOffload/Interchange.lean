import SparseEngine.RawKVOffload.Modes

/-!
# Interchanging the two modes

What one call does to a pair of buffers, and from it what a run does.  A put
is accepted by the contiguous buffer whenever it is by the chunked one, and
writes the array where the chunk is added.  Whether the chunks still hold the
arrays is decided put by put (`readable_step_iff`), so a run keeps the two
modes interchangeable exactly when every put of it does.
-/

variable {Dtype K V : Type} {convert : RowConversion Dtype K V}

namespace RawKVOffloadBuffer

/-! ## One put of an entry -/

/-- A put that a chunked entry accepts, and what it leaves. -/
structure AcceptedPut (convert : RowConversion Dtype K V) (start : ℤ) (k : RowTensor K) (v : RowTensor V)
    (entry : RawKVEntry Dtype K V) (chunks : Dict ℕ (RawKVChunk K V)) (next : RawKVEntry Dtype K V) : Prop where
  nonneg : 0 ≤ start
  fits : start + k.rows.length ≤ entry.capacity
  lengths : v.rows.length = k.rows.length
  kTail : k.tail = entry.kShapeTail
  vTail : v.tail = entry.vShapeTail
  no_gap : start ≤ entry.filledUntil
  next_eq : next = { entry with
    chunks := some (chunks.set start.toNat
      ⟨k.rows.map (convert.k entry.dtype), v.rows.map (convert.v entry.dtype)⟩)
    filledUntil := max entry.filledUntil (start + k.rows.length).toNat }

variable {key : RawKVKey} {start : ℤ} {k : RowTensor K} {v : RowTensor V} {entry next : RawKVEntry Dtype K V}
  {chunks : Dict ℕ (RawKVChunk K V)} {other : RawKVEntry Dtype K V} {last : ℕ → Option (K × V)}
  {kArray : ℕ → K} {vArray : ℕ → V}

theorem acceptedPut_of_ok (hchunks : entry.chunks = some chunks)
    (hput : entry.putRange convert key start k v = .ok next) : AcceptedPut convert start k v entry chunks next := by
  unfold RawKVEntry.putRange at hput
  dsimp only at hput
  by_cases hshape : start < 0 ∨ (entry.capacity : ℤ) < start + k.rows.length ∨ v.rows.length ≠ k.rows.length
  · rw [if_pos hshape] at hput
    exact nomatch hput
  · rw [if_neg hshape] at hput
    by_cases htail : k.tail ≠ entry.kShapeTail ∨ v.tail ≠ entry.vShapeTail
    · rw [if_pos htail] at hput
      exact nomatch hput
    · rw [if_neg htail] at hput
      simp only [RawKVEntry.store, hchunks] at hput
      by_cases hgap : (entry.filledUntil : ℤ) < start
      · rw [if_pos hgap] at hput
        exact nomatch hput
      · rw [if_neg hgap, Except.ok.injEq] at hput
        simp only [not_or, not_lt, not_not] at hshape htail
        exact ⟨hshape.1, hshape.2.1, hshape.2.2, htail.1, htail.2, not_lt.mp hgap, hput.symm⟩

namespace AcceptedPut

/-- The chunk that is added. -/
abbrev chunk (convert : RowConversion Dtype K V) (dtype : Dtype) (k : RowTensor K) (v : RowTensor V) :
    RawKVChunk K V := ⟨k.rows.map (convert.k dtype), v.rows.map (convert.v dtype)⟩

section

variable (h : AcceptedPut convert start k v entry chunks next)

include h

theorem stop_eq : (start + k.rows.length).toNat = start.toNat + k.rows.length := by
  have := h.nonneg
  omega

theorem filledUntil_eq :
    next.filledUntil = max entry.filledUntil (start.toNat + k.rows.length) := by
  rw [h.next_eq]
  exact congrArg (max entry.filledUntil) h.stop_eq

/-- The contiguous entry accepts the put as well and writes its arrays. -/
theorem contiguous (hpaired : EntryPaired convert entry other last chunks kArray vArray) :
    other.putRange convert key start k v = .ok { next with
      k := some (Cells.write kArray start.toNat (k.rows.map (convert.k entry.dtype)))
      v := some (Cells.write vArray start.toNat (v.rows.map (convert.v entry.dtype)))
      chunks := none } := by
  have hshape : ¬(start < 0 ∨ (entry.capacity : ℤ) < start + k.rows.length ∨ v.rows.length ≠ k.rows.length) := by
    have := h.nonneg
    have := h.fits
    have := h.lengths
    omega
  have htail : ¬(k.tail ≠ entry.kShapeTail ∨ v.tail ≠ entry.vShapeTail) := by simp [h.kTail, h.vTail]
  rw [hpaired.contiguous_eq, h.next_eq]
  simp only [RawKVEntry.putRange, if_neg hshape, if_neg htail, RawKVEntry.store]

/-- The arrays after the put are the old ones, overwritten with the chunk. -/
theorem arrayRows_write (kArray : ℕ → K) (vArray : ℕ → V) :
    arrayRows (Cells.write kArray start.toNat (k.rows.map (convert.k entry.dtype)))
        (Cells.write vArray start.toNat (v.rows.map (convert.v entry.dtype))) =
      Patches.overwrite RawKVChunk.length RawKVChunk.row (arrayRows kArray vArray) start.toNat
        (chunk convert entry.dtype k v) := by
  funext position
  simp only [arrayRows, Patches.overwrite, RawKVChunk.length, RawKVChunk.row, List.length_map]
  by_cases hafter : start.toNat ≤ position
  · by_cases hbefore : position < start.toNat + k.rows.length
    · have hindex : position - start.toNat < k.rows.length := by omega
      have hindex' : position - start.toNat < v.rows.length := by rw [h.lengths]; exact hindex
      simp [Cells.write, hafter, hbefore, hindex, hindex']
    · rw [if_neg (by omega)]
      rw [Cells.write_above (by rw [List.length_map]; omega),
        Cells.write_above (by rw [List.length_map, h.lengths]; omega)]
  · rw [if_neg (by omega), Cells.write_below (by omega), Cells.write_below (by omega)]

section

variable (hpaired : EntryPaired convert entry other last chunks kArray vArray)

include hpaired

/-- The rows put last are those of the arrays after the put. -/
theorem paired {last' : ℕ → Option (K × V)} (hlast : ∀ position, last' position =
      if start.toNat ≤ position ∧ position < start.toNat + k.rows.length then
        (k.rows.zip v.rows)[position - start.toNat]?
      else last position) :
    EntryPaired convert next
      { next with
        k := some (Cells.write kArray start.toNat (k.rows.map (convert.k entry.dtype)))
        v := some (Cells.write vArray start.toNat (v.rows.map (convert.v entry.dtype)))
        chunks := none }
      last'
      (chunks.set start.toNat (chunk convert entry.dtype k v))
      (Cells.write kArray start.toNat (k.rows.map (convert.k entry.dtype)))
      (Cells.write vArray start.toNat (v.rows.map (convert.v entry.dtype))) where
  chunks_eq := by rw [h.next_eq]
  contiguous_eq := rfl
  lengths := fun found held hheld => by
    rw [h.filledUntil_eq]
    rw [Dict.get?_set] at hheld
    split_ifs at hheld with hsame
    · obtain rfl := Option.some.inj hheld
      subst hsame
      simp only [List.length_map]
      exact ⟨h.lengths, le_max_right _ _⟩
    · obtain ⟨hlength, hbound⟩ := hpaired.lengths found held hheld
      exact ⟨hlength, hbound.trans (le_max_left _ _)⟩
  content := fun position hposition => by
    have hdtype : next.dtype = entry.dtype := by rw [h.next_eq]
    rw [h.filledUntil_eq] at hposition
    have harray := congrFun (h.arrayRows_write kArray vArray) position
    rw [arrayRows] at harray
    rw [harray, hdtype, hlast]
    simp only [Patches.overwrite, RawKVChunk.length, RawKVChunk.row, List.length_map]
    split_ifs with hnew
    · rw [List.zip_map, List.getElem?_map]
      rfl
    · -- no gap: below the new chunk the entry was filled before
      have := h.no_gap
      exact hpaired.content position (by omega)

/-- The chunks hold the arrays after the put exactly if the put keeps what they
hold. -/
theorem readable_iff (hreadable : EntryReadable chunks kArray vArray entry.filledUntil) :
    EntryReadable (chunks.set start.toNat (chunk convert entry.dtype k v))
        (Cells.write kArray start.toNat (k.rows.map (convert.k entry.dtype)))
        (Cells.write vArray start.toNat (v.rows.map (convert.v entry.dtype))) next.filledUntil ↔
      Patches.Keeps RawKVChunk.length RawKVChunk.row chunks start.toNat (chunk convert entry.dtype k v) := by
  have hlength : (chunk convert entry.dtype k v).length = k.rows.length := List.length_map _
  have hstart : start.toNat ≤ entry.filledUntil := by
    have := h.no_gap
    omega
  rw [EntryReadable, h.arrayRows_write, h.filledUntil_eq, ← hlength]
  exact Patches.holds_set_iff hreadable (fun found held hheld => (hpaired.lengths found held hheld).2) hstart

end

end

end AcceptedPut

/-! ## One call of the buffers -/

/-- The two buffers after the same calls. -/
structure Paired (convert : RowConversion Dtype K V) (chunked contiguous : RawKVOffloadBuffer Dtype K V)
    (last : RawKVKey → ℕ → Option (K × V)) : Prop where
  chunked_mode : chunked.mode = .chunked
  contiguous_mode : contiguous.mode = .contiguous
  entries : ∀ key, (chunked.entries key = none ∧ contiguous.entries key = none) ∨
    ∃ entry other chunks kArray vArray, chunked.entries key = some entry ∧
      contiguous.entries key = some other ∧ EntryPaired convert entry other (last key) chunks kArray vArray

/-- The chunks of every entry hold what its arrays do. -/
def Readable (chunked contiguous : RawKVOffloadBuffer Dtype K V) : Prop :=
  ∀ key entry other chunks kArray vArray, chunked.entries key = some entry →
    contiguous.entries key = some other → entry.chunks = some chunks → other.k = some kArray →
      other.v = some vArray → EntryReadable chunks kArray vArray entry.filledUntil

variable {chunked contiguous : RawKVOffloadBuffer Dtype K V} {history : RawKVKey → ℕ → Option (K × V)}

theorem paired_new : Paired convert (new .chunked) (new .contiguous) (fun _ _ => (none : Option (K × V))) :=
  ⟨rfl, rfl, fun _ => Or.inl ⟨rfl, rfl⟩⟩

theorem readable_new : Readable (new .chunked : RawKVOffloadBuffer Dtype K V) (new .contiguous) :=
  fun _ _ _ _ _ _ hentry => nomatch hentry

/-- What the arrays and chunks of a paired entry are is settled by the
entries. -/
theorem Readable.of_paired (h : Readable chunked contiguous) (hentry : chunked.entries key = some entry)
    (hother : contiguous.entries key = some other)
    (hpaired : EntryPaired convert entry other last chunks kArray vArray) :
    EntryReadable chunks kArray vArray entry.filledUntil :=
  h key entry other chunks kArray vArray hentry hother hpaired.chunks_eq
    (by rw [hpaired.contiguous_eq]) (by rw [hpaired.contiguous_eq])

/-- **Two buffers are interchangeable as long as the chunks hold the
arrays.** -/
theorem Paired.interchangeable_iff (h : Paired convert chunked contiguous history) :
    Interchangeable convert chunked contiguous history ↔ Readable chunked contiguous := by
  constructor
  · intro hsame key entry other chunks kArray vArray hentry hother hchunks hk hv
    rcases h.entries key with ⟨hnone, -⟩ | ⟨entry', other', chunks', kArray', vArray', hentry', hother', hpaired⟩
    · exact nomatch hnone.symm.trans hentry
    · obtain rfl := Option.some.inj (hentry'.symm.trans hentry)
      obtain rfl := Option.some.inj (hother'.symm.trans hother)
      obtain rfl := Option.some.inj (hpaired.chunks_eq.symm.trans hchunks)
      rw [hpaired.contiguous_eq, Option.some.injEq] at hk hv
      subst hk hv
      obtain ⟨written, hcopy, hcontiguous, -, -⟩ := hsame key entry' hentry entry'.filledUntil le_rfl
        ⟨⟨kArray', entry'.filledUntil, entry'.kShapeTail⟩, ⟨vArray', entry'.filledUntil, entry'.vShapeTail⟩⟩
        le_rfl le_rfl rfl rfl
      simp only [copyPrefixTo, hentry, hother] at hcopy hcontiguous
      rw [hpaired.copy_contiguous le_rfl le_rfl le_rfl rfl rfl, Prod.mk.injEq] at hcontiguous
      rw [hpaired.copy_chunked le_rfl le_rfl le_rfl rfl rfl, ← hcontiguous.2] at hcopy
      exact hpaired.readable_of_copyChunks hcopy
  · intro hreadable key entry hentry stop hstop targets hk hv hkTail hvTail
    rcases h.entries key with ⟨hnone, -⟩ | ⟨entry', other, chunks, kArray, vArray, hentry', hother, hpaired⟩
    · exact nomatch hnone.symm.trans hentry
    · obtain rfl := Option.some.inj (hentry'.symm.trans hentry)
      have hread := hreadable.of_paired hentry hother hpaired
      refine ⟨targets.fill kArray vArray 0 stop, ?_, ?_, fun position hposition => ?_, fun position hposition => ?_⟩
      · simp only [copyPrefixTo, hentry]
        exact (hpaired.copy_chunked hstop hk hv hkTail hvTail).mpr (hpaired.copyChunks_of_readable hread hstop)
      · simp only [copyPrefixTo, hother]
        exact hpaired.copy_contiguous hstop hk hv hkTail hvTail
      · rw [hpaired.content position (by omega)]
        simp [PrefixTargets.fill, fillCells, hposition]
      · simp [PrefixTargets.fill, fillCells, not_lt.mpr hposition]

@[simp] theorem setEntry_self (key : RawKVKey) (entry : RawKVEntry Dtype K V) (buffer : RawKVOffloadBuffer Dtype K V) :
    (buffer.setEntry key entry).entries key = some entry := if_pos rfl

theorem setEntry_of_ne {found : RawKVKey} (hne : found ≠ key) (buffer : RawKVOffloadBuffer Dtype K V) :
    (buffer.setEntry key entry).entries found = buffer.entries found := if_neg hne

/-- What an accepted put does to both buffers. -/
theorem Paired.put (h : Paired convert chunked contiguous history)
    (haccepted : (chunked.putRange convert key start k v).1 = .ok ()) :
    ∃ entry other chunks kArray vArray next, chunked.entries key = some entry ∧
      contiguous.entries key = some other ∧ EntryPaired convert entry other (history key) chunks kArray vArray ∧
      AcceptedPut convert start k v entry chunks next ∧
      (chunked.putRange convert key start k v).2 = chunked.setEntry key next ∧
      (contiguous.putRange convert key start k v).2 = contiguous.setEntry key
        { next with
          k := some (Cells.write kArray start.toNat (k.rows.map (convert.k entry.dtype)))
          v := some (Cells.write vArray start.toNat (v.rows.map (convert.v entry.dtype)))
          chunks := none } := by
  rcases h.entries key with ⟨hnone, -⟩ | ⟨entry, other, chunks, kArray, vArray, hentry, hother, hpaired⟩
  · simp only [putRange, hnone, reduceCtorEq] at haccepted
  · simp only [putRange, hentry] at haccepted
    rcases hput : entry.putRange convert key start k v with error | next
    · simp only [hput, reduceCtorEq] at haccepted
    · have hnext := acceptedPut_of_ok hpaired.chunks_eq hput
      refine ⟨entry, other, chunks, kArray, vArray, next, hentry, hother, hpaired, hnext, ?_, ?_⟩
      · simp only [putRange, hentry, hput]
      · simp only [putRange, hother, hnext.contiguous hpaired]

/-- A fresh entry of the two buffers. -/
theorem entryPaired_new (capacity : ℕ) (kShapeTail vShapeTail : List ℕ) (dtype : Dtype) (kArray : ℕ → K)
    (vArray : ℕ → V) :
    EntryPaired convert ⟨none, none, 0, capacity, kShapeTail, vShapeTail, dtype, some Dict.empty⟩
      ⟨some kArray, some vArray, 0, capacity, kShapeTail, vShapeTail, dtype, none⟩ last Dict.empty kArray vArray where
  chunks_eq := rfl
  contiguous_eq := rfl
  lengths := fun _ _ hchunk => nomatch hchunk
  content := fun _ hposition => absurd hposition (Nat.not_lt_zero _)

/-- What `ensure_entry` does to both buffers: nothing, or a fresh entry in
each. -/
theorem Paired.ensure (h : Paired convert chunked contiguous history) (totalLen : ℤ) (kShapeTail vShapeTail : List ℕ)
    (dtype : Dtype) (memory : (ℕ → K) × (ℕ → V)) :
    ((ensureEntry key totalLen kShapeTail vShapeTail dtype memory chunked).2 = chunked ∧
        (ensureEntry key totalLen kShapeTail vShapeTail dtype memory contiguous).2 = contiguous) ∨
      ((ensureEntry key totalLen kShapeTail vShapeTail dtype memory chunked).2 = chunked.setEntry key
          ⟨none, none, 0, totalLen.toNat, kShapeTail, vShapeTail, dtype, some Dict.empty⟩ ∧
        (ensureEntry key totalLen kShapeTail vShapeTail dtype memory contiguous).2 = contiguous.setEntry key
          ⟨some memory.1, some memory.2, 0, totalLen.toNat, kShapeTail, vShapeTail, dtype, none⟩) := by
  unfold ensureEntry
  by_cases hnegative : totalLen < 0
  · simp [if_pos hnegative]
  · rcases h.entries key with ⟨hnone, hnone'⟩ | ⟨entry, other, chunks, kArray, vArray, hentry, hother, -⟩
    · simp [if_neg hnegative, hnone, hnone', h.chunked_mode, h.contiguous_mode]
    · simp only [if_neg hnegative, hentry, hother]
      refine Or.inl ⟨?_, ?_⟩
      all_goals split_ifs <;> rfl

/-- A pair stays one when an entry is replaced by a paired one. -/
theorem Paired.setEntry (h : Paired convert chunked contiguous history)
    {history' : RawKVKey → ℕ → Option (K × V)} (hhistory : ∀ found, found ≠ key → history' found = history found)
    (hpaired : EntryPaired convert entry other (history' key) chunks kArray vArray) :
    Paired convert (chunked.setEntry key entry) (contiguous.setEntry key other) history' where
  chunked_mode := h.chunked_mode
  contiguous_mode := h.contiguous_mode
  entries := fun found => by
    by_cases hsame : found = key
    · subst hsame
      exact Or.inr ⟨entry, other, chunks, kArray, vArray, setEntry_self _ _ _, setEntry_self _ _ _, hpaired⟩
    · rw [setEntry_of_ne hsame, setEntry_of_ne hsame, hhistory found hsame]
      exact h.entries found

/-- The chunks of the other entries hold what they held. -/
theorem readable_setEntry_iff (hreadable : Readable chunked contiguous)
    (hpaired : EntryPaired convert entry other last chunks kArray vArray) :
    Readable (chunked.setEntry key entry) (contiguous.setEntry key other) ↔
      EntryReadable chunks kArray vArray entry.filledUntil := by
  constructor
  · intro hafter
    exact hafter.of_paired (setEntry_self _ _ _) (setEntry_self _ _ _) hpaired
  · intro hentry found entry' other' chunks' kArray' vArray' hfound hfound' hchunks hk hv
    by_cases hsame : found = key
    · subst hsame
      rw [setEntry_self, Option.some.injEq] at hfound hfound'
      subst hfound hfound'
      obtain rfl := Option.some.inj (hpaired.chunks_eq.symm.trans hchunks)
      rw [hpaired.contiguous_eq, Option.some.injEq] at hk hv
      subst hk hv
      exact hentry
    · rw [setEntry_of_ne hsame] at hfound hfound'
      exact hreadable found entry' other' chunks' kArray' vArray' hfound hfound' hchunks hk hv

/-- A pair stays one when the entries of some keys are released. -/
theorem Paired.release (h : Paired convert chunked contiguous history) (released : RawKVKey → Prop)
    [DecidablePred released] :
    Paired convert { chunked with entries := fun key => if released key then none else chunked.entries key }
      { contiguous with entries := fun key => if released key then none else contiguous.entries key }
      (fun key => if released key then fun _ => none else history key) where
  chunked_mode := h.chunked_mode
  contiguous_mode := h.contiguous_mode
  entries := fun key => by
    by_cases hreleased : released key
    · exact Or.inl ⟨if_pos hreleased, if_pos hreleased⟩
    · simp only [if_neg hreleased]
      exact h.entries key

theorem Readable.release (h : Readable chunked contiguous) (released : RawKVKey → Prop) [DecidablePred released] :
    Readable { chunked with entries := fun key => if released key then none else chunked.entries key }
      { contiguous with entries := fun key => if released key then none else contiguous.entries key } := by
  intro key entry other chunks kArray vArray hentry hother
  by_cases hreleased : released key
  · simp only [if_pos hreleased, reduceCtorEq] at hentry
  · simp only [if_neg hreleased] at hentry hother
    exact h key entry other chunks kArray vArray hentry hother

/-- Both buffers after a call, and whether the chunks still hold the arrays. -/
theorem Paired.step (h : Paired convert chunked contiguous history) (call : RawKVCall Dtype K V)
    (haccepted : call.Accepted convert chunked) :
    Paired convert (call.run convert chunked).2 (call.run convert contiguous).2 (call.record history) ∧
      (Readable chunked contiguous →
        (Readable (call.run convert chunked).2 (call.run convert contiguous).2 ↔ call.Keeps convert chunked)) := by
  cases call with
  | ensureEntry key totalLen kShapeTail vShapeTail dtype memory =>
      simp only [RawKVCall.run, RawKVCall.record, RawKVCall.Keeps, iff_true]
      rcases h.ensure totalLen kShapeTail vShapeTail dtype memory with ⟨heq, heq'⟩ | ⟨heq, heq'⟩
      · rw [heq, heq']
        exact ⟨h, fun hreadable => hreadable⟩
      · rw [heq, heq']
        have hnew := @entryPaired_new Dtype K V convert (history key) totalLen.toNat kShapeTail vShapeTail dtype
          memory.1 memory.2
        exact ⟨h.setEntry (fun _ _ => rfl) hnew, fun hreadable => (readable_setEntry_iff hreadable hnew).mpr
          fun _ hposition => absurd hposition (Nat.not_lt_zero _)⟩
  | putRange key start k v =>
      obtain ⟨entry, other, chunks, kArray, vArray, next, hentry, hother, hpaired, hnext, heq, heq'⟩ :=
        h.put haccepted
      -- a put overwrites its range and leaves the history elsewhere:
      have hlast : ∀ position, (RawKVCall.putRange key start k v : RawKVCall Dtype K V).record history key position =
          if start.toNat ≤ position ∧ position < start.toNat + k.rows.length then
            (k.rows.zip v.rows)[position - start.toNat]?
          else history key position := by simp [RawKVCall.record]
      have hafter := hnext.paired hpaired hlast
      simp only [RawKVCall.run, heq, heq']
      refine ⟨h.setEntry (fun found hne => ?_) hafter, fun hreadable => ?_⟩
      · funext position
        simp [RawKVCall.record, hne]
      · rw [readable_setEntry_iff hreadable hafter,
          hnext.readable_iff hpaired (hreadable.of_paired hentry hother hpaired)]
        -- the call is judged on the entry it found
        constructor
        · intro hkeeps entry' chunks' hentry' hchunks'
          obtain rfl := Option.some.inj (hentry.symm.trans hentry')
          obtain rfl := Option.some.inj (hpaired.chunks_eq.symm.trans hchunks')
          exact hkeeps
        · exact fun hkeeps => hkeeps entry chunks hentry hpaired.chunks_eq
  | copyPrefixTo key stop targets =>
      simp only [RawKVCall.run, RawKVCall.record, RawKVCall.Keeps, iff_true]
      exact ⟨h, fun hreadable => hreadable⟩
  | releaseLayer layerIdx rowIdx kind =>
      simp only [RawKVCall.Keeps, iff_true]
      exact ⟨h.release _, fun hreadable => hreadable.release _⟩
  | releaseRow rowIdx =>
      simp only [RawKVCall.Keeps, iff_true]
      exact ⟨h.release _, fun hreadable => hreadable.release _⟩

/-! ## Runs -/

/-- Every state of a run is interchangeable exactly if every put of it keeps the
rows. -/
theorem Paired.run_iff (h : Paired convert chunked contiguous history) (hreadable : Readable chunked contiguous)
    (calls : List (RawKVCall Dtype K V))
    (haccepted : RawKVCall.Every convert (RawKVCall.Accepted convert) calls chunked) :
    (∀ done, done <+: calls → Interchangeable convert (RawKVCall.runAll convert done chunked)
        (RawKVCall.runAll convert done contiguous) (RawKVCall.recordAll history done)) ↔
      RawKVCall.Every convert (RawKVCall.Keeps convert) calls chunked := by
  induction calls generalizing chunked contiguous history with
  | nil =>
      refine ⟨fun _ => trivial, fun _ done hdone => ?_⟩
      obtain rfl := List.prefix_nil.mp hdone
      exact h.interchangeable_iff.mpr hreadable
  | cons call rest ih =>
      obtain ⟨hcall, hrest⟩ := haccepted
      obtain ⟨hnext, hstep⟩ := h.step call hcall
      constructor
      · intro hsame
        have hafter : Readable (call.run convert chunked).2 (call.run convert contiguous).2 :=
          hnext.interchangeable_iff.mp (hsame [call] (by simp))
        refine ⟨(hstep hreadable).mp hafter, (ih hnext hafter hrest).mp fun done hdone => ?_⟩
        exact hsame (call :: done) (List.cons_prefix_cons.mpr ⟨rfl, hdone⟩)
      · rintro ⟨hkeeps, hkeepsRest⟩ done hdone
        have hafter := (hstep hreadable).mpr hkeeps
        rcases done with _ | ⟨first, done⟩
        · exact h.interchangeable_iff.mpr hreadable
        · obtain ⟨rfl, hdone'⟩ := List.cons_prefix_cons.mp hdone
          exact (ih hnext hafter hrest).mpr hkeepsRest done hdone'

/-- **The two modes are interchangeable in a run exactly if every put of it
keeps the rows.** -/
theorem modes_interchangeable_iff (convert : RowConversion Dtype K V) (calls : List (RawKVCall Dtype K V))
    (haccepted : RawKVCall.Every convert (RawKVCall.Accepted convert) calls (new .chunked)) :
    (∀ done, done <+: calls → Interchangeable convert (RawKVCall.runAll convert done (new .chunked))
        (RawKVCall.runAll convert done (new .contiguous)) (RawKVCall.recordAll (fun _ _ => none) done)) ↔
      RawKVCall.Every convert (RawKVCall.Keeps convert) calls (new .chunked) :=
  paired_new.run_iff readable_new calls haccepted

/-- Three rows, a range that repeats the last two of them and goes on, and the
first row again. -/
def overlappingRanges : List (RawKVCall Unit ℕ ℕ) :=
  [.ensureEntry ⟨0, 0, "raw"⟩ 4 [] [] () (fun _ => 0, fun _ => 0),
    .putRange ⟨0, 0, "raw"⟩ 0 ⟨[10, 11, 12], []⟩ ⟨[20, 21, 22], []⟩,
    .putRange ⟨0, 0, "raw"⟩ 1 ⟨[11, 12, 13], []⟩ ⟨[21, 22, 23], []⟩,
    .putRange ⟨0, 0, "raw"⟩ 0 ⟨[14], []⟩ ⟨[24], []⟩]

theorem overlappingRanges_interchangeable :
    Interchangeable ⟨fun _ => id, fun _ => id⟩
      (RawKVCall.runAll ⟨fun _ => id, fun _ => id⟩ overlappingRanges (new .chunked))
      (RawKVCall.runAll ⟨fun _ => id, fun _ => id⟩ overlappingRanges (new .contiguous))
      (RawKVCall.recordAll (fun _ _ => none) overlappingRanges) := by
  refine (modes_interchangeable_iff ⟨fun _ => id, fun _ => id⟩ overlappingRanges
    ⟨trivial, rfl, rfl, rfl, trivial⟩).mpr ⟨trivial, ?_, ?_, ?_, trivial⟩ overlappingRanges List.prefix_rfl
  all_goals
    intro entry chunks hentry hchunks
    obtain rfl := Option.some.inj hentry
    obtain rfl := Option.some.inj hchunks
  · exact Patches.keeps_of_ends_le fun _ _ hold => nomatch hold
  · -- the first chunk serves the rows at 1 and 2, and holds what is put there
    refine ⟨fun position other old hother hle hlt hserves => ?_, fun position old hle hserves => ?_⟩
    · obtain rfl := Nat.lt_one_iff.mp hother
      obtain rfl := Option.some.inj hserves.held
      have hreaches : position < 0 + 3 := hserves.reaches
      have hstart : 1 ≤ position := hle
      obtain rfl | rfl : position = 1 ∨ position = 2 := by omega
      · rfl
      · rfl
    · exact nomatch hserves.held
  · -- the second chunk serves what the first one no longer reaches
    refine ⟨fun position other old hother => absurd hother (Nat.not_lt_zero _), fun position old hle hserves => ?_⟩
    obtain rfl := Option.some.inj hserves.held
    have hreaches : position < 0 + 3 := hserves.reaches
    have hpast : 0 + 1 ≤ position := hle
    refine ⟨1, ⟨[11, 12, 13], [21, 22, 23]⟩, by omega, ⟨rfl, ?_, fun other hother earlier hearlier => ?_⟩, ?_⟩
    · exact (show position < 1 + 3 by omega)
    · obtain rfl := Nat.lt_one_iff.mp hother
      exact nomatch hearlier
    · obtain rfl | rfl : position = 1 ∨ position = 2 := by omega
      · rfl
      · rfl

/-- Two rows, and then the first of them again. -/
def shorterRangeAgain : List (RawKVCall Unit ℕ ℕ) :=
  [.ensureEntry ⟨0, 0, "raw"⟩ 2 [] [] () (fun _ => 0, fun _ => 0),
    .putRange ⟨0, 0, "raw"⟩ 0 ⟨[10, 11], []⟩ ⟨[20, 21], []⟩,
    .putRange ⟨0, 0, "raw"⟩ 0 ⟨[12], []⟩ ⟨[22], []⟩]

/-- **A shorter range put again drops the rest of its chunk.** The chunked
buffer accepts both puts and then raises on the filled prefix that the
contiguous one copies. -/
theorem shorterRangeAgain_not_interchangeable :
    RawKVCall.Every ⟨fun _ => id, fun _ => id⟩ (RawKVCall.Accepted ⟨fun _ => id, fun _ => id⟩) shorterRangeAgain
        (new .chunked) ∧
      (∃ message, ((RawKVCall.runAll ⟨fun _ => id, fun _ => id⟩ shorterRangeAgain (new .chunked)).copyPrefixTo
        ⟨0, 0, "raw"⟩ 2 ⟨⟨fun _ => 0, 2, []⟩, ⟨fun _ => 0, 2, []⟩⟩).1 = .error (.runtimeError message)) ∧
      ((RawKVCall.runAll ⟨fun _ => id, fun _ => id⟩ shorterRangeAgain (new .contiguous)).copyPrefixTo
        ⟨0, 0, "raw"⟩ 2 ⟨⟨fun _ => 0, 2, []⟩, ⟨fun _ => 0, 2, []⟩⟩).1 = .ok () ∧
      ¬Interchangeable ⟨fun _ => id, fun _ => id⟩
        (RawKVCall.runAll ⟨fun _ => id, fun _ => id⟩ shorterRangeAgain (new .chunked))
        (RawKVCall.runAll ⟨fun _ => id, fun _ => id⟩ shorterRangeAgain (new .contiguous))
        (RawKVCall.recordAll (fun _ _ => none) shorterRangeAgain) := by
  refine ⟨⟨trivial, rfl, rfl, trivial⟩, ⟨_, rfl⟩, rfl, fun hsame => ?_⟩
  obtain ⟨written, hcopy, -⟩ := hsame ⟨0, 0, "raw"⟩ _ rfl 2 (by decide)
    ⟨⟨fun _ => 0, 2, []⟩, ⟨fun _ => 0, 2, []⟩⟩ le_rfl le_rfl rfl rfl
  have hresult := congrArg Prod.fst hcopy
  exact nomatch hresult

end RawKVOffloadBuffer
