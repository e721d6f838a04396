import Mathlib.Algebra.BigOperators.Ring.Finset
import SparseEngine.SlotTables.Releases

/-!
# What compactions accept

A compaction returns exactly when its checks accept the sequences and the
positions to keep (`Accepts`), and it raises before it has written a slot or a
length.  The calls differ in what they check at once: `free_part_slots` one
row, the batches all rows of a layer or of several layers.  They accept the
same, since a compaction of one row changes neither the length of another one
nor what the stack can hold in the end (`Accepts.of_cons`, `Accepts.cons`).
-/

namespace LayerSlots

open Routine Cells

variable {capacity : ℕ} {keepIndicesSorted : Bool} {slots next : LayerSlots}

/-- The row of a resident sequence. -/
def rowAt (slots : LayerSlots) (seqId : ℕ) : ℕ := (slots.seqIdToRow.get? seqId).getD 0

/-- The rows of sequences, with the positions to keep in order. -/
def rowsToKeep (keepIndicesSorted : Bool) (seqs : List (ℕ × List ℕ)) (slots : LayerSlots) :
    List (ℕ × List ℕ) :=
  seqs.map fun seq => (slots.rowAt seq.1, SlotTables.sortKeepIndices keepIndicesSorted seq.2)

/-- The number of slots that a compaction releases. -/
def releaseCount (rows : List (ℕ × List ℕ)) (slots : LayerSlots) : ℕ :=
  (rows.map fun row => slots.rowSeqLens row.1 - row.2.length).sum

/-- Resident sequences with positions of their rows, each once, whose other
slots fit on the stack. -/
structure Accepts (capacity : ℕ) (keepIndicesSorted : Bool) (seqs : List (ℕ × List ℕ)) (slots : LayerSlots) :
    Prop where
  resident : ∀ seq ∈ seqs, (slots.seqIdToRow.get? seq.1).isSome = true
  nonempty : ∀ seq ∈ seqs, seq.2 ≠ []
  valid : slots.ValidKeep (slots.rowsToKeep keepIndicesSorted seqs)
  fits : seqs ≠ [] →
    slots.numFreeSlots + slots.releaseCount (slots.rowsToKeep keepIndicesSorted seqs) ≤ capacity

/-! ## Lengths -/

theorem length_sortKeepIndices (keep : List ℕ) :
    (SlotTables.sortKeepIndices keepIndicesSorted keep).length = keep.length := by
  unfold SlotTables.sortKeepIndices
  split
  · rfl
  · exact List.length_insertionSort _ _

/-- Positions of a row, each once, are no more than the row has. -/
theorem length_dropped {keep : List ℕ} {length : ℕ} (hsorted : keep.Pairwise (· < ·))
    (hlt : ∀ index ∈ keep, index < length) : keep.length + (dropped keep length).length = length := by
  have hperm := keep_append_dropped_perm (hsorted.imp fun hlt => hlt.ne) hlt
  have hlength := hperm.length_eq
  rwa [List.length_append, List.length_range] at hlength

variable {rows : List (ℕ × List ℕ)}

/-- The stack grows by what the rows release. -/
theorem Compacts.numFreeSlots (h : Compacts rows slots next) (hvalid : slots.ValidKeep rows) :
    next.numFreeSlots = slots.numFreeSlots + slots.releaseCount rows := by
  have hstack := congrArg List.length h.stack
  rw [List.length_append, List.length_flatMap, freeSlots, freeSlots, length_read, length_read] at hstack
  rw [hstack, releaseCount]
  congr 2
  refine List.map_congr_left fun row hrow => ?_
  have hlength := length_dropped (hvalid row hrow).1 (hvalid row hrow).2
  rw [droppedSlots, List.length_map]
  omega

theorem Compacts.rowsToKeep (h : Compacts rows slots next) (keepIndicesSorted : Bool) (seqs : List (ℕ × List ℕ)) :
    next.rowsToKeep keepIndicesSorted seqs = slots.rowsToKeep keepIndicesSorted seqs := by
  unfold LayerSlots.rowsToKeep rowAt
  rw [h.seqIdToRow]

/-! ## One row after the other -/

theorem accepts_nil : slots.Accepts capacity keepIndicesSorted [] where
  resident := List.forall_mem_nil _
  nonempty := List.forall_mem_nil _
  valid := List.forall_mem_nil _
  fits h := absurd rfl h

theorem Accepts.head {first : ℕ × List ℕ} {rest : List (ℕ × List ℕ)}
    (h : slots.Accepts capacity keepIndicesSorted (first :: rest)) :
    slots.Accepts capacity keepIndicesSorted [first] where
  resident seq hseq := h.resident seq (List.mem_singleton.mp hseq ▸ List.mem_cons_self)
  nonempty seq hseq := h.nonempty seq (List.mem_singleton.mp hseq ▸ List.mem_cons_self)
  valid := fun row hrow => h.valid row (List.mem_singleton.mp hrow ▸ List.mem_cons_self)
  fits _ := by
    have hfits := h.fits (List.cons_ne_nil _ _)
    unfold releaseCount rowsToKeep at hfits ⊢
    simp only [List.map_cons, List.map_nil, List.sum_cons, List.sum_nil] at hfits ⊢
    omega

/-- Sequences with rows have rows of their own. -/
theorem rowAt_ne (hvalues : slots.seqIdToRow.values.Nodup) {seqId other : ℕ}
    (hseqId : (slots.seqIdToRow.get? seqId).isSome = true) (hother : (slots.seqIdToRow.get? other).isSome = true)
    (hne : seqId ≠ other) : slots.rowAt seqId ≠ slots.rowAt other := by
  obtain ⟨row, hrow⟩ := Option.isSome_iff_exists.mp hseqId
  obtain ⟨otherRow, hotherRow⟩ := Option.isSome_iff_exists.mp hother
  unfold rowAt
  rw [hrow, hotherRow]
  rintro rfl
  exact hne (Dict.eq_of_values_nodup hvalues hrow hotherRow)

/-- The rows of different sequences are different rows. -/
theorem nodup_rowsToKeep (hvalues : slots.seqIdToRow.values.Nodup) {seqs : List (ℕ × List ℕ)}
    (hseqs : (seqs.map Prod.fst).Nodup) (hresident : ∀ seq ∈ seqs, (slots.seqIdToRow.get? seq.1).isSome = true) :
    ((slots.rowsToKeep keepIndicesSorted seqs).map Prod.fst).Nodup := by
  have hkeys : (slots.rowsToKeep keepIndicesSorted seqs).map Prod.fst = (seqs.map Prod.fst).map slots.rowAt := by
    rw [rowsToKeep, List.map_map, List.map_map]
    rfl
  rw [hkeys]
  refine hseqs.map_on fun first hfirst second hsecond heq => ?_
  by_contra hne
  obtain ⟨seq, hseq, rfl⟩ := List.mem_map.mp hfirst
  obtain ⟨other, hother, rfl⟩ := List.mem_map.mp hsecond
  exact rowAt_ne hvalues (hresident seq hseq) (hresident other hother) hne heq

section

variable {first : ℕ × List ℕ} {rest : List (ℕ × List ℕ)} (hvalues : slots.seqIdToRow.values.Nodup)
  (hseqs : ((first :: rest).map Prod.fst).Nodup) (hfirst : slots.Accepts capacity keepIndicesSorted [first])
  (hcompacts : Compacts (slots.rowsToKeep keepIndicesSorted [first]) slots next)

include hvalues hseqs hfirst hcompacts

/-- The first row leaves the lengths of the others. -/
theorem lens_rest (hrest : ∀ seq ∈ rest, (slots.seqIdToRow.get? seq.1).isSome = true) :
    ∀ row ∈ slots.rowsToKeep keepIndicesSorted rest, next.rowSeqLens row.1 = slots.rowSeqLens row.1 := by
  intro row hrow
  obtain ⟨seq, hseq, rfl⟩ := List.mem_map.mp hrow
  rw [List.map_cons, List.nodup_cons] at hseqs
  refine hcompacts.lens _ fun hmem => ?_
  have hsame : slots.rowAt seq.1 = slots.rowAt first.1 := by simpa [rowsToKeep] using hmem
  refine rowAt_ne hvalues (hrest seq hseq) (hfirst.resident first (List.mem_singleton_self _)) ?_ hsame
  intro heq
  exact hseqs.1 (heq ▸ List.mem_map_of_mem hseq)

/-- When the first row is compacted, the rest is accepted if all were. -/
theorem Accepts.of_cons (h : slots.Accepts capacity keepIndicesSorted (first :: rest)) :
    next.Accepts capacity keepIndicesSorted rest := by
  have hresident : ∀ seq ∈ rest, (slots.seqIdToRow.get? seq.1).isSome = true :=
    fun seq hseq => h.resident seq (List.mem_cons_of_mem _ hseq)
  have hlens := lens_rest hvalues hseqs hfirst hcompacts hresident
  have hrows := hcompacts.rowsToKeep keepIndicesSorted rest
  refine ⟨?_, fun seq hseq => h.nonempty seq (List.mem_cons_of_mem _ hseq), ?_, fun _ => ?_⟩
  · rw [hcompacts.seqIdToRow]
    exact hresident
  · rw [hrows]
    intro row hrow
    rw [hlens row hrow]
    exact h.valid row (List.mem_cons_of_mem _ hrow)
  · have hfits := h.fits (List.cons_ne_nil _ _)
    have hsame : next.releaseCount (slots.rowsToKeep keepIndicesSorted rest) =
        slots.releaseCount (slots.rowsToKeep keepIndicesSorted rest) := by
      unfold releaseCount
      congr 1
      exact List.map_congr_left fun row hrow => by rw [hlens row hrow]
    rw [hrows, hsame, hcompacts.numFreeSlots hfirst.valid]
    unfold releaseCount LayerSlots.rowsToKeep at hfits ⊢
    simp only [List.map_cons, List.map_nil, List.sum_cons, List.sum_nil] at hfits ⊢
    omega

/-- And all were accepted if the first row was, and the rest is. -/
theorem Accepts.cons (hrest : next.Accepts capacity keepIndicesSorted rest) :
    slots.Accepts capacity keepIndicesSorted (first :: rest) := by
  have hresident : ∀ seq ∈ rest, (slots.seqIdToRow.get? seq.1).isSome = true := by
    intro seq hseq
    rw [← hcompacts.seqIdToRow]
    exact hrest.resident seq hseq
  have hlens := lens_rest hvalues hseqs hfirst hcompacts hresident
  have hrows := hcompacts.rowsToKeep keepIndicesSorted rest
  have hsame : next.releaseCount (slots.rowsToKeep keepIndicesSorted rest) =
      slots.releaseCount (slots.rowsToKeep keepIndicesSorted rest) := by
    unfold releaseCount
    congr 1
    exact List.map_congr_left fun row hrow => by rw [hlens row hrow]
  refine ⟨?_, ?_, ?_, fun _ => ?_⟩
  · rw [List.forall_mem_cons]
    exact ⟨hfirst.resident first (List.mem_singleton_self _), hresident⟩
  · rw [List.forall_mem_cons]
    exact ⟨hfirst.nonempty first (List.mem_singleton_self _), hrest.nonempty⟩
  · have hvalid := hrest.valid
    rw [hrows] at hvalid
    unfold ValidKeep LayerSlots.rowsToKeep
    rw [List.map_cons, List.forall_mem_cons]
    refine ⟨hfirst.valid _ (List.mem_singleton_self _), fun row hrow => ?_⟩
    rw [← hlens row hrow]
    exact hvalid row hrow
  · have hone := hfirst.fits (List.cons_ne_nil _ _)
    rcases rest with _ | ⟨second, rest⟩
    · exact hone
    have hothers := hrest.fits (List.cons_ne_nil _ _)
    rw [hrows, hsame, hcompacts.numFreeSlots hfirst.valid] at hothers
    unfold releaseCount LayerSlots.rowsToKeep at hothers ⊢
    simp only [List.map_cons, List.map_nil, List.sum_cons, List.sum_nil] at hothers ⊢
    omega

end

end LayerSlots

namespace SlotTables

open Routine Cells

variable {config : SlotConfig} {keepIndicesSorted : Bool} {tables : SlotTables}

/-- A layer on which a compaction of sequences is accepted. -/
structure Accepted (config : SlotConfig) (layer : ℕ) (keepIndicesSorted : Bool) (seqs : List (ℕ × List ℕ))
    (tables : SlotTables) : Prop where
  kvLayer : seqs ≠ [] → layer < config.numKvLayers
  accepts : (tables.layers layer).Accepts (config.layerNumSlots layer) keepIndicesSorted seqs

/-- The rows of a layer are compacted, and the other layers are as before. -/
structure CompactsLayer (layer : ℕ) (rows : List (ℕ × List ℕ)) (tables next : SlotTables) : Prop where
  compacts : LayerSlots.Compacts rows (tables.layers layer) (next.layers layer)
  others : ∀ other, other ≠ layer → next.layers other = tables.layers other

/-! ## The checks -/

theorem checkKeepIndices_decides (operation : String) (rowLens : List ℕ) (keepIndices : List (List ℕ)) :
    wpe (checkKeepIndices operation rowLens keepIndices)
      (fun _ next => next = tables ∧ (∀ entry ∈ keepIndices.zip rowLens, ∀ index ∈ entry.1, index < entry.2) ∧
        ∀ keep ∈ keepIndices, keep.Pairwise (· < ·))
      (fun next => next = tables ∧
        ¬ ((∀ entry ∈ keepIndices.zip rowLens, ∀ index ∈ entry.1, index < entry.2) ∧
          ∀ keep ∈ keepIndices, keep.Pairwise (· < ·))) tables := by
  unfold checkKeepIndices
  rw [wpe_guard]
  refine ⟨fun hbounds => ⟨rfl, fun hvalid => ?_⟩, fun hbounds => ?_⟩
  · simp only [List.any_eq_true, decide_eq_true_eq] at hbounds
    obtain ⟨entry, hentry, index, hindex, hle⟩ := hbounds
    have hlt := hvalid.1 entry hentry index hindex
    omega
  rw [wpe_raiseIf]
  refine ⟨fun hunique => ⟨rfl, fun hvalid => ?_⟩, fun hunique => ⟨rfl, ?_, ?_⟩⟩
  · obtain ⟨keep, hkeep, hchain⟩ := List.any_eq_true.mp hunique
    exact of_decide_eq_true hchain (List.isChain_iff_pairwise.mpr (hvalid.2 keep hkeep))
  · simpa using hbounds
  · intro keep hkeep
    rw [← List.isChain_iff_pairwise]
    by_contra hchain
    exact hunique (List.any_eq_true.mpr ⟨keep, hkeep, decide_eq_true hchain⟩)

theorem preflight_decides (operation : String) (layer : ℕ) (releaseCount : ℤ) :
    wpe (preflightCompactionFreeCapacity config operation layer releaseCount)
      (fun _ next => next = tables ∧ 0 ≤ releaseCount ∧
        (tables.layers layer).numFreeSlots + releaseCount ≤ config.layerNumSlots layer)
      (fun next => next = tables ∧ ¬ (0 ≤ releaseCount ∧
        (tables.layers layer).numFreeSlots + releaseCount ≤ config.layerNumSlots layer)) tables := by
  unfold preflightCompactionFreeCapacity
  rw [wpe_get, wpe_raiseIf]
  refine ⟨fun hover => ⟨rfl, ?_⟩, fun hfits => ⟨rfl, ?_⟩⟩
  all_goals omega

/-! ## One row -/

theorem compactsLayer_wpe {layer : ℕ} {rows : List (ℕ × List ℕ)} {update : LayerSlots → LayerSlots}
    {bad : SlotTables → Prop}
    (hcompacts : LayerSlots.Compacts rows (tables.layers layer) (update (tables.layers layer))) :
    wpe (onLayer layer (Routine.write update)) (fun _ next => CompactsLayer layer rows tables next) bad
      tables := by
  refine ⟨?_, fun other hother => Function.update_of_ne hother _ _⟩
  show LayerSlots.Compacts rows (tables.layers layer) (Function.update tables.layers layer _ layer)
  rw [Function.update_self]
  exact hcompacts

/-- **`free_part_slots`** returns exactly when it accepts the row, and writes
nothing else. -/
theorem freePartSlots_decides (config : SlotConfig) (layer seqId : ℕ) (keepIndices : List ℕ)
    (keepIndicesSorted : Bool) (tables : SlotTables) :
    wpe (freePartSlots config layer seqId keepIndices keepIndicesSorted)
      (fun _ next => Accepted config layer keepIndicesSorted [(seqId, keepIndices)] tables ∧
        CompactsLayer layer ((tables.layers layer).rowsToKeep keepIndicesSorted [(seqId, keepIndices)]) tables next)
      (fun next => ¬ Accepted config layer keepIndicesSorted [(seqId, keepIndices)] tables ∧
        next.layers = tables.layers) tables := by
  unfold freePartSlots kvLayerIndex
  rw [wpe_guard]
  refine ⟨fun hlayer => ⟨fun h => ?_, rfl⟩, fun hlayer => ?_⟩
  · exact absurd (h.kvLayer (List.cons_ne_nil _ _)) (by omega)
  rw [wpe_get]
  rcases hrow : (tables.layers layer).seqIdToRow.get? seqId with _ | row
  · refine ⟨fun h => ?_, rfl⟩
    have hsome := h.accepts.resident _ (List.mem_singleton_self _)
    rw [hrow] at hsome
    exact nomatch hsome
  have hrowAt : (tables.layers layer).rowAt seqId = row := by rw [LayerSlots.rowAt, hrow]; rfl
  have hrows : (tables.layers layer).rowsToKeep keepIndicesSorted [(seqId, keepIndices)] =
      [(row, sortKeepIndices keepIndicesSorted keepIndices)] := by
    rw [LayerSlots.rowsToKeep, List.map_singleton, hrowAt]
  dsimp only
  rw [wpe_guard]
  refine ⟨fun hempty => ⟨fun h => ?_, rfl⟩, fun hnonempty => ?_⟩
  · exact h.accepts.nonempty _ (List.mem_singleton_self _) hempty
  -- the checks of the indices are those of the row
  obtain ⟨keep, hkeep⟩ : ∃ keep, sortKeepIndices keepIndicesSorted keepIndices = keep := ⟨_, rfl⟩
  rw [hkeep] at hrows ⊢
  have hchecks : (tables.layers layer).ValidKeep [(row, keep)] ↔
      (∀ entry ∈ [keep].zip [(tables.layers layer).rowSeqLens row], ∀ index ∈ entry.1, index < entry.2) ∧
        ∀ kept ∈ ([keep] : List (List ℕ)), kept.Pairwise (· < ·) := by
    simp [LayerSlots.ValidKeep, and_comm]
  refine wpe_then_imp (checkKeepIndices_decides _ _ _) ?_ ?_
  · rintro _ tables ⟨rfl, hpassed⟩
    have hvalid := hchecks.mpr hpassed
    have hrelease : ((tables.layers layer).rowSeqLens row : ℤ) - keep.length =
        (tables.layers layer).releaseCount [(row, keep)] := by
      obtain ⟨hsorted, hlt⟩ := hvalid _ (List.mem_singleton_self _)
      have hlength := LayerSlots.length_dropped hsorted hlt
      dsimp only at hlength
      simp only [LayerSlots.releaseCount, List.map_cons, List.map_nil, List.sum_cons, List.sum_nil]
      omega
    refine wpe_then_imp (preflight_decides _ _ _) ?_ ?_
    · rintro _ tables ⟨rfl, -, hfits⟩
      rw [hrelease] at hfits
      rw [hrows, wpe_bind]
      unfold clearUniform
      rw [wpe_write]
      refine wpe_mono (compactsLayer_wpe (LayerSlots.applyFreePartSlots_compacts row keep)) fun _ next hnext =>
        ⟨⟨fun _ => by omega, ?_, ?_, hrows.symm ▸ hvalid, fun _ => ?_⟩, hnext.compacts, hnext.others⟩
      · intro seq hseq
        obtain rfl := List.mem_singleton.mp hseq
        rw [hrow]
        rfl
      · intro seq hseq
        obtain rfl := List.mem_singleton.mp hseq
        exact hnonempty
      · rw [hrows]
        exact_mod_cast hfits
    · rintro tables ⟨rfl, hover⟩
      refine ⟨fun h => hover ?_, rfl⟩
      have hfits := h.accepts.fits (List.cons_ne_nil _ _)
      rw [hrows] at hfits
      rw [hrelease]
      exact ⟨Int.natCast_nonneg _, by exact_mod_cast hfits⟩
  · rintro tables ⟨rfl, hinvalid⟩
    refine ⟨fun h => hinvalid (hchecks.mp ?_), rfl⟩
    rw [← hrows]
    exact h.accepts.valid

/-! ## One row after the other -/

theorem CompactsLayer.nil (layer : ℕ) (tables : SlotTables) : CompactsLayer layer [] tables tables :=
  ⟨.nil, fun _ _ => rfl⟩

theorem CompactsLayer.append {layer : ℕ} {first second : List (ℕ × List ℕ)} {middle next : SlotTables}
    (hfirst : CompactsLayer layer first tables middle) (hsecond : CompactsLayer layer second middle next)
    (hdisjoint : List.Disjoint (first.map Prod.fst) (second.map Prod.fst)) :
    CompactsLayer layer (first ++ second) tables next :=
  ⟨hfirst.compacts.append hsecond.compacts hdisjoint,
    fun other hother => (hsecond.others other hother).trans (hfirst.others other hother)⟩

/-- **`free_part_slots` on one sequence after the other** returns exactly when
all of them are accepted at once. -/
theorem freeEach_decides {layer : ℕ} {seqs : List (ℕ × List ℕ)}
    (hvalues : (tables.layers layer).seqIdToRow.values.Nodup) (hseqs : (seqs.map Prod.fst).Nodup) :
    wpe (forEach (fun seq : ℕ × List ℕ => freePartSlots config layer seq.1 seq.2 keepIndicesSorted) seqs)
      (fun _ next => Accepted config layer keepIndicesSorted seqs tables ∧
        CompactsLayer layer ((tables.layers layer).rowsToKeep keepIndicesSorted seqs) tables next)
      (fun _ => ¬ Accepted config layer keepIndicesSorted seqs tables) tables := by
  induction seqs generalizing tables with
  | nil => exact ⟨⟨fun h => absurd rfl h, LayerSlots.accepts_nil⟩, .nil layer tables⟩
  | cons first rest ih =>
      rw [forEach]
      refine wpe_then_imp (freePartSlots_decides config layer first.1 first.2 keepIndicesSorted tables) ?_ ?_
      · rintro _ middle ⟨hfirst, hmiddle⟩
        have hrestSeqs := (List.nodup_cons.mp hseqs).2
        refine wpe_imp (ih (by rwa [hmiddle.compacts.seqIdToRow]) hrestSeqs) ?_ ?_
        · rintro _ next ⟨hrest, hnext⟩
          have hall := LayerSlots.Accepts.cons hvalues hseqs hfirst.accepts hmiddle.compacts hrest.accepts
          rw [hmiddle.compacts.rowsToKeep] at hnext
          have hkeys : (((tables.layers layer).rowsToKeep keepIndicesSorted (first :: rest)).map
              Prod.fst).Nodup := LayerSlots.nodup_rowsToKeep hvalues hseqs hall.resident
          refine ⟨⟨fun _ => hfirst.kvLayer (List.cons_ne_nil _ _), hall⟩, hmiddle.append hnext ?_⟩
          exact List.disjoint_of_nodup_append hkeys
        · intro _ hrest hall
          refine hrest ⟨fun _ => hfirst.kvLayer (List.cons_ne_nil _ _), ?_⟩
          exact LayerSlots.Accepts.of_cons hvalues hseqs hfirst.accepts hmiddle.compacts hall.accepts
      · rintro _ ⟨hfirst, -⟩ hall
        exact hfirst ⟨fun _ => hall.kvLayer (List.cons_ne_nil _ _), hall.accepts.head⟩

/-! ## The rows of a layer at once -/

theorem rowsAndLens_of_resident {slots : LayerSlots} {seqs : List (ℕ × List ℕ)}
    (hresident : ∀ seq ∈ seqs, (slots.seqIdToRow.get? seq.1).isSome = true) :
    slots.rowsAndLens (seqs.map Prod.fst) =
      .ok (seqs.map fun seq => (slots.rowAt seq.1, slots.rowSeqLens (slots.rowAt seq.1))) := by
  unfold LayerSlots.rowsAndLens
  induction seqs with
  | nil => rfl
  | cons first rest ih =>
      rw [List.forall_mem_cons] at hresident
      obtain ⟨row, hrow⟩ := Option.isSome_iff_exists.mp hresident.1
      rw [List.map_cons, List.mapM_cons, ih hresident.2, hrow, List.map_cons, LayerSlots.rowAt, hrow]
      rfl

theorem resident_of_rowsAndLens {slots : LayerSlots} {seqs : List (ℕ × List ℕ)} {entries : List (ℕ × ℕ)}
    (hentries : slots.rowsAndLens (seqs.map Prod.fst) = .ok entries) :
    ∀ seq ∈ seqs, (slots.seqIdToRow.get? seq.1).isSome = true := by
  intro seq hseq
  have hrows := (rowsAndLens_ok hentries).rows
  have hmem : slots.seqIdToRow.get? seq.1 ∈ (entries.map Prod.fst).map some := by
    rw [hrows]
    exact List.mem_map_of_mem (List.mem_map_of_mem hseq)
  obtain ⟨row, -, hrow⟩ := List.mem_map.mp hmem
  rw [← hrow]
  rfl

/-- The checks of a tensor of indices are those of its rows. -/
theorem validKeep_rowsToKeep {slots : LayerSlots} {seqs : List (ℕ × List ℕ)} :
    slots.ValidKeep (slots.rowsToKeep keepIndicesSorted seqs) ↔
      (∀ entry ∈ ((seqs.map Prod.snd).map (sortKeepIndices keepIndicesSorted)).zip
          (seqs.map fun seq => slots.rowSeqLens (slots.rowAt seq.1)), ∀ index ∈ entry.1, index < entry.2) ∧
        ∀ keep ∈ (seqs.map Prod.snd).map (sortKeepIndices keepIndicesSorted), keep.Pairwise (· < ·) := by
  rw [List.map_map, List.zip_map', List.forall_mem_map, List.forall_mem_map]
  unfold LayerSlots.ValidKeep LayerSlots.rowsToKeep
  rw [List.forall_mem_map]
  constructor
  · exact fun h => ⟨fun seq hseq => (h seq hseq).2, fun seq hseq => (h seq hseq).1⟩
  · exact fun h seq hseq => ⟨h.2 seq hseq, h.1 seq hseq⟩

theorem sum_releaseCount {slots : LayerSlots} {seqs : List (ℕ × List ℕ)}
    (hvalid : slots.ValidKeep (slots.rowsToKeep keepIndicesSorted seqs)) :
    (((seqs.map fun seq => slots.rowSeqLens (slots.rowAt seq.1)).zip
        ((seqs.map Prod.snd).map (sortKeepIndices keepIndicesSorted))).map
          fun entry => (entry.1 : ℤ) - entry.2.length).sum =
      slots.releaseCount (slots.rowsToKeep keepIndicesSorted seqs) := by
  unfold LayerSlots.releaseCount
  rw [List.map_map, List.zip_map', List.map_map, Nat.cast_list_sum, LayerSlots.rowsToKeep, List.map_map, List.map_map]
  congr 1
  refine List.map_congr_left fun seq hseq => ?_
  obtain ⟨hsorted, hlt⟩ := hvalid _ (List.mem_map_of_mem hseq)
  have hlength := LayerSlots.length_dropped hsorted hlt
  dsimp only [Function.comp_apply] at hlength ⊢
  omega

/-- Rows with indices that have been sorted. -/
def sortedSeqs (keepIndicesSorted : Bool) (seqs : List (ℕ × List ℕ)) : List (ℕ × List ℕ) :=
  seqs.map fun seq => (seq.1, sortKeepIndices keepIndicesSorted seq.2)

theorem rowsToKeep_sortedSeqs (slots : LayerSlots) (seqs : List (ℕ × List ℕ)) :
    slots.rowsToKeep true (sortedSeqs keepIndicesSorted seqs) = slots.rowsToKeep keepIndicesSorted seqs := by
  unfold LayerSlots.rowsToKeep sortedSeqs
  rw [List.map_map]
  rfl

theorem Accepted.sortedSeqs {layer : ℕ} {seqs : List (ℕ × List ℕ)}
    (h : Accepted config layer keepIndicesSorted seqs tables) :
    Accepted config layer true (SlotTables.sortedSeqs keepIndicesSorted seqs) tables := by
  have hne : SlotTables.sortedSeqs keepIndicesSorted seqs ≠ [] → seqs ≠ [] := by
    rintro hsorted rfl
    exact hsorted rfl
  refine ⟨fun hsorted => h.kvLayer (hne hsorted), ⟨?_, ?_, ?_, fun hsorted => ?_⟩⟩
  · exact List.forall_mem_map.mpr h.accepts.resident
  · refine List.forall_mem_map.mpr fun seq hseq hempty => h.accepts.nonempty seq hseq ?_
    rw [← List.length_eq_zero_iff] at hempty ⊢
    rwa [LayerSlots.length_sortKeepIndices] at hempty
  · rw [rowsToKeep_sortedSeqs]
    exact h.accepts.valid
  · rw [rowsToKeep_sortedSeqs]
    exact h.accepts.fits (hne hsorted)

theorem zip_rowsToKeep (slots : LayerSlots) (seqs : List (ℕ × List ℕ)) :
    ((slots.rowsToKeep keepIndicesSorted seqs).map Prod.fst).zip
      ((seqs.map Prod.snd).map (sortKeepIndices keepIndicesSorted)) = slots.rowsToKeep keepIndicesSorted seqs := by
  unfold LayerSlots.rowsToKeep
  rw [List.map_map, List.map_map, List.zip_map']
  rfl

section

variable {layer : ℕ} {seqs : List (ℕ × List ℕ)} (h : Accepted config layer keepIndicesSorted seqs tables)
  (hvalues : (tables.layers layer).seqIdToRow.values.Nodup) (hseqs : (seqs.map Prod.fst).Nodup)
  {bad : SlotTables → Prop}

include h hvalues hseqs

/-- Rows that were accepted, one by one. -/
theorem freePartSlotsEach_done :
    wpe (freePartSlotsEach config layer (seqs.map Prod.fst)
        ((seqs.map Prod.snd).map (sortKeepIndices keepIndicesSorted)))
      (fun _ next => CompactsLayer layer ((tables.layers layer).rowsToKeep keepIndicesSorted seqs) tables next)
      bad tables := by
  have hzip : (seqs.map Prod.fst).zip ((seqs.map Prod.snd).map (sortKeepIndices keepIndicesSorted)) =
      sortedSeqs keepIndicesSorted seqs := by
    rw [List.map_map, List.zip_map']
    rfl
  have hkeys : (sortedSeqs keepIndicesSorted seqs).map Prod.fst = seqs.map Prod.fst := by
    rw [sortedSeqs, List.map_map]
    rfl
  unfold freePartSlotsEach
  rw [hzip]
  refine wpe_imp (freeEach_decides hvalues (hkeys.symm ▸ hseqs)) ?_ fun _ hnot => absurd h.sortedSeqs hnot
  rintro _ next ⟨-, hnext⟩
  rw [rowsToKeep_sortedSeqs] at hnext
  exact hnext

/-- Rows of one length that were accepted, in tiles. -/
theorem compactUniformRowsBounded_done (htile : 0 < config.compactionTileElements) {curLen : ℕ}
    (hlens : ∀ seq ∈ seqs, (tables.layers layer).rowSeqLens ((tables.layers layer).rowAt seq.1) = curLen) :
    wpe (compactUniformRowsBounded config layer curLen ((tables.layers layer).rowsToKeep keepIndicesSorted seqs))
      (fun _ next => CompactsLayer layer ((tables.layers layer).rowsToKeep keepIndicesSorted seqs) tables next)
      bad tables := by
  unfold compactUniformRowsBounded tileElements
  rw [wpe_bind, wpe_guard]
  refine ⟨fun hzero => absurd hzero htile.ne', fun _ => ?_⟩
  rw [wpe_pure]
  refine compactsLayer_wpe (LayerSlots.compactUniformRowsBounded_compacts htile
    (LayerSlots.nodup_rowsToKeep hvalues hseqs h.accepts.resident)
    (fun row hrow => (h.accepts.valid row hrow).1) fun row hrow => ?_)
  obtain ⟨seq, hseq, rfl⟩ := List.mem_map.mp hrow
  exact hlens seq hseq

end

/-- **`free_part_slots_batch`** returns exactly when all rows are accepted, and
writes nothing else. -/
theorem freePartSlotsBatch_decides (htile : 0 < config.compactionTileElements) {layer : ℕ}
    {seqs : List (ℕ × List ℕ)} (hne : seqs ≠ []) (hvalues : (tables.layers layer).seqIdToRow.values.Nodup)
    (hseqs : (seqs.map Prod.fst).Nodup) :
    wpe (freePartSlotsBatch config layer (seqs.map Prod.fst) (seqs.map Prod.snd) keepIndicesSorted)
      (fun _ next => Accepted config layer keepIndicesSorted seqs tables ∧
        CompactsLayer layer ((tables.layers layer).rowsToKeep keepIndicesSorted seqs) tables next)
      (fun next => ¬ Accepted config layer keepIndicesSorted seqs tables ∧ next.layers = tables.layers)
      tables := by
  unfold freePartSlotsBatch kvLayerIndex
  rw [if_neg (by simpa using hne), wpe_guard]
  refine ⟨fun hlayer => ⟨fun h => ?_, rfl⟩, fun hlayer => ?_⟩
  · exact absurd (h.kvLayer hne) (by omega)
  rw [wpe_guard]
  refine ⟨fun hshape => absurd ((List.length_map _).trans (List.length_map _).symm) hshape, fun _ => ?_⟩
  rw [wpe_guard]
  refine ⟨fun hempty => ⟨fun h => ?_, rfl⟩, fun hnonempty => ?_⟩
  · obtain ⟨seq, hseq, hkeep⟩ := List.mem_map.mp hempty
    exact h.accepts.nonempty seq hseq hkeep
  rw [wpe_ite]
  refine ⟨fun hone => ?_, fun _ => ?_⟩
  · -- one sequence
    rw [List.length_map] at hone
    obtain ⟨seq, rfl⟩ := List.length_eq_one_iff.mp hone
    exact freePartSlots_decides config layer seq.1 seq.2 keepIndicesSorted tables
  rw [wpe_get, wpe_bind]
  rcases hentries : (tables.layers layer).rowsAndLens (seqs.map Prod.fst) with error | entries
  · refine ⟨fun h => ?_, rfl⟩
    rw [rowsAndLens_of_resident h.accepts.resident] at hentries
    exact nomatch hentries
  have hresident := resident_of_rowsAndLens hentries
  obtain rfl : _ = entries := Except.ok.inj ((rowsAndLens_of_resident hresident).symm.trans hentries)
  have hrows : ((seqs.map fun seq => ((tables.layers layer).rowAt seq.1,
      (tables.layers layer).rowSeqLens ((tables.layers layer).rowAt seq.1))).map Prod.fst) =
      ((tables.layers layer).rowsToKeep keepIndicesSorted seqs).map Prod.fst := by
    rw [LayerSlots.rowsToKeep, List.map_map, List.map_map]
    rfl
  have hlens : ((seqs.map fun seq => ((tables.layers layer).rowAt seq.1,
      (tables.layers layer).rowSeqLens ((tables.layers layer).rowAt seq.1))).map Prod.snd) =
      seqs.map fun seq => (tables.layers layer).rowSeqLens ((tables.layers layer).rowAt seq.1) := by
    rw [List.map_map]
    rfl
  rw [wpe_ok, wpe_guard, hrows, hlens]
  refine ⟨fun hdistinct => absurd (LayerSlots.nodup_rowsToKeep hvalues hseqs hresident) hdistinct, fun _ => ?_⟩
  refine wpe_then_imp (checkKeepIndices_decides _ _ _) ?_ ?_
  · rintro _ tables ⟨rfl, hpassed⟩
    have hvalid := validKeep_rowsToKeep.mpr hpassed
    refine wpe_then_imp (preflight_decides _ _ _) ?_ ?_
    · rintro _ tables ⟨rfl, -, hfits⟩
      rw [sum_releaseCount hvalid] at hfits
      have haccepted : Accepted config layer keepIndicesSorted seqs tables := by
        refine ⟨fun _ => by omega, hresident, ?_, hvalid, fun _ => by exact_mod_cast hfits⟩
        exact fun seq hseq hkeep => hnonempty (List.mem_map.mpr ⟨seq, hseq, hkeep⟩)
      have hcleared : Accepted config layer keepIndicesSorted seqs
        { tables with uniformDecodeMetadata := false } := ⟨haccepted.kvLayer, haccepted.accepts⟩
      rw [wpe_bind]
      unfold clearUniform
      rw [wpe_write, wpe_ite]
      refine ⟨fun _ => ?_, fun hsame => ?_⟩
      · exact wpe_mono (freePartSlotsEach_done hcleared hvalues hseqs) fun _ next hnext => ⟨haccepted, hnext.compacts, hnext.others⟩
      · rw [zip_rowsToKeep]
        refine wpe_mono (compactUniformRowsBounded_done hcleared hvalues hseqs htile fun seq hseq => ?_)
          fun _ next hnext => ⟨haccepted, hnext.compacts, hnext.others⟩
        by_contra hother
        exact hsame (List.any_eq_true.mpr ⟨_, List.mem_map_of_mem hseq, decide_eq_true hother⟩)
    · rintro tables ⟨rfl, hover⟩
      refine ⟨fun h => hover ?_, rfl⟩
      rw [sum_releaseCount hvalid]
      exact ⟨Int.natCast_nonneg _, by exact_mod_cast h.accepts.fits hne⟩
  · rintro tables ⟨rfl, hinvalid⟩
    exact ⟨fun h => hinvalid (validKeep_rowsToKeep.mp h.accepts.valid), rfl⟩

end SlotTables
