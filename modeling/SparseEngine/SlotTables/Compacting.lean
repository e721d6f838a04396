import SparseEngine.SlotTables.Conservation

/-!
# What compactions do to a layer

Each of the ways to compact rows leaves every row with the slots of the
positions to keep, in order, and pushes the slots of the others in the order
of the rows and positions.

`Compacts` is that statement for a list of rows.  It says nothing of the cells
behind the new lengths, in which the ways differ.
-/

namespace LayerSlots

open Routine Cells

variable {numSlots maxRows : ℕ} {slots middle next : LayerSlots}

/-- Rows are compacted to the positions to keep. -/
structure Compacts (entries : List (ℕ × List ℕ)) (slots next : LayerSlots) : Prop where
  stack : next.freeSlots = slots.freeSlots ++
    entries.flatMap fun entry => slots.droppedSlots entry.1 (slots.rowSeqLens entry.1) entry.2
  kept : ∀ entry ∈ entries, next.rowSlots entry.1 = slots.keptSlots entry.1 entry.2
  table : ∀ row ∉ entries.map Prod.fst, next.reqToTokenSlots row = slots.reqToTokenSlots row
  lens : ∀ row ∉ entries.map Prod.fst, next.rowSeqLens row = slots.rowSeqLens row
  seqIdToRow : next.seqIdToRow = slots.seqIdToRow
  freeRows : next.freeRows = slots.freeRows

namespace Compacts

theorem rowSlots {entries : List (ℕ × List ℕ)} (h : Compacts entries slots next) {row : ℕ}
    (hrow : row ∉ entries.map Prod.fst) : next.rowSlots row = slots.rowSlots row := by
  unfold LayerSlots.rowSlots
  rw [h.table row hrow, h.lens row hrow]

theorem nil : Compacts [] slots slots where
  stack := (List.append_nil _).symm
  kept := List.forall_mem_nil _
  table _ _ := rfl
  lens _ _ := rfl
  seqIdToRow := rfl
  freeRows := rfl

/-- Compactions of different rows, one after the other. -/
theorem append {first second : List (ℕ × List ℕ)} (hfirst : Compacts first slots middle)
    (hsecond : Compacts second middle next)
    (hdisjoint : List.Disjoint (first.map Prod.fst) (second.map Prod.fst)) :
    Compacts (first ++ second) slots next where
  stack := by
    have hdropped : (second.flatMap fun entry =>
        middle.droppedSlots entry.1 (middle.rowSeqLens entry.1) entry.2) =
        second.flatMap fun entry =>
          slots.droppedSlots entry.1 (slots.rowSeqLens entry.1) entry.2 := by
      apply List.flatMap_congr
      intro entry hentry
      have hrow := fun hmem => hdisjoint hmem (List.mem_map_of_mem hentry)
      rw [droppedSlots, droppedSlots, hfirst.table _ hrow, hfirst.lens _ hrow]
    rw [hsecond.stack, hfirst.stack, hdropped, List.flatMap_append, List.append_assoc]
  kept := by
    intro entry hentry
    rcases List.mem_append.mp hentry with hentry | hentry
    · rw [hsecond.rowSlots (hdisjoint (List.mem_map_of_mem hentry))]
      exact hfirst.kept entry hentry
    · have hrow := fun hmem => hdisjoint hmem (List.mem_map_of_mem hentry)
      rw [hsecond.kept entry hentry, keptSlots, keptSlots, hfirst.table _ hrow]
  table := by
    intro row hrow
    rw [List.map_append, List.mem_append, not_or] at hrow
    rw [hsecond.table row hrow.2, hfirst.table row hrow.1]
  lens := by
    intro row hrow
    rw [List.map_append, List.mem_append, not_or] at hrow
    rw [hsecond.lens row hrow.2, hfirst.lens row hrow.1]
  seqIdToRow := hsecond.seqIdToRow.trans hfirst.seqIdToRow
  freeRows := hsecond.freeRows.trans hfirst.freeRows

end Compacts

/-- Positions of rows, each once. -/
def ValidKeep (slots : LayerSlots) (entries : List (ℕ × List ℕ)) : Prop :=
  ∀ entry ∈ entries, entry.2.Pairwise (· < ·) ∧ ∀ index ∈ entry.2, index < slots.rowSeqLens entry.1

variable {entries : List (ℕ × List ℕ)} {curLen tile : ℕ} {keep : List ℕ}

/-- A compaction moves the slots that it drops to the stack, and no others. -/
theorem Conserved.compacted (h : slots.Conserved numSlots maxRows)
    (hcompacts : Compacts entries slots next) (hnodup : (entries.map Prod.fst).Nodup)
    (hvalues : ∀ row ∈ entries.map Prod.fst, row ∈ slots.seqIdToRow.values)
    (hvalid : slots.ValidKeep entries) : next.Conserved numSlots maxRows := by
  let share := fun entry : ℕ × List ℕ =>
    (slots.droppedSlots entry.1 (slots.rowSeqLens entry.1) entry.2 : Multiset ℕ)
  refine h.shrunk (entries.map share) hnodup hvalues ?_ hcompacts.seqIdToRow hcompacts.freeRows ?_ ?_
    fun row hrow => hcompacts.rowSlots hrow
  · rw [List.length_map, List.length_map]
  · rw [hcompacts.stack, sum_map_coe, ← Multiset.coe_add]
  · intro pair hpair
    rw [List.zip_map', List.mem_map] at hpair
    obtain ⟨entry, hentry, rfl⟩ := hpair
    obtain ⟨hsorted, hlt⟩ := hvalid entry hentry
    show (slots.rowSlots entry.1 : Multiset ℕ) = next.rowSlots entry.1 + share entry
    rw [hcompacts.kept entry hentry, Multiset.coe_add, Multiset.coe_eq_coe]
    exact (map_keep_append_map_dropped_perm (hsorted.imp fun hlt => hlt.ne) hlt).symm

/-! ## Rows as a whole -/

theorem rowSlots_setRow (row : ℕ) (values : List ℕ) : (slots.setRow row values).rowSlots row = values := by
  unfold setRow setLen rowSlots
  simp only [Function.update_self]
  exact read_write_self

/-- `_apply_free_part_slots` compacts a row. -/
theorem applyFreePartSlots_compacts (row : ℕ) (keep : List ℕ) :
    Compacts [(row, keep)] slots (slots.applyFreePartSlots row (slots.rowSeqLens row) keep) where
  stack := by
    rw [List.flatMap_singleton, ← freeSlots_pushSlots]
    rfl
  kept := by
    intro entry hentry
    obtain rfl := List.mem_singleton.mp hentry
    exact rowSlots_setRow row _
  table other hother := Function.update_of_ne (by simpa using hother) _ _
  lens other hother := Function.update_of_ne (by simpa using hother) _ _
  seqIdToRow := rfl
  freeRows := rfl

/-- Rows that are set one after the other. -/
structure SetsRows (entries : List (ℕ × List ℕ)) (slots next : LayerSlots) : Prop where
  rowSlots : ∀ entry ∈ entries, next.rowSlots entry.1 = entry.2
  table : ∀ row ∉ entries.map Prod.fst, next.reqToTokenSlots row = slots.reqToTokenSlots row
  lens : ∀ row ∉ entries.map Prod.fst, next.rowSeqLens row = slots.rowSeqLens row
  freeSlots : next.freeSlots = slots.freeSlots
  seqIdToRow : next.seqIdToRow = slots.seqIdToRow
  freeRows : next.freeRows = slots.freeRows

theorem setRows_setsRows (slots : LayerSlots) (hnodup : (entries.map Prod.fst).Nodup) :
    SetsRows entries slots (slots.setRows entries) := by
  induction entries generalizing slots with
  | nil => exact ⟨List.forall_mem_nil _, fun _ _ => rfl, fun _ _ => rfl, rfl, rfl, rfl⟩
  | cons first rest ih =>
      rw [List.map_cons, List.nodup_cons] at hnodup
      have hrest : SetsRows rest (slots.setRow first.1 first.2) (slots.setRows (first :: rest)) :=
        ih _ hnodup.2
      refine ⟨?_, ?_, ?_, hrest.freeSlots, hrest.seqIdToRow, hrest.freeRows⟩
      · rw [List.forall_mem_cons]
        refine ⟨?_, hrest.rowSlots⟩
        unfold LayerSlots.rowSlots
        rw [hrest.table _ hnodup.1, hrest.lens _ hnodup.1]
        exact rowSlots_setRow first.1 first.2
      · intro row hrow
        rw [List.map_cons, List.mem_cons, not_or] at hrow
        rw [hrest.table row hrow.2]
        exact Function.update_of_ne hrow.1 _ _
      · intro row hrow
        rw [List.map_cons, List.mem_cons, not_or] at hrow
        rw [hrest.lens row hrow.2]
        exact Function.update_of_ne hrow.1 _ _

/-- `_compact_uniform_row_tile` compacts the rows of the tile. -/
theorem compactUniformRowTile_compacts (hnodup : (entries.map Prod.fst).Nodup)
    (hlens : ∀ entry ∈ entries, slots.rowSeqLens entry.1 = curLen) :
    Compacts entries slots (slots.compactUniformRowTile curLen entries) := by
  have hrows : (entries.map fun entry => (entry.1, slots.keptSlots entry.1 entry.2)).map Prod.fst =
      entries.map Prod.fst := by
    rw [List.map_map]
    rfl
  have hsets := setRows_setsRows (slots.pushSlots
    (entries.flatMap fun entry => slots.droppedSlots entry.1 curLen entry.2)) (hrows.symm ▸ hnodup)
  have htable := hsets.table
  have hlen := hsets.lens
  rw [hrows] at htable hlen
  refine ⟨?_, ?_, htable, hlen, hsets.seqIdToRow, hsets.freeRows⟩
  · have hdropped : (entries.flatMap fun entry =>
        slots.droppedSlots entry.1 (slots.rowSeqLens entry.1) entry.2) =
        entries.flatMap fun entry => slots.droppedSlots entry.1 curLen entry.2 := by
      apply List.flatMap_congr
      intro entry hentry
      rw [hlens entry hentry]
    rw [hdropped, ← freeSlots_pushSlots]
    exact hsets.freeSlots
  · intro entry hentry
    exact hsets.rowSlots _ (List.mem_map_of_mem hentry)

/-! ## Tiles of one row -/

theorem table_writeRow (row column : ℕ) (values : List ℕ) :
    (slots.writeRow row column values).reqToTokenSlots row = write (slots.reqToTokenSlots row) column values :=
  Function.update_self _ _ _

theorem writeRow_nil (row column : ℕ) : slots.writeRow row column [] = slots := by
  unfold writeRow
  rw [write_nil, Function.update_eq_self]

theorem writeRow_writeRow (row column : ℕ) (first second : List ℕ) :
    (slots.writeRow row column first).writeRow row (column + first.length) second =
      slots.writeRow row column (first ++ second) := by
  unfold writeRow
  simp only [Function.update_self, Function.update_idem, write_write_append]

theorem pushSlots_pushSlots (first second : List ℕ) :
    (slots.pushSlots first).pushSlots second = slots.pushSlots (first ++ second) := by
  unfold pushSlots
  simp only [write_write_append, List.length_append, Nat.add_assoc]

theorem foldl_pushSlots (row : ℕ) (keep : List ℕ) (stop : ℕ → ℕ) (starts : List ℕ) :
    starts.foldl (fun slots start =>
        pushSlots (slots.droppedInTile row keep start (stop start)) slots) slots =
      slots.pushSlots (starts.flatMap fun start => slots.droppedInTile row keep start (stop start)) := by
  induction starts generalizing slots with
  | nil =>
      rw [List.foldl_nil, List.flatMap_nil]
      unfold pushSlots
      rw [write_nil, List.length_nil, Nat.add_zero]
  | cons start rest ih =>
      rw [List.foldl_cons, ih, pushSlots_pushSlots, List.flatMap_cons]
      rfl

section

variable (hsorted : keep.Pairwise (· < ·))

include hsorted

/-- A column tile drops what the whole row drops in it. -/
theorem droppedInTile_eq (row curLen tile start : ℕ) :
    slots.droppedInTile row keep start (min curLen (start + tile)) =
      ((((List.range curLen).drop start).take tile).filter fun index => decide (index ∉ keep)).map
        (slots.reqToTokenSlots row) := by
  have hrange : List.range' start (min curLen (start + tile) - start) =
      ((List.range curLen).drop start).take tile := by
    rw [List.range_eq_range', List.drop_range', Nat.zero_add, Nat.mul_one]
    rcases Nat.le_total (curLen - start) tile with hle | hle
    · rw [List.take_range'_of_length_le hle]
      congr 1
      omega
    · rw [List.take_range'_of_length_ge hle]
      congr 1
      omega
  unfold droppedInTile
  rw [← hrange]
  refine congrArg (List.map _) ?_
  apply List.filter_congr
  intro index hindex
  rw [List.mem_range'_1] at hindex
  rw [slice_countP_lt hsorted (by omega)]
  simp only [List.mem_filter, decide_eq_true_eq, decide_eq_decide]
  exact not_congr ⟨fun h => h.1, fun h => ⟨h, by omega⟩⟩

/-- The tiles drop what the whole row drops. -/
theorem flatMap_droppedInTile (htile : 0 < tile) (row curLen : ℕ) :
    ((tileStarts curLen tile).flatMap fun start =>
        slots.droppedInTile row keep start (min curLen (start + tile))) =
      slots.droppedSlots row curLen keep := by
  have htiles := flatMap_tiles (List.range curLen) htile
  rw [List.length_range] at htiles
  simp only [droppedInTile_eq hsorted]
  unfold droppedSlots dropped
  conv_rhs => rw [← htiles]
  rw [List.filter_flatMap, List.map_flatMap]

/-- A sorted list of distinct indices has each at or behind its position. -/
theorem le_getElem (position : ℕ) (hposition : position < keep.length) :
    position ≤ keep[position] := by
  induction position with
  | zero => exact Nat.zero_le _
  | succ position ih =>
      have hbefore := ih (by omega)
      have hlt := List.pairwise_iff_getElem.mp hsorted position (position + 1) (by omega) hposition
        (Nat.lt_succ_self position)
      omega

theorem le_of_mem_drop {start index : ℕ} (hindex : index ∈ keep.drop start) : start ≤ index := by
  obtain ⟨position, hposition, rfl⟩ := List.mem_iff_getElem.mp hindex
  rw [List.getElem_drop]
  have hle := le_getElem hsorted (start + position) (by rw [List.length_drop] at hposition; omega)
  omega

/-- Tiles copied to the front of a row, in order: a tile does not touch what a
later one reads. -/
theorem copyTiles (tile row count : ℕ) :
    ((List.range count).map (· * tile)).foldl (fun slots start =>
        writeRow row start (slots.keptSlots row ((keep.drop start).take
          (min keep.length (start + tile) - start))) slots) slots =
      slots.writeRow row 0 (slots.keptSlots row (keep.take (count * tile))) := by
  induction count with
  | zero =>
      rw [Nat.zero_mul, List.take_zero]
      exact (writeRow_nil row 0).symm
  | succ count ih =>
      rw [List.range_succ, List.map_append, List.foldl_append, ih, List.map_singleton,
        List.foldl_cons, List.foldl_nil]
      have htake : (keep.drop (count * tile)).take (min keep.length (count * tile + tile) - count * tile) =
          (keep.drop (count * tile)).take tile := by
        rw [List.take_eq_take_iff, List.length_drop]
        omega
      have hkept : (slots.writeRow row 0 (slots.keptSlots row (keep.take (count * tile)))).keptSlots row
          ((keep.drop (count * tile)).take tile) =
          slots.keptSlots row ((keep.drop (count * tile)).take tile) := by
        apply List.map_congr_left
        intro index hindex
        have hle := le_of_mem_drop hsorted (List.mem_of_mem_take hindex)
        have hlength : (slots.keptSlots row (keep.take (count * tile))).length ≤ count * tile := by
          unfold keptSlots
          rw [List.length_map, List.length_take]
          omega
        rw [table_writeRow]
        exact write_above (by omega)
      rw [htake, hkept, Nat.succ_mul, List.take_add]
      unfold keptSlots
      rw [List.map_append, ← writeRow_writeRow, Nat.zero_add, List.length_map, List.length_take]
      rcases Nat.le_total (count * tile) keep.length with hle | hle
      · rw [Nat.min_eq_left hle]
      · -- nothing is left to copy
        rw [List.drop_eq_nil_of_le hle, List.take_nil, List.map_nil, writeRow_nil, writeRow_nil]

/-- `_compact_single_row_column_tiles` compacts the row. -/
theorem compactSingleRowColumnTiles_compacts (htile : 0 < tile) (row : ℕ) :
    Compacts [(row, keep)] slots (slots.compactSingleRowColumnTiles tile row (slots.rowSeqLens row) keep) := by
  have hcopied : (tileStarts keep.length tile).foldl (fun slots start =>
      writeRow row start (slots.keptSlots row ((keep.drop start).take
        (min keep.length (start + tile) - start))) slots)
      (slots.pushSlots (slots.droppedSlots row (slots.rowSeqLens row) keep)) =
      (slots.pushSlots (slots.droppedSlots row (slots.rowSeqLens row) keep)).writeRow row 0
        (slots.keptSlots row keep) := by
    have hall := flatMap_take_tiles keep tile ((keep.length + tile - 1) / tile)
    have htiles := flatMap_tiles keep htile
    unfold tileStarts at htiles ⊢
    rw [copyTiles hsorted, ← hall, htiles]
    rfl
  unfold compactSingleRowColumnTiles
  simp only [foldl_pushSlots, flatMap_droppedInTile hsorted htile, hcopied]
  refine ⟨?_, ?_, ?_, ?_, rfl, rfl⟩
  · rw [List.flatMap_singleton, ← freeSlots_pushSlots]
    rfl
  · intro entry hentry
    obtain rfl := List.mem_singleton.mp hentry
    have hlength : (slots.keptSlots row keep).length = keep.length := List.length_map _
    unfold rowSlots setLen
    simp only [Function.update_self, table_writeRow]
    calc Cells.read (fun column => if column < keep.length then
          write (slots.reqToTokenSlots row) 0 (slots.keptSlots row keep) column else 0) 0 keep.length
        = Cells.read (write (slots.reqToTokenSlots row) 0 (slots.keptSlots row keep)) 0 keep.length := by
          apply read_congr
          intro column _ hlt
          rw [Nat.zero_add] at hlt
          exact if_pos hlt
      _ = slots.keptSlots row keep := by rw [← hlength, read_write_self]
  · intro other hother
    have hne : other ≠ row := by simpa using hother
    unfold setLen writeRow
    simp only [Function.update_of_ne hne]
    rfl
  · intro other hother
    exact Function.update_of_ne (by simpa using hother) _ _

end

/-! ## Rows of one length -/

/-- Groups of rows, one after the other. -/
theorem Compacts.foldl (slots : LayerSlots) {Item : Type} (items : List Item)
    (group : Item → List (ℕ × List ℕ)) (update : Item → LayerSlots → LayerSlots)
    (hgroup : ∀ item ∈ items, ∀ slots : LayerSlots,
      (∀ entry ∈ group item, slots.rowSeqLens entry.1 = curLen) → Compacts (group item) slots (update item slots))
    (hnodup : ((items.flatMap group).map Prod.fst).Nodup)
    (hlens : ∀ entry ∈ items.flatMap group, slots.rowSeqLens entry.1 = curLen) :
    Compacts (items.flatMap group) slots (items.foldl (fun slots item => update item slots) slots) := by
  induction items generalizing slots with
  | nil => exact .nil
  | cons item rest ih =>
      rw [List.flatMap_cons, List.map_append] at hnodup
      rw [List.flatMap_cons] at hlens ⊢
      have hdisjoint := List.disjoint_of_nodup_append hnodup
      have hfirst := hgroup item List.mem_cons_self slots fun entry hentry =>
        hlens entry (List.mem_append_left _ hentry)
      refine hfirst.append (ih _ (fun other hother => hgroup other (List.mem_cons_of_mem _ hother))
        hnodup.of_append_right fun entry hentry => ?_) hdisjoint
      rw [hfirst.lens _ fun hmem => hdisjoint hmem (List.mem_map_of_mem hentry)]
      exact hlens entry (List.mem_append_right _ hentry)

/-- `_compact_uniform_rows_bounded` compacts the rows. -/
theorem compactUniformRowsBounded_compacts (htile : 0 < tile)
    (hnodup : (entries.map Prod.fst).Nodup) (hsorted : ∀ entry ∈ entries, entry.2.Pairwise (· < ·))
    (hlens : ∀ entry ∈ entries, slots.rowSeqLens entry.1 = curLen) :
    Compacts entries slots (slots.compactUniformRowsBounded tile curLen entries) := by
  unfold compactUniformRowsBounded
  split
  · have hrows : 0 < max 1 (tile / max 1 curLen) := by omega
    have htiles := flatMap_tiles entries hrows
    have hall := Compacts.foldl slots (tileStarts entries.length (max 1 (tile / max 1 curLen)))
      (fun start => (entries.drop start).take (max 1 (tile / max 1 curLen)))
      (fun start => compactUniformRowTile curLen ((entries.drop start).take (max 1 (tile / max 1 curLen))))
      (fun start _ (slots : LayerSlots) hgroup => compactUniformRowTile_compacts
        (hnodup.sublist (((List.take_sublist _ _).trans (List.drop_sublist _ _)).map _)) hgroup)
    rw [htiles] at hall
    exact hall hnodup hlens
  · have hall := Compacts.foldl slots entries (fun entry => [entry])
      (fun entry => compactSingleRowColumnTiles tile entry.1 curLen entry.2)
      (fun entry hentry (slots : LayerSlots) hlen => by
        have hlen' : slots.rowSeqLens entry.1 = curLen := hlen entry (List.mem_singleton_self entry)
        rw [← hlen']
        exact compactSingleRowColumnTiles_compacts (hsorted entry hentry) htile entry.1)
    rw [List.flatMap_singleton'] at hall
    exact hall hnodup hlens

/-! ## The sink and the recent window -/

theorem writeRows_of_not_mem {entries : List ((ℕ × ℕ) × List ℕ)} {row : ℕ}
    (hrow : row ∉ entries.map fun entry => entry.1.1) :
    (slots.writeRows entries).reqToTokenSlots row = slots.reqToTokenSlots row := by
  induction entries generalizing slots with
  | nil => rfl
  | cons first rest ih =>
      rw [List.map_cons, List.mem_cons, not_or] at hrow
      refine (ih hrow.2).trans ?_
      exact Function.update_of_ne hrow.1 _ _

theorem writeRows_of_mem (slots : LayerSlots) {entries : List ((ℕ × ℕ) × List ℕ)}
    (hnodup : (entries.map fun entry => entry.1.1).Nodup) : ∀ entry ∈ entries,
      (slots.writeRows entries).reqToTokenSlots entry.1.1 =
        write (slots.reqToTokenSlots entry.1.1) entry.1.2 entry.2 := by
  induction entries generalizing slots with
  | nil => exact List.forall_mem_nil _
  | cons first rest ih =>
      rw [List.map_cons, List.nodup_cons] at hnodup
      rw [List.forall_mem_cons]
      constructor
      · refine (writeRows_of_not_mem hnodup.1).trans ?_
        exact table_writeRow first.1.1 first.1.2 first.2
      · intro entry hentry
        have hne : entry.1.1 ≠ first.1.1 := by
          intro heq
          apply hnodup.1
          rw [← heq]
          exact List.mem_map_of_mem hentry
        refine (ih _ hnodup.2 entry hentry).trans ?_
        unfold writeRow
        simp only [Function.update_of_ne hne]

/-- A write to rows leaves everything but the table alone. -/
theorem writeRows_eq (entries : List ((ℕ × ℕ) × List ℕ)) :
    slots.writeRows entries =
      { slots with reqToTokenSlots := (slots.writeRows entries).reqToTokenSlots } := by
  induction entries generalizing slots with
  | nil => rfl
  | cons first rest ih => exact ih

/-- The positions that a prefix and recent window keeps. -/
def prefixRecentKeep (kvLen sinkEnd recentStart : ℕ) : List ℕ :=
  List.range' 0 sinkEnd ++ List.range' recentStart (kvLen - recentStart)

variable {kvLen sinkEnd recentStart : ℕ}

theorem dropped_prefixRecentKeep (hsink : sinkEnd ≤ recentStart) (hrecent : recentStart ≤ kvLen) :
    dropped (prefixRecentKeep kvLen sinkEnd recentStart) kvLen = List.range' sinkEnd (recentStart - sinkEnd) := by
  have hrange : List.range kvLen = List.range' 0 sinkEnd ++ (List.range' sinkEnd (recentStart - sinkEnd) ++
      List.range' recentStart (kvLen - recentStart)) := by
    rw [range'_append_range' hsink hrecent, List.range_eq_range']
    exact (range'_append_range' (Nat.zero_le sinkEnd) (hsink.trans hrecent)).symm
  unfold dropped
  rw [hrange, List.filter_append, List.filter_append]
  have hleading : (List.range' 0 sinkEnd).filter (fun index =>
      decide (index ∉ prefixRecentKeep kvLen sinkEnd recentStart)) = [] := by
    apply List.filter_eq_nil_iff.mpr
    intro index hindex
    simp [prefixRecentKeep, hindex]
  have hmiddle : (List.range' sinkEnd (recentStart - sinkEnd)).filter (fun index =>
      decide (index ∉ prefixRecentKeep kvLen sinkEnd recentStart)) =
      List.range' sinkEnd (recentStart - sinkEnd) := by
    apply List.filter_eq_self.mpr
    intro index hindex
    rw [List.mem_range'_1] at hindex
    simp only [prefixRecentKeep, List.mem_append, List.mem_range'_1, decide_eq_true_eq]
    omega
  have hwindow : (List.range' recentStart (kvLen - recentStart)).filter (fun index =>
      decide (index ∉ prefixRecentKeep kvLen sinkEnd recentStart)) = [] := by
    apply List.filter_eq_nil_iff.mpr
    intro index hindex
    simp [prefixRecentKeep, hindex]
  rw [hleading, hmiddle, hwindow, List.nil_append, List.append_nil]

/-- `free_prefix_recent_slots_batch_layers` compacts the rows of a layer. -/
theorem freePrefixRecentSlots_compacts {rows : List ℕ} (hnodup : rows.Nodup)
    (hlens : ∀ row ∈ rows, slots.rowSeqLens row = kvLen) (hsink : sinkEnd ≤ recentStart)
    (hrecent : recentStart ≤ kvLen) :
    Compacts (rows.map fun row => (row, prefixRecentKeep kvLen sinkEnd recentStart)) slots
      (slots.freePrefixRecentSlots rows kvLen sinkEnd recentStart) := by
  have hkeys : (rows.map fun row => (row, prefixRecentKeep kvLen sinkEnd recentStart)).map Prod.fst =
      rows := by
    rw [List.map_map]
    exact List.map_id' rows
  let newLen := sinkEnd + (kvLen - recentStart)
  let pushed := slots.pushSlots (rows.flatMap fun row =>
    Cells.read (slots.reqToTokenSlots row) sinkEnd (recentStart - sinkEnd))
  let moved := pushed.writeRows (rows.map fun row =>
    ((row, sinkEnd), Cells.read (slots.reqToTokenSlots row) recentStart (kvLen - recentStart)))
  let cleared := moved.writeRows (rows.map fun row =>
    ((row, newLen), List.replicate (kvLen - newLen) 0))
  show Compacts _ slots { cleared with
    rowSeqLens := fun row => if row ∈ rows then newLen else cleared.rowSeqLens row }
  -- the two writes change the tables of rows only:
  have hmoved : moved = { pushed with reqToTokenSlots := moved.reqToTokenSlots } := writeRows_eq _
  have hcleared : cleared = { pushed with reqToTokenSlots := cleared.reqToTokenSlots } := calc
    cleared = { moved with reqToTokenSlots := cleared.reqToTokenSlots } := writeRows_eq _
    _ = { pushed with reqToTokenSlots := cleared.reqToTokenSlots } :=
      congrArg (fun slots : LayerSlots =>
        { slots with reqToTokenSlots := cleared.reqToTokenSlots }) hmoved
  have hrowsOf : ∀ values : ℕ → List ℕ, ∀ column : ℕ,
      ((rows.map fun row => ((row, column), values row)).map fun entry => entry.1.1) = rows := by
    intro values column
    rw [List.map_map]
    exact List.map_id' rows
  have hout : ∀ row ∉ rows, cleared.reqToTokenSlots row = slots.reqToTokenSlots row := by
    intro row hrow
    refine (writeRows_of_not_mem (by rwa [hrowsOf])).trans ?_
    exact writeRows_of_not_mem (by rwa [hrowsOf])
  -- a row is its sink, the recent tokens behind it, and zeros:
  have hin : ∀ row ∈ rows, cleared.reqToTokenSlots row = write (write (slots.reqToTokenSlots row) sinkEnd
      (Cells.read (slots.reqToTokenSlots row) recentStart (kvLen - recentStart))) newLen
      (List.replicate (kvLen - newLen) 0) := by
    intro row hrow
    refine (writeRows_of_mem _ (by rwa [hrowsOf]) _ (List.mem_map_of_mem hrow)).trans ?_
    exact congrArg (fun cells => write cells newLen _)
      (writeRows_of_mem _ (by rwa [hrowsOf]) _ (List.mem_map_of_mem hrow))
  refine ⟨?_, ?_, ?_, ?_, ?_, ?_⟩
  · show cleared.freeSlots = _
    rw [hcleared, List.flatMap_map]
    refine (freeSlots_pushSlots _).trans (congrArg _ ?_)
    apply List.flatMap_congr
    intro row hrow
    rw [droppedSlots, hlens row hrow, dropped_prefixRecentKeep hsink hrecent]
    rfl
  · intro entry hentry
    obtain ⟨row, hrow, rfl⟩ := List.mem_map.mp hentry
    have hlength : newLen = sinkEnd + (Cells.read (slots.reqToTokenSlots row) recentStart
        (kvLen - recentStart)).length := by
      rw [length_read]
    show Cells.read (cleared.reqToTokenSlots row) 0 (if row ∈ rows then newLen else _) = _
    rw [hin row hrow, if_pos hrow, read_write_below (Nat.zero_add newLen).le, hlength,
      read_write_append, keptSlots, prefixRecentKeep, List.map_append]
    rfl
  · intro row hrow
    rw [hkeys] at hrow
    exact hout row hrow
  · intro row hrow
    rw [hkeys] at hrow
    show (if row ∈ rows then newLen else cleared.rowSeqLens row) = _
    rw [if_neg hrow, hcleared]
    rfl
  · show cleared.seqIdToRow = _
    rw [hcleared]
    rfl
  · show cleared.freeRows = _
    rw [hcleared]
    rfl

end LayerSlots
