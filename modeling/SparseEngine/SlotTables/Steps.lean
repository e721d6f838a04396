import Mathlib.Algebra.BigOperators.Intervals
import SparseEngine.SlotTables.Compacting

/-!
# Calls of the manager

What a call on one layer keeps, a loop of it over the layers keeps on each.
The calls that move slots on all layers at once keep every layer conserved as
long as the layers have the rows, lengths and slots of the first one.
-/

namespace LayerSlots

open Routine Cells SlotTables

variable {Id : Type} {config : SlotConfig} {numSlots maxRows : ℕ} {slots next : LayerSlots}

/-! ## Prefill on one layer -/

theorem maintains_getFreeRow (seqId : ℕ) :
    Maintains (Conserved numSlots maxRows) (getFreeRow seqId) := fun _ h =>
  wpe_imp (getFreeRow_wpe h seqId) (fun _ _ hnext => hnext.1) fun _ hnext => hnext ▸ h

/-- What the loop over the sequences of a batched prefill finds on a layer. -/
structure Entered (seqIds : List ℕ) (entries : List (ℕ × ℕ)) (slots : LayerSlots) : Prop where
  rows : slots.RowsOf seqIds (entries.map Prod.fst)
  lens : ∀ entry ∈ entries, entry.2 = slots.rowSeqLens entry.1

theorem prefillRows_wpe (h : slots.Conserved numSlots maxRows) (chunkSize : ℤ) (seqs : List (ChainSequence Id)) :
    wpe (mapEach (prefillRow config chunkSize) seqs) (fun entries next =>
        next.Conserved numSlots maxRows ∧ Taken slots next ∧ next.Entered (seqs.map ChainSequence.seqId) entries)
      (fun next => next.Conserved numSlots maxRows ∧ Taken slots next) slots := by
  induction seqs generalizing slots with
  | nil => exact ⟨h, .refl, rfl, List.forall_mem_nil _⟩
  | cons seq rest ih =>
      rw [mapEach, wpe_bind]
      unfold prefillRow
      refine wpe_then_imp (getFreeRow_wpe h seq.seqId) ?_ ?_
      · intro row middle hmiddle
        obtain ⟨hmiddle, htaken, hrow⟩ := hmiddle
        rw [wpe_get, wpe_guard]
        refine ⟨fun _ => ⟨hmiddle, htaken⟩, fun _ => ?_⟩
        rw [wpe_guard]
        refine ⟨fun _ => ⟨hmiddle, htaken⟩, fun _ => ?_⟩
        rw [wpe_pure]
        refine wpe_then_imp (ih hmiddle) ?_ ?_
        · intro entries next hnext
          obtain ⟨hnext, hrest, hentered⟩ := hnext
          rw [wpe_pure]
          refine ⟨hnext, htaken.trans hrest, ?_, ?_⟩
          · unfold RowsOf
            rw [List.map_cons, List.map_cons, List.map_cons, List.map_cons, hentered.rows,
              hrest.kept seq.seqId row hrow]
          · rw [List.forall_mem_cons, hrest.lens]
            exact ⟨rfl, hrest.lens ▸ hentered.lens⟩
        · intro next hnext
          exact ⟨hnext.1, htaken.trans hnext.2⟩
      · rintro next rfl
        exact ⟨h, .refl⟩

/-- The blocks of a batch are the top of the stack. -/
theorem sum_prefillSlots (batchSize chunkSize : ℕ) :
    ((prefillSlots slots.freeSlotsStack slots.numFreeSlots batchSize chunkSize).map
        fun block : List ℕ => (block : Multiset ℕ)).sum = slots.topSlots (batchSize * chunkSize) := by
  have hblocks : ∀ count, ∑ index ∈ Finset.range count,
      (Cells.read slots.freeSlotsStack
        (slots.numFreeSlots - batchSize * chunkSize + index * chunkSize) chunkSize : Multiset ℕ) =
      Cells.read slots.freeSlotsStack (slots.numFreeSlots - batchSize * chunkSize) (count * chunkSize) := by
    intro count
    induction count with
    | zero =>
        rw [Nat.zero_mul]
        rfl
    | succ count ih => rw [Finset.sum_range_succ, ih, Nat.succ_mul, read_add, ← Multiset.coe_add]
  unfold prefillSlots topSlots
  rw [← hblocks, List.map_map, ← Finset.sum_range_reflect]
  rfl

/-- A batched prefill gives every row a block. -/
theorem Conserved.prefilled (h : slots.Conserved numSlots maxRows) {entries : List (ℕ × ℕ)}
    (hnodup : (entries.map Prod.fst).Nodup) (hvalues : ∀ row ∈ entries.map Prod.fst, row ∈ slots.seqIdToRow.values)
    (hlens : ∀ entry ∈ entries, entry.2 = slots.rowSeqLens entry.1) {chunkSize : ℕ}
    (hcount : entries.length * chunkSize ≤ slots.numFreeSlots) :
    (writePrefill entries (prefillSlots slots.freeSlotsStack slots.numFreeSlots entries.length chunkSize)
      chunkSize slots).Conserved numSlots maxRows := by
  let selected := prefillSlots slots.freeSlotsStack slots.numFreeSlots entries.length chunkSize
  have hselected : selected.length = entries.length := by simp [selected, prefillSlots]
  have hblock : ∀ block ∈ selected, block.length = chunkSize := by
    intro block hblock
    obtain ⟨index, _, rfl⟩ := List.mem_map.mp hblock
    exact length_read
  have hkeys : (entries.zip selected).map (fun entry => entry.1.1) = entries.map Prod.fst := by
    calc (entries.zip selected).map (fun entry => entry.1.1)
        = ((entries.zip selected).map Prod.fst).map Prod.fst := (List.map_map).symm
      _ = entries.map Prod.fst := by rw [List.map_fst_zip hselected.ge]
  have heq : slots.writeRows (entries.zip selected) = { slots with
      reqToTokenSlots := (slots.writeRows (entries.zip selected)).reqToTokenSlots } := writeRows_eq _
  unfold writePrefill
  rw [heq]
  refine h.grown (selected.map fun block : List ℕ => (block : Multiset ℕ)) hnodup hvalues ?_ rfl rfl ?_ ?_ ?_
  · rw [List.length_map, List.length_map, hselected]
  · rw [sum_prefillSlots, ← freeSlots_lowerStack hcount, ← Multiset.coe_add]
    rfl
  · intro pair hpair
    rw [List.zip_map, List.mem_map] at hpair
    obtain ⟨⟨⟨row, len⟩, block⟩, hmem, rfl⟩ := hpair
    have hentry : (row, len) ∈ entries := (List.of_mem_zip hmem).1
    have hrow : row ∈ entries.map Prod.fst := List.mem_map_of_mem hentry
    obtain rfl : len = slots.rowSeqLens row := hlens _ hentry
    have htable := writeRows_of_mem slots (hkeys.symm ▸ hnodup) _ hmem
    have hread : Cells.read (write (slots.reqToTokenSlots row) (slots.rowSeqLens row) block) 0
        (slots.rowSeqLens row + block.length) = slots.rowSlots row ++ block := read_write_append
    rw [hblock block (List.of_mem_zip hmem).2] at hread
    show ((Cells.read ((slots.writeRows (entries.zip selected)).reqToTokenSlots row) 0
      (if row ∈ entries.map Prod.fst then slots.rowSeqLens row + chunkSize else _) : List ℕ) :
        Multiset ℕ) = _
    rw [htable, if_pos hrow, hread, ← Multiset.coe_add]
    rfl
  · intro row hrow
    refine (rowSlots_addLens_of_not_mem hrow).trans ?_
    show Cells.read ((slots.writeRows (entries.zip selected)).reqToTokenSlots row) 0 _ = _
    rw [writeRows_of_not_mem (hkeys.symm ▸ hrow)]
    rfl

end LayerSlots

namespace SlotTables

open Routine Cells

variable {Id : Type} {config : SlotConfig} {tables : SlotTables}

/-- Every layer is conserved. -/
def Conserved (config : SlotConfig) (tables : SlotTables) : Prop :=
  ∀ layer < config.numKvLayers,
    (tables.layers layer).Conserved (config.layerNumSlots layer) config.maxBufferRows

theorem conserved_start : Conserved config (start config) := fun _ _ => LayerSlots.conserved_fresh

variable {layer : ℕ} {bad : SlotTables → Prop} {seqs : List (ChainSequence Id)}
  {good : LayerSlots → Prop} {seqIds rows : List ℕ} {post : Unit → SlotTables → Prop}

theorem mem_layerIds : layer ∈ layerIds config ↔ layer < config.numKvLayers :=
  List.mem_range

theorem not_any_layerIds {test : ℕ → Prop} [DecidablePred test] :
    ¬ ((layerIds config).any fun layer => decide (test layer)) = true ↔
      ∀ layer < config.numKvLayers, ¬ test layer := by
  simp [layerIds]

theorem getD_map_layerIds {α : Type} (value : ℕ → α) (default : α) (hlayer : layer < config.numKvLayers) :
    ((layerIds config).map value).getD layer default = value layer := by
  simp [layerIds, hlayer]

theorem layers_updateLayers (update : ℕ → LayerSlots → LayerSlots) (hlayer : layer < config.numKvLayers) :
    (updateLayers config update tables).layers layer = update layer (tables.layers layer) :=
  if_pos hlayer

theorem Conserved.setLayer (h : Conserved config tables) {slots : LayerSlots}
    (hslots : slots.Conserved (config.layerNumSlots layer) config.maxBufferRows) :
    Conserved config { tables with layers := Function.update tables.layers layer slots } := by
  intro other hother
  by_cases heq : other = layer
  · subst heq
    simp only [Function.update_self]
    exact hslots
  · simp only [Function.update_of_ne heq]
    exact h other hother

theorem maintains_onLayer {α : Type} {m : Routine LayerSlots α} (hlayer : layer < config.numKvLayers)
    (hm : Maintains (LayerSlots.Conserved (config.layerNumSlots layer) config.maxBufferRows) m) :
    Maintains (Conserved config) (onLayer layer m) :=
  hm.focus (fun _ h => h layer hlayer) fun _ _ h hslots => h.setLayer hslots

/-- A call on one layer, with what it finds there. -/
theorem onLayer_wpe {α : Type} {m : Routine LayerSlots α} {post : α → SlotTables → Prop} (hm : wpe m
      (fun value slots => post value { tables with layers := Function.update tables.layers layer slots })
      (fun slots => bad { tables with layers := Function.update tables.layers layer slots })
      (tables.layers layer)) : wpe (onLayer layer m) post bad tables :=
  wpe_focus.mpr hm

/-! ## Prefill -/

theorem maintains_allocatePrefillBatch (hnodup : (seqs.map ChainSequence.seqId).Nodup) :
    Maintains (Conserved config) (allocatePrefillBatch config seqs) := by
  intro tables h
  unfold allocatePrefillBatch
  generalize ((seqs.head?).map ChainSequence.chunkSize).getD 0 = chunkSize
  simp only
  split
  · exact h
  · next hchunk =>
    rw [wpe_get]
    refine wpe_guarded h fun hfree => ?_
    rw [not_any_layerIds] at hfree
    -- first the rows of each layer are entered, one layer after the other
    refine wpe_then_imp (wpe_mapEach_range config.numKvLayers
      (fun done current => Conserved config current ∧
        (∀ layer < config.numKvLayers, LayerSlots.Taken (tables.layers layer) (current.layers layer)) ∧
        ∀ layer < done.length, (current.layers layer).Entered (seqs.map ChainSequence.seqId) (done.getD layer []))
      (Conserved config) ⟨h, fun _ _ => .refl, fun layer hlayer => absurd hlayer (Nat.not_lt_zero _)⟩
      ?_) ?_ fun _ hnext => hnext
    · intro done hdone current hcurrent
      obtain ⟨hcurrent, htaken, hentered⟩ := hcurrent
      apply onLayer_wpe
      refine wpe_imp (LayerSlots.prefillRows_wpe (hcurrent _ hdone) chunkSize seqs) ?_ ?_
      · intro entries slots hslots
        obtain ⟨hslots, hlayerTaken, hlayerEntered⟩ := hslots
        refine ⟨hcurrent.setLayer hslots, fun layer hlayer => ?_, fun layer hlayer => ?_⟩
        · by_cases heq : layer = done.length
          · subst heq
            simp only [Function.update_self]
            exact (htaken _ hlayer).trans hlayerTaken
          · simp only [Function.update_of_ne heq]
            exact htaken layer hlayer
        · rw [List.length_append, List.length_singleton] at hlayer
          by_cases heq : layer = done.length
          · subst heq
            simpa only [Function.update_self, List.getD_append_right, Nat.le_refl, Nat.sub_self,
              List.getD_cons_zero] using hlayerEntered
          · have hlt : layer < done.length := by omega
            simpa only [Function.update_of_ne heq, List.getD_append, hlt] using hentered layer hlt
      · intro slots hslots
        exact hcurrent.setLayer hslots.1
    · intro entries current hcurrent
      obtain ⟨hlength, hcurrent, htaken, hentered⟩ := hcurrent
      rw [wpe_get, wpe_set, wpe_pure]
      intro layer hlayer
      rw [layers_updateLayers _ hlayer, getD_map_layerIds _ _ hlayer]
      have hlayerEntered := hentered layer (hlength ▸ hlayer)
      have hbatch := hlayerEntered.rows.length_eq
      rw [List.length_map, List.length_map] at hbatch
      -- then all layers are written at once; aligned ones share the pointer of the first:
      have hptr : ∀ aligned : Bool, (aligned = true →
          (current.layers layer).numFreeSlots = (current.layers 0).numFreeSlots) →
          (if aligned then (current.layers 0).numFreeSlots else (current.layers layer).numFreeSlots) =
            (current.layers layer).numFreeSlots := by
        intro aligned haligned
        split
        · next htrue => exact (haligned htrue).symm
        · rfl
      rw [hptr, ← hbatch]
      · apply (hcurrent layer hlayer).prefilled (hlayerEntered.rows.nodup (hcurrent layer hlayer) hnodup)
          hlayerEntered.rows.mem_values hlayerEntered.lens
        rw [hbatch, (htaken layer hlayer).height]
        exact Nat.not_lt.mp (hfree layer hlayer)
      · intro haligned
        simpa using List.all_eq_true.mp haligned layer (mem_layerIds.mpr hlayer)

theorem maintains_checkRowLen (staging : ScoringConfig.PrefillStaging) (seq : ChainSequence Id)
    (residentPrefixLen : ℕ) : Maintains good (checkRowLen staging seq residentPrefixLen) :=
  .bind .read fun _ => .raiseIf _ _

theorem maintains_residentPrefixLen (staging : ScoringConfig.PrefillStaging)
    (seq : ChainSequence Id) : Maintains good (residentPrefixLen staging seq) := by
  apply Maintains.ite
  · refine .bind .read fun slots => ?_
    split
    · exact .raise _
    · exact .pure _
  · exact .pure 0

theorem maintains_prefillLayer (staging : ScoringConfig.PrefillStaging) (seq : ChainSequence Id)
    (tokenOffset : ℤ) (hlayer : layer < config.numKvLayers) :
    Maintains (Conserved config) (prefillLayer config staging seq tokenOffset layer) := by
  apply Maintains.ite
  · apply maintains_onLayer hlayer
    refine .bind (maintains_checkRowLen _ _ _) fun _ => ?_
    refine .bind (LayerSlots.maintains_allocate _ _ _ _) fun _ => ?_
    exact .bind .read fun _ => .bind (.ofExcept _) fun _ => .pure _
  · have hstage : Maintains (Conserved config) (onLayer layer (stagePrefill config staging seq tokenOffset)) := by
      apply maintains_onLayer hlayer
      refine .bind (maintains_residentPrefixLen _ _) fun _ => ?_
      refine .bind (maintains_checkRowLen _ _ _) fun _ => .bind (.raiseIf _ _) fun _ => ?_
      exact .bind (LayerSlots.maintains_getFreeRow _) fun _ => .bind (.raiseIf _ _) fun _ => .pure _
    refine .bind hstage fun staged => ?_
    exact .bind (.whenDo (.write fun _ h => h)) fun _ => .pure _

theorem maintains_prefillSeqs (staging : ScoringConfig.PrefillStaging) (seqs : List (ChainSequence Id))
    (tokenOffset : ℤ) : Maintains (Conserved config) (prefillSeqs config staging seqs tokenOffset) := by
  induction seqs generalizing tokenOffset with
  | nil => exact .pure _
  | cons seq rest ih =>
      refine .bind (.raiseIf _ _) fun _ => ?_
      refine .bind (.mapEach fun layer hlayer => ?_) fun _ => .bind (ih _) fun _ => .pure _
      exact maintains_prefillLayer staging seq tokenOffset (mem_layerIds.mp hlayer)

theorem maintains_preparePrefill (staging : ScoringConfig.PrefillStaging)
    (hnodup : (seqs.map ChainSequence.seqId).Nodup) :
    Maintains (Conserved config) (preparePrefill config staging seqs) := by
  refine .bind (.write fun _ h => h) fun _ => .bind (.raiseIf _ _) fun _ => ?_
  refine .bind ?_ fun batched => ?_
  · apply Maintains.ite
    · exact maintains_allocatePrefillBatch hnodup
    · exact .pure none
  · cases batched with
    | some mapping => exact .bind (.forEach fun _ _ => .raiseIf _ _) fun _ => .pure _
    | none =>
        refine .bind (maintains_prefillSeqs staging seqs 0) fun _ => ?_
        exact .bind (.whenDo (.write fun _ h => h)) fun _ => .pure _

/-! ## Decode -/

/-- The sequences of a batch have one row each on all layers, of one length. -/
def UniformBatch (config : SlotConfig) (seqIds : List ℕ) (tables : SlotTables) : Prop :=
  ∃ rows, ∀ layer < config.numKvLayers, tables.matchesFirst seqIds rows layer

/-- What the tensor fast path takes for granted. -/
def TensorFits (config : SlotConfig) (seqIds : List ℕ) (tables : SlotTables) : Prop :=
  UniformBatch config seqIds tables ∧
    (∀ layer < config.numKvLayers,
      (tables.layers layer).numFreeSlots = (tables.layers 0).numFreeSlots) ∧
    (tables.layers 0).HasRoom config.maxModelLen seqIds

/-- What the branch for each layer by itself takes for granted of the layers it
comes to: those before the first one without slots for the batch. -/
def LayersFit (config : SlotConfig) (seqIds : List ℕ) (tables : SlotTables) : Prop :=
  ∀ layer < config.numKvLayers,
    (∀ reached ≤ layer, seqIds.length ≤ (tables.layers reached).numFreeSlots) →
      (tables.layers layer).HasRoom config.maxModelLen seqIds

/-- What `_prepare_decode_static_uniform` takes for granted. -/
def StaticFits (config : SlotConfig) (seqIds : List ℕ) (tables : SlotTables) : Prop :=
  UniformBatch config seqIds tables ∧
    ∀ layer < config.numKvLayers, (tables.layers layer).topSlots seqIds.length =
      (tables.layers 0).topSlots seqIds.length

/-- The rows that the sequences of a batch have in common are the rows they have
on a layer. -/
theorem matchesFirst_rowsOf (h : tables.matchesFirst seqIds rows layer) :
    (tables.layers layer).RowsOf seqIds rows :=
  h.1.symm

theorem rowsOf_unique {slots : LayerSlots} {other : List ℕ} (hrows : slots.RowsOf seqIds rows)
    (hother : slots.RowsOf seqIds other) : rows = other :=
  List.map_injective_iff.mpr (Option.some_injective ℕ) (hrows.trans hother.symm)

/-- A uniform batch has the rows and lengths of the first layer on all of
them. -/
theorem UniformBatch.rowsOf (h : UniformBatch config seqIds tables) (hrows : (tables.layers 0).RowsOf seqIds rows) :
    ∀ layer < config.numKvLayers,
      (tables.layers layer).RowsOf seqIds rows ∧
        rows.map (tables.layers layer).rowSeqLens = rows.map (tables.layers 0).rowSeqLens := by
  intro layer hlayer
  obtain ⟨uniformRows, hmatches⟩ := h
  have hfirst := matchesFirst_rowsOf (hmatches 0 (Nat.zero_lt_of_lt hlayer))
  obtain rfl := rowsOf_unique hfirst hrows
  exact ⟨matchesFirst_rowsOf (hmatches layer hlayer), (hmatches layer hlayer).2⟩

/-- Rows stay what they are when other sequences get rows. -/
theorem rowsOf_taken {slots next : LayerSlots} (htaken : slots.Taken next)
    (hrows : slots.RowsOf seqIds rows) : next.RowsOf seqIds rows := by
  refine hrows.trans (List.map_congr_left fun seqId hseqId => ?_)
  have hsome : slots.seqIdToRow.get? seqId ∈ rows.map some := hrows ▸ List.mem_map_of_mem hseqId
  obtain ⟨row, _, hrow⟩ := List.mem_map.mp hsome
  rw [← hrow, htaken.kept seqId row hrow.symm]

section

variable (h : Conserved config tables) (hnodup : seqIds.Nodup)

include h hnodup

/-- A step that gives each of the rows of a layer one of its topmost slots, on
every layer. -/
theorem Conserved.appendedEach {next : SlotTables} (rows : ℕ → List ℕ)
    (hrows : ∀ layer < config.numKvLayers, (tables.layers layer).RowsOf seqIds (rows layer))
    (hcount : ∀ layer < config.numKvLayers, seqIds.length ≤ (tables.layers layer).numFreeSlots)
    (hnext : ∀ layer < config.numKvLayers, next.layers layer = (tables.layers layer).appendTop (rows layer)) :
    Conserved config next := by
  intro layer hlayer
  rw [hnext layer hlayer]
  have hlayerRows := hrows layer hlayer
  apply (h layer hlayer).appended (hlayerRows.nodup (h layer hlayer) hnodup) hlayerRows.mem_values
  rw [hlayerRows.length_eq]
  exact hcount layer hlayer

theorem prepareDecodeLayers_wpe (hfits : LayersFit config seqIds tables) :
    wpe (prepareDecodeLayers config seqIds) (fun _ => Conserved config) (Conserved config) tables := by
  -- the layers behind the loop had slots, and those before it are as they were
  refine wpe_mono (wpe_mapEach_range config.numKvLayers
    (fun done current => Conserved config current ∧
      (∀ layer < done.length, seqIds.length ≤ (tables.layers layer).numFreeSlots) ∧
      ∀ layer, done.length ≤ layer → current.layers layer = tables.layers layer)
    (Conserved config) ⟨h, fun _ hlt => absurd hlt (Nat.not_lt_zero _), fun _ _ => rfl⟩ ?_)
    fun _ _ hnext => hnext.2.1
  intro done hdone current hcurrent
  obtain ⟨hcurrent, hreached, hsame⟩ := hcurrent
  apply onLayer_wpe
  have hlayer := hsame done.length (Nat.le_refl _)
  have hupTo : seqIds.length ≤ (tables.layers done.length).numFreeSlots →
      ∀ reached ≤ done.length, seqIds.length ≤ (tables.layers reached).numFreeSlots :=
    fun hfree reached hle => (Nat.lt_or_eq_of_le hle).elim (hreached reached) fun heq => heq ▸ hfree
  refine wpe_imp (LayerSlots.prepareDecode_wpe (hcurrent _ hdone) hnodup fun hfree => ?_) ?_ ?_
  · rw [hlayer] at hfree ⊢
    exact hfits _ hdone (hupTo hfree)
  · intro step slots hslots
    obtain ⟨hslots, hfree⟩ := hslots
    rw [hlayer] at hfree
    refine ⟨hcurrent.setLayer hslots, fun layer hlt => ?_, fun layer hle => ?_⟩
    · rw [List.length_append, List.length_singleton] at hlt
      exact hupTo hfree layer (Nat.lt_succ_iff.mp hlt)
    · rw [List.length_append, List.length_singleton] at hle
      have hne : layer ≠ done.length := by omega
      simp only [Function.update_of_ne hne]
      exact hsame layer (by omega)
  · intro slots hslots
    exact hcurrent.setLayer hslots

theorem prepareDecodeTensor_wpe
    (hfits : seqIds.length ≤ (tables.layers 0).numFreeSlots → TensorFits config seqIds tables)
    (hlayers : 0 < config.numKvLayers) :
    wpe (prepareDecodeTensor config seqIds) (fun _ => Conserved config) (Conserved config) tables := by
  unfold prepareDecodeTensor
  rw [wpe_bind]
  apply onLayer_wpe
  refine wpe_imp (LayerSlots.getFreeRows_wpe (h 0 hlayers) seqIds) ?_ fun slots hslots =>
    h.setLayer hslots.1
  intro rows slots hslots
  obtain ⟨hslots, htaken, hrows⟩ := hslots
  have hcurrent := h.setLayer hslots
  rw [wpe_get]
  refine wpe_guarded hcurrent fun hfree => ?_
  simp only [Function.update_self, Nat.not_lt] at hfree
  obtain ⟨⟨uniformRows, hmatches⟩, hheights, hroom⟩ := hfits (htaken.height ▸ hfree)
  obtain rfl : uniformRows = rows :=
    rowsOf_unique (rowsOf_taken htaken (matchesFirst_rowsOf (hmatches 0 hlayers))) hrows
  -- the first layer has given out no row, so the layers still agree
  have hlayer : ∀ layer < config.numKvLayers,
      (Function.update tables.layers 0 slots layer).RowsOf seqIds uniformRows ∧
      uniformRows.map (Function.update tables.layers 0 slots layer).rowSeqLens = uniformRows.map slots.rowSeqLens ∧
      (Function.update tables.layers 0 slots layer).numFreeSlots = slots.numFreeSlots := by
    intro layer hlayer
    by_cases hzero : layer = 0
    · subst hzero
      rw [Function.update_self]
      exact ⟨hrows, rfl, rfl⟩
    · rw [Function.update_of_ne hzero, htaken.lens, htaken.height]
      exact ⟨matchesFirst_rowsOf (hmatches layer hlayer), (hmatches layer hlayer).2, hheights layer hlayer⟩
  rw [wpe_set, wpe_guard]
  simp only [Function.update_self]
  refine ⟨fun hfull => absurd hfull (hroom.fits htaken hrows), fun _ => ?_⟩
  rw [wpe_set, wpe_set, wpe_get, wpe_pure]
  apply hcurrent.appendedEach hnodup (fun _ => uniformRows) (fun layer h => (hlayer layer h).1)
  · intro layer h
    rw [(hlayer layer h).2.2]
    exact hfree
  · intro layer h
    rw [layers_updateLayers _ h, layers_updateLayers _ h, layers_updateLayers _ h, getD_map_layerIds _ _ h]
    unfold LayerSlots.appendTop LayerSlots.topSlots
    rw [hrows.length_eq, (hlayer layer h).2.1, (hlayer layer h).2.2]

end

theorem maintains_allocateDecodeBatch (hnodup : seqIds.Nodup) (staticCap : Option ℕ) :
    Maintains (Conserved config) (allocateDecodeBatch config seqIds staticCap) := by
  intro tables h
  unfold allocateDecodeBatch
  refine wpe_then_imp (wpe_mapEach_range config.numKvLayers
    (fun done current => Conserved config current ∧
      ∀ layer < done.length, (current.layers layer).RowsOf seqIds (done.getD layer []))
    (Conserved config) ⟨h, fun layer hlayer => absurd hlayer (Nat.not_lt_zero _)⟩ ?_) ?_
    fun _ hnext => hnext
  · intro done hdone current hcurrent
    obtain ⟨hcurrent, hrows⟩ := hcurrent
    apply onLayer_wpe
    refine wpe_imp (LayerSlots.getFreeRows_wpe (hcurrent _ hdone) seqIds) ?_ fun slots hslots =>
      hcurrent.setLayer hslots.1
    intro rows slots hslots
    refine ⟨hcurrent.setLayer hslots.1, fun layer hlayer => ?_⟩
    rw [List.length_append, List.length_singleton] at hlayer
    by_cases heq : layer = done.length
    · subst heq
      simpa only [Function.update_self, List.getD_append_right, Nat.le_refl, Nat.sub_self,
        List.getD_cons_zero] using hslots.2.2
    · have hlt : layer < done.length := by omega
      simpa only [Function.update_of_ne heq, List.getD_append, hlt] using hrows layer hlt
  · intro rows current hcurrent
    obtain ⟨hlength, hcurrent, hrows⟩ := hcurrent
    rw [wpe_get]
    refine wpe_guarded hcurrent fun _ => ?_
    refine wpe_guarded hcurrent fun _ => ?_
    refine wpe_guarded hcurrent fun hfree => ?_
    rw [not_any_layerIds] at hfree
    rw [wpe_set, wpe_set, wpe_set, wpe_pure]
    apply hcurrent.appendedEach hnodup (fun layer => rows.getD layer [])
      (fun layer hlayer => hrows layer (hlength ▸ hlayer))
      fun layer hlayer => Nat.not_lt.mp (hfree layer hlayer)
    intro layer hlayer
    rw [layers_updateLayers _ hlayer, layers_updateLayers _ hlayer, layers_updateLayers _ hlayer,
      getD_map_layerIds _ _ hlayer, getD_map_layerIds _ _ hlayer]
    unfold LayerSlots.appendTop
    rw [(hrows layer (hlength ▸ hlayer)).length_eq]

theorem rowsOf_of_mapM {slots : LayerSlots} (hrows : seqIds.mapM slots.rowOf = .ok rows) :
    slots.RowsOf seqIds rows := by
  have hall := forall₂_of_mapM hrows
  clear hrows
  induction hall with
  | nil => rfl
  | cons hrow _ ih =>
      unfold LayerSlots.RowsOf at ih ⊢
      rw [List.map_cons, List.map_cons, ih]
      congr 1
      unfold LayerSlots.rowOf at hrow
      split at hrow
      · next hget =>
        rw [hget, Except.ok.inj hrow]
      · exact nomatch hrow

/-- A check that raises or does nothing. -/
theorem validateUniform_wpe (hbad : bad tables) (hpost : post () tables) :
    wpe (validateUniform config seqIds rows) post bad tables := by
  unfold validateUniform
  rw [wpe_get, wpe_whenDo, wpe_raiseIf]
  exact ⟨fun _ => ⟨fun _ => hbad, fun _ => hpost⟩, fun _ => hpost⟩

theorem validatePointers_wpe (hbad : bad tables) (hpost : post () tables) :
    wpe (validatePointers config) post bad tables := by
  unfold validatePointers
  rw [wpe_get, wpe_whenDo, wpe_raiseIf]
  exact ⟨fun _ => ⟨fun _ => hbad, fun _ => hpost⟩, fun _ => hpost⟩

theorem prepareDecodeStaticUniform_wpe (h : Conserved config tables) (hnodup : seqIds.Nodup)
    (hfits : StaticFits config seqIds tables) :
    wpe (prepareDecodeStaticUniform config seqIds) (fun _ => Conserved config) (Conserved config)
      tables := by
  obtain ⟨hbatch, htops⟩ := hfits
  unfold prepareDecodeStaticUniform
  rw [wpe_get, wpe_bind]
  refine wpe_ofExcept (fun rows hrows => ?_) h
  rw [wpe_bind]
  refine validateUniform_wpe h ?_
  refine wpe_guarded h fun _ => ?_
  refine wpe_guarded h fun hfree => ?_
  rw [not_any_layerIds] at hfree
  rw [wpe_bind]
  refine validatePointers_wpe h ?_
  rw [wpe_set, wpe_set, wpe_set, wpe_get, wpe_pure]
  have hrowsOf := hbatch.rowsOf (rowsOf_of_mapM hrows)
  apply h.appendedEach hnodup (fun _ => rows) (fun layer hlayer => (hrowsOf layer hlayer).1)
    fun layer hlayer => Nat.not_lt.mp (hfree layer hlayer)
  intro layer hlayer
  rw [layers_updateLayers _ hlayer, layers_updateLayers _ hlayer, layers_updateLayers _ hlayer]
  unfold LayerSlots.appendTop
  rw [(hrowsOf layer hlayer).1.length_eq, (hrowsOf layer hlayer).2, htops layer hlayer]

theorem prepareUniformGraphStep_wpe (h : Conserved config tables) (hnodup : seqIds.Nodup)
    (hbatch : UniformBatch config seqIds tables) (contextCapacity : ℕ) :
    wpe (do
        let facts ← prepareUniformGraphStep config seqIds contextCapacity
        publishGraphSlots config facts)
      (fun _ => Conserved config) (Conserved config) tables := by
  rw [wpe_bind]
  unfold prepareUniformGraphStep
  rw [wpe_get, wpe_bind]
  refine wpe_ofExcept (fun rows hrows => ?_) h
  rw [wpe_bind]
  refine validateUniform_wpe h ?_
  refine wpe_guarded h fun _ => ?_
  refine wpe_guarded h fun _ => ?_
  refine wpe_guarded h fun hfree => ?_
  rw [not_any_layerIds] at hfree
  rw [wpe_bind]
  refine validatePointers_wpe h ?_
  rw [wpe_set, wpe_pure]
  unfold publishGraphSlots
  rw [wpe_get, wpe_set, wpe_pure]
  have hrowsOf := hbatch.rowsOf (rowsOf_of_mapM hrows)
  have hcolumns : (rows.map fun row => (tables.layers 0).rowSeqLens row + 1).map (· - 1) =
      rows.map (tables.layers 0).rowSeqLens := by
    rw [List.map_map]
    exact List.map_congr_left fun _ _ => rfl
  apply h.appendedEach hnodup (fun _ => rows) (fun layer hlayer => (hrowsOf layer hlayer).1)
    fun layer hlayer => Nat.not_lt.mp (hfree layer hlayer)
  intro layer hlayer
  rw [layers_updateLayers _ hlayer, layers_updateLayers _ hlayer, getD_map_layerIds _ _ hlayer,
    layers_updateLayers _ hlayer, hcolumns, getD_map_layerIds _ _ hlayer]
  unfold LayerSlots.appendTop LayerSlots.topSlots
  rw [(hrowsOf layer hlayer).1.length_eq, (hrowsOf layer hlayer).2]
  rfl

end SlotTables
