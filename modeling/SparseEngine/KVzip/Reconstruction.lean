import SparseEngine.KVzip.Replay
import SparseEngine.SlotTables.Runs

/-!
# The reconstruction of a prompt

`prompt_admission_costs` bounds every replay by one expression
(`length_replayTokens_le`), so that with the reserve of every layer no replay
runs out of slots or of row.  The replays feed every position of the prompt,
change nothing but the scores, and the best positions are kept on every layer
(`reconstruction_changes_scores_only`).
-/

namespace KVzipManager

open Routine Cells

variable {Id Score : Type} {config : KVzipConfig}

/-! ## The tokens of a replay -/

theorem mem_tileStarts {length tile start : ℕ} (htile : 0 < tile) :
    start ∈ tileStarts length tile ↔ start < length ∧ tile ∣ start := by
  unfold tileStarts
  rw [List.mem_map]
  constructor
  · rintro ⟨index, hindex, rfl⟩
    rw [List.mem_range, Nat.lt_div_iff_mul_lt htile] at hindex
    exact ⟨by omega, Nat.dvd_mul_left _ _⟩
  · rintro ⟨hstart, index, rfl⟩
    refine ⟨index, ?_, Nat.mul_comm _ _⟩
    rw [List.mem_range, Nat.lt_div_iff_mul_lt htile, Nat.mul_comm]
    omega

/-- **One expression bounds every replay.** The first chunk has no postfix
before it, and the last is what is left. -/
theorem length_replayTokens_le (config : KVzipConfig) (promptIds : List ℤ) {source : List ℤ} {length start : ℕ}
    (hsource : source.length = length) (hstart : start ∈ tileStarts length config.kvzipScoreChunkSize) :
    (replayTokens config promptIds source length start).length ≤
      promptIds.length + min length config.kvzipScoreChunkSize +
        min (length - config.kvzipScoreChunkSize) config.kvzipPrevPostfixSize := by
  obtain ⟨hlt, index, rfl⟩ := (mem_tileStarts config.chunk_pos).mp hstart
  have hpos := config.chunk_pos
  rw [replayTokens, List.length_append, List.length_drop, List.length_take, hsource]
  rcases Nat.eq_zero_or_pos index with rfl | hindex
  · omega
  · have hchunk : config.kvzipScoreChunkSize ≤ config.kvzipScoreChunkSize * index := Nat.le_mul_of_pos_right _ hindex
    omega

/-- Every position of the prompt is in the replay of its chunk. -/
theorem replayTokens_covers (config : KVzipConfig) (promptIds : List ℤ) {source : List ℤ} {length position : ℕ}
    (hposition : position < length) :
    ∃ start ∈ tileStarts length config.kvzipScoreChunkSize, ∃ offset,
      start - config.kvzipPrevPostfixSize + offset = position ∧
      (replayTokens config promptIds source length start)[promptIds.length + offset]? = source[position]? := by
  have hpos := config.chunk_pos
  have hdiv := Nat.div_add_mod position config.kvzipScoreChunkSize
  have hmod := Nat.mod_lt position hpos
  refine ⟨config.kvzipScoreChunkSize * (position / config.kvzipScoreChunkSize), ?_, ?_⟩
  · exact (mem_tileStarts hpos).mpr ⟨by omega, Nat.dvd_mul_right _ _⟩
  · generalize config.kvzipScoreChunkSize * (position / config.kvzipScoreChunkSize) = start at hdiv ⊢
    refine ⟨position - (start - config.kvzipPrevPostfixSize), by omega, ?_⟩
    rw [replayTokens, List.getElem?_append_right (by omega), List.getElem?_drop, List.getElem?_take_of_lt (by omega)]
    congr 1
    omega

/-! ## The best positions -/

section Scores

variable [LinearOrder Score]

/-- The positions with the highest scores, the earlier ones of equal scores
first. -/
structure KeepsHighest (scores : ℕ → Score) (length budget : ℕ) (keep : List ℕ) : Prop where
  sorted : keep.Pairwise (· < ·)
  size : keep.length = budget
  lt : ∀ position ∈ keep, position < length
  highest : ∀ position ∈ keep, ∀ other < length, other ∉ keep →
    scores other < scores position ∨ (scores position = scores other ∧ position < other)

instance (scores : ℕ → Score) : Std.Total (Ahead scores) where
  total first second := by
    unfold Ahead
    rcases lt_trichotomy (scores first) (scores second) with hlt | heq | hgt
    · exact Or.inr (Or.inl hlt)
    · rcases Nat.le_total first second with hle | hle
      · exact Or.inl (Or.inr ⟨heq, hle⟩)
      · exact Or.inr (Or.inr ⟨heq.symm, hle⟩)
    · exact Or.inl (Or.inl hgt)

instance (scores : ℕ → Score) : IsTrans ℕ (Ahead scores) where
  trans first second third hfirst hsecond := by
    unfold Ahead at *
    rcases hfirst with hfirst | ⟨hfirst, hle⟩ <;> rcases hsecond with hsecond | ⟨hsecond, hle'⟩
    · exact Or.inl (hsecond.trans hfirst)
    · exact Or.inl (hsecond ▸ hfirst)
    · exact Or.inl (hfirst ▸ hsecond)
    · exact Or.inr ⟨hfirst.trans hsecond, hle.trans hle'⟩

/-- **`argsort` keeps the best positions.** -/
theorem keepPositions_highest (scores : ℕ → Score) {length budget : ℕ} (hbudget : budget ≤ length) :
    KeepsHighest scores length budget (keepPositions scores length budget) := by
  have hperm := List.perm_insertionSort (Ahead scores) (List.range length)
  have hordered := List.pairwise_insertionSort (Ahead scores) (List.range length)
  have hnodup := hperm.nodup_iff.mpr (@List.nodup_range length)
  unfold keepPositions
  generalize (List.range length).insertionSort (Ahead scores) = ranked at hperm hordered hnodup ⊢
  have hkeep : ∀ position, position ∈ (ranked.take budget).insertionSort (· ≤ ·) ↔ position ∈ ranked.take budget :=
    fun position => List.mem_insertionSort (· ≤ ·)
  refine ⟨?_, ?_, fun position hposition => ?_, fun position hposition other hother hnot => ?_⟩
  · have hdistinct := (List.perm_insertionSort (· ≤ ·) (ranked.take budget)).nodup_iff.mpr
      (hnodup.sublist (List.take_sublist budget ranked))
    exact ((List.pairwise_insertionSort (· ≤ ·) (ranked.take budget)).and hdistinct).imp fun hboth =>
      lt_of_le_of_ne hboth.1 hboth.2
  · rw [List.length_insertionSort, List.length_take, hperm.length_eq, List.length_range, min_eq_left hbudget]
  · exact List.mem_range.mp (hperm.mem_iff.mp (List.mem_of_mem_take ((hkeep position).mp hposition)))
  · rw [hkeep] at hposition hnot
    -- what is not among the first ones comes after them
    have hlater : other ∈ ranked.drop budget := by
      have hmem := hperm.mem_iff.mpr (List.mem_range.mpr hother)
      rw [← List.take_append_drop budget ranked] at hmem
      exact (List.mem_append.mp hmem).resolve_left hnot
    rw [← List.take_append_drop budget ranked, List.pairwise_append] at hordered
    refine (hordered.2.2 position hposition other hlater).imp_right fun heq => ⟨heq.1, lt_of_le_of_ne heq.2 ?_⟩
    rintro rfl
    exact hnot hposition

end Scores

end KVzipManager

/-! ## Compaction -/

namespace LayerSlots

variable {slots next : LayerSlots} {numSlots maxRows row : ℕ}

/-- What is on the stack and in one row fits into the slots. -/
theorem Conserved.capacity (h : slots.Conserved numSlots maxRows) (hrow : row ∈ slots.seqIdToRow.values) :
    slots.numFreeSlots + slots.rowSeqLens row ≤ numSlots := by
  have hcard := congrArg Multiset.card h.slots_eq
  rw [Multiset.card_add, Multiset.card_sum, Multiset.card_range, Multiset.coe_card, freeSlots,
    Cells.length_read] at hcard
  have hone : Multiset.card (slots.rowSlots row : Multiset ℕ) ≤
      ∑ row ∈ Finset.range maxRows, Multiset.card (slots.rowSlots row : Multiset ℕ) :=
    Finset.single_le_sum (f := fun row => Multiset.card (slots.rowSlots row : Multiset ℕ)) (fun _ _ => Nat.zero_le _)
      (Finset.mem_range.mpr (h.row_lt hrow))
  rw [Multiset.coe_card, rowSlots, Cells.length_read] at hone
  omega

theorem Alike.reqToTokenSlots (h : slots.Alike next) {position : ℕ} (hposition : position < slots.rowSeqLens row) :
    next.reqToTokenSlots row position = slots.reqToTokenSlots row position := by
  have hcell := congrArg (fun cells => cells[position]?) (h.rowSlots row)
  simp only [LayerSlots.rowSlots, h.rowSeqLens, Cells.getElem?_read, if_pos hposition, Nat.zero_add,
    Option.some.injEq] at hcell
  exact hcell

end LayerSlots

namespace SlotTables

open Routine Cells

variable {config : KVzipConfig} {tables next : SlotTables} {seqId length : ℕ} {keep : List ℕ}

/-- `free_part_slots` on a layer with a full row of the prompt. -/
theorem freePartSlots_ok {layer row : ℕ} (hlayer : layer < config.numKvLayers)
    (hconserved : (tables.layers layer).Conserved (config.layerNumSlots layer) config.maxBufferRows)
    (hrow : (tables.layers layer).seqIdToRow.get? seqId = some row)
    (hlength : (tables.layers layer).rowSeqLens row = length) (hkeep : keep ≠ []) (hsorted : keep.Pairwise (· < ·))
    (hlt : ∀ position ∈ keep, position < length) (hsize : keep.length ≤ length) :
    ∃ next, freePartSlots config.toSlotConfig layer seqId keep true tables = (.ok (), next) ∧
      next.layers layer = (tables.layers layer).applyFreePartSlots row length keep ∧
      ∀ other, other ≠ layer → next.layers other = tables.layers other := by
  have hcapacity := hconserved.capacity (Dict.mem_values_iff.mpr ⟨seqId, hrow⟩)
  have hbounds : ¬(([keep].zip [length]).any fun entry =>
      entry.1.any fun index => decide (entry.2 ≤ index)) = true := by
    simpa using hlt
  have hunique : ¬([keep].any fun keep => decide (¬keep.IsChain (· < ·))) = true := by
    simpa [List.isChain_iff_pairwise] using hsorted
  have hfits : ¬((length : ℤ) - keep.length < 0 ∨
      (config.layerNumSlots layer : ℤ) < (tables.layers layer).numFreeSlots + ((length : ℤ) - keep.length)) := by
    omega
  refine ⟨{ tables with
    uniformDecodeMetadata := false
    layers := Function.update tables.layers layer ((tables.layers layer).applyFreePartSlots row length keep) }, ?_,
    Function.update_self _ _ _, fun other hne => Function.update_of_ne hne _ _⟩
  simp only [freePartSlots, kvLayerIndex, bind_apply, raiseIf_apply, if_neg (Nat.not_le.mpr hlayer), read_apply, hrow,
    hlength, if_neg hkeep, sortKeepIndices, if_true, checkKeepIndices, if_neg hbounds, if_neg hunique,
    preflightCompactionFreeCapacity, if_neg hfits, clearUniform, write_apply, onLayer, focus]

/-- On every KV layer the row of the sequence has the slots of the kept
positions. -/
def Keeps (config : KVzipConfig) (seqId : ℕ) (keep : List ℕ) (tables next : SlotTables) : Prop :=
  ∀ layer < config.numKvLayers, ∃ row, (tables.layers layer).seqIdToRow.get? seqId = some row ∧
    (next.layers layer).seqIdToRow.get? seqId = some row ∧
    (next.layers layer).rowSlots row = keep.map ((tables.layers layer).reqToTokenSlots row)

theorem Alike.keeps {middle : SlotTables} (h : tables.Alike middle)
    (hresident : ∀ layer < config.numKvLayers, (tables.layers layer).Resident seqId length)
    (hlt : ∀ position ∈ keep, position < length) (hkeeps : Keeps config seqId keep middle next) :
    Keeps config seqId keep tables next := by
  intro layer hlayer
  obtain ⟨row, hrow, hnext, hslots⟩ := hkeeps layer hlayer
  obtain ⟨found, hfound, hlength⟩ := hresident layer hlayer
  rw [(h layer).seqIdToRow] at hrow
  obtain rfl : found = row := Option.some.inj (hfound.symm.trans hrow)
  refine ⟨found, hrow, hnext, hslots.trans (List.map_congr_left fun position hposition => ?_)⟩
  exact (h layer).reqToTokenSlots (hlength ▸ hlt position hposition)

end SlotTables

namespace KVzipManager

open Routine Cells

variable {Id Score : Type} {config : KVzipConfig} {manager next : KVzipManager Score} {length : ℕ}

/-- **The compaction after the replays** keeps the positions on every layer. -/
theorem compactReconstruction_wpe {seq : ChainSequence Id} {keep : List ℕ}
    (hconserved : SlotTables.Conserved config.toSlotConfig manager.tables)
    (hresident : ∀ layer < config.numKvLayers, (manager.tables.layers layer).Resident seq.seqId length)
    (hkeep : keep ≠ []) (hsorted : keep.Pairwise (· < ·)) (hlt : ∀ position ∈ keep, position < length)
    (hsize : keep.length ≤ length) :
    wpe (compactReconstruction config seq keep)
      (fun _ next => SlotTables.Keeps config seq.seqId keep manager.tables next.tables ∧
        next.scores = manager.scores ∧ next.reconstruction = manager.reconstruction) (fun _ => False) manager := by
  unfold compactReconstruction
  rw [wpe_bind]
  refine wpe_focus.mpr ?_
  rw [SlotTables.clearUniform, wpe_write]
  refine wpe_then (wpe_forEach (fun rest current => (current.scores = manager.scores ∧
      current.reconstruction = manager.reconstruction) ∧ rest.Nodup ∧ (∀ layer ∈ rest, layer < config.numKvLayers) ∧
    ∀ layer, (layer ∈ rest → current.tables.layers layer = manager.tables.layers layer) ∧
      (layer < config.numKvLayers → layer ∉ rest →
        ∃ row, (manager.tables.layers layer).seqIdToRow.get? seq.seqId = some row ∧
          (manager.tables.layers layer).rowSeqLens row = length ∧
          current.tables.layers layer = (manager.tables.layers layer).applyFreePartSlots row length keep)) _ ?_ ?_)
      fun _ last hlast => ?_
  · exact ⟨⟨rfl, rfl⟩, List.nodup_range, fun layer hlayer => SlotTables.mem_layerIds.mp hlayer, fun layer =>
      ⟨fun _ => rfl, fun hlayer hnot => absurd (SlotTables.mem_layerIds.mpr hlayer) hnot⟩⟩
  · rintro layer rest current ⟨hothersKept, hnodup, hall, hcurrent⟩
    rw [List.nodup_cons] at hnodup
    have hlayer := hall layer List.mem_cons_self
    -- a layer is as it was until its turn:
    have hsame := (hcurrent layer).1 List.mem_cons_self
    obtain ⟨row, hrow, hlength⟩ := hresident layer hlayer
    obtain ⟨after, hafter, hself, hothers⟩ := @SlotTables.freePartSlots_ok config current.tables seq.seqId length keep
      layer row hlayer (hsame ▸ hconserved layer hlayer) (hsame ▸ hrow) (hsame ▸ hlength) hkeep hsorted hlt hsize
    have hrun : onTables (SlotTables.freePartSlots config.toSlotConfig layer seq.seqId keep true) current =
        (.ok (), { current with tables := after }) := by
      rw [onTables, focus, hafter]
    rw [wpe_of_ok hrun]
    refine ⟨hothersKept, hnodup.2, fun other hother => hall other (List.mem_cons_of_mem _ hother), fun other => ?_⟩
    by_cases heq : other = layer
    · subst heq
      exact ⟨fun hrest => absurd hrest hnodup.1, fun _ _ => ⟨row, hrow, hlength, hself.trans (by rw [hsame])⟩⟩
    · rw [hothers other heq]
      exact ⟨fun hrest => (hcurrent other).1 (List.mem_cons_of_mem _ hrest), fun hother hnot =>
        (hcurrent other).2 hother fun hmem => (List.mem_cons.mp hmem).elim heq hnot⟩
  · rw [wpe_write]
    refine ⟨fun layer hlayer => ?_, hlast.1⟩
    obtain ⟨row, hrow, hlength, hlast⟩ := (hlast.2.2.2 layer).2 hlayer List.not_mem_nil
    have hcompacts := @LayerSlots.applyFreePartSlots_compacts (manager.tables.layers layer) row keep
    rw [hlength] at hcompacts
    refine ⟨row, hrow, ?_, ?_⟩
    · exact (hlast ▸ hcompacts.seqIdToRow ▸ hrow)
    · exact hlast ▸ hcompacts.kept (row, keep) List.mem_cons_self

/-! ## The whole reconstruction -/

/-- A manager with a complete prompt above the budget, and room for a replay on
every KV layer. -/
structure Reconstructible (config : KVzipConfig) (seq : ChainSequence Id) (manager : KVzipManager Score) : Prop where
  over_budget : config.kvzipTokenBudget < seq.numPromptTokens.toNat
  last_chunk : seq.endsPrompt = true
  prompt : (setReconstructionPrompt config manager.reconstructionPromptIds manager).1 = .ok ()
  admitted : (promptAdmissionCosts config seq manager).1 = .ok ()
  source : ∃ source, manager.reconstructionSource.get? seq.seqId = some source ∧
    (source.length : ℤ) = seq.numPromptTokens
  idle : manager.reconstruction = none
  conserved : SlotTables.Conserved config.toSlotConfig manager.tables
  dense : ∀ layer < config.numKvLayers,
    (manager.tables.layers layer).Resident seq.seqId seq.numPromptTokens.toNat
  reserve : ∀ layer < config.numKvLayers,
    config.reconstructionSlotReserve ≤ (manager.tables.layers layer).numFreeSlots

namespace Reconstructible

variable {seq : ChainSequence Id}

section

variable (h : Reconstructible config seq manager)

include h

theorem peak_le :
    manager.reconstructionPromptIds.length + config.kvzipScoreChunkSize + config.kvzipPrevPostfixSize ≤
      config.enginePrefillChunkSize := by
  have hprompt := h.prompt
  simp only [setReconstructionPrompt, bind_apply, raiseIf_apply] at hprompt
  by_contra hlong
  split_ifs at hprompt with hempty hpeak
  exact hpeak (Nat.not_le.mp hlong)

theorem admission :
    seq.numPromptTokens.toNat + (manager.reconstructionPromptIds.length +
      min seq.numPromptTokens.toNat config.kvzipScoreChunkSize +
      min (seq.numPromptTokens.toNat - config.kvzipScoreChunkSize) config.kvzipPrevPostfixSize) ≤
        config.maxModelLen := by
  have hadmitted := h.admitted
  simp only [promptAdmissionCosts, bind_apply, read_apply, whenDo, if_pos h.over_budget, raiseIf_apply] at hadmitted
  by_contra hlong
  split_ifs at hadmitted with hempty hexceeds
  exact hexceeds (Nat.not_le.mp hlong)

/-- **No replay is too long** for the reserve or for the row. -/
theorem replay_fits {source : List ℤ} (hsource : source.length = seq.numPromptTokens.toNat)
    {start : ℕ} (hstart : start ∈ tileStarts seq.numPromptTokens.toNat config.kvzipScoreChunkSize) :
    (replayTokens config manager.reconstructionPromptIds source seq.numPromptTokens.toNat start).length ≤
        config.enginePrefillChunkSize ∧
      SlotTables.Fits config seq.seqId seq.numPromptTokens.toNat
        (replayTokens config manager.reconstructionPromptIds source seq.numPromptTokens.toNat start).length
        manager.tables := by
  have hbound := length_replayTokens_le config manager.reconstructionPromptIds hsource hstart
  have hpeak := h.peak_le
  have hadmission := h.admission
  have hover := h.over_budget
  have hchunk : (replayTokens config manager.reconstructionPromptIds source seq.numPromptTokens.toNat start).length ≤
      config.enginePrefillChunkSize := by omega
  have hreserve : config.reconstructionSlotReserve = config.enginePrefillChunkSize := by
    rw [KVzipConfig.reconstructionSlotReserve, if_neg (by omega)]
  exact ⟨hchunk, h.conserved, h.dense, fun layer hlayer => hchunk.trans (hreserve ▸ h.reserve layer hlayer), by omega⟩

/-- A state that differs in the scores only. -/
theorem unchanged (hnext : Unchanged manager next) :
    Reconstructible config seq next where
  over_budget := h.over_budget
  last_chunk := h.last_chunk
  prompt := by
    have hprompt := h.prompt
    simp only [setReconstructionPrompt, bind_apply, raiseIf_apply, hnext.promptIds] at hprompt ⊢
    split_ifs at hprompt ⊢
    rfl
  admitted := by
    have hadmitted := h.admitted
    simp only [promptAdmissionCosts, bind_apply, read_apply, whenDo, if_pos h.over_budget, raiseIf_apply,
      hnext.promptIds] at hadmitted ⊢
    split_ifs at hadmitted ⊢
    rfl
  source := hnext.source ▸ h.source
  idle := hnext.idle
  conserved layer hlayer := (hnext.tables layer).conserved (h.conserved layer hlayer)
  dense layer hlayer := (hnext.tables layer).resident (h.dense layer hlayer)
  reserve layer hlayer := (hnext.tables layer).numFreeSlots ▸ h.reserve layer hlayer

end

end Reconstructible

section Run

variable [LinearOrder Score] {seq : ChainSequence Id} {source : List ℤ}

/-- The replays of some chunks change the scores only, whatever becomes of
them. -/
theorem Reconstructible.replays (h : Reconstructible config seq manager)
    (hsource : source.length = seq.numPromptTokens.toNat) (forwards : ℕ → AuxiliaryForward Score) {starts : List ℕ}
    (hstarts : ∀ start ∈ starts, start ∈ tileStarts seq.numPromptTokens.toNat config.kvzipScoreChunkSize) :
    wpe (forEach (fun start => replayChunk config seq source seq.numPromptTokens.toNat (forwards start) start) starts)
      (fun _ next => Unchanged manager next ∧ next.scores = scoresAfter seq.numPromptTokens.toNat
        (starts.flatMap fun start => (forwards start).visits) manager.scores)
      (fun next => Unchanged manager next ∧ ∃ start ∈ starts, ¬(forwards start).Completes config
        (replayTokens config manager.reconstructionPromptIds source seq.numPromptTokens.toNat start).length)
      manager := by
  induction starts generalizing manager with
  | nil => exact ⟨⟨.refl _, rfl, rfl, h.idle⟩, rfl⟩
  | cons start rest ih =>
      rw [List.forall_mem_cons] at hstarts
      rw [forEach]
      refine wpe_then_imp (replayChunk_spec h.idle rfl (h.replay_fits hsource hstarts.1).2 (forwards start)) ?_ ?_
      · rintro _ middle ⟨hmiddle, hscores⟩
        refine wpe_imp (ih (h.unchanged hmiddle) hstarts.2) ?_ ?_
        · rintro _ last ⟨hlast, hlater⟩
          refine ⟨hmiddle.trans hlast, ?_⟩
          rw [hlater, hscores, List.flatMap_cons, scoresAfter, scoresAfter, scoresAfter, List.foldl_append]
        · rintro last ⟨hlast, later, hlater, hnot⟩
          rw [hmiddle.promptIds] at hnot
          exact ⟨hmiddle.trans hlast, later, List.mem_cons_of_mem _ hlater, hnot⟩
      · rintro last ⟨hlast, hnot⟩
        exact ⟨hlast, start, List.mem_cons_self, hnot⟩

/-- `finish_step` keeps the best positions on every layer, or leaves all but the
scores as it was. -/
theorem Reconstructible.finishSeq (h : Reconstructible config seq manager)
    (hsource : manager.reconstructionSource.get? seq.seqId = some source) (forwards : ℕ → AuxiliaryForward Score)
    (zero : Score) (peers : ℕ → Score) :
    wpe (finishSeq config forwards zero peers seq)
      (fun _ next => next.reconstruction = none ∧
        (∀ position, next.scores position = max (scoresAfter seq.numPromptTokens.toNat
          ((tileStarts seq.numPromptTokens.toNat config.kvzipScoreChunkSize).flatMap fun start =>
            (forwards start).visits) (fun _ => zero) position) (peers position)) ∧
        ∃ keep, KeepsHighest next.scores seq.numPromptTokens.toNat config.kvzipTokenBudget keep ∧
          SlotTables.Keeps config seq.seqId keep manager.tables next.tables)
      (fun next => Unchanged manager next ∧
        ∃ start ∈ tileStarts seq.numPromptTokens.toNat config.kvzipScoreChunkSize, ¬(forwards start).Completes config
          (replayTokens config manager.reconstructionPromptIds source seq.numPromptTokens.toNat start).length)
      manager := by
  obtain ⟨found, hfound, hcomplete⟩ := h.source
  obtain rfl : source = found := Option.some.inj (hsource.symm.trans hfound)
  have hlength : source.length = seq.numPromptTokens.toNat := by omega
  -- the guards pass, since the request was admitted and its prompt is complete:
  have hadmitted : promptAdmissionCosts config seq manager = (.ok (), manager) := by
    have hadmitted := h.admitted
    simp only [promptAdmissionCosts, bind_apply, read_apply, whenDo, if_pos h.over_budget, raiseIf_apply] at hadmitted ⊢
    split_ifs at hadmitted ⊢
    rfl
  have hfed : reconstructionSourceOf seq manager = (.ok source, manager) := by
    simp only [reconstructionSourceOf, bind_apply, read_apply, hsource, raiseIf_apply, ne_eq, hcomplete, not_true,
      if_false, pure_apply]
  have hblank : Unchanged manager { manager with scores := fun _ => zero } := ⟨.refl _, rfl, rfl, h.idle⟩
  unfold KVzipManager.finishSeq
  rw [wpe_whenDo]
  refine ⟨fun _ => ?_, fun hnot => absurd ⟨h.last_chunk, h.over_budget⟩ hnot⟩
  rw [wpe_bind, wpe_of_ok hadmitted, wpe_bind, wpe_of_ok hfed, wpe_set]
  refine wpe_then_imp ((h.unchanged hblank).replays hlength forwards fun _ => id) ?_ ?_
  · rintro _ current ⟨hcurrent, hscores⟩
    have hready := (h.unchanged hblank).unchanged hcurrent
    rw [wpe_set, wpe_get]
    -- the ranks agree on the highest scores, and the rows keep those
    have hkeep := keepPositions_highest (fun position => max (current.scores position) (peers position))
      h.over_budget.le
    dsimp only
    generalize keepPositions (fun position => max (current.scores position) (peers position))
      seq.numPromptTokens.toNat config.kvzipTokenBudget = keep at hkeep ⊢
    have hnonempty : keep ≠ [] := by
      rw [← List.length_pos_iff, hkeep.size]
      exact config.budget_pos
    refine wpe_imp (compactReconstruction_wpe hready.conserved hready.dense hnonempty hkeep.sorted hkeep.lt
      (hkeep.size ▸ h.over_budget.le)) ?_ fun _ => False.elim
    rintro _ last ⟨hkeeps, hlast, hidle⟩
    refine ⟨hidle.trans hcurrent.idle, fun position => ?_, keep, hlast ▸ hkeep,
      (hblank.trans hcurrent).tables.keeps h.dense hkeep.lt hkeeps⟩
    rw [hlast, hscores]
  · rintro last ⟨hlast, hnot⟩
    exact ⟨hblank.trans hlast, hnot⟩

/-- **KVzip reconstruction changes nothing but the scores**, and then keeps the
best positions.  The replays feed every position of the prompt, and no replay
exceeds the prefill chunk or what is left of the row.  Every exit of a replay,
in every state that the earlier ones leave, finds the slots as they were. -/
theorem reconstruction_changes_scores_only (h : Reconstructible config seq manager)
    (hsource : manager.reconstructionSource.get? seq.seqId = some source) :
    let length := seq.numPromptTokens.toNat
    let starts := tileStarts length config.kvzipScoreChunkSize
    let replay := replayTokens config manager.reconstructionPromptIds source length
    (∀ position < length, ∃ start ∈ starts, ∃ offset, start - config.kvzipPrevPostfixSize + offset = position ∧
      (replay start)[manager.reconstructionPromptIds.length + offset]? = source[position]?) ∧
    (∀ start ∈ starts, (replay start).length ≤ config.enginePrefillChunkSize ∧
      length + (replay start).length ≤ config.maxModelLen) ∧
    (∀ current, Unchanged manager current → ∀ start ∈ starts, ∀ forward : AuxiliaryForward Score,
      Unchanged manager (replayChunk config seq source length forward start current).2 ∧
      (forward.Completes config (replay start).length →
        (replayChunk config seq source length forward start current).1 = .ok ())) ∧
    ∀ (forwards : ℕ → AuxiliaryForward Score) (zero : Score) (peers : ℕ → Score),
      let run := finishSeq config forwards zero peers seq manager
      ((∀ start ∈ starts, (forwards start).Completes config (replay start).length) → run.1 = .ok ()) ∧
      (run.1 ≠ .ok () → Unchanged manager run.2) ∧
      (run.1 = .ok () → run.2.reconstruction = none ∧
        (∀ position, run.2.scores position = max (scoresAfter length
          (starts.flatMap fun start => (forwards start).visits) (fun _ => zero) position) (peers position)) ∧
        ∃ keep, KeepsHighest run.2.scores length config.kvzipTokenBudget keep ∧
          SlotTables.Keeps config seq.seqId keep manager.tables run.2.tables) := by
  intro length starts replay
  obtain ⟨found, hfound, hcomplete⟩ := h.source
  obtain rfl : source = found := Option.some.inj (hsource.symm.trans hfound)
  have hlength : source.length = length := by omega
  refine ⟨fun position => replayTokens_covers config _, fun start hstart => ?_,
    fun current hcurrent start hstart forward => ?_, fun forwards zero peers => ?_⟩
  · obtain ⟨hchunk, hfits⟩ := h.replay_fits hlength hstart
    exact ⟨hchunk, hfits.max_len⟩
  · have hrun := replayChunk_spec hcurrent.idle rfl ((h.unchanged hcurrent).replay_fits hlength hstart).2 forward
    rw [hcurrent.promptIds, wpe_def] at hrun
    rcases hresult : (replayChunk config seq source length forward start current).1 with error | _
    · rw [hresult] at hrun
      exact ⟨hcurrent.trans hrun.1, fun hcompletes => absurd hcompletes hrun.2⟩
    · rw [hresult] at hrun
      exact ⟨hcurrent.trans hrun.1, fun _ => rfl⟩
  · have hrun := wpe_def.mp (h.finishSeq hsource forwards zero peers)
    dsimp only
    generalize finishSeq config forwards zero peers seq manager = run at hrun ⊢
    rcases run with ⟨error | _, last⟩
    · obtain ⟨hunchanged, start, hstart, hnot⟩ := hrun
      exact ⟨fun hall => absurd (hall start hstart) hnot, fun _ => hunchanged, nofun⟩
    · exact ⟨fun _ => rfl, fun hne => absurd rfl hne, fun _ => hrun⟩

end Run

/-- A budget of one position, and replays of one position behind the one before
it. -/
def keepOne : KVzipConfig :=
  { SlotTables.twoCells with
    numKvCacheSlots := .uniform 8
    maxModelLen := 8
    kvzipTokenBudget := 1
    kvzipScoreChunkSize := 1
    kvzipPrevPostfixSize := 1
    enginePrefillChunkSize := 3
    budget_pos := le_rfl
    chunk_pos := le_rfl }

/-- A prompt of two tokens is prefilled. -/
def twoPrefilled : KVzipManager ℕ where
  tables := ((SlotCall.prefill .none [SlotTables.promptOf 7 [5, 6]]).run keepOne.toSlotConfig).after
    (SlotTables.start keepOne.toSlotConfig)
  reconstructionPromptIds := [9]
  reconstruction := none
  reconstructionSource := Dict.empty.set 7 [5, 6]
  scores := fun _ => 0

theorem twoPrefilled_reconstructible :
    Reconstructible keepOne (SlotTables.promptOf 7 [5, 6]) twoPrefilled where
  over_budget := by decide
  last_chunk := by decide
  prompt := by decide
  admitted := by decide
  source := ⟨[5, 6], by decide, by decide⟩
  idle := rfl
  conserved := SlotTables.Reachable.conserved (.step _ _ .start ⟨List.nodup_singleton _, trivial⟩)
  dense := by
    have hresident : ∀ layer < 2, (twoPrefilled.tables.layers layer).seqIdToRow.get? 7 = some 0 ∧
        (twoPrefilled.tables.layers layer).rowSeqLens 0 = 2 := by decide
    exact fun layer hlayer => ⟨0, hresident layer hlayer⟩
  reserve := by decide

/-- The replays of both positions score both layers. -/
theorem twoPrefilled_finishes :
    (finishSeq keepOne (fun start =>
        ⟨none, fun _ => none, [⟨0, 2 + start, fun _ => start⟩, ⟨1, 2 + start, fun _ => 1⟩], none⟩)
      0 (fun _ => 0) (SlotTables.promptOf 7 [5, 6]) twoPrefilled).1 = .ok () := by
  refine ((@reconstruction_changes_scores_only Unit ℕ keepOne twoPrefilled _ (SlotTables.promptOf 7 [5, 6]) [5, 6]
    twoPrefilled_reconstructible (by decide)).2.2.2 _ 0 _).1 fun start hstart => ?_
  have hlengths : ∀ start ∈ tileStarts 2 1,
      (replayTokens keepOne [9] [5, 6] 2 start).length = 2 + start := by decide
  refine ⟨rfl, fun _ => rfl, ?_, List.Perm.refl _, rfl⟩
  intro visit hvisit
  simp only [List.mem_cons, List.not_mem_nil, or_false] at hvisit
  obtain rfl | rfl := hvisit <;> exact (hlengths start hstart).symm

end KVzipManager
