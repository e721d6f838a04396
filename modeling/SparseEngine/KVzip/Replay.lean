import SparseEngine.KVzip.Borrowing
import SparseEngine.SlotTables.Steps

/-!
# One replay

A replay borrows slots on some layers or on all of them, however far it gets
(`Fits.prepareReplay`), and `reconstruction_chunk` puts them back on every
exit (`replayChunk_spec`).  It raises only if the forward does not complete.
-/

namespace SlotTables

open Routine Cells

variable {Id Score : Type} {config : KVzipConfig} {tables next last : SlotTables} {seqId length count : ℕ}

/-- The tables with the same rows and the same stacks. -/
def Alike (tables next : SlotTables) : Prop := ∀ layer, (tables.layers layer).Alike (next.layers layer)

theorem Alike.refl (tables : SlotTables) : tables.Alike tables := fun _ => .refl _

theorem Alike.trans (hfirst : tables.Alike next) (hsecond : next.Alike last) : tables.Alike last :=
  fun layer => (hfirst layer).trans (hsecond layer)

/-- Some layers have borrowed slots. -/
def Borrowed (config : KVzipConfig) (seqId length : ℕ) (tables next : SlotTables) : Prop :=
  ∀ layer, (layer < config.numKvLayers →
      ∃ count, (tables.layers layer).Borrows seqId length count (next.layers layer)) ∧
    (config.numKvLayers ≤ layer → next.layers layer = tables.layers layer)

/-- Every layer has borrowed `count` slots. -/
def BorrowedAll (config : KVzipConfig) (seqId length count : ℕ) (tables next : SlotTables) : Prop :=
  ∀ layer, (layer < config.numKvLayers → (tables.layers layer).Borrows seqId length count (next.layers layer)) ∧
    (config.numKvLayers ≤ layer → next.layers layer = tables.layers layer)

theorem BorrowedAll.borrowed (h : BorrowedAll config seqId length count tables next) :
    Borrowed config seqId length tables next := fun layer => ⟨fun hlayer => ⟨count, (h layer).1 hlayer⟩, (h layer).2⟩

/-- The tables before a replay of `count` tokens behind a prompt. -/
structure Fits (config : KVzipConfig) (seqId length count : ℕ) (tables : SlotTables) : Prop where
  conserved : Conserved config.toSlotConfig tables
  resident : ∀ layer < config.numKvLayers, (tables.layers layer).Resident seqId length
  room : ∀ layer < config.numKvLayers, count ≤ (tables.layers layer).numFreeSlots
  max_len : length + count ≤ config.maxModelLen

theorem Fits.borrowed_nothing (h : Fits config seqId length count tables) :
    Borrowed config seqId length tables tables := fun layer => ⟨fun hlayer => ⟨0, (h.resident layer hlayer).borrows_nothing⟩, fun _ => rfl⟩

theorem Alike.fits (h : tables.Alike next) (hfits : Fits config seqId length count tables) :
    Fits config seqId length count next where
  conserved layer hlayer := (h layer).conserved (hfits.conserved layer hlayer)
  resident layer hlayer := (h layer).resident (hfits.resident layer hlayer)
  room layer hlayer := (h layer).numFreeSlots ▸ hfits.room layer hlayer
  max_len := hfits.max_len

variable {layer : ℕ} {seq : ChainSequence Id}

theorem onLayer_of_ok {α : Type} {m : Routine LayerSlots α} {value : α} {slots : LayerSlots}
    (h : m (tables.layers layer) = (.ok value, slots)) :
    ∃ next, onLayer layer m tables = (.ok value, next) ∧ next.layers layer = slots ∧
      ∀ other, other ≠ layer → next.layers other = tables.layers other := by
  refine ⟨{ tables with layers := Function.update tables.layers layer slots }, ?_, Function.update_self _ _ _,
    fun other hne => Function.update_of_ne hne _ _⟩
  rw [onLayer, focus, h]

/-! ## Putting the slots back -/

/-- **`_release_reconstruction_suffix` gives back what was borrowed.** -/
theorem Borrowed.release (h : Borrowed config seqId length tables next) :
    ∃ last, KVzipManager.releaseReconstructionSuffix config seqId length next = (.ok (), last) ∧ tables.Alike last := by
  have hrun : wpe (KVzipManager.releaseReconstructionSuffix config seqId length) (fun _ last => tables.Alike last)
      (fun _ => False) next := by
    refine wpe_mono (wpe_forEach (fun rest current => rest.Nodup ∧ ∀ layer,
      (layer ∈ rest → ∃ count, (tables.layers layer).Borrows seqId length count (current.layers layer)) ∧
      (layer ∉ rest → (tables.layers layer).Alike (current.layers layer))) _ ?_ ?_) fun _ last hlast layer =>
        (hlast.2 layer).2 List.not_mem_nil
    · refine ⟨List.nodup_range, fun layer => ⟨fun hlayer => (h layer).1 (mem_layerIds.mp hlayer), fun hlayer => ?_⟩⟩
      rw [(h layer).2 (Nat.le_of_not_lt fun hlt => hlayer (mem_layerIds.mpr hlt))]
      exact .refl _
    · rintro layer rest current ⟨hnodup, hcurrent⟩
      rw [List.nodup_cons] at hnodup
      obtain ⟨count, hborrows⟩ := (hcurrent layer).1 List.mem_cons_self
      obtain ⟨slots, hrelease, halike⟩ := hborrows.release
      obtain ⟨after, hafter, hself, hothers⟩ := onLayer_of_ok hrelease
      rw [wpe_of_ok hafter]
      refine ⟨hnodup.2, fun other => ⟨fun hother => ?_, fun hother => ?_⟩⟩
      · have hne : other ≠ layer := fun heq => hnodup.1 (heq ▸ hother)
        rw [hothers other hne]
        exact (hcurrent other).1 (List.mem_cons_of_mem _ hother)
      · by_cases heq : other = layer
        · rw [heq, hself]
          exact halike
        · rw [hothers other heq]
          exact (hcurrent other).2 fun hmem => (List.mem_cons.mp hmem).elim heq hother
  rcases hresult : KVzipManager.releaseReconstructionSuffix config seqId length next with ⟨error | _, last⟩
  · rw [wpe_def, hresult] at hrun
    exact hrun.elim
  · rw [wpe_of_ok hresult] at hrun
    exact ⟨last, rfl, hrun⟩

/-! ## Taking the slots -/

/-- The sequence of a replay of `count` tokens behind a prompt. -/
structure IsReplay (seq : ChainSequence Id) (seqId length count : ℕ) : Prop where
  seqId : seq.seqId = seqId
  prefilled : seq.numPrefilledTokens = length
  chunk : seq.chunkSize = count

section

variable (h : Fits config seqId length count tables) (hseq : IsReplay seq seqId length count)

include h hseq

/-- What the batched allocation finds on a layer. -/
theorem Fits.prefillRow_ok (hlayer : layer < config.numKvLayers) :
    onLayer layer (mapEach (prefillRow config.toSlotConfig count) [seq]) tables =
      (.ok [(((tables.layers layer).seqIdToRow.get? seqId).getD 0, length)], tables) := by
  obtain ⟨row, hrow, hlength⟩ := h.resident layer hlayer
  have hmax := h.max_len
  have hrun : mapEach (prefillRow config.toSlotConfig count) [seq] (tables.layers layer) =
      (.ok [(row, length)], tables.layers layer) := by
    have hgot := LayerSlots.getFreeRow_of_get? (hseq.seqId ▸ hrow)
    have hcheck : ¬(seq.isChainResume = false ∧ (length : ℤ) ≠ seq.numPrefilledTokens) := by
      rw [hseq.prefilled]
      exact fun hne => hne.2 rfl
    have hfits : ¬(config.maxModelLen : ℤ) < length + count := by omega
    simp only [mapEach, prefillRow, bind_apply, hgot, read_apply, raiseIf_apply, if_neg hcheck, if_neg hfits,
      pure_apply,
      hlength]
  rw [onLayer, focus, hrun, hrow, Function.update_eq_self]
  rfl

/-- The batched allocation of a replay fails on no layer. -/
theorem Fits.allocatePrefillBatch :
    wpe (allocatePrefillBatch config.toSlotConfig [seq])
      (fun mapping next => if mapping.isSome then BorrowedAll config seqId length count tables next else next = tables)
      (fun _ => False) tables := by
  have hchunk : (([seq].head?).map ChainSequence.chunkSize).getD 0 = count := hseq.chunk
  unfold SlotTables.allocatePrefillBatch
  rw [hchunk]
  dsimp only
  split_ifs
  · exact rfl
  · have hroom : ¬((layerIds config.toSlotConfig).any fun layer =>
        decide ((tables.layers layer).numFreeSlots < [seq].length * (count : ℤ).toNat)) = true := by
      rw [not_any_layerIds]
      intro layer hlayer
      simpa using h.room layer hlayer
    have hentries := mapEach_of_ok fun layer hlayer => h.prefillRow_ok hseq (mem_layerIds.mp hlayer)
    rw [wpe_get, wpe_guard]
    refine ⟨fun hshort => absurd hshort hroom, fun _ => ?_⟩
    rw [wpe_bind, wpe_of_ok hentries, wpe_get, wpe_set, wpe_pure]
    refine fun layer => ⟨fun hlayer => ?_, fun hlayer => if_neg (Nat.not_lt.mpr hlayer)⟩
    obtain ⟨row, hrow, hlength⟩ := h.resident layer hlayer
    refine ⟨row, hrow, hlength, h.room layer hlayer, ?_⟩
    have hptr : (if ((layerIds config.toSlotConfig).all fun layer =>
        decide ((tables.layers layer).numFreeSlots = (tables.layers 0).numFreeSlots)) = true then
        (tables.layers 0).numFreeSlots else (tables.layers layer).numFreeSlots) =
        (tables.layers layer).numFreeSlots := by
      split_ifs with haligned
      · exact (of_decide_eq_true (List.all_eq_true.mp haligned layer (mem_layerIds.mpr hlayer))).symm
      · rfl
    rw [layers_updateLayers _ hlayer, getD_map_layerIds _ _ hlayer, getD_map_layerIds _ _ hlayer, hrow,
      Option.getD_some, hptr]
    exact LayerSlots.writePrefill_eq_takeBlock hlength

/-- The layers take their blocks one after the other, until a fault. -/
theorem Fits.appendReplays (fault : ℕ → Option PyError) :
    wpe (forEach (fun layer => onLayer layer (LayerSlots.appendReplay config.toSlotConfig seq (fault layer)))
        (layerIds config.toSlotConfig))
      (fun _ next => BorrowedAll config seqId length count tables next)
      (fun next => Borrowed config seqId length tables next ∧ ∃ layer, fault layer ≠ none) tables := by
  refine wpe_mono (wpe_forEach (fun rest current => rest.Nodup ∧ (∀ layer ∈ rest, layer < config.numKvLayers) ∧
    ∀ layer, (layer ∈ rest ∨ config.numKvLayers ≤ layer → current.layers layer = tables.layers layer) ∧
      (layer < config.numKvLayers → layer ∉ rest →
        (tables.layers layer).Borrows seqId length count (current.layers layer))) _ ?_ ?_) fun _ next hnext layer =>
      ⟨fun hlayer => (hnext.2.2 layer).2 hlayer List.not_mem_nil, fun hlayer => (hnext.2.2 layer).1 (Or.inr hlayer)⟩
  · exact ⟨List.nodup_range, fun layer hlayer => mem_layerIds.mp hlayer, fun layer => ⟨fun _ => rfl,
      fun hlayer hnot => absurd (mem_layerIds.mpr hlayer) hnot⟩⟩
  · rintro layer rest current ⟨hnodup, hlt, hcurrent⟩
    rw [List.nodup_cons] at hnodup
    have hlayer := hlt layer List.mem_cons_self
    have hsame := (hcurrent layer).1 (Or.inl List.mem_cons_self)
    have hrun := (h.resident layer hlayer).appendReplay (h.conserved layer hlayer).rowsOwned hseq.seqId hseq.prefilled
      hseq.chunk (h.room layer hlayer) h.max_len (fault layer)
    rw [← hsame] at hrun
    refine onLayer_wpe (wpe_imp hrun (fun _ slots hslots => ?_) fun slots hslots => ?_)
    · refine ⟨hnodup.2, fun other hother => hlt other (List.mem_cons_of_mem _ hother), fun other => ?_⟩
      by_cases heq : other = layer
      · subst heq
        simp only [Function.update_self]
        exact ⟨fun hrest => absurd hrest (not_or.mpr ⟨hnodup.1, Nat.not_le.mpr hlayer⟩), fun _ _ => hsame ▸ hslots⟩
      · simp only [Function.update_of_ne heq]
        exact ⟨fun hrest => (hcurrent other).1 (hrest.imp_left (List.mem_cons_of_mem _)), fun hother hnot =>
          (hcurrent other).2 hother fun hmem => (List.mem_cons.mp hmem).elim heq hnot⟩
    · -- the layers before have their blocks, this one and those behind it have none
      refine ⟨fun other => ⟨fun hother => ?_, fun hother => ?_⟩, layer, hslots.2⟩
      · by_cases heq : other = layer
        · subst heq
          simp only [Function.update_self, hslots.1, hsame]
          exact ⟨0, (h.resident other hother).borrows_nothing⟩
        · simp only [Function.update_of_ne heq]
          by_cases hmem : other ∈ rest
          · rw [(hcurrent other).1 (Or.inl (List.mem_cons_of_mem _ hmem))]
            exact ⟨0, (h.resident other hother).borrows_nothing⟩
          · exact ⟨count, (hcurrent other).2 hother fun hcons => (List.mem_cons.mp hcons).elim heq hmem⟩
      · have hne : other ≠ layer := by omega
        simp only [Function.update_of_ne hne]
        exact (hcurrent other).1 (Or.inr hother)

/-- **`prepare_step` of a replay** borrows on all layers, or an exception leaves
it borrowed on some. -/
theorem Fits.prepareReplay (forward : AuxiliaryForward Score) :
    wpe (KVzipManager.prepareReplay config forward seq)
      (fun _ next => BorrowedAll config seqId length count tables next)
      (fun next => Borrowed config seqId length tables next ∧
        (forward.earlyFault ≠ none ∨ ∃ layer, forward.allocationFault layer ≠ none)) tables := by
  unfold KVzipManager.prepareReplay
  rw [wpe_set, wpe_bind]
  -- what is written first are no slots
  generalize hcleared : ({ tables with
    stagingActive := false, stagingSeqIds := [], materializedLayers := []
    residentPrefixLens := fun _ => none } : SlotTables) = cleared
  have hlayers : cleared.layers = tables.layers := by rw [← hcleared]
  have hfits : Fits config seqId length count cleared :=
    Alike.fits (fun layer => by rw [hlayers]; exact .refl _) h
  have hall : ∀ next, BorrowedAll config seqId length count cleared next →
      BorrowedAll config seqId length count tables next := fun next hnext layer => hlayers ▸ hnext layer
  have hsome : ∀ next, Borrowed config seqId length cleared next → Borrowed config seqId length tables next :=
    fun next hnext layer => hlayers ▸ hnext layer
  rcases hearly : forward.earlyFault with _ | error
  · rw [KVzipManager.raiseFault, wpe_pure]
    refine wpe_then_imp (hfits.allocatePrefillBatch hseq) (fun mapping next hnext => ?_) fun _ => False.elim
    rcases mapping with _ | mapping
    · obtain rfl : next = cleared := hnext
      exact wpe_imp (hfits.appendReplays hseq forward.allocationFault) (fun _ => hall)
        fun last hlast => ⟨hsome last hlast.1, Or.inr hlast.2⟩
    · exact hall next hnext
  · exact ⟨hsome _ hfits.borrowed_nothing, Or.inl nofun⟩

end

end SlotTables

/-- Every layer has slots, every KV layer scores once, and nothing is raised. -/
structure AuxiliaryForward.Completes {Score : Type} (forward : AuxiliaryForward Score) (config : KVzipConfig)
    (count : ℕ) : Prop where
  early : forward.earlyFault = none
  allocation : ∀ layer, forward.allocationFault layer = none
  queries : ∀ visit ∈ forward.visits, visit.queries = count
  layers : (forward.visits.map ScoreVisit.layer).Perm (SlotTables.layerIds config.toSlotConfig)
  late : forward.lateFault = none

namespace KVzipManager

open Routine

variable {Id Score : Type} {config : KVzipConfig} {manager next last : KVzipManager Score}
  {seqId length count : ℕ}

/-- What a replay may not change. -/
structure Unchanged (manager next : KVzipManager Score) : Prop where
  tables : manager.tables.Alike next.tables
  promptIds : next.reconstructionPromptIds = manager.reconstructionPromptIds
  source : next.reconstructionSource = manager.reconstructionSource
  idle : next.reconstruction = none

theorem Unchanged.trans (hfirst : Unchanged manager next) (hsecond : Unchanged next last) : Unchanged manager last where
  tables := hfirst.tables.trans hsecond.tables
  promptIds := hsecond.promptIds.trans hfirst.promptIds
  source := hsecond.source.trans hfirst.source
  idle := hsecond.idle

/-- What holds while a replay runs. -/
structure Running (config : KVzipConfig) (seqId length : ℕ) (manager next : KVzipManager Score) : Prop where
  tables : SlotTables.Borrowed config seqId length manager.tables next.tables
  promptIds : next.reconstructionPromptIds = manager.reconstructionPromptIds
  source : next.reconstructionSource = manager.reconstructionSource

/-- **The cleanup of a replay** puts back what is borrowed. -/
theorem Running.cleanup (h : Running config seqId length manager next) :
    wpe (finallyDo (onTables (releaseReconstructionSuffix config seqId length))
        (Routine.write fun manager => { manager with reconstruction := none }))
      (fun _ last => Unchanged manager last ∧ last.scores = next.scores) (fun _ => False) next := by
  obtain ⟨tables, hrelease, halike⟩ := h.tables.release
  have hrun : onTables (releaseReconstructionSuffix config seqId length) next =
      (.ok (), { next with tables := tables }) := by
    rw [onTables, focus, hrelease]
  rw [wpe_finallyDo, wpe_of_ok hrun, wpe_write]
  exact ⟨⟨halike, h.promptIds, h.source, rfl⟩, rfl⟩

/-- What the visits of a replay need. -/
def GoodVisits (config : KVzipConfig) (count : ℕ) (visits : List (ScoreVisit Score)) (visited : List ℕ) : Prop :=
  (∀ visit ∈ visits, visit.queries = count ∧ visit.layer < config.numKvLayers) ∧
    (visits.map ScoreVisit.layer ++ visited).Nodup

theorem goodVisits_of_completes {forward : AuxiliaryForward Score}
    (h : forward.Completes config count) : GoodVisits config count forward.visits [] := by
  refine ⟨fun visit hvisit => ⟨h.queries visit hvisit, ?_⟩, ?_⟩
  · exact SlotTables.mem_layerIds.mp (h.layers.mem_iff.mp (List.mem_map_of_mem hvisit))
  · rw [List.append_nil]
    exact h.layers.nodup_iff.mpr List.nodup_range

/-! ## The visits -/

variable [LinearOrder Score]

/-- The scores of a prompt after more visits. -/
def scoresAfter (length : ℕ) (visits : List (ScoreVisit Score)) (scores : ℕ → Score) : ℕ → Score :=
  visits.foldl (fun scores visit position =>
    if position < length then max (scores position) (visit.scores position) else scores position) scores

/-- A visit fails only on a query, on a layer that was visited or on one without
KV. -/
theorem visit_wpe {tables : SlotTables}
    (htables : SlotTables.BorrowedAll config seqId length count tables manager.tables)
    (visit : ScoreVisit Score) {visited : List ℕ}
    (hrunning : manager.reconstruction = some ⟨seqId, length, count, visited⟩) :
    wpe (collectPrefillAttentionScore visit)
      (fun _ next => next = { manager with
        scores := scoresAfter length [visit] manager.scores
        reconstruction := some ⟨seqId, length, count, visit.layer :: visited⟩ })
      (fun next => next = manager ∧
        ¬(visit.queries = count ∧ visit.layer < config.numKvLayers ∧ visit.layer ∉ visited)) manager := by
  have hresident : visit.layer < config.numKvLayers →
      (manager.tables.layers visit.layer).Resident seqId (length + count) :=
    fun hlayer => ((htables visit.layer).1 hlayer).resident
  unfold collectPrefillAttentionScore
  rw [wpe_get, hrunning]
  dsimp only
  rw [wpe_guard]
  refine ⟨fun hqueries => ⟨rfl, fun hgood => hqueries hgood.1⟩, fun _ => ?_⟩
  rw [wpe_guard]
  refine ⟨fun hvisited => ⟨rfl, fun hgood => hgood.2.2 hvisited⟩, fun _ => ?_⟩
  rw [wpe_bind]
  rcases hfound : (manager.tables.layers visit.layer).rowOf seqId with error | row
  · refine ⟨rfl, fun hgood => ?_⟩
    obtain ⟨row, hrow, -⟩ := hresident hgood.2.1
    rw [LayerSlots.rowOf, hrow] at hfound
    exact nomatch hfound
  · rw [wpe_ok, wpe_guard]
    refine ⟨fun hlength => ⟨rfl, fun hgood => hlength ?_⟩, fun _ => rfl⟩
    obtain ⟨other, hrow, hsame⟩ := hresident hgood.2.1
    rw [LayerSlots.rowOf, hrow] at hfound
    rw [← Except.ok.inj hfound, hsame]

/-- The visits of a replay leave the slots alone. -/
theorem visits_wpe {tables : SlotTables}
    (htables : SlotTables.BorrowedAll config seqId length count tables manager.tables)
    (visits : List (ScoreVisit Score)) (visited : List ℕ)
    (hrunning : manager.reconstruction = some ⟨seqId, length, count, visited⟩) :
    wpe (forEach collectPrefillAttentionScore visits)
      (fun _ next => next = { manager with
        scores := scoresAfter length visits manager.scores
        reconstruction := some ⟨seqId, length, count, (visits.map ScoreVisit.layer).reverse ++ visited⟩ })
      (fun next => next.tables = manager.tables ∧ next.reconstructionPromptIds = manager.reconstructionPromptIds ∧
        next.reconstructionSource = manager.reconstructionSource ∧ ¬GoodVisits config count visits visited)
      manager := by
  induction visits generalizing manager visited with
  | nil =>
      rw [forEach, wpe_pure, List.map_nil, List.reverse_nil, List.nil_append, ← hrunning]
      rfl
  | cons visit rest ih =>
      rw [forEach]
      refine wpe_then_imp (visit_wpe htables visit hrunning) ?_ ?_
      · rintro _ middle rfl
        have hrest := @ih { manager with
          scores := scoresAfter length [visit] manager.scores
          reconstruction := some ⟨seqId, length, count, visit.layer :: visited⟩ } htables (visit.layer :: visited) rfl
        refine wpe_imp hrest ?_ ?_
        · rintro _ last rfl
          simp [scoresAfter]
        · rintro last ⟨htables', hpromptIds, hsource, hbad⟩
          refine ⟨htables', hpromptIds, hsource, fun hgood => hbad ⟨fun other hother =>
            hgood.1 other (List.mem_cons_of_mem _ hother), ?_⟩⟩
          exact List.perm_middle.nodup_iff.mpr (by simpa using hgood.2)
      · rintro _ ⟨rfl, hbad⟩
        refine ⟨rfl, rfl, rfl, fun hgood => hbad ?_⟩
        have hnodup := hgood.2
        rw [List.map_cons, List.cons_append, List.nodup_cons] at hnodup
        obtain ⟨hqueries, hlayer⟩ := hgood.1 visit List.mem_cons_self
        exact ⟨hqueries, hlayer, fun hvisited => hnodup.1 (List.mem_append_right _ hvisited)⟩

variable {seq : ChainSequence Id}

/-- A replay up to its end or its exception. -/
theorem auxiliaryPrefill_wpe {replay : List ℤ}
    (hfits : SlotTables.Fits config seq.seqId length replay.length manager.tables)
    (hrunning : manager.reconstruction = some ⟨seq.seqId, length, replay.length, []⟩)
    (forward : AuxiliaryForward Score) :
    wpe (auxiliaryPrefill config forward seq replay length)
      (fun _ next => Running config seq.seqId length manager next ∧
        next.scores = scoresAfter length forward.visits manager.scores ∧
        next.reconstruction = some ⟨seq.seqId, length, replay.length, (forward.visits.map ScoreVisit.layer).reverse⟩)
      (fun next => Running config seq.seqId length manager next ∧ ¬forward.Completes config replay.length) manager := by
  have hreplay : SlotTables.IsReplay (replayOf seq replay length) seq.seqId length replay.length := ⟨rfl, rfl, rfl⟩
  unfold auxiliaryPrefill
  rw [wpe_bind]
  refine wpe_focus.mpr (wpe_imp (hfits.prepareReplay hreplay forward) (fun _ tables htables => ?_)
    fun tables htables => ⟨⟨htables.1, rfl, rfl⟩, fun hcompletes => ?_⟩)
  · rw [wpe_bind]
    have hvisits := @visits_wpe Score config { manager with tables := tables } seq.seqId length replay.length _ _
      htables forward.visits [] hrunning
    rw [List.append_nil] at hvisits
    refine wpe_imp hvisits ?_ ?_
    · rintro _ last rfl
      rcases hlate : forward.lateFault with _ | error
      · exact ⟨⟨htables.borrowed, rfl, rfl⟩, rfl, rfl⟩
      · exact ⟨⟨htables.borrowed, rfl, rfl⟩, fun hcompletes => nomatch hlate.symm.trans hcompletes.late⟩
    · rintro last ⟨hsame, hpromptIds, hsource, hbad⟩
      refine ⟨⟨?_, hpromptIds, hsource⟩, fun hcompletes => hbad (goodVisits_of_completes hcompletes)⟩
      rw [hsame]
      exact htables.borrowed
  · rcases htables.2 with hearly | ⟨layer, hlayer⟩
    · exact hearly hcompletes.early
    · exact hlayer (hcompletes.allocation layer)

/-- **A replay** puts everything back on every exit, and it fails only if the
forward does not complete. -/
theorem replayChunk_spec {source : List ℤ} {start : ℕ} (hidle : manager.reconstruction = none)
    (hlength : seq.numPromptTokens.toNat = length) (hfits : SlotTables.Fits config seq.seqId length
      (replayTokens config manager.reconstructionPromptIds source length start).length manager.tables)
    (forward : AuxiliaryForward Score) :
    wpe (replayChunk config seq source length forward start)
      (fun _ next => Unchanged manager next ∧ next.scores = scoresAfter length forward.visits manager.scores)
      (fun next => Unchanged manager next ∧ ¬forward.Completes config
        (replayTokens config manager.reconstructionPromptIds source length start).length) manager := by
  unfold replayChunk reconstructionChunk
  rw [wpe_get]
  generalize replayTokens config manager.reconstructionPromptIds source length start = replay at hfits ⊢
  have hmax := hfits.max_len
  rw [wpe_get, wpe_guard, hidle, hlength]
  refine ⟨nofun, fun _ => ?_⟩
  rw [wpe_guard]
  refine ⟨fun hlong => absurd hmax (Nat.not_le.mpr hlong), fun _ => ?_⟩
  rw [wpe_set, wpe_finallyDo, wpe_bind]
  have hbody := @auxiliaryPrefill_wpe Id Score config { manager with
    reconstruction := some ⟨seq.seqId, length, replay.length, []⟩ } length _ seq replay hfits rfl forward
  have hbad : ∀ current : KVzipManager Score, Running config seq.seqId length manager current →
      ¬forward.Completes config replay.length →
      wpe (finallyDo (onTables (releaseReconstructionSuffix config seq.seqId length))
          (Routine.write fun manager => { manager with reconstruction := none }))
        (fun _ next => Unchanged manager next ∧ ¬forward.Completes config replay.length)
        (fun next => Unchanged manager next ∧ ¬forward.Completes config replay.length) current :=
    fun current hcurrent hnot => wpe_imp hcurrent.cleanup (fun _ _ hlast => ⟨hlast.1, hnot⟩) fun _ => False.elim
  refine wpe_imp hbody ?_ ?_
  · rintro _ current ⟨hcurrent, hscores, hvisited⟩
    have hcurrent' : Running config seq.seqId length manager current :=
      ⟨hcurrent.tables, hcurrent.promptIds, hcurrent.source⟩
    rw [wpe_get, wpe_raiseIf, hvisited]
    refine ⟨fun hmissing => hbad current hcurrent' fun hcompletes => hmissing ?_, fun _ => ?_⟩
    · exact List.toFinset_eq_of_perm _ _ ((List.reverse_perm _).trans hcompletes.layers)
    · exact wpe_imp hcurrent'.cleanup (fun _ _ hlast => ⟨hlast.1, hlast.2.trans hscores⟩) fun _ => False.elim
  · rintro current ⟨hcurrent, hnot⟩
    exact hbad current ⟨hcurrent.tables, hcurrent.promptIds, hcurrent.source⟩ hnot

end KVzipManager
