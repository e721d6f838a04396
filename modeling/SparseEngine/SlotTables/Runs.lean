import SparseEngine.SlotTables.Releases

/-!
# Runs of the manager

A run starts with a fresh manager and makes one call after the other, those
that raise included.  A decode step with a full row moves the stack pointer
and raises behind it, and a decode step that takes the first layer for all of
them loses slots where the layers differ.  A run without such steps conserves
every layer.
-/

namespace LayerSlots

open Routine Cells

/-- The free stack and the rows of the resident sequences are the slots of the
layer, each once, and the free rows and those of the sequences are its rows. -/
def SlotsConserved (numSlots maxRows : ℕ) (slots : LayerSlots) : Prop :=
  (slots.freeSlots ++ slots.seqIdToRow.values.flatMap slots.rowSlots).Perm (List.range numSlots) ∧
    (slots.freeRows ++ slots.seqIdToRow.values).Perm (List.range maxRows) ∧
    ∀ row ∈ slots.freeRows, slots.rowSeqLens row = 0

theorem Conserved.slotsConserved {numSlots maxRows : ℕ} {slots : LayerSlots}
    (h : slots.Conserved numSlots maxRows) : slots.SlotsConserved numSlots maxRows := by
  refine ⟨?_, h.rows_perm, h.free_empty⟩
  have hrows : ∑ row ∈ Finset.range maxRows, (slots.rowSlots row : Multiset ℕ) =
      (slots.seqIdToRow.values.flatMap slots.rowSlots : List ℕ) := by
    have hperm := (h.rows_perm.map fun row => (slots.rowSlots row : Multiset ℕ)).sum_eq
    have hfree : (slots.freeRows.map fun row => (slots.rowSlots row : Multiset ℕ)).sum = 0 := by
      apply List.sum_eq_zero
      intro share hshare
      obtain ⟨row, hrow, rfl⟩ := List.mem_map.mp hshare
      rw [rowSlots, h.free_empty row hrow]
      rfl
    rw [List.map_append, List.sum_append, hfree, zero_add, sum_map_coe] at hperm
    exact hperm.symm
  rw [← Multiset.coe_eq_coe, ← Multiset.coe_add, ← hrows]
  exact h.slots_eq

end LayerSlots

/-- A call of the manager. -/
inductive SlotCall (Id : Type) where
  | prefill (staging : ScoringConfig.PrefillStaging) (seqs : List (ChainSequence Id))
  | decode (seqIds : List ℕ)
  | decodeStatic (seqIds : List ℕ) (staticCap : Option ℕ)
  | decodeGraph (seqIds : List ℕ) (contextCapacity : ℕ) (staticCap : Option ℕ)
  | allocateBatch (layer : ℕ) (seqIds : List ℕ) (fault : Option (PyError × Bool))
  | freePart (layer seqId : ℕ) (keepIndices : List ℕ) (keepIndicesSorted : Bool)
  | freePartBatch (layer : ℕ) (seqIds : List ℕ) (keepIndices : List (List ℕ)) (keepIndicesSorted : Bool)
  | freePartBatchLayers (layers seqIds : List ℕ) (keepIndices : List (List (List ℕ)))
      (keepIndicesSorted : Bool)
  | freePrefixRecent (layers seqIds : List ℕ) (kvLen sinkKeepTokens recentKeepTokens : ℕ)
  | materialize (layer : ℕ) (entries : List (ℕ × ℕ))
  | chainRestore (seqId : ℕ) (lengthsByLayer : List ℕ) (fault : ℕ → Option PyError)
  | freeSeq (seqId : ℕ)

namespace SlotCall

open Routine SlotTables

variable {Id : Type} (config : SlotConfig)

/-- What the call does. -/
def run : SlotCall Id → Routine SlotTables Unit
  | prefill staging seqs => do
      let _ ← preparePrefill config staging seqs
  | decode seqIds => do
      let _ ← prepareDecode config seqIds
  | decodeStatic seqIds staticCap => do
      let _ ← prepareDecodeStatic config seqIds staticCap
  | decodeGraph seqIds contextCapacity staticCap => do
      let _ ← prepareDecodeGraphStep config seqIds contextCapacity staticCap
  | allocateBatch layer seqIds fault => do
      kvLayerIndex config layer
      let _ ← onLayer layer (LayerSlots.allocateBatch config.maxModelLen seqIds fault)
  | freePart layer seqId keepIndices keepIndicesSorted =>
      freePartSlots config layer seqId keepIndices keepIndicesSorted
  | freePartBatch layer seqIds keepIndices keepIndicesSorted =>
      freePartSlotsBatch config layer seqIds keepIndices keepIndicesSorted
  | freePartBatchLayers layers seqIds keepIndices keepIndicesSorted =>
      freePartSlotsBatchLayers config layers seqIds keepIndices keepIndicesSorted
  | freePrefixRecent layers seqIds kvLen sinkKeepTokens recentKeepTokens =>
      SlotTables.freePrefixRecent config layers seqIds kvLen sinkKeepTokens recentKeepTokens
  | materialize layer entries => materializePrefillStagingLayerBatch config layer entries
  | chainRestore seqId lengthsByLayer fault => do
      let _ ← allocateChainRestore config seqId lengthsByLayer fault
  | freeSeq seqId => SlotTables.freeSeq config seqId

/-- The sequences and the layers of the call are different ones. -/
def Distinct : SlotCall Id → Prop
  | prefill _ seqs => (seqs.map ChainSequence.seqId).Nodup
  | decode seqIds | decodeStatic seqIds _ | decodeGraph seqIds _ _ | allocateBatch _ seqIds _ =>
      seqIds.Nodup
  | freePrefixRecent layers seqIds _ _ _ => layers.Nodup ∧ seqIds.Nodup
  | _ => True

/-- What a decode step of `prepare_step` takes for granted. -/
def DecodeFits (seqIds : List ℕ) (tables : SlotTables) : Prop :=
  if tables.uniformDecodeMetadata = true ∧ config.stackTensor = true ∧
      config.numLayers = config.numKvLayers then
    seqIds.length ≤ (tables.layers 0).numFreeSlots → TensorFits config seqIds tables
  else LayersFit config seqIds tables

/-- What `prepare_decode_static` takes for granted. -/
def DecodeStaticFits (seqIds : List ℕ) (tables : SlotTables) : Prop :=
  tables.uniformDecodeMetadata = true → StaticFits config seqIds tables

/-- What `prepare_decode_graph_step` takes for granted. -/
def DecodeGraphFits (seqIds : List ℕ) (tables : SlotTables) : Prop :=
  if config.stackTensor = true ∧ config.alwaysUniform = true then
    tables.uniformDecodeMetadata = true → UniformBatch config seqIds tables
  else DecodeStaticFits config seqIds tables

/-- An eager decode step finds no full row, and a decode step that takes the
first layer for all of them finds the layers alike. -/
def Fits (tables : SlotTables) : SlotCall Id → Prop
  | decode seqIds => DecodeFits config seqIds tables
  | decodeStatic seqIds _ => DecodeStaticFits config seqIds tables
  | decodeGraph seqIds _ _ => DecodeGraphFits config seqIds tables
  | _ => True

end SlotCall

namespace SlotTables

open Routine Cells

variable {Id : Type} {config : SlotConfig} {tables : SlotTables}

/-- A manager after some calls, each allowed where it is made. -/
inductive Reachable (config : SlotConfig) (allowed : SlotTables → SlotCall Id → Prop) :
    SlotTables → Prop
  | start : Reachable config allowed (start config)
  | step (tables : SlotTables) (call : SlotCall Id) : Reachable config allowed tables →
      allowed tables call → Reachable config allowed ((call.run config).after tables)

/-! ## Steps -/

variable {seqIds : List ℕ}

section

variable (h : Conserved config tables)

include h

theorem prepareDecode_wpe (hnodup : seqIds.Nodup) (hfits : SlotCall.DecodeFits config seqIds tables) :
    wpe (prepareDecode config seqIds) (fun _ => Conserved config) (Conserved config) tables := by
  unfold SlotCall.DecodeFits at hfits
  unfold prepareDecode
  rw [wpe_set, wpe_get, wpe_ite]
  constructor
  · intro hpath
    change tables.uniformDecodeMetadata = true ∧ _ at hpath
    rw [if_pos hpath] at hfits
    rcases Nat.eq_zero_or_pos config.numKvLayers with hzero | hlayers
    · -- without layers there is nothing to lose
      have hnone : ∀ next : SlotTables, Conserved config next := fun _ layer hlayer =>
        absurd hlayer (by omega)
      exact wpe_imp (wpe_true _ _) (fun _ next _ => hnone next) fun next _ => hnone next
    · apply prepareDecodeTensor_wpe _ hnodup _ hlayers
      · exact h
      · exact hfits
  · intro hpath
    change ¬ (tables.uniformDecodeMetadata = true ∧ _) at hpath
    rw [if_neg hpath] at hfits
    apply prepareDecodeLayers_wpe _ hnodup
    · exact hfits
    · exact h

theorem prepareDecodeStatic_wpe (hnodup : seqIds.Nodup)
    (hfits : SlotCall.DecodeStaticFits config seqIds tables) (staticCap : Option ℕ) :
    wpe (prepareDecodeStatic config seqIds staticCap) (fun _ => Conserved config) (Conserved config)
      tables := by
  unfold prepareDecodeStatic
  refine wpe_guarded h fun _ => ?_
  rw [wpe_get, wpe_ite]
  exact ⟨fun huniform => prepareDecodeStaticUniform_wpe h hnodup (hfits huniform),
    fun _ => maintains_allocateDecodeBatch hnodup staticCap tables h⟩

theorem prepareDecodeGraphStep_wpe (hnodup : seqIds.Nodup)
    (hfits : SlotCall.DecodeGraphFits config seqIds tables) (contextCapacity : ℕ) (staticCap : Option ℕ) :
    wpe (prepareDecodeGraphStep config seqIds contextCapacity staticCap) (fun _ => Conserved config)
      (Conserved config) tables := by
  unfold SlotCall.DecodeGraphFits at hfits
  unfold prepareDecodeGraphStep
  rw [wpe_ite]
  constructor
  · intro hpath
    rw [if_pos hpath] at hfits
    refine wpe_guarded h fun _ => ?_
    rw [wpe_get]
    refine wpe_guarded h fun huniform => ?_
    rw [Bool.not_eq_false] at huniform
    exact prepareUniformGraphStep_wpe h hnodup (hfits huniform) contextCapacity
  · intro hpath
    rw [if_neg hpath] at hfits
    exact prepareDecodeStatic_wpe h hnodup hfits staticCap

/-- One call conserves every layer. -/
theorem run_conserved {call : SlotCall Id} (hdistinct : call.Distinct)
    (hfits : call.Fits config tables) : Conserved config ((call.run config).after tables) := by
  -- the result of a step is dropped
  have hdrop : ∀ {α : Type} {m : Routine SlotTables α}, wpe m (fun _ => Conserved config) (Conserved config) tables →
      Conserved config ((m >>= fun _ => (pure () : Routine SlotTables Unit)).after tables) := by
    intro α m hm
    apply after_of_wpe
    exact wpe_then hm fun _ _ hnext => hnext
  cases call with
  | prefill staging seqs => exact hdrop (maintains_preparePrefill staging hdistinct tables h)
  | decode seqIds => exact hdrop (prepareDecode_wpe h hdistinct hfits)
  | decodeStatic seqIds staticCap => exact hdrop (prepareDecodeStatic_wpe h hdistinct hfits staticCap)
  | decodeGraph seqIds contextCapacity staticCap =>
      exact hdrop (prepareDecodeGraphStep_wpe h hdistinct hfits contextCapacity staticCap)
  | allocateBatch layer seqIds fault =>
      apply after_of_wpe
      show wpe (_ >>= _) _ _ _
      rw [wpe_bind]
      refine kvLayerIndex_wpe h fun hlayer => ?_
      exact wpe_then (maintains_onLayer hlayer
        (LayerSlots.maintains_allocateBatch _ hdistinct fault) tables h) fun _ _ hnext => hnext
  | freePart layer seqId keepIndices keepIndicesSorted =>
      apply after_of_wpe
      exact wpe_mono (freePartSlots_wpe h layer seqId keepIndices keepIndicesSorted) fun _ _ hnext => hnext.1
  | freePartBatch layer seqIds keepIndices keepIndicesSorted =>
      exact after_of_wpe (maintains_freePartSlotsBatch _ _ _ _ tables h)
  | freePartBatchLayers layers seqIds keepIndices keepIndicesSorted =>
      exact after_of_wpe (maintains_freePartSlotsBatchLayers _ _ _ _ tables h)
  | freePrefixRecent layers seqIds kvLen sinkKeepTokens recentKeepTokens =>
      exact after_of_wpe (maintains_freePrefixRecent hdistinct.1 hdistinct.2 _ _ _ tables h)
  | materialize layer entries =>
      exact after_of_wpe (maintains_materializePrefillStagingLayerBatch _ _ tables h)
  | chainRestore seqId lengthsByLayer fault =>
      exact hdrop (maintains_allocateChainRestore seqId lengthsByLayer fault tables h)
  | freeSeq seqId => exact after_of_wpe (maintains_freeSeq seqId tables h)

end

theorem Reachable.conserved (h : Reachable config
    (fun tables (call : SlotCall Id) => call.Distinct ∧ call.Fits config tables) tables) :
    Conserved config tables := by
  induction h with
  | start => exact conserved_start
  | step tables call _ hallowed ih => exact run_conserved ih hallowed.1 hallowed.2

/-- Slots and rows are conserved on every layer, in every run in which eager
decode steps find no full row and steps that take the first layer for all of
them find the layers alike. -/
theorem slots_and_rows_conserved (config : SlotConfig) (tables : SlotTables)
    (hreachable : Reachable config
      (fun tables (call : SlotCall Id) => call.Distinct ∧ call.Fits config tables) tables) :
    ∀ layer < config.numKvLayers, (tables.layers layer).SlotsConserved (config.layerNumSlots layer)
      config.maxBufferRows :=
  fun layer hlayer => (hreachable.conserved layer hlayer).slotsConserved

/-! ## Compacted and full rows -/

/-- Two layers with one row of two cells, and the slots for two rows. -/
def twoCells : SlotConfig where
  numLayers := 2
  numKvLayers := 2
  numKvCacheSlots := .uniform 4
  maxBufferRows := 2
  maxModelLen := 2
  startsUniform := false
  alwaysUniform := false
  streaming := false
  validateRuntimeInvariants := false
  compactionTileElements := 4
  pyramidkvPrefillStagingNumSlots := 0

/-- A prompt in one chunk. -/
def promptOf (seqId : ℕ) (tokens : List ℤ) : ChainSequence Unit :=
  { Sequence.new tokens 4 true [] with
    seqId := seqId
    currentChunkSize := some tokens.length }

/-- Two layers as `StreamingLLMCacheManager` has them, with rows of four
cells. -/
def streamingCells : SlotConfig :=
  { twoCells with
    numKvCacheSlots := .uniform 8
    maxModelLen := 4
    startsUniform := true
    streaming := true }

/-- Two prompts of three tokens, and a compaction that drops the second token of
each. -/
def compactedTables : SlotTables :=
  ((SlotCall.freePrefixRecent [0, 1] [7, 8] 3 1 1 : SlotCall Unit).run streamingCells).after
    (((SlotCall.prefill .none [promptOf 7 [5, 6, 7], promptOf 8 [8, 9, 10]]).run
      streamingCells).after (start streamingCells))

/-- The compaction and a decode step that takes the first layer for both
conserve the slots. -/
theorem compacted_rows_conserved :
    compactedTables.uniformDecodeMetadata = true ∧
      ((((SlotCall.decode [7, 8] : SlotCall Unit).run streamingCells).after
        compactedTables).layers 1).SlotsConserved 8 2 := by
  have hprompts : ([promptOf 7 [5, 6, 7], promptOf 8 [8, 9, 10]].map ChainSequence.seqId).Nodup :=
    by decide
  have hlayers : [0, 1].Nodup ∧ [7, 8].Nodup := by decide
  have hfits : SlotCall.DecodeFits streamingCells [7, 8] compactedTables := by
    unfold SlotCall.DecodeFits
    rw [if_pos (by decide)]
    intro _
    have hroom : ∀ seqId ∈ [7, 8], (compactedTables.layers 0).currentLen seqId < 4 := by decide
    exact ⟨⟨[0, 1], by decide⟩, by decide, hroom⟩
  refine ⟨by decide, @slots_and_rows_conserved Unit streamingCells _ ?_ 1 (by decide)⟩
  refine .step compactedTables (.decode [7, 8]) ?_ ⟨hlayers.2, hfits⟩
  refine .step _ (.freePrefixRecent [0, 1] [7, 8] 3 1 1) ?_ ⟨hlayers, trivial⟩
  exact .step _ _ .start ⟨hprompts, trivial⟩

/-- A decode step on a full row loses a slot: the stack is lowered and the table
has no cell for it. -/
theorem full_row_loses_slot :
    ¬ ∀ (config : SlotConfig) (tables : SlotTables),
      Reachable config (fun _ (call : SlotCall Unit) => call.Distinct) tables →
      ∀ layer < config.numKvLayers, (tables.layers layer).SlotsConserved
        (config.layerNumSlots layer) config.maxBufferRows := by
  intro hconserved
  have hslots := (hconserved twoCells _ (.step _ (.decode [7])
    (.step _ (.prefill .none [promptOf 7 [5, 6]]) .start (List.nodup_singleton _))
    (List.nodup_singleton _)) 0 (by decide)).1
  have hlength := hslots.length_eq
  revert hlength
  decide

end SlotTables
