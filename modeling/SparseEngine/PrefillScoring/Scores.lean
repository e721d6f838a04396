import SparseEngine.PrefillScoring.Window

/-!
# Scores in the last chunk

In every run the scores of a prompt are computed with the chunk that ends it,
on exactly the layers that see more than their budget, and the eviction finds
them.  Without a window there are no scores, and the eviction of a prompt that
is too long raises.
-/

namespace ScoringState

open Keyed ScoringConfig

variable {Id : Type} {config : ScoringConfig} {scheduling : SchedulerConfig}
  {state : ScoringState Id} {table : ℕ → SequenceKv} {batch : List (ChainSequence Id)}
  {candidates : List (ChainSequence Id × ℤ)} {target : PrefillExecutionMode}

variable (config table batch) in
/-- The step of the batch returns, and the rows to score are those of the
prompts that end, in the layers that see more than their budget. -/
def ScoresLastChunks : Prop :=
  ∃ staging asked kvs later,
    config.prefillStaging table batch = .ok (staging, asked) ∧
      updateEach (fun seq : ChainSequence Id => seq.seqId) (config.prepareSequence staging) batch
        asked = .ok kvs ∧
      config.prefillStep batch table = .ok later ∧
      ∀ entry ∈ preparedBatch staging batch asked, ∀ layer < config.numKvLayers, ∃ visible row,
        physicalContextLen staging layer entry (kvs entry.seq.seqId) = .ok visible ∧
          config.prefillScoreRow staging layer entry (kvs entry.seq.seqId) = .ok row ∧
          (row.isSome = true ↔ entry.seq.endsPrompt = true ∧ ∃ budget,
            config.prefillScoreLayerBudget layer = some budget ∧ budget < visible)

/-- The observation window fits the last chunk of every prompt. -/
theorem scores_last_chunks (hconfig : config.Accepted) (h : Reachable config scheduling state)
    (hcandidates : state.Candidates candidates)
    (hscan : config.scanCandidates scheduling target candidates 0 state.table = .ok (batch, table))
    (hscorable : Scorable config table batch) : ScoresLastChunks config table batch := by
  have hsound := h.sound hconfig
  have hscanned : config.Scanned target batch state.table table candidates :=
    scanCandidates_eq_ok hcandidates.nodup (fun _ _ => hsound.dominated _) hscan
  have hready := hsound.ready hcandidates hscanned hscorable
  obtain ⟨staging, asked, later, hstaging, -, -, hlaunched, hstep, -, -⟩ := prefillStep_ok hready
  obtain ⟨kvs, hkvs, hprepared, -⟩ := updateEach_ok
    (fun (seq : ChainSequence Id) later => later = config.preparedKv staging seq (asked seq.seqId))
    asked hready.nodup fun seq hmem =>
      ⟨_, prepareSequence_eq staging (hlaunched.ready.runnable seq hmem), rfl⟩
  refine ⟨staging, asked, kvs, later, hstaging, hkvs, hstep, fun entry hentry layer hlayer => ?_⟩
  obtain ⟨seq, hmem, rfl⟩ := mem_preparedBatch hentry
  have hrun := hlaunched.ready.runnable seq hmem
  have hfits := hlaunched.fits seq hmem
  change ∃ visible row, physicalContextLen staging layer _ (kvs seq.seqId) = _ ∧
    config.prefillScoreRow staging layer _ (kvs seq.seqId) = _ ∧ _
  rw [hprepared seq hmem]
  obtain ⟨row, hrow, hscored⟩ := prefillScoreRow_eq hlayer hrun hfits rfl
  refine ⟨visibleLen (asked seq.seqId) seq staging layer, row,
    physicalContextLen_eq hlayer rfl, hrow, hscored.trans ?_⟩
  constructor
  · rintro ⟨hends, -, hlong⟩
    exact ⟨hends, hlong⟩
  · rintro ⟨hends, budget, hbudget, hlong⟩
    exact scored_of_long hlayer hrun hfits hends (hlaunched.ready.condition seq hmem hends) hbudget
      hlong

/-! ## One request -/

/-- SnapKV with one layer and a budget of one token. -/
def snapkvOfWindow (window : ℤ) : ScoringConfig where
  sparseMethod := .snapkv
  numKvLayers := 1
  sinkKeepTokens := 0
  decodeKeepTokens := 1
  recentKeepTokens := 0
  snapkvNumFullLayers := 0
  scaledTopTokens _ := 0
  rkvCompressionInterval := 1
  rkvObservationTokens := 1
  fullPrefillStaging := false
  snapkvWindowSize := window
  longPrefillOffloadThreshold := 8
  stagingKvCache := false
  pyramidkvPrefillStagingNumSlots := 0

theorem snapkvOfWindow_accepted (window : ℤ) : (snapkvOfWindow window).Accepted :=
  ⟨⟨Nat.zero_lt_one, Int.le_refl 0, Int.zero_le_ofNat 1, Int.le_refl 0, fun _ => Int.le_refl 0,
    Int.zero_lt_one, Int.le_refl 1, fun hrkv => nomatch hrkv⟩, rfl⟩

def eightTokenSteps : SchedulerConfig := ⟨4, 8, 4, 0, 8, false⟩

/-- The only request of the engine. -/
def request (tokenIds : List ℤ) : ChainSequence Unit := .fresh 1 .disabled false tokenIds 4 true []

/-- The engine with the request. -/
def oneRequest (tokenIds : List ℤ) : ScoringState Unit :=
  { (start : ScoringState Unit) with
    seqs := Function.update (fun _ => none) 1 (some (request tokenIds)) }

theorem oneRequest_reachable (window : ℤ) {tokenIds : List ℤ} (hne : tokenIds ≠ []) :
    Reachable (snapkvOfWindow window) eightTokenSteps (oneRequest tokenIds) :=
  .step _ _ .start (.admitted start 1 .disabled false tokenIds 4 true [] rfl rfl hne fun h => nomatch h)

theorem candidates_singleton {state : ScoringState Unit} {seq : ChainSequence Unit}
    (hseq : state.seqs seq.seqId = some seq) (step : ℤ) : state.Candidates [(seq, step)] :=
  ⟨List.nodup_singleton _, fun candidate hmem => by
    obtain rfl := List.mem_singleton.mp hmem
    exact hseq⟩

/-- What the scan leaves in the table. -/
def scannedTable : ℕ → SequenceKv := Function.update (fun _ => .empty) 1 .empty

/-- A prompt that does not fit into one step. -/
def tenTokens : ChainSequence Unit := request [1, 2, 3, 4, 5, 6, 7, 8, 9, 10]

/-- The scan gives the first chunk six of the eight tokens it may have, so that
four are left for a window of four. -/
def firstChunk : ChainSequence Unit := { tenTokens with currentChunkSize := some 6 }

/-- The prompt behind its first chunk. -/
def halfPrefilled : ChainSequence Unit := firstChunk.afterPrefill 0

/-- The engine behind the first chunk. -/
def oneChunkLater : ScoringState Unit :=
  match (oneRequest tenTokens.tokenIds).executePrefill (snapkvOfWindow 4) [firstChunk] (fun _ => 0)
    scannedTable with
  | .ok state => state
  | .error _ => start

theorem oneChunkLater_reachable : Reachable (snapkvOfWindow 4) eightTokenSteps oneChunkLater := by
  have hadmitted : Reachable (snapkvOfWindow 4) eightTokenSteps (oneRequest tenTokens.tokenIds) :=
    oneRequest_reachable 4 (List.cons_ne_nil 1 _)
  exact .step _ _ hadmitted (.prefilled _ _ [(tenTokens, 8)] .chunked [firstChunk] scannedTable
    (fun _ => 0) (candidates_singleton rfl 8) rfl (fun _ _ _ _ => by decide) rfl)

/-- The last four tokens of the prompt are one chunk, which scores them all. -/
theorem last_chunk_scored :
    ScoresLastChunks (snapkvOfWindow 4) (Function.update oneChunkLater.table 1
      (oneChunkLater.table 1)) [{ halfPrefilled with currentChunkSize := some 4 }] := by
  have hscan : (snapkvOfWindow 4).scanCandidates eightTokenSteps .chunked [(halfPrefilled, 8)] 0
      oneChunkLater.table = .ok ([{ halfPrefilled with currentChunkSize := some 4 }],
        Function.update oneChunkLater.table 1 (oneChunkLater.table 1)) := rfl
  exact scores_last_chunks (snapkvOfWindow_accepted 4) oneChunkLater_reachable
    (candidates_singleton rfl 8) hscan fun _ _ _ _ => by decide

/-- A prompt of two tokens in one chunk. -/
def twoTokensAtOnce : ChainSequence Unit := { request [7, 8] with currentChunkSize := some 2 }

/-- Without a window the eviction does not find the scores. -/
theorem windowless_raises :
    ¬ ∀ (config : ScoringConfig) (scheduling : SchedulerConfig) (state : ScoringState Unit)
      (candidates : List (ChainSequence Unit × ℤ)) (target : PrefillExecutionMode)
      (batch : List (ChainSequence Unit)) (table : ℕ → SequenceKv), config.Accepted →
      Reachable config scheduling state → state.Candidates candidates →
      config.scanCandidates scheduling target candidates 0 state.table = .ok (batch, table) →
      ScoresLastChunks config table batch := by
  intro hscores
  have hscan : (snapkvOfWindow 0).scanCandidates eightTokenSteps .chunked [(request [7, 8], 8)] 0
      (oneRequest [7, 8]).table = .ok ([twoTokensAtOnce], scannedTable) := rfl
  obtain ⟨staging, asked, kvs, later, -, -, hstep, -⟩ :=
    hscores _ _ _ _ _ _ _ (snapkvOfWindow_accepted 0)
      (oneRequest_reachable 0 (List.cons_ne_nil 7 [8])) (candidates_singleton rfl 8) hscan
  have hraises : (snapkvOfWindow 0).prefillStep [twoTokensAtOnce] scannedTable =
      .error (.runtimeError
        "SnapKV/PyramidKV prefill eviction requires prefill attention scores.") := rfl
  exact nomatch hraises.symm.trans hstep

end ScoringState
