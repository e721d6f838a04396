import SparseEngine.PrefillScoring.Steps

/-!
# Runs of the prefill

Requests come and go: fresh ones, turns behind a resumed chain, replays of
preempted ones.  The cache manager may be asked for the execution mode of a
request at any time.
-/

namespace ChainSequence

variable {Id : Type}

/-- `postprocess` of a prefill step. -/
def afterPrefill (token : ℤ) (seq : ChainSequence Id) : ChainSequence Id :=
  { seq with toSequence := seq.toSequence.afterPrefill seq.chunkSize token }

/-- A fresh request. -/
def fresh (seqId : ℕ) (chainStatus : ChainStatus) (multimodalFullPrefill : Bool) (tokenIds : List ℤ)
    (maxTokens : ℤ) (ignoreEos : Bool) (eosTokenIds : List ℤ) : ChainSequence Id where
  toSequence := Sequence.new tokenIds maxTokens ignoreEos eosTokenIds
  seqId := seqId
  chainStatus := chainStatus
  multimodalFullPrefill := multimodalFullPrefill

/-- A turn behind a resumed chain, as `admit_request` sets it up. -/
def resume (reusedTokens : ℤ) (seq : ChainSequence Id) : ChainSequence Id :=
  { seq with
    chainStatus := .resumed
    chainReusedTokens := reusedTokens
    numPrefilledTokens := reusedTokens
    prefixCacheEnabled := true
    prefixCacheHitLen := reusedTokens }

end ChainSequence

/-- The rows after a decode step. -/
def SequenceKv.decodeRows (kv : SequenceKv) (numKvLayers : ℕ) (lengths : ℕ → ℤ) : SequenceKv :=
  let rows : ℕ → Option ℤ := fun layer =>
    if layer < numKvLayers then some (lengths layer) else kv.rowSeqLens layer
  { kv with rowSeqLens := rows }

/-- The tables of the cache manager, the requests of the engine, and the rows of
offloaded chains. -/
structure ScoringState (Id : Type) where
  table : ℕ → SequenceKv
  seqs : ℕ → Option (ChainSequence Id)
  chainRows : ℕ → Option (ℕ → Option ℤ)

namespace ScoringState

open Keyed

variable {Id : Type} (config : ScoringConfig) (scheduling : SchedulerConfig)

/-- The engine before its first request. -/
def start : ScoringState Id := ⟨fun _ => .empty, fun _ => none, fun _ => none⟩

/-- `complete_prefill_execution`, when the prompt has ended. -/
def completePrefill (seq : ChainSequence Id) (kv : SequenceKv) : Except PyError SequenceKv :=
  .ok (if seq.endsPrompt then { kv with rawOffloadPrefillPhase := none } else kv)

/-- A prefill step and its `postprocess`. -/
def executePrefill (batch : List (ChainSequence Id)) (tokens : ℕ → ℤ) (table : ℕ → SequenceKv)
    (state : ScoringState Id) : Except PyError (ScoringState Id) := do
  let table ← config.prefillStep batch table
  let table ← updateEach ChainSequence.seqId completePrefill batch table
  let seqs ← updateEach ChainSequence.seqId
    (fun seq _ => .ok (some (seq.afterPrefill (tokens seq.seqId)))) batch state.seqs
  return { state with table := table, seqs := seqs }

/-- The candidates of a scan are waiting requests, each once. -/
structure Candidates (state : ScoringState Id) (candidates : List (ChainSequence Id × ℤ)) : Prop where
  nodup : (candidates.map fun candidate => candidate.1.seqId).Nodup
  found : ∀ candidate ∈ candidates, state.seqs candidate.1.seqId = some candidate.1

/-- The prompts that end with this step need no scores, or there is a window to
take them from. -/
def Scorable (table : ℕ → SequenceKv) (batch : List (ChainSequence Id)) : Prop :=
  ∀ seq ∈ batch, seq.endsPrompt = true → config.NeedsScore (table seq.seqId) seq →
    0 < config.snapkvWindowSize

/-- What happens in the engine. -/
inductive Step : ScoringState Id → ScoringState Id → Prop where
  /-- A request without a chain, or with a new one. -/
  | admitted (state : ScoringState Id) (seqId : ℕ) (chainStatus : ChainStatus)
      (multimodalFullPrefill : Bool) (tokenIds : List ℤ) (maxTokens : ℤ) (ignoreEos : Bool)
      (eosTokenIds : List ℤ) (hfree : state.seqs seqId = none)
      (hrows : state.table seqId = .empty) (htokens : tokenIds ≠ [])
      (hstatus : chainStatus ≠ .resumed) :
      Step state { state with seqs := Function.update state.seqs seqId (some (.fresh seqId chainStatus
        multimodalFullPrefill tokenIds maxTokens ignoreEos eosTokenIds)) }
  /-- A turn of a chain whose rows are there. -/
  | resumed (state : ScoringState Id) (seqId : ℕ) (multimodalFullPrefill : Bool) (tokenIds : List ℤ)
      (maxTokens : ℤ) (ignoreEos : Bool) (eosTokenIds : List ℤ) (reusedTokens : ℤ)
      (hfree : state.seqs seqId = none)
      (hrows : ∀ layer < config.numKvLayers, ((state.table seqId).rowSeqLens layer).isSome = true)
      (hpos : 0 < reusedTokens) (hsuffix : reusedTokens < tokenIds.length) :
      Step state { state with seqs := Function.update state.seqs seqId (some ((ChainSequence.fresh seqId
        .resumed multimodalFullPrefill tokenIds maxTokens ignoreEos eosTokenIds).resume
          reusedTokens)) }
  /-- A question for the execution mode outside a step. -/
  | asked (state : ScoringState Id) (seq : ChainSequence Id) (mode : PrefillExecutionMode)
      (kv : SequenceKv) (hseq : state.seqs seq.seqId = some seq)
      (hmode : config.prefillExecutionMode (state.table seq.seqId) seq = .ok (mode, kv)) :
      Step state { state with table := Function.update state.table seq.seqId kv }
  /-- A prefill step. -/
  | prefilled (state next : ScoringState Id) (candidates : List (ChainSequence Id × ℤ))
      (target : PrefillExecutionMode) (batch : List (ChainSequence Id)) (table : ℕ → SequenceKv)
      (tokens : ℕ → ℤ) (hcandidates : state.Candidates candidates)
      (hscan : config.scanCandidates scheduling target candidates 0 state.table = .ok (batch, table))
      (hscorable : Scorable config table batch)
      (hrun : state.executePrefill config batch tokens table = .ok next) : Step state next
  /-- One sequence of a decode step. -/
  | decoded (state : ScoringState Id) (seq : ChainSequence Id) (lengths : ℕ → ℤ)
      (queryPositions : ℕ → ℤ → ℤ) (input : DecodeStep) (row : DecodeRow Id)
      (hseq : state.seqs seq.seqId = some seq) (hprompt : seq.remainingPrefillTokens ≤ 0)
      (hrows : ∀ layer < config.numKvLayers,
        (state.table seq.seqId).rowSeqLens layer = some (lengths layer))
      (hstep : DecodeRow.decodeStep config.toWindowConfig input
        ⟨seq.toSequence, lengths, queryPositions⟩ = .ok row) :
      Step state { state with
        table := Function.update state.table seq.seqId
          ((state.table seq.seqId).decodeRows config.numKvLayers row.rowSeqLens)
        seqs := Function.update state.seqs seq.seqId (some { seq with toSequence := row.seq }) }
  /-- A decoding sequence is preempted, and its slots are freed. -/
  | preempted (state : ScoringState Id) (seq : ChainSequence Id) (replay : Sequence Id)
      (hseq : state.seqs seq.seqId = some seq) (hprompt : seq.remainingPrefillTokens ≤ 0)
      (hreplay : seq.toSequence.startRecomputeReplay = .ok replay) :
      Step state { state with
        table := Function.update state.table seq.seqId .empty
        seqs := Function.update state.seqs seq.seqId (some { seq with toSequence := replay }) }
  /-- A request ends or is aborted, and its slots are freed. -/
  | freed (state : ScoringState Id) (seqId : ℕ) :
      Step state { state with
        table := Function.update state.table seqId .empty
        seqs := Function.update state.seqs seqId none }
  /-- A turn of a chain ends; its rows stay. -/
  | turnEnded (state : ScoringState Id) (seqId : ℕ) :
      Step state { state with seqs := Function.update state.seqs seqId none }
  /-- An idle chain moves to the host. -/
  | offloaded (state : ScoringState Id) (seqId : ℕ) (hidle : state.seqs seqId = none) :
      Step state { state with
        table := Function.update state.table seqId .empty
        chainRows := Function.update state.chainRows seqId (some (state.table seqId).rowSeqLens) }
  /-- A chain comes back from the host. -/
  | restored (state : ScoringState Id) (seqId : ℕ) (rows : ℕ → Option ℤ)
      (hidle : state.seqs seqId = none) (hrows : state.chainRows seqId = some rows) :
      Step state { state with
        table := Function.update state.table seqId { SequenceKv.empty with rowSeqLens := rows } }

/-- The states of all runs. -/
inductive Reachable : ScoringState Id → Prop where
  | start : Reachable start
  | step (state next : ScoringState Id) (hreach : Reachable state)
      (hstep : Step config scheduling state next) : Reachable next

end ScoringState
