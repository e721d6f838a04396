import SparseEngine.Sequence
import SparseEngine.Lib.Dict

/-!
# Asynchronous execution

`AsyncExecution` of `async_scheduling/execution.py`, on the rank that samples:
the results that wait to be collected, the token that each request is fed
next, and the token sets of the sampling penalties.

A row of a batch is the id of a request and its snapshot.  Streams, events,
host buffers and logprobs are left out.
-/

/-- What `_record_prefix_materialization` appends to `_async_prefix_records`. -/
structure PrefixRecord where
  seqId : ℕ
  tokens : List ℤ
  slots : List ℤ
  deriving DecidableEq

/-- `DeviceResult`. -/
structure DeviceResult (Id : Type) where
  rows : List (ℕ × Sequence Id)
  isPrefill : Bool
  tokens : List ℤ
  inputs : Option (List ℤ)
  prefixRecords : List PrefixRecord

/-- `AsyncExecution`. -/
structure AsyncExecution (Id : Type) where
  results : Dict ℕ (DeviceResult Id)
  lastTokens : Dict ℕ ℤ
  /-- The tokens that the presence and the repetition penalty apply to. -/
  penalties : Dict ℕ (Finset ℤ × Finset ℤ)

namespace AsyncExecution

variable {Id : Type}

/-- `not is_prefill or seq.is_last_chunk_prefill`. -/
def publishesRow (isPrefill : Bool) (seq : Sequence Id) : Except PyError Bool :=
  if isPrefill then seq.isLastChunkPrefill else .ok true

/-- `prepare_inputs`.  The accepted tokens are read for all rows when one has no
feedback. -/
def prepareInputs (rows : List (ℕ × Sequence Id)) (execution : AsyncExecution Id) :
    Except PyError (List ℤ) :=
  if rows.all fun row => decide (row.1 ∈ execution.lastTokens.keys) then
    .ok (rows.map fun row => (execution.lastTokens.get? row.1).getD 0)
  else
    rows.mapM fun row =>
      match row.2.decodeInputToken with
      | .error error => .error error
      | .ok initial => .ok ((execution.lastTokens.get? row.1).getD initial)

/-- The entry that `apply_penalties` makes for a request without one. -/
def seedPenalty (row : ℕ × Sequence Id) (execution : AsyncExecution Id) : AsyncExecution Id :=
  if row.1 ∈ execution.penalties.keys then execution
  else
    let present := row.2.completionTokenIds.toFinset
    let repeated := (row.2.promptTokenIds ++ row.2.completionTokenIds).toFinset
    { execution with penalties := execution.penalties.set row.1 (present, repeated) }

/-- `apply_penalties`, as far as it writes. -/
def applyPenalties (hasSamplingPenalty : ℕ → Bool) (rows : List (ℕ × Sequence Id))
    (execution : AsyncExecution Id) : AsyncExecution Id :=
  (rows.filter fun row => hasSamplingPenalty row.1).foldl
    (fun execution row => execution.seedPenalty row) execution

/-- The feedback of one sampled token. -/
def noteSample (seqId : ℕ) (token : ℤ) (execution : AsyncExecution Id) : AsyncExecution Id :=
  { execution with
    lastTokens := execution.lastTokens.set seqId token
    penalties :=
      match execution.penalties.get? seqId with
      | none => execution.penalties
      | some (present, repeated) =>
          execution.penalties.set seqId (insert token present, insert token repeated) }

/-- The loop of `submit` over the rows and their tokens. -/
def noteSamples (isPrefill : Bool) : List ((ℕ × Sequence Id) × ℤ) → AsyncExecution Id →
    Except PyError (AsyncExecution Id)
  | [], execution => .ok execution
  | ((seqId, seq), token) :: rest, execution =>
      match publishesRow isPrefill seq with
      | .error error => .error error
      | .ok false => noteSamples isPrefill rest execution
      | .ok true => noteSamples isPrefill rest (execution.noteSample seqId token)

/-- `prepare_synchronous_execution`. -/
def prepareSynchronousExecution (execution : AsyncExecution Id) :
    Except PyError (AsyncExecution Id) :=
  if execution.results.keys = [] then
    .ok { execution with lastTokens := Dict.empty, penalties := Dict.empty }
  else .error (.runtimeError "Synchronous execution requires all asynchronous results to retire")

/-- `forget`. -/
def forget (seqIds : Finset ℕ) (execution : AsyncExecution Id) : AsyncExecution Id :=
  { execution with
    lastTokens := execution.lastTokens.filter fun seqId _ => decide (seqId ∉ seqIds)
    penalties := execution.penalties.filter fun seqId _ => decide (seqId ∉ seqIds) }

/-- The test of `assert_releasable`: a result is waited for. -/
def holds (seqIds : Finset ℕ) (execution : AsyncExecution Id) : Bool :=
  execution.results.values.any fun result => result.rows.any fun row => decide (row.1 ∈ seqIds)

end AsyncExecution
