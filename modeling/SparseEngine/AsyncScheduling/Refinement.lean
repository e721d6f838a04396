import SparseEngine.AsyncScheduling.Fallback
import SparseEngine.Scheduler.Replay

/-!
# Asynchronous scheduling refines synchronous generation

The invariant holds before the first request and every step of a run keeps it,
whether it raises or not.  What a run publishes is read off it: for every
request the outputs of its collected steps in the order of their submissions,
up to the first one that ends the request.

The releases are read off it as well.  The invariant knows them by the set of
requests to release, which is the union of those a collection has finished and
those aborted while they held slots; `discarded` has the ones among them that
are not released yet.
-/

namespace AsyncScheduler

open Routine AsyncView Scheduler

variable [PrefixReuse] {Id Env Key Resource : Type} [DecidableEq Key] [DecidableEq Resource]
  {ledger : Env → List (Sequence Id)} {engine : AsyncEngine Id Env Key Resource}
  {state : AsyncScheduler Id Env}

section

variable (hquiet : Unobtrusive ledger engine)

include hquiet

/-- The submissions of one `step`. -/
theorem submitLoop_settled (fuel : ℕ) (h : engine.Settled state.view) :
    wpe (submitLoop engine fuel) (fun _ next => engine.Settled next.view)
      (fun next => engine.Settled next.view) state := by
  induction fuel generalizing state with
  | zero => exact h
  | succ fuel ih =>
      unfold submitLoop
      rw [wpe_get, wpe_ite]
      refine ⟨fun _ => ?_, fun _ => h⟩
      refine wpe_then (submit_settled hquiet h) fun submitted next hnext => ?_
      rw [wpe_ite]
      exact ⟨fun _ => ih hnext, fun _ => hnext⟩

theorem step_settled (token : ℕ → ℤ) (h : engine.Settled state.view) :
    wpe (step engine token) (fun _ next => engine.Settled next.view)
      (fun next => engine.Settled next.view) state := by
  unfold step
  rw [wpe_bind]
  refine requireReleased_settled h ?_
  refine wpe_then (submitLoop_settled hquiet engine.asyncMaxInflight h) fun _ next hnext => ?_
  rw [wpe_get, wpe_ite]
  refine ⟨fun hempty => ?_, fun _ => collect_settled hquiet.collect hquiet.release hnext⟩
  exact stepSync_settled hquiet hnext (List.isEmpty_iff.mp hempty) token

/-- **One step of a run** keeps the invariant, whether it raises or not. -/
theorem exec_settled (op : Op Env) (h : engine.Settled state.view) :
    engine.Settled ((exec engine op).after state).view := by
  have hexec : wpe (exec engine op) (fun _ next => engine.Settled next.view)
      (fun next => engine.Settled next.view) state := by
    cases op with
    | admitRequest seqId tokenIds maxTokens ignoreEos eosTokenIds =>
        exact admitRequest_settled hquiet h seqId tokenIds maxTokens ignoreEos eosTokenIds
    | submit =>
        unfold exec
        rw [wpe_bind]
        refine requireReleased_settled h ?_
        exact wpe_then (submit_settled hquiet h) fun _ _ hnext => hnext
    | collect =>
        unfold exec
        rw [wpe_bind]
        exact requireReleased_settled h (collect_settled hquiet.collect hquiet.release h)
    | fallback token =>
        unfold exec
        rw [wpe_bind]
        refine requireReleased_settled h ?_
        rw [wpe_get, wpe_whenDo]
        exact ⟨fun hempty => stepSync_settled hquiet h (List.isEmpty_iff.mp hempty) token, fun _ => h⟩
    | step token => exact step_settled hquiet token h
    | abort seqId =>
        exact wpe_mono (abort_settled hquiet h seqId) fun _ _ hnext => hnext.1
    | elsewhere env => exact h
  exact after_of_wpe hexec

end

/-- **The invariant holds in every state of a run.** -/
theorem run_settled (hquiet : Unobtrusive ledger engine) (h : engine.Settled state.view) (ops : List (Op Env)) :
    engine.Settled (run engine state ops).view := by
  induction ops generalizing state with
  | nil => exact h
  | cons op ops ih => exact ih (exec_settled hquiet op h)

end AsyncScheduler
