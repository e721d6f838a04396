import Mathlib.Algebra.Order.Group.Int

/-!
# Lengths that are cut back

A state takes steps that may fail.  A length of it grows by at most one with
every step, and is cut back below a limit either as soon as it reaches the
limit (`length_le_of_limit`) or only when a clock that every step advances
passes a multiple of a period (`length_le_of_period`).
-/

namespace Sawtooth

/-- The time since the last multiple of a period, one tick later. -/
theorem emod_succ {period : ℤ} (hperiod : 0 < period) (time : ℤ) :
    (time + 1) % period = if time % period = period - 1 then 0 else time % period + 1 := by
  have hlow := Int.emod_nonneg time hperiod.ne'
  have hhigh := Int.emod_lt_of_pos time hperiod
  have hdecompose := Int.emod_add_mul_ediv time period
  have hshift : time + 1 = time % period + 1 + period * (time / period) := by omega
  rw [hshift, Int.add_mul_emod_self_left]
  split
  · next hlast =>
    rw [hlast, Int.sub_add_cancel, Int.emod_self]
  · exact Int.emod_eq_of_lt (by omega) (by omega)

variable {State Step Error : Type}

/-- The steps one after another, up to the first that fails. -/
def runSteps (step : Step → State → Except Error State) :
    List Step → State → Except Error State
  | [], state => .ok state
  | input :: rest, state =>
      match step input state with
      | .error error => .error error
      | .ok next => runSteps step rest next

variable {step : Step → State → Except Error State} {state next : State}

theorem runSteps_cons {input : Step} {rest : List Step} (h : runSteps step (input :: rest) state = .ok next) :
    ∃ middle, step input state = .ok middle ∧ runSteps step rest middle = .ok next := by
  unfold runSteps at h
  split at h
  · exact nomatch h
  · next middle hstep => exact ⟨middle, hstep, h⟩

theorem runSteps_cons_of_ok {input : Step} {rest : List Step} {middle : State}
    (hstep : step input state = .ok middle) :
    runSteps step (input :: rest) state = runSteps step rest middle := by
  rw [runSteps, hstep]

theorem runSteps_append {first second : List Step} {middle : State}
    (hfirst : runSteps step first state = .ok middle) :
    runSteps step (first ++ second) state = runSteps step second middle := by
  induction first generalizing state with
  | nil =>
      obtain rfl := Except.ok.inj hfirst
      rfl
  | cons input first ih =>
      obtain ⟨later, hstep, hrest⟩ := runSteps_cons hfirst
      rw [List.cons_append, runSteps_cons_of_ok hstep]
      exact ih hrest

theorem runSteps_concat {inputs : List Step} {input : Step} (h : runSteps step (inputs ++ [input]) state = .ok next) :
    ∃ middle, runSteps step inputs state = .ok middle ∧ step input middle = .ok next := by
  induction inputs generalizing state with
  | nil =>
      obtain ⟨middle, hstep, hrest⟩ := runSteps_cons h
      exact ⟨state, rfl, hstep.trans (congrArg Except.ok (Except.ok.inj hrest))⟩
  | cons first inputs ih =>
      obtain ⟨later, hstep, hrest⟩ := runSteps_cons h
      obtain ⟨middle, hinputs, hlast⟩ := ih hrest
      exact ⟨middle, (runSteps_cons_of_ok hstep).trans hinputs, hlast⟩

/-- What every step keeps holds after the run. -/
theorem runSteps_keeps {good : State → Prop}
    (hkeeps : ∀ input state next, good state → step input state = .ok next → good next)
    {inputs : List Step} (hrun : runSteps step inputs state = .ok next) (hgood : good state) :
    good next := by
  induction inputs generalizing state with
  | nil => exact Except.ok.inj hrun ▸ hgood
  | cons input inputs ih =>
      obtain ⟨middle, hstep, hrest⟩ := runSteps_cons hrun
      exact ih hrest (hkeeps input state middle hgood hstep)

/-- A loop over the numbers below `n` succeeds when every round succeeds and
prepares the next. -/
theorem runSteps_range (round : ℕ → State → Except Error State) (good : ℕ → State → Prop) (n : ℕ) (state : State)
    (hround : ∀ i < n, ∀ state, good i state → ∃ next, round i state = .ok next ∧ good (i + 1) next)
    (hstart : good 0 state) : ∃ next, runSteps round (List.range n) state = .ok next ∧ good n next := by
  induction n with
  | zero => exact ⟨state, rfl, hstart⟩
  | succ n ih =>
      obtain ⟨middle, hmiddle, hgood⟩ := ih fun i hlt => hround i (hlt.trans n.lt_succ_self)
      obtain ⟨next, hnext, hlast⟩ := hround n n.lt_succ_self middle hgood
      refine ⟨next, ?_, hlast⟩
      rw [List.range_succ, runSteps_append hmiddle, runSteps_cons_of_ok hnext]
      rfl

variable (good : State → Prop) (length : State → ℤ)

/-- A run of `n` steps adds at most `n`. -/
theorem length_le_add (hkeeps : ∀ input state next, good state → step input state = .ok next → good next)
    (hgrows : ∀ input state next, good state → step input state = .ok next → length next ≤ length state + 1)
    {inputs : List Step} (hrun : runSteps step inputs state = .ok next) (hgood : good state) :
    length next ≤ length state + inputs.length := by
  induction inputs generalizing state with
  | nil =>
      obtain rfl := Except.ok.inj hrun
      exact (Int.add_zero _).ge
  | cons input inputs ih =>
      obtain ⟨middle, hstep, hrest⟩ := runSteps_cons hrun
      have hfirst := hgrows input state middle hgood hstep
      have hlater := ih hrest (hkeeps input state middle hgood hstep)
      rw [List.length_cons]
      push_cast
      omega

/-- A length that is cut back when it reaches `limit` stays below it, or below
its start. -/
theorem length_le_of_limit {limit : ℤ}
    (hkeeps : ∀ input state next, good state → step input state = .ok next → good next)
    (hgrows : ∀ input state next, good state → step input state = .ok next → length next ≤ length state + 1)
    (hcut : ∀ input state next, good state → step input state = .ok next →
      limit ≤ length state + 1 → length next < limit)
    {inputs : List Step} (hrun : runSteps step inputs state = .ok next) (hgood : good state) :
    length next ≤ max (length state) (limit - 1) := by
  have hinvariant : ∀ input before after,
      (good before ∧ length before ≤ max (length state) (limit - 1)) →
        step input before = .ok after → good after ∧ length after ≤ max (length state) (limit - 1) := by
    intro input before after hbefore hstep
    refine ⟨hkeeps input before after hbefore.1 hstep, ?_⟩
    have hone := hgrows input before after hbefore.1 hstep
    by_cases hreached : limit ≤ length before + 1
    · have hbelow := hcut input before after hbefore.1 hstep hreached
      omega
    · omega
  exact (runSteps_keeps hinvariant hrun ⟨hgood, le_max_left _ _⟩).2

/-- A length that is cut back when the clock passes a multiple of `period` has
grown by at most the time since then. -/
theorem length_le_of_period (clock : State → ℤ) (limit : ℤ) {period : ℤ} (hperiod : 0 < period)
    (hkeeps : ∀ input state next, good state → step input state = .ok next → good next)
    (hgrows : ∀ input state next, good state → step input state = .ok next → length next ≤ length state + 1)
    (hclock : ∀ input state next, good state → step input state = .ok next → clock next = clock state + 1)
    (hcut : ∀ input state next, good state → step input state = .ok next →
      clock next % period = 0 → length next < limit)
    {inputs : List Step} (hrun : runSteps step inputs state = .ok next) (hgood : good state) :
    length next < max (length state) (limit - 1) + period := by
  have hinvariant : ∀ input before after,
      (good before ∧ length before ≤ max (length state) (limit - 1) + clock before % period) →
        step input before = .ok after →
          good after ∧ length after ≤ max (length state) (limit - 1) + clock after % period := by
    intro input before after hbefore hstep
    refine ⟨hkeeps input before after hbefore.1 hstep, ?_⟩
    have hone := hgrows input before after hbefore.1 hstep
    have htick := hclock input before after hbefore.1 hstep
    by_cases hmultiple : clock after % period = 0
    · have hbelow := hcut input before after hbefore.1 hstep hmultiple
      omega
    · -- no multiple is passed, so the time since the last one grows as well
      have hlater := emod_succ hperiod (clock before)
      rw [← htick] at hlater
      split at hlater
      · exact absurd hlater hmultiple
      · omega
  have hstart : length state ≤ max (length state) (limit - 1) + clock state % period := by
    have hlow := Int.emod_nonneg (clock state) hperiod.ne'
    omega
  have hlast := (runSteps_keeps hinvariant hrun ⟨hgood, hstart⟩).2
  have hhigh := Int.emod_lt_of_pos (clock next) hperiod
  omega

end Sawtooth
