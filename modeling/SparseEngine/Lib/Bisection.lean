import SparseEngine.Lib.Routine
import Mathlib.Data.Int.Notation

/-!
# Bisection

The search for the largest number in a range that passes a test.  The test may
raise.  It has to pass below every number for which it passes.
-/

namespace Bisection

/-- `while lo < hi: mid = (lo + hi + 1) // 2; lo = mid if test(mid) else hi = mid - 1`. -/
def largest (test : ℤ → Except PyError Bool) (lo hi : ℤ) : Except PyError ℤ :=
  if lo < hi then
    let mid := (lo + hi + 1) / 2
    match test mid with
    | .error error => .error error
    | .ok true => largest test mid hi
    | .ok false => largest test lo (mid - 1)
  else .ok lo
termination_by (hi - lo).toNat

variable {test : ℤ → Except PyError Bool} {lo hi found : ℤ}

/-- What the search finds passes, and nothing larger in the range does. -/
theorem largest_spec (hpasses : test lo = .ok true) (hle : lo ≤ hi)
    (hbelow : ∀ fewer more, lo ≤ fewer → fewer ≤ more → more ≤ hi → test more = .ok true → test fewer = .ok true)
    (hfound : largest test lo hi = .ok found) :
    lo ≤ found ∧ found ≤ hi ∧ test found = .ok true ∧ ∀ more, found < more → more ≤ hi → test more ≠ .ok true := by
  induction lo, hi using largest.induct test with
  | case1 lo hi hlt mid error herror =>
      rw [largest, if_pos hlt] at hfound
      simp only [mid] at herror
      simp only [herror, reduceCtorEq] at hfound
  | case2 lo hi hlt mid htrue ih =>
      simp only [mid] at htrue ih
      rw [largest, if_pos hlt] at hfound
      simp only [htrue] at hfound
      obtain ⟨hlo, hhi, htest, hmore⟩ := ih htrue (by omega)
        (fun fewer more hfewer => hbelow fewer more (by omega)) hfound
      exact ⟨by omega, hhi, htest, hmore⟩
  | case3 lo hi hlt mid hfalse ih =>
      simp only [mid] at hfalse ih
      rw [largest, if_pos hlt] at hfound
      simp only [hfalse] at hfound
      obtain ⟨hlo, hhi, htest, hmore⟩ := ih hpasses (by omega)
        (fun fewer more hfewer hle hmore => hbelow fewer more hfewer hle (by omega)) hfound
      refine ⟨hlo, by omega, htest, fun more hlarger hrange hpass => ?_⟩
      rcases Int.lt_or_le more ((lo + hi + 1) / 2) with hless | hreached
      · exact hmore more hlarger (by omega) hpass
      · -- a number above the middle would make the middle pass
        have hmid := hbelow ((lo + hi + 1) / 2) more (by omega) hreached hrange hpass
        rw [hfalse] at hmid
        exact nomatch hmid
  | case4 lo hi hge =>
      rw [largest, if_neg hge] at hfound
      obtain rfl := Except.ok.inj hfound
      exact ⟨Int.le_refl _, hle, hpasses, fun more hlarger hrange => absurd hrange (by omega)⟩

/-- The search returns when no test in the range raises. -/
theorem largest_ok (hlo : lo ≤ hi)
    (htest : ∀ tested, lo ≤ tested → tested ≤ hi → ∃ passes, test tested = .ok passes) :
    ∃ found, largest test lo hi = .ok found := by
  induction lo, hi using largest.induct test with
  | case1 lo hi hlt mid error herror =>
      obtain ⟨passes, hpasses⟩ := htest mid (by omega) (by omega)
      exact nomatch herror.symm.trans hpasses
  | case2 lo hi hlt mid htrue ih =>
      simp only [mid] at htrue ih
      rw [largest, if_pos hlt]
      simp only [htrue]
      exact ih (by omega) fun tested hle => htest tested (by omega)
  | case3 lo hi hlt mid hfalse ih =>
      simp only [mid] at hfalse ih
      rw [largest, if_pos hlt]
      simp only [hfalse]
      exact ih (by omega) fun tested hle hmid => htest tested hle (by omega)
  | case4 lo hi hge => exact ⟨lo, by rw [largest, if_neg hge]⟩

end Bisection
