import SparseEngine.Lib.Dict
import Mathlib.Algebra.Ring.Int.Defs

/-!
# Dictionaries of amounts

A dictionary that says how much of each resource is used.  A resource that it
does not name is not used.
-/

namespace Dict

variable {K V : Type} [DecidableEq K]

/-- `d.get(name, 0)`. -/
def amount (d : Dict K ℤ) (name : K) : ℤ := (d.get? name).getD 0

/-- `for name, cost in costs.items(): total[name] = total.get(name, 0) + cost`. -/
def addCosts (total costs : Dict K ℤ) : Dict K ℤ :=
  costs.entries.foldl (fun total entry => total.set entry.1 (total.amount entry.1 + entry.2)) total

@[simp] theorem amount_empty (name : K) : (empty : Dict K ℤ).amount name = 0 := rfl

variable {name : K}

theorem amount_of_get? {d : Dict K ℤ} {cost : ℤ} (h : d.get? name = some cost) :
    d.amount name = cost := by
  rw [amount, h, Option.getD_some]

theorem amount_set (d : Dict K ℤ) (name : K) (cost : ℤ) (other : K) :
    (d.set name cost).amount other = if other = name then cost else d.amount other := by
  rw [amount, get?_set]
  split <;> rfl

private theorem amount_foldl_entries (entries : List (K × ℤ)) (hnodup : (entries.map Prod.fst).Nodup)
    (total : Dict K ℤ) (name : K) :
    (entries.foldl (fun total entry => total.set entry.1 (total.amount entry.1 + entry.2))
      total).amount name = total.amount name + (entries.lookup name).getD 0 := by
  induction entries generalizing total with
  | nil => rw [List.foldl_nil, List.lookup_nil, Option.getD_none, Int.add_zero]
  | cons entry rest ih =>
      obtain ⟨first, cost⟩ := entry
      rw [List.map_cons, List.nodup_cons] at hnodup
      rw [List.foldl_cons, ih hnodup.2, amount_set]
      by_cases hname : name = first
      · subst hname
        -- the rest of the entries does not name it again
        have hrest : rest.lookup name = none := by
          rw [List.lookup_eq_none_iff]
          intro other hother
          rw [bne_iff_ne]
          intro heq
          exact hnodup.1 (List.mem_map.mpr ⟨other, hother, heq.symm⟩)
        rw [if_pos rfl, hrest, List.lookup_cons, beq_self_eq_true, Option.getD_none, Option.getD_some, Int.add_zero]
      · rw [if_neg hname, List.lookup_cons, beq_false_of_ne hname]

/-- Every resource is charged its costs. -/
theorem amount_addCosts (total costs : Dict K ℤ) (name : K) :
    (total.addCosts costs).amount name = total.amount name + costs.amount name :=
  amount_foldl_entries costs.entries costs.nodup_keys total name

/-- A loop that charges every item its share. -/
theorem amount_foldl {step : Dict K ℤ → V → Dict K ℤ} {share : V → ℤ}
    (hstep : ∀ total item, (step total item).amount name = total.amount name + share item)
    (items : List V) (total : Dict K ℤ) :
    (items.foldl step total).amount name = total.amount name + (items.map share).sum := by
  induction items generalizing total with
  | nil => rw [List.foldl_nil, List.map_nil, List.sum_nil, Int.add_zero]
  | cons item rest ih =>
      rw [List.foldl_cons, ih, hstep, List.map_cons, List.sum_cons, Int.add_assoc]

end Dict
