import Mathlib.Data.List.Nodup

/-!
# Loops over entries that own a key

A table gives every key a value.  A loop runs over entries, each of which
reads and writes the value of its own key.  When the keys of the entries are
distinct, the loop succeeds as soon as every entry succeeds on the value its
key has before the loop, and it leaves the other keys alone.
-/

namespace Keyed

variable {Entry Key Value Error : Type} [DecidableEq Key]

/-- One after another, the entries update the values of their keys. -/
def updateEach (key : Entry → Key) (body : Entry → Value → Except Error Value) :
    List Entry → (Key → Value) → Except Error (Key → Value)
  | [], table => .ok table
  | entry :: rest, table =>
      match body entry (table (key entry)) with
      | .error error => .error error
      | .ok value => updateEach key body rest (Function.update table (key entry) value)

variable {key : Entry → Key} {body : Entry → Value → Except Error Value} {entries : List Entry}
  {table : Key → Value}

/-- Every entry on its own decides what the loop does. -/
theorem updateEach_ok (good : Entry → Value → Prop) (table : Key → Value) (hnodup : (entries.map key).Nodup)
    (hbody : ∀ entry ∈ entries, ∃ value, body entry (table (key entry)) = .ok value ∧ good entry value) :
    ∃ later, updateEach key body entries table = .ok later ∧ (∀ entry ∈ entries, good entry (later (key entry))) ∧
      ∀ other, other ∉ entries.map key → later other = table other := by
  induction entries generalizing table with
  | nil => exact ⟨table, rfl, fun entry hmem => absurd hmem List.not_mem_nil, fun _ _ => rfl⟩
  | cons entry rest ih =>
      rw [List.map_cons, List.nodup_cons] at hnodup
      obtain ⟨value, hvalue, hgood⟩ := hbody entry List.mem_cons_self
      have hrest : ∀ next ∈ rest, Function.update table (key entry) value (key next) = table (key next) := by
        intro next hnext
        apply Function.update_of_ne
        rintro heq
        exact hnodup.1 (heq ▸ List.mem_map_of_mem hnext)
      obtain ⟨later, hlater, hgoods, hothers⟩ :=
        ih (Function.update table (key entry) value) hnodup.2 fun next hnext => by
          rw [hrest next hnext]
          exact hbody next (List.mem_cons_of_mem entry hnext)
      refine ⟨later, ?_, ?_, ?_⟩
      · simp only [updateEach, hvalue]
        exact hlater
      · intro next hnext
        rcases List.mem_cons.mp hnext with rfl | hnext
        · rw [hothers (key next) hnodup.1, Function.update_self]
          exact hgood
        · exact hgoods next hnext
      · intro other hother
        rw [List.map_cons, List.mem_cons, not_or] at hother
        rw [hothers other hother.2, Function.update_of_ne hother.1]

/-- A loop that returned: every entry succeeded on the value its key had
before. -/
theorem updateEach_eq_ok (hnodup : (entries.map key).Nodup) {later : Key → Value}
    (h : updateEach key body entries table = .ok later) :
    (∀ entry ∈ entries, body entry (table (key entry)) = .ok (later (key entry))) ∧
      ∀ other, other ∉ entries.map key → later other = table other := by
  have hbody : ∀ entry ∈ entries, ∃ value, body entry (table (key entry)) = .ok value := by
    induction entries generalizing table with
    | nil => exact fun entry hmem => absurd hmem List.not_mem_nil
    | cons entry rest ih =>
        rw [List.map_cons, List.nodup_cons] at hnodup
        simp only [updateEach] at h
        split at h
        · exact nomatch h
        · next value hvalue =>
          intro next hnext
          rcases List.mem_cons.mp hnext with rfl | hrest
          · exact ⟨value, hvalue⟩
          · obtain ⟨found, hfound⟩ := ih hnodup.2 h next hrest
            rw [Function.update_of_ne] at hfound
            · exact ⟨found, hfound⟩
            · rintro heq
              exact hnodup.1 (heq ▸ List.mem_map_of_mem hrest)
  obtain ⟨again, hagain, hgoods, hothers⟩ := updateEach_ok
    (fun entry value => body entry (table (key entry)) = .ok value) table hnodup
    fun entry hmem => by
      obtain ⟨value, hvalue⟩ := hbody entry hmem
      exact ⟨value, hvalue, hvalue⟩
  obtain rfl : later = again := Except.ok.inj (h.symm.trans hagain)
  exact ⟨hgoods, hothers⟩

end Keyed
