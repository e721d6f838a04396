import Mathlib.Data.List.MinMax
import Mathlib.Order.Nat

/-!
# Occurrences of patterns in a text that grows

Where one of several patterns begins in a text, and how much of a pattern the
text ends with.  What the text ends with may become an occurrence when the
text grows; nothing before it can.
-/

namespace Occurrences

variable {α : Type} [DecidableEq α] {patterns : List (List α)} {pattern text more : List α} {i : ℕ}

/-- `text.find(pattern)`. -/
def find (text pattern : List α) : Option ℕ :=
  (List.range (text.length + 1)).find? fun i => pattern.isPrefixOf (text.drop i)

/-- A pattern begins there; the empty one does not count. -/
def OccursAt (patterns : List (List α)) (text : List α) (i : ℕ) : Prop :=
  ∃ pattern ∈ patterns, pattern ≠ [] ∧ pattern <+: text.drop i

/-- How much of a pattern, but not all of it, the text ends with. -/
def overlap (text pattern : List α) : ℕ :=
  Nat.findGreatest (fun k => pattern.take k <:+ text) (min (pattern.length - 1) text.length)

/-- The most that the text ends with of any pattern. -/
def longestOverlap (patterns : List (List α)) (text : List α) : ℕ :=
  (patterns.map (overlap text)).foldr max 0

omit [DecidableEq α] in
theorem lt_length_of_prefix_drop (hne : pattern ≠ []) (hstarts : pattern <+: text.drop i) :
    i < text.length := by
  by_contra hle
  rw [List.drop_eq_nil_of_le (by omega), List.prefix_nil] at hstarts
  exact hne hstarts

theorem find_eq_none (hne : pattern ≠ []) (h : find text pattern = none) : ¬ pattern <+: text.drop i := by
  intro hstarts
  have hlt := lt_length_of_prefix_drop hne hstarts
  have hnone := List.find?_eq_none.mp h i (List.mem_range.mpr (by omega))
  exact hnone (List.isPrefixOf_iff_prefix.mpr hstarts)

theorem find_eq_some (h : find text pattern = some i) :
    pattern <+: text.drop i ∧ ∀ j, pattern <+: text.drop j → i ≤ j := by
  obtain ⟨hfound, -, hfirst⟩ := List.find?_range_eq_some.mp h
  refine ⟨List.isPrefixOf_iff_prefix.mp hfound, fun j hj => ?_⟩
  by_contra hlt
  have hnot := hfirst j (by omega)
  simp [List.isPrefixOf_iff_prefix.mpr hj] at hnot

/-- From there on the text is the beginning of a pattern. -/
theorem length_le_of_drop_prefix (hmem : pattern ∈ patterns) (hstarts : text.drop i <+: pattern)
    (hproper : text.length - i < pattern.length) : text.length ≤ i + longestOverlap patterns text := by
  have htake := List.prefix_iff_eq_take.mp hstarts
  rw [List.length_drop] at htake
  have hoverlap : text.length - i ≤ overlap text pattern :=
    Nat.le_findGreatest (le_min (by omega) (Nat.sub_le _ _)) (htake ▸ List.drop_suffix i text)
  have hlongest := List.le_max_of_le' 0 (List.mem_map_of_mem hmem) hoverlap
  unfold longestOverlap
  omega

/-- A text that grows ends with no more of a pattern than it ended with before,
and what it grew by. -/
theorem longestOverlap_append_le :
    longestOverlap patterns (text ++ more) ≤ longestOverlap patterns text + more.length := by
  refine List.max_le_of_forall_le (patterns.map (overlap (text ++ more))) _ fun k hk => ?_
  obtain ⟨pattern, hmem, hoverlap⟩ := List.mem_map.mp hk
  by_contra hlong
  have hsuffix : pattern.take k <:+ text ++ more := Nat.findGreatest_of_ne_zero hoverlap (by omega)
  have hle : k ≤ min (pattern.length - 1) (text ++ more).length := hoverlap ▸ Nat.findGreatest_le _
  rw [List.length_append] at hle
  -- the overlap begins in the old text
  have hdrop := List.suffix_iff_eq_drop.mp hsuffix
  rw [List.length_take_of_le (by omega), List.length_append, List.drop_append_of_le_length (by omega)] at hdrop
  have hstarts : text.drop (text.length + more.length - k) <+: pattern :=
    (hdrop ▸ List.prefix_append _ more).trans (List.take_prefix k pattern)
  have hold := length_le_of_drop_prefix hmem hstarts (by omega)
  omega

/-- **What is held back is enough**: an occurrence that comes with the growth
begins no earlier than the longest overlap. -/
theorem length_le_of_occursAt_append (hnone : ∀ j, ¬ OccursAt patterns text j)
    (hoccurs : OccursAt patterns (text ++ more) i) : text.length ≤ i + longestOverlap patterns text := by
  obtain ⟨pattern, hmem, hne, hstarts⟩ := hoccurs
  by_cases hbehind : text.length ≤ i
  · omega
  rw [List.drop_append_of_le_length (by omega)] at hstarts
  have hold := List.prefix_append (text.drop i) more
  by_cases hlong : pattern.length ≤ (text.drop i).length
  · exact absurd ⟨pattern, hmem, hne, List.prefix_of_prefix_length_le hstarts hold hlong⟩ (hnone i)
  · refine length_le_of_drop_prefix hmem (List.prefix_of_prefix_length_le hold hstarts (by omega)) ?_
    rwa [List.length_drop, Nat.not_le] at hlong

end Occurrences
