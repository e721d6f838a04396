import SparseEngine.Lib.Dict

/-!
# Chunks that overlap

Chunks are kept by the position they start at.  They may overlap, and a
position is read from the chunk that starts first among those that reach past
it.  Putting a chunk replaces the one that started there.

`Holds` says that every position below a bound is read with its content.  A
put overwrites the content, and `holds_set_iff` gives the exact condition
under which the chunks still hold it (`Keeps`): the chunks before the new one
that still serve its positions have the new rows already, and what a longer
chunk at the same start leaves behind is served, with the same rows, by the
chunks after it.
-/

namespace Patches

variable {C α : Type} (length : C → ℕ) (row : C → ℕ → α)

/-- The position is read from this chunk. -/
structure Serves (chunks : Dict ℕ C) (position start : ℕ) (chunk : C) : Prop where
  held : chunks.get? start = some chunk
  reaches : position < start + length chunk
  first : ∀ other < start, ∀ earlier, chunks.get? other = some earlier → other + length earlier ≤ position

/-- Every position below `stop` is read with its content. -/
def Holds (chunks : Dict ℕ C) (content : ℕ → α) (stop : ℕ) : Prop :=
  ∀ position < stop, ∃ start chunk, start ≤ position ∧ Serves length chunks position start chunk ∧
    row chunk (position - start) = content position

/-- The content once a chunk has been put. -/
def overwrite (content : ℕ → α) (start : ℕ) (chunk : C) : ℕ → α := fun position =>
  if start ≤ position ∧ position < start + length chunk then row chunk (position - start)
  else content position

/-- Putting the chunk hides no new row behind an old one and uncovers no older
row. -/
structure Keeps (chunks : Dict ℕ C) (start : ℕ) (chunk : C) : Prop where
  overlap : ∀ position other old, other < start → start ≤ position → position < start + length chunk →
    Serves length chunks position other old → row old (position - other) = row chunk (position - start)
  tail : ∀ position old, start + length chunk ≤ position → Serves length chunks position start old →
    ∃ next later, next ≤ position ∧ Serves length (chunks.erase start) position next later ∧
      row later (position - next) = row old (position - start)

variable {length row} {chunks : Dict ℕ C} {content : ℕ → α} {chunk old later : C}
  {position start other stop : ℕ}

section

variable (hfirst : Serves length chunks position start chunk)
  (hsecond : Serves length chunks position other old)

include hfirst hsecond

/-- Two chunks that serve one position are the same. -/
theorem Serves.start_eq : start = other := by
  rcases lt_trichotomy start other with hlt | heq | hgt
  · have := hsecond.first start hlt chunk hfirst.held
    have := hfirst.reaches
    omega
  · exact heq
  · have := hfirst.first other hgt old hsecond.held
    have := hsecond.reaches
    omega

theorem Serves.chunk_eq : chunk = old := by
  have hstart := hfirst.start_eq hsecond
  subst hstart
  exact Option.some.inj (hfirst.held.symm.trans hsecond.held)

end

/-- What is read at a served position is its content. -/
theorem Holds.row_eq (h : Holds length row chunks content stop) (hposition : position < stop)
    (hserves : Serves length chunks position start chunk) :
    start ≤ position ∧ row chunk (position - start) = content position := by
  obtain ⟨found, held, hle, hfound, hrow⟩ := h position hposition
  obtain rfl := hserves.start_eq hfound
  obtain rfl := hserves.chunk_eq hfound
  exact ⟨hle, hrow⟩

/-! ## One put -/

/-- A chunk that serves from before the new one still does. -/
theorem Serves.set_of_lt (h : Serves length chunks position other old) (hlt : other < start) :
    Serves length (chunks.set start chunk) position other old where
  held := by rw [Dict.get?_set_of_ne _ _ hlt.ne, h.held]
  reaches := h.reaches
  first := fun earlier hearlier found hfound => by
    rw [Dict.get?_set_of_ne _ _ (by omega)] at hfound
    exact h.first earlier hearlier found hfound

/-- The new chunk serves its positions, unless one before it does. -/
theorem serves_set_self (hreaches : position < start + length chunk)
    (hfirst : ∀ other < start, ∀ earlier, chunks.get? other = some earlier → other + length earlier ≤ position) :
    Serves length (chunks.set start chunk) position start chunk where
  held := Dict.get?_set_self _ _ _
  reaches := hreaches
  first := fun earlier hearlier found hfound => by
    rw [Dict.get?_set_of_ne _ _ hearlier.ne] at hfound
    exact hfirst earlier hearlier found hfound

/-- Past the end of the new chunk, the others serve as if nothing were at its
start. -/
theorem serves_set_iff_erase (hpast : start + length chunk ≤ position) :
    Serves length (chunks.set start chunk) position other old ↔
      Serves length (chunks.erase start) position other old := by
  constructor
  · intro h
    have hne : other ≠ start := by
      rintro rfl
      have hheld := h.held
      rw [Dict.get?_set_self, Option.some.injEq] at hheld
      have := h.reaches
      rw [← hheld] at this
      omega
    refine ⟨?_, h.reaches, fun earlier hearlier found hfound => ?_⟩
    · rw [Dict.get?_erase, if_neg hne]
      rw [← h.held, Dict.get?_set_of_ne _ _ hne]
    · by_cases hsame : earlier = start
      · rw [Dict.get?_erase, if_pos hsame] at hfound
        exact nomatch hfound
      · rw [Dict.get?_erase, if_neg hsame] at hfound
        exact h.first earlier hearlier found (by rw [Dict.get?_set_of_ne _ _ hsame, hfound])
  · intro h
    have hne : other ≠ start := by
      rintro rfl
      have hheld := h.held
      rw [Dict.get?_erase, if_pos rfl] at hheld
      exact nomatch hheld
    refine ⟨?_, h.reaches, fun earlier hearlier found hfound => ?_⟩
    · rw [Dict.get?_set_of_ne _ _ hne]
      have hheld := h.held
      rwa [Dict.get?_erase, if_neg hne] at hheld
    · by_cases hsame : earlier = start
      · subst hsame
        rw [Dict.get?_set_self, Option.some.injEq] at hfound
        rw [← hfound]
        exact hpast
      · rw [Dict.get?_set_of_ne _ _ hsame] at hfound
        exact h.first earlier hearlier found (by rw [Dict.get?_erase, if_neg hsame, hfound])

/-- A chunk that starts elsewhere serves a position past the new chunk as
before. -/
theorem Serves.set_of_ne (h : Serves length chunks position other old) (hne : other ≠ start)
    (hpast : start + length chunk ≤ position) :
    Serves length (chunks.set start chunk) position other old where
  held := by rw [Dict.get?_set_of_ne _ _ hne, h.held]
  reaches := h.reaches
  first := fun earlier hearlier found hfound => by
    by_cases hsame : earlier = start
    · subst hsame
      rw [Dict.get?_set_self, Option.some.injEq] at hfound
      rw [← hfound]
      exact hpast
    · rw [Dict.get?_set_of_ne _ _ hsame] at hfound
      exact h.first earlier hearlier found hfound

/-- Whether a chunk before `start` reaches past a position. -/
theorem exists_serves_or_none (chunks : Dict ℕ C) (position start : ℕ) :
    (∃ other old, other < start ∧ Serves length chunks position other old) ∨
      ∀ other < start, ∀ earlier, chunks.get? other = some earlier → other + length earlier ≤ position := by
  induction start with
  | zero => exact Or.inr fun other hlt => absurd hlt (Nat.not_lt_zero other)
  | succ start ih =>
      rcases ih with ⟨other, old, hlt, hserves⟩ | hnone
      · exact Or.inl ⟨other, old, by omega, hserves⟩
      · by_cases hreach : ∃ last, chunks.get? start = some last ∧ position < start + length last
        · obtain ⟨last, hlast, hreach⟩ := hreach
          exact Or.inl ⟨start, last, by omega, hlast, hreach, hnone⟩
        · refine Or.inr fun other hlt earlier hearlier => ?_
          rcases Nat.lt_succ_iff_lt_or_eq.mp hlt with hlt | rfl
          · exact hnone other hlt earlier hearlier
          · by_contra hover
            exact hreach ⟨earlier, hearlier, by omega⟩

/-- **A put keeps the content readable exactly when no older row comes in its
way.** -/
theorem holds_set_iff (h : Holds length row chunks content stop)
    (hinside : ∀ other old, chunks.get? other = some old → other + length old ≤ stop) (hstart : start ≤ stop) :
    Holds length row (chunks.set start chunk) (overwrite length row content start chunk)
        (max stop (start + length chunk)) ↔
      Keeps length row chunks start chunk := by
  constructor
  · refine fun hset => ⟨fun position other old hother hle hlt hserves => ?_, fun position old hpast hserves => ?_⟩
    · have hrow := (hset.row_eq (by omega) (hserves.set_of_lt hother)).2
      rw [overwrite, if_pos ⟨hle, hlt⟩] at hrow
      exact hrow
    · have hreach := hserves.reaches
      have hbound := hinside start old hserves.held
      obtain ⟨next, later, hle, hnext, hrow⟩ := hset position (by omega)
      refine ⟨next, later, hle, (serves_set_iff_erase hpast).mp hnext, ?_⟩
      rw [hrow, overwrite, if_neg (by omega), (h.row_eq (by omega) hserves).2]
  · intro hkeeps position hposition
    by_cases hnew : start ≤ position ∧ position < start + length chunk
    · rw [overwrite, if_pos hnew]
      rcases exists_serves_or_none chunks position start with ⟨other, old, hlt, hserves⟩ | hnone
      · -- an older chunk hides the new one here
        exact ⟨other, old, by omega, hserves.set_of_lt hlt,
          hkeeps.overlap position other old hlt hnew.1 hnew.2 hserves⟩
      · exact ⟨start, chunk, hnew.1, serves_set_self hnew.2 hnone, rfl⟩
    · rw [overwrite, if_neg hnew]
      obtain ⟨other, old, hle, hserves, hrow⟩ := h position (by omega)
      rcases lt_trichotomy other start with hlt | rfl | hgt
      · exact ⟨other, old, hle, hserves.set_of_lt hlt, hrow⟩
      · -- the chunk that served the position has been replaced by a shorter one
        have hpast : other + length chunk ≤ position := by omega
        obtain ⟨next, later, hnext, hlater, hsame⟩ := hkeeps.tail position old hpast hserves
        exact ⟨next, later, hnext, (serves_set_iff_erase hpast).mpr hlater, hsame.trans hrow⟩
      · exact ⟨other, old, hle, hserves.set_of_ne hgt.ne' (by omega), hrow⟩

/-- A chunk that starts where all others have ended hides nothing. -/
theorem keeps_of_ends_le (hends : ∀ other old, chunks.get? other = some old → other + length old ≤ start) :
    Keeps length row chunks start chunk where
  overlap := fun position other old _ hle _ hserves => by
    have := hends other old hserves.held
    have := hserves.reaches
    omega
  tail := fun position old hpast hserves => by
    have := hends start old hserves.held
    have := hserves.reaches
    omega

end Patches
