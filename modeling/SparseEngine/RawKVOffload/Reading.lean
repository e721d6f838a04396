import SparseEngine.Lib.Patches
import SparseEngine.RawKVOffload.Model

/-!
# Reading a chunked entry

The cursor of the walk stands at the first position that has not been copied,
and no chunk that was walked before reaches past it.  So the chunk at hand, if
it reaches past the cursor, serves every position up to its end, and the walk
copies each position from the chunk that serves it (`copyChunks_eq`).  A walk
that gets to the end has found such a chunk for every position
(`copyChunks_served`).
-/

variable {Dtype K V : Type}

/-- The rows of a chunk, as `copy_prefix_to` counts them. -/
def RawKVChunk.length (chunk : RawKVChunk K V) : ℕ := chunk.k.length

/-- A row of `k` with its row of `v`. -/
def RawKVChunk.row (chunk : RawKVChunk K V) (index : ℕ) : Option (K × V) := (chunk.k.zip chunk.v)[index]?

theorem RawKVChunk.row_eq_some {chunk : RawKVChunk K V} {index : ℕ} {kRow : K} {vRow : V}
    (h : chunk.row index = some (kRow, vRow)) : chunk.k[index]? = some kRow ∧ chunk.v[index]? = some vRow :=
  List.getElem?_zip_eq_some.mp h

/-- The cells with those from `start` to `stop` filled. -/
def fillCells {α : Type} (cells filling : ℕ → α) (start stop : ℕ) : ℕ → α := fun position =>
  if start ≤ position ∧ position < stop then filling position else cells position

theorem fillCells_fillCells {α : Type} (cells filling : ℕ → α) {start middle stop : ℕ} (hfirst : start ≤ middle)
    (hsecond : middle ≤ stop) :
    fillCells (fillCells cells filling start middle) filling middle stop = fillCells cells filling start stop := by
  funext position
  unfold fillCells
  split_ifs <;> first | rfl | omega

/-- The targets with the positions from `start` to `stop` filled. -/
def PrefixTargets.fill (targets : PrefixTargets K V) (kRows : ℕ → K) (vRows : ℕ → V) (start stop : ℕ) :
    PrefixTargets K V where
  kOut := ⟨fillCells targets.kOut.rows kRows start stop, targets.kOut.length, targets.kOut.tail⟩
  vOut := ⟨fillCells targets.vOut.rows vRows start stop, targets.vOut.length, targets.vOut.tail⟩

theorem PrefixTargets.fill_fill (targets : PrefixTargets K V) (kRows : ℕ → K) (vRows : ℕ → V)
    {start middle stop : ℕ} (hfirst : start ≤ middle) (hsecond : middle ≤ stop) :
    (targets.fill kRows vRows start middle).fill kRows vRows middle stop = targets.fill kRows vRows start stop := by
  simp only [fill, fillCells_fillCells _ _ hfirst hsecond]

theorem PrefixTargets.fill_self (targets : PrefixTargets K V) (kRows : ℕ → K) (vRows : ℕ → V) (start : ℕ) :
    targets.fill kRows vRows start start = targets := by
  have hnone : ∀ {α : Type} (cells filling : ℕ → α), fillCells cells filling start start = cells :=
    fun cells filling => funext fun position => if_neg (by omega)
  simp only [fill, hnone]

/-- A copy of a slice of rows fills its range with them. -/
theorem write_slice_eq {α : Type} {cells filling : ℕ → α} {rows : List α} {chunkStart start stop : ℕ}
    (hstart : chunkStart ≤ start) (hstop : stop ≤ chunkStart + rows.length)
    (hrows : ∀ position, start ≤ position → position < stop → rows[position - chunkStart]? = some (filling position)) :
    Cells.write cells start ((rows.take (stop - chunkStart)).drop (start - chunkStart)) =
      fillCells cells filling start stop := by
  funext position
  unfold Cells.write fillCells
  by_cases hbelow : start ≤ position
  · have hindex : start - chunkStart + (position - start) = position - chunkStart := by omega
    rw [if_pos hbelow, List.getElem?_drop, hindex]
    by_cases hinside : position < stop
    · rw [List.getElem?_take_of_lt (by omega), hrows position hbelow hinside, if_pos ⟨hbelow, hinside⟩]
      rfl
    · rw [List.getElem?_eq_none, if_neg (by omega)]
      · rfl
      · rw [List.length_take]
        omega
  · rw [if_neg hbelow, if_neg (by omega)]

namespace RawKVEntry

open Patches Routine

variable {key : RawKVKey} {chunks : Dict ℕ (RawKVChunk K V)} {starts : List ℕ} {cursor stop : ℕ}
  {targets written : PrefixTargets K V} {kRows : ℕ → K} {vRows : ℕ → V}

/-- The starts that a walk still has before it. -/
structure Ahead (chunks : Dict ℕ (RawKVChunk K V)) (starts : List ℕ) (cursor : ℕ) : Prop where
  increasing : starts.Pairwise (· < ·)
  held : ∀ start ∈ starts, ∃ chunk, chunks.get? start = some chunk
  walked : ∀ start chunk, chunks.get? start = some chunk → start ∉ starts → start + chunk.length ≤ cursor

variable {start : ℕ} {chunk : RawKVChunk K V}

section

variable (h : Ahead chunks (start :: starts) cursor)

include h

theorem Ahead.tail {next : ℕ} (hchunk : chunks.get? start = some chunk) (hcursor : cursor ≤ next)
    (hpast : start + chunk.length ≤ next) :
    Ahead chunks starts next where
  increasing := (List.pairwise_cons.mp h.increasing).2
  held := fun other hother => h.held other (List.mem_cons_of_mem _ hother)
  walked := fun other found hfound hother => by
    by_cases hsame : other = start
    · subst hsame
      obtain rfl := Option.some.inj (hchunk.symm.trans hfound)
      exact hpast
    · exact (h.walked other found hfound (by simp [hsame, hother])).trans hcursor

/-- The chunk at hand serves what it has past the cursor. -/
theorem Ahead.serves {position : ℕ} (hchunk : chunks.get? start = some chunk)
    (hcursor : cursor ≤ position) (hreaches : position < start + chunk.length) :
    Serves RawKVChunk.length chunks position start chunk where
  held := hchunk
  reaches := hreaches
  first := fun other hlt earlier hearlier => by
    refine (h.walked other earlier hearlier fun hmem => ?_).trans hcursor
    rcases List.mem_cons.mp hmem with rfl | hmem
    · exact absurd hlt (lt_irrefl _)
    · have := (List.pairwise_cons.mp h.increasing).1 other hmem
      omega

/-- What serves the cursor is ahead of the walk, so the chunk at hand starts no
later. -/
theorem Ahead.start_le {other : ℕ} (hserves : Serves RawKVChunk.length chunks cursor other chunk) :
    start ≤ other := by
  have hmem : other ∈ start :: starts := by
    by_contra hnot
    have := h.walked other chunk hserves.held hnot
    have := hserves.reaches
    omega
  rcases List.mem_cons.mp hmem with rfl | hmem
  · exact le_rfl
  · exact ((List.pairwise_cons.mp h.increasing).1 other hmem).le

end

theorem ahead_start (chunks : Dict ℕ (RawKVChunk K V)) :
    Ahead chunks (chunks.keys.insertionSort (· ≤ ·)) 0 where
  increasing := by
    have hle := List.pairwise_insertionSort (· ≤ ·) chunks.keys
    have hne : (chunks.keys.insertionSort (· ≤ ·)).Pairwise (· ≠ ·) :=
      (List.perm_insertionSort (· ≤ ·) chunks.keys).nodup_iff.mpr chunks.keys_nodup
    exact (hle.and hne).imp fun h => lt_of_le_of_ne h.1 h.2
  held := fun start hstart => Dict.mem_keys_iff.mp ((List.mem_insertionSort _).mp hstart)
  walked := fun start chunk hchunk hnot =>
    absurd ((List.mem_insertionSort _).mpr (Dict.mem_keys_of_get? hchunk)) hnot

/-- **The walk copies each position from the chunk that serves it.** -/
theorem copyChunks_eq (hahead : Ahead chunks starts cursor) (hcursor : cursor < stop)
    (hlengths : ∀ start chunk, chunks.get? start = some chunk → chunk.v.length = chunk.k.length)
    (hserved : ∀ position, cursor ≤ position → position < stop → ∃ start chunk, start ≤ position ∧
      Serves RawKVChunk.length chunks position start chunk ∧
        chunk.row (position - start) = some (kRows position, vRows position)) :
    copyChunks key chunks stop starts cursor targets = (.ok stop, targets.fill kRows vRows cursor stop) := by
  induction starts generalizing cursor targets with
  | nil =>
      obtain ⟨start, chunk, -, hserves, -⟩ := hserved cursor le_rfl hcursor
      have := hahead.walked start chunk hserves.held List.not_mem_nil
      have := hserves.reaches
      omega
  | cons chunkStart rest ih =>
      obtain ⟨chunk, hchunk⟩ := hahead.held chunkStart List.mem_cons_self
      obtain ⟨start, serving, hle, hserves, -⟩ := hserved cursor le_rfl hcursor
      have hreached : chunkStart ≤ cursor := (hahead.start_le hserves).trans hle
      simp only [copyChunks, hchunk, bind_apply, raiseIf_apply, if_neg (not_lt.mpr hreached)]
      -- a chunk that ends before the cursor is passed over
      by_cases hdone : chunkStart + chunk.k.length ≤ cursor
      · simp only [branch_apply, if_pos hdone]
        exact ih (hahead.tail hchunk le_rfl hdone) hcursor hserved
      · have hstart : max cursor chunkStart = cursor := max_eq_left hreached
        have hlt : cursor < min stop (chunkStart + chunk.k.length) := by omega
        -- up to its end this chunk is the one that serves:
        have hrows : ∀ position, cursor ≤ position → position < min stop (chunkStart + chunk.k.length) →
            chunk.row (position - chunkStart) = some (kRows position, vRows position) := by
          intro position hafter hbefore
          obtain ⟨other, found, -, hfound, hrow⟩ := hserved position hafter (by omega)
          have hthis := hahead.serves hchunk hafter (lt_of_lt_of_le hbefore (min_le_right _ _))
          obtain rfl := hthis.start_eq hfound
          obtain rfl := hthis.chunk_eq hfound
          exact hrow
        have hk := @write_slice_eq K targets.kOut.rows kRows chunk.k chunkStart cursor
          (min stop (chunkStart + chunk.k.length)) hreached (min_le_right _ _)
          fun position hafter hbefore => (RawKVChunk.row_eq_some (hrows position hafter hbefore)).1
        have hv := @write_slice_eq V targets.vOut.rows vRows chunk.v chunkStart cursor
          (min stop (chunkStart + chunk.k.length)) hreached
          (by rw [hlengths chunkStart chunk hchunk]; exact min_le_right _ _)
          fun position hafter hbefore => (RawKVChunk.row_eq_some (hrows position hafter hbefore)).2
        simp only [branch_apply, if_neg hdone, hstart, if_pos hlt, bind_apply, write_apply, RowTarget.copy, hk, hv]
        by_cases hlast : stop ≤ min stop (chunkStart + chunk.k.length)
        · have hend : min stop (chunkStart + chunk.k.length) = stop := le_antisymm (min_le_left _ _) hlast
          simp only [hend, le_refl, if_true, pure_apply]
          rfl
        · have hend : min stop (chunkStart + chunk.k.length) = chunkStart + chunk.k.length := by omega
          have hnext : cursor ≤ chunkStart + chunk.k.length := by omega
          have hbefore : chunkStart + chunk.k.length < stop := by omega
          have hrest : Ahead chunks rest (chunkStart + chunk.k.length) := hahead.tail hchunk hnext le_rfl
          simp only [hend, if_neg (not_le.mpr hbefore)]
          rw [← targets.fill_fill kRows vRows hnext hbefore.le]
          exact ih hrest hbefore fun position hafter => hserved position (hnext.trans hafter)

/-- A walk that gets to the end has found every position served. -/
theorem copyChunks_served (hahead : Ahead chunks starts cursor)
    (hread : copyChunks key chunks stop starts cursor targets = (.ok stop, written)) :
    ∀ position, cursor ≤ position → position < stop → ∃ start chunk, start ≤ position ∧
      Serves RawKVChunk.length chunks position start chunk := by
  induction starts generalizing cursor targets with
  | nil =>
      simp only [copyChunks, pure_apply, Prod.mk.injEq, Except.ok.injEq] at hread
      intro position hafter hbefore
      omega
  | cons chunkStart rest ih =>
      intro position hafter hbefore
      obtain ⟨chunk, hchunk⟩ := hahead.held chunkStart List.mem_cons_self
      simp only [copyChunks, hchunk, bind_apply, raiseIf_apply] at hread
      by_cases hgap : cursor < chunkStart
      · simp only [if_pos hgap, Prod.mk.injEq, reduceCtorEq, false_and] at hread
      · simp only [if_neg hgap, branch_apply] at hread
        by_cases hdone : chunkStart + chunk.k.length ≤ cursor
        · rw [if_pos hdone] at hread
          exact ih (hahead.tail hchunk le_rfl hdone) hread position hafter hbefore
        · by_cases hinside : position < chunkStart + chunk.length
          · exact ⟨chunkStart, chunk, by omega, hahead.serves hchunk hafter hinside⟩
          · have hreach : chunkStart + chunk.k.length ≤ position := not_lt.mp hinside
            have hstart : max cursor chunkStart = cursor := max_eq_left (not_lt.mp hgap)
            have hend : min stop (chunkStart + chunk.k.length) = chunkStart + chunk.k.length := by omega
            have hlt : cursor < chunkStart + chunk.k.length := by omega
            have hlast : ¬stop ≤ chunkStart + chunk.k.length := by omega
            simp only [if_neg hdone, hstart, hend, if_pos hlt, bind_apply, write_apply, if_neg hlast] at hread
            exact ih (hahead.tail hchunk hlt.le le_rfl) hread position hreach hbefore

end RawKVEntry
