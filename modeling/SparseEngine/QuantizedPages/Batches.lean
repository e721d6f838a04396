import SparseEngine.QuantizedPages.Allocation

/-!
# Batches

A batch is checked as a whole before anything is allocated.  The check counts
what each request takes from the pool as it is then; a request of one sequence
does not change what another one takes, so that the check covers the
allocations one after the other.
-/

namespace QuantizedCache

open Routine

variable {Vec Code : Type} {config : QuantizedConfig Vec Code}
  {cache middle next : QuantizedCache Vec Code} {seqId : ℕ}

/-- The pages and the rows for all requests are there. -/
structure Room (config : QuantizedConfig Vec Code) (cache : QuantizedCache Vec Code)
    (requests : List (ℕ × ℤ)) : Prop where
  fits : ∀ request ∈ requests, Fits config cache request
  pages : (requests.map (cost config cache)).sum ≤ cache.pagePool.free.length
  rows : (requests.countP fun request => (cache.seqIdToRow.get? request.1).isNone) ≤
    cache.freeRows.length

/-- What the check establishes.  It changes nothing, whether it raises or
not. -/
theorem wpe_requireRoom (h : Tables config cache) (requests : List (ℕ × ℤ)) (message : String) :
    wpe (requireRoom requests message) (fun _ next => next = cache ∧ Room config cache requests)
      (fun next => next = cache) cache := by
  unfold requireRoom
  rw [wpe_get, wpe_bind]
  rcases hcosts : requests.mapM fun request => cache.pagePool.appendCost request.1 request.2 with error | costs
  · rw [hcosts, wpe_def]
    rfl
  · rw [hcosts, wpe_ok, wpe_raiseIf]
    refine ⟨fun _ => rfl, fun hroom => ⟨rfl, ?_⟩⟩
    rw [not_or, Nat.not_lt, Nat.not_lt] at hroom
    have hall := forall₂_of_mapM hcosts
    have hsum : costs = requests.map (cost config cache) := by
      clear hcosts hroom
      induction hall with
      | nil => rfl
      | cons hcost _ ih => rw [List.map_cons, ← ih, (appendCost_ok h hcost).2]
    have hfits : ∀ request ∈ requests, Fits config cache request := by
      clear hcosts hroom hsum
      induction hall with
      | nil => exact List.forall_mem_nil _
      | cons hcost _ ih => exact List.forall_mem_cons.mpr ⟨(appendCost_ok h hcost).1, ih⟩
    exact ⟨hfits, hsum ▸ hroom.1, hroom.2⟩

namespace Room

variable {request : ℕ × ℤ} {rest : List (ℕ × ℤ)} {taken : QuantizedCache Vec Code} {row : ℕ}
  {slots : List ℕ}

section

variable (h : Room config cache (request :: rest))

include h

theorem head_pages : cost config cache request ≤ cache.pagePool.free.length := by
  have hpages := h.pages
  rw [List.map_cons, List.sum_cons] at hpages
  omega

theorem head_rows (hnone : cache.seqIdToRow.get? request.1 = none) : cache.freeRows ≠ [] := by
  intro hempty
  have hrows := h.rows
  rw [hempty, List.countP_cons, if_pos (Option.isNone_iff_eq_none.mpr hnone)] at hrows
  exact absurd hrows (Nat.not_succ_le_zero _)

/-- After one request there is room for the others. -/
theorem tail (hnot : request.1 ∉ rest.map Prod.fst)
    (htakes : Takes (withPages config cache request) request.1 row taken) :
    Room config (allocated cache taken request row slots) rest := by
  have hne : ∀ other ∈ rest, other.1 ≠ request.1 := by
    rintro other hother heq
    exact hnot (heq ▸ List.mem_map_of_mem hother)
  have hlength : ∀ other ∈ rest, (allocated cache taken request row slots).pagePool.lengthOf other.1 =
      cache.pagePool.lengthOf other.1 := by
    intro other hother
    have hget : (cache.pagePool.grown request.1 (cost config cache request) request.2.toNat).lengths.get?
        other.1 = cache.pagePool.lengths.get? other.1 := Dict.get?_set_of_ne _ _ (hne other hother)
    unfold QuantizedPagePool.lengthOf
    rw [pagePool_allocated htakes, hget]
  have hcost : rest.map (cost config (allocated cache taken request row slots)) = rest.map (cost config cache) := by
    apply List.map_congr_left
    intro other hother
    unfold cost
    rw [hlength other hother]
  refine ⟨fun other hother => ?_, ?_, ?_⟩
  · have hfits := h.fits other (List.mem_cons_of_mem _ hother)
    exact ⟨hfits.nonneg, by rw [hlength other hother]; exact hfits.length_le⟩
  · have hpages := h.pages
    rw [List.map_cons, List.sum_cons] at hpages
    rw [hcost, pagePool_allocated htakes]
    show _ ≤ (cache.pagePool.free.take (cache.pagePool.free.length - cost config cache request)).length
    rw [List.length_take]
    omega
  · have hrows := h.rows
    have hcount := htakes.count_eq
    change _ = cache.freeRows.length at hcount
    have hsame : (rest.countP fun other =>
        ((allocated cache taken request row slots).seqIdToRow.get? other.1).isNone) =
          rest.countP fun other => (cache.seqIdToRow.get? other.1).isNone := by
      apply List.countP_congr
      intro other hother
      have hget : (allocated cache taken request row slots).seqIdToRow.get? other.1 =
          cache.seqIdToRow.get? other.1 := htakes.other_eq (hne other hother)
      rw [hget]
    rw [hsame]
    show _ ≤ taken.freeRows.length
    rw [List.countP_cons] at hrows
    change _ + (if (cache.seqIdToRow.get? request.1).isNone = true then 1 else 0) = _ at hcount
    omega

end

end Room

/-- A loop in which each turn allocates for one sequence. -/
theorem wpe_allocations {Item β : Type} (request : Item → ℕ × ℤ)
    (body : Item → Routine (QuantizedCache Vec Code) β) (ready : Item → Option ℕ → Prop)
    (result : QuantizedCache Vec Code → Item → β → Prop)
    (hbody : ∀ item current, Tables config current → Fits config current (request item) →
      cost config current (request item) ≤ current.pagePool.free.length →
      (current.seqIdToRow.get? (request item).1 = none → current.freeRows ≠ []) →
      ready item (current.pagePool.lengths.get? (request item).1) →
      wpe (body item) (fun value after => result after item value ∧ ∃ row taken,
        Takes (withPages config current (request item)) (request item).1 row taken ∧
        after = allocated current taken (request item) row (slotsOf config current (request item)))
        (fun _ => False) current)
    (hkeep : ∀ {item value current after}, Extends current after → result current item value →
      result after item value)
    {items : List Item} (h : Tables config cache) (hnodup : ((items.map request).map Prod.fst).Nodup)
    (hroom : Room config cache (items.map request))
    (hready : ∀ item ∈ items, ready item (cache.pagePool.lengths.get? (request item).1)) :
    wpe (mapEach body items) (fun values after => Grows config cache after (items.map request) ∧
      List.Forall₂ (result after) items values) (fun _ => False) cache := by
  induction items generalizing cache with
  | nil =>
      rw [mapEach, wpe_pure]
      exact ⟨.nil h, .nil⟩
  | cons item rest ih =>
      rw [List.map_cons, List.map_cons, List.nodup_cons] at hnodup
      rw [List.map_cons] at hroom
      have hfits := hroom.fits _ List.mem_cons_self
      rw [mapEach]
      refine wpe_then (hbody item cache h hfits hroom.head_pages hroom.head_rows
        (hready item List.mem_cons_self)) fun value current hcurrent => ?_
      obtain ⟨hresult, row, taken, htakes, rfl⟩ := hcurrent
      have hgrows := grows_allocated h hfits hroom.head_pages htakes
      have hready' : ∀ other ∈ rest, ready other
          ((allocated cache taken (request item) row (slotsOf config cache (request item))).pagePool.lengths.get?
            (request other).1) := by
        intro other hother
        have hne : (request other).1 ≠ (request item).1 := by
          intro heq
          apply hnodup.1
          rw [← heq]
          exact List.mem_map_of_mem (List.mem_map_of_mem hother)
        rw [hgrows.lengths, grownLength_cons_of_ne [] hne]
        exact hready other (List.mem_cons_of_mem _ hother)
      refine wpe_then (ih hgrows.tables hnodup.2 (hroom.tail hnodup.1 htakes) hready') fun values after hafter => ?_
      rw [wpe_pure]
      exact ⟨hgrows.cons hafter.1 hnodup.1, .cons (hkeep hafter.1.extended hresult) hafter.2⟩

end QuantizedCache
