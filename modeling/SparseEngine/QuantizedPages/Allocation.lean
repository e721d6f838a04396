import SparseEngine.QuantizedPages.Manager

/-!
# Who owns which page

Each page is free or belongs to one sequence, each row is free or belongs to
one sequence, and a sequence with a row has as many pages as its length needs.
The table of the row names their slots.

An allocation keeps this, and so does the allocation of a batch that has been
checked to fit.
-/

namespace QuantizedCache

open Routine

variable {Vec Code : Type} {config : QuantizedConfig Vec Code}
  {cache middle next : QuantizedCache Vec Code} {seqId : ℕ}

/-- A resident sequence with its row, its pages and its length. -/
structure Owner (cache : QuantizedCache Vec Code) (seqId row : ℕ) (pages : List ℕ) (length : ℕ) :
    Prop where
  row_eq : cache.seqIdToRow.get? seqId = some row
  pages_eq : cache.pagePool.pages.get? seqId = some pages
  length_eq : cache.pagePool.lengths.get? seqId = some length

/-- A sequence that is not resident. -/
structure Absent (cache : QuantizedCache Vec Code) (seqId : ℕ) : Prop where
  row_eq : cache.seqIdToRow.get? seqId = none
  pages_eq : cache.pagePool.pages.get? seqId = none
  length_eq : cache.pagePool.lengths.get? seqId = none

/-- The slot of a position of a sequence with the given pages. -/
def IsSlot (pageSize : ℕ) (pages : List ℕ) (position slot : ℕ) : Prop :=
  ∃ page, pages[position / pageSize]? = some page ∧ slot = page * pageSize + position % pageSize

variable {position : ℕ}

theorem IsSlot.append {pageSize slot : ℕ} {pages : List ℕ} (h : IsSlot pageSize pages position slot)
    (more : List ℕ) : IsSlot pageSize (pages ++ more) position slot := by
  obtain ⟨page, hpage, hslot⟩ := h
  refine ⟨page, ?_, hslot⟩
  rw [List.getElem?_append_left (List.getElem?_eq_some_iff.mp hpage).1, hpage]

/-- A position has one slot. -/
theorem IsSlot.unique {pageSize slot other : ℕ} {pages : List ℕ}
    (h : IsSlot pageSize pages position slot) (hother : IsSlot pageSize pages position other) :
    slot = other := by
  obtain ⟨page, hpage, rfl⟩ := h
  obtain ⟨page', hpage', rfl⟩ := hother
  rw [hpage] at hpage'
  rw [Option.some.inj hpage']

/-- What the tables say of a resident sequence. -/
structure Mapped (config : QuantizedConfig Vec Code) (cache : QuantizedCache Vec Code) (row : ℕ)
    (pages : List ℕ) (length : ℕ) : Prop where
  length_le : length ≤ config.maxModelLen
  pages_length : pages.length = Pages.count config.pageSize length
  rowSeqLens_eq : cache.rowSeqLens row = length
  rowLogicalLens_eq : cache.rowLogicalLens row = length
  slots : ∀ position < length,
    IsSlot config.pageSize pages position (cache.bufferReqToTokenSlots row position)

structure Tables (config : QuantizedConfig Vec Code) (cache : QuantizedCache Vec Code) : Prop where
  pageSize_pos : 0 < config.pageSize
  pageSize_eq : cache.pagePool.pageSize = config.pageSize
  maxLength_eq : cache.pagePool.maxLength = config.maxModelLen
  pages_perm : (cache.pagePool.free ++ cache.pagePool.pages.values.flatten).Perm
    (List.range config.numPages)
  rows_perm : (cache.freeRows ++ cache.seqIdToRow.values).Perm (List.range config.maxBufferRows)
  owned : ∀ seqId, cache.Absent seqId ∨ ∃ row pages length, cache.Owner seqId row pages length
  mapped : ∀ {seqId row pages length}, cache.Owner seqId row pages length →
    Mapped config cache row pages length

theorem tables_fresh {pool : QuantizedPagePool} {layers : ℕ → QuantizedKVLayer Vec Code}
    (hpool : QuantizedPagePool.init config.numPages config.pageSize config.maxModelLen = .ok pool) :
    Tables config (fresh config pool layers) := by
  unfold QuantizedPagePool.init at hpool
  split at hpool
  · exact nomatch hpool
  · next hpositive =>
    obtain rfl := Except.ok.inj hpool
    exact
      { pageSize_pos := by omega
        pageSize_eq := rfl
        maxLength_eq := rfl
        pages_perm := by
          show (List.range config.numPages ++ []).Perm _
          rw [List.append_nil]
        rows_perm := by
          show (List.range config.maxBufferRows ++ []).Perm _
          rw [List.append_nil]
        owned := fun seqId => .inl ⟨Dict.get?_empty seqId, Dict.get?_empty seqId, Dict.get?_empty seqId⟩
        mapped := fun howner => nomatch (Dict.get?_empty _).symm.trans howner.row_eq }

namespace Owner

variable {row row' : ℕ} {pages pages' : List ℕ} {length length' : ℕ}

theorem unique (h : cache.Owner seqId row pages length) (h' : cache.Owner seqId row' pages' length') :
    row = row' ∧ pages = pages' ∧ length = length' :=
  ⟨Option.some.inj (h.row_eq.symm.trans h'.row_eq), Option.some.inj (h.pages_eq.symm.trans h'.pages_eq),
    Option.some.inj (h.length_eq.symm.trans h'.length_eq)⟩

theorem not_absent (h : cache.Owner seqId row pages length) (habsent : cache.Absent seqId) : False :=
  nomatch h.row_eq.symm.trans habsent.row_eq

end Owner

namespace Tables

theorem pages_nodup (h : Tables config cache) :
    (cache.pagePool.free ++ cache.pagePool.pages.values.flatten).Nodup :=
  h.pages_perm.nodup_iff.mpr List.nodup_range

theorem rows_nodup (h : Tables config cache) : (cache.freeRows ++ cache.seqIdToRow.values).Nodup :=
  h.rows_perm.nodup_iff.mpr List.nodup_range

variable {row row' other : ℕ} {pages pages' : List ℕ} {length length' : ℕ}

section

variable (h : Tables config cache)

include h

section

variable (howner : cache.Owner seqId row pages length)

include howner

theorem row_lt : row < config.maxBufferRows := by
  have hvalue : row ∈ cache.seqIdToRow.values := Dict.mem_values_iff.mpr ⟨seqId, howner.row_eq⟩
  exact List.mem_range.mp (h.rows_perm.mem_iff.mp (List.mem_append_right _ hvalue))

/-- Two sequences have two rows. -/
theorem row_ne (hother : cache.Owner other row' pages' length') (hne : other ≠ seqId) :
    row' ≠ row := by
  rintro rfl
  exact hne (Dict.eq_of_values_nodup h.rows_nodup.of_append_right hother.row_eq howner.row_eq)

theorem owner_nodup : pages.Nodup :=
  Dict.nodup_of_flatten h.pages_nodup.of_append_right howner.pages_eq

/-- Two sequences share no page. -/
theorem disjoint (hother : cache.Owner other row' pages' length') (hne : other ≠ seqId) :
    pages.Disjoint pages' :=
  Dict.disjoint_of_flatten h.pages_nodup.of_append_right howner.pages_eq hother.pages_eq hne

end

/-- A sequence with a length is resident. -/
theorem owner_of_length (hlength : cache.pagePool.lengths.get? seqId = some length) :
    ∃ row pages, cache.Owner seqId row pages length := by
  rcases h.owned seqId with habsent | ⟨row, pages, length', howner⟩
  · exact nomatch habsent.length_eq.symm.trans hlength
  · obtain rfl := Option.some.inj (hlength.symm.trans howner.length_eq)
    exact ⟨row, pages, howner⟩

theorem owner_of_row (hrow : cache.seqIdToRow.get? seqId = some row) :
    ∃ pages length, cache.Owner seqId row pages length := by
  rcases h.owned seqId with habsent | ⟨row', pages, length, howner⟩
  · exact nomatch habsent.row_eq.symm.trans hrow
  · obtain rfl := Option.some.inj (hrow.symm.trans howner.row_eq)
    exact ⟨pages, length, howner⟩

theorem absent_of_length (hlength : cache.pagePool.lengths.get? seqId = none) :
    cache.Absent seqId := by
  rcases h.owned seqId with habsent | ⟨row, pages, length, howner⟩
  · exact habsent
  · exact nomatch hlength.symm.trans howner.length_eq

end

end Tables

/-! ## What an allocation leaves in place -/

/-- Pages are added, rows are kept, and the storage is not touched. -/
structure Extends (cache next : QuantizedCache Vec Code) : Prop where
  pages : ∀ {seqId pages}, cache.pagePool.pages.get? seqId = some pages →
    ∃ more, next.pagePool.pages.get? seqId = some (pages ++ more)
  rows : ∀ {seqId row}, cache.seqIdToRow.get? seqId = some row →
    next.seqIdToRow.get? seqId = some row
  layers_eq : next.layers = cache.layers

namespace Extends

theorem refl (cache : QuantizedCache Vec Code) : Extends cache cache where
  pages hpages := ⟨[], by rw [hpages, List.append_nil]⟩
  rows hrow := hrow
  layers_eq := rfl

theorem trans (hfirst : Extends cache middle) (hsecond : Extends middle next) :
    Extends cache next where
  pages hpages := by
    obtain ⟨more, hmore⟩ := hfirst.pages hpages
    obtain ⟨rest, hrest⟩ := hsecond.pages hmore
    exact ⟨more ++ rest, by rw [hrest, List.append_assoc]⟩
  rows hrow := hsecond.rows (hfirst.rows hrow)
  layers_eq := hsecond.layers_eq.trans hfirst.layers_eq

end Extends

/-- The length of a sequence after the requests of a batch. -/
def grownLength (requests : List (ℕ × ℤ)) (seqId : ℕ) (length : Option ℕ) : Option ℕ :=
  match requests.lookup seqId with
  | some count => some (length.getD 0 + count.toNat)
  | none => length

/-- A batch of requests has been given its pages and rows. -/
structure Grows (config : QuantizedConfig Vec Code) (cache next : QuantizedCache Vec Code)
    (requests : List (ℕ × ℤ)) : Prop where
  tables : Tables config next
  extended : Extends cache next
  lengths : ∀ seqId, next.pagePool.lengths.get? seqId =
    grownLength requests seqId (cache.pagePool.lengths.get? seqId)

theorem Grows.nil (h : Tables config cache) : Grows config cache cache [] := ⟨h, .refl cache, fun _ => rfl⟩

theorem grownLength_cons_self (request : ℕ × ℤ) (rest : List (ℕ × ℤ)) (length : Option ℕ) :
    grownLength (request :: rest) request.1 length = some (length.getD 0 + request.2.toNat) := by
  unfold grownLength
  rw [List.lookup_cons_self]

theorem grownLength_cons_of_ne {request : ℕ × ℤ} (rest : List (ℕ × ℤ)) (hne : seqId ≠ request.1)
    (length : Option ℕ) : grownLength (request :: rest) seqId length = grownLength rest seqId length := by
  unfold grownLength
  rw [List.lookup_cons, beq_false_of_ne hne]

theorem grownLength_of_not_mem {requests : List (ℕ × ℤ)} (hnot : seqId ∉ requests.map Prod.fst)
    (length : Option ℕ) : grownLength requests seqId length = length := by
  have hlookup : requests.lookup seqId = none := by
    rw [List.lookup_eq_none_iff]
    intro request hrequest
    have hne : seqId ≠ request.1 := by
      rintro rfl
      exact hnot (List.mem_map_of_mem hrequest)
    simp [hne]
  unfold grownLength
  rw [hlookup]

/-- One request, and then the others. -/
theorem Grows.cons {request : ℕ × ℤ} {rest : List (ℕ × ℤ)} (hfirst : Grows config cache middle [request])
    (hrest : Grows config middle next rest) (hnot : request.1 ∉ rest.map Prod.fst) :
    Grows config cache next (request :: rest) where
  tables := hrest.tables
  extended := hfirst.extended.trans hrest.extended
  lengths seqId := by
    rw [hrest.lengths, hfirst.lengths]
    by_cases hne : seqId = request.1
    · subst hne
      rw [grownLength_of_not_mem hnot, grownLength_cons_self, grownLength_cons_self]
    · rw [grownLength_cons_of_ne rest hne, grownLength_cons_of_ne [] hne]
      rfl

/-! ## One allocation -/

/-- The number of pages that a request takes. -/
def cost (config : QuantizedConfig Vec Code) (cache : QuantizedCache Vec Code) (request : ℕ × ℤ) : ℕ :=
  Pages.count config.pageSize (cache.pagePool.lengthOf request.1 + request.2.toNat) -
    Pages.count config.pageSize (cache.pagePool.lengthOf request.1)

/-- A request that can be served. -/
structure Fits (config : QuantizedConfig Vec Code) (cache : QuantizedCache Vec Code) (request : ℕ × ℤ) :
    Prop where
  nonneg : 0 ≤ request.2
  length_le : cache.pagePool.lengthOf request.1 + request.2.toNat ≤ config.maxModelLen

theorem appendCost_eq (h : Tables config cache) {request : ℕ × ℤ} (hfits : Fits config cache request) :
    cache.pagePool.appendCost request.1 request.2 = .ok (cost config cache request) := by
  have hnonneg := hfits.nonneg
  have hlength := hfits.length_le
  unfold QuantizedPagePool.appendCost cost
  rw [if_neg (by omega), h.maxLength_eq, if_neg (by omega), h.pageSize_eq]

/-- A cost is that of a request that fits. -/
theorem appendCost_ok (h : Tables config cache) {request : ℕ × ℤ} {needed : ℕ}
    (hcost : cache.pagePool.appendCost request.1 request.2 = .ok needed) :
    Fits config cache request ∧ needed = cost config cache request := by
  have hfits : Fits config cache request := by
    unfold QuantizedPagePool.appendCost at hcost
    split at hcost
    · exact nomatch hcost
    · next hnonneg =>
      split at hcost
      · exact nomatch hcost
      · next hlength =>
        rw [h.maxLength_eq] at hlength
        exact ⟨by omega, by omega⟩
  rw [appendCost_eq h hfits] at hcost
  exact ⟨hfits, (Except.ok.inj hcost).symm⟩

theorem lengthOf_eq (howner : cache.pagePool.lengths.get? seqId = some length) :
    cache.pagePool.lengthOf seqId = length := by
  unfold QuantizedPagePool.lengthOf
  rw [howner]
  rfl

/-- Pages that a sequence has, or none. -/
def pagesOf (cache : QuantizedCache Vec Code) (seqId : ℕ) : List ℕ :=
  (cache.pagePool.pages.get? seqId).getD []

theorem length_pagesOf (h : Tables config cache) (seqId : ℕ) :
    (cache.pagesOf seqId).length = Pages.count config.pageSize (cache.pagePool.lengthOf seqId) := by
  unfold pagesOf
  rcases h.owned seqId with habsent | ⟨row, pages, length, howner⟩
  · rw [habsent.pages_eq]
    unfold QuantizedPagePool.lengthOf
    rw [habsent.length_eq]
    exact (Pages.count_zero h.pageSize_pos).symm
  · rw [howner.pages_eq, lengthOf_eq howner.length_eq]
    exact (h.mapped howner).pages_length

/-- What `getFreeRow` does. -/
structure Takes (cache : QuantizedCache Vec Code) (seqId row : ℕ) (next : QuantizedCache Vec Code) :
    Prop where
  row_eq : next.seqIdToRow.get? seqId = some row
  other_eq : ∀ {other}, other ≠ seqId → next.seqIdToRow.get? other = cache.seqIdToRow.get? other
  kept : ∀ {row'}, cache.seqIdToRow.get? seqId = some row' → row' = row
  perm : (next.freeRows ++ next.seqIdToRow.values).Perm (cache.freeRows ++ cache.seqIdToRow.values)
  count_eq : next.freeRows.length + (if (cache.seqIdToRow.get? seqId).isNone then 1 else 0) =
    cache.freeRows.length
  rest_eq : next = { cache with freeRows := next.freeRows, seqIdToRow := next.seqIdToRow }

theorem wpe_getFreeRow (hrows : cache.seqIdToRow.get? seqId = none → cache.freeRows ≠ []) :
    wpe (getFreeRow seqId) (fun row next => Takes cache seqId row next) (fun _ => False) cache := by
  rw [getFreeRow, wpe_get]
  rcases hget : cache.seqIdToRow.get? seqId with _ | row
  · rcases hfree : cache.freeRows with _ | ⟨row, freeRows⟩
    · exact absurd hfree (hrows hget)
    · have hnot : seqId ∉ cache.seqIdToRow.keys := Dict.not_mem_keys_iff.mpr hget
      simp only [wpe_bind, wpe_write, wpe_pure]
      exact
        { row_eq := Dict.get?_set_self _ _ _
          other_eq := fun hne => Dict.get?_set_of_ne _ _ hne
          kept := fun hrow' => nomatch hget.symm.trans hrow'
          perm := by
            rw [hfree, List.cons_append]
            exact ((Dict.values_set_perm row hnot).append_left freeRows).trans List.perm_middle
          count_eq := by simp [hget, hfree]
          rest_eq := rfl }
  · rw [wpe_pure]
    exact
      { row_eq := hget
        other_eq := fun _ => rfl
        kept := fun hrow' => Option.some.inj (hrow'.symm.trans hget)
        perm := .refl _
        count_eq := by simp [hget]
        rest_eq := rfl }

/-- The pages that `append` takes from the free ones. -/
def addedPages (config : QuantizedConfig Vec Code) (cache : QuantizedCache Vec Code) (request : ℕ × ℤ) :
    List ℕ :=
  cache.pagePool.free.drop (cache.pagePool.free.length - cost config cache request)

/-- What `append` hands out: the pages from the first one that the request
writes to. -/
def plannedAppend (config : QuantizedConfig Vec Code) (cache : QuantizedCache Vec Code)
    (request : ℕ × ℤ) : PageAppend :=
  let start := cache.pagePool.lengthOf request.1
  let stop := start + request.2.toNat
  let firstPage := start / config.pageSize
  let lastPage := Pages.count config.pageSize stop
  ⟨start, stop, if request.2 = 0 then [] else
    ((cache.pagesOf request.1 ++ addedPages config cache request).drop firstPage).take
      (lastPage - firstPage)⟩

theorem wpe_append (h : Tables config cache) {request : ℕ × ℤ} (hfits : Fits config cache request)
    (hfree : cost config cache request ≤ cache.pagePool.free.length) :
    wpe (QuantizedPagePool.append request.1 request.2)
      (fun plan pool => plan = plannedAppend config cache request ∧
        pool = cache.pagePool.grown request.1 (cost config cache request) request.2.toNat)
      (fun _ => False) cache.pagePool := by
  unfold QuantizedPagePool.append
  rw [wpe_get, wpe_bind, appendCost_eq h hfits, wpe_ok, wpe_guard]
  refine ⟨fun hlt => by omega, fun _ => ?_⟩
  rw [wpe_set, wpe_get, wpe_pure]
  refine ⟨?_, rfl⟩
  unfold plannedAppend QuantizedPagePool.grown
  simp only [Dict.get?_set_self, Option.getD_some, h.pageSize_eq]
  rfl

/-- A request adds the pages that its length needs. -/
theorem length_grownPages (h : Tables config cache) {request : ℕ × ℤ}
    (hfree : cost config cache request ≤ cache.pagePool.free.length) :
    (cache.pagesOf request.1 ++ addedPages config cache request).length =
      Pages.count config.pageSize (cache.pagePool.lengthOf request.1 + request.2.toNat) := by
  have hmono : Pages.count config.pageSize (cache.pagePool.lengthOf request.1) ≤
      Pages.count config.pageSize (cache.pagePool.lengthOf request.1 + request.2.toNat) :=
    Pages.count_mono (Nat.le_add_right _ _)
  rw [List.length_append, length_pagesOf h, addedPages, List.length_drop, Nat.sub_sub_self hfree, cost,
    Nat.add_sub_cancel' hmono]

/-- The slots that `allocate` writes are those of the pages. -/
theorem isSlot_planned (h : Tables config cache) {request : ℕ × ℤ}
    (hfree : cost config cache request ≤ cache.pagePool.free.length)
    (hstart : cache.pagePool.lengthOf request.1 ≤ position)
    (hstop : position < cache.pagePool.lengthOf request.1 + request.2.toNat) :
    IsSlot config.pageSize (cache.pagesOf request.1 ++ addedPages config cache request) position
      (((plannedAppend config cache request).pages[position / config.pageSize -
        cache.pagePool.lengthOf request.1 / config.pageSize]?).getD 0 * config.pageSize +
          position % config.pageSize) := by
  have hlt := Pages.div_lt_count h.pageSize_pos hstop
  have hle : cache.pagePool.lengthOf request.1 / config.pageSize ≤ position / config.pageSize :=
    Nat.div_le_div_right hstart
  have hne : request.2 ≠ 0 := by
    intro hzero
    rw [hzero, Int.toNat_zero] at hstop
    omega
  have htouched : (plannedAppend config cache request).pages[position / config.pageSize -
      cache.pagePool.lengthOf request.1 / config.pageSize]? =
        (cache.pagesOf request.1 ++ addedPages config cache request)[position / config.pageSize]? := by
    unfold plannedAppend
    simp only [if_neg hne]
    rw [List.getElem?_take_of_lt (by omega), List.getElem?_drop, Nat.add_sub_cancel' hle]
  have hthere := hlt
  rw [← length_grownPages h hfree] at hthere
  rw [htouched, List.getElem?_eq_getElem hthere, Option.getD_some]
  exact ⟨_, List.getElem?_eq_getElem hthere, rfl⟩

/-- The cache with the pages of a request. -/
def withPages (config : QuantizedConfig Vec Code) (cache : QuantizedCache Vec Code)
    (request : ℕ × ℤ) : QuantizedCache Vec Code :=
  { cache with
    pagePool := cache.pagePool.grown request.1 (cost config cache request) request.2.toNat }

/-- What a request leaves: its pages, its row and the slots of its positions. -/
def allocated (cache taken : QuantizedCache Vec Code) (request : ℕ × ℤ) (row : ℕ) (slots : List ℕ) :
    QuantizedCache Vec Code :=
  writeRow row (cache.pagePool.lengthOf request.1)
    (cache.pagePool.lengthOf request.1 + request.2.toNat) slots taken

section

variable {taken : QuantizedCache Vec Code} {request : ℕ × ℤ} {row row' : ℕ} {slots pages : List ℕ}
  {length : ℕ}

section

variable (htakes : Takes (withPages config cache request) request.1 row taken)

include htakes

theorem pagePool_allocated :
    (allocated cache taken request row slots).pagePool =
      cache.pagePool.grown request.1 (cost config cache request) request.2.toNat := by
  show taken.pagePool = _
  rw [htakes.rest_eq]
  rfl

theorem owner_allocated_self :
    (allocated cache taken request row slots).Owner request.1 row
      (cache.pagesOf request.1 ++ addedPages config cache request)
      (cache.pagePool.lengthOf request.1 + request.2.toNat) where
  row_eq := htakes.row_eq
  pages_eq := by
    rw [pagePool_allocated htakes]
    exact Dict.get?_set_self _ _ _
  length_eq := by
    rw [pagePool_allocated htakes]
    exact Dict.get?_set_self _ _ _

/-- Other sequences keep what they have. -/
theorem owner_allocated_of_ne (hne : seqId ≠ request.1) :
    (allocated cache taken request row slots).Owner seqId row' pages length ↔
      cache.Owner seqId row' pages length := by
  have hrow : (allocated cache taken request row slots).seqIdToRow.get? seqId =
      cache.seqIdToRow.get? seqId := htakes.other_eq hne
  have hpages : (allocated cache taken request row slots).pagePool.pages.get? seqId =
      cache.pagePool.pages.get? seqId := by
    rw [pagePool_allocated htakes]
    exact Dict.get?_set_of_ne _ _ hne
  have hlength : (allocated cache taken request row slots).pagePool.lengths.get? seqId =
      cache.pagePool.lengths.get? seqId := by
    rw [pagePool_allocated htakes]
    exact Dict.get?_set_of_ne _ _ hne
  constructor
  · intro howner
    exact ⟨hrow ▸ howner.row_eq, hpages ▸ howner.pages_eq, hlength ▸ howner.length_eq⟩
  · intro howner
    exact ⟨hrow.trans howner.row_eq, hpages.trans howner.pages_eq, hlength.trans howner.length_eq⟩

theorem absent_allocated (hne : seqId ≠ request.1) (habsent : cache.Absent seqId) :
    (allocated cache taken request row slots).Absent seqId where
  row_eq := (htakes.other_eq hne).trans habsent.row_eq
  pages_eq := by
    rw [pagePool_allocated htakes]
    exact (Dict.get?_set_of_ne _ _ hne).trans habsent.pages_eq
  length_eq := by
    rw [pagePool_allocated htakes]
    exact (Dict.get?_set_of_ne _ _ hne).trans habsent.length_eq

end

/-- The row of a request is not that of another sequence. -/
theorem row_ne_of_takes (h : Tables config cache)
    (htakes : Takes (withPages config cache request) request.1 row taken)
    (hne : seqId ≠ request.1) (howner : cache.Owner seqId row' pages length) : row' ≠ row := by
  rintro rfl
  have hother : taken.seqIdToRow.get? seqId = some row' := (htakes.other_eq hne).trans howner.row_eq
  have hnodup : (taken.freeRows ++ taken.seqIdToRow.values).Nodup :=
    htakes.perm.nodup_iff.mpr h.rows_nodup
  exact hne (Dict.eq_of_values_nodup hnodup.of_append_right hother htakes.row_eq)

/-- The slots of the tokens of a request. -/
def slotsOf (config : QuantizedConfig Vec Code) (cache : QuantizedCache Vec Code) (request : ℕ × ℤ) :
    List ℕ :=
  (List.range' (cache.pagePool.lengthOf request.1) request.2.toNat).map fun logical =>
    ((plannedAppend config cache request).pages[logical / config.pageSize -
      cache.pagePool.lengthOf request.1 / config.pageSize]?).getD 0 * config.pageSize +
        logical % config.pageSize

section

variable (h : Tables config cache)

include h

theorem mapped_allocated_self (hfits : Fits config cache request)
    (hfree : cost config cache request ≤ cache.pagePool.free.length)
    (htakes : Takes (withPages config cache request) request.1 row taken) :
    Mapped config (allocated cache taken request row (slotsOf config cache request)) row
      (cache.pagesOf request.1 ++ addedPages config cache request)
      (cache.pagePool.lengthOf request.1 + request.2.toNat) where
  length_le := hfits.length_le
  pages_length := length_grownPages h hfree
  rowSeqLens_eq := Function.update_self _ _ _
  rowLogicalLens_eq := Function.update_self _ _ _
  slots position hposition := by
    have htable : (allocated cache taken request row (slotsOf config cache request)).bufferReqToTokenSlots
        row = Cells.write (taken.bufferReqToTokenSlots row) (cache.pagePool.lengthOf request.1)
          (slotsOf config cache request) := Function.update_self _ _ _
    have hsame : taken.bufferReqToTokenSlots = cache.bufferReqToTokenSlots := by
      rw [htakes.rest_eq]
      rfl
    rw [htable, hsame]
    by_cases hold : position < cache.pagePool.lengthOf request.1
    · -- a position that had its slot before
      rw [Cells.write_below hold]
      rcases h.owned request.1 with habsent | ⟨row', pages, length, howner⟩
      · unfold QuantizedPagePool.lengthOf at hold
        rw [habsent.length_eq] at hold
        exact absurd hold (Nat.not_lt_zero _)
      · obtain rfl : row' = row := htakes.kept howner.row_eq
        rw [lengthOf_eq howner.length_eq] at hold
        have hpages : cache.pagesOf request.1 = pages := by
          unfold pagesOf
          rw [howner.pages_eq, Option.getD_some]
        rw [hpages]
        exact ((h.mapped howner).slots position hold).append _
    · rw [Nat.not_lt] at hold
      have hindex : position - cache.pagePool.lengthOf request.1 < request.2.toNat := by omega
      have hslot : (slotsOf config cache request)[position - cache.pagePool.lengthOf request.1]? =
          some (((plannedAppend config cache request).pages[position / config.pageSize -
            cache.pagePool.lengthOf request.1 / config.pageSize]?).getD 0 * config.pageSize +
              position % config.pageSize) := by
        unfold slotsOf
        rw [List.getElem?_map, List.getElem?_range' hindex, Nat.one_mul, Nat.add_sub_cancel' hold]
        rfl
      have hwritten : Cells.write (cache.bufferReqToTokenSlots row)
          (cache.pagePool.lengthOf request.1) (slotsOf config cache request) position =
            ((plannedAppend config cache request).pages[position / config.pageSize -
              cache.pagePool.lengthOf request.1 / config.pageSize]?).getD 0 * config.pageSize +
                position % config.pageSize := by
        unfold Cells.write
        rw [if_pos hold, hslot, Option.getD_some]
      rw [hwritten]
      exact isSlot_planned h hfree hold hposition

theorem mapped_allocated_of_ne (htakes : Takes (withPages config cache request) request.1 row taken)
    (hne : seqId ≠ request.1) (howner : cache.Owner seqId row' pages length) :
    Mapped config (allocated cache taken request row slots) row' pages length := by
  have hrow := row_ne_of_takes h htakes hne howner
  have hmapped := h.mapped howner
  have hsame : taken = { cache with
      pagePool := cache.pagePool.grown request.1 (cost config cache request) request.2.toNat
      freeRows := taken.freeRows, seqIdToRow := taken.seqIdToRow } := htakes.rest_eq
  have hseq : (allocated cache taken request row slots).rowSeqLens row' = cache.rowSeqLens row' := by
    rw [hsame]
    exact Function.update_of_ne hrow _ _
  have hlogical : (allocated cache taken request row slots).rowLogicalLens row' = cache.rowLogicalLens row' := by
    rw [hsame]
    exact Function.update_of_ne hrow _ _
  have htable : (allocated cache taken request row slots).bufferReqToTokenSlots row' =
      cache.bufferReqToTokenSlots row' := by
    rw [hsame]
    exact Function.update_of_ne hrow _ _
  exact
    { length_le := hmapped.length_le
      pages_length := hmapped.pages_length
      rowSeqLens_eq := hseq.trans hmapped.rowSeqLens_eq
      rowLogicalLens_eq := hlogical.trans hmapped.rowLogicalLens_eq
      slots := by
        rw [htable]
        exact hmapped.slots }

section

variable (hfits : Fits config cache request)
  (hfree : cost config cache request ≤ cache.pagePool.free.length)

include hfits hfree

theorem tables_allocated (htakes : Takes (withPages config cache request) request.1 row taken) :
    Tables config (allocated cache taken request row (slotsOf config cache request)) where
  pageSize_pos := h.pageSize_pos
  pageSize_eq := by
    rw [pagePool_allocated htakes]
    exact h.pageSize_eq
  maxLength_eq := by
    rw [pagePool_allocated htakes]
    exact h.maxLength_eq
  pages_perm := by
    rw [pagePool_allocated htakes]
    refine List.Perm.trans ?_ h.pages_perm
    show (cache.pagePool.free.take (cache.pagePool.free.length - cost config cache request) ++
      (cache.pagePool.pages.set request.1 ((cache.pagePool.pages.get? request.1).getD [] ++
        addedPages config cache request)).values.flatten).Perm _
    refine ((Dict.flatten_values_set_append _ _ _).append_left _).trans ?_
    rw [← List.append_assoc, addedPages, List.take_append_drop]
  rows_perm := htakes.perm.trans h.rows_perm
  owned seqId := by
    by_cases hne : seqId = request.1
    · subst hne
      exact .inr ⟨_, _, _, owner_allocated_self htakes⟩
    · rcases h.owned seqId with habsent | ⟨row', pages, length, howner⟩
      · exact .inl (absent_allocated htakes hne habsent)
      · exact .inr ⟨row', pages, length, (owner_allocated_of_ne htakes hne).mpr howner⟩
  mapped {seqId row' pages length} howner := by
    by_cases hne : seqId = request.1
    · subst hne
      obtain ⟨rfl, rfl, rfl⟩ := (owner_allocated_self htakes).unique howner
      exact mapped_allocated_self h hfits hfree htakes
    · exact mapped_allocated_of_ne h htakes hne ((owner_allocated_of_ne htakes hne).mp howner)

theorem grows_allocated (htakes : Takes (withPages config cache request) request.1 row taken) :
    Grows config cache (allocated cache taken request row (slotsOf config cache request)) [request] where
  tables := tables_allocated h hfits hfree htakes
  extended :=
    { pages := fun {seqId pages} hpages => by
        rw [pagePool_allocated htakes]
        by_cases hne : seqId = request.1
        · subst hne
          refine ⟨addedPages config cache request, (Dict.get?_set_self _ _ _).trans ?_⟩
          rw [hpages]
          rfl
        · exact ⟨[], by rw [List.append_nil]; exact (Dict.get?_set_of_ne _ _ hne).trans hpages⟩
      rows := fun {seqId row'} hrow' => by
        by_cases hne : seqId = request.1
        · subst hne
          rw [htakes.kept hrow']
          exact htakes.row_eq
        · exact (htakes.other_eq hne).trans hrow'
      layers_eq := by
        show taken.layers = _
        rw [htakes.rest_eq]
        rfl }
  lengths seqId := by
    rw [pagePool_allocated htakes]
    by_cases hne : seqId = request.1
    · subst hne
      rw [grownLength_cons_self]
      exact Dict.get?_set_self _ _ _
    · rw [grownLength_cons_of_ne [] hne]
      exact Dict.get?_set_of_ne _ _ hne

/-- A request that fits is served. -/
theorem wpe_allocate (hrows : cache.seqIdToRow.get? request.1 = none → cache.freeRows ≠ []) :
    wpe (allocate config request.1 request.2)
      (fun slots next => slots = slotsOf config cache request ∧ ∃ row taken,
        Takes (withPages config cache request) request.1 row taken ∧
        next = allocated cache taken request row slots) (fun _ => False) cache := by
  unfold allocate
  rw [wpe_get, wpe_guard]
  constructor
  · rintro ⟨hnone, hempty⟩
    exact hrows (Option.isNone_iff_eq_none.mp hnone) hempty
  intro _
  rw [wpe_bind, onPool, wpe_focus]
  refine wpe_mono (wpe_append h hfits hfree) fun plan pool hplan => ?_
  obtain ⟨rfl, rfl⟩ := hplan
  refine wpe_then (wpe_getFreeRow hrows) fun row taken htakes => ?_
  have hcount : (plannedAppend config cache request).stop - (plannedAppend config cache request).start =
      request.2.toNat := Nat.add_sub_cancel_left _ _
  rw [wpe_set, wpe_pure, hcount]
  exact ⟨rfl, row, taken, htakes, rfl⟩

end

end

end

end QuantizedCache
