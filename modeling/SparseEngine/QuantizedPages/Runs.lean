import SparseEngine.QuantizedPages.Storing

/-!
# Runs of the quantized cache

Abstractly the cache holds, for each sequence and each layer, the stream of
its tokens: a step with tokens appends to the streams of its batch, and
`free_seq` forgets one.  The cache represents the streams in every reachable
state: the complete pages of a stream are encoded in the pages of the
sequence, and what follows them is in its row as it came.
-/

/-- The tokens of each resident sequence, by layer. -/
abbrev Streams (Vec : Type) := ℕ → Option (ℕ → List Vec)

/-- The tokens of a sequence at a layer, none if it is not resident. -/
def Streams.tokens {Vec : Type} (streams : Streams Vec) (layer seqId : ℕ) : List Vec :=
  ((streams seqId).map fun stream => stream layer).getD []

/-- Each sequence of a batch gets its chunk. -/
def Streams.grow {Vec : Type} (key : ℕ → ℕ → Vec) (chunks : List (ℕ × ℕ)) (streams : Streams Vec) :
    Streams Vec := fun seqId =>
  if seqId ∈ chunks.map Prod.fst ∨ (streams seqId).isSome then
    some fun layer => QuantizedCache.appended (key layer) 0 chunks (streams.tokens layer) seqId
  else none

/-- What a step does to the streams. -/
def CacheStep.effect {Vec : Type} : CacheStep Vec → Streams Vec → Streams Vec
  | .prefill seqs key => Streams.grow key (QuantizedCache.prefillChunks seqs)
  | .decode seqIds key => Streams.grow key (seqIds.map fun seqId => (seqId, 1))
  | .decodeGraph seqIds _ key => Streams.grow key (seqIds.map fun seqId => (seqId, 1))
  | .free seqId => fun streams => Function.update streams seqId none

namespace QuantizedCache

open Routine

variable {Vec Code : Type} {config : QuantizedConfig Vec Code}
  {cache next : QuantizedCache Vec Code} {streams : Streams Vec} {seqId : ℕ}

/-- The cache holds the streams. -/
structure Represents (config : QuantizedConfig Vec Code) (cache : QuantizedCache Vec Code)
    (streams : Streams Vec) : Prop where
  tables : Tables config cache
  absent_iff : ∀ seqId, streams seqId = none ↔ cache.pagePool.lengths.get? seqId = none
  lengths : ∀ {seqId stream}, streams seqId = some stream → ∀ layer,
    cache.pagePool.lengths.get? seqId = some (stream layer).length
  holds : ∀ layer < config.numKvLayers, LayerHolds config cache (cache.layers layer)
    fun seqId => (streams.tokens layer seqId).map (storedVector config)

theorem represents_fresh {pool : QuantizedPagePool} (layers : ℕ → QuantizedKVLayer Vec Code)
    (hpool : QuantizedPagePool.init config.numPages config.pageSize config.maxModelLen = .ok pool) :
    Represents config (fresh config pool layers) fun _ => none where
  tables := tables_fresh hpool
  absent_iff seqId := by
    unfold QuantizedPagePool.init at hpool
    split at hpool
    · exact nomatch hpool
    · obtain rfl := Except.ok.inj hpool
      exact ⟨fun _ => Dict.get?_empty seqId, fun _ => rfl⟩
  lengths hstream := nomatch hstream
  holds layer _ := by
    intro seqId row pages length howner
    exact nomatch (Dict.get?_empty seqId).symm.trans howner.row_eq

/-! ## Growing streams -/

theorem appended_map {α β : Type} (f : α → β) (key : ℕ → α) (chunks : List (ℕ × ℕ)) (offset : ℕ)
    (held : ℕ → List α) (seqId : ℕ) :
    appended (fun index => f (key index)) offset chunks (fun other => (held other).map f) seqId =
      (appended key offset chunks held seqId).map f := by
  induction chunks generalizing offset held with
  | nil => rfl
  | cons chunk rest ih =>
      have hupdate : Function.update (fun other => (held other).map f) chunk.1
          ((held chunk.1).map f ++ (List.range' offset chunk.2).map fun index => f (key index)) =
            fun other => (Function.update held chunk.1
              (held chunk.1 ++ (List.range' offset chunk.2).map key) other).map f := by
        funext other
        by_cases hne : other = chunk.1
        · subst hne
          rw [Function.update_self, Function.update_self, List.map_append, List.map_map]
          rfl
        · rw [Function.update_of_ne hne, Function.update_of_ne hne]
      unfold appended
      rw [hupdate, ih]

variable {held : ℕ → List Vec} {requests : List (ℕ × ℤ)} {row length : ℕ} {pages : List ℕ}

theorem appended_of_not_mem {key : ℕ → Vec} {chunks : List (ℕ × ℕ)} {offset : ℕ}
    (hnot : seqId ∉ chunks.map Prod.fst) : appended key offset chunks held seqId = held seqId := by
  induction chunks generalizing offset held with
  | nil => rfl
  | cons chunk rest ih =>
      rw [List.map_cons, List.mem_cons, not_or] at hnot
      unfold appended
      rw [ih hnot.2, Function.update_of_ne hnot.1]

/-- The requests of chunks. -/
def chunksOf (requests : List (ℕ × ℤ)) : List (ℕ × ℕ) :=
  requests.map fun request => (request.1, request.2.toNat)

theorem map_fst_chunksOf (requests : List (ℕ × ℤ)) :
    (chunksOf requests).map Prod.fst = requests.map Prod.fst := by
  rw [chunksOf, List.map_map]
  rfl

theorem tokens_of_none (hnone : streams seqId = none) (layer : ℕ) : streams.tokens layer seqId = [] := by
  unfold Streams.tokens
  rw [hnone]
  rfl

theorem tokens_grow (key : ℕ → ℕ → Vec) (chunks : List (ℕ × ℕ)) (streams : Streams Vec) (layer seqId : ℕ) :
    (streams.grow key chunks).tokens layer seqId = appended (key layer) 0 chunks (streams.tokens layer) seqId := by
  by_cases hthere : seqId ∈ chunks.map Prod.fst ∨ (streams seqId).isSome
  · have hsome : streams.grow key chunks seqId =
        some fun layer => appended (key layer) 0 chunks (streams.tokens layer) seqId := if_pos hthere
    rw [Streams.tokens, hsome]
    rfl
  · have hnone : streams.grow key chunks seqId = none := if_neg hthere
    rw [not_or, Option.not_isSome_iff_eq_none] at hthere
    rw [tokens_of_none hnone, appended_of_not_mem hthere.1, tokens_of_none hthere.2]

/-- A stream is as long as the table says after the batch. -/
theorem length_appended (key : ℕ → Vec) (offset : ℕ) (hnodup : (requests.map Prod.fst).Nodup)
    {length : Option ℕ} (hlength : length.getD 0 = (held seqId).length)
    (hthere : seqId ∈ requests.map Prod.fst ∨ length.isSome) :
    grownLength requests seqId length = some (appended key offset (chunksOf requests) held seqId).length := by
  induction requests generalizing offset held with
  | nil =>
      obtain ⟨tokens, rfl⟩ := Option.isSome_iff_exists.mp (hthere.resolve_left List.not_mem_nil)
      exact congrArg some hlength
  | cons request rest ih =>
      rw [List.map_cons, List.nodup_cons] at hnodup
      unfold chunksOf appended
      rw [List.map_cons]
      by_cases hne : seqId = request.1
      · subst hne
        have hnot : request.1 ∉ (chunksOf rest).map Prod.fst := by
          rw [map_fst_chunksOf]
          exact hnodup.1
        rw [grownLength_cons_self, hlength]
        have hrest : appended key (offset + request.2.toNat) (chunksOf rest)
            (Function.update held request.1
              (held request.1 ++ (List.range' offset request.2.toNat).map key)) request.1 =
            held request.1 ++ (List.range' offset request.2.toNat).map key := by
          rw [appended_of_not_mem hnot, Function.update_self]
        show _ = some (appended key (offset + request.2.toNat) (chunksOf rest) _ request.1).length
        rw [hrest, List.length_append, List.length_map, List.length_range']
      · rw [grownLength_cons_of_ne rest hne]
        refine ih (offset + request.2.toNat) hnodup.2 ?_ ?_
        · rw [Function.update_of_ne hne, hlength]
        · rw [List.map_cons, List.mem_cons] at hthere
          rcases hthere with (heq | hmem) | hsome
          · exact absurd heq hne
          · exact .inl hmem
          · exact .inr hsome

section

variable (h : Represents config cache streams)

include h

theorem Represents.length_tokens (layer seqId : ℕ) :
    (streams.tokens layer seqId).length = cache.pagePool.lengthOf seqId := by
  unfold Streams.tokens QuantizedPagePool.lengthOf
  rcases hstream : streams seqId with _ | stream
  · rw [(h.absent_iff seqId).mp hstream]
    rfl
  · rw [h.lengths hstream layer]
    rfl

/-- The streams of a batch that has its pages and rows. -/
theorem Represents.extend (hgrows : Grows config cache next requests) {layer : ℕ}
    (hlayer : layer < config.numKvLayers) :
    LayerHolds config next (next.layers layer)
      fun seqId => (streams.tokens layer seqId).map (storedVector config) := by
  intro seqId row pages length howner
  rw [hgrows.extended.layers_eq]
  rcases h.tables.owned seqId with habsent | ⟨row', pages', length', hold⟩
  · -- a sequence that is new in the batch
    have hnone := (h.absent_iff seqId).mpr habsent.length_eq
    dsimp only
    rw [tokens_of_none hnone]
    exact Pages.Holds.nil h.tables.pageSize_pos _ _ _
  · obtain ⟨more, hmore⟩ := hgrows.extended.pages hold.pages_eq
    obtain rfl := Option.some.inj (howner.row_eq.symm.trans (hgrows.extended.rows hold.row_eq))
    obtain rfl := Option.some.inj (howner.pages_eq.symm.trans hmore)
    refine (h.holds layer hlayer _ _ _ _ hold).extend h.tables.pageSize_pos ?_ more
    rw [List.length_map, h.length_tokens, (h.tables.mapped hold).pages_length, lengthOf_eq hold.length_eq]
    exact Pages.div_le_count h.tables.pageSize_pos _

/-- After the forward pass the cache represents the streams with their
chunks. -/
theorem Represents.grown (hnodup : (requests.map Prod.fst).Nodup)
    (hgrows : Grows config cache next requests) {key : ℕ → ℕ → Vec} {layers : ℕ → QuantizedKVLayer Vec Code}
    (hlayers : ∀ layer < config.numKvLayers, LayerHolds config next (layers layer)
      (appended (fun index => storedVector config (key layer index)) 0 (chunksOf requests)
        fun seqId => (streams.tokens layer seqId).map (storedVector config))) :
    Represents config (next.withLayers layers) (streams.grow key (chunksOf requests)) where
  tables := by
    have hsame : SameTables next (next.withLayers layers) := ⟨rfl, rfl, rfl, rfl, rfl, rfl⟩
    exact hsame.tables hgrows.tables
  absent_iff seqId := by
    show (if _ then _ else _) = none ↔ next.pagePool.lengths.get? seqId = none
    rw [hgrows.lengths, map_fst_chunksOf]
    by_cases hmem : seqId ∈ requests.map Prod.fst
    · have hgrown := length_appended (key 0) 0 hnodup (h.length_tokens 0 seqId).symm (.inl hmem)
      rw [if_pos (.inl hmem), hgrown]
      exact ⟨nofun, nofun⟩
    · rw [grownLength_of_not_mem hmem, ← h.absent_iff]
      rcases streams seqId with _ | stream
      · simp [hmem]
      · simp
  lengths := by
    intro seqId stream hstream layer
    show next.pagePool.lengths.get? seqId = _
    unfold Streams.grow at hstream
    split at hstream
    · next hthere =>
      obtain rfl := Option.some.inj hstream
      rw [hgrows.lengths]
      refine length_appended (key layer) 0 hnodup (h.length_tokens layer seqId).symm ?_
      rw [map_fst_chunksOf] at hthere
      refine hthere.imp_right fun hsome => ?_
      rw [Option.isSome_iff_ne_none] at hsome ⊢
      exact fun hnone => hsome ((h.absent_iff seqId).mpr hnone)
    · exact nomatch hstream
  holds layer hlayer := by
    intro seqId row pages length howner
    have hlayer' := hlayers layer hlayer seqId row pages length ⟨howner.row_eq, howner.pages_eq, howner.length_eq⟩
    rw [appended_map] at hlayer'
    dsimp only
    rw [tokens_grow]
    exact hlayer'

end

/-! ## Freeing -/

/-- What `free_seq` leaves. -/
def freed (cache : QuantizedCache Vec Code) (seqId row : ℕ) (pages : List ℕ) :
    QuantizedCache Vec Code :=
  { cache with
    pagePool := { cache.pagePool with
      free := cache.pagePool.free ++ pages
      pages := cache.pagePool.pages.erase seqId
      lengths := cache.pagePool.lengths.erase seqId }
    seqIdToRow := cache.seqIdToRow.erase seqId
    rowSeqLens := Function.update cache.rowSeqLens row 0
    rowLogicalLens := Function.update cache.rowLogicalLens row 0
    bufferReqToTokenSlots := Function.update cache.bufferReqToTokenSlots row fun _ => 0
    freeRows := cache.freeRows ++ [row] }

theorem wpe_freeSeq (h : Tables config cache) (seqId : ℕ) :
    wpe (freeSeq seqId) (fun _ after => ∃ row pages length, cache.Owner seqId row pages length ∧
      after = cache.freed seqId row pages) (fun after => after = cache) cache := by
  rw [freeSeq, wpe_get]
  rcases h.owned seqId with habsent | ⟨row, pages, length, howner⟩
  · rw [habsent.row_eq, wpe_raise]
  · rw [howner.row_eq, wpe_bind, onPool, wpe_focus, QuantizedPagePool.release, wpe_get,
      howner.pages_eq, wpe_write, wpe_write]
    exact ⟨row, pages, length, howner, rfl⟩

theorem owner_freed_of_ne {row' : ℕ} {pages' : List ℕ} {other : ℕ} (hne : other ≠ seqId) :
    (cache.freed seqId row pages).Owner other row' pages' length ↔ cache.Owner other row' pages' length := by
  have hrow : (cache.freed seqId row pages).seqIdToRow.get? other = cache.seqIdToRow.get? other := by
    show (cache.seqIdToRow.erase seqId).get? other = _
    rw [Dict.get?_erase, if_neg hne]
  have hpages : (cache.freed seqId row pages).pagePool.pages.get? other = cache.pagePool.pages.get? other := by
    show (cache.pagePool.pages.erase seqId).get? other = _
    rw [Dict.get?_erase, if_neg hne]
  have hlength : (cache.freed seqId row pages).pagePool.lengths.get? other = cache.pagePool.lengths.get? other := by
    show (cache.pagePool.lengths.erase seqId).get? other = _
    rw [Dict.get?_erase, if_neg hne]
  constructor
  · intro howner
    exact ⟨hrow ▸ howner.row_eq, hpages ▸ howner.pages_eq, hlength ▸ howner.length_eq⟩
  · intro howner
    exact ⟨hrow.trans howner.row_eq, hpages.trans howner.pages_eq, hlength.trans howner.length_eq⟩

theorem absent_freed :
    (cache.freed seqId row pages).Absent seqId where
  row_eq := by
    show (cache.seqIdToRow.erase seqId).get? seqId = none
    rw [Dict.get?_erase, if_pos rfl]
  pages_eq := by
    show (cache.pagePool.pages.erase seqId).get? seqId = none
    rw [Dict.get?_erase, if_pos rfl]
  length_eq := by
    show (cache.pagePool.lengths.erase seqId).get? seqId = none
    rw [Dict.get?_erase, if_pos rfl]

theorem tables_freed (h : Tables config cache) (howner : cache.Owner seqId row pages length) :
    Tables config (cache.freed seqId row pages) where
  pageSize_pos := h.pageSize_pos
  pageSize_eq := h.pageSize_eq
  maxLength_eq := h.maxLength_eq
  pages_perm := by
    refine List.Perm.trans ?_ h.pages_perm
    show (cache.pagePool.free ++ pages ++ (cache.pagePool.pages.erase seqId).values.flatten).Perm _
    rw [List.append_assoc]
    exact (Dict.flatten_values_erase howner.pages_eq).symm.append_left _
  rows_perm := by
    refine List.Perm.trans ?_ h.rows_perm
    show (cache.freeRows ++ [row] ++ (cache.seqIdToRow.erase seqId).values).Perm _
    rw [List.append_assoc]
    exact (Dict.values_erase_perm howner.row_eq).symm.append_left _
  owned other := by
    by_cases hne : other = seqId
    · subst hne
      exact .inl absent_freed
    · rcases h.owned other with habsent | ⟨row', pages', length', hother⟩
      · refine .inl ⟨?_, ?_, ?_⟩
        · show (cache.seqIdToRow.erase seqId).get? other = none
          rw [Dict.get?_erase, if_neg hne, habsent.row_eq]
        · show (cache.pagePool.pages.erase seqId).get? other = none
          rw [Dict.get?_erase, if_neg hne, habsent.pages_eq]
        · show (cache.pagePool.lengths.erase seqId).get? other = none
          rw [Dict.get?_erase, if_neg hne, habsent.length_eq]
      · exact .inr ⟨row', pages', length', (owner_freed_of_ne hne).mpr hother⟩
  mapped {other row' pages' length'} hother := by
    have hne : other ≠ seqId := by
      rintro rfl
      exact hother.not_absent absent_freed
    have hold := (owner_freed_of_ne hne).mp hother
    have hrow := h.row_ne howner hold hne
    have hmapped := h.mapped hold
    have htable : (cache.freed seqId row pages).bufferReqToTokenSlots row' =
        cache.bufferReqToTokenSlots row' := Function.update_of_ne hrow _ _
    exact
      { length_le := hmapped.length_le
        pages_length := hmapped.pages_length
        rowSeqLens_eq := (Function.update_of_ne hrow _ _).trans hmapped.rowSeqLens_eq
        rowLogicalLens_eq := (Function.update_of_ne hrow _ _).trans hmapped.rowLogicalLens_eq
        slots := by
          rw [htable]
          exact hmapped.slots }

theorem Represents.freed (h : Represents config cache streams) (howner : cache.Owner seqId row pages length) :
    Represents config (cache.freed seqId row pages) (Function.update streams seqId none) where
  tables := tables_freed h.tables howner
  absent_iff other := by
    show _ ↔ (cache.pagePool.lengths.erase seqId).get? other = none
    by_cases hne : other = seqId
    · subst hne
      rw [Function.update_self, Dict.get?_erase, if_pos rfl]
      exact ⟨fun _ => rfl, fun _ => rfl⟩
    · rw [Function.update_of_ne hne, Dict.get?_erase, if_neg hne]
      exact h.absent_iff other
  lengths := by
    intro other stream hstream layer
    have hne : other ≠ seqId := by
      rintro rfl
      rw [Function.update_self] at hstream
      exact nomatch hstream
    rw [Function.update_of_ne hne] at hstream
    show (cache.pagePool.lengths.erase seqId).get? other = _
    rw [Dict.get?_erase, if_neg hne]
    exact h.lengths hstream layer
  holds layer hlayer := by
    intro other row' pages' length' hother
    have hne : other ≠ seqId := by
      rintro rfl
      exact hother.not_absent absent_freed
    have htokens : Streams.tokens (Function.update streams seqId none) layer other = streams.tokens layer other := by
      unfold Streams.tokens
      rw [Function.update_of_ne hne]
    dsimp only
    rw [htokens]
    exact h.holds layer hlayer _ _ _ _ ((owner_freed_of_ne hne).mp hother)

/-! ## Steps -/

/-- A step either raises and changes nothing, or the cache represents what the
step does to the streams. -/
theorem Represents.step (h : Represents config cache streams) {step : CacheStep Vec} (hproper : step.Proper cache) :
    wpe (step.run config) (fun _ after => Represents config after (step.effect streams))
      (fun after => after = cache) cache := by
  -- the two decode steps differ in how the batch is prepared only:
  have hdecode : ∀ (seqIds : List ℕ) (key : ℕ → ℕ → Vec) (after : QuantizedCache Vec Code),
      DecodeReady config cache after seqIds →
      wpe (forward config key) (fun _ last =>
        Represents config last (Streams.grow key (seqIds.map fun seqId => (seqId, 1)) streams))
        (fun last => last = cache) after := by
    intro seqIds key after hready
    have hids : ((decodeRequests seqIds).map Prod.fst).Nodup := by
      rw [map_fst_decodeRequests]
      exact hready.nodup
    have hchunks : chunksOf (decodeRequests seqIds) = seqIds.map fun seqId => (seqId, 1) := by
      rw [chunksOf, decodeRequests, List.map_map]
      rfl
    refine wpe_imp (wpe_forward key (fun layer => storesLayer_of_decode hready fun seqId _ => ?_)
      fun layer hlayer => h.extend hready.grows hlayer) (fun _ last hlast => ?_) (fun _ => False.elim)
    · rw [List.length_map, h.length_tokens]
    · obtain ⟨layers, rfl, hlayers⟩ := hlast
      rw [← hchunks] at hlayers ⊢
      exact h.grown hids hready.grows hlayers
  cases step with
  | prefill seqs key =>
      obtain ⟨hnodup, hprefilled⟩ := hproper
      have hids : ((seqs.map PrefillSeq.request).map Prod.fst).Nodup := by
        rw [List.map_map]
        exact hnodup
      have hchunks : chunksOf (seqs.map PrefillSeq.request) = prefillChunks seqs := by
        rw [chunksOf, List.map_map]
        rfl
      rw [CacheStep.run]
      refine wpe_then (wpe_preparePrefill h.tables hnodup hprefilled) fun _ after hready => ?_
      refine wpe_imp (wpe_forward key (fun layer => storesLayer_of_prefill hready hnodup fun seq _ => ?_)
        fun layer hlayer => h.extend hready.grows hlayer) (fun _ last hlast => ?_) (fun _ => False.elim)
      · rw [List.length_map, h.length_tokens]
      · obtain ⟨layers, rfl, hlayers⟩ := hlast
        rw [CacheStep.effect]
        rw [← hchunks] at hlayers ⊢
        exact h.grown hids hready.grows hlayers
  | decode seqIds key =>
      rw [CacheStep.run]
      exact wpe_then (wpe_prepareDecode h.tables seqIds) fun _ after hready =>
        hdecode seqIds key after hready
  | decodeGraph seqIds buffers key =>
      rw [CacheStep.run]
      exact wpe_then (wpe_prepareDecodeGraphBuffers h.tables seqIds hproper) fun _ after hready =>
        hdecode seqIds key after hready
  | free seqId =>
      rw [CacheStep.run]
      refine wpe_mono (wpe_freeSeq h.tables seqId) fun _ after hafter => ?_
      obtain ⟨row, pages, length, howner, rfl⟩ := hafter
      exact h.freed howner

/-- The states that runs reach, and the streams that they stand for. -/
inductive Reaches (config : QuantizedConfig Vec Code) : QuantizedCache Vec Code → Streams Vec → Prop where
  | fresh (pool : QuantizedPagePool) (layers : ℕ → QuantizedKVLayer Vec Code)
      (hpool : QuantizedPagePool.init config.numPages config.pageSize config.maxModelLen = .ok pool) :
      Reaches config (fresh config pool layers) fun _ => none
  | done {cache : QuantizedCache Vec Code} {streams : Streams Vec} (step : CacheStep Vec)
      (hreach : Reaches config cache streams) (hproper : step.Proper cache)
      (hdone : (step.run config cache).1 = .ok ()) :
      Reaches config (step.run config cache).2 (step.effect streams)
  | raised {cache : QuantizedCache Vec Code} {streams : Streams Vec} (step : CacheStep Vec)
      (error : PyError) (hreach : Reaches config cache streams) (hproper : step.Proper cache)
      (hraised : (step.run config cache).1 = .error error) :
      Reaches config (step.run config cache).2 streams

theorem Reaches.represents (h : Reaches config cache streams) : Represents config cache streams := by
  induction h with
  | fresh pool layers hpool => exact represents_fresh layers hpool
  | done step _ hproper hdone ih =>
      have hstep := wpe_def.mp (ih.step hproper)
      rw [hdone] at hstep
      exact hstep
  | raised step error _ hproper hraised ih =>
      have hstep := wpe_def.mp (ih.step hproper)
      rw [hraised] at hstep
      change (step.run config _).2 = _ at hstep
      rw [hstep]
      exact ih

/-! ## Reading -/

/-- What a kernel should load at a position of a stream. -/
def streamVector (config : QuantizedConfig Vec Code) (tokens : List Vec) (position : ℕ) (token : Vec) :
    LoadedVector Vec Code :=
  if (position / config.pageSize + 1) * config.pageSize ≤ tokens.length then
    .packed (config.encode (Pages.page config.pageSize (tokens.map (storedVector config))
      (position / config.pageSize))) (position % config.pageSize)
  else .raw (storedVector config token)

theorem loadVectors_eq (h : Tables config cache) (howner : cache.Owner seqId row pages length)
    {storage : QuantizedKVLayer Vec Code} {tokens : List Vec} (hlength : tokens.length = length)
    (hholds : Pages.Holds config.encode config.pageSize storage.data (storage.raw row) pages
      (tokens.map (storedVector config))) {position : ℕ} {token : Vec}
    (htoken : tokens[position]? = some token) :
    storage.loadVectors config cache.bufferReqToTokenSlots row position length =
      streamVector config tokens position token := by
  have hsize := h.pageSize_pos
  have hlt : position < length := by
    rw [← hlength]
    exact (List.getElem?_eq_some_iff.mp htoken).1
  obtain ⟨page, hpage, hslot⟩ := (h.mapped howner).slots position hlt
  have hmod := Nat.mod_lt position hsize
  have hcomplete : position < length / config.pageSize * config.pageSize ↔
      (position / config.pageSize + 1) * config.pageSize ≤ tokens.length := by
    rw [hlength, ← Nat.div_lt_iff_lt_mul hsize, ← Nat.le_div_iff_mul_le hsize, Nat.succ_le_iff]
  unfold QuantizedKVLayer.loadVectors streamVector
  dsimp only
  rw [hslot, Nat.mul_comm page, Nat.mul_add_div hsize, Nat.mul_add_mod, Nat.div_eq_of_lt hmod,
    Nat.mod_mod, Nat.add_zero]
  by_cases hpacked : position < length / config.pageSize * config.pageSize
  · rw [if_pos hpacked, if_pos (hcomplete.mp hpacked)]
    rw [hholds.complete hpage (by rw [List.length_map]; exact hcomplete.mp hpacked)]
  · rw [if_neg hpacked, if_neg fun hle => hpacked (hcomplete.mpr hle)]
    have hvalue : (tokens.map (storedVector config))[position]? = some (storedVector config token) := by
      rw [List.getElem?_map, htoken]
      rfl
    rw [hholds.raw_eq hsize hvalue (by rw [List.length_map, hlength]; omega)]

/-- The pages of a reachable cache hold the streams of its sequences, and a call
that raises leaves everything as it was. -/
theorem Reaches.pages_hold_streams (h : Reaches config cache streams) :
    (cache.pagePool.free ++ cache.pagePool.pages.values.flatten).Perm (List.range config.numPages) ∧
    (∀ seqId, streams seqId = none → cache.Absent seqId) ∧
    (∀ seqId stream, streams seqId = some stream → ∃ row pages length,
      cache.Owner seqId row pages length ∧
      pages.length = (length + config.pageSize - 1) / config.pageSize ∧
      (∀ position < length, ∃ page, pages[position / config.pageSize]? = some page ∧
        cache.bufferReqToTokenSlots row position =
          page * config.pageSize + position % config.pageSize) ∧
      ∀ layer < config.numKvLayers, (stream layer).length = length ∧
        (∀ position token, (stream layer)[position]? = some token →
          (cache.layers layer).loadVectors config cache.bufferReqToTokenSlots row position length =
            streamVector config (stream layer) position token) ∧
        (cache.layers layer).materializeSequence config cache.bufferReqToTokenSlots row length =
          .ok ((stream layer).zipIdx.map fun entry =>
            streamVector config (stream layer) entry.2 entry.1)) ∧
    ∀ step : CacheStep Vec, step.Proper cache → ∀ error, (step.run config cache).1 = .error error →
      (step.run config cache).2 = cache := by
  have hrepresents := h.represents
  have htables := hrepresents.tables
  refine ⟨htables.pages_perm, fun seqId hnone => ?_, fun seqId stream hstream => ?_,
    fun step hproper error herror => ?_⟩
  · exact htables.absent_of_length ((hrepresents.absent_iff seqId).mp hnone)
  · obtain ⟨row, pages, howner⟩ := htables.owner_of_length (hrepresents.lengths hstream 0)
    have hmapped := htables.mapped howner
    refine ⟨row, pages, _, howner, hmapped.pages_length, hmapped.slots, fun layer hlayer => ?_⟩
    have hlength : (stream layer).length = (stream 0).length :=
      Option.some.inj ((hrepresents.lengths hstream layer).symm.trans (hrepresents.lengths hstream 0))
    have htokens : streams.tokens layer seqId = stream layer := by
      unfold Streams.tokens
      rw [hstream]
      rfl
    have hholds := hrepresents.holds layer hlayer _ _ _ _ howner
    dsimp only at hholds
    rw [htokens] at hholds
    -- what a token was quantized to is loaded back for its position:
    have hload : ∀ position token, (stream layer)[position]? = some token →
        (cache.layers layer).loadVectors config cache.bufferReqToTokenSlots row position
          (stream 0).length = streamVector config (stream layer) position token :=
      fun position token htoken => loadVectors_eq htables howner hlength hholds htoken
    refine ⟨hlength, hload, ?_⟩
    have hrow := htables.row_lt howner
    have hle := hmapped.length_le
    unfold QuantizedKVLayer.materializeSequence
    rw [if_neg (by omega), Except.ok.injEq]
    apply List.ext_getElem?
    intro position
    rw [List.getElem?_map, List.getElem?_map, List.getElem?_zipIdx, ← hlength, Nat.zero_add]
    rcases htoken : (stream layer)[position]? with _ | token
    · rw [List.getElem?_eq_none (by rw [List.length_range]; exact List.getElem?_eq_none_iff.mp htoken)]
      rfl
    · have hposition := (List.getElem?_eq_some_iff.mp htoken).1
      rw [List.getElem?_range hposition]
      exact congrArg some (hlength ▸ hload position token htoken)
  · -- a proper step that raises has written nothing
    have hstep := wpe_def.mp (hrepresents.step hproper)
    rw [herror] at hstep
    exact hstep

/-! ## A run -/

/-- Three pages of two tokens each, at one layer.  A vector is a number, and a
code is the list of the vectors of a page. -/
def smallConfig : QuantizedConfig ℕ (List ℕ) where
  numPages := 3
  pageSize := 2
  maxModelLen := 8
  maxBufferRows := 2
  numKvLayers := 1
  encode := id
  rotation := none

/-- A prompt of three tokens. -/
def smallPrefill : CacheStep ℕ := .prefill [⟨7, 0, 3⟩] fun _ index => 10 + index

/-- A decode of one token, in a graph of two requests. -/
def smallDecode : CacheStep ℕ :=
  .decodeGraph [7] ⟨2, 2, 2, 2, 2, none, -1, true, some 8, true⟩ fun _ index => 20 + index

/-- The cache after both. -/
def smallCache : QuantizedCache ℕ (List ℕ) :=
  let cache := fresh smallConfig ⟨2, 8, [0, 1, 2], .empty, .empty⟩ fun _ => ⟨fun _ => [], fun _ _ => 0⟩
  (smallDecode.run smallConfig (smallPrefill.run smallConfig cache).2).2

theorem reaches_smallCache : Reaches smallConfig smallCache
    (smallDecode.effect (smallPrefill.effect fun _ => none)) := by
  refine .done smallDecode (.done smallPrefill (.fresh _ _ rfl) ⟨by simp, ?_⟩ rfl) (Int.negSucc_lt_zero 0) rfl
  intro seq hseq length hlength
  exact nomatch hlength

/-- The last token of the prompt and the decoded one are on a page. -/
theorem smallCache_holds_stream : ∃ row pages length, smallCache.Owner 7 row pages length ∧
    (smallCache.layers 0).loadVectors smallConfig smallCache.bufferReqToTokenSlots row 3 length =
      .packed [12, 20] 1 := by
  have hstream : ∃ stream, (smallDecode.effect (smallPrefill.effect fun _ => none)) 7 = some stream ∧
      stream 0 = [10, 11, 12, 20] := ⟨_, rfl, rfl⟩
  obtain ⟨stream, hsome, htokens⟩ := hstream
  obtain ⟨row, pages, length, howner, _, _, hlayers⟩ :=
    reaches_smallCache.pages_hold_streams.2.2.1 7 stream hsome
  have hload := (hlayers 0 Nat.one_pos).2.1 3 20 (by rw [htokens]; rfl)
  rw [htokens] at hload
  exact ⟨row, pages, length, howner, hload⟩

end QuantizedCache
