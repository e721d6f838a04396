import SparseEngine.QuantizedPages.Preparation

/-!
# Storing tokens

A page is completed in one of three ways: it lies inside a chunk, it is the
raw tail joined with the beginning of a chunk, or it is the raw tail joined
with a decoded token.  In each of them the storage of a layer holds what it
held before, and the new tokens behind it.
-/

namespace QuantizedCache

open Routine

variable {Vec Code : Type} {config : QuantizedConfig Vec Code}
  {cache next : QuantizedCache Vec Code} {seqId row : ℕ} {pages : List ℕ} {length : ℕ}
  {storage : QuantizedKVLayer Vec Code} {held : ℕ → List Vec}

/-- The storage of a layer holds some tokens of each sequence, in its pages and
its row. -/
def LayerHolds (config : QuantizedConfig Vec Code) (cache : QuantizedCache Vec Code)
    (storage : QuantizedKVLayer Vec Code) (held : ℕ → List Vec) : Prop :=
  ∀ seqId row pages length, cache.Owner seqId row pages length →
    Pages.Holds config.encode config.pageSize storage.data (storage.raw row) pages (held seqId)

variable {tokens chunk key : List Vec} {count offset layer : ℕ}
  {layers : ℕ → QuantizedKVLayer Vec Code} {bad : QuantizedCache Vec Code → Prop} {starts : ℕ → ℕ}
  {entries : List WriteEntry} {seqIds : List ℕ} {seqs : List PrefillSeq}
  {post : List (List (LoadedVector Vec Code)) → QuantizedCache Vec Code → Prop}

/-- Tokens of one sequence are added: what the others hold is in other pages and
other rows. -/
theorem LayerHolds.update (hholds : LayerHolds config cache storage held) (h : Tables config cache)
    (howner : cache.Owner seqId row pages length) {after : QuantizedKVLayer Vec Code}
    (hself : Pages.Holds config.encode config.pageSize after.data (after.raw row) pages tokens)
    (hdata : ∀ page ∉ pages, after.data page = storage.data page)
    (hraw : ∀ other ≠ row, after.raw other = storage.raw other) :
    LayerHolds config cache after (Function.update held seqId tokens) := by
  intro other row' pages' length' hother
  by_cases hne : other = seqId
  · subst hne
    obtain ⟨rfl, rfl, rfl⟩ := howner.unique hother
    rw [Function.update_self]
    exact hself
  · rw [Function.update_of_ne hne]
    refine (hholds _ _ _ _ hother).congr (fun page hpage => ?_) (fun offset _ => ?_) h.pageSize_pos
    · exact hdata page fun hmem => h.disjoint howner hother hne hmem hpage
    · rw [hraw row' (h.row_ne howner hother hne)]

/-! ## A chunk of a prefill -/

/-- The pages that a chunk completes. -/
def completedPages (config : QuantizedConfig Vec Code) (pages : List ℕ) (start stop : ℕ) : List ℕ :=
  (pages.drop (start / config.pageSize)).take (stop / config.pageSize - start / config.pageSize)

/-- What a chunk leaves in a layer.  `joined` is the tail and the chunk. -/
def stored (config : QuantizedConfig Vec Code) (storage : QuantizedKVLayer Vec Code)
    (joined : List Vec) (row : ℕ) (pageIds : List ℕ) : QuantizedKVLayer Vec Code :=
  { storage with
    data := Pages.encodeAll config.encode config.pageSize
      (joined.take (joined.length / config.pageSize * config.pageSize)) pageIds storage.data }.writeRaw
    row 0 (Pages.tail config.pageSize joined)

section

variable (h : Tables config cache)

include h

/-- The complete pages of the join, counted from the start of the chunk. -/
theorem length_joined_div (tokens chunk : List Vec) :
    (Pages.tail config.pageSize tokens ++ chunk).length / config.pageSize =
      (tokens.length + chunk.length) / config.pageSize - tokens.length / config.pageSize := by
  have hlength := Pages.length_div_append h.pageSize_pos tokens chunk
  rw [List.length_append] at hlength
  rw [hlength, Nat.add_sub_cancel_left]

theorem length_completedPages (howner : cache.Owner seqId row pages length) (start : ℕ) :
    (completedPages config pages start length).length = length / config.pageSize - start / config.pageSize := by
  have hle := Pages.div_le_count h.pageSize_pos length
  have hpages := (h.mapped howner).pages_length
  unfold completedPages
  rw [List.length_take, List.length_drop, hpages]
  omega

/-- `storeEntry` does not raise, and leaves the join. -/
theorem wpe_storeEntry (hlength : chunk.length = count) (howner : cache.Owner seqId row pages (tokens.length + count))
    (hholds : Pages.Holds config.encode config.pageSize storage.data (storage.raw row) pages tokens)
    (hchunk : (key.drop offset).take count = chunk) :
    wpe (QuantizedKVLayer.storeEntry config key
        ⟨row, tokens.length, tokens.length + count, offset,
          completedPages config pages tokens.length (tokens.length + count)⟩)
      (fun _ after => after = stored config storage (Pages.tail config.pageSize tokens ++ chunk) row
        (completedPages config pages tokens.length (tokens.length + count)))
      (fun _ => False) storage := by
  subst hlength
  have hcurrent : (if tokens.length % config.pageSize ≠ 0 then
      Cells.read (storage.raw row) 0 (tokens.length % config.pageSize) ++
        (key.drop offset).take (tokens.length + chunk.length - tokens.length)
      else (key.drop offset).take (tokens.length + chunk.length - tokens.length)) =
        Pages.tail config.pageSize tokens ++ chunk := by
    rw [Nat.add_sub_cancel_left, hchunk]
    split
    · rw [hholds.buffered]
    · next hzero =>
      rw [not_not] at hzero
      have hnil : Pages.tail config.pageSize tokens = [] := by
        rw [← List.length_eq_zero_iff, Pages.length_tail, hzero]
      rw [hnil, List.nil_append]
  have hcount := length_completedPages h howner tokens.length
  rw [← length_joined_div h tokens chunk] at hcount
  rw [QuantizedKVLayer.storeEntry, wpe_get]
  dsimp only
  rw [hcurrent]
  generalize hjoined : Pages.tail config.pageSize tokens ++ chunk = joined at hcount ⊢
  generalize completedPages config pages tokens.length (tokens.length + chunk.length) = pageIds at hcount ⊢
  have hrest : ∀ data : ℕ → Code, wpe
      (whenDo (joined.length - joined.length / config.pageSize * config.pageSize ≠ 0)
        (Routine.write fun layer : QuantizedKVLayer Vec Code => layer.writeRaw row 0
          (joined.drop (joined.length / config.pageSize * config.pageSize))))
      (fun _ after => after = ({ storage with data := data } : QuantizedKVLayer Vec Code).writeRaw row 0
        (Pages.tail config.pageSize joined)) (fun _ => False) { storage with data := data } := by
    intro data
    rw [wpe_whenDo]
    refine ⟨fun _ => rfl, fun hzero => ?_⟩
    rw [not_not] at hzero
    have hnil : Pages.tail config.pageSize joined = [] := by
      rw [← List.length_eq_zero_iff, Pages.tail, List.length_drop, hzero]
    rw [hnil, QuantizedKVLayer.writeRaw, Cells.write_nil, Function.update_eq_self]
  rw [wpe_bind, wpe_whenDo]
  refine ⟨fun _ => ?_, fun hzero => ?_⟩
  · rw [QuantizedKVLayer.encodePages, wpe_guard]
    refine ⟨fun hne => ?_, fun _ => ?_⟩
    · apply hne
      rw [hcount, List.length_take, Nat.min_eq_left (Nat.div_mul_le_self _ _)]
    · exact hrest _
  · -- no page is complete
    rw [not_not] at hzero
    have hnone : pageIds = [] := by
      rw [← List.length_eq_zero_iff, hcount]
      exact (Nat.mul_eq_zero.mp hzero).resolve_right h.pageSize_pos.ne'
    rw [stored, hnone]
    exact hrest storage.data

theorem layerHolds_stored (hholds : LayerHolds config cache storage held) (hlength : chunk.length = count)
    (howner : cache.Owner seqId row pages ((held seqId).length + count)) :
    LayerHolds config cache
      (stored config storage (Pages.tail config.pageSize (held seqId) ++ chunk) row
        (completedPages config pages (held seqId).length ((held seqId).length + count)))
      (Function.update held seqId (held seqId ++ chunk)) := by
  subst hlength
  refine hholds.update h howner ?_ (fun page hpage => ?_) (fun other hne => ?_)
  · have hrow : (stored config storage (Pages.tail config.pageSize (held seqId) ++ chunk) row
        (completedPages config pages (held seqId).length ((held seqId).length + chunk.length))).raw row =
        Cells.write (storage.raw row) 0 (Pages.tail config.pageSize
          (Pages.tail config.pageSize (held seqId) ++ chunk)) := Function.update_self _ _ _
    rw [hrow]
    refine (hholds _ _ _ _ howner).append_chunk h.pageSize_pos (h.owner_nodup howner) rfl ?_
    unfold completedPages
    rw [length_joined_div h]
  · apply Pages.encodeAll_of_not_mem
    intro hmem
    exact hpage (List.mem_of_mem_drop (List.mem_of_mem_take hmem))
  · exact Function.update_of_ne hne _ _

end

/-! ## A token of a decode -/

theorem layerHolds_appendToken (h : Tables config cache)
    (hholds : LayerHolds config cache storage held) {entry : AppendEntry Vec}
    (howner : cache.Owner seqId entry.row pages entry.stop)
    (hstop : (held seqId).length + 1 = entry.stop) (hwrite : 0 ≤ entry.write) :
    LayerHolds config cache (storage.appendToken config cache.bufferReqToTokenSlots entry)
      (Function.update held seqId (held seqId ++ [entry.key])) := by
  have hself := hholds _ _ _ _ howner
  unfold QuantizedKVLayer.appendToken
  rw [if_neg (by omega)]
  split
  · next hlast =>
    -- the token is the last one of its page
    rw [← hstop] at hlast ⊢
    obtain ⟨hle, hindex⟩ := Pages.sub_div_of_last h.pageSize_pos hlast
    obtain ⟨page, hpage, hslot⟩ := (h.mapped howner).slots
      ((held seqId).length + 1 - config.pageSize) (by have hsize := h.pageSize_pos; omega)
    have hframe : cache.bufferReqToTokenSlots entry.row
        ((held seqId).length + 1 - config.pageSize) / config.pageSize = page := by
      rw [hslot, Nat.mul_comm, Nat.mul_add_div h.pageSize_pos,
        Nat.div_eq_of_lt (Nat.mod_lt _ h.pageSize_pos), Nat.add_zero]
    rw [hindex] at hpage
    rw [hframe]
    refine hholds.update h howner ?_ (fun other hother => ?_) (fun _ _ => rfl)
    · exact hself.append_last h.pageSize_pos (h.owner_nodup howner) hlast hpage
    · have hne : other ≠ page := by
        rintro rfl
        exact hother (List.mem_of_getElem? hpage)
      exact Function.update_of_ne hne _ _
  · next hlast =>
    have hoffset : (entry.stop - 1) % config.pageSize = (held seqId).length % config.pageSize := by
      rw [← hstop, Nat.add_sub_cancel]
    rw [hoffset]
    refine hholds.update h howner ?_ (fun _ _ => rfl) (fun other hne => Function.update_of_ne hne _ _)
    dsimp only
    rw [Function.update_self]
    exact hself.append_buffered h.pageSize_pos (by rw [hstop]; exact hlast)

/-! ## A batch at one layer -/

/-- What a batch adds to the tokens of each sequence.  The tokens of a sequence
are next to each other in the inputs of the step, in the order of the batch. -/
def appended (key : ℕ → Vec) : ℕ → List (ℕ × ℕ) → (ℕ → List Vec) → ℕ → List Vec
  | _, [], held => held
  | offset, chunk :: rest, held =>
      appended key (offset + chunk.2) rest (Function.update held chunk.1
        (held chunk.1 ++ (List.range' offset chunk.2).map key))

/-- The cache with another storage. -/
def withLayers (cache : QuantizedCache Vec Code) (layers : ℕ → QuantizedKVLayer Vec Code) :
    QuantizedCache Vec Code :=
  { cache with layers := layers }

theorem wpe_onLayer {α : Type} {call : Routine (QuantizedKVLayer Vec Code) α}
    {post : α → QuantizedCache Vec Code → Prop} :
    wpe (onLayer layer call) post bad (cache.withLayers layers) ↔
      wpe call (fun value after => post value (cache.withLayers (Function.update layers layer after)))
        (fun after => bad (cache.withLayers (Function.update layers layer after))) (layers layer) :=
  wpe_focus

/-- The chunks of a prefill. -/
def prefillChunks (seqs : List PrefillSeq) : List (ℕ × ℕ) :=
  seqs.map fun seq => (seq.seqId, seq.currentChunkSize.toNat)

/-- The inputs of a chunk are a part of the inputs of the step. -/
theorem take_drop_inputs (key : ℕ → Vec) {total : ℕ} (hle : offset + count ≤ total) :
    (((List.range total).map key).drop offset).take count = (List.range' offset count).map key := by
  apply List.ext_getElem?
  intro index
  rw [List.getElem?_map]
  by_cases hindex : index < count
  · rw [List.getElem?_take_of_lt hindex, List.getElem?_drop, List.getElem?_map,
      List.getElem?_range (by omega), List.getElem?_range' hindex, Nat.one_mul]
  · rw [Nat.not_lt] at hindex
    rw [List.getElem?_eq_none (by rw [List.length_take]; omega),
      List.getElem?_eq_none (by rw [List.length_range']; exact hindex)]
    rfl

/-- The sequences of a prefill are stored one after the other. -/
theorem wpe_storeEntries (h : Tables config cache) (key : ℕ → Vec) (total : ℕ)
    (seqs : List PrefillSeq) (hplanned : Planned config cache starts offset seqs entries)
    (hnodup : (seqs.map PrefillSeq.seqId).Nodup) (htotal : offset + totalTokens seqs ≤ total)
    (hstarts : ∀ seq ∈ seqs, (held seq.seqId).length = starts seq.seqId)
    (hholds : LayerHolds config cache (layers layer) held) :
    wpe (forEach (fun entry => onLayer layer
        (QuantizedKVLayer.storeEntry config ((List.range total).map key) entry)) entries)
      (fun _ after => ∃ storage, after = cache.withLayers (Function.update layers layer storage) ∧
        LayerHolds config cache storage (appended key offset (prefillChunks seqs) held))
      (fun _ => False) (cache.withLayers layers) := by
  induction seqs generalizing offset entries layers held with
  | nil =>
      obtain rfl : entries = [] := hplanned
      rw [forEach, wpe_pure]
      exact ⟨layers layer, by rw [Function.update_eq_self], hholds⟩
  | cons seq rest ih =>
      obtain ⟨row, pages, tail, howner, rfl, htail⟩ := hplanned
      rw [List.map_cons, List.nodup_cons] at hnodup
      have hsum : totalTokens (seq :: rest) = seq.currentChunkSize.toNat + totalTokens rest :=
        List.sum_cons
      rw [hsum] at htotal
      have hstart := hstarts seq List.mem_cons_self
      have hchunk : (((List.range total).map key).drop offset).take seq.currentChunkSize.toNat =
          (List.range' offset seq.currentChunkSize.toNat).map key :=
        take_drop_inputs key (by omega)
      have hlength : ((List.range' offset seq.currentChunkSize.toNat).map key).length =
          seq.currentChunkSize.toNat := by
        rw [List.length_map, List.length_range']
      rw [← hstart] at howner ⊢
      rw [forEach, wpe_bind, wpe_onLayer]
      refine wpe_mono (wpe_storeEntry h hlength howner (hholds _ _ _ _ howner) hchunk) fun _ after hafter => ?_
      have hafter' := layerHolds_stored h hholds hlength howner
      rw [← hafter] at hafter'
      have hrest : ∀ other ∈ rest, (Function.update held seq.seqId (held seq.seqId ++
          (List.range' offset seq.currentChunkSize.toNat).map key) other.seqId).length = starts other.seqId := by
        intro other hother
        have hne : other.seqId ≠ seq.seqId := fun heq => hnodup.1 (heq ▸ List.mem_map_of_mem hother)
        rw [Function.update_of_ne hne]
        exact hstarts other (List.mem_cons_of_mem _ hother)
      have hthere : LayerHolds config cache (Function.update layers layer after layer)
          (Function.update held seq.seqId (held seq.seqId ++
            (List.range' offset seq.currentChunkSize.toNat).map key)) := by
        rw [Function.update_self]
        exact hafter'
      refine wpe_mono (ih htail hnodup.2 (by omega) hrest hthere) fun _ last hlast => ?_
      obtain ⟨storage, rfl, hstorage⟩ := hlast
      exact ⟨storage, by rw [Function.update_idem], hstorage⟩

/-- The inputs that a padded batch adds to nothing. -/
theorem foldl_padding (slots : ℕ → ℕ → ℕ) (entries : List (AppendEntry Vec))
    (hentries : ∀ entry ∈ entries, entry.write < 0) :
    entries.foldl (fun layer => layer.appendToken config slots) storage = storage := by
  induction entries with
  | nil => rfl
  | cons entry rest ih =>
      rw [List.forall_mem_cons] at hentries
      have hsame : storage.appendToken config slots entry = storage := by
        unfold QuantizedKVLayer.appendToken
        rw [if_pos hentries.1]
      rw [List.foldl_cons, hsame, ih hentries.2]

/-- The requests of a decode are stored one after the other. -/
theorem layerHolds_foldl (h : Tables config cache) (key : ℕ → Vec) {rows slots : List ℕ}
    (hnodup : seqIds.Nodup) (hslots : slots.length = seqIds.length)
    (hrows : List.Forall₂ (fun seqId row => cache.seqIdToRow.get? seqId = some row) seqIds rows)
    (howner : ∀ seqId ∈ seqIds, ∃ row pages, cache.Owner seqId row pages ((held seqId).length + 1))
    (hholds : LayerHolds config cache storage held) :
    LayerHolds config cache
      ((QuantizedKVLayer.appendEntries ((List.range' offset seqIds.length).map key) rows
        (rows.map cache.rowSeqLens) (slots.map Nat.cast)).foldl
          (fun layer => layer.appendToken config cache.bufferReqToTokenSlots) storage)
      (appended key offset (seqIds.map fun seqId => (seqId, 1)) held) := by
  induction hrows generalizing slots offset storage held with
  | nil => exact hholds
  | @cons seqId row rest rows hrow _ ih =>
      cases slots with
      | nil => simp at hslots
      | cons slot slots =>
          rw [List.nodup_cons] at hnodup
          rw [List.forall_mem_cons] at howner
          obtain ⟨row', pages, hfirst⟩ := howner.1
          obtain rfl := Option.some.inj (hfirst.row_eq.symm.trans hrow)
          have hlength := (h.mapped hfirst).rowSeqLens_eq
          have hentry : LayerHolds config cache (storage.appendToken config cache.bufferReqToTokenSlots
              ⟨key offset, row', cache.rowSeqLens row', slot⟩)
              (Function.update held seqId (held seqId ++ [key offset])) :=
            layerHolds_appendToken h hholds (hlength.symm ▸ hfirst) hlength.symm (Int.natCast_nonneg slot)
          have hrest : ∀ other ∈ rest, ∃ row pages, cache.Owner other row pages
              ((Function.update held seqId (held seqId ++ [key offset]) other).length + 1) := by
            intro other hother
            have hne : other ≠ seqId := fun heq => hnodup.1 (heq ▸ hother)
            rw [Function.update_of_ne hne]
            exact howner.2 other hother
          exact ih hnodup.2 (Nat.succ.inj hslots) hrest hentry

/-! ## A forward pass -/

/-- What is stored of a vector. -/
def storedVector (config : QuantizedConfig Vec Code) : Vec → Vec := config.rotation.getD id

theorem rotate_eq (config : QuantizedConfig Vec Code) (vectors : List Vec) :
    config.rotate vectors = vectors.map (storedVector config) := by
  unfold QuantizedConfig.rotate storedVector
  cases config.rotation with
  | none => exact (List.map_id vectors).symm
  | some rotation => rfl

/-- The number of tokens that the plan stores. -/
theorem sum_planned (hplanned : Planned config cache starts offset seqs entries) :
    (entries.map fun entry => entry.stop - entry.start).sum = totalTokens seqs := by
  induction seqs generalizing offset entries with
  | nil =>
      obtain rfl : entries = [] := hplanned
      rfl
  | cons seq rest ih =>
      obtain ⟨row, pages, tail, _, rfl, htail⟩ := hplanned
      rw [List.map_cons, List.sum_cons, ih htail, Nat.add_sub_cancel_left]
      exact List.sum_cons.symm

/-- The history of each sequence can be read. -/
theorem wpe_histories (h : Tables config cache)
    (hplanned : Planned config cache starts offset seqs entries) (slots : ℕ → ℕ → ℕ)
    (current : QuantizedCache Vec Code) :
    wpe (mapEach (fun entry : WriteEntry =>
        if entry.start ≠ 0 then ofExcept (storage.materializeSequence config slots entry.row entry.start)
        else return []) entries)
      (fun _ after => after = current) (fun _ => False) current := by
  induction seqs generalizing offset entries with
  | nil =>
      obtain rfl : entries = [] := hplanned
      rw [mapEach, wpe_pure]
  | cons seq rest ih =>
      obtain ⟨row, pages, tail, howner, rfl, htail⟩ := hplanned
      have hrow := h.row_lt howner
      have hlength := (h.mapped howner).length_le
      have hread : ∀ start ≤ starts seq.seqId,
          storage.materializeSequence config slots row start = .ok ((List.range start).map
            fun position => storage.loadVectors config slots row position start) := by
        intro start hstart
        unfold QuantizedKVLayer.materializeSequence
        rw [if_neg (by omega)]
      rw [mapEach, wpe_bind, wpe_ite]
      refine ⟨fun _ => ?_, fun _ => ?_⟩
      · rw [hread _ le_rfl, wpe_ok]
        refine wpe_then (ih htail) fun values after hafter => ?_
        rw [wpe_pure]
        exact hafter
      · rw [wpe_pure]
        refine wpe_then (ih htail) fun values after hafter => ?_
        rw [wpe_pure]
        exact hafter

theorem wpe_storePrefill {vectors : List Vec} (hactive : cache.prefillActive = true)
    (hinputs : key.length = cache.layerBatchState.slotMapping.length) (hvectors : config.rotate
      (key.take (cache.writePlan.map fun entry => entry.stop - entry.start).sum) = vectors)
    (hhistories : wpe (mapEach (fun entry : WriteEntry =>
        if entry.start ≠ 0 then ofExcept ((cache.layers layer).materializeSequence config
          cache.bufferReqToTokenSlots entry.row entry.start)
        else return []) cache.writePlan) (fun _ after => after = cache) bad cache)
    (hstore : ∀ histories, wpe (forEach (fun entry => onLayer layer
      (QuantizedKVLayer.storeEntry config vectors entry)) cache.writePlan) (fun _ => post histories) bad cache) :
    wpe (storeAttentionPayload config layer key) post bad cache := by
  unfold storeAttentionPayload
  rw [wpe_get, wpe_guard]
  refine ⟨fun hne => absurd hinputs hne, fun _ => ?_⟩
  rw [wpe_ite]
  refine ⟨fun _ => ?_, fun hinactive => absurd hactive hinactive⟩
  refine wpe_then hhistories fun histories after hafter => ?_
  obtain rfl := hafter
  rw [wpe_bind, hvectors]
  refine wpe_mono (hstore histories) fun _ last hlast => ?_
  rw [wpe_pure]
  exact hlast

theorem wpe_storeDecode {vectors : List Vec} (hinactive : cache.prefillActive = false)
    (hinputs : key.length = cache.layerBatchState.slotMapping.length) (hvectors : config.rotate key = vectors)
    (hstore : wpe (onLayer layer (QuantizedKVLayer.quantizedDecodeAppend config vectors
      cache.bufferReqToTokenSlots cache.layerBatchState.reqIndices cache.layerBatchState.contextLens
      cache.layerBatchState.slotMapping)) (fun _ => post []) bad cache) :
    wpe (storeAttentionPayload config layer key) post bad cache := by
  unfold storeAttentionPayload
  rw [wpe_get, wpe_guard]
  refine ⟨fun hne => absurd hinputs hne, fun _ => ?_⟩
  rw [wpe_ite]
  refine ⟨fun hactive => absurd (hactive.symm.trans hinactive) (by decide), fun _ => ?_⟩
  rw [wpe_bind, hvectors]
  refine wpe_mono hstore fun _ last hlast => ?_
  rw [wpe_pure]
  exact hlast

/-- A layer of a step stores its tokens. -/
def StoresLayer (config : QuantizedConfig Vec Code) (next : QuantizedCache Vec Code)
    (chunks : List (ℕ × ℕ)) (held : ℕ → List Vec) : Prop :=
  ∀ (key : ℕ → Vec) (layer : ℕ) (layers : ℕ → QuantizedKVLayer Vec Code),
    LayerHolds config next (layers layer) held →
    wpe (storeAttentionPayload config layer
        ((List.range next.layerBatchState.slotMapping.length).map key))
      (fun _ after => ∃ storage, after = next.withLayers (Function.update layers layer storage) ∧
        LayerHolds config next storage
          (appended (fun index => storedVector config (key index)) 0 chunks held))
      (fun _ => False) (next.withLayers layers)

theorem storesLayer_of_prefill (hready : PrefillReady config cache next seqs)
    (hnodup : (seqs.map PrefillSeq.seqId).Nodup)
    (hstarts : ∀ seq ∈ seqs, (held seq.seqId).length = cache.pagePool.lengthOf seq.seqId) :
    StoresLayer config next (prefillChunks seqs) held := by
  intro key layer layers hholds
  have htables := hready.grows.tables
  have hinputs := hready.inputs
  have hkey : config.rotate (((List.range next.layerBatchState.slotMapping.length).map key).take
      ((next.writePlan.map fun entry => entry.stop - entry.start).sum)) =
        (List.range (totalTokens seqs)).map fun index => storedVector config (key index) := by
    rw [sum_planned hready.planned, hinputs, List.take_of_length_le (by simp), rotate_eq, List.map_map]
    rfl
  have hcount : ((List.range next.layerBatchState.slotMapping.length).map key).length =
      next.layerBatchState.slotMapping.length := by
    rw [List.length_map, List.length_range]
  refine wpe_storePrefill hready.active hcount hkey ?_ fun _ => ?_
  · exact wpe_histories htables hready.planned next.bufferReqToTokenSlots _
  · exact wpe_storeEntries htables _ (totalTokens seqs) seqs hready.planned hnodup (Nat.zero_add _).le hstarts hholds

theorem storesLayer_of_decode (hready : DecodeReady config cache next seqIds)
    (hstarts : ∀ seqId ∈ seqIds, (held seqId).length = cache.pagePool.lengthOf seqId) :
    StoresLayer config next (seqIds.map fun seqId => (seqId, 1)) held := by
  intro key layer layers hholds
  have htables := hready.grows.tables
  obtain ⟨slots, rows, padding, length, row, write, hwrite, hslots, hrows, hstate⟩ := hready.published
  have hlength : rows.length = seqIds.length := hrows.length_eq.symm
  have hinputs : next.layerBatchState.slotMapping.length = seqIds.length + padding := by
    rw [hstate, List.length_append, List.length_map, List.length_replicate, hslots]
  have howner : ∀ seqId ∈ seqIds, ∃ row pages, next.Owner seqId row pages ((held seqId).length + 1) := by
    intro seqId hmem
    have hrequest : (seqId, (1 : ℤ)) ∈ decodeRequests seqIds := List.mem_map_of_mem hmem
    have hseq := hready.grows.owner_of_mem ((map_fst_decodeRequests seqIds).symm ▸ hready.nodup) hrequest
    rw [hstarts seqId hmem]
    exact hseq
  have hkey : config.rotate ((List.range next.layerBatchState.slotMapping.length).map key) =
      (List.range' 0 seqIds.length).map (fun index => storedVector config (key index)) ++
        (List.range' seqIds.length padding).map fun index => storedVector config (key index) := by
    rw [hinputs, rotate_eq, List.map_map, List.range_eq_range', ← List.map_append,
      ← List.range'_append_1, Nat.zero_add]
    rfl
  have hcount : ((List.range next.layerBatchState.slotMapping.length).map key).length =
      next.layerBatchState.slotMapping.length := by
    rw [List.length_map, List.length_range]
  refine wpe_storeDecode hready.inactive hcount hkey ?_
  rw [wpe_onLayer]
  show wpe (QuantizedKVLayer.quantizedDecodeAppend config _ next.bufferReqToTokenSlots
    next.layerBatchState.reqIndices next.layerBatchState.contextLens
    next.layerBatchState.slotMapping) _ _ _
  rw [hstate]
  unfold QuantizedKVLayer.quantizedDecodeAppend
  rw [wpe_guard]
  refine ⟨fun hne => by simp [hlength] at hne, fun _ => ?_⟩
  rw [wpe_guard]
  refine ⟨fun hne => by simp [hlength, hslots] at hne, fun _ => ?_⟩
  rw [wpe_write]
  refine ⟨_, rfl, ?_⟩
  -- the padding rows come after the real ones and write to a negative slot:
  have hsplit : QuantizedKVLayer.appendEntries
      ((List.range' 0 seqIds.length).map (fun index => storedVector config (key index)) ++
        (List.range' seqIds.length padding).map fun index => storedVector config (key index))
      (rows ++ List.replicate padding row) (rows.map next.rowSeqLens ++ List.replicate padding length)
      (slots.map Nat.cast ++ List.replicate padding write) =
    QuantizedKVLayer.appendEntries
        ((List.range' 0 seqIds.length).map fun index => storedVector config (key index)) rows
        (rows.map next.rowSeqLens) (slots.map Nat.cast) ++
      QuantizedKVLayer.appendEntries
        ((List.range' seqIds.length padding).map fun index => storedVector config (key index))
        (List.replicate padding row) (List.replicate padding length) (List.replicate padding write) := by
    unfold QuantizedKVLayer.appendEntries
    rw [List.zip_append (by rw [List.length_map, List.length_map, hlength, hslots]),
      List.zip_append (by rw [List.length_zip, List.length_map, List.length_map, hlength, hslots, Nat.min_self]),
      List.zip_append (by rw [List.length_zip, List.length_zip, List.length_map, List.length_map,
        List.length_map, List.length_range', hlength, hslots, Nat.min_self, Nat.min_self]),
      List.map_append]
  have hpadding : ∀ entry ∈ QuantizedKVLayer.appendEntries
      ((List.range' seqIds.length padding).map fun index => storedVector config (key index))
      (List.replicate padding row) (List.replicate padding length) (List.replicate padding write),
      entry.write < 0 := by
    intro entry hentry
    obtain ⟨parts, hparts, rfl⟩ := List.mem_map.mp hentry
    have hmem := (List.of_mem_zip (List.of_mem_zip (List.of_mem_zip hparts).2).2).2
    rw [List.eq_of_mem_replicate hmem]
    exact hwrite
  rw [hsplit, List.foldl_append, foldl_padding next.bufferReqToTokenSlots _ hpadding]
  exact layerHolds_foldl htables _ hready.nodup hslots hrows howner hholds

/-- A forward pass stores the tokens of a step at every layer. -/
theorem wpe_forward (key : ℕ → ℕ → Vec) {chunks : List (ℕ × ℕ)} {held : ℕ → ℕ → List Vec}
    (hstores : ∀ layer, StoresLayer config next chunks (held layer))
    (hholds : ∀ layer < config.numKvLayers, LayerHolds config next (next.layers layer) (held layer)) :
    wpe (forward config key) (fun _ after => ∃ layers, after = next.withLayers layers ∧
        ∀ layer < config.numKvLayers, LayerHolds config next (layers layer)
          (appended (fun index => storedVector config (key layer index)) 0 chunks (held layer)))
      (fun _ => False) next := by
  have hloop : ∀ (todo : List ℕ) (layers : ℕ → QuantizedKVLayer Vec Code), todo.Nodup →
      (∀ layer ∈ todo, LayerHolds config next (layers layer) (held layer)) →
      wpe (forEach (fun layer => do
          let _ ← storeAttentionPayload config layer
            ((List.range next.layerBatchState.slotMapping.length).map (key layer))) todo)
        (fun _ after => ∃ layers', after = next.withLayers layers' ∧ (∀ layer ∉ todo, layers' layer = layers layer) ∧
          ∀ layer ∈ todo, LayerHolds config next (layers' layer)
            (appended (fun index => storedVector config (key layer index)) 0 chunks (held layer)))
        (fun _ => False) (next.withLayers layers) := by
    intro todo
    induction todo with
    | nil =>
        intro layers _ _
        rw [forEach, wpe_pure]
        exact ⟨layers, rfl, fun _ _ => rfl, List.forall_mem_nil _⟩
    | cons layer rest ih =>
        intro layers hnodup hall
        rw [List.nodup_cons] at hnodup
        rw [List.forall_mem_cons] at hall
        rw [forEach, wpe_bind]
        refine wpe_then (hstores layer (key layer) layer layers hall.1) fun _ after hafter => ?_
        obtain ⟨storage, rfl, hstorage⟩ := hafter
        rw [wpe_pure]
        have hothers : ∀ other ∈ rest, LayerHolds config next
            (Function.update layers layer storage other) (held other) := by
          intro other hother
          have hne : other ≠ layer := fun heq => hnodup.1 (heq ▸ hother)
          rw [Function.update_of_ne hne]
          exact hall.2 other hother
        refine wpe_mono (ih _ hnodup.2 hothers) fun _ last hlast => ?_
        obtain ⟨layers', rfl, hsame, hdone⟩ := hlast
        refine ⟨layers', rfl, fun other hother => ?_, List.forall_mem_cons.mpr ⟨?_, hdone⟩⟩
        · rw [List.mem_cons, not_or] at hother
          rw [hsame other hother.2, Function.update_of_ne hother.1]
        · rw [hsame layer hnodup.1, Function.update_self]
          exact hstorage
  rw [forward, wpe_get]
  refine wpe_mono (hloop (List.range config.numKvLayers) next.layers List.nodup_range
    fun layer hlayer => hholds layer (List.mem_range.mp hlayer)) fun _ after hafter => ?_
  obtain ⟨layers, rfl, _, hdone⟩ := hafter
  exact ⟨layers, rfl, fun layer hlayer => hdone layer (List.mem_range.mpr hlayer)⟩

end QuantizedCache
