import SparseEngine.Lib.Cells

/-!
# A stream cut into pages

A stream of values is cut into pages of one size.  Its complete pages are kept
encoded, each in a frame of a store, and what follows the last complete page,
the tail, is kept as it is in a buffer.

`Holds` says that the store and the buffer hold a stream.  A chunk is added to
the stream by joining it with the tail: the complete pages of the join go to
the next frames, and the rest of it is the new tail.
-/

namespace Pages

variable {Value Code : Type}

/-- The page at an index. -/
def page (size : ℕ) (values : List Value) (index : ℕ) : List Value :=
  (values.drop (index * size)).take size

/-- What follows the last complete page. -/
def tail (size : ℕ) (values : List Value) : List Value :=
  values.drop (values.length / size * size)

/-- The number of pages, with the one that is not complete. -/
def count (size length : ℕ) : ℕ := (length + size - 1) / size

variable {size : ℕ} {values chunk : List Value} {index : ℕ}

theorem length_page (hcomplete : (index + 1) * size ≤ values.length) :
    (page size values index).length = size := by
  rw [Nat.succ_mul] at hcomplete
  unfold page
  rw [List.length_take, List.length_drop, Nat.min_eq_left (by omega)]

@[simp] theorem length_tail : (tail size values).length = values.length % size := by
  have hdiv := Nat.div_add_mod' values.length size
  unfold tail
  rw [List.length_drop]
  omega

theorem getElem?_tail (offset : ℕ) :
    (tail size values)[offset]? = values[values.length / size * size + offset]? := by
  unfold tail
  rw [List.getElem?_drop]

/-- A complete page stays as it is when the stream grows. -/
theorem page_append_of_complete (hcomplete : (index + 1) * size ≤ values.length) :
    page size (values ++ chunk) index = page size values index := by
  rw [Nat.succ_mul] at hcomplete
  unfold page
  rw [List.drop_append_of_le_length (by omega), List.take_append_of_le_length (by rw [List.length_drop]; omega)]

theorem drop_append_tail :
    (values ++ chunk).drop (values.length / size * size) = tail size values ++ chunk :=
  List.drop_append_of_le_length (Nat.div_mul_le_self _ _)

/-- Behind the complete pages, the pages of a stream are those of its tail and
the chunk. -/
theorem page_append_of_tail :
    page size (values ++ chunk) (values.length / size + index) = page size (tail size values ++ chunk) index := by
  unfold page
  rw [Nat.add_mul, ← List.drop_drop, drop_append_tail]

/-- The complete pages of the stream and the chunk, counted from the tail on. -/
theorem length_div_append (hsize : 0 < size) (values chunk : List Value) :
    (values ++ chunk).length / size = values.length / size + (tail size values ++ chunk).length / size := by
  have hdiv := Nat.div_add_mod values.length size
  have hlength : (values ++ chunk).length =
      (values.length % size + chunk.length) + size * (values.length / size) := by
    rw [List.length_append]
    omega
  rw [hlength, Nat.add_mul_div_left _ _ hsize, List.length_append, length_tail, Nat.add_comm]

theorem tail_append (hsize : 0 < size) :
    tail size (values ++ chunk) = tail size (tail size values ++ chunk) := by
  have hcount := length_div_append hsize values chunk
  calc tail size (values ++ chunk)
      = (values ++ chunk).drop (values.length / size * size + (tail size values ++ chunk).length / size * size) := by
        unfold tail at hcount ⊢
        rw [hcount, Nat.add_mul]
    _ = (tail size values ++ chunk).drop ((tail size values ++ chunk).length / size * size) := by
        rw [← List.drop_drop, drop_append_tail]

/-! ## The complete pages -/

/-- The complete pages, in order. -/
def complete (size : ℕ) (values : List Value) : List (List Value) :=
  (List.range (values.length / size)).map (page size values)

@[simp] theorem length_complete : (complete size values).length = values.length / size := by
  simp [complete]

theorem getElem?_complete : (complete size values)[index]? =
    if index < values.length / size then some (page size values index) else none := by
  unfold complete
  split
  · next hindex => simp [hindex]
  · next hindex => exact List.getElem?_eq_none (by simpa using hindex)

@[simp] theorem complete_of_lt (hlt : values.length < size) : complete size values = [] := by
  simp [complete, Nat.div_eq_of_lt hlt]

theorem tail_of_lt (hlt : values.length < size) : tail size values = values := by
  simp [tail, Nat.div_eq_of_lt hlt]

theorem length_of_mem_complete {block : List Value} (hblock : block ∈ complete size values) :
    block.length = size := by
  obtain ⟨index, hindex, rfl⟩ := List.mem_map.mp hblock
  rw [List.mem_range] at hindex
  exact length_page ((Nat.mul_le_mul_right size hindex).trans (Nat.div_mul_le_self _ _))

section

variable (hsize : 0 < size)

include hsize

/-- The pages of a stream that grows. -/
theorem complete_append :
    complete size (values ++ chunk) = complete size values ++ complete size (tail size values ++ chunk) := by
  unfold complete
  rw [length_div_append hsize, List.range_add, List.map_append, List.map_map]
  congr 1
  · refine List.map_congr_left fun index hindex => page_append_of_complete ?_
    rw [List.mem_range] at hindex
    exact (Nat.mul_le_mul_right size hindex).trans (Nat.div_mul_le_self _ _)
  · exact List.map_congr_left fun index _ => page_append_of_tail

theorem complete_of_length (hlength : values.length = size) : complete size values = [values] := by
  rw [complete, hlength, Nat.div_self hsize]
  simp [page, List.take_of_length_le hlength.le]

theorem tail_of_length (hlength : values.length = size) : tail size values = [] := by
  simp [tail, hlength, Nat.div_self hsize]

/-- The first page and the others. -/
theorem complete_eq_cons (hle : size ≤ values.length) :
    complete size values = values.take size :: complete size (values.drop size) := by
  have hlength : (values.take size).length = size := by simp [hle]
  have happend : complete size (values.take size ++ values.drop size) = _ := complete_append hsize
  rw [List.take_append_drop, complete_of_length hsize hlength, tail_of_length hsize hlength,
    List.nil_append, List.singleton_append] at happend
  exact happend

theorem tail_eq_tail_drop (hle : size ≤ values.length) :
    tail size values = tail size (values.drop size) := by
  have hlength : (values.take size).length = size := by simp [hle]
  have happend : tail size (values.take size ++ values.drop size) = _ := tail_append hsize
  rw [List.take_append_drop, tail_of_length hsize hlength, List.nil_append] at happend
  exact happend

end

/-- What is kept with every value is cut at the same places. -/
theorem complete_map {Other : Type} (f : Value → Other) :
    complete size (values.map f) = (complete size values).map (List.map f) := by
  simp [complete, page, Function.comp_def]

/-- The slices of a loop with the page size as its step, from an offset on. -/
theorem map_slices_eq_complete (offset : ℕ) :
    (List.range' offset ((values.length - offset) / size) size).map
      (fun start => (values.drop start).take size) = complete size (values.drop offset) := by
  refine List.ext_getElem? fun index => ?_
  rw [getElem?_complete, List.length_drop, List.getElem?_map]
  by_cases hindex : index < (values.length - offset) / size
  · simp [hindex, page, Nat.mul_comm]
  · simp [hindex]

/-- What follows these slices. -/
theorem drop_eq_tail (offset : ℕ) :
    values.drop (offset + (values.length - offset) / size * size) = tail size (values.drop offset) := by
  simp [tail]

variable {need position length frame : ℕ} {joined : List Value} {value : Value}

section

variable (hsize : 0 < size) (hneed : values.length + need = size) (hle : need ≤ chunk.length)

include hsize hneed hle

/-- A chunk that completes the page the stream ends in. -/
theorem complete_append_of_fill :
    complete size (values ++ chunk) = (values ++ chunk.take need) :: complete size (chunk.drop need) := by
  rw [complete_eq_cons hsize (by rw [List.length_append]; omega)]
  have hlt : values.length ≤ size := by omega
  rw [List.take_append, List.drop_append, List.take_of_length_le hlt, List.drop_of_length_le hlt,
    show size - values.length = need by omega, List.nil_append]

theorem tail_append_of_fill : tail size (values ++ chunk) = tail size (chunk.drop need) := by
  rw [tail_eq_tail_drop hsize (by rw [List.length_append]; omega)]
  have hlt : values.length ≤ size := by omega
  rw [List.drop_append, List.drop_of_length_le hlt, show size - values.length = need by omega, List.nil_append]

end

/-! ## The number of pages -/

theorem count_zero (hsize : 0 < size) : count size 0 = 0 := by
  unfold count
  exact Nat.div_eq_of_lt (by omega)

theorem count_mono {first second : ℕ} (h : first ≤ second) : count size first ≤ count size second := by
  unfold count
  exact Nat.div_le_div_right (by omega)

theorem le_count_mul (hsize : 0 < size) (length : ℕ) : length ≤ count size length * size := by
  have hdiv := Nat.div_add_mod' (length + size - 1) size
  have hmod := Nat.mod_lt (length + size - 1) hsize
  unfold count
  omega

theorem div_le_count (hsize : 0 < size) (length : ℕ) : length / size ≤ count size length := by
  unfold count
  exact Nat.div_le_div_right (by omega)

/-- A position of the stream is on one of its pages. -/
theorem div_lt_count (hsize : 0 < size) (h : position < length) :
    position / size < count size length := by
  rw [Nat.div_lt_iff_lt_mul hsize]
  exact h.trans_le (le_count_mul hsize length)

/-- The last position of a page is on the page that ends behind it. -/
theorem sub_div_of_last (hsize : 0 < size) (hlast : (length + 1) % size = 0) :
    size ≤ length + 1 ∧ (length + 1 - size) / size = length / size := by
  obtain ⟨pages, hpages⟩ := Nat.dvd_of_mod_eq_zero hlast
  cases pages with
  | zero => omega
  | succ pages =>
      rw [Nat.mul_succ] at hpages
      have hlength : length = size * pages + (size - 1) := by omega
      have hstart : length + 1 - size = size * pages := by omega
      refine ⟨by omega, ?_⟩
      rw [hstart, hlength, Nat.mul_div_cancel_left _ hsize, Nat.mul_add_div hsize,
        Nat.div_eq_of_lt (Nat.sub_lt hsize Nat.one_pos), Nat.add_zero]

/-! ## A store that holds a stream -/

variable {encode : List Value → Code}

/-- The frames hold the complete pages of the stream, and the buffer its
tail. -/
structure Holds (encode : List Value → Code) (size : ℕ) (codes : ℕ → Code) (raw : ℕ → Value)
    (frames : List ℕ) (values : List Value) : Prop where
  complete : ∀ {index frame : ℕ}, frames[index]? = some frame → (index + 1) * size ≤ values.length →
    codes frame = encode (page size values index)
  buffered : Cells.read raw 0 (values.length % size) = tail size values

variable {codes other : ℕ → Code} {raw buffer : ℕ → Value} {frames : List ℕ}

/-- Nothing is held in no frame. -/
theorem Holds.nil (hsize : 0 < size) (codes : ℕ → Code) (raw : ℕ → Value) (frames : List ℕ) :
    Holds encode size codes raw frames [] where
  complete _ hcomplete := by
    rw [List.length_nil, Nat.succ_mul] at hcomplete
    omega
  buffered := by
    rw [List.length_nil, Nat.zero_mod, Cells.read_zero, tail, List.drop_nil]

section

variable (hholds : Holds encode size codes raw frames values)

include hholds

/-- Only the frames of the stream and the front of the buffer matter. -/
theorem Holds.congr (hcodes : ∀ frame ∈ frames, other frame = codes frame)
    (hraw : ∀ offset < size, buffer offset = raw offset) (hsize : 0 < size) :
    Holds encode size other buffer frames values where
  complete hframe hcomplete := by
    rw [hcodes _ (List.mem_of_getElem? hframe)]
    exact hholds.complete hframe hcomplete
  buffered := by
    rw [← hholds.buffered]
    apply Cells.read_congr
    intro offset _ hoffset
    have hmod := Nat.mod_lt values.length hsize
    exact hraw offset (by omega)

/-- More frames are taken. -/
theorem Holds.extend (hsize : 0 < size) (hframes : values.length / size ≤ frames.length) (more : List ℕ) :
    Holds encode size codes raw (frames ++ more) values where
  complete {index frame} hframe hcomplete := by
    have hindex : index + 1 ≤ values.length / size := (Nat.le_div_iff_mul_le hsize).mpr hcomplete
    rw [List.getElem?_append_left (by omega)] at hframe
    exact hholds.complete hframe hcomplete
  buffered := hholds.buffered

/-- A chunk is added to the stream.  `joined` is the tail and the chunk. -/
theorem Holds.append (hsize : 0 < size) (hjoined : joined = tail size values ++ chunk)
    (hkeep : ∀ index frame, index < values.length / size → frames[index]? = some frame →
      other frame = codes frame) (hencode : ∀ index frame, index < joined.length / size →
      frames[values.length / size + index]? = some frame →
      other frame = encode (page size joined index))
    (hrest : Cells.read buffer 0 (joined.length % size) = tail size joined) :
    Holds encode size other buffer frames (values ++ chunk) where
  complete {index frame} hframe hcomplete := by
    have hindex : index + 1 ≤ (values ++ chunk).length / size :=
      (Nat.le_div_iff_mul_le hsize).mpr hcomplete
    by_cases hold : index < values.length / size
    · -- the page was complete before
      have hpage : (index + 1) * size ≤ values.length := (Nat.le_div_iff_mul_le hsize).mp hold
      rw [hkeep index frame hold hframe, hholds.complete hframe hpage, page_append_of_complete hpage]
    · obtain ⟨more, rfl⟩ := Nat.exists_eq_add_of_le (Nat.not_lt.mp hold)
      rw [length_div_append hsize values chunk, ← hjoined] at hindex
      rw [hencode more frame (by omega) hframe, page_append_of_tail, hjoined]
  buffered := by
    have hlength : (values ++ chunk).length % size = joined.length % size := by
      rw [hjoined, List.length_append, List.length_append, length_tail, Nat.mod_add_mod]
    rw [hlength, hrest, tail_append hsize, hjoined]

end

/-! ## Writing pages -/

/-- The values of a list, page by page, to frames, one after the other. -/
def encodeAll (encode : List Value → Code) (size : ℕ) (values : List Value) (frames : List ℕ)
    (codes : ℕ → Code) : ℕ → Code :=
  frames.zipIdx.foldl
    (fun codes entry => Function.update codes entry.1 (encode (page size values entry.2))) codes

private theorem foldl_zipIdx_of_not_mem (content : ℕ → Code) {frames : List ℕ} (start : ℕ)
    (codes : ℕ → Code) (hframe : frame ∉ frames) :
    (frames.zipIdx start).foldl
      (fun codes entry => Function.update codes entry.1 (content entry.2)) codes frame = codes frame := by
  induction frames generalizing start codes with
  | nil => rfl
  | cons first rest ih =>
      rw [List.mem_cons, not_or] at hframe
      rw [List.zipIdx_cons, List.foldl_cons, ih _ _ hframe.2, Function.update_of_ne hframe.1]

private theorem foldl_zipIdx_of_getElem? (content : ℕ → Code) {frames : List ℕ} (start : ℕ)
    (codes : ℕ → Code) (hnodup : frames.Nodup) {index : ℕ} (hframe : frames[index]? = some frame) :
    (frames.zipIdx start).foldl
      (fun codes entry => Function.update codes entry.1 (content entry.2)) codes frame = content (start + index) := by
  induction frames generalizing start codes index with
  | nil => exact nomatch hframe
  | cons first rest ih =>
      rw [List.nodup_cons] at hnodup
      rw [List.zipIdx_cons, List.foldl_cons]
      cases index with
      | zero =>
          obtain rfl := Option.some.inj hframe
          rw [foldl_zipIdx_of_not_mem content _ _ hnodup.1, Function.update_self, Nat.add_zero]
      | succ index =>
          rw [List.getElem?_cons_succ] at hframe
          rw [ih (start + 1) _ hnodup.2 hframe, Nat.add_right_comm, Nat.add_assoc]

theorem encodeAll_of_not_mem (hframe : frame ∉ frames) :
    encodeAll encode size values frames codes frame = codes frame :=
  foldl_zipIdx_of_not_mem (fun index => encode (page size values index)) 0 codes hframe

theorem encodeAll_of_getElem? (hnodup : frames.Nodup) (hframe : frames[index]? = some frame) :
    encodeAll encode size values frames codes frame = encode (page size values index) := by
  have hcontent := foldl_zipIdx_of_getElem? (fun index => encode (page size values index)) 0 codes hnodup hframe
  rw [Nat.zero_add] at hcontent
  exact hcontent

theorem page_take_of_complete {stop : ℕ} (hindex : index < stop) :
    page size (values.take (stop * size)) index = page size values index := by
  have hle : (index + 1) * size ≤ stop * size := Nat.mul_le_mul_right size hindex
  rw [Nat.succ_mul] at hle
  unfold page
  rw [List.drop_take, List.take_take, Nat.min_eq_left (by omega)]

/-! ## Adding a chunk and adding one value -/

section

variable (hholds : Holds encode size codes raw frames values) (hsize : 0 < size)

include hholds hsize

/-- The complete pages of the join go to the next frames, and the rest of it to
the buffer. -/
theorem Holds.append_chunk (hnodup : frames.Nodup) (hjoined : joined = tail size values ++ chunk) {next : List ℕ}
    (hnext : next = (frames.drop (values.length / size)).take (joined.length / size)) :
    Holds encode size (encodeAll encode size (joined.take (joined.length / size * size)) next codes)
      (Cells.write raw 0 (tail size joined)) frames (values ++ chunk) := by
  subst hnext
  have hnodup' : ((frames.drop (values.length / size)).take (joined.length / size)).Nodup :=
    (hnodup.sublist (List.drop_sublist _ _)).sublist (List.take_sublist _ _)
  refine hholds.append hsize hjoined (fun index frame hindex hframe => ?_) (fun index frame hindex hframe => ?_) ?_
  · -- a frame of a page before the tail
    apply encodeAll_of_not_mem
    intro hmem
    have htaken : frame ∈ frames.take (values.length / size) := by
      rw [List.mem_iff_getElem?]
      exact ⟨index, by rw [List.getElem?_take_of_lt hindex, hframe]⟩
    exact List.disjoint_take_drop hnodup le_rfl htaken (List.mem_of_mem_take hmem)
  · have hthere : ((frames.drop (values.length / size)).take (joined.length / size))[index]? = some frame := by
      rw [List.getElem?_take_of_lt hindex, List.getElem?_drop, hframe]
    rw [encodeAll_of_getElem? hnodup' hthere, page_take_of_complete hindex]
  · have hread : Cells.read (Cells.write raw 0 (tail size joined)) 0 (tail size joined).length =
        tail size joined := Cells.read_write_self
    rw [length_tail] at hread
    exact hread

/-- A value that completes a page: the page is encoded, and the buffer stays. -/
theorem Holds.append_last (hnodup : frames.Nodup) (hlast : (values.length + 1) % size = 0)
    (hframe : frames[values.length / size]? = some frame) :
    Holds encode size (Function.update codes frame (encode (Cells.read raw 0 (size - 1) ++ [value]))) raw frames
      (values ++ [value]) := by
  have hmod : values.length % size + 1 = size := by
    have hlt := Nat.mod_lt values.length hsize
    have hsum : (values.length % size + 1) % size = 0 := by rw [Nat.mod_add_mod, hlast]
    by_contra hne
    rw [Nat.mod_eq_of_lt (by omega)] at hsum
    omega
  have hread : Cells.read raw 0 (size - 1) = tail size values := by
    have hfront : size - 1 = values.length % size := by omega
    rw [hfront, hholds.buffered]
  have hlength : (tail size values ++ [value]).length = size := by
    rw [List.length_append, length_tail, List.length_singleton, hmod]
  refine hholds.append hsize rfl (fun index old hindex hold => ?_) (fun index new hindex hnew => ?_) ?_
  · have hne : old ≠ frame := by
      rintro rfl
      have hsame := (List.getElem?_inj (List.getElem?_eq_some_iff.mp hold).1 hnodup).mp (hold.trans hframe.symm)
      omega
    exact Function.update_of_ne hne _ _
  · rw [hlength, Nat.div_self hsize, Nat.lt_one_iff] at hindex
    subst hindex
    rw [Nat.add_zero, hframe] at hnew
    obtain rfl := Option.some.inj hnew
    rw [Function.update_self, hread]
    unfold page
    rw [Nat.zero_mul, List.drop_zero, List.take_of_length_le hlength.le]
  · conv_rhs => rw [tail, hlength, Nat.div_self hsize, Nat.one_mul, List.drop_of_length_le hlength.le]
    rw [hlength, Nat.mod_self, Cells.read_zero]

/-- A value that does not complete a page goes to the buffer. -/
theorem Holds.append_buffered (hlast : (values.length + 1) % size ≠ 0) :
    Holds encode size codes (Function.update raw (values.length % size) value) frames (values ++ [value]) := by
  have hlt : values.length % size + 1 < size := by
    have hmod := Nat.mod_lt values.length hsize
    by_contra hge
    have hsum : values.length % size + 1 = size := by omega
    apply hlast
    rw [← Nat.mod_add_mod, hsum, Nat.mod_self]
  have hlength : (tail size values ++ [value]).length = values.length % size + 1 := by
    rw [List.length_append, length_tail, List.length_singleton]
  refine hholds.append hsize rfl (fun _ _ _ _ => rfl) (fun index _ hindex _ => ?_) ?_
  · rw [hlength, Nat.div_eq_of_lt hlt] at hindex
    omega
  · rw [hlength, Nat.mod_eq_of_lt hlt, Cells.read_update_append, hholds.buffered]
    conv_rhs => rw [tail, hlength, Nat.div_eq_of_lt hlt, Nat.zero_mul, List.drop_zero]

end

/-! ## Reading -/

/-- A value behind the last complete page is in the buffer. -/
theorem Holds.raw_eq (hholds : Holds encode size codes raw frames values) (hsize : 0 < size)
    (hvalue : values[position]? = some value) (hbehind : values.length / size * size ≤ position) :
    raw (position % size) = value := by
  obtain ⟨offset, rfl⟩ := Nat.exists_eq_add_of_le hbehind
  have hlt := (List.getElem?_eq_some_iff.mp hvalue).1
  have hdiv := Nat.div_add_mod' values.length size
  have hoffset : offset < values.length % size := by omega
  have hmod := Nat.mod_lt values.length hsize
  have hread := congrArg (fun list : List Value => list[offset]?) hholds.buffered
  simp only [Cells.getElem?_read, if_pos hoffset, Nat.zero_add, getElem?_tail, hvalue] at hread
  rw [Nat.mul_add_mod', Nat.mod_eq_of_lt (by omega)]
  exact Option.some.inj hread

end Pages
