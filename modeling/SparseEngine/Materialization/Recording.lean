import SparseEngine.Materialization.Model
import SparseEngine.Lib.Pages

/-!
# The blocks of a recorded stream

A request records a stream of tokens and slots, in calls of any lengths.  What
the calls keep is a function of the stream alone: the pending blocks are
`blocksOf` its complete pages, chained from the block the request hit, and the
leftover is its tail (`Recorded`).

One call on a recorded stream records the longer stream
(`recordFrozen_recorded`).  The page the stream ends in is topped up first, so
the completed blocks of the call are the complete pages of the tail and the
new chunk (`Pages.complete_append_of_fill`), whatever the offset the whole
blocks are cut from.  A run of calls then follows by induction, and calls for
other sequences change nothing.
-/

/-- A block as it is recorded, without its payload. -/
structure RecordedBlock (Id Slot : Type) where
  stableBlockId : Id
  parentBlockId : Option Id
  logicalBlockIdx : ℤ
  slots : List Slot
  tokenIds : List ℤ

variable {Id Slot Payload : Type}

/-- A pending block without its payload. -/
def PendingPrefixBlock.recorded (block : PendingPrefixBlock Id Slot Payload) : RecordedBlock Id Slot :=
  ⟨block.stableBlockId, block.parentBlockId, block.logicalBlockIdx, block.slots, block.tokenIds⟩

/-- The chain of blocks below a parent. -/
def blocksOf (hash : List ℤ → Option Id → Id) :
    Option Id → ℤ → List (List ℤ × List Slot) → List (RecordedBlock Id Slot)
  | _, _, [] => []
  | parent, index, (tokens, slots) :: rest =>
      ⟨hash tokens parent, parent, index, slots, tokens⟩ ::
        blocksOf hash (some (hash tokens parent)) (index + 1) rest

/-- The last block of the chain, or the parent of an empty one. -/
def lastBlock (hash : List ℤ → Option Id → Id) : Option Id → List (List ℤ × List Slot) → Option Id
  | parent, [] => parent
  | parent, (tokens, _) :: rest => lastBlock hash (some (hash tokens parent)) rest

/-- Tokens and slots apart. -/
def cut (stream : List (ℤ × Slot)) : List ℤ × List Slot := (stream.map Prod.fst, stream.map Prod.snd)

/-- The complete pages of a stream, tokens and slots apart. -/
def pagesOf (blockSize : ℕ) (stream : List (ℤ × Slot)) : List (List ℤ × List Slot) :=
  (Pages.complete blockSize stream).map cut

section

variable {hash : List ℤ → Option Id → Id} {parent : Option Id} {index : ℤ}
  {first second : List (List ℤ × List Slot)}

theorem lastBlock_append :
    lastBlock hash parent (first ++ second) = lastBlock hash (lastBlock hash parent first) second := by
  induction first generalizing parent with
  | nil => rfl
  | cons block rest ih => exact ih

theorem blocksOf_append : blocksOf hash parent index (first ++ second) =
    blocksOf hash parent index first ++
      blocksOf hash (lastBlock hash parent first) (index + first.length) second := by
  induction first generalizing parent index with
  | nil => simp [blocksOf, lastBlock]
  | cons block rest ih =>
      have hindex : index + 1 + (rest.length : ℤ) = index + ((block :: rest).length : ℕ) := by
        rw [List.length_cons]
        omega
      rw [List.cons_append, blocksOf, blocksOf, ih, hindex, List.cons_append, lastBlock]

@[simp] theorem length_blocksOf : (blocksOf hash parent index first).length = first.length := by
  induction first generalizing parent index with
  | nil => rfl
  | cons block rest ih => simp [blocksOf, ih]

end

/-! ## The chain of a stream -/

section

open RadixPrefixIndex

variable {hash : List ℤ → Option Id → Id} {blockSize : ℕ} {stream : List (ℤ × Slot)}

theorem length_pagesOf : (pagesOf blockSize stream).length = stream.length / blockSize := by
  simp [pagesOf]

/-- The ids are those of `block_ids_for_tokens`, below the parent. -/
theorem map_stableBlockId_blocksOf (hsize : 0 < blockSize) (parent : Option Id) (index : ℤ) :
    (blocksOf hash parent index (pagesOf blockSize stream)).map (·.stableBlockId) =
      blockIdsLoop hash blockSize (stream.length / blockSize) (stream.map Prod.fst) parent := by
  induction hcount : stream.length / blockSize generalizing stream parent index with
  | zero =>
      rw [pagesOf, Pages.complete, hcount]
      rfl
  | succ count ih =>
      have hle : blockSize ≤ stream.length := by
        by_contra hlt
        rw [Nat.div_eq_of_lt (not_le.mp hlt)] at hcount
        cases hcount
      have hrest : (stream.drop blockSize).length / blockSize = count := by
        rw [List.length_drop]
        rw [Nat.div_eq_sub_div hsize hle] at hcount
        omega
      have hpages : pagesOf blockSize stream =
          cut (stream.take blockSize) :: pagesOf blockSize (stream.drop blockSize) := by
        rw [pagesOf, Pages.complete_eq_cons hsize hle]
        rfl
      rw [hpages, cut, blocksOf, List.map_cons, ih _ _ hrest, blockIdsLoop, List.map_take, List.map_drop]

/-- The blocks of the chain, one by one. -/
theorem getElem?_blocksOf {parent : Option Id} {index : ℤ} {pages : List (List ℤ × List Slot)} {k : ℕ}
    {block : RecordedBlock Id Slot} (hblock : (blocksOf hash parent index pages)[k]? = some block) :
    pages[k]? = some (block.tokenIds, block.slots) ∧ block.logicalBlockIdx = index + k ∧
      block.stableBlockId = hash block.tokenIds block.parentBlockId ∧
      block.parentBlockId = if k = 0 then parent
        else ((blocksOf hash parent index pages).map (·.stableBlockId))[k - 1]? := by
  induction pages generalizing parent index k with
  | nil => exact nomatch hblock
  | cons page rest ih =>
      cases k with
      | zero =>
          obtain rfl := Option.some.inj hblock
          simp
      | succ k =>
          rw [blocksOf, List.getElem?_cons_succ] at hblock
          obtain ⟨hpage, hindex, hid, hparent⟩ := ih hblock
          refine ⟨hpage, by rw [hindex, Nat.cast_succ]; omega, hid, ?_⟩
          rw [hparent, if_neg (Nat.succ_ne_zero k), Nat.succ_sub_one, blocksOf, List.map_cons]
          cases k with
          | zero => rfl
          | succ k => rw [if_neg (Nat.succ_ne_zero k), Nat.succ_sub_one, List.getElem?_cons_succ]

/-- Only the tokens of the blocks are read. -/
theorem blockIdsLoop_append {count : ℕ} {front : List ℤ} (hcount : count * blockSize ≤ front.length)
    (tokens : List ℤ) (parent : Option Id) :
    blockIdsLoop hash blockSize count (front ++ tokens) parent = blockIdsLoop hash blockSize count front parent := by
  induction count generalizing front parent with
  | zero => rfl
  | succ count ih =>
      rw [Nat.succ_mul] at hcount
      rw [blockIdsLoop, blockIdsLoop, List.take_append_of_le_length (by omega),
        List.drop_append_of_le_length (by omega), ih (by rw [List.length_drop]; omega)]

/-- A block of tokens in front of the others. -/
theorem blockIdsLoop_add (first second : ℕ) (tokenIds : List ℤ) (parent : Option Id) :
    blockIdsLoop hash blockSize (first + second) tokenIds parent =
      blockIdsLoop hash blockSize first tokenIds parent ++
        blockIdsLoop hash blockSize second (tokenIds.drop (first * blockSize))
          ((blockIdsLoop hash blockSize first tokenIds parent).getLast?.or parent) := by
  induction first generalizing tokenIds parent with
  | zero => simp [blockIdsLoop]
  | succ first ih =>
      rw [Nat.succ_add, blockIdsLoop, blockIdsLoop, ih, List.cons_append, List.drop_drop, Nat.succ_mul,
        Nat.add_comm blockSize]
      congr 2
      cases blockIdsLoop hash blockSize first (tokenIds.drop blockSize)
          (some (hash (tokenIds.take blockSize) parent)) with
      | nil => rfl
      | cons id ids => simp [List.getLast?_cons]

end

/-! ## One call -/

namespace PrefixRecords

open Routine

variable {hash : List ℤ → Option Id → Id} {blockSize : ℕ}
  {makePayloads : List (List Slot) → Except PyError (List Payload)} {seqId : ℤ}
  {state : PrefixRuntimeState Id Slot} {records : PrefixRecords Id Slot Payload}

/-- The hook makes a payload for each of some whole blocks. -/
def Makes (blockSize : ℕ) (makePayloads : List (List Slot) → Except PyError (List Payload)) : Prop :=
  ∀ blocks, (∀ slots ∈ blocks, slots.length = blockSize) →
    ∃ payloads, makePayloads blocks = .ok payloads ∧ payloads.length = blocks.length

/-- The records of a sequence: its runtime state, and its pending blocks up to
their payloads. -/
def Holds (records : PrefixRecords Id Slot Payload) (seqId : ℤ) (state : PrefixRuntimeState Id Slot)
    (blocks : List (RecordedBlock Id Slot)) : Prop :=
  records.prefixRuntimeStates.get? seqId = some state ∧
    (records.pendingBlocks seqId).map PendingPrefixBlock.recorded = blocks

variable {old : PrefixRuntimeState Id Slot} {blocks : List (RecordedBlock Id Slot)}
  {completed : List (List ℤ × List Slot)} {offset : ℕ}

theorem Holds.setState (h : records.Holds seqId old blocks) (state : PrefixRuntimeState Id Slot) :
    (records.setState seqId state).Holds seqId state blocks :=
  ⟨Dict.get?_set_self _ _ _, h.2⟩

theorem Holds.append (h : records.Holds seqId state blocks) (block : PendingPrefixBlock Id Slot Payload) :
    (records.setBlocks seqId (records.pendingBlocks seqId ++ [block])).Holds seqId state
      (blocks ++ [block.recorded]) := by
  refine ⟨h.1, ?_⟩
  rw [pendingBlocks, setBlocks, Dict.get?_set_self, Option.getD_some, List.map_append, h.2]
  rfl

/-- **The loop over the completed blocks.** -/
theorem appendBlocks_spec {payloads : List Payload} (h : records.Holds seqId state blocks) :
    wpe (appendBlocks hash seqId state completed payloads)
      (fun _ next => next.Holds seqId
        { state with
          parentBlockId := lastBlock hash state.parentBlockId completed
          nextLogicalBlockIdx := state.nextLogicalBlockIdx + completed.length }
        (blocks ++ blocksOf hash state.parentBlockId state.nextLogicalBlockIdx completed))
      (fun _ => payloads.length ≠ completed.length) records := by
  induction completed generalizing payloads state blocks records with
  | nil =>
      cases payloads with
      | nil => simpa [appendBlocks, lastBlock, blocksOf, wpe_pure] using h
      | cons payload rest => simp [appendBlocks, wpe_raise]
  | cons block rest ih =>
      obtain ⟨blockTokens, blockSlots⟩ := block
      cases payloads with
      | nil => simp [appendBlocks, wpe_raise]
      | cons payload payloads =>
          rw [appendBlocks, wpe_set, wpe_set]
          refine wpe_imp (ih ((h.append _).setState _)) (fun _ next hnext => ?_) fun _ hne => ?_
          · have hindex : state.nextLogicalBlockIdx + 1 + (rest.length : ℤ) =
                state.nextLogicalBlockIdx + (((blockTokens, blockSlots) :: rest).length : ℕ) := by
              rw [List.length_cons]
              omega
            rw [List.append_assoc, hindex] at hnext
            exact hnext
          · rw [List.length_cons, List.length_cons]
            omega

theorem pyRange_eq (hsize : 0 < blockSize) (offset count : ℕ) :
    pyRange offset (offset + count * blockSize) blockSize = List.range' offset count blockSize := by
  have hcount : (offset + count * blockSize - offset + blockSize - 1) / blockSize = count := by
    rw [Nat.add_sub_cancel_left, Nat.add_sub_assoc hsize, Nat.mul_comm,
      Nat.mul_add_div hsize, Nat.div_eq_of_lt (by omega), Nat.add_zero]
  rw [pyRange, hcount]

/-- What a call keeps of its tokens. -/
theorem leftover_eq {α : Type} {values : List α} :
    (if offset + (values.length - offset) / blockSize * blockSize < values.length then
      values.drop (offset + (values.length - offset) / blockSize * blockSize) else []) =
      Pages.tail blockSize (values.drop offset) := by
  rw [← Pages.drop_eq_tail]
  split
  · rfl
  · next hle => rw [List.drop_of_length_le (not_lt.mp hle)]

/-- **The rest of a call** records the complete pages of the rest of the
chunk. -/
theorem recordFrom_spec (hsize : 0 < blockSize) {chunk : List (ℤ × Slot)} (h : records.Holds seqId old blocks)
    (hcompleted : ∀ block ∈ completed, block.2.length = blockSize) :
    wpe (recordFrom hash blockSize makePayloads seqId state (chunk.map Prod.fst) (chunk.map Prod.snd)
        offset completed)
      (fun _ next => ∃ slots, slots.flatten = (Pages.tail blockSize (chunk.drop offset)).map Prod.snd ∧
        next.Holds seqId
          ⟨lastBlock hash state.parentBlockId (completed ++ pagesOf blockSize (chunk.drop offset)),
            state.nextLogicalBlockIdx + (completed ++ pagesOf blockSize (chunk.drop offset)).length,
            (Pages.tail blockSize (chunk.drop offset)).map Prod.fst, slots⟩
          (blocks ++ blocksOf hash state.parentBlockId state.nextLogicalBlockIdx
            (completed ++ pagesOf blockSize (chunk.drop offset))))
      (fun _ => ¬ Makes blockSize makePayloads) records := by
  unfold recordFrom
  have hpages : (pyRange offset (offset + ((chunk.map Prod.fst).length - offset) / blockSize * blockSize)
      blockSize).map (fun start => (((chunk.map Prod.fst).drop start).take blockSize,
        ((chunk.map Prod.snd).drop start).take blockSize)) = pagesOf blockSize (chunk.drop offset) := by
    rw [pyRange_eq hsize, pagesOf, ← Pages.map_slices_eq_complete, List.map_map, List.length_map]
    refine List.map_congr_left fun start _ => ?_
    simp [cut, List.map_take, List.map_drop]
  dsimp only
  rw [hpages]
  generalize hall : completed ++ pagesOf blockSize (chunk.drop offset) = all
  -- the leftover tokens and slots are the tail of the chunk
  obtain ⟨slots, hslots, hstate⟩ : ∃ slots : List (List Slot),
      slots.flatten = (Pages.tail blockSize (chunk.drop offset)).map Prod.snd ∧
      (if offset + ((chunk.map Prod.fst).length - offset) / blockSize * blockSize < (chunk.map Prod.fst).length then
        { state with
          pendingTokens := (chunk.map Prod.fst).drop
            (offset + ((chunk.map Prod.fst).length - offset) / blockSize * blockSize)
          pendingSlots := [(chunk.map Prod.snd).drop
            (offset + ((chunk.map Prod.fst).length - offset) / blockSize * blockSize)] }
        else { state with pendingTokens := [], pendingSlots := [] } : PrefixRuntimeState Id Slot) =
      { state with
        pendingTokens := (Pages.tail blockSize (chunk.drop offset)).map Prod.fst
        pendingSlots := slots } := by
    rw [List.length_map, ← leftover_eq]
    split
    · exact ⟨_, by rw [List.flatten_singleton, List.map_drop], by rw [List.map_drop]⟩
    · exact ⟨[], rfl, rfl⟩
  rw [hstate, wpe_set]
  have hheld := h.setState { state with
    pendingTokens := (Pages.tail blockSize (chunk.drop offset)).map Prod.fst, pendingSlots := slots }
  by_cases hnil : all = []
  · rw [if_pos hnil, wpe_pure, hnil]
    refine ⟨slots, hslots, ?_⟩
    simpa [lastBlock, blocksOf] using hheld
  · rw [if_neg hnil, wpe_bind]
    have hwhole : ∀ slots ∈ all.map Prod.snd, slots.length = blockSize := by
      intro slots hmem
      obtain ⟨block, hblock, rfl⟩ := List.mem_map.mp hmem
      rw [← hall] at hblock
      rcases List.mem_append.mp hblock with hblock | hblock
      · exact hcompleted block hblock
      · obtain ⟨page, hpage, rfl⟩ := List.mem_map.mp hblock
        rw [cut, List.length_map, Pages.length_of_mem_complete hpage]
    rcases hmade : makePayloads (all.map Prod.snd) with error | payloads
    · intro hmakes
      obtain ⟨payloads, hok, -⟩ := hmakes _ hwhole
      rw [hmade] at hok
      exact nomatch hok
    · rw [wpe_ok]
      refine wpe_imp (appendBlocks_spec hheld) (fun _ next hnext => ⟨slots, hslots, hnext⟩) ?_
      intro _ hne hmakes
      obtain ⟨others, hok, hlength⟩ := hmakes _ hwhole
      rw [hmade] at hok
      obtain rfl := Except.ok.inj hok
      exact hne (by rw [hlength, List.length_map])

/-! ## A stream -/

/-- What is kept of a recorded stream. -/
structure Recorded (hash : List ℤ → Option Id → Id) (blockSize : ℕ) (seq : RecordedSequence Id)
    (stream : List (ℤ × Slot)) (records : PrefixRecords Id Slot Payload) : Prop where
  parent : (records.runtimeState seq).parentBlockId =
    lastBlock hash seq.prefixCacheHitLastBlockId (pagesOf blockSize stream)
  index : (records.runtimeState seq).nextLogicalBlockIdx =
    seq.prefixCacheHitBlockCount + (pagesOf blockSize stream).length
  tokens : (records.runtimeState seq).pendingTokens = (Pages.tail blockSize stream).map Prod.fst
  slots : (records.runtimeState seq).pendingSlots.flatten = (Pages.tail blockSize stream).map Prod.snd
  blocks : (records.pendingBlocks seq.seqId).map PendingPrefixBlock.recorded =
    blocksOf hash seq.prefixCacheHitLastBlockId seq.prefixCacheHitBlockCount (pagesOf blockSize stream)

variable {seq : RecordedSequence Id} {stream chunk : List (ℤ × Slot)}

theorem runtimeState_of_get? (h : records.prefixRuntimeStates.get? seq.seqId = some state) :
    records.runtimeState seq = state := by
  rw [runtimeState, h]

/-- A sequence of which nothing has been recorded. -/
theorem recorded_nil (hstate : records.prefixRuntimeStates.get? seq.seqId = none)
    (hblocks : records.pendingPrefixBlocks.get? seq.seqId = none) :
    Recorded hash blockSize seq [] records := by
  constructor <;> simp [runtimeState, pendingBlocks, hstate, hblocks, pagesOf, Pages.complete, Pages.tail,
    lastBlock, blocksOf]

theorem pagesOf_append (hsize : 0 < blockSize) : pagesOf blockSize (stream ++ chunk) =
    pagesOf blockSize stream ++ pagesOf blockSize (Pages.tail blockSize stream ++ chunk) := by
  rw [pagesOf, Pages.complete_append hsize, List.map_append]
  rfl

/-- The pages of the tail and a chunk, recorded behind a stream. -/
theorem Recorded.extend (h : Recorded hash blockSize seq stream records) (hsize : 0 < blockSize)
    {next : PrefixRecords Id Slot Payload} {slots : List (List Slot)}
    (hslots : slots.flatten = (Pages.tail blockSize (Pages.tail blockSize stream ++ chunk)).map Prod.snd)
    (hnext : next.Holds seq.seqId
      ⟨lastBlock hash (records.runtimeState seq).parentBlockId
          (pagesOf blockSize (Pages.tail blockSize stream ++ chunk)),
        (records.runtimeState seq).nextLogicalBlockIdx +
          (pagesOf blockSize (Pages.tail blockSize stream ++ chunk)).length,
        (Pages.tail blockSize (Pages.tail blockSize stream ++ chunk)).map Prod.fst, slots⟩
      ((records.pendingBlocks seq.seqId).map PendingPrefixBlock.recorded ++
        blocksOf hash (records.runtimeState seq).parentBlockId (records.runtimeState seq).nextLogicalBlockIdx
          (pagesOf blockSize (Pages.tail blockSize stream ++ chunk)))) :
    Recorded hash blockSize seq (stream ++ chunk) next := by
  obtain ⟨hstate, hblocks⟩ := hnext
  have hruntime := runtimeState_of_get? hstate
  have hpages : pagesOf blockSize (stream ++ chunk) = _ := pagesOf_append hsize
  have htail : Pages.tail blockSize (stream ++ chunk) = _ := Pages.tail_append hsize
  constructor
  · rw [hruntime, hpages, lastBlock_append, h.parent]
  · rw [hruntime, hpages, List.length_append, h.index]
    dsimp only
    omega
  · rw [hruntime, htail]
  · rw [hruntime, htail]
    exact hslots
  · rw [hblocks, h.blocks, h.parent, h.index, hpages, blocksOf_append]

variable (makePayloads chunk) in
/-- **One call** records the chunk behind the stream. -/
theorem recordFrozen_recorded (hsize : 0 < blockSize) (h : Recorded hash blockSize seq stream records) :
    wpe (recordFrozenPrefixMaterialization hash blockSize makePayloads seq (chunk.map Prod.fst) (chunk.map Prod.snd))
      (fun _ next => Recorded hash blockSize seq (stream ++ chunk) next)
      (fun _ => ¬ Makes blockSize makePayloads) records := by
  unfold recordFrozenPrefixMaterialization
  rw [wpe_get]
  dsimp only
  rw [wpe_set, wpe_set]
  have hheld : ((records.setState seq.seqId (records.runtimeState seq)).setBlocks seq.seqId
      (records.pendingBlocks seq.seqId)).Holds seq.seqId (records.runtimeState seq)
      ((records.pendingBlocks seq.seqId).map PendingPrefixBlock.recorded) := by
    refine ⟨Dict.get?_set_self _ _ _, ?_⟩
    rw [pendingBlocks, setBlocks, Dict.get?_set_self]
    rfl
  have htail := Nat.mod_lt stream.length hsize
  have htokens : (records.runtimeState seq).pendingTokens.length = stream.length % blockSize := by
    rw [h.tokens, List.length_map, Pages.length_tail]
  rw [wpe_ite]
  refine ⟨fun hnil => ?_, fun hne => ?_⟩
  · -- the stream ends with a complete page
    have hempty : Pages.tail blockSize stream = [] := by
      rw [h.tokens] at hnil
      exact List.map_eq_nil_iff.mp hnil
    refine wpe_mono (recordFrom_spec hsize hheld (by simp)) fun _ next hnext => ?_
    rw [List.drop_zero, List.nil_append] at hnext
    obtain ⟨slots, hslots, hnext⟩ := hnext
    have hchunk : chunk = Pages.tail blockSize stream ++ chunk := by rw [hempty, List.nil_append]
    rw [hchunk] at hslots hnext
    exact h.extend hsize hslots hnext
  · rw [h.tokens, List.length_append, List.length_map, Pages.length_tail, List.length_take,
      List.length_map, Nat.min_eq_left (Nat.min_le_right _ _), ← List.map_take, ← List.map_append]
    by_cases hfill : stream.length % blockSize + min (blockSize - stream.length % blockSize) chunk.length = blockSize
    · -- the chunk completes the page the stream ends in
      rw [if_pos hfill]
      have htake : min (blockSize - stream.length % blockSize) chunk.length =
          blockSize - stream.length % blockSize := by omega
      have hneed : (Pages.tail blockSize stream).length + (blockSize - stream.length % blockSize) =
          blockSize := by
        rw [Pages.length_tail]
        omega
      have hle : blockSize - stream.length % blockSize ≤ chunk.length := by omega
      rw [htake, ← List.map_take, List.flatten_concat, h.slots, ← List.map_append]
      have hpages : pagesOf blockSize (Pages.tail blockSize stream ++ chunk) =
          cut (Pages.tail blockSize stream ++ chunk.take (blockSize - stream.length % blockSize)) ::
            pagesOf blockSize (chunk.drop (blockSize - stream.length % blockSize)) := by
        rw [pagesOf, Pages.complete_append_of_fill hsize hneed hle]
        rfl
      have hrest := Pages.tail_append_of_fill hsize hneed hle
      refine wpe_mono (recordFrom_spec hsize hheld ?_) fun _ next hnext => ?_
      · simp only [List.mem_singleton, forall_eq]
        rw [List.length_map, List.length_append, List.length_take_of_le hle, hneed]
      · obtain ⟨slots, hslots, hnext⟩ := hnext
        rw [← hrest] at hslots hnext
        rw [List.singleton_append, ← cut, ← hpages] at hnext
        exact h.extend hsize hslots hnext
    · -- the chunk ends in the page the stream ends in
      rw [if_neg hfill, wpe_write]
      have htake : min (blockSize - stream.length % blockSize) chunk.length = chunk.length := by omega
      have hlt : (Pages.tail blockSize stream ++ chunk).length < blockSize := by
        rw [List.length_append, Pages.length_tail]
        omega
      rw [htake, List.take_length, List.take_of_length_le (by rw [List.length_map])]
      have hwhole := hheld.setState ⟨(records.runtimeState seq).parentBlockId,
        (records.runtimeState seq).nextLogicalBlockIdx,
        (Pages.tail blockSize stream ++ chunk).map Prod.fst,
        (records.runtimeState seq).pendingSlots ++ [chunk.map Prod.snd]⟩
      have hslots : ((records.runtimeState seq).pendingSlots ++ [chunk.map Prod.snd]).flatten =
          (Pages.tail blockSize (Pages.tail blockSize stream ++ chunk)).map Prod.snd := by
        rw [Pages.tail_of_lt hlt, List.flatten_concat, h.slots, List.map_append]
      refine h.extend hsize hslots ?_
      rw [pagesOf, Pages.complete_of_lt hlt, Pages.tail_of_lt hlt]
      simpa [lastBlock, blocksOf] using hwhole

end PrefixRecords
