import SparseEngine.Materialization.Recording

/-!
# Runs of recorded calls

The calls for a sequence cut its stream, and calls for other sequences come in
between.  Every call of the sequence records its chunk behind what is recorded
(`recordFrozen_recorded`), every other call leaves its records alone
(`recordFrozen_preserves`), so by induction on the calls the records are those
of the stream.
-/

variable {Id Slot Payload : Type}

/-- A call of the recorder. -/
structure RecordCall (Id Slot : Type) where
  seq : RecordedSequence Id
  chunk : List (ℤ × Slot)

/-- The stream that the calls for a sequence cut. -/
def streamOf (seqId : ℤ) (calls : List (RecordCall Id Slot)) : List (ℤ × Slot) :=
  (calls.filter fun call => call.seq.seqId = seqId).flatMap (·.chunk)

namespace PrefixRecords

open Routine RadixPrefixIndex

/-- The calls, one after the other. -/
def recordAll (hash : List ℤ → Option Id → Id) (blockSize : ℕ)
    (makePayloads : List (List Slot) → Except PyError (List Payload)) (calls : List (RecordCall Id Slot)) :
    Routine (PrefixRecords Id Slot Payload) Unit :=
  forEach (fun call => recordFrozenPrefixMaterialization hash blockSize makePayloads call.seq
    (call.chunk.map Prod.fst) (call.chunk.map Prod.snd)) calls

/-- What the recorder keeps of a sequence: the pending blocks up to their
payloads, the leftover tokens and slots, and the end of the chain. -/
def kept (records : PrefixRecords Id Slot Payload) (seq : RecordedSequence Id) :
    List (RecordedBlock Id Slot) × List ℤ × List Slot × Option Id × ℤ :=
  let state := records.runtimeState seq
  ((records.pendingBlocks seq.seqId).map PendingPrefixBlock.recorded, state.pendingTokens,
    state.pendingSlots.flatten, state.parentBlockId, state.nextLogicalBlockIdx)

variable {hash : List ℤ → Option Id → Id} {blockSize : ℕ}
  {makePayloads : List (List Slot) → Except PyError (List Payload)} {seq : RecordedSequence Id}
  {stream : List (ℤ × Slot)} {records : PrefixRecords Id Slot Payload}

/-- The records of one sequence. -/
def recordsOf (seqId : ℤ) (records : PrefixRecords Id Slot Payload) :
    Option (PrefixRuntimeState Id Slot) × Option (List (PendingPrefixBlock Id Slot Payload)) :=
  (records.prefixRuntimeStates.get? seqId, records.pendingPrefixBlocks.get? seqId)

variable {seqId other : ℤ}

section

variable (hne : seqId ≠ other)

include hne

theorem recordsOf_setState (state : PrefixRuntimeState Id Slot) :
    recordsOf seqId (records.setState other state) = recordsOf seqId records := by
  rw [recordsOf, setState, Dict.get?_set_of_ne _ _ hne]
  rfl

theorem recordsOf_setBlocks (blocks : List (PendingPrefixBlock Id Slot Payload)) :
    recordsOf seqId (records.setBlocks other blocks) = recordsOf seqId records := by
  rw [recordsOf, setBlocks, Dict.get?_set_of_ne _ _ hne]
  rfl

theorem appendBlocks_preserves (state : PrefixRuntimeState Id Slot)
    (completed : List (List ℤ × List Slot)) (payloads : List Payload) :
    Preserves (recordsOf seqId) (appendBlocks hash other state completed payloads) := by
  induction completed generalizing state payloads with
  | nil =>
      cases payloads with
      | nil => exact .pure ()
      | cons payload payloads => exact .raise _
  | cons block rest ih =>
      cases payloads with
      | nil => exact .raise _
      | cons payload payloads =>
          rw [appendBlocks]
          refine .bind (.write fun records => recordsOf_setBlocks hne _) fun _ => ?_
          exact .bind (.write fun records => recordsOf_setState hne _) fun _ => ih _ _

theorem recordFrom_preserves (state : PrefixRuntimeState Id Slot) (tokenIds : List ℤ)
    (slots : List Slot) (offset : ℕ) (completed : List (List ℤ × List Slot)) :
    Preserves (recordsOf seqId)
      (recordFrom hash blockSize makePayloads other state tokenIds slots offset completed) := by
  unfold recordFrom
  refine .bind (.write fun records => recordsOf_setState hne _) fun _ => ?_
  refine .ite (.pure ()) (.bind (.ofExcept _) fun payloads => ?_)
  exact appendBlocks_preserves hne _ _ _

end

variable (hash blockSize makePayloads) in
/-- **A call for another sequence** leaves the records alone. -/
theorem recordFrozen_preserves (hne : seqId ≠ seq.seqId) (tokenIds : List ℤ) (slots : List Slot) :
    Preserves (recordsOf seqId)
      (recordFrozenPrefixMaterialization hash blockSize makePayloads seq tokenIds slots) := by
  unfold recordFrozenPrefixMaterialization
  refine .bind .read fun records => ?_
  refine .bind (.write fun _ => recordsOf_setState hne _) fun _ => ?_
  refine .bind (.write fun _ => recordsOf_setBlocks hne _) fun _ => ?_
  refine .ite (recordFrom_preserves hne _ _ _ _ _) (.ite (recordFrom_preserves hne _ _ _ _ _) ?_)
  exact .write fun _ => recordsOf_setState hne _

theorem Recorded.congr (h : Recorded hash blockSize seq stream records)
    {next : PrefixRecords Id Slot Payload} (hsame : recordsOf seq.seqId next = recordsOf seq.seqId records) :
    Recorded hash blockSize seq stream next := by
  obtain ⟨hstate, hblocks⟩ := Prod.mk.inj hsame
  have hruntime : next.runtimeState seq = records.runtimeState seq := by
    rw [runtimeState, runtimeState, hstate]
  have hpending : next.pendingBlocks seq.seqId = records.pendingBlocks seq.seqId := by
    rw [pendingBlocks, pendingBlocks, hblocks]
  exact ⟨hruntime ▸ h.parent, hruntime ▸ h.index, hruntime ▸ h.tokens, hruntime ▸ h.slots, hpending ▸ h.blocks⟩

/-- Nothing has been recorded of a sequence. -/
def Unrecorded (records : PrefixRecords Id Slot Payload) (seq : RecordedSequence Id) : Prop :=
  recordsOf seq.seqId records = (none, none)

variable (hash blockSize) in
theorem Unrecorded.recorded (h : records.Unrecorded seq) : Recorded hash blockSize seq [] records :=
  recorded_nil (congrArg Prod.fst h) (congrArg Prod.snd h)

/-- One call, for the sequence it is about and for the others. -/
theorem recordCall_recorded (hsize : 0 < blockSize) (call : RecordCall Id Slot) {done : List (ℤ × Slot)}
    (hdone : Recorded hash blockSize call.seq done records) :
    wpe (recordFrozenPrefixMaterialization hash blockSize makePayloads call.seq (call.chunk.map Prod.fst)
        (call.chunk.map Prod.snd))
      (fun _ next => ∀ other stream, (other.seqId = call.seq.seqId → other = call.seq) →
        Recorded hash blockSize other stream records →
          Recorded hash blockSize other (stream ++ streamOf other.seqId [call]) next)
      (fun _ => ¬ Makes blockSize makePayloads) records := by
  have hcall := recordFrozen_recorded makePayloads call.chunk hsize hdone
  rw [wpe_def] at hcall ⊢
  rcases hrun : recordFrozenPrefixMaterialization hash blockSize makePayloads call.seq
    (call.chunk.map Prod.fst) (call.chunk.map Prod.snd) records with ⟨error | _, next⟩
  · rw [hrun] at hcall
    exact hcall
  · intro other stream hsame hother
    by_cases hid : other.seqId = call.seq.seqId
    · obtain rfl := hsame hid
      have hnext := wpe_def.mp (recordFrozen_recorded makePayloads call.chunk hsize hother)
      rw [hrun] at hnext
      simpa [streamOf] using hnext
    · have hnext := recordFrozen_preserves hash blockSize makePayloads hid (call.chunk.map Prod.fst)
        (call.chunk.map Prod.snd) records
      rw [hrun] at hnext
      simpa [streamOf, Ne.symm hid] using hother.congr hnext

theorem streamOf_cons (seqId : ℤ) (call : RecordCall Id Slot) (calls : List (RecordCall Id Slot)) :
    streamOf seqId (call :: calls) = streamOf seqId [call] ++ streamOf seqId calls := by
  by_cases hid : call.seq.seqId = seqId <;> simp [streamOf, hid]

variable (makePayloads) in
/-- **A run** records the stream that its calls for the sequence cut. -/
theorem recordAll_recorded (hsize : 0 < blockSize) {calls : List (RecordCall Id Slot)}
    (hseq : ∀ call ∈ calls, seq.seqId = call.seq.seqId → seq = call.seq)
    (hseqs : ∀ first ∈ calls, ∀ second ∈ calls, first.seq.seqId = second.seq.seqId → first.seq = second.seq)
    (hothers : ∀ call ∈ calls, ∃ done, Recorded hash blockSize call.seq done records)
    (h : Recorded hash blockSize seq stream records) :
    wpe (recordAll hash blockSize makePayloads calls)
      (fun _ next => Recorded hash blockSize seq (stream ++ streamOf seq.seqId calls) next)
      (fun _ => ¬ Makes blockSize makePayloads) records := by
  induction calls generalizing stream records with
  | nil =>
      rw [recordAll, forEach, wpe_pure, streamOf, List.filter_nil, List.flatMap_nil, List.append_nil]
      exact h
  | cons call rest ih =>
      obtain ⟨done, hdone⟩ := hothers call List.mem_cons_self
      rw [recordAll, forEach]
      refine wpe_then (recordCall_recorded hsize call hdone) fun _ next hnext => ?_
      rw [streamOf_cons, ← List.append_assoc]
      refine ih (fun other hother => hseq other (List.mem_cons_of_mem _ hother))
        (fun first hfirst second hsecond =>
          hseqs first (List.mem_cons_of_mem _ hfirst) second (List.mem_cons_of_mem _ hsecond))
        (fun other hother => ?_) (hnext seq stream (hseq call List.mem_cons_self) h)
      obtain ⟨kept, hkept⟩ := hothers other (List.mem_cons_of_mem _ hother)
      exact ⟨_, hnext other.seq kept (hseqs other (List.mem_cons_of_mem _ hother) call List.mem_cons_self) hkept⟩

/-! ## What is recorded -/

theorem Recorded.kept_eq (h : Recorded hash blockSize seq stream records) : records.kept seq =
    (blocksOf hash seq.prefixCacheHitLastBlockId seq.prefixCacheHitBlockCount (pagesOf blockSize stream),
      (Pages.tail blockSize stream).map Prod.fst, (Pages.tail blockSize stream).map Prod.snd,
      lastBlock hash seq.prefixCacheHitLastBlockId (pagesOf blockSize stream),
      seq.prefixCacheHitBlockCount + (pagesOf blockSize stream).length) := by
  rw [kept, h.blocks, h.tokens, h.slots, h.parent, h.index]

/-- The stable ids of the pending blocks. -/
def pendingIds (records : PrefixRecords Id Slot Payload) (seqId : ℤ) : List Id :=
  (records.pendingBlocks seqId).map (·.stableBlockId)

theorem Recorded.pendingIds_eq (h : Recorded hash blockSize seq stream records) (hsize : 0 < blockSize) :
    records.pendingIds seq.seqId = blockIdsLoop hash blockSize (stream.length / blockSize)
      (stream.map Prod.fst) seq.prefixCacheHitLastBlockId := by
  rw [← map_stableBlockId_blocksOf hsize _ seq.prefixCacheHitBlockCount, ← h.blocks, List.map_map]
  rfl

/-- Behind a prefix of whole blocks, the ids go on where those of the prefix
end. -/
theorem blockIdsForTokens_append {index : RadixPrefixIndex Id Payload} (hsize : 0 < index.blockSize)
    {front tokens : List ℤ} (hfront : index.blockSize ∣ front.length) :
    index.blockIdsForTokens hash (front ++ tokens) none =
      index.blockIdsForTokens hash front none ++
        blockIdsLoop hash index.blockSize (tokens.length / index.blockSize) tokens
          (index.blockIdsForTokens hash front none).getLast? := by
  obtain ⟨count, hcount⟩ := hfront
  have hlimit (tokens : List ℤ) : index.blockIdsForTokens hash tokens none =
      blockIdsLoop hash index.blockSize (tokens.length / index.blockSize) tokens none := by
    unfold blockIdsForTokens
    congr 1
  have hblocks : front.length / index.blockSize = count := by rw [hcount, Nat.mul_div_cancel_left _ hsize]
  have hall : (front ++ tokens).length / index.blockSize = count + tokens.length / index.blockSize := by
    rw [List.length_append, hcount, Nat.mul_add_div hsize]
  have hdrop : (front ++ tokens).drop (count * index.blockSize) = tokens := by
    rw [Nat.mul_comm, ← hcount, List.drop_left]
  have hle : count * index.blockSize ≤ front.length := by rw [hcount, Nat.mul_comm]
  rw [hlimit, hlimit, hall, hblocks, blockIdsLoop_add, hdrop, blockIdsLoop_append hle, Option.or_none]

/-- A stream is materialized: page after page of it with its slots, under the
ids of `block_ids_for_tokens`, and less than a page of it left over. -/
structure Materialized (hash : List ℤ → Option Id → Id) (blockSize : ℕ) (seq : RecordedSequence Id)
    (stream : List (ℤ × Slot)) (records : PrefixRecords Id Slot Payload) : Prop where
  length : (records.pendingBlocks seq.seqId).length = stream.length / blockSize
  block : ∀ k block, (records.pendingBlocks seq.seqId)[k]? = some block →
    block.tokenIds = ((stream.map Prod.fst).drop (k * blockSize)).take blockSize ∧
      block.slots = ((stream.map Prod.snd).drop (k * blockSize)).take blockSize ∧
      block.tokenIds.length = blockSize ∧
      block.logicalBlockIdx = seq.prefixCacheHitBlockCount + k ∧
      block.parentBlockId = if k = 0 then seq.prefixCacheHitLastBlockId
        else (records.pendingIds seq.seqId)[k - 1]?
  ids : records.pendingIds seq.seqId = blockIdsLoop hash blockSize (stream.length / blockSize)
    (stream.map Prod.fst) seq.prefixCacheHitLastBlockId
  /-- Behind the tokens of the hit, the ids are those of the full token list. -/
  chain : ∀ (index : RadixPrefixIndex Id Payload) (front : List ℤ), index.blockSize = blockSize →
    blockSize ∣ front.length →
    (index.blockIdsForTokens hash front none).getLast? = seq.prefixCacheHitLastBlockId →
      index.blockIdsForTokens hash (front ++ stream.map Prod.fst) none =
        index.blockIdsForTokens hash front none ++ records.pendingIds seq.seqId
  tokens : (records.runtimeState seq).pendingTokens =
    (stream.map Prod.fst).drop (stream.length / blockSize * blockSize)
  slots : (records.runtimeState seq).pendingSlots.flatten =
    (stream.map Prod.snd).drop (stream.length / blockSize * blockSize)
  short : (records.runtimeState seq).pendingTokens.length < blockSize

section

variable (h : Recorded hash blockSize seq stream records)

include h

/-- A block of a recorded stream. -/
theorem Recorded.block {k : ℕ} {block : PendingPrefixBlock Id Slot Payload}
    (hblock : (records.pendingBlocks seq.seqId)[k]? = some block) :
    k < stream.length / blockSize ∧ (Pages.page blockSize stream k).map Prod.fst = block.tokenIds ∧
      (Pages.page blockSize stream k).map Prod.snd = block.slots ∧
      block.logicalBlockIdx = seq.prefixCacheHitBlockCount + k ∧
      block.parentBlockId = if k = 0 then seq.prefixCacheHitLastBlockId
        else (records.pendingIds seq.seqId)[k - 1]? := by
  have hrecorded : (blocksOf hash seq.prefixCacheHitLastBlockId seq.prefixCacheHitBlockCount
      (pagesOf blockSize stream))[k]? = some block.recorded := by
    rw [← h.blocks, List.getElem?_map, hblock]
    rfl
  obtain ⟨hpage, hindex, -, hparent⟩ := getElem?_blocksOf hrecorded
  rw [pagesOf, List.getElem?_map, Pages.getElem?_complete] at hpage
  obtain ⟨hlt, hcut⟩ : k < stream.length / blockSize ∧
      cut (Pages.page blockSize stream k) = (block.tokenIds, block.slots) := by
    split at hpage
    · next hlt => exact ⟨hlt, Option.some.inj hpage⟩
    · cases hpage
  obtain ⟨htokens, hslots⟩ := Prod.mk.inj hcut
  rw [← h.blocks, List.map_map] at hparent
  exact ⟨hlt, htokens, hslots, hindex, hparent⟩

theorem Recorded.materialized (hsize : 0 < blockSize) :
    Materialized hash blockSize seq stream records where
  length := by rw [← List.length_map, h.blocks, length_blocksOf, length_pagesOf]
  block k block hblock := by
    obtain ⟨hlt, htokens, hslots, hindex, hparent⟩ := h.block hblock
    refine ⟨?_, ?_, ?_, hindex, hparent⟩
    · rw [← htokens, Pages.page, List.map_take, List.map_drop]
    · rw [← hslots, Pages.page, List.map_take, List.map_drop]
    · rw [← htokens, List.length_map, Pages.length_page]
      exact (Nat.mul_le_mul_right _ hlt).trans (Nat.div_mul_le_self _ _)
  ids := h.pendingIds_eq hsize
  chain index front hindex hfront hlast := by
    subst hindex
    rw [blockIdsForTokens_append hsize hfront, hlast, h.pendingIds_eq hsize, List.length_map]
  tokens := by rw [h.tokens, Pages.tail, List.map_drop]
  slots := by rw [h.slots, Pages.tail, List.map_drop]
  short := by
    rw [h.tokens, List.length_map, Pages.length_tail]
    exact Nat.mod_lt _ hsize

/-- The tokens of the blocks are the complete pages of the tokens. -/
theorem Recorded.map_tokenIds :
    (records.pendingBlocks seq.seqId).map (·.tokenIds) = Pages.complete blockSize (stream.map Prod.fst) := by
  have htokens (parent : Option Id) (index : ℤ) (pages : List (List ℤ × List Slot)) :
      (blocksOf hash parent index pages).map (·.tokenIds) = pages.map Prod.fst := by
    induction pages generalizing parent index with
    | nil => rfl
    | cons page rest ih => rw [blocksOf, List.map_cons, List.map_cons, ih]
  have hblocks := congrArg (List.map (·.tokenIds)) h.blocks
  rw [htokens, List.map_map] at hblocks
  rw [Pages.complete_map]
  refine hblocks.trans ?_
  rw [pagesOf, List.map_map]
  rfl

end

end PrefixRecords
