import SparseEngine.PrefixIndex.Runs

/-!
# Reference counts

`set_block_ref_count` refuses a negative count, and no other method writes the
count of an indexed block.  So no count is negative after a run whose inserted
blocks started with a count that is not.
-/

open Routine RadixPrefixIndex

namespace RadixPrefixIndex

variable {Id Payload : Type} [LinearOrder Id]

/-- No indexed block has a negative reference count. -/
def CountsRefs (index : RadixPrefixIndex Id Payload) : Prop :=
  ∀ id block, index.blocks.get? id = some block → 0 ≤ block.refCount

/-- The call leaves no negative count behind. -/
abbrev Counting {α : Type} (method : Method Id Payload α) : Prop := Maintains CountsRefs method

variable {index : RadixPrefixIndex Id Payload} {block : PrefixCacheBlock Id Payload}

section

variable (h : CountsRefs index)

include h

theorem CountsRefs.set {x : Id} (hcount : 0 ≤ block.refCount) :
    CountsRefs { index with blocks := index.blocks.set x block } := by
  intro id other hother
  rw [Dict.get?_set] at hother
  split at hother
  · obtain rfl := Option.some.inj hother
    exact hcount
  · exact h id other hother

theorem CountsRefs.store (hcount : index.IsIndexed block → 0 ≤ block.refCount) :
    CountsRefs (RadixPrefixIndex.store block index) := by
  rw [RadixPrefixIndex.store]
  split
  · next hindexed => exact h.set (hcount hindexed)
  · exact h

/-- A write to another field of an object. -/
theorem CountsRefs.store_resolve {next : PrefixCacheBlock Id Payload} (hobj : next.obj = (index.resolve block).obj)
    (hid : next.stableBlockId = (index.resolve block).stableBlockId)
    (hcount : next.refCount = (index.resolve block).refCount) :
    CountsRefs (RadixPrefixIndex.store next index) := by
  refine h.store fun hnext => ?_
  by_cases hindexed : index.IsIndexed block
  · obtain ⟨stored, hget, hsame⟩ := isIndexed_iff.mp hindexed
    rw [hcount, resolve_of_get? hget hsame]
    exact h _ stored hget
  · rw [resolve_of_stale hindexed] at hobj hid
    rw [IsIndexed, hobj, hid] at hnext
    exact absurd hnext hindexed

theorem CountsRefs.erase (x : Id) : CountsRefs { index with blocks := index.blocks.erase x } := by
  intro id other hother
  rw [Dict.get?_erase] at hother
  split at hother
  · cases hother
  · exact h id other hother

end

/-- A method that leaves the blocks alone. -/
theorem counting_of_preserves {α : Type} {method : Method Id Payload α}
    (hblocks : Preserves (·.blocks) method) : Counting method := by
  intro index h
  refine hblocks.wpe (fun _ next hnext => ?_) fun next hnext => ?_
  all_goals
    intro id block hget
    rw [hnext] at hget
    exact h id block hget

/-! ## Methods that write no block -/

theorem preserves_refreshFreeableLoop (fuel : ℕ) (blockId : Option Id) :
    Preserves (·.blocks) (refreshFreeableLoop fuel blockId : Method Id Payload Unit) := by
  induction fuel generalizing blockId with
  | zero => exact .pure ()
  | succ fuel ih =>
      cases blockId with
      | none => exact .pure ()
      | some id =>
          unfold refreshFreeableLoop
          refine .bind .read fun index => ?_
          cases index.freeableIds with
          | none => exact .pure ()
          | some freeable =>
              dsimp only
              split
              · refine .ite (.pure ()) (.bind (.write fun _ => rfl) fun _ => ?_)
                split
                · exact .pure ()
                · split
                  · exact .raise _
                  · exact .bind (.write fun _ => rfl) fun _ => ih _
              · exact .raise _
              · exact .raise _

theorem preserves_refreshFreeablePath (blockId : Option Id) :
    Preserves (·.blocks) (refreshFreeablePath blockId : Method Id Payload Unit) :=
  .bind .read fun _ => preserves_refreshFreeableLoop _ blockId

theorem counting_refreshFreeablePath (blockId : Option Id) :
    Counting (refreshFreeablePath blockId : Method Id Payload Unit) :=
  counting_of_preserves (preserves_refreshFreeablePath blockId)

omit [LinearOrder Id] in
theorem preserves_onBackend {α : Type} (method : Routine (RadixTreeBackend Id) α) :
    Preserves (·.blocks) (onBackend method : Method Id Payload α) := fun _ => rfl

theorem preserves_recordRoutingInsert (blockId : Id) :
    Preserves (·.blocks) (recordRoutingInsert blockId : Method Id Payload Unit) :=
  .bind .read fun _ => .bind (.ofExcept _) fun _ => .write fun _ => rfl

theorem preserves_recordRoutingRemove (blockId : Id) :
    Preserves (·.blocks) (recordRoutingRemove blockId : Method Id Payload Unit) :=
  .bind .read fun _ => .bind (.ofExcept _) fun _ => .write fun _ => rfl

omit [LinearOrder Id] in
theorem preserves_tick : Preserves (·.blocks) (tick : Method Id Payload ℤ) :=
  .bind (.write fun _ => rfl) fun _ => .bind .read fun _ => .pure _

theorem preserves_trackInserted (block : PrefixCacheBlock Id Payload) :
    Preserves (·.blocks) (trackInserted block) := by
  unfold trackInserted
  refine .bind .read fun index => .ite (.pure ()) (.bind (.write fun _ => rfl) fun _ => ?_)
  cases block.parentBlockId with
  | none => exact .bind (preserves_refreshFreeablePath _) fun _ => preserves_refreshFreeablePath _
  | some parentId =>
      refine .bind .read fun index => ?_
      dsimp only
      split
      · exact .bind (.raise _) fun _ =>
          .bind (preserves_refreshFreeablePath _) fun _ => preserves_refreshFreeablePath _
      · exact .bind (.write fun _ => rfl) fun _ =>
          .bind (preserves_refreshFreeablePath _) fun _ => preserves_refreshFreeablePath _

theorem preserves_trackRemoved (block : PrefixCacheBlock Id Payload) :
    Preserves (·.blocks) (trackRemoved block) := by
  unfold trackRemoved
  refine .bind .read fun index => ?_
  split
  · exact .pure ()
  · refine .bind (.write fun _ => rfl) fun _ => .ite (.pure ()) ?_
    split
    · exact .pure ()
    · refine .bind .read fun index => ?_
      split
      · exact .raise _
      · exact .bind (.write fun _ => rfl) fun _ => preserves_refreshFreeablePath _

/-! ## Methods that write blocks -/

theorem preserves_evictableBlockIds :
    Preserves (·.blocks) (evictableBlockIds : Method Id Payload (Finset Id)) :=
  .bind .read fun _ => .ite (.pure _) (.bind (.write fun _ => rfl) fun _ => .bind .read fun _ => .pure _)

theorem preserves_freeableBlockIds :
    Preserves (·.blocks) (freeableBlockIds : Method Id Payload (Finset Id)) := by
  refine .bind .read fun index => .ite (.pure _) ?_
  split
  · exact .bind (.write fun _ => rfl) fun _ => .pure _
  · exact .bind (.ofExcept _) fun _ => .bind (.write fun _ => rfl) fun _ => .pure _

theorem preserves_deviceFreeableBlockIds :
    Preserves (·.blocks) (deviceFreeableBlockIds : Method Id Payload (Finset Id)) :=
  .bind .read fun _ => .ite (.pure _) (.bind (.ofExcept _) fun _ => .bind (.write fun _ => rfl) fun _ => .pure _)

theorem preserves_deviceReclaimableBlockIds :
    Preserves (·.blocks) (deviceReclaimableBlockIds : Method Id Payload (Finset Id)) :=
  .bind .read fun _ => .ite (.pure _) (.bind (.ofExcept _) fun _ => .bind (.write fun _ => rfl) fun _ => .pure _)

omit [LinearOrder Id] in
theorem preserves_routingSnapshot (method : String) : Preserves (·.blocks)
    (routingSnapshot method : Method Id Payload (PrefixCacheRoutingSnapshot Id)) := by
  have hbuild (index : RadixPrefixIndex Id Payload) :
      Preserves (·.blocks) (routingSnapshot.buildSnapshot method index) :=
    .bind (.raiseIf _ _) fun _ => .bind (.write fun _ => rfl) fun _ => .pure _
  refine .bind .read fun index => ?_
  split
  · exact .ite (.pure _) (hbuild index)
  · exact hbuild index

theorem CountsRefs.resolve (h : CountsRefs index) (hcount : 0 ≤ block.refCount) :
    0 ≤ (index.resolve block).refCount := by
  by_cases hindexed : index.IsIndexed block
  · obtain ⟨stored, hget, hobj⟩ := isIndexed_iff.mp hindexed
    rw [resolve_of_get? hget hobj]
    exact h _ stored hget
  · rw [resolve_of_stale hindexed]
    exact hcount

/-- The part of `insert_block` behind its checks. -/
theorem counting_insertNew (hcount : 0 ≤ block.refCount) : Counting (do
    let access ← tick
    let block := { block with lastAccess := access }
    write fun index => { index with blocks := index.blocks.set block.stableBlockId block }
    onBackend (RadixTreeBackend.insertChild block.parentBlockId block.stableBlockId)
    trackInserted block
    write fun index => { index with committedBlocks := index.committedBlocks + 1 }
    recordRoutingInsert block.stableBlockId
    write fun index => markInserted (index.capacityChanged block) index
    return block : Method Id Payload (PrefixCacheBlock Id Payload)) := by
  refine .bind (counting_of_preserves preserves_tick) fun access => ?_
  refine .bind (.write fun index h => h.set hcount) fun _ => ?_
  refine .bind (counting_of_preserves (preserves_onBackend _)) fun _ => ?_
  refine .bind (counting_of_preserves (preserves_trackInserted _)) fun _ => ?_
  refine .bind (.write fun index h => h) fun _ => ?_
  refine .bind (counting_of_preserves (preserves_recordRoutingInsert _)) fun _ => ?_
  refine .bind (.write fun index h => ?_) fun _ => .pure _
  rw [markInserted]
  split <;> exact h

theorem counting_insertBlock (hcount : 0 ≤ block.refCount) : Counting (insertBlock block) := by
  intro index h
  have hresolved := h.resolve hcount
  unfold insertBlock
  rw [wpe_get, wpe_bind]
  refine wpe_ofExcept (fun _ _ => ?_) h
  split
  · next existing hget =>
    refine Maintains.bind (counting_of_preserves preserves_tick) (fun access => ?_) index h
    refine .bind (.write fun mid hmid => ?_) fun _ => .pure _
    exact hmid.store fun _ => h _ existing hget
  · split
    · exact Maintains.bind (.ofExcept _) (fun _ => counting_insertNew hresolved) index h
    · refine wpe_ite.mpr ⟨fun _ => ?_, fun _ => ?_⟩
      · exact Maintains.bind (counting_of_preserves preserves_evictableBlockIds)
          (fun _ => .bind (.raise _) fun _ => .bind (.ofExcept _) fun _ =>
            counting_insertNew hresolved) index h
      · exact Maintains.bind (.ofExcept _) (fun _ => counting_insertNew hresolved) index h

theorem counting_setBlockRefCount (block : PrefixCacheBlock Id Payload) (refCount : ℤ)
    (negativeError : String) : Counting (setBlockRefCount block refCount negativeError) := by
  unfold setBlockRefCount
  refine .bind .read fun index => .bind (.raiseIf _ _) fun _ => ?_
  intro current h
  refine wpe_guarded h fun hcount => ?_
  refine Maintains.ite (.pure ()) (.bind (.write fun mid hmid => ?_) fun _ => ?_) current h
  · exact hmid.store fun _ => not_lt.mp hcount
  · refine .ite (.bind (counting_refreshFreeablePath _) fun _ => .write fun mid hmid => hmid) ?_
    exact .write fun mid hmid => hmid

theorem counting_acquireBlockRef (block : PrefixCacheBlock Id Payload) :
    Counting (acquireBlockRef block) :=
  .bind .read fun _ => counting_setBlockRefCount _ _ _

theorem counting_releaseBlockRef (block : PrefixCacheBlock Id Payload) (negativeError : String) :
    Counting (releaseBlockRef block negativeError) :=
  .bind .read fun _ => counting_setBlockRefCount _ _ _

/-- A transfer method writes the residency of the object it has looked at. -/
theorem setResidency_counts (h : CountsRefs index) (residency : PrefixBlockResidency) :
    wpe (setResidency (index.resolve block) residency) (fun _ => CountsRefs) CountsRefs index := by
  unfold setResidency
  rw [wpe_set]
  have hstored : CountsRefs (RadixPrefixIndex.store
      { index.resolve block with residency := residency } index) := h.store_resolve rfl rfl rfl
  refine Maintains.bind (.ofExcept _) (fun _ => ?_) _ hstored
  exact .bind (counting_refreshFreeablePath _) fun _ => .write fun mid hmid => hmid

/-- A check before a call. -/
theorem guard_counts {α : Type} {condition : Prop} [Decidable condition] {error : PyError}
    {next : Unit → Method Id Payload α} (h : CountsRefs index)
    (hnext : wpe (next ()) (fun _ => CountsRefs) CountsRefs index) :
    wpe (raiseIf condition error >>= next) (fun _ => CountsRefs) CountsRefs index := by
  rw [wpe_guard]
  exact ⟨fun _ => h, fun _ => hnext⟩

/-- A computation that may raise before a call. -/
theorem check_counts {α β : Type} {result : Except PyError β} {next : β → Method Id Payload α}
    (h : CountsRefs index) (hnext : ∀ value, wpe (next value) (fun _ => CountsRefs) CountsRefs index) :
    wpe (ofExcept result >>= next) (fun _ => CountsRefs) CountsRefs index := by
  rw [wpe_bind]
  exact wpe_ofExcept (fun value _ => hnext value) h

theorem counting_beginD2h (block : PrefixCacheBlock Id Payload) : Counting (beginD2h block) :=
  fun _ h => guard_counts h <| check_counts h fun _ => guard_counts h <| guard_counts h <|
    guard_counts h <| guard_counts h <| setResidency_counts h _

theorem counting_finishD2h (block : PrefixCacheBlock Id Payload) : Counting (finishD2h block) :=
  fun _ h => guard_counts h <| guard_counts h <| setResidency_counts h _

theorem counting_abortD2h (block : PrefixCacheBlock Id Payload) : Counting (abortD2h block) :=
  fun _ h => guard_counts h <| setResidency_counts h _

theorem counting_beginH2d (block : PrefixCacheBlock Id Payload) : Counting (beginH2d block) :=
  fun _ h => guard_counts h <| check_counts h fun _ => guard_counts h <| guard_counts h <|
    guard_counts h <| guard_counts h <| setResidency_counts h _

theorem counting_finishH2d (block : PrefixCacheBlock Id Payload) : Counting (finishH2d block) :=
  fun _ h => guard_counts h <| setResidency_counts h _

theorem counting_abortH2d (block : PrefixCacheBlock Id Payload) : Counting (abortH2d block) :=
  fun _ h => guard_counts h <| check_counts h fun _ => guard_counts h <| setResidency_counts h _

theorem counting_touchChain (blocks : List (PrefixCacheBlock Id Payload)) :
    Counting (touchChain blocks) := by
  refine .bind (counting_of_preserves preserves_tick) fun access => .write fun index h => ?_
  induction blocks generalizing index with
  | nil => exact h
  | cons block rest ih => exact ih _ (h.store_resolve rfl rfl rfl)

theorem counting_priorityLoop (priority : ℤ) (blockIds : List Id) (updated : ℕ) (changed capacityChanged : Bool) :
    Counting (priorityLoop priority blockIds updated changed capacityChanged :
      Method Id Payload (ℕ × Bool × Bool)) := by
  induction blockIds generalizing updated changed capacityChanged with
  | nil => exact .pure _
  | cons blockId rest ih =>
      intro index h
      unfold priorityLoop
      rw [wpe_get]
      split
      · exact ih _ _ _ index h
      · next block hget =>
        refine Maintains.ite (ih _ _ _) ?_ index h
        refine .bind (.write fun mid hmid => hmid.store fun _ => h _ block hget) fun _ => ?_
        refine .ite (.bind (counting_refreshFreeablePath _) fun _ => ih _ _ _) ?_
        exact .bind (.pure ()) fun _ => ih _ _ _

theorem counting_setSubtreeEvictionPriority (hash : List ℤ → Option Id → Id) (tokenIds : List ℤ)
    (priority : ℤ) : Counting (setSubtreeEvictionPriority hash tokenIds priority :
      Method Id Payload (PriorityUpdateResult Id)) := by
  unfold setSubtreeEvictionPriority
  refine .bind .read fun index => .ite (.pure _) ?_
  dsimp only
  split
  · exact .pure _
  · refine .ite (.pure _) (.bind (.ofExcept _) fun ids => ?_)
    refine .bind (counting_priorityLoop _ _ _ _ _) fun result => ?_
    refine .ite (.bind (.write fun mid hmid => hmid) fun _ => .pure _) ?_
    exact .ite (.bind (.write fun mid hmid => hmid) fun _ => .pure _) (.bind (.pure ()) fun _ => .pure _)

theorem counting_removeBlockFromIndex (blockId : Id) :
    Counting (removeBlockFromIndex blockId : Method Id Payload (PrefixCacheBlock Id Payload)) := by
  unfold removeBlockFromIndex
  refine .bind .read fun index => ?_
  split
  · exact .raise _
  · refine .bind (.raiseIf _ _) fun _ => .bind (.raiseIf _ _) fun _ => .bind (.raiseIf _ _) fun _ => ?_
    refine .bind (.ofExcept _) fun _ => .bind (.raiseIf _ _) fun _ => ?_
    refine .bind (counting_of_preserves (preserves_onBackend _)) fun _ => ?_
    refine .bind (.write fun mid hmid => hmid.erase blockId) fun _ => ?_
    refine .bind (counting_of_preserves (preserves_trackRemoved _)) fun _ => ?_
    refine .bind (counting_of_preserves (preserves_recordRoutingRemove _)) fun _ => ?_
    exact .bind (.write fun mid hmid => hmid) fun _ => .pure _

theorem counting_evictLoop (test : RadixPrefixIndex Id Payload → PrefixCacheBlock Id Payload →
      Except PyError Bool) (negativeWeight : PyError) (neededWeight : ℤ)
    (blockWeight : PrefixCacheBlock Id Payload → Except PyError ℤ) (fuel : ℕ) (evictedWeight : ℤ)
    (candidates : CandidateHeap Id) (evicted : List (PrefixCacheBlock Id Payload)) :
    Counting (evictLoop test negativeWeight neededWeight blockWeight fuel evictedWeight candidates evicted) := by
  induction fuel generalizing evictedWeight candidates evicted with
  | zero => exact .pure _
  | succ fuel ih =>
      unfold evictLoop
      refine .ite (.pure _) (.bind .read fun index => .bind (.ofExcept _) fun popped => ?_)
      dsimp only
      split
      · exact .pure _
      · refine .bind (.ofExcept _) fun weight => .bind (.raiseIf _ _) fun _ => ?_
        refine .bind (counting_removeBlockFromIndex _) fun removed => .bind .read fun index => ?_
        exact .bind (.ofExcept _) fun queued => ih _ _ _

theorem counting_evictWith (test : RadixPrefixIndex Id Payload → PrefixCacheBlock Id Payload →
      Except PyError Bool) (negativeWeight : PyError) (neededWeight : ℤ)
    (blockWeight : PrefixCacheBlock Id Payload → Except PyError ℤ) :
    Counting (evictWith test negativeWeight neededWeight blockWeight) :=
  .ite (.pure _) (.bind .read fun _ => .bind (.ofExcept _) fun _ =>
    counting_evictLoop _ _ _ _ _ _ _ _)

theorem popCandidate_indexed {test : PrefixCacheBlock Id Payload → Except PyError Bool} {fuel : ℕ}
    {candidates rest : CandidateHeap Id} (hpop : popCandidate index test fuel candidates = .ok (some block, rest)) :
    ∃ id, index.blocks.get? id = some block := by
  induction fuel generalizing candidates with
  | zero => cases hpop
  | succ fuel ih =>
      unfold popCandidate at hpop
      split at hpop
      · cases hpop
      · next id heap _ =>
        dsimp only at hpop
        split at hpop
        · exact ih hpop
        · next stored hget =>
          rcases htest : test stored with error | answer
          · rw [htest] at hpop
            cases hpop
          · rw [htest] at hpop
            cases answer with
            | false => exact ih hpop
            | true =>
                obtain ⟨hstored, -⟩ := Prod.mk.inj (Except.ok.inj hpop)
                obtain rfl := Option.some.inj hstored
                exact ⟨id, hget⟩

theorem counting_demoteLoop (neededWeight : ℤ)
    (blockWeight : PrefixCacheBlock Id Payload → Except PyError ℤ) (fuel : ℕ) (demotedWeight : ℤ)
    (children : Dict Id ℤ) (candidates : CandidateHeap Id) (demoted : List (PrefixCacheBlock Id Payload)) :
    Counting (demoteLoop neededWeight blockWeight fuel demotedWeight children candidates demoted) := by
  induction fuel generalizing demotedWeight children candidates demoted with
  | zero => exact .pure _
  | succ fuel ih =>
      unfold demoteLoop
      refine .ite (.pure _) ?_
      intro index h
      rw [wpe_get, wpe_bind]
      refine wpe_ofExcept (fun popped hpop => ?_) h
      obtain ⟨found, rest⟩ := popped
      cases found with
      | none => exact h
      | some block =>
          obtain ⟨id, hget⟩ := popCandidate_indexed hpop
          refine check_counts h fun weight => guard_counts h ?_
          rw [wpe_set]
          have hstored : CountsRefs (RadixPrefixIndex.store { block with
              residency := { block.residency with devicePresent := false } } index) :=
            h.store fun _ => h id block hget
          refine Maintains.bind (.ofExcept _) (fun _ => ?_) _ hstored
          refine .bind (.write fun mid hmid => hmid) fun _ => ?_
          split
          · exact ih _ _ _ _
          · split
            · exact .raise _
            · refine .bind .read fun mid => .bind (.ofExcept _) fun queued => ih _ _ _ _

theorem counting_demoteDeviceUntilWeight (neededWeight : ℤ)
    (blockWeight : PrefixCacheBlock Id Payload → Except PyError ℤ) :
    Counting (demoteDeviceUntilWeight neededWeight blockWeight) :=
  .ite (.pure _) (.bind .read fun _ => .bind (.ofExcept _) fun _ => .bind (.ofExcept _) fun _ =>
    counting_demoteLoop _ _ _ _ _ _ _)

theorem counting_ensureInsertCapacity (neededBlocks : ℤ) :
    Counting (ensureInsertCapacity neededBlocks :
      Method Id Payload (List (PrefixCacheBlock Id Payload))) := by
  unfold ensureInsertCapacity
  refine .bind .read fun index => ?_
  split
  · exact .pure _
  · refine .bind (.raiseIf _ _) fun _ => .ite (.pure _) ?_
    refine .bind (counting_evictWith _ _ _ _) fun evicted => .ite (.pure _) ?_
    exact .bind .read fun _ => .bind (counting_of_preserves preserves_evictableBlockIds) fun _ => .raise _

theorem counting_deletePlanned (planned deleted : List (PrefixCacheBlock Id Payload)) :
    Counting (deletePlanned planned deleted) := by
  induction planned generalizing deleted with
  | nil => exact .pure _
  | cons block rest ih =>
      exact .bind .read fun index => .bind (.raiseIf _ _) fun _ =>
        .bind (counting_removeBlockFromIndex _) fun removed => ih _

theorem counting_safeDeleteSubtree (hash : List ℤ → Option Id → Id) (tokenIds : List ℤ) :
    Counting (safeDeleteSubtree hash tokenIds :
      Method Id Payload (PrefixCacheDeleteResult Id Payload)) :=
  .bind .read fun _ => .bind (.ofExcept _) fun _ => .bind (counting_deletePlanned _ _) fun _ => .pure _

theorem counting_markPayloadCompacted (blocks : List (PrefixCacheBlock Id Payload)) :
    Counting (markPayloadCompacted blocks) :=
  .ite (.pure _) (.bind .read fun _ => .bind (.raiseIf _ _) fun _ => .write fun _ h => h)

theorem counting_rollbackInsertedLeaf (block : PrefixCacheBlock Id Payload) :
    Counting (rollbackInsertedLeaf block) :=
  .bind .read fun _ => .bind (.raiseIf _ _) fun _ => .bind (.raiseIf _ _) fun _ =>
    .bind (.ofExcept _) fun _ => .bind (.raiseIf _ _) fun _ => .bind (.raiseIf _ _) fun _ =>
    .bind (counting_removeBlockFromIndex _) fun _ => .write fun _ h => h

end RadixPrefixIndex

namespace IndexOp

variable {Id Payload : Type} [LinearOrder Id] {hash : List ℤ → Option Id → Id}
  {index : RadixPrefixIndex Id Payload}

/-- A block that the call inserts has no negative reference count. -/
def CountsRefs : IndexOp Id Payload → Prop
  | .insertBlock block => 0 ≤ block.refCount
  | _ => True

theorem run_countsRefs (h : index.CountsRefs) {op : IndexOp Id Payload} (hop : op.CountsRefs) :
    (op.run hash index).CountsRefs := by
  cases op with
  | insertBlock block => exact after_of_wpe (counting_insertBlock hop index h)
  | setBlockRefCount block refCount negativeError =>
      exact after_of_wpe (counting_setBlockRefCount block refCount negativeError index h)
  | acquireBlockRef block => exact after_of_wpe (counting_acquireBlockRef block index h)
  | releaseBlockRef block negativeError =>
      exact after_of_wpe (counting_releaseBlockRef block negativeError index h)
  | beginD2h block => exact after_of_wpe (counting_beginD2h block index h)
  | finishD2h block => exact after_of_wpe (counting_finishD2h block index h)
  | abortD2h block => exact after_of_wpe (counting_abortD2h block index h)
  | beginH2d block => exact after_of_wpe (counting_beginH2d block index h)
  | finishH2d block => exact after_of_wpe (counting_finishH2d block index h)
  | abortH2d block => exact after_of_wpe (counting_abortH2d block index h)
  | touchChain blocks => exact after_of_wpe (counting_touchChain blocks index h)
  | markPayloadCompacted blocks =>
      exact after_of_wpe (counting_markPayloadCompacted blocks index h)
  | setSubtreeEvictionPriority tokenIds priority =>
      exact after_of_wpe (counting_setSubtreeEvictionPriority hash tokenIds priority index h)
  | evictUntilWeight neededWeight blockWeight =>
      exact after_of_wpe (counting_evictWith _ _ neededWeight blockWeight index h)
  | evictHostUntilWeight neededWeight blockWeight =>
      exact after_of_wpe (counting_evictWith _ _ neededWeight blockWeight index h)
  | demoteDeviceUntilWeight neededWeight blockWeight =>
      exact after_of_wpe (counting_demoteDeviceUntilWeight neededWeight blockWeight index h)
  | ensureInsertCapacity neededBlocks =>
      exact after_of_wpe (counting_ensureInsertCapacity neededBlocks index h)
  | safeDeleteSubtree tokenIds =>
      exact after_of_wpe (counting_safeDeleteSubtree hash tokenIds index h)
  | rollbackInsertedLeaf block => exact after_of_wpe (counting_rollbackInsertedLeaf block index h)
  | freeableBlockIds =>
      exact after_of_wpe (counting_of_preserves preserves_freeableBlockIds index h)
  | evictableBlockIds =>
      exact after_of_wpe (counting_of_preserves preserves_evictableBlockIds index h)
  | deviceFreeableBlockIds =>
      exact after_of_wpe (counting_of_preserves preserves_deviceFreeableBlockIds index h)
  | deviceReclaimableBlockIds =>
      exact after_of_wpe (counting_of_preserves preserves_deviceReclaimableBlockIds index h)
  | routingSnapshot method =>
      exact after_of_wpe (counting_of_preserves (preserves_routingSnapshot method) index h)

/-- **No count is negative** after a run whose inserted blocks have none that
is. -/
theorem runAll_countsRefs (h : index.CountsRefs) {ops : List (IndexOp Id Payload)}
    (hops : ∀ op ∈ ops, op.CountsRefs) : (runAll hash index ops).CountsRefs := by
  induction ops generalizing index with
  | nil => exact h
  | cons op rest ih =>
      rw [List.forall_mem_cons] at hops
      exact ih (run_countsRefs h hops.1) hops.2

theorem init_countsRefs (blockSize : ℕ) (maxBlocks : Option ℤ) :
    (init blockSize maxBlocks : RadixPrefixIndex Id Payload).CountsRefs := by
  intro id block hget
  rw [init, Dict.get?_empty] at hget
  cases hget

end IndexOp
