import SparseEngine.PrefixIndex.Population

/-!
# Eviction, demotion and deletion

The methods that take several blocks away, or their device payloads.  All of
them work block by block: `Removes` and `Demotes` list the blocks in the order
in which they go, with what held of each one at its turn.
-/

namespace RadixPrefixIndex

open Routine Forest RadixTreeBackend

variable {Id Payload : Type} [LinearOrder Id]

/-! ## Candidate heaps -/

/-- The test of a candidate loop answers on every indexed block. -/
def TestTotal (index : RadixPrefixIndex Id Payload)
    (test : PrefixCacheBlock Id Payload → Except PyError Bool) : Prop :=
  ∀ id block, index.blocks.get? id = some block → ∃ answer, test block = .ok answer

section

variable {index : RadixPrefixIndex Id Payload}
  {test : PrefixCacheBlock Id Payload → Except PyError Bool}

theorem queueIf_ok (htotal : TestTotal index test) (candidates : CandidateHeap Id)
    (blockId : Option Id) : ∃ next, queueIf index test candidates blockId = .ok next := by
  unfold queueIf
  cases blockId with
  | none => exact ⟨candidates, rfl⟩
  | some x =>
      by_cases hqueued : x ∈ candidates.queued
      · exact ⟨candidates, if_pos hqueued⟩
      · simp only [if_neg hqueued]
        cases hget : index.blocks.get? x with
        | none => exact ⟨candidates, rfl⟩
        | some block =>
            obtain ⟨answer, hanswer⟩ := htotal x block hget
            cases answer <;> simp [hanswer, bind, Except.bind, pure, Except.pure]

theorem popCandidate_ok (h : Inv index) (htotal : TestTotal index test) (fuel : ℕ) (candidates : CandidateHeap Id) :
    ∃ found rest, popCandidate index test fuel candidates = .ok (found, rest) ∧
      ∀ block, found = some block → index.blocks.get? block.stableBlockId = some block ∧ test block = .ok true := by
  induction fuel generalizing candidates with
  | zero => exact ⟨none, candidates, rfl, by simp⟩
  | succ fuel ih =>
      unfold popCandidate
      cases heappop candidates.heap with
      | none => exact ⟨none, candidates, rfl, by simp⟩
      | some popped =>
          obtain ⟨⟨priority, access, x⟩, heap⟩ := popped
          dsimp only
          cases hget : index.blocks.get? x with
          | none => exact ih _
          | some block =>
              obtain ⟨answer, hanswer⟩ := htotal x block hget
              cases answer with
              | false =>
                  simp only [hanswer, bind, Except.bind, Bool.false_eq_true, if_false]
                  exact ih _
              | true =>
                  refine ⟨some block, ⟨heap, candidates.queued.erase x⟩, ?_, fun other hother => ?_⟩
                  · simp [hanswer, bind, Except.bind, pure, Except.pure]
                  · obtain rfl : block = other := by simpa using hother
                    exact ⟨by rw [h.ids x block hget, hget], hanswer⟩

end

/-! ## Eviction -/

/-- What an eviction loop needs of its test. -/
structure EvictTest (test : RadixPrefixIndex Id Payload → PrefixCacheBlock Id Payload →
    Except PyError Bool) : Prop where
  total : ∀ index, Inv index → TestTotal index (test index)
  sound : ∀ index, Inv index → ∀ block, index.blocks.get? block.stableBlockId = some block →
    test index block = .ok true → Removable index.blocks block.stableBlockId block

theorem childCount_eq {index : RadixPrefixIndex Id Payload} (h : Inv index) {x : Id} (hx : x ∈ index.blocks.keys) :
    ∃ count, index.childCount x = .ok count ∧
      (count = 0 → ∀ c ∈ index.blocks.keys, parentIn index.blocks c ≠ some x) := by
  obtain ⟨children, -, -, hcount, hchildren⟩ := h.tree.childBlockIds_eq hx
  refine ⟨children.length, hcount, fun hzero c hc hpar => ?_⟩
  have hmem := (hchildren c).mpr ⟨hc, hpar⟩
  rw [List.length_eq_zero_iff.mp hzero] at hmem
  cases hmem

/-- A test that asks for an idle block, and more, and no child. -/
theorem evictTest_of {test : RadixPrefixIndex Id Payload → PrefixCacheBlock Id Payload →
      Except PyError Bool} {good : PrefixCacheBlock Id Payload → Prop} [DecidablePred good]
    (htest : ∀ index block, test index block = if ¬ good block then .ok false
      else do return decide ((← index.childCount block.stableBlockId) = 0))
    (hgood : ∀ block, good block → Idle block) : EvictTest test where
  total := by
    intro index h id block hget
    rw [htest]
    obtain ⟨count, hcount, -⟩ := childCount_eq h (Dict.mem_keys_of_get? hget)
    have hid := h.ids id block hget
    by_cases hgoodBlock : good block
    · simp [hgoodBlock, hid, hcount, bind, Except.bind, pure, Except.pure]
    · simp [hgoodBlock]
  sound := by
    intro index h block hget htrue
    rw [htest] at htrue
    obtain ⟨count, hcount, hchildless⟩ := childCount_eq h (Dict.mem_keys_of_get? hget)
    by_cases hgoodBlock : good block
    · obtain ⟨href, hpriority, hquiet⟩ := hgood block hgoodBlock
      simp [hgoodBlock, hcount, bind, Except.bind, pure, Except.pure] at htrue
      exact ⟨hget, href, hpriority, hquiet, hchildless htrue⟩
    · simp [hgoodBlock] at htrue

theorem canEvict_test : EvictTest (canEvict : RadixPrefixIndex Id Payload → _) :=
  evictTest_of (fun _ _ => rfl) fun _ hidle => hidle

theorem canEvictHost_test : EvictTest (canEvictHost : RadixPrefixIndex Id Payload → _) :=
  evictTest_of (fun _ _ => rfl) fun _ hgood => ⟨hgood.1, hgood.2.1, hgood.2.2.2.2⟩

/-- The weights a run needs in order not to raise. -/
def WeightsOk (blocks : Dict Id (PrefixCacheBlock Id Payload))
    (blockWeight : PrefixCacheBlock Id Payload → Except PyError ℤ) : Prop :=
  ∀ id block, blocks.get? id = some block → ∃ weight, blockWeight block = .ok weight ∧ 0 ≤ weight

variable {blocks : Dict Id (PrefixCacheBlock Id Payload)}

theorem WeightsOk.erase {x : Id} {blockWeight : PrefixCacheBlock Id Payload → Except PyError ℤ}
    (hweights : WeightsOk blocks blockWeight) : WeightsOk (blocks.erase x) blockWeight := by
  intro id block hget
  rw [Dict.get?_erase] at hget
  split at hget
  · cases hget
  · exact hweights id block hget

/-- What an eviction does: the returned blocks have been removed, one after the
other, and with sound weights nothing is raised. -/
def Evicts (index : RadixPrefixIndex Id Payload)
    (blockWeight : PrefixCacheBlock Id Payload → Except PyError ℤ)
    (before : List (PrefixCacheBlock Id Payload))
    (result : Except PyError (List (PrefixCacheBlock Id Payload)))
    (next : RadixPrefixIndex Id Payload) : Prop :=
  Moves index next ∧ (∃ removed, Removes index.blocks removed next.blocks ∧
    ∀ out, result = .ok out → out = before ++ removed) ∧
    (WeightsOk index.blocks blockWeight → ∃ out, result = .ok out)

section

variable {index : RadixPrefixIndex Id Payload}
  {blockWeight : PrefixCacheBlock Id Payload → Except PyError ℤ}

theorem Evicts.stop (h : Inv index) (before : List (PrefixCacheBlock Id Payload)) :
    Evicts index blockWeight before (.ok before) index :=
  ⟨Moves.refl h, ⟨[], .nil _, by simp⟩, fun _ => ⟨before, rfl⟩⟩

variable {before : List (PrefixCacheBlock Id Payload)}

theorem Evicts.fail (h : Inv index) {error : PyError} (hbad : ¬ WeightsOk index.blocks blockWeight) :
    Evicts index blockWeight before (.error error) index :=
  ⟨Moves.refl h, ⟨[], .nil _, by simp⟩, fun hok => absurd hok hbad⟩

/-- One removal and then the rest. -/
theorem Evicts.cons {block : PrefixCacheBlock Id Payload} {mid next : RadixPrefixIndex Id Payload}
    {result : Except PyError (List (PrefixCacheBlock Id Payload))} {x : Id}
    (hmoves : Moves index mid) (hremovable : Removable index.blocks x block)
    (hmid : mid.blocks = index.blocks.erase x) (hrest : Evicts mid blockWeight (before ++ [block]) result next) :
    Evicts index blockWeight before result next := by
  obtain ⟨hmoves', ⟨removed, hremoved, hout⟩, hok⟩ := hrest
  rw [hmid] at hremoved hok
  have hall : Removes index.blocks (block :: removed) next.blocks := .cons hremovable hremoved
  refine ⟨hmoves.trans hmoves' (Or.inr ⟨_, hall⟩), ⟨block :: removed, hall, fun out h => ?_⟩,
    fun hweights => hok hweights.erase⟩
  rw [hout out h, List.append_assoc, List.singleton_append]

variable {test : RadixPrefixIndex Id Payload → PrefixCacheBlock Id Payload → Except PyError Bool}

/-- **The eviction loop.** -/
theorem evictLoop_spec (htest : EvictTest test) (negativeWeight : PyError) (neededWeight : ℤ)
    (fuel : ℕ) (h : Inv index) (evictedWeight : ℤ) (candidates : CandidateHeap Id)
    (evicted : List (PrefixCacheBlock Id Payload)) :
    wp (evictLoop test negativeWeight neededWeight blockWeight fuel evictedWeight candidates evicted)
      (Evicts index blockWeight evicted) index := by
  induction fuel generalizing index evictedWeight candidates evicted with
  | zero => exact Evicts.stop h evicted
  | succ fuel ih =>
      obtain ⟨found, rest, hpop, hfound⟩ :=
        popCandidate_ok h (htest.total index h) candidates.heap.length candidates
      unfold evictLoop
      simp only [wp_ite, wp_pure, wp_bind, wp_read, wp_ofExcept, hpop]
      refine ⟨fun _ => Evicts.stop h evicted, fun _ => ?_⟩
      cases found with
      | none => exact Evicts.stop h evicted
      | some block =>
          obtain ⟨hget, htrue⟩ := hfound block rfl
          have hremovable := htest.sound index h block hget htrue
          simp only [wp_bind, wp_ofExcept]
          cases hweight : blockWeight block with
          | error error =>
              refine Evicts.fail h fun hok => ?_
              obtain ⟨weight, hw, -⟩ := hok _ _ hget
              rw [hweight] at hw
              cases hw
          | ok weight =>
              simp only [wp_raiseIf]
              refine ⟨fun hneg => Evicts.fail h fun hok => ?_, fun _ => ?_⟩
              · obtain ⟨other, hw, hpos⟩ := hok _ _ hget
                obtain rfl : weight = other := by simpa [hweight] using hw
                omega
              obtain ⟨mid, hrun, hmoves, hmid⟩ := removeBlockFromIndex_ready h hremovable
              obtain ⟨next, hqueue⟩ := queueIf_ok (htest.total mid hmoves.inv) rest block.parentBlockId
              rw [wp_def, hrun]
              simp only [wp_read, hqueue]
              exact Evicts.cons hmoves hremovable hmid (ih hmoves.inv _ _ _)

/-- Filling the heap before the loop. -/
theorem foldlM_queueIf_ok {listed : List Id} {candidates : CandidateHeap Id}
    {test : PrefixCacheBlock Id Payload → Except PyError Bool} (htotal : TestTotal index test) :
    ∃ filled, listed.foldlM
      (fun candidates blockId => queueIf index test candidates (some blockId)) candidates = .ok filled := by
  induction listed generalizing candidates with
  | nil => exact ⟨candidates, rfl⟩
  | cons x rest ih =>
      obtain ⟨next, hnext⟩ := queueIf_ok htotal candidates (some x)
      obtain ⟨filled, hfilled⟩ := @ih next
      refine ⟨filled, ?_⟩
      rw [List.foldlM_cons, hnext]
      exact hfilled

theorem evictWith_spec (htest : EvictTest test) (negativeWeight : PyError) (neededWeight : ℤ) (h : Inv index) :
    wp (evictWith test negativeWeight neededWeight blockWeight) (Evicts index blockWeight []) index := by
  obtain ⟨filled, hfilled⟩ := @foldlM_queueIf_ok _ _ _ index
    (index.backend.leafBlockIds.sort (· ≤ ·)) {} (test index) (htest.total index h)
  unfold evictWith
  simp only [wp_ite, wp_pure, wp_bind, wp_read, wp_ofExcept, hfilled]
  exact ⟨fun _ => Evicts.stop h [], fun _ => evictLoop_spec htest _ _ _ h _ _ _⟩

/-- **`evict_until_weight`**. -/
theorem evictUntilWeight_spec (h : Inv index) (neededWeight : ℤ) :
    wp (evictUntilWeight neededWeight blockWeight) (Evicts index blockWeight []) index :=
  evictWith_spec canEvict_test _ _ h

/-- **`evict_host_until_weight`**. -/
theorem evictHostUntilWeight_spec (h : Inv index) (neededWeight : ℤ) :
    wp (evictHostUntilWeight neededWeight blockWeight) (Evicts index blockWeight []) index :=
  evictWith_spec canEvictHost_test _ _ h

theorem ensureInsertCapacity_moves (h : Inv index) (neededBlocks : ℤ) :
    Moves index ((ensureInsertCapacity neededBlocks).after index) := by
  show wp (ensureInsertCapacity neededBlocks) (fun _ next => Moves index next) index
  unfold ensureInsertCapacity
  simp only [wp_bind, wp_read]
  cases index.maxBlocks with
  | none => exact Moves.refl h
  | some maxBlocks =>
      simp only [wp_bind, wp_raiseIf, wp_ite, wp_pure]
      refine ⟨fun _ => Moves.refl h, fun _ => ⟨fun _ => Moves.refl h, fun _ => ?_⟩⟩
      refine wp_mono (evictUntilWeight_spec h _) fun result mid hevicts => ?_
      cases result with
      | error error => exact hevicts.1
      | ok evicted =>
          refine ⟨fun _ => hevicts.1, fun _ => ?_⟩
          obtain ⟨ids, next, hrun, hqueried, -⟩ := evictableBlockIds_spec hevicts.1.inv
          simp only [wp_def, read_apply, hrun]
          have hchanged : Changed index.blocks next.blocks := by
            rw [hqueried.blocks]
            exact hevicts.1.changed
          exact hevicts.1.trans hqueried.moves hchanged

end

/-! ## Deletion -/

section

variable {index : RadixPrefixIndex Id Payload}

/-- The blocks can be deleted in this order. -/
inductive Deletable : Dict Id (PrefixCacheBlock Id Payload) →
    List (PrefixCacheBlock Id Payload) → Prop
  | nil (blocks : Dict Id (PrefixCacheBlock Id Payload)) : Deletable blocks []
  | cons {blocks : Dict Id (PrefixCacheBlock Id Payload)} {block : PrefixCacheBlock Id Payload}
      {rest : List (PrefixCacheBlock Id Payload)}
      (removable : Removable blocks block.stableBlockId block)
      (tail : Deletable (blocks.erase block.stableBlockId) rest) : Deletable blocks (block :: rest)

/-- **The deletion loop.** -/
theorem deletePlanned_spec (h : Inv index) (planned deleted : List (PrefixCacheBlock Id Payload)) :
    wp (deletePlanned planned deleted) (fun result next => Moves index next ∧
      (∃ removed, Removes index.blocks removed next.blocks ∧ ∀ out, result = .ok out → out = deleted ++ removed) ∧
      (Deletable index.blocks planned → ∃ out, result = .ok out)) index := by
  induction planned generalizing index deleted with
  | nil =>
      refine ⟨Moves.refl h, ⟨[], .nil _, fun out hout => ?_⟩, fun _ => ⟨deleted, rfl⟩⟩
      rw [List.append_nil]
      exact (Except.ok.inj hout).symm
  | cons block rest ih =>
      unfold deletePlanned
      simp only [wp_bind, wp_read, wp_raiseIf]
      refine ⟨fun hstale => ⟨Moves.refl h, ⟨[], .nil _, by simp⟩, fun hdeletable => ?_⟩, fun _ => ?_⟩
      · cases hdeletable with
        | cons hremovable _ =>
            exact absurd (isIndexed_iff.mpr ⟨block, hremovable.indexed, rfl⟩) hstale
      by_cases hremovable : ∃ stored, Removable index.blocks block.stableBlockId stored
      · obtain ⟨stored, hremovable⟩ := hremovable
        obtain ⟨mid, hrun, hmoves, hmid⟩ := removeBlockFromIndex_ready h hremovable
        rw [wp_def, hrun]
        refine wp_mono (ih hmoves.inv (deleted ++ [stored])) fun result next hrest => ?_
        obtain ⟨hmoves', ⟨removed, hremoved, hout⟩, hok⟩ := hrest
        rw [hmid] at hremoved hok
        have hall : Removes index.blocks (stored :: removed) next.blocks := .cons hremovable hremoved
        refine ⟨hmoves.trans hmoves' (Or.inr ⟨_, hall⟩), ⟨stored :: removed, hall, fun out h => ?_⟩,
          fun hdeletable => ?_⟩
        · rw [hout out h, List.append_assoc, List.singleton_append]
        · cases hdeletable with
          | cons _ htail => exact hok htail
      · obtain ⟨error, hrun⟩ := removeBlockFromIndex_refused h fun stored hstored =>
          hremovable ⟨stored, hstored⟩
        rw [wp_def, hrun]
        refine ⟨Moves.refl h, ⟨[], .nil _, by simp⟩, fun hdeletable => ?_⟩
        cases hdeletable with
        | cons hready _ => exact absurd ⟨block, hready⟩ hremovable

theorem safeDeleteSubtree_moves (h : Inv index) (hash : List ℤ → Option Id → Id)
    (tokenIds : List ℤ) : Moves index ((safeDeleteSubtree hash tokenIds).after index) := by
  show wp (safeDeleteSubtree hash tokenIds) (fun _ next => Moves index next) index
  unfold safeDeleteSubtree
  simp only [wp_bind, wp_read, wp_ofExcept, wp_pure]
  cases index.previewDeleteSubtree hash tokenIds with
  | error error => exact Moves.refl h
  | ok plan =>
      refine wp_mono (deletePlanned_spec h plan.deletedBlocks []) fun result next hspec => ?_
      cases result with
      | error error => exact hspec.1
      | ok deleted => exact hspec.1

theorem rollbackInsertedLeaf_moves (h : Inv index) (block : PrefixCacheBlock Id Payload) :
    Moves index ((rollbackInsertedLeaf block).after index) := by
  show wp (rollbackInsertedLeaf block) (fun _ next => Moves index next) index
  unfold rollbackInsertedLeaf
  simp only [wp_bind, wp_read, wp_raiseIf, wp_ofExcept]
  refine ⟨fun _ => Moves.refl h, fun _ => ⟨fun _ => Moves.refl h, fun _ => ?_⟩⟩
  cases index.childCount (index.resolve block).stableBlockId with
  | error error => exact Moves.refl h
  | ok count =>
      refine ⟨fun _ => Moves.refl h, fun _ => ⟨fun _ => Moves.refl h, fun _ => ?_⟩⟩
      by_cases hremovable : ∃ stored, Removable index.blocks (index.resolve block).stableBlockId stored
      · obtain ⟨stored, hremovable⟩ := hremovable
        obtain ⟨next, hrun, hmoves, -⟩ := removeBlockFromIndex_ready h hremovable
        rw [wp_def, hrun]
        have hinv := hmoves.inv
        exact hmoves.trans (Moves.ofStep ⟨hinv.ids, hinv.first, hinv.tree, hinv.routing,
          hinv.snapshot, hinv.tracked, hinv.valid, hinv.device, hinv.host⟩ (Changed.refl _)
          rfl rfl ⟨rfl, le_rfl, fun _ => SameView.refl _⟩) hmoves.changed
      · obtain ⟨error, hrun⟩ := removeBlockFromIndex_refused h fun stored hstored =>
          hremovable ⟨stored, hstored⟩
        rw [wp_def, hrun]
        exact Moves.refl h

end

/-! ## Demotion -/

/-- The block without its device payload. -/
def demotedBlock (block : PrefixCacheBlock Id Payload) : PrefixCacheBlock Id Payload :=
  { block with residency := { block.residency with devicePresent := false } }

/-- What `demotable` asks of a block, its children apart. -/
def HostBacked (block : PrefixCacheBlock Id Payload) : Prop :=
  block.refCount = 0 ∧ 0 ≤ block.evictionPriority ∧ block.residency.devicePresent = true ∧
    block.residency.hostPresent = true ∧ block.residency.transfer = none

/-- The listed blocks lose their device payloads one after the other. -/
inductive Demotes : Dict Id (PrefixCacheBlock Id Payload) → List (PrefixCacheBlock Id Payload) →
    Dict Id (PrefixCacheBlock Id Payload) → Prop
  | nil (blocks : Dict Id (PrefixCacheBlock Id Payload)) : Demotes blocks [] blocks
  | cons {blocks next : Dict Id (PrefixCacheBlock Id Payload)} {x : Id}
      {block : PrefixCacheBlock Id Payload} {rest : List (PrefixCacheBlock Id Payload)}
      (indexed : blocks.get? x = some block) (backed : HostBacked block)
      (tail : Demotes (blocks.set x (demotedBlock block)) rest next) :
      Demotes blocks (demotedBlock block :: rest) next

theorem Demotes.rewrites {next : Dict Id (PrefixCacheBlock Id Payload)}
    {listed : List (PrefixCacheBlock Id Payload)} (hdemotes : Demotes blocks listed next) :
    Rewrites blocks next := by
  induction hdemotes with
  | nil => exact Relation.ReflTransGen.refl
  | @cons blocks next x block rest hget _ _ ih =>
      have hsame : SameIdentity block (demotedBlock block) := ⟨rfl, rfl, rfl, rfl, rfl, rfl⟩
      exact Relation.ReflTransGen.trans (Rewrites.single hget hsame) ih

/-- `device_children` counts the device-present children of the device-present
blocks. -/
def DemotionCounts (blocks : Dict Id (PrefixCacheBlock Id Payload)) (children : Dict Id ℤ) : Prop :=
  ∀ id, DeviceIn blocks id → children.get? id =
    some (blockedChildren (parentIn blocks) (deviceKeys blocks) ∅ id : ℤ)

/-- The weights a demotion needs in order not to raise. -/
def DeviceWeightsOk (blocks : Dict Id (PrefixCacheBlock Id Payload))
    (blockWeight : PrefixCacheBlock Id Payload → Except PyError ℤ) : Prop :=
  ∀ id block, blocks.get? id = some block → block.residency.devicePresent = true →
    ∃ weight, blockWeight block = .ok weight ∧ 0 ≤ weight

section

variable {index : RadixPrefixIndex Id Payload} {x : Id} {block : PrefixCacheBlock Id Payload}
  {children : Dict Id ℤ}

theorem demotable_of_not (hbacked : ¬ HostBacked block) :
    demotable children block = .ok false :=
  if_pos hbacked

theorem demotable_of_backed (hbacked : HostBacked block) {count : ℤ}
    (hcount : children.get? block.stableBlockId = some count) :
    demotable children block = .ok (decide (count = 0)) := by
  unfold demotable
  refine (if_neg (not_not.mpr hbacked)).trans ?_
  rw [hcount]

theorem demotable_total (h : Inv index) (hcounts : DemotionCounts index.blocks children) :
    TestTotal index (demotable children) := by
  intro id other hget
  by_cases hbacked : HostBacked other
  · have hcount := hcounts id ⟨other, hget, hbacked.2.2.1⟩
    rw [← h.ids id other hget] at hcount
    exact ⟨_, demotable_of_backed hbacked hcount⟩
  · exact ⟨false, demotable_of_not hbacked⟩

theorem demotable_sound (hget : index.blocks.get? block.stableBlockId = some block)
    (hcounts : DemotionCounts index.blocks children) (htrue : demotable children block = .ok true) :
    HostBacked block ∧ ∀ c, DeviceIn index.blocks c → parentIn index.blocks c ≠ some block.stableBlockId := by
  by_cases hbacked : HostBacked block
  · have hcount := hcounts _ ⟨block, hget, hbacked.2.2.1⟩
    rw [demotable_of_backed hbacked hcount] at htrue
    have hzero : blockedChildren (parentIn index.blocks) (deviceKeys index.blocks) ∅ block.stableBlockId = 0 := by
      simpa using htrue
    refine ⟨hbacked, fun c hc hpar => ?_⟩
    have := blockedChildren_eq_zero_iff.mp hzero c (mem_deviceKeys_iff.mpr hc) hpar
    simp at this
  · rw [demotable_of_not hbacked] at htrue
    cases htrue

variable {blocks : Dict Id (PrefixCacheBlock Id Payload)}

theorem deviceIn_demoted_iff (id : Id) :
    DeviceIn (blocks.set x (demotedBlock block)) id ↔ id ≠ x ∧ DeviceIn blocks id := by
  by_cases hid : id = x
  · subst hid
    simp [DeviceIn, demotedBlock]
  · simp [DeviceIn, hid]

theorem deviceKeys_demoted (hget : blocks.get? x = some block) :
    deviceKeys (blocks.set x (demotedBlock block)) = (deviceKeys blocks).filter fun c => c ≠ x := by
  rw [deviceKeys_eq_filter, deviceKeys_eq_filter, Dict.keys_set_of_get? _ hget, List.filter_filter]
  refine List.filter_congr fun id _ => ?_
  by_cases hid : id = x
  · simp [hid, demotedBlock]
  · simp [hid]

/-- The counters after a demotion: one child less for the parent. -/
theorem DemotionCounts.demote (hcounts : DemotionCounts blocks children)
    (hget : blocks.get? x = some block) (hpresent : block.residency.devicePresent = true) :
    (block.parentBlockId = none → DemotionCounts (blocks.set x (demotedBlock block)) children) ∧
      ∀ p count, block.parentBlockId = some p → children.get? p = some count → DeviceIn blocks p →
        DemotionCounts (blocks.set x (demotedBlock block)) (children.set p (count - 1)) := by
  have hparent : (demotedBlock block).parentBlockId = block.parentBlockId := rfl
  have hx : x ∈ deviceKeys blocks := mem_deviceKeys_iff.mpr ⟨block, hget, hpresent⟩
  have hup := parentIn_of_get? hget
  have hcount : ∀ id, blockedChildren (parentIn (blocks.set x (demotedBlock block)))
      (deviceKeys (blocks.set x (demotedBlock block))) ∅ id =
      blockedChildren (parentIn blocks) (deviceKeys blocks) (insert x ∅) id := by
    intro id
    rw [parentIn_set hget hparent, deviceKeys_demoted hget, blockedChildren_filter_ne]
  refine ⟨fun hroot id hid => ?_, fun p count hp hpcount hpdevice id hid => ?_⟩
  · rw [deviceIn_demoted_iff] at hid
    rw [hcounts id hid.2, hcount, blockedChildren_insert_other]
    rw [hup, hroot]
    simp
  · rw [deviceIn_demoted_iff] at hid
    rw [hcount]
    by_cases hidp : id = p
    · subst hidp
      have hdrop : blockedChildren (parentIn blocks) (deviceKeys blocks) ∅ id =
          blockedChildren (parentIn blocks) (deviceKeys blocks) (insert x ∅) id + 1 :=
        blockedChildren_insert_child (deviceKeys_nodup blocks) hx (hup.trans hp) (Finset.notMem_empty x)
      have hold : count = _ := Option.some.inj (hpcount.symm.trans (hcounts id hpdevice))
      rw [Dict.get?_set_self, hold, hdrop]
      congr 1
      push_cast
      omega
    · rw [Dict.get?_set_of_ne _ _ hidp, hcounts id hid.2, blockedChildren_insert_other]
      rw [hup, hp]
      simpa using fun heq => hidp heq.symm

/-- One demotion. -/
theorem demote_moves (h : Inv index) (hget : index.blocks.get? x = some block) (hbacked : HostBacked block)
    (hchildless : ∀ c, DeviceIn index.blocks c → parentIn index.blocks c ≠ some x) :
    store (demotedBlock block) index =
        { index with blocks := index.blocks.set x (demotedBlock block) } ∧
      Moves index (markCapacityMutated
        { index with blocks := index.blocks.set x (demotedBlock block) }) := by
  have hsame : SameIdentity block (demotedBlock block) := ⟨rfl, rfl, rfl, rfl, rfl, rfl⟩
  have hidle : Idle (demotedBlock block) ↔ Idle block := Iff.rfl
  obtain ⟨-, -, -, hhost, hquiet⟩ := hbacked
  have hvalid : (demotedBlock block).residency.validate = .ok () := by
    rw [validate_ok_iff]
    simp [demotedBlock, hhost, hquiet]
  have htracked : Tracked (index.blocks.set x (demotedBlock block)) index.freeableIds
      index.blockedFreeableChildren :=
    TrackedExcept.set hget hsame.parentBlockId (Or.inr hidle) h.tracked
  refine ⟨store_of_get? hget (h.ids _ block hget) rfl, ?_⟩
  exact Moves.ofWrite h hget hsame hvalid
    (Contiguous.set h.device hget rfl (fun hin => by simp [demotedBlock] at hin)
      fun _ => Or.inr fun c child hc hin => hchildless c ⟨child, hc, hin⟩)
    (Contiguous.set_same h.host hget rfl rfl)
    htracked (index.mutationEpoch + 1) index.clock (Or.inl rfl)

end

/-- What a demotion does: the returned blocks have lost their device payloads,
one after the other, and with sound weights nothing is raised. -/
def DemotesTo (index : RadixPrefixIndex Id Payload)
    (blockWeight : PrefixCacheBlock Id Payload → Except PyError ℤ)
    (before : List (PrefixCacheBlock Id Payload))
    (result : Except PyError (List (PrefixCacheBlock Id Payload)))
    (next : RadixPrefixIndex Id Payload) : Prop :=
  Moves index next ∧ (∃ listed, Demotes index.blocks listed next.blocks ∧
    ∀ out, result = .ok out → out = before ++ listed) ∧
    (DeviceWeightsOk index.blocks blockWeight → ∃ out, result = .ok out)

section

variable {index : RadixPrefixIndex Id Payload}
  {blockWeight : PrefixCacheBlock Id Payload → Except PyError ℤ}

theorem DemotesTo.stop (h : Inv index) (before : List (PrefixCacheBlock Id Payload)) :
    DemotesTo index blockWeight before (.ok before) index :=
  ⟨Moves.refl h, ⟨[], .nil _, by simp⟩, fun _ => ⟨before, rfl⟩⟩

variable {before : List (PrefixCacheBlock Id Payload)}

theorem DemotesTo.fail (h : Inv index) {error : PyError} (hbad : ¬ DeviceWeightsOk index.blocks blockWeight) :
    DemotesTo index blockWeight before (.error error) index :=
  ⟨Moves.refl h, ⟨[], .nil _, by simp⟩, fun hok => absurd hok hbad⟩

theorem DemotesTo.cons {block : PrefixCacheBlock Id Payload} {mid next : RadixPrefixIndex Id Payload}
    {result : Except PyError (List (PrefixCacheBlock Id Payload))} {x : Id}
    (hmoves : Moves index mid) (hget : index.blocks.get? x = some block)
    (hbacked : HostBacked block) (hmid : mid.blocks = index.blocks.set x (demotedBlock block))
    (hrest : DemotesTo mid blockWeight (before ++ [demotedBlock block]) result next) :
    DemotesTo index blockWeight before result next := by
  obtain ⟨hmoves', ⟨listed, hlisted, hout⟩, hok⟩ := hrest
  rw [hmid] at hlisted hok
  have hall : Demotes index.blocks (demotedBlock block :: listed) next.blocks :=
    .cons hget hbacked hlisted
  refine ⟨hmoves.trans hmoves' (Or.inl hall.rewrites), ⟨demotedBlock block :: listed, hall,
    fun out h => ?_⟩, fun hweights => hok fun id other hother hpresent => ?_⟩
  · rw [hout out h, List.append_assoc, List.singleton_append]
  · rw [Dict.get?_set] at hother
    split at hother
    · obtain rfl : demotedBlock block = other := by simpa using hother
      simp [demotedBlock] at hpresent
    · exact hweights id other hother hpresent

/-- **The demotion loop.** -/
theorem demoteLoop_spec (neededWeight : ℤ) (fuel : ℕ) (h : Inv index) (demotedWeight : ℤ)
    {children : Dict Id ℤ} (hcounts : DemotionCounts index.blocks children)
    (candidates : CandidateHeap Id) (before : List (PrefixCacheBlock Id Payload)) :
    wp (demoteLoop neededWeight blockWeight fuel demotedWeight children candidates before)
      (DemotesTo index blockWeight before) index := by
  induction fuel generalizing index demotedWeight children candidates before with
  | zero => exact DemotesTo.stop h before
  | succ fuel ih =>
      obtain ⟨found, rest, hpop, hfound⟩ :=
        popCandidate_ok h (demotable_total h hcounts) candidates.heap.length candidates
      unfold demoteLoop
      simp only [wp_ite, wp_pure, wp_bind, wp_read, wp_ofExcept, hpop]
      refine ⟨fun _ => DemotesTo.stop h before, fun _ => ?_⟩
      cases found with
      | none => exact DemotesTo.stop h before
      | some block =>
          obtain ⟨hget, htrue⟩ := hfound block rfl
          -- a candidate that passes is backed by the host and has no child on the device:
          obtain ⟨hbacked, hchildless⟩ := demotable_sound hget hcounts htrue
          have hpresent := hbacked.2.2.1
          simp only [wp_bind, wp_ofExcept]
          cases hweight : blockWeight block with
          | error error =>
              refine DemotesTo.fail h fun hok => ?_
              obtain ⟨weight, hw, -⟩ := hok _ _ hget hpresent
              rw [hweight] at hw
              cases hw
          | ok weight =>
              simp only [wp_raiseIf, wp_write]
              refine ⟨fun hneg => DemotesTo.fail h fun hok => ?_, fun _ => ?_⟩
              · obtain ⟨other, hw, hpos⟩ := hok _ _ hget hpresent
                obtain rfl : weight = other := by simpa [hweight] using hw
                omega
              obtain ⟨hstore, hmoves⟩ := demote_moves h hget hbacked hchildless
              obtain ⟨hroot, hchild⟩ := hcounts.demote hget hpresent
              have hvalid : ({ block.residency with devicePresent := false } :
                  PrefixBlockResidency).validate = .ok () := by
                rw [validate_ok_iff]
                simp [hbacked.2.2.2.1, hbacked.2.2.2.2]
              have hnew : { block with residency := { block.residency with devicePresent := false } } =
                  demotedBlock block := rfl
              simp only [hvalid, hnew, hstore]
              cases hp : block.parentBlockId with
              | none =>
                  exact DemotesTo.cons hmoves hget hbacked rfl (ih hmoves.inv _ (hroot hp) _ _)
              | some p =>
                  have hpdevice : DeviceIn index.blocks p := h.device _ p ⟨block, hget, hpresent⟩
                    (by rw [parentIn_of_get? hget, hp])
                  have hpcount := hcounts p hpdevice
                  have hcounts' := hchild p _ hp hpcount hpdevice
                  -- the parent joins the heap when this was its last child:
                  have hqueue : ∃ candidates', (if (blockedChildren (parentIn index.blocks)
                        (deviceKeys index.blocks) ∅ p : ℤ) - 1 = 0 then
                      (markCapacityMutated { index with
                        blocks := index.blocks.set block.stableBlockId (demotedBlock block) }).queueIf
                        (demotable (children.set p ((blockedChildren (parentIn index.blocks)
                          (deviceKeys index.blocks) ∅ p : ℤ) - 1))) rest (some p)
                      else .ok rest) = .ok candidates' := by
                    split
                    · exact queueIf_ok (demotable_total hmoves.inv hcounts') rest (some p)
                    · exact ⟨rest, rfl⟩
                  obtain ⟨candidates', hqueue⟩ := hqueue
                  simp only [hpcount, wp_bind, wp_read, wp_ofExcept, hqueue]
                  exact DemotesTo.cons hmoves hget hbacked rfl (ih hmoves.inv _ hcounts' _ _)

/-- The counting at the start of a demotion. -/
theorem countDemotionChildren_eq (h : Inv index) : ∃ children,
    countDemotionChildren index.blocks = .ok children ∧ DemotionCounts index.blocks children := by
  obtain ⟨resident, hresident⟩ : ∃ resident,
      (index.blocks.filter fun _ block => block.residency.devicePresent) = resident := ⟨_, rfl⟩
  have hkeys : resident.keys = deviceKeys index.blocks := by rw [← hresident, deviceKeys]
  have hpart : ∀ id block, resident.get? id = some block →
      index.blocks.get? id = some block ∧ block.residency.devicePresent = true := by
    intro id block hget
    rw [← hresident, Dict.get?_filter, Option.filter_eq_some_iff] at hget
    exact hget
  have hparents : ∀ block ∈ resident.values, ∀ p ∈ block.parentBlockId,
      p ∈ (resident.mapValues fun _ _ => (0 : ℤ)).keys := by
    intro block hblock p hp
    obtain ⟨id, hget⟩ := Dict.mem_values_iff.mp hblock
    obtain ⟨hget', hpresent⟩ := hpart id block hget
    rw [Dict.keys_mapValues, hkeys, mem_deviceKeys_iff]
    exact h.device id p ⟨block, hget', hpresent⟩ ((parentIn_of_get? hget').trans hp)
  obtain ⟨children, hrun, hchildren, htally⟩ := countParent_foldlM hparents
  rw [Dict.keys_mapValues, hkeys] at hchildren htally
  refine ⟨children, ?_, fun id hid => ?_⟩
  · unfold countDemotionChildren
    rw [hresident]
    exact hrun
  · have hmem := mem_deviceKeys_iff.mpr hid
    obtain ⟨count, hget⟩ := Dict.mem_keys_iff.mp (hchildren ▸ hmem)
    have hzero : tally (resident.mapValues fun _ _ => (0 : ℤ)) id = 0 := by
      rw [tally, Dict.get?_mapValues]
      cases resident.get? id <;> rfl
    rw [hget, ← tally_of_get? hget, htally id hmem, hzero, zero_add,
      countP_values index.blocks resident fun id block hblock => (hpart id block hblock).1, hkeys]

/-- **`demote_device_until_weight`**. -/
theorem demoteDeviceUntilWeight_spec (h : Inv index) (neededWeight : ℤ) :
    wp (demoteDeviceUntilWeight neededWeight blockWeight) (DemotesTo index blockWeight []) index := by
  obtain ⟨children, hcount, hcounts⟩ := countDemotionChildren_eq h
  have hfill : ∀ (listed : List (Id × ℤ)) (candidates : CandidateHeap Id), ∃ filled,
      listed.foldlM (fun candidates entry =>
        if entry.2 = 0 then queueIf index (demotable children) candidates (some entry.1)
        else .ok candidates) candidates = .ok filled := by
    intro listed
    induction listed with
    | nil => exact fun candidates => ⟨candidates, rfl⟩
    | cons entry rest ih =>
        intro candidates
        have hentry : ∃ next, (if entry.2 = 0 then
            queueIf index (demotable children) candidates (some entry.1)
            else .ok candidates) = .ok next := by
          split
          · exact queueIf_ok (demotable_total h hcounts) candidates (some entry.1)
          · exact ⟨candidates, rfl⟩
        obtain ⟨next, hnext⟩ := hentry
        obtain ⟨filled, hfilled⟩ := ih next
        refine ⟨filled, ?_⟩
        rw [List.foldlM_cons, hnext]
        exact hfilled
  obtain ⟨filled, hfilled⟩ := hfill children.entries {}
  unfold demoteDeviceUntilWeight
  simp only [wp_ite, wp_pure, wp_bind, wp_read, wp_ofExcept, hcount, hfilled]
  exact ⟨fun _ => DemotesTo.stop h [], fun _ => demoteLoop_spec _ _ h _ hcounts _ _⟩

end

/-! ## The remaining methods -/

section

variable {index : RadixPrefixIndex Id Payload}

theorem markPayloadCompacted_moves (h : Inv index) (blocks : List (PrefixCacheBlock Id Payload)) :
    Moves index ((markPayloadCompacted blocks).after index) := by
  show wp (markPayloadCompacted blocks) (fun _ next => Moves index next) index
  unfold markPayloadCompacted
  simp only [wp_ite, wp_pure, wp_bind, wp_read, wp_raiseIf, wp_write]
  refine ⟨fun _ => Moves.refl h, fun _ => ⟨fun _ => Moves.refl h, fun _ => ?_⟩⟩
  apply Moves.ofStep
  · exact ⟨h.ids, h.first, h.tree, h.routing, h.snapshot, h.tracked, h.valid, h.device, h.host⟩
  · exact Changed.refl _
  · rfl
  · rfl
  · refine ⟨rfl, ?_, fun _ => SameView.refl _⟩
    show index.capacityEpoch ≤ index.capacityEpoch + 1
    omega

/-- **`routing_snapshot`** returns a snapshot of the current routing set. -/
theorem routingSnapshot_spec (h : Inv index) (method : String) : ∃ snapshot next,
    routingSnapshot method index = (.ok snapshot, next) ∧ Queried index next ∧
      snapshot = ⟨method, index.blockSize, index.routingMembership⟩ := by
  have hlive : ¬ index.routingMembership.liveBlocks ≠ index.blocks.size := by
    rw [h.routing.live, Dict.length_keys, not_not]
  have hbuild : ∃ next, routingSnapshot.buildSnapshot method index index =
      (.ok ⟨method, index.blockSize, index.routingMembership⟩, next) ∧ Queried index next := by
    refine ⟨{ index with
      routingSnapshotCache := some ⟨method, index.blockSize, index.routingMembership⟩ }, ?_,
      ⟨?_, rfl⟩⟩
    · simp only [routingSnapshot.buildSnapshot, bind_apply, raiseIf_apply, hlive, if_false, write_apply, pure_apply]
    · apply Moves.ofStep
      · refine ⟨h.ids, h.first, h.tree, h.routing, fun snapshot hsnapshot => ?_, h.tracked, h.valid, h.device, h.host⟩
        obtain rfl := Option.some.inj hsnapshot
        exact ⟨rfl, rfl⟩
      · exact Changed.refl _
      · rfl
      · rfl
      · exact ⟨rfl, le_rfl, fun _ => SameView.refl _⟩
  obtain ⟨next, hrun, hqueried⟩ := hbuild
  cases hcache : index.routingSnapshotCache with
  | none =>
      refine ⟨_, next, ?_, hqueried, rfl⟩
      simp only [routingSnapshot, bind_apply, read_apply, hcache, hrun]
  | some snapshot =>
      by_cases hmethod : snapshot.method = method
      · obtain ⟨hsize, hrouting⟩ := h.snapshot snapshot hcache
        refine ⟨snapshot, index, ?_, Queried.refl h, ?_⟩
        · simp only [routingSnapshot, bind_apply, read_apply, hcache, hmethod, if_true, pure_apply]
        · obtain ⟨name, size, routing⟩ := snapshot
          simp only at hmethod hsize hrouting
          rw [hmethod, hsize, hrouting]
      · refine ⟨_, next, ?_, hqueried, rfl⟩
        simp only [routingSnapshot, bind_apply, read_apply, hcache, if_neg hmethod, hrun]

end

end RadixPrefixIndex
