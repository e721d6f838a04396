import SparseEngine.PrefixIndex.CandidateHeap
import SparseEngine.PrefixIndex.Runs
import SparseEngine.Lib.Pruning

/-!
# What an eviction takes

`evict_until_weight` keeps its heap in step with the evictable blocks: a
removal takes the popped block off them, and at most its parent comes to them.
So each round removes the least block among all that are evictable at that
moment (`EvictsLeast`), and as removals of leaves the rounds are a run of
`Pruned`: only freeable blocks go, and when no candidate is left all of them
are gone.
-/

namespace RadixPrefixIndex

open Routine Forest RadixTreeBackend

variable {Id Payload : Type} [LinearOrder Id]

/-! ## Evictable blocks -/

/-- The test of the loop is what `evictable_block_ids` lists. -/
theorem passes_canEvict_iff {index : RadixPrefixIndex Id Payload} (h : Inv index) (id : Id) :
    Passes index (canEvict index) id ↔ EvictableIn index.blocks id := by
  cases hget : index.blocks.get? id with
  | none => simp [Passes, EvictableIn, IdleIn, hget]
  | some block =>
      have hmem := Dict.mem_keys_of_get? hget
      obtain ⟨children, -, -, hcount, hchildren⟩ := h.tree.childBlockIds_eq hmem
      have hchildless : children.length = 0 ↔ ∀ c ∈ index.blocks.keys, parentIn index.blocks c ≠ some id := by
        rw [List.length_eq_zero_iff, List.eq_nil_iff_forall_not_mem]
        refine forall_congr' fun c => ?_
        rw [hchildren c, not_and]
      have htest : canEvict index block = .ok true ↔ Idle block ∧ children.length = 0 := by
        unfold canEvict
        by_cases hidle : Idle block
        · have hcalls : index.childCount block.stableBlockId = .ok children.length := by
            rw [h.ids id block hget]
            exact hcount
          simp [hidle, hcalls, bind, Except.bind, pure, Except.pure]
        · simp [hidle]
      rw [EvictableIn, idleIn_iff_of_get? hget, ← hchildless, ← htest]
      simp [Passes, hget]

theorem goodLeaf_iff {blocks : Dict Id (PrefixCacheBlock Id Payload)} (id : Id) :
    GoodLeaf (parentIn blocks) (IdleIn blocks) blocks.keys id ↔ EvictableIn blocks id := by
  constructor
  · exact fun hleaf => ⟨hleaf.good, hleaf.childless⟩
  · rintro ⟨hidle, hchildless⟩
    have ⟨_, hget, _⟩ := hidle
    exact ⟨Dict.mem_keys_of_get? hget, hidle, hchildless⟩

section

variable {blocks : Dict Id (PrefixCacheBlock Id Payload)} {x : Id}

theorem idleIn_erase_iff {id : Id} (hid : id ≠ x) :
    IdleIn (blocks.erase x) id ↔ IdleIn blocks id := by
  simp [IdleIn, hid]

/-- **A removal** takes its block off the evictable ones, and brings at most the
parent to them. -/
theorem evictableIn_erase_iff (id : Id) : EvictableIn (blocks.erase x) id ↔ (EvictableIn blocks id ∧ id ≠ x) ∨
      (parentIn blocks x = some id ∧ EvictableIn (blocks.erase x) id) := by
  constructor
  · intro hevictable
    have hid : id ≠ x := by
      rintro rfl
      obtain ⟨⟨block, hget, -⟩, -⟩ := hevictable
      simp at hget
    by_cases hparent : parentIn blocks x = some id
    · exact Or.inr ⟨hparent, hevictable⟩
    · refine Or.inl ⟨⟨(idleIn_erase_iff hid).mp hevictable.1, fun c hc hcp => ?_⟩, hid⟩
      have hcx : c ≠ x := by
        rintro rfl
        exact hparent hcp
      refine hevictable.2 c (Dict.mem_keys_erase.mpr ⟨hc, hcx⟩) ?_
      rw [parentIn_erase_of_ne hcx]
      exact hcp
  · rintro (⟨hevictable, hid⟩ | ⟨-, hevictable⟩)
    · refine ⟨(idleIn_erase_iff hid).mpr hevictable.1, fun c hc => ?_⟩
      obtain ⟨hc, hcx⟩ := Dict.mem_keys_erase.mp hc
      rw [parentIn_erase_of_ne hcx]
      exact hevictable.2 c hc
    · exact hevictable

end

/-! ## Removing the least block, again and again -/

/-- The block is evictable, and no evictable block comes before it. -/
structure LeastEvictable (blocks : Dict Id (PrefixCacheBlock Id Payload))
    (block : PrefixCacheBlock Id Payload) : Prop where
  indexed : blocks.get? block.stableBlockId = some block
  evictable : EvictableIn blocks block.stableBlockId
  least : ∀ id other, blocks.get? id = some other → EvictableIn blocks id →
    Candidate.le (-block.evictionPriority, block.lastAccess, block.stableBlockId)
      (-other.evictionPriority, other.lastAccess, id) = true

/-- The listed blocks are removed one after the other, each one the least
evictable block at its turn. -/
inductive EvictsLeast : Dict Id (PrefixCacheBlock Id Payload) →
    List (PrefixCacheBlock Id Payload) → Dict Id (PrefixCacheBlock Id Payload) → Prop
  | nil (blocks : Dict Id (PrefixCacheBlock Id Payload)) : EvictsLeast blocks [] blocks
  | cons {blocks next : Dict Id (PrefixCacheBlock Id Payload)}
      {block : PrefixCacheBlock Id Payload} {rest : List (PrefixCacheBlock Id Payload)}
      (least : LeastEvictable blocks block)
      (tail : EvictsLeast (blocks.erase block.stableBlockId) rest next) :
      EvictsLeast blocks (block :: rest) next

section

variable {blocks next : Dict Id (PrefixCacheBlock Id Payload)}
  {evicted : List (PrefixCacheBlock Id Payload)}

section

variable (h : EvictsLeast blocks evicted next)

include h

/-- An eviction is a removal of leaves. -/
theorem EvictsLeast.pruned :
    Pruned (parentIn blocks) (IdleIn blocks) blocks.keys (evicted.map (·.stableBlockId)) next.keys := by
  induction h with
  | nil => exact Pruned.nil _
  | @cons blocks next block rest hleast _ ih =>
      refine Pruned.cons ((goodLeaf_iff _).mpr hleast.evictable) ?_
      rw [Dict.keys_erase] at ih
      have hne {c : Id} (hc : c ∈ blocks.keys.filter fun q => q ≠ block.stableBlockId) :
          c ≠ block.stableBlockId := by
        simpa using (List.mem_filter.mp hc).2
      exact ih.congr (fun c hc => (parentIn_erase_of_ne (hne hc)).symm) fun c hc => (idleIn_erase_iff (hne hc)).symm

/-- The other blocks are as they were. -/
theorem EvictsLeast.get?_eq {id : Id} (hid : id ∉ evicted.map (·.stableBlockId)) :
    next.get? id = blocks.get? id := by
  induction h with
  | nil => rfl
  | cons _ _ ih =>
      rw [List.map_cons, List.mem_cons, not_or] at hid
      rw [ih hid.2, Dict.get?_erase, if_neg hid.1]

theorem EvictsLeast.get?_evicted {block : PrefixCacheBlock Id Payload} (hblock : block ∈ evicted) :
    blocks.get? block.stableBlockId = some block ∧ next.get? block.stableBlockId = none := by
  constructor
  · induction h with
    | nil => cases hblock
    | @cons blocks next first rest hleast _ ih =>
        rcases List.mem_cons.mp hblock with rfl | hblock
        · exact hleast.indexed
        · have hget := ih hblock
          rw [Dict.get?_erase] at hget
          split at hget
          · cases hget
          · exact hget
  · rw [← Dict.not_mem_keys_iff, h.pruned.left_eq]
    intro hmem
    have hnot := (List.mem_filter.mp hmem).2
    simp only [decide_eq_true_eq] at hnot
    exact hnot (List.mem_map_of_mem hblock)

/-- Only freeable blocks are evicted. -/
theorem EvictsLeast.freeable {id : Id} (hid : id ∈ evicted.map (·.stableBlockId)) :
    FreeableIn blocks id :=
  h.pruned.prunable hid

/-- When nothing is evictable any more, all freeable blocks have been
evicted. -/
theorem EvictsLeast.mem_iff_of_stuck (hfirst : ParentsFirst (parentIn next) next.keys)
    (hstuck : ∀ id, ¬ EvictableIn next id) (id : Id) :
    id ∈ evicted.map (·.stableBlockId) ↔ FreeableIn blocks id := by
  have hleft := h.pruned.left_eq
  have hsame : ∀ c ∈ next.keys, next.get? c = blocks.get? c := by
    intro c hc
    rw [hleft] at hc
    exact h.get?_eq (by simpa using (List.mem_filter.mp hc).2)
  have hparent : ∀ c ∈ next.keys, parentIn blocks c = parentIn next c := by
    intro c hc
    rw [parentIn, parentIn, hsame c hc]
  refine h.pruned.mem_iff_of_stuck (hfirst.congr hparent) next.keys_nodup (fun x hleaf => ?_) id
  refine hstuck x ⟨?_, fun c hc => ?_⟩
  · obtain ⟨block, hget, hidle⟩ := hleaf.good
    exact ⟨block, (hsame x hleaf.mem).trans hget, hidle⟩
  · rw [← hparent c hc]
    exact hleaf.childless c hc

end

end

/-! ## The loop -/

/-- The total weight of a list of blocks. -/
def totalWeight (weight : PrefixCacheBlock Id Payload → ℤ)
    (listed : List (PrefixCacheBlock Id Payload)) : ℤ := (listed.map weight).sum

/-- The list is the first one whose weight is enough, unless nothing was
left. -/
structure StopsInTime (neededWeight : ℤ) (weight : PrefixCacheBlock Id Payload → ℤ)
    (listed : List (PrefixCacheBlock Id Payload)) (exhausted : Prop) : Prop where
  first : ∀ earlier, earlier <+: listed → earlier ≠ listed →
    totalWeight weight earlier < neededWeight
  enough : neededWeight ≤ totalWeight weight listed ∨ exhausted

section

variable {weight : PrefixCacheBlock Id Payload → ℤ} {neededWeight : ℤ} {exhausted : Prop}

section

omit [LinearOrder Id]

@[simp] theorem totalWeight_cons (block : PrefixCacheBlock Id Payload) (rest : List (PrefixCacheBlock Id Payload)) :
    totalWeight weight (block :: rest) = weight block + totalWeight weight rest := by
  simp [totalWeight]

theorem StopsInTime.nil (henough : neededWeight ≤ 0 ∨ exhausted) :
    StopsInTime neededWeight weight [] exhausted := by
  refine ⟨fun earlier hearlier hne => ?_, henough⟩
  exact absurd (List.prefix_nil.mp hearlier) hne

theorem StopsInTime.cons {block : PrefixCacheBlock Id Payload}
    {rest : List (PrefixCacheBlock Id Payload)} (hmore : 0 < neededWeight)
    (hrest : StopsInTime (neededWeight - weight block) weight rest exhausted) :
    StopsInTime neededWeight weight (block :: rest) exhausted := by
  refine ⟨fun earlier hearlier hne => ?_, ?_⟩
  · cases earlier with
    | nil => exact hmore
    | cons head tail =>
        obtain ⟨rfl, htail⟩ := List.cons_prefix_cons.mp hearlier
        have hlt := hrest.first tail htail fun heq => hne (by rw [heq])
        rw [totalWeight_cons]
        omega
  · rw [totalWeight_cons]
    exact hrest.enough.imp_left fun hle => by omega

theorem totalWeight_one (listed : List (PrefixCacheBlock Id Payload)) :
    totalWeight (fun _ => 1) listed = listed.length := by
  simp [totalWeight]

end

/-- With unit weights the number of blocks is what was asked for, or all that
were offered. -/
theorem StopsInTime.length_eq {needed : ℕ} {offered : Finset Id} {listed : List (PrefixCacheBlock Id Payload)}
    (h : StopsInTime needed (fun _ => 1) listed (∀ id, id ∈ listed.map (·.stableBlockId) ↔ id ∈ offered))
    (hnodup : (listed.map (·.stableBlockId)).Nodup) (hoffered : ∀ block ∈ listed, block.stableBlockId ∈ offered) :
    listed.length = min needed offered.card := by
  have hsub : (listed.map (·.stableBlockId)).toFinset ⊆ offered := by
    intro id hid
    obtain ⟨block, hblock, rfl⟩ := List.mem_map.mp (List.mem_toFinset.mp hid)
    exact hoffered block hblock
  have hcard : (listed.map (·.stableBlockId)).toFinset.card = listed.length := by
    rw [List.toFinset_card_of_nodup hnodup, List.length_map]
  have hle : listed.length ≤ offered.card := hcard ▸ Finset.card_le_card hsub
  have hneeded : listed.length ≤ needed := by
    rcases List.eq_nil_or_concat listed with hnil | ⟨earlier, block, hconcat⟩
    · rw [hnil]
      exact Nat.zero_le _
    · have hlt := h.first earlier (by simp [hconcat]) (by simp [hconcat])
      rw [totalWeight_one] at hlt
      have hlength : listed.length = earlier.length + 1 := by simp [hconcat]
      omega
  rcases h.enough with henough | hall
  · rw [totalWeight_one] at henough
    omega
  · have hset : (listed.map (·.stableBlockId)).toFinset = offered := by
      ext id
      rw [List.mem_toFinset]
      exact hall id
    rw [hset] at hcard
    omega

end

/-- **The loop with a heap in step.** -/
theorem evictLoop_least {weight : PrefixCacheBlock Id Payload → ℤ}
    (hweight : ∀ block, 0 ≤ weight block) (negativeWeight : PyError) (neededWeight : ℤ)
    {fuel : ℕ} {index : RadixPrefixIndex Id Payload} (h : Inv index) {candidates : CandidateHeap Id}
    (hcandidates : Waiting index.blocks (EvictableIn index.blocks) candidates)
    (hfuel : index.blocks.size < fuel) (evictedWeight : ℤ) (before : List (PrefixCacheBlock Id Payload)) :
    ∃ evicted next, evictLoop canEvict negativeWeight neededWeight (fun block => .ok (weight block))
        fuel evictedWeight candidates before index = (.ok (before ++ evicted), next) ∧
      Inv next ∧ EvictsLeast index.blocks evicted next.blocks ∧
      StopsInTime (neededWeight - evictedWeight) weight evicted (∀ id, ¬ EvictableIn next.blocks id) := by
  induction fuel generalizing index candidates evictedWeight before with
  | zero => omega
  | succ fuel ih =>
      rw [evictLoop, branch_apply]
      by_cases henough : neededWeight ≤ evictedWeight
      · rw [if_pos henough]
        exact ⟨[], index, by rw [List.append_nil]; rfl, h, EvictsLeast.nil _, StopsInTime.nil (Or.inl (by omega))⟩
      rw [if_neg henough, get_apply]
      dsimp only
      rw [bind_apply, ofExcept_apply]
      rcases popCandidate_least h.ids hcandidates fun id => (passes_canEvict_iff h id).symm with
        ⟨hpop, hnone⟩ | ⟨block, rest, hpop, hget, hevictable, hleast, hrest⟩
      · rw [hpop]
        exact ⟨[], index, by rw [List.append_nil]; rfl, h, EvictsLeast.nil _, StopsInTime.nil (Or.inr hnone)⟩
      rw [hpop]
      dsimp only
      have hblock : LeastEvictable index.blocks block := by
        refine ⟨hget, hevictable, fun id other hother hid => ?_⟩
        have hle := hleast id hid
        rw [candidateOf_of_get? hget, candidateOf_of_get? hother] at hle
        exact hle
      obtain ⟨stored, hstored, htest⟩ := (passes_canEvict_iff h _).mpr hevictable
      obtain rfl := Option.some.inj (hget.symm.trans hstored)
      have hremovable := canEvict_test.sound index h block hget htest
      obtain ⟨mid, hrun, hmoves, hmid⟩ := removeBlockFromIndex_ready h hremovable
      have hpositive : ¬ weight block < 0 := not_lt.mpr (hweight block)
      rw [bind_apply, ofExcept_apply]
      dsimp only
      rw [bind_apply, raiseIf_apply, if_neg hpositive]
      dsimp only
      rw [bind_apply, hrun]
      dsimp only
      rw [get_apply]
      -- the heap follows the removal
      have hkept : Waiting mid.blocks (fun id => EvictableIn index.blocks id ∧ id ≠ block.stableBlockId) rest := by
        refine hrest.congr fun id hid => ?_
        rw [candidateOf, candidateOf, hmid, Dict.get?_erase, if_neg hid.2]
      obtain ⟨queued, hqueue⟩ := queueIf_ok (canEvict_test.total mid hmoves.inv) rest block.parentBlockId
      have hqueued : Waiting mid.blocks (EvictableIn mid.blocks) queued := by
        refine (queueIf_waiting hkept hqueue).ready_congr fun id => ?_
        rw [passes_canEvict_iff hmoves.inv, hmid, ← parentIn_of_get? hget]
        exact evictableIn_erase_iff id
      have hsize := Dict.size_erase_of_mem (Dict.mem_keys_of_get? hget)
      obtain ⟨evicted, next, hloop, hinv, hevicts, hstops⟩ := ih hmoves.inv hqueued
        (by rw [hmid]; omega) (evictedWeight + weight block) (before ++ [block])
      rw [hmid] at hevicts
      rw [bind_apply, ofExcept_apply, hqueue]
      refine ⟨block :: evicted, next, ?_, hinv, EvictsLeast.cons hblock hevicts, ?_⟩
      · rw [List.append_cons before block evicted]
        exact hloop
      · refine StopsInTime.cons (by omega) ?_
        have hsub : neededWeight - evictedWeight - weight block =
            neededWeight - (evictedWeight + weight block) := by omega
        rw [hsub]
        exact hstops

/-- **`evict_until_weight`** removes the least evictable block, again and again,
until the weight is enough or nothing is evictable. -/
theorem evictUntilWeight_least {weight : PrefixCacheBlock Id Payload → ℤ}
    (hweight : ∀ block, 0 ≤ weight block) (neededWeight : ℤ) {index : RadixPrefixIndex Id Payload} (h : Inv index) :
    ∃ evicted next, evictUntilWeight neededWeight (fun block => .ok (weight block)) index = (.ok evicted, next) ∧
      Inv next ∧ EvictsLeast index.blocks evicted next.blocks ∧
      StopsInTime neededWeight weight evicted (∀ id, ¬ EvictableIn next.blocks id) := by
  unfold evictUntilWeight evictWith
  rw [branch_apply]
  by_cases hnothing : neededWeight ≤ 0
  · rw [if_pos hnothing]
    exact ⟨[], index, rfl, h, EvictsLeast.nil _, StopsInTime.nil (Or.inl hnothing)⟩
  rw [if_neg hnothing, get_apply]
  obtain ⟨filled, hfilled⟩ := @foldlM_queueIf_ok _ _ _ index
    (index.backend.leafBlockIds.sort (· ≤ ·)) {} (canEvict index) (canEvict_test.total index h)
  have hwaiting : Waiting index.blocks (EvictableIn index.blocks) filled := by
    refine (foldlM_queueIf_waiting waiting_empty hfilled).ready_congr fun id => ?_
    rw [false_or, passes_canEvict_iff h, Finset.mem_sort, h.tree.mem_leaves_iff]
    constructor
    · rintro hid
      have ⟨_, hget, _⟩ := hid.1
      exact ⟨⟨Dict.mem_keys_of_get? hget, hid.2⟩, hid⟩
    · exact fun hid => hid.2
  obtain ⟨evicted, next, hloop, hinv, hevicts, hstops⟩ := evictLoop_least hweight
    (.valueError "Prefix cache eviction weight must be non-negative") neededWeight h hwaiting
    (Nat.lt_succ_self _) 0 []
  rw [bind_apply, ofExcept_apply, hfilled]
  refine ⟨evicted, next, hloop, hinv, hevicts, ?_⟩
  rw [sub_zero] at hstops
  exact hstops

end RadixPrefixIndex

namespace IndexOp

open RadixPrefixIndex Forest

variable {Id Payload : Type} [LinearOrder Id]

/-- What an eviction with the weights `weight` takes, and what it leaves. -/
structure EvictsExactly (index : RadixPrefixIndex Id Payload) (neededWeight : ℤ)
    (weight : PrefixCacheBlock Id Payload → ℤ) (freeable : Finset Id)
    (evicted : List (PrefixCacheBlock Id Payload)) (next : RadixPrefixIndex Id Payload) :
    Prop where
  /-- Each block was the least evictable one at its turn. -/
  least : EvictsLeast index.blocks evicted next.blocks
  /-- The list is the first one whose weight is enough, or it has everything. -/
  stops : StopsInTime neededWeight weight evicted
    (∀ id, id ∈ evicted.map (·.stableBlockId) ↔ id ∈ freeable)
  freeable : ∀ block ∈ evicted, block.stableBlockId ∈ freeable
  nodup : (evicted.map (·.stableBlockId)).Nodup
  descendants_first : (evicted.map (·.stableBlockId)).Pairwise fun earlier later =>
    ¬ Descends (parentIn index.blocks) index.blocks.keys later earlier
  gone : ∀ block ∈ evicted, index.blocks.get? block.stableBlockId = some block ∧
    next.blocks.get? block.stableBlockId = none
  others : ∀ id, id ∉ evicted.map (·.stableBlockId) →
    next.blocks.get? id = index.blocks.get? id

section

variable {index next : RadixPrefixIndex Id Payload} {neededWeight : ℤ}
  {weight : PrefixCacheBlock Id Payload → ℤ} {freeable : Finset Id}
  {evicted : List (PrefixCacheBlock Id Payload)}

/-- An eviction in order, for an index whose freeable set is known. -/
theorem evictsExactly_of_least (hinv : Inv next) (hfreeable : ∀ id, id ∈ freeable ↔ FreeableIn index.blocks id)
    (hleast : EvictsLeast index.blocks evicted next.blocks)
    (hstops : StopsInTime neededWeight weight evicted (∀ id, ¬ EvictableIn next.blocks id)) :
    EvictsExactly index neededWeight weight freeable evicted next where
  least := hleast
  stops := by
    refine ⟨hstops.first, hstops.enough.imp_right fun hstuck id => ?_⟩
    rw [hleast.mem_iff_of_stuck hinv.first hstuck, hfreeable]
  freeable := fun block hblock => (hfreeable _).mpr (hleast.freeable (List.mem_map_of_mem hblock))
  nodup := hleast.pruned.nodup
  descendants_first := hleast.pruned.descendants_first
  gone := fun _ hblock => hleast.get?_evicted hblock
  others := fun _ hid => hleast.get?_eq hid

/-- With unit weights the number of blocks is what was asked for, or all there
are. -/
theorem EvictsExactly.length_eq {needed : ℕ} (h : EvictsExactly index needed (fun _ => 1) freeable evicted next) :
    evicted.length = min needed freeable.card :=
  h.stops.length_eq h.nodup h.freeable

end

/-- **An eviction takes the least evictable block again and again**, after every
run, until the weight is enough or every freeable block is gone; with unit
weights it takes exactly as many blocks as it was asked for and as
`freeable_blocks` promises. -/
theorem eviction_exact (hash : List ℤ → Option Id → Id) (blockSize : ℕ) (maxBlocks : Option ℤ)
    (ops : List (IndexOp Id Payload)) :
    let index := runAll hash (init blockSize maxBlocks) ops
    ∃ freeable after, RadixPrefixIndex.freeableBlockIds index = (.ok freeable, after) ∧
      (∀ (neededWeight : ℤ) (weight : PrefixCacheBlock Id Payload → ℕ), ∃ evicted next,
        RadixPrefixIndex.evictUntilWeight neededWeight (fun block => .ok (weight block)) index =
          (.ok evicted, next) ∧
        EvictsExactly index neededWeight (fun block => weight block) freeable evicted next) ∧
      ∀ needed : ℕ, ∃ evicted next,
        RadixPrefixIndex.evictUntilFreeable needed index = (.ok evicted, next) ∧
        EvictsExactly index needed (fun _ => 1) freeable evicted next ∧
        evicted.length = min needed freeable.card := by
  intro index
  have hinv : Inv index := runAll_inv ops (inv_init blockSize maxBlocks)
  obtain ⟨freeable, after, hquery, hfreeable⟩ :=
    freeableBlockIds_exact hash blockSize maxBlocks ops
  refine ⟨freeable, after, hquery, fun neededWeight weight => ?_, fun needed => ?_⟩
  · obtain ⟨evicted, next, hrun, hnext, hleast, hstops⟩ := @evictUntilWeight_least _ _ _
      (fun block => (weight block : ℤ)) (fun block => Int.natCast_nonneg _) neededWeight index hinv
    exact ⟨evicted, next, hrun, evictsExactly_of_least hnext hfreeable hleast hstops⟩
  · obtain ⟨evicted, next, hrun, hnext, hleast, hstops⟩ := @evictUntilWeight_least _ _ _
      (fun _ => 1) (fun _ => Int.one_nonneg) needed index hinv
    have hexact := evictsExactly_of_least hnext hfreeable hleast hstops
    exact ⟨evicted, next, hrun, hexact, hexact.length_eq⟩

end IndexOp
