import SparseEngine.PrefixIndex.Model
import SparseEngine.Lib.Peel

/-!
# The incrementally maintained freeable set

`_freeable_ids` and `_blocked_freeable_children` of the index.  `CountsOk`
says that the counters count the children outside the set; `MemberOk` is the
one-level equation of a member: idle, and no child outside the set.

A mutation leaves the counters right and may leave the equation broken at a
few blocks.  `refreshFreeablePath` is specified with the set of blocks that
may be broken: it repairs the block it starts at and everything it disturbs on
the way up, and leaves the other exceptions alone.
-/

namespace RadixPrefixIndex

open Routine Forest

variable {Id Payload : Type} [LinearOrder Id]

/-- The recorded parent of an indexed block. -/
def parentIn (blocks : Dict Id (PrefixCacheBlock Id Payload)) (id : Id) : Option Id :=
  (blocks.get? id).bind (·.parentBlockId)

/-- The block is indexed and idle. -/
def IdleIn (blocks : Dict Id (PrefixCacheBlock Id Payload)) (id : Id) : Prop :=
  ∃ block, blocks.get? id = some block ∧ Idle block

/-- The children of a block that are outside the freeable set. -/
def blockedIn (blocks : Dict Id (PrefixCacheBlock Id Payload)) (freeable : Finset Id) (id : Id) :
    ℕ :=
  blockedChildren (parentIn blocks) blocks.keys freeable id

/-- The counters count the children outside the set. -/
structure CountsOk (blocks : Dict Id (PrefixCacheBlock Id Payload)) (freeable : Finset Id)
    (children : Dict Id ℤ) : Prop where
  indexed : ∀ id ∈ freeable, id ∈ blocks.keys
  missing : ∀ id, id ∉ blocks.keys → children.get? id = none
  counts : ∀ id ∈ blocks.keys, children.get? id = some (blockedIn blocks freeable id : ℤ)

/-- The one-level equation of a member. -/
def MemberOk (blocks : Dict Id (PrefixCacheBlock Id Payload)) (freeable : Finset Id) (id : Id) :
    Prop :=
  id ∈ freeable ↔ blockedIn blocks freeable id = 0 ∧ IdleIn blocks id

/-- The freeable set, once built, is right outside `broken`. -/
def TrackedExcept (broken : Id → Prop) (blocks : Dict Id (PrefixCacheBlock Id Payload))
    (freeableIds : Option (Finset Id)) (children : Dict Id ℤ) : Prop :=
  ∀ freeable, freeableIds = some freeable →
    CountsOk blocks freeable children ∧
      ∀ id ∈ blocks.keys, ¬ broken id → MemberOk blocks freeable id

/-- The freeable set, once built, is right. -/
def Tracked (blocks : Dict Id (PrefixCacheBlock Id Payload)) (freeableIds : Option (Finset Id))
    (children : Dict Id ℤ) : Prop :=
  TrackedExcept (fun _ => False) blocks freeableIds children

section

variable {blocks : Dict Id (PrefixCacheBlock Id Payload)} {freeable : Finset Id}
  {children : Dict Id ℤ}

variable {id : Id}

theorem parentIn_of_get? {block : PrefixCacheBlock Id Payload} (hget : blocks.get? id = some block) :
    parentIn blocks id = block.parentBlockId := by
  rw [parentIn, hget]
  rfl

theorem idleIn_iff_of_get? {block : PrefixCacheBlock Id Payload}
    (hget : blocks.get? id = some block) : IdleIn blocks id ↔ Idle block := by
  constructor
  · rintro ⟨other, hother, hidle⟩
    obtain rfl : block = other := by simpa [hget] using hother
    exact hidle
  · exact fun hidle => ⟨block, hget, hidle⟩

/-- Counting a block as freeable or not changes its parent's counter only. -/
theorem CountsOk.flip (hcounts : CountsOk blocks freeable children) {x : Id}
    (hx : x ∈ blocks.keys) {next : Finset Id} {delta : ℤ}
    (hnext : (next = insert x freeable ∧ x ∉ freeable ∧ delta = -1) ∨
      (next = freeable.erase x ∧ x ∈ freeable ∧ delta = 1)) :
    (parentIn blocks x = none → CountsOk blocks next children) ∧
      ∀ p count, parentIn blocks x = some p → children.get? p = some count →
        CountsOk blocks next (children.set p (count + delta)) := by
  have hindexed : ∀ id ∈ next, id ∈ blocks.keys := by
    intro id hid
    rcases hnext with ⟨rfl, -, -⟩ | ⟨rfl, -, -⟩
    · rcases Finset.mem_insert.mp hid with rfl | hid
      · exact hx
      · exact hcounts.indexed id hid
    · exact hcounts.indexed id (Finset.mem_of_mem_erase hid)
  -- only the parent of the flipped block sees it:
  have hother : ∀ id, parentIn blocks x ≠ some id → blockedIn blocks next id = blockedIn blocks freeable id := by
    intro id hne
    rcases hnext with ⟨rfl, -, -⟩ | ⟨rfl, -, -⟩
    · exact blockedChildren_insert_other hne
    · exact blockedChildren_erase_other hne
  refine ⟨fun hroot => ⟨hindexed, hcounts.missing, fun id hid => ?_⟩, fun p count hp hcount => ?_⟩
  · rw [hcounts.counts id hid, hother id (by rw [hroot]; simp)]
  · have hpkey : p ∈ blocks.keys := by
      by_contra hmissing
      rw [hcounts.missing p hmissing] at hcount
      cases hcount
    refine ⟨hindexed, fun id hid => ?_, fun id hid => ?_⟩
    · rw [Dict.get?_set_of_ne, hcounts.missing id hid]
      rintro rfl
      exact hid hpkey
    · by_cases hidp : id = p
      · subst hidp
        have hold : count = (blockedIn blocks freeable id : ℤ) := by
          simpa [hcount] using hcounts.counts id hid
        rw [Dict.get?_set_self, hold]
        rcases hnext with ⟨rfl, hout, rfl⟩ | ⟨rfl, hin, rfl⟩
        · have hdrop := blockedChildren_insert_child blocks.keys_nodup hx hp hout
          rw [blockedIn, blockedIn, hdrop]
          congr 1
          push_cast
          omega
        · have hgrow := blockedChildren_erase_child blocks.keys_nodup hx hp hin
          rw [blockedIn, blockedIn, hgrow]
          congr 1
      · rw [Dict.get?_set_of_ne _ _ hidp, hcounts.counts id hid, hother id]
        rw [hp]
        simpa using fun h => hidp h.symm

/-- The one-level equation of the other blocks survives a flip, except at the
parent. -/
theorem MemberOk.flip {x : Id} {next : Finset Id}
    (hnext : next = insert x freeable ∨ next = freeable.erase x) (hid : id ≠ x)
    (hparent : parentIn blocks x ≠ some id) (hmember : MemberOk blocks freeable id) :
    MemberOk blocks next id := by
  have hcount : blockedIn blocks next id = blockedIn blocks freeable id := by
    rcases hnext with rfl | rfl
    · exact blockedChildren_insert_other hparent
    · exact blockedChildren_erase_other hparent
  have hmem : id ∈ next ↔ id ∈ freeable := by
    rcases hnext with rfl | rfl
    · simp [hid]
    · simp [hid]
  rw [MemberOk, hmem, hcount]
  exact hmember

end

/-! ## `_refresh_freeable_path` -/

section

variable {index : RadixPrefixIndex Id Payload} {freeable : Finset Id} {x : Id} {blocked : ℤ}
  {block : PrefixCacheBlock Id Payload} (hbuilt : index.freeableIds = some freeable)
  (hget : index.blocks.get? x = some block)
  (hcount : index.blockedFreeableChildren.get? x = some blocked)

include hbuilt hget hcount

theorem refreshFreeableLoop_stop (fuel : ℕ) (hsame : decide (blocked = 0 ∧ Idle block) = decide (x ∈ freeable)) :
    refreshFreeableLoop (fuel + 1) (some x) index = (.ok (), index) := by
  simp only [refreshFreeableLoop, bind_apply, read_apply, hbuilt, hget, hcount, hsame, branch_apply,
    if_true, pure_apply]

variable {isFreeable : Bool}

theorem refreshFreeableLoop_root (fuel : ℕ) (his : decide (blocked = 0 ∧ Idle block) = isFreeable)
    (hflip : isFreeable ≠ decide (x ∈ freeable)) (hroot : block.parentBlockId = none) :
    refreshFreeableLoop (fuel + 1) (some x) index = (.ok (), { index with
      freeableIds := some (if isFreeable then insert x freeable else freeable.erase x) }) := by
  simp only [refreshFreeableLoop, bind_apply, read_apply, hbuilt, hget, hcount, his, branch_apply,
    if_neg hflip, write_apply, hroot, pure_apply]

theorem refreshFreeableLoop_up (fuel : ℕ) {p : Id} {count : ℤ} (his : decide (blocked = 0 ∧ Idle block) = isFreeable)
    (hflip : isFreeable ≠ decide (x ∈ freeable)) (hparent : block.parentBlockId = some p)
    (hpcount : index.blockedFreeableChildren.get? p = some count) :
    refreshFreeableLoop (fuel + 1) (some x) index =
      refreshFreeableLoop fuel (some p) { index with
        freeableIds := some (if isFreeable then insert x freeable else freeable.erase x)
        blockedFreeableChildren :=
          index.blockedFreeableChildren.set p (count + if isFreeable then -1 else 1) } := by
  simp only [refreshFreeableLoop, bind_apply, read_apply, hbuilt, hget, hcount, his, branch_apply,
    if_neg hflip, write_apply, hparent, hpcount]

end

variable {broken : Id → Prop}

theorem refreshFreeableLoop_spec {fuel : ℕ} {x : Id} {freeable : Finset Id} {index : RadixPrefixIndex Id Payload}
    (hfirst : ParentsFirst (parentIn index.blocks) index.blocks.keys) (hbuilt : index.freeableIds = some freeable)
    (hcounts : CountsOk index.blocks freeable index.blockedFreeableChildren)
    (hmember : ∀ id ∈ index.blocks.keys, id ≠ x → ¬ broken id →
      MemberOk index.blocks freeable id) (hx : x ∈ index.blocks.keys)
    (hfuel : index.blocks.keys.idxOf x < fuel) :
    ∃ next children, refreshFreeableLoop fuel (some x) index =
        (.ok (), { index with freeableIds := some next, blockedFreeableChildren := children }) ∧
      CountsOk index.blocks next children ∧
      ∀ id ∈ index.blocks.keys, ¬ broken id → MemberOk index.blocks next id := by
  induction fuel generalizing x freeable index with
  | zero => omega
  | succ fuel ih =>
      obtain ⟨block, hget⟩ := Dict.mem_keys_iff.mp hx
      have hcount := hcounts.counts x hx
      have hparent := parentIn_of_get? hget
      obtain ⟨isFreeable, his⟩ : ∃ isFreeable,
          decide ((blockedIn index.blocks freeable x : ℤ) = 0 ∧ Idle block) = isFreeable := ⟨_, rfl⟩
      have hequation : isFreeable = true ↔ blockedIn index.blocks freeable x = 0 ∧ IdleIn index.blocks x := by
        rw [← his, decide_eq_true_eq, Int.natCast_eq_zero, idleIn_iff_of_get? hget]
      by_cases hflip : isFreeable = decide (x ∈ freeable)
      · -- the equation holds at `x`: the walk stops
        refine ⟨freeable, index.blockedFreeableChildren, ?_, hcounts, fun id hid hok => ?_⟩
        · rw [refreshFreeableLoop_stop hbuilt hget hcount fuel (his.trans hflip), ← hbuilt]
        · by_cases hidx : id = x
          · subst hidx
            rw [MemberOk, ← hequation, hflip, decide_eq_true_eq]
          · exact hmember id hid hidx hok
      -- the equation is broken at `x`: flip it and go on at the parent
      obtain ⟨next, hnext⟩ : ∃ next, (if isFreeable then insert x freeable else freeable.erase x) = next := ⟨_, rfl⟩
      obtain ⟨delta, hdelta⟩ : ∃ delta : ℤ, (if isFreeable then -1 else 1) = delta := ⟨_, rfl⟩
      have hcases : (next = insert x freeable ∧ x ∉ freeable ∧ delta = -1) ∨
          (next = freeable.erase x ∧ x ∈ freeable ∧ delta = 1) := by
        by_cases hmem : x ∈ freeable
        · have hfalse : isFreeable = false := by simpa [hmem] using hflip
          exact Or.inr ⟨by simp [← hnext, hfalse], hmem, by simp [← hdelta, hfalse]⟩
        · have htrue : isFreeable = true := by simpa [hmem] using hflip
          exact Or.inl ⟨by simp [← hnext, htrue], hmem, by simp [← hdelta, htrue]⟩
      have hnextCases : next = insert x freeable ∨ next = freeable.erase x := by
        rcases hcases with h | h
        exacts [Or.inl h.1, Or.inr h.1]
      obtain ⟨hroot, hchild⟩ := hcounts.flip hx hcases
      -- after the flip the equation holds at `x`: its own counter has not changed
      have hxother : parentIn index.blocks x ≠ some x := by
        intro hself
        have := hfirst.idxOf_lt index.blocks.keys_nodup hx hself
        omega
      have hfixed : MemberOk index.blocks next x := by
        have hblocked : blockedIn index.blocks next x = blockedIn index.blocks freeable x := by
          rcases hnextCases with rfl | rfl
          · exact blockedChildren_insert_other hxother
          · exact blockedChildren_erase_other hxother
        rw [MemberOk, hblocked, ← hequation, ← hnext]
        cases isFreeable <;> simp
      have hmember' : ∀ id ∈ index.blocks.keys, parentIn index.blocks x ≠ some id →
          ¬ broken id → MemberOk index.blocks next id := by
        intro id hid hpar hok
        by_cases hidx : id = x
        · exact hidx ▸ hfixed
        · exact MemberOk.flip hnextCases hidx hpar (hmember id hid hidx hok)
      cases hp : block.parentBlockId with
      | none =>
          rw [hp] at hparent
          refine ⟨next, index.blockedFreeableChildren, ?_, hroot hparent, fun id hid hok => ?_⟩
          · rw [refreshFreeableLoop_root hbuilt hget hcount fuel his hflip hp, hnext]
          · exact hmember' id hid (by rw [hparent]; simp) hok
      | some p =>
          rw [hp] at hparent
          have hpkey := hfirst.parent_mem hx hparent
          have hpcount := hcounts.counts p hpkey
          have hlt := hfirst.idxOf_lt index.blocks.keys_nodup hx hparent
          rw [refreshFreeableLoop_up hbuilt hget hcount fuel his hflip hp hpcount, hnext, hdelta]
          obtain ⟨final, children, hrun, hfinal, hdone⟩ := @ih p next { index with
              freeableIds := some next
              blockedFreeableChildren := index.blockedFreeableChildren.set p
                (blockedIn index.blocks freeable p + delta) }
            hfirst rfl (hchild p _ hparent hpcount)
            (fun id hid hidp hok => hmember' id hid (by rw [hparent]; simpa using fun h => hidp h.symm) hok)
            hpkey (by dsimp only; omega)
          exact ⟨final, children, hrun, hfinal, hdone⟩

/-- **`_refresh_freeable_path`** repairs the freeable set at `x`. -/
theorem refreshFreeablePath_spec {x : Id} {index : RadixPrefixIndex Id Payload}
    (hfirst : ParentsFirst (parentIn index.blocks) index.blocks.keys) (hx : x ∈ index.blocks.keys)
    (htracked : TrackedExcept (fun id => id = x ∨ broken id) index.blocks index.freeableIds
      index.blockedFreeableChildren) :
    ∃ freeableIds children, refreshFreeablePath (some x) index = (.ok (), { index with
        freeableIds := freeableIds, blockedFreeableChildren := children }) ∧
      freeableIds.isSome = index.freeableIds.isSome ∧
      TrackedExcept broken index.blocks freeableIds children := by
  have hfuel : index.blocks.keys.idxOf x < index.blocks.size + 1 := by
    have := List.idxOf_lt_length_of_mem hx
    rw [Dict.length_keys] at this
    omega
  rcases hbuilt : index.freeableIds with _ | freeable
  · refine ⟨index.freeableIds, index.blockedFreeableChildren, ?_, by rw [hbuilt], fun freeable h => ?_⟩
    · show refreshFreeablePath (some x) index = (.ok (), index)
      simp only [refreshFreeablePath, refreshFreeableLoop, bind_apply, read_apply, hbuilt, pure_apply]
    · rw [hbuilt] at h
      cases h
  · obtain ⟨hcounts, hmember⟩ := htracked freeable hbuilt
    have hothers : ∀ id ∈ index.blocks.keys, id ≠ x → ¬ broken id → MemberOk index.blocks freeable id := by
      intro id hid hidx hok
      apply hmember id hid
      rintro (h | h)
      exacts [hidx h, hok h]
    obtain ⟨next, children, hrun, hcounts', hmember'⟩ :=
      refreshFreeableLoop_spec hfirst hbuilt hcounts hothers hx hfuel
    refine ⟨some next, children, hrun, rfl, fun other h => ?_⟩
    obtain rfl : next = other := by simpa using h
    exact ⟨hcounts', hmember'⟩

/-- Refreshing a block that is not indexed raises, or does nothing. -/
theorem refreshFreeablePath_missing {x : Id} {index : RadixPrefixIndex Id Payload}
    (hx : x ∉ index.blocks.keys) : (refreshFreeablePath (some x) index).2 = index := by
  rw [Dict.not_mem_keys_iff] at hx
  cases hbuilt : index.freeableIds with
  | none =>
      simp only [refreshFreeablePath, refreshFreeableLoop, bind_apply, read_apply, hbuilt, pure_apply]
  | some freeable =>
      simp only [refreshFreeablePath, refreshFreeableLoop, bind_apply, read_apply, hbuilt, hx, raise_apply]

/-! ## A write to an indexed block -/

section

variable {blocks : Dict Id (PrefixCacheBlock Id Payload)} {x : Id}
  {block next : PrefixCacheBlock Id Payload} (hget : blocks.get? x = some block)
  (hparent : next.parentBlockId = block.parentBlockId)

include hget hparent

theorem parentIn_set : parentIn (blocks.set x next) = parentIn blocks := by
  funext id
  simp only [parentIn, Dict.get?_set]
  split
  · next hid => rw [hid, hget]; exact hparent
  · rfl

theorem blockedIn_set (freeable : Finset Id) (id : Id) :
    blockedIn (blocks.set x next) freeable id = blockedIn blocks freeable id := by
  rw [blockedIn, blockedIn, parentIn_set hget hparent, Dict.keys_set_of_get? next hget]

omit hparent in
theorem idleIn_set {id : Id} (hid : id = x → (Idle next ↔ Idle block)) :
    IdleIn (blocks.set x next) id ↔ IdleIn blocks id := by
  by_cases hidx : id = x
  · subst hidx
    rw [idleIn_iff_of_get? hget, idleIn_iff_of_get? (Dict.get?_set_self blocks id next)]
    exact hid rfl
  · simp only [IdleIn, Dict.get?_set_of_ne _ _ hidx]

/-- Only the equation of the written block may break, and it does not when the
block stays as idle as it was. -/
theorem TrackedExcept.set {broken : Id → Prop} {freeableIds : Option (Finset Id)}
    {children : Dict Id ℤ} (hbroken : broken x ∨ (Idle next ↔ Idle block))
    (htracked : TrackedExcept broken blocks freeableIds children) :
    TrackedExcept broken (blocks.set x next) freeableIds children := by
  intro freeable hbuilt
  obtain ⟨hcounts, hmember⟩ := htracked freeable hbuilt
  have hkeys := Dict.keys_set_of_get? next hget
  refine ⟨⟨?_, ?_, ?_⟩, ?_⟩
  · rw [hkeys]
    exact hcounts.indexed
  · rw [hkeys]
    exact hcounts.missing
  · intro id hid
    rw [hkeys] at hid
    rw [blockedIn_set hget hparent, hcounts.counts id hid]
  · intro id hid hok
    rw [hkeys] at hid
    have hsame : id = x → (Idle next ↔ Idle block) := by
      intro hidx
      rcases hbroken with h | h
      · exact absurd (hidx ▸ h) hok
      · exact h
    have := hmember id hid hok
    rwa [MemberOk, blockedIn_set hget hparent, idleIn_set hget hsame]

end

theorem TrackedExcept.mono {blocks : Dict Id (PrefixCacheBlock Id Payload)}
    {freeableIds : Option (Finset Id)} {children : Dict Id ℤ} {broken' : Id → Prop}
    (htracked : TrackedExcept broken blocks freeableIds children)
    (hmono : ∀ id ∈ blocks.keys, broken id → broken' id) :
    TrackedExcept broken' blocks freeableIds children := by
  intro freeable hbuilt
  obtain ⟨hcounts, hmember⟩ := htracked freeable hbuilt
  exact ⟨hcounts, fun id hid hok => hmember id hid fun h => hok (hmono id hid h)⟩

/-! ## A new block -/

section

variable {blocks : Dict Id (PrefixCacheBlock Id Payload)} {block : PrefixCacheBlock Id Payload}
  {x : Id}

theorem parentIn_set_of_ne {id : Id} (hid : id ≠ x) :
    parentIn (blocks.set x block) id = parentIn blocks id := by
  rw [parentIn, parentIn, Dict.get?_set_of_ne _ _ hid]

theorem parentIn_set_self : parentIn (blocks.set x block) x = block.parentBlockId := by
  rw [parentIn, Dict.get?_set_self]
  rfl

variable (hnew : x ∉ blocks.keys)

include hnew

/-- What a new block adds to the counts. -/
theorem blockedIn_insert (hfirst : ParentsFirst (parentIn blocks) blocks.keys)
    (freeable : Finset Id) (hfresh : x ∉ freeable) (id : Id) :
    blockedIn (blocks.set x block) freeable id =
      (if id = x then 0 else blockedIn blocks freeable id) +
        if block.parentBlockId = some id then 1 else 0 := by
  have hold : blockedChildren (parentIn (blocks.set x block)) blocks.keys freeable id =
      if id = x then 0 else blockedIn blocks freeable id := by
    have hagree : blockedChildren (parentIn (blocks.set x block)) blocks.keys freeable id =
        blockedIn blocks freeable id := by
      refine blockedChildren_congr fun c hc => ?_
      rw [parentIn_set_of_ne (by rintro rfl; exact hnew hc)]
    rw [hagree]
    split
    · next hid =>
        subst hid
        rw [blockedIn, blockedChildren_eq_zero_iff]
        intro c hc hparent
        exact absurd (hfirst.parent_mem hc hparent) hnew
    · rfl
  rw [blockedIn, Dict.keys_set_of_not_mem block hnew, blockedChildren, List.countP_append,
    ← blockedChildren, hold, List.countP_singleton, parentIn_set_self]
  congr 1
  simp [hfresh]

/-- The counters after the bookkeeping of `insert_block`: everything is right
but the equations of the new block and of its parent. -/
theorem Tracked.insert (hfirst : ParentsFirst (parentIn blocks) blocks.keys)
    (hparent : ∀ p ∈ block.parentBlockId, p ∈ blocks.keys) {freeable : Finset Id} {children : Dict Id ℤ}
    (htracked : Tracked blocks (some freeable) children) :
    ∃ next, TrackedExcept (fun id => id = x ∨ block.parentBlockId = some id)
        (blocks.set x block) (some freeable) next ∧
      (block.parentBlockId = none → next = children.set x 0) ∧
      ∀ p ∈ block.parentBlockId, ∃ count, (children.set x 0).get? p = some count ∧
        next = (children.set x 0).set p (count + 1) := by
  obtain ⟨hcounts, hmember⟩ := htracked freeable rfl
  have hfresh : x ∉ freeable := fun hmem => hnew (hcounts.indexed x hmem)
  -- the new block blocks its parent and nobody else:
  have hblocked : ∀ id, blockedIn (blocks.set x block) freeable id = _ :=
    blockedIn_insert hnew hfirst freeable hfresh
  have hkeys := Dict.keys_set_of_not_mem block hnew
  have hmembers : ∀ id ∈ (blocks.set x block).keys,
      ¬ (id = x ∨ block.parentBlockId = some id) → MemberOk (blocks.set x block) freeable id := by
    intro id hid hok
    rw [not_or] at hok
    rw [hkeys, List.mem_append, List.mem_singleton] at hid
    have hold := hmember id (hid.resolve_right hok.1) (by simp)
    rw [MemberOk, hblocked, if_neg hok.1, if_neg hok.2, Nat.add_zero, IdleIn, Dict.get?_set_of_ne _ _ hok.1]
    exact hold
  have hindexed : ∀ id ∈ freeable, id ∈ (blocks.set x block).keys := fun id hid =>
    Dict.mem_keys_set.mpr (Or.inr (hcounts.indexed id hid))
  cases hp : block.parentBlockId with
  | none =>
      rw [hp] at hblocked hmembers
      refine ⟨children.set x 0, fun other h => ?_, fun _ => rfl, by simp⟩
      obtain rfl : freeable = other := by simpa using h
      refine ⟨⟨hindexed, fun id hid => ?_, fun id hid => ?_⟩, hmembers⟩
      · rw [Dict.mem_keys_set, not_or] at hid
        rw [Dict.get?_set_of_ne _ _ hid.1, hcounts.missing id hid.2]
      · rw [hblocked, Dict.get?_set]
        split
        · simp
        · next hne =>
            have hid' := (Dict.mem_keys_set.mp hid).resolve_left hne
            rw [hcounts.counts id hid']
            simp
  | some p =>
      rw [hp] at hblocked hmembers
      have hpkey := hparent p hp
      have hpx : p ≠ x := by
        rintro rfl
        exact hnew hpkey
      -- the count of the parent is there to be raised:
      have hcount : (children.set x 0).get? p = some (blockedIn blocks freeable p : ℤ) := by
        rw [Dict.get?_set_of_ne _ _ hpx, hcounts.counts p hpkey]
      refine ⟨(children.set x 0).set p (blockedIn blocks freeable p + 1), fun other h => ?_, by simp, fun q hq => ?_⟩
      · obtain rfl : freeable = other := by simpa using h
        refine ⟨⟨hindexed, fun id hid => ?_, fun id hid => ?_⟩, hmembers⟩
        · rw [Dict.mem_keys_set, not_or] at hid
          rw [Dict.get?_set_of_ne _ _ (by rintro rfl; exact hid.2 hpkey),
            Dict.get?_set_of_ne _ _ hid.1, hcounts.missing id hid.2]
        · rw [hblocked]
          by_cases hidp : id = p
          · subst hidp
            rw [Dict.get?_set_self, if_neg hpx, if_pos rfl]
            push_cast
            rfl
          · have hsome : ¬ some p = some id := by simpa using fun h => hidp h.symm
            rw [Dict.get?_set_of_ne _ _ hidp, if_neg hsome, Nat.add_zero, Dict.get?_set]
            split
            · rfl
            · next hne =>
                rw [hcounts.counts id ((Dict.mem_keys_set.mp hid).resolve_left hne)]
      · obtain rfl : p = q := by simpa using hq
        exact ⟨_, hcount, rfl⟩

end

theorem refreshFreeablePath_none (index : RadixPrefixIndex Id Payload) :
    refreshFreeablePath none index = (.ok (), index) := rfl

/-- **The bookkeeping of `insert_block`** keeps the freeable set right. -/
theorem trackInserted_spec {index : RadixPrefixIndex Id Payload}
    {blocks : Dict Id (PrefixCacheBlock Id Payload)} {block : PrefixCacheBlock Id Payload}
    (hblocks : index.blocks = blocks.set block.stableBlockId block)
    (hnew : block.stableBlockId ∉ blocks.keys)
    (hfirst : ParentsFirst (parentIn blocks) blocks.keys)
    (hfirst' : ParentsFirst (parentIn index.blocks) index.blocks.keys)
    (hparent : ∀ p ∈ block.parentBlockId, p ∈ blocks.keys)
    (htracked : Tracked blocks index.freeableIds index.blockedFreeableChildren) :
    ∃ freeableIds children, trackInserted block index = (.ok (), { index with
        freeableIds := freeableIds, blockedFreeableChildren := children }) ∧
      Tracked index.blocks freeableIds children := by
  cases hbuilt : index.freeableIds with
  | none =>
      refine ⟨index.freeableIds, index.blockedFreeableChildren, ?_, fun freeable h => ?_⟩
      · simp only [trackInserted, bind_apply, read_apply, hbuilt, Option.isNone_none, branch_apply,
          if_true, pure_apply]
        rw [← hbuilt]
      · rw [hbuilt] at h
        cases h
  | some freeable =>
      rw [hbuilt] at htracked
      obtain ⟨next, hnext, hroot, hchild⟩ := Tracked.insert hnew hfirst hparent htracked
      rw [← hblocks] at hnext
      have hx : block.stableBlockId ∈ index.blocks.keys := by
        rw [hblocks, Dict.mem_keys_set]
        exact Or.inl rfl
      -- the first refresh repairs the new block, the second one its parent
      obtain ⟨freeable₁, children₁, hrun₁, -, htracked₁⟩ := @refreshFreeablePath_spec _ _ _
        (fun id => block.parentBlockId = some id) block.stableBlockId
        { index with freeableIds := some freeable, blockedFreeableChildren := next } hfirst' hx hnext
      cases hp : block.parentBlockId with
      | none =>
          rw [hp] at htracked₁
          refine ⟨freeable₁, children₁, ?_, htracked₁.mono (by simp)⟩
          rw [hroot hp] at hrun₁
          simp only [trackInserted, bind_apply, read_apply, hbuilt, Option.isNone_some, branch_apply,
            Bool.false_eq_true, if_false, write_apply, hp, pure_apply, hrun₁,
            refreshFreeablePath_none]
      | some p =>
          rw [hp] at htracked₁
          have hpkey : p ∈ index.blocks.keys := by
            rw [hblocks, Dict.mem_keys_set]
            exact Or.inr (hparent p hp)
          obtain ⟨freeable₂, children₂, hrun₂, -, htracked₂⟩ := @refreshFreeablePath_spec _ _ _ (fun _ => False) p
            { index with freeableIds := freeable₁, blockedFreeableChildren := children₁ } hfirst'
            hpkey (htracked₁.mono (by simp [eq_comm]))
          obtain ⟨count, hcount, hset⟩ := hchild p hp
          refine ⟨freeable₂, children₂, ?_, htracked₂⟩
          rw [hset] at hrun₁
          simp only [trackInserted, bind_apply, read_apply, hbuilt, Option.isNone_some, branch_apply,
            Bool.false_eq_true, if_false, write_apply, hp, hcount, hrun₁, hrun₂]

/-! ## A removed block -/

section

variable {blocks : Dict Id (PrefixCacheBlock Id Payload)} {x : Id}

theorem parentIn_erase_of_ne {id : Id} (hid : id ≠ x) :
    parentIn (blocks.erase x) id = parentIn blocks id := by
  rw [parentIn, parentIn, Dict.get?_erase, if_neg hid]

/-- A removed block no longer counts, just as a freeable one. -/
theorem blockedIn_erase (freeable : Finset Id) (id : Id) :
    blockedIn (blocks.erase x) (freeable.erase x) id = blockedIn blocks (insert x freeable) id := by
  rw [blockedIn, blockedIn, Dict.keys_erase, blockedChildren, blockedChildren, List.countP_filter]
  refine List.countP_congr fun c _ => ?_
  by_cases hc : c = x
  · simp [hc]
  · simp [hc, parentIn_erase_of_ne hc]

theorem TrackedExcept.erase {freeable : Finset Id} {children next : Dict Id ℤ}
    {broken : Id → Prop} (htracked : Tracked blocks (some freeable) children)
    (hcounts : ∀ id ∈ blocks.keys, id ≠ x → next.get? id = some (blockedIn blocks (insert x freeable) id : ℤ))
    (hmissing : ∀ id, id ∉ blocks.keys ∨ id = x → next.get? id = none)
    (hother : ∀ id, ¬ broken id → x ∈ freeable ∨ parentIn blocks x ≠ some id) :
    TrackedExcept broken (blocks.erase x) (some (freeable.erase x)) next := by
  obtain ⟨hold, hmember⟩ := htracked freeable rfl
  intro other h
  obtain rfl : freeable.erase x = other := by simpa using h
  refine ⟨⟨fun id hid => ?_, fun id hid => ?_, fun id hid => ?_⟩, fun id hid hok => ?_⟩
  · rw [Finset.mem_erase] at hid
    exact Dict.mem_keys_erase.mpr ⟨hold.indexed id hid.2, hid.1⟩
  · apply hmissing
    rw [Dict.mem_keys_erase, not_and_or, not_not] at hid
    exact hid
  · rw [Dict.mem_keys_erase] at hid
    rw [hcounts id hid.1 hid.2, blockedIn_erase]
  · rw [Dict.mem_keys_erase] at hid
    have hcount : blockedIn blocks (insert x freeable) id = blockedIn blocks freeable id := by
      rcases hother id hok with hmem | hparent
      · rw [Finset.insert_eq_of_mem hmem]
      · exact blockedChildren_insert_other hparent
    rw [MemberOk, blockedIn_erase, hcount, IdleIn, Dict.get?_erase, if_neg hid.2, Finset.mem_erase,
      and_iff_right hid.2]
    exact hmember id hid.1 (by simp)

end

/-- **The bookkeeping of `_remove_block_from_index`** keeps the freeable set
right. -/
theorem trackRemoved_spec {index : RadixPrefixIndex Id Payload}
    {blocks : Dict Id (PrefixCacheBlock Id Payload)} {block : PrefixCacheBlock Id Payload}
    (hblocks : index.blocks = blocks.erase block.stableBlockId) (hget : blocks.get? block.stableBlockId = some block)
    (hfirst : ParentsFirst (parentIn blocks) blocks.keys)
    (hfirst' : ParentsFirst (parentIn index.blocks) index.blocks.keys)
    (htracked : Tracked blocks index.freeableIds index.blockedFreeableChildren) :
    ∃ freeableIds children, trackRemoved block index = (.ok (), { index with
        freeableIds := freeableIds, blockedFreeableChildren := children }) ∧
      Tracked index.blocks freeableIds children := by
  have hx := Dict.mem_keys_of_get? hget
  have hparent := parentIn_of_get? hget
  cases hbuilt : index.freeableIds with
  | none =>
      refine ⟨index.freeableIds, index.blockedFreeableChildren, ?_, fun freeable h => ?_⟩
      · simp only [trackRemoved, bind_apply, read_apply, hbuilt, pure_apply]
        rw [← hbuilt]
      · rw [hbuilt] at h
        cases h
  | some freeable =>
      rw [hbuilt] at htracked
      obtain ⟨hold, -⟩ := htracked freeable rfl
      obtain ⟨children, hchildren⟩ : ∃ children,
          index.blockedFreeableChildren.erase block.stableBlockId = children := ⟨_, rfl⟩
      have hmissing : ∀ id, id ∉ blocks.keys ∨ id = block.stableBlockId → children.get? id = none := by
        intro id hid
        rw [← hchildren, Dict.get?_erase]
        rcases hid with hid | rfl
        · rw [hold.missing id hid, ite_self]
        · rw [if_pos rfl]
      have hcounts : ∀ id ∈ blocks.keys, id ≠ block.stableBlockId →
          children.get? id = some (blockedIn blocks freeable id : ℤ) := by
        intro id hid hne
        rw [← hchildren, Dict.get?_erase, if_neg hne, hold.counts id hid]
      by_cases hmem : block.stableBlockId ∈ freeable
      · -- a freeable block was not counted by its parent
        refine ⟨some (freeable.erase block.stableBlockId), children, ?_, ?_⟩
        · simp only [trackRemoved, bind_apply, read_apply, hbuilt, write_apply, if_pos hmem, pure_apply, hchildren]
        · rw [hblocks]
          refine TrackedExcept.erase htracked (fun id hid hne => ?_) hmissing fun id _ => Or.inl hmem
          rw [Finset.insert_eq_of_mem hmem]
          exact hcounts id hid hne
      cases hp : block.parentBlockId with
      | none =>
          rw [hp] at hparent
          refine ⟨some (freeable.erase block.stableBlockId), children, ?_, ?_⟩
          · simp only [trackRemoved, bind_apply, read_apply, hbuilt, write_apply,
              if_neg hmem, hp, pure_apply, hchildren]
          · rw [hblocks]
            refine TrackedExcept.erase htracked (fun id hid hne => ?_) hmissing
              fun id _ => Or.inr (by rw [hparent]; simp)
            rw [blockedIn, blockedChildren_insert_other (by rw [hparent]; simp)]
            exact hcounts id hid hne
      | some p =>
          rw [hp] at hparent
          have hpkey := hfirst.parent_mem hx hparent
          have hpx : p ≠ block.stableBlockId := by
            rintro rfl
            have := hfirst.idxOf_lt blocks.keys_nodup hx hparent
            omega
          have hpcount := hcounts p hpkey hpx
          have hdrop := blockedChildren_insert_child blocks.keys_nodup hx hparent hmem
          have hbroken : TrackedExcept (fun id => id = p ∨ False) index.blocks
              (some (freeable.erase block.stableBlockId))
              (children.set p ((blockedIn blocks freeable p : ℤ) - 1)) := by
            rw [hblocks]
            refine TrackedExcept.erase htracked (fun id hid hne => ?_) (fun id hid => ?_) fun id hid => Or.inr ?_
            · by_cases hidp : id = p
              · subst hidp
                rw [Dict.get?_set_self, blockedIn, hdrop, blockedIn]
                congr 1
                push_cast
                omega
              · rw [Dict.get?_set_of_ne _ _ hidp, hcounts id hid hne, blockedIn, blockedIn,
                  blockedChildren_insert_other]
                rw [hparent]
                simpa using fun h => hidp h.symm
            · rw [Dict.get?_set_of_ne _ _ (by rintro rfl; exact hid.elim (· hpkey) hpx), hmissing id hid]
            · rw [hparent]
              simpa [eq_comm] using hid
          have hpkey' : p ∈ index.blocks.keys := by
            rw [hblocks, Dict.mem_keys_erase]
            exact ⟨hpkey, hpx⟩
          obtain ⟨freeableIds, final, hrun, -, hdone⟩ := @refreshFreeablePath_spec _ _ _
            (fun _ => False) p { index with
              freeableIds := some (freeable.erase block.stableBlockId)
              blockedFreeableChildren := children.set p ((blockedIn blocks freeable p : ℤ) - 1) }
            hfirst' hpkey' hbroken
          refine ⟨freeableIds, final, ?_, hdone⟩
          simp only [trackRemoved, bind_apply, read_apply, hbuilt, write_apply,
            if_neg hmem, hp, hchildren, hpcount, hrun]

end RadixPrefixIndex
