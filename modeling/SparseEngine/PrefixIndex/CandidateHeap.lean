import SparseEngine.PrefixIndex.Eviction

/-!
# The lazily filled heap

The eviction and demotion loops keep a heap of candidates and the set of the
queued ids.  `Waiting blocks ready candidates` says what the pair stands for:
the blocks that are `ready`, each of them once, with the key its block has
now.  Popping gives the least ready block (`popCandidate_least`), and queueing
a block adds it when it passes the test and is not queued yet
(`queueIf_waiting`).  So every pop of the loop is a fresh selection among all
ready blocks.
-/

namespace RadixPrefixIndex

variable {Id Payload : Type} [LinearOrder Id]

/-! ## The order of the candidates -/

theorem Candidate.le_iff (a b : Candidate Id) : Candidate.le a b = true ↔
    a.1 < b.1 ∨ (a.1 = b.1 ∧ (a.2.1 < b.2.1 ∨ (a.2.1 = b.2.1 ∧ a.2.2 ≤ b.2.2))) := by
  simp [Candidate.le]

theorem Candidate.le_refl (a : Candidate Id) : Candidate.le a a = true := by
  simp [Candidate.le_iff]

theorem Candidate.le_trans {a b c : Candidate Id} (hab : Candidate.le a b = true)
    (hbc : Candidate.le b c = true) : Candidate.le a c = true := by
  rw [Candidate.le_iff] at hab hbc ⊢
  rcases hab with hab | ⟨hab, hab' | ⟨hab', hab''⟩⟩
  · rcases hbc with hbc | ⟨hbc, -⟩
    · exact Or.inl (hab.trans hbc)
    · exact Or.inl (hbc ▸ hab)
  · rcases hbc with hbc | ⟨hbc, hbc' | ⟨hbc', -⟩⟩
    · exact Or.inl (hab ▸ hbc)
    · exact Or.inr ⟨hab.trans hbc, Or.inl (hab'.trans hbc')⟩
    · exact Or.inr ⟨hab.trans hbc, Or.inl (hbc' ▸ hab')⟩
  · rcases hbc with hbc | ⟨hbc, hbc' | ⟨hbc', hbc''⟩⟩
    · exact Or.inl (hab ▸ hbc)
    · exact Or.inr ⟨hab.trans hbc, Or.inl (hab' ▸ hbc')⟩
    · exact Or.inr ⟨hab.trans hbc, Or.inr ⟨hab'.trans hbc', hab''.trans hbc''⟩⟩

theorem Candidate.le_total {a b : Candidate Id} (h : ¬ Candidate.le a b = true) :
    Candidate.le b a = true := by
  rw [Candidate.le_iff] at h ⊢
  push Not at h
  obtain ⟨hfirst, hrest⟩ := h
  rcases hfirst.lt_or_eq with hlt | heq
  · exact Or.inl hlt
  · obtain ⟨hsecond, hthird⟩ := hrest heq.symm
    rcases hsecond.lt_or_eq with hlt | heq'
    · exact Or.inr ⟨heq, Or.inl hlt⟩
    · exact Or.inr ⟨heq, Or.inr ⟨heq', (hthird heq'.symm).le⟩⟩

/-! ## `heapq.heappop` -/

theorem heappop_ne_none {heap : List (Candidate Id)} (hheap : heap ≠ []) :
    ∃ least others, heappop heap = some (least, others) := by
  cases heap with
  | nil => exact absurd rfl hheap
  | cons candidate rest =>
      unfold heappop
      split
      · exact ⟨_, _, rfl⟩
      · split
        · exact ⟨_, _, rfl⟩
        · exact ⟨_, _, rfl⟩

/-- **A pop** takes the least candidate and leaves the others. -/
theorem heappop_least {heap others : List (Candidate Id)} {least : Candidate Id}
    (hpop : heappop heap = some (least, others)) :
    heap.Perm (least :: others) ∧ ∀ candidate ∈ heap, Candidate.le least candidate = true := by
  induction heap generalizing least others with
  | nil => cases hpop
  | cons candidate rest ih =>
      unfold heappop at hpop
      cases hrest : heappop rest with
      | none =>
          have hnil : rest = [] := by
            by_contra hne
            obtain ⟨_, _, hsome⟩ := heappop_ne_none hne
            rw [hrest] at hsome
            cases hsome
          simp only [hrest, Option.some.injEq, Prod.mk.injEq] at hpop
          obtain ⟨rfl, rfl⟩ := hpop
          subst hnil
          refine ⟨List.Perm.refl _, fun other hother => ?_⟩
          rw [List.mem_singleton.mp hother]
          exact Candidate.le_refl _
      | some found =>
          obtain ⟨smallest, tail⟩ := found
          obtain ⟨hperm, hleast⟩ := ih hrest
          simp only [hrest] at hpop
          by_cases hle : Candidate.le candidate smallest = true
          · rw [if_pos hle] at hpop
            obtain ⟨rfl, rfl⟩ := Prod.mk.inj (Option.some.inj hpop)
            refine ⟨List.Perm.refl _, fun other hother => ?_⟩
            rcases List.mem_cons.mp hother with rfl | hother
            · exact Candidate.le_refl _
            · exact Candidate.le_trans hle (hleast other hother)
          · rw [if_neg hle] at hpop
            obtain ⟨rfl, rfl⟩ := Prod.mk.inj (Option.some.inj hpop)
            refine ⟨(hperm.cons candidate).trans (List.Perm.swap _ _ _), fun other hother => ?_⟩
            rcases List.mem_cons.mp hother with rfl | hother
            · exact Candidate.le_total hle
            · exact hleast other hother

/-! ## What a heap stands for -/

/-- The candidate of an indexed block. -/
def candidateOf (blocks : Dict Id (PrefixCacheBlock Id Payload)) (id : Id) : Candidate Id :=
  match blocks.get? id with
  | none => (0, 0, id)
  | some block => (-block.evictionPriority, block.lastAccess, id)

/-- The heap and the queued set stand for the ready blocks, each with its
candidate. -/
structure Waiting (blocks : Dict Id (PrefixCacheBlock Id Payload)) (ready : Id → Prop)
    (candidates : CandidateHeap Id) : Prop where
  heap : ∀ candidate, candidate ∈ candidates.heap ↔
    ready candidate.2.2 ∧ candidate = candidateOf blocks candidate.2.2
  nodup : candidates.heap.Nodup
  queued : ∀ id, id ∈ candidates.queued ↔ ready id

/-- The block is indexed and passes the test. -/
def Passes (index : RadixPrefixIndex Id Payload)
    (test : PrefixCacheBlock Id Payload → Except PyError Bool) (id : Id) : Prop :=
  ∃ block, index.blocks.get? id = some block ∧ test block = .ok true

section

variable {index : RadixPrefixIndex Id Payload} {blocks : Dict Id (PrefixCacheBlock Id Payload)}
  {test : PrefixCacheBlock Id Payload → Except PyError Bool} {ready ready' : Id → Prop}
  {candidates : CandidateHeap Id}

@[simp] theorem candidateOf_id (blocks : Dict Id (PrefixCacheBlock Id Payload)) (id : Id) :
    (candidateOf blocks id).2.2 = id := by
  unfold candidateOf
  split <;> rfl

theorem candidateOf_of_get? {id : Id} {block : PrefixCacheBlock Id Payload} (hget : blocks.get? id = some block) :
    candidateOf blocks id = (-block.evictionPriority, block.lastAccess, id) := by
  simp only [candidateOf, hget]

theorem waiting_empty : Waiting blocks (fun _ => False) {} := by
  refine ⟨fun candidate => ?_, List.nodup_nil, fun id => ?_⟩ <;> simp

/-- Only the candidates of the ready blocks matter. -/
theorem Waiting.congr (h : Waiting blocks ready candidates) {blocks' : Dict Id (PrefixCacheBlock Id Payload)}
    (hsame : ∀ id, ready id → candidateOf blocks' id = candidateOf blocks id) :
    Waiting blocks' ready candidates := by
  refine ⟨fun candidate => ?_, h.nodup, h.queued⟩
  rw [h.heap]
  refine and_congr_right fun hready => ?_
  rw [hsame _ hready]

theorem Waiting.ready_congr (h : Waiting blocks ready candidates)
    (hsame : ∀ id, ready' id ↔ ready id) : Waiting blocks ready' candidates := by
  have heq : ready' = ready := funext fun id => propext (hsame id)
  rw [heq]
  exact h

/-- **Queueing a block** makes it ready when it passes the test. -/
theorem queueIf_waiting (h : Waiting index.blocks ready candidates) {blockId : Option Id} {next : CandidateHeap Id}
    (hrun : queueIf index test candidates blockId = .ok next) :
    Waiting index.blocks (fun id => ready id ∨ (blockId = some id ∧ Passes index test id)) next := by
  unfold queueIf at hrun
  cases blockId with
  | none =>
      obtain rfl := Except.ok.inj hrun
      exact h.ready_congr fun id => by simp
  | some x =>
      dsimp only at hrun
      by_cases hqueued : x ∈ candidates.queued
      · rw [if_pos hqueued] at hrun
        obtain rfl := Except.ok.inj hrun
        refine h.ready_congr fun id => or_iff_left_of_imp ?_
        rintro ⟨hid, -⟩
        rw [← Option.some.inj hid]
        exact (h.queued x).mp hqueued
      · rw [if_neg hqueued] at hrun
        cases hget : index.blocks.get? x with
        | none =>
            simp only [hget] at hrun
            obtain rfl := Except.ok.inj hrun
            refine h.ready_congr fun id => or_iff_left_of_imp ?_
            rintro ⟨hid, block, hblock, -⟩
            rw [← Option.some.inj hid, hget] at hblock
            cases hblock
        | some block =>
            simp only [hget] at hrun
            cases htest : test block with
            | error error =>
                rw [htest] at hrun
                cases hrun
            | ok answer =>
                rw [htest] at hrun
                -- nobody but the offered block becomes ready, and only if it passes:
                have hpasses (id : Id) : (some x = some id ∧ Passes index test id) ↔ id = x ∧ answer = true := by
                  constructor
                  · rintro ⟨hid, other, hother, htrue⟩
                    obtain rfl := Option.some.inj hid
                    obtain rfl := Option.some.inj (hget.symm.trans hother)
                    exact ⟨rfl, Except.ok.inj (htest.symm.trans htrue)⟩
                  · rintro ⟨rfl, rfl⟩
                    exact ⟨rfl, block, hget, htest⟩
                cases answer with
                | false =>
                    obtain rfl := Except.ok.inj hrun
                    refine h.ready_congr fun id => or_iff_left_of_imp fun hboth => ?_
                    rw [hpasses] at hboth
                    cases hboth.2
                | true =>
                    obtain rfl := Except.ok.inj hrun
                    -- it is pushed, since no entry of the heap is about it:
                    have hnew : ¬ ready x := fun hready => hqueued ((h.queued x).mpr hready)
                    refine ⟨fun candidate => ?_, ?_, fun id => ?_⟩
                    · rw [List.mem_cons, h.heap, hpasses, ← candidateOf_of_get? hget]
                      constructor
                      · rintro (rfl | ⟨hready, heq⟩)
                        · rw [candidateOf_id]
                          exact ⟨Or.inr ⟨rfl, rfl⟩, rfl⟩
                        · exact ⟨Or.inl hready, heq⟩
                      · rintro ⟨hready | ⟨hid, -⟩, heq⟩
                        · exact Or.inr ⟨hready, heq⟩
                        · rw [hid] at heq
                          exact Or.inl heq
                    · refine List.nodup_cons.mpr ⟨fun hmem => hnew ?_, h.nodup⟩
                      exact ((h.heap _).mp hmem).1
                    · rw [Finset.mem_insert, h.queued, hpasses, or_comm]
                      simp

/-- **A pop of the loop** gives the least ready block, if there is one. -/
theorem popCandidate_least (hids : ∀ id block, index.blocks.get? id = some block → block.stableBlockId = id)
    (h : Waiting index.blocks ready candidates) (hready : ∀ id, ready id ↔ Passes index test id) :
    (popCandidate index test candidates.heap.length candidates = .ok (none, candidates) ∧ ∀ id, ¬ ready id) ∨
    ∃ block rest, popCandidate index test candidates.heap.length candidates = .ok (some block, rest) ∧
      index.blocks.get? block.stableBlockId = some block ∧ ready block.stableBlockId ∧
      (∀ id, ready id → Candidate.le (candidateOf index.blocks block.stableBlockId)
        (candidateOf index.blocks id) = true) ∧
      Waiting index.blocks (fun id => ready id ∧ id ≠ block.stableBlockId) rest := by
  cases hlength : candidates.heap.length with
  | zero =>
      have hnil := List.length_eq_zero_iff.mp hlength
      refine Or.inl ⟨rfl, fun id hid => ?_⟩
      have hmem : candidateOf index.blocks id ∈ candidates.heap := by
        rw [h.heap, candidateOf_id]
        exact ⟨hid, rfl⟩
      rw [hnil] at hmem
      cases hmem
  | succ fuel =>
      have hne : candidates.heap ≠ [] := by
        rintro hnil
        rw [hnil] at hlength
        cases hlength
      obtain ⟨least, others, hpop⟩ := heappop_ne_none hne
      obtain ⟨hperm, hleast⟩ := heappop_least hpop
      obtain ⟨priority, access, x⟩ := least
      have hmem : (priority, access, x) ∈ candidates.heap :=
        hperm.mem_iff.mpr List.mem_cons_self
      obtain ⟨hx, hcandidate⟩ := (h.heap _).mp hmem
      dsimp only at hx hcandidate
      obtain ⟨block, hget, htest⟩ := (hready x).mp hx
      have hid := hids x block hget
      have hnodup : ((priority, access, x) :: others).Nodup := hperm.nodup_iff.mp h.nodup
      refine Or.inr ⟨block, ⟨others, candidates.queued.erase x⟩, ?_, hid ▸ hget, hid ▸ hx, fun id hready' => ?_, ?_⟩
      · unfold popCandidate
        simp only [hpop, hget, htest, bind, Except.bind, if_true, pure, Except.pure]
      · rw [hid, ← hcandidate]
        apply hleast
        rw [h.heap, candidateOf_id]
        exact ⟨hready', rfl⟩
      · rw [hid]
        refine ⟨fun candidate => ?_, (List.nodup_cons.mp hnodup).2, fun id => ?_⟩
        · -- what is left in the heap is what was there, the popped candidate apart
          have hothers : candidate ∈ others ↔ candidate ∈ candidates.heap ∧ candidate ≠ (priority, access, x) := by
            rw [hperm.mem_iff, List.mem_cons]
            constructor
            · exact fun hin => ⟨Or.inr hin, fun heq => (List.nodup_cons.mp hnodup).1 (heq ▸ hin)⟩
            · rintro ⟨heq | hin, hneq⟩
              · exact absurd heq hneq
              · exact hin
          rw [hothers, h.heap, hcandidate]
          constructor
          · rintro ⟨⟨hin, heq⟩, hneq⟩
            refine ⟨⟨hin, fun hidx => hneq ?_⟩, heq⟩
            rw [heq, hidx]
          · rintro ⟨⟨hin, hidx⟩, heq⟩
            refine ⟨⟨hin, heq⟩, fun hsame => hidx ?_⟩
            rw [hsame, candidateOf_id]
        · rw [Finset.mem_erase, h.queued, and_comm]

/-- **Filling the heap** makes the listed blocks ready that pass the test. -/
theorem foldlM_queueIf_waiting {listed : List Id} (h : Waiting index.blocks ready candidates)
    {filled : CandidateHeap Id}
    (hrun : listed.foldlM
      (fun candidates blockId => queueIf index test candidates (some blockId)) candidates = .ok filled) :
    Waiting index.blocks (fun id => ready id ∨ (id ∈ listed ∧ Passes index test id)) filled := by
  induction listed generalizing candidates ready with
  | nil =>
      obtain rfl := Except.ok.inj hrun
      exact h.ready_congr fun id => by simp
  | cons x rest ih =>
      rw [List.foldlM_cons] at hrun
      cases hfirst : queueIf index test candidates (some x) with
      | error error =>
          rw [hfirst] at hrun
          cases hrun
      | ok next =>
          rw [hfirst] at hrun
          refine (ih (queueIf_waiting h hfirst) hrun).ready_congr fun id => ?_
          rw [List.mem_cons, Option.some.injEq, or_assoc, or_and_right, eq_comm]

end

end RadixPrefixIndex
