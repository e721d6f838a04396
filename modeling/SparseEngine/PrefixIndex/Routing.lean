import SparseEngine.PrefixIndex.Runs
import Mathlib.Logic.Equiv.List
import Mathlib.Data.List.TakeWhile

/-!
# Routing snapshots

A snapshot tests one block id after the other against the routing set.  The
index walks its radix tree.  The two agree when the ids are the hashes of the
blocks: an indexed block whose id is the hash of a chunk and the previous id
lies below the block of the previous id, so the ids found one after the other
are a root path of the tree.

The routing set is a persistent tree, so a snapshot is a value.
`RoutingSession` keeps every snapshot a run takes, next to the index it was
taken from.
-/

open Routine Forest RadixPrefixIndex

variable {Id Payload : Type} [LinearOrder Id]

namespace RadixPrefixIndex

/-- The id of every indexed block is the hash of its tokens and its parent. -/
def Hashed (hash : List ℤ → Option Id → Id) (blocks : Dict Id (PrefixCacheBlock Id Payload)) :
    Prop :=
  ∀ id block, blocks.get? id = some block →
    block.stableBlockId = hash block.tokenIds block.parentBlockId

section

variable {hash : List ℤ → Option Id → Id} {index next : RadixPrefixIndex Id Payload}

theorem Hashed.moves (hhashed : Hashed hash index.blocks) (hmoves : Moves index next) :
    Hashed hash next.blocks := by
  refine hmoves.changed.keeps hhashed fun block other hsame hblock => ?_
  rw [hsame.stableBlockId, hsame.tokenIds, hsame.parentBlockId]
  exact hblock

theorem Hashed.inserted (hhashed : Hashed hash index.blocks) {block : PrefixCacheBlock Id Payload}
    (hinserted : Inserted index block next) (hblock : block.stableBlockId = hash block.tokenIds block.parentBlockId) :
    Hashed hash next.blocks := by
  intro id other hget
  rw [hinserted.blocks, Dict.get?_set] at hget
  split at hget
  · obtain rfl := Option.some.inj hget
    exact hblock
  · exact hhashed id other hget

section

omit [LinearOrder Id]

/-- Every id is the hash of a chunk and the id before it. -/
theorem blockIdsLoop_hashed (hash : List ℤ → Option Id → Id) (blockSize count : ℕ)
    (tokenIds : List ℤ) (start : Option Id) (i : ℕ) (x : Id)
    (hx : (blockIdsLoop hash blockSize count tokenIds start)[i]? = some x) :
    ∃ chunk, x = hash chunk (((blockIdsLoop hash blockSize count tokenIds start).take i).getLast?.or start) := by
  induction count generalizing tokenIds start i with
  | zero => simp [blockIdsLoop] at hx
  | succ count ih =>
      rw [blockIdsLoop] at hx ⊢
      cases i with
      | zero =>
          obtain rfl := Option.some.inj hx
          exact ⟨_, rfl⟩
      | succ i =>
          rw [List.getElem?_cons_succ] at hx
          obtain ⟨chunk, hchunk⟩ := ih _ _ i hx
          refine ⟨chunk, ?_⟩
          rw [hchunk, List.take_succ_cons, List.getLast?_cons]
          cases (List.take i _).getLast? <;> rfl

theorem length_blockIdsLoop (hash : List ℤ → Option Id → Id) (blockSize count : ℕ)
    (tokenIds : List ℤ) (start : Option Id) :
    (blockIdsLoop hash blockSize count tokenIds start).length = count := by
  induction count generalizing tokenIds start with
  | zero => rfl
  | succ count ih => rw [blockIdsLoop, List.length_cons, ih]

end

/-- **Indexed hashes are a root path.** -/
theorem isRootPath_of_indexed (h : Inv index) (hhashed : Hashed hash index.blocks)
    (hinj : Function.Injective2 hash) {blockSize count : ℕ} {tokenIds : List ℤ} {k : ℕ}
    (hall : ∀ x ∈ (blockIdsLoop hash blockSize count tokenIds none).take k, x ∈ index.blocks.keys) :
    IsRootPath (parentIn index.blocks) index.blocks.keys
      ((blockIdsLoop hash blockSize count tokenIds none).take k) := by
  intro i x hx
  have hmem := hall x (List.mem_of_getElem? hx)
  have hi := (List.getElem?_eq_some_iff.mp hx).1
  rw [List.length_take] at hi
  rw [List.getElem?_take_of_lt (by omega)] at hx
  obtain ⟨chunk, hchunk⟩ := blockIdsLoop_hashed hash blockSize count tokenIds none i x hx
  rw [Option.or_none] at hchunk
  obtain ⟨block, hget⟩ := Dict.mem_keys_iff.mp hmem
  have hid : hash block.tokenIds block.parentBlockId = x := by
    rw [← hhashed x block hget, h.ids x block hget]
  rw [List.take_take, min_eq_left (by omega), parentIn_of_get? hget]
  exact ⟨hmem, (hinj (hid.trans hchunk)).2⟩

end

end RadixPrefixIndex

namespace PrefixCacheRoutingSnapshot

/-- The loop counts the ids up to the first one that is missing. -/
theorem matchLoop_eq (hash : List ℤ → Option Id → Id) (snapshot : PrefixCacheRoutingSnapshot Id)
    (count : ℕ) (tokenIds : List ℤ) (last : Option Id) (hitBlocks : ℕ) :
    snapshot.matchLoop hash count tokenIds last hitBlocks =
      let hit := (blockIdsLoop hash snapshot.blockSize count tokenIds last).takeWhile
        snapshot.routingMembership.contains
      (hitBlocks + hit.length, hit.getLast?.or last) := by
  induction count generalizing tokenIds last hitBlocks with
  | zero => rfl
  | succ count ih =>
      rw [matchLoop, blockIdsLoop, List.takeWhile_cons]
      dsimp only
      split
      · rw [ih, List.length_cons, List.getLast?_cons]
        dsimp only
        rw [Nat.add_assoc, Nat.add_comm 1]
        cases (List.takeWhile _ _).getLast? <;> rfl
      · rfl

end PrefixCacheRoutingSnapshot

namespace RadixPrefixIndex

variable {hash : List ℤ → Option Id → Id} {index : RadixPrefixIndex Id Payload}

/-- **The radix walk finds the ids up to the first one that is not indexed.** -/
theorem lookup_blockIds (h : Inv index) (hhashed : Hashed hash index.blocks)
    (hinj : Function.Injective2 hash) (blockSize count : ℕ) (tokenIds : List ℤ) :
    let ids := blockIdsLoop hash blockSize count tokenIds none
    let hit := ids.takeWhile index.routingMembership.contains
    (index.backend.lookup ids ids.length).hitBlockCount = hit.length ∧
      (index.backend.lookup ids ids.length).lastBlockId = hit.getLast? := by
  intro ids hit
  have hprefix : hit <+: ids := List.takeWhile_prefix _
  have hhit : ids.take hit.length = hit := (List.prefix_iff_eq_take.mp hprefix).symm
  obtain ⟨hle, hpath, hmax, hlast⟩ := h.tree.lookup_eq ids ids.length
  rw [Int.toNat_natCast, List.take_length] at hle hmax
  have hcount : (index.backend.lookup ids ids.length).hitBlockCount = hit.length := by
    apply le_antisymm
    · -- the blocks of the walk are indexed, so the test never fails among them
      by_contra hlt
      obtain ⟨x, hx⟩ : ∃ x, ids[hit.length]? = some x :=
        ⟨_, List.getElem?_eq_getElem (by omega)⟩
      have hmem : x ∈ index.blocks.keys := by
        refine (hpath hit.length x ?_).1
        rw [List.getElem?_take_of_lt (by omega)]
        exact hx
      have hfound := (h.routing.contains_iff x).mpr hmem
      have hsplit : hit ++ ids.dropWhile index.routingMembership.contains = ids :=
        List.takeWhile_append_dropWhile
      rw [← hsplit, List.getElem?_append_right le_rfl, Nat.sub_self, ← List.head?_eq_getElem?] at hx
      have hnot := List.head?_dropWhile_not index.routingMembership.contains ids
      rw [hx] at hnot
      exact Bool.false_ne_true (hnot.symm.trans hfound)
    · apply hmax _ hprefix.length_le
      refine isRootPath_of_indexed h hhashed hinj fun x hx => ?_
      have hx' : x ∈ hit := by
        rw [← hhit]
        exact hx
      exact (h.routing.contains_iff x).mp (List.mem_takeWhile_imp hx')
  refine ⟨hcount, ?_⟩
  rw [hlast, hcount, hhit]

/-- What a snapshot of the index answers about a prompt. -/
structure SnapshotAgrees (hash : List ℤ → Option Id → Id) (index : RadixPrefixIndex Id Payload)
    (snapshot : PrefixCacheRoutingSnapshot Id) (tokenIds : List ℤ) : Prop where
  answer : ((snapshot.matchTokens hash tokenIds).matchedTokens,
      (snapshot.matchTokens hash tokenIds).lastBlockId,
      (snapshot.matchTokens hash tokenIds).matchedBlocks) =
    index.matchLongestPrefix hash tokenIds
      (usablePrefixCacheTokens tokenIds.length index.blockSize)
  notWhole : tokenIds ≠ [] → (snapshot.matchTokens hash tokenIds).matchedTokens < tokenIds.length
  aligned : index.blockSize ∣ (snapshot.matchTokens hash tokenIds).matchedTokens
  live : (snapshot.matchTokens hash tokenIds).liveBlocks = index.blocks.size

/-- The usable tokens are whole blocks and leave a token over. -/
theorem usablePrefixCacheTokens_eq (promptLen blockSize : ℕ) :
    ∃ count : ℕ, usablePrefixCacheTokens promptLen blockSize = count * blockSize ∧
      count * blockSize ≤ promptLen - 1 := by
  rw [usablePrefixCacheTokens]
  split
  · exact ⟨0, by simp, by simp⟩
  · next hlong =>
      refine ⟨(promptLen - 1) / blockSize, ?_, Nat.div_mul_le_self _ _⟩
      have hcast : (promptLen : ℤ) - 1 = ((promptLen - 1 : ℕ) : ℤ) := by omega
      rw [hcast]
      norm_cast

/-- **A snapshot taken from the index agrees with it.** -/
theorem snapshotAgrees (h : Inv index) (hhashed : Hashed hash index.blocks)
    (hinj : Function.Injective2 hash) (method : String) (tokenIds : List ℤ) :
    SnapshotAgrees hash index ⟨method, index.blockSize, index.routingMembership⟩ tokenIds := by
  obtain ⟨blocks, husable, hbound⟩ := usablePrefixCacheTokens_eq tokenIds.length index.blockSize
  obtain ⟨count, hcount⟩ : ∃ count, ((blocks * index.blockSize : ℤ) / (index.blockSize : ℤ)).toNat = count := ⟨_, rfl⟩
  -- the number of blocks both sides look at
  have hle : count * index.blockSize ≤ tokenIds.length - 1 := by
    refine le_trans ?_ hbound
    rw [← hcount]
    norm_cast
    exact Nat.div_mul_le_self _ _
  have hids : index.blockIdsForTokens hash tokenIds
      (some (usablePrefixCacheTokens tokenIds.length index.blockSize)) =
        blockIdsLoop hash index.blockSize count tokenIds none := by
    have hmin : min ((blocks * index.blockSize : ℕ) : ℤ) (tokenIds.length : ℤ) =
        ((blocks * index.blockSize : ℕ) : ℤ) := min_eq_left (by omega)
    rw [blockIdsForTokens]
    rw [husable, ← Nat.cast_mul, hmin, Nat.cast_mul, hcount]
  obtain ⟨hhits, hlast⟩ := lookup_blockIds h hhashed hinj index.blockSize count tokenIds
  obtain ⟨hit, hhit⟩ : ∃ hit, (blockIdsLoop hash index.blockSize count tokenIds none).takeWhile
      index.routingMembership.contains = hit := ⟨_, rfl⟩
  have hhitLength : hit.length ≤ count := by
    rw [← length_blockIdsLoop hash index.blockSize count tokenIds none, ← hhit]
    exact (List.takeWhile_prefix _).length_le
  have hmatch : PrefixCacheRoutingSnapshot.matchTokens hash
      ⟨method, index.blockSize, index.routingMembership⟩ tokenIds =
        { blockSize := index.blockSize
          promptTokens := tokenIds.length
          usableTokens := usablePrefixCacheTokens tokenIds.length index.blockSize
          matchedTokens := hit.length * index.blockSize
          matchedBlocks := hit.length
          lastBlockId := hit.getLast?
          liveBlocks := index.routingMembership.liveBlocks } := by
    rw [PrefixCacheRoutingSnapshot.matchTokens, PrefixCacheRoutingSnapshot.matchLoop_eq]
    dsimp only
    rw [husable, hcount, hhit, Option.or_none, Nat.zero_add]
  have hmatched : hit.length * index.blockSize ≤ tokenIds.length - 1 :=
    (Nat.mul_le_mul_right _ hhitLength).trans hle
  refine ⟨?_, ?_, ?_, ?_⟩
  · rw [hmatch, matchLongestPrefix, hids, matchLongestBlockIds]
    dsimp only
    rw [hhits, hlast, hhit]
    cases hit with
    | nil => simp
    | cons x rest => simp
  · intro hne
    have hpos := List.length_pos_of_ne_nil hne
    rw [hmatch]
    dsimp only
    omega
  · rw [hmatch]
    exact Nat.dvd_mul_left _ _
  · rw [hmatch]
    dsimp only
    rw [h.routing.live, Dict.length_keys]

end RadixPrefixIndex

/-! ## Sessions -/

/-- An index and the snapshots taken from it, each with the index it was taken
from. -/
structure RoutingSession (Id Payload : Type) where
  index : RadixPrefixIndex Id Payload
  taken : List (RadixPrefixIndex Id Payload × PrefixCacheRoutingSnapshot Id)

namespace RoutingSession

/-- One call. -/
def step (hash : List ℤ → Option Id → Id) (session : RoutingSession Id Payload)
    (op : IndexOp Id Payload) : RoutingSession Id Payload where
  index := op.run hash session.index
  taken :=
    match op with
    | .routingSnapshot method =>
        match (routingSnapshot method session.index).1 with
        | .ok snapshot => session.taken ++ [(session.index, snapshot)]
        | .error _ => session.taken
    | _ => session.taken

/-- The session after a run. -/
def runAll (hash : List ℤ → Option Id → Id) (session : RoutingSession Id Payload)
    (ops : List (IndexOp Id Payload)) : RoutingSession Id Payload :=
  ops.foldl (step hash) session

/-- Every inserted block carries the hash of its tokens and its parent. -/
def HashedOp (hash : List ℤ → Option Id → Id) (op : IndexOp Id Payload) : Prop :=
  ∀ block, op = .insertBlock block →
    block.stableBlockId = hash block.tokenIds block.parentBlockId

/-- What holds in every session. -/
structure Ok (hash : List ℤ → Option Id → Id) (session : RoutingSession Id Payload) : Prop where
  inv : Inv session.index
  hashed : Hashed hash session.index.blocks
  taken : ∀ entry ∈ session.taken, ∀ tokenIds, SnapshotAgrees hash entry.1 entry.2 tokenIds

variable {hash : List ℤ → Option Id → Id} {session : RoutingSession Id Payload}

theorem Ok.step (hok : Ok hash session) (hinj : Function.Injective2 hash)
    {op : IndexOp Id Payload} (hop : HashedOp hash op) : Ok hash (session.step hash op) := by
  refine ⟨IndexOp.run_inv hok.inv op, ?_, ?_⟩
  · rcases IndexOp.step hok.inv op with hmoves | ⟨block, hadds, hinserted⟩
    · exact hok.hashed.moves hmoves
    · exact hok.hashed.inserted hinserted (hop block hadds.1)
  · cases op with
    | routingSnapshot method =>
        obtain ⟨snapshot, next, hrun, -, hsnapshot⟩ := routingSnapshot_spec hok.inv method
        intro entry hentry
        simp only [RoutingSession.step, hrun, List.mem_append, List.mem_singleton] at hentry
        rcases hentry with hold | rfl
        · exact hok.taken entry hold
        · intro tokenIds
          rw [hsnapshot]
          exact snapshotAgrees hok.inv hok.hashed hinj method tokenIds
    | _ => exact hok.taken

theorem Ok.runAll (ops : List (IndexOp Id Payload)) (hok : Ok hash session)
    (hinj : Function.Injective2 hash) (hops : ∀ op ∈ ops, HashedOp hash op) :
    Ok hash (session.runAll hash ops) := by
  induction ops generalizing session with
  | nil => exact hok
  | cons op ops ih =>
      exact ih (hok.step hinj (hops op (by simp))) fun other hother => hops other (by simp [hother])

theorem ok_init (hash : List ℤ → Option Id → Id) (blockSize : ℕ) (maxBlocks : Option ℤ) :
    Ok hash (⟨init blockSize maxBlocks, []⟩ : RoutingSession Id Payload) := by
  refine ⟨IndexOp.inv_init blockSize maxBlocks, ?_, by simp⟩
  simp [Hashed, init]

/-- **Snapshots agree with the index they were taken from**, whatever the run
does afterwards, and a snapshot can always be taken. -/
theorem snapshots_agree_with_index (hinj : Function.Injective2 hash) (blockSize : ℕ)
    (maxBlocks : Option ℤ) (ops : List (IndexOp Id Payload))
    (hops : ∀ op ∈ ops, HashedOp hash op) :
    let session := RoutingSession.runAll hash ⟨init blockSize maxBlocks, []⟩ ops
    (∀ method, ∃ snapshot next, routingSnapshot method session.index = (.ok snapshot, next)) ∧
      ∀ entry ∈ session.taken, ∀ tokenIds, SnapshotAgrees hash entry.1 entry.2 tokenIds := by
  intro session
  have hok : Ok hash session := (ok_init hash blockSize maxBlocks).runAll ops hinj hops
  refine ⟨fun method => ?_, hok.taken⟩
  obtain ⟨snapshot, next, hrun, -, -⟩ := routingSnapshot_spec hok.inv method
  exact ⟨snapshot, next, hrun⟩

/-- An injective hash into the natural numbers. -/
def pairingHash (tokenIds : List ℤ) (parent : Option ℕ) : ℕ :=
  Encodable.encode (tokenIds, parent)

/-- A block of `tokenIds`. -/
def hashedBlock (obj : ℕ) (tokenIds : List ℤ) (parent : Option ℕ) : PrefixCacheBlock ℕ Unit where
  obj := obj
  stableBlockId := pairingHash tokenIds parent
  parentBlockId := parent
  logicalBlockIdx := 0
  payload := ()
  tokenIds := tokenIds

/-- A snapshot taken between two insertions does not see the second one. -/
theorem snapshot_taken_between_insertions :
    let first := hashedBlock 0 [3, 5] none
    let second := hashedBlock 1 [7, 9] (some first.stableBlockId)
    let ops : List (IndexOp ℕ Unit) :=
      [.insertBlock first, .routingSnapshot "quest", .insertBlock second]
    ∀ entry ∈ (RoutingSession.runAll pairingHash ⟨init 2 none, []⟩ ops).taken, ∀ tokenIds,
      SnapshotAgrees pairingHash entry.1 entry.2 tokenIds := by
  intro first second ops
  refine (snapshots_agree_with_index ?_ 2 none ops ?_).2
  · intro tokenIds other parent otherParent heq
    exact Prod.mk.inj (Encodable.encode_injective heq)
  · intro op hop block hblock
    subst hblock
    simp only [ops, List.mem_cons, IndexOp.insertBlock.injEq, reduceCtorEq, List.not_mem_nil,
      or_false, false_or] at hop
    rcases hop with rfl | rfl <;> rfl

end RoutingSession
