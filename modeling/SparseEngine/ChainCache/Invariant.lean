import SparseEngine.ChainCache.Model
import Mathlib.Data.List.DropRight

/-!
# The invariant of the chain index

`Inv` says what the six containers, the token total and the cached snapshot
have to do with each other.  A call changes the index by at most three kinds
of moves: it revises a record in place, enters a new one, or retires one into
a tombstone.  Each move keeps `Inv`; the methods are then sequences of moves.
-/

namespace ChainCacheIndex

open Routine

variable {Fingerprint Digest : Type} {index next : ChainCacheIndex Fingerprint Digest}
  {chainId : String} {record : ChainRecord Fingerprint Digest}

/-- What holds of the index outside a call. -/
structure Inv (index : ChainCacheIndex Fingerprint Digest) : Prop where
  chainId_eq : ∀ {chainId record}, index.records.get? chainId = some record →
    record.chainId = chainId
  mem_active : ∀ {chainId}, chainId ∈ index.activeRecords.keys ↔
    ∃ record, index.records.get? chainId = some record ∧ record.state = .active
  owner : ∀ {seqId chainId}, index.seqIdToChainId.get? seqId = some chainId ↔
    ∃ record, index.records.get? chainId = some record ∧ record.seqId = seqId
  tombstones_eq : index.tombstones.keys = index.retired.dedup.rtake index.maxTombstones.toNat
  history_sum : index.tokenHistoryTokens =
    (index.records.values.map fun record => (record.tokenIds.length : ℤ)).sum
  history_le : ∀ limit ∈ index.maxTokenHistoryTokens, index.tokenHistoryTokens ≤ limit
  snapshot_eq : ∀ snapshot ∈ index.routingSnapshotCache, snapshot = index.buildRoutingSnapshot
  maxTombstones_pos : 0 < index.maxTombstones
  limit_nonneg : ∀ limit ∈ index.maxTokenHistoryTokens, 0 ≤ limit

/-- The chain ids of the records are the keys under which they are kept. -/
theorem Inv.map_chainId (h : Inv index) :
    index.records.values.map ChainRecord.chainId = index.records.keys := by
  unfold Dict.values Dict.keys
  rw [List.map_map]
  apply List.map_congr_left
  intro entry hmem
  exact h.chainId_eq (Dict.get?_eq_some_iff.mpr hmem)

/-- The containers that a revision of a record leaves alone. -/
def books (index : ChainCacheIndex Fingerprint Digest) :
    Dict ℕ String × Dict String ℤ × List String × ℤ × Option ℤ :=
  (index.seqIdToChainId, index.tombstones, index.retired, index.maxTombstones,
    index.maxTokenHistoryTokens)

/-! ## The snapshot -/

/-- A snapshot lists the ids under which the records are kept. -/
theorem mem_chainIdsIn (hkey : ∀ {chainId record}, index.records.get? chainId = some record →
    record.chainId = chainId) {state : ChainState} :
    chainId ∈ index.chainIdsIn state ↔ ∃ record, index.records.get? chainId = some record ∧ record.state = state := by
  unfold chainIdsIn
  rw [List.mem_toFinset, List.mem_map]
  constructor
  · rintro ⟨record, hmem, rfl⟩
    obtain ⟨hvalue, hstate⟩ := List.mem_filter.mp hmem
    obtain ⟨q, hq⟩ := Dict.mem_values_iff.mp hvalue
    rw [hkey hq]
    exact ⟨record, hq, by simpa using hstate⟩
  · rintro ⟨record, hrecord, hstate⟩
    refine ⟨record, List.mem_filter.mpr ⟨Dict.mem_values_iff.mpr ⟨chainId, hrecord⟩, ?_⟩, hkey hrecord⟩
    simpa using hstate

/-- Two indices with the same states of the same chains have the same
snapshot. -/
theorem buildRoutingSnapshot_congr
    (hkey : ∀ {chainId record}, index.records.get? chainId = some record → record.chainId = chainId)
    (hkey' : ∀ {chainId record}, next.records.get? chainId = some record → record.chainId = chainId)
    (hstates : ∀ chainId, (next.records.get? chainId).map ChainRecord.state =
      (index.records.get? chainId).map ChainRecord.state)
    (htombstones : next.tombstones = index.tombstones) :
    next.buildRoutingSnapshot = index.buildRoutingSnapshot := by
  have hids : ∀ state, next.chainIdsIn state = index.chainIdsIn state := by
    intro state
    ext chainId
    have hstate := hstates chainId
    rw [mem_chainIdsIn hkey, mem_chainIdsIn hkey']
    constructor
    · rintro ⟨record, hrecord, rfl⟩
      rw [hrecord] at hstate
      obtain ⟨other, hother, heq⟩ := Option.map_eq_some_iff.mp hstate.symm
      exact ⟨other, hother, heq⟩
    · rintro ⟨record, hrecord, rfl⟩
      rw [hrecord] at hstate
      obtain ⟨other, hother, heq⟩ := Option.map_eq_some_iff.mp hstate
      exact ⟨other, hother, heq⟩
  unfold buildRoutingSnapshot
  rw [hids, hids, htombstones]

/-- **A snapshot answers as the index does.** -/
theorem matchChain_buildRoutingSnapshot (h : Inv index) (chainId : String) :
    index.buildRoutingSnapshot.matchChain chainId = index.routingMatch chainId := by
  have hactive : chainId ∈ index.buildRoutingSnapshot.activeChainIds ↔
      ∃ record, index.records.get? chainId = some record ∧ record.state = .active :=
    mem_chainIdsIn h.chainId_eq
  have hidle : chainId ∈ index.buildRoutingSnapshot.idleChainIds ↔
      ∃ record, index.records.get? chainId = some record ∧ record.state = .idle :=
    mem_chainIdsIn h.chainId_eq
  have htombstone : chainId ∈ index.buildRoutingSnapshot.tombstoneChainIds ↔
      chainId ∈ index.tombstones.keys := List.mem_toFinset
  unfold ChainRoutingSnapshot.matchChain routingMatch
  cases hrecord : index.records.get? chainId with
  | none =>
      rw [if_neg (by rw [hactive, hrecord]; simp), if_neg (by rw [hidle, hrecord]; simp)]
      simp only [htombstone]
  | some record =>
      cases hstate : record.state with
      | active =>
          rw [if_pos (hactive.mpr ⟨record, hrecord, hstate⟩)]
          simp only [hstate]
      | idle =>
          have hnot : chainId ∉ index.buildRoutingSnapshot.activeChainIds := by
            rw [hactive, hrecord]
            simp [hstate]
          rw [if_neg hnot, if_pos (hidle.mpr ⟨record, hrecord, hstate⟩)]
          simp only [hstate]

/-! ## Tombstones -/

theorem dedup_concat {α : Type} [DecidableEq α] (items : List α) (item : α) :
    (items ++ [item]).dedup = items.dedup.filter (fun other => other ≠ item) ++ [item] := by
  induction items with
  | nil => simp
  | cons head rest ih =>
      by_cases hmem : head ∈ rest
      · rw [List.cons_append, List.dedup_cons_of_mem (List.mem_append_left _ hmem), ih, List.dedup_cons_of_mem hmem]
      · rw [List.dedup_cons_of_notMem hmem, List.cons_append]
        by_cases heq : head = item
        · rw [List.dedup_cons_of_mem (by simp [heq]), ih, List.filter_cons_of_neg (by simp [heq])]
        · have hnot : head ∉ rest ++ [item] := by simp [hmem, heq]
          rw [List.dedup_cons_of_notMem hnot, ih, List.filter_cons_of_pos (by simp [heq]), List.cons_append]

/-- Only the last `count` items matter for the last `count + 1` distinct
ones. -/
theorem rtake_filter_ne {α : Type} [DecidableEq α] {items : List α} (hnodup : items.Nodup) (item : α) (count : ℕ) :
    (items.filter fun other => other ≠ item).rtake count =
      ((items.rtake (count + 1)).filter fun other => other ≠ item).rtake count := by
  by_cases hshort : items.length ≤ count + 1
  · have hall : items.rtake (count + 1) = items := by
      simp [List.rtake, Nat.sub_eq_zero_of_le hshort]
    rw [hall]
  · set kept := items.rtake (count + 1) with hkept
    set dropped := items.take (items.length - (count + 1)) with hdropped
    have hsplit : items = dropped ++ kept := (List.take_append_drop _ _).symm
    have hlength : kept.length = count + 1 := by
      rw [hkept, List.rtake, List.length_drop]
      omega
    have hkept_nodup : kept.Nodup := hnodup.sublist (List.drop_sublist _ _)
    -- the filter removes at most one of the kept items
    have hcount : count ≤ (kept.filter fun other => other ≠ item).length := by
      have herase : (kept.erase item).length ≤ (kept.filter fun other => other ≠ item).length := by
        rw [hkept_nodup.erase_eq_filter]
        exact le_of_eq (congrArg List.length (List.filter_congr fun q _ => by
          simp [bne, beq_eq_decide]))
      have := List.le_length_erase (a := item) (l := kept)
      omega
    conv_lhs => rw [hsplit, List.filter_append]
    unfold List.rtake
    rw [List.length_append, List.drop_append]
    have hzero : (dropped.filter fun other => other ≠ item).length +
        (kept.filter fun other => other ≠ item).length - count -
        (dropped.filter fun other => other ≠ item).length =
        (kept.filter fun other => other ≠ item).length - count := by omega
    rw [hzero, List.drop_eq_nil_of_le (by omega), List.nil_append]

/-- The keys `_add_tombstone` leaves: the oldest go first. -/
theorem keys_dropOldest (limit : ℤ) (hlimit : 0 ≤ limit) (fuel : ℕ) (tombstones : Dict String ℤ)
    (hfuel : tombstones.size ≤ fuel) :
    (dropOldest limit fuel tombstones).keys = tombstones.keys.rtake limit.toNat := by
  induction fuel generalizing tombstones with
  | zero =>
      have hempty : tombstones.keys = [] := by
        apply List.length_eq_zero_iff.mp
        rw [Dict.length_keys]
        omega
      rw [dropOldest, hempty, List.rtake_nil]
  | succ fuel ih =>
      have hsize : tombstones.keys.length = tombstones.size := Dict.length_keys _
      unfold dropOldest
      by_cases hover : limit < tombstones.size
      · rw [if_pos hover]
        cases hkeys : tombstones.keys with
        | nil =>
            rw [hkeys] at hsize
            simp at hsize
            omega
        | cons oldest rest =>
            have hmem : oldest ∈ tombstones.keys := by rw [hkeys]; simp
            have hnodup := tombstones.keys_nodup
            rw [hkeys, List.nodup_cons] at hnodup
            have herase : (tombstones.erase oldest).keys = rest := by
              rw [Dict.keys_erase, hkeys, List.filter_cons_of_neg (by simp)]
              apply List.filter_eq_self.mpr
              intro q hq
              simp only [ne_eq, decide_not, Bool.not_eq_eq_eq_not, Bool.not_true, decide_eq_false_iff_not]
              rintro rfl
              exact hnodup.1 hq
            have hless := Dict.size_erase_of_mem hmem
            simp only [List.head?_cons]
            rw [ih _ (by omega), herase]
            rw [hkeys] at hsize
            simp only [List.length_cons] at hsize
            unfold List.rtake
            rw [List.length_cons]
            have hshift : rest.length + 1 - limit.toNat = (rest.length - limit.toNat) + 1 := by omega
            rw [hshift, List.drop_succ_cons]
      · rw [if_neg hover]
        unfold List.rtake
        rw [hsize, Nat.sub_eq_zero_of_le (by omega), List.drop_zero]

/-! ## The three moves -/

/-- Revising a record in place keeps the invariant. -/
theorem Inv.revise (h : Inv index) (hrecord : index.records.get? chainId = some record)
    {revised : ChainRecord Fingerprint Digest} (hrecords : next.records = index.records.set chainId revised)
    (hid : revised.chainId = record.chainId) (hseq : revised.seqId = record.seqId)
    (hactive : ∀ other, other ∈ next.activeRecords.keys ↔
      if other = chainId then revised.state = .active else other ∈ index.activeRecords.keys)
    (hsnapshot : next.routingSnapshotCache = none ∨
      next.routingSnapshotCache = index.routingSnapshotCache ∧ revised.state = record.state)
    (hhistory : next.tokenHistoryTokens + record.tokenIds.length = index.tokenHistoryTokens + revised.tokenIds.length)
    (hlimit : ∀ limit ∈ index.maxTokenHistoryTokens, next.tokenHistoryTokens ≤ limit)
    (hbooks : next.books = index.books) : Inv next := by
  simp only [books, Prod.mk.injEq] at hbooks
  obtain ⟨howners, htombstones, hretired, hmax, hcapacity⟩ := hbooks
  -- one record is exchanged for another with the same owner and id:
  have hget : ∀ other, next.records.get? other =
      if other = chainId then some revised else index.records.get? other := by
    intro other
    rw [hrecords, Dict.get?_set]
  have hkey : ∀ {other otherRecord}, next.records.get? other = some otherRecord → otherRecord.chainId = other := by
    intro other otherRecord hother
    rw [hget] at hother
    split at hother
    · next heq =>
        obtain rfl := Option.some.inj hother
        rw [hid, heq]
        exact h.chainId_eq hrecord
    · exact h.chainId_eq hother
  refine ⟨hkey, ?_, ?_, ?_, ?_, ?_, ?_, ?_, ?_⟩
  · intro other
    rw [hactive, hget]
    split
    · simp
    · exact h.mem_active
  · intro seqId other
    rw [howners, h.owner, hget]
    split
    · next heq =>
        subst heq
        rw [hrecord]
        simp [hseq]
    · exact Iff.rfl
  · rw [htombstones, hretired, hmax]
    exact h.tombstones_eq
  · have hsum := Dict.sum_values_set_of_get? revised (fun record => (record.tokenIds.length : ℤ)) hrecord
    have hbefore := h.history_sum
    rw [hrecords]
    omega
  · rw [hcapacity]
    exact hlimit
  · intro snapshot hmem
    rcases hsnapshot with hnone | ⟨hsame, hstate⟩
    · rw [hnone] at hmem
      simp at hmem
    · rw [hsame] at hmem
      rw [h.snapshot_eq snapshot hmem]
      -- a snapshot that is kept says no more than the states
      refine (buildRoutingSnapshot_congr h.chainId_eq hkey (fun other => ?_) htombstones).symm
      rw [hget]
      split
      · next heq =>
          subst heq
          rw [hrecord, Option.map_some, Option.map_some, hstate]
      · rfl
  · rw [hmax]
    exact h.maxTombstones_pos
  · rw [hcapacity]
    exact h.limit_nonneg

/-- Entering a new ACTIVE record keeps the invariant. -/
theorem Inv.enter (h : Inv index) (hrecords : next.records = index.records.set chainId record)
    (hnew : chainId ∉ index.records.keys) (howner : record.seqId ∉ index.seqIdToChainId.keys) (hid : record.chainId = chainId)
    (hstate : record.state = .active) (hempty : record.tokenIds = [])
    (hactive : next.activeRecords = index.activeRecords.set chainId ())
    (howners : next.seqIdToChainId = index.seqIdToChainId.set record.seqId chainId)
    (hsnapshot : next.routingSnapshotCache = none)
    (hrest : (next.tokenHistoryTokens, next.tombstones, next.retired, next.maxTombstones,
      next.maxTokenHistoryTokens) = (index.tokenHistoryTokens, index.tombstones, index.retired,
        index.maxTombstones, index.maxTokenHistoryTokens)) : Inv next := by
  simp only [Prod.mk.injEq] at hrest
  obtain ⟨htokens, htombstones, hretired, hmax, hcapacity⟩ := hrest
  have hget : ∀ other, next.records.get? other =
      if other = chainId then some record else index.records.get? other := by
    intro other
    rw [hrecords, Dict.get?_set]
  have hnone : index.records.get? chainId = none := Dict.not_mem_keys_iff.mp hnew
  refine ⟨?_, ?_, ?_, ?_, ?_, ?_, ?_, ?_, ?_⟩
  · intro other otherRecord hother
    rw [hget] at hother
    split at hother
    · next heq =>
        obtain rfl := Option.some.inj hother
        rw [hid, heq]
    · exact h.chainId_eq hother
  · intro other
    rw [hactive, Dict.mem_keys_set, h.mem_active, hget]
    split
    · next heq => simp [heq, hstate]
    · next hne => simp [hne]
  · intro seqId other
    rw [howners, Dict.get?_set, hget]
    by_cases hseq : seqId = record.seqId
    · -- no other chain has the new sequence
      rw [if_pos hseq]
      by_cases heq : other = chainId
      · simp [heq, hseq]
      · rw [if_neg heq]
        constructor
        · intro hsome
          exact absurd (Option.some.inj hsome).symm heq
        · intro hold
          have hmem := Dict.mem_keys_of_get? (h.owner.mpr hold)
          rw [hseq] at hmem
          exact absurd hmem howner
    · rw [if_neg hseq, h.owner]
      by_cases heq : other = chainId
      · rw [if_pos heq, heq, hnone]
        simp [Ne.symm hseq]
      · rw [if_neg heq]
  · rw [htombstones, hretired, hmax]
    exact h.tombstones_eq
  · rw [htokens, hrecords, Dict.sum_values_set_of_not_mem _ _ hnew, hempty, h.history_sum]
    simp
  · rw [hcapacity, htokens]
    exact h.history_le
  · intro snapshot hmem
    rw [hsnapshot] at hmem
    simp at hmem
  · rw [hmax]
    exact h.maxTombstones_pos
  · rw [hcapacity]
    exact h.limit_nonneg

/-- The index after a chain was retired. -/
def afterRetire (index : ChainCacheIndex Fingerprint Digest)
    (record : ChainRecord Fingerprint Digest) : ChainCacheIndex Fingerprint Digest :=
  let marked := (index.tombstones.erase record.chainId).set record.chainId (index.clock + 1)
  { index with
    tokenHistoryTokens := index.tokenHistoryTokens - record.tokenIds.length
    records := index.records.erase record.chainId
    activeRecords := index.activeRecords.erase record.chainId
    seqIdToChainId := index.seqIdToChainId.erase record.seqId
    routingSnapshotCache := none
    clock := index.clock + 1
    tombstones := dropOldest index.maxTombstones marked.size marked
    retired := index.retired ++ [record.chainId] }

theorem retire_apply (hrecord : index.records.get? record.chainId = some record) :
    retire record record.chainId index = (.ok (), afterRetire index record) := by
  have hdrop : dropTokenHistory record index = (.ok (),
      { index with
        tokenHistoryTokens := index.tokenHistoryTokens - record.tokenIds.length
        records := index.records.set record.chainId { record with tokenIds := [] } }) := by
    simp only [dropTokenHistory, modifyRecord, bind_apply, write_apply, hrecord]
  simp only [retire, bind_apply, hdrop, write_apply, Dict.erase_set_self, addTombstone, tick, read_apply, pure_apply]
  rfl

/-- The tombstones after a retirement: the retired chain is the newest. -/
theorem keys_tombstones_afterRetire (h : Inv index) :
    (afterRetire index record).tombstones.keys =
      (index.retired ++ [record.chainId]).dedup.rtake index.maxTombstones.toNat := by
  have hpos := h.maxTombstones_pos
  have hmark : ((index.tombstones.erase record.chainId).set record.chainId (index.clock + 1)).keys =
      (index.tombstones.keys.filter fun other => other ≠ record.chainId) ++ [record.chainId] := by
    rw [Dict.keys_set_of_not_mem _ (by simp), Dict.keys_erase]
  obtain ⟨count, hcount⟩ : ∃ count, index.maxTombstones.toNat = count + 1 :=
    ⟨index.maxTombstones.toNat - 1, by omega⟩
  unfold afterRetire
  dsimp only
  rw [keys_dropOldest _ hpos.le _ _ le_rfl, hmark, dedup_concat, hcount, List.rtake_concat_succ,
    List.rtake_concat_succ, h.tombstones_eq, hcount,
    ← rtake_filter_ne (List.nodup_dedup _) record.chainId count]

/-- Retiring a chain keeps the invariant. -/
theorem Inv.afterRetire (h : Inv index) (hrecord : index.records.get? record.chainId = some record) :
    Inv (afterRetire index record) := by
  have hget : ∀ other, (index.afterRetire record).records.get? other =
      if other = record.chainId then none else index.records.get? other :=
    fun other => Dict.get?_erase _ _ _
  have hsum : (((index.records.erase record.chainId).values.map
      fun record => (record.tokenIds.length : ℤ)).sum + record.tokenIds.length : ℤ) =
      index.tokenHistoryTokens := by
    rw [h.history_sum]
    exact Dict.sum_values_erase (fun record => (record.tokenIds.length : ℤ)) hrecord
  refine ⟨?_, ?_, ?_, keys_tombstones_afterRetire h, ?_, ?_, ?_, h.maxTombstones_pos, h.limit_nonneg⟩
  · intro other otherRecord hother
    rw [hget] at hother
    split at hother
    · simp at hother
    · exact h.chainId_eq hother
  · intro other
    show other ∈ (index.activeRecords.erase record.chainId).keys ↔ _
    rw [Dict.mem_keys_erase, h.mem_active, hget]
    split
    · next heq => simp [heq]
    · next hne => simp [hne]
  · intro seqId other
    show (index.seqIdToChainId.erase record.seqId).get? seqId = some other ↔ _
    have howned : index.seqIdToChainId.get? record.seqId = some record.chainId :=
      h.owner.mpr ⟨record, hrecord, rfl⟩
    rw [Dict.get?_erase, hget]
    by_cases hseq : seqId = record.seqId
    · -- the sequence belonged to the retired chain alone
      rw [if_pos hseq]
      split
      · simp
      · next hne =>
          constructor
          · simp
          · intro hold
            rw [hseq, ← h.owner, howned] at hold
            exact absurd (Option.some.inj hold).symm hne
    · rw [if_neg hseq, h.owner]
      split
      · next heq =>
          rw [heq, hrecord]
          simp [Ne.symm hseq]
      · exact Iff.rfl
  · show index.tokenHistoryTokens - record.tokenIds.length = _
    exact sub_eq_of_eq_add hsum.symm
  · intro limit hlimit
    show index.tokenHistoryTokens - record.tokenIds.length ≤ limit
    have := h.history_le limit hlimit
    omega
  · intro snapshot hmem
    exact absurd hmem (by simp [ChainCacheIndex.afterRetire])

end ChainCacheIndex
