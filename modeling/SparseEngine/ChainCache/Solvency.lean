import SparseEngine.ChainCache.Memory

/-!
# What the chains are owed

An admission promises its chain slots for the prompt and a row.  The promise
is not stored as a remainder: `_outstanding_active_reservations` recomputes it
from the reservation of the record, the residency at its last finish and the
residency now.  `Pool.headroom` is what is free beyond the promises and the
decode windows.

Slots and rows are accounted for alike, so both are a `Pool`.  Every call
either touches one sequence and its record, or a sequence that no record owns;
`totalOwed` then changes by that one record.
-/

open Routine ChainCacheIndex

variable {Fingerprint Digest : Type}

/-! ## Snapshots and rows seen from one sequence -/

/-- The snapshot stands for the chain's KV, or will when its copy is
complete. -/
def ChainSnapshot.Live (snapshot : ChainSnapshot) : Prop :=
  snapshot.valid = true ∨ snapshot.pending = true

namespace ChainMemory

/-- The sequence keeps its row, and gets no snapshot it did not have. -/
structure Calm (seqId : ℕ) (memory next : ChainMemory) : Prop where
  row_eq : next.rowSeqLens.get? seqId = memory.rowSeqLens.get? seqId
  snapshot : ∀ {later}, next.snapshots.get? seqId = some later →
    ∃ snapshot, memory.snapshots.get? seqId = some snapshot ∧
      (later.Live → snapshot.Live ∧ later.length = snapshot.length)

theorem Calm.refl (seqId : ℕ) (memory : ChainMemory) : Calm seqId memory memory :=
  ⟨rfl, fun hlater => ⟨_, hlater, fun hlive => ⟨hlive, rfl⟩⟩⟩

variable {seqId : ℕ}

theorem Calm.trans {memory next last : ChainMemory} (hfirst : Calm seqId memory next)
    (hsecond : Calm seqId next last) : Calm seqId memory last := by
  refine ⟨hsecond.row_eq.trans hfirst.row_eq, fun {later} hlater => ?_⟩
  obtain ⟨middle, hmiddle, hback⟩ := hsecond.snapshot hlater
  obtain ⟨snapshot, hsnapshot, hback'⟩ := hfirst.snapshot hmiddle
  refine ⟨snapshot, hsnapshot, fun hlive => ?_⟩
  obtain ⟨hlive', hlength⟩ := hback hlive
  obtain ⟨hlive'', hlength'⟩ := hback' hlive'
  exact ⟨hlive'', hlength.trans hlength'⟩

/-- Nothing but snapshots moved: copies completed, or snapshots were given
up. -/
structure OnlySnapshots (memory next : ChainMemory) : Prop where
  slots_eq : next.numFreeSlots = memory.numFreeSlots
  rows_eq : next.numFreeRows = memory.numFreeRows
  windows_eq : next.decodeWindows = memory.decodeWindows
  calm : ∀ seqId, Calm seqId memory next

theorem OnlySnapshots.refl (memory : ChainMemory) : OnlySnapshots memory memory :=
  ⟨rfl, rfl, rfl, fun seqId => Calm.refl seqId memory⟩

theorem OnlySnapshots.trans {memory next last : ChainMemory} (hfirst : OnlySnapshots memory next)
    (hsecond : OnlySnapshots next last) : OnlySnapshots memory last :=
  ⟨hsecond.slots_eq.trans hfirst.slots_eq, hsecond.rows_eq.trans hfirst.rows_eq,
    hsecond.windows_eq.trans hfirst.windows_eq,
    fun seqId => (hfirst.calm seqId).trans (hsecond.calm seqId)⟩

/-- A snapshot that is replaced by an equally long one, live only if it was, or
that is new but not live. -/
theorem OnlySnapshots.set {memory : ChainMemory} {snapshot later : ChainSnapshot}
    (hsnapshot : memory.snapshots.get? seqId = some snapshot)
    (hlive : later.Live → snapshot.Live ∧ later.length = snapshot.length) :
    OnlySnapshots memory { memory with snapshots := memory.snapshots.set seqId later } := by
  refine ⟨rfl, rfl, rfl, fun other => ⟨rfl, fun {found} hfound => ?_⟩⟩
  have hfound' : (memory.snapshots.set seqId later).get? other = some found := hfound
  rw [Dict.get?_set] at hfound'
  split at hfound'
  · next heq =>
      obtain rfl := Option.some.inj hfound'
      exact ⟨snapshot, heq ▸ hsnapshot, hlive⟩
  · exact ⟨found, hfound', fun hlive => ⟨hlive, rfl⟩⟩

theorem OnlySnapshots.erase (memory : ChainMemory) (seqId : ℕ) :
    OnlySnapshots memory { memory with snapshots := memory.snapshots.erase seqId } := by
  refine ⟨rfl, rfl, rfl, fun other => ⟨rfl, fun {found} hfound => ?_⟩⟩
  have hfound' : (memory.snapshots.erase seqId).get? other = some found := hfound
  rw [Dict.get?_erase] at hfound'
  split at hfound'
  · cases hfound'
  · exact ⟨found, hfound', fun hlive => ⟨hlive, rfl⟩⟩

/-- The call moves nothing but snapshots, on returns and on raises. -/
def Harmless {α : Type} (action : Routine ChainMemory α) : Prop :=
  ∀ memory, OnlySnapshots memory (action memory).2

namespace Harmless

variable {α β : Type}

theorem wpe {action : Routine ChainMemory α} (h : Harmless action) (memory : ChainMemory) :
    Routine.wpe action (fun _ => OnlySnapshots memory) (OnlySnapshots memory) memory := by
  have hnext := h memory
  rw [wpe_def]
  split <;> exact hnext

theorem pure (a : α) : Harmless (Pure.pure a) := fun memory => OnlySnapshots.refl memory

theorem read : Harmless Routine.read := fun memory => OnlySnapshots.refl memory

theorem ofExcept (result : Except PyError α) : Harmless (Routine.ofExcept result) :=
  fun memory => OnlySnapshots.refl memory

theorem raiseIf (condition : Prop) [Decidable condition] (error : PyError) :
    Harmless (Routine.raiseIf condition error) := by
  intro memory
  rw [raiseIf_apply]
  split <;> exact OnlySnapshots.refl memory

theorem bind {m : Routine ChainMemory α} {f : α → Routine ChainMemory β} (hm : Harmless m)
    (hf : ∀ a, Harmless (f a)) : Harmless (m >>= f) := by
  intro memory
  have hfirst := hm memory
  rw [bind_apply]
  rcases hrun : m memory with ⟨error | a, next⟩
  · rw [hrun] at hfirst
    exact hfirst
  · rw [hrun] at hfirst
    exact hfirst.trans (hf a next)

variable {condition : Prop}

theorem ite [Decidable condition] {first second : Routine ChainMemory α} (hfirst : Harmless first)
    (hsecond : Harmless second) : Harmless (if condition then first else second) := by
  split
  · exact hfirst
  · exact hsecond

theorem whenDo [Decidable condition] {body : Routine ChainMemory Unit} (hbody : Harmless body) :
    Harmless (Routine.whenDo condition body) :=
  ite hbody (pure ())

end Harmless

theorem harmless_deviceAnswer : Harmless deviceAnswer :=
  fun _ => ⟨rfl, rfl, rfl, fun _ => ⟨rfl, fun hlater => ⟨_, hlater, fun hlive => ⟨hlive, rfl⟩⟩⟩⟩

theorem harmless_deviceCall : Harmless deviceCall :=
  .bind harmless_deviceAnswer fun _ => .raiseIf _ _

theorem snapshots_deviceCall (memory : ChainMemory) :
    (deviceCall memory).2.snapshots = memory.snapshots := by
  unfold deviceCall
  rw [bind_apply]
  simp only [deviceAnswer, bind_apply, read_apply, write_apply, pure_apply, raiseIf_apply]
  split <;> rfl

/-- Waiting for a snapshot that is there completes its copy, and returns what is
then stored. -/
theorem wait_wpe {memory : ChainMemory} (seqId : ℕ) :
    wpe (wait seqId)
      (fun found next => OnlySnapshots memory next ∧ next.snapshots.get? seqId = some found ∧ found.pending = false)
      (OnlySnapshots memory) memory := by
  unfold wait
  rw [wpe_get]
  cases hsnapshot : memory.snapshots.get? seqId with
  | none => exact OnlySnapshots.refl memory
  | some snapshot =>
      show wpe (waitFor seqId snapshot) _ _ memory
      unfold waitFor
      by_cases hpending : snapshot.pending = true
      · rw [if_pos hpending, wpe_bind]
        have hcall := harmless_deviceCall memory
        have hkept := snapshots_deviceCall memory
        rw [wpe_def]
        rcases hrun : deviceCall memory with ⟨error | _, next⟩
        · rw [hrun] at hcall
          exact hcall
        · rw [hrun] at hcall hkept
          have hthere : next.snapshots.get? seqId = some snapshot := by
            rw [← hsnapshot]
            exact congrArg (Dict.get? · seqId) hkept
          have hset : OnlySnapshots next
              { next with snapshots := next.snapshots.set seqId ⟨snapshot.length, true, false⟩ } :=
            OnlySnapshots.set hthere fun _ => ⟨.inr hpending, rfl⟩
          exact ⟨hcall.trans hset, Dict.get?_set_self _ _ _, rfl⟩
      · rw [if_neg hpending, wpe_pure]
        exact ⟨OnlySnapshots.refl memory, hsnapshot, by simpa using hpending⟩

theorem harmless_wait (seqId : ℕ) : Harmless (wait seqId) := fun _ =>
  after_of_wpe (wpe_imp (wait_wpe seqId) (fun _ _ h => h.1) fun _ h => h)

theorem harmless_drop (seqId : ℕ) : Harmless (drop seqId) :=
  .bind .read fun _ => .whenDo (.bind (harmless_wait seqId) fun _ memory =>
    OnlySnapshots.erase memory seqId)

theorem onlySnapshots_completed (memory : ChainMemory) (seqId : ℕ) :
    OnlySnapshots memory (memory.completed seqId) := by
  unfold completed
  split
  · exact OnlySnapshots.refl memory
  · next snapshot hsnapshot =>
      split
      · next hpending => exact OnlySnapshots.set hsnapshot fun _ => ⟨.inr hpending, rfl⟩
      · exact OnlySnapshots.refl memory

theorem harmless_pollPending (seqIds : List ℕ) : Harmless (pollPending seqIds) := by
  induction seqIds with
  | nil => exact .pure ()
  | cons seqId rest ih =>
      unfold pollPending
      refine .bind harmless_deviceAnswer fun complete => .ite ?_ (.pure ())
      exact .bind (fun memory => onlySnapshots_completed memory seqId) fun _ => ih

theorem harmless_poll : Harmless poll := .bind .read fun _ => harmless_pollPending _

/-- After `invalidate` the sequence has no live snapshot. -/
theorem invalidate_wpe {memory : ChainMemory} (seqId : ℕ) :
    wpe (invalidate seqId)
      (fun _ next => OnlySnapshots memory next ∧
        ∀ snapshot, next.snapshots.get? seqId = some snapshot → ¬ snapshot.Live)
      (OnlySnapshots memory) memory := by
  unfold invalidate
  rw [wpe_get, wpe_whenDo]
  constructor
  · intro _
    refine wpe_then (wait_wpe seqId) fun found next hwaited => ?_
    obtain ⟨hnext, hfound, hcomplete⟩ := hwaited
    have hdead : ¬ ChainSnapshot.Live { found with valid := false } := by
      simp [ChainSnapshot.Live, hcomplete]
    refine ⟨hnext.trans (OnlySnapshots.set hfound fun hlive => absurd hlive hdead), ?_⟩
    intro snapshot hsnapshot
    have hsnapshot' := (Dict.get?_set_self next.snapshots seqId _).symm.trans hsnapshot
    obtain rfl := Option.some.inj hsnapshot'
    exact hdead
  · intro hnone
    refine ⟨OnlySnapshots.refl memory, fun snapshot hsnapshot => ?_⟩
    exact absurd (Dict.mem_keys_of_get? hsnapshot) hnone

end ChainMemory

/-! ## Promises -/

/-- The two kinds of memory a chain is promised. -/
inductive Pool where
  | slots
  | rows

namespace Pool

/-- What a row of a length takes from the pool. -/
def cost : Pool → ℕ → ℤ
  | .slots, length => length
  | .rows, _ => 1

def free : Pool → ChainMemory → ℤ
  | .slots, memory => memory.numFreeSlots
  | .rows, memory => memory.numFreeRows

/-- What decode windows reserve. -/
def decode : Pool → ChainMemory → ℤ
  | .slots, memory => memory.decodeReserved
  | .rows, _ => 0

/-- What the row of a sequence holds. -/
def held (pool : Pool) (memory : ChainMemory) (seqId : ℕ) : ℤ :=
  ((memory.rowSeqLens.get? seqId).map pool.cost).getD 0

/-- What a record reserves. -/
def reserved : Pool → ChainRecord Fingerprint Digest → ℤ
  | .slots, record => record.reservedSlotsByLayer.headD 0
  | .rows, record => record.reservedRows

/-- What of the reservation has become residency. -/
def realized : Pool → Option ℕ → ChainRecord Fingerprint Digest → ℤ
  | .slots, row, record =>
      max 0 ((row.map fun (length : ℕ) => (length : ℤ)).getD (record.physicalSlotsByLayer.headD 0) -
        record.physicalSlotsByLayer.headD 0)
  | .rows, row, _ => if row.isSome then 1 else 0

/-- What an ACTIVE chain is still owed. -/
def owed (pool : Pool) (memory : ChainMemory) (record : ChainRecord Fingerprint Digest) : ℤ :=
  if record.state = .active then
    max 0 (pool.reserved record - pool.realized (memory.rowSeqLens.get? record.seqId) record)
  else 0

def totalOwed (pool : Pool) (runtime : ChainRuntime Fingerprint Digest ChainMemory) : ℤ :=
  (runtime.index.records.values.map (pool.owed runtime.env)).sum

/-- What is free beyond all promises. -/
def headroom (pool : Pool) (runtime : ChainRuntime Fingerprint Digest ChainMemory) : ℤ :=
  pool.free runtime.env - pool.totalOwed runtime - pool.decode runtime.env

variable {pool : Pool} {memory next : ChainMemory} {record : ChainRecord Fingerprint Digest}

theorem owed_nonneg (pool : Pool) (memory : ChainMemory)
    (record : ChainRecord Fingerprint Digest) : 0 ≤ pool.owed memory record := by
  unfold owed
  split
  · exact le_max_left _ _
  · exact le_rfl

theorem realized_nonneg (pool : Pool) (row : Option ℕ) (record : ChainRecord Fingerprint Digest) :
    0 ≤ pool.realized row record := by
  cases pool with
  | slots => exact le_max_left _ _
  | rows =>
      show 0 ≤ if row.isSome = true then (1 : ℤ) else 0
      split <;> decide

theorem owed_le_reserved (pool : Pool) (memory : ChainMemory) (record : ChainRecord Fingerprint Digest) :
    pool.owed memory record ≤ max 0 (pool.reserved record) := by
  have hrealized := pool.realized_nonneg (memory.rowSeqLens.get? record.seqId) record
  unfold owed
  split <;> omega

theorem owed_idle (hidle : record.state = .idle) : pool.owed memory record = 0 := by
  simp [owed, hidle]

theorem owed_congr (hrow : next.rowSeqLens.get? record.seqId = memory.rowSeqLens.get? record.seqId) :
    pool.owed next record = pool.owed memory record := by
  unfold owed
  rw [hrow]

theorem held_nonneg (pool : Pool) (memory : ChainMemory) (seqId : ℕ) :
    0 ≤ pool.held memory seqId := by
  unfold held
  cases memory.rowSeqLens.get? seqId with
  | none => exact le_rfl
  | some length => cases pool <;> simp [cost]

theorem held_congr {seqId : ℕ} (hrow : next.rowSeqLens.get? seqId = memory.rowSeqLens.get? seqId) :
    pool.held next seqId = pool.held memory seqId := by
  unfold held
  rw [hrow]

/-- Giving a row back returns what it held. -/
theorem free_withoutRow (pool : Pool) (memory : ChainMemory) (seqId : ℕ) :
    pool.free (memory.withoutRow seqId) = pool.free memory + pool.held memory seqId := by
  unfold held ChainMemory.withoutRow
  cases memory.rowSeqLens.get? seqId with
  | none => simp
  | some length => cases pool <;> simp [free, cost]

theorem decode_withoutRow (pool : Pool) (memory : ChainMemory) (seqId : ℕ) :
    pool.decode (memory.withoutRow seqId) = pool.decode memory := by
  unfold ChainMemory.withoutRow
  cases memory.rowSeqLens.get? seqId <;> cases pool <;> rfl

end Pool

namespace ChainMemory

theorem get?_withoutRow (memory : ChainMemory) (seqId other : ℕ) :
    (memory.withoutRow seqId).rowSeqLens.get? other =
      if other = seqId then none else memory.rowSeqLens.get? other := by
  unfold withoutRow
  cases hrow : memory.rowSeqLens.get? seqId with
  | none =>
      show memory.rowSeqLens.get? other = _
      by_cases heq : other = seqId
      · rw [if_pos heq, heq, hrow]
      · rw [if_neg heq]
  | some length => exact Dict.get?_erase _ _ _

theorem snapshots_withoutRow (memory : ChainMemory) (seqId : ℕ) :
    (memory.withoutRow seqId).snapshots = memory.snapshots := by
  unfold withoutRow
  cases memory.rowSeqLens.get? seqId <;> rfl

theorem calm_withoutRow {memory : ChainMemory} {seqId other : ℕ} (hne : other ≠ seqId) :
    Calm other memory (memory.withoutRow seqId) := by
  refine ⟨by rw [get?_withoutRow, if_neg hne], fun {later} hlater => ?_⟩
  rw [snapshots_withoutRow] at hlater
  exact ⟨later, hlater, fun hlive => ⟨hlive, rfl⟩⟩

end ChainMemory

/-! ## Records that fit their rows -/

section Fits

variable (config : MemoryConfig)

/-- The same number in every layer; an empty list stands for zeros. -/
def Layered (values : List ℤ) (value : ℤ) : Prop :=
  values = [] ∧ value = 0 ∨ values = List.replicate config.numKvLayers value

/-- A chain between two turns: its recorded residency is its row, or the
snapshot it can be restored from. -/
structure Resting (memory : ChainMemory) (record : ChainRecord Fingerprint Digest)
    (length : ℕ) : Prop where
  physical_eq : record.physicalSlotsByLayer = List.replicate config.numKvLayers (length : ℤ)
  resident : (record.residentRows = 1 ∧ memory.rowSeqLens.get? record.seqId = some length) ∨
    (record.residentRows = 0 ∧ memory.rowSeqLens.get? record.seqId = none ∧
      config.offload = true)
  snapshot : ∀ {snapshot}, memory.snapshots.get? record.seqId = some snapshot →
    config.offload = true ∧ (snapshot.Live → snapshot.length = length)

/-- A chain in a turn: its row has grown from the recorded residency. -/
structure Turning (memory : ChainMemory) (record : ChainRecord Fingerprint Digest)
    (base : ℕ) : Prop where
  physical_eq : Layered config record.physicalSlotsByLayer base
  reserved_eq : ∃ promised, Layered config record.reservedSlotsByLayer promised
  grown : ∀ {length}, memory.rowSeqLens.get? record.seqId = some length → base ≤ length
  fresh : memory.rowSeqLens.get? record.seqId = none →
    base = 0 ∧ (record.reservedSlotsByLayer.headD 0 ≤ 0 ∨ 1 ≤ record.reservedRows)
  snapshot : ∀ {snapshot}, memory.snapshots.get? record.seqId = some snapshot →
    config.offload = true ∧ ¬ snapshot.Live

/-- The record agrees with the memory of its sequence. -/
def Fits (memory : ChainMemory) (record : ChainRecord Fingerprint Digest) : Prop :=
  match record.state with
  | .idle => ∃ length, Resting config memory record length
  | .active => ∃ base, Turning config memory record base

variable {config} {memory next : ChainMemory} {record : ChainRecord Fingerprint Digest}

theorem fits_idle (hidle : record.state = .idle) :
    Fits config memory record ↔ ∃ length, Resting config memory record length := by
  unfold Fits
  rw [hidle]

theorem fits_active (hactive : record.state = .active) :
    Fits config memory record ↔ ∃ base, Turning config memory record base := by
  unfold Fits
  rw [hactive]

theorem Resting.calm {length : ℕ} (h : Resting config memory record length)
    (hcalm : ChainMemory.Calm record.seqId memory next) : Resting config next record length where
  physical_eq := h.physical_eq
  resident := by
    rw [hcalm.row_eq]
    exact h.resident
  snapshot hlater := by
    obtain ⟨snapshot, hsnapshot, hback⟩ := hcalm.snapshot hlater
    obtain ⟨hoffload, hlength⟩ := h.snapshot hsnapshot
    refine ⟨hoffload, fun hlive => ?_⟩
    obtain ⟨hlive', heq⟩ := hback hlive
    exact heq.trans (hlength hlive')

theorem Turning.calm {base : ℕ} (h : Turning config memory record base)
    (hcalm : ChainMemory.Calm record.seqId memory next) : Turning config next record base where
  physical_eq := h.physical_eq
  reserved_eq := h.reserved_eq
  grown hrow := h.grown (hcalm.row_eq ▸ hrow)
  fresh hrow := h.fresh (hcalm.row_eq ▸ hrow)
  snapshot hlater := by
    obtain ⟨snapshot, hsnapshot, hback⟩ := hcalm.snapshot hlater
    obtain ⟨hoffload, hdead⟩ := h.snapshot hsnapshot
    exact ⟨hoffload, fun hlive => hdead (hback hlive).1⟩

theorem Fits.calm (h : Fits config memory record)
    (hcalm : ChainMemory.Calm record.seqId memory next) : Fits config next record := by
  cases hstate : record.state with
  | idle =>
      obtain ⟨length, hresting⟩ := (fits_idle hstate).mp h
      exact (fits_idle hstate).mpr ⟨length, hresting.calm hcalm⟩
  | active =>
      obtain ⟨base, hturning⟩ := (fits_active hstate).mp h
      exact (fits_active hstate).mpr ⟨base, hturning.calm hcalm⟩

end Fits

/-! ## The accounts of a runtime -/

/-- A property of a chain's record that a calm memory keeps. -/
structure CalmProperty (P : String → ChainMemory → ChainRecord Fingerprint Digest → Prop) : Prop where
  calm : ∀ {chainId memory next record}, P chainId memory record →
    ChainMemory.Calm record.seqId memory next → P chainId next record

/-- The index is sound and every record has the property. -/
structure Accounts (P : String → ChainMemory → ChainRecord Fingerprint Digest → Prop)
    (runtime : ChainRuntime Fingerprint Digest ChainMemory) : Prop where
  inv : Inv runtime.index
  record : ∀ {chainId record}, runtime.index.records.get? chainId = some record →
    P chainId runtime.env record

namespace Accounts

variable {P R : String → ChainMemory → ChainRecord Fingerprint Digest → Prop}
  {runtime next : ChainRuntime Fingerprint Digest ChainMemory} {chainId : String}
  {record revised : ChainRecord Fingerprint Digest} {pool : Pool}

/-- Two chains do not share a sequence. -/
theorem seqId_ne (h : Inv runtime.index) (hrecord : runtime.index.records.get? chainId = some record) {other : String}
    {otherRecord : ChainRecord Fingerprint Digest}
    (hother : runtime.index.records.get? other = some otherRecord) (hne : other ≠ chainId) :
    otherRecord.seqId ≠ record.seqId := by
  intro heq
  have howner := h.owner.mpr ⟨record, hrecord, rfl⟩
  have hother' := h.owner.mpr ⟨otherRecord, hother, heq⟩
  exact hne (Option.some.inj (hother'.symm.trans howner))

/-- The sum over the records, when the memory is calm for all but one chain. -/
theorem sum_owed_split {records : Dict String (ChainRecord Fingerprint Digest)} (pool : Pool)
    (memory later : ChainMemory) (hrecord : records.get? chainId = some record)
    (hcalm : ∀ {other otherRecord}, other ≠ chainId → records.get? other = some otherRecord →
      later.rowSeqLens.get? otherRecord.seqId = memory.rowSeqLens.get? otherRecord.seqId) :
    (records.values.map (pool.owed later)).sum + pool.owed memory record =
      (records.values.map (pool.owed memory)).sum + pool.owed later record := by
  have hothers : ((records.erase chainId).values.map (pool.owed later)).sum =
      ((records.erase chainId).values.map (pool.owed memory)).sum := by
    apply congrArg List.sum
    apply List.map_congr_left
    intro otherRecord hmem
    obtain ⟨other, hother⟩ := Dict.mem_values_iff.mp hmem
    rw [Dict.get?_erase] at hother
    split at hother
    · cases hother
    · next hne => exact Pool.owed_congr (hcalm hne hother)
  have hlater := Dict.sum_values_erase (pool.owed later) hrecord
  have hmemory := Dict.sum_values_erase (pool.owed memory) hrecord
  omega

section

variable (h : Accounts P runtime)

include h

/-- One chain moves: its record is revised and the memory of its sequence
changes. -/
theorem revise (hR : CalmProperty R) (hrecord : runtime.index.records.get? chainId = some record)
    (hinv : Inv next.index) (hrecords : next.index.records = runtime.index.records.set chainId revised)
    (hcalm : ∀ seqId, seqId ≠ record.seqId → ChainMemory.Calm seqId runtime.env next.env)
    (hrevised : R chainId next.env revised)
    (hothers : ∀ other memory otherRecord, other ≠ chainId → P other memory otherRecord →
      R other memory otherRecord) : Accounts R next := by
  refine ⟨hinv, fun {other otherRecord} hother => ?_⟩
  rw [hrecords, Dict.get?_set] at hother
  split at hother
  · next heq =>
      obtain rfl := Option.some.inj hother
      rw [heq]
      exact hrevised
  · next hne =>
      exact hR.calm (hothers other _ _ hne (h.record hother)) (hcalm _ (seqId_ne h.inv hrecord hother hne))

theorem totalOwed_revise (pool : Pool) (hrecord : runtime.index.records.get? chainId = some record)
    (hrecords : next.index.records = runtime.index.records.set chainId revised)
    (hcalm : ∀ seqId, seqId ≠ record.seqId → ChainMemory.Calm seqId runtime.env next.env) :
    pool.totalOwed next + pool.owed runtime.env record = pool.totalOwed runtime + pool.owed next.env revised := by
  have hset := Dict.sum_values_set_of_get? revised (pool.owed next.env) hrecord
  have hsplit := sum_owed_split pool runtime.env next.env hrecord
    fun hne hother => (hcalm _ (seqId_ne h.inv hrecord hother hne)).row_eq
  unfold Pool.totalOwed
  rw [hrecords]
  omega

/-- A chain leaves the index; the memory of its sequence may change. -/
theorem retire (hP : CalmProperty P) (hrecord : runtime.index.records.get? chainId = some record)
    (hinv : Inv next.index) (hrecords : next.index.records = runtime.index.records.erase chainId)
    (hcalm : ∀ seqId, seqId ≠ record.seqId → ChainMemory.Calm seqId runtime.env next.env) :
    Accounts P next := by
  refine ⟨hinv, fun {other otherRecord} hother => ?_⟩
  rw [hrecords, Dict.get?_erase] at hother
  split at hother
  · cases hother
  · next hne => exact hP.calm (h.record hother) (hcalm _ (seqId_ne h.inv hrecord hother hne))

theorem totalOwed_retire (pool : Pool) (hrecord : runtime.index.records.get? chainId = some record)
    (hrecords : next.index.records = runtime.index.records.erase chainId)
    (hcalm : ∀ seqId, seqId ≠ record.seqId → ChainMemory.Calm seqId runtime.env next.env) :
    pool.totalOwed next + pool.owed runtime.env record = pool.totalOwed runtime := by
  have herase := Dict.sum_values_erase (pool.owed next.env) hrecord
  have hsplit := sum_owed_split pool runtime.env next.env hrecord
    fun hne hother => (hcalm _ (seqId_ne h.inv hrecord hother hne)).row_eq
  unfold Pool.totalOwed
  rw [hrecords]
  omega

/-- The memory changes for sequences that no record owns. -/
theorem calm (hP : CalmProperty P) {memory : ChainMemory}
    (hcalm : ∀ {chainId record}, runtime.index.records.get? chainId = some record →
      ChainMemory.Calm record.seqId runtime.env memory) :
    Accounts P { runtime with env := memory } :=
  ⟨h.inv, fun hrecord => hP.calm (h.record hrecord) (hcalm hrecord)⟩

end

theorem totalOwed_calm {memory : ChainMemory}
    (hcalm : ∀ {chainId record}, runtime.index.records.get? chainId = some record →
      ChainMemory.Calm record.seqId runtime.env memory) :
    pool.totalOwed { runtime with env := memory } = pool.totalOwed runtime := by
  unfold Pool.totalOwed
  apply congrArg List.sum
  apply List.map_congr_left
  intro record hmem
  obtain ⟨chainId, hrecord⟩ := Dict.mem_values_iff.mp hmem
  exact Pool.owed_congr (hcalm hrecord).row_eq

end Accounts

/-- Every record fits its row, and the promises are covered. -/
structure Solvent (config : MemoryConfig)
    (runtime : ChainRuntime Fingerprint Digest ChainMemory) : Prop where
  accounts : Accounts (fun _ => Fits config) runtime
  covered : ∀ pool : Pool, 0 ≤ pool.headroom runtime

theorem calmProperty_fits (config : MemoryConfig) :
    CalmProperty fun (_ : String) memory (record : ChainRecord Fingerprint Digest) =>
      Fits config memory record :=
  ⟨fun hfits hcalm => hfits.calm hcalm⟩

/-! ## Numbers along the layers -/

section Layers

variable {config : MemoryConfig} {values others : List ℤ} {value other : ℤ}

theorem Layered.nil : Layered config [] 0 := .inl ⟨rfl, rfl⟩

theorem Layered.replicate (value : ℤ) :
    Layered config (List.replicate config.numKvLayers value) value := .inr rfl

section

variable (h : Layered config values value)

include h

theorem Layered.getD_eq {layer : ℕ} (hlayer : layer < config.numKvLayers) :
    values.getD layer 0 = value := by
  rcases h with ⟨hnil, hzero⟩ | hreplicate
  · rw [hnil, hzero]
    rfl
  · rw [hreplicate]
    simp [hlayer]

theorem Layered.headD_eq : values.headD 0 = value := by
  rcases h with ⟨hnil, hzero⟩ | hreplicate
  · rw [hnil, hzero]
    rfl
  · obtain ⟨count, hcount⟩ := Nat.exists_eq_succ_of_ne_zero config.numKvLayers_pos.ne'
    rw [hreplicate, hcount]
    rfl

theorem Layered.length_le : values.length = 0 ∨ values.length = config.numKvLayers := by
  rcases h with ⟨hnil, _⟩ | hreplicate
  · exact .inl (by rw [hnil]; rfl)
  · exact .inr (by rw [hreplicate, List.length_replicate])

end

theorem foldl_max_replicate (count : ℕ) (value : ℤ) :
    (List.replicate count value).foldl max value = value := by
  induction count with
  | zero => rfl
  | succ count ih => rw [List.replicate_succ, List.foldl_cons, max_self, ih]

theorem Layered.maxDefault_eq (h : Layered config values value) :
    ChainMemory.maxDefault values = value := by
  rcases h with ⟨hnil, hzero⟩ | hreplicate
  · rw [hnil, hzero]
    rfl
  · obtain ⟨count, hcount⟩ := Nat.exists_eq_succ_of_ne_zero config.numKvLayers_pos.ne'
    rw [hreplicate, hcount]
    exact foldl_max_replicate count value

theorem Layered.addLayers (h : Layered config values value) (h' : Layered config others other) :
    Layered config (ChainRuntime.addLayers values others) (value + other) := by
  by_cases hempty : values = [] ∧ others = []
  · rcases h with ⟨_, hzero⟩ | hreplicate
    · rcases h' with ⟨_, hzero'⟩ | hreplicate'
      · left
        rw [hempty.1, hempty.2, hzero, hzero']
        exact ⟨rfl, rfl⟩
      · have hlayers := congrArg List.length (hempty.2.symm.trans hreplicate')
        simp only [List.length_nil, List.length_replicate] at hlayers
        exact absurd hlayers config.numKvLayers_pos.ne
    · have hlayers := congrArg List.length (hempty.1.symm.trans hreplicate)
      simp only [List.length_nil, List.length_replicate] at hlayers
      exact absurd hlayers config.numKvLayers_pos.ne
  · have hlength : max values.length others.length = config.numKvLayers := by
      rcases h.length_le with hlen | hlen <;> rcases h'.length_le with hlen' | hlen'
      · exact absurd ⟨List.length_eq_zero_iff.mp hlen, List.length_eq_zero_iff.mp hlen'⟩ hempty
      all_goals omega
    right
    unfold ChainRuntime.addLayers
    rw [List.eq_replicate_iff]
    refine ⟨by rw [List.length_map, List.length_range, hlength], fun sum hsum => ?_⟩
    obtain ⟨layer, hlayer, rfl⟩ := List.mem_map.mp hsum
    rw [List.mem_range, hlength] at hlayer
    rw [h.getD_eq hlayer, h'.getD_eq hlayer]

/-- What a record owes in each layer. -/
theorem Layered.owedSlots {reserved current baseline : List ℤ} {promised now base : ℤ}
    (hreserved : Layered config reserved promised) (hcurrent : Layered config current now)
    (hbaseline : Layered config baseline base) :
    Layered config (ChainRuntime.owedSlots reserved current baseline) (max 0 (promised - max 0 (now - base))) := by
  rcases hreserved with ⟨hnil, hzero⟩ | hreplicate
  · left
    rw [hnil, hzero]
    exact ⟨rfl, by omega⟩
  · right
    unfold ChainRuntime.owedSlots
    rw [List.eq_replicate_iff]
    refine ⟨by rw [List.length_mapIdx, hreplicate, List.length_replicate], fun owed howed => ?_⟩
    obtain ⟨layer, hlayer, rfl⟩ := List.mem_mapIdx.mp howed
    have hlayer' : layer < config.numKvLayers := by
      rw [hreplicate, List.length_replicate] at hlayer
      exact hlayer
    rw [hcurrent.getD_eq hlayer', hbaseline.getD_eq hlayer']
    simp [hreplicate]

end Layers

/-! ## Calls that move nothing but snapshots -/

/-- The index is as it was and the memory moved nothing but snapshots. -/
structure Steady (runtime next : ChainRuntime Fingerprint Digest ChainMemory) : Prop where
  index_eq : next.index = runtime.index
  memory : ChainMemory.OnlySnapshots runtime.env next.env

namespace Steady

variable {config : MemoryConfig} {runtime next last : ChainRuntime Fingerprint Digest ChainMemory}
  {P : String → ChainMemory → ChainRecord Fingerprint Digest → Prop} {pool : Pool}

theorem refl (runtime : ChainRuntime Fingerprint Digest ChainMemory) : Steady runtime runtime :=
  ⟨rfl, .refl _⟩

theorem trans (hfirst : Steady runtime next) (hsecond : Steady next last) :
    Steady runtime last :=
  ⟨hsecond.index_eq.trans hfirst.index_eq, hfirst.memory.trans hsecond.memory⟩

section

variable (h : Steady runtime next)

include h

theorem eq_withMemory : next = { runtime with env := next.env } := by
  obtain ⟨index, memory⟩ := next
  obtain rfl : index = runtime.index := h.index_eq
  rfl

theorem accounts (hP : CalmProperty P) (haccounts : Accounts P runtime) : Accounts P next := by
  rw [h.eq_withMemory]
  exact haccounts.calm hP fun _ => h.memory.calm _

theorem held_eq (seqId : ℕ) : pool.held next.env seqId = pool.held runtime.env seqId :=
  Pool.held_congr (h.memory.calm seqId).row_eq

theorem headroom_eq (pool : Pool) : pool.headroom next = pool.headroom runtime := by
  have htotal : pool.totalOwed next = pool.totalOwed runtime := by
    rw [h.eq_withMemory]
    exact Accounts.totalOwed_calm fun _ => h.memory.calm _
  unfold Pool.headroom
  rw [htotal]
  cases pool with
  | slots =>
      simp only [Pool.free, Pool.decode, ChainMemory.decodeReserved, h.memory.slots_eq, h.memory.windows_eq]
  | rows => simp only [Pool.free, Pool.decode, h.memory.rows_eq]

theorem solvent (hsolvent : Solvent config runtime) : Solvent config next :=
  ⟨h.accounts (calmProperty_fits config) hsolvent.accounts, fun pool => h.headroom_eq pool ▸ hsolvent.covered pool⟩

end

end Steady

namespace ChainRuntime

variable {α : Type} {config : MemoryConfig}
  {runtime next : ChainRuntime Fingerprint Digest ChainMemory}

variable {action : Routine ChainMemory α}
  {post : α → ChainRuntime Fingerprint Digest ChainMemory → Prop}
  {bad : ChainRuntime Fingerprint Digest ChainMemory → Prop}

theorem wpe_inMemory :
    wpe (call (inMemory action)) post bad runtime ↔
      wpe action (fun a memory => post a { runtime with env := memory })
        (fun memory => bad { runtime with env := memory }) runtime.env := by
  rw [wpe_def, wpe_def]
  unfold call inMemory
  rcases action runtime.env with ⟨error | a, memory⟩ <;> exact Iff.rfl

theorem wpe_ofMemory {view : ChainMemory → α} :
    wpe (call (ofMemory view)) post bad runtime ↔ post (view runtime.env) runtime := Iff.rfl

/-- A harmless call of a hook. -/
theorem wpe_harmless (h : ChainMemory.Harmless action) (hpost : ∀ a next, Steady runtime next → post a next)
    (hbad : ∀ next, Steady runtime next → bad next) :
    wpe (call (inMemory action)) post bad runtime := by
  rw [wpe_inMemory, wpe_def]
  have hmemory := h runtime.env
  rcases hrun : action runtime.env with ⟨error | a, memory⟩
  · rw [hrun] at hmemory
    exact hbad _ ⟨rfl, hmemory⟩
  · rw [hrun] at hmemory
    exact hpost a _ ⟨rfl, hmemory⟩

end ChainRuntime
