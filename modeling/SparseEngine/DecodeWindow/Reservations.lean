import SparseEngine.Sequence
import SparseEngine.Lib.Tally
import SparseEngine.Lib.Bisection

/-!
# Decode reservations

`DecodeReservations` of `decode_reservation.py`: the output tokens for which a
request may allocate KV without asking again.  A sequence object is known by
its `seq_id`.  The cache manager does not change while windows are acquired,
so its costs are a function of the sequence and the horizon.
-/

/-- The hooks of the cache manager. -/
structure WindowManager where
  decodeWindowCosts : ℕ → ℤ → Dict String ℤ
  decodeWindowBudgets : Dict String ℤ

/-- Costs are monotone in the horizon: a longer window costs at least as much of
every resource that a shorter one costs. -/
def WindowManager.Monotone (manager : WindowManager) : Prop :=
  ∀ seq fewer more, 1 ≤ fewer → fewer ≤ more →
    ∀ name cost, (manager.decodeWindowCosts seq fewer).get? name = some cost →
      ∃ larger, (manager.decodeWindowCosts seq more).get? name = some larger ∧ cost ≤ larger

/-- `DecodeReservation`. -/
structure DecodeReservation where
  sequence : ℕ
  /-- `end`. -/
  windowEnd : ℤ
  deriving DecidableEq

/-- `DecodeReservations`.  An entry is about the sequence whose id is its
key. -/
structure DecodeReservations where
  window : ℤ
  requests : Dict ℕ DecodeReservation
  window_pos : 0 < window
  sequence_eq : ∀ seq reservation, requests.get? seq = some reservation → reservation.sequence = seq

/-- The keyword arguments of `acquire_many`. -/
structure AcquireOptions where
  allowShort : Bool := false
  prefillReserve : Option (Dict String ℤ) := none
  budgets : Option (Dict String ℤ) := none

/-- `_submitted_output_count`. -/
def Sequence.submittedOutputCount {Id : Type} (seq : Sequence Id) : ℤ :=
  seq.numCompletionTokens + seq.numPendingOutputs

/-- `fits`, over the items of the costs. -/
def fitsItems (budgets outstanding prefillReserve : Dict String ℤ) :
    List (String × ℤ) → Except PyError Bool
  | [] => .ok true
  | (name, cost) :: rest =>
      match budgets.get? name with
      | none => .error (.keyError name)
      | some budget =>
          if cost + outstanding.amount name + prefillReserve.amount name ≤ budget then
            fitsItems budgets outstanding prefillReserve rest
          else .ok false

/-- The length of the window that `_acquire` grants, none if it refuses. -/
def windowTokens (fits : ℤ → Except PyError Bool) (allowShort : Bool) (tokens : ℤ) :
    Except PyError (Option ℤ) :=
  match fits tokens with
  | .error error => .error error
  | .ok true => .ok (some tokens)
  | .ok false =>
      if allowShort then
        match fits 1 with
        | .error error => .error error
        | .ok false => .ok none
        | .ok true =>
            match Bisection.largest fits 1 tokens with
            | .error error => .error error
            | .ok shorter => .ok (some shorter)
      else .ok none

namespace DecodeReservations

open Routine

variable {Id : Type}

/-- `DecodeReservations.__init__`. -/
def new (window : ℤ) : Except PyError DecodeReservations :=
  if hpos : 0 < window then
    .ok ⟨window, Dict.empty, hpos, fun _ _ hnone => nomatch hnone⟩
  else .error (.valueError "Decode reservation window must be a positive integer.")

/-- `release`. -/
def release (seq : ℕ) (self : DecodeReservations) : DecodeReservations where
  window := self.window
  requests := self.requests.erase seq
  window_pos := self.window_pos
  sequence_eq := by
    intro other reservation hother
    rw [Dict.get?_erase] at hother
    split at hother
    · exact nomatch hother
    · exact self.sequence_eq other reservation hother

/-- `self.requests[seq.seq_id] = DecodeReservation(seq, windowEnd)`. -/
def put (seq : ℕ) (windowEnd : ℤ) (self : DecodeReservations) : DecodeReservations where
  window := self.window
  requests := self.requests.set seq ⟨seq, windowEnd⟩
  window_pos := self.window_pos
  sequence_eq := by
    intro other reservation hother
    rw [Dict.get?_set] at hother
    split at hother
    · next heq =>
        obtain rfl := Option.some.inj hother
        exact heq.symm
    · exact self.sequence_eq other reservation hother

section

variable (sequences : ℕ → Sequence Id) (manager : WindowManager)

/-- `max(0, reservation.end - _submitted_output_count(seq))`. -/
def remaining (reservation : DecodeReservation) : ℤ :=
  max 0 (reservation.windowEnd - (sequences reservation.sequence).submittedOutputCount)

/-- `outstanding`. -/
def outstanding (exclude : Option ℕ) (self : DecodeReservations) : Dict String ℤ :=
  self.requests.entries.foldl (fun total entry =>
    if some entry.1 = exclude then total
    else if remaining sequences entry.2 = 0 then total
    else total.addCosts
      (manager.decodeWindowCosts entry.2.sequence (remaining sequences entry.2))) Dict.empty

/-- `needs_acquisition`. -/
def needsAcquisition (seq : ℕ) (self : DecodeReservations) : Bool :=
  let submitted := (sequences seq).submittedOutputCount
  match self.requests.get? seq with
  | some reservation =>
      if submitted < reservation.windowEnd then false
      else decide (submitted < (sequences seq).maxTokens) && !(sequences seq).isRecomputeReplay
  | none => decide (submitted < (sequences seq).maxTokens) && !(sequences seq).isRecomputeReplay

/-- `min(self.window, remaining)`. -/
def fullWindow (seq : ℕ) (self : DecodeReservations) : ℤ :=
  min self.window ((sequences seq).maxTokens - (sequences seq).submittedOutputCount)

/-- `budgets` in `acquire_many`. -/
def budgets (options : AcquireOptions) : Dict String ℤ :=
  options.budgets.getD manager.decodeWindowBudgets

/-- `fits(self.cache_manager.decode_window_costs(seq, tokens))`. -/
def fits (options : AcquireOptions) (outstanding : Dict String ℤ) (seq : ℕ) (tokens : ℤ) :
    Except PyError Bool :=
  fitsItems (budgets manager options) outstanding (options.prefillReserve.getD Dict.empty)
    (manager.decodeWindowCosts seq tokens).entries

/-- `_acquire`: the new `outstanding`, none if it returns False. -/
def acquireWindow (options : AcquireOptions) (seq : ℕ) (outstanding : Dict String ℤ) :
    Routine DecodeReservations (Option (Dict String ℤ)) := do
  let self ← read
  let granted ← ofExcept
    (windowTokens (fits manager options outstanding seq) options.allowShort
      (self.fullWindow sequences seq))
  match granted with
  | none => return none
  | some tokens => do
      write (put seq ((sequences seq).submittedOutputCount + tokens))
      return some (outstanding.addCosts (manager.decodeWindowCosts seq tokens))

/-- The loop of `acquire_many`.  `outstanding` is built at the first sequence
that needs a window. -/
def acquireLoop (options : AcquireOptions) :
    List ℕ → Option (Dict String ℤ) → Routine DecodeReservations (Option ℕ)
  | [], _ => pure none
  | seq :: rest, outstanding? => do
      let self ← read
      if self.needsAcquisition sequences seq = false then
        acquireLoop options rest outstanding?
      else
        let acquired ← acquireWindow sequences manager options seq
          (outstanding?.getD (self.outstanding sequences manager none))
        match acquired with
        | none => return some seq
        | some outstanding => acquireLoop options rest (some outstanding)

/-- `acquire_many`: the sequence that is refused, none if there is none. -/
def acquireMany (options : AcquireOptions) (seqs : List ℕ) : Routine DecodeReservations (Option ℕ) :=
  acquireLoop sequences manager options seqs none

/-! ## What is outstanding -/

/-- What the window of a request still costs. -/
def windowCost (name : String) (reservation : DecodeReservation) : ℤ :=
  if remaining sequences reservation = 0 then 0
  else (manager.decodeWindowCosts reservation.sequence (remaining sequences reservation)).amount name

/-- The windows outstanding, over all requests. -/
def held (self : DecodeReservations) (name : String) : ℤ :=
  (self.requests.values.map (windowCost sequences manager name)).sum

/-- A window with these costs fits beside what is held. -/
def WithinBudgets (options : AcquireOptions) (held : String → ℤ) (costs : Dict String ℤ) : Prop :=
  ∀ name cost, costs.get? name = some cost →
    ∃ budget, (budgets manager options).get? name = some budget ∧
      cost + held name + (options.prefillReserve.getD Dict.empty).amount name ≤ budget

/-- A window of that many tokens fits on top of what is outstanding. -/
def Fits (options : AcquireOptions) (self : DecodeReservations) (seq : ℕ) (tokens : ℤ) : Prop :=
  WithinBudgets manager options (self.held sequences manager) (manager.decodeWindowCosts seq tokens)

/-- The window that a sequence is due: its full window or, with `allow_short`,
the largest shorter one that fits. -/
def Due (options : AcquireOptions) (self : DecodeReservations) (seq : ℕ) (tokens : ℤ) : Prop :=
  let fits := self.Fits sequences manager options seq
  let full := self.fullWindow sequences seq
  fits tokens ∧ (tokens = full ∨
    ¬ fits full ∧ options.allowShort = true ∧ 0 < tokens ∧ tokens < full ∧
      ∀ more, tokens < more → more ≤ full → ¬ fits more)

/-- Neither the full window nor, with `allow_short`, a window of one token
fits. -/
def NoneFits (options : AcquireOptions) (self : DecodeReservations) (seq : ℕ) : Prop :=
  ¬ self.Fits sequences manager options seq (self.fullWindow sequences seq) ∧
    (options.allowShort = true → ¬ self.Fits sequences manager options seq 1)

/-- Every resource that a window of these sequences costs has a budget. -/
def Budgeted (options : AcquireOptions) (seqs : List ℕ) : Prop :=
  ∀ seq ∈ seqs, ∀ tokens, 1 ≤ tokens → ∀ name cost,
    (manager.decodeWindowCosts seq tokens).get? name = some cost →
      ∃ budget, (budgets manager options).get? name = some budget

variable {sequences manager} {options : AcquireOptions} {self next : DecodeReservations} {seq : ℕ}

theorem outstanding_amount (self : DecodeReservations) (name : String) :
    (self.outstanding sequences manager none).amount name = self.held sequences manager name := by
  have hstep : ∀ (total : Dict String ℤ) (entry : ℕ × DecodeReservation),
      (if some entry.1 = none then total
        else if remaining sequences entry.2 = 0 then total
        else total.addCosts (manager.decodeWindowCosts entry.2.sequence (remaining sequences entry.2))).amount name =
        total.amount name + windowCost sequences manager name entry.2 := by
    intro total entry
    rw [if_neg (nomatch ·), windowCost]
    split
    · exact (Int.add_zero _).symm
    · exact Dict.amount_addCosts _ _ name
  calc (self.outstanding sequences manager none).amount name
      = Dict.empty.amount name +
          (self.requests.entries.map fun entry => windowCost sequences manager name entry.2).sum :=
        Dict.amount_foldl hstep self.requests.entries Dict.empty
    _ = self.held sequences manager name := by
        rw [Dict.amount_empty, Int.zero_add, held, Dict.values, List.map_map]
        rfl

/-- A sequence that needs a window has tokens left to decode. -/
theorem fullWindow_pos (hneeds : self.needsAcquisition sequences seq = true) :
    0 < self.fullWindow sequences seq := by
  have hleft : (sequences seq).submittedOutputCount < (sequences seq).maxTokens := by
    unfold needsAcquisition at hneeds
    rcases hentry : self.requests.get? seq with - | reservation
    · simp only [hentry, Bool.and_eq_true, decide_eq_true_eq] at hneeds
      exact hneeds.1
    · simp only [hentry] at hneeds
      split at hneeds
      · exact nomatch hneeds
      · simp only [Bool.and_eq_true, decide_eq_true_eq] at hneeds
        exact hneeds.1
  have hwindow := self.window_pos
  unfold fullWindow
  omega

/-- The old window of a sequence that needs one is exhausted. -/
theorem windowCost_of_needs (hneeds : self.needsAcquisition sequences seq = true)
    {reservation : DecodeReservation} (hentry : self.requests.get? seq = some reservation)
    (name : String) : windowCost sequences manager name reservation = 0 := by
  have hended : reservation.windowEnd ≤ (sequences seq).submittedOutputCount := by
    simp only [needsAcquisition, hentry] at hneeds
    split at hneeds
    · exact nomatch hneeds
    · next hended => exact Int.not_lt.mp hended
  have hself := self.sequence_eq seq reservation hentry
  have hremaining : remaining sequences reservation = 0 := by
    rw [remaining, hself]
    omega
  rw [windowCost, if_pos hremaining]

variable {tokens : ℤ} {seqs : List ℕ} {result : Except PyError (Option ℕ)}

section

variable (hneeds : self.needsAcquisition sequences seq = true) (hpos : 0 < tokens)

include hneeds hpos

/-- A granted window adds its costs to what is outstanding. -/
theorem held_put (name : String) :
    (self.put seq ((sequences seq).submittedOutputCount + tokens)).held sequences manager name =
      self.held sequences manager name + (manager.decodeWindowCosts seq tokens).amount name := by
  have hremaining : remaining sequences ⟨seq, (sequences seq).submittedOutputCount + tokens⟩ =
      tokens := by
    simp only [remaining]
    omega
  have hcost : windowCost sequences manager name
      ⟨seq, (sequences seq).submittedOutputCount + tokens⟩ = (manager.decodeWindowCosts seq tokens).amount name := by
    rw [windowCost, hremaining, if_neg (by omega)]
  rw [← hcost]
  unfold held put
  rcases hentry : self.requests.get? seq with - | reservation
  · exact Dict.sum_values_set_of_not_mem _ _ (Dict.not_mem_keys_iff.mpr hentry)
  · have hsum := Dict.sum_values_set_of_get?
      (⟨seq, (sequences seq).submittedOutputCount + tokens⟩ : DecodeReservation)
      (windowCost sequences manager name) hentry
    rw [windowCost_of_needs hneeds hentry, Int.add_zero] at hsum
    exact hsum

/-- A granted window changes the entry of its sequence. -/
theorem get?_ne_of_needs :
    self.requests.get? seq ≠ some ⟨seq, (sequences seq).submittedOutputCount + tokens⟩ := by
  intro hentry
  simp only [needsAcquisition, hentry] at hneeds
  rw [if_pos (by omega)] at hneeds
  exact nomatch hneeds

end

/-! ## The test of a window -/

theorem fitsItems_eq_true_iff {budgets outstanding prefillReserve : Dict String ℤ} {items : List (String × ℤ)} :
    fitsItems budgets outstanding prefillReserve items = .ok true ↔
      ∀ entry ∈ items, ∃ budget, budgets.get? entry.1 = some budget ∧
        entry.2 + outstanding.amount entry.1 + prefillReserve.amount entry.1 ≤ budget := by
  induction items with
  | nil => exact iff_of_true rfl fun entry hentry => absurd hentry List.not_mem_nil
  | cons item rest ih =>
      obtain ⟨name, cost⟩ := item
      rw [List.forall_mem_cons]
      rcases hbudget : budgets.get? name with - | budget
      · simp only [fitsItems, hbudget, reduceCtorEq, false_and, exists_false]
      · simp only [fitsItems, hbudget, Option.some.injEq, exists_eq_left']
        split
        · next hfits =>
            rw [ih]
            exact (and_iff_right hfits).symm
        · next hlarge => simp only [Except.ok.injEq, reduceCtorEq, hlarge, false_and]

/-- The test raises for a resource without a budget only. -/
theorem fitsItems_ok {budgets outstanding prefillReserve : Dict String ℤ} {items : List (String × ℤ)}
    (hbudgets : ∀ entry ∈ items, ∃ budget, budgets.get? entry.1 = some budget) :
    ∃ passes, fitsItems budgets outstanding prefillReserve items = .ok passes := by
  induction items with
  | nil => exact ⟨true, rfl⟩
  | cons item rest ih =>
      obtain ⟨⟨budget, hbudget⟩, hrest⟩ := List.forall_mem_cons.mp hbudgets
      unfold fitsItems
      simp only [hbudget]
      split
      · exact ih hrest
      · exact ⟨false, rfl⟩

theorem fitsItems_congr {budgets first second prefillReserve : Dict String ℤ}
    (hsame : ∀ name, first.amount name = second.amount name) (items : List (String × ℤ)) :
    fitsItems budgets first prefillReserve items = fitsItems budgets second prefillReserve items := by
  induction items with
  | nil => rfl
  | cons item rest ih =>
      obtain ⟨name, cost⟩ := item
      unfold fitsItems
      rw [hsame name, ih]

theorem fits_eq_true_iff :
    fits manager options (self.outstanding sequences manager none) seq tokens = .ok true ↔
      self.Fits sequences manager options seq tokens := by
  rw [fits, fitsItems_eq_true_iff]
  constructor
  · intro hall name cost hcost
    obtain ⟨budget, hbudget, hle⟩ := hall (name, cost) (Dict.get?_eq_some_iff.mp hcost)
    exact ⟨budget, hbudget, by rwa [outstanding_amount] at hle⟩
  · intro hall entry hentry
    obtain ⟨budget, hbudget, hle⟩ := hall entry.1 entry.2 (Dict.get?_eq_some_iff.mpr hentry)
    exact ⟨budget, hbudget, by rwa [outstanding_amount]⟩

/-- A shorter window fits where a longer one does. -/
theorem Fits.shorter (hmono : manager.Monotone) {fewer more : ℤ} (hpos : 1 ≤ fewer)
    (hle : fewer ≤ more) (hfits : self.Fits sequences manager options seq more) :
    self.Fits sequences manager options seq fewer := by
  intro name cost hcost
  obtain ⟨larger, hlarger, hcostle⟩ := hmono seq fewer more hpos hle name cost hcost
  obtain ⟨budget, hbudget, hwithin⟩ := hfits name larger hlarger
  exact ⟨budget, hbudget, by omega⟩

/-- The granted length, by the test that `_acquire` makes. -/
theorem windowTokens_spec {test : ℤ → Except PyError Bool} {allowShort : Bool} {tokens : ℤ}
    {granted : Option ℤ} (hpos : 0 < tokens)
    (hbelow : ∀ fewer more, 1 ≤ fewer → fewer ≤ more → more ≤ tokens → test more = .ok true → test fewer = .ok true)
    (hrun : windowTokens test allowShort tokens = .ok granted) :
    match granted with
    | some found => test found = .ok true ∧ (found = tokens ∨
        test tokens ≠ .ok true ∧ allowShort = true ∧ 0 < found ∧ found < tokens ∧
          ∀ more, found < more → more ≤ tokens → test more ≠ .ok true)
    | none => test tokens ≠ .ok true ∧ (allowShort = true → test 1 ≠ .ok true) := by
  unfold windowTokens at hrun
  rcases hfull : test tokens with error | passes
  · rw [hfull] at hrun
    exact nomatch hrun
  · cases passes with
    | true =>
        rw [hfull] at hrun
        obtain rfl := Except.ok.inj hrun
        exact ⟨hfull, .inl rfl⟩
    | false =>
        have hlong : test tokens ≠ .ok true := by
          rw [hfull]
          exact nofun
        simp only [hfull] at hrun
        cases allowShort with
        | false =>
            obtain rfl := Except.ok.inj hrun
            exact ⟨nofun, fun hfalse => nomatch hfalse⟩
        | true =>
            rcases hone : test 1 with error | passes
            · simp only [hone, if_true, reduceCtorEq] at hrun
            · cases passes with
              | false =>
                  simp only [hone, if_true] at hrun
                  obtain rfl := Except.ok.inj hrun
                  exact ⟨nofun, fun _ => nofun⟩
              | true =>
                  simp only [hone, if_true] at hrun
                  rcases hsearch : Bisection.largest test 1 tokens with error | found
                  · simp only [hsearch, reduceCtorEq] at hrun
                  · simp only [hsearch] at hrun
                    obtain rfl := Except.ok.inj hrun
                    obtain ⟨hlow, hhigh, htest, hmore⟩ :=
                      Bisection.largest_spec hone hpos hbelow hsearch
                    refine ⟨htest, .inr ⟨nofun, rfl, hlow, ?_, hmore⟩⟩
                    have hne : found ≠ tokens := fun heq => hlong (heq ▸ htest)
                    omega

theorem windowTokens_ok {test : ℤ → Except PyError Bool} {allowShort : Bool} {tokens : ℤ}
    (hpos : 1 ≤ tokens) (htest : ∀ tested, 1 ≤ tested → ∃ passes, test tested = .ok passes) :
    ∃ granted, windowTokens test allowShort tokens = .ok granted := by
  obtain ⟨passes, hfull⟩ := htest tokens hpos
  obtain ⟨one, hone⟩ := htest 1 (Int.le_refl 1)
  obtain ⟨found, hfound⟩ := Bisection.largest_ok hpos fun tested hle _ => htest tested hle
  unfold windowTokens
  rw [hfull]
  cases passes with
  | true => exact ⟨_, rfl⟩
  | false =>
      cases allowShort with
      | false => exact ⟨_, rfl⟩
      | true =>
          simp only [hone, hfound, if_true]
          cases one <;> exact ⟨_, rfl⟩

/-! ## One sequence after another -/

/-- The decision about a sequence that needs a window. -/
def decision (sequences : ℕ → Sequence Id) (manager : WindowManager) (options : AcquireOptions)
    (self : DecodeReservations) (seq : ℕ) : Except PyError (Option ℤ) :=
  windowTokens (fits manager options (self.outstanding sequences manager none) seq) options.allowShort
    (self.fullWindow sequences seq)

/-- A running total with the amounts that are outstanding. -/
def RunningTotal (sequences : ℕ → Sequence Id) (manager : WindowManager) (self : DecodeReservations)
    (total : Dict String ℤ) : Prop :=
  ∀ name, total.amount name = self.held sequences manager name

theorem acquireWindow_apply {total : Dict String ℤ} (htotal : self.RunningTotal sequences manager total) :
    acquireWindow sequences manager options seq total self =
      match self.decision sequences manager options seq with
      | .error error => (.error error, self)
      | .ok none => (.ok none, self)
      | .ok (some tokens) =>
          (.ok (some (total.addCosts (manager.decodeWindowCosts seq tokens))),
            self.put seq ((sequences seq).submittedOutputCount + tokens)) := by
  have hfits : fits manager options total seq =
      fits manager options (self.outstanding sequences manager none) seq := by
    funext tokens
    exact fitsItems_congr (fun name => (htotal name).trans (outstanding_amount self name).symm) _
  unfold acquireWindow decision
  rw [bind_apply, read_apply]
  simp only [bind_apply, ofExcept_apply, hfits]
  rcases windowTokens (fits manager options (self.outstanding sequences manager none) seq)
    options.allowShort (self.fullWindow sequences seq) with error | granted
  · rfl
  · cases granted <;> rfl

theorem decision_spec (hmono : manager.Monotone)
    (hneeds : self.needsAcquisition sequences seq = true) {granted : Option ℤ}
    (hrun : self.decision sequences manager options seq = .ok granted) :
    match granted with
    | some tokens => 0 < tokens ∧ self.Due sequences manager options seq tokens
    | none => self.NoneFits sequences manager options seq := by
  have hpos := fullWindow_pos hneeds
  have hspec := windowTokens_spec hpos
    (fun fewer more hone hle _ hmore =>
      fits_eq_true_iff.mpr ((fits_eq_true_iff.mp hmore).shorter hmono hone hle)) hrun
  cases granted with
  | none =>
      simp only [ne_eq, fits_eq_true_iff] at hspec
      exact hspec
  | some tokens =>
      simp only [ne_eq, fits_eq_true_iff] at hspec
      refine ⟨?_, hspec⟩
      rcases hspec.2 with hfull | ⟨-, -, hshort, -⟩
      · rw [hfull]
        exact hpos
      · exact hshort

/-- A grant keeps the running total right. -/
theorem RunningTotal.granted (hneeds : self.needsAcquisition sequences seq = true)
    (hpos : 0 < tokens) {total : Dict String ℤ} (htotal : self.RunningTotal sequences manager total) :
    (self.put seq ((sequences seq).submittedOutputCount + tokens)).RunningTotal sequences manager
      (total.addCosts (manager.decodeWindowCosts seq tokens)) := by
  intro name
  rw [Dict.amount_addCosts, htotal name, held_put hneeds hpos]

/-- The loop does what it would do with a total that is built anew. -/
theorem acquireLoop_eq (hmono : manager.Monotone) (seqs : List ℕ) (self : DecodeReservations)
    {total? : Option (Dict String ℤ)}
    (htotal : ∀ total, total? = some total → self.RunningTotal sequences manager total) :
    acquireLoop sequences manager options seqs total? self = acquireMany sequences manager options seqs self := by
  induction seqs generalizing self total? with
  | nil => rfl
  | cons seq rest ih =>
      unfold acquireMany acquireLoop
      rw [bind_apply, bind_apply, read_apply]
      simp only [branch_apply]
      rcases hneeds : self.needsAcquisition sequences seq with - | -
      · exact ih self htotal
      · have hfresh : self.RunningTotal sequences manager (self.outstanding sequences manager none) :=
          outstanding_amount self
        have hgiven : self.RunningTotal sequences manager
            (total?.getD (self.outstanding sequences manager none)) := by
          cases total? with
          | none => exact hfresh
          | some total => exact htotal total rfl
        simp only [reduceCtorEq, if_false, bind_apply, Option.getD_none,
          acquireWindow_apply hgiven, acquireWindow_apply hfresh]
        rcases hdecision : self.decision sequences manager options seq with error | granted
        · rfl
        · cases granted with
          | none => rfl
          | some tokens =>
              -- both totals are right after the grant, so both rests start from scratch
              obtain ⟨hpos, -⟩ := decision_spec hmono hneeds hdecision
              have hleft := ih (self.put seq ((sequences seq).submittedOutputCount + tokens))
                fun total heq =>
                  Option.some.inj heq ▸ hgiven.granted hneeds hpos
              have hright := ih (self.put seq ((sequences seq).submittedOutputCount + tokens))
                fun total heq =>
                  Option.some.inj heq ▸ hfresh.granted hneeds hpos
              exact hleft.trans hright.symm

/-- What `acquire_many` does with the first sequence. -/
theorem acquireMany_cons (hmono : manager.Monotone) (rest : List ℕ) :
    acquireMany sequences manager options (seq :: rest) self =
      if self.needsAcquisition sequences seq = false then
        acquireMany sequences manager options rest self
      else
        match self.decision sequences manager options seq with
        | .error error => (.error error, self)
        | .ok none => (.ok (some seq), self)
        | .ok (some tokens) =>
            acquireMany sequences manager options rest
              (self.put seq ((sequences seq).submittedOutputCount + tokens)) := by
  unfold acquireMany
  rw [acquireLoop, bind_apply, read_apply]
  simp only [branch_apply]
  rcases hneeds : self.needsAcquisition sequences seq with - | -
  · rfl
  · have hfresh : self.RunningTotal sequences manager (self.outstanding sequences manager none) :=
      outstanding_amount self
    simp only [reduceCtorEq, if_false, bind_apply, Option.getD_none, acquireWindow_apply hfresh]
    rcases hdecision : self.decision sequences manager options seq with error | granted
    · rfl
    · cases granted with
      | none => rfl
      | some tokens =>
          obtain ⟨hpos, -⟩ := decision_spec hmono hneeds hdecision
          exact acquireLoop_eq hmono rest _ fun total heq =>
            Option.some.inj heq ▸ hfresh.granted hneeds hpos

theorem Due.not_noneFits (hmono : manager.Monotone) (hdue : self.Due sequences manager options seq tokens) :
    ¬ self.NoneFits sequences manager options seq := by
  intro hnone
  obtain ⟨hfits, hfull | ⟨-, hshort, hpos, -, -⟩⟩ := hdue
  · exact hnone.1 (hfull ▸ hfits)
  · exact hnone.2 hshort (hfits.shorter hmono (Int.le_refl 1) hpos)

/-! ## A whole call -/

theorem acquireMany_append (hmono : manager.Monotone) {before : List ℕ} (rest : List ℕ) {mid : DecodeReservations}
    (hbefore : acquireMany sequences manager options before self = (.ok none, mid)) :
    acquireMany sequences manager options (before ++ rest) self = acquireMany sequences manager options rest mid := by
  induction before generalizing self with
  | nil =>
      obtain rfl := congrArg Prod.snd hbefore
      rfl
  | cons seq before ih =>
      rw [List.cons_append, acquireMany_cons hmono]
      rw [acquireMany_cons hmono] at hbefore
      split at hbefore
      · next hskip =>
          rw [if_pos hskip]
          exact ih hbefore
      · next hneeds =>
          rw [if_neg hneeds]
          rcases hdecision : self.decision sequences manager options seq with error | granted
          · rw [hdecision] at hbefore
            exact nomatch hbefore
          · cases granted with
            | none =>
                rw [hdecision] at hbefore
                exact nomatch hbefore
            | some tokens =>
                rw [hdecision] at hbefore
                exact ih hbefore

/-- What a call does when the turn of a sequence that needs a window has
come. -/
theorem acquireMany_turn (hmono : manager.Monotone) {before : List ℕ} {mid : DecodeReservations}
    (hbefore : acquireMany sequences manager options before self = (.ok none, mid))
    (hneeds : mid.needsAcquisition sequences seq = true) (rest : List ℕ) :
    acquireMany sequences manager options (before ++ seq :: rest) self =
      match mid.decision sequences manager options seq with
      | .error error => (.error error, mid)
      | .ok none => (.ok (some seq), mid)
      | .ok (some tokens) =>
          acquireMany sequences manager options rest
            (mid.put seq ((sequences seq).submittedOutputCount + tokens)) := by
  have hneeded : ¬ mid.needsAcquisition sequences seq = false := by
    rw [hneeds]
    exact nofun
  rw [acquireMany_append hmono _ hbefore, acquireMany_cons hmono, if_neg hneeded]

/-- What a call keeps that a grant keeps. -/
theorem acquireMany_keeps (keeps : DecodeReservations → Prop) (hmono : manager.Monotone)
    (hgrant : ∀ current, keeps current → ∀ seq ∈ seqs, ∀ tokens,
      current.needsAcquisition sequences seq = true → 0 < tokens →
      current.Due sequences manager options seq tokens →
      keeps (current.put seq ((sequences seq).submittedOutputCount + tokens))) (hself : keeps self)
    (hrun : acquireMany sequences manager options seqs self = (result, next)) : keeps next := by
  induction seqs generalizing self with
  | nil =>
      obtain rfl := congrArg Prod.snd hrun
      exact hself
  | cons seq rest ih =>
      have hrest : ∀ current, keeps current → ∀ seq ∈ rest, ∀ tokens,
          current.needsAcquisition sequences seq = true → 0 < tokens →
          current.Due sequences manager options seq tokens →
          keeps (current.put seq ((sequences seq).submittedOutputCount + tokens)) :=
        fun current hcurrent seq hseq => hgrant current hcurrent seq (List.mem_cons_of_mem _ hseq)
      rw [acquireMany_cons hmono] at hrun
      split at hrun
      · exact ih hrest hself hrun
      · next hneeds =>
          have hneeds := eq_true_of_ne_false hneeds
          rcases hdecision : self.decision sequences manager options seq with error | granted
          · rw [hdecision] at hrun
            obtain rfl := congrArg Prod.snd hrun
            exact hself
          · cases granted with
            | none =>
                rw [hdecision] at hrun
                obtain rfl := congrArg Prod.snd hrun
                exact hself
            | some tokens =>
                rw [hdecision] at hrun
                obtain ⟨hpos, hdue⟩ := decision_spec hmono hneeds hdecision
                exact ih hrest (hgrant self hself seq List.mem_cons_self tokens hneeds hpos hdue) hrun

section

variable (hmono : manager.Monotone)

include hmono

/-- A sequence that is not asked about keeps its entry. -/
theorem acquireMany_get? {other : ℕ} (hother : other ∉ seqs)
    (hrun : acquireMany sequences manager options seqs self = (result, next)) :
    next.requests.get? other = self.requests.get? other := by
  apply acquireMany_keeps (fun current => current.requests.get? other = self.requests.get? other) hmono ?_ rfl hrun
  intro current hcurrent seq hseq tokens _ _ _
  have hne : other ≠ seq := fun heq => hother (heq ▸ hseq)
  exact (Dict.get?_set_of_ne _ _ hne).trans hcurrent

/-- What is within its budget stays within it. -/
theorem acquireMany_within {name : String} {budget : ℤ} (hbudget : (budgets manager options).get? name = some budget)
    (hself : self.held sequences manager name + (options.prefillReserve.getD Dict.empty).amount name ≤ budget)
    (hrun : acquireMany sequences manager options seqs self = (result, next)) :
    next.held sequences manager name + (options.prefillReserve.getD Dict.empty).amount name ≤ budget := by
  apply acquireMany_keeps (fun current => current.held sequences manager name +
    (options.prefillReserve.getD Dict.empty).amount name ≤ budget) hmono ?_ hself hrun
  intro current hcurrent seq _ tokens hneeds hpos hdue
  rw [held_put hneeds hpos]
  rcases hcost : (manager.decodeWindowCosts seq tokens).get? name with - | cost
  · rw [Dict.amount, hcost, Option.getD_none, Int.add_zero]
    exact hcurrent
  · obtain ⟨checked, hchecked, hfits⟩ := hdue.1 name cost hcost
    obtain rfl := Option.some.inj (hbudget.symm.trans hchecked)
    rw [Dict.amount_of_get? hcost]
    omega

/-- A call returns when every resource has a budget. -/
theorem acquireMany_returns (hbudgeted : Budgeted manager options seqs) :
    ∃ refused, (acquireMany sequences manager options seqs self).1 = .ok refused := by
  induction seqs generalizing self with
  | nil => exact ⟨none, rfl⟩
  | cons first rest ih =>
      obtain ⟨hfirst, hrest⟩ := List.forall_mem_cons.mp hbudgeted
      rw [acquireMany_cons hmono]
      split
      · exact ih hrest
      · next hneeds =>
          have htest : ∀ tested, 1 ≤ tested → ∃ passes,
              fits manager options (self.outstanding sequences manager none) first tested =
                .ok passes := fun tested hone =>
            fitsItems_ok fun entry hentry =>
              hfirst tested hone entry.1 entry.2 (Dict.get?_eq_some_iff.mpr hentry)
          obtain ⟨granted, hgranted⟩ : ∃ granted, self.decision sequences manager options first = .ok granted :=
            windowTokens_ok (fullWindow_pos (eq_true_of_ne_false hneeds)) htest
          rw [hgranted]
          cases granted with
          | none => exact ⟨some first, rfl⟩
          | some tokens => exact ih hrest

/-- Where a call refuses. -/
theorem exists_refusal (hrun : acquireMany sequences manager options seqs self = (.ok (some seq), next)) :
    ∃ before rest, seqs = before ++ seq :: rest ∧
      acquireMany sequences manager options before self = (.ok none, next) ∧
      next.needsAcquisition sequences seq = true ∧ next.NoneFits sequences manager options seq := by
  induction seqs generalizing self with
  | nil => exact nomatch hrun
  | cons first rest ih =>
      rw [acquireMany_cons hmono] at hrun
      split at hrun
      · next hskip =>
          obtain ⟨before, behind, rfl, hbefore, hlast⟩ := ih hrun
          refine ⟨first :: before, behind, rfl, ?_, hlast⟩
          rw [acquireMany_cons hmono, if_pos hskip]
          exact hbefore
      · next hneeds =>
          rcases hdecision : self.decision sequences manager options first with error | granted
          · rw [hdecision] at hrun
            exact nomatch hrun
          · cases granted with
            | none =>
                rw [hdecision] at hrun
                obtain ⟨hseq, rfl⟩ := Prod.mk.inj hrun
                obtain rfl := Option.some.inj (Except.ok.inj hseq)
                have hneeds := eq_true_of_ne_false hneeds
                exact ⟨[], rest, rfl, rfl, hneeds, decision_spec hmono hneeds hdecision⟩
            | some tokens =>
                rw [hdecision] at hrun
                obtain ⟨before, behind, rfl, hbefore, hlast⟩ := ih hrun
                refine ⟨first :: before, behind, rfl, ?_, hlast⟩
                rw [acquireMany_cons hmono, if_neg hneeds, hdecision]
                exact hbefore

/-- What is left of a call after a grant: the entry, and its resources within
their budgets. -/
theorem acquireMany_after_grant {rest : List ℕ} (hrest : seq ∉ rest)
    (hneeds : self.needsAcquisition sequences seq = true) (hpos : 0 < tokens)
    (hdue : self.Due sequences manager options seq tokens)
    (hrun : acquireMany sequences manager options rest
      (self.put seq ((sequences seq).submittedOutputCount + tokens)) = (result, next)) :
    next.requests.get? seq = some ⟨seq, (sequences seq).submittedOutputCount + tokens⟩ ∧
      ∀ name cost, (manager.decodeWindowCosts seq tokens).get? name = some cost →
        ∃ budget, (budgets manager options).get? name = some budget ∧
          next.held sequences manager name + (options.prefillReserve.getD Dict.empty).amount name ≤ budget := by
  constructor
  · rw [acquireMany_get? hmono hrest hrun]
    exact Dict.get?_set_self _ _ _
  · intro name cost hcost
    obtain ⟨budget, hbudget, hfits⟩ := hdue.1 name cost hcost
    refine ⟨budget, hbudget, acquireMany_within hmono hbudget ?_ hrun⟩
    rw [held_put hneeds hpos, Dict.amount_of_get? hcost]
    omega

/-- Where a call grants a window. -/
theorem exists_grant (hnodup : seqs.Nodup) (hrun : acquireMany sequences manager options seqs self = (result, next))
    (hchanged : next.requests.get? seq ≠ self.requests.get? seq) :
    ∃ before rest mid tokens, seqs = before ++ seq :: rest ∧
      acquireMany sequences manager options before self = (.ok none, mid) ∧
      mid.needsAcquisition sequences seq = true ∧ 0 < tokens ∧
      mid.Due sequences manager options seq tokens ∧
      acquireMany sequences manager options rest
        (mid.put seq ((sequences seq).submittedOutputCount + tokens)) = (result, next) := by
  induction seqs generalizing self with
  | nil =>
      obtain rfl := congrArg Prod.snd hrun
      exact absurd rfl hchanged
  | cons first rest ih =>
      obtain ⟨hfirst, hnodup⟩ := List.nodup_cons.mp hnodup
      rw [acquireMany_cons hmono] at hrun
      split at hrun
      · next hskip =>
          obtain ⟨before, behind, mid, tokens, rfl, hbefore, hmid⟩ := ih hnodup hrun hchanged
          refine ⟨first :: before, behind, mid, tokens, rfl, ?_, hmid⟩
          rw [acquireMany_cons hmono, if_pos hskip]
          exact hbefore
      · next hneeds =>
          rcases hdecision : self.decision sequences manager options first with error | granted
          · rw [hdecision] at hrun
            obtain rfl := congrArg Prod.snd hrun
            exact absurd rfl hchanged
          · cases granted with
            | none =>
                rw [hdecision] at hrun
                obtain rfl := congrArg Prod.snd hrun
                exact absurd rfl hchanged
            | some tokens =>
                rw [hdecision] at hrun
                -- the grant is to this sequence, or to an earlier one
                by_cases hseq : seq = first
                · subst hseq
                  have hneeds := eq_true_of_ne_false hneeds
                  obtain ⟨hpos, hdue⟩ := decision_spec hmono hneeds hdecision
                  exact ⟨[], rest, self, tokens, rfl, rfl, hneeds, hpos, hdue, hrun⟩
                · have hentry : (self.put first
                      ((sequences first).submittedOutputCount + tokens)).requests.get? seq =
                        self.requests.get? seq := Dict.get?_set_of_ne _ _ hseq
                  rw [← hentry] at hchanged
                  obtain ⟨before, behind, mid, more, rfl, hbefore, hmid⟩ := ih hnodup hrun hchanged
                  refine ⟨first :: before, behind, mid, more, rfl, ?_, hmid⟩
                  rw [acquireMany_cons hmono, if_neg hneeds, hdecision]
                  exact hbefore

end

/-- What a call of `acquire_many` comes to. -/
structure Acquired (sequences : ℕ → Sequence Id) (manager : WindowManager) (options : AcquireOptions)
    (seqs : List ℕ) (self : DecodeReservations) (result : Except PyError (Option ℕ))
    (next : DecodeReservations) : Prop where
  /-- No call raises but for a resource without a budget. -/
  returns : Budgeted manager options seqs → ∃ refused, result = .ok refused
  /-- A new window is what was due when its turn came, and at the end of the call the resources that it
  costs are within their budgets. -/
  granted : ∀ seq, next.requests.get? seq ≠ self.requests.get? seq →
    ∃ before rest mid tokens, seqs = before ++ seq :: rest ∧
      acquireMany sequences manager options before self = (.ok none, mid) ∧
      mid.needsAcquisition sequences seq = true ∧ 0 < tokens ∧
      mid.Due sequences manager options seq tokens ∧
      next.requests.get? seq = some ⟨seq, (sequences seq).submittedOutputCount + tokens⟩ ∧
      ∀ name cost, (manager.decodeWindowCosts seq tokens).get? name = some cost →
        ∃ budget, (budgets manager options).get? name = some budget ∧
          next.held sequences manager name +
            (options.prefillReserve.getD Dict.empty).amount name ≤ budget
  /-- A sequence whose turn comes and for which a window fits gets one. -/
  served : ∀ before seq rest mid, seqs = before ++ seq :: rest →
    acquireMany sequences manager options before self = (.ok none, mid) →
    mid.needsAcquisition sequences seq = true → ¬ mid.NoneFits sequences manager options seq →
    (∃ refused, result = .ok refused) → next.requests.get? seq ≠ self.requests.get? seq
  refused_iff : ∀ refused, result = .ok refused → ∀ seq, refused = some seq ↔
    ∃ before rest mid, seqs = before ++ seq :: rest ∧
      acquireMany sequences manager options before self = (.ok none, mid) ∧
      mid.needsAcquisition sequences seq = true ∧ mid.NoneFits sequences manager options seq
  /-- A refusal leaves what the call has done before it. -/
  kept : ∀ seq, result = .ok (some seq) → ∃ before rest, seqs = before ++ seq :: rest ∧
    acquireMany sequences manager options before self = (.ok none, next) ∧
    ∀ other ∈ seq :: rest, next.requests.get? other = self.requests.get? other

/-- **Decode window reservations never over-commit.** -/
theorem acquire_many_never_overcommits (hmono : manager.Monotone) {seqs : List ℕ}
    (hnodup : seqs.Nodup) (self : DecodeReservations) :
    Acquired sequences manager options seqs self
      (acquireMany sequences manager options seqs self).1
      (acquireMany sequences manager options seqs self).2 := by
  rcases hrun : acquireMany sequences manager options seqs self with ⟨result, next⟩
  refine ⟨fun hbudgeted => ?_, fun seq hchanged => ?_, ?_, ?_, ?_⟩
  · have hreturns : ∃ refused, (acquireMany sequences manager options seqs self).1 = .ok refused :=
      acquireMany_returns hmono hbudgeted
    rwa [hrun] at hreturns
  · obtain ⟨before, rest, mid, tokens, rfl, hbefore, hneeds, hpos, hdue, hrest⟩ :=
      exists_grant hmono hnodup hrun hchanged
    have hlater : seq ∉ rest :=
      (List.nodup_cons.mp (List.nodup_append.mp hnodup).2.1).1
    exact ⟨before, rest, mid, tokens, rfl, hbefore, hneeds, hpos, hdue,
      acquireMany_after_grant hmono hlater hneeds hpos hdue hrest⟩
  · intro before seq rest mid hseqs hbefore hneeds hfits ⟨refused, hreturned⟩
    subst hseqs
    obtain ⟨-, hbehind, hapart⟩ := List.nodup_append.mp hnodup
    have hlater := (List.nodup_cons.mp hbehind).1
    have hearlier : seq ∉ before := fun hmem => hapart seq hmem seq List.mem_cons_self rfl
    -- its turn begins with the reservation it had before the call:
    have hmid : mid.requests.get? seq = self.requests.get? seq :=
      acquireMany_get? hmono hearlier hbefore
    rw [acquireMany_turn hmono hbefore hneeds] at hrun
    rcases hdecision : mid.decision sequences manager options seq with error | granted
    · rw [hdecision] at hrun
      exact nomatch (congrArg Prod.fst hrun).trans hreturned
    · cases granted with
      | none => exact absurd (decision_spec hmono hneeds hdecision) hfits
      | some tokens =>
          rw [hdecision] at hrun
          obtain ⟨hpos, -⟩ := decision_spec hmono hneeds hdecision
          have hentry : next.requests.get? seq =
              some ⟨seq, (sequences seq).submittedOutputCount + tokens⟩ :=
            (acquireMany_get? hmono hlater hrun).trans (Dict.get?_set_self _ _ _)
          intro hsame
          exact get?_ne_of_needs hneeds hpos (hmid.trans (hsame.symm.trans hentry))
  · intro refused hreturned seq
    subst hreturned
    constructor
    · intro heq
      subst heq
      obtain ⟨before, rest, hseqs, hbefore, hlast⟩ := exists_refusal hmono hrun
      exact ⟨before, rest, next, hseqs, hbefore, hlast⟩
    · rintro ⟨before, rest, mid, rfl, hbefore, hneeds, hnone⟩
      rw [acquireMany_turn hmono hbefore hneeds] at hrun
      rcases hdecision : mid.decision sequences manager options seq with error | granted
      · rw [hdecision] at hrun
        exact nomatch hrun
      · cases granted with
        | none =>
            rw [hdecision] at hrun
            exact (Except.ok.inj (congrArg Prod.fst hrun)).symm
        | some tokens =>
            obtain ⟨-, hdue⟩ := decision_spec hmono hneeds hdecision
            exact absurd hnone (hdue.not_noneFits hmono)
  · intro seq hrefused
    subst hrefused
    obtain ⟨before, rest, rfl, hbefore, -⟩ := exists_refusal hmono hrun
    refine ⟨before, rest, rfl, hbefore, fun other hother => ?_⟩
    have hapart := (List.nodup_append.mp hnodup).2.2
    exact acquireMany_get? hmono (fun hmem => hapart other hmem other hother rfl) hbefore

end

/-- One slot for every token. -/
def slotPerToken : WindowManager where
  decodeWindowCosts _ tokens := Dict.empty.set "slots" tokens
  decodeWindowBudgets := Dict.empty.set "slots" 10

theorem slotPerToken_monotone : slotPerToken.Monotone := by
  intro seq fewer more _ hle name cost hcost
  unfold slotPerToken at hcost ⊢
  rw [Dict.get?_set] at hcost ⊢
  split at hcost
  · next hname =>
      obtain rfl := Option.some.inj hcost
      exact ⟨more, if_pos hname, hle⟩
  · exact nomatch hcost

/-- Of three requests with windows of eight tokens, the second gets the two of
the ten slots that are left, and the third none. -/
theorem third_of_three_refused :
    let sequences : ℕ → Sequence Unit := fun _ => Sequence.new [1, 2] 8 true []
    let fresh : DecodeReservations :=
      ⟨8, Dict.empty, by decide, fun _ _ hnone => nomatch hnone⟩
    let options : AcquireOptions := { allowShort := true }
    let run := acquireMany sequences slotPerToken options [0, 1, 2] fresh
    run.1 = .ok (some 2) ∧ run.2.requests.get? 0 = some ⟨0, 8⟩ ∧
      run.2.requests.get? 1 = some ⟨1, 2⟩ ∧
      Acquired sequences slotPerToken options [0, 1, 2] fresh run.1 run.2 :=
  ⟨by decide +kernel, by decide +kernel, by decide +kernel,
    acquire_many_never_overcommits slotPerToken_monotone (by decide) _⟩

end DecodeReservations
