import Mathlib.Tactic.Common

/-!
# Programs with a mutable state and exceptions

A method of a mutable object is a function from the state before the call to a
result and the state after it.  The result is a value or a raised exception,
and the state after a raise is whatever the method had already written:
nothing is rolled back unless the program rolls it back itself.  `Routine` is
that type with its monad structure, so that `do` blocks read like the methods
they model.

`Routine.wp` is the weakest precondition.  Its `simp` lemmas execute a `do`
block symbolically, and `wp_mono` lets a proof use the specification of a
callee instead of its body.
-/

/-- A raised exception.  `defined` is one of a class the program defines itself,
with what it says it is about; `external` is one raised by code the model does
not contain: a callback, a hook of another object, a device runtime call. -/
inductive PyError where
  | runtimeError (message : String)
  | valueError (message : String)
  | keyError (message : String)
  | typeError (message : String)
  | overflowError (message : String)
  | defined (className message : String) (subject : Option String)
  | external (tag : Nat)
  deriving DecidableEq, Repr

/-- A call on a mutable object of state type `σ`. -/
def Routine (σ α : Type) : Type := σ → Except PyError α × σ

namespace Routine

variable {σ α β : Type}

instance : Monad (Routine σ) where
  pure a := fun state => (.ok a, state)
  bind m f := fun state =>
    match m state with
    | (.ok a, next) => f a next
    | (.error e, next) => (.error e, next)

/-- Read the state. -/
def read : Routine σ σ := fun state => (.ok state, state)

/-- Write the state. -/
def write (update : σ → σ) : Routine σ Unit := fun state => (.ok (), update state)

/-- `raise error`. -/
def raise (error : PyError) : Routine σ α := fun state => (.error error, state)

/-- `if condition: raise error`. -/
def raiseIf (condition : Prop) [Decidable condition] (error : PyError) : Routine σ Unit :=
  if condition then raise error else pure ()

/-- `if condition: body`. -/
def whenDo (condition : Prop) [Decidable condition] (body : Routine σ Unit) : Routine σ Unit :=
  if condition then body else pure ()

/-- A computation that may raise but does not write. -/
def ofExcept (result : Except PyError α) : Routine σ α := fun state => (result, state)

/-- `try: body` / `except Exception: handler; raise`. -/
def onError (body : Routine σ α) (handler : Routine σ Unit) : Routine σ α := fun state =>
  match body state with
  | (.ok a, next) => (.ok a, next)
  | (.error e, next) =>
      match handler next with
      | (.ok _, last) => (.error e, last)
      | (.error e', last) => (.error e', last)

/-- `try: body` / `except Class as exc: handler`, with the test whether `exc` is
of the class. -/
def catchWhen (test : PyError → Bool) (body : Routine σ α) (handler : PyError → Routine σ α) :
    Routine σ α := fun state =>
  match body state with
  | (.ok a, next) => (.ok a, next)
  | (.error e, next) => if test e then handler e next else (.error e, next)

/-- `try: body` / `except Exception: pass`. -/
def ignoring (body : Routine σ Unit) : Routine σ Unit := fun state => (.ok (), (body state).2)

/-- `try: body` / `finally: cleanup`. -/
def finallyDo (body : Routine σ α) (cleanup : Routine σ Unit) : Routine σ α := fun state =>
  match body state with
  | (result, next) =>
      match cleanup next with
      | (.ok _, last) => (result, last)
      | (.error e, last) => (.error e, last)

/-! ## Running a program -/

theorem pure_apply (a : α) (state : σ) : (pure a : Routine σ α) state = (.ok a, state) := rfl

theorem bind_apply (m : Routine σ α) (f : α → Routine σ β) (state : σ) :
    (m >>= f) state =
      match m state with
      | (.ok a, next) => f a next
      | (.error e, next) => (.error e, next) := rfl

theorem read_apply (state : σ) : (read : Routine σ σ) state = (.ok state, state) := rfl

theorem write_apply (update : σ → σ) (state : σ) :
    write update state = (.ok (), update state) := rfl

theorem get_apply (f : σ → Routine σ α) (state : σ) : (read >>= f) state = f state state := rfl

theorem set_apply (update : σ → σ) (f : Unit → Routine σ α) (state : σ) :
    (write update >>= f) state = f () (update state) := rfl

theorem raise_apply (error : PyError) (state : σ) :
    (raise error : Routine σ α) state = (.error error, state) := rfl

theorem ofExcept_apply (result : Except PyError α) (state : σ) :
    ofExcept result state = (result, state) := rfl

theorem branch_apply (condition : Prop) [Decidable condition] (first second : Routine σ α) (state : σ) :
    (if condition then first else second) state =
      if condition then first state else second state := by
  split <;> rfl

theorem raiseIf_apply (condition : Prop) [Decidable condition] (error : PyError) (state : σ) :
    raiseIf condition error state =
      if condition then (.error error, state) else (.ok (), state) := by
  unfold raiseIf
  split <;> rfl

/-! ## Weakest preconditions -/

/-- The weakest precondition of a postcondition on the result and the state. -/
def wp (m : Routine σ α) (post : Except PyError α → σ → Prop) (state : σ) : Prop :=
  post (m state).1 (m state).2

variable {m : Routine σ α}

theorem wp_def {post : Except PyError α → σ → Prop} {state : σ} :
    wp m post state ↔ post (m state).1 (m state).2 := Iff.rfl

theorem wp_mono {weak strong : Except PyError α → σ → Prop} {state : σ} (hwp : wp m strong state)
    (himp : ∀ result next, strong result next → weak result next) : wp m weak state :=
  himp _ _ hwp

@[simp] theorem wp_pure (a : α) (post : Except PyError α → σ → Prop) (state : σ) :
    wp (pure a) post state ↔ post (.ok a) state := Iff.rfl

@[simp] theorem wp_bind (m : Routine σ α) (f : α → Routine σ β) (post : Except PyError β → σ → Prop) (state : σ) :
    wp (m >>= f) post state ↔
      wp m (fun result next =>
        match result with
        | .ok a => wp (f a) post next
        | .error e => post (.error e) next) state := by
  simp only [wp, bind]
  rcases m state with ⟨_ | _, _⟩ <;> exact Iff.rfl

@[simp] theorem wp_read (post : Except PyError σ → σ → Prop) (state : σ) :
    wp read post state ↔ post (.ok state) state := Iff.rfl

@[simp] theorem wp_write (update : σ → σ) (post : Except PyError Unit → σ → Prop) (state : σ) :
    wp (write update) post state ↔ post (.ok ()) (update state) := Iff.rfl

@[simp] theorem wp_raise (error : PyError) (post : Except PyError α → σ → Prop) (state : σ) :
    wp (raise error : Routine σ α) post state ↔ post (.error error) state := Iff.rfl

@[simp] theorem wp_raiseIf (condition : Prop) [Decidable condition] (error : PyError)
    (post : Except PyError Unit → σ → Prop) (state : σ) :
    wp (raiseIf condition error) post state ↔
      (condition → post (.error error) state) ∧ (¬ condition → post (.ok ()) state) := by
  unfold raiseIf
  split <;> simp [*]

@[simp] theorem wp_ofExcept (result : Except PyError α) (post : Except PyError α → σ → Prop)
    (state : σ) : wp (ofExcept result) post state ↔ post result state := Iff.rfl

@[simp] theorem wp_ite (condition : Prop) [Decidable condition] (first second : Routine σ α)
    (post : Except PyError α → σ → Prop) (state : σ) :
    wp (if condition then first else second) post state ↔
      (condition → wp first post state) ∧ (¬ condition → wp second post state) := by
  split <;> simp [*]

theorem wp_onError (body : Routine σ α) (handler : Routine σ Unit) (post : Except PyError α → σ → Prop) (state : σ) :
    wp (onError body handler) post state ↔
      wp body (fun result next =>
        match result with
        | .ok a => post (.ok a) next
        | .error e =>
            wp handler (fun handled last =>
              match handled with
              | .ok _ => post (.error e) last
              | .error e' => post (.error e') last) next) state := by
  simp only [wp, onError]
  rcases body state with ⟨_ | _, next⟩
  · rcases hrun : handler next with ⟨_ | _, _⟩ <;> simp [hrun]
  · exact Iff.rfl

/-! ## Two postconditions

`wpe` has one postcondition for returns and one for raises.  The one for raises
stays the same along a `bind`, so a proof states once what a raise may leave. -/

/-- The weakest precondition with `bad` for every raise. -/
def wpe (m : Routine σ α) (post : α → σ → Prop) (bad : σ → Prop) (state : σ) : Prop :=
  wp m (fun result next =>
    match result with
    | .ok a => post a next
    | .error _ => bad next) state

section

variable {post : α → σ → Prop} {bad : σ → Prop} {state : σ}

theorem wpe_def {m : Routine σ α} : wpe m post bad state ↔
    match (m state).1 with
    | .ok a => post a (m state).2
    | .error _ => bad (m state).2 := Iff.rfl

variable {m body : Routine σ α} {strong : α → σ → Prop} {condition : Prop}
  {handler : PyError → Routine σ α}

/-- A call that is known to return. -/
theorem wpe_of_ok {a : α} {next : σ} (hrun : m state = (.ok a, next)) :
    wpe m post bad state ↔ post a next := by
  rw [wpe_def, hrun]

theorem wpe_imp {worse : σ → Prop} (hwpe : wpe m strong worse state)
    (hpost : ∀ a next, strong a next → post a next) (hbad : ∀ next, worse next → bad next) :
    wpe m post bad state := by
  rw [wpe_def] at hwpe ⊢
  rcases hrun : (m state).1 with error | a
  · rw [hrun] at hwpe
    exact hbad _ hwpe
  · rw [hrun] at hwpe
    exact hpost a _ hwpe

theorem wpe_mono (hwpe : wpe m strong bad state) (himp : ∀ a next, strong a next → post a next) :
    wpe m post bad state :=
  wpe_imp hwpe himp fun _ hbad => hbad

/-- Two specifications of one call. -/
theorem wpe_and {post' : α → σ → Prop} {bad' : σ → Prop} (hfirst : wpe m post bad state)
    (hsecond : wpe m post' bad' state) :
    wpe m (fun a next => post a next ∧ post' a next) (fun next => bad next ∧ bad' next) state := by
  rw [wpe_def] at hfirst hsecond ⊢
  rcases hrun : (m state).1 with error | a <;>
    · rw [hrun] at hfirst hsecond
      exact ⟨hfirst, hsecond⟩

theorem wpe_true (m : Routine σ α) (state : σ) : wpe m (fun _ _ => True) (fun _ => True) state := by
  rw [wpe_def]
  split <;> trivial

theorem wpe_pure (a : α) : wpe (pure a) post bad state ↔ post a state := Iff.rfl

theorem wpe_write {post : Unit → σ → Prop} (update : σ → σ) :
    wpe (write update) post bad state ↔ post () (update state) := Iff.rfl

theorem wpe_raise (error : PyError) :
    wpe (raise error : Routine σ α) post bad state ↔ bad state := Iff.rfl

theorem wpe_bind {f : α → Routine σ β} {post : β → σ → Prop} :
    wpe (m >>= f) post bad state ↔ wpe m (fun a => wpe (f a) post bad) bad state := by
  simp only [wpe, wp_bind]

theorem wpe_raiseIf [Decidable condition] {error : PyError} {post : Unit → σ → Prop} :
    wpe (raiseIf condition error) post bad state ↔ (condition → bad state) ∧ (¬ condition → post () state) := by
  simp only [wpe, wp_raiseIf]

/-! The three statements that most bodies are made of, each with what follows it. -/

/-- A call with a specification, and what follows it. -/
theorem wpe_then_imp {worse : σ → Prop} {strong : α → σ → Prop} {f : α → Routine σ β} {post : β → σ → Prop}
    (hcall : wpe m strong worse state) (hrest : ∀ a next, strong a next → wpe (f a) post bad next)
    (hbad : ∀ next, worse next → bad next) : wpe (m >>= f) post bad state :=
  wpe_bind.mpr (wpe_imp hcall hrest hbad)

theorem wpe_then {strong : α → σ → Prop} {f : α → Routine σ β} {post : β → σ → Prop}
    (hcall : wpe m strong bad state) (hrest : ∀ a next, strong a next → wpe (f a) post bad next) :
    wpe (m >>= f) post bad state :=
  wpe_then_imp hcall hrest fun _ hbad => hbad

theorem wpe_get {f : σ → Routine σ α} : wpe (read >>= f) post bad state ↔ wpe (f state) post bad state :=
  wpe_bind

theorem wpe_set {f : Unit → Routine σ α} (update : σ → σ) :
    wpe (write update >>= f) post bad state ↔ wpe (f ()) post bad (update state) := wpe_bind

theorem wpe_guard [Decidable condition] {error : PyError} {f : Unit → Routine σ α} :
    wpe (raiseIf condition error >>= f) post bad state ↔
      (condition → bad state) ∧ (¬ condition → wpe (f ()) post bad state) := by
  rw [wpe_bind, wpe_raiseIf]

/-- A guard that may raise here, with the rest of the call. -/
theorem wpe_guarded [Decidable condition] {error : PyError} {f : Unit → Routine σ α} (hbad : bad state)
    (hrest : ¬ condition → wpe (f ()) post bad state) : wpe (raiseIf condition error >>= f) post bad state :=
  wpe_guard.mpr ⟨fun _ => hbad, hrest⟩

theorem wpe_ite [Decidable condition] {first second : Routine σ α} :
    wpe (if condition then first else second) post bad state ↔
      (condition → wpe first post bad state) ∧ (¬ condition → wpe second post bad state) := by
  simp only [wpe, wp_ite]

theorem wpe_whenDo [Decidable condition] {body : Routine σ Unit} {post : Unit → σ → Prop} :
    wpe (whenDo condition body) post bad state ↔
      (condition → wpe body post bad state) ∧ (¬ condition → post () state) := by
  unfold whenDo
  rw [wpe_ite, wpe_pure]

/-- A computation that may raise but does not write. -/
theorem wpe_ofExcept {result : Except PyError α} (hpost : ∀ a, result = .ok a → post a state)
    (hbad : bad state) : wpe (ofExcept result) post bad state := by
  cases result with
  | error error => exact hbad
  | ok a => exact hpost a rfl

theorem wpe_ok (a : α) : wpe (ofExcept (.ok a)) post bad state ↔ post a state := Iff.rfl

/-- A handler that raises again, or handles. -/
theorem wpe_catchWhen {test : PyError → Bool} (hbody : wpe body post
      (fun next => bad next ∧ ∀ error, wpe (handler error) post bad next) state) :
    wpe (catchWhen test body handler) post bad state := by
  rw [wpe_def] at hbody ⊢
  unfold catchWhen
  rcases hrun : body state with ⟨error | a, next⟩
  · rw [hrun] at hbody
    by_cases htest : test error = true
    · simp only [htest, if_true]
      exact wpe_def.mp (hbody.2 error)
    · simp only [htest]
      exact hbody.1
  · rw [hrun] at hbody
    exact hbody

/-- A handler for errors that this call does not raise. -/
theorem wpe_catchWhen_of_uncaught {test : PyError → Bool}
    (huncaught : ∀ error, (body state).1 = .error error → test error = false)
    (hbody : wpe body post bad state) : wpe (catchWhen test body handler) post bad state := by
  rw [wpe_def] at hbody ⊢
  unfold catchWhen
  rcases hrun : body state with ⟨error | a, next⟩
  · rw [hrun] at hbody huncaught
    simp only [huncaught error rfl]
    exact hbody
  · rw [hrun] at hbody
    exact hbody

/-- A handler for errors that are never caught. -/
theorem catchWhen_of_false {test : PyError → Bool} (htest : ∀ error, test error = false) :
    catchWhen test body handler = body := by
  funext state
  unfold catchWhen
  rcases hrun : body state with ⟨error | a, next⟩
  · simp [htest]
  · rfl

/-- A handler that cleans up and raises again. -/
theorem wpe_onError {handler : Routine σ Unit} (hbody : wpe body post (wpe handler (fun _ => bad) bad) state) :
    wpe (onError body handler) post bad state := by
  rw [wpe_def] at hbody ⊢
  unfold onError
  rcases hrun : body state with ⟨error | a, next⟩
  · rw [hrun] at hbody
    have hcleaned := wpe_def.mp hbody
    rcases hhandled : handler next with ⟨error' | _, last⟩ <;> simpa only [hhandled] using hcleaned
  · rw [hrun] at hbody
    exact hbody

/-- `finally` runs on returns and on raises. -/
theorem wpe_finallyDo {cleanup : Routine σ Unit} :
    wpe (finallyDo body cleanup) post bad state ↔
      wpe body (fun a => wpe cleanup (fun _ => post a) bad) (wpe cleanup (fun _ => bad) bad) state := by
  simp only [wpe, wp, finallyDo]
  rcases body state with ⟨error | a, next⟩
  · rcases cleanup next with ⟨_ | _, last⟩ <;> simp
  · rcases cleanup next with ⟨_ | _, last⟩ <;> simp

end

/-! ## Frames -/

/-- The call leaves `view` of the state as it was, on returns and on raises. -/
def Preserves {γ : Type} (view : σ → γ) (m : Routine σ α) : Prop :=
  ∀ state, view (m state).2 = view state

namespace Preserves

variable {γ : Type} {view : σ → γ}

theorem pure (a : α) : Preserves view (Pure.pure a : Routine σ α) := fun _ => rfl

theorem read : Preserves view (read : Routine σ σ) := fun _ => rfl

theorem raise (error : PyError) : Preserves view (raise error : Routine σ α) := fun _ => rfl

theorem ofExcept (result : Except PyError α) :
    Preserves view (ofExcept result : Routine σ α) := fun _ => rfl

theorem write {update : σ → σ} (hupdate : ∀ state, view (update state) = view state) :
    Preserves view (write update) := hupdate

theorem raiseIf (condition : Prop) [Decidable condition] (error : PyError) :
    Preserves view (raiseIf condition error : Routine σ Unit) := by
  intro state
  rw [raiseIf_apply]
  split <;> rfl

variable {m body : Routine σ α} {condition : Prop}

theorem bind {f : α → Routine σ β} (hm : Preserves view m) (hf : ∀ a, Preserves view (f a)) :
    Preserves view (m >>= f) := by
  intro state
  have hfirst := hm state
  rw [bind_apply]
  rcases hrun : m state with ⟨error | a, next⟩
  · rw [hrun] at hfirst
    exact hfirst
  · rw [hrun] at hfirst
    exact (hf a next).trans hfirst

theorem ite [Decidable condition] {first second : Routine σ α} (hfirst : Preserves view first)
    (hsecond : Preserves view second) : Preserves view (if condition then first else second) := by
  split
  · exact hfirst
  · exact hsecond

theorem whenDo [Decidable condition] {body : Routine σ Unit} (hbody : Preserves view body) :
    Preserves view (whenDo condition body) :=
  ite hbody (pure ())

theorem catchWhen {test : PyError → Bool} {handler : PyError → Routine σ α}
    (hbody : Preserves view body) (hhandler : ∀ error, Preserves view (handler error)) :
    Preserves view (catchWhen test body handler) := by
  intro state
  have hfirst := hbody state
  unfold Routine.catchWhen
  rcases hrun : body state with ⟨error | a, next⟩
  · rw [hrun] at hfirst
    by_cases htest : test error = true
    · simp only [htest, if_true]
      exact (hhandler error next).trans hfirst
    · simp only [htest]
      exact hfirst
  · rw [hrun] at hfirst
    exact hfirst

theorem onError {handler : Routine σ Unit} (hbody : Preserves view body)
    (hhandler : Preserves view handler) : Preserves view (onError body handler) := by
  intro state
  have hfirst := hbody state
  unfold Routine.onError
  rcases hrun : body state with ⟨error | a, next⟩
  · rw [hrun] at hfirst
    have hboth : view (handler next).2 = view state := (hhandler next).trans hfirst
    rcases hhandled : handler next with ⟨error' | _, last⟩ <;> simpa only [hhandled] using hboth
  · rw [hrun] at hfirst
    exact hfirst

theorem finallyDo {cleanup : Routine σ Unit} (hbody : Preserves view body)
    (hcleanup : Preserves view cleanup) : Preserves view (finallyDo body cleanup) := by
  intro state
  have hboth : view (cleanup (body state).2).2 = view state :=
    (hcleanup (body state).2).trans (hbody state)
  unfold Routine.finallyDo
  rcases hcleaned : cleanup (body state).2 with ⟨error | _, last⟩ <;> simpa only [hcleaned] using hboth

/-- A smaller view is kept as well. -/
theorem comp {δ : Type} (part : γ → δ) (hm : Preserves view m) :
    Preserves (fun state => part (view state)) m :=
  fun state => congrArg part (hm state)

/-- What depends on `view` only survives the call. -/
theorem wpe (hm : Preserves view m) {post : α → σ → Prop} {bad : σ → Prop} {state : σ}
    (hpost : ∀ a next, view next = view state → post a next)
    (hbad : ∀ next, view next = view state → bad next) : wpe m post bad state := by
  rw [wpe_def]
  rcases (m state).1 with error | a
  · exact hbad _ (hm state)
  · exact hpost a _ (hm state)

end Preserves

/-! ## Invariants -/

/-- The call keeps `good`, on returns and on raises. -/
def Maintains (good : σ → Prop) (m : Routine σ α) : Prop :=
  ∀ state, good state → wpe m (fun _ => good) good state

namespace Maintains

variable {good : σ → Prop}

theorem pure (a : α) : Maintains good (Pure.pure a : Routine σ α) := fun _ hgood => hgood

theorem read : Maintains good (read : Routine σ σ) := fun _ hgood => hgood

theorem raise (error : PyError) : Maintains good (raise error : Routine σ α) :=
  fun _ hgood => hgood

theorem write {update : σ → σ} (hupdate : ∀ state, good state → good (update state)) :
    Maintains good (write update) := hupdate

theorem ofExcept (result : Except PyError α) : Maintains good (ofExcept result : Routine σ α) :=
  fun _ hgood => wpe_ofExcept (fun _ _ => hgood) hgood

theorem raiseIf (condition : Prop) [Decidable condition] (error : PyError) :
    Maintains good (raiseIf condition error : Routine σ Unit) :=
  fun _ hgood => wpe_raiseIf.mpr ⟨fun _ => hgood, fun _ => hgood⟩

theorem bind {m : Routine σ α} {f : α → Routine σ β} (hm : Maintains good m)
    (hf : ∀ a, Maintains good (f a)) : Maintains good (m >>= f) := by
  intro state hgood
  exact wpe_then (hm state hgood) fun a next => hf a next

variable {condition : Prop} {body : Routine σ Unit}

theorem ite [Decidable condition] {first second : Routine σ α} (hfirst : Maintains good first)
    (hsecond : Maintains good second) : Maintains good (if condition then first else second) := by
  split
  · exact hfirst
  · exact hsecond

theorem whenDo [Decidable condition] (hbody : Maintains good body) :
    Maintains good (whenDo condition body) :=
  ite hbody (pure ())

theorem ignoring (hbody : Maintains good body) : Maintains good (ignoring body) := by
  intro state hgood
  have hafter := wpe_def.mp (hbody state hgood)
  rw [wpe_def]
  show good (body state).2
  rcases hrun : (body state).1 with error | a
  · rw [hrun] at hafter
    exact hafter
  · rw [hrun] at hafter
    exact hafter

theorem onError {body : Routine σ α} {handler : Routine σ Unit} (hbody : Maintains good body)
    (hhandler : Maintains good handler) : Maintains good (onError body handler) := by
  intro state hgood
  apply wpe_onError
  exact wpe_imp (hbody state hgood) (fun _ _ hnext => hnext) fun next hnext =>
    hhandler next hnext

theorem catchWhen {test : PyError → Bool} {body : Routine σ α} {handler : PyError → Routine σ α}
    (hbody : Maintains good body) (hhandler : ∀ error, Maintains good (handler error)) :
    Maintains good (catchWhen test body handler) := by
  intro state hgood
  apply wpe_catchWhen
  exact wpe_imp (hbody state hgood) (fun _ _ hnext => hnext) fun next hnext =>
    ⟨hnext, fun error => hhandler error next hnext⟩

end Maintains

/-! ## Errors -/

/-- Every error the call may raise passes the test. -/
def RaisesOnly (test : PyError → Prop) (m : Routine σ α) : Prop :=
  ∀ state error, (m state).1 = .error error → test error

namespace RaisesOnly

variable {test : PyError → Prop}

theorem pure (a : α) : RaisesOnly test (Pure.pure a : Routine σ α) :=
  fun _ _ hraise => nomatch hraise

theorem read : RaisesOnly test (read : Routine σ σ) := fun _ _ hraise => nomatch hraise

theorem bind {m : Routine σ α} {f : α → Routine σ β} (hm : RaisesOnly test m)
    (hf : ∀ a, RaisesOnly test (f a)) : RaisesOnly test (m >>= f) := by
  intro state error hraise
  rw [bind_apply] at hraise
  rcases hrun : m state with ⟨first | a, next⟩
  · rw [hrun] at hraise
    obtain rfl := Except.error.inj hraise
    exact hm state first (by rw [hrun])
  · rw [hrun] at hraise
    exact hf a next error hraise

variable {condition : Prop}

theorem ite [Decidable condition] {first second : Routine σ α} (hfirst : RaisesOnly test first)
    (hsecond : RaisesOnly test second) : RaisesOnly test (if condition then first else second) := by
  split
  · exact hfirst
  · exact hsecond

theorem whenDo [Decidable condition] {body : Routine σ Unit} (hbody : RaisesOnly test body) :
    RaisesOnly test (whenDo condition body) :=
  ite hbody (pure ())

end RaisesOnly

/-- The state after a call, whether it returned or raised. -/
def after (m : Routine σ α) (state : σ) : σ := (m state).2

/-- What a call establishes on returns and on raises holds after it. -/
theorem after_of_wpe {good : σ → Prop} {state : σ} (h : wpe m (fun _ => good) good state) :
    good (m.after state) := by
  rw [wpe_def] at h
  unfold after
  rcases hrun : (m state).1 with error | a
  · rw [hrun] at h
    exact h
  · rw [hrun] at h
    exact h

end Routine
