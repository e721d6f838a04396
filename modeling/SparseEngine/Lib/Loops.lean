import SparseEngine.Lib.Routine

/-!
# Loops and parts of the state

A loop over a list runs its body on every item, in order, until one raises.  A
call on a part of the state reads and writes that part only.
-/

namespace Routine

variable {σ τ α β : Type}

/-- `[body(item) for item in items]`. -/
def mapEach (body : α → Routine σ β) : List α → Routine σ (List β)
  | [] => pure []
  | item :: rest => do
      let value ← body item
      let values ← mapEach body rest
      return value :: values

/-- `for item in items: body(item)`. -/
def forEach (body : α → Routine σ Unit) : List α → Routine σ Unit
  | [] => pure ()
  | item :: rest => do
      body item
      forEach body rest

/-- A call on the part of the state that `get` reads and `set` writes. -/
def focus (get : σ → τ) (set : τ → σ → σ) (m : Routine τ α) : Routine σ α := fun state =>
  ((m (get state)).1, set (m (get state)).2 state)

variable {items : List α} {body : α → Routine σ β}

/-- A list comprehension over a call that may raise. -/
theorem forall₂_of_mapM {f : α → Except PyError β} {values : List β} (h : items.mapM f = .ok values) :
    List.Forall₂ (fun item value => f item = .ok value) items values := by
  induction items generalizing values with
  | nil =>
      obtain rfl := Except.ok.inj h
      exact .nil
  | cons item rest ih =>
      rw [List.mapM_cons] at h
      rcases hitem : f item with error | value
      · rw [hitem] at h
        exact nomatch h
      · rcases hrest : rest.mapM f with error | others
        · rw [hitem, hrest] at h
          exact nomatch h
        · rw [hitem, hrest] at h
          obtain rfl := Except.ok.inj h
          exact .cons hitem (ih hrest)

variable {good : σ → Prop}

theorem Maintains.mapEach (hbody : ∀ item ∈ items, Maintains good (body item)) :
    Maintains good (Routine.mapEach body items) := by
  induction items with
  | nil => exact .pure []
  | cons item rest ih =>
      refine .bind (hbody item List.mem_cons_self) fun value => ?_
      exact .bind (ih fun next hnext => hbody next (List.mem_cons_of_mem item hnext)) fun _ => .pure _

theorem Maintains.forEach {body : α → Routine σ Unit} (hbody : ∀ item ∈ items, Maintains good (body item)) :
    Maintains good (Routine.forEach body items) := by
  induction items with
  | nil => exact .pure ()
  | cons item rest ih =>
      refine .bind (hbody item List.mem_cons_self) fun _ => ?_
      exact ih fun next hnext => hbody next (List.mem_cons_of_mem item hnext)

/-- A loop that only reads. -/
theorem mapEach_of_ok {value : α → β} {state : σ} (h : ∀ item ∈ items, body item state = (.ok (value item), state)) :
    mapEach body items state = (.ok (items.map value), state) := by
  induction items with
  | nil => rfl
  | cons item rest ih =>
      rw [List.forall_mem_cons] at h
      simp only [mapEach, bind_apply, h.1, ih h.2, pure_apply, List.map_cons]

/-- A loop over `range(count)` whose results are numbered like its items. -/
theorem wpe_mapEach_range {body : ℕ → Routine σ β} {state : σ} (count : ℕ)
    (inv : List β → σ → Prop) (bad : σ → Prop) (hstart : inv [] state)
    (hbody : ∀ done, done.length < count → ∀ current, inv done current →
      wpe (body done.length) (fun value next => inv (done ++ [value]) next) bad current) :
    wpe (mapEach body (List.range count)) (fun values next => values.length = count ∧ inv values next) bad state := by
  suffices hloop : ∀ left done, done.length + left = count → ∀ current, inv done current →
      wpe (mapEach body (List.range' done.length left))
        (fun values next => (done ++ values).length = count ∧ inv (done ++ values) next) bad current by
    have hall := hloop count [] (Nat.zero_add count) state hstart
    rw [List.length_nil, ← List.range_eq_range'] at hall
    simpa only [List.nil_append] using hall
  intro left
  induction left with
  | zero =>
      intro done hlength current hdone
      rw [List.range'_zero, mapEach, wpe_pure, List.append_nil]
      exact ⟨hlength, hdone⟩
  | succ left ih =>
      intro done hlength current hdone
      rw [List.range'_succ, mapEach]
      refine wpe_then (hbody done (by omega) current hdone) fun value next hnext => ?_
      have hrest := ih (done ++ [value]) (by rw [List.length_append, List.length_singleton]; omega)
        next hnext
      rw [List.length_append, List.length_singleton] at hrest
      refine wpe_then hrest fun values last hlast => ?_
      rw [wpe_pure]
      simpa only [List.append_assoc, List.singleton_append] using hlast

/-- A loop with an invariant about the items that are left. -/
theorem wpe_forEach {body : α → Routine σ Unit} {state : σ} (inv : List α → σ → Prop)
    (bad : σ → Prop) (hstart : inv items state)
    (hbody : ∀ item rest current, inv (item :: rest) current → wpe (body item) (fun _ => inv rest) bad current) :
    wpe (forEach body items) (fun _ => inv []) bad state := by
  induction items generalizing state with
  | nil => exact hstart
  | cons item rest ih =>
      rw [forEach]
      exact wpe_then (hbody item rest state hstart) fun _ next hnext => ih hnext

theorem forEach_append (body : α → Routine σ Unit) (first second : List α) (state : σ) :
    forEach body (first ++ second) state = (forEach body first >>= fun _ => forEach body second) state := by
  induction first generalizing state with
  | nil => rfl
  | cons item rest ih =>
      rw [List.cons_append, forEach, forEach, bind_apply, bind_apply, bind_apply]
      rcases body item state with ⟨error | value, next⟩
      · rfl
      · exact ih next

/-- A loop over groups is a loop over their items. -/
theorem forEach_flatMap {γ : Type} (body : α → Routine σ Unit) (group : γ → List α) (groups : List γ) :
    forEach (fun item => forEach body (group item)) groups = forEach body (groups.flatMap group) := by
  funext state
  induction groups generalizing state with
  | nil => rfl
  | cons item rest ih =>
      rw [List.flatMap_cons, forEach_append, forEach, bind_apply, bind_apply]
      rcases forEach body (group item) state with ⟨error | value, next⟩
      · rfl
      · exact ih next

theorem forEach_map {γ : Type} (body : β → Routine σ Unit) (f : γ → β) (items : List γ) :
    forEach body (items.map f) = forEach (fun item => body (f item)) items := by
  induction items with
  | nil => rfl
  | cons item rest ih => rw [List.map_cons, forEach, forEach, ih]

/-! ## Calls that a change of the state does not reach -/

/-- The call neither reads nor writes what `change` changes: a change before it
is a change after it. -/
def Unreached (change : σ → σ) (m : Routine σ α) : Prop :=
  ∀ state, m (change state) = ((m state).1, change (m state).2)

namespace Unreached

variable {change : σ → σ}

theorem pure (a : α) : Unreached change (Pure.pure a : Routine σ α) := fun _ => rfl

theorem write {update : σ → σ} (h : ∀ state, update (change state) = change (update state)) :
    Unreached change (write update) := fun state => Prod.ext rfl (h state)

theorem bind {m : Routine σ α} {f : α → Routine σ β} (hm : Unreached change m)
    (hf : ∀ a, Unreached change (f a)) : Unreached change (m >>= f) := by
  intro state
  have hfirst := hm state
  rw [bind_apply, bind_apply, hfirst]
  rcases m state with ⟨error | a, next⟩
  · rfl
  · exact hf a next

/-- What is read of the state is not changed. -/
theorem read {f : σ → Routine σ β} (hread : ∀ state, f (change state) = f state)
    (hf : ∀ a, Unreached change (f a)) : Unreached change (Routine.read >>= f) := by
  intro state
  rw [bind_apply, get_apply, read_apply]
  dsimp only
  rw [hread]
  exact hf state state

theorem ite {condition : Prop} [Decidable condition] {first second : Routine σ α}
    (hfirst : Unreached change first) (hsecond : Unreached change second) :
    Unreached change (if condition then first else second) := by
  split
  · exact hfirst
  · exact hsecond

theorem onError {body : Routine σ α} {handler : Routine σ Unit} (hbody : Unreached change body)
    (hhandler : Unreached change handler) : Unreached change (onError body handler) := by
  intro state
  have hfirst := hbody state
  unfold Routine.onError
  rw [hfirst]
  rcases body state with ⟨error | a, next⟩
  · have hsecond := hhandler next
    dsimp only
    rw [hsecond]
    rcases handler next with ⟨error' | _, last⟩ <;> rfl
  · rfl

theorem focus {get : σ → τ} {set : τ → σ → σ} {m : Routine τ α} (hget : ∀ state, get (change state) = get state)
    (hset : ∀ part state, set part (change state) = change (set part state)) :
    Unreached change (Routine.focus get set m) := by
  intro state
  unfold Routine.focus
  rw [hget, hset]

theorem forEach {body : α → Routine σ Unit} {items : List α}
    (hbody : ∀ item ∈ items, Unreached change (body item)) : Unreached change (forEach body items) := by
  induction items with
  | nil => exact pure ()
  | cons item rest ih =>
      rw [List.forall_mem_cons] at hbody
      exact bind hbody.1 fun _ => ih hbody.2

end Unreached

section

variable {get : σ → τ} {set : τ → σ → σ} {post : α → σ → Prop} {bad : σ → Prop} {state : σ}

variable {m : Routine τ α}

theorem wpe_focus :
    wpe (focus get set m) post bad state ↔
      wpe m (fun value part => post value (set part state)) (fun part => bad (set part state)) (get state) := by
  rw [wpe_def, wpe_def]
  unfold focus
  rcases (m (get state)).1 with error | value <;> rfl

/-- A call on a part keeps what the part keeps. -/
theorem Maintains.focus {good : τ → Prop} {keeps : σ → Prop} (hm : Maintains good m)
    (hget : ∀ state, keeps state → good (get state))
    (hset : ∀ state part, keeps state → good part → keeps (set part state)) :
    Maintains keeps (Routine.focus get set m) := by
  intro state hkeeps
  rw [wpe_focus]
  exact wpe_imp (hm (get state) (hget state hkeeps)) (fun _ part => hset state part hkeeps)
    fun part => hset state part hkeeps

end

end Routine
