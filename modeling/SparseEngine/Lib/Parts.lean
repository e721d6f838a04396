import SparseEngine.Lib.Loops

/-!
# Numbered parts of a state

A state has a part under every valid number, and a write to one part leaves
the others alone.  A loop that calls every listed part once is decided part by
part: each call sees its part as it was before the loop, and the state
afterwards is the one before with the listed parts filled in (`mapEach_on_eq`,
`of_mapEach_on_ok`).  So two ways to write the same parts leave the same state
when they leave the same parts (`fill_congr`), also when one of them writes in
several passes (`fill_fill`).  Calls on the same part, one after the other,
are one call on it (`mapEach_on_one`).
-/

/-- The parts of a state, read and written under their numbers. -/
structure Parts (ι σ τ : Type) where
  get : ι → σ → τ
  set : ι → τ → σ → σ
  valid : ι → Prop
  get_set : ∀ {i} part state, valid i → get i (set i part state) = part
  set_get : ∀ i state, set i (get i state) state = state
  set_set : ∀ i first second state, set i second (set i first state) = set i second state
  get_set_of_ne : ∀ {i j} part state, valid i → valid j → j ≠ i → get j (set i part state) = get j state
  set_comm : ∀ {i j} first second state, valid i → valid j → i ≠ j →
    set i first (set j second state) = set j second (set i first state)

namespace Parts

open Routine

variable {ι σ τ α β : Type} (parts : Parts ι σ τ)

/-- A call on the part with a number. -/
def on (i : ι) (m : Routine τ α) : Routine σ α := focus (parts.get i) (parts.set i) m

variable {parts} {i : ι} {state next : σ}

theorem on_apply (m : Routine τ α) :
    parts.on i m state = ((m (parts.get i state)).1, parts.set i (m (parts.get i state)).2 state) := rfl

@[simp] theorem on_pure (a : α) : parts.on i (pure a) = pure a := by
  funext state
  rw [on_apply, pure_apply, pure_apply, parts.set_get]

theorem on_bind (hvalid : parts.valid i) (m : Routine τ α) (f : α → Routine τ β) :
    parts.on i (m >>= f) = parts.on i m >>= fun a => parts.on i (f a) := by
  funext state
  rw [bind_apply, on_apply, on_apply, bind_apply]
  rcases m (parts.get i state) with ⟨error | a, part⟩
  · rfl
  · dsimp only
    rw [on_apply, parts.get_set part state hvalid, parts.set_set]

theorem mapEach_congr {items : List β} {first second : β → Routine σ α}
    (h : ∀ item ∈ items, first item = second item) : mapEach first items = mapEach second items := by
  induction items with
  | nil => rfl
  | cons item rest ih =>
      rw [List.forall_mem_cons] at h
      rw [mapEach, mapEach, h.1, ih h.2]

/-- Calls on one part, one after the other. -/
theorem mapEach_on_one (hvalid : parts.valid i) (body : α → Routine τ β) (items : List α) :
    mapEach (fun item => parts.on i (body item)) items = parts.on i (mapEach body items) := by
  induction items with
  | nil => exact (on_pure []).symm
  | cons item rest ih =>
      rw [mapEach, mapEach, ih, on_bind hvalid]
      congr 1
      funext value
      rw [on_bind hvalid]
      congr 1
      funext values
      exact (on_pure (value :: values)).symm

/-! ## Several parts -/

/-- A state with the listed parts filled in. -/
def fill (parts : Parts ι σ τ) (items : List ι) (part : ι → τ) (state : σ) : σ :=
  items.foldl (fun state i => parts.set i (part i) state) state

/-- One pass over the listed parts. -/
def modifyEach (parts : Parts ι σ τ) (f : ι → τ → τ) (items : List ι) (state : σ) : σ :=
  items.foldl (fun state i => parts.set i (f i (parts.get i state)) state) state

variable {items : List ι} {j : ι} {body : ι → Routine τ α}

theorem fill_congr {first second : ι → τ} (h : ∀ i ∈ items, first i = second i) :
    parts.fill items first state = parts.fill items second state := by
  induction items generalizing state with
  | nil => rfl
  | cons i rest ih =>
      rw [List.forall_mem_cons] at h
      unfold fill at ih ⊢
      rw [List.foldl_cons, List.foldl_cons, h.1, ih h.2]

section

variable (hvalid : ∀ i ∈ items, parts.valid i)

include hvalid

theorem get_fill_of_not_mem (part : ι → τ) (hj : parts.valid j) (hmem : j ∉ items) :
    parts.get j (parts.fill items part state) = parts.get j state := by
  induction items generalizing state with
  | nil => rfl
  | cons i rest ih =>
      rw [List.forall_mem_cons] at hvalid
      rw [List.mem_cons, not_or] at hmem
      exact (ih hvalid.2 hmem.2).trans (parts.get_set_of_ne _ _ hvalid.1 hj hmem.1)

theorem get_fill_of_mem (hnodup : items.Nodup) (part : ι → τ) {i : ι} (hmem : i ∈ items) :
    parts.get i (parts.fill items part state) = part i := by
  induction items generalizing state with
  | nil => exact nomatch hmem
  | cons first rest ih =>
      rw [List.forall_mem_cons] at hvalid
      rw [List.nodup_cons] at hnodup
      rcases List.mem_cons.mp hmem with rfl | hrest
      · exact (get_fill_of_not_mem hvalid.2 part hvalid.1 hnodup.1).trans (parts.get_set _ _ hvalid.1)
      · exact ih hvalid.2 hnodup.2 hrest

theorem fill_set (part : ι → τ) (hj : parts.valid j) (hmem : j ∉ items) (value : τ) :
    parts.fill items part (parts.set j value state) = parts.set j value (parts.fill items part state) := by
  induction items generalizing state with
  | nil => rfl
  | cons i rest ih =>
      rw [List.forall_mem_cons] at hvalid
      rw [List.mem_cons, not_or] at hmem
      unfold fill at ih ⊢
      rw [List.foldl_cons, List.foldl_cons,
        parts.set_comm (part i) value state hvalid.1 hj (Ne.symm hmem.1), ih hvalid.2 hmem.2]

section

variable (hnodup : items.Nodup)

include hnodup

/-- What is filled in last stands. -/
theorem fill_fill (first second : ι → τ) :
    parts.fill items second (parts.fill items first state) = parts.fill items second state := by
  induction items generalizing state with
  | nil => rfl
  | cons i rest ih =>
      rw [List.forall_mem_cons] at hvalid
      rw [List.nodup_cons] at hnodup
      calc parts.fill (i :: rest) second (parts.fill (i :: rest) first state)
          = parts.fill rest second (parts.set i (second i)
              (parts.fill rest first (parts.set i (first i) state))) := rfl
        _ = parts.fill rest second (parts.fill rest first
              (parts.set i (second i) (parts.set i (first i) state))) := by
            rw [fill_set hvalid.2 first hvalid.1 hnodup.1 (second i)]
        _ = parts.fill (i :: rest) second state := by
            rw [ih hvalid.2 hnodup.2, parts.set_set]
            rfl

/-- A pass is decided part by part. -/
theorem modifyEach_eq_fill (f : ι → τ → τ) :
    parts.modifyEach f items state = parts.fill items (fun i => f i (parts.get i state)) state := by
  induction items generalizing state with
  | nil => rfl
  | cons i rest ih =>
      rw [List.forall_mem_cons] at hvalid
      rw [List.nodup_cons] at hnodup
      calc parts.modifyEach f (i :: rest) state
          = parts.modifyEach f rest (parts.set i (f i (parts.get i state)) state) := rfl
        _ = parts.fill rest (fun j => f j (parts.get j (parts.set i (f i (parts.get i state)) state)))
              (parts.set i (f i (parts.get i state)) state) := ih hvalid.2 hnodup.2
        _ = parts.fill (i :: rest) (fun j => f j (parts.get j state)) state := by
            refine fill_congr fun j hj => ?_
            have hne : j ≠ i := by
              rintro rfl
              exact hnodup.1 hj
            rw [parts.get_set_of_ne _ _ hvalid.1 (hvalid.2 j hj) hne]

theorem get_modifyEach_of_mem (f : ι → τ → τ) {i : ι} (hi : i ∈ items) :
    parts.get i (parts.modifyEach f items state) = f i (parts.get i state) := by
  rw [modifyEach_eq_fill hvalid hnodup, get_fill_of_mem hvalid hnodup _ hi]

theorem get_modifyEach_of_not_mem (f : ι → τ → τ) {i : ι} (hi : parts.valid i) (hmem : i ∉ items) :
    parts.get i (parts.modifyEach f items state) = parts.get i state := by
  rw [modifyEach_eq_fill hvalid hnodup, get_fill_of_not_mem hvalid _ hi hmem]

/-- Two passes over the same parts are one. -/
theorem modifyEach_modifyEach (f g : ι → τ → τ) :
    parts.modifyEach g items (parts.modifyEach f items state) =
      parts.modifyEach (fun i part => g i (f i part)) items state := by
  rw [modifyEach_eq_fill hvalid hnodup f, modifyEach_eq_fill hvalid hnodup g, modifyEach_eq_fill hvalid hnodup,
    fill_fill hvalid hnodup]
  refine fill_congr fun i hi => ?_
  rw [get_fill_of_mem hvalid hnodup _ hi]

/-- **A loop over different parts**: every call sees its part as it was before
the loop. -/
theorem mapEach_on_eq {value : ι → α} {part : ι → τ}
    (hbody : ∀ i ∈ items, body i (parts.get i state) = (.ok (value i), part i)) :
    mapEach (fun i => parts.on i (body i)) items state = (.ok (items.map value), parts.fill items part state) := by
  induction items generalizing state with
  | nil => rfl
  | cons i rest ih =>
      rw [List.forall_mem_cons] at hvalid hbody
      rw [List.nodup_cons] at hnodup
      have hrest : ∀ j ∈ rest, body j (parts.get j (parts.set i (part i) state)) = (.ok (value j), part j) := by
        intro j hj
        have hne : j ≠ i := by
          rintro rfl
          exact hnodup.1 hj
        rw [parts.get_set_of_ne _ _ hvalid.1 (hvalid.2 j hj) hne]
        exact hbody.2 j hj
      rw [mapEach, bind_apply, on_apply, hbody.1]
      dsimp only
      rw [bind_apply, ih hvalid.2 hnodup.2 hrest]
      rfl

/-- A loop over different parts that returned: every call as its part saw it,
and the state it left. -/
theorem of_mapEach_on_ok [Inhabited α] {values : List α}
    (h : mapEach (fun i => parts.on i (body i)) items state = (.ok values, next)) :
    ∃ value : ι → α, values = items.map value ∧
      (∀ i ∈ items, body i (parts.get i state) = (.ok (value i), parts.get i next)) ∧
      next = parts.fill items (fun i => parts.get i next) state := by
  classical
  induction items generalizing state values with
  | nil =>
      obtain ⟨hvalues, rfl⟩ := Prod.mk.inj h
      obtain rfl := Except.ok.inj hvalues
      exact ⟨fun _ => default, rfl, by simp, rfl⟩
  | cons i rest ih =>
      rw [List.forall_mem_cons] at hvalid
      rw [List.nodup_cons] at hnodup
      rw [mapEach, bind_apply, on_apply] at h
      rcases hfirst : body i (parts.get i state) with ⟨error | first, part⟩
      · rw [hfirst] at h
        cases (Prod.mk.inj h).1
      rw [hfirst] at h
      dsimp only at h
      rw [bind_apply] at h
      rcases hrest : mapEach (fun i => parts.on i (body i)) rest (parts.set i part state) with
        ⟨error | others, last⟩
      · rw [hrest] at h
        cases (Prod.mk.inj h).1
      rw [hrest] at h
      obtain ⟨hvalues, rfl⟩ := Prod.mk.inj h
      obtain rfl := Except.ok.inj hvalues
      obtain ⟨value, rfl, hcalls, hlast⟩ := ih hvalid.2 hnodup.2 hrest
      -- the rest of the loop leaves this part alone
      have hget : parts.get i last = part := by
        rw [hlast, get_fill_of_not_mem hvalid.2 _ hvalid.1 hnodup.1, parts.get_set _ _ hvalid.1]
      have hne : ∀ j ∈ rest, j ≠ i := by
        rintro j hj rfl
        exact hnodup.1 hj
      refine ⟨Function.update value i first, ?_, ?_, ?_⟩
      · rw [List.map_cons, Function.update_self]
        congr 1
        exact List.map_congr_left fun j hj => (Function.update_of_ne (hne j hj) _ _).symm
      · rw [List.forall_mem_cons, Function.update_self, hget]
        refine ⟨hfirst, fun j hj => ?_⟩
        rw [Function.update_of_ne (hne j hj), ← hcalls j hj,
          parts.get_set_of_ne part state hvalid.1 (hvalid.2 j hj) (hne j hj)]
      · unfold fill at hlast ⊢
        rw [List.foldl_cons]
        beta_reduce
        rw [hget]
        exact hlast

end

end

/-- The values of a function are its parts. -/
def ofFunction [DecidableEq ι] : Parts ι (ι → τ) τ where
  get i values := values i
  set i value values := Function.update values i value
  valid _ := True
  get_set _ _ _ := Function.update_self _ _ _
  set_get i values := Function.update_eq_self i values
  set_set _ _ _ _ := Function.update_idem _ _ _
  get_set_of_ne _ _ _ _ hne := Function.update_of_ne hne _ _
  set_comm _ _ _ _ _ hne := (Function.update_comm hne _ _ _).symm

end Parts
