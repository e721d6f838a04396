import Mathlib.Data.Finset.Basic
import Mathlib.Algebra.BigOperators.Group.List.Basic

/-!
# Insertion-ordered dictionaries

A dictionary lists its entries in the order in which their keys were first
inserted: overwriting a key keeps its place, deleting and inserting it again
moves it to the end.  The list never holds a key twice, and `Dict` carries
that as a field.
-/

/-- A dictionary from `K` to `V`, entries in insertion order. -/
structure Dict (K V : Type) where
  entries : List (K × V)
  nodup_keys : (entries.map Prod.fst).Nodup

namespace Dict

variable {K V W : Type}

/-- `list(d)`. -/
def keys (d : Dict K V) : List K := d.entries.map Prod.fst

/-- `list(d.values())`. -/
def values (d : Dict K V) : List V := d.entries.map Prod.snd

/-- `len(d)`. -/
def size (d : Dict K V) : ℕ := d.entries.length

/-- The empty dictionary. -/
def empty : Dict K V := ⟨[], List.nodup_nil⟩

instance : Inhabited (Dict K V) := ⟨empty⟩

theorem keys_nodup (d : Dict K V) : d.keys.Nodup := d.nodup_keys

@[simp] theorem length_keys (d : Dict K V) : d.keys.length = d.size := by
  simp [keys, size]

@[simp] theorem keys_empty : (empty : Dict K V).keys = [] := rfl

@[simp] theorem entries_empty : (empty : Dict K V).entries = [] := rfl

variable [DecidableEq K]

/-- `d.get(k)`. -/
def get? (d : Dict K V) (k : K) : Option V := d.entries.lookup k

private def setEntries (k : K) (v : V) : List (K × V) → List (K × V)
  | [] => [(k, v)]
  | (k', v') :: rest => if k' = k then (k, v) :: rest else (k', v') :: setEntries k v rest

private theorem map_fst_setEntries (k : K) (v : V) (entries : List (K × V)) :
    (setEntries k v entries).map Prod.fst =
      if k ∈ entries.map Prod.fst then entries.map Prod.fst
      else entries.map Prod.fst ++ [k] := by
  induction entries with
  | nil => simp [setEntries]
  | cons entry rest ih =>
      obtain ⟨k', v'⟩ := entry
      by_cases hk : k' = k
      · simp [setEntries, hk]
      · have hk' : k ≠ k' := fun h => hk h.symm
        simp only [setEntries, hk, if_false, List.map_cons, ih, List.mem_cons, hk', false_or]
        split <;> simp

/-- `d[k] = v`. -/
def set (d : Dict K V) (k : K) (v : V) : Dict K V where
  entries := setEntries k v d.entries
  nodup_keys := by
    rw [map_fst_setEntries]
    split
    · exact d.nodup_keys
    · next hk =>
        rw [List.nodup_append]
        exact ⟨d.nodup_keys, List.nodup_singleton k, by
          intro a ha b hb hab
          rw [List.mem_singleton] at hb
          exact hk (hb ▸ hab ▸ ha)⟩

/-- `d.pop(k, None)`. -/
def erase (d : Dict K V) (k : K) : Dict K V where
  entries := d.entries.filter fun entry => entry.1 ≠ k
  nodup_keys := d.nodup_keys.sublist (List.filter_sublist.map Prod.fst)

/-- `{k: f(k, v) for k, v in d.items()}`. -/
def mapValues (d : Dict K V) (f : K → V → W) : Dict K W where
  entries := d.entries.map fun entry => (entry.1, f entry.1 entry.2)
  nodup_keys := by
    have hmap : (d.entries.map fun entry => (entry.1, f entry.1 entry.2)).map Prod.fst =
        d.entries.map Prod.fst := by simp
    rw [hmap]
    exact d.nodup_keys

/-- `{k: v for k, v in d.items() if test(k, v)}`. -/
def filter (d : Dict K V) (test : K → V → Bool) : Dict K V where
  entries := d.entries.filter fun entry => test entry.1 entry.2
  nodup_keys := d.nodup_keys.sublist (List.filter_sublist.map Prod.fst)

/-! ## Lookup -/

@[simp] theorem get?_empty (k : K) : (empty : Dict K V).get? k = none := rfl

variable {entries : List (K × V)} {v w : V}

theorem lookup_eq_some_iff_mem (hnodup : (entries.map Prod.fst).Nodup) {k : K} :
    entries.lookup k = some v ↔ (k, v) ∈ entries := by
  induction entries with
  | nil => simp
  | cons entry rest ih =>
      obtain ⟨k', v'⟩ := entry
      rw [List.map_cons, List.nodup_cons] at hnodup
      by_cases hk : k = k'
      · subst hk
        have hrest : (k, v) ∉ rest := fun h => hnodup.1 (List.mem_map.mpr ⟨_, h, rfl⟩)
        simp only [List.lookup_cons, beq_self_eq_true, List.mem_cons, Prod.mk.injEq, true_and,
          hrest, or_false, Option.some.injEq]
        exact eq_comm
      · have hbeq : (k == k') = false := by simpa using hk
        simp only [List.lookup_cons, hbeq, ih hnodup.2, List.mem_cons, Prod.mk.injEq, hk, false_and, false_or]

theorem get?_eq_some_iff {d : Dict K V} {k : K} : d.get? k = some v ↔ (k, v) ∈ d.entries :=
  lookup_eq_some_iff_mem d.nodup_keys

theorem mem_keys_iff {d : Dict K V} {k : K} : k ∈ d.keys ↔ ∃ v, d.get? k = some v := by
  simp only [keys, List.mem_map, Prod.exists, exists_and_right, exists_eq_right, get?_eq_some_iff]

theorem mem_keys_of_get? {d : Dict K V} {k : K} (h : d.get? k = some v) : k ∈ d.keys :=
  mem_keys_iff.mpr ⟨v, h⟩

theorem not_mem_keys_iff {d : Dict K V} {k : K} : k ∉ d.keys ↔ d.get? k = none := by
  rw [mem_keys_iff]
  cases d.get? k <;> simp

theorem get?_isSome_iff {d : Dict K V} {k : K} : (d.get? k).isSome ↔ k ∈ d.keys := by
  rw [mem_keys_iff, Option.isSome_iff_exists]

private theorem lookup_setEntries (k : K) (v : V) (entries : List (K × V)) (q : K) :
    (setEntries k v entries).lookup q = if q = k then some v else entries.lookup q := by
  induction entries with
  | nil => by_cases hq : q = k <;> simp [setEntries, List.lookup_cons, hq, beq_false_of_ne]
  | cons entry rest ih =>
      obtain ⟨k', v'⟩ := entry
      by_cases hk : k' = k
      · subst hk
        by_cases hq : q = k' <;> simp [setEntries, List.lookup_cons, hq, beq_false_of_ne]
      · by_cases hq : q = k'
        · subst hq
          simp [setEntries, hk]
        · simp [setEntries, List.lookup_cons, hk, beq_false_of_ne hq, ih]

@[simp] theorem get?_set (d : Dict K V) (k : K) (v : V) (q : K) :
    (d.set k v).get? q = if q = k then some v else d.get? q :=
  lookup_setEntries k v d.entries q

private theorem setEntries_of_lookup {k : K} (h : entries.lookup k = some v) :
    setEntries k v entries = entries := by
  induction entries with
  | nil => simp at h
  | cons entry rest ih =>
      obtain ⟨k', v'⟩ := entry
      by_cases hk : k' = k
      · subst hk
        obtain rfl : v' = v := by simpa using h
        simp [setEntries]
      · have hk' : k ≠ k' := fun heq => hk heq.symm
        rw [List.lookup_cons, beq_false_of_ne hk'] at h
        simp [setEntries, hk, ih h]

/-- Writing the stored value changes nothing. -/
theorem set_of_get? {d : Dict K V} {k : K} (h : d.get? k = some v) : d.set k v = d := by
  obtain ⟨entries, hnodup⟩ := d
  simp only [set, setEntries_of_lookup h]

theorem get?_set_self (d : Dict K V) (k : K) (v : V) : (d.set k v).get? k = some v := by simp

theorem get?_set_of_ne (d : Dict K V) {k q : K} (v : V) (hne : q ≠ k) :
    (d.set k v).get? q = d.get? q := by simp [hne]

@[simp] theorem get?_erase (d : Dict K V) (k q : K) :
    (d.erase k).get? q = if q = k then none else d.get? q := by
  ext v
  rw [get?_eq_some_iff]
  simp only [erase, List.mem_filter, decide_eq_true_eq]
  split
  · next h => simp [h]
  · next h => simp [h, get?_eq_some_iff]

@[simp] theorem get?_mapValues (d : Dict K V) (f : K → V → W) (q : K) :
    (d.mapValues f).get? q = (d.get? q).map (f q) := by
  ext w
  rw [get?_eq_some_iff]
  simp only [mapValues, List.mem_map, Prod.mk.injEq, Option.map_eq_some_iff, get?_eq_some_iff, Prod.exists]
  constructor
  · rintro ⟨k, v, hmem, rfl, rfl⟩
    exact ⟨v, hmem, rfl⟩
  · rintro ⟨v, hmem, rfl⟩
    exact ⟨q, v, hmem, rfl, rfl⟩

@[simp] theorem get?_filter (d : Dict K V) (test : K → V → Bool) (q : K) :
    (d.filter test).get? q = (d.get? q).filter (test q) := by
  ext v
  rw [get?_eq_some_iff]
  simp only [filter, List.mem_filter, Option.filter_eq_some_iff, get?_eq_some_iff]

theorem entries_ne_nil_of_get? {d : Dict K V} {k : K} (h : d.get? k = some v) : d.entries ≠ [] :=
  List.ne_nil_of_mem (get?_eq_some_iff.mp h)

theorem entries_set_ne_nil (d : Dict K V) (k : K) (v : V) : (d.set k v).entries ≠ [] :=
  entries_ne_nil_of_get? (get?_set_self d k v)

/-! ## Keys -/

theorem keys_set (d : Dict K V) (k : K) (v : V) :
    (d.set k v).keys = if k ∈ d.keys then d.keys else d.keys ++ [k] :=
  map_fst_setEntries k v d.entries

theorem keys_set_of_mem {d : Dict K V} {k : K} (v : V) (hk : k ∈ d.keys) :
    (d.set k v).keys = d.keys := by rw [keys_set, if_pos hk]

theorem keys_set_of_get? {d : Dict K V} {k : K} (v : V) (hk : d.get? k = some w) :
    (d.set k v).keys = d.keys := keys_set_of_mem v (mem_keys_of_get? hk)

theorem keys_set_of_not_mem {d : Dict K V} {k : K} (v : V) (hk : k ∉ d.keys) :
    (d.set k v).keys = d.keys ++ [k] := by rw [keys_set, if_neg hk]

@[simp] theorem mem_keys_set {d : Dict K V} {k q : K} :
    q ∈ (d.set k v).keys ↔ q = k ∨ q ∈ d.keys := by
  rw [keys_set]
  split
  · next hk =>
      constructor
      · exact Or.inr
      · rintro (rfl | h)
        exacts [hk, h]
  · simp [or_comm]

theorem keys_erase (d : Dict K V) (k : K) :
    (d.erase k).keys = d.keys.filter fun q => q ≠ k := by
  simp [keys, erase, List.filter_map, Function.comp_def]

@[simp] theorem mem_keys_erase {d : Dict K V} {k q : K} :
    q ∈ (d.erase k).keys ↔ q ∈ d.keys ∧ q ≠ k := by
  rw [keys_erase]
  simp

omit [DecidableEq K] in
@[simp] theorem keys_mapValues (d : Dict K V) (f : K → V → W) :
    (d.mapValues f).keys = d.keys := by
  simp [keys, mapValues]

theorem mem_values_iff {d : Dict K V} : v ∈ d.values ↔ ∃ k, d.get? k = some v := by
  simp [values, get?_eq_some_iff]

theorem size_erase_of_mem {d : Dict K V} {k : K} (hk : k ∈ d.keys) :
    (d.erase k).size + 1 = d.size := by
  have hfilter : (d.erase k).keys = d.keys.erase k := by
    rw [keys_erase, d.keys_nodup.erase_eq_filter]
    exact List.filter_congr fun q _ => by simp [bne, beq_eq_decide]
  rw [← length_keys, hfilter, ← length_keys]
  exact List.length_erase_add_one hk

theorem entries_set_of_not_mem {d : Dict K V} {k : K} (v : V) (hk : k ∉ d.keys) :
    (d.set k v).entries = d.entries ++ [(k, v)] := by
  obtain ⟨entries, hnodup⟩ := d
  have hk' : k ∉ entries.map Prod.fst := hk
  simp only [set]
  clear hnodup hk
  induction entries with
  | nil => rfl
  | cons entry rest ih =>
      obtain ⟨k', v'⟩ := entry
      have hne : k' ≠ k := fun heq => hk' (by simp [heq])
      have hrest : k ∉ rest.map Prod.fst := fun hmem => hk' (List.mem_cons_of_mem _ hmem)
      simp [setEntries, hne, ih hrest]

theorem erase_of_not_mem {d : Dict K V} {k : K} (hk : k ∉ d.keys) : d.erase k = d := by
  obtain ⟨entries, hnodup⟩ := d
  simp only [erase, mk.injEq, List.filter_eq_self, decide_eq_true_eq]
  intro entry hentry heq
  exact hk (heq ▸ List.mem_map_of_mem hentry)

@[simp] theorem erase_set_self (d : Dict K V) (k : K) (v : V) :
    (d.set k v).erase k = d.erase k := by
  obtain ⟨entries, hnodup⟩ := d
  simp only [set, erase, mk.injEq]
  clear hnodup
  induction entries with
  | nil => simp [setEntries]
  | cons entry rest ih =>
      obtain ⟨k', v'⟩ := entry
      by_cases hk : k' = k
      · simp [setEntries, hk]
      · simp only [setEntries, hk, if_false, List.filter_cons, ne_eq, not_false_eq_true, decide_true, if_true]
        rw [ih]

@[simp] theorem set_set_self (d : Dict K V) (k : K) (v w : V) :
    (d.set k v).set k w = d.set k w := by
  obtain ⟨entries, hnodup⟩ := d
  simp only [set, mk.injEq]
  clear hnodup
  induction entries with
  | nil => simp [setEntries]
  | cons entry rest ih =>
      obtain ⟨k', v'⟩ := entry
      by_cases hk : k' = k
      · simp [setEntries, hk]
      · simp [setEntries, hk, ih]

theorem mapValues_set (d : Dict K V) (k : K) (v : V) (f : K → V → W) :
    (d.set k v).mapValues f = (d.mapValues f).set k (f k v) := by
  obtain ⟨entries, hnodup⟩ := d
  simp only [set, mapValues, mk.injEq]
  clear hnodup
  induction entries with
  | nil => simp [setEntries]
  | cons entry rest ih =>
      obtain ⟨k', v'⟩ := entry
      by_cases hk : k' = k
      · simp [setEntries, hk]
      · simp [setEntries, hk, ih]

theorem mapValues_erase (d : Dict K V) (k : K) (f : K → V → W) :
    (d.erase k).mapValues f = (d.mapValues f).erase k := by
  obtain ⟨entries, hnodup⟩ := d
  simp only [erase, mapValues, List.filter_map, Function.comp_def]

/-! ## The values as a list -/

theorem values_set_perm {d : Dict K V} {k : K} (v : V) (hk : k ∉ d.keys) :
    (d.set k v).values.Perm (v :: d.values) := by
  unfold values
  rw [entries_set_of_not_mem v hk, List.map_append]
  exact List.perm_append_singleton v _

theorem values_erase_perm {d : Dict K V} {k : K} (hw : d.get? k = some w) :
    d.values.Perm (w :: (d.erase k).values) := by
  -- an erased key that is set again comes last
  have hset : ((d.erase k).set k w).values.Perm (w :: (d.erase k).values) :=
    values_set_perm w (by simp)
  refine List.Perm.trans ?_ hset
  apply List.Perm.map
  rw [List.perm_ext_iff_of_nodup (List.Nodup.of_map _ d.nodup_keys)
    (List.Nodup.of_map _ ((d.erase k).set k w).nodup_keys)]
  intro entry
  obtain ⟨q, v⟩ := entry
  rw [← get?_eq_some_iff, ← get?_eq_some_iff, get?_set, get?_erase]
  by_cases hq : q = k
  · subst hq
    simp [hw]
  · simp [hq]

/-- Two keys of one value, where no value occurs twice. -/
theorem eq_of_values_nodup {d : Dict K V} {k q : K} (hnodup : d.values.Nodup)
    (hk : d.get? k = some v) (hq : d.get? q = some v) : k = q := by
  rw [get?_eq_some_iff] at hk hq
  exact congrArg Prod.fst (List.inj_on_of_nodup_map hnodup hk hq rfl)

/-! ## Updates by the entries of another dictionary -/

/-! ## Lists as values -/

section Lists

variable {α : Type} {d : Dict K (List α)} {k q : K} {list other : List α}

theorem flatten_values_erase (hlist : d.get? k = some list) :
    d.values.flatten.Perm (list ++ (d.erase k).values.flatten) := by
  have hvalues := values_erase_perm hlist
  have hflatten := hvalues.flatten
  rwa [List.flatten_cons] at hflatten

/-- A list is extended, or begun. -/
theorem flatten_values_set_append (d : Dict K (List α)) (k : K) (more : List α) :
    (d.set k ((d.get? k).getD [] ++ more)).values.flatten.Perm (more ++ d.values.flatten) := by
  have hset := flatten_values_erase (get?_set_self d k ((d.get? k).getD [] ++ more))
  rw [erase_set_self] at hset
  refine hset.trans ?_
  rcases hget : d.get? k with _ | list
  · rw [erase_of_not_mem (not_mem_keys_iff.mpr hget)]
    exact List.Perm.refl _
  · have herase := flatten_values_erase hget
    have hswap : (list ++ more ++ (d.erase k).values.flatten).Perm
        (more ++ list ++ (d.erase k).values.flatten) := List.perm_append_comm.append_right _
    rw [List.append_assoc more] at hswap
    exact hswap.trans (herase.symm.append_left more)

theorem nodup_of_flatten (hnodup : d.values.flatten.Nodup) (hlist : d.get? k = some list) :
    list.Nodup :=
  ((flatten_values_erase hlist).nodup_iff.mp hnodup).of_append_left

/-- The lists of two keys have nothing in common. -/
theorem disjoint_of_flatten (hnodup : d.values.flatten.Nodup) (hlist : d.get? k = some list)
    (hother : d.get? q = some other) (hne : q ≠ k) : list.Disjoint other := by
  have hdisjoint := List.disjoint_of_nodup_append ((flatten_values_erase hlist).nodup_iff.mp hnodup)
  have hrest : (d.erase k).get? q = some other := by rw [get?_erase, if_neg hne, hother]
  intro value hvalue hmem
  exact hdisjoint hvalue (List.mem_flatten_of_mem (mem_values_iff.mpr ⟨q, hrest⟩) hmem)

end Lists

/-! ## Sums over the values -/

section Sums

variable {M : Type} [AddCommMonoid M]

variable {w : V}

theorem sum_values_set_of_get? {d : Dict K V} {k : K} (v : V) (f : V → M) (hw : d.get? k = some w) :
    ((d.set k v).values.map f).sum + f w = (d.values.map f).sum + f v := by
  obtain ⟨entries, hnodup⟩ := d
  simp only [set, values, List.map_map]
  have hlookup : entries.lookup k = some w := hw
  clear hnodup hw
  induction entries with
  | nil => simp at hlookup
  | cons entry rest ih =>
      obtain ⟨k', v'⟩ := entry
      by_cases hk : k' = k
      · subst hk
        obtain rfl : v' = w := by simpa using hlookup
        simp only [setEntries, if_true, List.map_cons, List.sum_cons, Function.comp_apply]
        rw [add_right_comm, add_comm (f v), add_right_comm]
      · have hk' : k ≠ k' := fun heq => hk heq.symm
        rw [List.lookup_cons, beq_false_of_ne hk'] at hlookup
        simp only [setEntries, hk, if_false, List.map_cons, List.sum_cons, Function.comp_apply]
        rw [add_assoc, ih hlookup, add_assoc]

theorem sum_values_set_of_not_mem {d : Dict K V} {k : K} (v : V) (f : V → M)
    (hk : k ∉ d.keys) : ((d.set k v).values.map f).sum = (d.values.map f).sum + f v := by
  simp [values, entries_set_of_not_mem v hk]

theorem sum_values_erase {d : Dict K V} {k : K} (f : V → M) (hw : d.get? k = some w) :
    ((d.erase k).values.map f).sum + f w = (d.values.map f).sum := by
  obtain ⟨entries, hnodup⟩ := d
  simp only [erase, values, List.map_map]
  have hlookup : entries.lookup k = some w := hw
  clear hw
  induction entries with
  | nil => simp at hlookup
  | cons entry rest ih =>
      obtain ⟨k', v'⟩ := entry
      rw [List.map_cons, List.nodup_cons] at hnodup
      by_cases hk : k' = k
      · subst hk
        obtain rfl : v' = w := by simpa using hlookup
        -- the key occurs nowhere else
        have hrest : rest.filter (fun entry => entry.1 ≠ k') = rest := by
          apply List.filter_eq_self.mpr
          intro entry hentry
          simp only [ne_eq, decide_not, Bool.not_eq_eq_eq_not, Bool.not_true, decide_eq_false_iff_not]
          exact fun heq => hnodup.1 (List.mem_map.mpr ⟨entry, hentry, heq⟩)
        simp only [List.filter_cons, ne_eq, not_true_eq_false, decide_false, Bool.false_eq_true,
          if_false, List.map_cons, List.sum_cons, Function.comp_apply]
        rw [hrest, add_comm]
      · have hk' : k ≠ k' := fun heq => hk heq.symm
        rw [List.lookup_cons, beq_false_of_ne hk'] at hlookup
        simp only [List.filter_cons, ne_eq, hk, not_false_eq_true, decide_true, if_true,
          List.map_cons, List.sum_cons, Function.comp_apply]
        rw [add_assoc, ih hnodup.2 hlookup]

end Sums

end Dict
