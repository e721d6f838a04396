import Mathlib.Tactic.Positivity
import Mathlib.Data.List.GetD
import Mathlib.Tactic.Linarith

/-!
# Integers packed into bytes

An integer array is stored as its items one after the other, each in a fixed
number of bytes, least significant byte first.  Packing is injective on the
items that fit, and unpacking gives the items back.
-/

namespace Packing

/-- The low `width` bytes of `value`, least significant first. -/
def toBytes : ℕ → ℕ → List UInt8
  | 0, _ => []
  | width + 1, value => UInt8.ofNat (value % 256) :: toBytes width (value / 256)

/-- The number whose bytes these are, least significant first. -/
def ofBytes : List UInt8 → ℕ
  | [] => 0
  | byte :: rest => byte.toNat + 256 * ofBytes rest

@[simp] theorem length_toBytes (width value : ℕ) : (toBytes width value).length = width := by
  induction width generalizing value with
  | zero => rfl
  | succ width ih => simp [toBytes, ih]

variable {width : ℕ}

theorem ofBytes_toBytes {value : ℕ} (hvalue : value < 256 ^ width) :
    ofBytes (toBytes width value) = value := by
  induction width generalizing value with
  | zero =>
      have hzero : value = 0 := by simpa using hvalue
      simp [toBytes, ofBytes, hzero]
  | succ width ih =>
      have hrest : value / 256 < 256 ^ width := by
        rw [pow_succ] at hvalue
        exact Nat.div_lt_of_lt_mul (by rwa [Nat.mul_comm] at hvalue)
      have hbyte : (UInt8.ofNat (value % 256)).toNat = value % 256 :=
        UInt8.toNat_ofNat_of_lt' (Nat.mod_lt _ (by decide))
      rw [toBytes, ofBytes, ih hrest, hbyte]
      exact Nat.mod_add_div value 256

/-- `array(code, values).tobytes()`. -/
def pack (width : ℕ) (values : List ℕ) : List UInt8 := values.flatMap (toBytes width)

/-- `array(code).frombytes(bytes)`.  The bytes must be a whole number of
items. -/
def unpack (width : ℕ) (bytes : List UInt8) : Option (List ℕ) :=
  if bytes.length % width ≠ 0 then none
  else some ((List.range (bytes.length / width)).map fun item =>
    ofBytes ((bytes.drop (width * item)).take width))

@[simp] theorem length_pack (width : ℕ) (values : List ℕ) :
    (pack width values).length = width * values.length := by
  induction values with
  | nil => simp [pack]
  | cons value rest ih =>
      simp only [pack, List.flatMap_cons, List.length_append, length_toBytes, List.length_cons] at ih ⊢
      rw [ih, Nat.mul_succ, Nat.add_comm]

/-- The bytes of one item of a packed array. -/
private theorem take_drop_pack (width : ℕ) (values : List ℕ) {item : ℕ} (hitem : item < values.length) :
    ((pack width values).drop (width * item)).take width = toBytes width (values.getD item 0) := by
  induction values generalizing item with
  | nil => simp at hitem
  | cons value rest ih =>
      have hpack : pack width (value :: rest) = toBytes width value ++ pack width rest := by
        simp [pack]
      cases item with
      | zero =>
          rw [hpack]
          simp
      | succ item =>
          have hdrop : (pack width (value :: rest)).drop (width * (item + 1)) =
              (pack width rest).drop (width * item) := by
            rw [hpack, Nat.mul_succ, Nat.add_comm, ← List.drop_drop]
            simp
          rw [hdrop, ih (by simpa using hitem)]
          simp

/-- Unpacking gives the packed items back. -/
theorem unpack_pack (hwidth : 0 < width) {values : List ℕ} (hfit : ∀ value ∈ values, value < 256 ^ width) :
    unpack width (pack width values) = some values := by
  have hlength : (pack width values).length / width = values.length := by
    rw [length_pack, Nat.mul_div_cancel_left _ hwidth]
  have hmod : (pack width values).length % width = 0 := by
    rw [length_pack, Nat.mul_mod_right]
  unfold unpack
  rw [if_neg (not_not.mpr hmod), hlength]
  congr 1
  apply List.ext_getElem
  · simp
  · intro item hleft hright
    rw [List.getElem_map, List.getElem_range, take_drop_pack width values hright, List.getD_eq_getElem _ _ hright]
    exact ofBytes_toBytes (hfit _ (List.getElem_mem hright))

/-- The two's complement of an integer in `width` bytes. -/
def twosComplement (width : ℕ) (value : ℤ) : ℕ := (value % 256 ^ width).toNat

/-- The integers that fit a signed item of `width` bytes. -/
def FitsSigned (width : ℕ) (value : ℤ) : Prop :=
  -(256 ^ width) ≤ 2 * value ∧ 2 * value < 256 ^ width

instance (width : ℕ) (value : ℤ) : Decidable (FitsSigned width value) :=
  inferInstanceAs (Decidable (_ ∧ _))

theorem twosComplement_lt (width : ℕ) (value : ℤ) :
    twosComplement width value < 256 ^ width := by
  have hpos : (0 : ℤ) < 256 ^ width := by positivity
  have hlt := Int.emod_lt_of_pos value hpos
  have hnonneg := Int.emod_nonneg value hpos.ne'
  have hcast : ((256 ^ width : ℕ) : ℤ) = 256 ^ width := by push_cast; rfl
  unfold twosComplement
  omega

theorem twosComplement_inj {first second : ℤ} (hfirst : FitsSigned width first) (hsecond : FitsSigned width second)
    (heq : twosComplement width first = twosComplement width second) : first = second := by
  have hpos : (0 : ℤ) < 256 ^ width := by positivity
  have hmod : first % 256 ^ width = second % 256 ^ width := by
    have h₁ := Int.emod_nonneg first hpos.ne'
    have h₂ := Int.emod_nonneg second hpos.ne'
    unfold twosComplement at heq
    omega
  obtain ⟨hlow₁, hhigh₁⟩ := hfirst
  obtain ⟨hlow₂, hhigh₂⟩ := hsecond
  -- the two differ by a multiple of the modulus and by less than the modulus
  have hdvd : (256 ^ width : ℤ) ∣ first - second := by
    apply Int.dvd_of_emod_eq_zero
    rw [Int.sub_emod, hmod, sub_self, Int.zero_emod]
  obtain ⟨factor, hfactor⟩ := hdvd
  have hzero : factor = 0 := by
    by_contra hne
    rcases lt_or_gt_of_ne hne with hneg | hpos'
    · nlinarith
    · nlinarith
  rw [hzero, mul_zero] at hfactor
  omega

/-- The bytes of an array of signed items. -/
def packSigned (width : ℕ) (values : List ℤ) : List UInt8 :=
  pack width (values.map (twosComplement width))

/-- Two arrays of signed items with the same bytes are the same array. -/
theorem packSigned_inj (hwidth : 0 < width) {first second : List ℤ} (hfirst : ∀ value ∈ first, FitsSigned width value)
    (hsecond : ∀ value ∈ second, FitsSigned width value)
    (heq : packSigned width first = packSigned width second) : first = second := by
  have hlist : first.map (twosComplement width) = second.map (twosComplement width) := by
    have hfit : ∀ values : List ℤ, ∀ value ∈ values.map (twosComplement width), value < 256 ^ width := by
      intro values value hmem
      obtain ⟨item, -, rfl⟩ := List.mem_map.mp hmem
      exact twosComplement_lt width item
    have h₁ := unpack_pack hwidth (hfit first)
    have h₂ := unpack_pack hwidth (hfit second)
    unfold packSigned at heq
    rw [heq, h₂] at h₁
    exact (Option.some.inj h₁).symm
  clear heq
  induction first generalizing second with
  | nil => exact (by simpa using hlist.symm : second = []).symm
  | cons value rest ih =>
      cases second with
      | nil => simp at hlist
      | cons value' rest' =>
          rw [List.map_cons, List.map_cons, List.cons.injEq] at hlist
          have hhead : value = value' :=
            twosComplement_inj (hfirst value (by simp)) (hsecond value' (by simp)) hlist.1
          have htail : rest = rest' :=
            ih (fun v hv => hfirst v (by simp [hv])) (fun v hv => hsecond v (by simp [hv])) hlist.2
          rw [hhead, htail]

end Packing
