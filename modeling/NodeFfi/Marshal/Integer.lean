import Mathlib.Algebra.Order.Ring.Nat
import NodeFfi.Marshal.Conversion

/-!
# Integer types

The type objects of the integers, and the values that they represent.
-/

namespace NodeFfi.Marshal

open Js Blocks Blocks.Memory

variable {E : Type} [Objects E]

/-- What `get` makes of the bytes that `set` leaves is the value again. -/
def RefType.Represents (type : RefType E) (value : Val E) : Prop :=
  ∃ bytes, type.encode value = .ok bytes ∧ type.decode bytes = .ok value

/-- The bytes of a number, the lowest first. -/
def leBytes : Nat → Nat → List Byte
  | 0, _ => []
  | size + 1, n => .raw (UInt8.ofNat n) :: leBytes size (n / 256)

@[simp] theorem length_leBytes (size n : Nat) : (leBytes size n).length = size := by
  induction size generalizing n with
  | zero => rfl
  | succ size ih => exact congrArg (· + 1) (ih (n / 256))

theorem littleEndian_leBytes {size n : Nat} (h : n < 256 ^ size) :
    littleEndian (leBytes size n) = n := by
  induction size generalizing n with
  | zero =>
    rw [Nat.pow_zero] at h
    exact (Nat.lt_one_iff.mp h).symm
  | succ size ih =>
    have hdiv : n / 256 < 256 ^ size := Nat.div_lt_of_lt_mul (by rwa [← Nat.pow_succ'])
    unfold leBytes littleEndian
    rw [ih hdiv, UInt8.toNat_ofNat']
    omega

/-- The integer that a type with this many values and this sign makes of a number. -/
def signedOf (signed : Bool) (values n : Nat) : Int :=
  if signed && values ≤ 2 * n then (n : Int) - values else n

/-- `ref.types.int8` to `ref.types.uint64`. -/
def RefType.int (size : Nat) (signed : Bool) : RefType E where
  size := size
  indirection := 1
  kind := .integer signed
  get bytes := .ok (.number (.finite (signedOf signed (256 ^ size) (littleEndian bytes)) 0))
  set value _ :=
    match value with
    | .number (.finite i 0) =>
      let n := (i % (256 ^ size : Nat)).toNat
      if signedOf signed (256 ^ size) n = i then .ok (leBytes size n)
      else .error (.object (Objects.typeError "\"value\" argument is out of bounds"))
    | _ => .error (.object (Objects.typeError "\"value\" argument must be a number"))
  void_size h := by cases h

theorem signedOf_emod {signed : Bool} {values n : Nat} (h : n < values) :
    (signedOf signed values n % (values : Int)).toNat = n := by
  have hmod : (n : Int) % (values : Int) = n := Int.emod_eq_of_lt (by omega) (by omega)
  unfold signedOf
  split
  · rw [Int.sub_emod_right, hmod]
    rfl
  · rw [hmod]
    rfl

theorem represents_int {size : Nat} {signed : Bool} {n : Nat} (h : n < 256 ^ size) :
    (RefType.int (E := E) size signed).Represents
      (.number (.finite (signedOf signed (256 ^ size) n) 0)) := by
  have hoverlay : overlay (List.replicate size .poison) 0 ((leBytes size n).take size) =
      leBytes size n := by
    unfold overlay
    rw [List.take_of_length_le (Nat.le_of_eq (length_leBytes size n))]
    simp
  have hset : ∀ old, (RefType.int (E := E) size signed).set
      (.number (.finite (signedOf signed (256 ^ size) n) 0)) old = .ok (leBytes size n) := by
    intro old
    simp only [RefType.int, signedOf_emod h, if_true]
  have hind : (RefType.int (E := E) size signed).indirection = 1 := rfl
  refine ⟨leBytes size n, ?_, ?_⟩
  · unfold RefType.encode RefType.overwrite
    rw [if_pos hind, hset]
    unfold RefType.cSize
    rw [if_pos hind]
    exact congrArg Except.ok hoverlay
  · unfold RefType.decode
    rw [if_pos hind]
    simp only [RefType.int, littleEndian_leBytes h]

end NodeFfi.Marshal
