import NodeFfi.Marshal.Call
import NodeFfi.Types.DataModel

/-!
# The size of the result buffer

`resultSize` of `_foreign_function.js` on every data model. It is made of three numbers: the size
of the return type, which a pointer type has from its pointee, the size of a `long`, and libffi's
`ffi_arg`. libffi stores a whole `ffi_arg` for an integer or a pointer. Where a `long` is smaller
than that, a return type between the two gets a buffer of its own size
(`result_buffer_enough_iff`).
-/

namespace NodeFfi.Marshal

open Types

/-- The return types, with what decides about the buffer. -/
inductive ReturnType where
  | void
  | builtin (b : Builtin)
  /-- `ref.refType(type)`. -/
  | refType (type : ReturnType)
  /-- A `ref-struct` type. Its size in C is its `size`. -/
  | structType (size : Nat)
  /-- A `ref-array` type. -/
  | arrayType (size : Nat)
  /-- An `ffi.Function` type. -/
  | function
  deriving Repr

namespace ReturnType

variable (m : DataModel)

/-- The property `size`. -/
def size : ReturnType → Nat
  | .void => 0
  | .builtin b => b.size m
  | .refType type => type.size
  | .structType size | .arrayType size => size
  | .function => m.pointerSize

/-- libffi stores the value as an `ffi_arg`: the integers and everything that `Type` makes a
pointer of. -/
def asFfiArg : ReturnType → Bool
  | .void | .structType _ | .builtin .float | .builtin .double => false
  | .builtin _ | .refType _ | .arrayType _ | .function => true

/-- How many bytes `ffi_call` stores at most; an integer wider than `ffi_arg` is stored whole. -/
def storedSize : ReturnType → Nat
  | .refType _ | .arrayType _ | .function => m.ffiArgSize
  | .builtin b =>
    if asFfiArg (.builtin b) then max (b.size m) m.ffiArgSize else b.size m
  | type => type.size m

/-- How many bytes `result.deref()` reads. -/
def derefSize : ReturnType → Nat
  | .refType _ => m.pointerSize
  | type => type.size m

end ReturnType

/-- `resultSize`, by the `size` of the return type. -/
def resultSize (m : DataModel) (size : Nat) : Nat :=
  if size ≥ m.longSize then size else m.ffiArgSize

/-- What is stored into the buffer of a return type, and what is read from it, fits. -/
def Enough (m : DataModel) (type : ReturnType) : Prop :=
  type.storedSize m ≤ resultSize m (type.size m) ∧ type.derefSize m ≤ resultSize m (type.size m)

theorem size_le_resultSize (m : DataModel) (size : Nat) : size ≤ resultSize m size := by
  by_cases h : size ≥ m.longSize
  · rw [resultSize, if_pos h]
  · rw [resultSize, if_neg h]
    cases m <;> simp only [DataModel.longSize, DataModel.ffiArgSize] at h ⊢ <;> omega

theorem ffiArgSize_le_resultSize_iff (m : DataModel) (size : Nat) :
    m.ffiArgSize ≤ resultSize m size ↔ (m = .llp64 → size < 4 ∨ 8 ≤ size) := by
  by_cases h : size ≥ m.longSize
  · rw [resultSize, if_pos h]
    cases m <;> simp [DataModel.longSize, DataModel.ffiArgSize] at h ⊢ <;> omega
  · rw [resultSize, if_neg h]
    cases m <;> simp [DataModel.longSize, DataModel.ffiArgSize] at h ⊢
    omega

theorem pointerSize_eq_ffiArgSize (m : DataModel) : m.pointerSize = m.ffiArgSize := by
  cases m <;> rfl

/-- **When the result buffer is large enough.** For every return type on every data model, except
on LLP64 for an integer, a pointer or an array whose `size` is from 4 to 7. -/
theorem result_buffer_enough_iff (m : DataModel) (type : ReturnType) :
    Enough m type ↔
      (m = .llp64 → type.asFfiArg = true → type.size m < 4 ∨ 8 ≤ type.size m) := by
  have hsize := size_le_resultSize m (type.size m)
  have harg := ffiArgSize_le_resultSize_iff m (type.size m)
  unfold Enough
  cases type with
  | void | structType size =>
    refine ⟨fun _ _ h => ?_, fun _ => ⟨hsize, hsize⟩⟩
    cases h
  | arrayType size | function =>
    simp only [ReturnType.asFfiArg, forall_const]
    exact ⟨fun h => harg.mp h.1, fun h => ⟨harg.mpr h, hsize⟩⟩
  | refType type =>
    simp only [ReturnType.asFfiArg, forall_const]
    refine ⟨fun h => harg.mp h.1, fun h => ⟨harg.mpr h, ?_⟩⟩
    show m.pointerSize ≤ _
    rw [pointerSize_eq_ffiArgSize]
    exact harg.mpr h
  | builtin b =>
    by_cases hb : ReturnType.asFfiArg (.builtin b) = true
    · simp only [ReturnType.storedSize, hb, forall_const]
      exact ⟨fun h => harg.mp ((Nat.le_max_right _ _).trans h.1),
        fun h => ⟨Nat.max_le.mpr ⟨hsize, harg.mpr h⟩, hsize⟩⟩
    · simp only [ReturnType.storedSize, if_neg hb]
      exact ⟨fun _ _ h => absurd h hb, fun _ => ⟨hsize, hsize⟩⟩

/-- An `int` on LLP64 has a buffer of 4 bytes, and libffi stores 8. -/
theorem result_buffer_overrun :
    resultSize .llp64 ((ReturnType.builtin .int).size .llp64) = 4 ∧
      (ReturnType.builtin .int).storedSize .llp64 = 8 ∧
      ¬ Enough .llp64 (.builtin .int) := by
  refine ⟨rfl, rfl, fun h => ?_⟩
  exact absurd h.1 (by decide)

end NodeFfi.Marshal
