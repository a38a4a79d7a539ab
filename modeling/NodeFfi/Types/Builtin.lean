import NodeFfi.Libffi.Describe

/-!
# The built-in types on an LP64 target

The scalar types of `ref`, the `ffi_type` that `ffi.js` sets on each, and their size and alignment
in C. A pointer is the one scalar more that a C type may contain.
-/

namespace NodeFfi.Types

open Libffi Layout

/-- `ref.types`, `void` apart. -/
inductive Builtin where
  | int8 | uint8 | int16 | uint16 | int32 | uint32 | int64 | uint64
  | float | double | object | cString
  | bool | byte | char | uchar | short | ushort | int | uint
  | long | ulong | longlong | ulonglong | sizeT
  deriving DecidableEq, Repr

/-- `FFI_TYPES`, as far as `ffi.js` sets it on types: the `ffi_type` structures of `types.c`. -/
inductive FfiTypeName where
  | uint8 | int8 | uint16 | int16 | uint32 | int32 | uint64 | int64
  | float | double | pointer
  deriving DecidableEq, Repr

def FfiTypeName.ffiType : FfiTypeName → FfiType
  | .float => ⟨4, 4, 2, none⟩
  | .double => ⟨8, 8, 3, none⟩
  | .uint8 => ⟨1, 1, 5, none⟩
  | .int8 => ⟨1, 1, 6, none⟩
  | .uint16 => ⟨2, 2, 7, none⟩
  | .int16 => ⟨2, 2, 8, none⟩
  | .uint32 => ⟨4, 4, 9, none⟩
  | .int32 => ⟨4, 4, 10, none⟩
  | .uint64 => ⟨8, 8, 11, none⟩
  | .int64 => ⟨8, 8, 12, none⟩
  | .pointer => ⟨8, 8, 14, none⟩

/-- The `ffi_type` property of a built-in type. `bool` and `byte` are made from `uint8` and have
its property; `ulonglong` and `longlong` are libffi's `ulong` and `slong`. -/
def Builtin.ffiTypeName : Builtin → FfiTypeName
  | .int8 | .char => .int8
  | .uint8 | .uchar | .bool | .byte => .uint8
  | .int16 | .short => .int16
  | .uint16 | .ushort => .uint16
  | .int32 | .int => .int32
  | .uint32 | .uint => .uint32
  | .int64 | .long | .longlong => .int64
  | .uint64 | .ulong | .ulonglong => .uint64
  | .float => .float
  | .double => .double
  | .object | .cString | .sizeT => .pointer

/-- `sizeof` and the alignment of a type that is aligned to its size. -/
def selfAligned (k : Nat) (hk : k < 16) : Extent where
  size := 2 ^ k
  align := 2 ^ k
  align_pow := ⟨k, hk, rfl⟩
  align_dvd := Nat.dvd_refl _

/-- Size and alignment in C. -/
def Builtin.extent : Builtin → Extent
  | .int8 | .uint8 | .bool | .byte | .char | .uchar => selfAligned 0 (by decide)
  | .int16 | .uint16 | .short | .ushort => selfAligned 1 (by decide)
  | .int32 | .uint32 | .int | .uint | .float => selfAligned 2 (by decide)
  | .int64 | .uint64 | .long | .ulong | .longlong | .ulonglong | .double => selfAligned 3 (by decide)
  | .object | .cString | .sizeT => selfAligned 3 (by decide)

/-- The scalars of C types. -/
inductive Scalar where
  | builtin (b : Builtin)
  | pointer
  deriving DecidableEq, Repr

def Scalar.ffiType : Scalar → FfiType
  | .builtin b => b.ffiTypeName.ffiType
  | .pointer => FfiTypeName.pointer.ffiType

def Scalar.extent : Scalar → Extent
  | .builtin b => b.extent
  | .pointer => selfAligned 3 (by decide)

theorem Scalar.ffiType_extent (s : Scalar) :
    s.ffiType.size ≠ 0 ∧ IsExtent s.ffiType s.extent := by
  cases s with
  | pointer => exact ⟨by decide, rfl, rfl⟩
  | builtin b => cases b <;> exact ⟨by decide, rfl, rfl⟩

theorem Scalar.extent_size_pos (s : Scalar) : 0 < s.extent.size := by
  cases s with
  | pointer => exact Nat.two_pow_pos 3
  | builtin b => cases b <;> exact Nat.two_pow_pos _

end NodeFfi.Types
