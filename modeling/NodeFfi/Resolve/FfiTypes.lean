import NodeFfi.Resolve.Prepare
import NodeFfi.Types.DataModel

/-!
# The table of libffi's types

What the entries of `FFI_TYPES` are on each data model: the structures of `types.c` that `ffi.cc`
puts into it, by way of the macros of `ffi.h`. `ulonglong` and `longlong` are libffi's `ulong` and
`slong`, which have the size of a C `long`.
-/

namespace NodeFfi.Resolve

open Types

/-- The structures of `types.c`. -/
inductive LibffiType where
  | void | uint8 | sint8 | uint16 | sint16 | uint32 | sint32 | uint64 | sint64
  | float | double | pointer
  deriving DecidableEq, Repr

/-- `WrapPointer(&ffi_type_...)`. -/
def FfiName.libffiType (m : DataModel) : FfiName → LibffiType
  | .void => .void
  | .uint8 | .uchar => .uint8
  | .int8 | .char => .sint8
  | .uint16 | .ushort => .uint16
  | .int16 | .short => .sint16
  | .uint32 | .uint => .uint32
  | .int32 | .int => .sint32
  | .uint64 => .uint64
  | .int64 => .sint64
  | .float => .float
  | .double => .double
  | .pointer => .pointer
  | .ulonglong => if m.longSize = 4 then .uint32 else .uint64
  | .longlong => if m.longSize = 4 then .sint32 else .sint64

namespace LibffiType

/-- `sizeof`; that of `void` is made up. -/
def size (m : DataModel) : LibffiType → BitVec 64
  | .void | .uint8 | .sint8 => 1
  | .uint16 | .sint16 => 2
  | .uint32 | .sint32 | .float => 4
  | .uint64 | .sint64 | .double => 8
  | .pointer => .ofNat 64 m.pointerSize

/-- The alignment; `wide` is that of a scalar of 64 bits, on which the ABIs of ILP32 do not
agree. -/
def alignment (m : DataModel) (wide : BitVec 16) : LibffiType → BitVec 16
  | .void | .uint8 | .sint8 => 1
  | .uint16 | .sint16 => 2
  | .uint32 | .sint32 | .float => 4
  | .uint64 | .sint64 | .double => wide
  | .pointer => .ofNat 16 m.pointerSize

/-- `FFI_TYPE_VOID` to `FFI_TYPE_POINTER`. -/
def number : LibffiType → BitVec 16
  | .void => 0
  | .float => 2
  | .double => 3
  | .uint8 => 5
  | .sint8 => 6
  | .uint16 => 7
  | .sint16 => 8
  | .uint32 => 9
  | .sint32 => 10
  | .uint64 => 11
  | .sint64 => 12
  | .pointer => 14

theorem size_ne (m : DataModel) (t : LibffiType) : t.size m ≠ 0 := by
  cases m <;> cases t <;> decide

end LibffiType

def staticTypes (m : DataModel) (wide : BitVec 16) : StaticTypes where
  cell name :=
    ⟨(name.libffiType m).size m, (name.libffiType m).alignment m wide,
      (name.libffiType m).number, none⟩
  size_ne name := (name.libffiType m).size_ne m

end NodeFfi.Resolve
