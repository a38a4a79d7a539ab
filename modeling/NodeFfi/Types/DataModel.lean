import NodeFfi.Types.Builtin

/-!
# Data models

What differs between the targets that the build supports: the sizes of a pointer, of a `long` and
of libffi's `ffi_arg`. The other built-in types have the same size on all of them.
-/

namespace NodeFfi.Types

inductive DataModel where
  | lp64
  | ilp32
  /-- 64-bit Windows. -/
  | llp64
  deriving DecidableEq, Repr

namespace DataModel

/-- `ref.sizeof.pointer`. -/
def pointerSize : DataModel → Nat
  | .lp64 | .llp64 => 8
  | .ilp32 => 4

theorem pointerSize_pos (m : DataModel) : 0 < m.pointerSize := by
  cases m <;> decide

/-- `ref.sizeof.long`. -/
def longSize : DataModel → Nat
  | .lp64 => 8
  | .ilp32 | .llp64 => 4

/-- `FFI_ARG_SIZE`. -/
def ffiArgSize : DataModel → Nat
  | .lp64 | .llp64 => 8
  | .ilp32 => 4

end DataModel

/-- The `size` of a built-in type. -/
def Builtin.size (m : DataModel) : Builtin → Nat
  | .int8 | .uint8 | .bool | .byte | .char | .uchar => 1
  | .int16 | .uint16 | .short | .ushort => 2
  | .int32 | .uint32 | .int | .uint | .float => 4
  | .int64 | .uint64 | .longlong | .ulonglong | .double => 8
  | .long | .ulong => m.longSize
  | .object | .cString | .sizeT => m.pointerSize

end NodeFfi.Types
