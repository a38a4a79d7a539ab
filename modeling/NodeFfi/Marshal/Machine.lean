import NodeFfi.Blocks.Memory
import NodeFfi.Js.Basic

/-!
# The machine of the marshalling code

The state that the JavaScript of a proxy or a callback and the C++ under it work on: the memory of
the Buffers they allocate, the queues of the event loop, and an exception that C++ has thrown and
JavaScript has not yet seen. Everything else, in particular the memory that the program's own
pointers lead to, is `world`; the user's functions act on it alone.

`RefType` is what the code asks of a type object: `size`, `indirection`, `get` and `set`, and the
class of its `ffi_type`. The functions of `ref` are those for a type object, with the check that
Node's accessors make of the length of a Buffer.
-/

namespace NodeFfi.Marshal

open Js Blocks

/-- An object of JavaScript, as far as it matters here: a Buffer is the address it is around. -/
inductive Obj (E : Type) where
  | buffer (p : Ptr)
  | other (e : E)
  deriving DecidableEq, Repr

abbrev Val (E : Type) := Value (Obj E)

/-- The message of a Buffer is a property like any other. -/
instance {E : Type} [Objects E] : Objects (Obj E) where
  typeError text := .other (Objects.typeError text)
  rangeError text := .other (Objects.rangeError text)
  error text := .other (Objects.error text)
  annotate text
    | .buffer p => .ok (.buffer p)
    | .other e =>
      match Objects.annotate text e with
      | .ok e => .ok (.other e)
      | .error v => .error (v.map .other)

/-- How libffi passes and returns values of a type. -/
inductive Kind where
  | void
  | integer (signed : Bool)
  /-- Floating point, structures and pointers. -/
  | plain
  deriving DecidableEq, Repr

/-- A type object. The `size` of a pointer type is that of what it points to, which it inherits. -/
structure RefType (E : Type) where
  size : Nat
  indirection : Nat
  kind : Kind
  get : List Byte → Except (Val E) (Val E)
  /-- The bytes that `set` leaves in place of the old ones. -/
  set : Val E → List Byte → Except (Val E) (List Byte)
  void_size : kind = .void → size = 0

/-- A Buffer as the library holds it. -/
structure Buffer where
  data : Ptr
  length : Nat
  deriving DecidableEq, Repr

/-- The return type and the argument types of an `ffi_cif`, each with its size. -/
structure Cif where
  rtype : Kind × Nat
  atypes : List Nat

/-- Functions that `process.nextTick` was given. -/
inductive Tick (E : Type) where
  /-- Of `errorReportCallback`, which throws the value. -/
  | throwError (err : Val E)
  /-- `callback.bind(null, e)`. -/
  | callback (callback : Nat) (e : Val E)
  deriving DecidableEq, Repr

inductive Event (E : Type) where
  /-- A native function runs, for the call with this result buffer. -/
  | native (result : Ptr)
  /-- The user's function of a callback runs. -/
  | apply (arguments : List (Val E))
  /-- The callback of an asynchronous call runs. -/
  | callback (callback : Nat) (arguments : List (Val E))
  /-- An exception reaches the event loop. -/
  | uncaught (e : Val E)
  deriving DecidableEq, Repr

structure Machine (E W : Type) where
  memory : Memory
  world : W
  /-- The exception of `Nan::ThrowError` until control is back in JavaScript. -/
  pending : Option (Val E)
  ticks : List (Tick E)
  log : List (Event E)

/-- What JavaScript does. -/
abbrev Script (E W α : Type) := Js (Machine E W) (Val E) α

/-- What native code does; it cannot throw. -/
abbrev Native (E W α : Type) := Machine E W → α × Machine E W

variable {E W : Type}

namespace Machine

def setMemory (m : Machine E W) (memory : Memory) : Machine E W := { m with memory := memory }

def setWorld (m : Machine E W) (world : W) : Machine E W := { m with world := world }

def logEvent (m : Machine E W) (event : Event E) : Machine E W :=
  { m with log := m.log ++ [event] }

end Machine

/-! ### Memory -/

section memory

variable {ε : Type}

def newBuffer (size : Nat) : Js (Machine E W) ε Buffer :=
  Js.step fun m => (⟨(m.memory.alloc size).1, size⟩, m.setMemory (m.memory.alloc size).2)

def readBytes (p : Ptr) (offset length : Nat) : Js (Machine E W) ε (List Byte) :=
  Js.step fun m =>
    ((m.memory.read p offset length).1, m.setMemory (m.memory.read p offset length).2)

def writeBytes (p : Ptr) (offset : Nat) (bytes : List Byte) : Js (Machine E W) ε Unit :=
  Js.modify fun m => m.setMemory (m.memory.write p offset bytes)

/-- `ref.readPointer(buffer, offset)`. -/
def readPointer (p : Ptr) (offset : Nat) : Js (Machine E W) ε Ptr :=
  Js.step fun m =>
    ((m.memory.readPointer p offset).1, m.setMemory (m.memory.readPointer p offset).2)

/-- `ref.writePointer(buffer, offset, q)`. -/
def writePointer (p : Ptr) (offset : Nat) (q : Ptr) : Js (Machine E W) ε Unit :=
  Js.modify fun m => m.setMemory (m.memory.writePointer p offset q)

variable {m : Machine E W} {p q : Ptr} {offset : Nat}

theorem newBuffer_eq (size : Nat) : (newBuffer size : Js (Machine E W) ε Buffer) m =
    (.ok ⟨.block m.memory.next, size⟩,
      m.setMemory (m.memory.place (List.replicate size .poison))) := rfl

theorem readBytes_eq {bytes : List Byte} {length : Nat}
    (h : m.memory.read p offset length = (bytes, m.memory)) :
    (readBytes p offset length : Js (Machine E W) ε _) m = (.ok bytes, m) := by
  unfold readBytes
  rw [Js.step_apply, h]
  rfl

theorem writeBytes_eq {bytes : List Byte} {memory : Memory}
    (h : m.memory.write p offset bytes = memory) :
    (writeBytes p offset bytes : Js (Machine E W) ε _) m = (.ok (), m.setMemory memory) := by
  unfold writeBytes
  rw [Js.modify_apply, h]

theorem readPointer_eq (h : m.memory.readPointer p offset = (q, m.memory)) :
    (readPointer p offset : Js (Machine E W) ε _) m = (.ok q, m) := by
  unfold readPointer
  rw [Js.step_apply, h]
  rfl

theorem writePointer_eq {memory : Memory} (h : m.memory.writePointer p offset q = memory) :
    (writePointer p offset q : Js (Machine E W) ε _) m = (.ok (), m.setMemory memory) := by
  unfold writePointer
  rw [Js.modify_apply, h]

end memory

/-! ### `ref` -/

section ref

variable [Objects E]

def throwRangeError {α : Type} : Script E W α :=
  Js.throw (.object (Objects.rangeError "Trying to access beyond buffer length"))

/-- `ref.get(buffer, 0, type)`. -/
def refGet (buffer : Buffer) (type : RefType E) : Script E W (Val E) :=
  if type.indirection = 1 then
    if buffer.length < type.size then throwRangeError
    else do
      let bytes ← readBytes buffer.data 0 type.size
      Js.ofExcept (type.get bytes)
  else do
    let p ← readPointer buffer.data 0
    return .object (.buffer p)

/-- The pointer that `ref.writePointer` writes for a value. -/
def toPointer : Val E → Except (Val E) Ptr
  | .object (.buffer p) => .ok p
  | .null => .ok .null
  | _ => .error (.object (Objects.typeError
      "writePointer: Buffer instance expected as third argument"))

/-- `ref.set(buffer, 0, value, type)`. A `set` writes within the bytes of the type. -/
def refSet (buffer : Buffer) (value : Val E) (type : RefType E) : Script E W Unit :=
  if type.indirection = 1 then
    if buffer.length < type.size then throwRangeError
    else do
      let old ← readBytes buffer.data 0 type.size
      let bytes ← Js.ofExcept (type.set value old)
      writeBytes buffer.data 0 (bytes.take type.size)
  else do
    let p ← Js.ofExcept (toPointer value)
    writePointer buffer.data 0 p

/-- The bytes that a value of the type takes: for a pointer type one pointer. -/
def RefType.cSize (type : RefType E) : Nat :=
  if type.indirection = 1 then type.size else pointerSize

/-- `ref.alloc(type, value)`. -/
def refAlloc (type : RefType E) (value : Val E) : Script E W Buffer := do
  let buffer ← newBuffer type.cSize
  refSet buffer value type
  return buffer

end ref

end NodeFfi.Marshal
