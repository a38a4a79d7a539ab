import NodeFfi.Js.Program
import NodeFfi.Marshal.RoundTrip

/-!
# Functions as values

`ffi.Function` of `lib/function.js`: its `set` stores the code address of a new callback for a
function, and its `get` makes a foreign function of the address that it reads. A foreign function
that is called hands its arguments over as bytes, those of a function type by `set`, and a callback
takes them by `get`, so that a call of the one around the other wraps and unwraps on both sides.

A Buffer that a call allocates is represented by its contents, which `RefType.encode` and
`RefType.decode` are for the types of `ref`. The functions of the program and those of other
libraries are `Program`s, which call each other by way of `call` and `invoke`.
-/

namespace NodeFfi.FunctionType

open Js Blocks
open Marshal (RefType Kind settingArgument settingReturnValue fit)

/-- A type: one of `ref`, or an `ffi.Function`. -/
inductive CType (T A : Type) where
  | ref (type : T)
  | function (retType : CType T A) (argTypes : List (CType T A)) (abi : A)

/-- `ffi.Function(retType, argTypes, abi)`. -/
structure Function (T A : Type) where
  retType : CType T A
  argTypes : List (CType T A)
  abi : A

def Function.type {T A : Type} (F : Function T A) : CType T A :=
  .function F.retType F.argTypes F.abi

/-- The objects of the program. -/
inductive Object (T A K X : Type) where
  /-- A function of the program, with the variables that it closes over. -/
  | function (k : K)
  /-- `ForeignFunction(funcPtr, retType, argTypes, abi)`. -/
  | foreignFunction (funcPtr : Ptr) (type : Function T A)
  | other (x : X)

variable {T A K X W : Type}

instance [Objects X] : Objects (Object T A K X) where
  typeError text := .other (Objects.typeError text)
  rangeError text := .other (Objects.rangeError text)
  error text := .other (Objects.error text)
  annotate text
    | .other x =>
      match Objects.annotate text x with
      | .ok x => .ok (.other x)
      | .error v => .error (v.map .other)
    | function => .ok function

abbrev Val (T A K X : Type) := Marshal.Val (Object T A K X)

/-- `typeof value == 'function'`. -/
def isFunction : Val T A K X → Bool
  | .object (.other (.function _)) | .object (.other (.foreignFunction _ _)) => true
  | _ => false

/-- An `ffi_cif`. -/
structure Cif (A : Type) where
  abi : A
  rtype : Kind × Nat
  atypes : List (Kind × Nat)
  deriving DecidableEq

/-- What a function of the program asks for. -/
inductive Request (T A K X : Type) where
  /-- `f.apply(null, args)`. -/
  | apply (f : Val T A K X) (args : List (Val T A K X))
  /-- `F.set(buffer, offset, value)`. -/
  | set (F : Function T A) (buffer : Ptr) (offset : Nat) (value : Val T A K X)
  /-- `F.get(buffer, offset)`. -/
  | get (F : Function T A) (buffer : Ptr) (offset : Nat)

/-- A call by native code. -/
structure NativeCall (A : Type) where
  cif : Cif A
  funcPtr : Ptr
  arguments : List (List Byte)

/-- What the library is used with. -/
structure Env (T A K X W : Type) where
  refType : T → RefType (Object T A K X)
  code : K → List (Val T A K X) →
    Program (Request T A K X) (Except (Val T A K X) (Val T A K X)) W
      (Except (Val T A K X) (Val T A K X))
  /-- The functions of other libraries, by their addresses. -/
  native : Nat → List (List Byte) → Program (NativeCall A) (List Byte) W (List Byte)
  /-- `'' + value`. -/
  text : Val T A K X → Except (Val T A K X) String

/-- `callback_info`. -/
structure CallbackInfo (T A K X : Type) where
  type : Function T A
  function : Val T A K X

structure State (T A K X W : Type) where
  memory : Memory
  /-- The callbacks, by the block that their code is in. -/
  closures : Nat → Option (CallbackInfo T A K X)
  /-- The exception of a callback until control is back in JavaScript. -/
  pending : Option (Val T A K X)
  world : W

abbrev Script (T A K X W α : Type) := Js (State T A K X W) (Stop (Val T A K X)) α

/-- `sizeof(ffi_closure)`. -/
def closureSize : Nat := 32

section library

variable [Objects X] (env : Env T A K X W)

/-! ### `function.js` -/

/-- `Callback(retType, argTypes, abi, func)`: the Buffer is around the code address. -/
def Callback (type : Function T A) (func : Val T A K X) : Script T A K X W Ptr :=
  if isFunction func then
    Js.step fun s => ((s.memory.alloc closureSize).1,
      { s with
        memory := (s.memory.alloc closureSize).2
        closures := Function.update s.closures s.memory.next (some ⟨type, func⟩) })
  else Js.throw (.thrown (.object (Objects.error "expected a function as the third argument")))

namespace Function

variable (F : Function T A)

def toPointer (fn : Val T A K X) : Script T A K X W Ptr := Callback F fn

def toFunction (buf : Ptr) : Val T A K X := .object (.other (.foreignFunction buf F))

/-- The pointer that `set` writes. -/
def pointerTo (value : Val T A K X) : Script T A K X W Ptr :=
  if isFunction value then F.toPointer value
  else
    match value with
    | .object (.buffer p) => pure p
    | value => do
      let text ← Js.resume (env.text value)
      Js.throw (.thrown (.object (Objects.error
        ("don't know how to set callback function for: " ++ text))))

def set (buffer : Ptr) (offset : Nat) (value : Val T A K X) : Script T A K X W Unit := do
  let ptr ← F.pointerTo env value
  Js.modify fun s => { s with memory := s.memory.writePointer buffer offset ptr }

def get (buffer : Ptr) (offset : Nat) : Script T A K X W (Val T A K X) := do
  let ptr ← Js.step fun s =>
    ((s.memory.readPointer buffer offset).1,
      { s with memory := (s.memory.readPointer buffer offset).2 })
  return F.toFunction ptr

end Function

/-! ### The contents of Buffers -/

namespace CType

/-- The size in C, and how libffi passes it. -/
def ffiType : CType T A → Kind × Nat
  | .ref type => (env.refType type).ffiType
  | .function _ _ _ => (.plain, pointerSize)

/-- The contents of the Buffer that `ref.alloc(type, value)` makes. -/
def encode : CType T A → Val T A K X → Script T A K X W (List Byte)
  | .ref type, value => Js.resume ((env.refType type).encode value)
  | .function retType argTypes abi, value => do
    let ptr ← Function.pointerTo env ⟨retType, argTypes, abi⟩ value
    return encodePtr ptr

/-- What `ref.get` makes of the contents of a Buffer. -/
def decode : CType T A → List Byte → Except (Val T A K X) (Val T A K X)
  | .ref type, bytes => (env.refType type).decode bytes
  | .function retType argTypes abi, bytes =>
    .ok (Function.toFunction ⟨retType, argTypes, abi⟩ (decodePtr bytes))

end CType

/-- `CIF(retType, argTypes, abi)`. -/
def Function.cif (F : Function T A) : Cif A :=
  ⟨F.abi, F.retType.ffiType env, F.argTypes.map (CType.ffiType env)⟩

/-! ### `_foreign_function.js` -/

/-- The loop that writes the arguments. -/
def setArguments : Nat → List (CType T A) → List (Val T A K X) → Script T A K X W (List (List Byte))
  | i, argType :: argTypes, val :: vals => do
    let bytes ← Js.catchThrown (argType.encode env val) fun e =>
      Js.throw (.thrown (annotated (settingArgument i) e))
    let rest ← setArguments (i + 1) argTypes vals
    return bytes :: rest
  | _, _, _ => pure []

/-- An exception of a callback is thrown on the return to JavaScript. -/
def takePending : Script T A K X W Unit := fun s =>
  match s.pending with
  | some e => (.error (.thrown e), { s with pending := none })
  | none => (.ok (), s)

/-- `proxy(...args)`, with the calls of native code. -/
def proxy (invoke : NativeCall A → Script T A K X W (List Byte)) (funcPtr : Ptr) (F : Function T A)
    (args : List (Val T A K X)) : Script T A K X W (Val T A K X) :=
  if args.length ≠ F.argTypes.length then
    Js.throw (.thrown (.object (Objects.typeError ("Expected " ++ toString F.argTypes.length ++
      " arguments, got " ++ toString args.length))))
  else do
    let arguments ← setArguments env 0 F.argTypes args
    let result ← invoke ⟨F.cif env, funcPtr, arguments⟩
    takePending
    Js.resume (F.retType.decode env (fit (F.retType.ffiType env).2 result))

/-! ### `callback.js` -/

/-- The loop that reads the arguments. -/
def getArguments : List (CType T A) → List (List Byte) →
    Except (Val T A K X) (List (Val T A K X))
  | type :: argTypes, bytes :: rest =>
    match type.decode env bytes with
    | .error e => .error e
    | .ok value => (getArguments argTypes rest).map (value :: ·)
  | _, _ => .ok []

/-- What `DispatchToV8` does with the value that the function of the callback returns. -/
def report (e : Val T A K X) : Script T A K X W Unit :=
  Js.modify fun s =>
    match e with
    | .undefined => s
    | e => { s with pending := some e }

/-- A call of the code address of a callback, with the calls of functions. Of an exception, C gets
a return area that nothing has been written to. -/
def CallbackInfo.invoke (call : Val T A K X → List (Val T A K X) → Script T A K X W (Val T A K X))
    (info : CallbackInfo T A K X) (arguments : List (List Byte)) :
    Script T A K X W (List Byte) := do
  let returned ← Js.attempt do
    let args ← Js.resume (getArguments env info.type.argTypes arguments)
    let result ← call info.function args
    Js.catchThrown (info.type.retType.encode env result) fun e =>
      Js.throw (.thrown (annotated settingReturnValue e))
  match returned with
  | .ok bytes => return bytes
  | .error e => do
    report e
    return List.replicate (info.type.retType.ffiType env).2 .poison

/-! ### Calls -/

section calls

variable [DecidableEq A]

def State.getWorld (s : State T A K X W) : W := s.world

def State.putWorld (w : W) (s : State T A K X W) : State T A K X W := { s with world := w }

/-- What a function of the program gets for what it asks for. -/
def serve (call : Val T A K X → List (Val T A K X) → Script T A K X W (Val T A K X)) :
    Request T A K X → Script T A K X W (Except (Val T A K X) (Val T A K X))
  | .apply f args => Js.attempt (call f args)
  | .set F buffer offset value => Js.attempt do
    F.set env buffer offset value
    return .undefined
  | .get F buffer offset => Js.attempt (F.get buffer offset)

mutual

/-- `f.apply(null, args)`. -/
def call : Nat → Val T A K X → List (Val T A K X) → Script T A K X W (Val T A K X)
  | 0, _, _ => Js.throw .running
  | fuel + 1, f, args =>
    match f with
    | .object (.other (.function k)) => do
      let r ← (env.code k args).run (serve env (call fuel)) State.getWorld State.putWorld
      Js.resume r
    | .object (.other (.foreignFunction funcPtr F)) => proxy env (invoke fuel) funcPtr F args
    | _ => Js.throw (.thrown (.object (Objects.typeError "f.apply is not a function")))

/-- A call of a code address. A callback has to be called as what it is. -/
def invoke : Nat → NativeCall A → Script T A K X W (List Byte)
  | 0, _ => Js.throw .running
  | fuel + 1, c =>
    match c.funcPtr with
    | .foreign address =>
      (env.native address c.arguments).run (invoke fuel) State.getWorld State.putWorld
    | .block b => do
      let closure ← Js.step fun s => (s.closures b, s)
      match closure with
      | some info =>
        if info.type.cif env = c.cif then info.invoke env (call fuel) c.arguments
        else Js.throw .undefined
      | none => Js.throw .undefined

end

end calls

end library

end NodeFfi.FunctionType
