import NodeFfi.Marshal.Machine

/-!
# Foreign functions

The proxies of `_foreign_function.js`, synchronous and asynchronous, and the bindings under them.
A native function gets the bytes of its arguments and returns those of its result; libffi reads the
former behind the pointers of the argument array and stores the latter in the result buffer,
an integer narrower than `ffi_arg` extended to it.
-/

namespace NodeFfi.Marshal

open Js Blocks

variable {E W : Type}

/-- A function at a code address. It runs on the main thread or on a thread of the pool. -/
abbrev NativeFn (E W : Type) := (mainThread : Bool) → List (List Byte) → Native E W (List Byte)

/-- The variables that a proxy closes over. -/
structure ForeignFunction (E W : Type) where
  cif : Cif
  funcPtr : NativeFn E W
  returnType : RefType E
  argTypes : List (RefType E)

/-- `sizeof(long)`. -/
def longSize : Nat := 8

/-- `FFI_ARG_SIZE`. -/
def ffiArgSize : Nat := 8

/-- What libffi takes a type for, by assumption: its own kind and size, which `Type` does not give
for every array, and a pointer for every pointer. -/
def RefType.ffiType (type : RefType E) : Kind × Nat :=
  (if type.indirection = 1 then type.kind else .plain, type.cSize)

/-- `CIF(rtype, types)`, by assumption for as many bytes of each argument as its type has. -/
def Cif.of (rtype : RefType E) (types : List (RefType E)) : Cif :=
  ⟨rtype.ffiType, types.map RefType.cSize⟩

namespace ForeignFunction

/-- `ForeignFunction(funcPtr, returnType, argTypes)`. -/
def of (funcPtr : NativeFn E W) (returnType : RefType E) (argTypes : List (RefType E)) :
    ForeignFunction E W :=
  ⟨Cif.of returnType argTypes, funcPtr, returnType, argTypes⟩

def numArgs (p : ForeignFunction E W) : Nat := p.argTypes.length

def resultSize (p : ForeignFunction E W) : Nat :=
  if p.returnType.size ≥ longSize then p.returnType.size else ffiArgSize

def argsArraySize (p : ForeignFunction E W) : Nat := p.numArgs * pointerSize

end ForeignFunction

/-! ### libffi -/

section libffi

variable {ε : Type}

/-- The bytes behind the pointers of the argument array. -/
def readArguments (argv : Ptr) : Nat → List Nat → Js (Machine E W) ε (List (List Byte))
  | _, [] => pure []
  | i, size :: sizes => do
    let p ← readPointer argv (i * pointerSize)
    let bytes ← readBytes p 0 size
    let rest ← readArguments argv (i + 1) sizes
    return bytes :: rest

/-- Exactly `size` bytes. -/
def fit (size : Nat) (bytes : List Byte) : List Byte :=
  bytes.take size ++ List.replicate (size - bytes.length) .poison

/-- The byte that an integer is extended with, given its highest byte. -/
def extension (signed : Bool) : Option Byte → Byte
  | some (.raw b) => .raw (if signed && 128 ≤ b then 255 else 0)
  | some _ => .poison
  | none => .raw 0

/-- An integer as an `ffi_arg`. -/
def extend (signed : Bool) (bytes : List Byte) : List Byte :=
  bytes ++ List.replicate (ffiArgSize - bytes.length) (extension signed bytes.getLast?)

/-- What libffi stores for a return value. -/
def stored : Kind × Nat → List Byte → List Byte
  | (.void, _), _ => []
  | (.integer signed, size), bytes => extend signed (fit size bytes)
  | (.plain, size), bytes => fit size bytes

/-- `ffi_call`. -/
def ffiCall (cif : Cif) (fn : NativeFn E W) (mainThread : Bool) (rvalue avalue : Ptr) :
    Js (Machine E W) ε Unit := do
  let arguments ← readArguments avalue 0 cif.atypes
  Js.modify fun m => m.logEvent (.native rvalue)
  let bytes ← Js.step (fn mainThread arguments)
  writeBytes rvalue 0 (stored cif.rtype bytes)

end libffi

/-! ### The proxies -/

section proxy

variable [Objects E]

/-- The loop that writes the arguments; what it throws comes with the number of the argument. -/
def setArguments (argsList : Buffer) :
    Nat → List (RefType E) → List (Val E) → Js (Machine E W) (Nat × Val E) Unit
  | i, argType :: argTypes, val :: vals => do
    let valPtr ← Js.tryCatch (refAlloc argType val) fun e => Js.throw (i, e)
    writePointer argsList.data (i * pointerSize) valPtr.data
    setArguments argsList (i + 1) argTypes vals
  | _, _, _ => pure ()

/-- What precedes the message of an error about an argument. -/
def settingArgument (i : Nat) : String := "error setting argument " ++ toString i ++ " - "

/-- An exception that native code has left pending is thrown on the return to JavaScript. -/
def takePending : Script E W Unit := fun m =>
  match m.pending with
  | some e => (.error e, { m with pending := none })
  | none => (.ok (), m)

/-- `bindings.ffi_call`. -/
def FFICall (cif : Cif) (fn : NativeFn E W) (result argsList : Buffer) : Script E W Unit := do
  ffiCall cif fn true result.data argsList.data
  takePending

def arityError {α : Type} (expected got : Nat) : Script E W α :=
  Js.throw (.object (Objects.typeError
    ("Expected " ++ toString expected ++ " arguments, got " ++ toString got)))

/-- `proxy(...arguments)`. -/
def ForeignFunction.proxy (p : ForeignFunction E W) (arguments : List (Val E)) :
    Script E W (Val E) :=
  if arguments.length ≠ p.numArgs then arityError p.numArgs arguments.length
  else do
    let result ← newBuffer p.resultSize
    let argsList ← newBuffer p.argsArraySize
    Js.tryCatch (setArguments argsList 0 p.argTypes arguments) fun (i, e) => do
      let e ← annotate (settingArgument i) e
      Js.throw e
    FFICall p.cif p.funcPtr result argsList
    refGet result p.returnType

/-- `AsyncCallParams`, with the completion function's variables in place of the function. -/
structure AsyncCallParams (E W : Type) where
  cif : Cif
  fn : NativeFn E W
  res : Buffer
  argv : Buffer
  returnType : RefType E
  callback : Nat

/-- `proxy.async(...arguments, callback)`, with `callback` the number of a function or another
value. What it queues is its result. -/
def ForeignFunction.async (p : ForeignFunction E W) (arguments : List (Val E))
    (callback : Option Nat) : Script E W (Option (AsyncCallParams E W)) :=
  if arguments.length + 1 ≠ p.numArgs + 1 then arityError (p.numArgs + 1) (arguments.length + 1)
  else
    match callback with
    | none => Js.throw (.object (Objects.typeError
        ("Expected a callback function as argument number: " ++ toString arguments.length)))
    | some callback => do
      let result ← newBuffer p.resultSize
      let argsList ← newBuffer p.argsArraySize
      Js.tryCatch
        (do
          setArguments argsList 0 p.argTypes arguments
          return some ⟨p.cif, p.funcPtr, result, argsList, p.returnType, callback⟩)
        fun (i, e) => do
          let e ← annotate (settingArgument i) e
          Js.modify fun m => { m with ticks := m.ticks ++ [.callback callback e] }
          return none

/-- `FFI::AsyncFFICall`, on a thread of the pool. -/
def AsyncFFICall {ε : Type} (p : AsyncCallParams E W) : Js (Machine E W) ε Unit :=
  ffiCall p.cif p.fn false p.res.data p.argv.data

/-- The function that `proxy.async` gives `ffi_call_async`, called with `null`. -/
def AsyncCallParams.completion (p : AsyncCallParams E W) : Script E W Unit := do
  let value ← refGet p.res p.returnType
  Js.modify fun m => m.logEvent (.callback p.callback [.null, value])

/-- `FFI::FinishAsyncFFICall`, with `FatalException` for what the function throws. -/
def FinishAsyncFFICall {ε : Type} (p : AsyncCallParams E W) : Js (Machine E W) ε Unit :=
  Js.tryCatch p.completion fun e => Js.modify fun m => m.logEvent (.uncaught e)

end proxy

end NodeFfi.Marshal
