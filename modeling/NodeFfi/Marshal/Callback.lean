import NodeFfi.Marshal.ForeignFunction

/-!
# Callbacks

The function that `callback.js` wraps around a user's function, `CallbackInfo::DispatchToV8`, which
calls it, and `errorReportCallback`. `CallbackInfo.invoke` is the native function at the code
address of the callback: libffi copies the arguments, provides a return area of at least one
`ffi_arg`, and takes the result from there. On a thread of the pool the call to `DispatchToV8` is
the one that the main thread makes for the invocation while its thread waits.
-/

namespace NodeFfi.Marshal

open Js Blocks

variable {E W : Type} [Objects E]

/-- A function of the user, on the world. -/
abbrev UserFunction (E W : Type) := W → List (Val E) → Except (Val E) (Val E) × W

/-- `func.apply(null, args)`. -/
def apply (func : UserFunction E W) (args : List (Val E)) : Script E W (Val E) := fun m =>
  ((func m.world args).1, (m.setWorld (func m.world args).2).logEvent (.apply args))

/-- The loop that reads the arguments. -/
def getArguments (params : Buffer) : Nat → List (RefType E) → Script E W (List (Val E))
  | _, [] => pure []
  | i, type :: argTypes => do
    let data ← readPointer params.data (i * pointerSize)
    let value ← refGet ⟨data, type.size⟩ type
    let rest ← getArguments params (i + 1) argTypes
    return value :: rest

/-- What precedes the message of an error about the result. -/
def settingReturnValue : String := "error setting return value - "

def setResult (retval : Buffer) (result : Val E) (retType : RefType E) : Script E W Unit :=
  Js.tryCatch (refSet retval result retType) fun e => do
    let e ← annotate settingReturnValue e
    Js.throw e

/-- The steps inside the outer `try` of the function that `Callback` makes. -/
def callbackBody (retType : RefType E) (argTypes : List (RefType E)) (func : UserFunction E W)
    (retval params : Buffer) : Script E W Unit := do
  let args ← getArguments params 0 argTypes
  let result ← apply func args
  setResult retval result retType

/-- The function that `Callback` makes: it returns what is thrown. -/
def callbackFunction (retType : RefType E) (argTypes : List (RefType E)) (func : UserFunction E W)
    (retval params : Buffer) : Script E W (Val E) :=
  Js.tryCatch
    (do
      callbackBody retType argTypes func retval params
      return .undefined)
    fun e => return e

/-- `errorReportCallback`. -/
def errorReportCallback (err : Val E) (m : Machine E W) : Machine E W :=
  if err.truthy then { m with ticks := m.ticks ++ [.throwError err] } else m

/-- What the function that `errorReportCallback` gives `process.nextTick` throws. -/
def rethrown : Val E → Val E
  | .string s => .object (Objects.error s)
  | err => err

/-- A function that `process.nextTick` was given runs. -/
def Tick.run : Tick E → Script E W Unit
  | .throwError err => Js.throw (rethrown err)
  | .callback number e => Js.modify fun m => m.logEvent (.callback number [e])

/-- `callback_info` of a callback that exists. -/
structure CallbackInfo (E W : Type) where
  function : (retval params : Buffer) → Script E W (Val E)
  argc : Nat
  resultSize : Nat
  rtype : Kind × Nat

/-- `Callback(retType, argTypes, func)`. -/
def Callback (retType : RefType E) (argTypes : List (RefType E)) (func : UserFunction E W) :
    CallbackInfo E W where
  function := callbackFunction retType argTypes func
  argc := argTypes.length
  resultSize := retType.size
  rtype := retType.ffiType

/-- What `DispatchToV8` does with the value that the function returns. -/
def reportReturned (dispatched : Bool) (e : Val E) (m : Machine E W) : Machine E W :=
  match e with
  | .undefined => m
  | e => if dispatched then errorReportCallback e m else { m with pending := some e }

/-- `CallbackInfo::DispatchToV8`. -/
def CallbackInfo.dispatchToV8 (info : CallbackInfo E W) (retval parameters : Ptr)
    (dispatched : Bool) (m : Machine E W) : Machine E W :=
  match info.function ⟨retval, info.resultSize⟩ ⟨parameters, pointerSize * info.argc⟩ m with
  | (.ok e, m) => reportReturned dispatched e m
  | (.error e, m) => { m with pending := some e }

omit [Objects E] in
theorem CallbackInfo.dispatchToV8_ok (info : CallbackInfo E W) {retval parameters : Ptr}
    {m m' : Machine E W} {e : Val E} (dispatched : Bool)
    (h : info.function ⟨retval, info.resultSize⟩ ⟨parameters, pointerSize * info.argc⟩ m =
      (.ok e, m')) :
    info.dispatchToV8 retval parameters dispatched m = reportReturned dispatched e m' := by
  simp only [CallbackInfo.dispatchToV8, h]

/-- The copies of the arguments that a closure gets. -/
def copyArguments {ε : Type} (parameters : Buffer) :
    Nat → List (List Byte) → Js (Machine E W) ε Unit
  | _, [] => pure ()
  | i, bytes :: rest => do
    let copy ← newBuffer bytes.length
    writeBytes copy.data 0 bytes
    writePointer parameters.data (i * pointerSize) copy.data
    copyArguments parameters (i + 1) rest

/-- A call of the code address. -/
def CallbackInfo.call {ε : Type} (info : CallbackInfo E W) (mainThread : Bool)
    (arguments : List (List Byte)) : Js (Machine E W) ε (List Byte) := do
  let retval ← newBuffer (max ffiArgSize info.rtype.2)
  let parameters ← newBuffer (arguments.length * pointerSize)
  copyArguments parameters 0 arguments
  Js.modify (info.dispatchToV8 retval.data parameters.data (!mainThread))
  readBytes retval.data 0 info.rtype.2

/-- The native function at the code address of a callback. -/
def CallbackInfo.invoke (info : CallbackInfo E W) : NativeFn E W := fun mainThread arguments m =>
  match info.call (ε := Empty) mainThread arguments m with
  | (.ok bytes, m) => (bytes, m)
  | (.error e, _) => e.elim

end NodeFfi.Marshal
