import Mathlib.Data.List.Infix
import NodeFfi.DynamicLibrary.Class

/-!
# `Library`

`lib/library.js`: a library is opened, and for each declaration its symbol is looked up and a
function for it is put into an object. The object is the caller's if there is one. What is thrown
on the way leaves the functions there that have been put into it before.
-/

namespace NodeFfi.Library

open DynamicLibrary Js

/-- `info[2]`: what is falsy stands for its members too, since they are read behind `&&`. -/
inductive Options (O : Type) where
  | falsy (v : Value O) (h : v.truthy = false)
  | object (abi async varargs : Value O)

/-- `fopts && fopts.abi`. -/
def Options.abi {O : Type} : Options O → Value O
  | .falsy v _ => v
  | .object abi _ _ => abi

/-- `fopts && fopts.async`. -/
def Options.async {O : Type} : Options O → Value O
  | .falsy v _ => v
  | .object _ async _ => async

/-- `fopts && fopts.varargs`. -/
def Options.varargs {O : Type} : Options O → Value O
  | .falsy v _ => v
  | .object _ _ varargs => varargs

/-- `funcs[func]`. -/
inductive Info (O : Type) where
  | undefined
  | null
  | list (resultType paramTypes : Value O) (fopts : Options O)

/-- What `ForeignFunction` returns, and its property `async`. -/
structure Proxy (O : Type) where
  self : Value O
  async : Value O

/-- The properties of an object. -/
abbrev Properties (O : Type) := Path → Option (Value O)

/-- What `Library` finds around it. -/
structure Runtime (S Handle Address O : Type) where
  functions : StaticFunctions S Handle Address
  files : List (Path × List Char)
  /-- `EXT`, in an operation on strings. -/
  ext : List Char
  rtldNow : Nat
  foreignFunction : SymbolPointer Address → Value O → Value O → Value O →
    Js S (Stop (Thrown (Value O))) (Proxy O)
  variadicForeignFunction : SymbolPointer Address → Value O → Value O → Value O →
    Js S (Stop (Thrown (Value O))) (Value O)

section

variable {S Handle Address O : Type}

/-- A computation that does not touch the object. -/
def lift {α : Type} (x : Js S (Stop (Thrown (Value O))) α) :
    Js (S × Properties O) (Stop (Thrown (Value O))) α := fun s =>
  ((x s.1).1, ((x s.1).2, s.2))

/-- `lib[func] = value`. -/
def assign (func : Path) (value : Value O) :
    Js (S × Properties O) (Stop (Thrown (Value O))) Unit :=
  Js.modify fun s => (s.1, Function.update s.2 func (some value))

def nullPointerError (libfile : Option Path) (func : Path) : List Char :=
  "Library: \"".toList ++ concatenated libfile ++ "\" returned NULL function pointer for \"".toList ++
    func ++ "\"".toList

/-- The message of the error for reading a property of what has none. -/
def propertyError (of : String) : List Char :=
  "Cannot read property '0' of ".toList ++ of.toList

/-- The name of the file: the extension is appended to one that it does not occur in. -/
def fileName (ext : List Char) : Option Path → Option Path
  | none => none
  | some libfile =>
    if libfile = [] then some libfile
    else if ext <:+: libfile then some libfile
    else some (libfile ++ ext)

namespace Runtime

variable (R : Runtime S Handle Address O)

/-- The function for a symbol: `varargs` goes before `async`. -/
def callable (fptr : SymbolPointer Address) (resultType paramTypes : Value O) (fopts : Options O) :
    Js S (Stop (Thrown (Value O))) (Value O) :=
  if fopts.varargs.truthy then R.variadicForeignFunction fptr resultType paramTypes fopts.abi
  else do
    let ff ← R.foreignFunction fptr resultType paramTypes fopts.abi
    return if fopts.async.truthy then ff.async else ff.self

/-- The body of the loop, up to the assignment. -/
def function (handle : Handle) (libfile : Option Path) (func : Path) (info : Info O) :
    Js S (Stop (Thrown (Value O))) (Value O) := do
  let fptr ← R.functions.get handle func
  if fptr.isNull then Js.throw (.thrown (.error (nullPointerError libfile func)))
  else
    match info with
    | .undefined => Js.throw (.thrown (.typeError (propertyError "undefined")))
    | .null => Js.throw (.thrown (.typeError (propertyError "null")))
    | .list resultType paramTypes fopts => R.callable fptr resultType paramTypes fopts

/-- `Object.keys(funcs).forEach(..)`. -/
def define (handle : Handle) (libfile : Option Path) : List (Path × Info O) →
    Js (S × Properties O) (Stop (Thrown (Value O))) Unit
  | [] => pure ()
  | (func, info) :: funcs => do
    let value ← lift (R.function handle libfile func info)
    assign func value
    define handle libfile funcs

/-- `new DynamicLibrary(libfile || null, RTLD_NOW)`, which calls itself at most `fuel` times. -/
def dynamicLibrary (fuel : Nat) (libfile : Option Path) :
    Js S (Stop (Thrown (Value O))) Handle :=
  R.functions.construct R.files fuel (libfile.filter (· ≠ [])) (some R.rtldNow)

/-- `Library`. -/
def library (fuel : Nat) (libfile : Option Path) (funcs : List (Path × Info O)) :
    Js (S × Properties O) (Stop (Thrown (Value O))) Unit := do
  let libfile := fileName R.ext libfile
  let dl ← lift (R.dynamicLibrary fuel libfile)
  R.define dl libfile funcs

end Runtime

end

end NodeFfi.Library
