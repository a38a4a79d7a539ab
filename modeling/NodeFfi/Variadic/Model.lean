import Mathlib.Data.Rat.Floor
import NodeFfi.Js.Basic
import NodeFfi.Marshal.ForeignFunction
import NodeFfi.Memo.Code
import NodeFfi.Memo.Table
import NodeFfi.Transition.Lts
import NodeFfi.Types.TypeObject

/-!
# Variadic functions

`VariadicForeignFunction` and the generator that it returns, with `getId` and `CIF_var`. The type
objects of the program are the elements of `T`: their identity is what the cache should depend on,
and `Runtime` says what else is known of them. The generator reads its return type from a property
that anyone may assign, and keeps the functions it has made in a cache whose keys are the ids of
their types joined together.

A `Session` is a generator in use. Its actions are assignments to the property, calls of the
generator, and the calls of `getId` for types that other generators are given.
-/

namespace NodeFfi.Variadic

open Js NodeFfi.Types Libffi Memo

/-! ### Ids -/

/-- A result of `Math.random`. -/
structure Draw where
  value : ℚ
  nonneg : 0 ≤ value
  lt_one : value < 1

/-- The nearest integer, the even one of two. -/
def roundEven (q : ℚ) : Nat :=
  let n := ⌊q⌋₊
  if q - n < 1 / 2 then n else if 1 / 2 < q - n then n + 1 else n + n % 2

/-- `((1+x)*0x10000)|0`: the sum is rounded to 52 binary places, and the product is exact. -/
def Draw.number (x : Draw) : Nat := roundEven ((1 + x.value) * 2 ^ 52) / 2 ^ 36

/-- A value of `_ffiId`, which is made from a random number. -/
structure Id where
  random : Draw
  text : List Char
  text_eq : text = Nat.toDigits 16 random.number

def Id.ofRandom (x : Draw) : Id := ⟨x, Nat.toDigits 16 x.number, rfl⟩

/-! ### Types -/

/-- What `Type` sees of a type object: `void` after `refs` times `refType`, or another type. -/
inductive Shape where
  | void (refs : Nat)
  | other (type : TypeObject)

/-- `Type`. -/
def Shape.toFfiType : Shape → Except String FfiType
  | .void 0 => .ok ⟨1, 1, 0, none⟩
  | .void (_ + 1) => .ok FfiTypeName.pointer.ffiType
  | .other type => type.toFfiType

/-- A "type" given to the library: a type object or its name. -/
inductive TypeArg (T : Type) where
  | type (t : T)
  | text (s : String)
  deriving DecidableEq

/-- What the program and the packages under the library provide. -/
structure Runtime (T : Type) where
  object : T → Shape
  size : T → Nat
  /-- The objects that a type object inherits from, the nearest first. -/
  prototypes : T → List T
  random : Nat → Draw
  /-- `ref.coerceType` for a name; for a pointer it makes a type object each time. -/
  coerceText : String → Nat → Except String T
  /-- The type objects that a name stands for differ in nothing but their identity. -/
  coerceText_object : ∀ s m n, (coerceText s m).map object = (coerceText s n).map object
  defaultAbi : Nat
  /-- `ffi_prep_cif_var`, by the ABI, the number of fixed arguments and the types. -/
  prepCifVar : Nat → Nat → FfiType → List FfiType → Status

/-- The `ffi_cif` of a variadic call. -/
structure CifVar where
  numFixedArgs : Nat
  rtype : FfiType
  atypes : List FfiType

/-- The types of a call. -/
structure Signature (T : Type) where
  returnType : T
  argTypes : List T
  deriving DecidableEq

def Signature.types {T : Type} (sig : Signature T) : List T := sig.returnType :: sig.argTypes

/-- A function that `_ForeignFunction` returns. Functions are told apart by their number. -/
structure Func (T : Type) where
  number : Nat
  cif : CifVar
  returnType : T
  argTypes : List T

/-- The types that the function encodes its arguments and decodes its result with. -/
def Func.signature {T : Type} (f : Func T) : Signature T := ⟨f.returnType, f.argTypes⟩

structure State (T : Type) where
  /-- The own property `_ffiId` of each type object. -/
  ffiId : T → Option Id
  /-- How often `Math.random` was called. -/
  randoms : Nat
  /-- How often a name was coerced. -/
  coercions : Nat
  /-- The property of the generator. -/
  returnType : TypeArg T
  cache : List Char → Option (Func T)
  /-- How many functions were made. -/
  made : Nat

abbrev Script (T α : Type) := Js (State T) String α

/-- The variables that the generator closes over. -/
structure Generator (T : Type) where
  returnType : TypeArg T
  fixedArgTypes : List T
  fixedKey : List (Option Id)
  abi : Option Nat

namespace Runtime

variable {T : Type} (rt : Runtime T)

def assert (condition : Bool) (message : String) : Script T Unit :=
  if condition then pure () else Js.throw message

/-- `ref.coerceType`. -/
def coerceType : TypeArg T → Script T T
  | .type t => pure t
  | .text s => fun st => (rt.coerceText s st.coercions, { st with coercions := st.coercions + 1 })

/-- `Type`. -/
def toFfiType (type : TypeArg T) : Script T FfiType := do
  let type ← rt.coerceType type
  Js.ofExcept (rt.object type).toFfiType

/-- The value of the property `_ffiId`, own or inherited. -/
def readId (st : State T) (type : T) : Option Id :=
  (type :: rt.prototypes type).findSome? st.ffiId

section getId

variable [DecidableEq T]

/-- A type object gets an id of its own. -/
def assignId (type : T) (st : State T) : State T :=
  { st with
    ffiId := Function.update st.ffiId type (some (Id.ofRandom (rt.random st.randoms)))
    randoms := st.randoms + 1 }

def getId (type : T) : Script T (Option Id) := do
  Js.modify fun st => if (st.ffiId type).isNone then rt.assignId type st else st
  Js.step fun st => (rt.readId st type, st)

end getId

/-! ### `CIF_var` -/

def toFfiTypes : List T → Script T (List FfiType)
  | [] => pure []
  | type :: types => do
    let ffiType ← rt.toFfiType (.type type)
    let rest ← toFfiTypes types
    return ffiType :: rest

/-- `CIF_var`. -/
def cifVar (rtype : TypeArg T) (types : List T) (numFixedArgs : Nat) (abi : Option Nat) :
    Script T CifVar := do
  assert (numFixedArgs ≥ 1) "expected the number of fixed arguments to be at least 1"
  let rtypeptr ← rt.toFfiType rtype
  let argtypesptr ← rt.toFfiTypes types
  match rt.prepCifVar (abi.getD rt.defaultAbi) numFixedArgs rtypeptr argtypesptr with
  | .ok => return ⟨numFixedArgs, rtypeptr, argtypesptr⟩
  | .badTypedef => Js.throw "ffi_prep_cif_var() returned an FFI_BAD_TYPEDEF error"
  | .badAbi => Js.throw "ffi_prep_cif_var() returned an FFI_BAD_ABI error"

/-! ### `_ForeignFunction` -/

def resultSize (returnType : T) : Nat :=
  if rt.size returnType ≥ Marshal.longSize then rt.size returnType else Marshal.ffiArgSize

/-- `_ForeignFunction`, up to the function that it returns. -/
def foreignFunction (cif : CifVar) (returnType : T) (argTypes : List T) : Script T (Func T) := do
  assert (rt.resultSize returnType > 0) "false == true"
  Js.step fun st => (⟨st.made, cif, returnType, argTypes⟩, { st with made := st.made + 1 })

/-! ### The generator -/

/-- libffi's own types have a name, those that `Type` makes for structures have none. -/
def hasName (ffiType : FfiType) : Bool := ffiType.elements.isNone

/-- `key.join('')`. -/
def join (key : List (Option Id)) : List Char := key.flatMap fun id => (id.map Id.text).getD []

/-- The generator from the key on. -/
def serve (g : Generator T) (key : List Char) (sig : Signature T) : Script T (Func T) := do
  let func ← Js.step fun st => (st.cache key, st)
  match func with
  | some func => return func
  | none =>
    let cif ← rt.cifVar g.returnType sig.argTypes g.fixedArgTypes.length g.abi
    let func ← rt.foreignFunction cif sig.returnType sig.argTypes
    Js.modify fun st => { st with cache := store st.cache key func }
    return func

variable [DecidableEq T]

/-- The loop over the arguments, with `argTypes` and `key` so far. -/
def variadicTypes : List (TypeArg T) → List T → List (Option Id) →
    Script T (List T × List (Option Id))
  | [], argTypes, key => pure (argTypes, key)
  | arg :: arguments, argTypes, key => do
    let type ← rt.coerceType arg
    let ffiType ← rt.toFfiType (.type type)
    assert (hasName ffiType) "undefined == true"
    let id ← rt.getId type
    variadicTypes arguments (argTypes ++ [type]) (key ++ [id])

/-- The generator up to the key: the key, and the types it stands for. -/
def request (g : Generator T) (arguments : List (TypeArg T)) :
    Script T (List Char × Signature T) := do
  let (argTypes, key) ← rt.variadicTypes arguments g.fixedArgTypes g.fixedKey
  let returnType ← Js.step fun st => (st.returnType, st)
  let rtnType ← rt.coerceType returnType
  let rtnName ← rt.getId rtnType
  assert rtnName.isSome "undefined == true"
  return (join (rtnName :: key), ⟨rtnType, argTypes⟩)

/-- `variadic_function_generator(...arguments)`: the function it returns, with its request. -/
def variadicFunctionGenerator (g : Generator T) (arguments : List (TypeArg T)) :
    Script T (Answer (List Char) (Signature T) (Func T)) := do
  let (key, sig) ← rt.request g arguments
  let func ← rt.serve g key sig
  return ⟨key, sig, func⟩

def coerceTypes : List (TypeArg T) → Script T (List T)
  | [] => pure []
  | arg :: args => do
    let type ← rt.coerceType arg
    let rest ← coerceTypes args
    return type :: rest

def getIds : List T → Script T (List (Option Id))
  | [] => pure []
  | type :: types => do
    let id ← rt.getId type
    let rest ← getIds types
    return id :: rest

/-- `VariadicForeignFunction`. Every type object is truthy, and every name but the empty one. -/
def variadicForeignFunction (returnType : TypeArg T) (fixedArgTypes : List (TypeArg T))
    (abi : Option Nat) : Script T (Generator T) := do
  assert (returnType ≠ .text "") "expected a return \"type\" object as the second argument"
  let fixedArgTypes ← rt.coerceTypes fixedArgTypes
  let fixedKey ← rt.getIds fixedArgTypes
  Js.modify fun st => { st with cache := fun _ => none, returnType := returnType }
  return ⟨returnType, fixedArgTypes, fixedKey, abi⟩

end Runtime

/-! ### Sessions -/

/-- A call that has returned a function. -/
structure Call (T : Type) where
  /-- The `returnType` property at the call. -/
  property : TypeArg T
  arguments : List (TypeArg T)
  answer : Answer (List Char) (Signature T) (Func T)

namespace Call

variable {T : Type}

/-- The types of the call. -/
def signature (c : Call T) : Signature T := c.answer.query

def func (c : Call T) : Func T := c.answer.value

end Call

structure Session (T : Type) where
  state : State T
  calls : List (Call T)

inductive Action (T : Type) where
  /-- `generator.returnType = type`. -/
  | assign (type : TypeArg T)
  /-- `generator(...arguments)`. -/
  | call (arguments : List (TypeArg T))
  /-- `getId(type)`, by another generator. -/
  | getId (type : T)

namespace Session

variable {T : Type} [DecidableEq T] (rt : Runtime T) (g : Generator T)

def next (s : Session T) : Action T → Session T
  | .assign type => { s with state := { s.state with returnType := type } }
  | .call arguments =>
    match rt.variadicFunctionGenerator g arguments s.state with
    | (.ok answer, state) => ⟨state, s.calls ++ [⟨s.state.returnType, arguments, answer⟩]⟩
    | (.error _, state) => ⟨state, s.calls⟩
  | .getId type => { s with state := (rt.getId type s.state).2 }

/-- A generator in use. Every action may be taken at any time. -/
def system : Transition.Lts (Session T) (Action T) where
  enabled _ _ := True
  dec _ _ := inferInstance
  next := next rt g

end Session

end NodeFfi.Variadic
