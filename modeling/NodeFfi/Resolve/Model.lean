import NodeFfi.Js.Basic

/-!
# `Type` on objects

`Type` of `lib/type.js` on type objects that have an identity, own properties and a prototype. A
property is read along the chain of prototypes and written on the object itself. `Type` remembers
what it finds in the property `ffi_type`: the structure that it makes for a struct type, and, at
the end of the function, what the names along the chain of prototypes stand for in `FFI_TYPES`,
for every object of the chain that it has looked at.

A `World` is what `Type` does not change of the type objects, a `Heap` what it does, with the
fields of the struct types, which may get more. Type objects may refer to each other in a circle
by way of the fields, so `Type` has `fuel` for its recursion, and a computation that has used it
up is `running`.
-/

namespace NodeFfi.Resolve

open Js

/-- The keys of `FFI_TYPES`. -/
inductive FfiName where
  | void | uint8 | int8 | uint16 | int16 | uint32 | int32 | uint64 | int64
  | uchar | char | ushort | short | uint | int | float | double | pointer
  | ulonglong | longlong
  deriving DecidableEq, Repr

def FfiName.ofText : String → Option FfiName
  | "void" => some .void
  | "uint8" => some .uint8
  | "int8" => some .int8
  | "uint16" => some .uint16
  | "int16" => some .int16
  | "uint32" => some .uint32
  | "int32" => some .int32
  | "uint64" => some .uint64
  | "int64" => some .int64
  | "uchar" => some .uchar
  | "char" => some .char
  | "ushort" => some .ushort
  | "short" => some .short
  | "uint" => some .uint
  | "int" => some .int
  | "float" => some .float
  | "double" => some .double
  | "pointer" => some .pointer
  | "ulonglong" => some .ulonglong
  | "longlong" => some .longlong
  | _ => none

/-- A truthy value of a property `ffi_type`. -/
inductive Ref where
  | ffiTypes (name : FfiName)
  /-- The `n`-th `FFI_TYPE` that was made, by `Type` or by the program. -/
  | made (n : Nat)
  /-- What `FFI_TYPES` inherits from `Object.prototype`, which is no `ffi_type`. -/
  | member (name : String)
  deriving DecidableEq, Repr

/-- The `ffi_type`s are Buffers. -/
def Ref.isBuffer : Ref → Bool
  | .ffiTypes _ | .made _ => true
  | .member _ => false

/-- `bindings.FFI_TYPES.pointer`. -/
def Ref.pointer : Ref := .ffiTypes .pointer

def objectMembers : List String :=
  ["constructor", "__defineGetter__", "__defineSetter__", "hasOwnProperty", "__lookupGetter__",
    "__lookupSetter__", "isPrototypeOf", "propertyIsEnumerable", "toString", "valueOf",
    "__proto__", "toLocaleString"]

/-- `bindings.FFI_TYPES[name]`. -/
def ffiTypes (name : String) : Option Ref :=
  match FfiName.ofText name with
  | some key => some (.ffiTypes key)
  | none => if name ∈ objectMembers then some (.member name) else none

/-- An `FFI_TYPE` structure; `elements` is `none` for `NULL` and leaves out the `NULL` at the end. -/
structure Cell where
  size : BitVec 64
  alignment : BitVec 16
  type : BitVec 16
  elements : Option (List Ref)
  deriving DecidableEq, Repr

/-- The `FFI_TYPE` structures that were made, in order. -/
abbrev Memory := List Cell

/-- `ptr` is an `ffi_type` of libffi, or was made among the first `n`. -/
def Below (n : Nat) : Ref → Prop
  | .ffiTypes _ => True
  | .made k => k < n
  | .member _ => False

theorem Below.mono {n m : Nat} (h : n ≤ m) {ptr : Ref} (hptr : Below n ptr) : Below m ptr := by
  cases ptr with
  | ffiTypes _ => trivial
  | made k => exact Nat.lt_of_lt_of_le hptr h
  | member _ => exact hptr

/-- Every structure was made after its elements. -/
def Layered (mem : Memory) : Prop :=
  ∀ n cell es, mem[n]? = some cell → cell.elements = some es → ∀ ptr ∈ es, Below n ptr

/-- The type objects, with their own properties; a property that is not there is `none`. -/
structure World (O : Type) where
  proto : O → Option O
  depth : O → Nat
  proto_depth : ∀ o p, proto o = some p → depth p < depth o
  indirection : O → Option Nat
  name : O → Option String
  /-- `type`, which array types have. -/
  type : O → Option O
  fixedLength : O → Option Nat

structure Heap (O : Type) where
  /-- `fields`, which struct types have: the types of the fields in order. -/
  fields : O → Option (List O)
  /-- `ffi_type`; `some none` is `undefined`. -/
  ffiType : O → Option (Option Ref)
  made : Memory

namespace World

variable {O : Type} (w : World O)

/-- The first objects of the chain of prototypes. -/
def prototypes : Nat → O → List O
  | 0, _ => []
  | n + 1, o => o :: match w.proto o with
    | some p => prototypes n p
    | none => []

/-- The object and its prototypes, the nearest first. -/
def chain (o : O) : List O := w.prototypes (w.depth o + 1) o

/-- A property, own or inherited. -/
def read {α : Type} (own : O → Option α) (o : O) : Option α := (w.chain o).findSome? own

theorem prototypes_of_le {n : Nat} {o : O} (h : w.depth o < n) :
    w.prototypes n o = w.chain o := by
  unfold chain
  induction n using Nat.strongRecOn generalizing o with
  | ind n ih =>
    obtain ⟨n, rfl⟩ : ∃ k, n = k + 1 := ⟨n - 1, by omega⟩
    unfold prototypes
    cases hp : w.proto o with
    | none => rfl
    | some p =>
      have hdepth := w.proto_depth o p hp
      simp only [List.cons.injEq, true_and]
      rw [ih n (by omega) (by omega)]
      rcases Nat.lt_or_eq_of_le (Nat.le_of_lt_succ h) with hlt | heq
      · rw [ih (w.depth o) (by omega) hdepth]
      · subst heq
        rw [ih (w.depth o) (by omega) hdepth]

theorem chain_eq (o : O) :
    w.chain o = o :: match w.proto o with
      | some p => w.chain p
      | none => [] := by
  rw [chain, prototypes]
  cases hp : w.proto o with
  | none => rfl
  | some p =>
    simp only [List.cons.injEq, true_and]
    exact w.prototypes_of_le (w.proto_depth o p hp)

variable {w}

theorem chain_of_proto_none {o : O} (h : w.proto o = none) : w.chain o = [o] := by
  rw [chain_eq, h]

theorem chain_of_proto {o p : O} (h : w.proto o = some p) : w.chain o = o :: w.chain p := by
  rw [chain_eq, h]

theorem read_of_own {α : Type} {own : O → Option α} {o : O} {a : α} (h : own o = some a) :
    w.read own o = some a := by
  rw [read, chain_eq, List.findSome?_cons, h]

theorem read_of_proto_none {α : Type} (own : O → Option α) {o : O} (h : w.proto o = none) :
    w.read own o = own o := by
  rw [read, chain_of_proto_none h, List.findSome?_cons, List.findSome?_nil]
  cases own o <;> rfl

theorem read_of_proto {α : Type} {own : O → Option α} {o p : O} (hown : own o = none)
    (hp : w.proto o = some p) : w.read own o = w.read own p := by
  rw [read, chain_of_proto hp, List.findSome?_cons, hown]
  rfl

end World

/-! ### `Type` -/

/-- The errors of `Type`. -/
inductive Failure where
  /-- `ref.coerceType` does not take it for a type. -/
  | notAType
  /-- `invalid "type" given`. -/
  | badIndirection
  /-- ``Could not determine the `ffi_type` instance for type``. -/
  | undetermined
  /-- `writePointer` does not take it. -/
  | notABuffer
  deriving DecidableEq, Repr

/-- Why there is no result. -/
inductive Stop where
  | running
  | thrown (e : Failure)
  deriving DecidableEq, Repr

/-- What `writePointer` checks. -/
def checkBuffer (ptr : Ref) : Except Stop Unit :=
  if ptr.isBuffer then .ok () else .error (.thrown .notABuffer)

abbrev Script (O α : Type) := Js (Heap O) Stop α

theorem checkBuffer_apply {O : Type} {ptr : Ref} (hptr : ptr.isBuffer = true) (h : Heap O) :
    (Js.ofExcept (checkBuffer ptr) : Script O Unit) h = (.ok (), h) := by
  rw [Js.ofExcept_apply, checkBuffer, if_pos hptr]

theorem checkBuffer_throws {O : Type} {ptr : Ref} (hptr : ptr.isBuffer ≠ true) (h : Heap O) :
    (Js.ofExcept (checkBuffer ptr) : Script O Unit) h = (.error (.thrown .notABuffer), h) := by
  rw [Js.ofExcept_apply, checkBuffer, if_neg hptr]

section type

variable {O : Type} [DecidableEq O]

namespace Heap

/-- `object.ffi_type = value`. -/
def assign (h : Heap O) (object : O) (value : Option Ref) : Heap O :=
  { h with ffiType := fun o => if o = object then some value else h.ffiType o }

/-- A new `FFI_TYPE` for a structure with these elements, as `object.ffi_type`. -/
def cache (h : Heap O) (object : O) (elements : List Ref) : Heap O :=
  assign { h with made := h.made ++ [⟨0, 0, 13, some elements⟩] } object (some (.made h.made.length))

end Heap

namespace World

variable (w : World O)

/-- `type.ffi_type`, if it is truthy. -/
def readFfiType (h : Heap O) (type : O) : Option Ref := (w.read h.ffiType type).join

/-- `fixedLength`; `undefined > 0` is `0 > 0`. -/
def readFixedLength (type : O) : Nat := (w.read w.fixedLength type).getD 0

/-- The type that `Type` is asked about for a field, and how often the answer is written. There is
no type for a field that has a `fixedLength` and no `type`. -/
def elementType (field : O) : Option O × Nat :=
  if w.readFixedLength field > 0 then (w.read w.type field, w.readFixedLength field)
  else (some field, 1)

/-- The second loop over the fields: the pointers that it writes to `elements`. The first loop has
made the buffer for as many, and for the `NULL` at the end. -/
def elementPointers (typeOf : O → Script O Ref) : List O → Script O (List Ref)
  | [] => pure []
  | field :: fields =>
    match w.elementType field with
    | (none, _) => Js.throw (.thrown .notAType)
    | (some type, count) => do
      let ptr ← typeOf type
      Js.ofExcept (checkBuffer ptr)
      let rest ← elementPointers typeOf fields
      return List.replicate count ptr ++ rest

/-- The loop over the prototypes. -/
def lookupNames : List O → Script O Ref
  | [] => Js.throw (.thrown .undetermined)
  | cur :: rest => do
    let rtn := (w.read w.name cur).bind ffiTypes
    Js.modify fun h => h.assign cur rtn
    match rtn with
    | some rtn => return rtn
    | none => lookupNames rest

/-- The tests of `type.name` after everything else. -/
inductive NameTest where
  | falsy
  | cString
  | other
  deriving DecidableEq, Repr

def testName : Option String → NameTest
  | none => .falsy
  | some name => if name = "" then .falsy else if name = "CString" then .cString else .other

/-- `Type`. -/
def toFfiType : Nat → O → Script O Ref
  | 0, _ => Js.throw .running
  | fuel + 1, type => do
    match w.read w.indirection type with
    | none => Js.throw (.thrown .notAType)
    | some 0 => Js.throw (.thrown .badIndirection)
    | some indirection =>
      let rtn ← Js.step fun h =>
        (if indirection = 1 then w.readFfiType h type else some Ref.pointer, h)
      match rtn with
      | some rtn => return rtn
      | none =>
        if (w.read w.type type).isSome then return Ref.pointer
        else
          let fields ← Js.step fun h => (w.read h.fields type, h)
          match fields with
          | some fields => do
            let elements ← elementPointers w (toFfiType fuel) fields
            Js.step fun h => (.made h.made.length, h.cache type elements)
          | none =>
            match testName (w.read w.name type) with
            | .falsy => Js.throw (.thrown .undetermined)
            | .cString => do
              Js.modify fun h => h.assign type (some Ref.pointer)
              return Ref.pointer
            | .other => w.lookupNames (w.chain type)

/-! ### The branches of `Type` -/

/-- What the tests at the beginning of `Type` lead to. -/
inductive Branch (O : Type) where
  /-- Nothing is written. -/
  | done (r : Except Failure Ref)
  | struct (fields : List O)
  | cString
  | names

def branch (h : Heap O) (type : O) : Branch O :=
  match w.read w.indirection type with
  | none => .done (.error .notAType)
  | some 0 => .done (.error .badIndirection)
  | some indirection =>
    match if indirection = 1 then w.readFfiType h type else some Ref.pointer with
    | some rtn => .done (.ok rtn)
    | none =>
      if (w.read w.type type).isSome then .done (.ok Ref.pointer)
      else
        match w.read h.fields type with
        | some fields => .struct fields
        | none =>
          match testName (w.read w.name type) with
          | .falsy => .done (.error .undetermined)
          | .cString => .cString
          | .other => .names

/-- A result of `Type` that needs nothing more. -/
def doneWith : Except Failure Ref → Except Stop Ref
  | .ok r => .ok r
  | .error e => .error (.thrown e)

/-- `Type`, by its branch. -/
def resume (fuel : Nat) (type : O) : Branch O → Script O Ref
  | .done r => Js.ofExcept (doneWith r)
  | .struct fields => do
    let elements ← elementPointers w (w.toFfiType fuel) fields
    Js.step fun h => (.made h.made.length, h.cache type elements)
  | .cString => do
    Js.modify fun h => h.assign type (some Ref.pointer)
    return Ref.pointer
  | .names => w.lookupNames (w.chain type)

theorem resume_struct (fuel : Nat) (type : O) (fields : List O) :
    w.resume fuel type (.struct fields) = (do
      let elements ← elementPointers w (w.toFfiType fuel) fields
      Js.step fun h => (.made h.made.length, h.cache type elements)) := rfl

theorem toFfiType_succ (fuel : Nat) (type : O) (h : Heap O) :
    w.toFfiType (fuel + 1) type h = w.resume fuel type (w.branch h type) h := by
  rw [toFfiType, branch]
  cases w.read w.indirection type with
  | none => rfl
  | some i =>
    cases i with
    | zero => rfl
    | succ i =>
      simp only
      rw [Js.bind_ok (Js.step_apply _ _)]
      simp only
      cases (if i + 1 = 1 then w.readFfiType h type else some Ref.pointer) with
      | some r => rfl
      | none =>
        simp only
        by_cases ht : (w.read w.type type).isSome = true
        · rw [if_pos ht, if_pos ht]
          rfl
        · rw [if_neg ht, if_neg ht]
          rw [Js.bind_ok (Js.step_apply _ _)]
          simp only
          cases w.read h.fields type with
          | some fields => rfl
          | none =>
            simp only
            cases testName (w.read w.name type) <;> rfl

end World

end type

end NodeFfi.Resolve
