import NodeFfi.DynamicLibrary.Model
import NodeFfi.Js.Program

/-!
# The class `DynamicLibrary`

The constructor once more, with what the functions of the dynamic linker do to its state, and the
methods. Where these functions answer as a `Linker` does, the constructor ends as the one for the
`Linker` (`construct_linker`).
-/

namespace NodeFfi.DynamicLibrary

open Text Js

/-- `bindings.StaticFunctions`, as JavaScript calls them. `S` is all that they may change. -/
structure StaticFunctions (S Handle Address : Type) where
  dlopen : Option Path → Nat → S → Option Handle × S
  dlclose : Handle → S → Int × S
  dlsym : Handle → Path → S → Option Address × S
  dlerror : S → Option (List Char) × S

/-- What is thrown. -/
inductive Thrown (V : Type) where
  | error (message : List Char)
  | typeError (message : List Char)
  /-- By `readFileSync`, for this file. -/
  | readError (file : Path)
  /-- By something else. -/
  | value (v : V)
  deriving DecidableEq, Repr

/-- A pointer with the name of a symbol. -/
structure SymbolPointer (Address : Type) where
  pointer : Option Address
  name : Path
  deriving DecidableEq, Repr

def SymbolPointer.isNull {Address : Type} (p : SymbolPointer Address) : Bool := p.pointer.isNone

/-- A text in a concatenation, where `null` is a word. -/
def concatenated (text : Option (List Char)) : List Char := text.getD "null".toList

def symbolError (err : Option (List Char)) : List Char :=
  "Dynamic Symbol Retrieval Error: ".toList ++ concatenated err

namespace StaticFunctions

variable {S Handle Address V : Type} (F : StaticFunctions S Handle Address)

/-- `DynamicLibrary`, with the files that it may read. -/
def construct (files : List (Path × List Char)) :
    Nat → Option Path → Option Nat → Js S (Stop (Thrown V)) Handle
  | 0, _, _ => Js.throw .running
  | fuel + 1, path, mode => do
    let mode := mode.getD Linker.rtldLazy
    let handle ← Js.step (F.dlopen path mode)
    match handle with
    | some handle => return handle
    | none => do
      let err ← Js.step F.dlerror
      match err with
      | none => Js.throw (.thrown (.typeError "Cannot read property 'match' of null".toList))
      | some err =>
        match libraryName.matchFront err with
        | none => Js.throw (.thrown (.error (linkingError err)))
        | some name =>
          match files.lookup name with
          | none => Js.throw (.thrown (.readError name))
          | some content =>
            match groupCommand.search content with
            | some next => construct files fuel (some next) (some mode)
            | none => Js.throw (.thrown (.error (linkingError err)))

/-- `DynamicLibrary.prototype.get`, for a string. -/
def get (handle : Handle) (symbol : Path) : Js S (Stop (Thrown V)) (SymbolPointer Address) := do
  let ptr ← Js.step (F.dlsym handle symbol)
  match ptr with
  | none => do
    let err ← Js.step F.dlerror
    Js.throw (.thrown (.error (symbolError err)))
  | some address => return ⟨some address, symbol⟩

/-- `DynamicLibrary.prototype.close`. -/
def close (handle : Handle) : Js S (Stop (Thrown V)) Int := Js.step (F.dlclose handle)

/-- `DynamicLibrary.prototype.error`. -/
def error : Js S (Stop (Thrown V)) (Option (List Char)) := Js.step F.dlerror

section get

variable {F} {handle : Handle} {symbol : Path} {s s' : S}

theorem get_found {address : Address} (h : F.dlsym handle symbol s = (some address, s')) :
    (F.get handle symbol : Js S (Stop (Thrown V)) _) s = (.ok ⟨some address, symbol⟩, s') := by
  unfold get
  rw [Js.bind_ok (Js.step_apply _ _), h]
  rfl

theorem get_missing (h : F.dlsym handle symbol s = (none, s')) :
    (F.get handle symbol : Js S (Stop (Thrown V)) _) s =
      (.error (.thrown (.error (symbolError (F.dlerror s').1))), (F.dlerror s').2) := by
  unfold get
  rw [Js.bind_ok (Js.step_apply _ _), h]
  rfl

end get

/-! ### The constructor for a `Linker` -/

/-- `dlopen` depends on the path and the mode alone, and `dlerror` has the text for a failure. -/
def Answers (L : Linker Handle) : Prop :=
  ∀ path mode s, match L.dlopen path mode with
    | .ok handle => (F.dlopen (some path) mode s).1 = some handle
    | .error err => (F.dlopen (some path) mode s).1 = none ∧
        (F.dlerror (F.dlopen (some path) mode s).2).1 = some err

/-- How the constructor of a `Linker` ends, as a computation ends. -/
def ending : Option (DynamicLibrary.Outcome Handle) → Except (Stop (Thrown V)) Handle
  | none => .error .running
  | some (.handle handle) => .ok handle
  | some (.error message) => .error (.thrown (.error message))
  | some (.readError file) => .error (.thrown (.readError file))

variable {F} {L : Linker Handle}

/-- **The constructor ends as the one for the `Linker`.** -/
theorem construct_linker (h : F.Answers L) (fuel : Nat) (path : Path) (mode : Option Nat) (s : S) :
    (F.construct (V := V) L.files fuel (some path) mode s).1 =
      ending (L.dynamicLibrary fuel path mode) := by
  induction fuel generalizing path mode s with
  | zero => rfl
  | succ fuel ih =>
    have hanswer := h path (mode.getD Linker.rtldLazy) s
    unfold construct Linker.dynamicLibrary
    rw [Js.bind_ok (Js.step_apply _ _)]
    cases hopen : L.dlopen path (mode.getD Linker.rtldLazy) with
    | ok handle =>
      rw [hopen] at hanswer
      simp only [hanswer, hopen]
      rfl
    | error err =>
      rw [hopen] at hanswer
      obtain ⟨hnone, herr⟩ := hanswer
      simp only [hnone, hopen]
      rw [Js.bind_ok (Js.step_apply _ _)]
      simp only [herr]
      cases hname : libraryName.matchFront err with
      | none => rfl
      | some name =>
        unfold Linker.read
        cases hread : L.files.lookup name with
        | none =>
          simp only [hread]
          rfl
        | some content =>
          cases hgroup : groupCommand.search content with
          | none =>
            simp only [hread, hgroup]
            rfl
          | some next =>
            simp only [hread, hgroup]
            exact ih next _ _

end StaticFunctions

end NodeFfi.DynamicLibrary
