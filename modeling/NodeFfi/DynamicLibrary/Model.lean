import NodeFfi.Text.Pattern
import NodeFfi.Transition.Orbit

/-!
# Opening a library

The constructor `DynamicLibrary` of `lib/dynamic_library.js`. When `dlopen` rejects a path, the
text of `dlerror` is searched for the name of a library; that file is read and searched for a
`GROUP ( ... )` command, and the constructor starts over with the first name in it.

A `Linker` is what the constructor finds around it: the files, and `dlopen`, which is a function of
the path and the mode.
-/

namespace NodeFfi.DynamicLibrary

open Text Transition

abbrev Path := List Char

structure Linker (Handle : Type) where
  /-- The files, each with what `readFileSync(.., 'ascii')` makes of it. -/
  files : List (Path × List Char)
  /-- `dlopen`, with the text that `dlerror` gives after it has failed. -/
  dlopen : Path → Nat → Except (List Char) Handle

/-- How the constructor ends. -/
inductive Outcome (Handle : Type) where
  /-- It returns, and this is `_handle`. -/
  | handle (h : Handle)
  /-- It throws an `Error` of its own. -/
  | error (message : List Char)
  /-- `readFileSync` throws, for this file. -/
  | readError (file : Path)
  deriving DecidableEq, Repr

/-- `/^(([^ \t()])+\.so([^ \t:()])*):([ \t])*/`, of which `match[1]` is used. -/
def libraryName : Pattern where
  before := []
  group := some1 (fun c => c ∉ [' ', '\t', '(', ')']) ++ literal ".so".toList ++
    [.many fun c => c ∉ [' ', '\t', ':', '(', ')']]
  after := literal [':'] ++ [.many fun c => c ∈ [' ', '\t']]

/-- `/GROUP *\( *(([^ )])+)/`, of which `match[1]` is used. -/
def groupCommand : Pattern where
  before := literal "GROUP".toList ++ [.many (· = ' ')] ++ literal ['('] ++ [.many (· = ' ')]
  group := some1 fun c => c ∉ [' ', ')']
  after := []

def linkingError (err : List Char) : List Char := "Dynamic Linking Error: ".toList ++ err

namespace Linker

variable {Handle : Type} (L : Linker Handle)

/-- `readFileSync(path, 'ascii')`; it throws for a file that is not there. -/
def read (path : Path) : Option (List Char) := L.files.lookup path

/-- `RTLD_LAZY`, the mode when there is none. -/
def rtldLazy : Nat := 1

/-- `DynamicLibrary`, which calls itself at most `fuel` times. -/
def dynamicLibrary : Nat → Path → Option Nat → Option (Outcome Handle)
  | 0, _, _ => none
  | fuel + 1, path, mode =>
    let mode := mode.getD rtldLazy
    match L.dlopen path mode with
    | .ok handle => some (.handle handle)
    | .error err =>
      match libraryName.matchFront err with
      | none => some (.error (linkingError err))
      | some name =>
        match L.read name with
        | none => some (.readError name)
        | some content =>
          match groupCommand.search content with
          | some next => dynamicLibrary fuel next (some mode)
          | none => some (.error (linkingError err))

/-! ### One attempt after the other -/

/-- The path that the constructor gives up this one for. -/
def redirect (mode : Nat) (path : Path) : Option Path :=
  match L.dlopen path mode with
  | .ok _ => none
  | .error err => (libraryName.matchFront err).bind fun name =>
      (L.read name).bind groupCommand.search

/-- How the constructor ends at a path that it does not give up. -/
def finish (mode : Nat) (path : Path) : Outcome Handle :=
  match L.dlopen path mode with
  | .ok handle => .handle handle
  | .error err =>
    match libraryName.matchFront err with
    | none => .error (linkingError err)
    | some name => if (L.read name).isSome then .error (linkingError err) else .readError name

theorem dynamicLibrary_succ (fuel : Nat) (path : Path) (mode : Option Nat) :
    L.dynamicLibrary (fuel + 1) path mode =
      match L.redirect (mode.getD rtldLazy) path with
      | some next => L.dynamicLibrary fuel next (some (mode.getD rtldLazy))
      | none => some (L.finish (mode.getD rtldLazy) path) := by
  simp only [dynamicLibrary, redirect, finish]
  cases L.dlopen path (mode.getD rtldLazy) with
  | ok handle => rfl
  | error err =>
    simp only
    cases libraryName.matchFront err with
    | none => rfl
    | some name =>
      simp only [Option.bind_some]
      cases L.read name with
      | none => rfl
      | some content =>
        simp only [Option.bind_some]
        cases groupCommand.search content <;> rfl

theorem dynamicLibrary_eq_some {fuel : Nat} {path : Path} {mode : Option Nat}
    {o : Outcome Handle} (h : L.dynamicLibrary fuel path mode = some o) :
    ∃ k last, follow (L.redirect (mode.getD rtldLazy)) k path = some last ∧
      L.redirect (mode.getD rtldLazy) last = none ∧ L.finish (mode.getD rtldLazy) last = o := by
  induction fuel generalizing path mode with
  | zero => cases h
  | succ fuel ih =>
    rw [dynamicLibrary_succ] at h
    cases hr : L.redirect (mode.getD rtldLazy) path with
    | none =>
      rw [hr] at h
      exact ⟨0, path, rfl, hr, Option.some.inj h⟩
    | some next =>
      rw [hr] at h
      obtain ⟨k, last, hk, hlast, ho⟩ := ih h
      exact ⟨k + 1, last, (follow_succ_of_some hr k).trans hk, hlast, ho⟩

theorem dynamicLibrary_of_end {k : Nat} {path : Path} {mode : Option Nat}
    (h : follow (L.redirect (mode.getD rtldLazy)) k path = none) :
    ∃ o, L.dynamicLibrary k path mode = some o := by
  induction k generalizing path mode with
  | zero => cases h
  | succ k ih =>
    rw [dynamicLibrary_succ]
    cases hr : L.redirect (mode.getD rtldLazy) path with
    | none => exact ⟨_, rfl⟩
    | some next =>
      rw [follow_succ_of_some hr] at h
      exact ih h

/-! ### Termination -/

theorem redirect_mem {mode : Nat} {path next : Path} (h : L.redirect mode path = some next) :
    next ∈ L.files.filterMap fun f => groupCommand.search f.2 := by
  unfold redirect at h
  split at h
  · cases h
  · obtain ⟨name, _, h⟩ := Option.bind_eq_some_iff.mp h
    obtain ⟨content, hread, hgroup⟩ := Option.bind_eq_some_iff.mp h
    obtain ⟨l₁, l₂, hfiles, _⟩ := List.lookup_eq_some_iff.mp hread
    rw [List.mem_filterMap]
    exact ⟨(name, content), by rw [hfiles]; simp, hgroup⟩

/-- **When the fallback ends**: exactly when the redirections from the path do not come back to a
path they have been at. -/
theorem dynamicLibrary_ends_iff (path : Path) (mode : Option Nat) :
    (∃ fuel o, L.dynamicLibrary fuel path mode = some o) ↔
      ¬ ∃ k m p, follow (L.redirect (mode.getD rtldLazy)) k path = some p ∧ 0 < m ∧
        follow (L.redirect (mode.getD rtldLazy)) m p = some p := by
  rw [← ends_iff_no_cycle fun _ _ => L.redirect_mem]
  constructor
  · rintro ⟨fuel, o, h⟩
    obtain ⟨k, last, hk, hlast, _⟩ := L.dynamicLibrary_eq_some h
    exact ⟨k + 1, (follow_snoc hk).trans hlast⟩
  · rintro ⟨k, hk⟩
    exact ⟨k, L.dynamicLibrary_of_end hk⟩

end Linker

/-- A linker script that names itself. -/
def selfScript : Linker Unit where
  files := [("libx.so".toList, "GROUP ( libx.so )".toList)]
  dlopen path _ := .error (path ++ ": invalid ELF header".toList)

/-- The constructor calls itself without end. -/
theorem selfScript_endless :
    ¬ ∃ fuel o, selfScript.dynamicLibrary fuel "libx.so".toList none = some o := by
  have hredirect (mode : Nat) :
      selfScript.redirect mode "libx.so".toList = some "libx.so".toList := rfl
  have hall (fuel : Nat) (mode : Option Nat) :
      selfScript.dynamicLibrary fuel "libx.so".toList mode = none := by
    induction fuel generalizing mode with
    | zero => rfl
    | succ fuel ih =>
      rw [Linker.dynamicLibrary_succ, hredirect]
      exact ih _
  rintro ⟨fuel, o, h⟩
  rw [hall] at h
  cases h

end NodeFfi.DynamicLibrary
