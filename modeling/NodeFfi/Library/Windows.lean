import NodeFfi.Dlfcn.Refinement
import NodeFfi.DynamicLibrary.Outcome
import NodeFfi.Library.Outcome

/-!
# `Library` on Windows

`Library` over the emulation of the dynamic linker. The texts of its `dlerror` have no colon, so that
`DynamicLibrary` never takes one for the name of a file. No error is left for a later `dlerror`, and
what has been opened stays so: a library whose symbol is missing is not closed.
-/

namespace NodeFfi.Dlfcn

open DynamicLibrary Js Text Library

variable {Handle Address O : Type}

theorem matchFront_message (code : BitVec 32) :
    libraryName.matchFront (Windows.message code) = none := by
  unfold Pattern.matchFront
  rw [List.head?_eq_none_iff, List.eq_nil_iff_forall_not_mem]
  intro g hg
  obtain ⟨b, a, r, happ, -, -, hafter⟩ := mem_captures.mp hg
  obtain ⟨rest, rfl⟩ := matches_after hafter
  have hmem : ':' ∈ Windows.message code := by
    rw [← happ]
    simp
  rcases List.mem_append.mp hmem with hmem | hmem
  · revert hmem
    decide
  · exact absurd (Nat.isDigit_of_mem_toDigits (by decide) (by decide) hmem) (by decide)

theorem dlerror_code {p : Process Handle} {e : ErrorCode} (h : p.lastError = e.code) : dlerror p =
    (some (Windows.message e.code),
      { p with errorMessage := Windows.message e.code, lastError := 0 }) := by
  unfold dlerror
  rw [h, if_pos e.ne_zero]

/-- What the rest of the program does not touch. -/
structure Kept (p p' : Process Handle) : Prop where
  errorMode : p'.errorMode = p.errorMode
  heap : p'.heap = p.heap
  loads : p'.loads = p.loads
  lastError : p'.lastError = p.lastError

theorem Kept.refl (p : Process Handle) : Kept p p := ⟨rfl, rfl, rfl, rfl⟩

theorem Kept.trans {p p' p'' : Process Handle} (h : Kept p p') (h' : Kept p' p'') : Kept p p'' :=
  ⟨h'.errorMode.trans h.errorMode, h'.heap.trans h.heap, h'.loads.trans h.loads,
    h'.lastError.trans h.lastError⟩

/-- `ForeignFunction` and `VariadicForeignFunction` do not touch what the emulation keeps. -/
structure Apart (R : Runtime (Process Handle) Handle Address O) : Prop where
  foreignFunction : ∀ fptr resultType paramTypes abi p,
    Kept p (R.foreignFunction fptr resultType paramTypes abi p).2
  variadicForeignFunction : ∀ fptr resultType paramTypes abi p,
    Kept p (R.variadicForeignFunction fptr resultType paramTypes abi p).2

theorem callable_kept {R : Runtime (Process Handle) Handle Address O} (h : Apart R)
    (fptr : SymbolPointer Address) (resultType paramTypes : Value O) (fopts : Options O)
    (p : Process Handle) : Kept p (R.callable fptr resultType paramTypes fopts p).2 := by
  unfold Runtime.callable
  split
  · exact h.variadicForeignFunction ..
  · have hkept := h.foreignFunction fptr resultType paramTypes fopts.abi p
    rcases hff : R.foreignFunction fptr resultType paramTypes fopts.abi p with ⟨stop | ff, p'⟩
    · rw [Js.bind_error hff]
      rwa [hff] at hkept
    · rw [Js.bind_ok hff]
      rwa [hff] at hkept

variable [DecidableEq Handle]

/-- The emulation, as JavaScript calls it. -/
def Windows.staticFunctions (w : Windows Handle Address) :
    StaticFunctions (Process Handle) Handle Address where
  dlopen path _ := w.dlopen path
  dlclose handle p := (if (w.dlclose handle p).1 then 1 else 0, (w.dlclose handle p).2)
  dlsym := w.dlsym
  dlerror := dlerror

section construct

variable {w : Windows Handle Address} {p p' : Process Handle} {path : Option Path}
  (files : List (Path × List Char)) (fuel : Nat) (mode : Option Nat)

theorem construct_opened {handle : Handle} (h : w.dlopen path p = (some handle, p')) :
    (w.staticFunctions.construct files (fuel + 1) path mode :
      Js _ (Stop (Thrown (Value O))) Handle) p = (.ok handle, p') := by
  unfold StaticFunctions.construct
  rw [Js.bind_ok (Js.step_apply _ _)]
  simp only [Windows.staticFunctions, h]
  rfl

theorem construct_failed {e : ErrorCode} (h : w.dlopen path p = (none, p'))
    (hcode : p'.lastError = e.code) :
    (w.staticFunctions.construct files (fuel + 1) path mode :
      Js _ (Stop (Thrown (Value O))) Handle) p =
      (.error (.thrown (.error (linkingError (Windows.message e.code)))),
        { p' with errorMessage := Windows.message e.code, lastError := 0 }) := by
  unfold StaticFunctions.construct
  rw [Js.bind_ok (Js.step_apply _ _)]
  simp only [Windows.staticFunctions, h]
  rw [Js.bind_ok (Js.step_apply _ _)]
  simp only [dlerror_code hcode, matchFront_message]
  rfl

theorem construct_windows (hnone : p.lastError = 0) :
    (∃ (e : ErrorCode) (p' : Process Handle),
      (w.staticFunctions.construct files (fuel + 1) path mode :
        Js _ (Stop (Thrown (Value O))) Handle) p =
        (.error (.thrown (.error (linkingError (Windows.message e.code)))), p') ∧
      (w.dlopen path p).1 = none ∧ Kept p p') ∨
    ∃ handle p', (w.staticFunctions.construct files (fuel + 1) path mode :
        Js _ (Stop (Thrown (Value O))) Handle) p = (.ok handle, p') ∧
      w.dlopen path p = (some handle, p') ∧
      p'.loads = (if path.isSome then Function.update p.loads handle (p.loads handle + 1)
        else p.loads) ∧ Kept { p with loads := p'.loads } p' := by
  cases path with
  | none =>
    exact .inr ⟨w.mainModule, p, construct_opened files fuel mode rfl, rfl, rfl, .refl p⟩
  | some file =>
    rcases dlopen_cases w p file with ⟨e, next, hopen⟩ | ⟨e, hopen⟩ | ⟨handle, hopen⟩
    · refine .inl ⟨e, _, construct_failed files fuel mode hopen rfl, ?_, rfl, rfl, rfl, hnone.symm⟩
      rw [hopen]
    · refine .inl ⟨e, _, construct_failed files fuel mode hopen rfl, ?_, rfl, rfl, rfl, hnone.symm⟩
      rw [hopen]
    · exact .inr ⟨handle, _, construct_opened files fuel mode hopen, hopen, rfl, rfl, rfl, rfl, rfl⟩

end construct

section library

variable {R : Runtime (Process Handle) Handle Address O} {w : Windows Handle Address}

theorem dlsym_found (hR : R.functions = w.staticFunctions) {handle : Handle} {name : Path}
    {p p' : Process Handle} {address : Address}
    (hsym : R.functions.dlsym handle name p = (some address, p')) :
    p' = p ∧ w.dlsym handle name p = (some address, p) := by
  rw [hR] at hsym
  have hsym' : w.dlsym handle name p = (some address, p') := hsym
  rcases dlsym_cases w p handle name with ⟨address', hfound⟩ | ⟨e, hmissing⟩
  · obtain ⟨haddress, rfl⟩ := Prod.mk.inj (hfound.symm.trans hsym')
    exact ⟨rfl, hsym'⟩
  · cases hmissing.symm.trans hsym'

theorem defines_kept (h : Apart R) (hR : R.functions = w.staticFunctions) {handle : Handle}
    {p p' : Process Handle} {d : Declaration O} {value : Value O}
    (hd : Defines R handle p d value p') : Kept p p' := by
  obtain ⟨address, p₁, hsym, resultType, paramTypes, fopts, -, hcall⟩ := hd
  obtain ⟨rfl, -⟩ := dlsym_found hR hsym
  have hkept := callable_kept h ⟨some address, d.1⟩ resultType paramTypes fopts p₁
  rwa [hcall] at hkept

theorem definesAll_kept (h : Apart R) (hR : R.functions = w.staticFunctions) {handle : Handle}
    {p p' : Process Handle} {done : List (Declaration O × Value O)}
    (hd : DefinesAll R handle p done p') : Kept p p' := by
  induction done generalizing p with
  | nil =>
    rw [show p' = p from hd]
    exact .refl p
  | cons d done ih =>
    obtain ⟨p₁, hfirst, hrest⟩ := hd
    exact (defines_kept h hR hfirst).trans (ih hrest)

theorem fails_kept (h : Apart R) (hR : R.functions = w.staticFunctions) {handle : Handle}
    {p p' : Process Handle} {d : Declaration O} {stop : Stop (Thrown (Value O))}
    (hnone : p.lastError = 0) (hd : Fails R handle p d stop p') : Kept p p' ∧
      ((∃ address, w.dlsym handle d.1 p = (some address, p)) ∨
        ∃ e : ErrorCode, stop = .thrown (.error (symbolError (some (Windows.message e.code))))) := by
  cases hd with
  | symbol hsym =>
    rw [hR] at hsym ⊢
    rcases dlsym_cases w p handle d.1 with ⟨address', hfound⟩ | ⟨e, hmissing⟩
    · cases hfound.symm.trans hsym
    · obtain ⟨-, rfl⟩ := Prod.mk.inj (hmissing.symm.trans hsym)
      have hreport : dlerror { p with threadError := e.code, lastError := e.code } =
          (some (Windows.message e.code), { p with
            threadError := e.code, errorMessage := Windows.message e.code, lastError := 0 }) :=
        dlerror_code rfl
      simp only [Windows.staticFunctions, hreport]
      exact ⟨⟨rfl, rfl, rfl, hnone.symm⟩, .inr ⟨e, rfl⟩⟩
  | undefined hsym hinfo =>
    obtain ⟨rfl, hfound⟩ := dlsym_found hR hsym
    exact ⟨.refl _, .inl ⟨_, hfound⟩⟩
  | null hsym hinfo =>
    obtain ⟨rfl, hfound⟩ := dlsym_found hR hsym
    exact ⟨.refl _, .inl ⟨_, hfound⟩⟩
  | @callable p₁ _ address resultType paramTypes fopts _ hsym hinfo hstop =>
    obtain ⟨rfl, hfound⟩ := dlsym_found hR hsym
    have hkept := callable_kept h ⟨some address, d.1⟩ resultType paramTypes fopts p₁
    rw [hstop] at hkept
    exact ⟨hkept, .inl ⟨_, hfound⟩⟩

/-- **`Library` on Windows.** Nothing is opened or defined, and the error has the code; or what has
been opened is loaded once more in the end, whatever becomes of the declarations. -/
theorem library_windows (h : Apart R) (hR : R.functions = w.staticFunctions) (fuel : Nat)
    (libfile path : Option Path) (hpath : path = (fileName R.ext libfile).filter (· ≠ []))
    {funcs : List (Declaration O)} (hnodup : (funcs.map Prod.fst).Nodup)
    {p p' : Process Handle} (hnone : p.lastError = 0) {lib lib' : Properties O}
    {r : Except (Stop (Thrown (Value O))) Unit}
    (hrun : R.library (fuel + 1) libfile funcs (p, lib) = (r, (p', lib'))) :
    p'.lastError = 0 ∧ p'.errorMode = p.errorMode ∧ p'.heap = p.heap ∧
      ((∃ e : ErrorCode, (w.dlopen path p).1 = none ∧
          r = .error (.thrown (.error (linkingError (Windows.message e.code)))) ∧
          p'.loads = p.loads ∧ lib' = lib) ∨
        ∃ handle opened done rest mid, w.dlopen path p = (some handle, opened) ∧
          p'.loads = (if path.isSome then Function.update p.loads handle (p.loads handle + 1)
            else p.loads) ∧
          Progress R handle opened lib funcs r p' lib' done rest mid ∧
          ∀ d after, rest = d :: after → (∃ address, w.dlsym handle d.1 mid = (some address, mid)) ∨
            ∃ e : ErrorCode,
              r = .error (.thrown (.error (symbolError (some (Windows.message e.code)))))) := by
  subst hpath
  rcases construct_windows R.files fuel (some R.rtldNow) hnone with
    ⟨e, p₁, hopen, hnot, hkept⟩ | ⟨handle, p₁, hopen, hdlopen, hloads, hkept⟩
  · rw [← hR] at hopen
    obtain ⟨rfl, hfinal⟩ := Prod.mk.inj (hrun.symm.trans (library_unopened hopen funcs lib))
    obtain ⟨rfl, rfl⟩ := Prod.mk.inj hfinal
    exact ⟨hkept.lastError.trans hnone, hkept.errorMode, hkept.heap,
      .inl ⟨e, hnot, rfl, hkept.loads, rfl⟩⟩
  · rw [← hR] at hopen
    obtain ⟨done, rest, mid, hprogress⟩ :=
      define_spec (R := R) handle (fileName R.ext libfile) hnodup p₁ lib
    rw [← library_opened hopen, hrun] at hprogress
    have hmid := definesAll_kept h hR hprogress.defines
    have hmidNone : mid.lastError = 0 := by rw [hmid.lastError, hkept.lastError, hnone]
    -- the loop ends in `mid`, or the declaration after it does not touch what is kept either
    have hend : Kept mid p' ∧ ∀ d after, rest = d :: after →
        (∃ address, w.dlsym handle d.1 mid = (some address, mid)) ∨ ∃ e : ErrorCode,
          r = .error (.thrown (.error (symbolError (some (Windows.message e.code))))) := by
      cases hrest : rest with
      | nil =>
        obtain ⟨-, hlast⟩ := hprogress.returned hrest
        have hlast' : p' = mid := hlast
        refine ⟨?_, fun d after heq => by cases heq⟩
        rw [hlast']
        exact .refl mid
      | cons d after =>
        obtain ⟨stop, hstop, hfails⟩ := hprogress.thrown d after hrest
        have hstop' : r = .error stop := hstop
        obtain ⟨hkept', hwhy⟩ := fails_kept h hR hmidNone hfails
        refine ⟨hkept', ?_⟩
        intro d' after' heq
        obtain ⟨rfl, -⟩ := List.cons.inj heq
        rcases hwhy with hfound | ⟨e, rfl⟩
        · exact .inl hfound
        · exact .inr ⟨e, hstop'⟩
    have hall := hmid.trans hend.1
    exact ⟨hend.1.lastError.trans hmidNone, hall.errorMode.trans hkept.errorMode,
      hall.heap.trans hkept.heap, .inr ⟨handle, p₁, done, rest, mid, hdlopen,
        hall.loads.trans hloads, hprogress, hend.2⟩⟩

end library

/-- `Library` for the one library that there is. -/
def user32Library : Runtime (Process Bool) Bool Nat Nat where
  functions := user32.staticFunctions
  files := []
  ext := ".dll".toList
  rtldNow := 2
  foreignFunction fptr _ _ _ := pure ⟨.object (fptr.pointer.getD 0), .undefined⟩
  variadicForeignFunction fptr _ _ _ := pure (.object (fptr.pointer.getD 0))

theorem library_windows_user32 :
    let info : Info Nat := .list (.string "int") .undefined (.falsy .undefined rfl)
    let funcs := [("MessageBoxA".toList, info), ("gone".toList, info)]
    let final := user32Library.library 1 (some "user32".toList) funcs (.initial, fun _ => none)
    final.1 = .error (.thrown (.error (symbolError (some "Win32 error 127".toList)))) ∧
      final.2.2 "MessageBoxA".toList = some (.object 16) ∧ final.2.1.loads true = 1 ∧
      final.2.1.lastError = 0 := by
  intro info funcs final
  have hnodup : (funcs.map Prod.fst).Nodup := by decide
  have hrun : user32Library.library 1 (some "user32".toList) funcs (.initial, fun _ => none) =
      (final.1, (final.2.1, final.2.2)) := rfl
  have hspec := library_windows (w := user32) ⟨fun _ _ _ _ p => .refl p, fun _ _ _ _ p => .refl p⟩
    rfl 0 (some "user32".toList) (some "user32.dll".toList) (by decide) hnodup rfl hrun
  exact ⟨by decide, by decide, by decide, hspec.1⟩

end NodeFfi.Dlfcn
