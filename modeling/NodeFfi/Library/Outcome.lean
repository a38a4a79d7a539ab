import Mathlib.Data.List.Nodup
import NodeFfi.Library.Model

/-!
# What `Library` leaves behind

Whether it returns or throws, the declarations before some point have become functions of the
object, each for the address of its own symbol, and nothing else in the object has changed
(`library_spec`). It returns when that point is the end, and throws what the declaration there
leads to otherwise. The check for a null pointer never fails, since `get` has thrown before.
-/

namespace NodeFfi.Library

open DynamicLibrary Js

variable {S Handle Address O : Type} (R : Runtime S Handle Address O)

/-- `func: info`. -/
abbrev Declaration (O : Type) := Path × Info O

/-- From the one state to the other, the declaration becomes the value. -/
def Defines (handle : Handle) (s : S) (d : Declaration O) (value : Value O) (s' : S) : Prop :=
  ∃ address s₁, R.functions.dlsym handle d.1 s = (some address, s₁) ∧
    ∃ resultType paramTypes fopts, d.2 = .list resultType paramTypes fopts ∧
      R.callable ⟨some address, d.1⟩ resultType paramTypes fopts s₁ = (.ok value, s')

/-- Why the declaration becomes nothing. -/
inductive Fails (handle : Handle) (s : S) (d : Declaration O) :
    Stop (Thrown (Value O)) → S → Prop
  | symbol {s₁ : S} (h : R.functions.dlsym handle d.1 s = (none, s₁)) :
    Fails handle s d (.thrown (.error (symbolError (R.functions.dlerror s₁).1)))
      (R.functions.dlerror s₁).2
  | undefined {s' : S} {address : Address} (h : R.functions.dlsym handle d.1 s = (some address, s'))
    (hinfo : d.2 = .undefined) :
    Fails handle s d (.thrown (.typeError (propertyError "undefined"))) s'
  | null {s' : S} {address : Address} (h : R.functions.dlsym handle d.1 s = (some address, s'))
    (hinfo : d.2 = .null) : Fails handle s d (.thrown (.typeError (propertyError "null"))) s'
  | callable {s₁ s' : S} {address : Address} {resultType paramTypes : Value O} {fopts : Options O}
    {stop : Stop (Thrown (Value O))} (h : R.functions.dlsym handle d.1 s = (some address, s₁))
    (hinfo : d.2 = .list resultType paramTypes fopts)
    (hstop : R.callable ⟨some address, d.1⟩ resultType paramTypes fopts s₁ = (.error stop, s')) :
    Fails handle s d stop s'

/-- From the one state to the other, each declaration in turn becomes its value. -/
def DefinesAll (handle : Handle) : S → List (Declaration O × Value O) → S → Prop
  | s, [], s' => s' = s
  | s, (d, value) :: done, s' => ∃ s₁, Defines R handle s d value s₁ ∧ DefinesAll handle s₁ done s'

/-- How far the loop has come. -/
structure Progress (handle : Handle) (s : S) (lib : Properties O) (funcs : List (Declaration O))
    (r : Except (Stop (Thrown (Value O))) Unit) (s' : S) (lib' : Properties O)
    (done : List (Declaration O × Value O)) (rest : List (Declaration O)) (mid : S) : Prop where
  split : funcs = done.map Prod.fst ++ rest
  defines : DefinesAll R handle s done mid
  defined : ∀ d ∈ done, lib' d.1.1 = some d.2
  others : ∀ name, name ∉ done.map (·.1.1) → lib' name = lib name
  returned : rest = [] → r = .ok () ∧ s' = mid
  thrown : ∀ d after, rest = d :: after → ∃ stop, r = .error stop ∧ Fails R handle mid d stop s'

variable {R}

theorem function_spec (handle : Handle) (libfile : Option Path) (d : Declaration O) (s : S) :
    match R.function handle libfile d.1 d.2 s with
    | (.ok value, s') => Defines R handle s d value s'
    | (.error stop, s') => Fails R handle s d stop s' := by
  unfold Runtime.function
  rcases hsym : R.functions.dlsym handle d.1 s with ⟨_ | address, s₁⟩
  · rw [Js.bind_error (StaticFunctions.get_missing hsym)]
    exact .symbol hsym
  · rw [Js.bind_ok (StaticFunctions.get_found hsym)]
    -- a pointer from `get` is not null
    have hnull : (⟨some address, d.1⟩ : SymbolPointer Address).isNull = false := rfl
    rw [hnull]
    cases hinfo : d.2 with
    | undefined => exact .undefined hsym hinfo
    | null => exact .null hsym hinfo
    | list resultType paramTypes fopts =>
      simp only [Bool.false_eq_true, if_false]
      rcases hcall : R.callable ⟨some address, d.1⟩ resultType paramTypes fopts s₁ with
        ⟨stop | value, s'⟩
      · exact .callable hsym hinfo hcall
      · exact ⟨address, s₁, hsym, resultType, paramTypes, fopts, hinfo, hcall⟩

section lift

variable {α : Type} {x : Js S (Stop (Thrown (Value O))) α} {s s' : S} (lib : Properties O)

theorem lift_ok {a : α} (h : x s = (.ok a, s')) : lift x (s, lib) = (.ok a, (s', lib)) := by
  unfold lift
  rw [h]

theorem lift_error {stop : Stop (Thrown (Value O))} (h : x s = (.error stop, s')) :
    lift x (s, lib) = (.error stop, (s', lib)) := by
  unfold lift
  rw [h]

end lift

theorem Progress.cons {handle : Handle} {s s₁ s' mid : S} {lib lib' : Properties O}
    {d : Declaration O} {value : Value O} {funcs rest : List (Declaration O)}
    {r : Except (Stop (Thrown (Value O))) Unit} {done : List (Declaration O × Value O)}
    (hdefines : Defines R handle s d value s₁) (hnot : d.1 ∉ funcs.map Prod.fst)
    (h : Progress R handle s₁ (Function.update lib d.1 (some value)) funcs r s' lib' done rest mid) :
    Progress R handle s lib (d :: funcs) r s' lib' ((d, value) :: done) rest mid where
  split := by
    rw [h.split]
    rfl
  defines := ⟨s₁, hdefines, h.defines⟩
  defined d' hd' := by
    have hname : d.1 ∉ done.map (·.1.1) := by
      intro hmem
      apply hnot
      rw [h.split, List.map_append, List.map_map]
      exact List.mem_append_left _ hmem
    rcases List.mem_cons.mp hd' with rfl | hd'
    · rw [h.others d.1 hname]
      exact Function.update_self ..
    · exact h.defined d' hd'
  others name hname := by
    rw [List.map_cons, List.mem_cons, not_or] at hname
    rw [h.others name hname.2]
    exact Function.update_of_ne hname.1 ..
  returned := h.returned
  thrown := h.thrown

theorem define_spec (handle : Handle) (libfile : Option Path) {funcs : List (Declaration O)}
    (hnodup : (funcs.map Prod.fst).Nodup) (s : S) (lib : Properties O) :
    ∃ done rest mid, Progress R handle s lib funcs (R.define handle libfile funcs (s, lib)).1
      (R.define handle libfile funcs (s, lib)).2.1 (R.define handle libfile funcs (s, lib)).2.2
      done rest mid := by
  induction funcs generalizing s lib with
  | nil =>
    refine ⟨[], [], s, rfl, rfl, fun _ h => ?_, fun _ _ => rfl, fun _ => ⟨rfl, rfl⟩,
      fun _ _ h => ?_⟩
    · cases h
    · cases h
  | cons d funcs ih =>
    rw [List.map_cons, List.nodup_cons] at hnodup
    have hfunction := function_spec (R := R) handle libfile d s
    unfold Runtime.define
    rcases hrun : R.function handle libfile d.1 d.2 s with ⟨stop | value, s'⟩
    · rw [hrun] at hfunction
      rw [Js.bind_error (lift_error lib hrun)]
      refine ⟨[], d :: funcs, s, rfl, rfl, fun _ h => ?_, fun _ _ => rfl, fun h => ?_, ?_⟩
      · cases h
      · cases h
      · intro d' after heq
        obtain ⟨rfl, -⟩ := List.cons.inj heq
        exact ⟨stop, rfl, hfunction⟩
    · rw [hrun] at hfunction
      rw [Js.bind_ok (lift_ok lib hrun)]
      have hassign : assign d.1 value (s', lib) =
          (.ok (), (s', Function.update lib d.1 (some value))) := rfl
      rw [Js.bind_ok hassign]
      obtain ⟨done, rest, mid, h⟩ := ih hnodup.2 s' (Function.update lib d.1 (some value))
      exact ⟨(d, value) :: done, rest, mid, h.cons hfunction hnodup.1⟩

section library

variable {fuel : Nat} {libfile : Option Path} {s s₁ : S}

theorem library_unopened {stop : Stop (Thrown (Value O))}
    (h : R.dynamicLibrary fuel (fileName R.ext libfile) s = (.error stop, s₁))
    (funcs : List (Declaration O)) (lib : Properties O) :
    R.library fuel libfile funcs (s, lib) = (.error stop, (s₁, lib)) :=
  Js.bind_error (lift_error lib h)

theorem library_opened {handle : Handle}
    (h : R.dynamicLibrary fuel (fileName R.ext libfile) s = (.ok handle, s₁))
    (funcs : List (Declaration O)) (lib : Properties O) :
    R.library fuel libfile funcs (s, lib) =
      R.define handle (fileName R.ext libfile) funcs (s₁, lib) :=
  Js.bind_ok (lift_ok lib h)

end library

/-- **What `Library` leaves behind**, whatever the functions around it do. -/
theorem library_spec (R : Runtime S Handle Address O) (fuel : Nat) (libfile : Option Path)
    {funcs : List (Declaration O)} (hnodup : (funcs.map Prod.fst).Nodup) (s : S)
    (lib : Properties O) :
    (∃ stop s₁, R.dynamicLibrary fuel (fileName R.ext libfile) s = (.error stop, s₁) ∧
      R.library fuel libfile funcs (s, lib) = (.error stop, (s₁, lib))) ∨
    ∃ handle s₁, R.dynamicLibrary fuel (fileName R.ext libfile) s = (.ok handle, s₁) ∧
      ∃ done rest mid, Progress R handle s₁ lib funcs (R.library fuel libfile funcs (s, lib)).1
        (R.library fuel libfile funcs (s, lib)).2.1 (R.library fuel libfile funcs (s, lib)).2.2
        done rest mid := by
  rcases hopen : R.dynamicLibrary fuel (fileName R.ext libfile) s with ⟨stop | handle, s₁⟩
  · exact .inl ⟨stop, s₁, rfl, library_unopened hopen funcs lib⟩
  · right
    refine ⟨handle, s₁, rfl, ?_⟩
    rw [library_opened hopen]
    exact define_spec handle _ hnodup s₁ lib

/-- A library with one symbol, and what `dlerror` has to say. -/
def single : Runtime (Option (List Char)) Unit Nat Nat where
  functions := {
    dlopen := fun _ _ s => (some (), s)
    dlclose := fun _ s => (0, s)
    dlsym := fun _ symbol s =>
      if symbol = "abs".toList then (some 16, s) else (none, some "undefined symbol".toList)
    dlerror := fun s => (s, none) }
  files := []
  ext := ".so".toList
  rtldNow := 2
  foreignFunction fptr _ _ _ := pure ⟨.object (fptr.pointer.getD 0), .undefined⟩
  variadicForeignFunction fptr _ _ _ := pure (.object (fptr.pointer.getD 0))

theorem library_spec_missing :
    let info : Info Nat := .list (.string "int") .undefined (.falsy .undefined rfl)
    let funcs := [("abs".toList, info), ("gone".toList, info), ("labs".toList, info)]
    let final := single.library 1 (some "libm".toList) funcs (none, fun _ => none)
    (∃ done rest mid, Progress single () none (fun _ => none) funcs final.1 final.2.1 final.2.2
      done rest mid) ∧
    final.1 = .error (.thrown (.error (symbolError (some "undefined symbol".toList)))) ∧
    final.2.2 "abs".toList = some (.object 16) ∧ final.2.2 "labs".toList = none := by
  intro info funcs final
  refine ⟨?_, by decide, by decide, by decide⟩
  have hnodup : (funcs.map Prod.fst).Nodup := by decide
  rcases library_spec single 1 (some "libm".toList) hnodup none fun _ => none
    with ⟨stop, s₁, hopen, -⟩ | ⟨handle, s₁, hopen, h⟩
  · cases hopen
  · obtain ⟨-, rfl⟩ := Prod.mk.inj hopen
    exact h

end NodeFfi.Library
