import NodeFfi.Resolve.Model

/-!
# What `Type` leaves as it is

More fuel does not change a result (`toFfiType_mono`). `Type` writes by `assign` and `cache` alone,
so whatever these two keep is kept by every call (`toFfiType_preserves`): the fields, and the
structures that were made before.
-/

namespace NodeFfi.Resolve

open Js

variable {O : Type} [DecidableEq O]

@[simp] theorem assign_fields (h : Heap O) (o : O) (v : Option Ref) :
    (h.assign o v).fields = h.fields := rfl

@[simp] theorem assign_made (h : Heap O) (o : O) (v : Option Ref) :
    (h.assign o v).made = h.made := rfl

@[simp] theorem assign_ffiType_self (h : Heap O) (o : O) (v : Option Ref) :
    (h.assign o v).ffiType o = some v := if_pos rfl

theorem assign_ffiType_of_ne (h : Heap O) {o o' : O} (hne : o' ≠ o) (v : Option Ref) :
    (h.assign o v).ffiType o' = h.ffiType o' := if_neg hne

@[simp] theorem cache_fields (h : Heap O) (o : O) (es : List Ref) :
    (h.cache o es).fields = h.fields := rfl

@[simp] theorem cache_made (h : Heap O) (o : O) (es : List Ref) :
    (h.cache o es).made = h.made ++ [⟨0, 0, 13, some es⟩] := rfl

@[simp] theorem cache_ffiType_self (h : Heap O) (o : O) (es : List Ref) :
    (h.cache o es).ffiType o = some (some (.made h.made.length)) := if_pos rfl

theorem cache_ffiType_of_ne (h : Heap O) {o o' : O} (hne : o' ≠ o) (es : List Ref) :
    (h.cache o es).ffiType o' = h.ffiType o' := if_neg hne

/-! ### Steps -/

namespace World

variable {w : World O}

/-- What the loop over the fields does with the first of them. -/
inductive FieldStep (w : World O) (typeOf : O → Script O Ref) (field : O) (fields : List O)
    (h : Heap O) : Except Stop (List Ref) → Heap O → Prop
  | noType : (w.elementType field).1 = none →
      FieldStep w typeOf field fields h (.error (.thrown .notAType)) h
  | stops {type e h'} : (w.elementType field).1 = some type → typeOf type h = (.error e, h') →
      FieldStep w typeOf field fields h (.error e) h'
  | notBuffer {type ptr h'} : (w.elementType field).1 = some type →
      typeOf type h = (.ok ptr, h') → ptr.isBuffer ≠ true →
      FieldStep w typeOf field fields h (.error (.thrown .notABuffer)) h'
  | goesOn {type ptr h₁ r h'} : (w.elementType field).1 = some type →
      typeOf type h = (.ok ptr, h₁) → ptr.isBuffer = true →
      w.elementPointers typeOf fields h₁ = (r, h') →
      FieldStep w typeOf field fields h
        (r.map fun rest => List.replicate (w.elementType field).2 ptr ++ rest) h'

omit [DecidableEq O] in
theorem fieldStep_of_run {typeOf : O → Script O Ref} {field : O} {fields : List O} {h h' : Heap O}
    {r : Except Stop (List Ref)} (hrun : w.elementPointers typeOf (field :: fields) h = (r, h')) :
    FieldStep w typeOf field fields h r h' := by
  have hstep : FieldStep w typeOf field fields h
      (w.elementPointers typeOf (field :: fields) h).1
      (w.elementPointers typeOf (field :: fields) h).2 := by
    unfold elementPointers
    rcases helem : w.elementType field with ⟨_ | type, count⟩
    · exact .noType (by rw [helem])
    · have htype : (w.elementType field).1 = some type := by rw [helem]
      simp only
      rcases hptr : typeOf type h with ⟨e | ptr, h₁⟩
      · rw [Js.bind_error hptr]
        exact .stops htype hptr
      · rw [Js.bind_ok hptr]
        by_cases hbuf : ptr.isBuffer = true
        · rw [Js.bind_ok (checkBuffer_apply hbuf h₁)]
          have hgoes : ∀ r h₂, w.elementPointers typeOf fields h₁ = (r, h₂) →
              FieldStep w typeOf field fields h
                (r.map fun rest => List.replicate count ptr ++ rest) h₂ := by
            intro r h₂ hrest
            have hstep := FieldStep.goesOn htype hptr hbuf hrest
            rwa [helem] at hstep
          rcases hrest : w.elementPointers typeOf fields h₁ with ⟨e | rest, h₂⟩
          · rw [Js.bind_error hrest]
            exact hgoes (.error e) h₂ hrest
          · rw [Js.bind_ok hrest]
            exact hgoes (.ok rest) h₂ hrest
        · rw [Js.bind_error (checkBuffer_throws hbuf h₁)]
          exact .notBuffer htype hptr hbuf
  rwa [hrun] at hstep

theorem struct_cases {n : Nat} {t : O} {fields : List O} {h h' : Heap O} {r : Except Stop Ref}
    (hrun : w.resume n t (.struct fields) h = (r, h')) :
    (∃ e, r = .error e ∧ w.elementPointers (w.toFfiType n) fields h = (.error e, h')) ∨
      ∃ es h₁, w.elementPointers (w.toFfiType n) fields h = (.ok es, h₁) ∧
        r = .ok (.made h₁.made.length) ∧ h' = h₁.cache t es := by
  rw [resume_struct] at hrun
  rcases hels : w.elementPointers (w.toFfiType n) fields h with ⟨e | es, h₁⟩
  · rw [Js.bind_error hels] at hrun
    obtain ⟨rfl, rfl⟩ := Prod.mk.inj hrun
    exact .inl ⟨e, rfl, rfl⟩
  · rw [Js.bind_ok hels] at hrun
    obtain ⟨rfl, rfl⟩ := Prod.mk.inj hrun
    exact .inr ⟨es, h₁, rfl, rfl, rfl⟩

end World

/-! ### Fuel -/

/-- The computation has come to a result. -/
def Ended {α : Type} (r : Except Stop α) : Prop := r ≠ .error .running

theorem ended_ok {α : Type} (a : α) : Ended (.ok a : Except Stop α) := fun h => by cases h

theorem ended_thrown {α : Type} (e : Failure) : Ended (.error (.thrown e) : Except Stop α) :=
  fun h => by cases h

theorem Ended.of_error {α β : Type} {e : Stop} (h : Ended (.error e : Except Stop α)) :
    Ended (.error e : Except Stop β) := fun he => h (by rw [Except.error.inj he])

theorem Ended.of_map {α β : Type} {r : Except Stop α} {f : α → β} (h : Ended (r.map f)) :
    Ended r := by
  cases r with
  | ok a => exact ended_ok a
  | error e => exact Ended.of_error (e := e) h

/-- Where the one computation has come to a result, the other comes to the same. -/
def Extends {α : Type} (x y : Script O α) : Prop :=
  ∀ h r h', x h = (r, h') → Ended r → y h = (r, h')

section

omit [DecidableEq O]

theorem extends_bind {α β : Type} {x y : Script O α} {f g : α → Script O β} (hx : Extends x y)
    (hf : ∀ a, Extends (f a) (g a)) : Extends (x >>= f) (y >>= g) := by
  intro h r h' hrun hr
  rcases hxh : x h with ⟨e | a, h₁⟩
  · rw [Js.bind_error hxh] at hrun
    obtain ⟨rfl, rfl⟩ := Prod.mk.inj hrun
    rw [Js.bind_error (hx h _ _ hxh hr.of_error)]
  · rw [Js.bind_ok hxh] at hrun
    rw [Js.bind_ok (hx h _ _ hxh (ended_ok a))]
    exact hf a h₁ r h' hrun hr

theorem extends_refl {α : Type} (x : Script O α) : Extends x x := fun _ _ _ h _ => h

end

namespace World

variable (w : World O)

omit [DecidableEq O] in
theorem elementPointers_extends {f g : O → Script O Ref} (hfg : ∀ t, Extends (f t) (g t))
    (fields : List O) : Extends (w.elementPointers f fields) (w.elementPointers g fields) := by
  induction fields with
  | nil => exact extends_refl _
  | cons field fields ih =>
    unfold elementPointers
    rcases w.elementType field with ⟨_ | t, count⟩
    · exact extends_refl _
    · refine extends_bind (hfg _) fun ptr => extends_bind (extends_refl _) fun _ => ?_
      exact extends_bind ih fun rest => extends_refl _

theorem toFfiType_succ_extends (fuel : Nat) (type : O) :
    Extends (w.toFfiType fuel type) (w.toFfiType (fuel + 1) type) := by
  induction fuel generalizing type with
  | zero =>
    intro h r h' hrun hr
    exact absurd (congrArg Prod.fst hrun).symm hr
  | succ fuel ih =>
    intro h r h' hrun hr
    rw [toFfiType_succ] at hrun ⊢
    cases hb : w.branch h type with
    | done _ | cString | names =>
      rw [hb] at hrun
      exact hrun
    | struct fields =>
      rw [hb] at hrun
      exact extends_bind (elementPointers_extends w ih fields) (fun _ => extends_refl _) h r h'
        hrun hr

theorem toFfiType_mono {n m : Nat} (hle : n ≤ m) (type : O) :
    Extends (w.toFfiType n type) (w.toFfiType m type) := by
  obtain ⟨k, rfl⟩ := Nat.exists_eq_add_of_le hle
  clear hle
  induction k with
  | zero => exact extends_refl _
  | succ k ih =>
    intro h r h' hrun hr
    exact w.toFfiType_succ_extends (n + k) type h r h' (ih h r h' hrun hr) hr

/-! ### Writes -/

/-- `P` relates the heaps before and after every write. -/
structure Kept (P : Heap O → Heap O → Prop) : Prop where
  refl : ∀ h, P h h
  trans : ∀ h₁ h₂ h₃, P h₁ h₂ → P h₂ h₃ → P h₁ h₃
  assign : ∀ h o v, P h (h.assign o v)
  cache : ∀ h o es, P h (h.cache o es)

variable {P : Heap O → Heap O → Prop}

theorem kept_bind (hP : Kept P) {α β : Type} {x : Script O α} {f : α → Script O β} {h : Heap O}
    (hx : P h (x h).2) (hf : ∀ a h', P h' (f a h').2) : P h ((x >>= f) h).2 := by
  rcases hrun : x h with ⟨e | a, h₁⟩
  · rw [Js.bind_error hrun]
    rwa [hrun] at hx
  · rw [Js.bind_ok hrun]
    rw [hrun] at hx
    exact hP.trans _ _ _ hx (hf a h₁)

theorem lookupNames_preserves (hP : Kept P) (chain : List O) (h : Heap O) :
    P h (w.lookupNames chain h).2 := by
  induction chain generalizing h with
  | nil => exact hP.refl h
  | cons cur rest ih =>
    unfold lookupNames
    refine kept_bind hP (hP.assign h cur _) fun _ h' => ?_
    cases (w.read w.name cur).bind ffiTypes with
    | some r => exact hP.refl h'
    | none => exact ih h'

theorem elementPointers_preserves (hP : Kept P) {f : O → Script O Ref}
    (hf : ∀ t h, P h (f t h).2) (fields : List O) (h : Heap O) :
    P h (w.elementPointers f fields h).2 := by
  induction fields generalizing h with
  | nil => exact hP.refl h
  | cons field fields ih =>
    unfold elementPointers
    rcases w.elementType field with ⟨_ | t, count⟩
    · exact hP.refl h
    · exact kept_bind hP (hf t h) fun ptr h₁ => kept_bind hP (hP.refl h₁) fun _ h₂ =>
        kept_bind hP (ih h₂) fun _ h₃ => hP.refl h₃

/-- **What every write keeps is kept by `Type`.** -/
theorem toFfiType_preserves (hP : Kept P) (fuel : Nat) (type : O) (h : Heap O) :
    P h (w.toFfiType fuel type h).2 := by
  induction fuel generalizing type h with
  | zero => exact hP.refl h
  | succ fuel ih =>
    rw [toFfiType_succ]
    cases w.branch h type with
    | done r => exact hP.refl h
    | cString => exact hP.assign h type (some Ref.pointer)
    | names => exact lookupNames_preserves w hP (w.chain type) h
    | struct fields =>
      rw [resume_struct]
      exact kept_bind hP (elementPointers_preserves w hP ih fields h) fun es h' =>
        hP.cache h' type es

/-- The fields stay, and so do the structures made so far. -/
def Grown (h h' : Heap O) : Prop := h'.fields = h.fields ∧ h.made <+: h'.made

theorem kept_grown : Kept (Grown (O := O)) where
  refl _ := ⟨rfl, List.prefix_rfl⟩
  trans _ _ _ h₁ h₂ := ⟨h₂.1.trans h₁.1, h₁.2.trans h₂.2⟩
  assign _ _ _ := ⟨rfl, List.prefix_rfl⟩
  cache _ _ _ := ⟨rfl, List.prefix_append _ _⟩

theorem toFfiType_grown (fuel : Nat) (type : O) (h : Heap O) :
    Grown h (w.toFfiType fuel type h).2 := w.toFfiType_preserves kept_grown fuel type h

end World

end NodeFfi.Resolve
