import NodeFfi.FunctionType.Frame

/-!
# When two functions are the same

Two values of a type are related, one in each of two runs, if they are equal, and functions if they
return related values for related arguments, whenever they are called (`Related`). The states of
the program in the two runs are related by any relation that does not depend on the callbacks
(`Coupling`).

A value that native code gets and hands back unchanged is related to everything that it was related
to before (`encode_related`): a function is then a foreign function around a callback, and a call of
it passes its arguments from the one to the other (`related_wrapped`).
-/

namespace NodeFfi.FunctionType

open Js Js.Js Blocks
open Marshal (RefType Kind settingArgument settingReturnValue fit)

variable {T A K X W : Type}

/-! ### Types -/

@[elab_as_elim]
theorem CType.induct {P : CType T A → Prop} (ref : ∀ type, P (.ref type))
    (function : ∀ retType argTypes abi, P retType → (∀ type ∈ argTypes, P type) →
      P (.function retType argTypes abi)) (type : CType T A) : P type := by
  refine @CType.rec T A P (fun types => ∀ type ∈ types, P type) ref function ?_ ?_ type
  · exact fun _ h => nomatch h
  · intro head tail hhead htail type hmem
    rcases List.mem_cons.mp hmem with rfl | hmem
    · exact hhead
    · exact htail type hmem

/-! ### The relation -/

/-- How the states of the program are related in two runs, between calls. -/
structure Coupling (T A K X W : Type) where
  rel : State T A K X W → State T A K X W → Prop
  pending : ∀ {s' s}, rel s' s → s'.pending = none ∧ s.pending = none
  aside : ∀ {s' s t' t}, rel s' s → s'.Aside t' → s.Aside t → rel t' t

section related

variable [Objects X] [DecidableEq A] (env : Env T A K X W) (C : Coupling T A K X W)

mutual

/-- Two values of a type. What a function without a result returns is not looked at. -/
def Related : CType T A → State T A K X W → State T A K X W → Val T A K X → Val T A K X → Prop
  | .ref type, _, _, v', v =>
    ((env.refType type).Represents v ∧ v' = v) ∨ (env.refType type).IsVoid
  | .function retType argTypes _, s', s, f', f =>
    isFunction f' = true ∧ isFunction f = true ∧
      ∀ t' t, s'.Extends t' → s.Extends t → C.rel t' t →
        ∀ args' args, RelatedAll argTypes t' t args' args →
          Agree (fun u' u v' v => Related retType u' u v' v ∧ C.rel u' u)
            (fun n => call env n f' args') t' (fun n => call env n f args) t

def RelatedAll : List (CType T A) → State T A K X W → State T A K X W → List (Val T A K X) →
    List (Val T A K X) → Prop
  | [], _, _, [], [] => True
  | type :: types, s', s, v' :: vs', v :: vs =>
    Related type s' s v' v ∧ RelatedAll types s' s vs' vs
  | _, _, _, _, _ => False

end

variable {env} {C}

theorem related_function {retType : CType T A} {argTypes : List (CType T A)} {abi : A}
    {s' s : State T A K X W} {f' f : Val T A K X} :
    Related env C (.function retType argTypes abi) s' s f' f ↔
      isFunction f' = true ∧ isFunction f = true ∧
        ∀ t' t, s'.Extends t' → s.Extends t → C.rel t' t →
          ∀ args' args, RelatedAll env C argTypes t' t args' args →
            Agree (fun u' u v' v => Related env C retType u' u v' v ∧ C.rel u' u)
              (fun n => call env n f' args') t' (fun n => call env n f args) t := by
  rw [Related]

theorem Related.mono {type : CType T A} {s' s t' t : State T A K X W} {v' v : Val T A K X}
    (h : Related env C type s' s v' v) (hs' : s'.Extends t') (hs : s.Extends t) :
    Related env C type t' t v' v := by
  cases type with
  | ref type => exact h
  | function retType argTypes abi =>
    rw [related_function] at h ⊢
    exact ⟨h.1, h.2.1, fun u' u hu' hu => h.2.2 u' u (hs'.trans hu') (hs.trans hu)⟩

theorem relatedAll_nil {s' s : State T A K X W} : RelatedAll env C [] s' s [] [] := by
  rw [RelatedAll]
  trivial

theorem relatedAll_cons {type : CType T A} {types : List (CType T A)} {s' s : State T A K X W}
    {v' v : Val T A K X} {vs' vs : List (Val T A K X)} :
    RelatedAll env C (type :: types) s' s (v' :: vs') (v :: vs) ↔
      Related env C type s' s v' v ∧ RelatedAll env C types s' s vs' vs := by
  rw [RelatedAll]

theorem RelatedAll.of_nil {s' s : State T A K X W} {vs' vs : List (Val T A K X)}
    (h : RelatedAll env C [] s' s vs' vs) : vs' = [] ∧ vs = [] := by
  match vs', vs, h with
  | [], [], _ => exact ⟨rfl, rfl⟩

theorem RelatedAll.of_cons {type : CType T A} {types : List (CType T A)} {s' s : State T A K X W}
    {vs' vs : List (Val T A K X)} (h : RelatedAll env C (type :: types) s' s vs' vs) :
    ∃ v' v us' us, vs' = v' :: us' ∧ vs = v :: us ∧ Related env C type s' s v' v ∧
      RelatedAll env C types s' s us' us := by
  match vs', vs, h with
  | v' :: us', v :: us, h =>
    obtain ⟨hv, hus⟩ := relatedAll_cons.mp h
    exact ⟨v', v, us', us, rfl, rfl, hv, hus⟩

theorem RelatedAll.mono {types : List (CType T A)} {s' s t' t : State T A K X W}
    {vs' vs : List (Val T A K X)} (h : RelatedAll env C types s' s vs' vs) (hs' : s'.Extends t')
    (hs : s.Extends t) : RelatedAll env C types t' t vs' vs := by
  induction types generalizing vs' vs with
  | nil =>
    obtain ⟨rfl, rfl⟩ := h.of_nil
    exact relatedAll_nil
  | cons type types ih =>
    obtain ⟨v', v, us', us, rfl, rfl, hv, hus⟩ := h.of_cons
    exact relatedAll_cons.mpr ⟨hv.mono hs' hs, ih hus⟩

theorem RelatedAll.length_eq {types : List (CType T A)} {s' s : State T A K X W}
    {vs' vs : List (Val T A K X)} (h : RelatedAll env C types s' s vs' vs) :
    vs'.length = types.length := by
  induction types generalizing vs' vs with
  | nil =>
    obtain ⟨rfl, _⟩ := h.of_nil
    rfl
  | cons type types ih =>
    obtain ⟨v', v, us', us, rfl, rfl, _, hus⟩ := h.of_cons
    rw [List.length_cons, List.length_cons, ih hus]

/-! ### A call of a foreign function around a callback -/

/-- What the library makes of a value, native code may hand back. -/
def Survives (env : Env T A K X W) (C : Coupling T A K X W) (type : CType T A) : Prop :=
  ∀ {s' s : State T A K X W} {v' v : Val T A K X}, Related env C type s' s v' v →
    ∃ bytes t' v'', type.encode env v' s' = (.ok bytes, t') ∧
      bytes.length = (type.ffiType env).2 ∧ s'.Aside t' ∧ type.decode env bytes = .ok v'' ∧
      Related env C type t' s v'' v

theorem setArguments_related {types : List (CType T A)}
    (hsurvives : ∀ type ∈ types, Survives env C type) (i : Nat) {s' s : State T A K X W}
    {vs' vs : List (Val T A K X)} (h : RelatedAll env C types s' s vs' vs) :
    ∃ bss t' vs'', setArguments env i types vs' s' = (.ok bss, t') ∧ s'.Aside t' ∧
      getArguments env types bss = .ok vs'' ∧ RelatedAll env C types t' s vs'' vs := by
  induction types generalizing i s' vs' vs with
  | nil =>
    obtain ⟨rfl, rfl⟩ := h.of_nil
    exact ⟨[], s', [], rfl, .refl s', rfl, relatedAll_nil⟩
  | cons type types ih =>
    obtain ⟨v', v, us', us, rfl, rfl, hv, hus⟩ := h.of_cons
    obtain ⟨bytes, t', v'', henc, _, haside, hdec, hrel⟩ := hsurvives type (.head _) hv
    obtain ⟨bss, u', vs'', hset, haside', hget, hrels⟩ :=
      ih (fun type hmem => hsurvives type (.tail _ hmem)) (i + 1)
        (hus.mono haside.closures (.refl s))
    refine ⟨bytes :: bss, u', v'' :: vs'', ?_, haside.trans haside', ?_, ?_⟩
    · rw [setArguments, Js.bind_ok (catchThrown_ok henc), Js.bind_ok hset]
      rfl
    · rw [getArguments, hdec]
      simp only
      rw [hget]
      rfl
    · exact relatedAll_cons.mpr ⟨hrel.mono haside'.closures (.refl s), hrels⟩

section wrapped

variable {F : Function T A} {f' : Val T A K X} {b : Nat} {s' t' : State T A K X W}
  {args' args'' : List (Val T A K X)} {bss : List (List Byte)}

theorem call_foreignFunction (hlen : args'.length = F.argTypes.length)
    (hset : setArguments env 0 F.argTypes args' s' = (.ok bss, t')) (p : Ptr) (n : Nat) :
    call env (n + 1) (F.toFunction p) args' s' =
      (do
        let result ← invoke env n ⟨F.cif env, p, bss⟩
        takePending
        Js.resume (F.retType.decode env (fit (F.retType.ffiType env).2 result)) :
          Script T A K X W (Val T A K X)) t' := by
  rw [Function.toFunction, call, proxy, if_neg (fun h => h hlen), Js.bind_ok hset]

theorem invoke_closure (hclosure : t'.closures b = some ⟨F, f'⟩) (n : Nat) :
    invoke env (n + 1) ⟨F.cif env, .block b, bss⟩ t' =
      CallbackInfo.invoke env (call env n) ⟨F, f'⟩ bss t' := by
  rw [invoke]
  simp only
  rw [Js.bind_ok (Js.step_apply _ _), hclosure]
  simp only [if_true]

theorem invoke_running (hclosure : t'.closures b = some ⟨F, f'⟩)
    (hget : getArguments env F.argTypes bss = .ok args'') {n : Nat} {u' : State T A K X W}
    (hrun : call env n f' args'' t' = (.error .running, u')) :
    invoke env (n + 1) ⟨F.cif env, .block b, bss⟩ t' = (.error .running, u') := by
  have hargs : (Js.resume (getArguments env F.argTypes bss) :
      Script T A K X W (List (Val T A K X))) t' = (.ok args'', t') := by
    rw [hget]
    rfl
  rw [invoke_closure hclosure, CallbackInfo.invoke]
  refine Js.bind_error (attempt_running ?_)
  rw [Js.bind_ok hargs]
  exact Js.bind_error hrun

theorem invoke_ok (hclosure : t'.closures b = some ⟨F, f'⟩)
    (hget : getArguments env F.argTypes bss = .ok args'') {n : Nat} {u' u'' : State T A K X W}
    {v' : Val T A K X} {bytes : List Byte} (hrun : call env n f' args'' t' = (.ok v', u'))
    (henc : F.retType.encode env v' u' = (.ok bytes, u'')) :
    invoke env (n + 1) ⟨F.cif env, .block b, bss⟩ t' = (.ok bytes, u'') := by
  have hargs : (Js.resume (getArguments env F.argTypes bss) :
      Script T A K X W (List (Val T A K X))) t' = (.ok args'', t') := by
    rw [hget]
    rfl
  have hbody : (do
      let args ← Js.resume (getArguments env F.argTypes bss)
      let result ← call env n f' args
      Js.catchThrown (F.retType.encode env result) fun e =>
        Js.throw (.thrown (annotated settingReturnValue e)) :
          Script T A K X W (List Byte)) t' = (.ok bytes, u'') := by
    rw [Js.bind_ok hargs, Js.bind_ok hrun]
    exact catchThrown_ok henc
  rw [invoke_closure hclosure, CallbackInfo.invoke, Js.bind_ok (attempt_ok hbody)]
  rfl

omit [DecidableEq A] [Objects X] in
theorem takePending_none (h : s'.pending = none) :
    (takePending : Script T A K X W Unit) s' = (.ok (), s') := by
  rw [takePending, h]

end wrapped

/-- **A foreign function around a callback for a function is as good as the function.** -/
theorem related_wrapped {F : Function T A} (hargTypes : ∀ type ∈ F.argTypes, Survives env C type)
    (hretType : Survives env C F.retType) {s' s s₁ : State T A K X W} {f' f : Val T A K X} {b : Nat}
    (hf : Related env C F.type s' s f' f) (hs : s'.Extends s₁) (hb : b < s₁.memory.next)
    (hclosure : s₁.closures b = some ⟨F, f'⟩) :
    Related env C F.type s₁ s (F.toFunction (.block b)) f := by
  rw [Function.type, related_function] at hf ⊢
  refine ⟨rfl, hf.2.1, ?_⟩
  intro t' t ht' ht hrel args' args hargs
  obtain ⟨bss, t₁, args'', hset, haside, hget, hargs'⟩ := setArguments_related hargTypes 0 hargs
  have hclosure' : t₁.closures b = some ⟨F, f'⟩ := by
    rw [(ht'.trans haside.closures).closures b hb, hclosure]
  have hcall := call_foreignFunction hargs.length_eq hset (.block b)
  have hagree := hf.2.2 t₁ t ((hs.trans ht').trans haside.closures) ht
    (C.aside hrel haside (.refl t)) args'' args hargs'
  apply hagree.wrap 2
  · intro n hn
    match n, hn with
    | 0, _ => rfl
    | 1, _ =>
      rw [hcall]
      rfl
  · intro n u' hrun
    rw [hcall, Js.bind_error (invoke_running hclosure' hget hrun)]
  · intro n v' u' v u hrun hvalue
    obtain ⟨bytes, u'', w', henc, hsize, haside', hdec, hw'⟩ := hretType hvalue.1
    have hrel' := C.aside hvalue.2 haside' (.refl u)
    refine ⟨w', u'', ?_, hw', hrel'⟩
    rw [hcall, Js.bind_ok (invoke_ok hclosure' hget hrun henc),
      Js.bind_ok (takePending_none (C.pending hrel').1), Marshal.fit_of_length hsize, hdec]
    rfl

/-! ### Values in native code -/

theorem encode_related (type : CType T A) : Survives env C type := by
  induction type using CType.induct with
  | ref type =>
    intro s' s v' v h
    have hbytes : ∃ bytes v'', (env.refType type).encode v' = .ok bytes ∧
        (env.refType type).decode bytes = .ok v'' ∧ Related env C (.ref type) s' s v'' v := by
      rw [Related] at h
      rcases h with ⟨⟨bytes, henc, hdec⟩, rfl⟩ | hvoid
      · exact ⟨bytes, v', henc, hdec, by rw [Related]; exact .inl ⟨⟨bytes, henc, hdec⟩, rfl⟩⟩
      · unfold RefType.encode RefType.overwrite RefType.decode
        simp only [if_pos hvoid.indirection, hvoid.set, hvoid.get]
        exact ⟨_, _, rfl, rfl, by rw [Related]; exact .inr hvoid⟩
    obtain ⟨bytes, v'', henc, hdec, hrel⟩ := hbytes
    refine ⟨bytes, s', v'', ?_, Marshal.RefType.length_encode henc, .refl s', hdec, hrel⟩
    rw [CType.encode, henc]
    rfl
  | function retType argTypes abi hretType hargTypes =>
    intro s' s f' f h
    have hf' : isFunction f' = true := (related_function.mp h).1
    obtain ⟨s₁, hptr, haside, hlt, hclosure, _⟩ :=
      pointerTo_function env ⟨retType, argTypes, abi⟩ hf' s'
    refine ⟨encodePtr (.block s'.memory.next), s₁,
      Function.toFunction ⟨retType, argTypes, abi⟩ (.block s'.memory.next), ?_,
      length_encodePtr _, haside, ?_, ?_⟩
    · rw [CType.encode, Js.bind_ok hptr]
      rfl
    · rw [CType.decode, decodePtr_encodePtr]
    · exact related_wrapped (F := ⟨retType, argTypes, abi⟩) hargTypes hretType h haside.closures
        hlt hclosure

end related

end NodeFfi.FunctionType
