import NodeFfi.Variadic.Ids

/-!
# Sessions of a generator

What a call of the generator does, and the invariant of a session (`Session.Inv`): the cache is a
memo table whose keys are the ids of the types of the calls, and the `ffi_cif` of every function in
it has the return type that the generator was made with.
-/

namespace NodeFfi.Variadic

open Js NodeFfi.Types Libffi Memo Transition

namespace Runtime

variable {T : Type} (rt : Runtime T)

/-- `Type` of an argument, without the effects. -/
def typeOf : TypeArg T → Except String FfiType
  | .type t => (rt.object t).toFfiType
  | .text s => (rt.coerceText s 0).map rt.object >>= Shape.toFfiType

/-- `ref.coerceType` may return the type object for the argument. -/
def Coerces : TypeArg T → T → Prop
  | .type t, type => t = type
  | .text s, type => ∃ n, rt.coerceText s n = .ok type

/-! ### Types -/

theorem of_coerceType_ok {arg : TypeArg T} {st st' : State T} {type : T}
    (h : rt.coerceType arg st = (.ok type, st')) : rt.Coerces arg type := by
  cases arg with
  | type t =>
    cases h
    rfl
  | text s => exact ⟨st.coercions, (Prod.mk.inj h).1⟩

theorem typeOf_coerces {arg : TypeArg T} {type : T} (h : rt.Coerces arg type) :
    rt.typeOf arg = (rt.object type).toFfiType := by
  cases arg with
  | type t =>
    obtain rfl : t = type := h
    rfl
  | text s =>
    obtain ⟨n, hn⟩ := h
    have h0 : (rt.coerceText s 0).map rt.object = .ok (rt.object type) := by
      rw [rt.coerceText_object s 0 n, hn]
      rfl
    change (rt.coerceText s 0).map rt.object >>= Shape.toFfiType = _
    rw [h0]
    rfl

theorem of_toFfiType_ok {arg : TypeArg T} {st st' : State T} {ffiType : FfiType}
    (h : rt.toFfiType arg st = (.ok ffiType, st')) : rt.typeOf arg = .ok ffiType := by
  obtain ⟨type, st₁, hcoerce, hrest⟩ := Js.of_bind_ok h
  rw [rt.typeOf_coerces (rt.of_coerceType_ok hcoerce)]
  exact (Prod.mk.inj hrest).1

theorem of_toFfiTypes_ok {types : List T} {st st' : State T} {ffiTypes : List FfiType}
    (h : rt.toFfiTypes types st = (.ok ffiTypes, st')) :
    types.map (fun type => rt.typeOf (.type type)) = ffiTypes.map .ok := by
  induction types generalizing st st' ffiTypes with
  | nil =>
    cases h
    rfl
  | cons type types ih =>
    obtain ⟨ffiType, st₁, htype, h⟩ := Js.of_bind_ok h
    obtain ⟨rest, st₂, hrest, h⟩ := Js.of_bind_ok h
    cases h
    rw [List.map_cons, List.map_cons, rt.of_toFfiType_ok htype, ih hrest]

/-! ### `CIF_var` and `_ForeignFunction` -/

/-- The `ffi_cif` has the types that `Type` gives for these. -/
def Describes (cif : CifVar) (returnType : TypeArg T) (argTypes : List T) : Prop :=
  rt.typeOf returnType = .ok cif.rtype ∧
    argTypes.map (fun type => rt.typeOf (.type type)) = cif.atypes.map .ok

theorem steady_cifVar (rtype : TypeArg T) (types : List T) (numFixedArgs : Nat)
    (abi : Option Nat) : Steady (rt.cifVar rtype types numFixedArgs abi) := by
  unfold cifVar
  apply (steady_assert _ _).bind
  intro u
  apply (rt.steady_toFfiType _).bind
  intro rtypeptr
  apply (rt.steady_toFfiTypes _).bind
  intro argtypesptr
  split
  · exact steady_pure _
  · exact steady_throw _
  · exact steady_throw _

theorem of_cifVar_ok {rtype : TypeArg T} {types : List T} {numFixedArgs : Nat} {abi : Option Nat}
    {st st' : State T} {cif : CifVar}
    (h : rt.cifVar rtype types numFixedArgs abi st = (.ok cif, st')) :
    rt.Describes cif rtype types := by
  obtain ⟨u, st₁, hassert, h⟩ := Js.of_bind_ok h
  obtain ⟨rtypeptr, st₂, hrtype, h⟩ := Js.of_bind_ok h
  obtain ⟨argtypesptr, st₃, htypes, h⟩ := Js.of_bind_ok h
  generalize rt.prepCifVar (abi.getD rt.defaultAbi) numFixedArgs rtypeptr argtypesptr = status at h
  cases status with
  | ok =>
    cases h
    exact ⟨rt.of_toFfiType_ok hrtype, rt.of_toFfiTypes_ok htypes⟩
  | badTypedef => cases h
  | badAbi => cases h

theorem resultSize_pos (returnType : T) : 0 < rt.resultSize returnType := by
  unfold resultSize Marshal.longSize Marshal.ffiArgSize
  split <;> omega

theorem foreignFunction_eq (cif : CifVar) (returnType : T) (argTypes : List T) (st : State T) :
    rt.foreignFunction cif returnType argTypes st =
      (.ok ⟨st.made, cif, returnType, argTypes⟩, { st with made := st.made + 1 }) := by
  unfold foreignFunction assert
  rw [if_pos (by simpa using rt.resultSize_pos returnType), Js.bind_ok (Js.pure_apply () st)]
  rfl

/-! ### The generator -/

theorem of_serve_ok {g : Generator T} {key : List Char} {sig : Signature T} {st st' : State T}
    {f : Func T} (h : rt.serve g key sig st = (.ok f, st')) :
    (st.cache key = some f ∧ st' = st) ∨
    (st.cache key = none ∧ f.signature = sig ∧ f.number = st.made ∧
      rt.Describes f.cif g.returnType f.argTypes ∧
      ∃ st₁, Grows st st₁ ∧ st' =
        { st₁ with made := st₁.made + 1, cache := store st₁.cache key f }) := by
  unfold serve at h
  rw [Js.bind_ok (Js.step_apply _ st)] at h
  dsimp only at h
  rcases hcache : st.cache key with _ | func
  · rw [hcache] at h
    obtain ⟨cif, st₁, hcif, h⟩ := Js.of_bind_ok h
    have hgrows := (rt.steady_cifVar _ _ _ _).of_ok hcif
    rw [Js.bind_ok (rt.foreignFunction_eq cif sig.returnType sig.argTypes st₁)] at h
    cases h
    exact .inr ⟨rfl, rfl, hgrows.made, rt.of_cifVar_ok hcif, st₁, hgrows, rfl⟩
  · rw [hcache] at h
    cases h
    exact .inl ⟨rfl, rfl⟩

theorem grows_of_serve_error {g : Generator T} {key : List Char} {sig : Signature T}
    {st st' : State T} {e : String} (h : rt.serve g key sig st = (.error e, st')) :
    Grows st st' := by
  unfold serve at h
  rw [Js.bind_ok (Js.step_apply _ st)] at h
  dsimp only at h
  rcases hcache : st.cache key with _ | func
  · rw [hcache] at h
    have hsteady := rt.steady_cifVar g.returnType sig.argTypes g.fixedArgTypes.length g.abi st
    rcases hcif : rt.cifVar g.returnType sig.argTypes g.fixedArgTypes.length g.abi st with
      ⟨e' | cif, st₁⟩
    · rw [hcif] at hsteady
      dsimp only at h
      rw [Js.bind_error hcif] at h
      cases h
      exact hsteady
    · dsimp only at h
      rw [Js.bind_ok hcif, Js.bind_ok (rt.foreignFunction_eq _ _ _ st₁)] at h
      cases h
  · rw [hcache] at h
    cases h

variable [DecidableEq T]

theorem steady_variadicTypes (args : List (TypeArg T)) (argTypes : List T)
    (key : List (Option Id)) : Steady (rt.variadicTypes args argTypes key) := by
  induction args generalizing argTypes key with
  | nil => exact steady_pure _
  | cons arg args ih =>
    unfold variadicTypes
    apply (rt.steady_coerceType arg).bind
    intro type
    apply (rt.steady_toFfiType _).bind
    intro ffiType
    apply (steady_assert _ _).bind
    intro u
    apply (rt.steady_getId type).bind
    intro id
    exact ih _ _

theorem of_variadicTypes_ok {args : List (TypeArg T)} {argTypes : List T} {key : List (Option Id)}
    {st st' : State T} {r : List T × List (Option Id)}
    (h : rt.variadicTypes args argTypes key st = (.ok r, st')) :
    ∃ types, List.Forall₂ rt.Coerces args types ∧ r.1 = argTypes ++ types ∧
      r.2 = key ++ types.map st'.ffiId ∧ st'.Identified types := by
  induction args generalizing argTypes key st with
  | nil =>
    cases h
    exact ⟨[], .nil, by simp, by simp, by simp [State.Identified]⟩
  | cons arg args ih =>
    obtain ⟨type, st₁, hcoerce, h⟩ := Js.of_bind_ok h
    obtain ⟨ffiType, st₂, -, h⟩ := Js.of_bind_ok h
    obtain ⟨u, st₃, -, h⟩ := Js.of_bind_ok h
    obtain ⟨id, st₄, hid, h⟩ := Js.of_bind_ok h
    obtain ⟨rfl, hsome, -⟩ := rt.of_getId_ok hid
    obtain ⟨types, hcoerces, hargs, hkey, hident⟩ := ih h
    have hkeep := ((rt.steady_variadicTypes _ _ _).of_ok h).ffiId_eq hsome
    refine ⟨type :: types, .cons (rt.of_coerceType_ok hcoerce) hcoerces, ?_, ?_, ?_⟩
    · rw [hargs, List.append_assoc]
      rfl
    · rw [hkey, List.append_assoc, List.map_cons, hkeep]
      rfl
    · exact State.identified_cons.mpr ⟨hkeep ▸ hsome, hident⟩

theorem steady_request (g : Generator T) (args : List (TypeArg T)) :
    Steady (rt.request g args) := by
  unfold request
  apply (rt.steady_variadicTypes _ _ _).bind
  intro r
  apply (steady_read _).bind
  intro returnType
  apply (rt.steady_coerceType returnType).bind
  intro rtnType
  apply (rt.steady_getId rtnType).bind
  intro rtnName
  exact (steady_assert _ _).bind fun _ => steady_pure _

/-- The types of a call: the property's, the fixed ones and those of the arguments. -/
def Asked (g : Generator T) (property : TypeArg T) (args : List (TypeArg T))
    (sig : Signature T) : Prop :=
  rt.Coerces property sig.returnType ∧
    ∃ types, List.Forall₂ rt.Coerces args types ∧ sig.argTypes = g.fixedArgTypes ++ types

theorem of_request_ok {g : Generator T} {args : List (TypeArg T)} {st st' : State T}
    {key : List Char} {sig : Signature T}
    (hkey : g.fixedKey = g.fixedArgTypes.map st.ffiId) (hfixed : st.Identified g.fixedArgTypes)
    (h : rt.request g args st = (.ok (key, sig), st')) :
    rt.Asked g st.returnType args sig ∧ st'.Identified sig.types ∧ key = st'.key sig.types := by
  have hgrows := (rt.steady_request g args).of_ok h
  obtain ⟨r, st₁, htypes, h⟩ := Js.of_bind_ok h
  have hgrows₁ := (rt.steady_variadicTypes _ _ _).of_ok htypes
  obtain ⟨types, hcoerces, hargs, hids, hident⟩ := rt.of_variadicTypes_ok htypes
  obtain ⟨returnType, st₂, hread, h⟩ := Js.of_bind_ok h
  cases hread
  obtain ⟨rtnType, st₃, hcoerce, h⟩ := Js.of_bind_ok h
  have hgrows₃ := (rt.steady_coerceType _).of_ok hcoerce
  obtain ⟨rtnName, st₄, hid, h⟩ := Js.of_bind_ok h
  obtain ⟨rfl, hsome, hgrows₄⟩ := rt.of_getId_ok hid
  obtain ⟨u, st₅, hassert, h⟩ := Js.of_bind_ok h
  obtain ⟨-, rfl⟩ := of_assert_ok hassert
  cases h
  have hrest : Grows st₁ st' := hgrows₃.trans hgrows₄
  have hsig : st'.Identified r.1 := by
    rw [hargs, State.identified_append]
    exact ⟨hgrows.identified hfixed, hrest.identified hident⟩
  refine ⟨⟨?_, types, hcoerces, hargs⟩, State.identified_cons.mpr ⟨hsome, hsig⟩, ?_⟩
  · rw [← hgrows₁.returnType]
    exact rt.of_coerceType_ok hcoerce
  · unfold State.key Signature.types
    rw [List.map_cons, hids, hargs, hkey, List.map_append, hgrows.map_ffiId_eq hfixed,
      hrest.map_ffiId_eq hident]

theorem steady_getIds (types : List T) : Steady (rt.getIds types) := by
  induction types with
  | nil => exact steady_pure []
  | cons type types ih =>
    apply (rt.steady_getId type).bind
    intro id
    exact ih.bind fun _ => steady_pure _

theorem of_getIds_ok {types : List T} {st st' : State T} {key : List (Option Id)}
    (h : rt.getIds types st = (.ok key, st')) :
    key = types.map st'.ffiId ∧ st'.Identified types := by
  induction types generalizing st key with
  | nil =>
    cases h
    exact ⟨rfl, by simp [State.Identified]⟩
  | cons type types ih =>
    obtain ⟨id, st₁, hid, h⟩ := Js.of_bind_ok h
    obtain ⟨rest, st₂, hrest, h⟩ := Js.of_bind_ok h
    cases h
    obtain ⟨rfl, hsome, -⟩ := rt.of_getId_ok hid
    obtain ⟨rfl, hident⟩ := ih hrest
    have hkeep := ((rt.steady_getIds types).of_ok hrest).ffiId_eq hsome
    exact ⟨by rw [List.map_cons, hkeep], State.identified_cons.mpr ⟨hkeep ▸ hsome, hident⟩⟩

end Runtime

/-! ### The invariant -/

namespace Session

variable {T : Type} {rt : Runtime T} {g : Generator T}

/-- The invariant of a session of `g`. -/
structure Inv (rt : Runtime T) (g : Generator T) (s : Session T) : Prop where
  fixedKey : g.fixedKey = g.fixedArgTypes.map s.state.ffiId
  fixed : s.state.Identified g.fixedArgTypes
  memo : Memoised Func.signature s.state.cache (s.calls.map Call.answer)
  keys : ∀ c ∈ s.calls, s.state.Identified c.signature.types ∧
    c.answer.key = s.state.key c.signature.types
  built : ∀ k f, s.state.cache k = some f →
    f.number < s.state.made ∧ rt.Describes f.cif g.returnType f.argTypes
  asked : ∀ c ∈ s.calls, rt.Asked g c.property c.arguments c.signature

theorem Inv.grows {s : Session T} (h : Inv rt g s) {st : State T}
    (hids : ∀ type id, s.state.ffiId type = some id → st.ffiId type = some id)
    (hcache : st.cache = s.state.cache) (hmade : st.made = s.state.made) :
    Inv rt g ⟨st, s.calls⟩ := by
  have hgrows : Grows { s.state with returnType := st.returnType } st :=
    ⟨hids, rfl, hcache, hmade⟩
  refine ⟨?_, hgrows.identified h.fixed, ?_, ?_, ?_, h.asked⟩
  · exact h.fixedKey.trans (hgrows.map_ffiId_eq h.fixed).symm
  · rw [show (⟨st, s.calls⟩ : Session T).state.cache = s.state.cache from hcache]
    exact h.memo
  · intro c hc
    obtain ⟨hident, hkey⟩ := h.keys c hc
    exact ⟨hgrows.identified hident, hkey.trans (hgrows.key_eq hident).symm⟩
  · intro k f hf
    have hf' : s.state.cache k = some f := by
      rw [← hcache]
      exact hf
    obtain ⟨hnumber, hdescribes⟩ := h.built k f hf'
    exact ⟨hnumber.trans_eq hmade.symm, hdescribes⟩

theorem Inv.of_grows {s : Session T} (h : Inv rt g s) {st : State T} (hgrows : Grows s.state st) :
    Inv rt g ⟨st, s.calls⟩ := h.grows hgrows.ffiId hgrows.cache hgrows.made

theorem Inv.hit {s : Session T} (h : Inv rt g s) {c : Call T}
    (hids : s.state.Identified c.signature.types)
    (hkey : c.answer.key = s.state.key c.signature.types)
    (hasked : rt.Asked g c.property c.arguments c.signature)
    (hcache : s.state.cache c.answer.key = some c.func) :
    Inv rt g ⟨s.state, s.calls ++ [c]⟩ where
  fixedKey := h.fixedKey
  fixed := h.fixed
  memo := by
    rw [List.map_append]
    exact h.memo.hit hcache c.signature
  keys := List.forall_mem_append.mpr ⟨h.keys, List.forall_mem_singleton.mpr ⟨hids, hkey⟩⟩
  built := h.built
  asked := List.forall_mem_append.mpr ⟨h.asked, List.forall_mem_singleton.mpr hasked⟩

theorem Inv.miss {s : Session T} (h : Inv rt g s) {c : Call T}
    (hids : s.state.Identified c.signature.types)
    (hkey : c.answer.key = s.state.key c.signature.types)
    (hasked : rt.Asked g c.property c.arguments c.signature)
    (hcache : s.state.cache c.answer.key = none) (hsig : c.func.signature = c.signature)
    (hnumber : c.func.number = s.state.made)
    (hdescribes : rt.Describes c.func.cif g.returnType c.func.argTypes) :
    Inv rt g ⟨{ s.state with
      made := s.state.made + 1
      cache := store s.state.cache c.answer.key c.func }, s.calls ++ [c]⟩ where
  fixedKey := h.fixedKey
  fixed := h.fixed
  memo := by
    have hfresh : ∀ k, s.state.cache k ≠ some c.func := by
      intro k hk
      have := (h.built k _ hk).1
      omega
    have := h.memo.miss hcache hfresh
    rw [hsig] at this
    rw [List.map_append]
    exact this
  keys := List.forall_mem_append.mpr ⟨h.keys, List.forall_mem_singleton.mpr ⟨hids, hkey⟩⟩
  built := by
    intro k f hf
    change store s.state.cache c.answer.key c.func k = some f at hf
    by_cases heq : k = c.answer.key
    · rw [heq, store_self, Option.some.injEq] at hf
      subst hf
      refine ⟨?_, hdescribes⟩
      change c.func.number < s.state.made + 1
      omega
    · rw [store_of_ne _ _ heq] at hf
      obtain ⟨hlt, hdesc⟩ := h.built k f hf
      exact ⟨Nat.lt_succ_of_lt hlt, hdesc⟩
  asked := List.forall_mem_append.mpr ⟨h.asked, List.forall_mem_singleton.mpr hasked⟩

/-! ### Runs -/

variable [DecidableEq T]

theorem Inv.init {returnType : TypeArg T} {fixedArgTypes : List (TypeArg T)} {abi : Option Nat}
    {st st' : State T}
    (h : rt.variadicForeignFunction returnType fixedArgTypes abi st = (.ok g, st')) :
    Inv rt g ⟨st', []⟩ := by
  obtain ⟨u, st₁, -, h⟩ := Js.of_bind_ok h
  obtain ⟨types, st₂, -, h⟩ := Js.of_bind_ok h
  obtain ⟨key, st₃, hkey, h⟩ := Js.of_bind_ok h
  obtain ⟨rfl, hident⟩ := rt.of_getIds_ok hkey
  cases h
  exact ⟨rfl, hident, .empty, by simp, by simp, by simp⟩

theorem next_call_ok {s : Session T} {args : List (TypeArg T)}
    {answer : Answer (List Char) (Signature T) (Func T)} {st : State T}
    (h : rt.variadicFunctionGenerator g args s.state = (.ok answer, st)) :
    next rt g s (.call args) = ⟨st, s.calls ++ [⟨s.state.returnType, args, answer⟩]⟩ := by
  simp only [Session.next, h]

theorem next_call_error {s : Session T} {args : List (TypeArg T)} {e : String} {st : State T}
    (h : rt.variadicFunctionGenerator g args s.state = (.error e, st)) :
    next rt g s (.call args) = ⟨st, s.calls⟩ := by
  simp only [Session.next, h]

/-- **Every action keeps the invariant.** -/
theorem Inv.next {s : Session T} (h : Inv rt g s) (action : Action T) :
    Inv rt g (next rt g s action) := by
  cases action with
  | assign type => exact h.grows (fun _ _ hid => hid) rfl rfl
  | getId type => exact h.of_grows (rt.steady_getId type s.state)
  | call args =>
    have hgrows := rt.steady_request g args s.state
    rcases hreq : rt.request g args s.state with ⟨e | ⟨key, sig⟩, st₁⟩
    · rw [hreq] at hgrows
      rw [next_call_error (Js.bind_error hreq)]
      exact h.of_grows hgrows
    rw [hreq] at hgrows
    obtain ⟨hasked, hident, hkey⟩ := rt.of_request_ok h.fixedKey h.fixed hreq
    rcases hserve : rt.serve g key sig st₁ with ⟨e | f, st₂⟩
    · rw [next_call_error ((Js.bind_ok hreq).trans (Js.bind_error hserve))]
      exact h.of_grows (hgrows.trans (rt.grows_of_serve_error hserve))
    · rw [next_call_ok ((Js.bind_ok hreq).trans (Js.bind_ok hserve))]
      rcases rt.of_serve_ok hserve with
        ⟨hcache, rfl⟩ | ⟨hcache, hsig, hnumber, hdesc, st₃, hgrows', rfl⟩
      · exact (h.of_grows hgrows).hit hident hkey hasked hcache
      · have hinv := h.of_grows (hgrows.trans hgrows')
        exact hinv.miss (c := ⟨s.state.returnType, args, ⟨key, sig, f⟩⟩)
          (hgrows'.identified hident) (hkey.trans (hgrows'.key_eq hident).symm) hasked
          ((congrFun hgrows'.cache _).trans hcache) hsig (hnumber.trans hgrows'.made.symm) hdesc

theorem Inv.run {s t : Session T} (h : Inv rt g s) {actions : List (Action T)}
    (hrun : (system rt g).run s actions = some t) : Inv rt g t :=
  Lts.run_induction (fun _ u => Inv rt g u) h (fun _ _ action _ hu _ => hu.next action) hrun

end Session

end NodeFfi.Variadic
