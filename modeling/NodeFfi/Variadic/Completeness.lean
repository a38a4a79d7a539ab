import NodeFfi.Variadic.Signatures

/-!
# One function for one request

`VariadicForeignFunction` "takes care of caching and reusing" its functions, so calls for the same
types should share one, whether the types are given as type objects or by name. `ref.coerceType`
returns the registered object for the name of a type, and a new pointer type for `'pointer'` and
for names with a `*`; a new type object gets a new id, and a key that no call had before. So the
calls for one request share their function exactly when the random numbers of the new types at each
position of the request agree (`cache_complete_iff`).
-/

namespace NodeFfi.Variadic

open Js NodeFfi.Types Libffi Memo Transition

variable {T : Type}

/-- The names that `ref` knows, and the type object of each. -/
structure Names (rt : Runtime T) where
  registered : String → Option T
  coerceText_registered : ∀ s t, registered s = some t → ∀ n, rt.coerceText s n = .ok t

namespace Names

variable {rt : Runtime T} (names : Names rt)

/-- What a type argument stands for: a type object, or the name of a type that is made anew. -/
def denotes : TypeArg T → T ⊕ String
  | .type t => .inl t
  | .text s => match names.registered s with
    | some t => .inl t
    | none => .inr s

/-- What a call asks for: the return type of the generator and the variadic types. -/
def request (c : Call T) : List (T ⊕ String) := (c.property :: c.arguments).map names.denotes

/-- The request is for types that there are already, not for one that is made anew. -/
def Settled (r : List (T ⊕ String)) : Prop := ∀ d ∈ r, d.isLeft

theorem denotes_registered {s : String} {t : T} (h : names.registered s = some t) :
    names.denotes (.text s) = .inl t := by
  simp [denotes, h]

theorem denotes_new {s : String} (h : names.registered s = none) :
    names.denotes (.text s) = .inr s := by
  simp [denotes, h]

end Names

/-- The type objects that the return type and the variadic types of a call were coerced to. -/
def Call.coerced (g : Generator T) (c : Call T) : List T :=
  c.signature.returnType :: c.signature.argTypes.drop g.fixedArgTypes.length

/-- Calls for the same types return the same function, and there are no more functions in the
cache than requests. -/
structure Session.CacheComplete {rt : Runtime T} (names : Names rt) (s : Session T) : Prop where
  reused : ∀ c ∈ s.calls, ∀ c' ∈ s.calls, names.request c = names.request c' → c.func = c'.func
  bounded : {f | ∃ k, s.state.cache k = some f}.encard ≤
    {r | ∃ c ∈ s.calls, names.request c = r}.encard

/-- Where two calls have a name for which `coerceType` makes a new type, the new types of both
have the same number. -/
def State.Renewed {rt : Runtime T} (names : Names rt) (g : Generator T) (st : State T)
    (c c' : Call T) : Prop :=
  ∀ (i : Nat) (s : String), (c.property :: c.arguments)[i]? = some (.text s) →
    names.registered s = none →
    (c.coerced g)[i]?.bind st.number = (c'.coerced g)[i]?.bind st.number

section iff

variable {rt : Runtime T} {names : Names rt}

theorem coerces_of_denotes {arg : TypeArg T} {t u : T} (h : rt.Coerces arg t)
    (hd : names.denotes arg = .inl u) : t = u := by
  cases arg with
  | type v =>
    obtain rfl : v = t := h
    exact Sum.inl.inj hd
  | text s =>
    obtain ⟨n, hn⟩ := h
    cases hr : names.registered s with
    | none =>
      rw [names.denotes_new hr] at hd
      cases hd
    | some v =>
      rw [names.denotes_registered hr] at hd
      have hv := names.coerceText_registered s v hr n
      rw [hn] at hv
      rw [Except.ok.inj hv, Sum.inl.inj hd]

theorem eq_of_denotes {arg arg' : TypeArg T} {t t' : T} (h : rt.Coerces arg t)
    (h' : rt.Coerces arg' t') (heq : names.denotes arg = names.denotes arg')
    (hold : ∀ s, arg = .text s → names.registered s ≠ none) : t = t' := by
  obtain ⟨u, hu⟩ : ∃ u, names.denotes arg = .inl u := by
    cases arg with
    | type v => exact ⟨v, rfl⟩
    | text s =>
      obtain ⟨u, hu⟩ := Option.ne_none_iff_exists'.mp (hold s rfl)
      exact ⟨u, names.denotes_registered hu⟩
  rw [coerces_of_denotes h hu, coerces_of_denotes h' (heq.symm.trans hu)]

theorem map_eq_iff {f : T → Option Nat} {args args' : List (TypeArg T)} {types types' : List T}
    (h : List.Forall₂ rt.Coerces args types) (h' : List.Forall₂ rt.Coerces args' types')
    (heq : args.map names.denotes = args'.map names.denotes) :
    types.map f = types'.map f ↔
      ∀ (i : Nat) (s : String), args[i]? = some (.text s) → names.registered s = none →
        types[i]?.bind f = types'[i]?.bind f := by
  induction h generalizing args' types' with
  | nil =>
    cases h' with
    | nil => simp
    | cons _ _ => simp at heq
  | @cons arg t args types hc _ ih =>
    cases h' with
    | nil => simp at heq
    | @cons arg' t' args' types' hc' hrest' =>
      rw [List.map_cons, List.map_cons, List.cons.injEq] at heq
      rw [List.map_cons, List.map_cons, List.cons.injEq, ih hrest' heq.2]
      constructor
      · rintro ⟨hhead, htail⟩ i s hi hs
        cases i with
        | zero => simpa using hhead
        | succ i => exact htail i s (by simpa using hi) hs
      · intro hall
        refine ⟨?_, fun i s hi hs => by simpa using hall (i + 1) s (by simpa using hi) hs⟩
        by_cases hnew : ∃ s, arg = .text s ∧ names.registered s = none
        · obtain ⟨s, rfl, hs⟩ := hnew
          simpa using hall 0 s rfl hs
        · rw [eq_of_denotes hc hc' heq.1 fun s hs hr => hnew ⟨s, hs, hr⟩]

variable {g : Generator T} {s : Session T}

theorem renewed_of_settled {st : State T} {c c' : Call T} (h : Names.Settled (names.request c)) :
    st.Renewed names g c c' := by
  intro i text hi hnone
  have hmem : names.denotes (.text text) ∈ names.request c :=
    List.mem_map_of_mem (List.mem_of_getElem? hi)
  rw [names.denotes_new hnone] at hmem
  cases h _ hmem

theorem settled_of_pairwise {calls : List (Call T)}
    (h : calls.Pairwise fun c c' => names.request c = names.request c' →
      Names.Settled (names.request c)) {c c' : Call T} (hc : c ∈ calls) (hc' : c' ∈ calls)
    (hne : c ≠ c') (heq : names.request c = names.request c') :
    Names.Settled (names.request c) := by
  have hsymm : Std.Symm fun c c' : Call T => names.request c = names.request c' →
      Names.Settled (names.request c) :=
    ⟨fun c c' hsettled heq => heq ▸ hsettled heq.symm⟩
  exact h.forall hc hc' hne heq

namespace Session

theorem Inv.coerces (h : Inv rt g s) {c : Call T} (hc : c ∈ s.calls) :
    List.Forall₂ rt.Coerces (c.property :: c.arguments) (c.coerced g) ∧
      c.signature.types =
        c.signature.returnType :: (g.fixedArgTypes ++ (c.coerced g).tail) := by
  obtain ⟨hreturn, types, htypes, hargs⟩ := h.asked c hc
  have hdrop : c.coerced g = c.signature.returnType :: types := by
    unfold Call.coerced
    rw [hargs, List.drop_left]
  refine ⟨by rw [hdrop]; exact .cons hreturn htypes, ?_⟩
  rw [hdrop, Signature.types, hargs, List.tail_cons]

theorem Inv.key_eq_iff_renewed (h : Inv rt g s) {c c' : Call T} (hc : c ∈ s.calls)
    (hc' : c' ∈ s.calls) (heq : names.request c = names.request c') :
    c.answer.key = c'.answer.key ↔ s.state.Renewed names g c c' := by
  obtain ⟨hcoerces, htypes⟩ := h.coerces hc
  obtain ⟨hcoerces', htypes'⟩ := h.coerces hc'
  have hmap := map_eq_iff (f := s.state.number) hcoerces hcoerces' heq
  unfold State.Renewed
  rw [h.key_eq_iff hc hc', State.SameNumbers, htypes, htypes', ← hmap]
  simp [Call.coerced]

theorem Inv.cacheComplete_iff (h : Inv rt g s) :
    s.CacheComplete names ↔ ∀ c ∈ s.calls, ∀ c' ∈ s.calls,
      names.request c = names.request c' → s.state.Renewed names g c c' := by
  have hfunc : ∀ c ∈ s.calls, ∀ c' ∈ s.calls, names.request c = names.request c' →
      (c.func = c'.func ↔ s.state.Renewed names g c c') := by
    intro c hc c' hc' heq
    rw [← h.key_eq_iff_renewed hc hc' heq]
    exact h.memo.value_eq_iff (List.mem_map_of_mem hc) (List.mem_map_of_mem hc')
  constructor
  · intro hcomplete c hc c' hc' heq
    exact (hfunc c hc c' hc' heq).mp (hcomplete.reused c hc c' hc' heq)
  · intro hrenewed
    have hreused : ∀ c ∈ s.calls, ∀ c' ∈ s.calls, names.request c = names.request c' →
        c.func = c'.func :=
      fun c hc c' hc' heq => (hfunc c hc c' hc' heq).mpr (hrenewed c hc c' hc' heq)
    refine ⟨hreused, ?_⟩
    have hcached : {f | ∃ k, s.state.cache k = some f} = Call.func '' {c | c ∈ s.calls} := by
      rw [h.memo.values_eq]
      ext f
      simp [Call.func]
    rw [hcached]
    exact encard_le_of_alike {c | c ∈ s.calls} Call.func names.request hreused

end Session

end iff

/-! ### Types by name -/

/-- `int`, `char *` strings, and the pointer types that are made for `'pointer'`. -/
inductive Named where
  | int | cString | pointer (n : Nat)
  deriving DecidableEq

namespace Named

def shape : Named → Shape
  | .int => .other (.builtin .int)
  | .cString => .other (.builtin .cString)
  | .pointer _ => .void 1

def size : Named → Nat
  | .int => 4
  | .cString => 8
  | .pointer _ => 0

/-- `ref.coerceType`. -/
def coerceText (s : String) (n : Nat) : Except String Named :=
  if s = "int" then .ok .int
  else if s = "string" then .ok .cString
  else if s = "pointer" then .ok (.pointer n)
  else .error "could not determine a proper \"type\""

def runtime : Runtime Named where
  object := shape
  size := size
  prototypes _ := []
  random := Sample.eighths
  coerceText := coerceText
  coerceText_object s m n := by
    unfold coerceText
    split_ifs <;> rfl
  defaultAbi := 2
  prepCifVar _ _ _ _ := .ok

def names : Names runtime where
  registered s := if s = "int" then some .int else if s = "string" then some .cString else none
  coerceText_registered s t h n := by
    unfold runtime coerceText
    by_cases hint : s = "int"
    · simp_all
    · by_cases hstring : s = "string" <;> simp_all

def start : State Named := ⟨fun _ => none, 0, 0, .type .int, fun _ => none, 0⟩

/-- `VariadicForeignFunction(funcPtr, 'int', ['string'])`. -/
def generator : Generator Named :=
  ⟨.text "int", [.cString], [some (Id.ofRandom (Sample.eighths 0))], none⟩

def opened : State Named :=
  { runtime.assignId .cString { start with coercions := 1 } with returnType := .text "int" }

theorem new_eq : runtime.variadicForeignFunction (.text "int") [.text "string"] none start =
    (.ok generator, opened) := rfl

def session (actions : List (Action Named)) : Option (Session Named) :=
  (Session.system runtime generator).run ⟨opened, []⟩ actions

end Named

section session

variable [DecidableEq T] {rt : Runtime T} {names : Names rt} {g : Generator T} {s : Session T}
  {returnType : TypeArg T} {fixedArgTypes : List (TypeArg T)} {abi : Option Nat} {st st' : State T}
  {actions : List (Action T)}

/-- **Calls for the same types share one function, and the cache holds no more functions than were
asked for**, if no two calls are for the same with a name in it for which `coerceType` makes a new
type each time; and where two are, exactly if the numbers drawn for the two new types at each
position are the same. -/
theorem cache_complete_iff
    (hnew : rt.variadicForeignFunction returnType fixedArgTypes abi st = (.ok g, st'))
    (hrun : (Session.system rt g).run ⟨st', []⟩ actions = some s) :
    ((s.calls.Pairwise fun c c' => names.request c = names.request c' →
        Names.Settled (names.request c)) → s.CacheComplete names) ∧
      (s.CacheComplete names ↔ ∀ c ∈ s.calls, ∀ c' ∈ s.calls,
        names.request c = names.request c' → s.state.Renewed names g c c') := by
  have hiff : s.CacheComplete names ↔ _ := (Session.inv_of_run hnew hrun).cacheComplete_iff
  refine ⟨fun hsettled => hiff.mpr fun c hc c' hc' heq => ?_, hiff⟩
  by_cases hne : c = c'
  · subst hne
    exact fun _ _ _ _ => rfl
  · exact renewed_of_settled (settled_of_pairwise hsettled hc hc' hne heq)

end session

theorem named_cache_complete : ∃ s, Named.session
    [.call [.text "int"], .call [.text "pointer"], .call [.type .int, .text "string"],
      .call [.type .int]] = some s ∧ s.calls.length = 4 ∧ s.CacheComplete Named.names := by
  obtain ⟨s, hs⟩ := Option.isSome_iff_exists.mp (show (Named.session
    [.call [.text "int"], .call [.text "pointer"], .call [.type .int, .text "string"],
      .call [.type .int]]).isSome by decide +kernel)
  have hlength : ∀ s' ∈ some s, s'.calls.length = 4 := by
    rw [← hs]
    decide +kernel
  have hsettled : ∀ s' ∈ some s, s'.calls.Pairwise fun c c' =>
      Named.names.request c = Named.names.request c' →
        Names.Settled (Named.names.request c) := by
    rw [← hs]
    unfold Names.Settled
    decide +kernel
  exact ⟨s, hs, hlength s rfl, (cache_complete_iff Named.new_eq hs).1 (hsettled s rfl)⟩

/-- Two calls for a pointer have two functions. -/
theorem pointer_cache_incomplete : ∃ s, Named.session
    [.call [.text "pointer"], .call [.text "pointer"]] = some s ∧
      ¬ s.CacheComplete Named.names := by
  obtain ⟨s, hs⟩ := Option.isSome_iff_exists.mp (show (Named.session
    [.call [.text "pointer"], .call [.text "pointer"]]).isSome by decide +kernel)
  have hcalls : ∀ s' ∈ some s, ∃ c ∈ s'.calls, ∃ c' ∈ s'.calls,
      Named.names.request c = Named.names.request c' ∧ c.func.number ≠ c'.func.number := by
    rw [← hs]
    decide +kernel
  obtain ⟨c, hc, c', hc', heq, hne⟩ := hcalls s rfl
  exact ⟨s, hs, fun hcomplete => hne (congrArg Func.number (hcomplete.reused c hc c' hc' heq))⟩

end NodeFfi.Variadic
