import NodeFfi.Variadic.Session

/-!
# One signature, and one function for each

The two things that a generator should guarantee in every session. The function that a call returns
has one signature, that of the call: in its `ffi_cif`, and in the types it encodes and decodes with.
And different calls have different functions. Each is shown to hold exactly when the random numbers
behind the ids tell the types of the calls apart; the first also needs the return type of the call
to be, for libffi, the one that the generator was made with.
-/

namespace NodeFfi.Variadic

open Js NodeFfi.Types Libffi Memo Transition

/-! ### The guarantees -/

section guarantees

variable {T : Type}

/-- The function of the call was made for the types of the call, on both sides. -/
def Runtime.Right (rt : Runtime T) (c : Call T) : Prop :=
  c.func.signature = c.signature ∧
    rt.Describes c.func.cif (.type c.signature.returnType) c.signature.argTypes

/-- The types of the calls have the same numbers, one by one. -/
def State.SameNumbers (st : State T) (c c' : Call T) : Prop :=
  c.signature.types.map st.number = c'.signature.types.map st.number

instance (st : State T) (c c' : Call T) : Decidable (st.SameNumbers c c') :=
  inferInstanceAs (Decidable (_ = _))

/-- Calls with different types have different functions, whose keys tell the types. -/
structure Session.CacheSound (s : Session T) : Prop where
  different : ∀ c ∈ s.calls, ∀ c' ∈ s.calls,
    c.signature.argTypes ≠ c'.signature.argTypes → c.func ≠ c'.func
  exact : ∀ c ∈ s.calls, c.func.argTypes = c.signature.argTypes
  determined : ∀ c ∈ s.calls, ∀ c' ∈ s.calls,
    c.answer.key = c'.answer.key → c.signature.argTypes = c'.signature.argTypes

end guarantees

section iff

variable {T : Type} {rt : Runtime T} {g : Generator T} {s : Session T}

namespace Session

theorem Inv.key_eq_iff (h : Inv rt g s) {c c' : Call T} (hc : c ∈ s.calls) (hc' : c' ∈ s.calls) :
    c.answer.key = c'.answer.key ↔ s.state.SameNumbers c c' := by
  obtain ⟨hids, hkey⟩ := h.keys c hc
  obtain ⟨hids', hkey'⟩ := h.keys c' hc'
  rw [hkey, hkey', State.key_eq_iff hids hids']
  rfl

theorem Inv.separated_iff (h : Inv rt g s) {P : Type} (p : Signature T → P) :
    Separated p (s.calls.map Call.answer) ↔
      ∀ c ∈ s.calls, ∀ c' ∈ s.calls, s.state.SameNumbers c c' →
        p c.signature = p c'.signature := by
  constructor
  · intro hsep c hc c' hc' hsame
    exact hsep _ (List.mem_map_of_mem hc) _ (List.mem_map_of_mem hc')
      ((h.key_eq_iff hc hc').mpr hsame)
  · intro hsame a ha b hb hkey
    obtain ⟨c, hc, rfl⟩ := List.mem_map.mp ha
    obtain ⟨c', hc', rfl⟩ := List.mem_map.mp hb
    exact hsame c hc c' hc' ((h.key_eq_iff hc hc').mp hkey)

theorem Inv.exact_iff (h : Inv rt g s) {P : Type} (p : Signature T → P) :
    (∀ c ∈ s.calls, p c.func.signature = p c.signature) ↔
      ∀ c ∈ s.calls, ∀ c' ∈ s.calls, s.state.SameNumbers c c' →
        p c.signature = p c'.signature := by
  rw [← h.separated_iff, ← h.memo.exact_iff, List.forall_mem_map]
  rfl

theorem Inv.describes (h : Inv rt g s) {c : Call T} (hc : c ∈ s.calls) :
    rt.Describes c.func.cif g.returnType c.func.argTypes :=
  (h.built _ _ (h.memo.served _ (List.mem_map_of_mem hc))).2

theorem Inv.typeOf_returnType (h : Inv rt g s) {c : Call T} (hc : c ∈ s.calls) :
    rt.typeOf (.type c.signature.returnType) = rt.typeOf c.property :=
  (rt.typeOf_coerces (h.asked c hc).1).symm

theorem Inv.right_iff (h : Inv rt g s) :
    (∀ c ∈ s.calls, rt.Right c) ↔
      (∀ c ∈ s.calls, rt.typeOf g.returnType = rt.typeOf c.property) ∧
      ∀ c ∈ s.calls, ∀ c' ∈ s.calls, s.state.SameNumbers c c' → c.signature = c'.signature := by
  have hexact := h.exact_iff fun sig => sig
  constructor
  · intro hright
    refine ⟨?_, hexact.mp fun c hc => (hright c hc).1⟩
    intro c hc
    rw [← h.typeOf_returnType hc, (hright c hc).2.1]
    exact (h.describes hc).1
  · rintro ⟨htype, hsame⟩ c hc
    have hsig : c.func.signature = c.signature := hexact.mpr hsame c hc
    obtain ⟨hrtype, hatypes⟩ := h.describes hc
    refine ⟨hsig, ?_, ?_⟩
    · rw [h.typeOf_returnType hc, ← htype c hc]
      exact hrtype
    · rw [← hsig]
      exact hatypes

theorem Inv.cacheSound_iff (h : Inv rt g s) :
    s.CacheSound ↔ ∀ c ∈ s.calls, ∀ c' ∈ s.calls, s.state.SameNumbers c c' →
      c.signature.argTypes = c'.signature.argTypes := by
  have hexact := h.exact_iff Signature.argTypes
  constructor
  · intro hsound
    exact hexact.mp hsound.exact
  · intro hsame
    have hkey := (h.separated_iff Signature.argTypes).mpr hsame
    have hvalue := (h.memo.sound_iff Signature.argTypes).mpr hkey
    refine ⟨?_, hexact.mpr hsame, ?_⟩
    · intro c hc c' hc' hne heq
      exact hne (hvalue _ (List.mem_map_of_mem hc) _ (List.mem_map_of_mem hc') heq)
    · intro c hc c' hc' heq
      exact hkey _ (List.mem_map_of_mem hc) _ (List.mem_map_of_mem hc') heq

end Session

end iff

/-! ### Sample types -/

/-- Four types of `ref`. -/
inductive Sample where
  | int | int32 | double | cString
  deriving DecidableEq

namespace Sample

def builtin : Sample → Builtin
  | .int => .int
  | .int32 => .int32
  | .double => .double
  | .cString => .cString

/-- A program with the sample types, on which libffi never fails. -/
def runtime (random : Nat → Draw) : Runtime Sample where
  object t := .other (.builtin t.builtin)
  size t := t.builtin.extent.size
  prototypes _ := []
  random := random
  coerceText _ _ := .error "could not determine a proper \"type\""
  coerceText_object _ _ _ := rfl
  defaultAbi := 2
  prepCifVar _ _ _ _ := .ok

/-- `Math.random` that goes through eight numbers. -/
def eighths (n : Nat) : Draw where
  value := (n % 8 : Nat) / 8
  nonneg := by positivity
  lt_one := by
    rw [div_lt_one (by norm_num)]
    exact_mod_cast Nat.mod_lt n (by decide)

/-- `Math.random` that always returns `0`. -/
def zeros (_ : Nat) : Draw := ⟨0, by norm_num, by norm_num⟩

/-- The generator for `int f(char *, ...)`. -/
def generator (random : Nat → Draw) : Generator Sample :=
  ⟨.type .int, [.cString], [some (Id.ofRandom (random 0))], none⟩

/-- No type has an id yet. -/
def start : State Sample := ⟨fun _ => none, 0, 0, .type .int, fun _ => none, 0⟩

def opened (random : Nat → Draw) : State Sample :=
  (runtime random).assignId .cString start

theorem new_eq (random : Nat → Draw) :
    (runtime random).variadicForeignFunction (.type .int) [.type .cString] none start =
      (.ok (generator random), opened random) := rfl

theorem typeOf_type (random : Nat → Draw) (t : Sample) :
    (runtime random).typeOf (.type t) = .ok t.builtin.ffiTypeName.ffiType :=
  TypeObject.toFfiType_builtin t.builtin

/-- `VariadicForeignFunction(funcPtr, int, [cString])`, and a session of what it returns. -/
def session (random : Nat → Draw) (actions : List (Action Sample)) : Option (Session Sample) :=
  match (runtime random).variadicForeignFunction (.type .int) [.type .cString] none start with
  | (.ok g, st) => (Session.system (runtime random) g).run ⟨st, []⟩ actions
  | (.error _, _) => none

end Sample

/-! ### Every session -/

section session

variable {T : Type} [DecidableEq T] {rt : Runtime T} {g : Generator T} {s : Session T}
  {returnType : TypeArg T} {fixedArgTypes : List (TypeArg T)} {abi : Option Nat} {st st' : State T}
  {actions : List (Action T)}

theorem Session.inv_of_run
    (hnew : rt.variadicForeignFunction returnType fixedArgTypes abi st = (.ok g, st'))
    (hrun : (Session.system rt g).run ⟨st', []⟩ actions = some s) : Inv rt g s :=
  (Inv.init hnew).run hrun

theorem Runtime.returnType_of_new
    (hnew : rt.variadicForeignFunction returnType fixedArgTypes abi st = (.ok g, st')) :
    g.returnType = returnType := by
  obtain ⟨u, st₁, -, h⟩ := Js.of_bind_ok hnew
  obtain ⟨types, st₂, -, h⟩ := Js.of_bind_ok h
  obtain ⟨key, st₃, -, h⟩ := Js.of_bind_ok h
  cases h
  rfl

/-- **The functions that the calls of a session return have the signatures of the calls exactly
when** libffi's type for every return type is the one for the return type that the generator was
made with, and calls whose types have the same numbers have the same types. -/
theorem signatures_agree_iff
    (hnew : rt.variadicForeignFunction returnType fixedArgTypes abi st = (.ok g, st'))
    (hrun : (Session.system rt g).run ⟨st', []⟩ actions = some s) :
    (∀ c ∈ s.calls, rt.Asked g c.property c.arguments c.signature) ∧
    ((∀ c ∈ s.calls, rt.Right c) ↔
      (∀ c ∈ s.calls, rt.typeOf returnType = rt.typeOf c.property) ∧
      ∀ c ∈ s.calls, ∀ c' ∈ s.calls, s.state.SameNumbers c c' →
        c.signature = c'.signature) := by
  have hinv := Session.inv_of_run hnew hrun
  have hiff := hinv.right_iff
  rw [Runtime.returnType_of_new hnew] at hiff
  exact ⟨hinv.asked, hiff⟩

theorem int32_signatures_agree : ∃ s, Sample.session Sample.eighths
    [.call [.type .double], .assign (.type .int32), .call [.type .double], .call [.type .int],
      .call [.type .double]] = some s ∧ s.calls.length = 4 ∧
    ∀ c ∈ s.calls, (Sample.runtime Sample.eighths).Right c := by
  obtain ⟨s, hs⟩ := Option.isSome_iff_exists.mp (show (Sample.session Sample.eighths
    [.call [.type .double], .assign (.type .int32), .call [.type .double], .call [.type .int],
      .call [.type .double]]).isSome by decide +kernel)
  have hlength : ∀ s' ∈ some s, s'.calls.length = 4 := by
    rw [← hs]
    decide +kernel
  have hproperty : ∀ s' ∈ some s, ∀ c ∈ s'.calls,
      c.property = .type .int ∨ c.property = .type .int32 := by
    rw [← hs]
    decide +kernel
  have hsame : ∀ s' ∈ some s, ∀ c ∈ s'.calls, ∀ c' ∈ s'.calls,
      s'.state.SameNumbers c c' → c.signature = c'.signature := by
    rw [← hs]
    decide +kernel
  refine ⟨s, hs, hlength s rfl, ?_⟩
  refine (signatures_agree_iff (Sample.new_eq Sample.eighths) hs).2.mpr ⟨?_, hsame s rfl⟩
  intro c hc
  rcases hproperty s rfl c hc with h | h
  · rw [h]
  · rw [h, Sample.typeOf_type, Sample.typeOf_type]
    rfl

/-- The generator was made for `int`: a call after `generator.returnType = double` has a function
that decodes a `double` which libffi was not told of. -/
theorem double_signature_disagrees : ∃ s, Sample.session Sample.eighths
    [.assign (.type .double), .call [.type .int]] = some s ∧
    ¬ ∀ c ∈ s.calls, (Sample.runtime Sample.eighths).Right c := by
  obtain ⟨s, hs⟩ := Option.isSome_iff_exists.mp (show (Sample.session Sample.eighths
    [.assign (.type .double), .call [.type .int]]).isSome by decide +kernel)
  have hcall : ∀ s' ∈ some s, ∃ c ∈ s'.calls, c.property = .type .double := by
    rw [← hs]
    decide +kernel
  obtain ⟨c, hc, hproperty⟩ := hcall s rfl
  refine ⟨s, hs, ?_⟩
  intro hright
  have htype := ((Session.inv_of_run (Sample.new_eq Sample.eighths) hs).right_iff.mp hright).1 c hc
  rw [hproperty, show (Sample.generator Sample.eighths).returnType = .type .int from rfl,
    Sample.typeOf_type, Sample.typeOf_type, Except.ok.injEq] at htype
  exact absurd (congrArg FfiType.size htype) (by decide)

/-- **Calls with different types have different functions, made for just these types and found
under keys that tell them apart, exactly when** calls with different types have different numbers.
-/
theorem cache_sound_iff
    (hnew : rt.variadicForeignFunction returnType fixedArgTypes abi st = (.ok g, st'))
    (hrun : (Session.system rt g).run ⟨st', []⟩ actions = some s) :
    s.CacheSound ↔ ∀ c ∈ s.calls, ∀ c' ∈ s.calls,
      c.signature.argTypes ≠ c'.signature.argTypes → ¬ s.state.SameNumbers c c' := by
  rw [(Session.inv_of_run hnew hrun).cacheSound_iff]
  constructor
  · intro hsame c hc c' hc' hne heq
    exact hne (hsame c hc c' hc' heq)
  · intro hdiff c hc c' hc' heq
    by_contra hne
    exact hdiff c hc c' hc' hne heq

theorem eighths_cache_sound : ∃ s, Sample.session Sample.eighths
    [.call [.type .double], .call [.type .int], .call [.type .double],
      .call [.type .double, .type .int], .call []] = some s ∧ s.calls.length = 5 ∧
    s.CacheSound := by
  obtain ⟨s, hs⟩ := Option.isSome_iff_exists.mp (show (Sample.session Sample.eighths
    [.call [.type .double], .call [.type .int], .call [.type .double],
      .call [.type .double, .type .int], .call []]).isSome by decide +kernel)
  have hlength : ∀ s' ∈ some s, s'.calls.length = 5 := by
    rw [← hs]
    decide +kernel
  have hdiff : ∀ s' ∈ some s, ∀ c ∈ s'.calls, ∀ c' ∈ s'.calls,
      c.signature.argTypes ≠ c'.signature.argTypes → ¬ s'.state.SameNumbers c c' := by
    rw [← hs]
    decide +kernel
  exact ⟨s, hs, hlength s rfl,
    (cache_sound_iff (Sample.new_eq Sample.eighths) hs).mpr (hdiff s rfl)⟩

/-- With `Math.random` at `0`, the function made for an `int` is returned for a `double`. -/
theorem zeros_cache_unsound : ∃ s, Sample.session Sample.zeros
    [.call [.type .int], .call [.type .double]] = some s ∧ ¬ s.CacheSound := by
  obtain ⟨s, hs⟩ := Option.isSome_iff_exists.mp (show (Sample.session Sample.zeros
    [.call [.type .int], .call [.type .double]]).isSome by decide +kernel)
  have hcalls : ∀ s' ∈ some s, ∃ c ∈ s'.calls, ∃ c' ∈ s'.calls,
      c.signature.argTypes ≠ c'.signature.argTypes ∧ s'.state.SameNumbers c c' := by
    rw [← hs]
    decide +kernel
  obtain ⟨c, hc, c', hc', hne, hsame⟩ := hcalls s rfl
  refine ⟨s, hs, ?_⟩
  intro hsound
  exact hne ((Session.inv_of_run (Sample.new_eq Sample.zeros) hs).cacheSound_iff.mp hsound
    c hc c' hc' hsame)

end session

end NodeFfi.Variadic
