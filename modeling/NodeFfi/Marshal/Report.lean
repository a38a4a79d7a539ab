import NodeFfi.Marshal.RoundTrip

/-!
# Failures of callbacks

The value that a step of a callback throws goes through the function around the user's function,
which returns it, and through `DispatchToV8`, which takes `undefined` for success; from another
thread it also goes through `errorReportCallback`, which takes every falsy value for success.
-/

namespace NodeFfi.Marshal

open Js Blocks

variable {E W : Type} [Objects E]

/-- The three steps of a callback that can throw, without the handlers around them. -/
def callbackSteps (retType : RefType E) (argTypes : List (RefType E)) (func : UserFunction E W)
    (retval params : Buffer) : Script E W Unit := do
  let args ← getArguments params 0 argTypes
  let result ← apply func args
  refSet retval result retType

/-- What escapes from the inner `try`: what a `get` or the user's function throws, or what a `set`
throws, as the handler leaves it. -/
def escaped (retType : RefType E) (argTypes : List (RefType E)) (func : UserFunction E W)
    (retval params : Buffer) (m : Machine E W) : Option (Val E) :=
  match getArguments params 0 argTypes m with
  | (.error e, _) => some e
  | (.ok args, m) =>
    match apply func args m with
    | (.error e, _) => some e
    | (.ok result, m) =>
      match refSet retval result retType m with
      | (.error e, _) => some (annotated settingReturnValue e)
      | (.ok (), _) => none

/-- A failure with this value comes through. -/
def Heard (dispatched : Bool) (e : Val E) : Prop :=
  if dispatched then e.truthy = true else e ≠ .undefined

/-- An exception is pending, or there is a new tick, and it throws. -/
def Reported (dispatched : Bool) (m m' : Machine E W) : Prop :=
  if dispatched then ∃ tick e, m'.ticks = m.ticks ++ [tick] ∧
    ∀ m'' : Machine E W, (tick.run m'').1 = .error e
  else m'.pending ≠ none

/-! ### Scripts that touch nothing but the memory -/

def MemoryOnly {ε α : Type} (x : Js (Machine E W) ε α) : Prop :=
  ∀ m, ∃ memory, (x m).2 = m.setMemory memory

section memoryOnly

omit [Objects E]

variable {ε α β : Type}

theorem MemoryOnly.bind {x : Js (Machine E W) ε α} {f : α → Js (Machine E W) ε β}
    (hx : MemoryOnly x) (hf : ∀ a, MemoryOnly (f a)) : MemoryOnly (x >>= f) := by
  intro m
  obtain ⟨memory, hm⟩ := hx m
  rcases h : x m with ⟨e | a, m'⟩
  · rw [Js.bind_error h]
    rw [h] at hm
    exact ⟨memory, hm⟩
  · rw [Js.bind_ok h]
    rw [h] at hm
    obtain ⟨memory', hm'⟩ := hf a m'
    subst hm
    exact ⟨memory', hm'⟩

theorem memoryOnly_pure (a : α) : MemoryOnly (pure a : Js (Machine E W) ε α) :=
  fun m => ⟨m.memory, rfl⟩

theorem memoryOnly_ofExcept (r : Except ε α) : MemoryOnly (Js.ofExcept r : Js (Machine E W) ε α) :=
  fun m => ⟨m.memory, rfl⟩

theorem memoryOnly_readBytes (p : Ptr) (offset length : Nat) :
    MemoryOnly (readBytes p offset length : Js (Machine E W) ε _) := fun _ => ⟨_, rfl⟩

theorem memoryOnly_writeBytes (p : Ptr) (offset : Nat) (bytes : List Byte) :
    MemoryOnly (writeBytes p offset bytes : Js (Machine E W) ε _) := fun _ => ⟨_, rfl⟩

theorem memoryOnly_readPointer (p : Ptr) (offset : Nat) :
    MemoryOnly (readPointer p offset : Js (Machine E W) ε _) := fun _ => ⟨_, rfl⟩

theorem memoryOnly_writePointer (p : Ptr) (offset : Nat) (q : Ptr) :
    MemoryOnly (writePointer p offset q : Js (Machine E W) ε _) := fun _ => ⟨_, rfl⟩

end memoryOnly

theorem memoryOnly_refGet (buffer : Buffer) (type : RefType E) :
    MemoryOnly (refGet buffer type : Script E W (Val E)) := by
  unfold refGet
  split
  · split
    · exact memoryOnly_ofExcept _
    · exact (memoryOnly_readBytes _ _ _).bind fun _ => memoryOnly_ofExcept _
  · exact (memoryOnly_readPointer _ _).bind fun _ => memoryOnly_pure _

theorem memoryOnly_refSet (buffer : Buffer) (value : Val E) (type : RefType E) :
    MemoryOnly (refSet buffer value type : Script E W Unit) := by
  unfold refSet
  split
  · split
    · exact memoryOnly_ofExcept _
    · apply (memoryOnly_readBytes _ _ _).bind
      intro old
      exact (memoryOnly_ofExcept _).bind fun _ => memoryOnly_writeBytes _ _ _
  · exact (memoryOnly_ofExcept _).bind fun _ => memoryOnly_writePointer _ _ _

theorem memoryOnly_getArguments (params : Buffer) (types : List (RefType E)) (i : Nat) :
    MemoryOnly (getArguments params i types : Script E W _) := by
  induction types generalizing i with
  | nil => exact memoryOnly_pure _
  | cons type types ih =>
    unfold getArguments
    apply (memoryOnly_readPointer _ _).bind
    intro data
    apply (memoryOnly_refGet _ _).bind
    intro value
    exact (ih (i + 1)).bind fun _ => memoryOnly_pure _

/-! ### Reports -/

section report

variable (retType : RefType E) (argTypes : List (RefType E)) (func : UserFunction E W)
  (retval params : Buffer) {m : Machine E W}

theorem escaped_iff : (∃ e, escaped retType argTypes func retval params m = some e) ↔
    ∃ e, (callbackSteps retType argTypes func retval params m).1 = .error e := by
  unfold escaped callbackSteps
  rcases hget : getArguments params 0 argTypes m with ⟨e | args, m₁⟩
  · rw [Js.bind_error hget]
    simp
  rw [Js.bind_ok hget]
  dsimp only
  rcases happly : apply func args m₁ with ⟨e | result, m₂⟩
  · rw [Js.bind_error happly]
    simp
  rw [Js.bind_ok happly]
  dsimp only
  rcases hset : refSet retval result retType m₂ with ⟨e | u, m₃⟩
  · simp
  · simp

/-- **The function around the user's function** throws what escapes, and leaves alone what a
failure is reported in. -/
theorem callbackBody_spec (m : Machine E W) :
    ∃ m', callbackBody retType argTypes func retval params m =
        (match escaped retType argTypes func retval params m with
          | some e => .error e
          | none => .ok (), m') ∧
      m'.pending = m.pending ∧ m'.ticks = m.ticks := by
  have hgets := memoryOnly_getArguments (W := W) params argTypes 0 m
  unfold escaped callbackBody setResult
  rcases hget : getArguments params 0 argTypes m with ⟨e | args, m₁⟩
  · obtain ⟨memory, hm₁⟩ := hgets
    rw [hget] at hm₁
    subst hm₁
    exact ⟨_, Js.bind_error hget, rfl, rfl⟩
  obtain ⟨memory, hm₁⟩ := hgets
  rw [hget] at hm₁
  subst hm₁
  rw [Js.bind_ok hget]
  dsimp only
  rcases happly : apply func args (m.setMemory memory) with ⟨e | result, m₂⟩
  · cases congrArg Prod.snd happly
    exact ⟨_, Js.bind_error happly, rfl, rfl⟩
  have hm₂ : m₂.pending = m.pending ∧ m₂.ticks = m.ticks := by
    cases congrArg Prod.snd happly
    exact ⟨rfl, rfl⟩
  rw [Js.bind_ok happly]
  dsimp only
  have hsets := memoryOnly_refSet retval result retType m₂
  rcases hset : refSet retval result retType m₂ with ⟨e | u, m₃⟩
  · obtain ⟨memory', hm₃⟩ := hsets
    rw [hset] at hm₃
    subst hm₃
    exact ⟨_, (Js.tryCatch_error hset).trans (annotate_throw _ e _), hm₂⟩
  · obtain ⟨memory', hm₃⟩ := hsets
    rw [hset] at hm₃
    subst hm₃
    exact ⟨_, Js.tryCatch_ok hset, hm₂⟩

omit [Objects E] in
theorem reportReturned_of_ne (dispatched : Bool) {e : Val E} (h : e ≠ .undefined) :
    reportReturned dispatched e m =
      if dispatched then errorReportCallback e m else { m with pending := some e } := by
  unfold reportReturned
  cases e <;> first | rfl | exact absurd rfl h

/-- **A value is reported if and only if it comes through.** -/
theorem reported_iff (dispatched : Bool) (e : Val E) (hpending : m.pending = none) :
    Reported dispatched m (reportReturned dispatched e m) ↔ Heard dispatched e := by
  by_cases hundefined : e = .undefined
  · subst hundefined
    cases dispatched with
    | false => simp [Reported, Heard, reportReturned, hpending]
    | true => simp [Reported, Heard, reportReturned, Value.truthy]
  rw [reportReturned_of_ne dispatched hundefined]
  cases dispatched with
  | false => simp [Reported, Heard, hundefined]
  | true =>
    unfold Reported Heard errorReportCallback
    simp only [if_true]
    by_cases htruthy : e.truthy = true
    · rw [if_pos htruthy]
      simp only [htruthy, iff_true]
      exact ⟨.throwError e, rethrown e, rfl, fun _ => rfl⟩
    · rw [if_neg htruthy]
      simp [htruthy]

theorem not_reported (dispatched : Bool) {m' : Machine E W} (hpending : m'.pending = none)
    (hticks : m'.ticks = m.ticks) : ¬ Reported dispatched m m' := by
  unfold Reported
  cases dispatched with
  | false => simp [hpending]
  | true => simp [hticks]

theorem dispatchToV8_reported_iff (retval parameters : Ptr) (dispatched : Bool)
    (hpending : m.pending = none) :
    Reported dispatched m
        ((Callback retType argTypes func).dispatchToV8 retval parameters dispatched m) ↔
      ∃ e, escaped retType argTypes func ⟨retval, retType.size⟩
        ⟨parameters, pointerSize * argTypes.length⟩ m = some e ∧ Heard dispatched e := by
  obtain ⟨m', hbody, hpending', hticks⟩ := callbackBody_spec retType argTypes func
    ⟨retval, retType.size⟩ ⟨parameters, pointerSize * argTypes.length⟩ m
  have hreport : ∀ m'' : Machine E W, Reported dispatched m m'' ↔ Reported dispatched m' m'' := by
    intro m''
    unfold Reported
    rw [hticks]
  rw [dispatchToV8_eq, hbody]
  cases escaped retType argTypes func ⟨retval, retType.size⟩
      ⟨parameters, pointerSize * argTypes.length⟩ m with
  | none =>
    have h := not_reported (m := m) dispatched (hpending'.trans hpending) hticks
    simp [h]
  | some e =>
    simp only [hreport, reported_iff dispatched e (hpending'.trans hpending)]
    simp

/-- **A failure is reported if and only if its value comes through**, when `DispatchToV8` is entered
with no exception pending. -/
theorem failure_reported_iff (retval parameters : Ptr) {m : Machine E W}
    (hpending : m.pending = none) :
    let info := Callback retType argTypes func
    let retval' : Buffer := ⟨retval, info.resultSize⟩
    let params : Buffer := ⟨parameters, pointerSize * info.argc⟩
    let threw := ∃ e, (callbackSteps retType argTypes func retval' params m).1 = .error e
    (∀ dispatched,
      ((Reported dispatched m (info.dispatchToV8 retval parameters dispatched m) ↔ threw) ↔
        ∀ e, escaped retType argTypes func retval' params m = some e → Heard dispatched e)) ∧
    ((∀ dispatched,
      (Reported dispatched m (info.dispatchToV8 retval parameters dispatched m) ↔ threw)) ↔
        ∀ e, escaped retType argTypes func retval' params m = some e → e.truthy = true) := by
  intro info retval' params threw
  have hmode : ∀ dispatched,
      ((Reported dispatched m (info.dispatchToV8 retval parameters dispatched m) ↔ threw) ↔
        ∀ e, escaped retType argTypes func retval' params m = some e → Heard dispatched e) := by
    intro dispatched
    have hreported : Reported dispatched m (info.dispatchToV8 retval parameters dispatched m) ↔
        ∃ e, escaped retType argTypes func retval' params m = some e ∧ Heard dispatched e :=
      dispatchToV8_reported_iff retType argTypes func retval parameters dispatched hpending
    have hthrew : (∃ e, escaped retType argTypes func retval' params m = some e) ↔ threw :=
      escaped_iff retType argTypes func retval' params
    rw [hreported, ← hthrew]
    constructor
    · intro h e he
      obtain ⟨e', he', hheard⟩ := h.mpr ⟨e, he⟩
      rw [he] at he'
      cases he'
      exact hheard
    · intro h
      exact ⟨fun ⟨e, he, _⟩ => ⟨e, he⟩, fun ⟨e, he⟩ => ⟨e, he, h e he⟩⟩
  refine ⟨hmode, ?_⟩
  simp only [hmode]
  constructor
  · intro h e he
    exact h true e he
  · intro h dispatched e he
    have htruthy := h e he
    cases dispatched with
    | false =>
      rintro rfl
      cases htruthy
    | true => exact htruthy

end report

/-! ### A callback without arguments -/

section thrower

/-- A callback `int f()` whose function throws this value. -/
def thrower (e : Val String) : UserFunction String Unit := fun world _ => (.error e, world)

/-- A machine with the return area and the empty argument array of a call. -/
def throwerMachine : Machine String Unit :=
  ⟨⟨fun b => if b = 0 then List.replicate 8 .poison else [], 2, false⟩, (), none, [], []⟩

/-- The call of a callback whose function throws this value. -/
def throwerCall (e : Val String) (dispatched : Bool) : Machine String Unit :=
  (Callback (RefType.int 4 true) [] (thrower e)).dispatchToV8 (.block 0) (.block 1) dispatched
    throwerMachine

theorem thrower_reported :
    Reported false throwerMachine (throwerCall (.object (.other "boom")) false) ∧
      Reported true throwerMachine (throwerCall (.object (.other "boom")) true) := by
  obtain ⟨-, h⟩ := failure_reported_iff (RefType.int 4 true) []
    (thrower (.object (.other "boom"))) (.block 0) (.block 1) (m := throwerMachine) rfl
  have hreported : ∀ dispatched, Reported dispatched throwerMachine
      (throwerCall (.object (.other "boom")) dispatched) := by
    intro dispatched
    refine (h.mpr ?_ dispatched).mpr ⟨.object (.other "boom"), rfl⟩
    intro e he
    cases he
    rfl
  exact ⟨hreported false, hreported true⟩

/-- `throw undefined` is not reported to the caller, and `throw 0` not from another thread. -/
theorem thrower_silent :
    let steps (e : Val String) := callbackSteps (RefType.int 4 true) [] (thrower e)
      ⟨.block 0, 4⟩ ⟨.block 1, 0⟩ throwerMachine
    ((∃ e, (steps .undefined).1 = .error e) ∧
      ¬ Reported false throwerMachine (throwerCall .undefined false)) ∧
    ((∃ e, (steps (.number (.finite 0 0))).1 = .error e) ∧
      Reported false throwerMachine (throwerCall (.number (.finite 0 0)) false) ∧
      ¬ Reported true throwerMachine (throwerCall (.number (.finite 0 0)) true)) := by
  intro steps
  have hreported : ∀ e dispatched, Reported dispatched throwerMachine (throwerCall e dispatched) ↔
      Heard dispatched e := by
    intro e dispatched
    refine (dispatchToV8_reported_iff _ _ _ _ _ dispatched rfl).trans ⟨?_, fun h => ⟨e, rfl, h⟩⟩
    rintro ⟨e', he', h⟩
    cases he'
    exact h
  simp only [hreported]
  refine ⟨⟨⟨_, rfl⟩, ?_⟩, ⟨_, rfl⟩, ?_, ?_⟩
  · simp [Heard]
  · simp [Heard]
  · simp [Heard, Value.truthy, Number.truthy]

end thrower

end NodeFfi.Marshal
