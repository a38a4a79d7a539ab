import NodeFfi.Marshal.Phase
import NodeFfi.Marshal.Integer

/-!
# Asynchronous calls agree with synchronous ones

What the callback of a call of `proxy.async` is given against what the proxy does with the same
arguments in the world in which the native function ran.
-/

namespace NodeFfi.Marshal

open Js Blocks Blocks.Memory Loop

variable {E W : Type} [Objects E]

/-- Whether `set` accepts all the arguments. -/
def Call.Accepted (call : Call E W) : Prop :=
  ∃ bss, encodeAll 0 call.argTypes call.arguments = .ok bss

/-- What is given to the callback is what the synchronous proxy returns or throws. -/
def Tells (result : Except (Val E) (Val E)) (arguments : List (Val E)) : Prop :=
  match result with
  | .ok value => arguments = [.null, value]
  | .error e => arguments.head? = some e

/-- The call returned, and its callback was called once, as the proxy would have returned or
thrown. -/
def Agrees (s : Loop E W) (number : Nat) (c : Issued E W) : Prop :=
  c.returned = .ok () ∧ ∃ arguments, (s.view number).callbacks = [arguments] ∧
    ∀ m : Machine E W, m.pending = none → (∀ w, s.ranIn number = some w → m.world = w) →
      Tells (c.call.proxy.proxy c.call.arguments m).1 arguments

/-- The message of the error of a refused argument can be set; or else the native function leaves
no exception, or `null`, and `get` accepts its result. -/
def Call.Sound (call : Call E W) (ranIn : Option W) : Prop :=
  match encodeAll 0 call.argTypes call.arguments with
  | .error (i, e) => ∃ e', assignMessage (settingArgument i) e = .ok e'
  | .ok bss => ∀ w, ranIn = some w →
    ((call.fn bss w).1.thrown = none ∨ (call.fn bss w).1.thrown = some .null) ∧
      ∃ value, call.returnType.decode (call.proxy.resultBytes (call.fn bss w).1.bytes) = .ok value

section agreement

variable {s : Loop E W} {number : Nat} {c : Issued E W}

theorem agrees_refused {i : Nat} {e e' : Val E}
    (encode : encodeAll 0 c.call.argTypes c.call.arguments = .error (i, e))
    (message : assignMessage (settingArgument i) e = .ok e') (returned : c.returned = .ok ())
    (hcallbacks : (s.view number).callbacks = [[e']]) : Agrees s number c := by
  refine ⟨returned, [e'], hcallbacks, ?_⟩
  intro m _ _
  obtain ⟨mem, -, hproxy⟩ := sync_error encode m
  have hannotated : annotated (settingArgument i) e = e' := by
    unfold annotated
    rw [message]
  rw [hproxy, hannotated]
  rfl

theorem agrees_made {bss : List (List Byte)} {world : W}
    (encode : encodeAll 0 c.call.argTypes c.call.arguments = .ok bss)
    (returned : c.returned = .ok ()) (hpending : s.machine.pending = none)
    (hview : s.view number = ⟨none, some world, [], c.call.completed (c.call.fn bss world).1.bytes⟩) :
    Agrees s number c ↔ c.call.Sound (s.ranIn number) := by
  have hranIn : s.ranIn number = some world := congrArg View.ranIn hview
  have hcallbacks : (s.view number).callbacks = c.call.completed (c.call.fn bss world).1.bytes :=
    congrArg View.callbacks hview
  have hproxy : ∀ m : Machine E W, m.pending = none → (∀ w, s.ranIn number = some w → m.world = w) →
      (c.call.proxy.proxy c.call.arguments m).1 = c.call.settle (c.call.fn bss world).1 := by
    intro m hpending hworld
    obtain ⟨mem, -, -, hproxy⟩ := sync_ok encode hpending
    rw [hproxy, hworld world hranIn]
  have hagrees : Agrees s number c ↔ ∃ arguments,
      c.call.completed (c.call.fn bss world).1.bytes = [arguments] ∧
        Tells (c.call.settle (c.call.fn bss world).1) arguments := by
    unfold Agrees
    rw [hcallbacks]
    constructor
    · rintro ⟨-, arguments, hcompleted, htells⟩
      have hworld : ∀ w, s.ranIn number = some w → (s.machine.setWorld world).world = w := by
        intro w hw
        rw [hranIn] at hw
        exact Option.some.inj hw
      have h := htells (s.machine.setWorld world) hpending hworld
      rw [hproxy (s.machine.setWorld world) hpending hworld] at h
      exact ⟨arguments, hcompleted, h⟩
    · rintro ⟨arguments, hcompleted, htells⟩
      refine ⟨returned, arguments, hcompleted, ?_⟩
      intro m hm hworld
      rw [hproxy m hm hworld]
      exact htells
  have hsound : c.call.Sound (s.ranIn number) ↔
      ((c.call.fn bss world).1.thrown = none ∨ (c.call.fn bss world).1.thrown = some .null) ∧
        ∃ value, c.call.returnType.decode
          (c.call.proxy.resultBytes (c.call.fn bss world).1.bytes) = .ok value := by
    unfold Call.Sound
    rw [encode, hranIn]
    simp
  rw [hagrees, hsound]
  unfold Call.completed Call.settle
  cases hdec : c.call.returnType.decode
      (c.call.proxy.resultBytes (c.call.fn bss world).1.bytes) with
  | error e => simp
  | ok value =>
    cases hthrown : (c.call.fn bss world).1.thrown with
    | none => simp [Tells]
    | some e => simp [Tells, eq_comm]

/-- **A settled call agrees if and only if it is sound.** -/
theorem agrees_iff (h : Inv s) (hc : s.issued number = some c) (hsettled : ¬ s.Outstanding number) :
    Agrees s number c ↔ c.call.Sound (s.ranIn number) := by
  unfold Loop.Outstanding at hsettled
  cases h.phase number c hc with
  | threw encode message returned view natives =>
    constructor
    · rintro ⟨hreturned, -⟩
      rw [returned] at hreturned
      cases hreturned
    · intro hsound
      unfold Call.Sound at hsound
      rw [encode] at hsound
      obtain ⟨e', he'⟩ := hsound
      rw [message] at he'
      cases he'
  | deferred encode message returned view natives =>
    rw [view] at hsettled
    simp at hsettled
  | told encode message returned view natives =>
    have hagrees := agrees_refused encode message returned (congrArg View.callbacks view)
    refine iff_of_true hagrees ?_
    unfold Call.Sound
    rw [encode]
    exact ⟨_, message⟩
  | queued encode returned result ready owns view natives =>
    rw [view] at hsettled
    simp at hsettled
  | ran encode returned result block view natives =>
    rw [view] at hsettled
    simp at hsettled
  | finished encode returned view natives => exact agrees_made encode returned h.pending view

/-- An action of the event loop that moves the call is enabled. -/
def Moves (s : Loop E W) (number : Nat) : Prop :=
  s.enabled .tick = true ∨ s.enabled (.work number) = true ∨ s.enabled (.finish number) = true

omit [Objects E] in
theorem moves_of_outstanding (h : s.Outstanding number) : Moves s number := by
  rcases h with hdeferred | hwork
  · left
    unfold Loop.enabled
    cases hticks : s.machine.ticks with
    | nil =>
      unfold Loop.view at hdeferred
      rw [hticks] at hdeferred
      exact absurd rfl hdeferred
    | cons t ts => rfl
  · right
    unfold Loop.enabled
    change s.works number ≠ none at hwork
    cases hworks : s.works number with
    | none => exact absurd hworks hwork
    | some work =>
      rcases work with p | p
      · left
        simp only [hworks]
      · right
        simp only [hworks]

theorem outstanding_quiet (h : Inv s) (hc : s.issued number = some c)
    (houtstanding : s.Outstanding number) :
    c.returned = .ok () ∧ (s.view number).callbacks = [] ∧ Moves s number := by
  have hmoves := moves_of_outstanding houtstanding
  unfold Loop.Outstanding at houtstanding
  cases h.phase number c hc with
  | threw encode message returned view natives =>
    rw [view] at houtstanding
    simp at houtstanding
  | deferred encode message returned view natives =>
    exact ⟨returned, congrArg View.callbacks view, hmoves⟩
  | told encode message returned view natives =>
    rw [view] at houtstanding
    simp at houtstanding
  | queued encode returned result ready owns view natives =>
    exact ⟨returned, congrArg View.callbacks view, hmoves⟩
  | ran encode returned result block view natives =>
    exact ⟨returned, congrArg View.callbacks view, hmoves⟩
  | finished encode returned view natives =>
    rw [view] at houtstanding
    simp at houtstanding

theorem async_natives (h : Inv s) (hc : s.issued number = some c) :
    s.natives c.result ≤ 1 ∧ (¬ s.Outstanding number →
      (c.call.Accepted → s.natives c.result = 1) ∧ (¬ c.call.Accepted → s.natives c.result = 0)) := by
  unfold Loop.Outstanding Call.Accepted
  cases h.phase number c hc with
  | threw encode message returned view natives => simp [natives, encode]
  | deferred encode message returned view natives => simp [natives, encode]
  | told encode message returned view natives => simp [natives, encode]
  | queued encode returned result ready owns view natives => simp [natives, view]
  | ran encode returned result block view natives => simp [natives, view]
  | finished encode returned view natives => simp [natives, encode]

theorem sync_natives (call : Call E W) {m : Machine E W} (hpending : m.pending = none) :
    (call.Accepted → (call.proxy.proxy call.arguments m).2.log =
      m.log ++ [.native (.block m.memory.next)]) ∧
    (¬ call.Accepted → (call.proxy.proxy call.arguments m).2.log = m.log) := by
  unfold Call.Accepted
  cases henc : encodeAll 0 call.argTypes call.arguments with
  | error e =>
    obtain ⟨mem, -, hproxy⟩ := sync_error henc m
    rw [hproxy]
    simp [Machine.setMemory]
  | ok bss =>
    obtain ⟨mem, -, -, hproxy⟩ := sync_ok henc hpending
    rw [hproxy]
    simp

theorem async_callbacks (h : Inv s) (call : Call E W) :
    ((s.async call).view s.next).callbacks = [] := by
  have hlog : (s.async call).machine.log = s.machine.log := by
    change (call.proxy.async call.arguments (some s.next) s.machine).2.log = s.machine.log
    cases henc : encodeAll 0 call.argTypes call.arguments with
    | error ie =>
      obtain ⟨mem, -, -, hasync⟩ := async_error (p := call.proxy) call.arity s.next s.machine henc
      rw [hasync]
      split <;> rfl
    | ok bss =>
      obtain ⟨mem, b, -, -, -, -, hasync⟩ := async_ok (p := call.proxy) call.arity henc s.next
        s.machine
      rw [hasync]
      rfl
  unfold Loop.view
  rw [hlog]
  exact congrArg View.callbacks (h.fresh s.next (Nat.le_refl _))

end agreement

/-- **Which asynchronous calls agree with synchronous ones**: in every run, the sound ones and no
others, once they are through. Until then their callbacks are not called and something moves them
on, and the native function is called once for a call whose arguments are accepted, else never. -/
theorem async_agrees_iff {world : W} {memory : Memory} {actions : List (Action E W)}
    {s : Loop E W}
    (hrun : (Loop.system E W).run (Loop.init world memory) actions = some s) :
    (∀ number c, s.issued number = some c →
      (s.Outstanding number →
        c.returned = .ok () ∧ (s.view number).callbacks = [] ∧ Moves s number) ∧
      (¬ s.Outstanding number → (Agrees s number c ↔ c.call.Sound (s.ranIn number))) ∧
      s.natives c.result ≤ 1 ∧ (¬ s.Outstanding number →
        (c.call.Accepted → s.natives c.result = 1) ∧
        (¬ c.call.Accepted → s.natives c.result = 0))) ∧
    ∀ call : Call E W, ((s.async call).view s.next).callbacks = [] ∧
      (call.Accepted → (s.sync call).machine.log =
        s.machine.log ++ [.native (.block s.machine.memory.next)]) ∧
      (¬ call.Accepted → (s.sync call).machine.log = s.machine.log) := by
  have h := inv_run hrun
  refine ⟨?_, ?_⟩
  · intro number c hc
    have hnatives := async_natives h hc
    exact ⟨outstanding_quiet h hc, agrees_iff h hc, hnatives.1, hnatives.2⟩
  · intro call
    have hsync := sync_natives call h.pending
    exact ⟨async_callbacks h call, hsync.1, hsync.2⟩

/-! ### Calls -/

section calls

/-- `int32 f()` with a function that returns 7. -/
def sevenCall : Call String Unit where
  fn _ world := (⟨leBytes 4 7, none⟩, world)
  returnType := .int 4 true
  argTypes := []
  arguments := []
  arity := rfl

/-- The same with a return type whose `get` throws. -/
def brokenGetCall : Call String Unit :=
  { sevenCall with
    returnType := { RefType.int 4 true with get := fun _ => .error (.object (.other "get")) } }

/-- `int32 f(T)` with a type whose `set` throws `undefined`. -/
def brokenSetCall : Call String Unit :=
  { sevenCall with
    argTypes := [{ RefType.int 4 true with set := fun _ _ => .error .undefined }]
    arguments := [.null]
    arity := rfl }

/-- A function during which a callback throws. -/
def throwingCall : Call String Unit :=
  { sevenCall with fn := fun _ world => (⟨leBytes 4 7, some (.object (.other "thrown"))⟩, world) }

def emptyMemory : Memory := ⟨fun _ => [], 0, false⟩

/-- `int32 f(T)` with a type whose `set` throws an error. -/
def refusedCall : Call String Unit :=
  { brokenSetCall with
    argTypes := [{ RefType.int 4 true with set := fun _ _ => .error (.object (.other "set")) }]
    arity := rfl }

/-- A call, its work and its completion. -/
def wholeCall (call : Call String Unit) : List (Action String Unit) :=
  [.async call, .work 0, .finish 0]

/-- Three calls at the same time, with a synchronous one between them. -/
def mixedCalls : List (Action String Unit) :=
  [.async sevenCall, .async refusedCall, .async sevenCall, .work 2, .sync sevenCall, .finish 2, .tick,
    .work 0, .finish 0]

theorem mixed_agree : ∃ s, (Loop.system String Unit).run (Loop.init () emptyMemory) mixedCalls =
    some s ∧ ∀ i < 3, ∃ c, s.issued i = some c ∧ ¬ s.Outstanding i ∧ Agrees s i c := by
  have hrun : ∃ s, (Loop.system String Unit).run (Loop.init () emptyMemory) mixedCalls = some s ∧
      (∃ c, s.issued 0 = some c ∧ c.call = sevenCall) ∧
      (∃ c, s.issued 1 = some c ∧ c.call = refusedCall) ∧
      (∃ c, s.issued 2 = some c ∧ c.call = sevenCall) ∧ ∀ i < 3, ¬ s.Outstanding i := by
    refine ⟨_, rfl, ⟨_, rfl, rfl⟩, ⟨_, rfl, rfl⟩, ⟨_, rfl, rfl⟩, ?_⟩
    intro i hi
    rcases (by omega : i = 0 ∨ i = 1 ∨ i = 2) with rfl | rfl | rfl
    all_goals
      rintro (h | h)
      · exact h rfl
      · exact h rfl
  obtain ⟨s, hs, ⟨c₀, hc₀, hcall₀⟩, ⟨c₁, hc₁, hcall₁⟩, ⟨c₂, hc₂, hcall₂⟩, hsettled⟩ := hrun
  have hsound : ∀ ranIn, sevenCall.Sound ranIn := fun _ _ _ => ⟨.inl rfl, _, rfl⟩
  have hagrees : ∀ i < 3, ∀ c, s.issued i = some c → c.call.Sound (s.ranIn i) → Agrees s i c :=
    fun i hi c hc hcall => (((async_agrees_iff hs).1 i c hc).2.1 (hsettled i hi)).mpr hcall
  refine ⟨s, hs, fun i hi => ?_⟩
  rcases (by omega : i = 0 ∨ i = 1 ∨ i = 2) with rfl | rfl | rfl
  · exact ⟨c₀, hc₀, hsettled 0 hi, hagrees 0 hi c₀ hc₀ (hcall₀ ▸ hsound _)⟩
  · exact ⟨c₁, hc₁, hsettled 1 hi, hagrees 1 hi c₁ hc₁ (hcall₁ ▸ ⟨_, rfl⟩)⟩
  · exact ⟨c₂, hc₂, hsettled 2 hi, hagrees 2 hi c₂ hc₂ (hcall₂ ▸ hsound _)⟩

/-- The callback of the call whose `get` throws is never called; that of the call during which a
callback throws is told of no error; `proxy.async` throws when the message of a thrown `undefined`
is set. -/
theorem broken_calls_disagree :
    (∃ s c, (Loop.system String Unit).run (Loop.init () emptyMemory)
      (wholeCall brokenGetCall) = some s ∧ s.issued 0 = some c ∧ ¬ s.Outstanding 0 ∧
        (s.view 0).callbacks = [] ∧ ¬ Agrees s 0 c) ∧
    (∃ s c, (Loop.system String Unit).run (Loop.init () emptyMemory)
      (wholeCall throwingCall) = some s ∧ s.issued 0 = some c ∧ ¬ s.Outstanding 0 ∧
        (s.view 0).callbacks = [[.null, .number (.finite 7 0)]] ∧ ¬ Agrees s 0 c) ∧
    (∃ s c, (Loop.system String Unit).run (Loop.init () emptyMemory)
      [.async brokenSetCall] = some s ∧ s.issued 0 = some c ∧ ¬ s.Outstanding 0 ∧
        c.returned ≠ .ok () ∧ ¬ Agrees s 0 c) := by
  refine ⟨⟨_, _, rfl, rfl, ?_, rfl, ?_⟩, ⟨_, _, rfl, rfl, ?_, rfl, ?_⟩,
    ⟨_, _, rfl, rfl, ?_, ?_, ?_⟩⟩
  · rintro (h | h)
    · exact h rfl
    · exact h rfl
  · rintro ⟨-, arguments, h, -⟩
    cases h
  · rintro (h | h)
    · exact h rfl
    · exact h rfl
  · rintro ⟨-, arguments, h, htells⟩
    cases h
    have hthrown := htells ⟨emptyMemory, (), none, [], []⟩ rfl fun _ _ => rfl
    cases hthrown
  · rintro (h | h)
    · exact h rfl
    · exact h rfl
  · intro h
    cases h
  · rintro ⟨h, -⟩
    cases h

end calls

end NodeFfi.Marshal
