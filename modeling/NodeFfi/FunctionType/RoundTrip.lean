import NodeFfi.FunctionType.Uniform

/-!
# Functions through native code and back

A function is stored with `set` and read with `get`, any number of times (`roundTrips`). What is
read last is related to the function at its type (`function_round_trip`), so that it returns what
the function returns; a Buffer that is stored is the address that is called.

`OfType` are the functions that are related to themselves: they return values of the type, and the
same for arguments that are the same. A function of the program that calls its arguments and hands
them on, but does not look at them otherwise, is one (`related_of_alike`).
-/

namespace NodeFfi.FunctionType

open Js Js.Js Blocks
open Marshal (RefType Kind settingArgument settingReturnValue fit)

variable {T A K X W : Type}

/-- `buffer` and `offset`. -/
structure Slot where
  buffer : Ptr
  offset : Nat

/-- There is room for a pointer. -/
def Slot.Valid (slot : Slot) (s : State T A K X W) : Prop :=
  s.memory.inBounds slot.buffer slot.offset pointerSize = true

section roundTrip

variable [Objects X] (env : Env T A K X W)

namespace Function

variable (F : Function T A)

def roundTrip (slot : Slot) (value : Val T A K X) : Script T A K X W (Val T A K X) := do
  F.set env slot.buffer slot.offset value
  F.get slot.buffer slot.offset

def roundTrips : List Slot → Val T A K X → Script T A K X W (Val T A K X)
  | [], value => pure value
  | slot :: slots, value => do
    let value ← F.roundTrip env slot value
    roundTrips slots value

end Function

variable {env} {F : Function T A} {s : State T A K X W} {slot : Slot}

theorem roundTrip_eq {value : Val T A K X} {p : Ptr} {s₁ : State T A K X W}
    (hptr : F.pointerTo env value s = (.ok p, s₁)) (hslot : slot.Valid s₁) :
    F.roundTrip env slot value s = (.ok (F.toFunction p),
      { s₁ with memory := s₁.memory.writePointer slot.buffer slot.offset p }) := by
  have hset : F.set env slot.buffer slot.offset value s = (.ok (),
      { s₁ with memory := s₁.memory.writePointer slot.buffer slot.offset p }) := by
    rw [Function.set, Js.bind_ok hptr]
    rfl
  rw [Function.roundTrip, Js.bind_ok hset, Function.get, Js.bind_ok (Js.step_apply _ _)]
  simp only [Memory.readPointer_writePointer hslot]
  rfl

theorem roundTrip_buffer (p : Ptr) (hslot : slot.Valid s) :
    F.roundTrip env slot (.object (.buffer p)) s = (.ok (F.toFunction p),
      { s with memory := s.memory.writePointer slot.buffer slot.offset p }) := by
  refine roundTrip_eq ?_ hslot
  rfl

theorem roundTrip_function {f : Val T A K X} (hf : isFunction f = true) (hslot : slot.Valid s) :
    ∃ t : State T A K X W, F.roundTrip env slot f s =
        (.ok (F.toFunction (.block s.memory.next)), t) ∧ s.Aside t ∧
      s.memory.next < t.memory.next ∧ t.closures s.memory.next = some ⟨F, f⟩ ∧
      ∀ slot' : Slot, slot'.Valid s → slot'.Valid t := by
  obtain ⟨s₁, hptr, haside, hlt, hclosure, hmemory⟩ := pointerTo_function env F hf s
  have hvalid : ∀ slot' : Slot, slot'.Valid s → slot'.Valid s₁ := by
    intro slot' hslot'
    rw [Slot.Valid, hmemory]
    exact Memory.inBounds_alloc hslot' closureSize
  have hnext : (s₁.memory.writePointer slot.buffer slot.offset (.block s.memory.next)).next =
      s₁.memory.next := write_next _ _ _ _
  refine ⟨_, roundTrip_eq hptr (hvalid slot hslot), ⟨⟨?_, ?_⟩, haside.pending, haside.world⟩, ?_,
    hclosure, ?_⟩
  · rw [hnext]
    exact haside.closures.next
  · exact haside.closures.closures
  · rw [hnext]
    exact hlt
  · intro slot' hslot'
    exact Memory.inBounds_writePointer (hvalid slot hslot) _ (hvalid slot' hslot')

end roundTrip

section related

variable [Objects X] [DecidableEq A] (env : Env T A K X W) (C : Coupling T A K X W)

/-- A function of the type `F`, in the state `s`: it returns, if it comes to an end, a value of the
type of its result, and for arguments that are the same the same. -/
def OfType (F : Function T A) (s : State T A K X W) (f : Val T A K X) : Prop :=
  Related env C F.type s s f f

variable {env} {C} {F : Function T A}

theorem roundTrips_related (slots : List Slot) {s' s : State T A K X W} {f' f : Val T A K X}
    (hslots : ∀ slot ∈ slots, slot.Valid s') (h : Related env C F.type s' s f' f) :
    ∃ f'' t', F.roundTrips env slots f' s' = (.ok f'', t') ∧ s'.Aside t' ∧
      Related env C F.type t' s f'' f := by
  induction slots generalizing s' f' with
  | nil => exact ⟨f', s', rfl, .refl s', h⟩
  | cons slot slots ih =>
    have hf' : isFunction f' = true := (related_function.mp h).1
    obtain ⟨s₁, hrun, haside, hlt, hclosure, hvalid⟩ :=
      roundTrip_function (F := F) hf' (hslots slot (.head _))
    have hrelated : Related env C F.type s₁ s (F.toFunction (.block s'.memory.next)) f :=
      related_wrapped (fun type _ => encode_related type) (encode_related F.retType) h
        haside.closures hlt hclosure
    obtain ⟨f'', t', hruns, haside', hrelated'⟩ :=
      ih (fun slot' hmem => hvalid slot' (hslots slot' (.tail _ hmem))) hrelated
    refine ⟨f'', t', ?_, haside.trans haside', hrelated'⟩
    rw [Function.roundTrips, Js.bind_ok hrun]
    exact hruns

/-- **Functions survive any number of round trips**: what is read last and the function itself
return the same for the same arguments. **A Buffer is the address of what is read.** -/
theorem function_round_trip (env : Env T A K X W) (C : Coupling T A K X W) (F : Function T A)
    (slots : List Slot) (s : State T A K X W) (hslots : ∀ slot ∈ slots, slot.Valid s) :
    (∀ f, OfType env C F s f → ∃ f' t, F.roundTrips env slots f s = (.ok f', t) ∧ s.Aside t ∧
        Related env C F.type t s f' f) ∧
      ∀ slot ∈ slots, ∀ p, F.roundTrip env slot (.object (.buffer p)) s =
        (.ok (.object (.other (.foreignFunction p F))),
          { s with memory := s.memory.writePointer slot.buffer slot.offset p }) := by
  constructor
  · intro f hf
    exact roundTrips_related slots hslots hf
  · intro slot hmem p
    exact roundTrip_buffer p (hslots slot hmem)

end related

/-! ### A function that calls its argument -/

/-- The states of the program are the same. -/
def Coupling.same : Coupling T A K X W where
  rel s' s := s'.world = s.world ∧ s'.pending = none ∧ s.pending = none
  pending h := h.2
  aside h hs' hs :=
    ⟨by rw [hs'.world, hs.world, h.1], by rw [hs'.pending, h.2.1], by rw [hs.pending, h.2.2]⟩

/-- `function (g, x) { return g(x) }`, and a function that returns its argument. -/
inductive Closure where
  | apply
  | self

/-- The type of `ref` is `int`. -/
def intEnv : Env Unit Unit Closure String Unit where
  refType _ := RefType.int 4 true
  code
    | .apply, [g, x] => .call (.apply g [x]) .done
    | .self, [x] => .done (.ok x)
    | _, _ => .done (.error .undefined)
  native _ _ := .done []
  text _ := .ok ""

def Closure.value (k : Closure) : Val Unit Unit Closure String := .object (.other (.function k))

/-- `int (*)(int)`. -/
def intFunction : Function Unit Unit := ⟨.ref (), [.ref ()], ()⟩

/-- `int (*)(int (*)(int), int)`. -/
def applyFunction : Function Unit Unit := ⟨.ref (), [intFunction.type, .ref ()], ()⟩

/-- A state with one Buffer. -/
def oneBuffer : State Unit Unit Closure String Unit :=
  ⟨⟨fun _ => List.replicate pointerSize .poison, 1, false⟩, fun _ => none, none, ()⟩

theorem ofType_apply : OfType intEnv .same applyFunction oneBuffer Closure.apply.value := by
  refine related_of_alike (F := applyFunction) ?_
  intro t' t _ _ hrel args' args hargs
  obtain ⟨g', g, _, _, rfl, rfl, hg, hargs⟩ := hargs.of_cons
  obtain ⟨x', x, _, _, rfl, rfl, hx, hargs⟩ := hargs.of_cons
  obtain ⟨rfl, rfl⟩ := hargs.of_nil
  have hx' : RelatedAll intEnv .same intFunction.argTypes t' t [x'] [x] := relatedAll_cons.mpr
    ⟨hx, relatedAll_nil⟩
  exact .apply intFunction hrel hg hx' fun _ _ _ _ _ _ hrel' hv => .done hrel' hv

theorem function_round_trip_apply :
    ∃ f' t, applyFunction.roundTrips intEnv [⟨.block 0, 0⟩, ⟨.block 0, 0⟩] Closure.apply.value
        oneBuffer = (.ok f', t) ∧ oneBuffer.Aside t ∧
      Related intEnv .same applyFunction.type t oneBuffer f' Closure.apply.value := by
  refine (function_round_trip intEnv .same applyFunction [⟨.block 0, 0⟩, ⟨.block 0, 0⟩] oneBuffer
    ?_).1 _ ofType_apply
  intro slot hslot
  rcases List.mem_cons.mp hslot with rfl | hslot
  · rfl
  · obtain rfl := List.mem_singleton.mp hslot
    rfl

/-- Both calls go through two foreign functions and two callbacks. -/
example : ((do
    let f ← applyFunction.roundTrips intEnv [⟨.block 0, 0⟩, ⟨.block 0, 0⟩] Closure.apply.value
    call intEnv 12 f [Closure.self.value, .number (.finite 5 0)] : Script _ _ _ _ _ _)
      oneBuffer).1 = .ok (.number (.finite 5 0)) := by rfl

end NodeFfi.FunctionType
