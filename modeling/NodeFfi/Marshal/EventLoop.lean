import NodeFfi.Marshal.Call
import NodeFfi.Transition.Lts

/-!
# The event loop

Calls of `proxy.async` and of proxies, the works that the former queue, and the ticks, as actions
that may be taken in any order: `uv_queue_work` runs every work that is queued on some thread of
the pool, and after it the completion on the main thread, once. The rest of the program changes
what belongs to it between them.

The callback of a call is known by the number of the call, and the calls of its native function by
the call's result buffer. `ranIn` remembers the world in which the native function of a call ran.
-/

namespace NodeFfi.Marshal

open Js Blocks

variable {E W : Type}

/-- What a native function does: the bytes that it returns, and an exception that a callback
called by it has left. -/
structure Outcome (E : Type) where
  bytes : List Byte
  thrown : Option (Val E)

/-- A native function that touches no memory of the library. -/
abbrev PlainFn (E W : Type) := List (List Byte) → W → Outcome E × W

/-- On the main thread an exception stays pending; on a thread of the pool the callback has given
it to `errorReportCallback`. -/
def leave (mainThread : Bool) (thrown : Option (Val E)) (m : Machine E W) : Machine E W :=
  match thrown with
  | none => m
  | some e => if mainThread then { m with pending := some e } else errorReportCallback e m

def PlainFn.native (fn : PlainFn E W) : NativeFn E W := fun mainThread arguments m =>
  ((fn arguments m.world).1.bytes,
    leave mainThread (fn arguments m.world).1.thrown (m.setWorld (fn arguments m.world).2))

/-- A call with the right number of arguments, of a function that `ForeignFunction` has made. -/
structure Call (E W : Type) where
  fn : PlainFn E W
  returnType : RefType E
  argTypes : List (RefType E)
  arguments : List (Val E)
  arity : arguments.length = argTypes.length

def Call.proxy (call : Call E W) : ForeignFunction E W :=
  .of call.fn.native call.returnType call.argTypes

/-- A call of `proxy.async` that has been made. -/
structure Issued (E W : Type) where
  call : Call E W
  /-- The first block that it allocated, its result buffer. -/
  result : Nat
  /-- The end of the blocks that it allocated. -/
  bound : Nat
  returned : Except (Val E) Unit

inductive Work (E W : Type) where
  | queued (p : AsyncCallParams E W)
  | ran (p : AsyncCallParams E W)

/-- What a call of `proxy.async` with this result has queued. -/
def queuedWork : Except (Val E) (Option (AsyncCallParams E W)) → Option (Work E W)
  | .ok (some p) => some (.queued p)
  | _ => none

structure Loop (E W : Type) where
  machine : Machine E W
  issued : Nat → Option (Issued E W)
  next : Nat
  works : Nat → Option (Work E W)
  ranIn : Nat → Option W

inductive Action (E W : Type) where
  | async (call : Call E W)
  | sync (call : Call E W)
  | work (number : Nat)
  | finish (number : Nat)
  | tick
  | program (world : W) (buffers : List (List Byte))

namespace Loop

variable [Objects E]

def async (s : Loop E W) (call : Call E W) : Loop E W :=
  let (result, m) := call.proxy.async call.arguments (some s.next) s.machine
  { machine := m
    issued := Function.update s.issued s.next
      (some ⟨call, s.machine.memory.next, m.memory.next, result.map fun _ => ()⟩)
    next := s.next + 1
    works := Function.update s.works s.next (queuedWork result)
    ranIn := s.ranIn }

def sync (s : Loop E W) (call : Call E W) : Loop E W :=
  { s with machine := (call.proxy.proxy call.arguments s.machine).2 }

def work (s : Loop E W) (number : Nat) : Loop E W :=
  match s.works number with
  | some (.queued p) =>
    { s with
      machine := ((AsyncFFICall p : Js (Machine E W) Empty Unit) s.machine).2
      works := Function.update s.works number (some (.ran p))
      ranIn := Function.update s.ranIn number (some s.machine.world) }
  | _ => s

def finish (s : Loop E W) (number : Nat) : Loop E W :=
  match s.works number with
  | some (.ran p) =>
    { s with
      machine := ((FinishAsyncFFICall p : Js (Machine E W) Empty Unit) s.machine).2
      works := Function.update s.works number none }
  | _ => s

/-- The first tick runs. -/
def tick (s : Loop E W) : Loop E W :=
  match s.machine.ticks with
  | [] => s
  | t :: ts =>
    { s with
      machine :=
        match t.run { s.machine with ticks := ts } with
        | (.ok (), m) => m
        | (.error e, m) => m.logEvent (.uncaught e) }

def program (s : Loop E W) (world : W) (buffers : List (List Byte)) : Loop E W :=
  { s with machine := (s.machine.setWorld world).setMemory (buffers.foldl .place s.machine.memory) }

def nextState (s : Loop E W) : Action E W → Loop E W
  | .async call => s.async call
  | .sync call => s.sync call
  | .work number => s.work number
  | .finish number => s.finish number
  | .tick => s.tick
  | .program world buffers => s.program world buffers

def enabled (s : Loop E W) : Action E W → Bool
  | .work number => (s.works number matches some (.queued _))
  | .finish number => (s.works number matches some (.ran _))
  | .tick => !s.machine.ticks.isEmpty
  | _ => true

/-- No call has been made yet. -/
def init (world : W) (memory : Memory) : Loop E W :=
  ⟨⟨memory, world, none, [], []⟩, fun _ => none, 0, fun _ => none, fun _ => none⟩

def system (E W : Type) [Objects E] : Transition.Lts (Loop E W) (Action E W) where
  enabled s a := s.enabled a = true
  dec _ _ := inferInstance
  next := nextState

/-! ### What can be seen of a call -/

section view

omit [Objects E]

def deferredOf (number : Nat) : Tick E → Option (Val E)
  | .callback n e => if n = number then some e else none
  | .throwError _ => none

def callbackOf (number : Nat) : Event E → Option (List (Val E))
  | .callback n arguments => if n = number then some arguments else none
  | _ => none

def isNative (result : Nat) : Event E → Bool
  | .native p => p = .block result
  | _ => false

structure View (E W : Type) where
  work : Option (Work E W)
  ranIn : Option W
  /-- The errors that ticks will give to the callback. -/
  deferred : List (Val E)
  /-- The calls of the callback. -/
  callbacks : List (List (Val E))

def view (s : Loop E W) (number : Nat) : View E W where
  work := s.works number
  ranIn := s.ranIn number
  deferred := s.machine.ticks.filterMap (deferredOf number)
  callbacks := s.machine.log.filterMap (callbackOf number)

/-- How often a native function was called with this result buffer. -/
def natives (s : Loop E W) (result : Nat) : Nat := s.machine.log.countP (isNative result)

/-- Something of the call is queued or waits for its completion. -/
def Outstanding (s : Loop E W) (number : Nat) : Prop :=
  (s.view number).deferred ≠ [] ∨ (s.view number).work ≠ none

end view

end Loop

end NodeFfi.Marshal
