import Mathlib.Logic.Function.Basic
import NodeFfi.Transition.Lts

/-!
# Callbacks invoked from other threads

`CallbackInfo::Invoke` on any number of native threads, `CallbackInfo::WatcherCallback` on the
main thread, and the `ThreadedCallbackInvokation` objects the two meet at, one action for each
call they make that another thread can observe. A native thread builds its invocation (the
constructor locks `m_mutex`), pushes it to `g_queue` under `g_queue_mutex`, wakes the event loop
with `uv_async_send` and blocks in `uv_cond_wait`; the main thread drains the queue under the same
mutex, runs the JavaScript function of each invocation and signals its owner.

Of libuv: `uv_async_send` sets one flag, which the event loop clears before it calls
`WatcherCallback`; `uv_cond_wait` releases the mutex and blocks in one step and holds the mutex
again when it returns; `uv_cond_signal` wakes a thread that is blocked and is lost when there is
none; `uv_ref` and `uv_unref` set and clear one flag of the handle. A wait may also return
without a signal (`spuriousWake`); the results that exclude it say so.

A pointer to an invocation is the call that made it (`Inv`): the allocator may hand out the
address of a deleted object again, but two invocations are never confused here. Reading an
object after its deletion is not blocked, it finds what the object last held.
-/

namespace NodeFfi.Threaded

/-- A thread: the main one, or one that is not. -/
inductive Agent (Thread : Type) where
  | main
  | native (t : Thread)
  deriving DecidableEq, Repr

/-- The arguments of `Invoke` that an invocation keeps. -/
structure Call where
  info : Nat
  retval : Nat
  parameters : Nat
  deriving DecidableEq, Repr

/-- A `ThreadedCallbackInvokation *`: the object of the `serial`-th call that `owner` makes. -/
structure Inv (Thread : Type) where
  owner : Thread
  serial : Nat
  deriving DecidableEq, Repr

structure ThreadedCallbackInvokation (Thread : Type) where
  m_cbinfo : Nat
  m_retval : Nat
  m_parameters : Nat
  m_mutex : Option (Agent Thread)
  /-- The threads blocked in `uv_cond_wait`. -/
  m_cond : List Thread
  /-- Constructed and not deleted. -/
  alive : Bool
  deriving DecidableEq, Repr

/-- The action a native thread takes next inside `Invoke`; `idle` is outside of it. -/
inductive InvokePc where
  | idle
  | ref
  | construct
  | lockQueue
  | push
  | unlockQueue
  | asyncSend
  | condWait
  /-- Inside `uv_cond_wait`, `m_mutex` released. -/
  | waiting
  | unref
  | delete
  deriving DecidableEq, Repr

structure Native where
  pc : InvokePc
  /-- The calls of `Invoke` that this thread has returned from. -/
  serial : Nat
  /-- The arguments of the present call. -/
  call : Call
  deriving DecidableEq, Repr

/-- What the main thread does next inside `WatcherCallback`; `loop` is outside of it. -/
inductive Watcher (Thread : Type) where
  | loop
  | lockQueue
  /-- The test of the `while` loop. -/
  | test
  /-- `inv` is popped and `DispatchToV8` is called on it next. -/
  | dispatch (inv : Inv Thread)
  /-- Inside `DispatchToV8`. -/
  | running (inv : Inv Thread)
  | signalLock (inv : Inv Thread)
  | condSignal (inv : Inv Thread)
  | signalUnlock (inv : Inv Thread)
  | unlockQueue
  deriving DecidableEq, Repr

/-- A run of JavaScript as far as callbacks are concerned: native code that it calls may invoke
a callback on the main thread (`call`), which runs `callee` before `rest` goes on. -/
inductive Js where
  | ret
  | call (callee rest : Js)
  deriving DecidableEq, Repr

structure State (Thread : Type) where
  native : Thread → Native
  object : Inv Thread → ThreadedCallbackInvokation Thread
  g_queue : List (Inv Thread)
  g_queue_mutex : Option (Agent Thread)
  /-- The wakeup flag of `g_async`. -/
  pending : Bool
  /-- The reference flag of `g_async`. -/
  referenced : Bool
  watcher : Watcher Thread
  /-- The JavaScript of the main thread, the innermost `DispatchToV8` first. -/
  frames : List Js

inductive Label (Thread : Type) where
  | enter (inv : Inv Thread) (call : Call)
  | ref (inv : Inv Thread)
  | construct (inv : Inv Thread)
  | lockQueue (inv : Inv Thread)
  | push (inv : Inv Thread)
  | unlockQueue (inv : Inv Thread)
  | asyncSend (inv : Inv Thread)
  | condWait (inv : Inv Thread)
  | spuriousWake (inv : Inv Thread)
  /-- `uv_cond_wait` takes `m_mutex` again and returns. -/
  | wake (inv : Inv Thread)
  | unref (inv : Inv Thread)
  /-- `delete inv`, and `Invoke` returns. -/
  | delete (inv : Inv Thread)
  /-- Outside `WatcherCallback`, a callback is invoked on the main thread. -/
  | mainCall (js : Js)
  | jsCall
  | jsReturn
  | watcherStart
  | watcherLock
  | pop (inv : Inv Thread)
  /-- `DispatchToV8` is called with these arguments and runs `js`. -/
  | dispatch (inv : Inv Thread) (call : Call) (js : Js)
  | dispatchEnd (inv : Inv Thread)
  | signalLock (inv : Inv Thread)
  | condSignal (inv : Inv Thread)
  | signalUnlock (inv : Inv Thread)
  /-- The `while` loop ends on the empty queue. -/
  | drained
  | watcherUnlock
  deriving DecidableEq, Repr

namespace State

variable {Thread : Type} [DecidableEq Thread]

/-- No thread is in `Invoke`, and `Initialize` has unreferenced the handle. -/
def initial : State Thread where
  native _ := ⟨.idle, 0, ⟨0, 0, 0⟩⟩
  object _ := ⟨0, 0, 0, none, [], false⟩
  g_queue := []
  g_queue_mutex := none
  pending := false
  referenced := false
  watcher := .loop
  frames := []

/-- The owner of `inv` is in the call that made it, at `pc`. -/
def At (s : State Thread) (inv : Inv Thread) (pc : InvokePc) : Prop :=
  (s.native inv.owner).serial = inv.serial ∧ (s.native inv.owner).pc = pc

instance (s : State Thread) (inv : Inv Thread) (pc : InvokePc) : Decidable (s.At inv pc) :=
  inferInstanceAs (Decidable (_ ∧ _))

/-- The arguments of the call that made `inv`, while its owner is in that call. -/
def callOf (s : State Thread) (inv : Inv Thread) : Call := (s.native inv.owner).call

def setNative (s : State Thread) (t : Thread) (n : Native) : State Thread :=
  { s with native := Function.update s.native t n }

def goto (s : State Thread) (inv : Inv Thread) (pc : InvokePc) : State Thread :=
  s.setNative inv.owner { s.native inv.owner with pc := pc }

def setObject (s : State Thread) (inv : Inv Thread) (o : ThreadedCallbackInvokation Thread) :
    State Thread :=
  { s with object := Function.update s.object inv o }

/-- What `DispatchToV8` is given of an invocation. -/
def arguments (s : State Thread) (inv : Inv Thread) : Call :=
  ⟨(s.object inv).m_cbinfo, (s.object inv).m_retval, (s.object inv).m_parameters⟩

/-- The guard of each action. A lock waits for its mutex; an unlock asks for nothing. -/
def enabled (s : State Thread) : Label Thread → Prop
  | .enter inv _ => s.At inv .idle
  | .ref inv => s.At inv .ref
  | .construct inv => s.At inv .construct
  | .lockQueue inv => s.At inv .lockQueue ∧ s.g_queue_mutex = none
  | .push inv => s.At inv .push
  | .unlockQueue inv => s.At inv .unlockQueue
  | .asyncSend inv => s.At inv .asyncSend
  | .condWait inv => s.At inv .condWait
  | .spuriousWake inv => s.At inv .waiting ∧ inv.owner ∈ (s.object inv).m_cond
  | .wake inv =>
    s.At inv .waiting ∧ inv.owner ∉ (s.object inv).m_cond ∧ (s.object inv).m_mutex = none
  | .unref inv => s.At inv .unref
  | .delete inv => s.At inv .delete
  | .mainCall _ => s.watcher = .loop ∧ s.frames = []
  | .jsCall => ∃ js ∈ s.frames.head?, js ≠ .ret
  | .jsReturn => s.frames.head? = some .ret
  | .watcherStart => s.watcher = .loop ∧ s.frames = [] ∧ s.pending = true
  | .watcherLock => s.watcher = .lockQueue ∧ s.g_queue_mutex = none
  | .pop inv => s.watcher = .test ∧ s.g_queue.head? = some inv
  | .dispatch inv call _ => s.watcher = .dispatch inv ∧ call = s.arguments inv
  | .dispatchEnd inv => s.watcher = .running inv ∧ s.frames = []
  | .signalLock inv => s.watcher = .signalLock inv ∧ (s.object inv).m_mutex = none
  | .condSignal inv => s.watcher = .condSignal inv
  | .signalUnlock inv => s.watcher = .signalUnlock inv
  | .drained => s.watcher = .test ∧ s.g_queue = []
  | .watcherUnlock => s.watcher = .unlockQueue

instance (s : State Thread) (l : Label Thread) : Decidable (s.enabled l) := by
  cases l <;> simp only [enabled] <;> infer_instance

/-- The innermost JavaScript calls a callback. -/
def jsCall : List Js → List Js
  | .call callee rest :: frames => callee :: rest :: frames
  | frames => frames

/-- The effect of each action. -/
def next (s : State Thread) : Label Thread → State Thread
  | .enter inv call =>
    s.setNative inv.owner ⟨.ref, (s.native inv.owner).serial, call⟩
  | .ref inv => { s.goto inv .construct with referenced := true }
  | .construct inv =>
    (s.goto inv .lockQueue).setObject inv
      ⟨(s.callOf inv).info, (s.callOf inv).retval, (s.callOf inv).parameters,
        some (.native inv.owner), [], true⟩
  | .lockQueue inv => { s.goto inv .push with g_queue_mutex := some (.native inv.owner) }
  | .push inv => { s.goto inv .unlockQueue with g_queue := s.g_queue ++ [inv] }
  | .unlockQueue inv => { s.goto inv .asyncSend with g_queue_mutex := none }
  | .asyncSend inv => { s.goto inv .condWait with pending := true }
  | .condWait inv =>
    (s.goto inv .waiting).setObject inv
      { s.object inv with m_mutex := none, m_cond := (s.object inv).m_cond ++ [inv.owner] }
  | .spuriousWake inv =>
    s.setObject inv { s.object inv with m_cond := (s.object inv).m_cond.erase inv.owner }
  | .wake inv =>
    (s.goto inv .unref).setObject inv
      { s.object inv with m_mutex := some (.native inv.owner) }
  | .unref inv => { s.goto inv .delete with referenced := false }
  | .delete inv =>
    (s.setNative inv.owner
      ⟨.idle, (s.native inv.owner).serial + 1, (s.native inv.owner).call⟩).setObject inv
        { s.object inv with m_mutex := none, alive := false }
  | .mainCall js => { s with frames := [js] }
  | .jsCall => { s with frames := jsCall s.frames }
  | .jsReturn => { s with frames := s.frames.tail }
  | .watcherStart => { s with watcher := .lockQueue, pending := false }
  | .watcherLock => { s with watcher := .test, g_queue_mutex := some .main }
  | .pop inv => { s with watcher := .dispatch inv, g_queue := s.g_queue.tail }
  | .dispatch inv _ js => { s with watcher := .running inv, frames := [js] }
  | .dispatchEnd inv => { s with watcher := .signalLock inv }
  | .signalLock inv =>
    { s.setObject inv { s.object inv with m_mutex := some .main } with
      watcher := .condSignal inv }
  | .condSignal inv =>
    { s.setObject inv { s.object inv with m_cond := (s.object inv).m_cond.tail } with
      watcher := .signalUnlock inv }
  | .signalUnlock inv =>
    { s.setObject inv { s.object inv with m_mutex := none } with watcher := .test }
  | .drained => { s with watcher := .unlockQueue }
  | .watcherUnlock => { s with watcher := .loop, g_queue_mutex := none }

end State

variable {Thread : Type} [DecidableEq Thread]

/-- The threads that invoke callbacks and the main thread, in every interleaving. -/
def system (Thread : Type) [DecidableEq Thread] :
    Transition.Lts (State Thread) (Label Thread) where
  enabled := State.enabled
  dec _ _ := inferInstance
  next := State.next

@[simp] theorem system_enabled (s : State Thread) (l : Label Thread) :
    (system Thread).enabled s l ↔ s.enabled l := Iff.rfl

@[simp] theorem system_next (s : State Thread) (l : Label Thread) :
    (system Thread).next s l = s.next l := rfl

/-- The wait of `inv` may return without a signal only between `uv_mutex_lock` and
`uv_cond_signal` of the `SignalDoneExecuting` of `inv`. -/
def Harmless (s : State Thread) : Label Thread → Prop
  | .spuriousWake inv => s.watcher = .condSignal inv
  | _ => True

instance (s : State Thread) (l : Label Thread) : Decidable (Harmless s l) := by
  cases l <;> simp only [Harmless] <;> infer_instance

/-- No wait returns without a signal. -/
def Signalled (_ : State Thread) : Label Thread → Prop
  | .spuriousWake _ => False
  | _ => True

instance (s : State Thread) (l : Label Thread) : Decidable (Signalled s l) := by
  cases l <;> simp only [Signalled] <;> infer_instance

omit [DecidableEq Thread] in
theorem Signalled.harmless (s : State Thread) (l : Label Thread) (h : Signalled s l) :
    Harmless s l := by
  cases l <;> first | exact trivial | exact h.elim

end NodeFfi.Threaded
