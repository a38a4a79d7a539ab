import NodeFfi.Closure.Stale
import NodeFfi.Transition.Ledger

/-!
# What native code owns

The callback objects of `CallbackInfo` together with the calls of `FFICallAsync`, which keep a
persistent handle to their callback, an `AsyncCallParams` and a request until `FinishAsyncFFICall`
is through with them. `uv_queue_work` runs each work item on a thread of the pool and after it the
completion on the main thread. The completion calls a JavaScript function, which may do anything
that JavaScript does, before it releases what the call owns, so it is two actions here.

What `new` and `ffi_closure_alloc` give and `delete` and `ffi_closure_free` take back is a
`Resource`. A live callback Buffer owns its closure block and the two handles in it, a call that is
not completed its request, its parameters and the handle in these.
-/

namespace NodeFfi.Native

open Libffi Closure Transition

variable {Block Buffer Fn : Type}

/-- The data of the Buffers that `FFICallAsync` is given, and the callback. -/
structure AsyncArgs (Fn : Type) where
  cif : Nat
  fn : Nat
  res : Nat
  argv : Nat
  callback : Fn
  deriving DecidableEq, Repr

/-- `AsyncCallParams`. -/
structure AsyncCallParams where
  result : Status
  cif : Nat
  fn : Nat
  res : Nat
  argv : Nat
  callback : Nat
  deriving DecidableEq, Repr

/-- `uv_work_t`. -/
structure Request where
  data : Nat
  deriving DecidableEq, Repr

/-- How far libuv is with a work item. -/
inductive Stage where
  | queued
  /-- `AsyncFFICall` has run. -/
  | ran
  /-- `FinishAsyncFFICall` is in the callback. -/
  | calling
  | completed
  deriving DecidableEq, Repr

structure State (Block Buffer Fn : Type) where
  closures : Closure.State Block Buffer Fn
  /-- The `AsyncCallParams` that exist. -/
  params : Nat → Option AsyncCallParams
  /-- The requests that exist. -/
  requests : Nat → Option Request
  stage : Nat → Option Stage
  /-- How many calls of `FFICallAsync` there were. -/
  calls : Nat

inductive Label (Block Buffer Fn : Type) where
  /-- `Callback`, `closure_pointer_cb`, and the invocations of callbacks. -/
  | closure (l : Closure.Label Block Buffer Fn)
  | callAsync (args : AsyncArgs Fn)
  /-- `AsyncFFICall`. -/
  | work (n : Nat)
  /-- `FinishAsyncFFICall` calls the callback. -/
  | finish (n : Nat)
  /-- `FinishAsyncFFICall` goes on when the callback is through. -/
  | finished (n : Nat)
  deriving DecidableEq, Repr

namespace State

def initial (info : Block → CallbackInfo) : State Block Buffer Fn :=
  ⟨.initial info, fun _ => none, fun _ => none, fun _ => none, 0⟩

/-- `FFICallAsync`. -/
def callAsync (s : State Block Buffer Fn) (args : AsyncArgs Fn) : State Block Buffer Fn :=
  let p := s.calls
  let req := s.calls
  let (callback, closures) := s.closures.newHandle args.callback
  { closures
    params := Function.update s.params p
      (some ⟨.ok, args.cif, args.fn, args.res, args.argv, callback⟩)
    requests := Function.update s.requests req (some ⟨p⟩)
    stage := Function.update s.stage req (some .queued)
    calls := s.calls + 1 }

/-- `FinishAsyncFFICall` from `delete p->callback` on. -/
def finished (s : State Block Buffer Fn) (req : Nat) : State Block Buffer Fn :=
  match s.requests req with
  | none => s
  | some request =>
    match s.params request.data with
    | none => s
    | some p =>
      { s with
        closures := { s.closures with handle := Function.update s.closures.handle p.callback none }
        params := Function.update s.params request.data none
        requests := Function.update s.requests req none
        stage := Function.update s.stage req (some .completed) }

variable [DecidableEq Block] [DecidableEq Buffer]

def enabled (s : State Block Buffer Fn) : Label Block Buffer Fn → Prop
  | .closure l => s.closures.enabled l
  | .callAsync _ => True
  | .work n => s.stage n = some .queued
  | .finish n => s.stage n = some .ran
  | .finished n => s.stage n = some .calling

def next (s : State Block Buffer Fn) : Label Block Buffer Fn → State Block Buffer Fn
  | .closure l => { s with closures := s.closures.next l }
  | .callAsync args => s.callAsync args
  | .work n => { s with stage := Function.update s.stage n (some .ran) }
  | .finish n => { s with stage := Function.update s.stage n (some .calling) }
  | .finished n => s.finished n

instance (s : State Block Buffer Fn) (l : Label Block Buffer Fn) : Decidable (s.enabled l) := by
  cases l <;> simp only [enabled] <;> infer_instance

end State

/-- Callbacks and asynchronous calls over a whole run. -/
def system (Block Buffer Fn : Type) [DecidableEq Block] [DecidableEq Buffer] :
    Lts (State Block Buffer Fn) (Label Block Buffer Fn) where
  enabled := State.enabled
  dec _ _ := inferInstance
  next := State.next

/-! ### Resources -/

inductive Resource (Block : Type) where
  /-- A closure block. -/
  | block (b : Block)
  /-- A `Nan::Callback`, a persistent handle to a function. -/
  | handle (h : Nat)
  | params (p : Nat)
  | request (req : Nat)
  deriving DecidableEq, Repr

inductive Owner (Buffer : Type) where
  | buffer (buffer : Buffer)
  | call (n : Nat)
  deriving DecidableEq, Repr

namespace State

def Live (s : State Block Buffer Fn) : Resource Block → Prop
  | .block b => s.closures.allocated b = true
  | .handle h => (s.closures.handle h).isSome
  | .params p => (s.params p).isSome
  | .request req => (s.requests req).isSome

instance (s : State Block Buffer Fn) (r : Resource Block) : Decidable (s.Live r) := by
  cases r <;> simp only [Live] <;> infer_instance

/-- The call is not completed. -/
def Outstanding (s : State Block Buffer Fn) (n : Nat) : Prop :=
  s.stage n ≠ none ∧ s.stage n ≠ some .completed

instance (s : State Block Buffer Fn) (n : Nat) : Decidable (s.Outstanding n) :=
  inferInstanceAs (Decidable (_ ∧ _))

/-- The block of a callback, and the handles in it. -/
def blockResources (s : State Block Buffer Fn) (b : Block) : List (Resource Block) :=
  [.block b, .handle (s.closures.info b).errorFunction] ++
    ((s.closures.info b).function.map Resource.handle).toList

/-- A request, the parameters it leads to, and the handle in these. -/
def requestResources (s : State Block Buffer Fn) (req : Nat) : List (Resource Block) :=
  .request req ::
    match s.requests req with
    | none => []
    | some request =>
      .params request.data :: ((s.params request.data).map fun p => .handle p.callback).toList

/-- What an owner holds: a Buffer until it is collected, a call until it is completed. -/
def holdings (s : State Block Buffer Fn) : Owner Buffer → List (Resource Block)
  | .buffer buffer =>
    match s.closures.buffer buffer with
    | some ⟨code, false⟩ => s.blockResources code
    | _ => []
  | .call n => if s.Outstanding n then s.requestResources n else []

def ledger (s : State Block Buffer Fn) : Ledger (Owner Buffer) (Resource Block) :=
  ⟨s.Live, s.holdings⟩

/-- What an action gets from `ffi_closure_alloc` and `new`. -/
def acquired (s : State Block Buffer Fn) : Label Block Buffer Fn → List (Resource Block)
  | .closure (.callback _ _ (some b) _) =>
    [.block b, .handle s.closures.handles, .handle (s.closures.handles + 1)]
  | .callAsync _ => [.request s.calls, .params s.calls, .handle s.closures.handles]
  | _ => []

/-- What an action gives to `ffi_closure_free` and `delete`. -/
def released (s : State Block Buffer Fn) : Label Block Buffer Fn → List (Resource Block)
  | .closure (.callback _ _ (some b) status) => if status = .ok then [] else [.block b]
  | .closure (.collect buffer) =>
    match s.closures.buffer buffer with
    | some c => ((s.closures.info c.code).function.map Resource.handle).toList ++ [.block c.code]
    | none => []
  | .finished n =>
    match s.requests n with
    | none => []
    | some request =>
      match s.params request.data with
      | none => []
      | some p => [.handle p.callback, .params request.data, .request n]
  | _ => []

end State

end NodeFfi.Native
