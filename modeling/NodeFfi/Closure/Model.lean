import Mathlib.Logic.Function.Basic
import NodeFfi.Libffi.Status
import NodeFfi.Transition.Lts
import NodeFfi.Types.DataModel

/-!
# Callback objects and the closures behind them

`CallbackInfo::Callback` puts a `callback_info` in a block that `ffi_closure_alloc` chose and
returns a Buffer around its code pointer; `closure_pointer_cb` frees the block when that Buffer is
collected; `CallbackInfo::Invoke` runs when native code calls a code pointer, and either dispatches
at once or queues the `callback_info *` for the main thread.

libffi: `ffi_closure_alloc` returns any block that is free, in particular one that was freed
before, and a block has one code address, so a code pointer is the block itself here. The user
data of a closure is its own block. A freed block is `dlmalloc`'s: when it is freed or at any later
time its first words, which are those of the closure, become the links of a list or of a tree, the
word behind it, which is its last field, the size of a free chunk, and its page may be unmapped
(`Upkeep`). What is left in between, `DispatchToV8` reads. A run ends when something that an action
needs is not there any more.
-/

namespace NodeFfi.Closure

open Libffi Types

variable {Block Buffer Fn : Type}

/-- `callback_info`. A `Nan::Callback *` is a number, and `none` is `NULL`. -/
structure CallbackInfo where
  errorFunction : Nat
  function : Option Nat
  argc : Nat
  resultSize : Nat
  deriving DecidableEq, Repr

/-- The arguments of `CallbackInfo::Callback` that it keeps. -/
structure CallbackArgs (Fn : Type) where
  resultSize : Nat
  argc : Nat
  errorReportCallback : Fn
  callback : Fn
  deriving DecidableEq, Repr

/-- The Buffer that `Callback` returned. -/
structure CodeBuffer (Block : Type) where
  code : Block
  collected : Bool
  deriving DecidableEq, Repr

/-- An invocation in `g_queue`: the closure, and the Buffer whose code pointer was called. -/
structure Invocation (Block Buffer : Type) where
  m_cbinfo : Block
  through : Buffer
  deriving DecidableEq, Repr

/-- What there is in the memory of a block. -/
inductive Remains where
  /-- A closure, as `ffi_prep_closure_loc` wrote it, and the fields behind it. -/
  | closure
  /-- The fields behind the closure only. -/
  | fields
  /-- It is not mapped. -/
  | nothing
  deriving DecidableEq, Repr

/-- What `dlmalloc` does to a block that is free. -/
inductive Upkeep where
  /-- `fd` and `bk`, and the links of a tree, over the closure. -/
  | links
  /-- `prev_foot` of the next chunk, over the last field. -/
  | foot (size : Nat)
  /-- `sys_trim` and `release_unused_segments`. -/
  | unmap
  deriving DecidableEq, Repr

structure State (Block Buffer Fn : Type) where
  /-- The fields of a block behind the closure, freed or not. -/
  info : Block → CallbackInfo
  remains : Block → Remains
  allocated : Block → Bool
  /-- The `Nan::Callback` objects that exist, with the JavaScript function of each. -/
  handle : Nat → Option Fn
  handles : Nat
  buffer : Buffer → Option (CodeBuffer Block)
  g_queue : List (Invocation Block Buffer)
  running : Bool

inductive Label (Block Buffer Fn : Type) where
  /-- `Callback` with the block that `ffi_closure_alloc` returns and the status that
  `ffi_prep_closure_loc` returns; `buffer` is the new Buffer if there is one. -/
  | callback (buffer : Buffer) (args : CallbackArgs Fn) (alloc : Option Block) (status : Status)
  /-- The garbage collector runs `closure_pointer_cb`. -/
  | collect (buffer : Buffer)
  /-- The allocator, in one of its calls. -/
  | manage (block : Block) (upkeep : Upkeep)
  /-- Native code on the main thread calls the code pointer in the Buffer. -/
  | invoke (buffer : Buffer)
  /-- Native code on another thread does. -/
  | invokeThreaded (buffer : Buffer)
  /-- `WatcherCallback` dispatches the front of the queue. -/
  | dispatch (invocation : Invocation Block Buffer)
  deriving DecidableEq, Repr

/-- What an invocation does. -/
inductive Report (Fn : Type) where
  /-- `Nan::ThrowError`. -/
  | throwError (message : String)
  /-- A call of `info->errorFunction`. -/
  | errorFunction (f : Fn) (message : String)
  /-- A call of `info->function` with Buffers of these sizes. -/
  | function (f : Fn) (retvalSize parametersSize : Nat)
  /-- Something that it needs is not there. -/
  | fault
  deriving DecidableEq, Repr

/-- What `Callback` throws. -/
inductive CallbackError where
  | closureAlloc
  | prepClosure (status : Status)
  deriving DecidableEq, Repr

def CallbackError.message : CallbackError → String
  | .closureAlloc => "ffi_closure_alloc() Returned Error"
  | .prepClosure _ => "ffi_prep_closure() Returned Error"

def errorMessage : String := "ffi fatal: callback has been garbage collected!"

namespace State

def initial (info : Block → CallbackInfo) : State Block Buffer Fn where
  info := info
  remains _ := .nothing
  allocated _ := false
  handle _ := none
  handles := 0
  buffer _ := none
  g_queue := []
  running := true

/-- `new Nan::Callback(f)`. -/
def newHandle (s : State Block Buffer Fn) (f : Fn) : Nat × State Block Buffer Fn :=
  (s.handles,
    { s with handle := Function.update s.handle s.handles (some f), handles := s.handles + 1 })

/-- What an action needs and does not find: native code jumps into a closure, and `DispatchToV8`
reads the fields of a block. -/
def lacks (s : State Block Buffer Fn) : Label Block Buffer Fn → Bool
  | .invoke buffer | .invokeThreaded buffer =>
    (s.buffer buffer).any fun c => s.remains c.code ≠ .closure
  | .dispatch invocation => s.remains invocation.m_cbinfo = .nothing
  | _ => false

variable [DecidableEq Block] [DecidableEq Buffer]

def setInfo (s : State Block Buffer Fn) (b : Block) (info : CallbackInfo) :
    State Block Buffer Fn :=
  { s with info := Function.update s.info b info }

def setRemains (s : State Block Buffer Fn) (b : Block) (remains : Remains) :
    State Block Buffer Fn :=
  { s with remains := Function.update s.remains b remains }

def setAllocated (s : State Block Buffer Fn) (b : Block) (allocated : Bool) :
    State Block Buffer Fn :=
  { s with allocated := Function.update s.allocated b allocated }

/-- `ffi_closure_alloc` of the block: memory that has been unmapped is mapped again. -/
def closureAlloc (s : State Block Buffer Fn) (b : Block) : State Block Buffer Fn :=
  let s := s.setAllocated b true
  if s.remains b = .nothing then s.setRemains b .fields else s

/-- What the allocator writes into a free block. -/
def manage (s : State Block Buffer Fn) (b : Block) : Upkeep → State Block Buffer Fn
  | .links => s.setRemains b .fields
  | .foot size => s.setInfo b { s.info b with resultSize := size }
  | .unmap => s.setRemains b .nothing

/-- `CallbackInfo::Callback`. -/
def callback (s : State Block Buffer Fn) (buffer : Buffer) (args : CallbackArgs Fn)
    (alloc : Option Block) (status : Status) :
    Except CallbackError Buffer × State Block Buffer Fn :=
  match alloc with
  | none => (.error .closureAlloc, s)
  | some cbInfo =>
    let s := s.closureAlloc cbInfo
    let (errorFunction, s) := s.newHandle args.errorReportCallback
    let (function, s) := s.newHandle args.callback
    let s := s.setInfo cbInfo ⟨errorFunction, some function, args.argc, args.resultSize⟩
    if status ≠ .ok then
      -- no closure has been written; the two handles stay, and so do the fields of the block
      (.error (.prepClosure status), s.setAllocated cbInfo false)
    else
      let s := s.setRemains cbInfo .closure
      (.ok buffer,
        { s with buffer := Function.update s.buffer buffer (some ⟨cbInfo, false⟩) })

/-- `closure_pointer_cb` of a Buffer whose `hint` is the block `info`. -/
def closurePointerCb (s : State Block Buffer Fn) (info : Block) : State Block Buffer Fn :=
  let s := match (s.info info).function with
    | some h => { s with handle := Function.update s.handle h none }
    | none => s
  let s := s.setInfo info { s.info info with function := none }
  s.setAllocated info false

/-- `CallbackInfo::DispatchToV8`, up to the call it makes, of fields that can be read. -/
def dispatchToV8 (m : DataModel) (s : State Block Buffer Fn) (info : Block) (dispatched : Bool) :
    Report Fn :=
  match (s.info info).function with
  | none =>
    if dispatched then
      match s.handle (s.info info).errorFunction with
      | some f => .errorFunction f errorMessage
      | none => .fault
    else .throwError errorMessage
  | some h =>
    match s.handle h with
    | some f => .function f (s.info info).resultSize (m.pointerSize * (s.info info).argc)
    | none => .fault

/-- The guard of each action: a block that is given out was free, a Buffer is new, the allocator
uses memory that is mapped and free, and a code pointer may be called whether or not its Buffer still
exists. -/
def permits (s : State Block Buffer Fn) : Label Block Buffer Fn → Prop
  | .callback buffer _ alloc _ => s.buffer buffer = none ∧ ∀ b ∈ alloc, s.allocated b = false
  | .collect buffer => ∃ c ∈ s.buffer buffer, c.collected = false
  | .manage block _ => s.allocated block = false ∧ s.remains block ≠ .nothing
  | .invoke buffer | .invokeThreaded buffer => s.buffer buffer ≠ none
  | .dispatch invocation => s.g_queue.head? = some invocation

def enabled (s : State Block Buffer Fn) (l : Label Block Buffer Fn) : Prop :=
  s.running = true ∧ s.permits l

/-- The state after an action that finds what it needs. -/
def effect (s : State Block Buffer Fn) : Label Block Buffer Fn → State Block Buffer Fn
  | .callback buffer args alloc status => (s.callback buffer args alloc status).2
  | .collect buffer =>
    match s.buffer buffer with
    | some c =>
      { s.closurePointerCb c.code with
        buffer := Function.update s.buffer buffer (some { c with collected := true }) }
    | none => s
  | .manage block upkeep => s.manage block upkeep
  | .invoke _ => s
  | .invokeThreaded buffer =>
    match s.buffer buffer with
    | some c => { s with g_queue := s.g_queue ++ [⟨c.code, buffer⟩] }
    | none => s
  | .dispatch _ => { s with g_queue := s.g_queue.tail }

def next (s : State Block Buffer Fn) (l : Label Block Buffer Fn) : State Block Buffer Fn :=
  if s.lacks l then { s with running := false } else s.effect l

/-- The closure and the mode of the `DispatchToV8` that an action runs, and the Buffer whose code
pointer was called. -/
def dispatching (s : State Block Buffer Fn) :
    Label Block Buffer Fn → Option (Buffer × Block × Bool)
  | .invoke buffer => (s.buffer buffer).map fun c => (buffer, c.code, false)
  | .dispatch invocation => some (invocation.through, invocation.m_cbinfo, true)
  | _ => none

/-- What an action makes of an invocation. -/
def report (m : DataModel) (s : State Block Buffer Fn) (l : Label Block Buffer Fn) :
    Option (Report Fn) :=
  if s.lacks l then some .fault
  else (s.dispatching l).map fun d => s.dispatchToV8 m d.2.1 d.2.2

instance (s : State Block Buffer Fn) (l : Label Block Buffer Fn) :
    Decidable (s.enabled l) := by
  cases l <;> simp only [enabled, permits] <;> infer_instance

end State

/-- Callback objects over a whole run. -/
def system (Block Buffer Fn : Type) [DecidableEq Block] [DecidableEq Buffer] :
    Transition.Lts (State Block Buffer Fn) (Label Block Buffer Fn) where
  enabled := State.enabled
  dec _ _ := inferInstance
  next := State.next

end NodeFfi.Closure
