import NodeFfi.Threaded.Model

/-!
# One invocation at a time

What the protocol says about an invocation depends on four things: how far its owner is in the
call that made it (`pcOf`), the object, where the pointer to it is (`place`), and the arguments of
the call. An action names at most one invocation, and leaves these four things of every other one
as they are (`next_of_ne`).
-/

namespace NodeFfi.Threaded

/-- Where the pointer to an invocation is. -/
inductive Place where
  | absent
  | queued
  /-- Taken from the queue, `SignalDoneExecuting` does not yet hold `m_mutex`. -/
  | popped
  /-- `SignalDoneExecuting` holds `m_mutex` and has not yet signalled. -/
  | signalling
  | signalled
  deriving DecidableEq, Repr

variable {Thread : Type} [DecidableEq Thread]

/-- The invocation that the main thread holds, and how far it is with it. -/
def Watcher.holding : Watcher Thread → Option (Inv Thread × Place)
  | .dispatch inv | .running inv | .signalLock inv => some (inv, .popped)
  | .condSignal inv => some (inv, .signalling)
  | .signalUnlock inv => some (inv, .signalled)
  | .loop | .lockQueue | .test | .unlockQueue => none

/-- The main thread holds `g_queue_mutex`. -/
def Watcher.locked : Watcher Thread → Bool
  | .loop | .lockQueue => false
  | _ => true

/-- A thread holds `g_queue_mutex`. -/
def InvokePc.locked : InvokePc → Bool
  | .push | .unlockQueue => true
  | _ => false

/-- The invocation an action is about. -/
def Label.inv : Label Thread → Option (Inv Thread)
  | .enter inv _ | .ref inv | .construct inv | .lockQueue inv | .push inv | .unlockQueue inv
  | .asyncSend inv | .condWait inv | .spuriousWake inv | .wake inv | .unref inv | .delete inv
  | .pop inv | .dispatch inv _ _ | .dispatchEnd inv | .signalLock inv | .condSignal inv
  | .signalUnlock inv => some inv
  | .mainCall _ | .jsCall | .jsReturn | .watcherStart | .watcherLock | .drained
  | .watcherUnlock => none

namespace State

/-- How far the owner of `inv` is in the call that made it; `idle` before and after. -/
def pcOf (s : State Thread) (inv : Inv Thread) : InvokePc :=
  if (s.native inv.owner).serial = inv.serial then (s.native inv.owner).pc else .idle

def place (s : State Thread) (inv : Inv Thread) : Place :=
  if inv ∈ s.g_queue then .queued
  else match s.watcher.holding with
    | some (held, p) => if held = inv then p else .absent
    | none => .absent

section

omit [DecidableEq Thread]

theorem At.pcOf {s : State Thread} {inv : Inv Thread} {pc : InvokePc} (h : s.At inv pc) :
    s.pcOf inv = pc := by
  rw [State.pcOf, if_pos h.1, h.2]

theorem at_of_pcOf {s : State Thread} {inv : Inv Thread} {pc : InvokePc} (h : s.pcOf inv = pc)
    (hpc : pc ≠ .idle) : s.At inv pc := by
  rw [State.pcOf] at h
  split at h
  · exact ⟨‹_›, h⟩
  · exact absurd h.symm hpc

/-! ### The frame of an action -/

theorem pcOf_congr {s t : State Thread} {inv : Inv Thread}
    (h : t.native inv.owner = s.native inv.owner) : t.pcOf inv = s.pcOf inv := by
  simp only [pcOf, h]

end

theorem place_congr {s t : State Thread} {inv : Inv Thread} (hq : t.g_queue = s.g_queue)
    (hw : t.watcher.holding = s.watcher.holding) : t.place inv = s.place inv := by
  simp only [place, hq, hw]

/-- What the protocol says about `inv` is the same in both states. -/
structure SameView (s t : State Thread) (inv : Inv Thread) : Prop where
  pc : t.pcOf inv = s.pcOf inv
  object : t.object inv = s.object inv
  place : t.place inv = s.place inv
  call : s.pcOf inv ≠ .idle → t.callOf inv = s.callOf inv

omit [DecidableEq Thread] in
theorem inv_eq {inv inv' : Inv Thread} (ho : inv'.owner = inv.owner)
    (hs : inv'.serial = inv.serial) : inv' = inv := by
  cases inv
  cases inv'
  simp_all

theorem pcOf_setNative_of_ne {s : State Thread} {inv inv' : Inv Thread} {pc : InvokePc}
    {n : Native} (hat : s.At inv pc) (hne : inv' ≠ inv)
    (hn : n.serial = inv.serial ∨ n.pc = .idle) :
    (s.setNative inv.owner n).pcOf inv' = s.pcOf inv' ∧
      (s.pcOf inv' ≠ .idle → (s.setNative inv.owner n).callOf inv' = s.callOf inv') := by
  by_cases ho : inv'.owner = inv.owner
  · have hs : ¬ inv.serial = inv'.serial := fun hs => hne (inv_eq ho hs.symm)
    have hold : s.pcOf inv' = .idle := by simp [pcOf, ho, hat.1, hs]
    refine ⟨?_, fun h => absurd hold h⟩
    rw [hold]
    rcases hn with hn | hn
    · simp [pcOf, setNative, ho, hn, hs]
    · simp [pcOf, setNative, ho, hn]
  · exact ⟨pcOf_congr (by simp [setNative, ho]), fun _ => by simp [callOf, setNative, ho]⟩

theorem sameView_native {s t : State Thread} {inv inv' : Inv Thread} {pc : InvokePc} {n : Native}
    (hat : s.At inv pc) (hne : inv' ≠ inv) (hnative : t.native = (s.setNative inv.owner n).native)
    (hn : n.serial = inv.serial ∨ n.pc = .idle) (hobject : t.object inv' = s.object inv')
    (hplace : t.place inv' = s.place inv') : SameView s t inv' := by
  obtain ⟨hpc, hcall⟩ := pcOf_setNative_of_ne hat hne hn
  have h := congrFun hnative inv'.owner
  refine ⟨(pcOf_congr h).trans hpc, hobject, hplace, fun hi => ?_⟩
  rw [← hcall hi, callOf, callOf, h]

theorem sameView_main {s t : State Thread} {inv' : Inv Thread} (hnative : t.native = s.native)
    (hobject : t.object inv' = s.object inv') (hplace : t.place inv' = s.place inv') :
    SameView s t inv' :=
  ⟨pcOf_congr (by rw [hnative]), hobject, hplace, fun _ => by rw [callOf, callOf, hnative]⟩

/-- **The frame of an action**: only the invocation it is about is touched. -/
theorem next_of_ne {s : State Thread} {l : Label Thread} {inv' : Inv Thread} (hl : s.enabled l)
    (hne : ∀ inv ∈ l.inv, inv' ≠ inv) : SameView s (s.next l) inv' := by
  cases l with
  | enter inv call =>
    exact sameView_native hl (hne inv rfl) rfl (.inl hl.1) rfl rfl
  | ref inv | unlockQueue inv | asyncSend inv | unref inv =>
    exact sameView_native hl (hne inv rfl) rfl (.inl hl.1) rfl rfl
  | lockQueue inv =>
    exact sameView_native hl.1 (hne inv rfl) rfl (.inl hl.1.1) rfl rfl
  | construct inv =>
    have h := hne inv rfl
    exact sameView_native hl h rfl (.inl hl.1) (by simp [next, setObject, goto, setNative, h]) rfl
  | push inv =>
    have h := hne inv rfl
    exact sameView_native hl h rfl (.inl hl.1) rfl (by simp [next, goto, setNative, place, h])
  | condWait inv =>
    have h := hne inv rfl
    exact sameView_native hl h rfl (.inl hl.1) (by simp [next, setObject, goto, setNative, h]) rfl
  | spuriousWake inv =>
    have h := hne inv rfl
    exact sameView_main rfl (by simp [next, setObject, h]) rfl
  | wake inv =>
    have h := hne inv rfl
    exact sameView_native hl.1 h rfl (.inl hl.1.1) (by simp [next, setObject, goto, setNative, h])
      rfl
  | delete inv =>
    have h := hne inv rfl
    exact sameView_native hl h rfl (.inr rfl) (by simp [next, setObject, setNative, h]) rfl
  | mainCall js | jsCall | jsReturn => exact sameView_main rfl rfl rfl
  | watcherStart | watcherLock | drained | watcherUnlock =>
    refine sameView_main rfl rfl (place_congr rfl ?_)
    simp only [enabled] at hl
    simp [next, Watcher.holding, hl]
  | pop inv =>
    obtain ⟨hw, hq⟩ := hl
    have h := hne inv rfl
    refine sameView_main rfl rfl ?_
    obtain ⟨rest, hrest⟩ := List.head?_eq_some_iff.mp hq
    simp [next, place, Watcher.holding, hw, hrest, h, Ne.symm h]
  | dispatch inv call js | dispatchEnd inv =>
    refine sameView_main rfl rfl (place_congr rfl ?_)
    simp [next, Watcher.holding, hl.1]
  | signalLock inv =>
    have h := hne inv rfl
    refine sameView_main rfl (by simp [next, setObject, h]) ?_
    simp [next, setObject, place, Watcher.holding, hl.1, Ne.symm h]
  | condSignal inv | signalUnlock inv =>
    have h := hne inv rfl
    refine sameView_main rfl (by simp [next, setObject, h]) ?_
    simp only [enabled] at hl
    simp [next, setObject, place, Watcher.holding, hl, Ne.symm h]

end State

end NodeFfi.Threaded
