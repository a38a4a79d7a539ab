import NodeFfi.Threaded.History
import NodeFfi.Transition.WaitsFor

/-!
# The two lock orders

`Invoke` locks the `m_mutex` of its invocation before `g_queue_mutex`, `WatcherCallback` locks
`g_queue_mutex` before the `m_mutex` of the invocation it signals. The orders do not meet: the main
thread only locks the `m_mutex` of an invocation that was pushed, and the caller that holds it has
released `g_queue_mutex` by then (`Locked.pushed`). So whoever holds a mutex that another thread
wants ranks below it (`rank_lt`), and there is no deadlock in any interleaving, with early returns
from `uv_cond_wait` included (`deadlockFree_of_run`).
-/

namespace NodeFfi.Threaded

open Transition

variable {Thread : Type} [DecidableEq Thread]

inductive Mutex (Thread : Type) where
  | g_queue_mutex
  | m_mutex (inv : Inv Thread)
  deriving DecidableEq, Repr

/-- The mutex an action unlocks, and the thread that takes the action. `uv_cond_wait` unlocks its
mutex, and the destructor of an invocation does. -/
def Label.unlocks : Label Thread → Option (Agent Thread × Mutex Thread)
  | .unlockQueue inv => some (.native inv.owner, .g_queue_mutex)
  | .condWait inv | .delete inv => some (.native inv.owner, .m_mutex inv)
  | .signalUnlock inv => some (.main, .m_mutex inv)
  | .watcherUnlock => some (.main, .g_queue_mutex)
  | _ => none

namespace State

/-- The thread is about to lock the mutex, or needs it to return from `uv_cond_wait`. The
constructor locks a mutex that no other thread knows yet. -/
def Wants (s : State Thread) : Agent Thread → Mutex Thread → Prop
  | .main, .g_queue_mutex => s.watcher = .lockQueue
  | .main, .m_mutex inv => s.watcher = .signalLock inv
  | .native t, .g_queue_mutex => (s.native t).pc = .lockQueue
  | .native t, .m_mutex inv => inv.owner = t ∧ s.At inv .waiting

def holder (s : State Thread) : Mutex Thread → Option (Agent Thread)
  | .g_queue_mutex => s.g_queue_mutex
  | .m_mutex inv => (s.object inv).m_mutex

/-- The threads and mutexes of a state. -/
def locks (s : State Thread) : Locks (Agent Thread) (Mutex Thread) := ⟨s.Wants, s.holder⟩

/-- Nobody waits in a circle, the main thread not for itself, and whoever unlocks a mutex holds
it. -/
structure DeadlockFree (s : State Thread) : Prop where
  acyclic : s.locks.Acyclic
  main : ∀ m, s.Wants .main m → s.holder m ≠ some .main
  unlock : ∀ l a m, s.enabled l → l.unlocks = some (a, m) → s.holder m = some a

/-- The invocations that `g_queue` or the main thread has a pointer to. -/
def pointers (s : State Thread) : List (Inv Thread) :=
  (s.watcher.holding.map Prod.fst).toList ++ s.g_queue

end State

/-! ### Who holds `m_mutex` -/

/-- The caller holds `m_mutex`. -/
def InvokePc.owns : InvokePc → Bool
  | .lockQueue | .push | .unlockQueue | .asyncSend | .condWait | .unref | .delete => true
  | .idle | .ref | .construct | .waiting => false

/-- The invocation whose `m_mutex` the main thread holds. -/
def Watcher.signalling : Watcher Thread → Option (Inv Thread)
  | .condSignal inv | .signalUnlock inv => some inv
  | _ => none

/-- The invocation whose `m_mutex` an action locks or unlocks. -/
def Label.mutex : Label Thread → Option (Inv Thread)
  | .construct inv | .condWait inv | .wake inv | .delete inv | .signalLock inv
  | .signalUnlock inv => some inv
  | _ => none

/-- What the positions of the threads say about the mutexes. -/
structure Locked (s : State Thread) : Prop where
  main_lock : s.g_queue_mutex = some .main ↔ s.watcher.locked = true
  native_lock : ∀ t, s.g_queue_mutex = some (.native t) ↔ (s.native t).pc.locked = true
  m_mutex : ∀ inv, (s.object inv).m_mutex =
    if s.watcher.signalling = some inv then some .main
    else if (s.pcOf inv).owns then some (.native inv.owner) else none
  apart : ∀ inv, s.watcher.signalling = some inv → (s.pcOf inv).owns = false
  pushed : ∀ inv ∈ s.pointers, s.Returned inv ∨ (s.pcOf inv).pushed = true

variable {s : State Thread} {l : Label Thread}

theorem locked_initial : Locked (.initial : State Thread) where
  main_lock := by simp [State.initial, Watcher.locked]
  native_lock t := by simp [State.initial, InvokePc.locked]
  m_mutex inv := by
    rw [State.pcOf_initial]
    rfl
  apart inv h := by cases h
  pushed inv h := by cases h

theorem mutex_frame (hl : s.enabled l) {inv : Inv Thread} (hi : l.mutex ≠ some inv) :
    ((s.next l).object inv).m_mutex = (s.object inv).m_mutex ∧
      ((s.next l).pcOf inv).owns = (s.pcOf inv).owns ∧
      ((s.next l).watcher.signalling = some inv ↔ s.watcher.signalling = some inv) := by
  have hpc := State.pcOf_next hl inv
  cases l with
  | enter i call | ref i | push i | unlockQueue i | asyncSend i | unref i =>
    refine ⟨rfl, ?_, Iff.rfl⟩
    rw [hpc]
    by_cases he : i = inv
    · subst he
      simp [Label.move, State.At.pcOf hl, InvokePc.owns]
    · simp [Label.move, he]
  | lockQueue i =>
    refine ⟨rfl, ?_, Iff.rfl⟩
    rw [hpc]
    by_cases he : i = inv
    · subst he
      simp [Label.move, hl.1.pcOf, InvokePc.owns]
    · simp [Label.move, he]
  | construct i | condWait i | wake i | delete i =>
    have he : i ≠ inv := fun he => hi (by rw [he]; rfl)
    refine ⟨?_, by rw [hpc]; simp [Label.move, he], Iff.rfl⟩
    simp [State.next, State.goto, State.setNative, State.setObject, Ne.symm he]
  | spuriousWake i =>
    refine ⟨?_, by rw [hpc]; rfl, Iff.rfl⟩
    by_cases he : inv = i
    · subst he
      simp [State.next, State.setObject]
    · simp [State.next, State.setObject, he]
  | mainCall js | jsCall | jsReturn => exact ⟨rfl, by rw [hpc]; rfl, Iff.rfl⟩
  | watcherStart | watcherLock | pop i | dispatch i call js | dispatchEnd i | drained =>
    exact ⟨rfl, by rw [hpc]; rfl, by simp [State.next, Watcher.signalling, hl.1]⟩
  | watcherUnlock =>
    have hw : s.watcher = .unlockQueue := hl
    exact ⟨rfl, by rw [hpc]; rfl, by simp [State.next, Watcher.signalling, hw]⟩
  | signalLock i =>
    have he : i ≠ inv := fun he => hi (by rw [he]; rfl)
    refine ⟨by simp [State.next, State.setObject, Ne.symm he], by rw [hpc]; rfl, ?_⟩
    simp [State.next, Watcher.signalling, hl.1, he]
  | condSignal i =>
    have hw : s.watcher = .condSignal i := hl
    refine ⟨?_, by rw [hpc]; rfl, by simp [State.next, Watcher.signalling, hw]⟩
    by_cases he : inv = i
    · subst he
      simp [State.next, State.setObject]
    · simp [State.next, State.setObject, he]
  | signalUnlock i =>
    have he : i ≠ inv := fun he => hi (by rw [he]; rfl)
    have hw : s.watcher = .signalUnlock i := hl
    refine ⟨by simp [State.next, State.setObject, Ne.symm he], by rw [hpc]; rfl, ?_⟩
    simp [State.next, Watcher.signalling, hw, he]

theorem pointers_next (hl : s.enabled l) {inv : Inv Thread} (h : inv ∈ (s.next l).pointers) :
    inv ∈ s.pointers ∨ l = .push inv := by
  cases l with
  | push i =>
    rw [State.pointers, show (s.next (.push i)).g_queue = s.g_queue ++ [i] from rfl,
      ← List.append_assoc, List.mem_append, List.mem_singleton] at h
    rcases h with h | rfl
    · exact .inl h
    · exact .inr rfl
  | pop i =>
    obtain ⟨hw, hq⟩ := hl
    obtain ⟨rest, hrest⟩ := List.head?_eq_some_iff.mp hq
    left
    simpa [State.pointers, State.next, Watcher.holding, hw, hrest] using h
  | watcherStart | watcherLock | drained | dispatch i call js | dispatchEnd i | signalLock i =>
    left
    simpa [State.pointers, State.next, State.setObject, Watcher.holding, hl.1] using h
  | condSignal i | watcherUnlock =>
    left
    simpa [State.pointers, State.next, State.setObject, Watcher.holding,
      show s.watcher = _ from hl] using h
  | signalUnlock i =>
    have hq : inv ∈ s.g_queue := by
      simpa [State.pointers, State.next, State.setObject, Watcher.holding] using h
    exact .inl (List.mem_append_right _ hq)
  | _ => exact .inl h

theorem pushed_step (h : Locked s) (hl : s.enabled l) :
    ∀ inv ∈ (s.next l).pointers, (s.next l).Returned inv ∨ ((s.next l).pcOf inv).pushed = true := by
  intro inv hmem
  refine (pushed_next hl inv).mpr ?_
  rcases pointers_next hl hmem with hold | hnew
  · exact .inl (h.pushed inv hold)
  · exact .inr hnew

/-- The `m_mutex` of `inv` is held by the one whose position says so, and by one at most. -/
structure State.Guarded (s : State Thread) (inv : Inv Thread) : Prop where
  m_mutex : (s.object inv).m_mutex =
    if s.watcher.signalling = some inv then some .main
    else if (s.pcOf inv).owns then some (.native inv.owner) else none
  apart : s.watcher.signalling = some inv → (s.pcOf inv).owns = false

theorem guarded_caller (pc : InvokePc) {t : State Thread} {inv : Inv Thread}
    (hwatcher : t.watcher = s.watcher) (hfree : s.watcher.signalling ≠ some inv)
    (hpc : t.pcOf inv = pc)
    (hmutex : (t.object inv).m_mutex = if pc.owns then some (.native inv.owner) else none) :
    t.Guarded inv where
  m_mutex := by rw [hmutex, hwatcher, if_neg hfree, hpc]
  apart hw := absurd (hwatcher ▸ hw) hfree

theorem guarded_main {t : State Thread} {inv : Inv Thread} (howns : (t.pcOf inv).owns = false)
    (hmutex : (t.object inv).m_mutex =
      if t.watcher.signalling = some inv then some .main else none) : t.Guarded inv where
  m_mutex := by rw [hmutex, howns, if_neg Bool.false_ne_true]
  apart _ := howns

theorem Locked.free_of_owns (h : Locked s) {inv : Inv Thread} {pc : InvokePc} (hat : s.At inv pc)
    (hpc : pc.owns = true) : s.watcher.signalling ≠ some inv := by
  intro hw
  have := h.apart inv hw
  rw [hat.pcOf, hpc] at this
  cases this

theorem Locked.free_of_construct (h : Locked s) {inv : Inv Thread} (hat : s.At inv .construct) :
    s.watcher.signalling ≠ some inv := by
  intro hw
  have hmem : inv ∈ s.pointers := by
    cases hs : s.watcher <;> rw [hs] at hw <;>
      simp_all [Watcher.signalling, State.pointers, Watcher.holding]
  rcases h.pushed inv hmem with hr | hp
  · exact hat.not_returned hr
  · rw [hat.pcOf] at hp
    cases hp

theorem mutex_step (h : Locked s) (hl : s.enabled l) {inv : Inv Thread} (hi : l.mutex = some inv) :
    (s.next l).Guarded inv := by
  have hpc := State.pcOf_next hl inv
  have hmutex := h.m_mutex inv
  cases l with
  | construct i =>
    obtain rfl : i = inv := Option.some.inj hi
    refine guarded_caller .lockQueue rfl (h.free_of_construct hl) ?_ ?_
    · rw [hpc]
      simp [Label.move]
    · simp [State.next, State.setObject, InvokePc.owns]
  | condWait i =>
    obtain rfl : i = inv := Option.some.inj hi
    refine guarded_caller .waiting rfl (h.free_of_owns hl rfl) ?_ ?_
    · rw [hpc]
      simp [Label.move]
    · simp [State.next, State.setObject, InvokePc.owns]
  | wake i =>
    obtain rfl : i = inv := Option.some.inj hi
    have hfree : s.watcher.signalling ≠ some i := by
      intro hw
      rw [hl.2.2, if_pos hw] at hmutex
      cases hmutex
    refine guarded_caller .unref rfl hfree ?_ ?_
    · rw [hpc]
      simp [Label.move]
    · simp [State.next, State.setObject, InvokePc.owns]
  | delete i =>
    obtain rfl : i = inv := Option.some.inj hi
    refine guarded_caller .idle rfl (h.free_of_owns hl rfl) ?_ ?_
    · rw [hpc]
      simp [Label.move]
    · simp [State.next, State.setObject, InvokePc.owns]
  | signalLock i =>
    obtain rfl : i = inv := Option.some.inj hi
    obtain ⟨hw, hm⟩ := hl
    have howns : (s.pcOf i).owns = false := by
      rw [hm, hw] at hmutex
      simpa [Watcher.signalling] using hmutex
    refine guarded_main (hpc ▸ howns) ?_
    simp [State.next, State.setObject, Watcher.signalling]
  | signalUnlock i =>
    obtain rfl : i = inv := Option.some.inj hi
    have hw : s.watcher = .signalUnlock i := hl
    have howns := h.apart i (by rw [hw]; rfl)
    refine guarded_main (hpc ▸ howns) ?_
    simp [State.next, State.setObject, Watcher.signalling]
  | _ => cases hi

/-- **Every action keeps the order of the locks.** -/
theorem locked_step (h : Locked s) (hl : s.enabled l) : Locked (s.next l) := by
  obtain ⟨hmain, hnative⟩ := State.lock_step h.main_lock h.native_lock hl
  have hguarded : ∀ inv, (s.next l).Guarded inv := by
    intro inv
    by_cases hi : l.mutex = some inv
    · exact mutex_step h hl hi
    · obtain ⟨hm, howns, hsignal⟩ := mutex_frame hl hi
      refine ⟨?_, fun hw => howns.trans (h.apart inv (hsignal.mp hw))⟩
      rw [hm, howns, h.m_mutex inv]
      simp only [hsignal]
  exact ⟨hmain, hnative, fun inv => (hguarded inv).m_mutex, fun inv => (hguarded inv).apart,
    pushed_step h hl⟩

theorem locked_of_run {ls : List (Label Thread)} (h : (system Thread).run .initial ls = some s) :
    Locked s :=
  Lts.run_induction (A := system Thread) (fun _ u => Locked u) locked_initial
    (fun _ _ _ _ hu hl => locked_step hu hl) h

/-! ### Who waits for whom -/

/-- A thread that holds a mutex that another one wants ranks below it. -/
def State.rank (s : State Thread) : Agent Thread → Nat
  | .main => if s.watcher.signalling = none then 1 else 0
  | .native t =>
    match (s.native t).pc with
    | .lockQueue => 2
    | .waiting => 1
    | _ => 0

namespace Locked

omit [DecidableEq Thread] in
theorem at_of_owns (h : (s.pcOf inv).owns = true) : s.At inv (s.pcOf inv) :=
  State.at_of_pcOf rfl (by rintro hi; rw [hi] at h; cases h)

theorem holder_of_owns (h : Locked s) {inv : Inv Thread} {pc : InvokePc} (hat : s.At inv pc)
    (hpc : pc.owns = true) : (s.object inv).m_mutex = some (.native inv.owner) := by
  rw [h.m_mutex inv, if_neg (h.free_of_owns hat hpc), hat.pcOf, if_pos hpc]

theorem rank_lt_lockQueue (h : Locked s) {b : Agent Thread} (hw : s.watcher = .lockQueue)
    (hholds : s.g_queue_mutex = some b) : s.rank b < s.rank .main := by
  cases b with
  | main =>
    have hlocked := h.main_lock.mp hholds
    rw [hw] at hlocked
    cases hlocked
  | native t =>
    have hpc := (h.native_lock t).mp hholds
    cases ht : (s.native t).pc <;> rw [ht] at hpc <;>
      simp_all [InvokePc.locked, State.rank, Watcher.signalling]

theorem rank_lt_signalLock (h : Locked s) {inv : Inv Thread} {b : Agent Thread}
    (hw : s.watcher = .signalLock inv) (hheld : (s.object inv).m_mutex = some b) :
    s.rank b < s.rank .main := by
  rw [h.m_mutex inv, hw] at hheld
  have hpushed := h.pushed inv (by simp [State.pointers, hw, Watcher.holding])
  cases howns : (s.pcOf inv).owns with
  | false =>
    rw [howns] at hheld
    cases hheld
  | true =>
    rw [howns] at hheld
    obtain rfl : Agent.native inv.owner = b := Option.some.inj hheld
    -- the caller has pushed its invocation and is past the queue
    have hat := at_of_owns howns
    have hpc : (s.pcOf inv).pushed = true := hpushed.resolve_left hat.not_returned
    rw [State.rank, State.rank, hat.2, hw]
    cases hp : s.pcOf inv <;> rw [hp] at hpc howns <;>
      simp_all [InvokePc.pushed, InvokePc.owns, Watcher.signalling]

theorem rank_lt_native (h : Locked s) {t : Thread} {b : Agent Thread}
    (hpc : (s.native t).pc = .lockQueue) (hholds : s.g_queue_mutex = some b) :
    s.rank b < s.rank (.native t) := by
  have hrank : s.rank (.native t) = 2 := by rw [State.rank, hpc]
  rw [hrank]
  cases b with
  | main =>
    simp only [State.rank]
    split <;> omega
  | native u =>
    have hu := (h.native_lock u).mp hholds
    cases hp : (s.native u).pc <;> rw [hp] at hu <;> simp_all [InvokePc.locked, State.rank]

theorem rank_lt_waiting (h : Locked s) {inv : Inv Thread} {b : Agent Thread}
    (hat : s.At inv .waiting) (hheld : (s.object inv).m_mutex = some b) :
    s.rank b < s.rank (.native inv.owner) := by
  rw [h.m_mutex inv, hat.pcOf] at hheld
  have hrank : s.rank (.native inv.owner) = 1 := by rw [State.rank, hat.2]
  by_cases hw : s.watcher.signalling = some inv
  · rw [if_pos hw] at hheld
    obtain rfl : Agent.main = b := Option.some.inj hheld
    rw [hrank]
    simp [State.rank, hw]
  · rw [if_neg hw] at hheld
    cases hheld

theorem rank_lt (h : Locked s) (a : Agent Thread) (m : Mutex Thread) (b : Agent Thread)
    (hwants : s.Wants a m) (hholds : s.holder m = some b) : s.rank b < s.rank a := by
  cases a with
  | main =>
    cases m with
    | g_queue_mutex => exact h.rank_lt_lockQueue hwants hholds
    | m_mutex inv => exact h.rank_lt_signalLock hwants hholds
  | native t =>
    cases m with
    | g_queue_mutex => exact h.rank_lt_native hwants hholds
    | m_mutex inv =>
      obtain ⟨rfl, hat⟩ := hwants
      exact h.rank_lt_waiting hat hholds

theorem unlock (h : Locked s) (hl : s.enabled l) {a : Agent Thread} {m : Mutex Thread}
    (hu : l.unlocks = some (a, m)) : s.holder m = some a := by
  cases l with
  | unlockQueue inv =>
    obtain ⟨rfl, rfl⟩ := Prod.mk.inj (Option.some.inj hu)
    have hat : s.At inv .unlockQueue := hl
    exact (h.native_lock inv.owner).mpr (by rw [hat.2]; rfl)
  | condWait inv =>
    obtain ⟨rfl, rfl⟩ := Prod.mk.inj (Option.some.inj hu)
    exact h.holder_of_owns (show s.At inv .condWait from hl) rfl
  | delete inv =>
    obtain ⟨rfl, rfl⟩ := Prod.mk.inj (Option.some.inj hu)
    exact h.holder_of_owns (show s.At inv .delete from hl) rfl
  | signalUnlock inv =>
    obtain ⟨rfl, rfl⟩ := Prod.mk.inj (Option.some.inj hu)
    have hw : s.watcher = .signalUnlock inv := hl
    change (s.object inv).m_mutex = _
    rw [h.m_mutex inv, hw]
    exact if_pos rfl
  | watcherUnlock =>
    obtain ⟨rfl, rfl⟩ := Prod.mk.inj (Option.some.inj hu)
    have hw : s.watcher = .unlockQueue := hl
    exact h.main_lock.mpr (by rw [hw]; rfl)
  | _ => cases hu

/-- **The two lock orders do not meet.** -/
theorem deadlockFree (h : Locked s) : s.DeadlockFree where
  acyclic := Locks.acyclic_of_rank s.rank h.rank_lt
  main _ hw := (Locks.acyclic_of_rank (w := s.locks) s.rank h.rank_lt).not_held hw
  unlock _ _ _ hl hu := h.unlock hl hu

end Locked

theorem deadlockFree_of_run {ls : List (Label Thread)}
    (h : (system Thread).run .initial ls = some s) : s.DeadlockFree :=
  (locked_of_run h).deadlockFree

end NodeFfi.Threaded
