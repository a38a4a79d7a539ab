import Mathlib.Algebra.Order.Ring.Nat
import Mathlib.Data.Prod.Lex
import NodeFfi.Threaded.History
import NodeFfi.Transition.Fairness

/-!
# One run of `WatcherCallback`

From the moment it holds `g_queue_mutex` until it releases it, the main thread dispatches what is
in the queue and nothing else: no native thread can push meanwhile (`drain_prefix`, `drain_all`).
It also gets to the end under a fair scheduler (`drain_ends`). The measure counts the invocations
left, then the position of the main thread, then the JavaScript left to run or, at the mutex of an
invocation, how far its caller is from `uv_cond_wait`; at that mutex the caller is the one that
has to move, everywhere else the main thread.
-/

namespace NodeFfi.Threaded

open Transition

variable {Thread : Type} [DecidableEq Thread] {s t : State Thread} {l : Label Thread}
  {ls : List (Label Thread)}

/-! ### What a run dispatches -/

theorem locked_next (hl : s.enabled l) (hw : s.watcher.locked = true) (hne : l ≠ .watcherUnlock) :
    (s.next l).watcher.locked = true := by
  cases l with
  | watcherUnlock => exact absurd rfl hne
  | watcherStart =>
    rw [hl.1] at hw
    cases hw
  | watcherLock | pop inv | dispatch inv call js | dispatchEnd inv | signalLock inv | condSignal inv
  | signalUnlock inv | drained => rfl
  | _ => exact hw

theorem drain_no_push (hs : s.Invariant) (hw : s.watcher.locked = true)
    (hrun : (harmless Thread).run s ls = some t) (hne : .watcherUnlock ∉ ls) :
    t.Invariant ∧ t.watcher.locked = true ∧ pushes ls = [] := by
  refine Lts.run_induction (A := harmless Thread) (fun ls u => .watcherUnlock ∉ ls → u.Invariant ∧
    u.watcher.locked = true ∧ pushes ls = []) (fun _ => ⟨hs, hw, rfl⟩)
    (fun ls u l _ ih hl hno => ?_) hrun hne
  rw [List.mem_append, List.mem_singleton, not_or] at hno
  obtain ⟨hinv, hlocked, hpushes⟩ := ih hno.1
  refine ⟨State.invariant_step hinv hl.1 hl.2, locked_next hl.1 hlocked (Ne.symm hno.2), ?_⟩
  rw [pushes_snoc, hpushes]
  cases l with
  | push inv => exact absurd hl.1 (hinv.not_push hlocked inv)
  | _ => rfl

theorem drain_split (hs : s.Invariant) (hlock : s.enabled .watcherLock)
    (hrun : (harmless Thread).run (s.next .watcherLock) ls = some t)
    (hne : .watcherUnlock ∉ ls) : s.g_queue = dispatches ls ++ t.undispatched := by
  have hinv := State.invariant_step hs hlock trivial
  obtain ⟨_, _, hpushes⟩ := drain_no_push hinv rfl hrun hne
  have hfifo := fifo (Lts.run_of_restrict hrun)
  rw [hpushes, List.append_nil] at hfifo
  exact hfifo

theorem undispatched_of_unlock (ht : t.Invariant) (hw : t.watcher = .unlockQueue) :
    t.undispatched = [] := by
  rw [State.undispatched, hw, ht.drained hw]
  rfl

/-! ### The run ends -/

/-- The thread that an action belongs to, for the actions that a thread does not put off forever:
a caller need not call again, and the main thread need not call native code. -/
def Label.agent : Label Thread → Option (Agent Thread)
  | .enter _ _ | .spuriousWake _ | .mainCall _ => none
  | .ref inv | .construct inv | .lockQueue inv | .push inv | .unlockQueue inv | .asyncSend inv
  | .condWait inv | .wake inv | .unref inv | .delete inv => some (.native inv.owner)
  | .jsCall | .jsReturn | .watcherStart | .watcherLock | .pop _ | .dispatch _ _ _ | .dispatchEnd _
  | .signalLock _ | .condSignal _ | .signalUnlock _ | .drained | .watcherUnlock => some .main

/-- The actions of a thread that the scheduler must not neglect. -/
def Due (a : Agent Thread) (l : Label Thread) : Prop := l.agent = some a

/-- The steps left of a run of JavaScript. -/
def Js.size : Js → ℕ
  | .ret => 1
  | .call callee rest => callee.size + rest.size + 1

/-- The actions left before the main thread tests the queue again. -/
def Watcher.stage : Watcher Thread → ℕ
  | .dispatch _ => 6
  | .running _ => 5
  | .signalLock _ => 4
  | .condSignal _ => 3
  | .signalUnlock _ => 2
  | .test => 1
  | .unlockQueue | .loop | .lockQueue => 0

/-- The actions a caller that has pushed takes before it blocks. -/
def InvokePc.distance : InvokePc → ℕ
  | .unlockQueue => 3
  | .asyncSend => 2
  | .condWait => 1
  | _ => 0

namespace State

/-- What is left to do at one position of the main thread. -/
def detail (s : State Thread) : ℕ :=
  match s.watcher with
  | .running _ => (s.frames.map Js.size).sum
  | .signalLock inv => (s.pcOf inv).distance
  | _ => 0

def drainRank (s : State Thread) : ℕ ×ₗ ℕ :=
  toLex (8 * s.g_queue.length + s.watcher.stage, s.detail)

/-- The thread whose next action brings the drain forward. -/
def drainHelper (s : State Thread) : Agent Thread :=
  match s.watcher with
  | .signalLock inv => if (s.object inv).m_mutex = none then .main else .native inv.owner
  | _ => .main

end State

section

omit [DecidableEq Thread]

theorem drainRank_lt_of_fst {s t : State Thread}
    (h : 8 * t.g_queue.length + t.watcher.stage < 8 * s.g_queue.length + s.watcher.stage) :
    t.drainRank < s.drainRank := by
  rw [State.drainRank, State.drainRank, Prod.Lex.toLex_lt_toLex]
  exact .inl h

theorem drainRank_lt_of_snd {s t : State Thread} (hq : t.g_queue = s.g_queue)
    (hw : t.watcher = s.watcher) (h : t.detail < s.detail) : t.drainRank < s.drainRank := by
  rw [State.drainRank, State.drainRank, Prod.Lex.toLex_lt_toLex, hq, hw]
  exact .inr ⟨rfl, h⟩

theorem inv_eq_of_at {inv inv' : Inv Thread} {pc : InvokePc} (hat : s.At inv pc)
    (hpc : s.pcOf inv' ≠ .idle) (ho : inv.owner = inv'.owner) : inv = inv' := by
  refine State.inv_eq ho ?_
  have h1 := hat.1
  by_contra hne
  refine hpc (if_neg ?_)
  rw [← ho, h1]
  exact hne

end

theorem detail_lt_of_caller (hs : s.Invariant) (hw : s.watcher.locked = true) (hl : s.enabled l)
    (hsig : Signalled s l) (hmain : l.agent ≠ some .main) {inv : Inv Thread}
    (hwatch : (s.next l).watcher = s.watcher) (hcase : s.watcher = .signalLock inv)
    (hi : inv ∈ l.inv) : (s.next l).detail < s.detail := by
  have hplace : s.place inv = .popped := hs.place_held (by rw [hcase]; rfl)
  have hpending := hs.caller_of_pending (.inr hplace)
  rw [State.detail, State.detail, hwatch, hcase]
  cases l with
  | push i => exact absurd hl (hs.not_push hw i)
  | unlockQueue i | asyncSend i | condWait i =>
    obtain rfl : i = inv := by simpa [Label.inv] using hi
    have hat : s.At i _ := hl
    simp [State.pcOf_next hl, Label.move, hat.pcOf, InvokePc.distance]
  | wake i =>
    obtain rfl : i = inv := by simpa [Label.inv] using hi
    obtain ⟨hat, hmem, _⟩ := hl
    obtain ⟨_, hwait⟩ := hs.fits hat
    rw [hplace] at hwait
    simp [hwait.2] at hmem
  | enter i call | ref i | construct i | unref i | delete i =>
    obtain rfl : i = inv := by simpa [Label.inv] using hi
    have hat : s.At i _ := hl
    rw [hat.pcOf] at hpending
    simp at hpending
  | lockQueue i =>
    obtain rfl : i = inv := by simpa [Label.inv] using hi
    rw [hl.1.pcOf] at hpending
    simp at hpending
  | spuriousWake i => exact hsig.elim
  | mainCall js => simp [Label.inv] at hi
  | _ => exact absurd rfl hmain

omit [DecidableEq Thread] in
theorem not_due_of_ne (hl : s.enabled l) {inv : Inv Thread} (hpc : s.pcOf inv ≠ .idle)
    (hi : inv ∉ l.inv) : ¬ Due (.native inv.owner) l := by
  intro hdue
  cases l with
  | lockQueue i | wake i =>
    have ho : i.owner = inv.owner := by simpa [Due, Label.agent] using hdue
    exact hi (by rw [← inv_eq_of_at hl.1 hpc ho]; rfl)
  | ref i | construct i | push i | unlockQueue i | asyncSend i | condWait i | unref i
  | delete i =>
    have ho : i.owner = inv.owner := by simpa [Due, Label.agent] using hdue
    exact hi (by rw [← inv_eq_of_at hl hpc ho]; rfl)
  | _ => simp [Due, Label.agent] at hdue

theorem drain_native (hs : s.Invariant) (hw : s.watcher.locked = true) (hl : s.enabled l)
    (hsig : Signalled s l) (hmain : l.agent ≠ some .main) :
    (s.next l).drainRank < s.drainRank ∨ ((s.next l).drainRank = s.drainRank ∧
      (s.next l).drainHelper = s.drainHelper ∧ ¬ Due s.drainHelper l) := by
  have hqw : (s.next l).g_queue = s.g_queue ∧ (s.next l).watcher = s.watcher ∧
      ((s.next l).frames = s.frames ∨ s.watcher = .loop) := by
    cases l with
    | push inv => exact absurd hl (hs.not_push hw inv)
    | mainCall js => exact ⟨rfl, rfl, .inr hl.1⟩
    | jsCall | jsReturn | watcherStart | watcherLock | pop inv | dispatch inv call js
    | dispatchEnd inv | signalLock inv | condSignal inv | signalUnlock inv | drained
    | watcherUnlock => exact absurd rfl hmain
    | _ => exact ⟨rfl, rfl, .inl rfl⟩
  obtain ⟨hq, hwatch, hframes⟩ := hqw
  have hnotdue : ¬ Due .main l := hmain
  cases hcase : s.watcher with
  | signalLock inv =>
    by_cases hi : inv ∈ l.inv
    · left
      exact drainRank_lt_of_snd hq hwatch (detail_lt_of_caller hs hw hl hsig hmain hwatch hcase hi)
    · right
      have hplace : s.place inv = .popped := hs.place_held (by rw [hcase]; rfl)
      have hview : State.SameView s (s.next l) inv :=
        State.next_of_ne hl fun i hm he => hi (by rw [he]; exact hm)
      have hpc := (hs.alive_of_place (by rw [hplace]; decide)).2
      refine ⟨?_, ?_, ?_⟩
      · simp only [State.drainRank, State.detail, hq, hwatch, hcase, hview.pc]
      · simp only [State.drainHelper, hwatch, hcase, hview.object]
      · simp only [State.drainHelper, hcase]
        split
        · exact hnotdue
        · exact not_due_of_ne hl hpc hi
  | loop | lockQueue => rw [hcase] at hw; cases hw
  | running inv =>
    have hf : (s.next l).frames = s.frames := hframes.resolve_right (by rw [hcase]; simp)
    right
    refine ⟨?_, ?_, ?_⟩
    · simp only [State.drainRank, State.detail, hq, hwatch, hcase, hf]
    · simp only [State.drainHelper, hwatch, hcase]
    · simpa only [State.drainHelper, hcase] using hnotdue
  | test | dispatch inv | condSignal inv | signalUnlock inv | unlockQueue =>
    right
    refine ⟨?_, ?_, ?_⟩
    · simp only [State.drainRank, State.detail, hq, hwatch, hcase]
    · simp only [State.drainHelper, hwatch, hcase]
    · simpa only [State.drainHelper, hcase] using hnotdue

theorem drain_main (hw : s.watcher.locked = true) (hl : s.enabled l)
    (hmain : l.agent = some .main) (hframes : s.frames ≠ [] → ∃ inv, s.watcher = .running inv) :
    (s.next l).watcher = .loop ∨ (s.next l).drainRank < s.drainRank := by
  cases l with
  | jsCall =>
    obtain ⟨js, hjs, hne⟩ := hl
    obtain ⟨rest, hrest⟩ := List.head?_eq_some_iff.mp hjs
    obtain ⟨inv, hrun⟩ := hframes (by rw [hrest]; simp)
    right
    refine drainRank_lt_of_snd rfl rfl ?_
    cases js with
    | ret => exact absurd rfl hne
    | call callee rest' =>
      simp only [State.detail, State.next, State.jsCall, hrun, hrest, List.map_cons, List.sum_cons,
        Js.size]
      omega
  | jsReturn =>
    obtain ⟨rest, hrest⟩ := List.head?_eq_some_iff.mp hl
    obtain ⟨inv, hrun⟩ := hframes (by rw [hrest]; simp)
    right
    refine drainRank_lt_of_snd rfl rfl ?_
    simp [State.detail, State.next, hrun, hrest, Js.size]
  | watcherStart | watcherLock =>
    rw [hl.1] at hw
    cases hw
  | pop inv =>
    obtain ⟨hcase, hq⟩ := hl
    obtain ⟨rest, hrest⟩ := List.head?_eq_some_iff.mp hq
    right
    refine drainRank_lt_of_fst ?_
    simp [State.next, hcase, hrest, Watcher.stage]
    omega
  | dispatch inv call js | dispatchEnd inv | signalLock inv | drained =>
    right
    refine drainRank_lt_of_fst ?_
    simp [State.next, State.setObject, hl.1, Watcher.stage]
  | condSignal inv | signalUnlock inv =>
    right
    refine drainRank_lt_of_fst ?_
    simp [State.next, State.setObject, show s.watcher = _ from hl, Watcher.stage]
  | watcherUnlock => exact .inl rfl
  | _ => simp [Label.agent] at hmain

theorem drain_enabled (hs : s.Invariant) (hw : s.watcher.locked = true) :
    Execution.EnabledIn (signalled Thread) (Due s.drainHelper) s := by
  have main_step : ∀ l : Label Thread, l.agent = some .main → s.enabled l →
      s.drainHelper = .main → Execution.EnabledIn (signalled Thread) (Due s.drainHelper) s := by
    intro l hagent hl hhelp
    refine ⟨l, by rw [Due, hagent, hhelp], hl, ?_⟩
    cases l <;> trivial
  cases hcase : s.watcher with
  | loop | lockQueue => rw [hcase] at hw; cases hw
  | test =>
    have hhelp : s.drainHelper = .main := by simp only [State.drainHelper, hcase]
    cases hq : s.g_queue with
    | nil => exact main_step .drained rfl ⟨hcase, hq⟩ hhelp
    | cons inv rest => exact main_step (.pop inv) rfl ⟨hcase, by simp [hq]⟩ hhelp
  | dispatch inv =>
    exact main_step (.dispatch inv (s.arguments inv) .ret) rfl ⟨hcase, rfl⟩
      (by simp only [State.drainHelper, hcase])
  | running inv =>
    have hhelp : s.drainHelper = .main := by simp only [State.drainHelper, hcase]
    cases hf : s.frames with
    | nil => exact main_step (.dispatchEnd inv) rfl ⟨hcase, hf⟩ hhelp
    | cons js rest =>
      cases js with
      | ret => exact main_step .jsReturn rfl (by simp [State.enabled, hf]) hhelp
      | call callee rest' => exact main_step .jsCall rfl (by simp [State.enabled, hf]) hhelp
  | signalLock inv =>
    by_cases hm : (s.object inv).m_mutex = none
    · exact main_step (.signalLock inv) rfl ⟨hcase, hm⟩
        (by simp only [State.drainHelper, hcase, hm, if_true])
    · have hhelp : s.drainHelper = .native inv.owner := by
        simp only [State.drainHelper, hcase, hm, if_false]
      rw [hhelp]
      have hplace : s.place inv = .popped := hs.place_held (by rw [hcase]; rfl)
      have hf := hs.coherent inv
      rw [State.Coherent, hplace] at hf
      rcases hs.caller_of_pending (.inr hplace) with hpc | hpc | hpc | hpc
      · exact ⟨.unlockQueue inv, rfl, State.at_of_pcOf hpc (by decide), trivial⟩
      · exact ⟨.asyncSend inv, rfl, State.at_of_pcOf hpc (by decide), trivial⟩
      · exact ⟨.condWait inv, rfl, State.at_of_pcOf hpc (by decide), trivial⟩
      · rw [hpc] at hf
        exact absurd hf.2.1 hm
  | condSignal inv =>
    exact main_step (.condSignal inv) rfl hcase (by simp only [State.drainHelper, hcase])
  | signalUnlock inv =>
    exact main_step (.signalUnlock inv) rfl hcase (by simp only [State.drainHelper, hcase])
  | unlockQueue =>
    exact main_step .watcherUnlock rfl hcase (by simp only [State.drainHelper, hcase])

theorem drain_progress : Execution.Progress (signalled Thread) Due
    (fun s => s.Invariant ∧ (s.watcher.locked = true ∨ s.watcher = .loop))
    (fun s => s.watcher = .loop) State.drainRank State.drainHelper where
  inv s l hs hgoal hl := by
    have hw := hs.2.resolve_right hgoal
    refine ⟨State.invariant_step hs.1 hl.1 (Signalled.harmless s l hl.2), ?_⟩
    by_cases hunlock : l = .watcherUnlock
    · right
      rw [hunlock]
      rfl
    · exact .inl (locked_next hl.1 hw hunlock)
  enabled s hs hgoal := drain_enabled hs.1 (hs.2.resolve_right hgoal)
  step s l hs hgoal hl := by
    have hw := hs.2.resolve_right hgoal
    by_cases hmain : l.agent = some .main
    · exact (drain_main hw hl.1 hmain fun hf => (hs.1.frames hf).resolve_left hgoal).imp_right
        .inl
    · exact .inr (drain_native hs.1 hw hl.1 hl.2 hmain)

/-- **A run of `WatcherCallback` that has the queue ends**, whatever the other threads do. -/
theorem drain_ends {e : Execution (signalled Thread)} (hfair : ∀ a, e.Fair (Due a)) {n : ℕ}
    (hinv : (e.state n).Invariant) (hw : (e.state n).watcher.locked = true) :
    ∃ m, n ≤ m ∧ (e.state m).watcher = .loop :=
  Execution.eventually drain_progress hfair ⟨hinv, .inl hw⟩

end NodeFfi.Threaded
