import NodeFfi.Threaded.Wakeup

/-!
# Waits that return without a signal

`ThreadedCallbackInvokation` promises an order: `WaitForExecution` invoked, `SignalDoneExecuting`
returned, `WaitForExecution` returned. `InOrder` is that promise for the schedule so far, with what
it is for: whoever is past the wait was served, and no object is deleted while its pointer is in
`g_queue` or with the main thread.

The wait is a single `uv_cond_wait` without a loop around it, so one early return breaks the
promise (`spurious_breaks_order`). It is kept as long as a wait returns early only while
`SignalDoneExecuting` of the same invocation already holds `m_mutex`, and after such a schedule any
other early return can be followed by its thread alone to a failure (`order_kept_of_harmless`).
-/

namespace NodeFfi.Threaded

open Transition

variable {Thread : Type} [DecidableEq Thread] {s : State Thread} {l : Label Thread}
  {ls : List (Label Thread)}

/-- The three events that the order is about. -/
inductive Mark where
  | waitInvoked
  | signalReturned
  | waitReturned
  deriving DecidableEq, Repr

def Label.mark? (inv : Inv Thread) : Label Thread → Option Mark
  | .condWait i => if i = inv then some .waitInvoked else none
  | .signalUnlock i => if i = inv then some .signalReturned else none
  | .wake i => if i = inv then some .waitReturned else none
  | _ => none

/-- The events of one invocation, in the order they happened. -/
def marks (ls : List (Label Thread)) (inv : Inv Thread) : List Mark := ls.filterMap (Label.mark? inv)

/-- `WaitForExecution` invoked, `SignalDoneExecuting` returned, `WaitForExecution` returned. -/
def promised : List Mark := [.waitInvoked, .signalReturned, .waitReturned]

structure InOrder (ls : List (Label Thread)) (s : State Thread) : Prop where
  order : ∀ inv, marks ls inv <+: promised
  served : ∀ inv, .wake inv ∈ ls → inv ∈ dispatches ls ∧ .dispatchEnd inv ∈ ls
  alive : ∀ inv, s.place inv ≠ .absent → (s.object inv).alive = true

/-! ### The order from the position of the caller -/

/-- The events of a call that has come to a position, with the pointer at `p`. -/
def InvokePc.marked (p : Place) : InvokePc → List Mark
  | .waiting => if p = .absent then promised.take 2 else promised.take 1
  | .unref | .delete => promised
  | _ => []

/-- The events of `inv` so far. -/
def State.marked (s : State Thread) (inv : Inv Thread) : List Mark :=
  if inv.serial < (s.native inv.owner).serial then promised
  else (s.pcOf inv).marked (s.place inv)

theorem marked_prefix (s : State Thread) (inv : Inv Thread) : s.marked inv <+: promised := by
  unfold State.marked
  split
  · exact List.prefix_rfl
  · unfold InvokePc.marked
    split
    · split <;> exact List.take_prefix _ _
    · exact List.prefix_rfl
    · exact List.prefix_rfl
    · exact List.nil_prefix

theorem marked_of_at {inv : Inv Thread} {pc : InvokePc} (hat : s.At inv pc) :
    s.marked inv = pc.marked (s.place inv) := by
  have h := hat.not_returned
  unfold State.Returned at h
  rw [State.marked, if_neg h, hat.pcOf]

theorem marks_snoc (ls : List (Label Thread)) (l : Label Thread) (inv : Inv Thread) :
    marks (ls ++ [l]) inv = marks ls inv ++ (l.mark? inv).toList := by
  simp only [marks, List.filterMap_append, List.filterMap_cons, List.filterMap_nil]
  cases l.mark? inv <;> rfl

theorem marked_of_ne {inv : Inv Thread} (hl : s.enabled l) (hi : inv ∉ l.inv) :
    (s.next l).marked inv = s.marked inv ∧ l.mark? inv = none := by
  have hview : State.SameView s (s.next l) inv :=
    State.next_of_ne hl fun i hm he => hi (by rw [he]; exact hm)
  have hdel : l ≠ .delete inv := by
    rintro rfl
    exact hi rfl
  have hret := State.returned_next hl inv
  simp only [State.Returned, hdel, or_false] at hret
  refine ⟨by simp only [State.marked, hview.pc, hview.place, hret], ?_⟩
  cases l with
  | condWait i | signalUnlock i | wake i =>
    have hne : i ≠ inv := fun he => hi (by rw [he]; rfl)
    simp [Label.mark?, hne]
  | _ => rfl

theorem marked_main {s t : State Thread} {inv : Inv Thread} (hnative : t.native = s.native)
    (hs : s.place inv ≠ .absent) (ht : t.place inv ≠ .absent) : t.marked inv = s.marked inv := by
  have hpc : t.pcOf inv = s.pcOf inv := State.pcOf_congr (by rw [hnative])
  simp only [State.marked, hnative, hpc, InvokePc.marked, if_neg hs, if_neg ht]

theorem at_next {inv : Inv Thread} {pc pc' : InvokePc} (hl : s.enabled l)
    (hm : l.move = some (inv, pc, pc')) (hd : pc ≠ .delete) : (s.next l).At inv pc' := by
  obtain ⟨call, hn⟩ := State.native_of_move (s := s) hm
  have hat := State.at_of_move hl hm
  simp [State.At, hn, hd, hat.1]

/-- **One step adds the next event of the promise, or none.** -/
theorem marked_step (hs : s.Invariant) (hl : s.enabled l) (hharm : Harmless s l) (inv : Inv Thread) :
    (s.next l).marked inv = s.marked inv ++ (l.mark? inv).toList := by
  by_cases hi : inv ∈ l.inv
  swap
  · obtain ⟨hm, hnone⟩ := marked_of_ne hl hi
    rw [hm, hnone, Option.toList_none, List.append_nil]
  cases l with
  | enter i call | ref i | construct i | push i | unlockQueue i | asyncSend i | unref i =>
    obtain rfl : i = inv := by simpa [Label.inv] using hi
    rw [marked_of_at (at_next hl rfl (by decide)), marked_of_at (State.at_of_move hl rfl)]
    simp [InvokePc.marked, Label.mark?]
  | lockQueue i =>
    obtain rfl : i = inv := by simpa [Label.inv] using hi
    rw [marked_of_at (at_next hl rfl (by decide)), marked_of_at hl.1]
    simp [InvokePc.marked, Label.mark?]
  | condWait i =>
    obtain rfl : i = inv := by simpa [Label.inv] using hi
    have hat : s.At i .condWait := hl
    obtain ⟨_, hp, _⟩ := hs.fits hat
    have hplace : (s.next (.condWait i)).place i ≠ .absent := by
      rw [show (s.next (.condWait i)).place i = s.place i from rfl]
      rcases hp with hp | hp <;> rw [hp] <;> decide
    rw [marked_of_at (at_next hl rfl (by decide)), marked_of_at hat]
    simp [InvokePc.marked, Label.mark?, hplace, promised]
  | wake i =>
    obtain rfl : i = inv := by simpa [Label.inv] using hi
    obtain ⟨hat, hmem, hm⟩ := hl
    -- the mutex is free and the caller is not blocked, so it was signalled
    have hplace : s.place i = .absent := by
      obtain ⟨_, hwait⟩ := hs.fits hat
      cases hp : s.place i <;> rw [hp] at hwait <;> simp_all [Waiting]
    rw [marked_of_at (at_next (l := .wake i) ⟨hat, hmem, hm⟩ rfl (by decide)), marked_of_at hat]
    simp [InvokePc.marked, Label.mark?, hplace, promised]
  | delete i =>
    obtain rfl : i = inv := by simpa [Label.inv] using hi
    have hat : s.At i .delete := hl
    have hret := (State.returned_next hl i).mpr (.inr rfl)
    rw [State.Returned] at hret
    rw [marked_of_at hat, State.marked, if_pos hret]
    simp [InvokePc.marked, Label.mark?]
  | spuriousWake i =>
    obtain rfl : i = inv := by simpa [Label.inv] using hi
    rw [show (s.next (.spuriousWake i)).marked i = s.marked i from rfl]
    simp [Label.mark?]
  | mainCall js | jsCall | jsReturn | watcherStart | watcherLock | drained | watcherUnlock =>
    simp [Label.inv] at hi
  | pop i =>
    obtain rfl : i = inv := by simpa [Label.inv] using hi
    obtain ⟨rest, hrest⟩ := List.head?_eq_some_iff.mp hl.2
    have hold : s.place i = .queued := State.place_of_mem (by simp [hrest])
    have hinv := State.invariant_step hs hl hharm
    have hnew : (s.next (.pop i)).place i = .popped := hinv.place_held rfl
    rw [marked_main (s := s) (t := s.next _) rfl (by rw [hold]; decide) (by rw [hnew]; decide)]
    simp [Label.mark?]
  | dispatch i call js | dispatchEnd i | signalLock i =>
    obtain rfl : i = inv := by simpa [Label.inv] using hi
    have hold : s.place i = .popped := hs.place_held (by rw [hl.1]; rfl)
    have hinv := State.invariant_step hs hl hharm
    have hnew := hinv.place_held (rfl : Watcher.holding _ = some (i, _))
    rw [marked_main (s := s) (t := s.next _) rfl (by rw [hold]; decide) (by rw [hnew]; decide)]
    simp [Label.mark?]
  | condSignal i =>
    obtain rfl : i = inv := by simpa [Label.inv] using hi
    have hold : s.place i = .signalling :=
      hs.place_held (by rw [show s.watcher = .condSignal i from hl]; rfl)
    have hinv := State.invariant_step hs hl hharm
    have hnew : (s.next (.condSignal i)).place i = .signalled := hinv.place_held rfl
    rw [marked_main (s := s) (t := s.next _) rfl (by rw [hold]; decide) (by rw [hnew]; decide)]
    simp [Label.mark?]
  | signalUnlock i =>
    obtain rfl : i = inv := by simpa [Label.inv] using hi
    have hhold : s.watcher.holding = some (i, .signalled) := by
      rw [show s.watcher = .signalUnlock i from hl]
      rfl
    have hold : s.place i = .signalled := hs.place_held hhold
    have hnew : (s.next (.signalUnlock i)).place i = .absent :=
      State.place_of_not_holding (hs.held i _ hhold) rfl
    have hat : s.At i .waiting :=
      State.at_of_pcOf (hs.caller_of_signal (.inr hold)) (by decide)
    have hat' : (s.next (.signalUnlock i)).At i .waiting := hat
    rw [marked_of_at hat, marked_of_at hat']
    simp [InvokePc.marked, Label.mark?, hold, hnew, promised]

theorem marks_eq (h : (harmless Thread).run .initial ls = some s) (inv : Inv Thread) :
    marks ls inv = s.marked inv := by
  refine Lts.run_induction (A := harmless Thread) (fun ls u => marks ls inv = u.marked inv) ?_
    (fun ls u l hrun hu hl => ?_) h
  · rw [State.marked, State.pcOf_initial]
    exact (if_neg (Nat.not_lt_zero _)).symm
  · rw [marks_snoc, hu]
    exact (marked_step (reachable_invariant hrun) hl.1 hl.2 inv).symm

/-! ### Who is past the wait was served -/

theorem marked_mem {m : Mark} {inv : Inv Thread} (hm : m ∈ marks ls inv) :
    ∃ l ∈ ls, l.mark? inv = some m := List.mem_filterMap.mp hm

/-- **With no early return before the signal, the promise is kept.** -/
theorem inOrder_of_harmless (h : (harmless Thread).run .initial ls = some s) : InOrder ls s := by
  have hs := reachable_invariant h
  have hmarks := marks_eq h
  refine ⟨fun inv => ?_, fun inv hwake => ?_, fun inv hp => (hs.alive_of_place hp).1.1⟩
  · rw [hmarks]
    exact marked_prefix s inv
  · have hp := progressed (Lts.run_of_restrict h) inv
    have hpre : marks ls inv <+: promised := by
      rw [hmarks]
      exact marked_prefix s inv
    have hlast : .waitReturned ∈ marks ls inv :=
      List.mem_filterMap.mpr ⟨.wake inv, hwake, by simp [Label.mark?]⟩
    -- a prefix of the promise with the third event in it has the second
    have hmid : .signalReturned ∈ marks ls inv := by
      obtain ⟨rest, hrest⟩ := hpre
      generalize marks ls inv = ms at hrest hlast
      match ms, hrest with
      | [], _ => cases hlast
      | [a], he =>
        obtain ⟨rfl, _⟩ := List.cons.inj he
        simp at hlast
      | a :: b :: _, he =>
        obtain ⟨_, he⟩ := List.cons.inj he
        obtain ⟨rfl, _⟩ := List.cons.inj he
        simp
    obtain ⟨l, hl, hm⟩ := marked_mem hmid
    have hunlock : l = .signalUnlock inv := by
      cases l <;> simp_all [Label.mark?]
    have hended := hp.signalled (by rwa [hunlock] at hl)
    exact ⟨hp.ended hended, hended⟩

/-! ### Any other early return -/

theorem condSignal_of_signalling {inv : Inv Thread} (h : s.place inv = .signalling) :
    s.watcher = .condSignal inv := by
  unfold State.place at h
  split at h
  · cases h
  · cases hw : s.watcher with
    | condSignal i =>
      have hi : i = inv := by simpa [hw, Watcher.holding] using h
      rw [hi]
    | _ =>
      simp only [hw, Watcher.holding] at h
      try split at h
      all_goals cases h

theorem unlocked_of_not_harmless (hs : s.Invariant) {inv : Inv Thread}
    (hl : s.enabled (.spuriousWake inv)) (hharm : ¬ Harmless s (.spuriousWake inv)) :
    s.At inv .waiting ∧ s.place inv ≠ .absent ∧ (s.object inv).m_mutex = none ∧
      (s.object inv).m_cond = [inv.owner] := by
  obtain ⟨hat, hmem⟩ := hl
  obtain ⟨_, hwait⟩ := hs.fits hat
  have hnot : s.place inv ≠ .signalling := fun hp => hharm (condSignal_of_signalling hp)
  cases hp : s.place inv with
  | queued | popped =>
    rw [hp] at hwait
    exact ⟨hat, by decide, hwait.1, hwait.2⟩
  | signalling => exact absurd hp hnot
  | signalled | absent =>
    rw [hp] at hwait
    rw [hwait.2] at hmem
    cases hmem

theorem broken_of_not_harmless (h : (harmless Thread).run .initial ls = some s)
    {inv : Inv Thread} (hl : s.enabled (.spuriousWake inv))
    (hharm : ¬ Harmless s (.spuriousWake inv)) :
    ∃ t, (system Thread).run .initial (ls ++ [.spuriousWake inv, .wake inv]) = some t ∧
      ¬ InOrder (ls ++ [.spuriousWake inv, .wake inv]) t := by
  have hs := reachable_invariant h
  obtain ⟨hat, hplace, hmutex, hcond⟩ := unlocked_of_not_harmless hs hl hharm
  have hwake : (s.next (.spuriousWake inv)).enabled (.wake inv) := by
    refine ⟨hat, ?_, ?_⟩
    · simp [State.next, State.setObject, hcond]
    · simp [State.next, State.setObject, hmutex]
  refine ⟨(s.next (.spuriousWake inv)).next (.wake inv), ?_, fun hord => ?_⟩
  · rw [Lts.run_append]
    refine ⟨s, Lts.run_of_restrict h, ?_⟩
    rw [Lts.run_cons]
    refine ⟨hl, ?_⟩
    rw [Lts.run_singleton]
    exact ⟨hwake, rfl⟩
  · have hmarks : marks ls inv = [.waitInvoked] := by
      rw [marks_eq h, marked_of_at hat]
      simp [InvokePc.marked, hplace, promised]
    have hall : marks (ls ++ [.spuriousWake inv, .wake inv]) inv = [.waitInvoked, .waitReturned] := by
      rw [marks, List.filterMap_append, show ls.filterMap (Label.mark? inv) = _ from hmarks]
      simp [Label.mark?, List.filterMap_cons]
    have hpre := hord.order inv
    rw [hall] at hpre
    revert hpre
    decide

/-- **The promised order is kept while early returns are harmless**: in every schedule in which a
wait returns early only under the `SignalDoneExecuting` of its own invocation. After such a schedule
any other early return breaks it if the caller is the next to have its mutex. -/
theorem order_kept_of_harmless :
    (∀ (ls : List (Label Thread)) (s : State Thread), (harmless Thread).run .initial ls = some s →
      InOrder ls s) ∧
    (∀ (ls : List (Label Thread)) (s : State Thread) (inv : Inv Thread),
      (harmless Thread).run .initial ls = some s → s.enabled (.spuriousWake inv) →
      ¬ Harmless s (.spuriousWake inv) →
      ∃ t, (system Thread).run .initial (ls ++ [.spuriousWake inv, .wake inv]) = some t ∧
        ¬ InOrder (ls ++ [.spuriousWake inv, .wake inv]) t) :=
  ⟨fun _ _ h => inOrder_of_harmless h, fun _ _ _ h hl hharm => broken_of_not_harmless h hl hharm⟩

/-- One caller, whose wait returns before the event loop has run. -/
def earlyReturn : List (Label Unit) :=
  let a : Inv Unit := ⟨(), 0⟩
  [.enter a ⟨7, 100, 104⟩, .ref a, .construct a, .lockQueue a, .push a, .unlockQueue a,
    .asyncSend a, .condWait a, .spuriousWake a, .wake a, .unref a, .delete a]

/-- The caller returns undispatched, and the queue holds a pointer to the object it deleted. -/
theorem spurious_breaks_order :
    ∃ s, (system Unit).run .initial earlyReturn = some s ∧
      marks earlyReturn ⟨(), 0⟩ = [.waitInvoked, .waitReturned] ∧ dispatches earlyReturn = [] ∧
      s.g_queue = [⟨(), 0⟩] ∧ (s.object ⟨(), 0⟩).alive = false ∧ ¬ InOrder earlyReturn s := by
  refine ⟨_, rfl, rfl, rfl, rfl, rfl, fun h => ?_⟩
  have hpre := h.order ⟨(), 0⟩
  revert hpre
  decide

/-- The schedule in which the wait returns while `SignalDoneExecuting` holds the mutex. -/
def earlyReturnSignalled : List (Label Unit) :=
  let a : Inv Unit := ⟨(), 0⟩
  [.enter a ⟨7, 100, 104⟩, .ref a, .construct a, .lockQueue a, .push a, .unlockQueue a,
    .asyncSend a, .condWait a, .watcherStart, .watcherLock, .pop a, .dispatch a ⟨7, 100, 104⟩ .ret,
    .jsReturn, .dispatchEnd a, .signalLock a, .spuriousWake a, .condSignal a, .signalUnlock a,
    .wake a, .unref a, .delete a]

theorem order_kept_earlyReturnSignalled :
    ∃ s, (harmless Unit).run .initial earlyReturnSignalled = some s ∧
      InOrder earlyReturnSignalled s := by
  obtain ⟨s, hs⟩ : ∃ s, (harmless Unit).run .initial earlyReturnSignalled = some s :=
    Option.isSome_iff_exists.mp (by decide)
  exact ⟨s, hs, order_kept_of_harmless.1 _ _ hs⟩

end NodeFfi.Threaded
