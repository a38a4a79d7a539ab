import Mathlib.Data.Nat.Init
import NodeFfi.Threaded.Invariant
import NodeFfi.Transition.Channel

/-!
# What a run has done

The events of a schedule are read off its labels: the pushes, the dispatches with their
arguments, the calls of `Invoke` and their returns. `Recorded` says which of them have happened
to an invocation from where its caller is, and the queue as a channel (`fifo`) relates the order
of the dispatches to that of the pushes.
-/

namespace NodeFfi.Threaded

open Transition

variable {Thread : Type} [DecidableEq Thread]

/-! ### The events of a schedule -/

def Label.pushed? : Label Thread → Option (Inv Thread)
  | .push inv => some inv
  | _ => none

def Label.dispatched? : Label Thread → Option (Inv Thread)
  | .dispatch inv _ _ => some inv
  | _ => none

/-- The arguments with which `inv`'s caller entered `Invoke`. -/
def Label.entered? (inv : Inv Thread) : Label Thread → Option Call
  | .enter i call => if i = inv then some call else none
  | _ => none

/-- The arguments that `DispatchToV8` was given for `inv`. -/
def Label.given? (inv : Inv Thread) : Label Thread → Option Call
  | .dispatch i call _ => if i = inv then some call else none
  | _ => none

/-- The pushes to `g_queue`, in order. -/
def pushes (ls : List (Label Thread)) : List (Inv Thread) := ls.filterMap Label.pushed?

/-- The calls of `DispatchToV8` by `WatcherCallback`, in order. -/
def dispatches (ls : List (Label Thread)) : List (Inv Thread) := ls.filterMap Label.dispatched?

def calls (ls : List (Label Thread)) (inv : Inv Thread) : List Call :=
  ls.filterMap (Label.entered? inv)

def given (ls : List (Label Thread)) (inv : Inv Thread) : List Call :=
  ls.filterMap (Label.given? inv)

/-! ### The queue is a channel -/

/-- The invocation that is popped and not yet dispatched. -/
def Watcher.popped : Watcher Thread → List (Inv Thread)
  | .dispatch inv => [inv]
  | _ => []

/-- What is pushed and not yet dispatched, the oldest first. -/
def State.undispatched (s : State Thread) : List (Inv Thread) := s.watcher.popped ++ s.g_queue

/-- An action as an event of the channel. -/
def Label.transfer : Label Thread → List (Transfer (Inv Thread))
  | .push inv => [.send inv]
  | .dispatch inv _ _ => [.receive inv]
  | _ => []

theorem fifo_simulates : (system Thread).Simulates (channel (Inv Thread)) (fun _ => True)
    State.undispatched Label.transfer where
  step s l _ hl := by
    cases l with
    | enter inv call | ref inv | construct inv | lockQueue inv | unlockQueue inv | asyncSend inv
    | condWait inv | spuriousWake inv | wake inv | unref inv | delete inv | mainCall js | jsCall
    | jsReturn => rfl
    | push inv =>
      simp [Label.transfer, Lts.run, channel, State.undispatched, State.next, State.goto,
        State.setNative]
    | dispatch inv call js =>
      obtain ⟨hw, _⟩ := hl
      simp [Label.transfer, Lts.run, channel, State.undispatched, State.next, hw, Watcher.popped]
    | pop inv =>
      obtain ⟨hw, hq⟩ := hl
      obtain ⟨rest, hrest⟩ := List.head?_eq_some_iff.mp hq
      simp [Label.transfer, State.undispatched, State.next, hw, hrest, Watcher.popped]
    | watcherStart | watcherLock | dispatchEnd inv | signalLock inv | drained =>
      simp [Label.transfer, State.undispatched, State.next, State.setObject, hl.1, Watcher.popped]
    | condSignal inv | signalUnlock inv | watcherUnlock =>
      simp [Label.transfer, State.undispatched, State.next, State.setObject,
        show s.watcher = _ from hl, Watcher.popped]

section

omit [DecidableEq Thread]

theorem sent_transfer (ls : List (Label Thread)) :
    (ls.flatMap Label.transfer).filterMap Transfer.sent? = pushes ls := by
  induction ls with
  | nil => rfl
  | cons l ls ih =>
    rw [List.flatMap_cons, List.filterMap_append, ih, pushes, pushes]
    cases l <;> rfl

theorem received_transfer (ls : List (Label Thread)) :
    (ls.flatMap Label.transfer).filterMap Transfer.received? = dispatches ls := by
  induction ls with
  | nil => rfl
  | cons l ls ih =>
    rw [List.flatMap_cons, List.filterMap_append, ih, dispatches, dispatches]
    cases l <;> rfl

end

theorem fifo {s t : State Thread} {ls : List (Label Thread)}
    (h : (system Thread).run s ls = some t) :
    s.undispatched ++ pushes ls = dispatches ls ++ t.undispatched := by
  have hrun := fifo_simulates.run trivial (fun _ _ _ _ => trivial) h
  rw [← sent_transfer, ← received_transfer]
  exact run_channel hrun

/-! ### How far each call is -/

/-- The caller whose position an action moves, from where, to where. -/
def Label.move : Label Thread → Option (Inv Thread × InvokePc × InvokePc)
  | .enter inv _ => some (inv, .idle, .ref)
  | .ref inv => some (inv, .ref, .construct)
  | .construct inv => some (inv, .construct, .lockQueue)
  | .lockQueue inv => some (inv, .lockQueue, .push)
  | .push inv => some (inv, .push, .unlockQueue)
  | .unlockQueue inv => some (inv, .unlockQueue, .asyncSend)
  | .asyncSend inv => some (inv, .asyncSend, .condWait)
  | .condWait inv => some (inv, .condWait, .waiting)
  | .wake inv => some (inv, .waiting, .unref)
  | .unref inv => some (inv, .unref, .delete)
  | .delete inv => some (inv, .delete, .idle)
  | _ => none

namespace State

/-- The call that made `inv` is over. -/
def Returned (s : State Thread) (inv : Inv Thread) : Prop :=
  inv.serial < (s.native inv.owner).serial

section

omit [DecidableEq Thread]

theorem pcOf_of_returned {s : State Thread} {inv : Inv Thread} (h : s.Returned inv) :
    s.pcOf inv = .idle := by
  rw [Returned] at h
  exact if_neg (by omega)

theorem At.not_returned {s : State Thread} {inv : Inv Thread} {pc : InvokePc}
    (hat : s.At inv pc) : ¬ s.Returned inv := by
  have := hat.1
  rw [Returned]
  omega

theorem at_of_move {s : State Thread} {l : Label Thread} {inv : Inv Thread} {pc pc' : InvokePc}
    (hl : s.enabled l) (hm : l.move = some (inv, pc, pc')) : s.At inv pc := by
  cases l <;> simp only [Label.move, Option.some.injEq, Prod.mk.injEq, reduceCtorEq] at hm <;>
    obtain ⟨rfl, rfl, rfl⟩ := hm <;> first | exact hl | exact hl.1

end

theorem native_of_move {s : State Thread} {l : Label Thread} {inv : Inv Thread} {pc pc' : InvokePc}
    (hm : l.move = some (inv, pc, pc')) : ∃ call, (s.next l).native =
      Function.update s.native inv.owner
        ⟨pc', (s.native inv.owner).serial + (if pc = .delete then 1 else 0), call⟩ := by
  cases l <;> simp only [Label.move, Option.some.injEq, Prod.mk.injEq, reduceCtorEq] at hm <;>
    obtain ⟨rfl, rfl, rfl⟩ := hm <;> exact ⟨_, rfl⟩

theorem native_of_no_move {s : State Thread} {l : Label Thread} (hm : l.move = none) :
    (s.next l).native = s.native := by
  cases l <;> simp only [Label.move, reduceCtorEq] at hm <;> rfl

theorem returned_next {s : State Thread} {l : Label Thread} (hl : s.enabled l) (inv : Inv Thread) :
    (s.next l).Returned inv ↔ s.Returned inv ∨ l = .delete inv := by
  cases hm : l.move with
  | none =>
    have hne : l ≠ .delete inv := by
      rintro rfl
      cases hm
    simp [Returned, native_of_no_move hm, hne]
  | some m =>
    obtain ⟨i, pc, pc'⟩ := m
    have hat := (at_of_move hl hm).1
    obtain ⟨call, hn⟩ := native_of_move (s := s) hm
    by_cases hd : pc = .delete
    · obtain rfl : l = .delete i := by
        subst hd
        cases l <;> simp_all [Label.move]
      by_cases ho : inv.owner = i.owner
      · have hi : inv.serial = i.serial ↔ i = inv :=
          ⟨fun h => (inv_eq ho h).symm, fun h => by rw [h]⟩
        simp only [Returned, hn, ho, Function.update_self, hd, if_true, hat, Label.delete.injEq,
          ← hi]
        omega
      · have hne : i ≠ inv := fun h => ho (by rw [h])
        simp [Returned, hn, ho, hne]
    · have hne : l ≠ .delete inv := by
        rintro rfl
        simp only [Label.move, Option.some.injEq, Prod.mk.injEq] at hm
        exact hd hm.2.1.symm
      by_cases ho : inv.owner = i.owner
      · simp [Returned, hn, ho, hd, hne]
      · simp [Returned, hn, ho, hne]

theorem pcOf_next {s : State Thread} {l : Label Thread} (hl : s.enabled l) (inv : Inv Thread) :
    (s.next l).pcOf inv =
      match l.move with
      | some (i, _, pc') => if i = inv then pc' else s.pcOf inv
      | none => s.pcOf inv := by
  cases hm : l.move with
  | none => exact pcOf_congr (by rw [native_of_no_move hm])
  | some m =>
    obtain ⟨i, pc, pc'⟩ := m
    have hat := at_of_move hl hm
    obtain ⟨call, hn⟩ := native_of_move (s := s) hm
    have hidle : pc = .delete → pc' = .idle := by
      rintro rfl
      cases l <;> simp_all [Label.move]
    by_cases hi : i = inv
    · subst hi
      by_cases hd : pc = .delete
      · simp [pcOf, hn, hat.1, hd, hidle hd]
      · simp [pcOf, hn, hat.1, hd]
    · have h := pcOf_setNative_of_ne (n := ⟨pc', (s.native i.owner).serial +
        (if pc = .delete then 1 else 0), call⟩) hat (fun h => hi h.symm) (by
          by_cases hd : pc = .delete
          · exact .inr (hidle hd)
          · exact .inl (by simp [hd, hat.1]))
      simp only [hi, if_false]
      rw [← h.1]
      exact pcOf_congr (by rw [hn]; rfl)

end State

/-! ### What has happened to an invocation -/

/-- The present call has pushed its invocation. -/
def InvokePc.pushed : InvokePc → Bool
  | .unlockQueue | .asyncSend | .condWait | .waiting | .unref | .delete => true
  | .idle | .ref | .construct | .lockQueue | .push => false

/-- The events of a schedule that leads to `s`, from where each caller is in `s`. -/
structure Recorded (ls : List (Label Thread)) (s : State Thread) : Prop where
  nodup : (pushes ls).Nodup
  pushed : ∀ inv, inv ∈ pushes ls ↔ s.Returned inv ∨ (s.pcOf inv).pushed = true
  returned : ∀ inv, .delete inv ∈ ls ↔ s.Returned inv
  entered_returned : ∀ inv, s.Returned inv → ∃ call, calls ls inv = [call]
  entered_now : ∀ inv, s.pcOf inv ≠ .idle → calls ls inv = [s.callOf inv]
  entered_later : ∀ inv, ¬ s.Returned inv → s.pcOf inv = .idle → calls ls inv = []
  given_dispatched : ∀ inv, inv ∈ dispatches ls → given ls inv = calls ls inv
  given_undispatched : ∀ inv, inv ∉ dispatches ls → given ls inv = []

section append

variable (ls : List (Label Thread)) (l : Label Thread)

section

omit [DecidableEq Thread]

theorem pushes_snoc : pushes (ls ++ [l]) = pushes ls ++ l.pushed?.toList := by
  simp only [pushes, List.filterMap_append]
  cases l <;> rfl

theorem dispatches_snoc : dispatches (ls ++ [l]) = dispatches ls ++ l.dispatched?.toList := by
  simp only [dispatches, List.filterMap_append]
  cases l <;> rfl

end

theorem calls_snoc (inv : Inv Thread) :
    calls (ls ++ [l]) inv = calls ls inv ++ (l.entered? inv).toList := by
  simp only [calls, List.filterMap_append, List.filterMap_cons, List.filterMap_nil]
  cases l.entered? inv <;> rfl

theorem given_snoc (inv : Inv Thread) :
    given (ls ++ [l]) inv = given ls inv ++ (l.given? inv).toList := by
  simp only [given, List.filterMap_append, List.filterMap_cons, List.filterMap_nil]
  cases l.given? inv <;> rfl

end append

theorem recorded_initial : Recorded [] (State.initial : State Thread) where
  nodup := List.nodup_nil
  pushed inv := by
    rw [State.pcOf_initial]
    simp [pushes, State.Returned, State.initial, InvokePc.pushed]
  returned inv := by simp [State.Returned, State.initial]
  entered_returned inv h := by simp [State.Returned, State.initial] at h
  entered_now inv h := absurd (State.pcOf_initial inv) h
  entered_later _ _ _ := rfl
  given_dispatched _ _ := rfl
  given_undispatched _ _ := rfl

variable {ls : List (Label Thread)} {s : State Thread} {l : Label Thread}

theorem mem_undispatched (h : s.Invariant) {inv : Inv Thread} (hmem : inv ∈ s.undispatched) :
    s.place inv = .queued ∨ s.place inv = .popped := by
  rcases List.mem_append.mp hmem with hw | hq
  · right
    refine h.place_held ?_
    cases hs : s.watcher <;> rw [hs] at hw <;> simp_all [Watcher.popped, Watcher.holding]
  · exact .inl (State.place_of_mem hq)

theorem not_dispatched (hr : Recorded ls s)
    (hfifo : pushes ls = dispatches ls ++ s.undispatched) {inv : Inv Thread}
    (hmem : inv ∈ s.undispatched) : inv ∉ dispatches ls := by
  have hnodup := hr.nodup
  rw [hfifo, List.nodup_append] at hnodup
  exact fun hd => hnodup.2.2 inv hd inv hmem rfl

theorem pushed_next (hl : s.enabled l) (inv : Inv Thread) :
    ((s.next l).Returned inv ∨ ((s.next l).pcOf inv).pushed = true) ↔
      (s.Returned inv ∨ (s.pcOf inv).pushed = true) ∨ l = .push inv := by
  rw [State.returned_next hl, State.pcOf_next hl]
  cases hm : l.move with
  | none =>
    have h1 : l ≠ .delete inv := by rintro rfl; cases hm
    have h2 : l ≠ .push inv := by rintro rfl; cases hm
    simp [h1, h2]
  | some m =>
    obtain ⟨i, pc, pc'⟩ := m
    have hat := State.at_of_move hl hm
    by_cases hi : i = inv
    · subst hi
      simp only [if_true, hat.pcOf, hat.not_returned, false_or]
      cases l <;> simp_all [Label.move] <;> obtain ⟨rfl, rfl, rfl⟩ := hm <;> simp [InvokePc.pushed]
    · have h1 : l ≠ .delete inv := by rintro rfl; simp_all [Label.move]
      have h2 : l ≠ .push inv := by rintro rfl; simp_all [Label.move]
      simp [hi, h1, h2]

theorem callOf_next (hl : s.enabled l) {inv : Inv Thread} (hpc : s.pcOf inv ≠ .idle) :
    (s.next l).callOf inv = s.callOf inv := by
  by_cases hi : inv ∈ l.inv
  · cases l with
    | enter i call =>
      obtain rfl : i = inv := by simpa [Label.inv] using hi
      exact absurd (State.At.pcOf hl) hpc
    | mainCall js | jsCall | jsReturn | watcherStart | watcherLock | drained | watcherUnlock =>
      simp [Label.inv] at hi
    | spuriousWake i | pop i | dispatch i call js | dispatchEnd i | signalLock i | condSignal i
    | signalUnlock i => rfl
    | ref i | construct i | lockQueue i | push i | unlockQueue i | asyncSend i | condWait i
    | wake i | unref i | delete i =>
      obtain rfl : i = inv := by simpa [Label.inv] using hi
      simp [State.next, State.callOf, State.goto, State.setNative, State.setObject]
  · exact (State.next_of_ne hl fun i hm he => hi (by rw [he]; exact hm)).call hpc

theorem idle_of_idle_next (hl : s.enabled l) {inv : Inv Thread}
    (hpc : (s.next l).pcOf inv = .idle) (hr : ¬ (s.next l).Returned inv) :
    s.pcOf inv = .idle ∧ ¬ s.Returned inv ∧ l.entered? inv = none := by
  rw [State.returned_next hl] at hr
  push Not at hr
  rw [State.pcOf_next hl] at hpc
  cases hm : l.move with
  | none =>
    rw [hm] at hpc
    exact ⟨hpc, hr.1, by cases l <;> simp_all [Label.move, Label.entered?]⟩
  | some m =>
    obtain ⟨i, pc, pc'⟩ := m
    rw [hm] at hpc
    by_cases hi : i = inv
    · subst hi
      simp only [if_true] at hpc
      cases l <;> simp_all [Label.move]
    · simp only [hi, if_false] at hpc
      refine ⟨hpc, hr.1, ?_⟩
      cases l <;> simp_all [Label.move, Label.entered?]

theorem busy_of_busy_next (hl : s.enabled l) {inv : Inv Thread} (hpc : (s.next l).pcOf inv ≠ .idle)
    (he : l.entered? inv = none) : s.pcOf inv ≠ .idle := by
  rw [State.pcOf_next hl] at hpc
  cases hm : l.move with
  | none => rwa [hm] at hpc
  | some m =>
    obtain ⟨i, pc, pc'⟩ := m
    rw [hm] at hpc
    by_cases hi : i = inv
    · subst hi
      rw [(State.at_of_move hl hm).pcOf]
      rintro rfl
      cases l <;> simp_all [Label.move, Label.entered?]
    · simpa [hi] using hpc

theorem calls_of_not_entered (inv : Inv Thread) (he : l.entered? inv = none) :
    calls (ls ++ [l]) inv = calls ls inv := by
  rw [calls_snoc, he, Option.toList_none, List.append_nil]

theorem not_dispatched_of_enter (hr : Recorded ls s)
    (hfifo : pushes ls = dispatches ls ++ s.undispatched) {inv : Inv Thread}
    (hat : s.At inv .idle) : inv ∉ dispatches ls := by
  intro hd
  have hp : inv ∈ pushes ls := by
    rw [hfifo]
    exact List.mem_append_left _ hd
  rcases (hr.pushed inv).mp hp with hret | hpc
  · exact hat.not_returned hret
  · rw [hat.pcOf] at hpc
    cases hpc

theorem entered_step (hr : Recorded ls s) (hl : s.enabled l) (inv : Inv Thread) :
    ((s.next l).Returned inv → ∃ call, calls (ls ++ [l]) inv = [call]) ∧
      ((s.next l).pcOf inv ≠ .idle → calls (ls ++ [l]) inv = [(s.next l).callOf inv]) ∧
      (¬ (s.next l).Returned inv → (s.next l).pcOf inv = .idle → calls (ls ++ [l]) inv = []) := by
  by_cases hent : ∃ call, l = .enter inv call
  · obtain ⟨call, rfl⟩ := hent
    have hat : s.At inv .idle := hl
    have hold := hr.entered_later inv hat.not_returned hat.pcOf
    have hnew : calls (ls ++ [.enter inv call]) inv = [call] := by
      rw [calls_snoc, hold]
      simp [Label.entered?]
    refine ⟨fun _ => ⟨call, hnew⟩, fun _ => ?_, fun _ hpc => ?_⟩
    · rw [hnew]
      simp [State.next, State.setNative, State.callOf]
    · rw [State.pcOf_next hl] at hpc
      simp [Label.move] at hpc
  · have he : l.entered? inv = none := by
      cases l with
      | enter i call =>
        have hne : i ≠ inv := fun h => hent ⟨call, by rw [h]⟩
        simp [Label.entered?, hne]
      | _ => rfl
    rw [calls_of_not_entered inv he]
    refine ⟨fun hret => ?_, fun hpc => ?_, fun hret hpc => ?_⟩
    · rcases (State.returned_next hl inv).mp hret with hret | rfl
      · exact hr.entered_returned inv hret
      · have hat : s.At inv .delete := hl
        exact ⟨_, hr.entered_now inv (by rw [hat.pcOf]; decide)⟩
    · have hold := busy_of_busy_next hl hpc he
      rw [callOf_next hl hold]
      exact hr.entered_now inv hold
    · obtain ⟨hidle, hnr, _⟩ := idle_of_idle_next hl hpc hret
      exact hr.entered_later inv hnr hidle

theorem given_step (h : s.Invariant) (hr : Recorded ls s)
    (hfifo : pushes ls = dispatches ls ++ s.undispatched) (hl : s.enabled l) (inv : Inv Thread) :
    (inv ∈ dispatches (ls ++ [l]) → given (ls ++ [l]) inv = calls (ls ++ [l]) inv) ∧
      (inv ∉ dispatches (ls ++ [l]) → given (ls ++ [l]) inv = []) := by
  rw [given_snoc, dispatches_snoc, List.mem_append]
  by_cases hdisp : ∃ call js, l = .dispatch inv call js
  · obtain ⟨call, js, rfl⟩ := hdisp
    obtain ⟨hw, hcall⟩ := hl
    have hnot : inv ∉ dispatches ls :=
      not_dispatched hr hfifo (by simp [State.undispatched, hw, Watcher.popped])
    have hplace : s.place inv = .popped := h.place_held (by rw [hw]; rfl)
    obtain ⟨hbuilt, hpc⟩ := h.alive_of_place (by rw [hplace]; decide)
    refine ⟨fun _ => ?_, fun hno => absurd (.inr (by simp [Label.dispatched?])) hno⟩
    rw [calls_of_not_entered inv rfl, hr.given_undispatched inv hnot, hr.entered_now inv hpc, hcall,
      ← hbuilt.2]
    simp [Label.given?, State.arguments]
  · have hgiven : l.given? inv = none := by
      cases l with
      | dispatch i call js =>
        have hne : i ≠ inv := fun he => hdisp ⟨call, js, by rw [he]⟩
        simp [Label.given?, hne]
      | _ => rfl
    have hno : inv ∉ l.dispatched?.toList := by
      cases l with
      | dispatch i call js =>
        have hne : inv ≠ i := fun he => hdisp ⟨call, js, by rw [he]⟩
        simpa [Label.dispatched?] using hne
      | _ => simp [Label.dispatched?]
    simp only [hgiven, hno, or_false, Option.toList_none, List.append_nil]
    refine ⟨fun hd => ?_, hr.given_undispatched inv⟩
    have he : l.entered? inv = none := by
      cases l with
      | enter i call =>
        have hne : i ≠ inv := by
          rintro rfl
          exact not_dispatched_of_enter hr hfifo hl hd
        simp [Label.entered?, hne]
      | _ => rfl
    rw [calls_of_not_entered inv he]
    exact hr.given_dispatched inv hd

theorem pushes_nodup_step (hr : Recorded ls s) (hl : s.enabled l) : (pushes (ls ++ [l])).Nodup := by
  rw [pushes_snoc]
  cases l with
  | push inv =>
    have hat : s.At inv .push := hl
    have hnew : inv ∉ pushes ls := by
      rw [hr.pushed, hat.pcOf]
      exact fun hp => hp.elim hat.not_returned (by decide)
    rw [List.nodup_append]
    refine ⟨hr.nodup, by simp [Label.pushed?], fun a ha b hb hab => ?_⟩
    obtain rfl : b = inv := by simpa [Label.pushed?] using hb
    exact hnew (hab ▸ ha)
  | _ => simpa [Label.pushed?] using hr.nodup

/-- **The events of a schedule follow its state.** -/
theorem recorded_step (h : s.Invariant) (hr : Recorded ls s)
    (hfifo : pushes ls = dispatches ls ++ s.undispatched) (hl : s.enabled l) :
    Recorded (ls ++ [l]) (s.next l) where
  nodup := pushes_nodup_step hr hl
  pushed inv := by
    rw [pushed_next hl, ← hr.pushed inv, pushes_snoc, List.mem_append]
    cases l <;> simp [Label.pushed?, eq_comm]
  returned inv := by
    rw [State.returned_next hl, ← hr.returned inv, List.mem_append, List.mem_singleton, eq_comm]
  entered_returned inv := (entered_step hr hl inv).1
  entered_now inv := (entered_step hr hl inv).2.1
  entered_later inv := (entered_step hr hl inv).2.2
  given_dispatched inv := (given_step h hr hfifo hl inv).1
  given_undispatched inv := (given_step h hr hfifo hl inv).2

theorem recorded {ls : List (Label Thread)} {s : State Thread}
    (h : (harmless Thread).run .initial ls = some s) : Recorded ls s := by
  refine Lts.run_induction (A := harmless Thread) Recorded recorded_initial
    (fun ls u l hrun hu hl => ?_) h
  have hfifo := fifo (Lts.run_of_restrict hrun)
  exact recorded_step (reachable_invariant hrun) hu (by simpa [State.undispatched, State.initial,
    Watcher.popped] using hfifo) hl.1

end NodeFfi.Threaded
