import NodeFfi.Threaded.Drain

/-!
# Every callback is delivered once, in order, to its own caller

The schedules without spurious wakeups. `Delivered` is what a schedule shows of the invocations
pushed so far; `callbacks_delivered` adds the single runs of `WatcherCallback`.
-/

namespace NodeFfi.Threaded

open Transition

variable {Thread : Type} [DecidableEq Thread] {s : State Thread} {l : Label Thread}
  {ls : List (Label Thread)}

/-- What a schedule shows of the pushes, the dispatches and the returns from `Invoke`. -/
structure Delivered (ls : List (Label Thread)) : Prop where
  once : ∀ inv, (dispatches ls).count inv ≤ 1
  pushed : ∀ pre inv call js post, ls = pre ++ .dispatch inv call js :: post → inv ∈ pushes pre
  not_deleted : ∀ pre inv call js post, ls = pre ++ .dispatch inv call js :: post →
    .delete inv ∉ pre
  fifo : dispatches ls <+: pushes ls
  /-- A caller that has returned entered with one `Call`, and `DispatchToV8` ran once for it, with
  the very same. -/
  returned : ∀ inv, .delete inv ∈ ls → ∃ call, calls ls inv = [call] ∧ given ls inv = [call]
  /-- And by then it had returned. -/
  ended : ∀ pre inv post, ls = pre ++ .delete inv :: post →
    ∃ before mid, pre = before ++ .dispatchEnd inv :: mid ∧ inv ∈ dispatches before

/-! ### What the main thread has done with an invocation -/

/-- `DispatchToV8` is called and has returned before `SignalDoneExecuting` begins. -/
def Watcher.signals : Watcher Thread → Option (Inv Thread)
  | .signalLock inv | .condSignal inv | .signalUnlock inv => some inv
  | _ => none

/-- What the main thread has done with an invocation, from where it is with it now. -/
structure Progressed (ls : List (Label Thread)) (s : State Thread) (inv : Inv Thread) : Prop where
  running : s.watcher = .running inv → inv ∈ dispatches ls
  ended : .dispatchEnd inv ∈ ls → inv ∈ dispatches ls
  signals : s.watcher.signals = some inv → .dispatchEnd inv ∈ ls
  signalled : .signalUnlock inv ∈ ls → .dispatchEnd inv ∈ ls

theorem progressed_of_same {inv : Inv Thread} (h : Progressed ls s inv)
    (hw : (s.next l).watcher = .running inv → s.watcher = .running inv)
    (hsig : (s.next l).watcher.signals = some inv → s.watcher.signals = some inv)
    (hend : l ≠ .dispatchEnd inv) (hret : l ≠ .signalUnlock inv) :
    Progressed (ls ++ [l]) (s.next l) inv := by
  have hin : ∀ {l'}, l' ∈ ls → l' ∈ ls ++ [l] := fun h => List.mem_append_left _ h
  have hdisp : inv ∈ dispatches ls → inv ∈ dispatches (ls ++ [l]) := by
    intro h
    rw [dispatches_snoc]
    exact List.mem_append_left _ h
  constructor
  · intro hrun
    exact hdisp (h.running (hw hrun))
  · intro hmem
    rcases List.mem_append.mp hmem with hmem | hmem
    · exact hdisp (h.ended hmem)
    · exact absurd (List.mem_singleton.mp hmem).symm hend
  · intro hs
    exact hin (h.signals (hsig hs))
  · intro hmem
    rcases List.mem_append.mp hmem with hmem | hmem
    · exact hin (h.signalled hmem)
    · exact absurd (List.mem_singleton.mp hmem).symm hret

theorem progressed_step {inv : Inv Thread} (h : Progressed ls s inv) (hl : s.enabled l) :
    Progressed (ls ++ [l]) (s.next l) inv := by
  cases l with
  | dispatch i call js =>
    refine ⟨fun hrun => ?_, fun hmem => ?_, fun hs => ?_, fun hmem => ?_⟩
    · obtain rfl : i = inv := by simpa [State.next] using hrun
      simp [dispatches_snoc, Label.dispatched?]
    · have hold := h.ended (by simpa using hmem)
      simp [dispatches_snoc, hold]
    · cases hs
    · have hold := h.signalled (by simpa using hmem)
      simp [hold]
  | dispatchEnd i =>
    refine ⟨fun hrun => ?_, fun hmem => ?_, fun hs => ?_, fun hmem => ?_⟩
    · cases hrun
    · rcases List.mem_append.mp hmem with hold | hnew
      · simp [dispatches_snoc, h.ended hold]
      · obtain rfl : inv = i := by simpa using hnew
        simp [dispatches_snoc, h.running hl.1]
    · obtain rfl : i = inv := by simpa [State.next, Watcher.signals] using hs
      simp
    · have hold := h.signalled (by simpa using hmem)
      simp [hold]
  | signalUnlock i =>
    have hw : s.watcher = .signalUnlock i := hl
    refine ⟨fun hrun => ?_, fun hmem => ?_, fun hs => ?_, fun hmem => ?_⟩
    · cases hrun
    · have hold := h.ended (by simpa using hmem)
      simp [dispatches_snoc, hold]
    · cases hs
    · rcases List.mem_append.mp hmem with hold | hnew
      · simp [h.signalled hold]
      · obtain rfl : inv = i := by simpa using hnew
        simp [h.signals (by rw [hw]; rfl)]
  | signalLock i =>
    refine progressed_of_same h (fun hw => ?_) (fun hs => ?_) (by simp) (by simp)
    · cases hw
    · rw [hl.1]
      exact hs
  | condSignal i =>
    refine progressed_of_same h (fun hw => ?_) (fun hs => ?_) (by simp) (by simp)
    · cases hw
    · rw [show s.watcher = .condSignal i from hl]
      exact hs
  | pop i | watcherStart | watcherLock | drained | watcherUnlock =>
    refine progressed_of_same h (fun hw => ?_) (fun hs => ?_) (by simp) (by simp)
    · cases hw
    · cases hs
  | _ => exact progressed_of_same h (fun hw => hw) (fun hs => hs) (by simp) (by simp)

theorem progressed (h : (system Thread).run .initial ls = some s) (inv : Inv Thread) :
    Progressed ls s inv := by
  refine Lts.run_induction (A := system Thread) (fun ls u => Progressed ls u inv) ?_
    (fun ls u l _ hu hl => progressed_step hu hl) h
  constructor <;> simp [State.initial, Watcher.signals]

theorem dispatched_step {inv : Inv Thread} (hl : s.enabled l)
    (h : inv ∈ dispatches ls → .dispatchEnd inv ∈ ls ∨ s.watcher = .running inv)
    (hmem : inv ∈ dispatches (ls ++ [l])) :
    .dispatchEnd inv ∈ ls ++ [l] ∨ (s.next l).watcher = .running inv := by
  rw [dispatches_snoc, List.mem_append] at hmem
  rcases hmem with hold | hnew
  · rcases h hold with hend | hw
    · exact .inl (List.mem_append_left _ hend)
    · cases l with
      | dispatchEnd i =>
        obtain rfl : i = inv := by simpa [hw, eq_comm] using hl.1
        exact .inl (List.mem_append_right _ (List.mem_singleton_self _))
      | watcherStart | watcherLock | pop | dispatch | signalLock =>
        have hother := hl.1
        rw [hw] at hother
        cases hother
      | condSignal | signalUnlock | drained | watcherUnlock =>
        simp [State.enabled, hw] at hl
      | _ => exact .inr hw
  · cases l with
    | dispatch i call js =>
      obtain rfl : inv = i := by simpa [Label.dispatched?] using hnew
      exact .inr rfl
    | _ => simp [Label.dispatched?] at hnew

theorem ended_or_running (h : (system Thread).run .initial ls = some s) {inv : Inv Thread} :
    inv ∈ dispatches ls → .dispatchEnd inv ∈ ls ∨ s.watcher = .running inv :=
  Lts.run_induction (A := system Thread)
    (fun ls u => inv ∈ dispatches ls → .dispatchEnd inv ∈ ls ∨ u.watcher = .running inv)
    (fun hmem => absurd hmem List.not_mem_nil) (fun _ _ _ _ hu hl => dispatched_step hl hu) h

theorem dispatched_before (h : (system Thread).run .initial ls = some s) {inv : Inv Thread}
    {pre post : List (Label Thread)} (hls : ls = pre ++ .dispatchEnd inv :: post) :
    inv ∈ dispatches pre := by
  obtain ⟨u, hu, hl, _⟩ := Lts.run_split (hls ▸ h)
  exact (progressed hu inv).running hl.1

theorem pushes_eq {ls : List (Label Thread)} {s : State Thread}
    (h : (harmless Thread).run .initial ls = some s) :
    pushes ls = dispatches ls ++ s.undispatched := by
  simpa [State.undispatched, State.initial, Watcher.popped] using fifo (Lts.run_of_restrict h)

theorem dispatched_of_returned {ls : List (Label Thread)} {s : State Thread}
    (h : (harmless Thread).run .initial ls = some s) {inv : Inv Thread} (hdel : .delete inv ∈ ls) :
    inv ∈ dispatches ls := by
  have hs := reachable_invariant h
  have hr := recorded h
  have hret := (hr.returned inv).mp hdel
  have hpush : inv ∈ pushes ls := (hr.pushed inv).mpr (.inl hret)
  rw [pushes_eq h, List.mem_append] at hpush
  refine hpush.resolve_right fun hmem => ?_
  have hpc := hs.caller_of_pending (mem_undispatched hs hmem)
  rw [State.pcOf_of_returned hret] at hpc
  simp at hpc

theorem ended_of_returned {ls : List (Label Thread)} {s : State Thread}
    (h : (harmless Thread).run .initial ls = some s) {inv : Inv Thread} (hdel : .delete inv ∈ ls) :
    .dispatchEnd inv ∈ ls := by
  have hs := reachable_invariant h
  refine (ended_or_running (Lts.run_of_restrict h) (dispatched_of_returned h hdel)).resolve_right
    fun hw => ?_
  have hplace : s.place inv = .popped := hs.place_held (by rw [hw]; rfl)
  have hpc := hs.caller_of_pending (.inr hplace)
  rw [State.pcOf_of_returned (((recorded h).returned inv).mp hdel)] at hpc
  simp at hpc

theorem delivered {ls : List (Label Thread)} {s : State Thread}
    (h : (harmless Thread).run .initial ls = some s) : Delivered ls where
  once inv := by
    have hnodup := (recorded h).nodup
    rw [pushes_eq h] at hnodup
    exact List.nodup_iff_count.mp (List.nodup_append.mp hnodup).1 inv
  pushed pre inv call js post hls := by
    obtain ⟨u, hu, hen, _⟩ := Lts.run_split (hls ▸ h)
    rw [pushes_eq hu, List.mem_append]
    right
    rw [State.undispatched, hen.1.1]
    simp [Watcher.popped]
  not_deleted pre inv call js post hls hdel := by
    obtain ⟨u, hu, hen, _⟩ := Lts.run_split (hls ▸ h)
    refine not_dispatched (recorded hu) (pushes_eq hu) ?_ (dispatched_of_returned hu hdel)
    rw [State.undispatched, hen.1.1]
    simp [Watcher.popped]
  fifo := ⟨s.undispatched, (pushes_eq h).symm⟩
  returned inv hdel := by
    have hr := recorded h
    obtain ⟨call, hcall⟩ := hr.entered_returned inv ((hr.returned inv).mp hdel)
    exact ⟨call, hcall, (hr.given_dispatched inv (dispatched_of_returned h hdel)).trans hcall⟩
  ended pre inv post hls := by
    have hsnoc : (harmless Thread).run .initial (pre ++ [.delete inv]) ≠ none := by
      intro hnone
      rw [hls, show pre ++ .delete inv :: post = (pre ++ [.delete inv]) ++ post by simp] at h
      obtain ⟨u, hu, _⟩ := (Lts.run_append _ _ post s).mp h
      rw [hnone] at hu
      cases hu
    obtain ⟨u, hu⟩ := Option.ne_none_iff_exists'.mp hsnoc
    have hmem := ended_of_returned hu (List.mem_append_right _ (List.mem_singleton_self _))
    have hpre : .dispatchEnd inv ∈ pre := by simpa using hmem
    obtain ⟨before, mid, rfl⟩ := List.append_of_mem hpre
    obtain ⟨v, hv, _⟩ := (Lts.run_snoc _ _ _ u).mp hu
    exact ⟨before, mid, rfl, dispatched_before (Lts.run_of_restrict hv) rfl⟩

/-- **Callbacks from other threads are delivered.** In every interleaving of any number of callers
with the main thread: each pushed invocation is dispatched at most once, in the order of the
pushes, before its owner deletes it and with its owner's arguments, and whoever returns from
`Invoke` was served; one run of `WatcherCallback` dispatches what was in the queue when it took the
lock, and ends under a fair scheduler. -/
theorem callbacks_delivered {ls : List (Label Thread)} {s : State Thread}
    (hrun : (signalled Thread).run .initial ls = some s) :
    Delivered ls ∧
    (∀ inv, s.place inv ≠ .absent → (s.object inv).alive = true) ∧
    (∀ pre mid post u, ls = pre ++ .watcherLock :: (mid ++ post) → .watcherUnlock ∉ mid →
      (signalled Thread).run .initial pre = some u →
      dispatches mid <+: u.g_queue ∧
        (post.head? = some .watcherUnlock → dispatches mid = u.g_queue)) ∧
    (∀ e : Execution (signalled Thread), e.state 0 = s → (∀ a, e.Fair (Due a)) →
      s.watcher.locked = true → ∃ m, (e.state m).watcher = .loop) := by
  have h := harmless_of_signalled hrun
  refine ⟨delivered h, fun inv hp => ((reachable_invariant h).alive_of_place hp).1.1, ?_, ?_⟩
  · intro pre mid post u hls hmid hpre
    have hpre' := harmless_of_signalled hpre
    obtain ⟨v, hv, hlock, hrest⟩ := Lts.run_split (hls ▸ h)
    obtain rfl : u = v := Option.some.inj (hpre'.symm.trans hv)
    obtain ⟨w, hw, hpost⟩ := (Lts.run_append _ mid post s).mp hrest
    have hinv := reachable_invariant hpre'
    have hsplit := drain_split hinv hlock.1 hw hmid
    refine ⟨⟨w.undispatched, hsplit.symm⟩, fun hend => ?_⟩
    obtain ⟨rest, rfl⟩ := List.head?_eq_some_iff.mp hend
    have hunlock := ((Lts.run_cons w _ rest s).mp hpost).1.1
    have hlocked : u.enabled .watcherLock := hlock.1
    have hwinv := run_invariant (State.invariant_step hinv hlocked trivial) hw
    rw [hsplit, undispatched_of_unlock hwinv hunlock, List.append_nil]
  · rintro e rfl hfair hw
    obtain ⟨m, _, hm⟩ := drain_ends hfair (reachable_invariant h) hw
    exact ⟨m, hm⟩

section schedule

/-- Two threads invoke callbacks at the same time; the first one's JavaScript invokes another
callback on the main thread, and the second one pushes before the queue is drained. -/
def twoCallers : List (Label Bool) :=
  let a : Inv Bool := ⟨false, 0⟩
  let b : Inv Bool := ⟨true, 0⟩
  [.enter a ⟨7, 100, 104⟩, .ref a, .construct a, .enter b ⟨8, 200, 204⟩, .lockQueue a, .push a,
    .ref b, .construct b, .unlockQueue a, .lockQueue b, .push b, .asyncSend a, .unlockQueue b,
    .watcherStart, .watcherLock, .pop a, .dispatch a ⟨7, 100, 104⟩ (.call .ret .ret), .jsCall,
    .jsReturn, .jsReturn, .dispatchEnd a, .condWait a, .signalLock a, .condSignal a,
    .signalUnlock a, .wake a, .pop b, .dispatch b ⟨8, 200, 204⟩ .ret, .asyncSend b, .jsReturn,
    .dispatchEnd b, .condWait b, .signalLock b, .condSignal b, .signalUnlock b, .drained,
    .watcherUnlock, .unref a, .delete a]

theorem twoCallers_runs : ∃ s, (signalled Bool).run .initial twoCallers = some s :=
  Option.isSome_iff_exists.mp (by decide)

theorem callbacks_delivered_twoCallers :
    Delivered twoCallers ∧ dispatches twoCallers = [⟨false, 0⟩, ⟨true, 0⟩] := by
  obtain ⟨s, hs⟩ := twoCallers_runs
  exact ⟨(callbacks_delivered hs).1, rfl⟩

end schedule

end NodeFfi.Threaded
