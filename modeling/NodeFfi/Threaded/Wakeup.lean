import NodeFfi.Threaded.Delivery

/-!
# No wakeup is lost

The two signals of the protocol. `uv_async_send` sets a flag, so a push is answered as long as
somebody is still going to look at the queue (`Attended`). `uv_cond_signal` is lost when nobody is
blocked; the constructor locks `m_mutex` before the invocation is published and only
`uv_cond_wait` releases it, so whoever signals finds the owner blocked (`SignalHeard`).
-/

namespace NodeFfi.Threaded

open Transition

variable {Thread : Type} [DecidableEq Thread] {s : State Thread} {l : Label Thread}

/-- Between the start of `WatcherCallback` and the end of its drain loop. -/
def Watcher.draining : Watcher Thread → Bool
  | .loop | .unlockQueue => false
  | _ => true

namespace State

/-- Somebody is going to look at the queue. -/
def Attended (s : State Thread) : Prop :=
  s.pending = true ∨ s.watcher.draining = true ∨
    ∃ t, (s.native t).pc = .unlockQueue ∨ (s.native t).pc = .asyncSend

/-- The owner of an invocation that is about to be signalled is among the blocked. -/
def SignalHeard (s : State Thread) : Prop :=
  ∀ inv, s.watcher = .condSignal inv → (s.object inv).m_cond = [inv.owner]

end State

theorem sender_next {inv : Inv Thread} {t : Thread} {pc : InvokePc} (hat : s.At inv pc)
    (hpc : pc ≠ .unlockQueue ∧ pc ≠ .asyncSend) (n : Native)
    (ht : (s.native t).pc = .unlockQueue ∨ (s.native t).pc = .asyncSend) :
    ((Function.update s.native inv.owner n) t).pc = .unlockQueue ∨
      ((Function.update s.native inv.owner n) t).pc = .asyncSend := by
  have hne : t ≠ inv.owner := by
    rintro rfl
    rw [hat.2] at ht
    exact ht.elim hpc.1 hpc.2
  rw [Function.update_of_ne hne]
  exact ht

theorem attended_native {inv : Inv Thread} {pc : InvokePc} (hatt : s.Attended) (hat : s.At inv pc)
    (hpc : pc ≠ .unlockQueue ∧ pc ≠ .asyncSend) {t : State Thread} {n : Native}
    (hnative : t.native = Function.update s.native inv.owner n) (hp : t.pending = s.pending)
    (hw : t.watcher = s.watcher) : t.Attended := by
  rcases hatt with h | h | ⟨u, hu⟩
  · exact .inl (hp ▸ h)
  · exact .inr (.inl (hw ▸ h))
  · refine .inr (.inr ⟨u, ?_⟩)
    rw [hnative]
    exact sender_next hat hpc n hu

/-- **A push is answered.** -/
theorem attended_step (hs : s.Invariant) (hatt : s.g_queue ≠ [] → s.Attended) (hl : s.enabled l)
    (hq : (s.next l).g_queue ≠ []) : (s.next l).Attended := by
  cases l with
  | enter inv call | ref inv | construct inv | condWait inv | unref inv | delete inv =>
    exact attended_native (hatt hq) hl (by decide) rfl rfl rfl
  | lockQueue inv | wake inv => exact attended_native (hatt hq) hl.1 (by decide) rfl rfl rfl
  | push inv | unlockQueue inv =>
    exact .inr (.inr ⟨inv.owner, by simp [State.next, State.goto, State.setNative]⟩)
  | asyncSend inv => exact .inl rfl
  | spuriousWake inv | mainCall js | jsCall | jsReturn => exact hatt hq
  | watcherStart | watcherLock | pop inv | dispatch inv call js | dispatchEnd inv | signalLock inv
  | condSignal inv | signalUnlock inv => exact .inr (.inl rfl)
  | drained => exact absurd hl.2 hq
  | watcherUnlock => exact absurd (hs.drained hl) hq

theorem signalHeard_step (hs : s.Invariant) (hheard : s.SignalHeard) (hl : s.enabled l)
    (hsig : Signalled s l) : (s.next l).SignalHeard := by
  intro inv hw
  by_cases hi : inv ∈ l.inv
  · cases l with
    | signalLock i =>
      obtain rfl : i = inv := by simpa [Label.inv] using hi
      have hplace : s.place i = .popped := hs.place_held (by rw [hl.1]; rfl)
      have hf := hs.coherent i
      rw [State.Coherent, hplace, hs.caller_of_unlocked (.inr hplace) hl.2] at hf
      simp [State.next, State.setObject, hf.2.2]
    | spuriousWake i => exact hsig.elim
    | pop i | dispatch i call js | dispatchEnd i | condSignal i | signalUnlock i =>
      simp [State.next] at hw
    | mainCall js | jsCall | jsReturn | watcherStart | watcherLock | drained | watcherUnlock =>
      simp [Label.inv] at hi
    | enter i call | ref i | construct i | lockQueue i | push i | unlockQueue i | asyncSend i
    | condWait i | wake i | unref i | delete i =>
      obtain rfl : i = inv := by simpa [Label.inv] using hi
      -- the owner is blocked, and cannot leave while the main thread holds the mutex
      have hold : s.watcher = .condSignal i := hw
      have hplace : s.place i = .signalling := hs.place_held (by rw [hold]; rfl)
      have hpc := hs.caller_of_signal (.inl hplace)
      have hmoved := State.at_of_move hl rfl
      rw [hmoved.pcOf] at hpc
      first
        | exact absurd hpc (by decide)
        | exact absurd (hheard i hold ▸ List.mem_singleton_self i.owner) hl.2.1
  · have hview : State.SameView s (s.next l) inv :=
      State.next_of_ne hl fun i hm he => hi (by rw [he]; exact hm)
    rw [hview.object]
    refine hheard inv ?_
    cases l with
    | signalLock i =>
      obtain rfl : i = inv := by simpa [State.next] using hw
      exact absurd rfl hi
    | watcherStart | watcherLock | pop i | dispatch i call js | dispatchEnd i | condSignal i
    | signalUnlock i | drained | watcherUnlock => simp [State.next] at hw
    | _ => exact hw

/-- What it means in one state that no wakeup is lost. -/
structure NoLostWakeup (s : State Thread) : Prop where
  attended : s.g_queue ≠ [] → s.Attended
  heard : ∀ inv, s.enabled (.condSignal inv) →
    s.At inv .waiting ∧ inv.owner ∈ (s.object inv).m_cond
  /-- Whoever is blocked is in the queue, or in the hands of the main thread and not yet
  signalled. -/
  blocked : ∀ inv, s.At inv .waiting → inv.owner ∈ (s.object inv).m_cond →
    inv ∈ s.g_queue ∨ ∃ p, s.watcher.holding = some (inv, p) ∧ p ≠ .signalled

theorem blocked_held (hs : s.Invariant) {inv : Inv Thread} (hat : s.At inv .waiting)
    (hmem : inv.owner ∈ (s.object inv).m_cond) :
    inv ∈ s.g_queue ∨ ∃ p, s.watcher.holding = some (inv, p) ∧ p ≠ .signalled := by
  by_cases hq : inv ∈ s.g_queue
  · exact .inl hq
  right
  obtain ⟨_, hwait⟩ := hs.fits hat
  cases hhold : s.watcher.holding with
  | none =>
    rw [State.place_of_not_holding hq hhold] at hwait
    simp [hwait.2] at hmem
  | some held =>
    obtain ⟨i, p⟩ := held
    by_cases hi : i = inv
    · subst hi
      refine ⟨p, rfl, ?_⟩
      rintro rfl
      rw [hs.place_held hhold] at hwait
      simp [hwait.2] at hmem
    · have habs : s.place inv = .absent := by simp [State.place, hq, hhold, hi]
      rw [habs] at hwait
      simp [hwait.2] at hmem

theorem wakeups_kept {ls : List (Label Thread)}
    (h : (signalled Thread).run .initial ls = some s) :
    (s.g_queue ≠ [] → s.Attended) ∧ s.SignalHeard := by
  refine Lts.run_induction (A := signalled Thread)
    (fun _ u => (u.g_queue ≠ [] → u.Attended) ∧ u.SignalHeard)
    ⟨fun hq => absurd rfl hq, fun inv hw => by simp [State.initial] at hw⟩
    (fun ls u l hrun hu hl => ?_) h
  have hinv := reachable_invariant (harmless_of_signalled hrun)
  exact ⟨attended_step hinv hu.1 hl.1, signalHeard_step hinv hu.2 hl.1 hl.2⟩

/-- **No wakeup is lost**, in any state that any interleaving without spurious wakeups reaches. -/
theorem no_wakeup_lost {ls : List (Label Thread)}
    (hrun : (signalled Thread).run .initial ls = some s) : NoLostWakeup s where
  attended := (wakeups_kept hrun).1
  heard inv hl := by
    have hs := reachable_invariant (harmless_of_signalled hrun)
    have hw : s.watcher = .condSignal inv := hl
    have hplace : s.place inv = .signalling := hs.place_held (by rw [hw]; rfl)
    refine ⟨State.at_of_pcOf (hs.caller_of_signal (.inl hplace)) (by decide), ?_⟩
    rw [(wakeups_kept hrun).2 inv hw]
    exact List.mem_singleton_self _
  blocked _ := blocked_held (reachable_invariant (harmless_of_signalled hrun))

theorem no_wakeup_lost_twoCallers :
    ∃ s, (signalled Bool).run .initial (twoCallers.take 23) = some s ∧ NoLostWakeup s := by
  obtain ⟨s, hs⟩ := Option.isSome_iff_exists.mp
    (by decide : ((signalled Bool).run .initial (twoCallers.take 23)).isSome = true)
  exact ⟨s, hs, no_wakeup_lost hs⟩

end NodeFfi.Threaded
