import NodeFfi.Threaded.View

/-!
# The protocol invariant

`Fits` ties the position of a caller in `Invoke` to its invocation: whether the object exists,
who holds its `m_mutex`, whether the caller is among the blocked, and where the pointer is. It is
one statement about one invocation, so an action that is about another one keeps it by the frame
(`Fits.congr`), and the actions about it are one case each.

`Invariant` adds what no single invocation can say: who holds `g_queue_mutex`, that the queue has
no duplicates and never holds what the main thread has popped, and that the main thread leaves the
loop on an empty queue. It holds as long as no wait returns early, a return while
`SignalDoneExecuting` already holds the mutex apart (`Harmless`).
-/

namespace NodeFfi.Threaded

variable {Thread : Type} [DecidableEq Thread]

/-- The constructor has run and the object is not deleted. -/
def ThreadedCallbackInvokation.Built (o : ThreadedCallbackInvokation Thread) (call : Call) : Prop :=
  o.alive = true ∧ (⟨o.m_cbinfo, o.m_retval, o.m_parameters⟩ : Call) = call

/-- The mutex and the blocked threads of an invocation whose caller is inside `uv_cond_wait`. -/
def Waiting (inv : Inv Thread) (o : ThreadedCallbackInvokation Thread) : Place → Prop
  | .queued | .popped => o.m_mutex = none ∧ o.m_cond = [inv.owner]
  | .signalling => o.m_mutex = some .main ∧ (o.m_cond = [inv.owner] ∨ o.m_cond = [])
  | .signalled => o.m_mutex = some .main ∧ o.m_cond = []
  | .absent => o.m_mutex = none ∧ o.m_cond = []

/-- What the position of the caller says about the object and about where the pointer is. -/
def Fits (inv : Inv Thread) (call : Call) (o : ThreadedCallbackInvokation Thread) (p : Place) :
    InvokePc → Prop
  | .idle | .ref | .construct =>
    p = .absent ∧ o.alive = false ∧ o.m_mutex = none ∧ o.m_cond = []
  | .lockQueue | .push | .unref | .delete =>
    o.Built call ∧ p = .absent ∧ o.m_mutex = some (.native inv.owner) ∧ o.m_cond = []
  | .unlockQueue | .asyncSend | .condWait =>
    o.Built call ∧ (p = .queued ∨ p = .popped) ∧ o.m_mutex = some (.native inv.owner) ∧
      o.m_cond = []
  | .waiting => o.Built call ∧ Waiting inv o p

namespace State

/-- `Fits` of an invocation in a state. -/
def Coherent (s : State Thread) (inv : Inv Thread) : Prop :=
  Fits inv (s.callOf inv) (s.object inv) (s.place inv) (s.pcOf inv)

structure Invariant (s : State Thread) : Prop where
  coherent : ∀ inv, s.Coherent inv
  nodup : s.g_queue.Nodup
  held : ∀ inv p, s.watcher.holding = some (inv, p) → inv ∉ s.g_queue
  main_lock : s.g_queue_mutex = some .main ↔ s.watcher.locked = true
  native_lock : ∀ t, s.g_queue_mutex = some (.native t) ↔ (s.native t).pc.locked = true
  drained : s.watcher = .unlockQueue → s.g_queue = []
  frames : s.frames ≠ [] → s.watcher = .loop ∨ ∃ inv, s.watcher = .running inv

/-! ### Where the pointer is -/

theorem place_of_mem {s : State Thread} {inv : Inv Thread} (h : inv ∈ s.g_queue) :
    s.place inv = .queued := if_pos h

theorem place_of_holding {s : State Thread} {inv : Inv Thread} {p : Place}
    (h : s.watcher.holding = some (inv, p)) (hq : inv ∉ s.g_queue) : s.place inv = p := by
  simp [place, hq, h]

theorem place_of_not_holding {s : State Thread} {inv : Inv Thread} (hq : inv ∉ s.g_queue)
    (h : s.watcher.holding = none) : s.place inv = .absent := by
  simp [place, hq, h]

theorem not_mem_of_absent {s : State Thread} {inv : Inv Thread} (h : s.place inv = .absent) :
    inv ∉ s.g_queue := by
  intro hq
  rw [place_of_mem hq] at h
  cases h

namespace Invariant

variable {s : State Thread}

theorem place_held (h : s.Invariant) {inv : Inv Thread} {p : Place}
    (hw : s.watcher.holding = some (inv, p)) : s.place inv = p :=
  place_of_holding hw (h.held inv p hw)

theorem fits (h : s.Invariant) {inv : Inv Thread} {pc : InvokePc} (hat : s.At inv pc) :
    Fits inv (s.callOf inv) (s.object inv) (s.place inv) pc := by
  have := h.coherent inv
  rwa [Coherent, hat.pcOf] at this

theorem caller_of_pending (h : s.Invariant) {inv : Inv Thread}
    (hp : s.place inv = .queued ∨ s.place inv = .popped) :
    s.pcOf inv = .unlockQueue ∨ s.pcOf inv = .asyncSend ∨ s.pcOf inv = .condWait ∨
      s.pcOf inv = .waiting := by
  have hf := h.coherent inv
  rw [Coherent] at hf
  cases hpc : s.pcOf inv <;> rw [hpc] at hf <;> simp_all [Fits]

theorem caller_of_unlocked (h : s.Invariant) {inv : Inv Thread}
    (hp : s.place inv = .queued ∨ s.place inv = .popped) (hm : (s.object inv).m_mutex = none) :
    s.pcOf inv = .waiting := by
  have hf := h.coherent inv
  rw [Coherent] at hf
  rcases h.caller_of_pending hp with hpc | hpc | hpc | hpc <;> rw [hpc] at hf <;>
    simp_all [Fits]

theorem caller_of_signal (h : s.Invariant) {inv : Inv Thread}
    (hp : s.place inv = .signalling ∨ s.place inv = .signalled) : s.pcOf inv = .waiting := by
  have hf := h.coherent inv
  rw [Coherent] at hf
  rcases hp with hp | hp <;> cases hpc : s.pcOf inv <;> rw [hpc] at hf <;> simp_all [Fits]

theorem alive_of_place (h : s.Invariant) {inv : Inv Thread} (hp : s.place inv ≠ .absent) :
    (s.object inv).Built (s.callOf inv) ∧ s.pcOf inv ≠ .idle := by
  have hf := h.coherent inv
  rw [Coherent] at hf
  cases hpc : s.pcOf inv <;> rw [hpc] at hf <;> simp_all [Fits]

theorem not_push (h : s.Invariant) (hw : s.watcher.locked = true) (inv : Inv Thread) :
    ¬ s.At inv .push := by
  intro hat
  have hm := h.main_lock.mpr hw
  have hn := (h.native_lock inv.owner).mpr (by rw [hat.2]; rfl)
  rw [hm] at hn
  cases hn

end Invariant

/-! ### The steps -/

omit [DecidableEq Thread] in
theorem pcOf_initial (inv : Inv Thread) : (initial : State Thread).pcOf inv = .idle := by
  rw [pcOf]
  split <;> rfl

theorem invariant_initial : (initial : State Thread).Invariant where
  coherent inv := by
    rw [Coherent, pcOf_initial]
    exact ⟨rfl, rfl, rfl, rfl⟩
  nodup := List.nodup_nil
  held inv p h := by simp [initial, Watcher.holding] at h
  main_lock := by simp [initial, Watcher.locked]
  native_lock t := by simp [initial, InvokePc.locked]
  drained _ := rfl
  frames h := absurd rfl h

theorem Coherent.congr {s t : State Thread} {inv : Inv Thread} (h : s.Coherent inv)
    (hv : SameView s t inv) : t.Coherent inv := by
  rw [Coherent] at h ⊢
  rw [hv.pc, hv.object, hv.place]
  by_cases hi : s.pcOf inv = .idle
  · rw [hi] at h ⊢
    exact h
  · rw [hv.call hi]
    exact h

theorem coherent_goto {s t : State Thread} {inv : Inv Thread} {pc pc' : InvokePc}
    (hat : s.At inv pc) (hnative : t.native = (s.goto inv pc').native)
    (hfits : Fits inv (s.callOf inv) (t.object inv) (t.place inv) pc') : t.Coherent inv := by
  have h := congrFun hnative inv.owner
  have hn : t.native inv.owner = { s.native inv.owner with pc := pc' } := by
    rw [h]
    simp [goto, setNative]
  have hpc : t.pcOf inv = pc' := by simp [pcOf, hn, hat.1]
  have hcall : t.callOf inv = s.callOf inv := by simp [callOf, hn]
  rw [Coherent, hpc, hcall]
  exact hfits

theorem coherent_main {s t : State Thread} {inv : Inv Thread} (hnative : t.native = s.native)
    (hfits : Fits inv (s.callOf inv) (t.object inv) (t.place inv) (s.pcOf inv)) :
    t.Coherent inv := by
  have hn : t.native inv.owner = s.native inv.owner := by rw [hnative]
  have hcall : t.callOf inv = s.callOf inv := by rw [callOf, callOf, hn]
  rw [Coherent, pcOf_congr hn, hcall]
  exact hfits

/-! ### The invocation that an action is about -/

theorem coherent_wake {s : State Thread} {inv : Inv Thread} (h : s.Invariant)
    (hl : s.enabled (.wake inv)) : (s.next (.wake inv)).Coherent inv := by
  obtain ⟨hat, hmem, hm⟩ := hl
  obtain ⟨hb, hw⟩ := h.fits hat
  refine coherent_goto hat rfl ?_
  rw [show (s.next (.wake inv)).place inv = s.place inv from rfl]
  refine ⟨by simpa [next, goto, setNative, setObject, ThreadedCallbackInvokation.Built] using hb,
    ?_⟩
  cases hp : s.place inv <;> rw [hp] at hw <;>
    simp_all [Waiting, next, goto, setNative, setObject]

theorem coherent_pop {s : State Thread} {inv : Inv Thread} (h : s.Invariant)
    (hl : s.enabled (.pop inv)) : (s.next (.pop inv)).Coherent inv := by
  obtain ⟨hw, hq⟩ := hl
  obtain ⟨rest, hrest⟩ := List.head?_eq_some_iff.mp hq
  have hold : s.place inv = .queued := place_of_mem (by simp [hrest])
  have hnew : (s.next (.pop inv)).place inv = .popped := by
    refine place_of_holding rfl ?_
    have := h.nodup
    rw [hrest, List.nodup_cons] at this
    simpa [next, hrest] using this.1
  refine coherent_main (s := s) rfl ?_
  have hf := h.coherent inv
  rw [Coherent] at hf
  rw [hnew, show (s.next (.pop inv)).object inv = s.object inv from rfl]
  rcases h.caller_of_pending (.inl hold) with hpc | hpc | hpc | hpc <;> rw [hpc] at hf ⊢ <;>
    simp_all [Fits, Waiting]

theorem coherent_signalLock {s : State Thread} {inv : Inv Thread} (h : s.Invariant)
    (hl : s.enabled (.signalLock inv)) : (s.next (.signalLock inv)).Coherent inv := by
  obtain ⟨hw, hm⟩ := hl
  have hhold : s.watcher.holding = some (inv, .popped) := by rw [hw]; rfl
  have hold : s.place inv = .popped := h.place_held hhold
  have hnew : (s.next (.signalLock inv)).place inv = .signalling :=
    place_of_holding rfl (h.held inv _ hhold)
  have hpc := h.caller_of_unlocked (.inr hold) hm
  have hf := h.coherent inv
  rw [Coherent, hpc, hold] at hf
  obtain ⟨hb, _, hc⟩ := hf
  refine coherent_main (s := s) rfl ?_
  rw [hpc, hnew]
  exact ⟨by simpa [next, setObject, ThreadedCallbackInvokation.Built] using hb,
    by simp [next, setObject], .inl (by simp [next, setObject, hc])⟩

theorem coherent_condSignal {s : State Thread} {inv : Inv Thread} (h : s.Invariant)
    (hl : s.enabled (.condSignal inv)) : (s.next (.condSignal inv)).Coherent inv := by
  have hhold : s.watcher.holding = some (inv, .signalling) := by
    rw [show s.watcher = .condSignal inv from hl]
    rfl
  have hold : s.place inv = .signalling := h.place_held hhold
  have hnew : (s.next (.condSignal inv)).place inv = .signalled :=
    place_of_holding rfl (h.held inv _ hhold)
  have hpc := h.caller_of_signal (.inl hold)
  have hf := h.coherent inv
  rw [Coherent, hpc, hold] at hf
  obtain ⟨hb, hm, hc⟩ := hf
  refine coherent_main (s := s) rfl ?_
  rw [hpc, hnew]
  refine ⟨by simpa [next, setObject, ThreadedCallbackInvokation.Built] using hb,
    by simp [next, setObject, hm], ?_⟩
  rcases hc with hc | hc <;> simp [next, setObject, hc]

theorem coherent_signalUnlock {s : State Thread} {inv : Inv Thread} (h : s.Invariant)
    (hl : s.enabled (.signalUnlock inv)) : (s.next (.signalUnlock inv)).Coherent inv := by
  have hhold : s.watcher.holding = some (inv, .signalled) := by
    rw [show s.watcher = .signalUnlock inv from hl]
    rfl
  have hold : s.place inv = .signalled := h.place_held hhold
  have hnew : (s.next (.signalUnlock inv)).place inv = .absent :=
    place_of_not_holding (h.held inv _ hhold) rfl
  have hpc := h.caller_of_signal (.inr hold)
  have hf := h.coherent inv
  rw [Coherent, hpc, hold] at hf
  obtain ⟨hb, _, hc⟩ := hf
  refine coherent_main (s := s) rfl ?_
  rw [hpc, hnew]
  exact ⟨by simpa [next, setObject, ThreadedCallbackInvokation.Built] using hb,
    by simp [next, setObject], by simp [next, setObject, hc]⟩

theorem coherent_step {s : State Thread} {l : Label Thread} {inv : Inv Thread} (h : s.Invariant)
    (hl : s.enabled l) (hharm : Harmless s l) (hinv : inv ∈ l.inv) : (s.next l).Coherent inv := by
  cases l with
  | enter i call =>
    obtain rfl : i = inv := by simpa [Label.inv] using hinv
    have hs : (s.native i.owner).serial = i.serial := hl.1
    have hpc : (s.next (.enter i call)).pcOf i = .ref := by simp [next, setNative, pcOf, hs]
    rw [Coherent, hpc]
    exact h.fits (show s.At i .idle from hl)
  | ref i | unlockQueue i | asyncSend i | unref i =>
    obtain rfl : i = inv := by simpa [Label.inv] using hinv
    have hat : s.At i _ := hl
    have hf := h.fits hat
    exact coherent_goto hl rfl hf
  | construct i =>
    obtain rfl : i = inv := by simpa [Label.inv] using hinv
    obtain ⟨hp, _⟩ := h.fits hl
    refine coherent_goto hl rfl ⟨?_, hp, ?_⟩ <;>
      simp [next, goto, setNative, setObject, ThreadedCallbackInvokation.Built]
  | lockQueue i =>
    obtain rfl : i = inv := by simpa [Label.inv] using hinv
    have hf := h.fits (show s.At i .lockQueue from hl.1)
    exact coherent_goto hl.1 rfl hf
  | push i =>
    obtain rfl : i = inv := by simpa [Label.inv] using hinv
    obtain ⟨hb, _, hm, hc⟩ := h.fits hl
    refine coherent_goto hl rfl ⟨hb, .inl (place_of_mem ?_), hm, hc⟩
    simp [next]
  | condWait i =>
    obtain rfl : i = inv := by simpa [Label.inv] using hinv
    obtain ⟨hb, hp, hm, hc⟩ := h.fits hl
    refine coherent_goto hl rfl ?_
    have hplace : (s.next (.condWait i)).place i = s.place i := rfl
    rw [hplace]
    refine ⟨?_, ?_⟩
    · simpa [next, goto, setNative, setObject, ThreadedCallbackInvokation.Built] using hb
    · rcases hp with hp | hp <;> simp [hp, Waiting, next, goto, setNative, setObject, hc]
  | spuriousWake i =>
    obtain rfl : i = inv := by simpa [Label.inv] using hinv
    have hp : s.place i = .signalling := h.place_held (by
      rw [show s.watcher = .condSignal i from hharm]
      rfl)
    obtain ⟨hb, hw⟩ := h.fits hl.1
    rw [hp] at hw
    have hmem := hl.2
    refine coherent_main (s := s) rfl ?_
    rw [hl.1.pcOf, show (s.next (.spuriousWake i)).place i = s.place i from rfl, hp]
    refine ⟨by simpa [next, setObject, ThreadedCallbackInvokation.Built] using hb, ?_⟩
    obtain ⟨hm, hc | hc⟩ := hw
    · simp [Waiting, next, setObject, hm, hc]
    · simp [hc] at hmem
  | wake i =>
    obtain rfl : i = inv := by simpa [Label.inv] using hinv
    exact coherent_wake h hl
  | delete i =>
    obtain rfl : i = inv := by simpa [Label.inv] using hinv
    obtain ⟨_, hp, hm, hc⟩ := h.fits hl
    have hs : (s.native i.owner).serial = i.serial := hl.1
    have hpc : (s.next (.delete i)).pcOf i = .idle := by
      simp [next, setNative, setObject, pcOf, hs]
    rw [Coherent, hpc]
    exact ⟨hp, by simp [next, setObject], by simp [next, setObject], by simp [next, setObject, hc]⟩
  | mainCall js | jsCall | jsReturn | watcherStart | watcherLock | drained | watcherUnlock =>
    simp [Label.inv] at hinv
  | pop i =>
    obtain rfl : i = inv := by simpa [Label.inv] using hinv
    exact coherent_pop h hl
  | dispatch i call js | dispatchEnd i =>
    obtain rfl : i = inv := by simpa [Label.inv] using hinv
    refine (h.coherent i).congr (sameView_main rfl rfl (place_congr rfl ?_))
    simp [next, Watcher.holding, hl.1]
  | signalLock i =>
    obtain rfl : i = inv := by simpa [Label.inv] using hinv
    exact coherent_signalLock h hl
  | condSignal i =>
    obtain rfl : i = inv := by simpa [Label.inv] using hinv
    exact coherent_condSignal h hl
  | signalUnlock i =>
    obtain rfl : i = inv := by simpa [Label.inv] using hinv
    exact coherent_signalUnlock h hl

theorem native_lock_update {s : State Thread} {inv : Inv Thread} {pc : InvokePc} {n : Native}
    (h : ∀ t, s.g_queue_mutex = some (.native t) ↔ (s.native t).pc.locked = true)
    (hat : s.At inv pc) (hn : n.pc.locked = pc.locked) (t : Thread) :
    s.g_queue_mutex = some (.native t) ↔
      ((Function.update s.native inv.owner n) t).pc.locked = true := by
  by_cases ht : t = inv.owner
  · subst ht
    rw [h inv.owner, Function.update_self, hn, hat.2]
  · rw [h t, Function.update_of_ne ht]

theorem lock_step {s : State Thread} {l : Label Thread}
    (hmain : s.g_queue_mutex = some .main ↔ s.watcher.locked = true)
    (hnat : ∀ t, s.g_queue_mutex = some (.native t) ↔ (s.native t).pc.locked = true)
    (hl : s.enabled l) :
    ((s.next l).g_queue_mutex = some .main ↔ (s.next l).watcher.locked = true) ∧
      ∀ t, (s.next l).g_queue_mutex = some (.native t) ↔
        ((s.next l).native t).pc.locked = true := by
  cases l with
  | enter inv call | ref inv | construct inv | push inv | asyncSend inv | condWait inv | unref inv
  | delete inv => exact ⟨hmain, native_lock_update hnat hl rfl⟩
  | wake inv => exact ⟨hmain, native_lock_update hnat hl.1 rfl⟩
  | spuriousWake inv | mainCall js | jsCall | jsReturn => exact ⟨hmain, hnat⟩
  | lockQueue inv =>
    obtain ⟨hat, hfree⟩ := hl
    rw [hfree] at hmain hnat
    refine ⟨by simpa [next, goto, setNative] using hmain, fun t => ?_⟩
    by_cases ht : t = inv.owner
    · simp [next, goto, setNative, ht, InvokePc.locked]
    · simpa [next, goto, setNative, ht, Ne.symm ht] using hnat t
  | unlockQueue inv =>
    have hat : s.At inv .unlockQueue := hl
    have hheld := (hnat inv.owner).mpr (by rw [hat.2]; rfl)
    rw [hheld] at hmain hnat
    refine ⟨by simpa [next, goto, setNative] using hmain, fun t => ?_⟩
    by_cases ht : t = inv.owner
    · simp [next, goto, setNative, ht, InvokePc.locked]
    · simpa [next, goto, setNative, ht, Ne.symm ht] using hnat t
  | watcherStart =>
    rw [hl.1] at hmain
    exact ⟨by simpa [next, Watcher.locked] using hmain, hnat⟩
  | watcherLock =>
    obtain ⟨_, hfree⟩ := hl
    rw [hfree] at hnat
    exact ⟨by simp [next, Watcher.locked], fun t => by simpa [next] using hnat t⟩
  | pop inv | dispatch inv call js | dispatchEnd inv | signalLock inv | drained =>
    rw [hl.1] at hmain
    exact ⟨by simpa [next, setObject, Watcher.locked] using hmain, hnat⟩
  | condSignal inv | signalUnlock inv =>
    rw [show s.watcher = _ from hl] at hmain
    exact ⟨by simpa [next, setObject, Watcher.locked] using hmain, hnat⟩
  | watcherUnlock =>
    have hw : s.watcher = .unlockQueue := hl
    have hheld := hmain.mpr (by rw [hw]; rfl)
    rw [hheld] at hnat
    exact ⟨by simp [next, Watcher.locked], fun t => by simpa [next] using hnat t⟩

theorem queue_step {s : State Thread} {l : Label Thread} (h : s.Invariant) (hl : s.enabled l) :
    (s.next l).g_queue.Nodup ∧
      (∀ inv p, (s.next l).watcher.holding = some (inv, p) → inv ∉ (s.next l).g_queue) ∧
      ((s.next l).watcher = .unlockQueue → (s.next l).g_queue = []) := by
  have hnodup := h.nodup
  have hheld := h.held
  have hdrain := h.drained
  cases l with
  | enter inv call | ref inv | construct inv | lockQueue inv | unlockQueue inv | asyncSend inv
  | condWait inv | spuriousWake inv | wake inv | unref inv | delete inv | mainCall js | jsCall
  | jsReturn => exact ⟨hnodup, hheld, hdrain⟩
  | push inv =>
    have hat : s.At inv .push := hl
    obtain ⟨_, hplace, _⟩ := h.fits hat
    have hnew : inv ∉ s.g_queue := not_mem_of_absent hplace
    have hfree : ∀ p, s.watcher.holding ≠ some (inv, p) := by
      intro p hp
      have hlocked : s.watcher.locked = true := by
        cases hw : s.watcher <;> rw [hw] at hp <;> simp_all [Watcher.holding, Watcher.locked]
      exact h.not_push hlocked inv hat
    refine ⟨?_, fun i p hp => ?_, fun hw => ?_⟩
    · simp only [next]
      rw [List.nodup_append]
      refine ⟨hnodup, by simp, fun a ha b hb => ?_⟩
      rw [List.mem_singleton] at hb
      rintro rfl
      exact hnew (hb ▸ ha)
    · have hne : i ≠ inv := fun he => hfree p (he ▸ hp)
      simpa [next, hne] using hheld i p hp
    · exact absurd hat (h.not_push (by rw [show s.watcher = .unlockQueue from hw]; rfl) inv)
  | watcherStart | watcherLock | watcherUnlock =>
    exact ⟨hnodup, fun i p hp => by simp [next, Watcher.holding] at hp, fun hw => by
      simp [next] at hw⟩
  | pop inv =>
    obtain ⟨hw, hq⟩ := hl
    obtain ⟨rest, hrest⟩ := List.head?_eq_some_iff.mp hq
    rw [hrest, List.nodup_cons] at hnodup
    refine ⟨by simpa [next, hrest] using hnodup.2, fun i p hp => ?_, fun hw => by simp [next] at hw⟩
    obtain ⟨rfl, _⟩ : inv = i ∧ Place.popped = p := by simpa [next, Watcher.holding] using hp
    simpa [next, hrest] using hnodup.1
  | dispatch inv call js | dispatchEnd inv | signalLock inv =>
    refine ⟨hnodup, fun i p hp => ?_, fun hw => by simp [next] at hw⟩
    obtain ⟨rfl, _⟩ : inv = i ∧ _ = p := by simpa [next, Watcher.holding] using hp
    exact hheld inv .popped (by rw [hl.1]; rfl)
  | condSignal inv =>
    refine ⟨hnodup, fun i p hp => ?_, fun hw => by simp [next] at hw⟩
    obtain ⟨rfl, _⟩ : inv = i ∧ _ = p := by simpa [next, Watcher.holding] using hp
    exact hheld inv .signalling (by rw [show s.watcher = .condSignal inv from hl]; rfl)
  | signalUnlock inv =>
    exact ⟨hnodup, fun i p hp => by simp [next, Watcher.holding] at hp, fun hw => by
      simp [next] at hw⟩
  | drained =>
    exact ⟨hnodup, fun i p hp => by simp [next, Watcher.holding] at hp, fun _ => hl.2⟩

theorem frames_step {s : State Thread} {l : Label Thread} (h : s.Invariant) (hl : s.enabled l)
    (hf : (s.next l).frames ≠ []) :
    (s.next l).watcher = .loop ∨ ∃ inv, (s.next l).watcher = .running inv := by
  have hframes := h.frames
  cases l with
  | mainCall js => exact .inl hl.1
  | jsCall =>
    obtain ⟨js, hjs, _⟩ := hl
    exact hframes (by rintro he; rw [he] at hjs; cases hjs)
  | jsReturn => exact hframes (by rintro he; rw [State.enabled, he] at hl; cases hl)
  | watcherStart => exact absurd hl.2.1 hf
  | watcherLock | pop inv | signalLock inv | drained =>
    have := hframes hf
    rw [hl.1] at this
    simp at this
  | dispatch inv call js => exact .inr ⟨inv, rfl⟩
  | dispatchEnd inv => exact absurd hl.2 hf
  | condSignal inv | signalUnlock inv =>
    have := hframes hf
    rw [show s.watcher = _ from hl] at this
    simp at this
  | watcherUnlock => exact .inl rfl
  | _ => exact hframes hf

/-- **Every action keeps the protocol invariant.** -/
theorem invariant_step {s : State Thread} {l : Label Thread} (h : s.Invariant) (hl : s.enabled l)
    (hharm : Harmless s l) : (s.next l).Invariant := by
  obtain ⟨hmain, hnative⟩ := lock_step h.main_lock h.native_lock hl
  obtain ⟨hnodup, hheld, hdrained⟩ := queue_step h hl
  refine ⟨fun inv => ?_, hnodup, hheld, hmain, hnative, hdrained, frames_step h hl⟩
  by_cases hinv : inv ∈ l.inv
  · exact coherent_step h hl hharm hinv
  · exact (h.coherent inv).congr (next_of_ne hl fun i hi he => hinv (he ▸ hi))

end State

open Transition

/-- The runs in which no wait returns early. -/
abbrev harmless (Thread : Type) [DecidableEq Thread] : Lts (State Thread) (Label Thread) :=
  (system Thread).restrict Harmless

/-- The runs in which no wait returns without a signal. -/
abbrev signalled (Thread : Type) [DecidableEq Thread] : Lts (State Thread) (Label Thread) :=
  (system Thread).restrict Signalled

theorem harmless_of_signalled {s t : State Thread} {ls : List (Label Thread)}
    (h : (signalled Thread).run s ls = some t) : (harmless Thread).run s ls = some t :=
  Lts.run_restrict_mono (fun s l => Signalled.harmless s l) h

theorem run_invariant {s t : State Thread} {ls : List (Label Thread)} (hs : s.Invariant)
    (h : (harmless Thread).run s ls = some t) : t.Invariant :=
  (Lts.run_induction (A := harmless Thread) (fun _ u => u.Invariant) hs
    (fun _ _ _ _ hu hl => State.invariant_step hu hl.1 hl.2)) h

theorem reachable_invariant {s : State Thread} {ls : List (Label Thread)}
    (h : (harmless Thread).run .initial ls = some s) : s.Invariant :=
  run_invariant State.invariant_initial h

end NodeFfi.Threaded
