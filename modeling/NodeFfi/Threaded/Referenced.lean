import NodeFfi.Threaded.Invariant

/-!
# The reference that holds the event loop open

`Invoke` takes `uv_ref` on `g_async` before it builds its invocation and gives it back with
`uv_unref` after its wait, "hold the event loop open while this is executing". The two calls set
and clear one flag, so they answer for a single caller: with two callers inside, the first to
leave clears the flag for both (`reference_lost`). A handle that is referenced is always some
caller's (`holding_of_referenced`); the converse is kept in a schedule exactly when each caller
that gives the reference back is alone in holding it (`held_open_iff`).
-/

namespace NodeFfi.Threaded

open Transition

/-- `uv_ref` is taken and `uv_unref` is not. -/
def InvokePc.holds : InvokePc → Bool
  | .idle | .ref | .delete => false
  | .construct | .lockQueue | .push | .unlockQueue | .asyncSend | .condWait | .waiting
  | .unref => true

variable {Thread : Type} [DecidableEq Thread] {s : State Thread} {l : Label Thread}
  {ls : List (Label Thread)}

namespace State

/-- The thread is between its `uv_ref` and its own `uv_unref`. -/
def Holding (s : State Thread) (t : Thread) : Prop := (s.native t).pc.holds = true

/-- The handle is referenced while a caller is between the two calls, and at no other time. -/
def HeldOpen (s : State Thread) : Prop := s.referenced = true ↔ ∃ t, s.Holding t

end State

/-! ### What a step does to the callers and to the flag -/

/-- The thread that takes `uv_ref`. -/
def Label.refs : Label Thread → Option Thread
  | .ref inv => some inv.owner
  | _ => none

/-- The thread that takes `uv_unref`. -/
def Label.unrefs : Label Thread → Option Thread
  | .unref inv => some inv.owner
  | _ => none

theorem holding_goto (s : State Thread) (inv : Inv Thread) (n : Native) (t : Thread) :
    (s.setNative inv.owner n).Holding t ↔
      if t = inv.owner then n.pc.holds = true else s.Holding t := by
  unfold State.Holding State.setNative
  by_cases ht : t = inv.owner
  · subst ht
    simp
  · simp [ht]

omit [DecidableEq Thread] in
theorem holding_at {inv : Inv Thread} {pc : InvokePc} (hat : s.At inv pc) :
    s.Holding inv.owner ↔ pc.holds = true := by
  rw [State.Holding, hat.2]

theorem holding_of_move {inv : Inv Thread} {pc : InvokePc} {n : Native} (hat : s.At inv pc)
    (hn : n.pc.holds = pc.holds) (t : Thread) :
    (s.setNative inv.owner n).Holding t ↔ s.Holding t := by
  rw [holding_goto]
  split
  · rename_i ht
    rw [ht, holding_at hat, hn]
  · exact Iff.rfl

theorem holding_next (hl : s.enabled l) (t : Thread) :
    (s.next l).Holding t ↔ l.refs = some t ∨ s.Holding t ∧ l.unrefs ≠ some t := by
  cases l with
  | ref inv =>
    refine (holding_goto s inv _ t).trans ?_
    split
    · rename_i ht
      simp [Label.refs, InvokePc.holds, ht]
    · rename_i ht
      simp [Label.refs, Label.unrefs, Ne.symm ht]
  | unref inv =>
    refine (holding_goto s inv _ t).trans ?_
    split
    · rename_i ht
      simp [Label.refs, Label.unrefs, InvokePc.holds, ht]
    · rename_i ht
      simp [Label.refs, Label.unrefs, Ne.symm ht]
  | enter inv call | construct inv | push inv | unlockQueue inv | asyncSend inv | condWait inv
  | delete inv =>
    refine (holding_of_move hl rfl t).trans ?_
    simp [Label.refs, Label.unrefs]
  | lockQueue inv | wake inv =>
    refine (holding_of_move hl.1 rfl t).trans ?_
    simp [Label.refs, Label.unrefs]
  | _ =>
    simp [Label.refs, Label.unrefs, State.Holding, State.next, State.setObject]

theorem referenced_next (s : State Thread) (l : Label Thread) :
    (s.next l).referenced = true ↔
      l.refs ≠ none ∨ s.referenced = true ∧ l.unrefs = none := by
  cases l <;>
    simp [State.next, State.goto, State.setNative, State.setObject, Label.refs, Label.unrefs]

/-! ### The invariant, and what breaks it -/

/-- Whoever gives the reference back at this step is alone in holding it. -/
def Alone (s : State Thread) (l : Label Thread) : Prop :=
  ∀ t, l.unrefs = some t → ∀ t', s.Holding t' → t' = t

theorem holding_step (h : s.referenced = true → ∃ t, s.Holding t) (hl : s.enabled l)
    (href : (s.next l).referenced = true) : ∃ t, (s.next l).Holding t := by
  rcases (referenced_next s l).mp href with htaken | ⟨hold, hkept⟩
  · obtain ⟨t, ht⟩ := Option.ne_none_iff_exists'.mp htaken
    exact ⟨t, (holding_next hl t).mpr (.inl ht)⟩
  · obtain ⟨t, ht⟩ := h hold
    exact ⟨t, (holding_next hl t).mpr (.inr ⟨ht, by simp [hkept]⟩)⟩

theorem heldOpen_step (h : s.HeldOpen) (hl : s.enabled l) (halone : Alone s l) :
    (s.next l).HeldOpen := by
  refine ⟨holding_step h.mp hl, ?_⟩
  rintro ⟨t, ht⟩
  rw [referenced_next]
  rcases (holding_next hl t).mp ht with htaken | ⟨hold, hkept⟩
  · exact .inl (by simp [htaken])
  · refine .inr ⟨h.mpr ⟨t, hold⟩, Option.eq_none_iff_forall_ne_some.mpr fun t' ht' => hkept ?_⟩
    rw [ht', halone t' ht' t hold]

theorem not_heldOpen_step (hl : s.enabled l) (halone : ¬ Alone s l) : ¬ (s.next l).HeldOpen := by
  intro h
  refine halone fun t ht t' ht' => ?_
  by_contra hne
  have href := h.mpr ⟨t', (holding_next hl t').mpr
    (.inr ⟨ht', fun he => hne (Option.some.inj (he.symm.trans ht))⟩)⟩
  rcases (referenced_next s l).mp href with htaken | ⟨_, hkept⟩
  · cases l <;> simp [Label.refs, Label.unrefs] at htaken ht
  · rw [ht] at hkept
    cases hkept

theorem holding_of_referenced (hrun : (system Thread).run .initial ls = some s) :
    s.referenced = true → ∃ t, s.Holding t := by
  refine Lts.run_induction (A := system Thread)
    (fun _ u => u.referenced = true → ∃ t, u.Holding t) (fun h => ?_)
    (fun ls u l _ hu hl => holding_step hu hl) hrun
  simp [State.initial] at h

omit [DecidableEq Thread] in
theorem heldOpen_initial : (State.initial : State Thread).HeldOpen := by
  simp [State.HeldOpen, State.Holding, State.initial, InvokePc.holds]

theorem heldOpen_of_alone
    (halone : ∀ pre l u, pre ++ [l] <+: ls → (system Thread).run .initial pre = some u →
      Alone u l)
    (hrun : (system Thread).run .initial ls = some s) : s.HeldOpen := by
  have key : ls <+: ls → s.HeldOpen := by
    refine Lts.run_induction (A := system Thread) (fun pre u => pre <+: ls → u.HeldOpen)
      (fun _ => heldOpen_initial) (fun pre u l hpre hu hl hle => ?_) hrun
    exact heldOpen_step (hu ((List.prefix_append pre [l]).trans hle)) hl (halone pre l u hle hpre)
  exact key List.prefix_rfl

/-- **The event loop is held open exactly while nobody overtakes.** In every schedule, all the
states it passes through have the handle referenced just when a caller is between its `uv_ref` and
its `uv_unref`, if and only if each caller that comes to its `uv_unref` is the only one between
the two at that moment. -/
theorem held_open_iff (hrun : (system Thread).run .initial ls = some s) :
    (∀ pre u, pre <+: ls → (system Thread).run .initial pre = some u → u.HeldOpen) ↔
      ∀ pre inv u, pre ++ [.unref inv] <+: ls → (system Thread).run .initial pre = some u →
        ∀ t, u.Holding t → t = inv.owner := by
  constructor
  · intro hopen pre inv u hle hpre
    obtain ⟨post, rfl⟩ := hle
    obtain ⟨v, hv, hpost⟩ := (Lts.run_append _ _ post s).mp hrun
    obtain ⟨w, hw, hl, rfl⟩ := (Lts.run_snoc _ pre (.unref inv) v).mp hv
    obtain rfl : u = w := Option.some.inj (hpre.symm.trans hw)
    have hunref : u.enabled (.unref inv) := hl
    have halone : Alone u (.unref inv) := by
      by_contra hnot
      exact not_heldOpen_step hunref hnot (hopen _ _ (List.prefix_append _ post) hv)
    exact halone inv.owner rfl
  · intro halone pre u hle hpre
    refine heldOpen_of_alone (fun pre' l v hle' hpre' t ht => ?_) hpre
    cases l with
    | unref inv =>
      obtain rfl : inv.owner = t := Option.some.inj ht
      exact halone pre' inv v (hle'.trans hle) hpre'
    | _ => cases ht

section schedule

/-- One caller, from its call to its return. -/
def fromCallToReturn (a : Inv Bool) : List (Label Bool) :=
  [.enter a ⟨7, 100, 104⟩, .ref a, .construct a, .lockQueue a, .push a, .unlockQueue a,
    .asyncSend a, .watcherStart, .condWait a, .watcherLock, .pop a, .dispatch a ⟨7, 100, 104⟩ .ret,
    .jsReturn, .dispatchEnd a, .signalLock a, .condSignal a, .signalUnlock a, .drained,
    .watcherUnlock, .wake a, .unref a, .delete a]

/-- Two callers, the second one after the first. -/
def inTurn : List (Label Bool) := fromCallToReturn ⟨false, 0⟩ ++ fromCallToReturn ⟨true, 0⟩

theorem held_open_iff_inTurn :
    ∃ s, (system Bool).run .initial inTurn = some s ∧
      ∀ pre u, pre <+: inTurn → (system Bool).run .initial pre = some u → u.HeldOpen := by
  obtain ⟨s, hs⟩ : ∃ s, (system Bool).run .initial inTurn = some s :=
    Option.isSome_iff_exists.mp (by decide)
  have halone : ∀ i < inTurn.length, ∀ u ∈ (system Bool).run .initial (inTurn.take i),
      ∀ l ∈ inTurn[i]?, ∀ t, l.unrefs = some t → ∀ t', (u.native t').pc.holds = true → t' = t := by
    decide
  refine ⟨s, hs, (held_open_iff hs).mpr fun pre inv u hle hu t ht => ?_⟩
  have htake : pre = inTurn.take pre.length :=
    List.prefix_iff_eq_take.mp ((List.prefix_append pre [.unref inv]).trans hle)
  have hget : inTurn[pre.length]? = some (.unref inv) := by
    obtain ⟨post, hpost⟩ := hle
    rw [← hpost]
    simp
  exact halone pre.length (List.getElem?_eq_some_iff.mp hget).1 u (htake ▸ hu) (.unref inv) hget
    inv.owner rfl t ht

/-- The first caller is served; the second one takes its reference before the first gives its own
back, and pushes after that. -/
def overtaken : List (Label Bool) :=
  let a : Inv Bool := ⟨false, 0⟩
  let b : Inv Bool := ⟨true, 0⟩
  [.enter a ⟨7, 100, 104⟩, .ref a, .construct a, .lockQueue a, .push a, .unlockQueue a,
    .asyncSend a, .condWait a, .watcherStart, .watcherLock, .pop a,
    .dispatch a ⟨7, 100, 104⟩ .ret, .jsReturn, .dispatchEnd a, .signalLock a, .condSignal a,
    .signalUnlock a, .drained, .watcherUnlock, .wake a, .enter b ⟨8, 200, 204⟩, .ref b, .unref a,
    .construct b, .lockQueue b, .push b, .unlockQueue b, .asyncSend b, .condWait b]

/-- A callback is queued, its caller waits for it, and nothing holds the event loop open. -/
theorem reference_lost :
    ∃ s, (signalled Bool).run .initial overtaken = some s ∧ s.Holding true ∧
      s.g_queue = [⟨true, 0⟩] ∧ s.referenced = false ∧ ¬ s.HeldOpen := by
  obtain ⟨s, hs⟩ : ∃ s, (signalled Bool).run .initial overtaken = some s :=
    Option.isSome_iff_exists.mp (by decide)
  have hall : ∀ u ∈ (signalled Bool).run .initial overtaken,
      (u.native true).pc.holds = true ∧ u.g_queue = [⟨true, 0⟩] ∧ u.referenced = false := by
    decide
  obtain ⟨hhold, hqueue, href⟩ := hall s hs
  refine ⟨s, hs, hhold, hqueue, href, fun hopen => ?_⟩
  rw [hopen.mpr ⟨true, hhold⟩] at href
  cases href

end schedule

end NodeFfi.Threaded
