import NodeFfi.Threaded.Locks

/-!
# Invocations at addresses

`operator new` may give an invocation the address of one that was deleted before. Whoever still has
a pointer to the old one then locks and unlocks the mutex of the new one: after an early return from
`uv_cond_wait` the main thread waits for the `m_mutex` that the caller holds in its next call, and
the caller waits for `g_queue_mutex` (`caller_meets_itself`).

As long as no invocation is placed where `g_queue` or the main thread still points
(`Unconfused`), the addresses make no difference: every run is one of the protocol (`agrees_of_run`),
and there is no deadlock (`deadlock_free`). Without early returns before the signal there is no such
pointer to a deleted invocation, whatever `operator new` does (`unconfused_of_harmless`).
-/

namespace NodeFfi.Threaded

open Transition

variable {Thread : Type} [DecidableEq Thread]

/-- The invocation an action writes to. -/
def Label.writes : Label Thread → Option (Inv Thread)
  | .construct inv | .condWait inv | .spuriousWake inv | .wake inv | .delete inv
  | .signalLock inv | .condSignal inv | .signalUnlock inv => some inv
  | _ => none

def Label.constructs : Label Thread → Bool
  | .construct _ => true
  | _ => false

/-- The protocol with its invocations in memory. -/
structure Placed (Thread : Type) where
  protocol : State Thread
  /-- Where an invocation was constructed. -/
  address : Inv Thread → Option Nat
  allocated : Nat → Bool

/-- An action, with what `operator new` returns if it constructs an invocation. -/
structure PlacedLabel (Thread : Type) where
  label : Label Thread
  address : Nat
  deriving DecidableEq, Repr

/-- The invocations at the address of `inv` are what was written there. -/
def State.share (s : State Thread) (address : Inv Thread → Option Nat) (inv : Inv Thread) :
    State Thread :=
  { s with
    object := fun i =>
      if (address inv).isSome ∧ address i = address inv then s.object inv else s.object i }

namespace Placed

def initial : Placed Thread := ⟨.initial, fun _ => none, fun _ => false⟩

/-- `operator new` returns what is free. -/
def enabled (s : Placed Thread) (l : PlacedLabel Thread) : Prop :=
  s.protocol.enabled l.label ∧ (l.label.constructs = true → s.allocated l.address = false)

/-- The addresses after an action. -/
def place (s : Placed Thread) (l : PlacedLabel Thread) : Inv Thread → Option Nat :=
  match l.label with
  | .construct inv => Function.update s.address inv (some l.address)
  | _ => s.address

/-- The memory in use after an action. -/
def occupy (s : Placed Thread) (l : PlacedLabel Thread) : Nat → Bool :=
  match l.label with
  | .construct _ => Function.update s.allocated l.address true
  | .delete inv =>
    match s.address inv with
    | some a => Function.update s.allocated a false
    | none => s.allocated
  | _ => s.allocated

def next (s : Placed Thread) (l : PlacedLabel Thread) : Placed Thread where
  protocol :=
    match l.label.writes with
    | some inv => (s.protocol.next l.label).share (s.place l) inv
    | none => s.protocol.next l.label
  address := s.place l
  allocated := s.occupy l

/-- `DeadlockFree`, of the protocol in memory. -/
structure DeadlockFree (s : Placed Thread) : Prop where
  acyclic : s.protocol.locks.Acyclic
  main : ∀ m, s.protocol.Wants .main m → s.protocol.holder m ≠ some .main
  unlock : ∀ l a m, s.enabled l → l.label.unlocks = some (a, m) → s.protocol.holder m = some a

end Placed

/-- The threads, with every choice of `operator new`. -/
def placed (Thread : Type) [DecidableEq Thread] : Lts (Placed Thread) (PlacedLabel Thread) where
  enabled := Placed.enabled
  dec _ _ := inferInstanceAs (Decidable (_ ∧ _))
  next := Placed.next

/-- No invocation is placed where `g_queue` or the main thread still points. -/
def Unconfused (s : Placed Thread) (l : PlacedLabel Thread) : Prop :=
  l.label.constructs = true → ∀ i ∈ s.protocol.pointers, s.address i ≠ some l.address

instance (s : Placed Thread) (l : PlacedLabel Thread) : Decidable (Unconfused s l) :=
  inferInstanceAs (Decidable (_ → _))

/-- `Harmless`, of the protocol in memory. -/
def PlacedHarmless (s : Placed Thread) (l : PlacedLabel Thread) : Prop := Harmless s.protocol l.label

instance (s : Placed Thread) (l : PlacedLabel Thread) : Decidable (PlacedHarmless s l) :=
  inferInstanceAs (Decidable (Harmless _ _))

/-! ### Invocations in use -/

/-- The invocation exists. -/
def InvokePc.built : InvokePc → Bool
  | .idle | .ref | .construct => false
  | _ => true

/-- The invocation exists, or somebody has a pointer to it. -/
def State.Used (s : State Thread) (inv : Inv Thread) : Prop :=
  inv ∈ s.pointers ∨ (s.pcOf inv).built = true

variable {s : State Thread} {l : Label Thread} {inv : Inv Thread}

section

omit [DecidableEq Thread]

theorem used_of_at {pc : InvokePc} (hat : s.At inv pc) (hpc : pc.built = true) : s.Used inv :=
  .inr (by rw [hat.pcOf, hpc])

theorem used_of_holding {p : Place} (hw : s.watcher.holding = some (inv, p)) : s.Used inv :=
  .inl (List.mem_append_left _ (by rw [hw]; simp))

theorem used_of_writes (hl : s.enabled l) (hw : l.writes = some inv) :
    s.Used inv ∨ l = .construct inv := by
  cases l with
  | construct i =>
    obtain rfl : i = inv := Option.some.inj hw
    exact .inr rfl
  | condWait i | delete i =>
    obtain rfl : i = inv := Option.some.inj hw
    exact .inl (used_of_at hl rfl)
  | spuriousWake i | wake i =>
    obtain rfl : i = inv := Option.some.inj hw
    exact .inl (used_of_at hl.1 rfl)
  | signalLock i =>
    obtain rfl : i = inv := Option.some.inj hw
    exact .inl (used_of_holding (p := .popped) (by rw [hl.1]; rfl))
  | condSignal i =>
    obtain rfl : i = inv := Option.some.inj hw
    exact .inl (used_of_holding (p := .signalling) (by rw [show s.watcher = _ from hl]; rfl))
  | signalUnlock i =>
    obtain rfl : i = inv := Option.some.inj hw
    exact .inl (used_of_holding (p := .signalled) (by rw [show s.watcher = _ from hl]; rfl))
  | _ => cases hw

end

theorem built_next (hl : s.enabled l) (h : ((s.next l).pcOf inv).built = true) :
    (s.pcOf inv).built = true ∨ l = .construct inv := by
  rw [State.pcOf_next hl] at h
  cases hm : l.move with
  | none => exact .inl (by rwa [hm] at h)
  | some m =>
    obtain ⟨i, pc, pc'⟩ := m
    have hat := State.at_of_move hl hm
    rw [hm] at h
    dsimp only at h
    by_cases hi : i = inv
    · subst hi
      rw [if_pos rfl] at h
      rw [hat.pcOf]
      cases l <;> simp only [Label.move, Option.some.injEq, Prod.mk.injEq, reduceCtorEq] at hm <;>
        obtain ⟨rfl, rfl, rfl⟩ := hm <;> first | exact .inr rfl | exact .inl rfl | cases h
    · rw [if_neg hi] at h
      exact .inl h

theorem used_next (hl : s.enabled l) (h : (s.next l).Used inv) :
    s.Used inv ∨ l = .construct inv := by
  rcases h with hmem | hbuilt
  · rcases pointers_next hl hmem with hold | rfl
    · exact .inl (.inl hold)
    · exact .inl (used_of_at (show s.At inv .push from hl) rfl)
  · rcases built_next hl hbuilt with hold | hnew
    · exact .inl (.inr hold)
    · exact .inr hnew

/-! ### The same protocol with other objects -/

theorem object_frame (hw : l.writes ≠ some inv) : (s.next l).object inv = s.object inv := by
  cases l with
  | construct i | condWait i | spuriousWake i | wake i | delete i | signalLock i | condSignal i
  | signalUnlock i =>
    have hne : inv ≠ i := fun he => hw (by rw [he]; rfl)
    simp [State.next, State.goto, State.setNative, State.setObject, hne]
  | _ => rfl

variable {o : Inv Thread → ThreadedCallbackInvokation Thread}

theorem next_objects :
    ({ s with object := o } : State Thread).next l =
      { s.next l with object := (({ s with object := o } : State Thread).next l).object } := by
  cases l <;> rfl

theorem object_next (ho : o inv = s.object inv ∨ l = .construct inv) (hw : l.writes = some inv) :
    (({ s with object := o } : State Thread).next l).object inv = (s.next l).object inv := by
  cases l with
  | construct i =>
    obtain rfl : i = inv := Option.some.inj hw
    simp [State.next, State.goto, State.setNative, State.setObject, State.callOf]
  | condWait i | spuriousWake i | wake i | delete i | signalLock i | condSignal i
  | signalUnlock i =>
    obtain rfl : i = inv := Option.some.inj hw
    have ho' : o i = s.object i := ho.resolve_right (by simp)
    simp [State.next, State.goto, State.setNative, State.setObject, ho']
  | _ => cases hw

omit [DecidableEq Thread] in
theorem enabled_objects (ho : ∀ i, s.Used i → o i = s.object i) :
    ({ s with object := o } : State Thread).enabled l ↔ s.enabled l := by
  have hwait : ∀ i, s.At i .waiting → o i = s.object i := fun i hat => ho i (used_of_at hat rfl)
  cases l with
  | spuriousWake i =>
    refine and_congr_right fun hat => ?_
    rw [show ({ s with object := o } : State Thread).object i = o i from rfl, hwait i hat]
  | wake i =>
    refine and_congr_right fun hat => ?_
    rw [show ({ s with object := o } : State Thread).object i = o i from rfl, hwait i hat]
  | dispatch i call js =>
    refine and_congr_right fun hw => ?_
    have hi := ho i (used_of_holding (p := .popped) (by
      rw [show s.watcher = .dispatch i from hw]
      rfl))
    rw [State.arguments, State.arguments,
      show ({ s with object := o } : State Thread).object i = o i from rfl, hi]
  | signalLock i =>
    refine and_congr_right fun hw => ?_
    have hi := ho i (used_of_holding (p := .popped) (by
      rw [show s.watcher = .signalLock i from hw]
      rfl))
    rw [show ({ s with object := o } : State Thread).object i = o i from rfl, hi]
  | _ => exact Iff.rfl

/-! ### Memory does not matter -/

/-- The invocations in use are those of the protocol, each at an address of its own. -/
structure Agrees (p : Placed Thread) (s : State Thread) : Prop where
  protocol : p.protocol = { s with object := p.protocol.object }
  object : ∀ i, s.Used i → p.protocol.object i = s.object i
  apart : ∀ i j, s.Used i → s.Used j → p.address i = p.address j → i = j
  placed : ∀ i, (s.pcOf i).built = true → ∃ a, p.address i = some a ∧ p.allocated a = true

variable {p : Placed Thread} {pl : PlacedLabel Thread}

omit [DecidableEq Thread] in
theorem agrees_initial : Agrees (.initial : Placed Thread) .initial where
  protocol := rfl
  object _ _ := rfl
  apart i _ h := by
    rcases h with hmem | hbuilt
    · cases hmem
    · rw [State.pcOf_initial] at hbuilt
      cases hbuilt
  placed i h := by
    rw [State.pcOf_initial] at h
    cases h

namespace Agrees

section

omit [DecidableEq Thread]

theorem enabled_iff (h : Agrees p s) : p.protocol.enabled l ↔ s.enabled l := by
  rw [h.protocol]
  exact enabled_objects h.object

theorem pointers_eq (h : Agrees p s) : p.protocol.pointers = s.pointers := by
  rw [h.protocol]
  rfl

theorem fresh (h : Agrees p s) (hl : p.enabled pl) (hu : Unconfused p pl)
    (hc : pl.label = .construct inv) {i : Inv Thread} (hi : s.Used i) :
    p.address i ≠ some pl.address := by
  have hfree := hl.2 (by rw [hc]; rfl)
  have hpointers := hu (by rw [hc]; rfl)
  rw [h.pointers_eq] at hpointers
  rcases hi with hmem | hbuilt
  · exact hpointers i hmem
  · obtain ⟨a, ha, halloc⟩ := h.placed i hbuilt
    rw [ha]
    rintro heq
    rw [Option.some.inj heq, hfree] at halloc
    cases halloc

end

theorem place_of_construct (hc : pl.label = .construct inv) (i : Inv Thread) :
    p.place pl i = if i = inv then some pl.address else p.address i := by
  unfold Placed.place
  rw [hc]
  exact Function.update_apply p.address inv (some pl.address) i

theorem place_of_ne (hc : ∀ inv, pl.label ≠ .construct inv) : p.place pl = p.address := by
  unfold Placed.place
  split
  · exact absurd ‹_› (hc _)
  · rfl

theorem apart_next (h : Agrees p s) (hl : p.enabled pl) (hu : Unconfused p pl) (i j : Inv Thread)
    (hi : (s.next pl.label).Used i) (hj : (s.next pl.label).Used j)
    (heq : p.place pl i = p.place pl j) : i = j := by
  have hl' := h.enabled_iff.mp hl.1
  by_cases hc : ∃ inv, pl.label = .construct inv
  · obtain ⟨inv, hc⟩ := hc
    have hold : ∀ k, (s.next pl.label).Used k → k ≠ inv → s.Used k := by
      intro k hk hne
      refine (used_next hl' hk).resolve_right fun heq => ?_
      rw [hc] at heq
      exact hne (Label.construct.inj heq).symm
    rw [place_of_construct hc, place_of_construct hc] at heq
    by_cases hii : i = inv
    · by_cases hji : j = inv
      · rw [hii, hji]
      · rw [if_pos hii, if_neg hji] at heq
        exact absurd heq.symm (h.fresh hl hu hc (hold j hj hji))
    · by_cases hji : j = inv
      · rw [if_neg hii, if_pos hji] at heq
        exact absurd heq (h.fresh hl hu hc (hold i hi hii))
      · rw [if_neg hii, if_neg hji] at heq
        exact h.apart i j (hold i hi hii) (hold j hj hji) heq
  · have hc' : ∀ inv, pl.label ≠ .construct inv := fun inv he => hc ⟨inv, he⟩
    rw [place_of_ne hc'] at heq
    exact h.apart i j ((used_next hl' hi).resolve_right (hc' i))
      ((used_next hl' hj).resolve_right (hc' j)) heq

theorem placed_next (h : Agrees p s) (hl : p.enabled pl) (i : Inv Thread)
    (hi : ((s.next pl.label).pcOf i).built = true) :
    ∃ a, p.place pl i = some a ∧ p.occupy pl a = true := by
  have hl' := h.enabled_iff.mp hl.1
  rcases built_next hl' hi with hold | hnew
  · obtain ⟨a, ha, halloc⟩ := h.placed i hold
    cases hc : pl.label with
    | construct inv =>
      by_cases hii : i = inv
      · exact ⟨pl.address, by rw [place_of_construct hc, if_pos hii], by simp [Placed.occupy, hc]⟩
      · refine ⟨a, by rw [place_of_construct hc, if_neg hii, ha], ?_⟩
        simp only [Placed.occupy, hc, Function.update_apply]
        split
        · rfl
        · exact halloc
    | delete inv =>
      refine ⟨a, by rw [place_of_ne (by simp [hc]), ha], ?_⟩
      have hat : s.At inv .delete := by
        rw [hc] at hl'
        exact hl'
      -- the invocation that is deleted is another one
      have hne : i ≠ inv := by
        rintro rfl
        rw [State.pcOf_next hl', hc] at hi
        simp [Label.move, InvokePc.built] at hi
      have haddress : p.address inv ≠ some a := fun heq =>
        hne (h.apart i inv (.inr hold) (used_of_at hat rfl) (by rw [ha, heq]))
      simp only [Placed.occupy, hc]
      cases hb : p.address inv with
      | none => exact halloc
      | some b =>
        have hab : a ≠ b := fun he => haddress (by rw [hb, he])
        simp only [Function.update_of_ne hab]
        exact halloc
    | _ => exact ⟨a, by rw [place_of_ne (by simp [hc]), ha], by simpa [Placed.occupy, hc] using halloc⟩
  · exact ⟨pl.address, by rw [place_of_construct hnew, if_pos rfl], by simp [Placed.occupy, hnew]⟩

theorem object_next (h : Agrees p s) (hl : p.enabled pl) (hu : Unconfused p pl) (i : Inv Thread)
    (hi : (s.next pl.label).Used i) :
    (p.next pl).protocol.object i = (s.next pl.label).object i := by
  have hl' := h.enabled_iff.mp hl.1
  have hnext : ∀ j, (s.Used j ∨ pl.label = .construct j) →
      (p.protocol.next pl.label).object j = (s.next pl.label).object j := by
    intro j hj
    by_cases hw : pl.label.writes = some j
    · rw [h.protocol]
      exact Threaded.object_next (hj.imp_left (h.object j)) hw
    · rw [object_frame hw, object_frame hw]
      refine h.object j (hj.resolve_right fun hc => hw ?_)
      rw [hc]
      rfl
  unfold Placed.next
  cases hw : pl.label.writes with
  | none => exact hnext i (used_next hl' hi)
  | some inv =>
    simp only [State.share]
    split
    · -- what is at the address of the written invocation is that invocation
      rename_i hshare
      have hii : i = inv := by
        by_contra hne
        have hiu : s.Used i := (used_next hl' hi).resolve_right fun hic => by
          rw [hic] at hw
          exact hne (Option.some.inj hw)
        by_cases hc : pl.label = .construct inv
        · rw [place_of_construct hc, place_of_construct hc, if_neg hne, if_pos rfl] at hshare
          exact h.fresh hl hu hc hiu hshare.2
        · have hc' : ∀ k, pl.label ≠ .construct k := by
            intro k hk
            rw [hk] at hw hc
            exact hc (by rw [Option.some.inj hw])
          rw [place_of_ne hc'] at hshare
          exact hne (h.apart i inv hiu ((used_of_writes hl' hw).resolve_right hc) hshare.2)
      rw [← hii]
      exact hnext i (used_next hl' hi)
    · exact hnext i (used_next hl' hi)

/-- **A step in memory is a step of the protocol.** -/
theorem next (h : Agrees p s) (hl : p.enabled pl) (hu : Unconfused p pl) :
    s.enabled pl.label ∧ Agrees (p.next pl) (s.next pl.label) := by
  refine ⟨h.enabled_iff.mp hl.1, ?_, h.object_next hl hu, h.apart_next hl hu, h.placed_next hl⟩
  have hprotocol : p.protocol.next pl.label =
      { s.next pl.label with object := (p.protocol.next pl.label).object } := by
    rw [h.protocol]
    exact next_objects
  unfold Placed.next
  cases pl.label.writes with
  | none => exact hprotocol
  | some inv =>
    simp only [State.share]
    rw [hprotocol]

section

omit [DecidableEq Thread]

theorem holder_of_wants (h : Agrees p s) {a : Agent Thread} {m : Mutex Thread}
    (hw : p.protocol.Wants a m) : s.Wants a m ∧ p.protocol.holder m = s.holder m := by
  rw [h.protocol] at hw
  have hwants : s.Wants a m := by
    cases a <;> cases m <;> exact hw
  refine ⟨hwants, ?_⟩
  cases m with
  | g_queue_mutex =>
    rw [h.protocol]
    rfl
  | m_mutex inv =>
    have hused : s.Used inv := by
      cases a with
      | main =>
        exact used_of_holding (p := .popped) (by rw [show s.watcher = .signalLock inv from hwants]; rfl)
      | native t => exact used_of_at hwants.2 rfl
    exact congrArg ThreadedCallbackInvokation.m_mutex (h.object inv hused)

theorem holder_of_unlocks (h : Agrees p s) (hl : s.enabled l) {a : Agent Thread} {m : Mutex Thread}
    (hu : l.unlocks = some (a, m)) : p.protocol.holder m = s.holder m := by
  cases m with
  | g_queue_mutex =>
    rw [h.protocol]
    rfl
  | m_mutex inv =>
    have hw : l.writes = some inv := by
      cases l <;> simp_all [Label.unlocks, Label.writes]
    have hused : s.Used inv := (used_of_writes hl hw).resolve_right fun hc => by
      rw [hc] at hu
      cases hu
    exact congrArg ThreadedCallbackInvokation.m_mutex (h.object inv hused)

end

theorem deadlockFree (h : Agrees p s) (hs : Locked s) : p.DeadlockFree := by
  have hacyclic : p.protocol.locks.Acyclic := by
    refine Locks.acyclic_of_rank s.rank fun a m b hw hm => ?_
    obtain ⟨hwants, hholder⟩ := h.holder_of_wants hw
    exact hs.rank_lt a m b hwants (hholder.symm.trans hm)
  refine ⟨hacyclic, fun m hw => hacyclic.not_held hw, fun pl a m hl hu => ?_⟩
  have hl' := h.enabled_iff.mp hl.1
  rw [h.holder_of_unlocks hl' hu]
  exact hs.unlock hl' hu

end Agrees

/-! ### Every run -/

section run

variable {ls : List (PlacedLabel Thread)}

theorem agrees_of_run (h : ((placed Thread).restrict Unconfused).run .initial ls = some p) :
    ∃ s, (system Thread).run .initial (ls.map PlacedLabel.label) = some s ∧ Agrees p s := by
  refine Lts.run_induction (A := (placed Thread).restrict Unconfused)
    (fun ls u => ∃ s, (system Thread).run .initial (ls.map PlacedLabel.label) = some s ∧
      Agrees u s) ⟨.initial, rfl, agrees_initial⟩ ?_ h
  rintro ls u pl _ ⟨s, hs, hagrees⟩ ⟨hl, hu⟩
  obtain ⟨hl', hnext⟩ := hagrees.next hl hu
  refine ⟨s.next pl.label, ?_, hnext⟩
  rw [List.map_append, Lts.run_append]
  exact ⟨s, hs, (Lts.run_singleton s pl.label _).mpr ⟨hl', rfl⟩⟩

theorem built_of_pointer (hs : s.Invariant) (h : inv ∈ s.pointers) :
    (s.pcOf inv).built = true := by
  have hplace : s.place inv ≠ .absent := by
    rcases List.mem_append.mp h with hw | hq
    · obtain ⟨⟨i, q⟩, hhold, rfl⟩ := Option.map_eq_some_iff.mp (Option.mem_toList.mp hw)
      rw [hs.place_held hhold]
      cases hs : s.watcher <;> rw [hs] at hhold <;> simp_all [Watcher.holding] <;>
        obtain ⟨_, rfl⟩ := hhold <;> decide
    · rw [State.place_of_mem hq]
      decide
  have hf := hs.coherent inv
  unfold State.Coherent at hf
  cases hpc : s.pcOf inv <;> rw [hpc] at hf <;>
    first | rfl | exact absurd hf.1 hplace

theorem unconfused_of_harmless
    (h : ((placed Thread).restrict PlacedHarmless).run .initial ls = some p) :
    ((placed Thread).restrict Unconfused).run .initial ls = some p := by
  refine (Lts.run_induction (A := (placed Thread).restrict PlacedHarmless)
    (fun ls u => ((placed Thread).restrict Unconfused).run .initial ls = some u ∧
      ∃ s, s.Invariant ∧ Agrees u s) ⟨rfl, .initial, State.invariant_initial, agrees_initial⟩ ?_ h).1
  rintro ls u pl _ ⟨hrun, s, hs, hagrees⟩ ⟨hl, hharm⟩
  have hu : Unconfused u pl := by
    intro hc i hi
    rw [hagrees.pointers_eq] at hi
    -- an invocation that somebody points to exists
    have hbuilt := built_of_pointer hs hi
    obtain ⟨a, ha, halloc⟩ := hagrees.placed i hbuilt
    rw [ha]
    rintro heq
    rw [Option.some.inj heq, hl.2 hc] at halloc
    cases halloc
  obtain ⟨hl', hnext⟩ := hagrees.next hl hu
  refine ⟨(Lts.run_snoc _ _ _ _).mpr ⟨u, hrun, ⟨hl, hu⟩, rfl⟩, s.next pl.label, ?_, hnext⟩
  have hharm' : Harmless s pl.label := by
    have := hharm
    rw [PlacedHarmless, hagrees.protocol] at this
    cases hc : pl.label <;> rw [hc] at this <;> exact this
  exact State.invariant_step hs hl' hharm'

/-- **There is no deadlock** in a run in which no invocation is placed where `g_queue` or the main
thread still points, in particular in one without early returns before the signal: nobody waits in a
circle, the main thread not for a mutex that it holds, and every mutex is unlocked by the thread
that holds it. -/
theorem deadlock_free (h : ((placed Thread).restrict Unconfused).run .initial ls = some p ∨
    ((placed Thread).restrict PlacedHarmless).run .initial ls = some p) : p.DeadlockFree := by
  obtain ⟨s, hs, hagrees⟩ := agrees_of_run (h.elim id unconfused_of_harmless)
  exact hagrees.deadlockFree (locked_of_run hs)

end run

/-! ### Twice at one address -/

/-- `Invoke` up to `uv_cond_wait`, with the invocation at `address`. -/
def invoked (inv : Inv Unit) (address : Nat) : List (PlacedLabel Unit) :=
  [.enter inv ⟨7, 100, 104⟩, .ref inv, .construct inv, .lockQueue inv, .push inv, .unlockQueue inv,
    .asyncSend inv, .condWait inv].map fun l => ⟨l, address⟩

/-- A caller that is served, and calls again with its invocation where the first one was. -/
def servedTwice : List (PlacedLabel Unit) :=
  let serve (inv : Inv Unit) : List (PlacedLabel Unit) :=
    [.watcherStart, .watcherLock, .pop inv, .dispatch inv ⟨7, 100, 104⟩ (.call .ret .ret), .jsCall,
      .jsReturn, .jsReturn, .dispatchEnd inv, .signalLock inv, .condSignal inv, .signalUnlock inv,
      .drained, .watcherUnlock, .wake inv, .unref inv, .delete inv].map fun l => ⟨l, 0⟩
  invoked ⟨(), 0⟩ 64 ++ serve ⟨(), 0⟩ ++ invoked ⟨(), 1⟩ 64 ++ serve ⟨(), 1⟩

theorem deadlock_free_servedTwice :
    ∃ p, ((placed Unit).restrict Unconfused).run .initial servedTwice = some p ∧
      p.DeadlockFree := by
  obtain ⟨p, hp⟩ : ∃ p, ((placed Unit).restrict Unconfused).run .initial servedTwice = some p :=
    Option.isSome_iff_exists.mp (by decide)
  exact ⟨p, hp, deadlock_free (.inl hp)⟩

/-- A caller whose wait returns while its callback runs, and that calls again with its invocation
where the first one was. -/
def servedLate : List (PlacedLabel Unit) :=
  let a : Inv Unit := ⟨(), 0⟩
  let b : Inv Unit := ⟨(), 1⟩
  invoked a 64 ++
    ([.watcherStart, .watcherLock, .pop a, .dispatch a ⟨7, 100, 104⟩ .ret, .spuriousWake a, .wake a,
      .unref a, .delete a, .enter b ⟨7, 100, 104⟩, .ref b, .construct b, .jsReturn,
      .dispatchEnd a].map fun l => ⟨l, 64⟩)

/-- **The caller and the main thread wait for each other**: the main thread holds `g_queue_mutex`
and waits for the `m_mutex` at the address of the invocation it has served, which the caller has
locked in its next call. -/
theorem caller_meets_itself :
    ∃ p, (placed Unit).run .initial servedLate = some p ∧
      (p.protocol.Wants .main (.m_mutex ⟨(), 0⟩) ∧
        p.protocol.holder (.m_mutex ⟨(), 0⟩) = some (.native ())) ∧
      (p.protocol.Wants (.native ()) .g_queue_mutex ∧
        p.protocol.holder .g_queue_mutex = some .main) ∧
      ¬ p.protocol.locks.Acyclic := by
  refine ⟨_, rfl, ⟨rfl, rfl⟩, ⟨rfl, rfl⟩, ?_⟩
  exact @Locks.not_acyclic_of_pair _ _ _ .main (.native ()) (.m_mutex ⟨(), 0⟩) .g_queue_mutex
    rfl rfl rfl rfl

end NodeFfi.Threaded
