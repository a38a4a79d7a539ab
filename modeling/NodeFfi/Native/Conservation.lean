import NodeFfi.Native.Ownership

/-!
# Conservation

What each action drops (`State.dropped`) is what is leaked at the end of a run (`leaked_iff`): the
two handles of a `Callback` call that fails in `ffi_prep_closure_loc`, which frees the block only,
and the error-report handle of a collected callback, since `closure_pointer_cb` deletes the function
only. So the owners hold everything that is live exactly in the runs without such actions
(`resources_conserved_iff`), and in every run nothing but handles is lost (`leaked_handle`).
-/

namespace NodeFfi.Native

open Libffi Closure Transition

variable {Block Buffer Fn : Type} {s : State Block Buffer Fn} {l : Label Block Buffer Fn}
  {ls : List (Label Block Buffer Fn)}

/-- Every action keeps its books: what is live, who holds it, and what is released. -/
structure State.Conserved (s : State Block Buffer Fn) : Prop where
  /-- The owners hold all that is live, and nothing else. -/
  exact : ∀ r, s.Live r ↔ ∃ o, r ∈ s.holdings o
  apart : ∀ o o' r, r ∈ s.holdings o → r ∈ s.holdings o' → o = o'
  buffer : ∀ buffer code, s.closures.buffer buffer = some ⟨code, false⟩ →
    ∃ f, (s.closures.info code).function = some f ∧ (s.closures.info code).errorFunction ≠ f ∧
      s.holdings (.buffer buffer) =
        [.block code, .handle (s.closures.info code).errorFunction, .handle f]
  call : ∀ n, s.Outstanding n → ∃ p, s.params n = some p ∧
    s.holdings (.call n) = [.request n, .params n, .handle p.callback]
  /-- What an action releases is live, and is released once. -/
  once : ∀ l, s.enabled l →
    (s.released l).Nodup ∧ ∀ r ∈ s.released l, s.Live r ∨ r ∈ s.acquired l

/-- The action is a `Callback` call that fails in `ffi_prep_closure_loc`, or collects a callback. -/
def Label.Leaks : Label Block Buffer Fn → Prop
  | .closure (.callback _ _ (some _) status) => status ≠ .ok
  | .closure (.collect _) => True
  | _ => False

/-- What an action neither releases nor leaves to anybody. -/
def State.dropped (s : State Block Buffer Fn) : Label Block Buffer Fn → List (Resource Block)
  | .closure (.callback _ _ (some _) status) =>
    if status = .ok then [] else [.handle s.closures.handles, .handle (s.closures.handles + 1)]
  | .closure (.collect buffer) =>
    match s.closures.buffer buffer with
    | some c => [.handle (s.closures.info c.code).errorFunction]
    | none => []
  | _ => []

/-! ### The beginning -/

theorem formed_initial (info : Block → CallbackInfo) :
    (State.initial info : State Block Buffer Fn).Formed where
  handle_fresh _ _ := rfl
  call_fresh _ _ := ⟨rfl, rfl, rfl⟩
  buffer _ _ h := by cases h
  call _ h := absurd rfl h.1

theorem holdings_initial (info : Block → CallbackInfo) (o : Owner Buffer) :
    (State.initial info : State Block Buffer Fn).holdings o = [] := by
  cases o with
  | buffer x => rfl
  | call n => rfl

theorem sound_initial (info : Block → CallbackInfo) :
    (State.initial info : State Block Buffer Fn).ledger.Sound where
  live o r h := by simp [State.ledger, holdings_initial] at h
  nodup o := by simp [State.ledger, holdings_initial]
  apart o o' r h := by simp [State.ledger, holdings_initial] at h

theorem not_leaked_initial (info : Block → CallbackInfo) (r : Resource Block) :
    ¬ (State.initial info : State Block Buffer Fn).ledger.Leaked r := by
  rintro ⟨hlive, _⟩
  cases r <;> simp [State.ledger, State.Live, State.initial, Closure.State.initial] at hlive

/-! ### What is dropped -/

theorem drops_callback {buffer : Buffer} {args : CallbackArgs Fn} {b : Block} {status : Status}
    (hnew : s.closures.buffer buffer = none) (r : Resource Block) :
    (s.entry (.closure (.callback buffer args (some b) status))).Drops s.ledger r ↔
      r ∈ s.dropped (.closure (.callback buffer args (some b) status)) := by
  by_cases hok : status = .ok
  · subst hok
    have hnone : s.ledger.held (.buffer buffer) = [] := by
      simp [State.ledger, State.holdings, hnew]
    simp only [Ledger.Entry.Drops, Ledger.Entry.available, State.entry, State.actor, State.keeps,
      State.dropped, if_true, Option.map_some, Option.getD_some, hnone, List.nil_append,
      List.not_mem_nil, iff_false]
    exact fun h => h.2.2 h.1
  · simp only [Ledger.Entry.Drops, Ledger.Entry.available, State.entry, State.actor, State.keeps,
      State.dropped, State.acquired, State.released, hok, if_false, Option.map_none,
      Option.getD_none, List.nil_append, List.mem_cons, List.not_mem_nil, or_false]
    constructor
    · rintro ⟨rfl | h, hne, _⟩
      · exact absurd rfl hne
      · exact h
    · rintro (rfl | rfl) <;> simp

theorem handles_ne (hs : s.ledger.Sound) {buffer : Buffer} {code : Block} {e f : Nat}
    (hheld : s.holdings (.buffer buffer) = [.block code, .handle e, .handle f]) : e ≠ f := by
  have hnodup : (s.holdings (.buffer buffer)).Nodup := hs.nodup (.buffer buffer)
  rw [hheld] at hnodup
  simpa using hnodup

theorem drops_collect (hf : s.Formed) (hs : s.ledger.Sound) {buffer : Buffer} {code : Block}
    (hc : s.closures.buffer buffer = some ⟨code, false⟩) (r : Resource Block) :
    (s.entry (.closure (.collect buffer))).Drops s.ledger r ↔
      r ∈ s.dropped (.closure (.collect buffer)) := by
  obtain ⟨f, hfunction, hheld⟩ := holdings_live hf hc
  have hne := handles_ne hs hheld
  simp only [Ledger.Entry.Drops, Ledger.Entry.available, State.entry, State.actor, State.keeps,
    State.dropped, State.acquired, State.released, State.ledger, hc, hfunction, hheld,
    Option.map_some, Option.getD_some, Option.toList_some, List.append_nil, List.cons_append,
    List.nil_append, List.mem_cons, List.not_mem_nil, or_false, not_false_eq_true, and_true]
  constructor
  · rintro ⟨rfl | rfl | rfl, hnot⟩
    · exact absurd (.inr rfl) hnot
    · rfl
    · exact absurd (.inl rfl) hnot
  · rintro rfl
    exact ⟨.inr (.inl rfl), by simp [hne]⟩

theorem drops_callAsync (hf : s.Formed) (args : AsyncArgs Fn) (r : Resource Block) :
    ¬ (s.entry (.callAsync args)).Drops s.ledger r := by
  have hnone : s.ledger.held (.call s.calls) = [] :=
    holdings_not_outstanding fun ho => ho.1 (hf.call_fresh s.calls (Nat.le_refl _)).1
  rintro ⟨ha, _, hkeep⟩
  simp only [Ledger.Entry.available, State.entry, State.actor, Option.map_some, Option.getD_some,
    hnone, List.nil_append] at ha
  exact hkeep ha

theorem drops_finished (hf : s.Formed) {n : Nat} (hn : s.Outstanding n) (r : Resource Block) :
    ¬ (s.entry (.finished n)).Drops s.ledger r := by
  obtain ⟨p, hreq, hp, hheld⟩ := holdings_call hf hn
  rintro ⟨ha, hrel, _⟩
  simp only [Ledger.Entry.available, State.entry, State.actor, State.acquired, State.ledger,
    Option.map_some, Option.getD_some, hheld, List.append_nil, List.mem_cons, List.not_mem_nil,
    or_false] at ha
  simp only [State.entry, State.released, hreq, hp, List.mem_cons, List.not_mem_nil, or_false,
    not_or] at hrel
  rcases ha with h | h | h
  · exact hrel.2.2 h
  · exact hrel.2.1 h
  · exact hrel.1 h

theorem dropped_quiet {l : Closure.Label Block Buffer Fn} (h : l.quiet = true) :
    s.dropped (.closure l) = [] := by
  cases l with
  | callback buffer args alloc status =>
    cases alloc with
    | none => rfl
    | some b => cases h
  | collect buffer => cases h
  | _ => rfl

theorem drops_iff (hf : s.Formed) (hs : s.ledger.Sound) (hl : s.enabled l) (r : Resource Block) :
    (s.entry l).Drops s.ledger r ↔ r ∈ s.dropped l := by
  have hnothing : ∀ {e : Ledger.Entry (Owner Buffer) (Resource Block)}, e = .nothing →
      ¬ e.Drops s.ledger r := by
    rintro _ rfl ⟨ha, _⟩
    cases ha
  cases l with
  | closure l =>
    rcases closure_cases hl with h | ⟨buffer, args, b, status, rfl, hnew, _⟩ | ⟨buffer, code, rfl, hc⟩
    · rw [dropped_quiet h]
      exact iff_of_false (hnothing (entry_quiet h)) List.not_mem_nil
    · exact drops_callback hnew r
    · exact drops_collect hf hs hc r
  | callAsync args => exact iff_of_false (drops_callAsync hf args r) List.not_mem_nil
  | work n | finish n => exact iff_of_false (hnothing rfl) List.not_mem_nil
  | finished n =>
    exact iff_of_false (drops_finished hf (outstanding_of_stage hl (by simp)) r) List.not_mem_nil

theorem dropped_eq_nil_iff (hl : s.enabled l) : s.dropped l = [] ↔ ¬ l.Leaks := by
  cases l with
  | closure l =>
    cases l with
    | callback buffer args alloc status => cases alloc <;> simp [State.dropped, Label.Leaks]
    | collect buffer =>
      obtain ⟨code, hc⟩ := live_of_collect hl
      simp [State.dropped, Label.Leaks, hc]
    | _ => simp [State.dropped, Label.Leaks]
  | _ => simp [State.dropped, Label.Leaks]

theorem released_nodup : (s.released l).Nodup := by
  cases l with
  | closure l =>
    cases l with
    | callback buffer args alloc status =>
      cases alloc with
      | none => exact List.nodup_nil
      | some b => by_cases hok : status = .ok <;> simp [State.released, hok]
    | collect buffer =>
      simp only [State.released]
      split
      · cases (s.closures.info _).function <;> simp
      · exact List.nodup_nil
    | _ => exact List.nodup_nil
  | finished n =>
    simp only [State.released]
    split
    · exact List.nodup_nil
    · split <;> simp
  | _ => exact List.nodup_nil

theorem conserved_iff (hf : s.Formed) (hs : s.ledger.Sound) :
    s.Conserved ↔ ∀ r, ¬ s.ledger.Leaked r := by
  constructor
  · rintro h r ⟨hlive, hnone⟩
    obtain ⟨o, ho⟩ := (h.exact r).mp hlive
    exact hnone o ho
  · intro h
    refine ⟨fun r => ⟨fun hlive => ?_, fun ⟨o, ho⟩ => hs.live o r ho⟩, hs.apart, ?_, ?_, ?_⟩
    · by_contra hnone
      exact h r ⟨hlive, fun o ho => hnone ⟨o, ho⟩⟩
    · intro buffer code hc
      obtain ⟨f, hfunction, hheld⟩ := holdings_live hf hc
      exact ⟨f, hfunction, handles_ne hs hheld, hheld⟩
    · intro n hn
      obtain ⟨p, _, hp, hheld⟩ := holdings_call hf hn
      exact ⟨p, hp, hheld⟩
    · intro l hl
      exact ⟨released_nodup, fun r hr => (valid_entry hf hl).released_live hs hr⟩

/-! ### Over a run -/

variable [DecidableEq Block] [DecidableEq Buffer]

theorem sound_next (hf : s.Formed) (hs : s.ledger.Sound) (hl : s.enabled l) :
    (s.next l).ledger.Sound :=
  (posts_entry hf hs hl).sound (valid_entry hf hl) hs

/-- **In every run the owners hold live resources, each its own.** -/
theorem sound_of_run {info : Block → CallbackInfo}
    (h : (system Block Buffer Fn).run (.initial info) ls = some s) :
    s.Formed ∧ s.ledger.Sound :=
  Lts.run_induction (A := system Block Buffer Fn) (fun _ u => u.Formed ∧ u.ledger.Sound)
    ⟨formed_initial info, sound_initial info⟩
    (fun _ _ _ _ hu hl => ⟨formed_next hu.1 hu.2 hl, sound_next hu.1 hu.2 hl⟩) h

theorem leaked_next (hf : s.Formed) (hs : s.ledger.Sound) (hl : s.enabled l) (r : Resource Block) :
    (s.next l).ledger.Leaked r ↔ s.ledger.Leaked r ∨ r ∈ s.dropped l := by
  rw [(posts_entry hf hs hl).leaked_iff (valid_entry hf hl) hs r, drops_iff hf hs hl r]

/-- **What is leaked is what the actions dropped**, for good. -/
theorem leaked_iff {info : Block → CallbackInfo}
    (h : (system Block Buffer Fn).run (.initial info) ls = some s) (r : Resource Block) :
    s.ledger.Leaked r ↔ ∃ pre l u, pre ++ [l] <+: ls ∧
      (system Block Buffer Fn).run (.initial info) pre = some u ∧ r ∈ u.dropped l := by
  refine Lts.run_induction (A := system Block Buffer Fn) (fun ls u => u.ledger.Leaked r ↔
    ∃ pre l v, pre ++ [l] <+: ls ∧
      (system Block Buffer Fn).run (.initial info) pre = some v ∧ r ∈ v.dropped l) ?_ ?_ h
  · refine iff_of_false (not_leaked_initial info r) ?_
    rintro ⟨pre, l, _, hpre, _⟩
    cases pre <;> cases List.prefix_nil.mp hpre
  · intro ls u l hu ih hl
    obtain ⟨hf, hs⟩ := sound_of_run hu
    rw [show (system Block Buffer Fn).next u l = u.next l from rfl, leaked_next hf hs hl r, ih]
    constructor
    · rintro (⟨pre, l', v, hpre, hv, hr⟩ | hr)
      · exact ⟨pre, l', v, hpre.trans (List.prefix_append ls [l]), hv, hr⟩
      · exact ⟨ls, l, u, List.prefix_refl _, hu, hr⟩
    · rintro ⟨pre, l', v, hpre, hv, hr⟩
      rcases List.prefix_concat_iff.mp hpre with heq | hpre
      · obtain ⟨rfl, hlast⟩ := List.append_inj' heq rfl
        obtain rfl : l' = l := by simpa using hlast
        obtain rfl : v = u := Option.some.inj (hv.symm.trans hu)
        exact .inr hr
      · exact .inl ⟨pre, l', v, hpre, hv, hr⟩

/-- **Nothing but handles is lost**: whatever fails, and whatever is collected, every closure block
is a live Buffer's, and every `AsyncCallParams` and every request an outstanding call's. -/
theorem leaked_handle {info : Block → CallbackInfo}
    (h : (system Block Buffer Fn).run (.initial info) ls = some s) {r : Resource Block}
    (hr : s.ledger.Leaked r) : ∃ i, r = .handle i := by
  obtain ⟨_, l, u, _, _, hdropped⟩ := (leaked_iff h r).mp hr
  cases l with
  | closure l =>
    cases l with
    | callback buffer args alloc status =>
      cases alloc with
      | none => cases hdropped
      | some b =>
        simp only [State.dropped] at hdropped
        split at hdropped
        · cases hdropped
        · simp only [List.mem_cons, List.not_mem_nil, or_false] at hdropped
          exact hdropped.elim (⟨_, ·⟩) (⟨_, ·⟩)
    | collect buffer =>
      simp only [State.dropped] at hdropped
      split at hdropped
      · exact ⟨_, List.mem_singleton.mp hdropped⟩
      · cases hdropped
    | _ => cases hdropped
  | _ => cases hdropped

/-- **The resources are conserved exactly without such actions**: at every state that a run passes
through, the closure blocks and the handles that are live are those of the Buffers that are not
collected and of the calls that are not completed, if and only if no `Callback` call of the run
failed in `ffi_prep_closure_loc` and no callback was collected. -/
theorem resources_conserved_iff {info : Block → CallbackInfo}
    (h : (system Block Buffer Fn).run (.initial info) ls = some s) :
    (∀ pre u, pre <+: ls → (system Block Buffer Fn).run (.initial info) pre = some u →
      u.Conserved) ↔ ∀ l ∈ ls, ¬ l.Leaks := by
  refine Lts.run_forall_iff (A := system Block Buffer Fn)
    (I := fun u => u.Formed ∧ u.ledger.Sound) ⟨formed_initial info, sound_initial info⟩ ?_ ?_ ?_ h
  · exact (conserved_iff (formed_initial info) (sound_initial info)).mpr (not_leaked_initial info)
  · exact fun u l hu hl => ⟨formed_next hu.1 hu.2 hl, sound_next hu.1 hu.2 hl⟩
  · rintro u l ⟨hf, hs⟩ hu hl
    have hnone := (conserved_iff hf hs).mp hu
    rw [show (system Block Buffer Fn).next u l = u.next l from rfl,
      conserved_iff (formed_next hf hs hl) (sound_next hf hs hl), ← dropped_eq_nil_iff hl,
      List.eq_nil_iff_forall_not_mem]
    refine forall_congr' fun r => ?_
    rw [leaked_next hf hs hl r]
    simp [hnone r]

/-! ### Three runs -/

section schedule

private abbrev start : State Nat Nat String := .initial fun _ => ⟨0, none, 0, 0⟩

/-- A callback, and a call that is completed after another `Callback` call got no block. -/
def outlived : List (Label Nat Nat String) :=
  [.closure (.callback 0 (intCallback "a") (some 64) .ok), .callAsync ⟨1, 2, 3, 4, "done"⟩, .work 0,
    .finish 0, .closure (.callback 1 (intCallback "b") none .ok), .finished 0]

theorem resources_conserved_outlived :
    ∃ s, (system Nat Nat String).run start outlived = some s ∧ s.Conserved := by
  obtain ⟨s, hs⟩ : ∃ s, (system Nat Nat String).run start outlived = some s :=
    Option.isSome_iff_exists.mp (by decide)
  exact ⟨s, hs, (resources_conserved_iff hs).mpr (by simp [outlived, Label.Leaks]) outlived s
    (List.prefix_refl _) hs⟩

/-- A callback that is collected. -/
def collected : List (Label Nat Nat String) :=
  [.closure (.callback 0 (intCallback "a") (some 64) .ok), .closure (.collect 0)]

theorem leaked_handle_collected :
    ∃ s, (system Nat Nat String).run start collected = some s ∧ s.ledger.Leaked (.handle 0) ∧
      ∃ i, (.handle 0 : Resource Nat) = .handle i := by
  obtain ⟨s, hs⟩ : ∃ s, (system Nat Nat String).run start collected = some s :=
    Option.isSome_iff_exists.mp (by decide)
  have h0 : s.ledger.Leaked (.handle 0) :=
    (leaked_iff hs _).mpr ⟨collected.take 1, .closure (.collect 0), _, List.prefix_refl _, rfl,
      by decide⟩
  exact ⟨s, hs, h0, leaked_handle hs h0⟩

/-- A callback whose closure `ffi_prep_closure_loc` rejects. -/
def rejected : List (Label Nat Nat String) :=
  [.closure (.callback 0 (intCallback "a") (some 64) .badTypedef)]

/-- **The handles that nobody deletes**: the error-report handle of a collected callback, and both
handles of a `Callback` call that fails. -/
theorem handles_leaked :
    (∃ s, (system Nat Nat String).run start collected = some s ∧
      s.Live (.handle 0) ∧ (∀ o, .handle 0 ∉ s.holdings o) ∧ ¬ s.Conserved) ∧
    (∃ s, (system Nat Nat String).run start rejected = some s ∧
      s.Live (.handle 0) ∧ s.Live (.handle 1) ∧
      (∀ o, .handle 0 ∉ s.holdings o ∧ .handle 1 ∉ s.holdings o) ∧ ¬ s.Conserved) := by
  constructor
  · obtain ⟨s, hs⟩ : ∃ s, (system Nat Nat String).run start collected = some s :=
      Option.isSome_iff_exists.mp (by decide)
    have h0 : s.ledger.Leaked (.handle 0) :=
      (leaked_iff hs _).mpr ⟨collected.take 1, .closure (.collect 0), _, List.prefix_refl _, rfl,
        by decide⟩
    obtain ⟨hf, hsound⟩ := sound_of_run hs
    exact ⟨s, hs, h0.1, h0.2, fun hc => (conserved_iff hf hsound).mp hc _ h0⟩
  · obtain ⟨s, hs⟩ : ∃ s, (system Nat Nat String).run start rejected = some s :=
      Option.isSome_iff_exists.mp (by decide)
    have hleak : ∀ i ∈ [0, 1], s.ledger.Leaked (.handle i) := by
      intro i hi
      refine (leaked_iff hs _).mpr ⟨[], _, _, List.prefix_refl _, rfl, ?_⟩
      simpa [State.dropped, State.initial, Closure.State.initial] using hi
    have h0 := hleak 0 (by simp)
    have h1 := hleak 1 (by simp)
    obtain ⟨hf, hsound⟩ := sound_of_run hs
    exact ⟨s, hs, h0.1, h1.1, fun o => ⟨h0.2 o, h1.2 o⟩,
      fun hc => (conserved_iff hf hsound).mp hc _ h0⟩

end schedule

end NodeFfi.Native
