import NodeFfi.Js.Basic

/-!
# Programs that call

`Program C B W R` is a program by what it does: it returns an `R`, calls something, a `C`, and goes
on with the `B` that it gets, or reads or writes its world `W`. `Program.run` is given the
computation that a call is.

A computation with fuel that has used it up is `running`. `Approximates` says that a computation
with more fuel comes to the same; all that computations are made of preserves it, and so does
`run`. `Keeps` does the same for a relation between the states before and after.
-/

namespace NodeFfi.Js

/-- Why a computation has no value. -/
inductive Stop (V : Type) where
  | running
  /-- C does not say what happens. -/
  | undefined
  | thrown (e : V)
  deriving DecidableEq, Repr

inductive Program (C B W R : Type) where
  | done (r : R)
  | call (c : C) (next : B → Program C B W R)
  | read (next : W → Program C B W R)
  | write (w : W) (next : Program C B W R)

section run

variable {C B W R S ε : Type} (call : C → Js S ε B) (get : S → W) (put : W → S → S)

def Program.run : Program C B W R → Js S ε R
  | .done r => pure r
  | .call c next => do
    let b ← call c
    (next b).run
  | .read next => do
    let w ← Js.step fun s => (get s, s)
    (next w).run
  | .write w next => do
    Js.modify (put w)
    next.run

end run

namespace Js

variable {S V α β : Type}

/-- The computation has come to an end. -/
def Ended (r : Except (Stop V) α) : Prop := r ≠ .error .running

theorem ended_ok (a : α) : Ended (.ok a : Except (Stop V) α) := fun h => by cases h

theorem ended_thrown (e : V) : Ended (.error (.thrown e) : Except (Stop V) α) := fun h => by cases h

theorem Ended.of_error {stop : Stop V} (h : Ended (.error stop : Except (Stop V) β)) :
    Ended (.error stop : Except (Stop V) α) :=
  fun he => h (by rw [Except.error.inj he])

/-- `try { x } catch (e) { handler e }`. -/
def catchThrown (x : Js S (Stop V) α) (handler : V → Js S (Stop V) α) : Js S (Stop V) α :=
  Js.tryCatch x fun
    | .thrown e => handler e
    | stop => Js.throw stop

/-- What a computation returns or throws. -/
def attempt (x : Js S (Stop V) α) : Js S (Stop V) (Except V α) :=
  catchThrown (do
    let a ← x
    return .ok a) fun e => return .error e

/-- The other way round. -/
def resume : Except V α → Js S (Stop V) α
  | .ok a => pure a
  | .error e => Js.throw (.thrown e)

theorem attempt_ok {x : Js S (Stop V) α} {s s' : S} {a : α} (h : x s = (.ok a, s')) :
    attempt x s = (.ok (.ok a), s') :=
  Js.tryCatch_ok (Js.bind_ok h)

theorem attempt_running {x : Js S (Stop V) α} {s s' : S} (h : x s = (.error .running, s')) :
    attempt x s = (.error .running, s') :=
  Js.tryCatch_error (Js.bind_error h)

theorem catchThrown_ok {x : Js S (Stop V) α} {handler : V → Js S (Stop V) α} {s s' : S} {a : α}
    (h : x s = (.ok a, s')) : catchThrown x handler s = (.ok a, s') :=
  Js.tryCatch_ok h

/-! ### Fuel -/

/-- Where the one computation has come to an end, so has the other, to the same. -/
def Approximates (x y : Js S (Stop V) α) : Prop :=
  ∀ s r s', x s = (r, s') → Ended r → y s = (r, s')

theorem Approximates.refl (x : Js S (Stop V) α) : Approximates x x := fun _ _ _ h _ => h

theorem Approximates.trans {x y z : Js S (Stop V) α} (hxy : Approximates x y)
    (hyz : Approximates y z) : Approximates x z :=
  fun s r s' hrun hr => hyz s r s' (hxy s r s' hrun hr) hr

theorem approximates_running (y : Js S (Stop V) α) : Approximates (Js.throw .running) y := by
  intro s r s' hrun hr
  exact absurd (congrArg Prod.fst hrun).symm hr

theorem Approximates.bind {x y : Js S (Stop V) α} {f g : α → Js S (Stop V) β}
    (hx : Approximates x y) (hf : ∀ a, Approximates (f a) (g a)) :
    Approximates (x >>= f) (y >>= g) := by
  intro s r s' hrun hr
  rcases hxs : x s with ⟨e | a, s₁⟩
  · rw [Js.bind_error hxs] at hrun
    obtain ⟨rfl, rfl⟩ := Prod.mk.inj hrun
    rw [Js.bind_error (hx s _ _ hxs hr.of_error)]
  · rw [Js.bind_ok hxs] at hrun
    rw [Js.bind_ok (hx s _ _ hxs (ended_ok a))]
    exact hf a s₁ r s' hrun hr

theorem Approximates.catchThrown {x y : Js S (Stop V) α} {f g : V → Js S (Stop V) α}
    (hx : Approximates x y) (hf : ∀ e, Approximates (f e) (g e)) :
    Approximates (Js.catchThrown x f) (Js.catchThrown y g) := by
  intro s r s' hrun hr
  rcases hxs : x s with ⟨stop | a, s₁⟩
  · unfold Js.catchThrown at hrun ⊢
    rw [Js.tryCatch_error hxs] at hrun
    cases stop with
    | running => exact absurd (congrArg Prod.fst hrun).symm hr
    | undefined =>
      rw [Js.tryCatch_error (hx s _ _ hxs fun h => by cases h)]
      exact hrun
    | thrown e =>
      rw [Js.tryCatch_error (hx s _ _ hxs (ended_thrown e))]
      exact hf e s₁ r s' hrun hr
  · rw [catchThrown_ok hxs] at hrun
    rw [catchThrown_ok (hx s _ _ hxs (ended_ok a))]
    exact hrun

theorem Approximates.attempt {x y : Js S (Stop V) α} (hx : Approximates x y) :
    Approximates (Js.attempt x) (Js.attempt y) :=
  (hx.bind fun _ => .refl _).catchThrown fun _ => .refl _

theorem Approximates.run {C B W R : Type} {call call' : C → Js S (Stop V) B} {get : S → W}
    {put : W → S → S} (hcall : ∀ c, Approximates (call c) (call' c)) (p : Program C B W R) :
    Approximates (p.run call get put) (p.run call' get put) := by
  induction p with
  | done r => exact .refl _
  | call c next ih => exact (hcall c).bind ih
  | read next ih => exact (Approximates.refl _).bind ih
  | write w next ih => exact (Approximates.refl _).bind fun _ => ih

/-- With enough fuel, the computation comes to `r`. -/
def Finishes (x : Nat → Js S (Stop V) α) (s : S) (r : Except (Stop V) α) (s' : S) : Prop :=
  ∃ n, x n s = (r, s') ∧ Ended r

theorem Approximates.of_le {x : Nat → Js S (Stop V) α} (h : ∀ n, Approximates (x n) (x (n + 1)))
    {n m : Nat} (hle : n ≤ m) : Approximates (x n) (x m) := by
  obtain ⟨k, rfl⟩ := Nat.exists_eq_add_of_le hle
  clear hle
  induction k with
  | zero => exact .refl _
  | succ k ih => exact ih.trans (h (n + k))

theorem Finishes.det {x : Nat → Js S (Stop V) α} (h : ∀ n, Approximates (x n) (x (n + 1)))
    {s s₁ s₂ : S} {r₁ r₂ : Except (Stop V) α} (h₁ : Finishes x s r₁ s₁) (h₂ : Finishes x s r₂ s₂) :
    r₁ = r₂ ∧ s₁ = s₂ := by
  obtain ⟨n, hn, hr₁⟩ := h₁
  obtain ⟨m, hm, hr₂⟩ := h₂
  have hn' := Approximates.of_le h (Nat.le_max_left n m) s r₁ s₁ hn hr₁
  have hm' := Approximates.of_le h (Nat.le_max_right n m) s r₂ s₂ hm hr₂
  rw [hn'] at hm'
  exact Prod.mk.inj hm'

/-- If one of two computations comes to an end, so does the other; both return, and what they
return, in the states that they leave, is related by `Q`. -/
structure Agree (Q : S → S → α → α → Prop) (x' : Nat → Js S (Stop V) α) (s' : S)
    (x : Nat → Js S (Stop V) α) (s : S) : Prop where
  forth : ∀ r u, Finishes x s r u →
    ∃ v v' u', r = .ok v ∧ Finishes x' s' (.ok v') u' ∧ Q u' u v' v
  back : ∀ r' u', Finishes x' s' r' u' →
    ∃ v v' u, r' = .ok v' ∧ Finishes x s (.ok v) u ∧ Q u' u v' v

section agree

variable {Q Q' : S → S → α → α → Prop} {R : S → S → β → β → Prop} {x x' : Nat → Js S (Stop V) α}
  {s s' : S}

theorem Agree.pure {v' v : α} (h : Q s' s v' v) :
    Agree Q (fun _ => (Pure.pure v' : Js S (Stop V) α)) s' (fun _ => Pure.pure v) s where
  forth r u hx := by
    obtain ⟨_, hn, _⟩ := hx
    obtain ⟨rfl, rfl⟩ := Prod.mk.inj hn
    exact ⟨v, v', s', rfl, ⟨0, rfl, ended_ok v'⟩, h⟩
  back r' u' hx := by
    obtain ⟨_, hn, _⟩ := hx
    obtain ⟨rfl, rfl⟩ := Prod.mk.inj hn
    exact ⟨v, v', s, rfl, ⟨0, rfl, ended_ok v⟩, h⟩

theorem Agree.mono (h : Agree Q x' s' x s) (hQ : ∀ u' u v' v, Finishes x' s' (.ok v') u' →
    Finishes x s (.ok v) u → Q u' u v' v → Q' u' u v' v) : Agree Q' x' s' x s where
  forth r u hx := by
    obtain ⟨v, v', u', rfl, hx', hq⟩ := h.forth r u hx
    exact ⟨v, v', u', rfl, hx', hQ u' u v' v hx' hx hq⟩
  back r' u' hx' := by
    obtain ⟨v, v', u, rfl, hx, hq⟩ := h.back r' u' hx'
    exact ⟨v, v', u, rfl, hx, hQ u' u v' v hx' hx hq⟩

theorem Agree.congr {y y' : Nat → Js S (Stop V) α} {t t' : S} (h : Agree Q y' t' y t)
    (hx' : ∀ n, x' n s' = y' n t') (hx : ∀ n, x n s = y n t) : Agree Q x' s' x s := by
  have hfin' : ∀ r u, Finishes x' s' r u ↔ Finishes y' t' r u := by
    intro r u
    unfold Finishes
    simp only [hx']
  have hfin : ∀ r u, Finishes x s r u ↔ Finishes y t r u := by
    intro r u
    unfold Finishes
    simp only [hx]
  constructor
  · intro r u hrun
    obtain ⟨v, v', u', hr, hrun', hq⟩ := h.forth r u ((hfin r u).mp hrun)
    exact ⟨v, v', u', hr, (hfin' _ u').mpr hrun', hq⟩
  · intro r' u' hrun'
    obtain ⟨v, v', u, hr, hrun, hq⟩ := h.back r' u' ((hfin' r' u').mp hrun')
    exact ⟨v, v', u, hr, (hfin _ u).mpr hrun, hq⟩

theorem Agree.of_succ (h0' : (x' 0 s').1 = .error .running) (h0 : (x 0 s).1 = .error .running)
    (h : Agree Q (fun n => x' (n + 1)) s' (fun n => x (n + 1)) s) : Agree Q x' s' x s where
  forth r u hx := by
    obtain ⟨n, hn, hr⟩ := hx
    cases n with
    | zero =>
      rw [hn] at h0
      exact absurd h0 hr
    | succ n =>
      obtain ⟨v, v', u', hv, ⟨m, hm, hend⟩, hq⟩ := h.forth r u ⟨n, hn, hr⟩
      exact ⟨v, v', u', hv, ⟨m + 1, hm, hend⟩, hq⟩
  back r' u' hx' := by
    obtain ⟨n, hn, hr⟩ := hx'
    cases n with
    | zero =>
      rw [hn] at h0'
      exact absurd h0' hr
    | succ n =>
      obtain ⟨v, v', u, hv, ⟨m, hm, hend⟩, hq⟩ := h.back r' u' ⟨n, hn, hr⟩
      exact ⟨v, v', u, hv, ⟨m + 1, hm, hend⟩, hq⟩

theorem Finishes.bind {f : Nat → α → Js S (Stop V) β} {u u₁ : S} {v : α}
    {r : Except (Stop V) β} (hx : ∀ n, Approximates (x n) (x (n + 1)))
    (hf : ∀ v n, Approximates (f n v) (f (n + 1) v)) (h : Finishes x s (.ok v) u)
    (h' : Finishes (fun n => f n v) u r u₁) : Finishes (fun n => x n >>= f n) s r u₁ := by
  obtain ⟨n, hn, hv⟩ := h
  obtain ⟨m, hm, hr⟩ := h'
  have hn' := Approximates.of_le hx (Nat.le_max_left n m) s _ u hn hv
  have hm' := Approximates.of_le (hf v) (Nat.le_max_right n m) u r u₁ hm hr
  exact ⟨max n m, (Js.bind_ok hn').trans hm', hr⟩

theorem Finishes.of_bind {f : Nat → α → Js S (Stop V) β} {u₁ : S} {r : Except (Stop V) β}
    (h : Finishes (fun n => x n >>= f n) s r u₁) :
    ∃ r₁ u, Finishes x s r₁ u ∧ ∀ v, r₁ = .ok v → Finishes (fun n => f n v) u r u₁ := by
  obtain ⟨n, hn, hr⟩ := h
  rcases hx : x n s with ⟨e | v, u⟩
  · simp only [Js.bind_error hx] at hn
    obtain ⟨rfl, rfl⟩ := Prod.mk.inj hn
    exact ⟨.error e, u, ⟨n, hx, hr.of_error⟩, fun v hv => by cases hv⟩
  · simp only [Js.bind_ok hx] at hn
    exact ⟨.ok v, u, ⟨n, hx, ended_ok v⟩, fun v' hv => by cases hv; exact ⟨n, hn, hr⟩⟩

theorem Agree.bind {f f' : Nat → α → Js S (Stop V) β} (hx : ∀ n, Approximates (x n) (x (n + 1)))
    (hx' : ∀ n, Approximates (x' n) (x' (n + 1)))
    (hf : ∀ v n, Approximates (f n v) (f (n + 1) v))
    (hf' : ∀ v n, Approximates (f' n v) (f' (n + 1) v)) (h : Agree Q x' s' x s)
    (hnext : ∀ u' u v' v, Q u' u v' v → Agree R (fun n => f' n v') u' (fun n => f n v) u) :
    Agree R (fun n => x' n >>= f' n) s' (fun n => x n >>= f n) s where
  forth r u₁ hrun := by
    obtain ⟨r₁, u, hfirst, hrest⟩ := hrun.of_bind
    obtain ⟨v, v', u', rfl, hfirst', hq⟩ := h.forth r₁ u hfirst
    obtain ⟨w, w', u₁', rfl, hrest', hR⟩ := (hnext u' u v' v hq).forth r u₁ (hrest v rfl)
    exact ⟨w, w', u₁', rfl, hfirst'.bind hx' hf' hrest', hR⟩
  back r' u₁' hrun' := by
    obtain ⟨r₁', u', hfirst', hrest'⟩ := hrun'.of_bind
    obtain ⟨v, v', u, rfl, hfirst, hq⟩ := h.back r₁' u' hfirst'
    obtain ⟨w, w', u₁, rfl, hrest, hR⟩ := (hnext u' u v' v hq).back r' u₁' (hrest' v' rfl)
    exact ⟨w, w', u₁, rfl, hfirst.bind hx hf hrest, hR⟩

theorem Finishes.attempt {v : α} {u : S} (h : Finishes x s (.ok v) u) :
    Finishes (fun n => Js.attempt (x n)) s (.ok (.ok v)) u := by
  obtain ⟨n, hn, _⟩ := h
  exact ⟨n, attempt_ok hn, ended_ok _⟩

theorem Finishes.of_attempt {r : Except (Stop V) (Except V α)} {u : S}
    (h : Finishes (fun n => Js.attempt (x n)) s r u)
    (hreturns : ∀ r₁ u₁, Finishes x s r₁ u₁ → ∃ v, r₁ = .ok v) :
    ∃ v, r = .ok (.ok v) ∧ Finishes x s (.ok v) u := by
  obtain ⟨n, hn, hr⟩ := h
  rcases hx : x n s with ⟨r₁, u₁⟩
  by_cases hr₁ : Ended r₁
  · obtain ⟨v, rfl⟩ := hreturns r₁ u₁ ⟨n, hx, hr₁⟩
    simp only [attempt_ok hx] at hn
    obtain ⟨rfl, rfl⟩ := Prod.mk.inj hn
    exact ⟨v, rfl, n, hx, hr₁⟩
  · have hstop : r₁ = .error .running := Classical.not_not.mp hr₁
    rw [hstop] at hx
    simp only [attempt_running hx] at hn
    exact absurd (congrArg Prod.fst hn).symm hr

theorem Agree.attempt (h : Agree Q x' s' x s) :
    Agree (fun u' u r' r => ∃ v' v, r' = .ok v' ∧ r = .ok v ∧ Q u' u v' v)
      (fun n => Js.attempt (x' n)) s' (fun n => Js.attempt (x n)) s where
  forth r u hrun := by
    obtain ⟨v, rfl, hx⟩ := hrun.of_attempt fun r₁ u₁ hx => by
      obtain ⟨v, _, _, hr₁, _⟩ := h.forth r₁ u₁ hx
      exact ⟨v, hr₁⟩
    obtain ⟨v₁, v', u', hv, hx', hq⟩ := h.forth _ u hx
    obtain rfl := Except.ok.inj hv
    exact ⟨.ok v, .ok v', u', rfl, hx'.attempt, v', v, rfl, rfl, hq⟩
  back r' u' hrun := by
    obtain ⟨v', rfl, hx'⟩ := hrun.of_attempt fun r₁ u₁ hx' => by
      obtain ⟨_, v', _, hr₁, _⟩ := h.back r₁ u₁ hx'
      exact ⟨v', hr₁⟩
    obtain ⟨v, v₁, u, hv, hx, hq⟩ := h.back _ u' hx'
    obtain rfl := Except.ok.inj hv
    exact ⟨.ok v, .ok v', u, rfl, hx.attempt, v', v, rfl, rfl, hq⟩

end agree

/-- `y` does `x'`, with `k` more fuel, and something before and after it. -/
theorem Agree.wrap {Q Q' : S → S → α → α → Prop} {x x' y : Nat → Js S (Stop V) α} {s s' t' : S}
    (h : Agree Q x' t' x s) (k : Nat) (hfew : ∀ n, n < k → (y n s').1 = .error .running)
    (hrunning : ∀ n u', x' n t' = (.error .running, u') → (y (n + k) s').1 = .error .running)
    (hok : ∀ n v' u' v u, x' n t' = (.ok v', u') → Q u' u v' v →
      ∃ w' t₂, y (n + k) s' = (.ok w', t₂) ∧ Q' t₂ u w' v) : Agree Q' y s' x s where
  forth r u hx := by
    obtain ⟨v, v', u', hr, ⟨n, hn, _⟩, hQ⟩ := h.forth r u hx
    obtain ⟨w', t₂, hy, hQ'⟩ := hok n v' u' v u hn hQ
    exact ⟨v, w', t₂, hr, ⟨n + k, hy, ended_ok w'⟩, hQ'⟩
  back r' u' hy := by
    obtain ⟨m, hm, hr'⟩ := hy
    have hk : k ≤ m := by
      apply Nat.le_of_not_lt
      intro hlt
      have hstop := hfew m hlt
      rw [hm] at hstop
      exact hr' hstop
    obtain ⟨n, rfl⟩ := Nat.exists_eq_add_of_le' hk
    rcases hrun : x' n t' with ⟨r₁, u₁⟩
    by_cases hr₁ : Ended r₁
    · obtain ⟨v, v', u, rfl, hx, hQ⟩ := h.back r₁ u₁ ⟨n, hrun, hr₁⟩
      obtain ⟨w', t₂, hy, hQ'⟩ := hok n v' u₁ v u hrun hQ
      rw [hm] at hy
      obtain ⟨rfl, rfl⟩ := Prod.mk.inj hy
      exact ⟨v, w', u, rfl, hx, hQ'⟩
    · have hstop : r₁ = .error .running := Classical.not_not.mp hr₁
      rw [hstop] at hrun
      have hy := hrunning n u₁ hrun
      rw [hm] at hy
      exact absurd hy hr'

/-! ### What is kept -/

/-- `I` holds between the states before and after. -/
def Keeps {ε : Type} (I : S → S → Prop) (x : Js S ε α) : Prop := ∀ s, I s (x s).2

/-- `I` is a preorder. -/
structure Kept (I : S → S → Prop) : Prop where
  refl : ∀ s, I s s
  trans : ∀ {s s' s''}, I s s' → I s' s'' → I s s''

variable {ε ε' : Type} {I : S → S → Prop}

theorem Kept.same (hI : Kept I) {x : Js S ε α} (h : ∀ s, (x s).2 = s) : Keeps I x := by
  intro s
  rw [h s]
  exact hI.refl s

theorem Kept.bind (hI : Kept I) {x : Js S ε α} {f : α → Js S ε β} (hx : Keeps I x)
    (hf : ∀ a, Keeps I (f a)) : Keeps I (x >>= f) := by
  intro s
  have hxs := hx s
  rcases hrun : x s with ⟨e | a, s₁⟩
  · rw [hrun] at hxs
    rwa [Js.bind_error hrun]
  · rw [hrun] at hxs
    rw [Js.bind_ok hrun]
    exact hI.trans hxs (hf a s₁)

theorem Kept.tryCatch (hI : Kept I) {x : Js S ε α} {handler : ε → Js S ε' α} (hx : Keeps I x)
    (hf : ∀ e, Keeps I (handler e)) : Keeps I (Js.tryCatch x handler) := by
  intro s
  have hxs := hx s
  rcases hrun : x s with ⟨e | a, s₁⟩
  · rw [hrun] at hxs
    rw [Js.tryCatch_error hrun]
    exact hI.trans hxs (hf e s₁)
  · rw [hrun] at hxs
    rwa [Js.tryCatch_ok hrun]

theorem Kept.catchThrown (hI : Kept I) {x : Js S (Stop V) α} {handler : V → Js S (Stop V) α}
    (hx : Keeps I x) (hf : ∀ e, Keeps I (handler e)) : Keeps I (Js.catchThrown x handler) := by
  refine hI.tryCatch hx fun stop => ?_
  cases stop with
  | running | undefined => exact hI.same fun _ => rfl
  | thrown e => exact hf e

theorem Kept.attempt (hI : Kept I) {x : Js S (Stop V) α} (hx : Keeps I x) :
    Keeps I (Js.attempt x) :=
  hI.catchThrown (hI.bind hx fun _ => hI.same fun _ => rfl) fun _ => hI.same fun _ => rfl

theorem Kept.run (hI : Kept I) {C B W R : Type} {call : C → Js S ε B} {get : S → W}
    {put : W → S → S} (hcall : ∀ c, Keeps I (call c)) (hput : ∀ w s, I s (put w s))
    (p : Program C B W R) : Keeps I (p.run call get put) := by
  induction p with
  | done r => exact hI.same fun _ => rfl
  | call c next ih => exact hI.bind (hcall c) ih
  | read next ih => exact hI.bind (hI.same fun _ => rfl) ih
  | write w next ih => exact hI.bind (fun s => hput w s) fun _ => ih

end Js

end NodeFfi.Js
