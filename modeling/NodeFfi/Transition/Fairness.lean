import Mathlib.Order.WellFounded
import NodeFfi.Transition.Lts

/-!
# Fair executions

An `Execution` is an infinite run in which a tick may also pass without a step, so that the runs
that end are executions too. `Execution.Fair` is weak fairness of a class of actions: if from
some moment on an action of the class is always enabled, one is taken.

`Execution.eventually` is the proof rule for a goal that every fair execution reaches. While the
goal is not reached some class is *helpful*: one of its actions is enabled, taking one lowers a
well-founded rank, and every other step either lowers the rank or keeps both the rank and the
helpful class.
-/

namespace NodeFfi.Transition

variable {S L ι α : Type}

/-- An infinite run, `none` standing for a tick in which nothing happens. -/
structure Execution (A : Lts S L) where
  state : ℕ → S
  label : ℕ → Option L
  idle : ∀ n, label n = none → state (n + 1) = state n
  step : ∀ n l, label n = some l → A.Step (state n) l (state (n + 1))

namespace Execution

variable {A : Lts S L} (e : Execution A)

/-- Some action of the class is enabled. -/
def EnabledIn (A : Lts S L) (act : L → Prop) (s : S) : Prop := ∃ l, act l ∧ A.enabled s l

/-- Weak fairness of a class of actions. -/
def Fair (act : L → Prop) : Prop :=
  ∀ n, (∀ m, n ≤ m → EnabledIn A act (e.state m)) → ∃ m, n ≤ m ∧ ∃ l, e.label m = some l ∧ act l

variable {e}

/-- What a fair execution needs for reaching `goal` from the states of `I`. -/
structure Progress [Preorder α] (A : Lts S L) (act : ι → L → Prop) (I goal : S → Prop)
    (rank : S → α) (helpful : S → ι) : Prop where
  inv : ∀ s l, I s → ¬ goal s → A.enabled s l → I (A.next s l)
  enabled : ∀ s, I s → ¬ goal s → EnabledIn A (act (helpful s)) s
  step : ∀ s l, I s → ¬ goal s → A.enabled s l → goal (A.next s l) ∨ rank (A.next s l) < rank s ∨
    (rank (A.next s l) = rank s ∧ helpful (A.next s l) = helpful s ∧ ¬ act (helpful s) l)

variable [Preorder α] {act : ι → L → Prop} {I goal : S → Prop} {rank : S → α} {helpful : S → ι}

theorem Progress.stay (h : Progress A act I goal rank helpful) {n : ℕ} (hI : I (e.state n))
    (hgoal : ∀ m, n ≤ m → ¬ goal (e.state m))
    (hrank : ∀ m, n ≤ m → ¬ rank (e.state m) < rank (e.state n)) :
    ∀ m, n ≤ m → I (e.state m) ∧ rank (e.state m) = rank (e.state n) ∧
      helpful (e.state m) = helpful (e.state n) ∧
      ∀ l, e.label m = some l → ¬ act (helpful (e.state n)) l := by
  have hlabel : ∀ m, n ≤ m → I (e.state m) → rank (e.state m) = rank (e.state n) →
      helpful (e.state m) = helpful (e.state n) → ∀ l, e.label m = some l →
      I (e.state (m + 1)) ∧ rank (e.state (m + 1)) = rank (e.state n) ∧
        helpful (e.state (m + 1)) = helpful (e.state n) ∧ ¬ act (helpful (e.state n)) l := by
    intro m hm hIm hr hh l hl
    obtain ⟨hen, hnext⟩ := e.step m l hl
    have hg := hgoal m hm
    have hI' := h.inv _ l hIm hg hen
    rw [← hnext] at hI'
    rcases h.step _ l hIm hg hen with hgoal' | hlt | ⟨hr', hh', hact⟩
    · rw [← hnext] at hgoal'
      exact absurd hgoal' (hgoal (m + 1) (by omega))
    · rw [← hnext, hr] at hlt
      exact absurd hlt (hrank (m + 1) (by omega))
    · rw [← hnext] at hr' hh'
      exact ⟨hI', hr'.trans hr, hh'.trans hh, hh ▸ hact⟩
  have hstate : ∀ m, n ≤ m → I (e.state m) ∧ rank (e.state m) = rank (e.state n) ∧
      helpful (e.state m) = helpful (e.state n) := by
    intro m hm
    induction m, hm using Nat.le_induction with
    | base => exact ⟨hI, rfl, rfl⟩
    | succ m hm ih =>
      cases hl : e.label m with
      | none => rw [e.idle m hl]; exact ih
      | some l =>
        obtain ⟨h1, h2, h3, _⟩ := hlabel m hm ih.1 ih.2.1 ih.2.2 l hl
        exact ⟨h1, h2, h3⟩
  intro m hm
  obtain ⟨h1, h2, h3⟩ := hstate m hm
  exact ⟨h1, h2, h3, fun l hl => (hlabel m hm h1 h2 h3 l hl).2.2.2⟩

/-- **The progress rule.** A fair execution reaches the goal from every state of the invariant. -/
theorem eventually [WellFoundedLT α] (h : Progress A act I goal rank helpful)
    (hfair : ∀ i, e.Fair (act i)) {n : ℕ} (hI : I (e.state n)) :
    ∃ m, n ≤ m ∧ goal (e.state m) := by
  induction hr : rank (e.state n) using WellFoundedLT.induction generalizing n with
  | ind r ih =>
    subst hr
    by_contra hnone
    have hgoal : ∀ m, n ≤ m → ¬ goal (e.state m) := fun m hm hg => hnone ⟨m, hm, hg⟩
    have hI' : ∀ m, n ≤ m → I (e.state m) := by
      intro m hm
      induction m, hm using Nat.le_induction with
      | base => exact hI
      | succ m hm ihm =>
        cases hl : e.label m with
        | none => rw [e.idle m hl]; exact ihm
        | some l =>
          obtain ⟨hen, hnext⟩ := e.step m l hl
          rw [hnext]
          exact h.inv _ l ihm (hgoal m hm) hen
    have hrank : ∀ m, n ≤ m → ¬ rank (e.state m) < rank (e.state n) := by
      intro m hm hlt
      obtain ⟨k, hk, hg⟩ := ih _ hlt (hI' m hm) rfl
      exact hgoal k (le_trans hm hk) hg
    have hstay := h.stay hI hgoal hrank
    have hen : ∀ m, n ≤ m → EnabledIn A (act (helpful (e.state n))) (e.state m) := by
      intro m hm
      obtain ⟨hIm, _, hh, _⟩ := hstay m hm
      rw [← hh]
      exact h.enabled _ hIm (hgoal m hm)
    obtain ⟨m, hm, l, hl, hact⟩ := hfair (helpful (e.state n)) n hen
    exact (hstay m hm).2.2.2 l hl hact

end Execution

end NodeFfi.Transition
