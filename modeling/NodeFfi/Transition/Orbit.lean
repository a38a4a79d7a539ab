import Mathlib.Data.Set.Finite.Basic
import Mathlib.Tactic.Choose

/-!
# Following a partial function

`follow f n x` applies `f` to `x` again and again, `n` times, as long as it is defined. Where the
values of `f` are among finitely many, this comes to an end or goes round in a circle
(`ends_iff_no_cycle`).
-/

namespace NodeFfi.Transition

variable {α : Type} {f : α → Option α}

/-- The value after `n` applications. -/
def follow (f : α → Option α) : Nat → α → Option α
  | 0, x => some x
  | n + 1, x => (f x).bind (follow f n)

theorem follow_succ_of_some {x y : α} (h : f x = some y) (n : Nat) :
    follow f (n + 1) x = follow f n y := by
  rw [follow, h, Option.bind_some]

theorem follow_add (k n : Nat) (x : α) :
    follow f (k + n) x = (follow f k x).bind (follow f n) := by
  induction k generalizing x with
  | zero => rw [Nat.zero_add, follow, Option.bind_some]
  | succ k ih =>
    rw [Nat.succ_add, follow, follow]
    cases f x with
    | none => rfl
    | some y => exact ih y

theorem follow_add_of_some {k : Nat} {x y : α} (h : follow f k x = some y) (n : Nat) :
    follow f (k + n) x = follow f n y := by
  rw [follow_add, h, Option.bind_some]

theorem follow_snoc {k : Nat} {x y : α} (h : follow f k x = some y) :
    follow f (k + 1) x = f y := by
  rw [follow_add_of_some h]
  show (f y).bind (follow f 0) = f y
  cases f y <;> rfl

theorem follow_none_of_le {n k : Nat} {x : α} (h : follow f n x = none) (hle : n ≤ k) :
    follow f k x = none := by
  obtain ⟨m, rfl⟩ := Nat.exists_eq_add_of_le hle
  rw [follow_add, h]
  rfl

theorem exists_follow_of_le {i k : Nat} {x y : α} (h : follow f k x = some y) (hle : i ≤ k) :
    ∃ z, follow f i x = some z := by
  refine Option.ne_none_iff_exists'.mp fun hnone => ?_
  rw [follow_none_of_le hnone hle] at h
  cases h

theorem follow_of_agree {g : α → Option α} {x : α}
    (hg : ∀ i y z, follow f i x = some y → f y = some z → g y = some z) {k : Nat} {y : α}
    (h : follow f k x = some y) : follow g k x = some y := by
  induction k generalizing y with
  | zero => exact h
  | succ k ih =>
    obtain ⟨z, hz⟩ := exists_follow_of_le h (Nat.le_succ k)
    rw [follow_snoc (ih hz)]
    exact hg k z y hz ((follow_snoc hz).symm.trans h)

theorem le_of_follow_end {k n : Nat} {x y z : α} (hk : follow f k x = some y) (hend : f y = none)
    (hn : follow f n x = some z) : n ≤ k := by
  by_contra hlt
  have hnone := follow_none_of_le ((follow_snoc hk).trans hend) (Nat.lt_of_not_le hlt)
  rw [hn] at hnone
  cases hnone

theorem follow_end_unique {k n : Nat} {x y z : α} (hk : follow f k x = some y) (hend : f y = none)
    (hn : follow f n x = some z) (hend' : f z = none) : n = k ∧ z = y := by
  obtain rfl : n = k := Nat.le_antisymm (le_of_follow_end hk hend hn) (le_of_follow_end hn hend' hk)
  exact ⟨rfl, Option.some.inj (hn.symm.trans hk)⟩

theorem follow_cycle {m : Nat} {y : α} (h : follow f m y = some y) (j : Nat) :
    follow f (m * j) y = some y := by
  induction j with
  | zero => rfl
  | succ j ih => rw [Nat.mul_succ, follow_add_of_some ih, h]

theorem exists_cycle_of_endless {values : List α} (hvalues : ∀ x y, f x = some y → y ∈ values)
    {x : α} (hendless : ∀ n, follow f n x ≠ none) :
    ∃ k m y, follow f k x = some y ∧ 0 < m ∧ follow f m y = some y := by
  choose g hg using fun n => Option.ne_none_iff_exists'.mp (hendless n)
  have hmem : ∀ n, g (n + 1) ∈ values := fun n =>
    hvalues (g n) _ ((follow_snoc (hg n)).symm.trans (hg (n + 1)))
  have hfinite : (Set.range fun n => g (n + 1)).Finite :=
    (List.finite_toSet values).subset (Set.range_subset_iff.mpr hmem)
  obtain ⟨i, j, hne, hgeq⟩ : ∃ i j, i ≠ j ∧ g (i + 1) = g (j + 1) := by
    by_contra hall
    refine Set.infinite_range_of_injective (fun i j heq => ?_) hfinite
    by_contra hne
    exact hall ⟨i, j, hne, heq⟩
  rcases Nat.lt_or_gt_of_ne hne with hlt | hlt
  · refine ⟨i + 1, j - i, g (i + 1), hg _, by omega, ?_⟩
    rw [← follow_add_of_some (hg (i + 1)), hgeq, ← hg (j + 1)]
    congr 1
    omega
  · refine ⟨j + 1, i - j, g (j + 1), hg _, by omega, ?_⟩
    rw [← follow_add_of_some (hg (j + 1)), ← hgeq, ← hg (i + 1)]
    congr 1
    omega

/-- **An end or a circle.** -/
theorem ends_iff_no_cycle {values : List α} (hvalues : ∀ x y, f x = some y → y ∈ values) (x : α) :
    (∃ n, follow f n x = none) ↔
      ¬ ∃ k m y, follow f k x = some y ∧ 0 < m ∧ follow f m y = some y := by
  constructor
  · rintro ⟨n, hn⟩ ⟨k, m, y, hk, hm, hcycle⟩
    have hle : n ≤ k + m * n := (Nat.le_mul_of_pos_left n hm).trans (Nat.le_add_left _ k)
    have hend := follow_none_of_le hn hle
    rw [follow_add_of_some hk, follow_cycle hcycle] at hend
    cases hend
  · intro hno
    by_contra hendless
    exact hno (exists_cycle_of_endless hvalues fun n hn => hendless ⟨n, hn⟩)

end NodeFfi.Transition
