import Mathlib.Logic.Relation

/-!
# Waits-for graphs

Agents that want mutexes, and mutexes that an agent may hold. The graph has an edge from an agent
to each mutex it wants and from a mutex to the agent that holds it; a deadlock is a cycle. There is
none if every agent ranks above the agents that it waits for (`acyclic_of_rank`).
-/

namespace NodeFfi.Transition

open Relation

/-- Who wants and who holds what. -/
structure Locks (A M : Type) where
  wants : A → M → Prop
  holder : M → Option A

namespace Locks

variable {A M : Type} (w : Locks A M)

/-- The edges of the waits-for graph. -/
inductive Edge : A ⊕ M → A ⊕ M → Prop
  | wants {a m} : w.wants a m → Edge (.inl a) (.inr m)
  | held {a m} : w.holder m = some a → Edge (.inr m) (.inl a)

/-- There is no cycle. -/
def Acyclic : Prop := ∀ n, ¬ TransGen w.Edge n n

variable {w}

/-- A mutex comes between its holder and those that may want it. -/
def nodeRank (w : Locks A M) (rank : A → Nat) : A ⊕ M → Nat
  | .inl a => 2 * rank a + 2
  | .inr m => ((w.holder m).map fun a => 2 * rank a + 3).getD 1

theorem edge_rank {rank : A → Nat}
    (h : ∀ a m b, w.wants a m → w.holder m = some b → rank b < rank a) {n n' : A ⊕ M}
    (he : w.Edge n n') : w.nodeRank rank n' < w.nodeRank rank n := by
  cases he with
  | @wants a m hw =>
    cases hm : w.holder m with
    | none => simp [nodeRank, hm]
    | some b =>
      have := h a m b hw hm
      simp only [nodeRank, hm, Option.map_some, Option.getD_some]
      omega
  | held hm => simp [nodeRank, hm]

/-- **If whoever waits ranks above the one it waits for**, no waiting goes in a circle. -/
theorem acyclic_of_rank (rank : A → Nat)
    (h : ∀ a m b, w.wants a m → w.holder m = some b → rank b < rank a) : w.Acyclic := by
  have hpath : ∀ n n', TransGen w.Edge n n' → w.nodeRank rank n' < w.nodeRank rank n := by
    intro n n' hp
    induction hp with
    | single he => exact edge_rank h he
    | tail _ he ih => exact Nat.lt_trans (edge_rank h he) ih
  exact fun n hn => Nat.lt_irrefl _ (hpath n n hn)

theorem Acyclic.not_held (h : w.Acyclic) {a : A} {m : M} (hw : w.wants a m) :
    w.holder m ≠ some a :=
  fun hm => h _ (.tail (.single (.wants hw)) (.held hm))

theorem not_acyclic_of_pair {a b : A} {m m' : M} (ha : w.wants a m) (hm : w.holder m = some b)
    (hb : w.wants b m') (hm' : w.holder m' = some a) : ¬ w.Acyclic :=
  fun h => h (.inl a)
    (((TransGen.single (.wants ha)).tail (.held hm)).tail (.wants hb) |>.tail (.held hm'))

end Locks

end NodeFfi.Transition
