import Mathlib.Data.List.Nodup
import Mathlib.Logic.Function.Basic

/-!
# Resources and their owners

A ledger says which resources are live and which of them each owner holds. It is sound if owners
hold live resources, each its own, and a live resource that nobody holds is leaked. A step posts an
`Entry`: the resources that it acquires, those that it releases, and what the one owner that it is
about holds afterwards. Valid entries keep a ledger sound (`Posts.sound`). What is leaked stays so,
and to it comes what the owner had, or the step acquired, and is neither released nor kept
(`Posts.leaked_iff`).
-/

namespace NodeFfi.Transition

structure Ledger (O R : Type) where
  live : R → Prop
  held : O → List R

namespace Ledger

variable {O R : Type}

structure Sound (w : Ledger O R) : Prop where
  live : ∀ o, ∀ r ∈ w.held o, w.live r
  nodup : ∀ o, (w.held o).Nodup
  apart : ∀ o o' r, r ∈ w.held o → r ∈ w.held o' → o = o'

/-- The resource is live, and nobody's. -/
def Leaked (w : Ledger O R) (r : R) : Prop := w.live r ∧ ∀ o, r ∉ w.held o

/-- What a step does to a ledger. -/
structure Entry (O R : Type) where
  acquired : List R
  released : List R
  owner : Option O
  /-- What the owner holds afterwards. -/
  keeps : List R

namespace Entry

/-- Nothing happens. -/
def nothing : Entry O R := ⟨[], [], none, []⟩

/-- What a step may release or keep. -/
def available (e : Entry O R) (w : Ledger O R) : List R :=
  ((e.owner.map w.held).getD []) ++ e.acquired

structure Valid (e : Entry O R) (w : Ledger O R) : Prop where
  fresh : ∀ r ∈ e.acquired, ¬ w.live r
  released : ∀ r ∈ e.released, r ∈ e.available w
  kept : ∀ r ∈ e.keeps, r ∈ e.available w ∧ r ∉ e.released
  nodup : e.keeps.Nodup
  owned : e.owner = none → e.keeps = []

/-- The step neither releases nor keeps what it has. -/
def Drops (e : Entry O R) (w : Ledger O R) (r : R) : Prop :=
  r ∈ e.available w ∧ r ∉ e.released ∧ r ∉ e.keeps

end Entry

variable {w w' : Ledger O R} {e : Entry O R}

theorem Entry.valid_nothing : (nothing : Entry O R).Valid w where
  fresh r h := by cases h
  released r h := by cases h
  kept r h := by cases h
  nodup := List.nodup_nil
  owned _ := rfl

theorem Entry.mem_available {r : R} :
    r ∈ e.available w ↔ (∃ o, e.owner = some o ∧ r ∈ w.held o) ∨ r ∈ e.acquired := by
  unfold available
  cases e.owner with
  | none => simp
  | some o => simp

theorem Entry.Valid.not_available (hv : e.Valid w) (h : w.Sound) {o : O} {r : R}
    (ho : e.owner ≠ some o) (hr : r ∈ w.held o) : r ∉ e.available w := by
  intro ha
  rcases mem_available.mp ha with ⟨o', howner, hr'⟩ | hnew
  · exact ho (by rw [howner, h.apart o o' r hr hr'])
  · exact hv.fresh r hnew (h.live o r hr)

theorem Entry.Valid.released_live (hv : e.Valid w) (h : w.Sound) {r : R} (hr : r ∈ e.released) :
    w.live r ∨ r ∈ e.acquired := by
  rcases mem_available.mp (hv.released r hr) with ⟨o, _, ho⟩ | hnew
  · exact .inl (h.live o r ho)
  · exact .inr hnew

variable [DecidableEq O]

/-- The step from one ledger to the other. -/
structure Posts (w : Ledger O R) (e : Entry O R) (w' : Ledger O R) : Prop where
  live : ∀ r, w'.live r ↔ (w.live r ∨ r ∈ e.acquired) ∧ r ∉ e.released
  held : ∀ o, w'.held o = if e.owner = some o then e.keeps else w.held o

theorem Posts.sound (hp : w.Posts e w') (hv : e.Valid w) (h : w.Sound) : w'.Sound where
  live o r hr := by
    rw [hp.held] at hr
    rw [hp.live]
    split at hr
    · obtain ⟨ha, hnot⟩ := hv.kept r hr
      refine ⟨?_, hnot⟩
      rcases Entry.mem_available.mp ha with ⟨o', _, hr'⟩ | hnew
      · exact .inl (h.live o' r hr')
      · exact .inr hnew
    · rename_i ho
      exact ⟨.inl (h.live o r hr), fun hrel => hv.not_available h ho hr (hv.released r hrel)⟩
  nodup o := by
    rw [hp.held]
    split
    · exact hv.nodup
    · exact h.nodup o
  apart o o' r hr hr' := by
    rw [hp.held] at hr hr'
    split at hr
    · split at hr'
      · exact Option.some.inj (‹e.owner = some o›.symm.trans ‹_›)
      · exact absurd (hv.kept r hr).1 (hv.not_available h ‹_› hr')
    · split at hr'
      · exact absurd (hv.kept r hr').1 (hv.not_available h ‹_› hr)
      · exact h.apart o o' r hr hr'

/-- **What is leaked stays so, and what a step drops is.** -/
theorem Posts.leaked_iff (hp : w.Posts e w') (hv : e.Valid w) (h : w.Sound) (r : R) :
    w'.Leaked r ↔ w.Leaked r ∨ e.Drops w r := by
  constructor
  · rintro ⟨hlive, hnone⟩
    obtain ⟨hold, hrel⟩ := (hp.live r).mp hlive
    by_cases ha : r ∈ e.available w
    · refine .inr ⟨ha, hrel, fun hkeep => ?_⟩
      cases howner : e.owner with
      | none =>
        rw [hv.owned howner] at hkeep
        cases hkeep
      | some o => exact hnone o (by rwa [hp.held, if_pos howner])
    · have hnot := fun hr => ha (Entry.mem_available.mpr hr)
      refine .inl ⟨hold.resolve_right fun hnew => hnot (.inr hnew), fun o ho => ?_⟩
      have howner : e.owner ≠ some o := fun howner => hnot (.inl ⟨o, howner, ho⟩)
      exact hnone o (by rwa [hp.held, if_neg howner])
  · rintro (⟨hlive, hnone⟩ | ⟨ha, hrel, hkeep⟩)
    · -- no step has what is nobody's
      have ha : r ∉ e.available w := by
        intro ha
        rcases Entry.mem_available.mp ha with ⟨o, _, ho⟩ | hnew
        · exact hnone o ho
        · exact hv.fresh r hnew hlive
      refine ⟨(hp.live r).mpr ⟨.inl hlive, fun hrel => ha (hv.released r hrel)⟩, fun o ho => ?_⟩
      rw [hp.held] at ho
      split at ho
      · exact ha (hv.kept r ho).1
      · exact hnone o ho
    · refine ⟨(hp.live r).mpr ⟨?_, hrel⟩, fun o ho => ?_⟩
      · rcases Entry.mem_available.mp ha with ⟨o, _, ho⟩ | hnew
        · exact .inl (h.live o r ho)
        · exact .inr hnew
      · rw [hp.held] at ho
        split at ho
        · exact hkeep ho
        · exact hv.not_available h ‹_› ho ha

end Ledger

end NodeFfi.Transition
