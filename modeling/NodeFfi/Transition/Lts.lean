import Mathlib.Data.List.Induction

/-!
# Labelled transition systems with executable runs

A system is a set of guarded actions: `enabled s l` says when action `l` may be taken in state
`s` and `next s l` is the state after it. `run s ls` takes the actions of `ls` one after the
other and fails at the first one that is not enabled, so a concrete schedule can be evaluated.

* `run_append`, `run_snoc`: a run is the composition of its parts;
* `run_induction`: what every step preserves, of the labels taken so far and the state reached,
  holds at the end of every run;
* `run_forall_iff`: a property that the good labels preserve, and no others;
* `restrict`: the runs all of whose steps meet a condition on the state before the step;
* `Simulates`: a map of states and labels that carries the runs of one system to runs of
  another.
-/

namespace NodeFfi.Transition

/-- A system of guarded actions. -/
structure Lts (S L : Type) where
  enabled : S → L → Prop
  dec : ∀ s l, Decidable (enabled s l)
  next : S → L → S

namespace Lts

variable {S L S' L' : Type}

instance (A : Lts S L) (s : S) (l : L) : Decidable (A.enabled s l) := A.dec s l

/-- One step: the action is enabled and leads to the state. -/
def Step (A : Lts S L) (s : S) (l : L) (t : S) : Prop := A.enabled s l ∧ t = A.next s l

/-- Take the actions in order, failing at the first that is not enabled. -/
def run (A : Lts S L) (s : S) : List L → Option S
  | [] => some s
  | l :: ls => if A.enabled s l then run A (A.next s l) ls else none

variable {A : Lts S L} {B : Lts S' L'}

@[simp] theorem run_nil (s : S) : A.run s [] = some s := rfl

theorem run_cons (s : S) (l : L) (ls : List L) (t : S) :
    A.run s (l :: ls) = some t ↔ A.enabled s l ∧ A.run (A.next s l) ls = some t := by
  by_cases h : A.enabled s l <;> simp [run, h]

theorem run_append (s : S) (ls ls' : List L) (t : S) :
    A.run s (ls ++ ls') = some t ↔ ∃ u, A.run s ls = some u ∧ A.run u ls' = some t := by
  induction ls generalizing s with
  | nil => simp
  | cons l ls ih =>
    simp only [List.cons_append, run_cons, ih]
    constructor
    · rintro ⟨h, u, hu, ht⟩
      exact ⟨u, ⟨h, hu⟩, ht⟩
    · rintro ⟨u, ⟨h, hu⟩, ht⟩
      exact ⟨h, u, hu, ht⟩

theorem run_singleton (s : S) (l : L) (t : S) : A.run s [l] = some t ↔ A.Step s l t := by
  rw [run_cons, run_nil, Option.some.injEq, Step, eq_comm]

theorem run_snoc (s : S) (ls : List L) (l : L) (t : S) :
    A.run s (ls ++ [l]) = some t ↔ ∃ u, A.run s ls = some u ∧ A.Step u l t := by
  simp only [run_append, run_singleton]

theorem run_split {s : S} {pre post : List L} {l : L} {t : S}
    (h : A.run s (pre ++ l :: post) = some t) :
    ∃ u, A.run s pre = some u ∧ A.enabled u l ∧ A.run (A.next u l) post = some t := by
  obtain ⟨u, hu, ht⟩ := (run_append s pre (l :: post) t).mp h
  exact ⟨u, hu, (run_cons u l post t).mp ht⟩

theorem run_induction {s : S} (P : List L → S → Prop) (hinit : P [] s)
    (hstep : ∀ ls u l, A.run s ls = some u → P ls u → A.enabled u l → P (ls ++ [l]) (A.next u l)) :
    ∀ {ls : List L} {t : S}, A.run s ls = some t → P ls t := by
  intro ls
  induction ls using List.reverseRecOn with
  | nil =>
    intro t h
    obtain rfl : s = t := by simpa using h
    exact hinit
  | append_singleton ls l ih =>
    intro t h
    obtain ⟨u, hu, hl, rfl⟩ := (run_snoc s ls l t).mp h
    exact hstep ls u l hu (ih hu) hl

/-- A property that the good labels preserve, and no others, holds at every state that a run passes
through exactly when all labels of the run are good. `I` is an invariant. -/
theorem run_forall_iff {s : S} {I P : S → Prop} {good : L → Prop} (hI : I s) (hP : P s)
    (hnext : ∀ u l, I u → A.enabled u l → I (A.next u l))
    (hgood : ∀ u l, I u → P u → A.enabled u l → (P (A.next u l) ↔ good l))
    {ls : List L} {t : S} (h : A.run s ls = some t) :
    (∀ pre u, pre <+: ls → A.run s pre = some u → P u) ↔ ∀ l ∈ ls, good l := by
  refine (run_induction (fun ls u => I u ∧
    ((∀ pre v, pre <+: ls → A.run s pre = some v → P v) ↔ ∀ l ∈ ls, good l)) ⟨hI, ?_⟩ ?_ h).2
  · refine ⟨fun _ l hl => absurd hl List.not_mem_nil, fun _ pre v hpre hv => ?_⟩
    obtain rfl := List.prefix_nil.mp hpre
    obtain rfl : s = v := by simpa using hv
    exact hP
  · rintro ls u l hu ⟨hIu, ih⟩ hl
    have hrun : A.run s (ls ++ [l]) = some (A.next u l) := (run_snoc s ls l _).mpr ⟨u, hu, hl, rfl⟩
    refine ⟨hnext u l hIu hl, fun hall => ?_, fun hall => ?_⟩
    · have hpre : ∀ pre v, pre <+: ls → A.run s pre = some v → P v := fun pre v hpre =>
        hall pre v (hpre.trans (List.prefix_append ls [l]))
      have hPu : P u := hpre ls u (List.prefix_refl ls) hu
      have hlast : P (A.next u l) := hall (ls ++ [l]) _ (List.prefix_refl _) hrun
      intro l' hl'
      rcases List.mem_append.mp hl' with hl' | hl'
      · exact ih.mp hpre l' hl'
      · obtain rfl := List.mem_singleton.mp hl'
        exact (hgood u l' hIu hPu hl).mp hlast
    · have hpre := ih.mpr fun l' hl' => hall l' (List.mem_append_left _ hl')
      intro pre v hv hrunv
      rcases List.prefix_concat_iff.mp hv with rfl | hv
      · obtain rfl : A.next u l = v := Option.some.inj (hrun.symm.trans hrunv)
        exact (hgood u l hIu (hpre ls u (List.prefix_refl ls) hu) hl).mpr
          (hall l (List.mem_append_right _ (List.mem_singleton_self l)))
      · exact hpre pre v hv hrunv

/-! ### Restricting the steps -/

/-- The system whose steps also meet `G`, a condition on the state before the step. -/
def restrict (A : Lts S L) (G : S → L → Prop) [∀ s l, Decidable (G s l)] : Lts S L where
  enabled s l := A.enabled s l ∧ G s l
  dec _ _ := inferInstance
  next := A.next

section restrict

variable {G H : S → L → Prop} [∀ s l, Decidable (G s l)] [∀ s l, Decidable (H s l)]

@[simp] theorem restrict_enabled (s : S) (l : L) :
    (A.restrict G).enabled s l ↔ A.enabled s l ∧ G s l := Iff.rfl

@[simp] theorem restrict_next (s : S) (l : L) : (A.restrict G).next s l = A.next s l := rfl

theorem run_restrict_mono (hGH : ∀ s l, G s l → H s l) {s t : S} {ls : List L}
    (h : (A.restrict G).run s ls = some t) : (A.restrict H).run s ls = some t := by
  induction ls generalizing s with
  | nil => exact h
  | cons l ls ih =>
    rw [run_cons] at h ⊢
    exact ⟨⟨h.1.1, hGH s l h.1.2⟩, ih h.2⟩

theorem run_of_restrict {s t : S} {ls : List L} (h : (A.restrict G).run s ls = some t) :
    A.run s ls = some t := by
  induction ls generalizing s with
  | nil => exact h
  | cons l ls ih =>
    rw [run_cons] at h ⊢
    exact ⟨h.1.1, ih h.2⟩

end restrict

/-! ### Simulation -/

/-- `abs` maps the states of `A` to those of `B` and `obs` each label of `A` to the labels of `B`
it stands for: under the invariant `I`, each step of `A` is matched by `B`. -/
structure Simulates (A : Lts S L) (B : Lts S' L') (I : S → Prop) (abs : S → S')
    (obs : L → List L') : Prop where
  step : ∀ s l, I s → A.enabled s l → B.run (abs s) (obs l) = some (abs (A.next s l))

theorem Simulates.run {I : S → Prop} {abs : S → S'} {obs : L → List L'}
    (h : Simulates A B I abs obs) {s : S} (hinit : I s)
    (hinv : ∀ u l, I u → A.enabled u l → I (A.next u l)) {ls : List L} {t : S}
    (hrun : A.run s ls = some t) : B.run (abs s) (ls.flatMap obs) = some (abs t) := by
  have key : I t ∧ B.run (abs s) (ls.flatMap obs) = some (abs t) := by
    refine run_induction (fun ls u => I u ∧ B.run (abs s) (ls.flatMap obs) = some (abs u))
      ⟨hinit, rfl⟩ (fun ls u l _ hu hl => ⟨hinv u l hu.1 hl, ?_⟩) hrun
    rw [List.flatMap_append, run_append]
    exact ⟨abs u, hu.2, by simpa using h.step u l hu.1 hl⟩
  exact key.2

end Lts

end NodeFfi.Transition
