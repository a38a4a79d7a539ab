import NodeFfi.Transition.Lts

/-!
# The error of the last failure

What POSIX says about `dlerror`: it reports the most recent failure of the other functions, and
nothing if there was none since it was last called. `posix` is the system of all runs in which it
does; `run_error` says it of a run as a whole.
-/

namespace NodeFfi.Dlfcn

open Transition

/-- How a call of one of the functions ends. -/
inductive Outcome (Handle Err : Type) where
  | opened (handle : Handle)
  | openFailed (e : Err)
  | closed (handle : Handle)
  | closeFailed (e : Err)
  | found
  | notFound (e : Err)
  | error (report : Option Err)
  deriving DecidableEq, Repr

namespace Outcome

variable {Handle Err : Type}

/-- The failure that there is something to report about. -/
def failure : Outcome Handle Err → Option Err
  | .openFailed e | .closeFailed e | .notFound e => some e
  | .opened _ | .closed _ | .found | .error _ => none

def isError : Outcome Handle Err → Bool
  | .error _ => true
  | .opened _ | .openFailed _ | .closed _ | .closeFailed _ | .found | .notFound _ => false

/-- The call leaves what there is to report. -/
def Quiet (o : Outcome Handle Err) : Prop := o.failure = none ∧ o.isError = false

theorem quiet_or (o : Outcome Handle Err) :
    o.Quiet ∨ (∃ e, o.failure = some e) ∨ ∃ report, o = .error report := by
  cases o
  case error report => exact .inr (.inr ⟨report, rfl⟩)
  case openFailed e => exact .inr (.inl ⟨e, rfl⟩)
  case closeFailed e => exact .inr (.inl ⟨e, rfl⟩)
  case notFound e => exact .inr (.inl ⟨e, rfl⟩)
  all_goals exact .inl ⟨rfl, rfl⟩

end Outcome

variable {Handle Err : Type} [DecidableEq Err]

/-- The state is what there is to report. -/
def posix : Lts (Option Err) (Outcome Handle Err) where
  enabled pending o :=
    match o with
    | .error report => report = pending
    | _ => True
  dec pending o := by
    cases o
    case error report => exact inferInstanceAs (Decidable (report = pending))
    all_goals exact .isTrue trivial
  next pending o := if o.isError then none else o.failure.or pending

theorem next_quiet {pending : Option Err} {o : Outcome Handle Err} (h : o.Quiet) :
    posix.next pending o = pending := by
  unfold posix
  simp only [h.1, h.2, Bool.false_eq_true, if_false, Option.none_or]

theorem next_failure {pending : Option Err} {o : Outcome Handle Err} {e : Err}
    (h : o.failure = some e) : posix.next pending o = some e := by
  cases o <;> first | cases h; rfl | cases h

theorem step_quiet {o : Outcome Handle Err} (h : o.Quiet) (pending : Option Err) :
    posix.Step pending o pending := by
  refine ⟨?_, (next_quiet h).symm⟩
  cases o
  case error report => cases h.2
  all_goals trivial

theorem step_failure {o : Outcome Handle Err} {e : Err} (h : o.failure = some e)
    (pending : Option Err) : posix.Step pending o (some e) := by
  refine ⟨?_, (next_failure h).symm⟩
  cases o
  case error report => cases h
  all_goals trivial

theorem step_error (pending : Option Err) :
    posix.Step pending (.error pending : Outcome Handle Err) none := ⟨rfl, rfl⟩

theorem run_pending {os : List (Outcome Handle Err)} {pending : Option Err}
    (h : posix.run none os = some pending) (e : Err) :
    pending = some e ↔ ∃ pre o post, os = pre ++ o :: post ∧ o.failure = some e ∧
      ∀ o' ∈ post, o'.Quiet := by
  revert e
  refine Lts.run_induction (fun os pending => ∀ e, pending = some e ↔ ∃ pre o post,
    os = pre ++ o :: post ∧ o.failure = some e ∧ ∀ o' ∈ post, o'.Quiet) ?_ ?_ h
  · intro e
    refine iff_of_false (fun h => nomatch h) ?_
    rintro ⟨pre, o, post, hnil, -⟩
    cases pre <;> cases hnil
  · intro os pending o _ ih _ e
    constructor
    · intro hnext
      rcases o.quiet_or with hquiet | ⟨e', hfailure⟩ | ⟨report, rfl⟩
      · rw [next_quiet hquiet] at hnext
        obtain ⟨pre, o', post, rfl, hfailure, hpost⟩ := (ih e).mp hnext
        refine ⟨pre, o', post ++ [o], by simp, hfailure, ?_⟩
        intro o'' ho''
        rcases List.mem_append.mp ho'' with ho'' | ho''
        · exact hpost o'' ho''
        · rw [List.mem_singleton.mp ho'']
          exact hquiet
      · rw [next_failure hfailure] at hnext
        obtain rfl := Option.some.inj hnext
        exact ⟨os, o, [], rfl, hfailure, fun _ h => nomatch h⟩
      · cases hnext
    · rintro ⟨pre, o', post, heq, hfailure, hpost⟩
      -- the last outcome of the run is the failure, or quiet
      rcases List.eq_nil_or_concat post with rfl | ⟨post, o'', rfl⟩
      · obtain ⟨-, hlast⟩ := List.append_inj' heq rfl
        obtain rfl := List.head_eq_of_cons_eq hlast
        exact next_failure hfailure
      · rw [List.concat_eq_append] at heq hpost
        have heq' : os ++ [o] = (pre ++ o' :: post) ++ [o''] := by
          rw [heq]
          simp
        obtain ⟨rfl, hlast⟩ := List.append_inj' heq' rfl
        obtain rfl := List.head_eq_of_cons_eq hlast
        rw [next_quiet (hpost o (by simp))]
        exact (ih e).mpr ⟨pre, o', post, rfl, hfailure, fun o'' ho'' => hpost o'' (by simp [ho''])⟩

/-- **What `dlerror` reports in a run.** -/
theorem run_error {os : List (Outcome Handle Err)} {report : Option Err} {pending : Option Err}
    (h : posix.run none (os ++ [.error report]) = some pending) (e : Err) :
    report = some e ↔ ∃ pre o post, os = pre ++ o :: post ∧ o.failure = some e ∧
      ∀ o' ∈ post, o'.Quiet := by
  obtain ⟨u, hu, henabled, -⟩ := (Lts.run_snoc none os _ pending).mp h
  obtain rfl : report = u := henabled
  exact run_pending hu e

end NodeFfi.Dlfcn
