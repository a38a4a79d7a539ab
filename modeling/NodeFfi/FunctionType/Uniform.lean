import NodeFfi.FunctionType.Related

/-!
# Functions that do not look at functions

`Alike` are two runs of a program that calls the functions that it is given and hands them on, and
in which everything else is the same. They come to the same (`run_agree`), so a function of the
program whose runs on related arguments are alike is related to itself (`related_of_alike`).
-/

namespace NodeFfi.FunctionType

open Js Js.Js

variable {T A K X W : Type} [Objects X] [DecidableEq A]

/-- What a function of the program does. -/
abbrev Code (T A K X W : Type) :=
  Program (Request T A K X) (Except (Val T A K X) (Val T A K X)) W
    (Except (Val T A K X) (Val T A K X))

variable (env : Env T A K X W) (C : Coupling T A K X W)

/-- Two runs, up to a result of the type. -/
inductive Alike (type : CType T A) :
    State T A K X W → State T A K X W → Code T A K X W → Code T A K X W → Prop
  | done {s' s v' v} : C.rel s' s → Related env C type s' s v' v →
      Alike type s' s (.done (.ok v')) (.done (.ok v))
  | apply {s' s f' f args' args next' next} (F : Function T A) : C.rel s' s →
      Related env C F.type s' s f' f → RelatedAll env C F.argTypes s' s args' args →
      (∀ t' t v' v, s'.Extends t' → s.Extends t → C.rel t' t → Related env C F.retType t' t v' v →
        Alike type t' t (next' (.ok v')) (next (.ok v))) →
      Alike type s' s (.call (.apply f' args') next') (.call (.apply f args) next)
  | read {s' s next' next} : Alike type s' s (next' s'.world) (next s.world) →
      Alike type s' s (.read next') (.read next)
  | write {s' s w' w next' next} : Alike type (s'.putWorld w') (s.putWorld w) next' next →
      Alike type s' s (.write w' next') (.write w next)

/-- What the program does, with fuel. -/
def runCode (code : Code T A K X W) (n : Nat) :
    Script T A K X W (Except (Val T A K X) (Val T A K X)) :=
  code.run (serve env (call env n)) State.getWorld State.putWorld

variable {env C}

theorem runCode_succ (code : Code T A K X W) (n : Nat) :
    Approximates (runCode env code n) (runCode env code (n + 1)) :=
  Approximates.run (serve_approximates env fun f args => call_succ env f args n) code

theorem Related.agree {F : Function T A} {s' s : State T A K X W} {f' f : Val T A K X}
    {args' args : List (Val T A K X)} (h : Related env C F.type s' s f' f) (hrel : C.rel s' s)
    (hargs : RelatedAll env C F.argTypes s' s args' args) :
    Agree (fun u' u v' v => s'.Extends u' ∧ s.Extends u ∧ C.rel u' u ∧
        Related env C F.retType u' u v' v)
      (fun n => call env n f' args') s' (fun n => call env n f args) s := by
  refine ((related_function.mp h).2.2 s' s (.refl s') (.refl s) hrel args' args hargs).mono ?_
  intro u' u v' v hrun' hrun hresult
  exact ⟨finishes_extends env hrun', finishes_extends env hrun, hresult.2, hresult.1⟩

/-- **Runs that are alike come to the same.** -/
theorem run_agree {type : CType T A} {s' s : State T A K X W} {code' code : Code T A K X W}
    (h : Alike env C type s' s code' code) :
    Agree (fun u' u r' r => ∃ v' v, r' = .ok v' ∧ r = .ok v ∧ Related env C type u' u v' v ∧
      C.rel u' u) (runCode env code') s' (runCode env code) s := by
  induction h with
  | done hrel hv => exact Agree.pure ⟨_, _, rfl, rfl, hv, hrel⟩
  | @apply s' s f' f args' args next' next F hrel hf hargs _ ih =>
    have hcall := fun f args n => (call_succ env f args n).attempt
    refine (hf.agree hrel hargs).attempt.bind (hcall f args) (hcall f' args')
      (fun r n => runCode_succ (next r) n) (fun r n => runCode_succ (next' r) n) ?_
    rintro u' u _ _ ⟨v', v, rfl, rfl, hu', hu, hrel', hv⟩
    exact ih u' u v' v hu' hu hrel' hv
  | read _ ih => exact ih.congr (fun _ => rfl) fun _ => rfl
  | write _ ih => exact ih.congr (fun _ => rfl) fun _ => rfl

/-- **Functions of the program whose runs are alike are the same.** -/
theorem related_of_alike {F : Function T A} {k' k : K} {s' s : State T A K X W}
    (h : ∀ t' t, s'.Extends t' → s.Extends t → C.rel t' t → ∀ args' args,
      RelatedAll env C F.argTypes t' t args' args →
      Alike env C F.retType t' t (env.code k' args') (env.code k args)) :
    Related env C F.type s' s (.object (.other (.function k')))
      (.object (.other (.function k))) := by
  refine related_function.mpr ⟨rfl, rfl, ?_⟩
  intro t' t ht' ht hrel args' args hargs
  refine Agree.of_succ rfl rfl ?_
  refine (run_agree (h t' t ht' ht hrel args' args hargs)).bind (runCode_succ _) (runCode_succ _)
    (fun _ _ => .refl _) (fun _ _ => .refl _) ?_
  rintro u' u _ _ ⟨v', v, rfl, rfl, hv, hrel'⟩
  exact Agree.pure ⟨hv, hrel'⟩

end NodeFfi.FunctionType
