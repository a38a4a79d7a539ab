import NodeFfi.FunctionType.Model

/-!
# What calls leave as it is

More fuel does not change what a call comes to (`call_succ`), and a callback that has been made is
there for good (`call_extends`).
-/

namespace NodeFfi.FunctionType

open Js Js.Js Blocks
open Marshal (RefType Kind settingArgument settingReturnValue fit)

variable {T A K X W : Type}

/-! ### States -/

/-- The callbacks of `s` are still there. -/
structure State.Extends (s s' : State T A K X W) : Prop where
  next : s.memory.next ≤ s'.memory.next
  closures : ∀ b, b < s.memory.next → s'.closures b = s.closures b

theorem State.Extends.refl (s : State T A K X W) : s.Extends s := ⟨Nat.le_refl _, fun _ _ => rfl⟩

theorem State.Extends.trans {s s' s'' : State T A K X W} (h : s.Extends s') (h' : s'.Extends s'') :
    s.Extends s'' where
  next := Nat.le_trans h.next h'.next
  closures b hb := (h'.closures b (Nat.lt_of_lt_of_le hb h.next)).trans (h.closures b hb)

theorem kept_extends : Kept (State.Extends : State T A K X W → State T A K X W → Prop) :=
  ⟨.refl, .trans⟩

/-- The library has made callbacks. -/
structure State.Aside (s s' : State T A K X W) : Prop where
  closures : s.Extends s'
  pending : s'.pending = s.pending
  world : s'.world = s.world

theorem State.Aside.refl (s : State T A K X W) : s.Aside s := ⟨.refl s, rfl, rfl⟩

theorem State.Aside.trans {s s' s'' : State T A K X W} (h : s.Aside s') (h' : s'.Aside s'') :
    s.Aside s'' where
  closures := h.closures.trans h'.closures
  pending := h'.pending.trans h.pending
  world := h'.world.trans h.world

theorem putWorld_extends (w : W) (s : State T A K X W) : s.Extends (State.putWorld w s) :=
  ⟨Nat.le_refl _, fun _ _ => rfl⟩

theorem pointerTo_function [Objects X] (env : Env T A K X W) (F : Function T A) {f : Val T A K X}
    (hf : isFunction f = true) (s : State T A K X W) :
    ∃ s₁ : State T A K X W, F.pointerTo env f s = (.ok (.block s.memory.next), s₁) ∧ s.Aside s₁ ∧
      s.memory.next < s₁.memory.next ∧ s₁.closures s.memory.next = some ⟨F, f⟩ ∧
      s₁.memory = (s.memory.alloc closureSize).2 := by
  refine ⟨{ s with
      memory := (s.memory.alloc closureSize).2
      closures := Function.update s.closures s.memory.next (some ⟨F, f⟩) },
    ?_, ⟨⟨?_, ?_⟩, rfl, rfl⟩, Nat.lt_succ_self _, Function.update_self _ _ _, rfl⟩
  · unfold Function.pointerTo Function.toPointer Callback
    rw [if_pos hf, if_pos hf]
    rfl
  · exact Nat.le_succ _
  · intro b hb
    exact Function.update_of_ne (Nat.ne_of_lt hb) _ _

theorem resume_keeps {α : Type} (r : Except (Val T A K X) α) :
    Keeps State.Extends (Js.resume r : Script T A K X W α) := by
  cases r <;> exact kept_extends.same fun _ => rfl

theorem write_next (m : Memory) (p : Ptr) (offset : Nat) (bytes : List Byte) :
    (m.write p offset bytes).next = m.next := by
  unfold Memory.write
  split
  · split <;> rfl
  · rfl

theorem read_next (m : Memory) (p : Ptr) (offset length : Nat) :
    (m.read p offset length).2.next = m.next := by
  unfold Memory.read
  split
  · split <;> rfl
  · rfl

theorem get_extends (F : Function T A) (buffer : Ptr) (offset : Nat) :
    Keeps State.Extends (F.get buffer offset : Script T A K X W (Val T A K X)) := by
  refine kept_extends.bind (fun s => ⟨?_, fun _ _ => rfl⟩) fun _ => kept_extends.same fun _ => rfl
  exact Nat.le_of_eq (read_next s.memory buffer offset _).symm

theorem takePending_extends : Keeps State.Extends (takePending : Script T A K X W Unit) := by
  intro s
  unfold takePending
  cases s.pending with
  | none => exact .refl s
  | some e => exact ⟨Nat.le_refl _, fun _ _ => rfl⟩

theorem report_extends (e : Val T A K X) :
    Keeps State.Extends (report e : Script T A K X W Unit) := by
  intro s
  cases e <;> exact ⟨Nat.le_refl _, fun _ _ => rfl⟩

section calls

variable [Objects X] (env : Env T A K X W)

/-! ### Fuel -/

theorem proxy_approximates {invoke invoke' : NativeCall A → Script T A K X W (List Byte)}
    (h : ∀ c, Approximates (invoke c) (invoke' c)) (funcPtr : Ptr) (F : Function T A)
    (args : List (Val T A K X)) :
    Approximates (proxy env invoke funcPtr F args) (proxy env invoke' funcPtr F args) := by
  unfold proxy
  by_cases hlen : args.length ≠ F.argTypes.length
  · rw [if_pos hlen, if_pos hlen]
    exact .refl _
  · rw [if_neg hlen, if_neg hlen]
    exact (Approximates.refl _).bind fun _ => (h _).bind fun _ => .refl _

theorem callbackInfo_invoke_approximates
    {call call' : Val T A K X → List (Val T A K X) → Script T A K X W (Val T A K X)}
    (h : ∀ f args, Approximates (call f args) (call' f args)) (info : CallbackInfo T A K X)
    (arguments : List (List Byte)) :
    Approximates (info.invoke env call arguments) (info.invoke env call' arguments) := by
  unfold CallbackInfo.invoke
  refine Approximates.bind (Approximates.attempt ?_) fun _ => .refl _
  exact (Approximates.refl _).bind fun _ => (h _ _).bind fun _ => .refl _

theorem serve_approximates
    {call call' : Val T A K X → List (Val T A K X) → Script T A K X W (Val T A K X)}
    (h : ∀ f args, Approximates (call f args) (call' f args)) (request : Request T A K X) :
    Approximates (serve env call request) (serve env call' request) := by
  cases request with
  | apply f args => exact (h f args).attempt
  | set _ _ _ _ | get _ _ _ => exact .refl _

/-! ### Callbacks -/

theorem callback_extends (type : Function T A) (func : Val T A K X) :
    Keeps State.Extends (Callback type func : Script T A K X W Ptr) := by
  unfold Callback
  split
  · intro s
    refine ⟨Nat.le_succ _, fun b hb => ?_⟩
    exact Function.update_of_ne (Nat.ne_of_lt hb) _ _
  · exact kept_extends.same fun _ => rfl

theorem pointerTo_extends (F : Function T A) (value : Val T A K X) :
    Keeps State.Extends (F.pointerTo env value : Script T A K X W Ptr) := by
  unfold Function.pointerTo
  split
  · exact callback_extends F value
  · split
    · exact kept_extends.same fun _ => rfl
    · exact kept_extends.bind (resume_keeps _) fun _ => kept_extends.same fun _ => rfl

theorem set_extends (F : Function T A) (buffer : Ptr) (offset : Nat) (value : Val T A K X) :
    Keeps State.Extends (F.set env buffer offset value : Script T A K X W Unit) := by
  refine kept_extends.bind (pointerTo_extends env F value) fun ptr s => ⟨?_, fun _ _ => rfl⟩
  exact Nat.le_of_eq (write_next s.memory buffer offset _).symm

theorem encode_extends (type : CType T A) (value : Val T A K X) :
    Keeps State.Extends (type.encode env value : Script T A K X W (List Byte)) := by
  cases type with
  | ref type => exact resume_keeps _
  | function retType argTypes abi =>
    exact kept_extends.bind (pointerTo_extends env _ value) fun _ => kept_extends.same fun _ => rfl

theorem setArguments_extends (types : List (CType T A)) (i : Nat) (vals : List (Val T A K X)) :
    Keeps State.Extends (setArguments env i types vals : Script T A K X W (List (List Byte))) := by
  induction types generalizing i vals with
  | nil => exact kept_extends.same fun _ => rfl
  | cons type types ih =>
    cases vals with
    | nil => exact kept_extends.same fun _ => rfl
    | cons val vals =>
      refine kept_extends.bind (kept_extends.catchThrown (encode_extends env type val) fun _ =>
        kept_extends.same fun _ => rfl) fun _ => ?_
      exact kept_extends.bind (ih (i + 1) vals) fun _ => kept_extends.same fun _ => rfl

/-! ### Calls -/

variable [DecidableEq A]

theorem succ_approximates (n : Nat) :
    (∀ f args, Approximates (call env n f args) (call env (n + 1) f args)) ∧
      ∀ c, Approximates (invoke env n c) (invoke env (n + 1) c) := by
  induction n with
  | zero => exact ⟨fun _ _ => approximates_running _, fun _ => approximates_running _⟩
  | succ n ih =>
    constructor
    · intro f args
      unfold call
      split
      · exact (Approximates.run (serve_approximates env ih.1) _).bind fun _ => .refl _
      · exact proxy_approximates env ih.2 _ _ _
      · exact .refl _
    · intro c
      unfold invoke
      split
      · exact Approximates.run ih.2 _
      · refine (Approximates.refl _).bind fun closure => ?_
        cases closure with
        | none => exact .refl _
        | some info =>
          simp only
          split
          · exact callbackInfo_invoke_approximates env ih.1 info c.arguments
          · exact .refl _

theorem call_succ (f : Val T A K X) (args : List (Val T A K X)) (n : Nat) :
    Approximates (call env n f args) (call env (n + 1) f args) :=
  (succ_approximates env n).1 f args

theorem extends_all (n : Nat) :
    (∀ f args, Keeps State.Extends (call env n f args)) ∧
      ∀ c, Keeps State.Extends (invoke env n c) := by
  have hsame : ∀ {α : Type} (a : α), Keeps State.Extends (pure a : Script T A K X W α) :=
    fun _ => kept_extends.same fun _ => rfl
  induction n with
  | zero =>
    exact ⟨fun _ _ => kept_extends.same fun _ => rfl, fun _ => kept_extends.same fun _ => rfl⟩
  | succ n ih =>
    constructor
    · intro f args
      unfold call
      split
      · refine kept_extends.bind (kept_extends.run (fun request => ?_) putWorld_extends _)
          fun _ => resume_keeps _
        cases request with
        | apply f args => exact kept_extends.attempt (ih.1 f args)
        | set F buffer offset value =>
          exact kept_extends.attempt
            (kept_extends.bind (set_extends env F buffer offset value) fun _ => hsame _)
        | get F buffer offset => exact kept_extends.attempt (get_extends F buffer offset)
      · unfold proxy
        split
        · exact kept_extends.same fun _ => rfl
        · refine kept_extends.bind (setArguments_extends env _ _ _) fun _ => ?_
          refine kept_extends.bind (ih.2 _) fun _ => ?_
          exact kept_extends.bind takePending_extends fun _ => resume_keeps _
      · exact kept_extends.same fun _ => rfl
    · intro c
      unfold invoke
      split
      · exact kept_extends.run ih.2 putWorld_extends _
      · refine kept_extends.bind (kept_extends.same fun _ => rfl) fun closure => ?_
        cases closure with
        | none => exact kept_extends.same fun _ => rfl
        | some info =>
          simp only
          split
          · unfold CallbackInfo.invoke
            refine kept_extends.bind (kept_extends.attempt ?_) fun returned => ?_
            · refine kept_extends.bind (resume_keeps _) fun _ => ?_
              refine kept_extends.bind (ih.1 _ _) fun _ => ?_
              exact kept_extends.catchThrown (encode_extends env _ _) fun _ =>
                kept_extends.same fun _ => rfl
            · cases returned with
              | ok bytes => exact hsame _
              | error e => exact kept_extends.bind (report_extends e) fun _ => hsame _
          · exact kept_extends.same fun _ => rfl

/-- **No call takes a callback away.** -/
theorem call_extends (n : Nat) (f : Val T A K X) (args : List (Val T A K X))
    (s : State T A K X W) : s.Extends (call env n f args s).2 :=
  (extends_all env n).1 f args s

theorem finishes_extends {f : Val T A K X} {args : List (Val T A K X)}
    {s u : State T A K X W} {r : Except (Stop (Val T A K X)) (Val T A K X)}
    (h : Finishes (fun n => call env n f args) s r u) : s.Extends u := by
  obtain ⟨n, hn, _⟩ := h
  have hkept := call_extends env n f args s
  have hrun : call env n f args s = (r, u) := hn
  rwa [hrun] at hkept

end calls

end NodeFfi.FunctionType
