import NodeFfi.Unix64.Call
import NodeFfi.Unix64.Classification

/-!
# Where the arguments are

`examine_argument` counts the registers that the classes of a type ask for
(`examineArgument_argument`, `examineArgument_result`). From the counts of the arguments before
follows where an argument is: `Counts.view`, with no regard to who looks. The three loops of
`ffi64.c` move through the same `Counts`, as `Transport` shows.
-/

namespace NodeFfi.Unix64

open Libffi Layout Bytes

/-! ### Kinds of classes -/

def RegClass.isGpr (c : RegClass) : Bool := c = .integer ∨ c = .integersi

def RegClass.isSse (c : RegClass) : Bool := c = .sse ∨ c = .ssesf ∨ c = .ssedf

def RegClass.isX87 (c : RegClass) : Bool := c = .x87 ∨ c = .x87up ∨ c = .complexX87

/-- The registers that classes ask for. -/
def gprs (cs : List RegClass) : Nat := cs.countP RegClass.isGpr

def sses (cs : List RegClass) : Nat := cs.countP RegClass.isSse

theorem gprs_cons (front rest : List RegClass) (d : RegClass) :
    gprs (front ++ d :: rest) = gprs front + gprs rest + if d.isGpr then 1 else 0 := by
  unfold gprs
  rw [List.countP_append, List.countP_cons, Nat.add_assoc]

theorem sses_cons (front rest : List RegClass) (d : RegClass) :
    sses (front ++ d :: rest) = sses front + sses rest + if d.isSse then 1 else 0 := by
  unfold sses
  rw [List.countP_append, List.countP_cons, Nat.add_assoc]

theorem classOf_ne_memory {t : FfiType} (h : Laid t) {o : Nat} {c : RegClass}
    (hc : c ∈ classOf t o) : c ≠ .memory := by
  have hne : classOf t o ≠ [] := List.ne_nil_of_mem hc
  cases h with
  | base h =>
    obtain ⟨k, h⟩ := isScalar_of_mem h
    cases h with
    | integer hcase _ _ =>
      rw [classOf_integer hcase, List.mem_singleton] at hc
      rw [hc]
      split <;> exact RegClass.noConfusion
    | float =>
      rw [classOf_float, List.mem_singleton] at hc
      rw [hc]
      split <;> exact RegClass.noConfusion
    | double =>
      rw [classOf_double, List.mem_singleton] at hc
      rw [hc]
      exact RegClass.noConfusion
    | longdouble =>
      rw [classOf_longdouble] at hc
      revert c
      decide
  | @struct size alignment elements _ _ _ _ =>
    rw [classOf_struct] at hc hne
    cases hacc : fieldClasses elements o fun _ => .no with
    | none =>
      rw [hacc] at hne
      exact absurd rfl hne
    | some acc =>
      rw [hacc] at hne hc
      obtain ⟨-, heq, hmem⟩ := wordClasses_ne_nil hne
      change c ∈ wordClasses _ acc at hc
      rw [heq, List.mem_map] at hc
      obtain ⟨i, hi, rfl⟩ := hc
      exact (hmem i (List.mem_range.mp hi)).1

theorem countClasses_eq {out : Classes} {cs : List RegClass}
    (hout : ∀ i < cs.length, out i = cs.getD i .no) (hlen : cs.length ≤ 2)
    (hmem : ∀ c ∈ cs, c ≠ .memory) : countClasses out cs.length =
      some (if cs.any RegClass.isX87 then .x87 else .counted (gprs cs) (sses cs)) := by
  have h0 : out.get 0 = some (out 0) := get_eq (by decide)
  have h1 : out.get 1 = some (out 1) := get_eq (by decide)
  match cs, hlen with
  | [], _ => rfl
  | [c], _ =>
    have hc : out 0 = c := hout 0 Nat.one_pos
    have hne := hmem c List.mem_cons_self
    simp only [countClasses, List.length_singleton, List.range_one, List.foldlM_cons,
      List.foldlM_nil, h0, hc, Option.bind_eq_bind, Option.bind_some]
    cases c <;> first | rfl | exact absurd rfl hne
  | [c, d], _ =>
    have hc : out 0 = c := hout 0 Nat.two_pos
    have hd : out 1 = d := hout 1 Nat.one_lt_two
    have hnec := hmem c List.mem_cons_self
    have hned := hmem d (List.mem_cons_of_mem _ List.mem_cons_self)
    simp only [countClasses, List.length_cons, List.length_nil,
      show List.range (0 + 1 + 1) = [0, 1] from rfl, List.foldlM_cons, List.foldlM_nil, h0, h1, hc,
      hd, Option.bind_eq_bind, Option.bind_some]
    cases c <;> first
      | exact absurd rfl hnec
      | (cases d <;> first | rfl | exact absurd rfl hned)

theorem aligned_zero (t : FfiType) : Aligned t 0 := ⟨Nat.dvd_zero _, by omega⟩

theorem examineArgument_eq (frames : Frames) (path : List Nat) {t : FfiType} (h : Laid t)
    (classes : Classes) (inReturn : Bool) :
    ∃ out : Classes, (∀ i < (classOf t 0).length, out i = (classOf t 0).getD i .no) ∧
      examineArgument frames path t classes inReturn =
        some (if classOf t 0 = [] then ⟨0, out, none⟩
          else if (classOf t 0).any RegClass.isX87 then ⟨if inReturn then 1 else 0, out, none⟩
          else ⟨(classOf t 0).length, out, some (gprs (classOf t 0), sses (classOf t 0))⟩) := by
  obtain ⟨out, hrun, hout⟩ := classifyArgument_of_laid h (aligned_zero t) (fun h => by omega)
    frames path classes 0 rfl
  refine ⟨out, hout, ?_⟩
  unfold examineArgument
  rw [hrun]
  simp only [Option.bind_eq_bind, Option.bind_some]
  by_cases hnil : classOf t 0 = []
  · rw [if_pos hnil, if_pos (by rw [hnil]; rfl)]
    rfl
  · rw [if_neg hnil, if_neg (List.length_eq_zero_iff.not.mpr hnil),
      countClasses_eq hout (classOf_length h hnil).2 fun c hc => classOf_ne_memory h hc]
    cases (classOf t 0).any RegClass.isX87 with
    | true => rfl
    | false => rfl

/-! ### Arguments -/

/-- The classes of the words of an argument, none for one that is passed in memory. -/
def argClasses (t : FfiType) : List RegClass :=
  if (classOf t 0).any RegClass.isX87 then [] else classOf t 0

theorem argClasses_ne_nil {t : FfiType} (h : argClasses t ≠ []) :
    argClasses t = classOf t 0 ∧ ∀ c ∈ argClasses t, c.isX87 = false := by
  unfold argClasses at h ⊢
  split at h
  · exact absurd rfl h
  · rename_i hany
    rw [if_neg hany]
    refine ⟨rfl, ?_⟩
    intro c hc
    cases hx : c.isX87 with
    | true => exact absurd (List.any_eq_true.mpr ⟨c, hc, hx⟩) hany
    | false => rfl

theorem argClasses_length {t : FfiType} (h : Laid t) (hne : argClasses t ≠ []) :
    (argClasses t).length = (t.size.toNat + 7) / 8 ∧ (argClasses t).length ≤ 2 := by
  have heq := (argClasses_ne_nil hne).1
  rw [heq] at hne ⊢
  exact classOf_length h hne

theorem argClasses_kind {t : FfiType} (h : Laid t) {c : RegClass} (hc : c ∈ argClasses t)
    (hno : c ≠ .no) : c.isGpr = true ∧ c.isSse = false ∧ c.sseClassP = false ∨
      c.isGpr = false ∧ c.isSse = true ∧ c.sseClassP = true := by
  obtain ⟨heq, hx⟩ := argClasses_ne_nil (List.ne_nil_of_mem hc)
  have hx := hx c hc
  rw [heq] at hc
  have hmem := classOf_ne_memory h hc
  have hsseup : c ≠ .sseup := by
    obtain ⟨i, hi, rfl⟩ := List.getElem_of_mem hc
    have hkind := ((sound_classOf h (aligned_zero t) (List.ne_nil_of_mem hc)).kinds i).1
    rw [List.getD_eq_getElem _ _ hi] at hkind
    exact hkind
  revert hx hmem hsseup hno
  cases c <;> decide

theorem examineArgument_argument (frames : Frames) (path : List Nat) {t : FfiType} (h : Laid t)
    (classes : Classes) : ∃ e : Examined,
      examineArgument frames path t classes false = some e ∧ e.n = (argClasses t).length ∧
      (∀ i < (argClasses t).length, e.classes i = (argClasses t).getD i .no) ∧
      (argClasses t ≠ [] → e.counts = some (gprs (argClasses t), sses (argClasses t))) := by
  obtain ⟨out, hout, hrun⟩ := examineArgument_eq frames path h classes false
  refine ⟨_, hrun, ?_⟩
  unfold argClasses
  by_cases hnil : classOf t 0 = []
  · simp [hnil]
  · rw [if_neg hnil]
    cases hany : (classOf t 0).any RegClass.isX87 with
    | true => simp
    | false => exact ⟨rfl, hout, fun _ => rfl⟩

/-! ### Positions -/

/-- How far the registers and the stack are used up. -/
structure Counts where
  gpr : Nat
  sse : Nat
  argp : Nat
  deriving DecidableEq, Repr

namespace Counts

/-- The argument is passed in memory. -/
def InMemory (c : Counts) (t : FfiType) : Prop :=
  argClasses t = [] ∨ c.gpr + gprs (argClasses t) > maxGprRegs ∨
    c.sse + sses (argClasses t) > maxSseRegs

instance (c : Counts) (t : FfiType) : Decidable (c.InMemory t) := by
  unfold InMemory
  infer_instance

/-- Where on the stack the argument is, if it is there. -/
def stackAddress (c : Counts) (t : FfiType) : Nat := roundUp c.argp (stackAlign t)

/-- After the argument. -/
def next (c : Counts) (t : FfiType) : Counts :=
  if c.InMemory t then ⟨c.gpr, c.sse, c.stackAddress t + t.size.toNat⟩
  else ⟨c.gpr + gprs (argClasses t), c.sse + sses (argClasses t), c.argp⟩

def after (c : Counts) (ts : List FfiType) : Counts := ts.foldl next c

/-- Where in `register_args` the byte `k` of an argument with the classes `cs` is. -/
def registerOffset (c : Counts) (cs : List RegClass) (k : Nat) : Nat :=
  if (cs.getD (k / 8) .no).sseClassP then sseOffset (c.sse + sses (cs.take (k / 8))) + k % 8
  else gprOffset (c.gpr + gprs (cs.take (k / 8))) + k % 8

/-- The bytes of the argument, as they are found in the registers and on the stack. -/
def view (c : Counts) (t : FfiType) (registers memory : Area) : Area := fun k =>
  if c.InMemory t then memory (c.stackAddress t + k)
  else registers (c.registerOffset (argClasses t) k)

end Counts

theorem passedInMemory_eq {e : Examined} {t : FfiType} (hn : e.n = (argClasses t).length)
    (hcounts : argClasses t ≠ [] → e.counts = some (gprs (argClasses t), sses (argClasses t)))
    (c : Counts) : passedInMemory e c.gpr c.sse = some (decide (c.InMemory t)) := by
  unfold passedInMemory Counts.InMemory
  by_cases hnil : argClasses t = []
  · have hn : e.n = 0 := by
      rw [hn, hnil]
      rfl
    simp [hn, hnil]
  · have hne : e.n ≠ 0 := by
      rw [hn]
      exact List.length_eq_zero_iff.not.mpr hnil
    rw [if_neg hne, hcounts hnil]
    simp [hnil]

end NodeFfi.Unix64
