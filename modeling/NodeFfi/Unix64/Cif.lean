import NodeFfi.Unix64.Arguments
import NodeFfi.Unix64.Return

/-!
# The `cif` for x86-64

What `ffi_prep_cif_machdep` stores: `bytes` is enough for the stack arguments, and the flags say
how the result comes back and, in bit 11, whether SSE registers are used
(`ffiPrepCifMachdep_spec`). `ffi_closure_unix64_inner` finds the same about the result
(`innerReturn_spec`).
-/

namespace NodeFfi.Unix64

open Libffi Layout Bytes

variable (frames : Frames)

/-! ### The result -/

/-- The general purpose registers that the result takes before the arguments. -/
def resultGprs : Option FfiType → Nat
  | none => 0
  | some t => if classOf t 0 = [] then 1 else 0

/-- The flags for a result, with bit 11. -/
def resultFlags (rtype : Option FfiType) (carry : Bool) : BitVec 32 :=
  match rtype with
  | none => if carry then 0 ||| 0x800 else 0
  | some t =>
    if classOf t 0 = [] then if carry then 0 ||| 0x800 else 0
    else if code t = ffiTypeStruct then
      structFlags (resultSse0 t) (resultSse1 t) carry t.size
    else scalarFlags t carry

/-- What the assembly code gets to know about a result. -/
def resultRet : Option FfiType → BitVec 32
  | none => 0
  | some t =>
    if classOf t 0 = [] then 0
    else if code t = ffiTypeStruct then structRet t
    else (code t).setWidth 32

section result

variable {t : FfiType}

theorem result_memory (carry : Bool) (h : classOf t 0 = []) :
    resultGprs (some t) = 1 ∧ resultFlags (some t) carry = (if carry then 0 ||| 0x800 else 0) ∧
    resultRet (some t) = 0 := ⟨if_pos h, if_pos h, if_pos h⟩

theorem result_registers (h : classOf t 0 ≠ []) : resultGprs (some t) = 0 := if_neg h

theorem result_struct (carry : Bool) (h : classOf t 0 ≠ []) (hcode : code t = ffiTypeStruct) :
    resultFlags (some t) carry = structFlags (resultSse0 t) (resultSse1 t) carry t.size ∧
      resultRet (some t) = structRet t :=
  ⟨(if_neg h).trans (if_pos hcode), (if_neg h).trans (if_pos hcode)⟩

theorem result_scalar (carry : Bool) (h : classOf t 0 ≠ []) (hcode : code t ≠ ffiTypeStruct) :
    resultFlags (some t) carry = scalarFlags t carry ∧
      resultRet (some t) = (code t).setWidth 32 :=
  ⟨(if_neg h).trans (if_neg hcode), (if_neg h).trans (if_neg hcode)⟩

end result

theorem resultFlags_carry (rtype : Option FfiType) (carry : Bool) :
    resultFlags rtype carry =
      if carry then resultFlags rtype false ||| 0x800 else resultFlags rtype false := by
  cases carry with
  | false => rfl
  | true =>
    cases rtype with
    | none => rfl
    | some t =>
      unfold resultFlags
      simp only
      split
      · rfl
      · split
        · rfl
        · rfl

theorem base_facts {t : FfiType} (h : t ∈ baseTypes) :
    classOf t 0 ≠ [] ∧ code t ≠ ffiTypeStruct ∧
      ∀ carry, scalarFlags t carry &&& 0xff ≠ 0 ∧ testBit (scalarFlags t carry) 0x800 = carry := by
  simp only [baseTypes, List.mem_cons, List.not_mem_nil, or_false] at h
  rcases h with rfl | rfl | rfl | rfl | rfl | rfl | rfl | rfl | rfl | rfl | rfl | rfl
  all_goals
    refine ⟨?_, by decide, ?_⟩
    · rw [classOf]
      exact List.cons_ne_nil _ _
    · decide

theorem resultWords_ne_zero {t : FfiType} (h : classOf t 0 ≠ []) : resultWords t ≠ 0 := by
  unfold resultWords
  split
  · exact Nat.one_ne_zero
  · exact List.length_eq_zero_iff.not.mpr h

theorem examineArgument_result (path : List Nat) {t : FfiType} (h : Laid t) (classes : Classes) :
    ∃ e : Examined, examineArgument frames path t classes true = some e ∧
      e.n = (if classOf t 0 = [] then 0 else resultWords t) ∧
      ∀ i < (classOf t 0).length, e.classes i = (classOf t 0).getD i .no := by
  obtain ⟨out, hout, hrun⟩ := examineArgument_eq frames path h classes true
  refine ⟨_, hrun, ?_⟩
  unfold resultWords
  by_cases hnil : classOf t 0 = []
  · rw [if_pos hnil, if_pos hnil]
    exact ⟨rfl, hout⟩
  · rw [if_neg hnil, if_neg hnil]
    cases (classOf t 0).any RegClass.isX87 with
    | true => exact ⟨rfl, hout⟩
    | false => exact ⟨rfl, hout⟩

theorem result_classes {t : FfiType} (hne : classOf t 0 ≠ []) {e : Examined}
    (hn : e.n = resultWords t)
    (hclasses : ∀ i < (classOf t 0).length, e.classes i = (classOf t 0).getD i .no) :
    (e.classes 0).sseClassP = resultSse0 t ∧
      (e.n = 2 → (e.classes 1).sseClassP = resultSse1 t) ∧ (e.n ≠ 2 → resultSse1 t = false) := by
  have hpos : 0 < (classOf t 0).length := List.length_pos_iff.mpr hne
  refine ⟨?_, ?_, ?_⟩
  · rw [hclasses 0 hpos]
    rfl
  · intro h2
    have hlen : 1 < (classOf t 0).length := by
      unfold resultWords at hn
      split at hn <;> omega
    unfold resultSse1
    rw [hclasses 1 hlen, decide_eq_true (hn ▸ h2), Bool.true_and]
  · intro h2
    unfold resultSse1
    rw [decide_eq_false (hn ▸ h2), Bool.false_and]

theorem prepReturn_spec (path : List Nat) {rtype : Option FfiType} (h : ∀ t ∈ rtype, Laid t)
    (classes : Classes) :
    prepReturn frames path rtype classes = some (resultGprs rtype, resultFlags rtype false) := by
  cases rtype with
  | none => rfl
  | some t =>
    have ht := h t rfl
    obtain ⟨e, hrun, hn, hclasses⟩ := examineArgument_result frames path ht classes
    cases ht with
    | base hbase =>
      obtain ⟨hne, hcode, -⟩ := base_facts hbase
      rw [if_neg hne] at hn
      rw [result_registers hne, (result_scalar false hne hcode).1]
      obtain ⟨size, alignment, type, elements⟩ := t
      change type ≠ ffiTypeStruct at hcode
      have hn0 : e.n ≠ 0 := hn ▸ resultWords_ne_zero hne
      unfold prepReturn
      simp only [hrun, Option.bind_eq_bind, Option.bind_some, if_neg hn0, if_neg hcode]
      rfl
    | @struct size alignment elements _ _ _ _ =>
      by_cases hne : classOf ⟨size, alignment, ffiTypeStruct, some elements⟩ 0 = []
      · rw [if_pos hne] at hn
        obtain ⟨hgprs, hflags, -⟩ := result_memory false hne
        rw [hgprs, hflags]
        unfold prepReturn
        simp only [hrun, Option.bind_eq_bind, Option.bind_some, if_pos hn]
        rfl
      · rw [if_neg hne] at hn
        rw [result_registers hne, (result_struct false hne rfl).1]
        have hn0 : e.n ≠ 0 := hn ▸ resultWords_ne_zero hne
        obtain ⟨h0, h1, h1'⟩ := result_classes hne hn hclasses
        have hget0 : e.classes.get 0 = some (e.classes 0) := get_eq (by decide)
        have hget1 : e.classes.get 1 = some (e.classes 1) := get_eq (by decide)
        unfold prepReturn
        simp only [hrun, Option.bind_eq_bind, Option.bind_some, if_neg hn0, hget0, hget1, if_true]
        by_cases h2 : e.n = 2
        · rw [if_pos h2, h0, h1 h2]
          rfl
        · rw [if_neg h2, h0, h1' h2]
          rfl

theorem innerReturn_spec (path : List Nat) {rtype : Option FfiType} (h : ∀ t ∈ rtype, Laid t)
    (classes : Classes) (regArgs : Area) :
    innerReturn frames path rtype classes regArgs = some (resultGprs rtype,
      if resultGprs rtype = 1 then .address (addressOf (regArgs.at_ (gprOffset 0))) else .frame,
      resultRet rtype) := by
  cases rtype with
  | none => rfl
  | some t =>
    have ht := h t rfl
    obtain ⟨e, hrun, hn, hclasses⟩ := examineArgument_result frames path ht classes
    cases ht with
    | base hbase =>
      obtain ⟨hne, hcode, -⟩ := base_facts hbase
      rw [if_neg hne] at hn
      rw [result_registers hne, (result_scalar false hne hcode).2]
      obtain ⟨size, alignment, type, elements⟩ := t
      change type ≠ ffiTypeStruct at hcode
      have hn0 : e.n ≠ 0 := hn ▸ resultWords_ne_zero hne
      unfold innerReturn
      simp only [hrun, Option.bind_eq_bind, Option.bind_some, if_neg hn0, hcode, false_and]
      rfl
    | @struct size alignment elements _ _ _ _ =>
      by_cases hne : classOf ⟨size, alignment, ffiTypeStruct, some elements⟩ 0 = []
      · rw [if_pos hne] at hn
        obtain ⟨hgprs, -, hret⟩ := result_memory false hne
        rw [hgprs, hret]
        unfold innerReturn
        simp only [hrun, Option.bind_eq_bind, Option.bind_some, if_pos hn]
        rfl
      · rw [if_neg hne] at hn
        rw [result_registers hne, (result_struct false hne rfl).2]
        have hn0 : e.n ≠ 0 := hn ▸ resultWords_ne_zero hne
        obtain ⟨h0, h1, h1'⟩ := result_classes hne hn hclasses
        have hget0 : e.classes.get 0 = some (e.classes 0) := get_eq (by decide)
        have hget1 : e.classes.get 1 = some (e.classes 1) := get_eq (by decide)
        unfold innerReturn structRet
        rw [← hn]
        simp only [hrun, Option.bind_eq_bind, Option.bind_some, if_neg hn0, hget0, hget1, true_and]
        by_cases h2 : e.n = 2
        · rw [if_pos h2, if_pos h2, h0, h1 h2]
          rfl
        · rw [if_neg h2, if_neg h2]
          rfl

/-! ### The arguments -/

theorem prepArguments_spec {ts : List FfiType} {c : Counts} (hlaid : ∀ t ∈ ts, Laid t)
    (hwrap : (c.after ts).argp < 2 ^ 64) (i : Nat) (classes : Classes) :
    prepArguments frames i ts classes c.gpr c.sse c.argp =
      some ((c.after ts).gpr, (c.after ts).sse, (c.after ts).argp) := by
  induction ts generalizing c i classes with
  | nil => rfl
  | cons t ts ih =>
    have ht := hlaid t List.mem_cons_self
    obtain ⟨e, hrun, hn, hclasses, hcounts⟩ := examineArgument_argument frames [i] ht classes
    have hpassed := passedInMemory_eq hn hcounts c
    have hle := Counts.le_after (c.next t) ts
    change ((c.next t).after ts).argp < 2 ^ 64 at hwrap
    have hrest := ih (fun t ht => hlaid t (List.mem_cons_of_mem _ ht)) hwrap (i + 1) e.classes
    change _ = some (((c.next t).after ts).gpr, ((c.next t).after ts).sse,
      ((c.next t).after ts).argp)
    rw [← hrest, prepArguments, hrun]
    simp only [Option.bind_eq_bind, Option.bind_some, hpassed, decide_eq_true_eq]
    by_cases hmem : c.InMemory t
    · have hnext : c.next t = ⟨c.gpr, c.sse, c.stackAddress t + t.size.toNat⟩ := if_pos hmem
      rw [hnext] at hle ⊢
      simp only at hle
      have haddr : alignUp c.argp (stackAlign t) = c.stackAddress t :=
        alignUp_eq (isAlignment_stackAlign ht) (show c.stackAddress t < 2 ^ 64 by
          rw [hnext] at hwrap
          omega)
      rw [if_pos hmem, haddr]
    · have hnext : c.next t = ⟨c.gpr + gprs (argClasses t), c.sse + sses (argClasses t), c.argp⟩ :=
        if_neg hmem
      rw [if_neg hmem, hcounts fun hnil => hmem (.inl hnil), hnext]
      rfl

/-- Where the arguments start, `argp` being the end of `register_args`. -/
def Counts.start (rtype : Option FfiType) (argp : Nat) : Counts := ⟨resultGprs rtype, 0, argp⟩

theorem Counts.after_add {ts : List FfiType} (hlaid : ∀ t ∈ ts, Laid t) {base : Nat}
    (hbase : 16 ∣ base) (c : Counts) :
    Counts.after ⟨c.gpr, c.sse, base + c.argp⟩ ts =
      ⟨(c.after ts).gpr, (c.after ts).sse, base + (c.after ts).argp⟩ := by
  induction ts generalizing c with
  | nil => rfl
  | cons t ts ih =>
    have hround : roundUp (base + c.argp) (stackAlign t) = base + roundUp c.argp (stackAlign t) :=
      roundUp_add _ ((isAlignment_stackAlign (hlaid t List.mem_cons_self)).dvd_sixteen.trans hbase)
    have hnext : Counts.next ⟨c.gpr, c.sse, base + c.argp⟩ t =
        ⟨(c.next t).gpr, (c.next t).sse, base + (c.next t).argp⟩ := by
      unfold Counts.next Counts.stackAddress
      by_cases hmem : c.InMemory t
      · have hmem' : Counts.InMemory ⟨c.gpr, c.sse, base + c.argp⟩ t := hmem
        rw [if_pos hmem, if_pos hmem', hround, Nat.add_assoc]
      · have hmem' : ¬Counts.InMemory ⟨c.gpr, c.sse, base + c.argp⟩ t := hmem
        rw [if_neg hmem, if_neg hmem']
    show Counts.after (Counts.next _ t) ts = _
    rw [hnext]
    exact ih (fun t ht => hlaid t (List.mem_cons_of_mem _ ht)) (c.next t)

theorem passable_iff {ts : List FfiType} {c c' : Counts} (hgpr : c.gpr = c'.gpr)
    (hsse : c.sse = c'.sse) : Passable c ts ↔ Passable c' ts := by
  induction ts generalizing c c' with
  | nil => exact Iff.rfl
  | cons t ts ih =>
    have hmem : c.InMemory t ↔ c'.InMemory t := by
      unfold Counts.InMemory
      rw [hgpr, hsse]
    unfold Passable
    refine and_congr (or_congr hmem Iff.rfl) (ih ?_ ?_)
    · unfold Counts.next
      by_cases h : c.InMemory t
      · rw [if_pos h, if_pos (hmem.mp h)]
        exact hgpr
      · rw [if_neg h, if_neg (hmem.not.mp h)]
        simp only [hgpr]
    · unfold Counts.next
      by_cases h : c.InMemory t
      · rw [if_pos h, if_pos (hmem.mp h)]
        exact hsse
      · rw [if_neg h, if_neg (hmem.not.mp h)]
        simp only [hsse]

theorem passable_start {rtype : Option FfiType} {ts : List FfiType} (argp argp' : Nat) :
    Passable (Counts.start rtype argp) ts ↔ Passable (Counts.start rtype argp') ts :=
  passable_iff rfl rfl

/-- The bytes of the stack arguments. -/
def stackBytes (rtype : Option FfiType) (ts : List FfiType) : Nat :=
  ((Counts.start rtype 0).after ts).argp

/-- **What `ffi_prep_cif_machdep` stores.** -/
theorem ffiPrepCifMachdep_spec {rtype : Option FfiType} {ts : List FfiType}
    (hrtype : ∀ t ∈ rtype, Laid t) (hlaid : ∀ t ∈ ts, Laid t)
    (hbytes : stackBytes rtype ts < 2 ^ 32 - 8) (classes : Classes) :
    ∃ cif, ffiPrepCifMachdep frames rtype ts classes = some cif ∧ cif.rtype = rtype ∧
      cif.argTypes = ts ∧
      cif.flags = resultFlags rtype (decide (((Counts.start rtype 0).after ts).sse ≠ 0)) ∧
      stackBytes rtype ts ≤ cif.bytes.toNat ∧ cif.bytes.toNat < stackBytes rtype ts + 8 := by
  have height : IsAlignment 8 := ⟨3, by omega, rfl⟩
  have hround := le_roundUp (n := stackBytes rtype ts) height.pos
  have hroundlt : roundUp (stackBytes rtype ts) 8 < stackBytes rtype ts + 8 := by
    unfold roundUp
    omega
  have halign : alignUp (stackBytes rtype ts) 8 = roundUp (stackBytes rtype ts) 8 :=
    alignUp_eq height (by omega)
  have hargs := prepArguments_spec frames (c := Counts.start rtype 0) hlaid
    (show stackBytes rtype ts < 2 ^ 64 by omega) 0 classes
  refine ⟨⟨rtype, ts, BitVec.ofNat 32 (alignUp (stackBytes rtype ts) 8), _⟩, ?_, rfl, rfl, rfl, ?_⟩
  · unfold ffiPrepCifMachdep
    rw [prepReturn_spec frames _ hrtype]
    change prepArguments frames 0 ts classes (resultGprs rtype) 0 0 = _ at hargs
    simp only [Option.bind_eq_bind, Option.bind_some, hargs, Option.pure_def, Option.some.injEq,
      Cif.mk.injEq, true_and]
    refine ⟨rfl, ?_⟩
    by_cases hsse : ((Counts.start rtype 0).after ts).sse = 0
    · rw [if_pos hsse, decide_eq_false (not_not.mpr hsse)]
      rfl
    · rw [if_neg hsse, decide_eq_true hsse]
      exact (resultFlags_carry rtype true).symm
  · have hto : (BitVec.ofNat 32 (alignUp (stackBytes rtype ts) 8)).toNat =
        roundUp (stackBytes rtype ts) 8 := by
      rw [BitVec.toNat_ofNat, halign]
      omega
    simp only [hto]
    exact ⟨hround, hroundlt⟩

end NodeFfi.Unix64
