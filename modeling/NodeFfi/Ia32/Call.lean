import NodeFfi.Ia32.Model

/-!
# What goes into registers

`ffi_call` puts the first arguments that fit into a register in front of the others, which keep their
order (`moveRegisterArguments_spec`). So a function that is called as `thiscall` or `fastcall` finds
them in `ecx` and `edx`, and the others on the stack (`ffiCallWin32_conforms`).
-/

namespace NodeFfi.Ia32

open Bytes Layout Libffi

/-! ### What is passed -/

/-- The codes of the scalars that `types.c` defines, without `void`, each with its size. -/
def scalars : List (BitVec 16 × Nat) :=
  [(5, 1), (6, 1), (7, 2), (8, 2), (9, 4), (10, 4), (11, 8), (12, 8), (14, 4), (2, 4), (3, 8)]

/-- A scalar, or a structure that is laid out. -/
structure Proper (t : FfiType) : Prop where
  alignment : IsAlignment t.alignment.toNat
  kind : (code t, t.size.toNat) ∈ scalars ∨ code t = ffiTypeStruct ∧ 0 < t.size.toNat

/-- A parameter: its size, whether a register may have it, and its bytes. -/
structure Item where
  size : Nat
  register : Bool
  bytes : Area

/-- It takes one word, and is neither floating point nor a structure. -/
def fitsRegister (t : FfiType) : Bool :=
  t.size.toNat ≤ 4 ∧ code t ≠ 2 ∧ code t ≠ ffiTypeStruct

def argItems (m : Area) : List FfiType → List Nat → List Item
  | t :: ts, p :: avalue => ⟨t.size.toNat, fitsRegister t, m.at_ p⟩ :: argItems m ts avalue
  | _, _ => []

/-- The parameters, with the address for the result. -/
def items (cif : Cif) (rvalue : Nat) (avalue : List Nat) (m : Area) : List Item :=
  if cif.hidden then ⟨4, true, addressBytes rvalue⟩ :: argItems m cif.argTypes avalue
  else argItems m cif.argTypes avalue

def total : List Item → Nat
  | [] => 0
  | i :: is => roundUp i.size 4 + total is

/-- Parameters one after the other in memory, each at a word. -/
def Laid (m : Area) : Nat → List Item → Prop
  | _, [] => True
  | a, i :: is => (∀ k < i.size, m (a + k) = i.bytes k) ∧ Laid m (a + roundUp i.size 4) is

/-- The first `n` parameters that registers may have. -/
def inRegisters : Nat → List Item → List Item
  | 0, _ | _, [] => []
  | n + 1, i :: is => if i.register then i :: inRegisters n is else inRegisters (n + 1) is

/-- The others. -/
def onStack : Nat → List Item → List Item
  | 0, is => is
  | _, [] => []
  | n + 1, i :: is => if i.register then onStack n is else i :: onStack (n + 1) is

/-- An item for a register takes one word. -/
def Fits (is : List Item) : Prop := ∀ i ∈ is, 0 < i.size ∧ (i.register = true → i.size ≤ 4)

theorem roundUp_four {n : Nat} (hpos : 0 < n) (hle : n ≤ 4) : roundUp n 4 = 4 := by
  unfold roundUp
  omega

theorem le_roundUp_four (n : Nat) : n ≤ roundUp n 4 := le_roundUp (by omega)

section laid

variable {m m' : Area} {a b : Nat} {is js : List Item}

theorem total_append : total (is ++ js) = total is + total js := by
  induction is with
  | nil => exact (Nat.zero_add _).symm
  | cons i is ih =>
    show roundUp i.size 4 + total (is ++ js) = roundUp i.size 4 + total is + total js
    rw [ih, Nat.add_assoc]

theorem Laid.append : Laid m a (is ++ js) ↔ Laid m a is ∧ Laid m (a + total is) js := by
  induction is generalizing a with
  | nil => exact ⟨fun h => ⟨trivial, h⟩, fun h => h.2⟩
  | cons i is ih =>
    show (∀ k < i.size, m (a + k) = i.bytes k) ∧ Laid m (a + roundUp i.size 4) (is ++ js) ↔
      ((∀ k < i.size, m (a + k) = i.bytes k) ∧ Laid m (a + roundUp i.size 4) is) ∧
        Laid m (a + (roundUp i.size 4 + total is)) js
    rw [ih, and_assoc, Nat.add_assoc]

theorem Laid.transport (h : Laid m a is) (hm : ∀ k < total is, m' (b + k) = m (a + k)) :
    Laid m' b is := by
  induction is generalizing a b with
  | nil => trivial
  | cons i is ih =>
    have hle := le_roundUp_four i.size
    unfold total at hm
    refine ⟨fun k hk => (hm k (by omega)).trans (h.1 k hk), ih h.2 fun k hk => ?_⟩
    rw [Nat.add_assoc, Nat.add_assoc]
    exact hm _ (by omega)

/-! ### Moving one to the front -/

theorem moveToTop_agrees {argp2 data zz : Nat} (hle : argp2 ≤ data) :
    Area.AgreeOn (Outside argp2 (data + zz)) m (moveToTop argp2 data zz m) := by
  unfold moveToTop
  refine (Area.agreeOn_write fun b hb => ?_).trans (Area.agreeOn_write fun b hb => ?_)
  · unfold Outside at hb
    omega
  · unfold Outside at hb
    omega

theorem moveToTop_laid {i : Item} (hsize : roundUp i.size 4 = 4) (h : Laid m a (is ++ i :: js)) :
    Laid (moveToTop a (a + total is) 4 m) a (i :: (is ++ js)) := by
  rw [Laid.append] at h
  obtain ⟨his, hi, hjs⟩ := h
  have hle := le_roundUp_four i.size
  have hfront : ∀ k < 4, moveToTop a (a + total is) 4 m (a + k) = m (a + total is + k) :=
    fun k hk => Area.write_of_lt hk
  have hmoved : ∀ k < total is, moveToTop a (a + total is) 4 m (a + 4 + k) = m (a + k) := by
    intro k hk
    unfold moveToTop
    rw [Area.write_of_out (by omega), Area.write_of_lt (by omega), Area.at_apply]
  refine ⟨fun k hk => (hfront k (by omega)).trans (hi k hk), ?_⟩
  rw [hsize, Laid.append]
  refine ⟨his.transport hmoved, hjs.transport fun k _ => ?_⟩
  rw [hsize]
  have hplace : a + 4 + total is + k = a + total is + 4 + k := by omega
  rw [hplace]
  exact moveToTop_agrees (by omega) _ (.inr (by omega))

theorem moveIf_spec {i : Item} (hfits : Fits (is ++ i :: js)) (hreg : i.register = true)
    (h : Laid m a (is ++ i :: js)) :
    let m' := if a + total is ≠ a then moveToTop a (a + total is) 4 m else m
    Laid m' a (i :: (is ++ js)) ∧ Area.AgreeOn (Outside a (a + total is + 4)) m m' := by
  intro m'
  obtain ⟨hpos, hle⟩ := hfits i (List.mem_append_right is List.mem_cons_self)
  have hsize := roundUp_four hpos (hle hreg)
  by_cases hne : a + total is ≠ a
  · have hm' : m' = moveToTop a (a + total is) 4 m := if_pos hne
    rw [hm']
    exact ⟨moveToTop_laid hsize h, moveToTop_agrees (Nat.le_add_right a _)⟩
  · have hm' : m' = m := if_neg hne
    rw [hm']
    cases is with
    | nil => exact ⟨h, .rfl⟩
    | cons j is =>
      have hj := (hfits j List.mem_cons_self).1
      have hup := le_roundUp_four j.size
      unfold total at hne
      omega

/-! ### Moving one or two -/

/-- Where `ffi_prep_args` has found what goes into registers. -/
def places : Nat → Nat → List Item → Recorded
  | 0, _, _ | _, _, [] => []
  | n + 1, a, i :: is =>
    if i.register then (4, a) :: places n (a + roundUp i.size 4) is
    else places (n + 1) (a + roundUp i.size 4) is

/-- There is nothing for a register. -/
structure NoneFits (is : List Item) : Prop where
  places : ∀ n a, places n a is = []
  inRegisters : ∀ n, inRegisters n is = []
  onStack : ∀ n, onStack n is = is

/-- The first one is `i`, after `before`. -/
structure FirstFits (is before : List Item) (i : Item) (after : List Item) : Prop where
  split : is = before ++ i :: after
  register : i.register = true
  places : ∀ n a, places (n + 1) a is =
    (4, a + total before) :: places n (a + total before + roundUp i.size 4) after
  inRegisters : ∀ n, inRegisters (n + 1) is = i :: inRegisters n after
  onStack : ∀ n, onStack (n + 1) is = before ++ onStack n after

theorem firstFits (is : List Item) : NoneFits is ∨ ∃ before i after, FirstFits is before i after := by
  induction is with
  | nil =>
    refine .inl ⟨fun n a => ?_, fun n => ?_, fun n => ?_⟩
    · cases n <;> rfl
    · cases n <;> rfl
    · cases n <;> rfl
  | cons i is ih =>
    cases hreg : i.register with
    | true => exact .inr ⟨[], i, is, rfl, hreg, fun n a => if_pos hreg, fun n => if_pos hreg,
        fun n => if_pos hreg⟩
    | false =>
      have hno : ¬ i.register = true := by
        rw [hreg]
        exact Bool.false_ne_true
      rcases ih with h | ⟨before, j, after, h⟩
      · refine .inl ⟨fun n a => ?_, fun n => ?_, fun n => ?_⟩
        · cases n with
          | zero => rfl
          | succ n => exact (if_neg hno).trans (h.places _ _)
        · cases n with
          | zero => rfl
          | succ n => exact (if_neg hno).trans (h.inRegisters _)
        · cases n with
          | zero => rfl
          | succ n => exact (if_neg hno).trans (congrArg (i :: ·) (h.onStack _))
      · refine .inr ⟨i :: before, j, after, ?_, h.register, fun n a => ?_, fun n => ?_, fun n => ?_⟩
        · rw [h.split]
          rfl
        · refine (if_neg hno).trans ((h.places n _).trans ?_)
          show _ = (4, a + (roundUp i.size 4 + total before)) ::
            places n (a + (roundUp i.size 4 + total before) + roundUp j.size 4) after
          rw [Nat.add_assoc a]
        · exact (if_neg hno).trans (h.inRegisters n)
        · exact (if_neg hno).trans (congrArg (i :: ·) (h.onStack n))

theorem places_zero : places 0 a is = [] := by cases is <;> rfl

theorem inRegisters_zero : inRegisters 0 is = [] := by cases is <;> rfl

theorem onStack_zero : onStack 0 is = is := by cases is <;> rfl

/-- **The parameters for registers come first**, and the others after them in their order. -/
theorem moveRegisterArguments_spec {n : Nat} (hn : n ≤ 2) (hfits : Fits is) (h : Laid m a is) :
    let m' := moveRegisterArguments a (places n a is) m
    Laid m' a (inRegisters n is ++ onStack n is) ∧
      Area.AgreeOn (Outside a (a + total is)) m m' := by
  intro m'
  have hempty : places n a is = [] → m' = m := fun hnil =>
    congrArg (moveRegisterArguments a · m) hnil
  cases n with
  | zero =>
    rw [hempty places_zero, inRegisters_zero, onStack_zero]
    exact ⟨h, .rfl⟩
  | succ n =>
    rcases firstFits is with hnone | ⟨before, i, after, hfirst⟩
    · rw [hempty (hnone.places _ _), hnone.inRegisters, hnone.onStack]
      exact ⟨h, .rfl⟩
    obtain rfl := hfirst.split
    obtain ⟨hpos, hle⟩ := hfits i (List.mem_append_right before List.mem_cons_self)
    have hsize := roundUp_four hpos (hle hfirst.register)
    obtain ⟨m₁, hm₁⟩ : ∃ m₁, m₁ =
        if a + total before ≠ a then moveToTop a (a + total before) 4 m else m := ⟨_, rfl⟩
    obtain ⟨hlaid, hagree⟩ := moveIf_spec hfits hfirst.register h
    rw [← hm₁] at hlaid hagree
    have htotal : total (before ++ i :: after) = total before + 4 + total after := by
      rw [total_append, Nat.add_assoc, ← hsize]
      rfl
    have hagree' : Area.AgreeOn (Outside a (a + total (before ++ i :: after))) m m₁ := by
      refine hagree.mono fun b hb => ?_
      unfold Outside at hb ⊢
      omega
    rw [hfirst.inRegisters, hfirst.onStack]
    have hmoved : ∀ rest, places n (a + total before + roundUp i.size 4) after = rest →
        m' = moveSecond (a + 4) m₁ rest := by
      intro rest hrest
      have hm' : m' = moveRegisterArguments a ((4, a + total before) :: rest) m := by
        rw [← hrest, ← hfirst.places]
      rw [hm', hm₁]
      rfl
    rcases Nat.eq_zero_or_pos n with rfl | hpos
    · rw [hmoved [] places_zero, inRegisters_zero, onStack_zero]
      exact ⟨hlaid, hagree'⟩
    obtain rfl : n = 1 := by omega
    rcases firstFits after with hnone | ⟨before', j, after', hsecond⟩
    · rw [hmoved [] (hnone.places _ _), hnone.inRegisters, hnone.onStack]
      exact ⟨hlaid, hagree'⟩
    obtain rfl := hsecond.split
    -- the second one moves over what is left of the others
    have hlaid' : Laid m₁ (a + 4) ((before ++ before') ++ j :: after') := by
      have hrest := hlaid.2
      rw [hsize] at hrest
      rw [List.append_assoc]
      exact hrest
    have hfits' : Fits ((before ++ before') ++ j :: after') := by
      intro k hk
      refine hfits k ?_
      rw [List.append_assoc] at hk
      rcases List.mem_append.mp hk with hk | hk
      · exact List.mem_append_left _ hk
      · exact List.mem_append_right _ (List.mem_cons_of_mem _ hk)
    have hdata : a + total before + 4 + total before' = a + 4 + total (before ++ before') := by
      rw [total_append]
      omega
    have hm' := hmoved _ (hsecond.places 0 _)
    rw [hsize, hdata] at hm'
    obtain ⟨hlaid₂, hagree₂⟩ := moveIf_spec hfits' hsecond.register hlaid'
    have hself : m' = if a + 4 + total (before ++ before') ≠ a + 4 then
        moveToTop (a + 4) (a + 4 + total (before ++ before')) 4 m₁ else m₁ := hm'
    rw [← hself] at hlaid₂ hagree₂
    have htotal' : total (before ++ before') + 4 ≤ total before + total (before' ++ j :: after') := by
      obtain ⟨hpos', hle'⟩ := hfits' j (List.mem_append_right _ List.mem_cons_self)
      have hsize' := roundUp_four hpos' (hle' hsecond.register)
      have hcons : total (j :: after') = roundUp j.size 4 + total after' := rfl
      rw [total_append, total_append]
      omega
    rw [hsecond.inRegisters, hsecond.onStack, inRegisters_zero, onStack_zero]
    refine ⟨⟨fun k hk => ?_, ?_⟩, hagree'.trans (hagree₂.mono fun b hb => ?_)⟩
    · rw [hagree₂ (a + k) (.inl (by have := le_roundUp_four i.size; omega))]
      exact hlaid.1 k hk
    · rw [hsize]
      rw [List.append_assoc] at hlaid₂
      exact hlaid₂
    · unfold Outside at hb ⊢
      omega

end laid

/-! ### `ffi_prep_args` -/

theorem Proper.size_pos {t : FfiType} (h : Proper t) : 0 < t.size.toNat := by
  rcases h.kind with hkind | hkind
  · simp only [scalars, List.mem_cons, Prod.mk.injEq, List.not_mem_nil, or_false] at hkind
    omega
  · exact hkind.2

theorem Proper.widened {t : FfiType} (h : Proper t) (hlt : t.size.toNat < 4) (a : Area) :
    ∃ w, widened (code t) a = some w ∧ ∀ k < t.size.toNat, w k = a k := by
  rcases h.kind with hkind | hkind
  · simp only [scalars, List.mem_cons, Prod.mk.injEq, List.not_mem_nil, or_false] at hkind
    rcases hkind with ⟨hc, hs⟩ | ⟨hc, hs⟩ | ⟨hc, hs⟩ | ⟨hc, hs⟩ | ⟨hc, hs⟩ | ⟨hc, hs⟩ | ⟨hc, hs⟩ |
      ⟨hc, hs⟩ | ⟨hc, hs⟩ | ⟨hc, hs⟩ | ⟨hc, hs⟩
    · rw [hc, hs]
      exact ⟨a.extend 1, rfl, fun _ => Area.extend_of_lt⟩
    · rw [hc, hs]
      exact ⟨signExtend a 1, rfl, fun _ => signExtend_of_lt⟩
    · rw [hc, hs]
      exact ⟨a.extend 2, rfl, fun _ => Area.extend_of_lt⟩
    · rw [hc, hs]
      exact ⟨signExtend a 2, rfl, fun _ => signExtend_of_lt⟩
    all_goals omega
  · rw [hkind.1]
    exact ⟨a, rfl, fun _ _ => rfl⟩

theorem passArgument_spec {t : FfiType} (h : Proper t) (argp : Nat) {m₀ m : Area} {p : Nat}
    (hm : ∀ k < t.size.toNat, m (p + k) = m₀ (p + k)) :
    (∀ k < t.size.toNat, passArgument t p argp m (argp + k) = m₀ (p + k)) ∧
      Area.AgreeOn (Outside argp (argp + roundUp t.size.toNat 4)) m (passArgument t p argp m) := by
  have hpos := h.size_pos
  have hle := le_roundUp_four t.size.toNat
  unfold passArgument
  by_cases hlt : t.size.toNat < 4
  · obtain ⟨w, hw, hk⟩ := h.widened hlt (m.at_ p)
    have hsize := roundUp_four hpos (Nat.le_of_lt hlt)
    rw [if_pos hlt, hw, hsize]
    dsimp only
    refine ⟨fun k hlt' => ?_, Area.agreeOn_write fun b hb => hb⟩
    rw [Area.write_of_lt (by omega), hk k hlt']
    exact hm k hlt'
  · rw [if_neg hlt]
    refine ⟨fun k hlt' => ?_, Area.agreeOn_write fun b hb => ?_⟩
    · rw [Area.write_of_lt hlt']
      exact hm k hlt'
    · unfold Outside at hb
      omega

/-- The arguments are all outside a range of addresses. -/
def Clear (lo hi : Nat) : List FfiType → List Nat → Prop
  | [], [] => True
  | t :: ts, p :: avalue =>
    (∀ k < t.size.toNat, Outside lo hi (p + k)) ∧ Clear lo hi ts avalue
  | _, _ => False

theorem passedSize_eq {t : FfiType} (h : Proper t) {a : Nat} (halign : 4 ∣ a) :
    roundUp (a + passedSize t) 4 = a + roundUp t.size.toNat 4 := by
  have hpos := h.size_pos
  unfold passedSize roundUp
  split
  · omega
  · omega

theorem recorded_iff {t : FfiType} (h : Proper t) :
    (passedSize t ≤ 4 ∧ code t ≠ 2 ∧ code t ≠ ffiTypeStruct ↔ fitsRegister t = true) ∧
      (fitsRegister t = true → passedSize t = 4 ∧ roundUp t.size.toNat 4 = 4) := by
  have hpos := h.size_pos
  have hle : passedSize t ≤ 4 ↔ t.size.toNat ≤ 4 := by
    unfold passedSize
    split
    · omega
    · exact Iff.rfl
  unfold fitsRegister
  rw [decide_eq_true_eq]
  refine ⟨and_congr_left' hle, fun hfits => ⟨?_, roundUp_four hpos hfits.1⟩⟩
  have hsize := hfits.1
  unfold passedSize
  split
  · rfl
  · omega

theorem recorded_places {t : FfiType} (h : Proper t) {n a : Nat} {recorded recorded' : Recorded}
    {bytes : Area} {is : List Item}
    (hrecorded : recorded' =
      if recorded.length < n ∧ passedSize t ≤ 4 ∧ code t ≠ 2 ∧ code t ≠ ffiTypeStruct then
        recorded ++ [(passedSize t, a)]
      else recorded) :
    recorded' ++ places (n - recorded'.length) (a + roundUp t.size.toNat 4) is =
      recorded ++ places (n - recorded.length) a (⟨t.size.toNat, fitsRegister t, bytes⟩ :: is) := by
  obtain ⟨hiff, hword⟩ := recorded_iff h
  by_cases hlt : recorded.length < n
  · obtain ⟨l, hl⟩ : ∃ l, n - recorded.length = l + 1 := ⟨n - recorded.length - 1, by omega⟩
    rw [hl]
    by_cases hfits : fitsRegister t = true
    · obtain ⟨hpassed, -⟩ := hword hfits
      rw [if_pos ⟨hlt, hiff.mpr hfits⟩, hpassed] at hrecorded
      have hlength : n - recorded'.length = l := by
        rw [hrecorded, List.length_append, List.length_singleton]
        omega
      rw [hlength, hrecorded, List.append_assoc]
      exact congrArg (recorded ++ ·) (if_pos hfits).symm
    · rw [if_neg fun hand => hfits (hiff.mp hand.2)] at hrecorded
      rw [hrecorded, hl]
      exact congrArg (recorded ++ ·) (if_neg hfits).symm
  · have hzero : n - recorded.length = 0 := by omega
    rw [if_neg fun hand => hlt hand.1] at hrecorded
    rw [hrecorded, hzero, places_zero, places_zero]

/-- **What `ffi_prep_args` writes for the arguments**, and what it records. -/
theorem passArguments_spec {ts : List FfiType} (hts : ∀ t ∈ ts, Proper t) {m₀ m : Area}
    {avalue : List Nat} {lo hi : Nat} (n argp : Nat) (recorded : Recorded) (hclear : Clear lo hi ts avalue)
    (hm : Area.AgreeOn (Outside lo hi) m₀ m) (hlo : lo ≤ roundUp argp 4)
    (hhi : roundUp argp 4 + total (argItems m₀ ts avalue) ≤ hi) :
    let result := passArguments n ts avalue argp recorded m
    result.1 = recorded ++ places (n - recorded.length) (roundUp argp 4) (argItems m₀ ts avalue) ∧
      Laid result.2 (roundUp argp 4) (argItems m₀ ts avalue) ∧
      Area.AgreeOn (Outside (roundUp argp 4) (roundUp argp 4 + total (argItems m₀ ts avalue))) m
        result.2 := by
  induction ts generalizing avalue argp recorded m with
  | nil =>
    cases avalue with
    | nil =>
      refine ⟨?_, trivial, .rfl⟩
      show recorded = recorded ++ places _ _ []
      cases n - recorded.length <;> exact (List.append_nil recorded).symm
    | cons p avalue => exact hclear.elim
  | cons t ts ih =>
    cases avalue with
    | nil => exact hclear.elim
    | cons p avalue =>
      obtain ⟨hout, hclear⟩ := hclear
      have ht := hts t List.mem_cons_self
      obtain ⟨a, ha⟩ : ∃ a, a = roundUp argp 4 := ⟨_, rfl⟩
      have halign : 4 ∣ a := ha ▸ dvd_roundUp
      rw [← ha] at hlo hhi ⊢
      obtain ⟨m₁, hm₁⟩ : ∃ m₁, m₁ = passArgument t p a m := ⟨_, rfl⟩
      obtain ⟨hwritten, hagree⟩ := passArgument_spec ht a fun k hk => hm _ (hout k hk)
      rw [← hm₁] at hwritten hagree
      have htotal : total (argItems m₀ (t :: ts) (p :: avalue)) =
          roundUp t.size.toNat 4 + total (argItems m₀ ts avalue) := rfl
      rw [htotal] at hhi ⊢
      obtain ⟨recorded', hrecorded⟩ : ∃ recorded', recorded' =
          if recorded.length < n ∧ passedSize t ≤ 4 ∧ code t ≠ 2 ∧ code t ≠ ffiTypeStruct then
            recorded ++ [(passedSize t, a)]
          else recorded := ⟨_, rfl⟩
      have hresult : passArguments n (t :: ts) (p :: avalue) argp recorded m =
          passArguments n ts avalue (a + passedSize t) recorded' m₁ := by
        rw [hrecorded, hm₁, ha]
        rfl
      have hnext := passedSize_eq ht halign
      have hm' : Area.AgreeOn (Outside lo hi) m₀ m₁ := hm.trans (hagree.mono fun b hb => by
        unfold Outside at hb ⊢
        omega)
      obtain ⟨hplaces, hlaid, hrest⟩ := @ih (fun t ht => hts t (List.mem_cons_of_mem _ ht)) m₁
        avalue (a + passedSize t) recorded' hclear hm' (by omega) (by omega)
      rw [hnext] at hplaces hlaid hrest
      simp only [hresult]
      refine ⟨?_, ⟨fun k hk => ?_, hlaid⟩, ?_⟩
      · rw [hplaces]
        exact recorded_places ht hrecorded
      · have hle := le_roundUp_four t.size.toNat
        rw [hrest (a + k) (.inl (by have hk' : k < t.size.toNat := hk; omega))]
        exact hwritten k hk
      · refine (hagree.mono fun b hb => ?_).trans (hrest.mono fun b hb => ?_)
        · unfold Outside at hb ⊢
          omega
        · unfold Outside at hb ⊢
          omega

end NodeFfi.Ia32
