import NodeFfi.Win64.Model

/-!
# The words of the arguments

What `ffi_prep_args` writes for an argument and `ffi_prep_incoming_args_SYSV` finds there
(`passArguments_spec`, `finds_iff`): the address of the argument, or its bytes with whatever there is
above them.
-/

namespace NodeFfi.Win64

open Libffi Layout Bytes

/-! ### Types -/

/-- The codes of the scalars that `types.c` defines, without `void`, each with its size. -/
def scalars : List (BitVec 16 × Nat) :=
  [(5, 1), (6, 1), (7, 2), (8, 2), (9, 4), (10, 4), (11, 8), (12, 8), (14, 8), (2, 4), (3, 8)]

/-- A scalar, or a structure that is laid out. -/
structure Proper (t : FfiType) : Prop where
  alignment : IsAlignment t.alignment.toNat
  kind : (code t, t.size.toNat) ∈ scalars ∨ code t = ffiTypeStruct ∧ 0 < t.size.toNat

/-- What `types.c` has for `double`. -/
def ffiTypeDouble : FfiType := ⟨8, 8, 3, none⟩

/-- A structure of two of them. -/
def twoDoubles : FfiType := ⟨16, 8, 13, some [ffiTypeDouble, ffiTypeDouble]⟩

theorem proper_double : Proper ffiTypeDouble := ⟨⟨3, by omega, rfl⟩, by decide⟩

theorem proper_twoDoubles : Proper twoDoubles := ⟨⟨3, by omega, rfl⟩, by decide⟩

/-- How an argument is passed. -/
inductive Passed (t : FfiType) : Prop
  | address (h : byAddress t = true)
  | float (h : byAddress t = false) (hcode : code t = 2) (hsize : t.size.toNat = 4)
  | small (h : byAddress t = false) (hcode : code t ≠ 2) (hsize : t.size.toNat < 8)
    (hwide : ∀ a : Area, ∃ w, widened (code t) a = some w ∧ ∀ k < t.size.toNat, w k = a k)
  | word (h : byAddress t = false) (hcode : code t ≠ 2) (hsize : t.size.toNat = 8)

theorem irregular_iff (z : BitVec 64) :
    irregular z = true ↔ z.toNat ≠ 1 ∧ z.toNat ≠ 2 ∧ z.toNat ≠ 4 ∧ z.toNat ≠ 8 := by
  unfold irregular
  simp only [decide_eq_true_eq, ne_eq, ← BitVec.toNat_inj]
  rfl

theorem byAddress_iff (t : FfiType) : byAddress t = true ↔ 8 < t.size.toNat ∨
    code t = ffiTypeStruct ∧ t.size.toNat ≠ 1 ∧ t.size.toNat ≠ 2 ∧ t.size.toNat ≠ 4 ∧
      t.size.toNat ≠ 8 := by
  unfold byAddress
  rw [decide_eq_true_eq, irregular_iff]

theorem byAddress_scalar {t : FfiType} (hcode : code t ≠ ffiTypeStruct) (hsize : t.size.toNat ≤ 8) :
    byAddress t = false := by
  rw [← Bool.not_eq_true, byAddress_iff]
  rintro (h | h)
  · omega
  · exact hcode h.1

theorem Proper.passed {t : FfiType} (h : Proper t) : Passed t := by
  rcases h.kind with hscalar | ⟨hcode, hpos⟩
  · simp only [scalars, List.mem_cons, Prod.mk.injEq, List.not_mem_nil, or_false] at hscalar
    have hwide : ∀ {type : BitVec 16} {n : Nat} (g : Area → Area), code t = type →
        t.size.toNat = n → (∀ a, widened type a = some (g a)) → (∀ a, ∀ k < n, g a k = a k) →
        ∀ a, ∃ w, widened (code t) a = some w ∧ ∀ k < t.size.toNat, w k = a k := by
      intro type n g hcode hsize hg hk a
      rw [hcode, hsize]
      exact ⟨g a, hg a, hk a⟩
    have hsmall : code t ≠ ffiTypeStruct → t.size.toNat < 8 → byAddress t = false :=
      fun hcode hsize => byAddress_scalar hcode (by omega)
    rcases hscalar with ⟨hc, hs⟩ | ⟨hc, hs⟩ | ⟨hc, hs⟩ | ⟨hc, hs⟩ | ⟨hc, hs⟩ | ⟨hc, hs⟩ | ⟨hc, hs⟩ |
      ⟨hc, hs⟩ | ⟨hc, hs⟩ | ⟨hc, hs⟩ | ⟨hc, hs⟩
    · exact .small (hsmall (by rw [hc]; decide) (by omega)) (by rw [hc]; decide) (by omega)
        (hwide (·.extend 1) hc hs (fun _ => rfl) fun _ _ => Area.extend_of_lt)
    · exact .small (hsmall (by rw [hc]; decide) (by omega)) (by rw [hc]; decide) (by omega)
        (hwide (signExtend · 1) hc hs (fun _ => rfl) fun _ _ => signExtend_of_lt)
    · exact .small (hsmall (by rw [hc]; decide) (by omega)) (by rw [hc]; decide) (by omega)
        (hwide (·.extend 2) hc hs (fun _ => rfl) fun _ _ => Area.extend_of_lt)
    · exact .small (hsmall (by rw [hc]; decide) (by omega)) (by rw [hc]; decide) (by omega)
        (hwide (signExtend · 2) hc hs (fun _ => rfl) fun _ _ => signExtend_of_lt)
    · exact .small (hsmall (by rw [hc]; decide) (by omega)) (by rw [hc]; decide) (by omega)
        (hwide (·.extend 4) hc hs (fun _ => rfl) fun _ _ => Area.extend_of_lt)
    · exact .small (hsmall (by rw [hc]; decide) (by omega)) (by rw [hc]; decide) (by omega)
        (hwide (signExtend · 4) hc hs (fun _ => rfl) fun _ _ => signExtend_of_lt)
    · exact .word (byAddress_scalar (by rw [hc]; decide) (by omega)) (by rw [hc]; decide) hs
    · exact .word (byAddress_scalar (by rw [hc]; decide) (by omega)) (by rw [hc]; decide) hs
    · exact .word (byAddress_scalar (by rw [hc]; decide) (by omega)) (by rw [hc]; decide) hs
    · exact .float (byAddress_scalar (by rw [hc]; decide) (by omega)) hc hs
    · exact .word (byAddress_scalar (by rw [hc]; decide) (by omega)) (by rw [hc]; decide) hs
  · have hne : code t ≠ 2 := by
      rw [hcode]
      decide
    cases haddr : byAddress t with
    | true => exact .address haddr
    | false =>
      have hsize : ¬ (8 < t.size.toNat ∨ code t = ffiTypeStruct ∧ t.size.toNat ≠ 1 ∧
          t.size.toNat ≠ 2 ∧ t.size.toNat ≠ 4 ∧ t.size.toNat ≠ 8) := by
        rw [← byAddress_iff, haddr]
        exact Bool.false_ne_true
      by_cases h8 : t.size.toNat = 8
      · exact .word haddr hne h8
      · refine .small haddr hne (by omega) fun a => ?_
        rw [hcode]
        exact ⟨a, rfl, fun _ _ => rfl⟩

theorem Proper.size_pos {t : FfiType} (h : Proper t) : 0 < t.size.toNat := by
  rcases h.kind with hkind | hkind
  · simp only [scalars, List.mem_cons, Prod.mk.injEq, List.not_mem_nil, or_false] at hkind
    omega
  · exact hkind.2

theorem size_le {t : FfiType} (haddr : byAddress t = false) : t.size.toNat ≤ 8 := by
  by_contra hlt
  have htrue := (byAddress_iff t).mpr (.inl (by omega))
  rw [haddr] at htrue
  cases htrue

theorem Proper.roundUp_size {t : FfiType} (h : Proper t) (haddr : byAddress t = false) :
    roundUp t.size.toNat 8 = 8 := by
  have hpos := h.size_pos
  have hle := size_le haddr
  unfold roundUp
  omega

/-! ### One argument -/

/-- The word of an argument whose bytes `m` has at the address `p`. -/
def Holds (m : Area) (t : FfiType) (p : Nat) (word : Area) : Prop :=
  if byAddress t then ∀ k < 8, word k = addressBytes p k
  else ∀ k < t.size.toNat, word k = m (p + k)

theorem Holds.congr {m word word' : Area} {t : FfiType} {p : Nat} (h : Holds m t p word)
    (hword : ∀ k < 8, word' k = word k) : Holds m t p word' := by
  unfold Holds at h ⊢
  split
  · rename_i haddr
    rw [if_pos haddr] at h
    exact fun k hk => (hword k hk).trans (h k hk)
  · rename_i haddr
    rw [if_neg haddr] at h
    have hle := size_le (t := t) (by simpa using haddr)
    exact fun k hk => (hword k (by omega)).trans (h k hk)

theorem passedSize_eq {t : FfiType} (h : Proper t) : passedSize t = 8 := by
  unfold passedSize
  cases h.passed with
  | address h => rw [if_pos h]
  | float h hcode hsize =>
    rw [h, if_neg Bool.false_ne_true, if_pos hcode, hsize]
    rfl
  | small h hcode hsize _ =>
    rw [h, if_neg Bool.false_ne_true, if_neg hcode, if_pos hsize]
  | word h hcode hsize =>
    rw [h, if_neg Bool.false_ne_true, if_neg hcode, if_neg (by omega), hsize]
    rfl

theorem passArgument_spec {t : FfiType} (h : Proper t) (argp : Nat) {m₀ m : Area} {p : Nat}
    (hm : ∀ k < t.size.toNat, m (p + k) = m₀ (p + k)) :
    Holds m₀ t p ((passArgument t p argp m).at_ argp) ∧
      Area.AgreeOn (Outside argp (argp + 8)) m (passArgument t p argp m) := by
  have hwrite : ∀ {n : Nat} (src : Area), n ≤ 8 →
      Area.AgreeOn (Outside argp (argp + 8)) m (m.write argp n src) := by
    intro n src hn
    refine Area.agreeOn_write fun b hb => ?_
    unfold Outside at hb
    omega
  unfold passArgument Holds
  cases h.passed with
  | address h =>
    simp only [h, if_true]
    exact ⟨fun k hk => Area.write_of_lt hk, hwrite _ (Nat.le_refl 8)⟩
  | float h hcode hsize =>
    simp only [h, Bool.false_eq_true, if_false, hcode, if_true]
    refine ⟨fun k hk => ?_, hwrite _ (by omega)⟩
    rw [Area.at_apply, Area.write_of_lt hk]
    exact hm k hk
  | small h hcode hsize hwide =>
    obtain ⟨w, hw, hk⟩ := hwide (m.at_ p)
    simp only [h, Bool.false_eq_true, if_false, hcode, hsize, if_true, hw]
    refine ⟨fun k hlt => ?_, hwrite _ (Nat.le_refl 8)⟩
    rw [Area.at_apply, Area.write_of_lt (by omega), hk k hlt]
    exact hm k hlt
  | word h hcode hsize =>
    have hnot : ¬ t.size.toNat < 8 := by omega
    simp only [h, Bool.false_eq_true, if_false, hcode, hnot]
    refine ⟨fun k hk => ?_, hwrite _ (by omega)⟩
    rw [Area.at_apply, Area.write_of_lt hk]
    exact hm k hk

/-! ### All arguments -/

/-- The words of the arguments, from the one of number `j` on. -/
def Words (m₀ : Area) (word : Nat → FfiType → Area) : List FfiType → List Nat → Nat → Prop
  | [], [], _ => True
  | t :: ts, p :: avalue, j => Holds m₀ t p (word j t) ∧ Words m₀ word ts avalue (j + 1)
  | _, _, _ => False

/-- The words on the stack. -/
def onStack (m : Area) (stack : Nat) : Nat → FfiType → Area := fun j _ => m.at_ (stack + 8 * j)

/-- The arguments are all outside a range of addresses. -/
def Apart (lo hi : Nat) : List FfiType → List Nat → Prop
  | [], [] => True
  | t :: ts, p :: avalue =>
    (p < 2 ^ 64 ∧ ∀ k < t.size.toNat, Outside lo hi (p + k)) ∧ Apart lo hi ts avalue
  | _, _ => False

theorem Words.congr {m₀ : Area} {word word' : Nat → FfiType → Area} {ts : List FfiType}
    {avalue : List Nat} {j : Nat} (h : Words m₀ word ts avalue j)
    (hword : ∀ i t, j ≤ i → i < j + ts.length → t ∈ ts[i - j]? → ∀ k < 8,
      word' i t k = word i t k) : Words m₀ word' ts avalue j := by
  induction ts generalizing avalue j with
  | nil =>
    cases avalue with
    | nil => trivial
    | cons p avalue => exact h
  | cons t ts ih =>
    cases avalue with
    | nil => exact h
    | cons p avalue =>
      rw [List.length_cons] at hword
      refine ⟨h.1.congr (hword j t (Nat.le_refl j) (by omega) ?_), ?_⟩
      · rw [Nat.sub_self]
        rfl
      · refine ih h.2 fun i t' hi hlt ht' => ?_
        refine hword i t' (by omega) (by omega) ?_
        rw [show i - j = i - (j + 1) + 1 by omega]
        exact ht'

theorem passArguments_spec {ts : List FfiType} (hts : ∀ t ∈ ts, Proper t) {m₀ m : Area}
    {avalue : List Nat} {lo hi stack j : Nat} (happart : Apart lo hi ts avalue)
    (hm : Area.AgreeOn (Outside lo hi) m₀ m) (hlo : lo ≤ stack + 8 * j)
    (hhi : stack + 8 * (j + ts.length) ≤ hi) (halign : 8 ∣ stack) :
    Words m₀ (onStack (passArguments ts avalue (stack + 8 * j) m) stack) ts avalue j ∧
      Area.AgreeOn (Outside (stack + 8 * j) (stack + 8 * (j + ts.length))) m
        (passArguments ts avalue (stack + 8 * j) m) := by
  induction ts generalizing avalue j m with
  | nil =>
    cases avalue with
    | nil => exact ⟨trivial, .rfl⟩
    | cons p avalue => exact happart.elim
  | cons t ts ih =>
    cases avalue with
    | nil => exact happart.elim
    | cons p avalue =>
      obtain ⟨⟨-, hout⟩, happart⟩ := happart
      have ht := hts t List.mem_cons_self
      rw [List.length_cons] at hhi ⊢
      obtain ⟨hholds, hout'⟩ := passArgument_spec ht (stack + 8 * j) (p := p) (m := m)
        fun k hk => hm _ (hout k hk)
      have hround : roundUp (stack + 8 * j) 8 = stack + 8 * j :=
        roundUp_eq (Nat.dvd_add halign (Nat.dvd_mul_right 8 j))
      have hnext : stack + 8 * j + 8 = stack + 8 * (j + 1) := by omega
      unfold passArguments
      simp only [hround, passedSize_eq ht, hnext]
      have hm' : Area.AgreeOn (Outside lo hi) m₀ (passArgument t p (stack + 8 * j) m) := by
        refine hm.trans (hout'.mono fun b hb => ?_)
        unfold Outside at hb ⊢
        omega
      obtain ⟨hwords, hrest⟩ := ih (j := j + 1) (fun t ht => hts t (List.mem_cons_of_mem _ ht))
        happart hm' (by omega) (by omega)
      have hword : ∀ k < 8, passArguments ts avalue (stack + 8 * (j + 1))
          (passArgument t p (stack + 8 * j) m) (stack + 8 * j + k) =
          passArgument t p (stack + 8 * j) m (stack + 8 * j + k) :=
        fun k hk => hrest _ (.inl (by omega))
      refine ⟨⟨hholds.congr hword, hwords⟩, ?_⟩
      refine (hout'.mono fun b hb => ?_).trans (hrest.mono fun b hb => ?_)
      · unfold Outside at hb ⊢
        omega
      · unfold Outside at hb ⊢
        omega

/-! ### The other way round -/

/-- The arguments have been found: their addresses, or places with their bytes. -/
def Finds (m₀ m : Area) : List FfiType → List Nat → List Nat → Prop
  | [], [], [] => True
  | t :: ts, p :: avalue, q :: found =>
    (if byAddress t then q = p else ∀ k < t.size.toNat, m (q + k) = m₀ (p + k)) ∧
      Finds m₀ m ts avalue found
  | _, _, _ => False

/-- **What `ffi_prep_incoming_args_SYSV` finds** are the arguments if their words are there. -/
theorem finds_iff {ts : List FfiType} (hts : ∀ t ∈ ts, Proper t) {m₀ m : Area} {avalue : List Nat}
    (havalue : ∀ p ∈ avalue, p < 2 ^ 64) {stack j : Nat} (halign : 8 ∣ stack) :
    Finds m₀ m ts avalue (incomingArgs ts (stack + 8 * j) m) ↔
      Words m₀ (onStack m stack) ts avalue j := by
  induction ts generalizing avalue j with
  | nil =>
    cases avalue with
    | nil => exact Iff.rfl
    | cons p avalue => exact Iff.rfl
  | cons t ts ih =>
    have hround : roundUp (stack + 8 * j) 8 = stack + 8 * j :=
      roundUp_eq (Nat.dvd_add halign (Nat.dvd_mul_right 8 j))
    have hnext : stack + 8 * j + 8 = stack + 8 * (j + 1) := by omega
    cases avalue with
    | nil =>
      unfold incomingArgs
      simp only
      split
      · exact Iff.rfl
      · exact Iff.rfl
    | cons p avalue =>
      have hrest := ih (fun t ht => hts t (List.mem_cons_of_mem _ ht)) (j := j + 1)
        fun p hp => havalue p (List.mem_cons_of_mem _ hp)
      unfold incomingArgs Words Holds
      simp only [hround]
      split
      · rename_i haddr
        rw [hnext]
        refine and_congr ?_ hrest
        rw [if_pos haddr]
        exact addressOf_eq_iff (havalue p List.mem_cons_self)
      · rename_i haddr
        rw [(hts t List.mem_cons_self).roundUp_size (by simpa using haddr), hnext]
        refine and_congr ?_ hrest
        rw [if_neg haddr]
        exact Iff.rfl

/-- A function has been given the arguments. -/
def Sees (m₀ : Area) : List FfiType → List Nat → List Area → Prop
  | [], [], [] => True
  | t :: ts, p :: avalue, a :: arguments =>
    (∀ k < t.size.toNat, a k = m₀ (p + k)) ∧ Sees m₀ ts avalue arguments
  | _, _, _ => False

theorem Finds.sees {m₀ m : Area} {ts : List FfiType} {avalue found : List Nat} {lo hi : Nat}
    (h : Finds m₀ m ts avalue found) (happart : Apart lo hi ts avalue)
    (hm : Area.AgreeOn (Outside lo hi) m₀ m) : Sees m₀ ts avalue (found.map m.at_) := by
  induction ts generalizing avalue found with
  | nil =>
    match avalue, found with
    | [], [] => trivial
    | [], _ :: _ | _ :: _, _ => exact h.elim
  | cons t ts ih =>
    match avalue, found with
    | [], _ | _ :: _, [] => exact h.elim
    | p :: avalue, q :: found =>
      obtain ⟨⟨-, hout⟩, happart⟩ := happart
      refine ⟨?_, ih h.2 happart⟩
      obtain ⟨hfound, -⟩ := h
      split at hfound
      · rw [hfound]
        exact fun k hk => hm _ (hout k hk)
      · exact hfound

theorem Apart.lt {lo hi : Nat} {ts : List FfiType} {avalue : List Nat} (h : Apart lo hi ts avalue) :
    ∀ p ∈ avalue, p < 2 ^ 64 := by
  induction ts generalizing avalue with
  | nil =>
    cases avalue with
    | nil => exact fun p hp => nomatch hp
    | cons p avalue => exact h.elim
  | cons t ts ih =>
    cases avalue with
    | nil => exact h.elim
    | cons p avalue =>
      intro q hq
      rcases List.mem_cons.mp hq with rfl | hq
      · exact h.1.1
      · exact ih h.2 q hq

theorem Words.get {m₀ : Area} {word : Nat → FfiType → Area} {ts : List FfiType} {avalue : List Nat}
    {j i : Nat} {t : FfiType} (h : Words m₀ word ts avalue j) (hi : ts[i]? = some t) :
    ∃ p, avalue[i]? = some p ∧ Holds m₀ t p (word (j + i) t) := by
  induction ts generalizing avalue j i with
  | nil => cases hi
  | cons t' ts ih =>
    cases avalue with
    | nil => exact h.elim
    | cons p avalue =>
      cases i with
      | zero =>
        obtain rfl := Option.some.inj hi
        exact ⟨p, rfl, h.1⟩
      | succ i =>
        obtain ⟨p', hp, hholds⟩ := ih h.2 hi
        rw [show j + 1 + i = j + (i + 1) by omega] at hholds
        exact ⟨p', hp, hholds⟩

end NodeFfi.Win64
