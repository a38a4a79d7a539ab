import Mathlib.Algebra.Order.Group.Nat
import Mathlib.Algebra.Group.Nat.Even
import Mathlib.Data.Nat.ModEq

/-!
# The natural layout of C types

An `Extent` is a size with an alignment that divides it. A sequence of extents is laid out in
order, each part at the next multiple of its alignment (`offsets`, `finish`), and a structure is
that sequence padded to the largest alignment (`Extent.ofParts`). A part that consists of `n`
equal pieces may be laid out as one part or piece by piece (`finish_flatten`,
`offsets_flatten`); sizes may be reduced by a modulus that all alignments divide
(`roundUp_mod`).
-/

namespace NodeFfi.Layout

/-- The least multiple of `a` from `n` on. -/
def roundUp (n a : Nat) : Nat := (n + (a - 1)) / a * a

section roundUp

variable {n a : Nat}

theorem dvd_roundUp : a ∣ roundUp n a := Nat.dvd_mul_left a _

theorem le_roundUp (ha : 0 < a) : n ≤ roundUp n a := by
  unfold roundUp
  have h := Nat.div_add_mod (n + (a - 1)) a
  have hlt := Nat.mod_lt (n + (a - 1)) ha
  rw [Nat.mul_comm] at h
  omega

theorem roundUp_eq (h : a ∣ n) : roundUp n a = n := by
  obtain ⟨k, rfl⟩ := h
  rcases Nat.eq_zero_or_pos a with rfl | ha
  · simp [roundUp]
  · unfold roundUp
    have hdiv : (a * k + (a - 1)) / a = k := by
      rw [Nat.mul_add_div ha, Nat.div_eq_of_lt (by omega), Nat.add_zero]
    rw [hdiv, Nat.mul_comm]

theorem roundUp_add (k : Nat) (h : a ∣ k) : roundUp (k + n) a = k + roundUp n a := by
  obtain ⟨j, rfl⟩ := h
  rcases Nat.eq_zero_or_pos a with rfl | ha
  · simp [roundUp]
  · unfold roundUp
    rw [Nat.add_assoc, Nat.mul_add_div ha, Nat.add_mul, Nat.mul_comm j]

theorem roundUp_mod {m : Nat} (h : a ∣ m) : roundUp (n % m) a % m = roundUp n a % m := by
  have hsplit := Nat.div_add_mod n m
  have hdvd : a ∣ m * (n / m) := Dvd.dvd.mul_right h (n / m)
  calc roundUp (n % m) a % m
      = (m * (n / m) + roundUp (n % m) a) % m := by rw [Nat.mul_add_mod]
    _ = roundUp (m * (n / m) + n % m) a % m := by rw [roundUp_add _ hdvd]
    _ = roundUp n a % m := by rw [hsplit]

end roundUp

/-- A size and an alignment, a power of two that divides the size. -/
structure Extent where
  size : Nat
  align : Nat
  align_pow : ∃ k < 16, align = 2 ^ k
  align_dvd : align ∣ size

namespace Extent

theorem ext {e f : Extent} (hs : e.size = f.size) (ha : e.align = f.align) : e = f := by
  cases e
  cases f
  simp_all

theorem align_pos (e : Extent) : 0 < e.align := by
  obtain ⟨k, _, hk⟩ := e.align_pow
  rw [hk]
  exact Nat.two_pow_pos k

/-- `n` copies of `e` one after the other. -/
def replicate (e : Extent) (n : Nat) : Extent where
  size := n * e.size
  align := e.align
  align_pow := e.align_pow
  align_dvd := Dvd.dvd.mul_left e.align_dvd n

end Extent

/-- The largest alignment, `0` if there are no parts. -/
def maxAlign : List Extent → Nat
  | [] => 0
  | e :: es => max e.align (maxAlign es)

/-- The offsets of the parts from the offset `n` on. -/
def offsets (n : Nat) : List Extent → List Nat
  | [] => []
  | e :: es => roundUp n e.align :: offsets (roundUp n e.align + e.size) es

/-- The end of the last part. -/
def finish (n : Nat) : List Extent → Nat
  | [] => n
  | e :: es => finish (roundUp n e.align + e.size) es

theorem maxAlign_pow (es : List Extent) : maxAlign es = 0 ∨ ∃ k < 16, maxAlign es = 2 ^ k := by
  induction es with
  | nil => exact .inl rfl
  | cons e es ih =>
    right
    have he := e.align_pow
    unfold maxAlign
    rcases Nat.le_total e.align (maxAlign es) with h | h
    · rw [Nat.max_eq_right h]
      rcases ih with h0 | hk
      · have := e.align_pos
        omega
      · exact hk
    · rw [Nat.max_eq_left h]
      exact he

theorem maxAlign_eq_zero {es : List Extent} : maxAlign es = 0 ↔ es = [] := by
  cases es with
  | nil => simp [maxAlign]
  | cons e es =>
    have := e.align_pos
    simp only [maxAlign, reduceCtorEq, iff_false]
    omega

/-- The structure with these parts. -/
def Extent.ofParts (es : List Extent) : Extent where
  size := roundUp (finish 0 es) (max 1 (maxAlign es))
  align := max 1 (maxAlign es)
  align_pow := by
    rcases maxAlign_pow es with h | ⟨k, hk, h⟩
    · exact ⟨0, by omega, by rw [h]; rfl⟩
    · refine ⟨k, hk, ?_⟩
      have := Nat.two_pow_pos k
      omega
  align_dvd := dvd_roundUp

/-! ### Bounds -/

theorem finish_ge (n : Nat) (es : List Extent) : n ≤ finish n es := by
  induction es generalizing n with
  | nil => exact Nat.le_refl n
  | cons e es ih =>
    have h := ih (roundUp n e.align + e.size)
    have hup := le_roundUp (n := n) e.align_pos
    unfold finish
    omega

theorem size_le_finish {e : Extent} {es : List Extent} (he : e ∈ es) (n : Nat) :
    e.size ≤ finish n es := by
  induction es generalizing n with
  | nil => cases he
  | cons f es ih =>
    unfold finish
    rcases List.mem_cons.mp he with rfl | he
    · have := finish_ge (roundUp n e.align + e.size) es
      omega
    · exact ih he _

theorem size_le_ofParts {e : Extent} {es : List Extent} (he : e ∈ es) :
    e.size ≤ (Extent.ofParts es).size := by
  have h := size_le_finish he 0
  have hup := le_roundUp (n := finish 0 es) (Extent.ofParts es).align_pos
  exact Nat.le_trans h hup

theorem offsets_le_finish {o n : Nat} {es : List Extent} (h : o ∈ offsets n es) :
    o ≤ finish n es := by
  induction es generalizing n with
  | nil => cases h
  | cons e es ih =>
    unfold offsets at h
    unfold finish
    rcases List.mem_cons.mp h with rfl | h
    · have := finish_ge (roundUp n e.align + e.size) es
      omega
    · exact ih h

/-! ### Laying out piece by piece -/

theorem maxAlign_append (es fs : List Extent) :
    maxAlign (es ++ fs) = max (maxAlign es) (maxAlign fs) := by
  induction es with
  | nil => simp [maxAlign]
  | cons e es ih =>
    simp only [List.cons_append, maxAlign, ih]
    omega

theorem finish_append (n : Nat) (es fs : List Extent) :
    finish n (es ++ fs) = finish (finish n es) fs := by
  induction es generalizing n with
  | nil => rfl
  | cons e es ih => exact ih _

theorem offsets_append (n : Nat) (es fs : List Extent) :
    offsets n (es ++ fs) = offsets n es ++ offsets (finish n es) fs := by
  induction es generalizing n with
  | nil => rfl
  | cons e es ih => simp only [List.cons_append, offsets, finish, ih]

theorem offsets_length (n : Nat) (es : List Extent) : (offsets n es).length = es.length := by
  induction es generalizing n with
  | nil => rfl
  | cons e es ih => simp only [offsets, List.length_cons, ih]

/-- A list of pieces that is laid out as the one part `e` is. -/
structure Pieces (e : Extent) (ps : List Extent) : Prop where
  align : maxAlign ps = e.align
  finish : ∀ n, Layout.finish n ps = roundUp n e.align + e.size
  head : ∀ n, (offsets n ps).head? = some (roundUp n e.align)

theorem pieces_singleton (e : Extent) : Pieces e [e] where
  align := by simp [maxAlign]
  finish _ := rfl
  head _ := rfl

theorem Pieces.finish_of_dvd {e : Extent} {ps : List Extent} (h : Pieces e ps) {n : Nat}
    (hn : e.align ∣ n) : Layout.finish n ps = n + e.size := by
  rw [h.finish, roundUp_eq hn]

theorem Pieces.replicate {e : Extent} {ps : List Extent} (h : Pieces e ps) {n : Nat} (hn : 0 < n) :
    Pieces (e.replicate n) (List.replicate n ps).flatten := by
  obtain ⟨m, rfl⟩ : ∃ m, n = m + 1 := ⟨n - 1, by omega⟩
  -- the copies after the first one are already aligned
  have hrest : ∀ k p, e.align ∣ p →
      Layout.finish p (List.replicate k ps).flatten = p + k * e.size := by
    intro k
    induction k with
    | zero => intro p _; simp [Layout.finish]
    | succ k ih =>
      intro p hp
      rw [List.replicate_succ, List.flatten_cons, finish_append, h.finish_of_dvd hp,
        ih _ ((Nat.dvd_add_iff_right hp).mp e.align_dvd), Nat.succ_mul]
      omega
  constructor
  · have halign : ∀ k, maxAlign (List.replicate (k + 1) ps).flatten = e.align := by
      intro k
      induction k with
      | zero => simp [h.align]
      | succ k ih =>
        rw [List.replicate_succ, List.flatten_cons, maxAlign_append, ih, h.align, Nat.max_self]
    exact halign m
  · intro p
    have hdvd : e.align ∣ roundUp p e.align + e.size :=
      (Nat.dvd_add_iff_right dvd_roundUp).mp e.align_dvd
    rw [List.replicate_succ, List.flatten_cons, finish_append, h.finish, hrest m _ hdvd]
    simp only [Extent.replicate, Nat.succ_mul]
    omega
  · intro p
    rw [List.replicate_succ, List.flatten_cons, offsets_append, List.head?_append, h.head]
    rfl

/-- Each part replaced by its pieces. -/
inductive Refines : List Extent → List (List Extent) → Prop
  | nil : Refines [] []
  | cons {e es ps pss} : Pieces e ps → Refines es pss → Refines (e :: es) (ps :: pss)

theorem Refines.maxAlign {es : List Extent} {pss : List (List Extent)} (h : Refines es pss) :
    maxAlign pss.flatten = Layout.maxAlign es := by
  induction h with
  | nil => rfl
  | cons hp _ ih => rw [List.flatten_cons, maxAlign_append, hp.align, ih, Layout.maxAlign]

theorem Refines.finish {es : List Extent} {pss : List (List Extent)} (h : Refines es pss)
    (n : Nat) : finish n pss.flatten = Layout.finish n es := by
  induction h generalizing n with
  | nil => rfl
  | cons hp _ ih => rw [List.flatten_cons, finish_append, hp.finish, ih, Layout.finish]

theorem Refines.ofParts {es : List Extent} {pss : List (List Extent)} (h : Refines es pss) :
    Extent.ofParts pss.flatten = Extent.ofParts es := by
  apply Extent.ext
  · simp only [Extent.ofParts, h.maxAlign, h.finish]
  · simp only [Extent.ofParts, h.maxAlign]

/-- The offset of each group, of which there are `ns`, is that of its first piece. -/
def groupOffsets : List Nat → List Nat → List (Option Nat)
  | [], _ => []
  | n :: ns, os => os.head? :: groupOffsets ns (os.drop n)

theorem groupOffsets_map (f : Nat → Nat) (ns os : List Nat) :
    groupOffsets ns (os.map f) = (groupOffsets ns os).map (Option.map f) := by
  induction ns generalizing os with
  | nil => rfl
  | cons n ns ih =>
    simp only [groupOffsets, List.head?_map, ← List.map_drop, ih, List.map_cons]

theorem Refines.groupOffsets {es : List Extent} {pss : List (List Extent)} (h : Refines es pss)
    (n : Nat) : groupOffsets (pss.map List.length) (offsets n pss.flatten) =
      (offsets n es).map some := by
  induction h generalizing n with
  | nil => rfl
  | @cons e es ps pss hp _ ih =>
    have hlen : (offsets n ps).length = ps.length := offsets_length n ps
    rw [List.flatten_cons, offsets_append, List.map_cons, Layout.groupOffsets,
      List.head?_append, hp.head, List.drop_left' hlen, hp.finish, ih]
    rfl

end NodeFfi.Layout
