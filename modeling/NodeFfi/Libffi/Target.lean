import NodeFfi.Libffi.Describe

/-!
# What the code for a processor shares

The `type` of an `ffi_type`, alignments, and `ALIGN` of an address.
-/

namespace NodeFfi.Libffi

open Layout

/-- `ffi_type::type`. -/
def code : FfiType → BitVec 16
  | ⟨_, _, type, _⟩ => type

/-- The types whose values are extended with their sign. -/
def isSigned (t : FfiType) : Bool := code t ∈ [6, 8, 10, 12]

/-- An alignment on x86-64. -/
def IsAlignment (a : Nat) : Prop := ∃ k ≤ 4, a = 2 ^ k

theorem IsAlignment.pos {a : Nat} (h : IsAlignment a) : 0 < a := by
  obtain ⟨k, -, rfl⟩ := h
  exact Nat.two_pow_pos k

theorem IsAlignment.dvd_of_le {a b : Nat} (ha : IsAlignment a) (hb : IsAlignment b) (h : a ≤ b) :
    a ∣ b := by
  obtain ⟨k, -, rfl⟩ := ha
  obtain ⟨l, -, rfl⟩ := hb
  exact Nat.pow_dvd_pow 2 ((Nat.pow_le_pow_iff_right (by omega)).mp h)

theorem IsAlignment.dvd_sixteen {a : Nat} (h : IsAlignment a) : a ∣ 16 := by
  obtain ⟨k, hk, rfl⟩ := h
  exact Nat.pow_dvd_pow 2 hk

theorem IsAlignment.lt_16 {a : Nat} (h : IsAlignment a) : ∃ k < 16, a = 2 ^ k := by
  obtain ⟨k, hk, rfl⟩ := h
  exact ⟨k, by omega, rfl⟩

theorem IsAlignment.dvd_mod_eight {a b : Nat} (ha : IsAlignment a) (h : a ∣ b) : a ∣ b % 8 := by
  obtain ⟨k, hk, rfl⟩ := ha
  rcases Nat.lt_or_ge k 4 with hk | hk
  · have hdvd : 2 ^ k ∣ 8 := Nat.pow_dvd_pow 2 (show k ≤ 3 by omega)
    exact (Nat.dvd_mod_iff hdvd).mpr h
  · obtain rfl : k = 4 := by omega
    obtain ⟨c, rfl⟩ := h
    have hzero : 2 ^ 4 * c % 8 = 0 := by omega
    rw [hzero]
    exact Nat.dvd_zero _

theorem IsAlignment.eq_of_le {a : Nat} (h : IsAlignment a) (hle : a ≤ 8) :
    a = 1 ∨ a = 2 ∨ a = 4 ∨ a = 8 := by
  obtain ⟨k, hk, rfl⟩ := h
  match k, hk with
  | 0, _ | 1, _ | 2, _ | 3, _ => decide
  | 4, _ => exact absurd hle (by decide)

/-- `ALIGN` of an address or a size. -/
def alignUp (v a : Nat) : Nat := (align (BitVec.ofNat 64 v) (BitVec.ofNat 64 a)).toNat

theorem alignUp_eq {v a : Nat} (ha : IsAlignment a) (h : roundUp v a < 2 ^ 64) :
    alignUp v a = roundUp v a := by
  have hle := Nat.le_of_dvd (by omega) ha.dvd_sixteen
  unfold alignUp
  have hto : (BitVec.ofNat 64 a).toNat = a := by
    rw [BitVec.toNat_ofNat]
    omega
  rw [align_toNat (BitVec.toNat_ofNat ..) hto ha.lt_16, Nat.mod_eq_of_lt h]

end NodeFfi.Libffi
