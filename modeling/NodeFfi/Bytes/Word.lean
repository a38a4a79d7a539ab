import Mathlib.Data.List.Basic
import Mathlib.Data.Nat.Digits.Defs
import NodeFfi.Bytes.Area

/-!
# Words of eight bytes

A word is the first eight bytes of an area, the lowest first. `addressOf` reads the address that
`addressBytes` has made a word of; `signExtend` is the word that a shorter integer becomes, as
`Area.extend` is without a sign.
-/

namespace NodeFfi.Bytes

/-- The bytes of an address. -/
def addressBytes (a : Nat) : Area := fun k => BitVec.ofNat 8 (a / 256 ^ k)

/-- The address that eight bytes are. -/
def addressOf (m : Area) : Nat :=
  (List.range 8).foldr (fun k n => (m k).toNat * 256 ^ k + n) 0

/-- The byte that a sign extension repeats. -/
def signByte (b : Byte) : Byte := if b.msb then 0xff else 0

/-- The first `n` bytes, extended with their sign. -/
def signExtend (m : Area) (n : Nat) : Area := fun k => if k < n then m k else signByte (m (n - 1))

theorem addressOf_congr {m m' : Area} (h : ∀ k < 8, m k = m' k) : addressOf m = addressOf m' := by
  unfold addressOf
  refine List.foldr_ext _ _ _ fun k hk n => ?_
  rw [h k (List.mem_range.mp hk)]

theorem foldr_addressBytes (a n z : Nat) :
    (List.range n).foldr (fun k n => (addressBytes a k).toNat * 256 ^ k + n) z =
      a % 256 ^ n + z := by
  induction n generalizing z with
  | zero =>
    rw [Nat.pow_zero, Nat.mod_one, Nat.zero_add]
    rfl
  | succ n ih =>
    have hdigit : (addressBytes a n).toNat = a / 256 ^ n % 256 := BitVec.toNat_ofNat ..
    rw [List.range_succ, List.foldr_append, List.foldr_cons, List.foldr_nil, ih, hdigit,
      Nat.mod_pow_succ, Nat.mul_comm (256 ^ n), Nat.add_assoc]

theorem addressOf_addressBytes {a : Nat} (h : a < 2 ^ 64) : addressOf (addressBytes a) = a := by
  have hlt : a < 256 ^ 8 := Nat.lt_of_lt_of_le h (by decide)
  unfold addressOf
  rw [foldr_addressBytes, Nat.mod_eq_of_lt hlt]
  rfl

theorem foldr_ofDigits (m : Area) (n z : Nat) :
    (List.range n).foldr (fun k n => (m k).toNat * 256 ^ k + n) z =
      Nat.ofDigits 256 ((List.range n).map fun k => (m k).toNat) + z := by
  induction n generalizing z with
  | zero => exact (Nat.zero_add z).symm
  | succ n ih =>
    rw [List.range_succ, List.foldr_append, List.foldr_cons, List.foldr_nil, ih, List.map_append,
      Nat.ofDigits_append, List.length_map, List.length_range, List.map_singleton,
      Nat.ofDigits_singleton, Nat.mul_comm (256 ^ n), Nat.add_assoc]

theorem addressOf_inj {m m' : Area} (h : addressOf m = addressOf m') {k : Nat} (hk : k < 8) :
    m k = m' k := by
  unfold addressOf at h
  rw [foldr_ofDigits, foldr_ofDigits, Nat.add_zero, Nat.add_zero] at h
  have hlt : ∀ m : Area, ∀ d ∈ (List.range 8).map fun k => (m k).toNat, d < 256 := by
    intro m d hd
    obtain ⟨k, -, rfl⟩ := List.mem_map.mp hd
    exact (m k).isLt
  have hlen : ((List.range 8).map fun k => (m k).toNat).length =
      ((List.range 8).map fun k => (m' k).toNat).length := by
    rw [List.length_map, List.length_map]
  have hdigits := Nat.ofDigits_inj_of_len_eq (by omega) hlen (hlt m) (hlt m') h
  exact BitVec.eq_of_toNat_eq (List.map_inj_left.mp hdigits k (List.mem_range.mpr hk))

theorem addressOf_eq_iff {m : Area} {a : Nat} (h : a < 2 ^ 64) :
    addressOf m = a ↔ ∀ k < 8, m k = addressBytes a k := by
  constructor
  · intro heq k hk
    exact addressOf_inj (heq.trans (addressOf_addressBytes h).symm) hk
  · intro hbytes
    exact (addressOf_congr hbytes).trans (addressOf_addressBytes h)

theorem signExtend_of_lt {m : Area} {n k : Nat} (h : k < n) : signExtend m n k = m k := if_pos h

theorem signExtend_extend_iff {m : Area} {n : Nat} (hpos : 0 < n) (h8 : n < 8) :
    (∀ k < 8, signExtend (m.extend n) n k = m.extend n k) ↔ (m (n - 1)).msb = false := by
  have hlast : (m.extend n) (n - 1) = m (n - 1) := Area.extend_of_lt (by omega)
  constructor
  · intro h
    have hn := h n h8
    unfold signExtend at hn
    rw [if_neg (Nat.lt_irrefl n), hlast] at hn
    unfold Area.extend at hn
    rw [if_neg (Nat.lt_irrefl n)] at hn
    unfold signByte at hn
    cases hm : (m (n - 1)).msb with
    | false => rfl
    | true =>
      rw [hm] at hn
      cases hn
  · intro h k _
    unfold signExtend
    split
    · rfl
    · rename_i hk
      rw [hlast]
      unfold signByte Area.extend
      rw [h, if_neg hk]
      rfl

end NodeFfi.Bytes
