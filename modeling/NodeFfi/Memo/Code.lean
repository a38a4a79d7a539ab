import Mathlib.Data.List.Basic
import Mathlib.Data.Nat.Digits.Defs

/-!
# Codes of one width

A list of symbols, each written with the same number of characters, can be read back from the text:
two lists with the same text have the same words (`BlockCode.encode_eq_iff`). Numerals of numbers
with the same number of digits are such words (`toDigits_inj`, `length_toDigits`).
-/

namespace NodeFfi.Memo

/-- Words of one positive length. -/
structure BlockCode (A C : Type) where
  word : A → List C
  width : Nat
  width_pos : 0 < width
  length_word : ∀ a, (word a).length = width

namespace BlockCode

variable {A C : Type} (code : BlockCode A C)

/-- The words one after the other. -/
def encode (l : List A) : List C := l.flatMap code.word

theorem length_encode (l : List A) : (code.encode l).length = l.length * code.width := by
  induction l with
  | nil => simp [encode]
  | cons a l ih =>
    unfold encode at ih ⊢
    rw [List.flatMap_cons, List.length_append, ih, code.length_word, List.length_cons]
    ring

theorem lengths_eq (l : List A) :
    (l.map code.word).map List.length = List.replicate l.length code.width := by
  rw [List.map_map, List.eq_replicate_iff]
  refine ⟨by simp, ?_⟩
  intro n hn
  obtain ⟨a, _, rfl⟩ := List.mem_map.mp hn
  exact code.length_word a

/-- **A text determines its words.** -/
theorem encode_eq_iff (l l' : List A) :
    code.encode l = code.encode l' ↔ l.map code.word = l'.map code.word := by
  have hflat : ∀ l, code.encode l = (l.map code.word).flatten := fun l => List.flatMap_def
  constructor
  · intro h
    have hlen : l.length = l'.length := by
      have := congrArg List.length h
      rw [length_encode, length_encode] at this
      exact Nat.eq_of_mul_eq_mul_right code.width_pos this
    rw [List.eq_iff_flatten_eq, ← hflat, ← hflat, lengths_eq, lengths_eq, hlen]
    exact ⟨h, rfl⟩
  · intro h
    rw [hflat, hflat, h]

end BlockCode

/-! ### Numerals -/

theorem digitChar_inj {m n : Nat} (hm : m < 16) (hn : n < 16)
    (h : m.digitChar = n.digitChar) : m = n := by
  have key : ∀ m n : Fin 16, m.val.digitChar = n.val.digitChar → m = n := by decide
  exact congrArg Fin.val (key ⟨m, hm⟩ ⟨n, hn⟩ h)

theorem toDigits_inj {b : Nat} (hb : 1 < b) (hb' : b ≤ 16) {m n : Nat}
    (h : Nat.toDigits b m = Nat.toDigits b n) : m = n := by
  induction m using Nat.strongRecOn generalizing n with
  | ind m ih =>
    have hm := Nat.length_toDigits_le_iff (n := m) hb Nat.one_pos
    have hn := Nat.length_toDigits_le_iff (n := n) hb Nat.one_pos
    rw [Nat.pow_one] at hm hn
    rw [h] at hm
    by_cases hlt : m < b
    · have hlt' : n < b := hn.mp (hm.mpr hlt)
      rw [Nat.toDigits_of_lt_base hlt, Nat.toDigits_of_lt_base hlt', List.cons.injEq] at h
      exact digitChar_inj (by omega) (by omega) h.1
    · have hle : b ≤ m := Nat.le_of_not_lt hlt
      have hle' : b ≤ n := Nat.le_of_not_lt fun hlt' => hlt (hm.mp (hn.mpr hlt'))
      rw [Nat.toDigits_of_base_le hb hle, Nat.toDigits_of_base_le hb hle'] at h
      obtain ⟨hinit, hlast⟩ := List.append_inj' h rfl
      rw [List.cons.injEq] at hlast
      have hmod : m % b = n % b :=
        digitChar_inj ((Nat.mod_lt m (by omega)).trans_le hb')
          ((Nat.mod_lt n (by omega)).trans_le hb') hlast.1
      have hdiv : m / b = n / b := ih (m / b) (Nat.div_lt_self (by omega) hb) hinit
      rw [← Nat.div_add_mod m b, ← Nat.div_add_mod n b, hdiv, hmod]

theorem length_toDigits {b k n : Nat} (hb : 1 < b) (hk : 0 < k) (hle : b ^ k ≤ n)
    (hlt : n < b ^ (k + 1)) : (Nat.toDigits b n).length = k + 1 := by
  have hupper := (Nat.length_toDigits_le_iff (n := n) hb (Nat.succ_pos k)).mpr hlt
  have hlower := mt (Nat.length_toDigits_le_iff (n := n) hb hk).mp (by omega)
  omega

end NodeFfi.Memo
