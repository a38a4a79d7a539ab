import Mathlib.Data.List.Basic

/-!
# Filling a buffer from the front

A buffer of words of `width` bytes, with the writes to it at their byte offsets. `Front` says that
a buffer was written from the front on, each word once and nothing else. It is kept by a write at
the end of what is there (`Front.write`), and it gives the bounds, the order and the contents
(`Front.in_bounds`, `Front.offsets`, `Front.full`).
-/

namespace NodeFfi.Layout

/-- A buffer; a word that was not written is `none`. -/
structure Slots (α : Type) where
  words : List (Option α)
  /-- The writes in order: the offset, and what is written. -/
  writes : List (Nat × α)
  deriving DecidableEq, Repr

namespace Slots

variable {α : Type}

/-- A new buffer of `n` words. -/
def alloc (n : Nat) : Slots α := ⟨List.replicate n none, []⟩

def write (width : Nat) (b : Slots α) (offset : Nat) (a : α) : Slots α :=
  ⟨b.words.set (offset / width) (some a), b.writes ++ [(offset, a)]⟩

/-- The first words of the buffer, which has `n`, were written with `as` one after the other. -/
structure Front (width n : Nat) (as : List α) (b : Slots α) : Prop where
  le : as.length ≤ n
  words : b.words = as.map some ++ List.replicate (n - as.length) none
  writes : b.writes = as.mapIdx fun i a => (i * width, a)

variable {width n : Nat} {as : List α} {b : Slots α}

theorem front_alloc (width n : Nat) : Front width n [] (alloc n : Slots α) where
  le := Nat.zero_le n
  words := rfl
  writes := rfl

namespace Front

theorem write (h : Front width n as b) (hwidth : 0 < width) (hlt : as.length < n) (a : α) :
    Front width n (as ++ [a]) (b.write width (as.length * width) a) where
  le := by
    rw [List.length_append]
    exact hlt
  words := by
    obtain ⟨k, hk⟩ : ∃ k, n - as.length = k + 1 := ⟨n - as.length - 1, by omega⟩
    have hk' : n - (as ++ [a]).length = k := by
      rw [List.length_append, List.length_singleton]
      omega
    have hlen : as.length = (as.map some).length := (List.length_map _).symm
    rw [Slots.write, h.words, hk, hk', Nat.mul_div_cancel _ hwidth, List.replicate_succ, hlen,
      List.set_append_right _ _ (Nat.le_refl _), Nat.sub_self, List.set_cons_zero]
    simp
  writes := by
    rw [Slots.write, h.writes, List.mapIdx_append]
    simp

theorem length (h : Front width n as b) : b.words.length = n := by
  rw [h.words, List.length_append, List.length_map, List.length_replicate]
  exact Nat.add_sub_cancel' h.le

theorem in_bounds (h : Front width n as b) : ∀ p ∈ b.writes, p.1 + width ≤ width * n := by
  intro p hp
  rw [h.writes, List.mem_mapIdx] at hp
  obtain ⟨i, hi, rfl⟩ := hp
  have hlt : i + 1 ≤ n := Nat.lt_of_lt_of_le hi h.le
  calc i * width + width = (i + 1) * width := (Nat.succ_mul i width).symm
    _ ≤ n * width := Nat.mul_le_mul_right width hlt
    _ = width * n := Nat.mul_comm n width

theorem offsets (h : Front width n as b) :
    b.writes.map Prod.fst = (List.range as.length).map (· * width) := by
  rw [h.writes]
  apply List.ext_getElem
  · simp
  · intro i hi hi'
    simp

/-- A buffer that was filled to the end holds what was written. -/
theorem full (h : Front width n as b) (hlen : as.length = n) : b.words = as.map some := by
  rw [h.words, hlen, Nat.sub_self, List.replicate_zero, List.append_nil]

end Front

end Slots

end NodeFfi.Layout
