import NodeFfi.Libffi.Target

/-!
# The bytes of the arguments on the stack

The loop of `ffi_prep_cif_machdep` in `x86/ffi.c` aligns the offset of every argument as its type is,
while `ffi_prep_args` and `ffi_prep_incoming_args_SYSV` align it as a word is. The two come to the same
number of bytes just as long as no argument needs any padding (`bytesFrom_eq_iff`).
-/

namespace NodeFfi.Libffi

open Layout

/-- The loop over the arguments, for an `FFI_SIZEOF_ARG`. -/
def prepBytes (arg : BitVec 64) : List FfiType → BitVec 32 → BitVec 32
  | [], bytes => bytes
  | t :: ts, bytes =>
    let bytes :=
      if (t.alignment - 1).setWidth 32 &&& bytes ≠ 0 then
        (align (bytes.setWidth 64) t.alignArg).setWidth 32
      else bytes
    prepBytes arg ts (bytes + (align t.size arg).setWidth 32)

/-- The bytes up to the end of the arguments after `b`, when nothing wraps around. -/
def bytesFrom (arg : Nat) : List FfiType → Nat → Nat
  | [], b => b
  | t :: ts, b => bytesFrom arg ts (roundUp b t.alignment.toNat + roundUp t.size.toNat arg)

/-- The same without the alignments. -/
def packedFrom (arg : Nat) : List FfiType → Nat → Nat
  | [], b => b
  | t :: ts, b => packedFrom arg ts (b + roundUp t.size.toNat arg)

/-- No argument needs padding. -/
def Dense (arg : Nat) : List FfiType → Nat → Prop
  | [], _ => True
  | t :: ts, b => t.alignment.toNat ∣ b ∧ Dense arg ts (b + roundUp t.size.toNat arg)

section

variable {arg : Nat} {ts : List FfiType} {b c : Nat}

theorem packedFrom_eq : packedFrom arg ts b = b + packedFrom arg ts 0 := by
  induction ts generalizing b with
  | nil => rfl
  | cons t ts ih =>
    have hb := ih (b := b + roundUp t.size.toNat arg)
    have hzero := ih (b := 0 + roundUp t.size.toNat arg)
    unfold packedFrom
    omega

theorem packedFrom_le (hts : ∀ t ∈ ts, IsAlignment t.alignment.toNat) (hbc : b ≤ c) :
    packedFrom arg ts b ≤ bytesFrom arg ts c := by
  induction ts generalizing b c with
  | nil => exact hbc
  | cons t ts ih =>
    have hup := le_roundUp (n := c) (hts t List.mem_cons_self).pos
    exact ih (fun t ht => hts t (List.mem_cons_of_mem _ ht)) (by omega)

theorem bytesFrom_eq_iff (hts : ∀ t ∈ ts, IsAlignment t.alignment.toNat) :
    bytesFrom arg ts b = packedFrom arg ts b ↔ Dense arg ts b := by
  induction ts generalizing b with
  | nil => exact iff_of_true rfl trivial
  | cons t ts ih =>
    have hts' : ∀ t ∈ ts, IsAlignment t.alignment.toNat :=
      fun t ht => hts t (List.mem_cons_of_mem _ ht)
    have hpos := (hts t List.mem_cons_self).pos
    unfold bytesFrom packedFrom Dense
    constructor
    · intro h
      have hdvd : t.alignment.toNat ∣ b := by
        by_contra hnot
        have hne : roundUp b t.alignment.toNat ≠ b := by
          intro heq
          rw [← heq] at hnot
          exact hnot dvd_roundUp
        have hup := le_roundUp (n := b) hpos
        have hle : packedFrom arg ts (roundUp b t.alignment.toNat + roundUp t.size.toNat arg) ≤
            bytesFrom arg ts (roundUp b t.alignment.toNat + roundUp t.size.toNat arg) :=
          packedFrom_le hts' (Nat.le_refl _)
        rw [h, packedFrom_eq, packedFrom_eq (b := b + roundUp t.size.toNat arg)] at hle
        omega
      rw [roundUp_eq hdvd] at h
      exact ⟨hdvd, (ih hts').mp h⟩
    · rintro ⟨hdvd, hdense⟩
      rw [roundUp_eq hdvd]
      exact (ih hts').mpr hdense

theorem prepAlign_toNat {t : FfiType} (h : IsAlignment t.alignment.toNat) {b : BitVec 32}
    (hlt : roundUp b.toNat t.alignment.toNat < 2 ^ 32) :
    (if (t.alignment - 1).setWidth 32 &&& b ≠ 0 then
      (align (b.setWidth 64) t.alignArg).setWidth 32 else b).toNat =
      roundUp b.toNat t.alignment.toNat := by
  have hpow := h.lt_16
  split
  · have hb : (b.setWidth 64).toNat = b.toNat % 2 ^ 64 := BitVec.toNat_setWidth ..
    have ha : t.alignArg.toNat = t.alignment.toNat := by
      have := t.alignment.isLt
      unfold FfiType.alignArg
      rw [BitVec.toNat_setWidth]
      omega
    rw [BitVec.toNat_setWidth, align_toNat hb ha hpow]
    omega
  · rename_i hmask
    have hzero : ((t.alignment - 1).setWidth 32 &&& b).toNat = 0 := by
      rw [not_not.mp hmask]
      rfl
    obtain ⟨k, hk, hpow⟩ := hpow
    have hpos := Nat.two_pow_pos k
    have halign := t.alignment.isLt
    have hsub : ((t.alignment - 1).setWidth 32).toNat = 2 ^ k - 1 := by
      rw [BitVec.toNat_setWidth, BitVec.toNat_sub, hpow, show (1 : BitVec 16).toNat = 1 from rfl]
      omega
    rw [BitVec.toNat_and, hsub, Nat.and_comm, Nat.and_two_pow_sub_one_eq_mod, ← hpow] at hzero
    exact (roundUp_eq (Nat.dvd_of_mod_eq_zero hzero)).symm

theorem le_bytesFrom (hts : ∀ t ∈ ts, IsAlignment t.alignment.toNat) : b ≤ bytesFrom arg ts b := by
  have hle : packedFrom arg ts b ≤ bytesFrom arg ts b := packedFrom_le hts (Nat.le_refl b)
  rw [packedFrom_eq] at hle
  omega

/-- **What the loop computes** when nothing wraps around. -/
theorem prepBytes_toNat (hts : ∀ t ∈ ts, IsAlignment t.alignment.toNat) {word : BitVec 64}
    (hword : word.toNat = arg) (hpow : ∃ k < 16, arg = 2 ^ k) {b : BitVec 32}
    (h : bytesFrom arg ts b.toNat < 2 ^ 32) :
    (prepBytes word ts b).toNat = bytesFrom arg ts b.toNat := by
  induction ts generalizing b with
  | nil => rfl
  | cons t ts ih =>
    have hts' : ∀ t ∈ ts, IsAlignment t.alignment.toNat :=
      fun t ht => hts t (List.mem_cons_of_mem _ ht)
    unfold bytesFrom at h ⊢
    have hle : roundUp b.toNat t.alignment.toNat + roundUp t.size.toNat arg ≤
        bytesFrom arg ts (roundUp b.toNat t.alignment.toNat + roundUp t.size.toNat arg) :=
      le_bytesFrom hts'
    have halign := prepAlign_toNat (hts t List.mem_cons_self) (b := b) (by omega)
    have hsize : ((align t.size word).setWidth 32).toNat = roundUp t.size.toNat arg := by
      have hself : t.size.toNat = t.size.toNat % 2 ^ 64 := by
        have := t.size.isLt
        omega
      rw [BitVec.toNat_setWidth, align_toNat hself hword hpow]
      omega
    unfold prepBytes
    simp only
    have hsum : ((if (t.alignment - 1).setWidth 32 &&& b ≠ 0 then
        (align (b.setWidth 64) t.alignArg).setWidth 32 else b) +
          (align t.size word).setWidth 32).toNat =
        roundUp b.toNat t.alignment.toNat + roundUp t.size.toNat arg := by
      rw [BitVec.toNat_add, halign, hsize]
      omega
    rw [ih hts' (by rw [hsum]; exact h), hsum]

end

end NodeFfi.Libffi
