import NodeFfi.Layout.CType
import NodeFfi.Libffi.Status

/-!
# Aggregates

`ffi_type`, and `initialize_aggregate` of `prep_cif.c`, which computes the size and the alignment
of a structure from its elements. All of it is `size_t` arithmetic, so the sizes are those of the
natural layout modulo `2 ^ 64` (`initializeElements_of_completes`), and a structure whose size is
`0` is refused.

An `ffi_type` is a tree here. In memory the same `ffi_type` may be an element several times; it is
completed at its first occurrence and found complete at the others, with the same result.
-/

namespace NodeFfi.Libffi

open Layout

/-- `ffi_type`; `elements` is `none` for `NULL` and leaves out the `NULL` at the end. -/
inductive FfiType where
  | mk (size : BitVec 64) (alignment : BitVec 16) (type : BitVec 16)
    (elements : Option (List FfiType))

namespace FfiType

def size : FfiType → BitVec 64
  | mk size _ _ _ => size

def alignment : FfiType → BitVec 16
  | mk _ alignment _ _ => alignment

def elements : FfiType → Option (List FfiType)
  | mk _ _ _ elements => elements

end FfiType

/-- `ALIGN`. -/
def align (v a : BitVec 64) : BitVec 64 := ((v - 1) ||| (a - 1)) + 1

/-- The alignment of a type as `ALIGN` takes it. -/
def FfiType.alignArg (t : FfiType) : BitVec 64 := t.alignment.setWidth 64

mutual

/-- `initialize_aggregate`: the status and what `arg` is afterwards. -/
def initializeAggregate : FfiType → Status × FfiType
  | ⟨size, alignment, type, none⟩ => (.badTypedef, ⟨size, alignment, type, none⟩)
  | ⟨_, _, type, some elements⟩ =>
    match initializeElements 0 0 elements with
    | (.ok, size, alignment, elements) =>
      let size := align size (alignment.setWidth 64)
      (if size = 0 then .badTypedef else .ok, ⟨size, alignment, type, some elements⟩)
    | (_, size, alignment, elements) =>
      (.badTypedef, ⟨size, alignment, type, some elements⟩)

/-- The loop over the elements, with `arg->size` and `arg->alignment` so far. -/
def initializeElements (size : BitVec 64) (alignment : BitVec 16) :
    List FfiType → Status × BitVec 64 × BitVec 16 × List FfiType
  | [] => (.ok, size, alignment, [])
  | ptr :: rest =>
    match if ptr.size = 0 then initializeAggregate ptr else (.ok, ptr) with
    | (.ok, ptr) =>
      let size := align size ptr.alignArg + ptr.size
      let alignment := if alignment > ptr.alignment then alignment else ptr.alignment
      match initializeElements size alignment rest with
      | (status, size, alignment, rest) => (status, size, alignment, ptr :: rest)
    | (_, ptr) => (.badTypedef, size, alignment, ptr :: rest)

end

/-- The offset at which the loop places each element, once they are complete. -/
def elementOffsets (size : BitVec 64) : List FfiType → List (BitVec 64)
  | [] => []
  | ptr :: rest =>
    align size ptr.alignArg :: elementOffsets (align size ptr.alignArg + ptr.size) rest

/-! ### The arithmetic -/

theorem or_mask (n k : Nat) : n ||| (2 ^ k - 1) = n / 2 ^ k * 2 ^ k + (2 ^ k - 1) := by
  have hlt : 2 ^ k - 1 < 2 ^ k := Nat.sub_lt (Nat.two_pow_pos k) Nat.one_pos
  rw [Nat.mul_comm, Nat.two_pow_add_eq_or_of_lt hlt]
  apply Nat.eq_of_testBit_eq
  intro i
  simp only [Nat.testBit_or, Nat.testBit_two_pow_sub_one, Nat.testBit_two_pow_mul,
    Nat.testBit_div_two_pow]
  by_cases h : i < k
  · simp [h]
  · simp only [h, decide_false, Bool.or_false]
    have hk : k ≤ i := by omega
    simp [hk]

theorem align_zero (a : BitVec 64) : align 0 a = 0 := by
  have h : (0 - 1 : BitVec 64) = BitVec.allOnes 64 := by decide
  unfold align
  rw [h, BitVec.allOnes_or]
  decide

theorem sub_one_toNat {v : BitVec 64} (h : 0 < v.toNat) : (v - 1).toNat = v.toNat - 1 := by
  have hlt := v.isLt
  have hone : (1 : BitVec 64).toNat = 1 := rfl
  rw [BitVec.toNat_sub, hone]
  omega

theorem align_toNat {v a : BitVec 64} {n b : Nat} (hv : v.toNat = n % 2 ^ 64) (ha : a.toNat = b)
    (hb : ∃ k < 16, b = 2 ^ k) : (align v a).toNat = roundUp n b % 2 ^ 64 := by
  obtain ⟨k, hk, rfl⟩ := hb
  have hpos := Nat.two_pow_pos k
  have hdvd : 2 ^ k ∣ 2 ^ 64 := Nat.pow_dvd_pow 2 (by omega)
  rw [← roundUp_mod hdvd, ← hv]
  rcases Nat.eq_zero_or_pos v.toNat with h0 | h0
  · have hzero : v = 0 := BitVec.eq_of_toNat_eq h0
    rw [hzero, align_zero]
    have hround : roundUp 0 (2 ^ k) = 0 := roundUp_eq (Nat.dvd_zero _)
    exact (congrArg (· % 2 ^ 64) hround).symm
  · have hdiv : (v.toNat + (2 ^ k - 1)) / 2 ^ k = (v.toNat - 1) / 2 ^ k + 1 := by
      rw [show v.toNat + (2 ^ k - 1) = v.toNat - 1 + 2 ^ k by omega, Nat.add_div_right _ hpos]
    have hone : (1 : BitVec 64).toNat = 1 := rfl
    unfold align roundUp
    rw [BitVec.toNat_add, BitVec.toNat_or, sub_one_toNat h0, sub_one_toNat (by omega), ha, or_mask,
      hdiv, Nat.succ_mul, hone]
    congr 1
    omega

/-! ### The loop -/

/-- The size and the alignment that a completed type has, the size modulo `2 ^ 64`. -/
structure IsExtent (ptr : FfiType) (e : Extent) : Prop where
  size : ptr.size.toNat = e.size % 2 ^ 64
  alignment : ptr.alignment.toNat = e.align

/-- What the loop does with an element before it reads it. -/
def complete (ptr : FfiType) : Status × FfiType :=
  if ptr.size = 0 then initializeAggregate ptr else (.ok, ptr)

/-- The element is or becomes a type of this extent. -/
def Completes (ptr : FfiType) (e : Extent) : Prop :=
  ∃ ptr', complete ptr = (.ok, ptr') ∧ IsExtent ptr' e

theorem IsExtent.alignArg {ptr : FfiType} {e : Extent} (h : IsExtent ptr e) :
    ptr.alignArg.toNat = e.align := by
  have hlt := ptr.alignment.isLt
  unfold FfiType.alignArg
  rw [BitVec.toNat_setWidth, h.alignment]
  have := h.alignment
  omega

theorem IsExtent.advance {ptr : FfiType} {e : Extent} (h : IsExtent ptr e) {size : BitVec 64}
    {n : Nat} (hsize : size.toNat = n % 2 ^ 64) :
    (align size ptr.alignArg).toNat = roundUp n e.align % 2 ^ 64 ∧
      (align size ptr.alignArg + ptr.size).toNat =
        (roundUp n e.align + e.size) % 2 ^ 64 := by
  have halign := align_toNat hsize h.alignArg e.align_pow
  refine ⟨halign, ?_⟩
  rw [BitVec.toNat_add, halign, h.size]
  omega

theorem initializeElements_cons (size : BitVec 64) (alignment : BitVec 16) (ptr : FfiType)
    (rest : List FfiType) : initializeElements size alignment (ptr :: rest) =
      match complete ptr with
      | (.ok, ptr) =>
        match initializeElements (align size ptr.alignArg + ptr.size)
          (if alignment > ptr.alignment then alignment else ptr.alignment) rest with
        | (status, size, alignment, rest) => (status, size, alignment, ptr :: rest)
      | (_, ptr) => (.badTypedef, size, alignment, ptr :: rest) := by
  rw [initializeElements]
  rfl

theorem initializeElements_of_completes {ptrs : List FfiType} {es : List Extent}
    (h : List.Forall₂ Completes ptrs es) {size : BitVec 64} {n : Nat}
    (hsize : size.toNat = n % 2 ^ 64) (alignment : BitVec 16) :
    ∃ size' alignment' ptrs',
      initializeElements size alignment ptrs = (.ok, size', alignment', ptrs') ∧
      size'.toNat = finish n es % 2 ^ 64 ∧
      alignment'.toNat = max alignment.toNat (maxAlign es) ∧ List.Forall₂ IsExtent ptrs' es := by
  induction h generalizing size n alignment with
  | nil =>
    refine ⟨size, alignment, [], ?_, hsize, ?_, .nil⟩
    · rw [initializeElements]
    · simp [maxAlign]
  | @cons ptr e ptrs es hptr _ ih =>
    obtain ⟨ptr', hc, he⟩ := hptr
    obtain ⟨size', alignment', ptrs', hrun, hfin, hmax, hall⟩ := ih (he.advance hsize).2
      (if alignment > ptr'.alignment then alignment else ptr'.alignment)
    refine ⟨size', alignment', ptr' :: ptrs', ?_, hfin, ?_, .cons he hall⟩
    · rw [initializeElements_cons, hc]
      simp only [hrun]
    · rw [hmax, maxAlign, ← he.alignment]
      split
      · have : ptr'.alignment.toNat < alignment.toNat := ‹_›
        omega
      · have : ¬ ptr'.alignment.toNat < alignment.toNat := ‹_›
        omega

theorem initializeElements_of_fails {ptrs : List FfiType}
    (h : ∃ ptr ∈ ptrs, (complete ptr).1 ≠ .ok) (size : BitVec 64) (alignment : BitVec 16) :
    (initializeElements size alignment ptrs).1 ≠ .ok := by
  induction ptrs generalizing size alignment with
  | nil =>
    obtain ⟨_, hmem, _⟩ := h
    cases hmem
  | cons ptr ptrs ih =>
    rw [initializeElements_cons]
    rcases hc : complete ptr with ⟨status, ptr'⟩
    cases status with
    | ok =>
      obtain ⟨bad, hmem, hbad⟩ := h
      rcases List.mem_cons.mp hmem with rfl | hmem
      · rw [hc] at hbad
        exact absurd rfl hbad
      · exact ih ⟨bad, hmem, hbad⟩ _ _
    | badTypedef | badAbi => exact Status.noConfusion

theorem elementOffsets_eq {ptrs : List FfiType} {es : List Extent}
    (h : List.Forall₂ IsExtent ptrs es) {size : BitVec 64} {n : Nat}
    (hsize : size.toNat = n % 2 ^ 64) :
    (elementOffsets size ptrs).map BitVec.toNat = (offsets n es).map (· % 2 ^ 64) := by
  induction h generalizing size n with
  | nil => rfl
  | @cons ptr e ptrs es he _ ih =>
    obtain ⟨hoff, hnext⟩ := he.advance hsize
    simp only [elementOffsets, offsets, List.map_cons, hoff, ih hnext]

/-- **`initialize_aggregate` computes the structure of its elements**, modulo `2 ^ 64`, and refuses
it when its size comes out as `0`. -/
theorem initializeAggregate_of_completes {ptrs : List FfiType} {es : List Extent}
    (h : List.Forall₂ Completes ptrs es) (size : BitVec 64) (alignment type : BitVec 16) :
    ∃ ptr' ptrs', initializeAggregate ⟨size, alignment, type, some ptrs⟩ =
        (if (Extent.ofParts es).size % 2 ^ 64 = 0 then .badTypedef else .ok, ptr') ∧
      ptr'.size.toNat = (Extent.ofParts es).size % 2 ^ 64 ∧
      (es ≠ [] → ptr'.alignment.toNat = (Extent.ofParts es).align) ∧
      ptr'.elements = some ptrs' ∧ List.Forall₂ IsExtent ptrs' es := by
  have hzero : (0 : BitVec 64).toNat = 0 % 2 ^ 64 := rfl
  obtain ⟨size', alignment', ptrs', hrun, hfin, hmax, hall⟩ :=
    initializeElements_of_completes h hzero 0
  have halign : alignment'.toNat = maxAlign es := by
    rw [hmax]
    exact Nat.max_eq_right (Nat.zero_le _)
  have hsize : (align size' (alignment'.setWidth 64)).toNat =
      (Extent.ofParts es).size % 2 ^ 64 := by
    rcases maxAlign_pow es with h0 | hpow
    · obtain rfl := maxAlign_eq_zero.mp h0
      have : size' = 0 := BitVec.eq_of_toNat_eq hfin
      rw [this, align_zero]
      rfl
    · have hpos : 0 < maxAlign es := by
        obtain ⟨k, _, hk⟩ := hpow
        rw [hk]
        exact Nat.two_pow_pos k
      have hlt := alignment'.isLt
      have ha : (alignment'.setWidth 64).toNat = maxAlign es := by
        rw [BitVec.toNat_setWidth, halign]
        omega
      rw [align_toNat hfin ha hpow]
      simp only [Extent.ofParts]
      rw [Nat.max_eq_right hpos]
  refine ⟨⟨align size' (alignment'.setWidth 64), alignment', type, some ptrs'⟩, ptrs', ?_, hsize,
    ?_, rfl, hall⟩
  · rw [initializeAggregate, hrun]
    simp only [Prod.mk.injEq, and_true]
    have hiff : align size' (alignment'.setWidth 64) = 0 ↔
        (Extent.ofParts es).size % 2 ^ 64 = 0 := by
      rw [← hsize]
      exact ⟨fun h => congrArg BitVec.toNat h, fun h => BitVec.eq_of_toNat_eq h⟩
    simp only [hiff]
  · intro hne
    have hpos : maxAlign es ≠ 0 := fun h => hne (maxAlign_eq_zero.mp h)
    simp only [FfiType.alignment, halign, Extent.ofParts]
    omega

theorem initializeAggregate_of_fails {ptrs : List FfiType}
    (h : ∃ ptr ∈ ptrs, (complete ptr).1 ≠ .ok) (size : BitVec 64) (alignment type : BitVec 16) :
    (initializeAggregate ⟨size, alignment, type, some ptrs⟩).1 ≠ .ok := by
  have hfail := initializeElements_of_fails h 0 0
  rw [initializeAggregate]
  rcases hrun : initializeElements 0 0 ptrs with ⟨status, size', alignment', ptrs'⟩
  rw [hrun] at hfail
  cases status with
  | ok => exact absurd rfl hfail
  | badTypedef | badAbi => exact Status.noConfusion

end NodeFfi.Libffi
