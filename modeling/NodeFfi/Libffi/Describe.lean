import Mathlib.Data.List.Forall2
import NodeFfi.Libffi.Aggregate

/-!
# Describing C types to libffi

The elements that describe a structure to libffi are those of its fields in order, a structure
field as one element and an array element by element. From them `initialize_aggregate` finds the
layout of the structure modulo `2 ^ 64`, unless some structure in it comes out with size `0`
(`initializeAggregate_struct`).
-/

namespace NodeFfi.Libffi

open Layout

/-- `FFI_TYPE_STRUCT`. -/
def ffiTypeStruct : BitVec 16 := 13

/-- A structure that is not yet initialized. -/
def structType (elements : List FfiType) : FfiType := ⟨0, 0, ffiTypeStruct, some elements⟩

theorem complete_structType (elements : List FfiType) :
    complete (structType elements) = initializeAggregate (structType elements) :=
  if_pos (rfl : (structType elements).size = 0)

section describe

variable {S : Type} (ffi : S → FfiType)

mutual

/-- The elements of a structure with one field of this type. -/
def elementsOf : CType S → List FfiType
  | .scalar s => [ffi s]
  | .array t n _ => (List.replicate n (elementsOf t)).flatten
  | .struct fields => [structType (fieldElements fields)]

def fieldElements : List (CType S) → List FfiType
  | [] => []
  | t :: ts => elementsOf t ++ fieldElements ts

end

variable {ffi} {sc : S → Extent}

theorem initializeAggregate_refines {ptrs : List FfiType} {es : List Extent}
    {pss : List (List Extent)} (h : List.Forall₂ Completes ptrs pss.flatten) (hr : Refines es pss)
    (hsize : (Extent.ofParts es).size % 2 ^ 64 ≠ 0) :
    ∃ ptr' ptrs', initializeAggregate (structType ptrs) = (.ok, ptr') ∧
      IsExtent ptr' (Extent.ofParts es) ∧
      ptr'.elements = some ptrs' ∧ List.Forall₂ IsExtent ptrs' pss.flatten := by
  obtain ⟨ptr', ptrs', hrun, hs, ha, hel, hall⟩ :=
    initializeAggregate_of_completes h 0 0 ffiTypeStruct
  rw [hr.ofParts] at hrun hs ha
  rw [if_neg hsize] at hrun
  have hne : pss.flatten ≠ [] := by
    intro hnil
    rw [← hr.ofParts, hnil] at hsize
    exact hsize rfl
  exact ⟨ptr', ptrs', hrun, ⟨hs, ha hne⟩, hel, hall⟩

mutual

theorem completes_elementsOf (hffi : ∀ s, (ffi s).size ≠ 0 ∧ IsExtent (ffi s) (sc s)) (t : CType S)
    (h : t.Sized sc (2 ^ 64)) : List.Forall₂ Completes (elementsOf ffi t) (t.pieces sc) := by
  match t with
  | .scalar s =>
    unfold elementsOf CType.pieces
    refine .cons ⟨ffi s, ?_, (hffi s).2⟩ .nil
    unfold complete
    rw [if_neg (hffi s).1]
  | .array t n pos =>
    unfold CType.Sized at h
    have ih := completes_elementsOf hffi t h
    unfold elementsOf CType.pieces
    clear pos
    induction n with
    | zero => exact .nil
    | succ n ihn =>
      rw [List.replicate_succ, List.replicate_succ, List.flatten_cons, List.flatten_cons]
      exact List.rel_append ih ihn
  | .struct fields =>
    unfold CType.Sized at h
    have ih := completes_fieldElements hffi fields h.1
    unfold elementsOf CType.pieces
    obtain ⟨ptr', _, hrun, he, _⟩ :=
      initializeAggregate_refines ih (CType.refines_pieces sc fields) h.2
    exact .cons ⟨ptr', (complete_structType _).trans hrun, he⟩ .nil

theorem completes_fieldElements (hffi : ∀ s, (ffi s).size ≠ 0 ∧ IsExtent (ffi s) (sc s))
    (ts : List (CType S)) (h : CType.AllSized sc (2 ^ 64) ts) :
    List.Forall₂ Completes (fieldElements ffi ts) (ts.map (CType.pieces sc)).flatten := by
  match ts with
  | [] =>
    unfold fieldElements
    exact .nil
  | t :: ts =>
    unfold CType.AllSized at h
    unfold fieldElements
    exact List.rel_append (completes_elementsOf hffi t h.1) (completes_fieldElements hffi ts h.2)

end

mutual

theorem fails_elementsOf (hffi : ∀ s, (ffi s).size ≠ 0 ∧ IsExtent (ffi s) (sc s)) (t : CType S)
    (h : ¬ t.Sized sc (2 ^ 64)) : ∃ ptr ∈ elementsOf ffi t, (complete ptr).1 ≠ .ok := by
  match t with
  | .scalar s =>
    unfold CType.Sized at h
    exact absurd trivial h
  | .array t n pos =>
    unfold CType.Sized at h
    obtain ⟨ptr, hmem, hfail⟩ := fails_elementsOf hffi t h
    refine ⟨ptr, ?_, hfail⟩
    unfold elementsOf
    rw [List.mem_flatten]
    exact ⟨_, List.mem_replicate.mpr ⟨by omega, rfl⟩, hmem⟩
  | .struct fields =>
    refine ⟨structType (fieldElements ffi fields), ?_, ?_⟩
    · unfold elementsOf
      exact List.mem_singleton.mpr rfl
    · rw [complete_structType]
      exact fails_struct hffi fields h

theorem fails_fieldElements (hffi : ∀ s, (ffi s).size ≠ 0 ∧ IsExtent (ffi s) (sc s))
    (ts : List (CType S)) (h : ¬ CType.AllSized sc (2 ^ 64) ts) :
    ∃ ptr ∈ fieldElements ffi ts, (complete ptr).1 ≠ .ok := by
  match ts with
  | [] =>
    unfold CType.AllSized at h
    exact absurd trivial h
  | t :: ts =>
    unfold CType.AllSized at h
    unfold fieldElements
    by_cases ht : t.Sized sc (2 ^ 64)
    · obtain ⟨ptr, hmem, hfail⟩ := fails_fieldElements hffi ts fun hts => h ⟨ht, hts⟩
      exact ⟨ptr, List.mem_append_right _ hmem, hfail⟩
    · obtain ⟨ptr, hmem, hfail⟩ := fails_elementsOf hffi t ht
      exact ⟨ptr, List.mem_append_left _ hmem, hfail⟩

theorem fails_struct (hffi : ∀ s, (ffi s).size ≠ 0 ∧ IsExtent (ffi s) (sc s))
    (fields : List (CType S)) (h : ¬ (CType.struct fields).Sized sc (2 ^ 64)) :
    (initializeAggregate (structType (fieldElements ffi fields))).1 ≠ .ok := by
  unfold CType.Sized at h
  by_cases hall : CType.AllSized sc (2 ^ 64) fields
  · have hzero : (Extent.ofParts (CType.extents sc fields)).size % 2 ^ 64 = 0 := by
      by_contra hne
      exact h ⟨hall, hne⟩
    obtain ⟨ptr', _, hrun, _⟩ := initializeAggregate_of_completes
      (completes_fieldElements hffi fields hall) 0 0 ffiTypeStruct
    rw [(CType.refines_pieces sc fields).ofParts, if_pos hzero] at hrun
    unfold structType
    rw [hrun]
    exact Status.noConfusion
  · exact initializeAggregate_of_fails (fails_fieldElements hffi fields hall) 0 0 ffiTypeStruct

end

/-- **What libffi finds for a structure**: its layout modulo `2 ^ 64`, unless the structure or one
inside it has a size of `0` modulo `2 ^ 64`. -/
theorem initializeAggregate_struct (hffi : ∀ s, (ffi s).size ≠ 0 ∧ IsExtent (ffi s) (sc s))
    (fields : List (CType S)) (h : (CType.struct fields).Sized sc (2 ^ 64)) :
    ∃ ptr' ptrs', initializeAggregate (structType (fieldElements ffi fields)) = (.ok, ptr') ∧
      IsExtent ptr' ((CType.struct fields).extent sc) ∧ ptr'.elements = some ptrs' ∧
      (elementOffsets 0 ptrs').map BitVec.toNat =
        (offsets 0 (fields.map (CType.pieces sc)).flatten).map (· % 2 ^ 64) := by
  unfold CType.Sized at h
  obtain ⟨ptr', ptrs', hrun, he, hel, hall⟩ := initializeAggregate_refines
    (completes_fieldElements hffi fields h.1) (CType.refines_pieces sc fields) h.2
  refine ⟨ptr', ptrs', hrun, ?_, hel, elementOffsets_eq hall rfl⟩
  unfold CType.extent
  exact he

end describe

end NodeFfi.Libffi
