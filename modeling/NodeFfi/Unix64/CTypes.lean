import NodeFfi.Types.Builtin
import NodeFfi.Unix64.Abi
import NodeFfi.Unix64.RoundTrip

/-!
# Calls with C types

A parameter of a C type is described to libffi by elements whose structures `ffi_prep_cif`
completes (`Becomes`), and is laid out then (`Becomes.laid`). Calls with such parameters go through
if no structure in them straddles a word (`Whole`).
-/

namespace NodeFfi.Unix64

open Libffi Layout Bytes Types

/-- What `ffi_prep_cif` makes of a type. -/
def Becomes {S : Type} (ffi : S → FfiType) (t : CType S) (ptr' : FfiType) : Prop :=
  ∃ ptr, elementsOf ffi t = [ptr] ∧ complete ptr = (.ok, ptr')

theorem Becomes.laid {S : Type} {ffi : S → FfiType} {sc : S → Extent}
    (hbase : ∀ s, ffi s ∈ baseTypes) (hextent : ∀ s, IsExtent (ffi s) (sc s))
    (hpos : ∀ s, 0 < (sc s).size) {t : CType S} (hpop : t.Populated)
    (hlt : (t.extent sc).size < 2 ^ 64) {ptr' : FfiType} (h : Becomes ffi t ptr') : Laid ptr' := by
  obtain ⟨ptr, helements, hcomplete⟩ := h
  have hptr : ptr ∈ elementsOf ffi t := by
    rw [helements]
    exact List.mem_singleton_self ptr
  obtain ⟨ptr₁, hcomplete₁, hlaid⟩ := laid_elementsOf hbase hextent hpos t hpop hlt hptr
  rw [(Prod.mk.inj (hcomplete.symm.trans hcomplete₁)).2]
  exact hlaid

theorem scalar_mem_baseTypes (s : Scalar) : s.ffiType ∈ baseTypes := by
  cases s with
  | pointer => simp [baseTypes, Scalar.ffiType, FfiTypeName.ffiType]
  | builtin b => cases b <;> simp [baseTypes, Scalar.ffiType, Builtin.ffiTypeName,
      FfiTypeName.ffiType]

/-- The C types of the parameters and of the result of a function. -/
structure Signature (result : Option (CType Scalar)) (parameters : List (CType Scalar)) : Prop where
  populated : ∀ t ∈ result.toList ++ parameters, t.Populated
  small : ∀ t ∈ result.toList ++ parameters, (t.extent Scalar.extent).size < 2 ^ 64

section signature

variable {result : Option (CType Scalar)} {parameters : List (CType Scalar)}

theorem Signature.laid (h : Signature result parameters) {t : CType Scalar}
    (ht : t ∈ result.toList ++ parameters) {ptr : FfiType}
    (hbecomes : Becomes Scalar.ffiType t ptr) : Laid ptr :=
  hbecomes.laid scalar_mem_baseTypes (fun s => s.ffiType_extent.2) Scalar.extent_size_pos
    (h.populated t ht) (h.small t ht)

theorem parameters_spec (h : Signature result parameters) {ptrs : List FfiType}
    (hptrs : List.Forall₂ (Becomes Scalar.ffiType) parameters ptrs) : ∀ ptr ∈ ptrs, Laid ptr := by
  intro ptr hptr
  obtain ⟨i, hi, rfl⟩ := List.getElem_of_mem hptr
  have hi' : i < parameters.length := by
    rw [hptrs.length_eq]
    exact hi
  exact h.laid (List.mem_append_right _ (List.getElem_mem hi')) (hptrs.get hi' hi)

theorem result_spec (h : Signature result parameters) {rtype : Option FfiType}
    (hrtype : Option.Rel (Becomes Scalar.ffiType) result rtype) : ∀ t ∈ rtype, Laid t := by
  intro ptr hptr
  cases hrtype with
  | none => cases hptr
  | some hbecomes =>
    obtain rfl := Option.some.inj hptr
    exact h.laid List.mem_cons_self hbecomes

/-- **A function of C types can be called**: the closure's function sees the scalars of all
arguments, and the caller gets the result. -/
theorem callClosure_signature (left : Leftovers) (h : Signature result parameters)
    {rtype : Option FfiType} {ptrs : List FfiType}
    (hrtype : Option.Rel (Becomes Scalar.ffiType) result rtype)
    (hptrs : List.Forall₂ (Becomes Scalar.ffiType) parameters ptrs)
    (hwhole : ∀ ptr ∈ ptrs, Whole ptr 0) {avalue : List Area} {stack rvalue allocated : Nat}
    (memory : Area) (f : List Area → Area) (hlength : avalue.length = ptrs.length)
    (hstack : 16 ∣ stack) (hbytes : stackBytes rtype ptrs < 2 ^ 32 - 8)
    (hwrap : stack + registerArgsSize + stackBytes rtype ptrs < 2 ^ 64)
    (hrvalue : rvalue < 2 ^ 64) (hallocated : allocated < 2 ^ 64) :
    ∃ outcome, callClosure left rtype ptrs rvalue avalue stack allocated memory f = some outcome ∧
      Sees ptrs avalue outcome.arguments ∧
      Returns rtype (f outcome.arguments) outcome.memory (resultPlace rtype rvalue allocated) ∧
      ∀ b, b < stack ∨ stack + registerArgsSize + stackBytes rtype ptrs + 40 ≤ b →
        b < resultPlace rtype rvalue allocated ∨
          resultPlace rtype rvalue allocated + max 8 (resultSize rtype) ≤ b →
        outcome.memory b = memory b := by
  have hlaid := parameters_spec h hptrs
  exact callClosure_spec left memory f (result_spec h hrtype) hlaid hlength hstack hbytes hwrap
    hrvalue hallocated (passable_of_whole hlaid hwhole _)

end signature

theorem sees_singleton {t : FfiType} {a : Area} {arguments : List Area}
    (h : Sees [t] [a] arguments) :
    ∃ b, arguments = [b] ∧ ∀ k, Covers (leaves t) k → b k = a k := by
  match arguments, h with
  | [b], h => exact ⟨b, rfl, h.1⟩

theorem callClosure_signature_nested : ∃ outcome,
    callClosure .zeros (some ⟨8, 8, 3, none⟩)
      [⟨16, 8, ffiTypeStruct, some
        [⟨8, 4, ffiTypeStruct, some [⟨4, 4, 10, none⟩, ⟨4, 4, 10, none⟩]⟩, ⟨8, 8, 3, none⟩]⟩]
      8192 [fun k => .ofNat 8 (k + 1)] 4096 0 .zero
      (fun arguments => (arguments.headD .zero).at_ 8) = some outcome ∧
    ∀ k < 8, outcome.memory (8192 + k) = .ofNat 8 (8 + k + 1) := by
  let pair : CType Scalar := .struct [.scalar (.builtin .int), .scalar (.builtin .int)]
  let nested : CType Scalar := .struct [pair, .scalar (.builtin .double)]
  have hsignature : Signature (some (.scalar (.builtin .double))) [nested] :=
    ⟨by simp [nested, pair, CType.Populated, CType.AllPopulated],
      by simp [nested, pair, CType.extent, CType.extents]; decide⟩
  have hdouble : Becomes Scalar.ffiType (.scalar (.builtin .double)) ⟨8, 8, 3, none⟩ :=
    ⟨_, rfl, rfl⟩
  have hnested : Becomes Scalar.ffiType nested ⟨16, 8, ffiTypeStruct, some
      [⟨8, 4, ffiTypeStruct, some [⟨4, 4, 10, none⟩, ⟨4, 4, 10, none⟩]⟩, ⟨8, 8, 3, none⟩]⟩ :=
    ⟨_, rfl, rfl⟩
  obtain ⟨outcome, hrun, hsees, hreturns, -⟩ := callClosure_signature .zeros hsignature
    (.some hdouble) (.cons hnested .nil) (by decide) .zero
    (fun arguments => (arguments.headD .zero).at_ 8)
    (show [fun k => BitVec.ofNat 8 (k + 1)].length = [_].length from rfl)
    (show 16 ∣ 4096 by decide) (by decide) (by decide) (show 8192 < 2 ^ 64 by decide)
    (show 0 < 2 ^ 64 by decide)
  refine ⟨outcome, hrun, fun k hk => ?_⟩
  obtain ⟨argument, harguments, hbytes⟩ := sees_singleton hsees
  have hcovers : Covers (leaves ⟨16, 8, ffiTypeStruct, some [⟨8, 4, ffiTypeStruct,
      some [⟨4, 4, 10, none⟩, ⟨4, 4, 10, none⟩]⟩, ⟨8, 8, 3, none⟩]⟩) (8 + k) :=
    ⟨(8, ⟨8, 8, 3, none⟩), .tail _ (.tail _ (.head _)), Nat.le_add_right 8 k,
      Nat.add_lt_add_left hk 8⟩
  have hvalue := hreturns _ rfl k hk
  rw [harguments] at hvalue
  exact hvalue.trans (hbytes (8 + k) hcovers)

end NodeFfi.Unix64
