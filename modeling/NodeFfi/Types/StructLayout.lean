import NodeFfi.Types.TypeObject

/-!
# Structs as libffi sees them

`cType` is the C type that a type object stands for, and `described` the one that `Type` describes
to libffi. They differ in two places: a field whose type is a pointer to a fixed-length array is
described as that array, because `refType` passes `fixedLength` on, and an element of an array that
is an array itself is described as a pointer, as an array argument would be. Where a struct has no
such field the layouts agree (`agrees_of_plain`), and in general exactly when the layout of the one
type is that of the other (`struct_layout_agrees_iff`).
-/

namespace NodeFfi.Types

open Libffi Layout

namespace TypeObject

mutual

/-- The C type of a type object. -/
def cType : TypeObject → CType Scalar
  | .builtin b => .scalar (.builtin b)
  | .voidPointer | .refType _ | .variableArray _ => .scalar .pointer
  | .arrayType t n pos => .array (cType t) n pos
  | .structType fields => .struct (cTypes fields)

def cTypes : List TypeObject → List (CType Scalar)
  | [] => []
  | t :: ts => cType t :: cTypes ts

end

mutual

/-- The array that a field of this type is flattened to, through any number of `refType`s. -/
def flattened : TypeObject → Option (CType Scalar)
  | .builtin _ | .voidPointer | .variableArray _ | .structType _ => none
  | .refType t => flattened t
  | .arrayType t n pos => some (.array (described t) n pos)

/-- The C type that `Type` describes. -/
def described : TypeObject → CType Scalar
  | .builtin b => .scalar (.builtin b)
  | .voidPointer | .refType _ | .arrayType _ _ _ | .variableArray _ => .scalar .pointer
  | .structType fields => .struct (describedFields fields)

def describedFields : List TypeObject → List (CType Scalar)
  | [] => []
  | t :: ts => (flattened t).getD (described t) :: describedFields ts

end

/-! ### What `Type` returns -/

theorem flattened_eq (t : TypeObject) :
    t.fixedLength = 0 ∧ flattened t = none ∨
      ∃ u, t.type? = some u ∧ ∃ pos : 0 < t.fixedLength,
        flattened t = some (.array (described u) t.fixedLength pos) := by
  match t with
  | .builtin _ | .voidPointer | .variableArray _ | .structType _ =>
    left
    unfold flattened
    exact ⟨rfl, rfl⟩
  | .refType t =>
    have ih := flattened_eq t
    unfold flattened
    exact ih
  | .arrayType t n pos =>
    right
    unfold flattened
    exact ⟨t, rfl, pos, rfl⟩

theorem mapM_ok {α β ε : Type} {R : α → β → Prop} {f : α → Except ε β} {l : List α}
    (h : ∀ x ∈ l, ∃ y, f x = .ok y ∧ R x y) : ∃ ys, l.mapM f = .ok ys ∧ List.Forall₂ R l ys := by
  induction l with
  | nil => exact ⟨[], rfl, .nil⟩
  | cons x l ih =>
    obtain ⟨y, hy, hr⟩ := h x List.mem_cons_self
    obtain ⟨ys, hys, hrs⟩ := ih fun x' hx' => h x' (List.mem_cons_of_mem x hx')
    refine ⟨y :: ys, ?_, .cons hr hrs⟩
    rw [List.mapM_cons, hy, hys]
    rfl

/-- The pointer of a field and how often it is written, for the type it is described as. -/
def Describes (field : TypeObject) (p : FfiType × Nat) : Prop :=
  p.2 = field.slots ∧
    elementsOf Scalar.ffiType ((flattened field).getD (described field)) =
      List.replicate p.2 p.1

theorem written_describes {fields : List TypeObject} {pointers : List (FfiType × Nat)}
    (h : List.Forall₂ Describes fields pointers) :
    written pointers = fieldElements Scalar.ffiType (describedFields fields) ∧
      (pointers.map Prod.snd).sum = countElements fields := by
  rw [countElements_eq]
  induction h with
  | nil =>
    unfold describedFields fieldElements
    exact ⟨rfl, rfl⟩
  | cons hp _ ih =>
    obtain ⟨hcount, helements⟩ := hp
    unfold describedFields fieldElements
    rw [helements, ← ih.1, List.map_cons, List.map_cons, List.sum_cons, List.sum_cons, ih.2,
      ← hcount]
    exact ⟨rfl, rfl⟩

theorem elementsOf_array {t : CType Scalar} {ft : FfiType} (n : Nat) (pos : 0 < n)
    (h : elementsOf Scalar.ffiType t = [ft]) :
    elementsOf Scalar.ffiType (.array t n pos) = List.replicate n ft := by
  unfold elementsOf
  rw [h, List.flatten_replicate_singleton]

/-- **`Type` returns the description** of the type `described`. -/
theorem toFfiType_described (t : TypeObject) :
    ∃ ft, t.toFfiType = .ok ft ∧ elementsOf Scalar.ffiType (described t) = [ft] := by
  match t with
  | .builtin b =>
    refine ⟨b.ffiTypeName.ffiType, ?_, ?_⟩
    · rw [toFfiType]
      rfl
    · unfold described elementsOf
      rfl
  | .refType t =>
    refine ⟨FfiTypeName.pointer.ffiType, ?_, ?_⟩
    · have hne : (refType t).indirection ≠ 1 := by
        have := t.indirection_pos
        simp only [indirection]
        omega
      rw [toFfiType, if_neg hne]
    · unfold described elementsOf
      rfl
  | .voidPointer | .variableArray t | .arrayType t n pos =>
    refine ⟨FfiTypeName.pointer.ffiType, ?_, ?_⟩
    · rw [toFfiType]
      rfl
    · unfold described elementsOf
      rfl
  | .structType fields =>
    have hfields : ∀ field ∈ fields, ∃ p, field.fieldPointer = .ok p ∧ Describes field p := by
      intro field hmem
      unfold fieldPointer
      rcases flattened_eq field with ⟨hzero, hflat⟩ | ⟨u, htype, pos, hflat⟩
      · obtain ⟨ft, hft, hel⟩ := toFfiType_described field
        refine ⟨(ft, 1), ?_, ?_, ?_⟩
        · rw [if_neg (by omega), hft]
          rfl
        · simp [slots, hzero]
        · rw [hflat, Option.getD_none, hel]
          rfl
      · obtain ⟨ft, hft, hel⟩ := toFfiType_described u
        refine ⟨(ft, field.fixedLength), ?_, ?_, ?_⟩
        · rw [if_pos pos, htype]
          simp only [hft]
          rfl
        · simp [slots, pos]
        · rw [hflat, Option.getD_some, elementsOf_array _ pos hel]
    obtain ⟨pointers, hrun, hall⟩ := mapM_ok hfields
    obtain ⟨hwritten, hcount⟩ := written_describes hall
    refine ⟨Libffi.structType (fieldElements Scalar.ffiType (describedFields fields)), ?_, ?_⟩
    · rw [toFfiType_struct, hrun, ← hcount, ← hwritten, ← buildElements_eq]
      rfl
    · unfold described elementsOf
      rfl
termination_by sizeOf t
decreasing_by
  · have := List.sizeOf_lt_of_mem hmem
    simp only [structType.sizeOf_spec]
    omega
  · have h1 := sizeOf_type? htype
    have := List.sizeOf_lt_of_mem hmem
    simp only [structType.sizeOf_spec]
    omega

/-! ### Agreement -/

/-- libffi completes the `ffi_type` of the struct, to the size, the alignment and the field offsets
that the struct has in C. The offset of a field is that of the first slot it takes in `elements`. -/
def Agrees (fields : List TypeObject) : Prop :=
  ∃ ft ft' elements, (structType fields).toFfiType = .ok ft ∧
    initializeAggregate ft = (.ok, ft') ∧ ft'.elements = some elements ∧
    ft'.size.toNat = ((structType fields).cType.extent Scalar.extent).size ∧
    ft'.alignment.toNat = ((structType fields).cType.extent Scalar.extent).align ∧
    groupOffsets (fields.map slots) ((elementOffsets 0 elements).map BitVec.toNat) =
      (CType.fieldOffsets Scalar.extent (cTypes fields)).map some

/-- The type that is described to libffi is laid out as the struct is, all sizes in a `size_t`, and
no structure in it has the size `0`. -/
structure SameLayout (fields : List TypeObject) : Prop where
  sized : (structType fields).described.Sized Scalar.extent (2 ^ 64)
  size : ((structType fields).described.extent Scalar.extent).size % 2 ^ 64 =
    ((structType fields).cType.extent Scalar.extent).size
  align : ((structType fields).described.extent Scalar.extent).align =
    ((structType fields).cType.extent Scalar.extent).align
  offsets : (CType.fieldOffsets Scalar.extent (describedFields fields)).map (· % 2 ^ 64) =
    CType.fieldOffsets Scalar.extent (cTypes fields)

theorem pieces_described (t : TypeObject) :
    ((described t).pieces Scalar.extent).length = 1 := by
  cases t with
  | builtin | voidPointer | refType | arrayType | variableArray | structType =>
    unfold described CType.pieces
    rfl

theorem slots_eq (fields : List TypeObject) :
    ((describedFields fields).map (CType.pieces Scalar.extent)).map List.length =
      fields.map slots := by
  induction fields with
  | nil =>
    unfold describedFields
    rfl
  | cons field fields ih =>
    unfold describedFields
    rw [List.map_cons, List.map_cons, List.map_cons, ih]
    congr 1
    unfold slots
    rcases flattened_eq field with ⟨hzero, hflat⟩ | ⟨u, _, pos, hflat⟩
    · rw [hflat, hzero, Option.getD_none, pieces_described]
      rfl
    · rw [hflat, if_pos pos, Option.getD_some]
      unfold CType.pieces
      rw [List.length_flatten, List.map_replicate, pieces_described, List.sum_replicate_nat,
        Nat.mul_one]

theorem described_struct (fields : List TypeObject) :
    (structType fields).described = .struct (describedFields fields) := by
  rw [described]

theorem groupOffsets_described (fields : List TypeObject) :
    groupOffsets (fields.map slots) ((offsets 0
      ((describedFields fields).map (CType.pieces Scalar.extent)).flatten).map (· % 2 ^ 64)) =
        ((CType.fieldOffsets Scalar.extent (describedFields fields)).map (· % 2 ^ 64)).map some := by
  have h := (CType.refines_pieces Scalar.extent (describedFields fields)).groupOffsets 0
  rw [← slots_eq, groupOffsets_map, h, List.map_map, List.map_map]
  rfl

theorem agrees_iff (fields : List TypeObject) : Agrees fields ↔ SameLayout fields := by
  obtain ⟨ft, hft, hel⟩ := toFfiType_described (structType fields)
  have hstruct : ft = Libffi.structType (fieldElements Scalar.ffiType (describedFields fields)) := by
    rw [described_struct] at hel
    unfold elementsOf at hel
    exact (List.singleton_inj.mp hel).symm
  subst hstruct
  have hfound := fun h => initializeAggregate_struct Scalar.ffiType_extent (describedFields fields) h
  constructor
  · rintro ⟨ft, ft', elements, hft', hrun, hels, hsize, halign, hoff⟩
    obtain rfl := Except.ok.inj (hft.symm.trans hft')
    have hsized : (CType.struct (describedFields fields)).Sized Scalar.extent (2 ^ 64) := by
      by_contra hno
      have := fails_struct Scalar.ffiType_extent (describedFields fields) hno
      rw [hrun] at this
      exact this rfl
    obtain ⟨ptr', ptrs', hrun', he, hels', hoff'⟩ := hfound hsized
    rw [hrun] at hrun'
    obtain rfl : ft' = ptr' := (Prod.mk.inj hrun').2
    obtain rfl : elements = ptrs' := Option.some.inj (hels.symm.trans hels')
    rw [hoff', groupOffsets_described] at hoff
    rw [← described_struct] at hsized he
    refine ⟨hsized, ?_, ?_, ?_⟩
    · rw [← he.size, hsize]
    · rw [← he.alignment, halign]
    · exact List.map_injective_iff.mpr (Option.some_injective Nat) hoff
  · rintro ⟨hsized, hsize, halign, hoff⟩
    rw [described_struct] at hsized hsize halign
    obtain ⟨ptr', ptrs', hrun, he, hels, hoff'⟩ := hfound hsized
    refine ⟨_, ptr', ptrs', hft, hrun, hels, ?_, ?_, ?_⟩
    · rw [he.size, hsize]
    · rw [he.alignment, halign]
    · rw [hoff', groupOffsets_described, hoff]

/-! ### Structs without the two kinds of fields -/

mutual

/-- An argument of `Type` that is no array, and has no such field if it is a struct. -/
def PlainArgument : TypeObject → Prop
  | .builtin _ | .voidPointer | .refType _ | .variableArray _ => True
  | .arrayType _ _ _ => False
  | .structType fields => PlainFields fields

/-- No field is a pointer to a fixed-length array or an array of arrays, nor is one of a struct that
is contained in a field. -/
def PlainFields : List TypeObject → Prop
  | [] => True
  | t :: ts => PlainField t ∧ PlainFields ts

def PlainField : TypeObject → Prop
  | .builtin _ | .voidPointer | .variableArray _ => True
  | .refType t => t.fixedLength = 0
  | .arrayType t _ _ => PlainArgument t
  | .structType fields => PlainFields fields

end

mutual

theorem described_of_plain (t : TypeObject) (h : PlainArgument t) : described t = cType t := by
  match t with
  | .builtin _ | .voidPointer | .refType _ | .variableArray _ =>
    unfold described cType
    rfl
  | .arrayType t n pos =>
    unfold PlainArgument at h
    exact h.elim
  | .structType fields =>
    unfold PlainArgument at h
    unfold described cType
    rw [describedFields_of_plain fields h]

theorem describedFields_of_plain (fields : List TypeObject) (h : PlainFields fields) :
    describedFields fields = cTypes fields := by
  match fields with
  | [] =>
    unfold describedFields cTypes
    rfl
  | t :: ts =>
    unfold PlainFields at h
    unfold describedFields cTypes
    rw [field_of_plain t h.1, describedFields_of_plain ts h.2]

theorem field_of_plain (t : TypeObject) (h : PlainField t) :
    (flattened t).getD (described t) = cType t := by
  match t with
  | .builtin _ | .voidPointer | .variableArray _ =>
    unfold flattened described cType
    rfl
  | .refType t =>
    unfold PlainField at h
    rcases flattened_eq t with ⟨_, hflat⟩ | ⟨_, _, pos, _⟩
    · unfold flattened described cType
      rw [hflat]
      rfl
    · omega
  | .arrayType t n pos =>
    unfold PlainField at h
    unfold flattened cType
    rw [Option.getD_some, described_of_plain t h]
  | .structType fields =>
    unfold PlainField at h
    unfold flattened described cType
    rw [Option.getD_none, describedFields_of_plain fields h]

end

theorem agrees_of_plain (fields : List TypeObject) (hplain : PlainFields fields)
    (hpop : (structType fields).cType.Populated)
    (hlt : ((structType fields).cType.extent Scalar.extent).size < 2 ^ 64) : Agrees fields := by
  have hsame : (structType fields).described = (structType fields).cType :=
    described_of_plain _ (by unfold PlainArgument; exact hplain)
  rw [agrees_iff]
  refine ⟨?_, ?_, ?_, ?_⟩
  · rw [hsame]
    exact CType.sized_of_lt Scalar.extent_size_pos hpop hlt
  · rw [hsame, Nat.mod_eq_of_lt hlt]
  · rw [hsame]
  · rw [describedFields_of_plain fields hplain]
    have hfin : finish 0 (CType.extents Scalar.extent (cTypes fields)) ≤
        ((structType fields).cType.extent Scalar.extent).size := by
      rw [cType, CType.extent]
      exact le_roundUp (Extent.align_pos (Extent.ofParts _))
    have hsmall : ∀ o ∈ CType.fieldOffsets Scalar.extent (cTypes fields), o % 2 ^ 64 = o := by
      intro o ho
      have hle := offsets_le_finish ho
      exact Nat.mod_eq_of_lt (by omega)
    rw [List.map_congr_left hsmall, List.map_id']

/-- **libffi lays a struct out as C does exactly when the type described to it has that layout**,
which every struct has without a pointer to a fixed-length array or an array of arrays among its
fields. -/
theorem struct_layout_agrees_iff (fields : List TypeObject) :
    (Agrees fields ↔ SameLayout fields) ∧
    (PlainFields fields → (structType fields).cType.Populated →
      ((structType fields).cType.extent Scalar.extent).size < 2 ^ 64 → Agrees fields) :=
  ⟨agrees_iff fields, agrees_of_plain fields⟩

theorem struct_layout_agrees_plain :
    Agrees [.builtin .char, .voidPointer, .arrayType (.builtin .short) 5 (by decide),
      .refType (.variableArray (.builtin .int)),
      .arrayType (.structType [.builtin .double, .builtin .char]) 3 (by decide),
      .refType (.refType (.structType []))] :=
  (struct_layout_agrees_iff _).2 (by simp [PlainFields, PlainField, PlainArgument, fixedLength])
    (by simp [cType, cTypes, CType.Populated, CType.AllPopulated]) (by decide)

/-- A struct with one field, a pointer to an array of four `int`s: four elements, sixteen bytes. -/
theorem pointer_to_array_disagrees :
    ¬ Agrees [.refType (.arrayType (.builtin .int) 4 (by decide))] := by
  rw [agrees_iff]
  intro h
  have hsize := h.size
  revert hsize
  decide

theorem array_of_arrays_disagrees :
    ¬ Agrees [.arrayType (.arrayType (.builtin .int) 3 (by decide)) 2 (by decide)] := by
  rw [agrees_iff]
  intro h
  have hsize := h.size
  revert hsize
  decide

end TypeObject

end NodeFfi.Types
