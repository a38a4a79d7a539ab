import NodeFfi.Types.Builtin

/-!
# Type objects and their `ffi_type`

The type objects of `ref`, `ref-array` and `ref-struct` as far as `lib/type.js` reads them, and its
function `Type` (`TypeObject.toFfiType`). `refType(T)` is made from `T` by `Object.create`, with
one more indirection, so every other property of `T` is seen through it.

`Type` keeps the structure it builds in the type's `ffi_type` property; the same type then has the
same structure again, which for a tree is the structure it would build.
-/

namespace NodeFfi.Types

open Libffi

inductive TypeObject where
  | builtin (b : Builtin)
  /-- `ref.refType(ref.types.void)`. -/
  | voidPointer
  /-- `ref.refType(type)`. -/
  | refType (type : TypeObject)
  /-- `ArrayType(type, fixedLength)`. -/
  | arrayType (type : TypeObject) (fixedLength : Nat) (pos : 0 < fixedLength)
  /-- `ArrayType(type)`, of any length: a pointer to the first element. -/
  | variableArray (type : TypeObject)
  /-- `StructType` with the types of its fields in order. -/
  | structType (fields : List TypeObject)

namespace TypeObject

/-! ### Properties -/

def indirection : TypeObject → Nat
  | .builtin _ | .arrayType _ _ _ | .variableArray _ | .structType _ => 1
  | .voidPointer => 2
  | .refType t => t.indirection + 1

/-- `ffi_type`, which `ffi.js` sets on the built-in types. -/
def ffiType? : TypeObject → Option FfiType
  | .builtin b => some b.ffiTypeName.ffiType
  -- `ffi_type_void`
  | .voidPointer => some ⟨1, 1, 0, none⟩
  | .refType t => t.ffiType?
  | .arrayType _ _ _ | .variableArray _ | .structType _ => none

/-- `type`, which array types have. -/
def type? : TypeObject → Option TypeObject
  | .builtin _ | .voidPointer | .structType _ => none
  | .refType t => t.type?
  | .arrayType t _ _ | .variableArray t => some t

/-- `fields`, which struct types have. -/
def fields? : TypeObject → Option (List TypeObject)
  | .builtin _ | .voidPointer | .arrayType _ _ _ | .variableArray _ => none
  | .refType t => t.fields?
  | .structType fields => some fields

/-- `fixedLength`; `undefined > 0` is `0 > 0`. -/
def fixedLength : TypeObject → Nat
  | .builtin _ | .voidPointer | .variableArray _ | .structType _ => 0
  | .refType t => t.fixedLength
  | .arrayType _ n _ => n

theorem indirection_pos (t : TypeObject) : 1 ≤ t.indirection := by
  cases t <;> simp [indirection]

theorem sizeOf_type? {t t' : TypeObject} (h : t.type? = some t') : sizeOf t' < sizeOf t := by
  match t with
  | .refType t =>
    have ih := sizeOf_type? (t := t) h
    simp only [refType.sizeOf_spec]
    omega
  | .arrayType t n pos =>
    cases h
    simp only [arrayType.sizeOf_spec]
    omega
  | .variableArray t =>
    cases h
    simp only [variableArray.sizeOf_spec]
    omega

theorem sizeOf_fields? {t field : TypeObject} {fields : List TypeObject}
    (h : t.fields? = some fields) (hmem : field ∈ fields) : sizeOf field < sizeOf t := by
  match t with
  | .refType t =>
    have ih := sizeOf_fields? (t := t) h hmem
    simp only [refType.sizeOf_spec]
    omega
  | .structType fields' =>
    cases h
    have := List.sizeOf_lt_of_mem hmem
    simp only [structType.sizeOf_spec]
    omega

/-! ### The elements buffer -/

/-- The first loop over the fields. -/
def countElements (fields : List TypeObject) : Nat :=
  fields.foldl (fun numElements field =>
    if field.fixedLength > 0 then numElements + field.fixedLength else numElements + 1) 0

/-- `n` times `elements.writePointer(ptr, (index++) * ref.sizeof.pointer)`. -/
def writePointers (ptr : FfiType) :
    Nat → List (Option FfiType) × Nat → List (Option FfiType) × Nat
  | 0, buffer => buffer
  | n + 1, (elements, index) => writePointers ptr n (elements.set index (some ptr), index + 1)

/-- The second loop, with the pointer of each field and how often it is written. -/
def fillElements (pointers : List (FfiType × Nat)) (buffer : List (Option FfiType) × Nat) :
    List (Option FfiType) × Nat :=
  pointers.foldl (fun buffer p => writePointers p.1 p.2 buffer) buffer

/-- The elements that C finds before the first `NULL`. -/
def readElements : List (Option FfiType) → List FfiType
  | some ptr :: rest => ptr :: readElements rest
  | _ => []

/-- `elements` of a structure with these fields. -/
def buildElements (numElements : Nat) (pointers : List (FfiType × Nat)) : List FfiType :=
  let (elements, index) := fillElements pointers (List.replicate (numElements + 1) none, 0)
  readElements (elements.set index none)

/-- The slots of `elements` that a field takes. -/
def slots (field : TypeObject) : Nat := if field.fixedLength > 0 then field.fixedLength else 1

theorem countElements_eq (fields : List TypeObject) :
    countElements fields = (fields.map slots).sum := by
  have h : ∀ n, fields.foldl (fun numElements field =>
      if field.fixedLength > 0 then numElements + field.fixedLength else numElements + 1) n =
        n + (fields.map slots).sum := by
    induction fields with
    | nil => simp
    | cons field fields ih =>
      intro n
      rw [List.foldl_cons, ih, List.map_cons, List.sum_cons]
      unfold slots
      split <;> omega
  have h0 := h 0
  rw [Nat.zero_add] at h0
  exact h0

/-- The elements written for a list of pointers. -/
def written (pointers : List (FfiType × Nat)) : List FfiType :=
  pointers.flatMap fun p => List.replicate p.2 p.1

theorem writePointers_eq (ptr : FfiType) (n k : Nat) (done : List (Option FfiType)) :
    writePointers ptr n (done ++ List.replicate (n + k) none, done.length) =
      (done ++ List.replicate n (some ptr) ++ List.replicate k none, done.length + n) := by
  induction n generalizing done with
  | zero => simp [writePointers]
  | succ n ih =>
    have hset : (done ++ List.replicate (n + 1 + k) none).set done.length (some ptr) =
        (done ++ [some ptr]) ++ List.replicate (n + k) none := by
      rw [show n + 1 + k = (n + k) + 1 by omega, List.replicate_succ, List.set_append_right _ _
        (Nat.le_refl _), Nat.sub_self, List.set_cons_zero, List.append_assoc]
      rfl
    have hlen : done.length + 1 = (done ++ [some ptr]).length := by simp
    rw [writePointers, hset, hlen, ih, List.replicate_succ]
    simp only [List.append_assoc, List.length_append, List.length_singleton, Prod.mk.injEq]
    refine ⟨rfl, by omega⟩

theorem fillElements_eq (pointers : List (FfiType × Nat)) (k : Nat)
    (done : List (Option FfiType)) :
    fillElements pointers
        (done ++ List.replicate ((pointers.map Prod.snd).sum + k) none, done.length) =
      (done ++ (written pointers).map some ++ List.replicate k none,
        done.length + (pointers.map Prod.snd).sum) := by
  induction pointers generalizing done with
  | nil => simp [fillElements, written]
  | cons p pointers ih =>
    have hstep := writePointers_eq p.1 p.2 ((pointers.map Prod.snd).sum + k) done
    have hlen : done.length + p.2 = (done ++ List.replicate p.2 (some p.1)).length := by simp
    unfold fillElements at ih ⊢
    rw [List.foldl_cons, List.map_cons, List.sum_cons, Nat.add_assoc, hstep, hlen, ih]
    simp only [written, List.flatMap_cons, List.map_append, List.map_replicate, List.append_assoc,
      List.length_append, List.length_replicate, Prod.mk.injEq]
    refine ⟨trivial, by omega⟩

theorem readElements_some (ptrs : List FfiType) :
    readElements (ptrs.map some ++ [none]) = ptrs := by
  induction ptrs with
  | nil => rfl
  | cons ptr ptrs ih => simp only [List.map_cons, List.cons_append, readElements, ih]

theorem buildElements_eq (pointers : List (FfiType × Nat)) :
    buildElements (pointers.map Prod.snd).sum pointers = written pointers := by
  have h := fillElements_eq pointers 1 []
  simp only [List.nil_append, List.length_nil, Nat.zero_add, List.replicate_one] at h
  have hlen : (pointers.map Prod.snd).sum = ((written pointers).map some).length := by
    simp [written, List.length_flatMap]
  unfold buildElements
  rw [h]
  simp only
  rw [hlen, List.set_append_right _ _ (Nat.le_refl _), Nat.sub_self, List.set_cons_zero]
  exact readElements_some _

/-! ### `Type` -/

def undetermined : String := "Could not determine the `ffi_type` instance for type: "

-- `hmem` and `htype` are for the termination of the function.
set_option linter.unusedVariables false in
/-- `Type`. The lookup by name at its end is for types that have none of the properties, which none
of these is. -/
def toFfiType (type : TypeObject) : Except String FfiType :=
  let rtn := if type.indirection = 1 then type.ffiType? else some FfiTypeName.pointer.ffiType
  match rtn with
  | some rtn => .ok rtn
  | none =>
    if type.type?.isSome then .ok FfiTypeName.pointer.ffiType
    else
      match hfields : type.fields? with
      | some fields => do
        let pointers ← fields.attach.mapM fun ⟨field, hmem⟩ =>
          if field.fixedLength > 0 then
            match htype : field.type? with
            | some t => do return (← toFfiType t, field.fixedLength)
            | none => .error undetermined
          else do return (← toFfiType field, 1)
        return Libffi.structType (buildElements (countElements fields) pointers)
      | none => .error undetermined
termination_by sizeOf type
decreasing_by
  · have h1 := sizeOf_type? htype
    have h2 := sizeOf_fields? hfields hmem
    omega
  · exact sizeOf_fields? hfields hmem

/-- The pointer that the second loop writes for a field, and how often. -/
def fieldPointer (field : TypeObject) : Except String (FfiType × Nat) :=
  if field.fixedLength > 0 then
    match field.type? with
    | some t => do return (← toFfiType t, field.fixedLength)
    | none => .error undetermined
  else do return (← toFfiType field, 1)

theorem toFfiType_struct (fields : List TypeObject) :
    (structType fields).toFfiType = do
      let pointers ← fields.mapM fieldPointer
      return Libffi.structType (buildElements (countElements fields) pointers) := by
  rw [toFfiType]
  simp only [indirection, if_true, ffiType?, type?, Option.isSome_none, Bool.false_eq_true,
    if_false, fields?]
  rw [List.mapM_subtype (g := fieldPointer), List.unattach_attach]
  intro field hmem
  unfold fieldPointer
  split
  · split
    · rename_i t htype
      rw [htype]
    · rename_i htype
      rw [htype]
  · rfl

theorem toFfiType_builtin (b : Builtin) :
    (builtin b).toFfiType = .ok b.ffiTypeName.ffiType := by
  rw [toFfiType]
  rfl

end TypeObject

end NodeFfi.Types
