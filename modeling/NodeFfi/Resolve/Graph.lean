import NodeFfi.Resolve.Frame

/-!
# Graphs of types

The type objects that `ref`, `ref-struct` and `ref-array` make of types that have their `ffi_type`.
Only a pointer type has a prototype that matters here, the type it points to; so `Type` never comes
to the names, and never throws (`toFfiType_outcome`).

A pointer type inherits everything else from the type it points to, the `fixedLength` of an array
included. So a field whose type is a pointer to an array of fixed length is taken for such an array
(`element`).

`ref` is what `Type` would return at once. It only ever becomes known, it never changes: a call
that is under way for a struct type, and comes to the same type again before it has remembered
anything, does not end.
-/

namespace NodeFfi.Resolve

open Js

/-- How a type object was made. -/
inductive Node (O : Type) where
  /-- A type with an `ffi_type` of its own. -/
  | scalar (ffiType : Ref)
  | structType
  /-- `ArrayType(type, fixedLength)`; the length is `0` for one that varies. -/
  | arrayType (type : O) (fixedLength : Nat)
  /-- `ref.refType(type)`, which is `Object.create(type)` with one more indirection. -/
  | refType (type : O)

/-- Type objects. A pointer type is made from one that is there. -/
structure Graph (O : Type) where
  node : O → Node O
  rank : O → Nat
  rank_lt : ∀ o t, node o = .refType t → rank t < rank o
  isBuffer : ∀ o r, node o = .scalar r → r.isBuffer = true

namespace Graph

variable {O : Type} (G : Graph O)

/-- The indirection, as far as `n` pointers. -/
def levels : Nat → O → Nat
  | 0, _ => 1
  | n + 1, o =>
    match G.node o with
    | .refType t => levels n t + 1
    | _ => 1

def indirection (o : O) : Nat := G.levels (G.rank o + 1) o

/-- The type behind the pointers, as far as `n` of them. -/
def behind : Nat → O → O
  | 0, o => o
  | n + 1, o =>
    match G.node o with
    | .refType t => behind n t
    | _ => o

def pointee (o : O) : O := G.behind (G.rank o + 1) o

def world : World O where
  proto o :=
    match G.node o with
    | .refType t => some t
    | _ => none
  depth := G.rank
  proto_depth o p h := by
    split at h
    · rename_i t ht
      obtain rfl := Option.some.inj h
      exact G.rank_lt o t ht
    · cases h
  indirection o := some (G.indirection o)
  name _ := none
  type o :=
    match G.node o with
    | .arrayType t _ => some t
    | _ => none
  fixedLength o :=
    match G.node o with
    | .arrayType _ n => some n
    | _ => none

/-- What `Type` returns for a type without building anything. -/
def ref (h : Heap O) (o : O) : Option Ref :=
  match G.node o with
  | .scalar r => some r
  | .arrayType _ _ | .refType _ => some Ref.pointer
  | .structType => (h.ffiType o).join

/-- The type objects have the properties that they were made with; a struct type has an `ffi_type`
if `Type` has made one for it. -/
structure Fits (h : Heap O) : Prop where
  scalar : ∀ o r, G.node o = .scalar r → h.ffiType o = some (some r) ∧ h.fields o = none
  array : ∀ o t n, G.node o = .arrayType t n → h.ffiType o = none ∧ h.fields o = none
  refType : ∀ o t, G.node o = .refType t → h.ffiType o = none ∧ h.fields o = none
  struct : ∀ o, G.node o = .structType → (∃ fields, h.fields o = some fields) ∧
    (h.ffiType o = none ∨ ∃ n, h.ffiType o = some (some (.made n)))
  /-- A pointer to an `FFI_TYPE` leads to one that was made. -/
  valid : ∀ o n, G.ref h o = some (.made n) → n < h.made.length

/-- The type that a field counts as, and how many elements of it. -/
def element (field : O) : O × Nat :=
  match G.node (G.pointee field) with
  | .arrayType t (n + 1) => (t, n + 1)
  | _ => (field, 1)

theorem element_count_pos (f : O) : 0 < (G.element f).2 := by
  unfold element
  split
  · exact Nat.succ_pos _
  · exact Nat.one_pos

/-- The elements of a structure with these fields, as far as `Type` has them. -/
def elementRefs (h : Heap O) : List O → Option (List Ref)
  | [] => some []
  | field :: fields =>
    match G.ref h (G.element field).1, elementRefs h fields with
    | some r, some rest => some (List.replicate (G.element field).2 r ++ rest)
    | _, _ => none

/-- `Type` of the struct type `t` calls `Type` of `u`. -/
def Recurs (fields : O → Option (List O)) (t u : O) : Prop :=
  G.node t = .structType ∧ ∃ fs field, fields t = some fs ∧ field ∈ fs ∧ u = (G.element field).1

/-! ### Reading properties -/

variable {G}

theorem proto_refType {o t : O} (h : G.node o = .refType t) : G.world.proto o = some t := by
  show (match G.node o with | .refType t => some t | _ => none) = some t
  rw [h]

theorem levels_pos (n : Nat) (o : O) : 1 ≤ G.levels n o := by
  cases n with
  | zero => exact Nat.le_refl _
  | succ n =>
    unfold levels
    split <;> omega

theorem ref_isBuffer {h : Heap O} (hfits : G.Fits h) {o : O} {r : Ref} (hr : G.ref h o = some r) :
    r.isBuffer = true := by
  unfold ref at hr
  split at hr
  · rename_i q hnode
    obtain rfl := Option.some.inj hr
    exact G.isBuffer o q hnode
  · obtain rfl := Option.some.inj hr
    rfl
  · obtain rfl := Option.some.inj hr
    rfl
  · rename_i hnode
    rcases (hfits.struct o hnode).2 with hnone | ⟨n, hn⟩
    · rw [hnone] at hr
      cases hr
    · rw [hn] at hr
      obtain rfl : Ref.made n = r := by simpa using hr
      rfl

theorem indirection_refType {o t : O} (h : G.node o = .refType t) :
    ∃ n, G.indirection o = n + 2 := by
  have hpos := G.levels_pos (G.rank o) t
  refine ⟨G.levels (G.rank o) t - 1, ?_⟩
  simp only [indirection, levels, h]
  omega

theorem indirection_of_not_ref {o : O} (h : ∀ t, G.node o ≠ .refType t) : G.indirection o = 1 := by
  rw [indirection, levels]
  split
  · rename_i t ht
    exact absurd ht (h t)
  · rfl

theorem proto_of_not_ref {o : O} (h : ∀ t, G.node o ≠ .refType t) : G.world.proto o = none := by
  show (match G.node o with | .refType t => some t | _ => none) = none
  split
  · rename_i t ht
    exact absurd ht (h t)
  · rfl

theorem behind_of_le {n : Nat} {o : O} (h : G.rank o < n) : G.behind n o = G.pointee o := by
  unfold pointee
  induction n using Nat.strongRecOn generalizing o with
  | ind n ih =>
    obtain ⟨n, rfl⟩ : ∃ k, n = k + 1 := ⟨n - 1, by omega⟩
    unfold behind
    cases hnode : G.node o with
    | refType t =>
      have hrank := G.rank_lt o t hnode
      simp only
      rw [ih n (by omega) (by omega)]
      rcases Nat.lt_or_eq_of_le (Nat.le_of_lt_succ h) with hlt | heq
      · rw [ih (G.rank o) (by omega) hrank]
      · subst heq
        rw [ih (G.rank o) (by omega) hrank]
    | scalar _ | structType | arrayType _ _ => rfl

theorem pointee_refType {o t : O} (h : G.node o = .refType t) : G.pointee o = G.pointee t := by
  rw [pointee, behind, h]
  exact behind_of_le (G.rank_lt o t h)

theorem pointee_of_not_ref {o : O} (h : ∀ t, G.node o ≠ .refType t) : G.pointee o = o := by
  rw [pointee, behind]
  split
  · rename_i t ht
    exact absurd ht (h t)
  · rfl

theorem read_pointee {α : Type} {own : O → Option α}
    (hown : ∀ o t, G.node o = .refType t → own o = none) (o : O) :
    G.world.read own o = own (G.pointee o) := by
  induction hr : G.rank o using Nat.strongRecOn generalizing o with
  | ind n ih =>
    cases hnode : G.node o with
    | refType t =>
      have hrank := G.rank_lt o t hnode
      rw [World.read_of_proto (hown o t hnode) (proto_refType hnode), pointee_refType hnode]
      exact ih (G.rank t) (by omega) t rfl
    | scalar _ | structType | arrayType _ _ =>
      have hnot : ∀ t, G.node o ≠ .refType t := fun t ht => by
        rw [hnode] at ht
        cases ht
      rw [World.read_of_proto_none own (proto_of_not_ref hnot), pointee_of_not_ref hnot]

theorem elementType_eq (field : O) :
    G.world.elementType field = (some (G.element field).1, (G.element field).2) := by
  have hlength : G.world.read G.world.fixedLength field =
      G.world.fixedLength (G.pointee field) :=
    read_pointee (fun o t h => by simp only [world, h]) field
  have htype : G.world.read G.world.type field = G.world.type (G.pointee field) :=
    read_pointee (fun o t h => by simp only [world, h]) field
  unfold World.elementType World.readFixedLength element
  rw [hlength, htype]
  cases hnode : G.node (G.pointee field) with
  | arrayType t n =>
    simp only [world, hnode, Option.getD_some]
    cases n with
    | zero => rfl
    | succ n => simp
  | scalar _ | structType | refType _ => simp [world, hnode]

/-! ### The branches -/

section branch

variable {h : Heap O} {o : O}

theorem read_indirection : G.world.read G.world.indirection o = some (G.indirection o) :=
  World.read_of_own rfl

theorem branch_refType {t : O} (hnode : G.node o = .refType t) :
    G.world.branch h o = .done (.ok Ref.pointer) := by
  obtain ⟨n, hn⟩ := indirection_refType hnode
  unfold World.branch
  rw [read_indirection, hn]
  simp

theorem branch_of_not_ref (hnot : ∀ t, G.node o ≠ .refType t) :
    G.world.branch h o =
      match (h.ffiType o).join with
      | some rtn => .done (.ok rtn)
      | none =>
        if (G.world.type o).isSome then .done (.ok Ref.pointer)
        else
          match h.fields o with
          | some fields => .struct fields
          | none => .done (.error .undetermined) := by
  have hproto := proto_of_not_ref hnot
  unfold World.branch
  rw [read_indirection, indirection_of_not_ref hnot]
  simp only [if_true, World.readFfiType, World.read_of_proto_none _ hproto]
  rfl

theorem branch_scalar (hfits : G.Fits h) {r : Ref} (hnode : G.node o = .scalar r) :
    G.world.branch h o = .done (.ok r) := by
  rw [branch_of_not_ref (fun t ht => by rw [hnode] at ht; cases ht), (hfits.scalar o r hnode).1]
  rfl

theorem branch_array (hfits : G.Fits h) {t : O} {n : Nat} (hnode : G.node o = .arrayType t n) :
    G.world.branch h o = .done (.ok Ref.pointer) := by
  rw [branch_of_not_ref (fun t ht => by rw [hnode] at ht; cases ht), (hfits.array o t n hnode).1]
  simp [world, hnode]

theorem branch_struct (hnode : G.node o = .structType) {fields : List O}
    (hfields : h.fields o = some fields) :
    G.world.branch h o =
      match (h.ffiType o).join with
      | some r => .done (.ok r)
      | none => .struct fields := by
  rw [branch_of_not_ref (fun t ht => by rw [hnode] at ht; cases ht), hfields]
  simp [world, hnode]

theorem branch_eq (hfits : G.Fits h) (o : O) :
    (∃ r, G.ref h o = some r ∧ G.world.branch h o = .done (.ok r)) ∨
      (G.node o = .structType ∧ h.ffiType o = none ∧ G.ref h o = none ∧
        ∃ fields, h.fields o = some fields ∧ G.world.branch h o = .struct fields) := by
  cases hnode : G.node o with
  | scalar r => exact .inl ⟨r, by rw [ref, hnode], branch_scalar hfits hnode⟩
  | arrayType t n => exact .inl ⟨Ref.pointer, by rw [ref, hnode], branch_array hfits hnode⟩
  | refType t => exact .inl ⟨Ref.pointer, by rw [ref, hnode], branch_refType hnode⟩
  | structType =>
    obtain ⟨⟨fields, hfields⟩, hffi⟩ := hfits.struct o hnode
    have hbranch := branch_struct hnode hfields
    rcases hffi with hnone | ⟨n, hsome⟩
    · rw [hnone] at hbranch
      exact .inr ⟨rfl, hnone, by rw [ref, hnode, hnone]; rfl, fields, hfields, hbranch⟩
    · rw [hsome] at hbranch
      exact .inl ⟨.made n, by rw [ref, hnode, hsome]; rfl, hbranch⟩

end branch

end Graph

end NodeFfi.Resolve
