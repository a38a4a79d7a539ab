import NodeFfi.Resolve.FfiTypes
import NodeFfi.Resolve.Frame

/-!
# The built-in types by name

Two tables say what the `ffi_type` of a built-in type of `ref` is. `ffi.js` sets it on the types of
its own copy of `ref` (`assigned`), and `Type` looks up the names along the chain of prototypes for
a type that has none: a type derived from a built-in one whose own `ffi_type` is `undefined`, or
a type of a separate copy of `ref` (`byName`). They differ on `size_t`, which `ffi.js` makes a
pointer and whose prototype is an integer, and on `Object`, which has no name in the table
(`tables_agree_iff`). `longlong` and `ulonglong` have the size of a `long` in both.
-/

namespace NodeFfi.Resolve

open Js Types

/-- The types of `ref.types`. -/
inductive RefType where
  | void
  | builtin (b : Builtin)
  deriving DecidableEq, Repr

namespace RefType

/-- `name`. -/
def name : RefType → String
  | .void => "void"
  | .builtin .int8 => "int8"
  | .builtin .uint8 => "uint8"
  | .builtin .int16 => "int16"
  | .builtin .uint16 => "uint16"
  | .builtin .int32 => "int32"
  | .builtin .uint32 => "uint32"
  | .builtin .int64 => "int64"
  | .builtin .uint64 => "uint64"
  | .builtin .float => "float"
  | .builtin .double => "double"
  | .builtin .object => "Object"
  | .builtin .cString => "CString"
  | .builtin .bool => "bool"
  | .builtin .byte => "byte"
  | .builtin .char => "char"
  | .builtin .uchar => "uchar"
  | .builtin .short => "short"
  | .builtin .ushort => "ushort"
  | .builtin .int => "int"
  | .builtin .uint => "uint"
  | .builtin .long => "long"
  | .builtin .ulong => "ulong"
  | .builtin .longlong => "longlong"
  | .builtin .ulonglong => "ulonglong"
  | .builtin .sizeT => "size_t"

/-- The integer type of fixed width that an alias has as prototype. -/
def fixedWidth (m : DataModel) : RefType → Option Builtin
  | .builtin .bool | .builtin .byte | .builtin .uchar => some .uint8
  | .builtin .char => some .int8
  | .builtin .short => some .int16
  | .builtin .ushort => some .uint16
  | .builtin .int => some .int32
  | .builtin .uint => some .uint32
  | .builtin .long => some (if m.longSize = 4 then .int32 else .int64)
  | .builtin .ulong => some (if m.longSize = 4 then .uint32 else .uint64)
  | .builtin .longlong => some .int64
  | .builtin .ulonglong => some .uint64
  | .builtin .sizeT => some (if m.pointerSize = 4 then .uint32 else .uint64)
  | _ => none

/-- `ref.types[name]`; there is no type with the name `pointer`. -/
def ofKey : FfiName → Option RefType
  | .void => some .void
  | .uint8 => some (.builtin .uint8)
  | .int8 => some (.builtin .int8)
  | .uint16 => some (.builtin .uint16)
  | .int16 => some (.builtin .int16)
  | .uint32 => some (.builtin .uint32)
  | .int32 => some (.builtin .int32)
  | .uint64 => some (.builtin .uint64)
  | .int64 => some (.builtin .int64)
  | .uchar => some (.builtin .uchar)
  | .char => some (.builtin .char)
  | .ushort => some (.builtin .ushort)
  | .short => some (.builtin .short)
  | .uint => some (.builtin .uint)
  | .int => some (.builtin .int)
  | .float => some (.builtin .float)
  | .double => some (.builtin .double)
  | .pointer => none
  | .ulonglong => some (.builtin .ulonglong)
  | .longlong => some (.builtin .longlong)

end RefType

/-- `Object.keys(bindings.FFI_TYPES)`. -/
def FfiName.keys : List FfiName :=
  [.void, .uint8, .int8, .uint16, .int16, .uint32, .int32, .uint64, .int64, .uchar, .char, .ushort,
    .short, .uint, .int, .float, .double, .pointer, .ulonglong, .longlong]

/-- The assignments of `ffi.js` to `ffi_type` of a type, in order: the loop over the keys, `size_t`,
`CString` and `Object`, and the `switch` on `ref.sizeof.long`. -/
def assignments (m : DataModel) : List (RefType × FfiName) :=
  FfiName.keys.filterMap (fun key => (RefType.ofKey key).map fun b => (b, key)) ++
    [(.builtin .sizeT, .pointer), (.builtin .cString, .pointer), (.builtin .object, .pointer)] ++
    if m.longSize = 4 then [(.builtin .ulong, .uint32), (.builtin .long, .int32)]
    else [(.builtin .ulong, .uint64), (.builtin .long, .int64)]

variable {O : Type} [DecidableEq O]

/-- A copy of `ref`: its types and `Object.prototype`. -/
structure RefModule (w : World O) (m : DataModel) where
  types : RefType → O
  objectPrototype : O
  injective : Function.Injective types
  proto : ∀ b, w.proto (types b) =
    some (match b.fixedWidth m with
      | some p => types (.builtin p)
      | none => objectPrototype)
  name : ∀ b, w.name (types b) = some b.name
  indirection : ∀ b, w.indirection (types b) = some 1
  type : ∀ b, w.type (types b) = none
  proto_objectPrototype : w.proto objectPrototype = none
  name_objectPrototype : w.name objectPrototype = none
  type_objectPrototype : w.type objectPrototype = none

namespace RefModule

variable {w : World O} {m : DataModel} (M : RefModule w m)

/-- The types before anything has set an `ffi_type`. -/
structure Fresh (h : Heap O) : Prop where
  ffiType : ∀ b, h.ffiType (M.types b) = none
  fields : ∀ b, h.fields (M.types b) = none
  ffiType_objectPrototype : h.ffiType M.objectPrototype = none
  fields_objectPrototype : h.fields M.objectPrototype = none

/-- What `ffi.js` does with them. -/
def setUp (h : Heap O) : Heap O :=
  (assignments m).foldl (fun h a => h.assign (M.types a.1) (some (.ffiTypes a.2))) h

end RefModule

/-- `t` is `o`, or derived from it by way of objects without a property but `ffi_type`, which is
`undefined`. -/
inductive Copy (w : World O) (h : Heap O) (o : O) : O → Prop
  | same : Copy w h o o
  | derive {t u} : w.proto t = some u → w.name t = none → w.indirection t = none →
      w.type t = none → h.fields t = none → (h.ffiType t = none ∨ h.ffiType t = some none) →
      Copy w h o u → Copy w h o t

/-- What a type is to libffi. -/
inductive Kind where
  | void
  | integer (signed : Bool)
  | float
  | pointer
  deriving DecidableEq, Repr

def LibffiType.kind : LibffiType → Kind
  | .void => .void
  | .uint8 | .uint16 | .uint32 | .uint64 => .integer false
  | .sint8 | .sint16 | .sint32 | .sint64 => .integer true
  | .float | .double => .float
  | .pointer => .pointer

/-- What `ffi.js` has assigned to a type itself. -/
def ownAssigned (m : DataModel) (b : RefType) : Option FfiName :=
  (assignments m).foldl (fun last a => if a.1 = b then some a.2 else last) none

/-- `ref.types[b].ffi_type`, which `bool` and `byte` have from their prototype. -/
def assigned (m : DataModel) (b : RefType) : Option FfiName :=
  match ownAssigned m b with
  | some name => some name
  | none => (b.fixedWidth m).bind fun p => ownAssigned m (.builtin p)

/-- What the names along the chain of prototypes stand for. -/
def byName (m : DataModel) (b : RefType) : Option FfiName :=
  if b = .builtin .cString then some .pointer
  else
    match FfiName.ofText b.name with
    | some key => some key
    | none => (b.fixedWidth m).bind fun p => FfiName.ofText (RefType.builtin p).name

/-- Kind and size. -/
def FfiName.shape (m : DataModel) (name : FfiName) : Kind × BitVec 64 :=
  ((name.libffiType m).kind, (name.libffiType m).size m)

/-- The `ffi_type` is of the same size and kind as the one that `ffi.js` has assigned, and of the
size of the type. -/
def Matches (m : DataModel) (b : RefType) (name : FfiName) : Prop :=
  (assigned m b).map (FfiName.shape m) = some (name.shape m) ∧
    match b with
    | .void => True
    | .builtin b => (name.shape m).2.toNat = b.size m

instance (m : DataModel) (b : RefType) (name : FfiName) : Decidable (Matches m b name) := by
  unfold Matches
  cases b <;> exact inferInstance

/-- `Type` of `t` succeeds with an `ffi_type` that fits the built-in type `b`. -/
def Agrees (w : World O) (m : DataModel) (h : Heap O) (t : O) (b : RefType) : Prop :=
  ∃ n name h', w.toFfiType n t h = (.ok (.ffiTypes name), h') ∧ Matches m b name

/-! ### The tables -/

theorem matches_assigned_iff (m : DataModel) (b : RefType) :
    (∃ name, assigned m b = some name ∧ Matches m b name) ↔
      (m ≠ .lp64 → b ≠ .builtin .longlong ∧ b ≠ .builtin .ulonglong) := by
  have hsome : ∃ name, assigned m b = some name := by
    rw [← Option.isSome_iff_exists]
    cases m <;> rcases b with _ | b <;> first | rfl | (cases b <;> rfl)
  obtain ⟨name, hname⟩ := hsome
  have hiff : (∀ name ∈ assigned m b, Matches m b name) ↔
      (m ≠ .lp64 → b ≠ .builtin .longlong ∧ b ≠ .builtin .ulonglong) := by
    cases m <;> rcases b with _ | b <;> first | decide | (cases b <;> decide)
  rw [← hiff, hname]
  simp

theorem matches_byName_iff (m : DataModel) (b : RefType) :
    (∃ name, byName m b = some name ∧ Matches m b name) ↔
      (b ≠ .builtin .sizeT ∧ b ≠ .builtin .object) ∧
        (m ≠ .lp64 → b ≠ .builtin .longlong ∧ b ≠ .builtin .ulonglong) := by
  have hiff : (∃ name, byName m b = some name ∧ Matches m b name) ↔
      ((byName m b).any fun name => decide (Matches m b name)) = true := by
    cases byName m b <;> simp
  rw [hiff]
  cases m <;> rcases b with _ | b <;> first | decide | (cases b <;> decide)

/-! ### Properties -/

theorem fixedWidth_fixedWidth {m : DataModel} {b : RefType} {p : Builtin}
    (hp : b.fixedWidth m = some p) :
    (RefType.builtin p).fixedWidth m = none ∧
      ∃ key, FfiName.ofText (RefType.builtin p).name = some key := by
  have hall : ∀ p ∈ b.fixedWidth m, (RefType.builtin p).fixedWidth m = none ∧
      (FfiName.ofText (RefType.builtin p).name).isSome = true := by
    cases m <;> rcases b with _ | b <;> first | decide | (cases b <;> decide)
  obtain ⟨hnone, hkey⟩ := hall p hp
  exact ⟨hnone, Option.isSome_iff_exists.mp hkey⟩

theorem ffiTypes_name (b : RefType) :
    ffiTypes b.name = (FfiName.ofText b.name).map Ref.ffiTypes := by
  rcases b with _ | b
  · decide
  · cases b <;> decide

variable {w : World O} {m : DataModel} {M : RefModule w m} {h h₀ : Heap O} {t o : O} {b : RefType}

section

omit [DecidableEq O]

theorem RefModule.ne_objectPrototype (M : RefModule w m) (b : RefType) :
    M.types b ≠ M.objectPrototype := by
  intro heq
  have hname := M.name b
  rw [heq, M.name_objectPrototype] at hname
  cases hname

theorem RefModule.read_types {α : Type} (M : RefModule w m) (own : O → Option α) (b : RefType) :
    w.read own (M.types b) = (own (M.types b)).or
      (match b.fixedWidth m with
        | some p => (own (M.types (.builtin p))).or (own M.objectPrototype)
        | none => own M.objectPrototype) := by
  have hroot := World.read_of_proto_none own M.proto_objectPrototype
  cases hown : own (M.types b) with
  | some a => rw [World.read_of_own hown, Option.some_or]
  | none =>
    rw [World.read_of_proto hown (M.proto b), Option.none_or]
    cases hp : b.fixedWidth m with
    | none => exact hroot
    | some p =>
      simp only
      have hproto := M.proto (.builtin p)
      rw [(fixedWidth_fixedWidth hp).1] at hproto
      cases hown' : own (M.types (.builtin p)) with
      | some a => rw [World.read_of_own hown', Option.some_or]
      | none => rw [World.read_of_proto hown' hproto, hroot, Option.none_or]

theorem RefModule.read_types_none {α : Type} (M : RefModule w m) {own : O → Option α}
    (hown : ∀ b, own (M.types b) = none) (hroot : own M.objectPrototype = none) (b : RefType) :
    w.read own (M.types b) = none := by
  rw [M.read_types, hown, Option.none_or]
  split
  · rw [hown, hroot, Option.none_or]
  · exact hroot

theorem Copy.read_eq {α : Type} {own : O → Option α} (hcopy : Copy w h o t)
    (hown : ∀ t, w.name t = none → w.indirection t = none → w.type t = none → h.fields t = none →
      own t = none) : w.read own t = w.read own o := by
  induction hcopy with
  | same => rfl
  | derive hproto hname hind htype hfields _ _ ih =>
    rw [World.read_of_proto (hown _ hname hind htype hfields) hproto, ih]

theorem Copy.readFfiType (hcopy : Copy w h o t) {r : Ref} (hr : w.readFfiType h t = some r) :
    w.readFfiType h o = some r := by
  induction hcopy with
  | same => exact hr
  | derive hproto _ _ _ _ hffi _ ih =>
    refine ih ?_
    rcases hffi with hnone | hundefined
    · rwa [World.readFfiType, World.read_of_proto hnone hproto] at hr
    · rw [World.readFfiType, World.read_of_own hundefined] at hr
      cases hr

end

/-! ### What `ffi.js` sets -/

theorem foldl_assign_of_ne (l : List (RefType × FfiName)) {o : O} (ho : ∀ b, M.types b ≠ o)
    (h : Heap O) :
    (l.foldl (fun h a => h.assign (M.types a.1) (some (.ffiTypes a.2))) h).ffiType o =
      h.ffiType o := by
  induction l generalizing h with
  | nil => rfl
  | cons a l ih => rw [List.foldl_cons, ih, assign_ffiType_of_ne h (ho a.1).symm]

theorem foldl_assign_types (l : List (RefType × FfiName)) (b : RefType) (h : Heap O)
    (last : Option FfiName)
    (hlast : h.ffiType (M.types b) = last.map fun name => some (.ffiTypes name)) :
    (l.foldl (fun h a => h.assign (M.types a.1) (some (.ffiTypes a.2))) h).ffiType (M.types b) =
      (l.foldl (fun last a => if a.1 = b then some a.2 else last) last).map
        fun name => some (.ffiTypes name) := by
  induction l generalizing h last with
  | nil => exact hlast
  | cons a l ih =>
    rw [List.foldl_cons, List.foldl_cons]
    refine ih _ _ ?_
    by_cases heq : a.1 = b
    · rw [if_pos heq, heq, assign_ffiType_self]
      rfl
    · rw [if_neg heq, assign_ffiType_of_ne h fun h' => heq (M.injective h').symm, hlast]

theorem foldl_assign_fields (l : List (RefType × FfiName)) (h : Heap O) :
    (l.foldl (fun h a => h.assign (M.types a.1) (some (.ffiTypes a.2))) h).fields = h.fields := by
  induction l generalizing h with
  | nil => rfl
  | cons a l ih => rw [List.foldl_cons, ih, assign_fields]

theorem setUp_fields : (M.setUp h₀).fields = h₀.fields := foldl_assign_fields (assignments m) h₀

theorem readFfiType_setUp (hfresh : M.Fresh h₀) (b : RefType) :
    w.readFfiType (M.setUp h₀) (M.types b) = (assigned m b).map Ref.ffiTypes := by
  have hown : ∀ b, (M.setUp h₀).ffiType (M.types b) =
      (ownAssigned m b).map fun name => some (.ffiTypes name) :=
    fun b => foldl_assign_types (assignments m) b h₀ none (hfresh.ffiType b)
  have hroot : (M.setUp h₀).ffiType M.objectPrototype = none := by
    rw [RefModule.setUp, foldl_assign_of_ne _ M.ne_objectPrototype, hfresh.ffiType_objectPrototype]
  rw [World.readFfiType, M.read_types, hown, hroot, assigned]
  cases ownAssigned m b with
  | some name => rfl
  | none =>
    rw [Option.map_none, Option.none_or]
    cases b.fixedWidth m with
    | none => rfl
    | some p =>
      simp only [Option.bind_some]
      rw [hown]
      cases ownAssigned m (.builtin p) <;> rfl

omit [DecidableEq O] in
theorem readFfiType_fresh (hfresh : M.Fresh h) (b : RefType) :
    w.readFfiType h (M.types b) = none := by
  rw [World.readFfiType, M.read_types_none hfresh.ffiType hfresh.ffiType_objectPrototype]
  rfl

/-! ### The lookup -/

theorem Copy.lookupNames (hcopy : Copy w h o t) (hname : (w.read w.name o).bind ffiTypes = none)
    (h₁ : Heap O) : ∃ h₂, w.lookupNames (w.chain t) h₁ = w.lookupNames (w.chain o) h₂ := by
  induction hcopy generalizing h₁ with
  | same => exact ⟨h₁, rfl⟩
  | @derive t u hproto hn hi ht hf hffi hcopy ih =>
    have hread : w.read w.name t = w.read w.name o :=
      (Copy.derive hproto hn hi ht hf hffi hcopy).read_eq fun _ hn _ _ _ => hn
    obtain ⟨h₂, hrest⟩ := ih (h₁.assign t none)
    refine ⟨h₂, ?_⟩
    rw [World.chain_of_proto hproto, World.lookupNames, Js.bind_ok (Js.modify_apply _ _), hread,
      hname]
    exact hrest

theorem lookupNames_found {cur : O} {rest : List O} {r : Ref}
    (hname : (w.read w.name cur).bind ffiTypes = some r) (h : Heap O) :
    w.lookupNames (cur :: rest) h = (.ok r, h.assign cur (some r)) := by
  rw [World.lookupNames, Js.bind_ok (Js.modify_apply _ _), hname]
  rfl

theorem lookupNames_missing {cur : O} {rest : List O}
    (hname : (w.read w.name cur).bind ffiTypes = none) (h : Heap O) :
    w.lookupNames (cur :: rest) h = w.lookupNames rest (h.assign cur none) := by
  rw [World.lookupNames, Js.bind_ok (Js.modify_apply _ _), hname]

/-- What the lookup comes to. -/
def found : Option FfiName → Except Stop Ref
  | some name => .ok (.ffiTypes name)
  | none => .error (.thrown .undetermined)

omit [DecidableEq O] in
theorem RefModule.bind_name (M : RefModule w m) (b : RefType) :
    (w.read w.name (M.types b)).bind ffiTypes = (FfiName.ofText b.name).map Ref.ffiTypes := by
  rw [World.read_of_own (M.name b), Option.bind_some, ffiTypes_name]

theorem lookupNames_copy (hcopy : Copy w h (M.types b) t) (hb : b ≠ .builtin .cString)
    (h₁ : Heap O) : (w.lookupNames (w.chain t) h₁).1 = found (byName m b) := by
  have hread : w.read w.name t = w.read w.name (M.types b) :=
    hcopy.read_eq fun _ hn _ _ _ => hn
  rw [byName, if_neg hb]
  cases hkey : FfiName.ofText b.name with
  | some key =>
    have hname : (w.read w.name t).bind ffiTypes = some (.ffiTypes key) := by
      rw [hread, M.bind_name, hkey]
      rfl
    rw [World.chain_eq, lookupNames_found hname]
    rfl
  | none =>
    have hname : (w.read w.name (M.types b)).bind ffiTypes = none := by
      rw [M.bind_name, hkey]
      rfl
    obtain ⟨h₂, hrest⟩ := hcopy.lookupNames hname h₁
    rw [hrest, World.chain_of_proto (M.proto b), lookupNames_missing hname]
    cases hp : b.fixedWidth m with
    | none =>
      have hroot : (w.read w.name M.objectPrototype).bind ffiTypes = none := by
        rw [World.read_of_proto_none _ M.proto_objectPrototype, M.name_objectPrototype]
        rfl
      simp only
      rw [World.chain_of_proto_none M.proto_objectPrototype, lookupNames_missing hroot]
      rfl
    | some p =>
      obtain ⟨_, key, hkey'⟩ := fixedWidth_fixedWidth hp
      have hname' : (w.read w.name (M.types (.builtin p))).bind ffiTypes =
          some (.ffiTypes key) := by
        rw [M.bind_name, hkey']
        rfl
      simp only [Option.bind_some, hkey']
      rw [World.chain_eq, lookupNames_found hname']
      rfl

/-! ### `Type` -/

theorem testName_name (b : RefType) : World.testName (some b.name) =
    if b = .builtin .cString then .cString else .other := by
  rcases b with _ | b
  · decide
  · cases b <;> decide

omit [DecidableEq O] in
theorem branch_copy (hcopy : Copy w h (M.types b) t) (hfields : ∀ b, h.fields (M.types b) = none)
    (hfields' : h.fields M.objectPrototype = none) :
    w.branch h t =
      match w.readFfiType h t with
      | some r => .done (.ok r)
      | none => if b = .builtin .cString then .cString else .names := by
  have hind : w.read w.indirection t = some 1 := by
    rw [hcopy.read_eq fun _ _ hi _ _ => hi]
    exact World.read_of_own (M.indirection b)
  have htype : w.read w.type t = none := by
    rw [hcopy.read_eq fun _ _ _ ht _ => ht]
    exact M.read_types_none M.type M.type_objectPrototype b
  have hfs : w.read h.fields t = none := by
    rw [hcopy.read_eq fun _ _ _ _ hf => hf]
    exact M.read_types_none hfields hfields' b
  have hname : w.read w.name t = some b.name := by
    rw [hcopy.read_eq fun _ hn _ _ _ => hn]
    exact World.read_of_own (M.name b)
  rw [World.branch, hind]
  simp only [if_true, htype, hfs, hname, testName_name]
  cases w.readFfiType h t with
  | some r => rfl
  | none =>
    by_cases hb : b = .builtin .cString
    · simp [hb]
    · simp [hb]

theorem toFfiType_byName (hcopy : Copy w h (M.types b) t)
    (hfields : ∀ b, h.fields (M.types b) = none) (hfields' : h.fields M.objectPrototype = none)
    (hnone : w.readFfiType h t = none) (n : Nat) :
    (w.toFfiType (n + 1) t h).1 = found (byName m b) := by
  rw [World.toFfiType_succ, branch_copy hcopy hfields hfields', hnone]
  by_cases hb : b = .builtin .cString
  · rw [byName, if_pos hb]
    simp only [if_pos hb]
    rfl
  · simp only [if_neg hb]
    exact lookupNames_copy hcopy hb h

theorem toFfiType_assigned (hcopy : Copy w h (M.types b) t)
    (hfields : ∀ b, h.fields (M.types b) = none) (hfields' : h.fields M.objectPrototype = none)
    {r : Ref} (hr : w.readFfiType h t = some r) (n : Nat) :
    (w.toFfiType (n + 1) t h).1 = .ok r := by
  rw [World.toFfiType_succ, branch_copy hcopy hfields hfields', hr]
  rfl

theorem agrees_iff_result {x : Option FfiName}
    (hresult : ∀ n, (w.toFfiType (n + 1) t h).1 = found x) :
    Agrees w m h t b ↔ ∃ name, x = some name ∧ Matches m b name := by
  constructor
  · rintro ⟨n, name, h', hrun, hmatch⟩
    cases n with
    | zero => cases hrun
    | succ n =>
      have hr := hresult n
      rw [hrun] at hr
      cases x with
      | none => cases hr
      | some key =>
        obtain rfl := Ref.ffiTypes.inj (Except.ok.inj hr)
        exact ⟨name, rfl, hmatch⟩
  · rintro ⟨name, rfl, hmatch⟩
    exact ⟨1, name, _, Prod.ext (hresult 0) rfl, hmatch⟩

/-- **When the two tables agree**, on a type of a copy of `ref` that `ffi.js` has set up or has
not: a type without an `ffi_type` must not be one of `size_t` and `Object`, and `longlong` and
`ulonglong` must have the size of a `long`. -/
theorem tables_agree_iff (hfresh : M.Fresh h₀) (hh : h = M.setUp h₀ ∨ h = h₀)
    (hcopy : Copy w h (M.types b) t) :
    Agrees w m h t b ↔
      (w.readFfiType h t = none → b ≠ .builtin .sizeT ∧ b ≠ .builtin .object) ∧
        (m ≠ .lp64 → b ≠ .builtin .longlong ∧ b ≠ .builtin .ulonglong) := by
  have hfields : h.fields = h₀.fields := by
    rcases hh with rfl | rfl
    · exact setUp_fields
    · rfl
  have hf : ∀ b, h.fields (M.types b) = none := fun b => by rw [hfields, hfresh.fields]
  have hf' : h.fields M.objectPrototype = none := by
    rw [hfields, hfresh.fields_objectPrototype]
  cases hread : w.readFfiType h t with
  | none =>
    rw [agrees_iff_result fun n => toFfiType_byName hcopy hf hf' hread n, matches_byName_iff]
    simp
  | some r =>
    have hbase := hcopy.readFfiType hread
    have hassigned : (assigned m b).map Ref.ffiTypes = some r := by
      rcases hh with rfl | rfl
      · rwa [readFfiType_setUp hfresh] at hbase
      · rw [readFfiType_fresh hfresh] at hbase
        cases hbase
    obtain ⟨name, hname, rfl⟩ := Option.map_eq_some_iff.mp hassigned
    have hresult : ∀ n, (w.toFfiType (n + 1) t h).1 = found (some name) := fun n =>
      toFfiType_assigned hcopy hf hf' hread n
    rw [agrees_iff_result hresult, ← hname, matches_assigned_iff]
    simp

/-! ### A copy of each type -/

/-- The types of `ref`, with `Object.create(type)` of each. -/
inductive RefObject where
  | objectPrototype
  | type (b : RefType)
  | copy (b : RefType)
  deriving DecidableEq

def refWorld (m : DataModel) : World RefObject where
  proto
    | .objectPrototype => none
    | .type b =>
      some (match b.fixedWidth m with
        | some p => .type (.builtin p)
        | none => .objectPrototype)
    | .copy b => some (.type b)
  depth
    | .objectPrototype => 0
    | .type b => if (b.fixedWidth m).isSome then 2 else 1
    | .copy _ => 3
  proto_depth o p h := by
    cases o with
    | objectPrototype => cases h
    | copy b =>
      obtain rfl := Option.some.inj h
      simp only
      split <;> decide
    | type b =>
      obtain rfl := Option.some.inj h
      cases hp : b.fixedWidth m with
      | none =>
        show 0 < if (b.fixedWidth m).isSome = true then 2 else 1
        rw [hp]
        decide
      | some p =>
        show (if ((RefType.builtin p).fixedWidth m).isSome = true then 2 else 1) <
          if (b.fixedWidth m).isSome = true then 2 else 1
        rw [hp, (fixedWidth_fixedWidth hp).1]
        exact Nat.lt_succ_self 1
  indirection
    | .type _ => some 1
    | _ => none
  name
    | .type b => some b.name
    | _ => none
  type _ := none
  fixedLength _ := none

def refModule (m : DataModel) : RefModule (refWorld m) m where
  types := .type
  objectPrototype := .objectPrototype
  injective _ _ h := RefObject.type.inj h
  proto _ := rfl
  name _ := rfl
  indirection _ := rfl
  type _ := rfl
  proto_objectPrototype := rfl
  name_objectPrototype := rfl
  type_objectPrototype := rfl

/-- The copies have an `ffi_type` that is `undefined`. -/
def refHeap : Heap RefObject where
  fields _ := none
  ffiType
    | .copy _ => some none
    | _ => none
  made := []

theorem fresh_refHeap (m : DataModel) : (refModule m).Fresh refHeap :=
  ⟨fun _ => rfl, fun _ => rfl, rfl, rfl⟩

theorem copy_refHeap (m : DataModel) (b : RefType) :
    Copy (refWorld m) ((refModule m).setUp refHeap) ((refModule m).types b) (.copy b) := by
  have hffi : ((refModule m).setUp refHeap).ffiType (.copy b) = some none :=
    foldl_assign_of_ne _ (fun _ h => by cases h) refHeap
  refine .derive rfl rfl rfl rfl ?_ (.inr hffi) .same
  rw [setUp_fields]
  rfl

/-- **The tables differ**: a copy of `size_t` is an integer, one of `Object` nothing, and `longlong`
has 4 bytes where `long` has. -/
theorem tables_differ :
    ¬ Agrees (refWorld .lp64) .lp64 ((refModule .lp64).setUp refHeap)
        (.copy (.builtin .sizeT)) (.builtin .sizeT) ∧
      ¬ Agrees (refWorld .lp64) .lp64 ((refModule .lp64).setUp refHeap)
        (.copy (.builtin .object)) (.builtin .object) ∧
      ¬ Agrees (refWorld .llp64) .llp64 ((refModule .llp64).setUp refHeap)
        (.copy (.builtin .longlong)) (.builtin .longlong) := by
  have hlazy : ∀ m b n, ((refWorld m).toFfiType (n + 1) (.copy b)
      ((refModule m).setUp refHeap)).1 = found (byName m b) := by
    intro m b n
    have hnone : (refWorld m).readFfiType ((refModule m).setUp refHeap) (.copy b) = none := by
      have hffi : ((refModule m).setUp refHeap).ffiType (.copy b) = some none :=
        foldl_assign_of_ne _ (fun _ h => by cases h) refHeap
      rw [World.readFfiType, World.read_of_own hffi]
      rfl
    refine toFfiType_byName (copy_refHeap m b) (fun b => ?_) ?_ hnone n
    · rw [setUp_fields]
      rfl
    · rw [setUp_fields]
      rfl
  refine ⟨fun h => ?_, fun h => ?_, fun h => ?_⟩
  · exact absurd ((matches_byName_iff _ _).mp ((agrees_iff_result (hlazy _ _)).mp h)) (by decide)
  · exact absurd ((matches_byName_iff _ _).mp ((agrees_iff_result (hlazy _ _)).mp h)) (by decide)
  · exact absurd ((matches_byName_iff _ _).mp ((agrees_iff_result (hlazy _ _)).mp h)) (by decide)

theorem tables_agree_ulong :
    Agrees (refWorld .llp64) .llp64 ((refModule .llp64).setUp refHeap)
      (.copy (.builtin .ulong)) (.builtin .ulong) :=
  (tables_agree_iff (fresh_refHeap .llp64) (.inl rfl) (copy_refHeap .llp64 (.builtin .ulong))).mpr
    ⟨fun _ => by decide, fun _ => by decide⟩

end NodeFfi.Resolve
