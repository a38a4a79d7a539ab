import NodeFfi.Unix64.Model

/-!
# Types as libffi has laid them out

The `ffi_type`s of `types.c` for x86-64, and the structures whose size and alignment are those that
`initialize_aggregate` computes when nothing wraps around (`Laid`). A structure of such types
becomes one (`laid_of_parts`), and what describes a C type to libffi does
(`laid_elementsOf`).
-/

namespace NodeFfi.Unix64

open Libffi Layout

/-! ### The scalars -/

/-- The `ffi_type`s that `types.c` defines, without `ffi_type_void`. -/
def baseTypes : List FfiType :=
  [⟨1, 1, 5, none⟩, ⟨1, 1, 6, none⟩, ⟨2, 2, 7, none⟩, ⟨2, 2, 8, none⟩, ⟨4, 4, 9, none⟩,
    ⟨4, 4, 10, none⟩, ⟨8, 8, 11, none⟩, ⟨8, 8, 12, none⟩, ⟨8, 8, 14, none⟩, ⟨4, 4, 2, none⟩,
    ⟨8, 8, 3, none⟩, ⟨16, 16, 4, none⟩]

/-- What is common to a kind of scalar. -/
inductive IsScalar : FfiType → TypeCase → Prop
  | integer {size alignment type} (hcase : typeCase type = .integer)
    (hsize : size.toNat = 1 ∨ size.toNat = 2 ∨ size.toNat = 4 ∨ size.toNat = 8)
    (halign : alignment.toNat = size.toNat) : IsScalar ⟨size, alignment, type, none⟩ .integer
  | float : IsScalar ⟨4, 4, 2, none⟩ .float
  | double : IsScalar ⟨8, 8, 3, none⟩ .double
  | longdouble : IsScalar ⟨16, 16, 4, none⟩ .longdouble

theorem isScalar_of_mem {t : FfiType} (h : t ∈ baseTypes) : ∃ c, IsScalar t c := by
  simp only [baseTypes, List.mem_cons, List.not_mem_nil, or_false] at h
  rcases h with rfl | rfl | rfl | rfl | rfl | rfl | rfl | rfl | rfl | rfl | rfl | rfl
  case' inr.inr.inr.inr.inr.inr.inr.inr.inr.inl => exact ⟨_, .float⟩
  case' inr.inr.inr.inr.inr.inr.inr.inr.inr.inr.inl => exact ⟨_, .double⟩
  case' inr.inr.inr.inr.inr.inr.inr.inr.inr.inr.inr => exact ⟨_, .longdouble⟩
  all_goals exact ⟨_, .integer (by decide) (by decide) (by decide)⟩

/-! ### Structures -/

/-- Where the last of these fields ends, from the offset `b` on. -/
def endOf (b : Nat) : List FfiType → Nat
  | [] => b
  | e :: es => endOf (roundUp b e.alignment.toNat + e.size.toNat) es

def alignmentOf : List FfiType → Nat
  | [] => 0
  | e :: es => max e.alignment.toNat (alignmentOf es)

/-- A type as `initialize_aggregate` leaves it. -/
inductive Laid : FfiType → Prop
  | base {t : FfiType} (h : t ∈ baseTypes) : Laid t
  | struct {size : BitVec 64} {alignment : BitVec 16} {elements : List FfiType}
    (hne : elements ≠ []) (hall : ∀ e ∈ elements, Laid e)
    (halign : alignment.toNat = alignmentOf elements)
    (hsize : size.toNat = roundUp (endOf 0 elements) (alignmentOf elements)) :
    Laid ⟨size, alignment, ffiTypeStruct, some elements⟩

theorem le_endOf {es : List FfiType} (h : ∀ e ∈ es, 0 < e.alignment.toNat) (b : Nat) :
    b ≤ endOf b es := by
  induction es generalizing b with
  | nil => exact Nat.le_refl b
  | cons e es ih =>
    have hup := le_roundUp (n := b) (h e List.mem_cons_self)
    have hrest := ih (fun e he => h e (List.mem_cons_of_mem _ he))
      (roundUp b e.alignment.toNat + e.size.toNat)
    unfold endOf
    omega

theorem endOf_add {es : List FfiType} {o : Nat} (h : ∀ e ∈ es, e.alignment.toNat ∣ o) (b : Nat) :
    endOf (o + b) es = o + endOf b es := by
  induction es generalizing b with
  | nil => rfl
  | cons e es ih =>
    unfold endOf
    rw [roundUp_add _ (h e List.mem_cons_self), Nat.add_assoc]
    exact ih (fun e he => h e (List.mem_cons_of_mem _ he)) _

theorem isAlignment_alignmentOf {es : List FfiType} (hne : es ≠ [])
    (h : ∀ e ∈ es, IsAlignment e.alignment.toNat) : IsAlignment (alignmentOf es) := by
  induction es with
  | nil => exact absurd rfl hne
  | cons e es ih =>
    have he := h e List.mem_cons_self
    unfold alignmentOf
    rcases Nat.le_total e.alignment.toNat (alignmentOf es) with hle | hle
    · rw [Nat.max_eq_right hle]
      apply ih
      · intro hnil
        have hpos := he.pos
        rw [hnil] at hle
        exact absurd hle (Nat.not_le_of_lt hpos)
      · exact fun e he => h e (List.mem_cons_of_mem _ he)
    · rw [Nat.max_eq_left hle]
      exact he

theorem le_alignmentOf {es : List FfiType} {e : FfiType} (h : e ∈ es) :
    e.alignment.toNat ≤ alignmentOf es := by
  induction es with
  | nil => cases h
  | cons f es ih =>
    unfold alignmentOf
    rcases List.mem_cons.mp h with rfl | h
    · exact Nat.le_max_left _ _
    · exact Nat.le_trans (ih h) (Nat.le_max_right _ _)

theorem Laid.isAlignment {t : FfiType} (h : Laid t) : IsAlignment t.alignment.toNat := by
  induction h with
  | base h =>
    obtain ⟨c, h⟩ := isScalar_of_mem h
    cases h with
    | @integer size alignment _ _ hsize halign =>
      show IsAlignment alignment.toNat
      rw [halign]
      rcases hsize with h | h | h | h <;> rw [h]
      exacts [⟨0, by omega, rfl⟩, ⟨1, by omega, rfl⟩, ⟨2, by omega, rfl⟩, ⟨3, by omega, rfl⟩]
    | float => exact ⟨2, by omega, rfl⟩
    | double => exact ⟨3, by omega, rfl⟩
    | longdouble => exact ⟨4, by omega, rfl⟩
  | @struct _ alignment _ hne _ halign _ ih =>
    show IsAlignment alignment.toNat
    rw [halign]
    exact isAlignment_alignmentOf hne ih

theorem Laid.size_pos {t : FfiType} (h : Laid t) : 0 < t.size.toNat := by
  induction h with
  | base h =>
    obtain ⟨c, h⟩ := isScalar_of_mem h
    cases h with
    | @integer size _ _ _ hsize _ =>
      show 0 < size.toNat
      omega
    | float => decide
    | double => decide
    | longdouble => decide
  | @struct size alignment elements hne hall halign hsize ih =>
    show 0 < size.toNat
    have hup := le_roundUp (n := endOf 0 elements)
      (isAlignment_alignmentOf hne fun e he => (hall e he).isAlignment).pos
    match elements, hne with
    | e :: es, _ =>
      have he := ih e List.mem_cons_self
      have hend := le_endOf (fun e he => (hall e (List.mem_cons_of_mem _ he)).isAlignment.pos)
        (roundUp 0 e.alignment.toNat + e.size.toNat)
      rw [hsize]
      unfold endOf at hup ⊢
      omega

theorem Laid.dvd_size {t : FfiType} (h : Laid t) : t.alignment.toNat ∣ t.size.toNat := by
  cases h with
  | base h =>
    obtain ⟨c, h⟩ := isScalar_of_mem h
    cases h with
    | @integer size alignment _ _ _ halign =>
      show alignment.toNat ∣ size.toNat
      rw [halign]
    | float => exact Nat.dvd_refl 4
    | double => exact Nat.dvd_refl 8
    | longdouble => exact Nat.dvd_refl 16
  | @struct size alignment _ _ _ halign hsize =>
    show alignment.toNat ∣ size.toNat
    rw [halign, hsize]
    exact dvd_roundUp

theorem endOf_le {size : BitVec 64} {elements : List FfiType} {o : Nat} (hne : elements ≠ [])
    (hall : ∀ e ∈ elements, Laid e)
    (hsize : size.toNat = roundUp (endOf 0 elements) (alignmentOf elements))
    (ho : alignmentOf elements ∣ o) : endOf o elements ≤ o + size.toNat := by
  have halign := isAlignment_alignmentOf hne fun e he => (hall e he).isAlignment
  have hup := le_roundUp (n := endOf 0 elements) halign.pos
  have hdvd : ∀ e ∈ elements, e.alignment.toNat ∣ o := fun e he =>
    ((hall e he).isAlignment.dvd_of_le halign (le_alignmentOf he)).trans ho
  have hadd := endOf_add hdvd 0
  rw [Nat.add_zero] at hadd
  omega

/-! ### What `initialize_aggregate` makes of a C type -/

theorem endOf_eq_finish {ptrs : List FfiType} {es : List Extent} (h : List.Forall₂ IsExtent ptrs es)
    {n : Nat} (hlt : finish n es < 2 ^ 64) : endOf n ptrs = finish n es := by
  induction h generalizing n with
  | nil => rfl
  | @cons ptr e ptrs es he _ ih =>
    have hle := finish_ge (roundUp n e.align + e.size) es
    have hsize := he.size
    unfold finish at hlt ⊢
    rw [Nat.mod_eq_of_lt (show e.size < 2 ^ 64 by omega)] at hsize
    unfold endOf
    rw [he.alignment, hsize]
    exact ih hlt

theorem alignmentOf_eq_maxAlign {ptrs : List FfiType} {es : List Extent}
    (h : List.Forall₂ IsExtent ptrs es) : alignmentOf ptrs = maxAlign es := by
  induction h with
  | nil => rfl
  | @cons ptr e ptrs es he _ ih =>
    unfold alignmentOf maxAlign
    rw [he.alignment, ih]

theorem initializeElements_ok {ptrs : List FfiType} {size size' : BitVec 64}
    {alignment alignment' : BitVec 16} {ptrs' : List FfiType}
    (h : initializeElements size alignment ptrs = (.ok, size', alignment', ptrs')) :
    List.Forall₂ (fun ptr ptr' => complete ptr = (.ok, ptr')) ptrs ptrs' := by
  induction ptrs generalizing size alignment ptrs' with
  | nil =>
    rw [initializeElements] at h
    obtain ⟨-, -, -, rfl⟩ := h
    exact .nil
  | cons ptr ptrs ih =>
    rw [initializeElements_cons] at h
    rcases hc : complete ptr with ⟨status, ptr'⟩
    rw [hc] at h
    cases status with
    | ok =>
      rcases hrun : initializeElements (align size ptr'.alignArg + ptr'.size)
        (if alignment > ptr'.alignment then alignment else ptr'.alignment) ptrs with
        ⟨status, size₁, alignment₁, rest⟩
      simp only [hrun, Prod.mk.injEq] at h
      obtain ⟨rfl, rfl, rfl, rfl⟩ := h
      exact .cons hc (ih hrun)
    | badTypedef | badAbi => simp at h

theorem completed_all {P : FfiType → Prop} {ptrs ptrs' : List FfiType}
    (h : List.Forall₂ (fun ptr ptr' => complete ptr = (.ok, ptr')) ptrs ptrs')
    (hall : ∀ ptr ∈ ptrs, ∃ ptr', complete ptr = (.ok, ptr') ∧ P ptr') : ∀ ptr' ∈ ptrs', P ptr' := by
  induction h with
  | nil => exact fun _ h => nomatch h
  | @cons ptr ptr' _ _ hc _ ih =>
    intro ptr₁ hptr₁
    rcases List.mem_cons.mp hptr₁ with rfl | hptr₁
    · obtain ⟨ptr₂, hc₂, hp⟩ := hall ptr List.mem_cons_self
      rw [hc] at hc₂
      rw [(Prod.mk.inj hc₂).2]
      exact hp
    · exact ih (fun ptr hptr => hall ptr (List.mem_cons_of_mem _ hptr)) ptr₁ hptr₁

theorem initializeAggregate_ok {ptrs : List FfiType} {t : FfiType}
    (h : initializeAggregate (structType ptrs) = (.ok, t)) :
    ∃ size alignment ptrs', t = ⟨size, alignment, ffiTypeStruct, some ptrs'⟩ ∧
      List.Forall₂ (fun ptr ptr' => complete ptr = (.ok, ptr')) ptrs ptrs' := by
  unfold structType at h
  rw [initializeAggregate] at h
  rcases hrun : initializeElements 0 0 ptrs with ⟨status, size, alignment, ptrs'⟩
  rw [hrun] at h
  cases status with
  | ok =>
    simp only [Prod.mk.injEq] at h
    exact ⟨_, _, _, h.2.symm, initializeElements_ok hrun⟩
  | badTypedef | badAbi => simp at h

theorem laid_of_parts {size : BitVec 64} {alignment : BitVec 16} {ptrs : List FfiType}
    {es : List Extent} (h : List.Forall₂ IsExtent ptrs es) (hlaid : ∀ ptr ∈ ptrs, Laid ptr)
    (hne : es ≠ []) (hlt : (Extent.ofParts es).size < 2 ^ 64)
    (he : IsExtent ⟨size, alignment, ffiTypeStruct, some ptrs⟩ (Extent.ofParts es)) :
    Laid ⟨size, alignment, ffiTypeStruct, some ptrs⟩ := by
  have hpos : max 1 (maxAlign es) = maxAlign es := by
    have := maxAlign_eq_zero.not.mpr hne
    omega
  have hend : finish 0 es < 2 ^ 64 :=
    Nat.lt_of_le_of_lt (le_roundUp (Extent.ofParts es).align_pos) hlt
  have hptrs : ptrs ≠ [] := by
    intro hnil
    rw [hnil] at h
    exact hne (List.forall₂_nil_left_iff.mp h)
  refine .struct hptrs hlaid ?_ ?_
  · rw [alignmentOf_eq_maxAlign h, ← hpos]
    exact he.alignment
  · have hsize := he.size
    rw [Nat.mod_eq_of_lt hlt] at hsize
    rw [alignmentOf_eq_maxAlign h, endOf_eq_finish h hend, ← hpos]
    exact hsize

section ctype

variable {S : Type} {ffi : S → FfiType} {sc : S → Extent}

theorem ffi_described (hbase : ∀ s, ffi s ∈ baseTypes) (hextent : ∀ s, IsExtent (ffi s) (sc s))
    (s : S) : (ffi s).size ≠ 0 ∧ IsExtent (ffi s) (sc s) := by
  refine ⟨?_, hextent s⟩
  intro h
  have := (Laid.base (hbase s)).size_pos
  rw [h] at this
  exact absurd this (Nat.lt_irrefl 0)

theorem initializeAggregate_fields (hbase : ∀ s, ffi s ∈ baseTypes)
    (hextent : ∀ s, IsExtent (ffi s) (sc s)) (hpos : ∀ s, 0 < (sc s).size)
    {fields : List (CType S)} (hpop : (CType.struct fields).Populated)
    (hlt : (Extent.ofParts (CType.extents sc fields)).size < 2 ^ 64) :
    ∃ size alignment ptrs', initializeAggregate (structType (fieldElements ffi fields)) =
        (.ok, ⟨size, alignment, ffiTypeStruct, some ptrs'⟩) ∧
      IsExtent ⟨size, alignment, ffiTypeStruct, some ptrs'⟩
        (Extent.ofParts (CType.extents sc fields)) ∧
      List.Forall₂ IsExtent ptrs' (fields.map (CType.pieces sc)).flatten ∧
      List.Forall₂ (fun ptr ptr' => complete ptr = (.ok, ptr')) (fieldElements ffi fields) ptrs' := by
  have hsized := CType.sized_of_lt (t := .struct fields) hpos hpop hlt
  unfold CType.Sized at hsized
  obtain ⟨t', ptrs', hrun, he, hel, hall⟩ := initializeAggregate_refines
    (completes_fieldElements (ffi_described hbase hextent) fields hsized.1)
    (CType.refines_pieces sc fields) hsized.2
  obtain ⟨size, alignment, ptrs, rfl, hcomplete⟩ := initializeAggregate_ok hrun
  obtain rfl : ptrs = ptrs' := Option.some.inj hel
  exact ⟨size, alignment, ptrs, hrun, he, hall, hcomplete⟩

mutual

/-- **The elements of a C type become types as laid out**, when the type has a size of 64 bits. -/
theorem laid_elementsOf (hbase : ∀ s, ffi s ∈ baseTypes)
    (hextent : ∀ s, IsExtent (ffi s) (sc s)) (hpos : ∀ s, 0 < (sc s).size) (t : CType S)
    (hpop : t.Populated) (hlt : (t.extent sc).size < 2 ^ 64) {ptr : FfiType} (hptr : ptr ∈ elementsOf ffi t) :
    ∃ ptr', complete ptr = (.ok, ptr') ∧ Laid ptr' := by
  match t with
  | .scalar s =>
    unfold elementsOf at hptr
    obtain rfl := List.mem_singleton.mp hptr
    refine ⟨ffi s, ?_, .base (hbase s)⟩
    unfold complete
    rw [if_neg (ffi_described hbase hextent s).1]
  | .array t n pos =>
    unfold CType.Populated at hpop
    unfold CType.extent at hlt
    unfold elementsOf at hptr
    obtain ⟨l, hl, hptr⟩ := List.mem_flatten.mp hptr
    obtain rfl := (List.mem_replicate.mp hl).2
    exact laid_elementsOf hbase hextent hpos t hpop
      (Nat.lt_of_le_of_lt (Nat.le_mul_of_pos_left _ pos) hlt) hptr
  | .struct fields =>
    unfold elementsOf at hptr
    obtain rfl := List.mem_singleton.mp hptr
    have hsize := CType.size_pos hpos hpop
    unfold CType.extent at hlt hsize
    obtain ⟨size, alignment, ptrs, hrun, he, hall, hcomplete⟩ :=
      initializeAggregate_fields hbase hextent hpos hpop hlt
    unfold CType.Populated at hpop
    rw [complete_structType]
    refine ⟨_, hrun, laid_of_parts hall ?_ ?_ ?_ ?_⟩
    · exact completed_all hcomplete fun ptr hptr =>
        laid_fieldElements hbase hextent hpos fields hpop.1
        (fun t ht => Nat.lt_of_le_of_lt (size_le_ofParts (CType.mem_extents ht)) hlt) hptr
    · intro hnil
      rw [← (CType.refines_pieces sc fields).ofParts, hnil] at hsize
      exact absurd hsize (Nat.lt_irrefl 0)
    · rw [(CType.refines_pieces sc fields).ofParts]
      exact hlt
    · rw [(CType.refines_pieces sc fields).ofParts]
      exact he

theorem laid_fieldElements (hbase : ∀ s, ffi s ∈ baseTypes)
    (hextent : ∀ s, IsExtent (ffi s) (sc s)) (hpos : ∀ s, 0 < (sc s).size) (ts : List (CType S))
    (hpop : CType.AllPopulated ts) (hlt : ∀ t ∈ ts, (t.extent sc).size < 2 ^ 64) {ptr : FfiType}
    (hptr : ptr ∈ fieldElements ffi ts) : ∃ ptr', complete ptr = (.ok, ptr') ∧ Laid ptr' := by
  match ts with
  | [] =>
    unfold fieldElements at hptr
    cases hptr
  | t :: ts =>
    unfold CType.AllPopulated at hpop
    unfold fieldElements at hptr
    rcases List.mem_append.mp hptr with hptr | hptr
    · exact laid_elementsOf hbase hextent hpos t hpop.1 (hlt t List.mem_cons_self) hptr
    · exact laid_fieldElements hbase hextent hpos ts hpop.2 (fun t ht => hlt t (List.mem_cons_of_mem _ ht)) hptr

end

end ctype

end NodeFfi.Unix64
