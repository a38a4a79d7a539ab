import NodeFfi.Layout.Natural

/-!
# C types and their layout

`CType S` are the scalars `S`, arrays of at least one element and structures. Their layout follows
from the extents of the scalars (`CType.extent`), and a type is laid out as its pieces are, an
array piece by piece (`pieces_extent`).
-/

namespace NodeFfi.Layout

inductive CType (S : Type) where
  | scalar (s : S)
  | array (elem : CType S) (length : Nat) (pos : 0 < length)
  | struct (fields : List (CType S))

namespace CType

variable {S : Type} (sc : S → Extent)

mutual

/-- The natural size and alignment. -/
def extent : CType S → Extent
  | .scalar s => sc s
  | .array t n _ => (extent t).replicate n
  | .struct fields => Extent.ofParts (extents fields)

def extents : List (CType S) → List Extent
  | [] => []
  | t :: ts => extent t :: extents ts

end

/-- The offsets of the fields of a structure. -/
def fieldOffsets (fields : List (CType S)) : List Nat := offsets 0 (extents sc fields)

/-- The parts of a type that are not arrays, in order. -/
def pieces : CType S → List Extent
  | .scalar s => [sc s]
  | .array t n _ => (List.replicate n (pieces t)).flatten
  | .struct fields => [Extent.ofParts (extents sc fields)]

theorem pieces_extent (t : CType S) : Pieces (t.extent sc) (t.pieces sc) := by
  match t with
  | .scalar s => exact pieces_singleton _
  | .array t n pos =>
    have ih := pieces_extent t
    unfold extent pieces
    exact ih.replicate pos
  | .struct fields =>
    unfold extent pieces
    exact pieces_singleton _

theorem refines_pieces (fields : List (CType S)) :
    Refines (extents sc fields) (fields.map (pieces sc)) := by
  induction fields with
  | nil => exact .nil
  | cons t ts ih => exact .cons (pieces_extent sc t) ih

mutual

/-- No structure in the type, itself included, has a size that `m` divides. -/
def Sized (m : Nat) : CType S → Prop
  | .scalar _ => True
  | .array t _ _ => Sized m t
  | .struct fields => AllSized m fields ∧ (Extent.ofParts (extents sc fields)).size % m ≠ 0

def AllSized (m : Nat) : List (CType S) → Prop
  | [] => True
  | t :: ts => Sized m t ∧ AllSized m ts

end

mutual

/-- Every structure in the type, itself included, has a field. -/
def Populated : CType S → Prop
  | .scalar _ => True
  | .array t _ _ => Populated t
  | .struct fields => AllPopulated fields ∧ fields ≠ []

def AllPopulated : List (CType S) → Prop
  | [] => True
  | t :: ts => Populated t ∧ AllPopulated ts

end

section sized

variable {sc} (hpos : ∀ s, 0 < (sc s).size)

theorem mem_extents {t : CType S} {ts : List (CType S)} (h : t ∈ ts) :
    t.extent sc ∈ extents sc ts := by
  induction ts with
  | nil => cases h
  | cons u ts ih =>
    unfold extents
    rcases List.mem_cons.mp h with rfl | h
    · exact List.mem_cons_self
    · exact List.mem_cons_of_mem _ (ih h)

theorem allPopulated_iff (ts : List (CType S)) : AllPopulated ts ↔ ∀ t ∈ ts, t.Populated := by
  induction ts with
  | nil => simp [AllPopulated]
  | cons t ts ih => simp [AllPopulated, ih]

theorem allSized_iff (m : Nat) (ts : List (CType S)) :
    AllSized sc m ts ↔ ∀ t ∈ ts, t.Sized sc m := by
  induction ts with
  | nil => simp [AllSized]
  | cons t ts ih => simp [AllSized, ih]

include hpos

theorem size_pos {t : CType S} (h : t.Populated) : 0 < (t.extent sc).size := by
  match t with
  | .scalar s =>
    unfold extent
    exact hpos s
  | .array t n pos =>
    unfold Populated at h
    unfold extent
    exact Nat.mul_pos pos (size_pos h)
  | .struct [] =>
    unfold Populated at h
    exact absurd rfl h.2
  | .struct (t :: ts) =>
    unfold Populated AllPopulated at h
    have ht := size_pos h.1.1
    have hmem : t.extent sc ∈ extents sc (t :: ts) := mem_extents List.mem_cons_self
    have hle := size_le_ofParts hmem
    unfold extent
    omega

theorem sized_of_lt {m : Nat} {t : CType S} (h : t.Populated) (hlt : (t.extent sc).size < m) :
    t.Sized sc m := by
  match t with
  | .scalar s =>
    unfold Sized
    trivial
  | .array t n pos =>
    unfold Populated at h
    unfold extent at hlt
    unfold Sized
    refine sized_of_lt h (Nat.lt_of_le_of_lt ?_ hlt)
    exact Nat.le_mul_of_pos_left _ pos
  | .struct ts =>
    have hsize := size_pos hpos h
    unfold Populated at h
    unfold extent at hlt hsize
    unfold Sized
    refine ⟨?_, by rw [Nat.mod_eq_of_lt hlt]; omega⟩
    rw [allSized_iff]
    intro t ht
    have hmem : t.extent sc ∈ extents sc ts := mem_extents ht
    have hle := size_le_ofParts hmem
    exact sized_of_lt ((allPopulated_iff ts).mp h.1 t ht) (by omega)

end sized

end CType

end NodeFfi.Layout
