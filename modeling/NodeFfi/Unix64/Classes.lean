import Mathlib.Data.List.GetD
import NodeFfi.Unix64.Laid

/-!
# The classes of a type

`classOf` is what `classify_argument` comes to for a type that is laid out: the class of each word,
none for a type that goes into memory. It needs no arrays, and `classifyArgument` computes it
whatever its arrays held before and without an access outside them
(`classifyArgument_of_laid`, in `Classification`). Here is what holds of the classes: which there
are (`Sound`) and which bytes of its word each stands for (`Placed`).
-/

namespace NodeFfi.Unix64

open Libffi Layout

/-! ### Merging -/

section merge

variable {a b : RegClass}

theorem mergeClasses_no_left (a : RegClass) : mergeClasses .no a = a := by cases a <;> rfl

theorem mergeClasses_no_right (a : RegClass) : mergeClasses a .no = a := by cases a <;> rfl

theorem mergeClasses_eq_no : mergeClasses a b = .no ↔ a = .no ∧ b = .no := by
  cases a <;> cases b <;> decide

theorem mergeClasses_eq_sseup (h : mergeClasses a b = .sseup) : a = .sseup ∨ b = .sseup := by
  revert h
  cases a <;> cases b <;> decide

theorem mergeClasses_eq_complexX87 (h : mergeClasses a b = .complexX87) :
    a = .complexX87 ∨ b = .complexX87 := by
  revert h
  cases a <;> cases b <;> decide

theorem mergeClasses_eq_x87 (h : mergeClasses a b = .x87) : a = .x87 ∨ b = .x87 := by
  revert h
  cases a <;> cases b <;> decide

theorem mergeClasses_eq_x87up (h : mergeClasses a b = .x87up) : a = .x87up ∨ b = .x87up := by
  revert h
  cases a <;> cases b <;> decide

theorem mergeClasses_eq_ssesf (h : mergeClasses a b = .ssesf) :
    a = .ssesf ∧ b = .ssesf ∨ a = .ssesf ∧ b = .no ∨ a = .no ∧ b = .ssesf := by
  revert h
  cases a <;> cases b <;> decide

theorem mergeClasses_eq_sse (h : mergeClasses a b = .sse ∨ mergeClasses a b = .ssedf) :
    a = .sse ∨ a = .ssedf ∨ a = .sseup ∨ b = .sse ∨ b = .ssedf ∨ b = .sseup := by
  revert h
  cases a <;> cases b <;> decide

end merge

/-! ### The classes -/

/-- The classes `sub` merged into `acc` from word `pos` on. -/
def mergeAt (sub : List RegClass) (pos : Nat) (acc : Classes) : Classes := fun j =>
  if pos ≤ j then mergeClasses (sub.getD (j - pos) .no) (acc j) else acc j

/-- The classes of a structure, from those of its words. -/
def wordClasses (words : Nat) (acc : Classes) : List RegClass :=
  if 2 < words then []
  else if (List.range words).any fun i =>
      acc i = .memory ∨ acc i = .x87up ∧ acc (i - 1) ≠ .x87 then []
  else (List.range words).map acc

mutual

/-- The class of each word of a type at the offset `o` of its first word. -/
def classOf : FfiType → Nat → List RegClass
  | ⟨size, _, type, elements⟩, o =>
    match typeCase type with
    | .integer => [if o + size.toNat ≤ 4 then .integersi else .integer]
    | .float => [if o % 8 = 0 then .ssesf else .sse]
    | .double => [.ssedf]
    | .longdouble => [.x87, .x87up]
    | .struct =>
      match elements with
      | none => []
      | some elements =>
        match fieldClasses elements o fun _ => .no with
        | none => []
        | some acc => wordClasses ((size.toNat + 7) / 8) acc
    | .default => []

/-- The classes of the fields from the offset `b` on, merged into `acc`. -/
def fieldClasses : List FfiType → Nat → Classes → Option Classes
  | [], _, acc => some acc
  | e :: es, b, acc =>
    let b := roundUp b e.alignment.toNat
    match classOf e (b % 8) with
    | [] => none
    | c :: cs => fieldClasses es (b + e.size.toNat) (mergeAt (c :: cs) (b / 8) acc)

end

theorem typeCase_struct : typeCase ffiTypeStruct = .struct := by decide

theorem classOf_struct (size : BitVec 64) (alignment : BitVec 16) (elements : List FfiType)
    (o : Nat) : classOf ⟨size, alignment, ffiTypeStruct, some elements⟩ o =
      match fieldClasses elements o fun _ => .no with
      | none => []
      | some acc => wordClasses ((size.toNat + 7) / 8) acc := by
  rw [classOf]
  rfl

theorem fieldClasses_cons (e : FfiType) (es : List FfiType) (b : Nat) (acc : Classes) :
    fieldClasses (e :: es) b acc =
      if classOf e (roundUp b e.alignment.toNat % 8) = [] then none
      else fieldClasses es (roundUp b e.alignment.toNat + e.size.toNat)
        (mergeAt (classOf e (roundUp b e.alignment.toNat % 8))
          (roundUp b e.alignment.toNat / 8) acc) := by
  rw [fieldClasses]
  cases classOf e (roundUp b e.alignment.toNat % 8) with
  | nil => rfl
  | cons c cs => rfl

theorem getD_map_range (words : Nat) (acc : Classes) (j : Nat) :
    ((List.range words).map acc).getD j .no = if j < words then acc j else .no := by
  split
  · rename_i hj
    rw [List.getD_eq_getElem _ _ (by simpa using hj), List.getElem_map, List.getElem_range]
  · exact List.getD_eq_default _ _ (by simpa using ‹¬j < words›)

theorem wordClasses_ne_nil {words : Nat} {acc : Classes} (h : wordClasses words acc ≠ []) :
    words ≤ 2 ∧ wordClasses words acc = (List.range words).map acc ∧
      ∀ i < words, acc i ≠ .memory ∧ (acc i = .x87up → acc (i - 1) = .x87) := by
  unfold wordClasses at h ⊢
  split at h
  · exact absurd rfl h
  rename_i hwords
  split at h
  · exact absurd rfl h
  rename_i hany
  rw [if_neg hwords, if_neg hany]
  refine ⟨by omega, rfl, ?_⟩
  intro i hi
  simp only [List.any_eq_true, List.mem_range, decide_eq_true_eq, not_exists, not_and, not_or,
    ne_eq, not_not] at hany
  exact hany i hi

theorem classOf_large {size : BitVec 64} {alignment : BitVec 16} {elements : List FfiType}
    (h : 16 < size.toNat) (o : Nat) :
    classOf ⟨size, alignment, ffiTypeStruct, some elements⟩ o = [] := by
  rw [classOf_struct]
  cases fieldClasses elements o fun _ => .no with
  | none => rfl
  | some acc => exact if_pos (by omega)

/-! ### The scalars of a type -/

mutual

/-- The scalars in a type, each with its offset. -/
def leaves : FfiType → List (Nat × FfiType)
  | ⟨size, alignment, type, none⟩ => [(0, ⟨size, alignment, type, none⟩)]
  | ⟨_, _, _, some elements⟩ => fieldLeaves elements 0

/-- The scalars in the fields from the offset `b` on. -/
def fieldLeaves : List FfiType → Nat → List (Nat × FfiType)
  | [], _ => []
  | e :: es, b =>
    let b := roundUp b e.alignment.toNat
    (leaves e).map (fun l => (b + l.1, l.2)) ++ fieldLeaves es (b + e.size.toNat)

end

/-- The byte at the offset `k` is one of a scalar of the list. -/
def Covers (ls : List (Nat × FfiType)) (k : Nat) : Prop :=
  ∃ l ∈ ls, l.1 ≤ k ∧ k < l.1 + l.2.size.toNat

theorem covers_append {ls ms : List (Nat × FfiType)} {k : Nat} :
    Covers (ls ++ ms) k ↔ Covers ls k ∨ Covers ms k := by
  unfold Covers
  simp only [List.mem_append, or_and_right, exists_or]

theorem covers_shift {ls : List (Nat × FfiType)} {b k : Nat} :
    Covers (ls.map fun l => (b + l.1, l.2)) k ↔ b ≤ k ∧ Covers ls (k - b) := by
  constructor
  · intro ⟨m, hm, hle, hlt⟩
    obtain ⟨l, hl, rfl⟩ := List.mem_map.mp hm
    simp only at hle hlt
    exact ⟨by omega, l, hl, by omega, by omega⟩
  · intro ⟨hb, l, hl, hle, hlt⟩
    refine ⟨(b + l.1, l.2), List.mem_map.mpr ⟨l, hl, rfl⟩, ?_⟩
    simp only
    omega

theorem covers_fieldLeaves_cons {e : FfiType} {es : List FfiType} {b k : Nat} :
    Covers (fieldLeaves (e :: es) b) k ↔
      roundUp b e.alignment.toNat ≤ k ∧ Covers (leaves e) (k - roundUp b e.alignment.toNat) ∨
        Covers (fieldLeaves es (roundUp b e.alignment.toNat + e.size.toNat)) k := by
  rw [fieldLeaves, covers_append, covers_shift]

/-! ### What the classes stand for -/

/-- Classes of the words of `[start, finish)`, where the scalars are at the bytes `bytes`. A word
whose class moves eight bytes lies before `finish`; of one that is moved as a `float` only the
first four bytes matter. -/
structure Sound (cls : Classes) (start finish : Nat) (bytes : Nat → Prop) : Prop where
  kinds : ∀ j, cls j ≠ .sseup ∧ cls j ≠ .complexX87
  first : cls 0 ≠ .x87up
  ssesf : ∀ j, cls j = .ssesf →
    start ≤ 8 * j ∧ 8 * j + 4 ≤ finish ∧ ∀ k, bytes k → k < 8 * j + 4 ∨ 8 * j + 8 ≤ k
  sse : ∀ j, cls j = .sse ∨ cls j = .ssedf → 8 * j + 8 ≤ finish
  x87 : ∀ j, cls j = .x87 → 8 * j + 16 ≤ finish
  within : ∀ k, bytes k → start ≤ k ∧ k < finish

theorem sound_empty (o : Nat) : Sound (fun _ => .no) o o fun _ => False where
  kinds j := ⟨RegClass.noConfusion, RegClass.noConfusion⟩
  first := RegClass.noConfusion
  ssesf j h := RegClass.noConfusion h
  sse j h := by rcases h with h | h <;> exact RegClass.noConfusion h
  x87 j h := RegClass.noConfusion h
  within k h := h.elim

theorem Sound.mergeAt {acc : Classes} {o b b' s : Nat} {bytes fieldBytes : Nat → Prop}
    {cs : List RegClass} (h : Sound acc o b bytes)
    (hfield : Sound (fun i => cs.getD i .no) (b' % 8) (b' % 8 + s) fieldBytes)
    (hfirst : cs.getD 0 .no ≠ .no) (ho : o ≤ b) (hb : b ≤ b') :
    Sound (mergeAt cs (b' / 8) acc) o (b' + s)
      fun k => bytes k ∨ 8 * (b' / 8) ≤ k ∧ fieldBytes (k - 8 * (b' / 8)) := by
  have hsplit := Nat.div_add_mod b' 8
  constructor
  · intro j
    unfold Unix64.mergeAt
    split
    · constructor
      · intro hm
        rcases mergeClasses_eq_sseup hm with hm | hm
        · exact (hfield.kinds _).1 hm
        · exact (h.kinds _).1 hm
      · intro hm
        rcases mergeClasses_eq_complexX87 hm with hm | hm
        · exact (hfield.kinds _).2 hm
        · exact (h.kinds _).2 hm
    · exact h.kinds j
  · unfold Unix64.mergeAt
    split
    · rename_i hpos
      intro hm
      rw [Nat.le_zero.mp hpos] at hm
      rcases mergeClasses_eq_x87up hm with hm | hm
      · exact hfield.first hm
      · exact h.first hm
    · exact h.first
  · intro j hj
    unfold Unix64.mergeAt at hj
    split at hj
    · rename_i hpos
      rcases mergeClasses_eq_ssesf hj with ⟨hf, ha⟩ | ⟨hf, -⟩ | ⟨hf, ha⟩
      · -- two floats would have to overlap
        have hf := hfield.ssesf _ hf
        have ha := h.ssesf _ ha
        omega
      · obtain ⟨hstart, hend, hno⟩ := hfield.ssesf _ hf
        refine ⟨by omega, by omega, ?_⟩
        intro k hk
        rcases hk with hk | ⟨hle, hk⟩
        · have := h.within k hk
          omega
        · have := hno _ hk
          omega
      · obtain ⟨hstart, hend, hno⟩ := h.ssesf _ ha
        refine ⟨hstart, by omega, ?_⟩
        intro k hk
        rcases hk with hk | ⟨hle, hk⟩
        · exact hno k hk
        · -- the field starts in this word or before the float that is there already
          have hne : j ≠ b' / 8 := by
            intro hj
            rw [hj, Nat.sub_self] at hf
            exact hfirst hf
          omega
    · rename_i hpos
      obtain ⟨hstart, hend, hno⟩ := h.ssesf _ hj
      refine ⟨hstart, by omega, ?_⟩
      intro k hk
      rcases hk with hk | ⟨hle, hk⟩
      · exact hno k hk
      · omega
  · intro j hj
    unfold Unix64.mergeAt at hj
    split at hj
    · have hf := hfield.sse (j - b' / 8)
      have ha := h.sse j
      have hkf := (hfield.kinds (j - b' / 8)).1
      have hka := (h.kinds j).1
      rcases mergeClasses_eq_sse hj with hm | hm | hm | hm | hm | hm
      · have := hf (.inl hm)
        omega
      · have := hf (.inr hm)
        omega
      · exact absurd hm hkf
      · have := ha (.inl hm)
        omega
      · have := ha (.inr hm)
        omega
      · exact absurd hm hka
    · have := h.sse j hj
      omega
  · intro j hj
    unfold Unix64.mergeAt at hj
    split at hj
    · rcases mergeClasses_eq_x87 hj with hm | hm
      · have := hfield.x87 _ hm
        omega
      · have := h.x87 _ hm
        omega
    · have := h.x87 j hj
      omega
  · intro k hk
    rcases hk with hk | ⟨hle, hk⟩
    · have := h.within k hk
      omega
    · have := hfield.within _ hk
      omega

theorem Sound.congr {cls cls' : Classes} {start finish finish' : Nat} {bytes bytes' : Nat → Prop}
    (h : Sound cls start finish bytes) (hcls : ∀ j, cls' j = cls j ∨ cls' j = .no)
    (hfinish : finish ≤ finish') (hbytes : ∀ k, bytes' k → bytes k) :
    Sound cls' start finish' bytes' := by
  have hother : ∀ {j c}, cls' j = c → c ≠ .no → cls j = c := by
    intro j c hj hc
    rcases hcls j with h | h
    · rw [← h]
      exact hj
    · exact absurd (hj.symm.trans h) hc
  constructor
  · exact fun j => ⟨fun hj => (h.kinds j).1 (hother hj (by decide)),
      fun hj => (h.kinds j).2 (hother hj (by decide))⟩
  · exact fun hj => h.first (hother hj (by decide))
  · intro j hj
    obtain ⟨hstart, hend, hno⟩ := h.ssesf j (hother hj (by decide))
    exact ⟨hstart, by omega, fun k hk => hno k (hbytes k hk)⟩
  · intro j hj
    have : cls j = .sse ∨ cls j = .ssedf := by
      rcases hj with hj | hj
      · exact .inl (hother hj (by decide))
      · exact .inr (hother hj (by decide))
    have := h.sse j this
    omega
  · intro j hj
    have := h.x87 j (hother hj (by decide))
    omega
  · intro k hk
    have := h.within k (hbytes k hk)
    omega

/-- An offset in the first word where a type may stand. -/
structure Aligned (t : FfiType) (o : Nat) : Prop where
  dvd : t.alignment.toNat ∣ o
  lt : o < 8

theorem leaves_scalar {t : FfiType} {c : TypeCase} (h : IsScalar t c) : leaves t = [(0, t)] := by
  cases h <;> rw [leaves]

theorem covers_scalar {t : FfiType} {c : TypeCase} (h : IsScalar t c) {k : Nat} :
    Covers (leaves t) k ↔ k < t.size.toNat := by
  rw [leaves_scalar h]
  simp [Covers]

theorem IsScalar.fits {t : FfiType} {c : TypeCase} (h : IsScalar t c) (hc : c ≠ .longdouble)
    {o : Nat} (ho : Aligned t o) : o + t.size.toNat ≤ 8 := by
  obtain ⟨⟨a, rfl⟩, hlt⟩ := ho
  cases h with
  | @integer size alignment _ _ hsize halign =>
    change alignment.toNat * a < 8 at hlt
    show alignment.toNat * a + size.toNat ≤ 8
    rw [halign] at hlt ⊢
    rcases hsize with h | h | h | h <;> rw [h] at hlt ⊢ <;> omega
  | float =>
    change 4 * a < 8 at hlt
    show 4 * a + 4 ≤ 8
    omega
  | double =>
    change 8 * a < 8 at hlt
    show 8 * a + 8 ≤ 8
    omega
  | longdouble => exact absurd rfl hc

theorem getD_singleton (c : RegClass) (j : Nat) :
    [c].getD j .no = if j = 0 then c else .no := by
  cases j with
  | zero => rfl
  | succ j => rfl

theorem sound_singleton {c : RegClass} {o s : Nat} {bytes : Nat → Prop}
    (hkinds : c ≠ .sseup ∧ c ≠ .complexX87 ∧ c ≠ .x87up ∧ c ≠ .x87)
    (hfloat : c = .ssesf → o = 0 ∧ 4 ≤ s ∧ ∀ k, bytes k → k < 4 ∨ 8 ≤ k)
    (hsse : c = .sse ∨ c = .ssedf → 8 ≤ o + s) (hwithin : ∀ k, bytes k → o ≤ k ∧ k < o + s) :
    Sound (fun i => [c].getD i .no) o (o + s) bytes := by
  have hget : ∀ {j d}, [c].getD j .no = d → d ≠ .no → j = 0 ∧ c = d := by
    intro j d hj hd
    rw [getD_singleton] at hj
    split at hj
    · exact ⟨‹_›, hj⟩
    · exact absurd hj.symm hd
  constructor
  · exact fun j => ⟨fun hj => hkinds.1 (hget hj (by decide)).2,
      fun hj => hkinds.2.1 (hget hj (by decide)).2⟩
  · exact fun hj => hkinds.2.2.1 (hget hj (by decide)).2
  · intro j hj
    obtain ⟨rfl, hc⟩ := hget hj (by decide)
    obtain ⟨rfl, hs, hno⟩ := hfloat hc
    exact ⟨by omega, by omega, hno⟩
  · intro j hj
    have : j = 0 ∧ (c = .sse ∨ c = .ssedf) := by
      rcases hj with hj | hj
      · exact (hget hj (by decide)).imp_right .inl
      · exact (hget hj (by decide)).imp_right .inr
    obtain ⟨rfl, hc⟩ := this
    have := hsse hc
    omega
  · exact fun j hj => absurd (hget hj (by decide)).2 hkinds.2.2.2
  · exact hwithin

theorem classOf_integer {size : BitVec 64} {alignment type : BitVec 16}
    (h : typeCase type = .integer) (o : Nat) : classOf ⟨size, alignment, type, none⟩ o =
      [if o + size.toNat ≤ 4 then .integersi else .integer] := by
  rw [classOf]
  simp only [h]

theorem classOf_float (o : Nat) :
    classOf ⟨4, 4, 2, none⟩ o = [if o % 8 = 0 then .ssesf else .sse] := by
  rw [classOf]
  rfl

theorem classOf_double (o : Nat) : classOf ⟨8, 8, 3, none⟩ o = [.ssedf] := by
  rw [classOf]
  rfl

theorem classOf_longdouble (o : Nat) : classOf ⟨16, 16, 4, none⟩ o = [.x87, .x87up] := by
  rw [classOf]
  rfl

theorem classOf_length {t : FfiType} (h : Laid t) {o : Nat} (hne : classOf t o ≠ []) :
    (classOf t o).length = (t.size.toNat + 7) / 8 ∧ (classOf t o).length ≤ 2 := by
  cases h with
  | base h =>
    obtain ⟨c, h⟩ := isScalar_of_mem h
    cases h with
    | @integer size _ _ hcase hsize _ =>
      rw [classOf_integer hcase]
      show 1 = (size.toNat + 7) / 8 ∧ 1 ≤ 2
      omega
    | float =>
      rw [classOf_float]
      exact ⟨rfl, Nat.le_succ 1⟩
    | double =>
      rw [classOf_double]
      exact ⟨rfl, by decide⟩
    | longdouble =>
      rw [classOf_longdouble]
      exact ⟨rfl, by decide⟩
  | @struct size alignment elements _ _ _ _ =>
    rw [classOf_struct] at hne ⊢
    cases hacc : fieldClasses elements o fun _ => .no with
    | none =>
      rw [hacc] at hne
      exact absurd rfl hne
    | some acc =>
      rw [hacc] at hne
      obtain ⟨hwords, heq, -⟩ := wordClasses_ne_nil hne
      show (wordClasses _ acc).length = (size.toNat + 7) / 8 ∧ (wordClasses _ acc).length ≤ 2
      rw [heq, List.length_map, List.length_range]
      exact ⟨rfl, hwords⟩

theorem mergeAt_ne_no {cs : List RegClass} {pos j : Nat} {acc : Classes} (h : acc j ≠ .no) :
    mergeAt cs pos acc j ≠ .no := by
  unfold mergeAt
  split
  · exact fun hm => h (mergeClasses_eq_no.mp hm).2
  · exact h

theorem fieldClasses_ne_no {es : List FfiType} {b j : Nat} {acc acc' : Classes}
    (h : fieldClasses es b acc = some acc') (hj : acc j ≠ .no) : acc' j ≠ .no := by
  induction es generalizing b acc with
  | nil =>
    rw [fieldClasses] at h
    rw [← Option.some.inj h]
    exact hj
  | cons e es ih =>
    rw [fieldClasses_cons] at h
    split at h
    · exact absurd h (by simp)
    · exact ih h (mergeAt_ne_no hj)

theorem classOf_first {t : FfiType} (h : Laid t) {o : Nat} (ho : Aligned t o)
    (hne : classOf t o ≠ []) : (classOf t o).getD 0 .no ≠ .no := by
  induction h generalizing o with
  | base h =>
    obtain ⟨c, h⟩ := isScalar_of_mem h
    cases h with
    | integer hcase _ _ =>
      rw [classOf_integer hcase, getD_singleton]
      split
      · split <;> exact RegClass.noConfusion
      · exact absurd rfl ‹¬0 = 0›
    | float =>
      rw [classOf_float, getD_singleton]
      split
      · split <;> exact RegClass.noConfusion
      · exact absurd rfl ‹¬0 = 0›
    | double =>
      rw [classOf_double]
      exact RegClass.noConfusion
    | longdouble =>
      rw [classOf_longdouble]
      exact RegClass.noConfusion
  | @struct size alignment elements hnil hall halign hsize ih =>
    have hlaid : Laid ⟨size, alignment, ffiTypeStruct, some elements⟩ :=
      .struct hnil hall halign hsize
    have hpos := hlaid.size_pos
    change 0 < size.toNat at hpos
    have hdvd := ho.dvd
    change alignment.toNat ∣ o at hdvd
    rw [classOf_struct] at hne ⊢
    cases hacc : fieldClasses elements o fun _ => .no with
    | none =>
      rw [hacc] at hne
      exact absurd rfl hne
    | some acc =>
      rw [hacc] at hne
      obtain ⟨-, heq, -⟩ := wordClasses_ne_nil hne
      show (wordClasses _ acc).getD 0 .no ≠ .no
      have hwords : 0 < (size.toNat + 7) / 8 := by omega
      rw [heq, getD_map_range, if_pos hwords]
      match elements, hnil with
      | e :: es, hcons =>
        have he := hall e List.mem_cons_self
        have hdvd : e.alignment.toNat ∣ o := by
          refine Nat.dvd_trans ?_ hdvd
          rw [halign]
          exact he.isAlignment.dvd_of_le
            (isAlignment_alignmentOf hcons fun e he => (hall e he).isAlignment)
            (le_alignmentOf List.mem_cons_self)
        have hmod : o % 8 = o := Nat.mod_eq_of_lt ho.lt
        have hdiv : o / 8 = 0 := Nat.div_eq_of_lt ho.lt
        rw [fieldClasses_cons, roundUp_eq hdvd, hmod, hdiv] at hacc
        split at hacc
        · exact absurd hacc (by simp)
        · refine fieldClasses_ne_no hacc ?_
          unfold mergeAt
          rw [if_pos (Nat.le_refl 0), mergeClasses_no_right]
          exact ih e List.mem_cons_self ⟨hdvd, ho.lt⟩ ‹_›

theorem sound_fieldClasses {es : List FfiType} {o x : Nat} {acc acc' : Classes}
    {bytes : Nat → Prop} (hacc : Sound acc o (o + x) bytes)
    (hdvd : ∀ e ∈ es, e.alignment.toNat ∣ o) (hall : ∀ e ∈ es, Laid e)
    (ih : ∀ e ∈ es, ∀ o, Aligned e o → classOf e o ≠ [] →
      Sound (fun i => (classOf e o).getD i .no) o (o + e.size.toNat)
        fun k => o ≤ k ∧ Covers (leaves e) (k - o))
    (h : fieldClasses es (o + x) acc = some acc') :
    Sound acc' o (o + endOf x es)
      fun k => bytes k ∨ o ≤ k ∧ Covers (fieldLeaves es x) (k - o) := by
  induction es generalizing x acc bytes with
  | nil =>
    rw [fieldClasses] at h
    rw [← Option.some.inj h]
    refine hacc.congr (fun j => .inl rfl) (Nat.le_refl _) ?_
    intro k hk
    rcases hk with hk | ⟨-, hk⟩
    · exact hk
    · rw [fieldLeaves] at hk
      obtain ⟨l, hl, -⟩ := hk
      cases hl
  | cons e es ihes =>
    have hmem : ∀ e' ∈ es, e' ∈ e :: es := fun e' => List.mem_cons_of_mem _
    have hde := hdvd e List.mem_cons_self
    have hle := hall e List.mem_cons_self
    have hup := le_roundUp (n := x) hle.isAlignment.pos
    rw [fieldClasses_cons, roundUp_add _ hde] at h
    split at h
    · exact absurd h (by simp)
    rename_i hne
    generalize hb : roundUp x e.alignment.toNat = b at h hup hne
    have hb' : e.alignment.toNat ∣ o + b := by
      rw [← hb]
      exact Nat.dvd_add hde dvd_roundUp
    have haligned : Aligned e ((o + b) % 8) :=
      ⟨hle.isAlignment.dvd_mod_eight hb', Nat.mod_lt _ (by omega)⟩
    have hstep := hacc.mergeAt (ih e List.mem_cons_self _ haligned hne)
      (classOf_first hle haligned hne) (Nat.le_add_right o x) (Nat.add_le_add_left hup o)
    rw [Nat.add_assoc] at hstep h
    have hrest := ihes hstep (fun e' he' => hdvd e' (hmem e' he'))
      (fun e' he' => hall e' (hmem e' he')) (fun e' he' => ih e' (hmem e' he')) h
    unfold endOf
    rw [hb]
    refine hrest.congr (fun j => .inl rfl) (Nat.le_refl _) ?_
    intro k hk
    rcases hk with hk | ⟨hok, hk⟩
    · exact .inl (.inl hk)
    · rw [covers_fieldLeaves_cons, hb] at hk
      rcases hk with ⟨hbk, hk⟩ | hk
      · have hsplit := Nat.div_add_mod (o + b) 8
        refine .inl (.inr ⟨by omega, by omega, ?_⟩)
        rw [show k - 8 * ((o + b) / 8) - (o + b) % 8 = k - o - b by omega]
        exact hk
      · exact .inr ⟨hok, hk⟩

/-- **What the classes of a type stand for.** -/
theorem sound_classOf {t : FfiType} (h : Laid t) {o : Nat} (ho : Aligned t o)
    (hne : classOf t o ≠ []) :
    Sound (fun i => (classOf t o).getD i .no) o (o + t.size.toNat)
      fun k => o ≤ k ∧ Covers (leaves t) (k - o) := by
  induction h generalizing o with
  | @base t h =>
    obtain ⟨c, h⟩ := isScalar_of_mem h
    have hcovers : ∀ k, o ≤ k ∧ Covers (leaves t) (k - o) → o ≤ k ∧ k < o + t.size.toNat := by
      intro k ⟨hle, hk⟩
      rw [covers_scalar h] at hk
      omega
    have hdvd := ho.dvd
    have hlt := ho.lt
    cases h with
    | integer hcase hsize halign =>
      rw [classOf_integer hcase]
      refine sound_singleton ?_ ?_ ?_ hcovers
      · split <;> decide
      · split <;> exact RegClass.noConfusion
      · split <;> rintro (h | h) <;> exact RegClass.noConfusion h
    | float =>
      change 4 ∣ o at hdvd
      rw [classOf_float]
      refine sound_singleton ?_ ?_ ?_ hcovers
      · split <;> decide
      · split
        · intro _
          refine ⟨by omega, by decide, ?_⟩
          intro k hk
          have := hcovers k hk
          change o ≤ k ∧ k < o + 4 at this
          omega
        · exact RegClass.noConfusion
      · split
        · rintro (h | h) <;> exact RegClass.noConfusion h
        · intro _
          show 8 ≤ o + 4
          omega
    | double =>
      change 8 ∣ o at hdvd
      rw [classOf_double]
      refine sound_singleton (by decide) RegClass.noConfusion ?_ hcovers
      intro _
      show 8 ≤ o + 8
      omega
    | longdouble =>
      rw [classOf_longdouble]
      constructor
      · intro j
        match j with
        | 0 | 1 => exact ⟨RegClass.noConfusion, RegClass.noConfusion⟩
        | j + 2 => exact ⟨RegClass.noConfusion, RegClass.noConfusion⟩
      · exact RegClass.noConfusion
      · intro j hj
        match j with
        | 0 | 1 => exact RegClass.noConfusion hj
        | j + 2 => exact RegClass.noConfusion hj
      · intro j hj
        match j with
        | 0 | 1 => rcases hj with hj | hj <;> exact RegClass.noConfusion hj
        | j + 2 => rcases hj with hj | hj <;> exact RegClass.noConfusion hj
      · intro j hj
        match j with
        | 0 => exact Nat.le_add_left 16 o
        | 1 => exact RegClass.noConfusion hj
        | j + 2 => exact RegClass.noConfusion hj
      · exact hcovers
  | @struct size alignment elements hnil hall halign hsize ih =>
    have hdvd : ∀ e ∈ elements, e.alignment.toNat ∣ o := by
      intro e he
      have hpow := isAlignment_alignmentOf hnil fun e he => (hall e he).isAlignment
      refine Nat.dvd_trans ((hall e he).isAlignment.dvd_of_le hpow (le_alignmentOf he)) ?_
      rw [← halign]
      exact ho.dvd
    rw [classOf_struct] at hne ⊢
    cases hacc : fieldClasses elements o fun _ => .no with
    | none =>
      rw [hacc] at hne
      exact absurd rfl hne
    | some acc =>
      rw [hacc] at hne
      obtain ⟨-, heq, -⟩ := wordClasses_ne_nil hne
      have hsound := sound_fieldClasses (x := 0) (sound_empty o) hdvd hall
        (fun e he o => ih e he) hacc
      have hend : endOf o elements ≤ o + size.toNat := by
        apply endOf_le hnil hall hsize
        rw [← halign]
        exact ho.dvd
      have hadd := endOf_add hdvd 0
      rw [Nat.add_zero] at hadd
      refine hsound.congr ?_ (by change o + endOf 0 elements ≤ o + size.toNat; omega) ?_
      · intro j
        show (wordClasses _ acc).getD j .no = acc j ∨ (wordClasses _ acc).getD j .no = .no
        rw [heq, getD_map_range]
        split
        · exact .inl rfl
        · exact .inr rfl
      · intro k hk
        rw [leaves] at hk
        exact .inr hk

theorem covers_lt {t : FfiType} (h : Laid t) {k : Nat} (hk : Covers (leaves t) k) :
    k < t.size.toNat := by
  induction h generalizing k with
  | base h =>
    obtain ⟨c, h⟩ := isScalar_of_mem h
    exact (covers_scalar h).mp hk
  | @struct size alignment elements hne hall halign hsize ih =>
    have hend := endOf_le hne hall hsize (o := 0) (Nat.dvd_zero _)
    rw [Nat.zero_add] at hend
    rw [leaves] at hk
    refine Nat.lt_of_lt_of_le ?_ hend
    clear hne halign hsize hend
    generalize 0 = b at hk ⊢
    induction elements generalizing b with
    | nil =>
      rw [fieldLeaves] at hk
      obtain ⟨l, hl, -⟩ := hk
      cases hl
    | cons e es ihes =>
      have hmem : ∀ e' ∈ es, e' ∈ e :: es := fun e' => List.mem_cons_of_mem _
      have hrest := le_endOf (fun e' he' => (hall e' (hmem e' he')).isAlignment.pos)
        (roundUp b e.alignment.toNat + e.size.toNat)
      rw [covers_fieldLeaves_cons] at hk
      unfold endOf
      rcases hk with ⟨hle, hk⟩ | hk
      · have := ih e List.mem_cons_self hk
        omega
      · exact ihes (fun e' he' => hall e' (hmem e' he')) (fun e' he' => ih e' (hmem e' he')) _ hk

end NodeFfi.Unix64
