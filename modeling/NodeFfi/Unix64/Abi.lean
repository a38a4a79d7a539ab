import NodeFfi.Unix64.Cif

/-!
# The classes that the calling convention asks for

The calling convention passes a word of an argument in a general purpose register if one of its
scalars is an integer, and in an SSE register if all are floating point. `classify_argument` finds
these classes (`describes_classOf`) as long as every structure within a type lies in as many words
as its size alone would take (`Whole`). It counts these words without the offset at which the
structure starts, so the scalars in the word that is missing are lost otherwise.
-/

namespace NodeFfi.Unix64

open Libffi Layout

/-! ### Words -/

mutual

/-- Each structure within a type at the offset `o` of its first word lies in as many words as its
size takes. -/
def Whole : FfiType → Nat → Prop
  | ⟨_, _, _, none⟩, _ => True
  | ⟨size, _, _, some elements⟩, o =>
    o + size.toNat ≤ 8 * ((size.toNat + 7) / 8) ∧ WholeFields elements o

def WholeFields : List FfiType → Nat → Prop
  | [], _ => True
  | e :: es, b =>
    Whole e (roundUp b e.alignment.toNat % 8) ∧
      WholeFields es (roundUp b e.alignment.toNat + e.size.toNat)

end

mutual

instance decidableWhole : (t : FfiType) → (o : Nat) → Decidable (Whole t o)
  | ⟨_, _, _, none⟩, _ => by
    unfold Whole
    exact .isTrue trivial
  | ⟨size, _, _, some elements⟩, o => by
    have := decidableWholeFields elements o
    unfold Whole
    infer_instance

instance decidableWholeFields : (es : List FfiType) → (b : Nat) → Decidable (WholeFields es b)
  | [], _ => by
    unfold WholeFields
    exact .isTrue trivial
  | e :: es, b => by
    have := decidableWhole e (roundUp b e.alignment.toNat % 8)
    have := decidableWholeFields es (roundUp b e.alignment.toNat + e.size.toNat)
    unfold WholeFields
    infer_instance

end

/-- The scalars at an offset. -/
def shift (o : Nat) (ls : List (Nat × FfiType)) : List (Nat × FfiType) :=
  ls.map fun l => (o + l.1, l.2)

theorem shift_shift (o b : Nat) (ls : List (Nat × FfiType)) :
    shift o (shift b ls) = shift (o + b) ls := by
  unfold shift
  rw [List.map_map]
  refine List.map_congr_left fun l _ => ?_
  show (o + (b + l.1), l.2) = (o + b + l.1, l.2)
  rw [Nat.add_assoc]

theorem shift_zero (ls : List (Nat × FfiType)) : shift 0 ls = ls := by
  unfold shift
  refine (List.map_congr_left fun l _ => ?_).trans (List.map_id ls)
  show (0 + l.1, l.2) = l
  rw [Nat.zero_add]

theorem shift_append (o : Nat) (ls ms : List (Nat × FfiType)) :
    shift o (ls ++ ms) = shift o ls ++ shift o ms := List.map_append

def IsInteger (t : FfiType) : Prop := typeCase (code t) = .integer

/-- Some scalar starts in the word `j`. -/
def Occupied (ls : List (Nat × FfiType)) (j : Nat) : Prop := ∃ l ∈ ls, l.1 / 8 = j

/-- Some integer starts in the word `j`. -/
def HasInteger (ls : List (Nat × FfiType)) (j : Nat) : Prop :=
  ∃ l ∈ ls, l.1 / 8 = j ∧ IsInteger l.2

/-- The classes are those that the scalars `ls` ask for. -/
structure Describes (cls : Classes) (ls : List (Nat × FfiType)) : Prop where
  kinds : ∀ j, cls j = .no ∨ (cls j).isGpr = true ∨ (cls j).isSse = true
  occupied : ∀ j, cls j ≠ .no ↔ Occupied ls j
  gpr : ∀ j, (cls j).isGpr = true ↔ HasInteger ls j

section words

variable {ls ms : List (Nat × FfiType)} {j : Nat}

theorem occupied_append : Occupied (ls ++ ms) j ↔ Occupied ls j ∨ Occupied ms j := by
  unfold Occupied
  simp only [List.mem_append, or_and_right, exists_or]

theorem hasInteger_append : HasInteger (ls ++ ms) j ↔ HasInteger ls j ∨ HasInteger ms j := by
  unfold HasInteger
  simp only [List.mem_append, or_and_right, exists_or]

theorem occupied_shift (pos : Nat) : Occupied (shift (8 * pos) ls) j ↔
    pos ≤ j ∧ Occupied ls (j - pos) := by
  constructor
  · intro ⟨m, hm, hj⟩
    obtain ⟨l, hl, rfl⟩ := List.mem_map.mp hm
    change (8 * pos + l.1) / 8 = j at hj
    exact ⟨by omega, l, hl, by omega⟩
  · intro ⟨hpos, l, hl, hj⟩
    refine ⟨_, List.mem_map.mpr ⟨l, hl, rfl⟩, ?_⟩
    show (8 * pos + l.1) / 8 = j
    omega

theorem hasInteger_shift (pos : Nat) : HasInteger (shift (8 * pos) ls) j ↔
    pos ≤ j ∧ HasInteger ls (j - pos) := by
  constructor
  · intro ⟨m, hm, hj, hint⟩
    obtain ⟨l, hl, rfl⟩ := List.mem_map.mp hm
    change (8 * pos + l.1) / 8 = j at hj
    exact ⟨by omega, l, hl, by omega, hint⟩
  · intro ⟨hpos, l, hl, hj, hint⟩
    refine ⟨_, List.mem_map.mpr ⟨l, hl, rfl⟩, ?_, hint⟩
    show (8 * pos + l.1) / 8 = j
    omega

end words

/-! ### Merging -/

theorem mergeClasses_kinds {a b : RegClass} (ha : a = .no ∨ a.isGpr = true ∨ a.isSse = true)
    (hb : b = .no ∨ b.isGpr = true ∨ b.isSse = true) :
    (mergeClasses a b = .no ∨ (mergeClasses a b).isGpr = true ∨
        (mergeClasses a b).isSse = true) ∧
      ((mergeClasses a b).isGpr = true ↔ a.isGpr = true ∨ b.isGpr = true) := by
  revert ha hb
  cases a <;> cases b <;> decide

theorem describes_empty : Describes (fun _ => .no) [] where
  kinds _ := .inl rfl
  occupied _ := iff_of_false (fun h => h rfl) fun ⟨_, hl, _⟩ => nomatch hl
  gpr _ := iff_of_false (fun h => nomatch h) fun ⟨_, hl, _⟩ => nomatch hl

theorem Describes.mergeAt {acc : Classes} {cs : List RegClass} {ls ms : List (Nat × FfiType)}
    (h : Describes acc ls) (hfield : Describes (fun i => cs.getD i .no) ms) (pos : Nat) :
    Describes (mergeAt cs pos acc) (ls ++ shift (8 * pos) ms) := by
  constructor
  · intro j
    unfold Unix64.mergeAt
    split
    · exact (mergeClasses_kinds (hfield.kinds _) (h.kinds j)).1
    · exact h.kinds j
  · intro j
    rw [occupied_append, occupied_shift, ← h.occupied, ← hfield.occupied]
    unfold Unix64.mergeAt
    by_cases hpos : pos ≤ j
    · rw [if_pos hpos, ne_eq, mergeClasses_eq_no]
      simp only [hpos, true_and]
      tauto
    · rw [if_neg hpos]
      simp only [hpos, false_and, or_false]
  · intro j
    rw [hasInteger_append, hasInteger_shift, ← h.gpr, ← hfield.gpr]
    unfold Unix64.mergeAt
    by_cases hpos : pos ≤ j
    · rw [if_pos hpos, (mergeClasses_kinds (hfield.kinds _) (h.kinds j)).2]
      simp only [hpos, true_and]
      tauto
    · rw [if_neg hpos]
      simp only [hpos, false_and, or_false]

/-! ### Sizes -/

theorem roundUp_lt {n a : Nat} (ha : 0 < a) : roundUp n a < n + a := by
  unfold roundUp
  have hle := Nat.div_mul_le_self (n + (a - 1)) a
  omega

theorem roundUp_mono {m n a : Nat} (h : m ≤ n) : roundUp m a ≤ roundUp n a :=
  Nat.mul_le_mul_right a (Nat.div_le_div_right (Nat.add_le_add_right h _))

theorem le_endOf_aligned {es : List FfiType} (hall : ∀ e ∈ es, Laid e) {e : FfiType} (he : e ∈ es)
    (b : Nat) : roundUp b e.alignment.toNat + e.size.toNat ≤ endOf b es := by
  induction es generalizing b with
  | nil => cases he
  | cons f es ih =>
    have hrest : ∀ e ∈ es, Laid e := fun e he => hall e (List.mem_cons_of_mem _ he)
    unfold endOf
    rcases List.mem_cons.mp he with rfl | he
    · exact le_endOf (fun e he => (hrest e he).isAlignment.pos) _
    · refine Nat.le_trans ?_ (ih hrest he _)
      have hup := le_roundUp (n := b) (hall f List.mem_cons_self).isAlignment.pos
      have hmono : roundUp b e.alignment.toNat ≤
          roundUp (roundUp b f.alignment.toNat + f.size.toNat) e.alignment.toNat :=
        roundUp_mono (by omega)
      omega

theorem exists_alignmentOf {es : List FfiType} (h : es ≠ []) :
    ∃ e ∈ es, e.alignment.toNat = alignmentOf es := by
  induction es with
  | nil => exact absurd rfl h
  | cons e es ih =>
    unfold alignmentOf
    rcases Nat.le_total (alignmentOf es) e.alignment.toNat with hle | hle
    · exact ⟨e, List.mem_cons_self, (Nat.max_eq_left hle).symm⟩
    · rw [Nat.max_eq_right hle]
      by_cases hes : es = []
      · subst hes
        exact ⟨e, List.mem_cons_self, Nat.le_antisymm hle (Nat.zero_le _)⟩
      · obtain ⟨e', he', heq⟩ := ih hes
        exact ⟨e', List.mem_cons_of_mem _ he', heq⟩

theorem size_le_struct {size : BitVec 64} {elements : List FfiType} (hne : elements ≠ [])
    (hall : ∀ e ∈ elements, Laid e)
    (hsize : size.toNat = roundUp (endOf 0 elements) (alignmentOf elements)) {e : FfiType}
    (he : e ∈ elements) : e.size.toNat ≤ size.toNat := by
  have hend := endOf_le hne hall hsize (o := 0) (Nat.dvd_zero _)
  have hfield := le_endOf_aligned hall he 0
  omega

theorem leaf_lt {t : FfiType} (h : Laid t) {l : Nat × FfiType} (hl : l ∈ leaves t)
    (hsize : 0 < l.2.size.toNat) : l.1 < t.size.toNat :=
  covers_lt h ⟨l, hl, Nat.le_refl _, by omega⟩

theorem mem_leaves_size {t : FfiType} (h : Laid t) {l : Nat × FfiType} (hl : l ∈ leaves t) :
    0 < l.2.size.toNat := by
  induction h generalizing l with
  | @base t h =>
    obtain ⟨c, hc⟩ := isScalar_of_mem h
    rw [leaves_scalar hc] at hl
    rw [List.mem_singleton.mp hl]
    exact (Laid.base h).size_pos
  | @struct size alignment elements hne hall halign hsize ih =>
    rw [leaves] at hl
    clear hne halign hsize
    suffices hfields : ∀ b, ∀ l ∈ fieldLeaves elements b, 0 < l.2.size.toNat from hfields 0 l hl
    clear hl l
    intro b l hl
    induction elements generalizing b with
    | nil =>
      rw [fieldLeaves] at hl
      cases hl
    | cons e es ihes =>
      rw [fieldLeaves] at hl
      rcases List.mem_append.mp hl with hl | hl
      · obtain ⟨m, hm, rfl⟩ := List.mem_map.mp hl
        show 0 < m.2.size.toNat
        exact ih e List.mem_cons_self hm
      · exact ihes (fun e he => hall e (List.mem_cons_of_mem _ he))
          (fun e he l => ih e (List.mem_cons_of_mem _ he)) _ hl

/-! ### The classes of a type -/

theorem describes_singleton {c : RegClass} {l : Nat × FfiType} (hl : l.1 < 8)
    (hkinds : c.isGpr = true ∨ c.isSse = true)
    (hgpr : c.isGpr = true ↔ IsInteger l.2) : Describes (fun i => [c].getD i .no) [l] := by
  have hno : c ≠ .no := by
    rintro rfl
    rcases hkinds with h | h <;> cases h
  constructor
  · intro j
    rw [getD_singleton]
    split
    · exact .inr hkinds
    · exact .inl rfl
  · intro j
    rw [getD_singleton]
    unfold Occupied
    simp only [List.mem_singleton, exists_eq_left]
    split
    · exact iff_of_true hno (by omega)
    · exact iff_of_false (fun h => h rfl) (by omega)
  · intro j
    rw [getD_singleton]
    unfold HasInteger
    simp only [List.mem_singleton, exists_eq_left]
    split
    · rw [hgpr]
      exact ⟨fun h => ⟨by omega, h⟩, fun h => h.2⟩
    · exact iff_of_false (fun h => nomatch h) (by omega)

theorem describes_fieldClasses {es : List FfiType} {o x : Nat} {acc : Classes}
    {ls : List (Nat × FfiType)} (hacc : Describes acc ls)
    (hdvd : ∀ e ∈ es, e.alignment.toNat ∣ o) (hall : ∀ e ∈ es, Laid e)
    (hwhole : WholeFields es (o + x))
    (ih : ∀ e ∈ es, ∀ o, Aligned e o → Whole e o → classOf e o ≠ [] ∧
      Describes (fun i => (classOf e o).getD i .no) (shift o (leaves e))) :
    ∃ acc', fieldClasses es (o + x) acc = some acc' ∧
      Describes acc' (ls ++ shift o (fieldLeaves es x)) := by
  induction es generalizing x acc ls with
  | nil =>
    refine ⟨acc, by rw [fieldClasses], ?_⟩
    rw [fieldLeaves]
    show Describes acc (ls ++ [])
    rw [List.append_nil]
    exact hacc
  | cons e es ihes =>
    have hmem : ∀ e' ∈ es, e' ∈ e :: es := fun e' => List.mem_cons_of_mem _
    have hde := hdvd e List.mem_cons_self
    have hle := hall e List.mem_cons_self
    unfold WholeFields at hwhole
    rw [roundUp_add _ hde] at hwhole
    rw [fieldClasses_cons, roundUp_add _ hde, fieldLeaves]
    generalize hb : roundUp x e.alignment.toNat = b at hwhole ⊢
    have hb' : e.alignment.toNat ∣ o + b := by
      rw [← hb]
      exact Nat.dvd_add hde dvd_roundUp
    have haligned : Aligned e ((o + b) % 8) :=
      ⟨hle.isAlignment.dvd_mod_eight hb', Nat.mod_lt _ (by omega)⟩
    obtain ⟨hne, hfield⟩ := ih e List.mem_cons_self _ haligned hwhole.1
    have hstep := hacc.mergeAt hfield ((o + b) / 8)
    rw [shift_shift, Nat.div_add_mod] at hstep
    rw [if_neg hne]
    rw [Nat.add_assoc] at hwhole ⊢
    obtain ⟨acc', hrun, hrest⟩ := ihes hstep (fun e' he' => hdvd e' (hmem e' he'))
      (fun e' he' => hall e' (hmem e' he')) hwhole.2 (fun e' he' => ih e' (hmem e' he'))
    refine ⟨acc', hrun, ?_⟩
    change Describes acc' (ls ++ shift o (shift b (leaves e) ++ _))
    rw [shift_append, shift_shift, ← List.append_assoc]
    exact hrest

/-- **The classes are those of the calling convention.** -/
theorem describes_classOf {t : FfiType} (h : Laid t) (halign : t.alignment.toNat ≤ 8)
    (hsize : t.size.toNat ≤ 16) {o : Nat} (ho : Aligned t o) (hwhole : Whole t o) :
    classOf t o ≠ [] ∧ Describes (fun i => (classOf t o).getD i .no) (shift o (leaves t)) := by
  induction h generalizing o with
  | @base t h =>
    obtain ⟨c, h⟩ := isScalar_of_mem h
    rw [leaves_scalar h]
    have hlt := ho.lt
    cases h with
    | @integer size alignment type hcase hsize halign =>
      rw [classOf_integer hcase]
      refine ⟨List.cons_ne_nil _ _, describes_singleton hlt ?_ (iff_of_true ?_ hcase)⟩
      · split <;> decide
      · split <;> rfl
    | float =>
      rw [classOf_float]
      refine ⟨List.cons_ne_nil _ _, describes_singleton hlt ?_ (iff_of_false ?_ ?_)⟩
      · split <;> decide
      · split <;> decide
      · intro h
        cases h
    | double =>
      rw [classOf_double]
      refine ⟨List.cons_ne_nil _ _, describes_singleton hlt (.inr rfl) (iff_of_false ?_ ?_)⟩
      · decide
      · intro h
        cases h
    | longdouble => exact absurd halign (by decide)
  | @struct size alignment elements hnil hall halign' hsize' ih =>
    have hlaid : Laid ⟨size, alignment, ffiTypeStruct, some elements⟩ :=
      .struct hnil hall halign' hsize'
    have hpos := hlaid.size_pos
    change 0 < size.toNat at hpos
    change alignment.toNat ≤ 8 at halign
    change size.toNat ≤ 16 at hsize
    have hdvd : ∀ e ∈ elements, e.alignment.toNat ∣ o := by
      intro e he
      have hpow := isAlignment_alignmentOf hnil fun e he => (hall e he).isAlignment
      refine Nat.dvd_trans ((hall e he).isAlignment.dvd_of_le hpow (le_alignmentOf he)) ?_
      rw [← halign']
      exact ho.dvd
    unfold Whole at hwhole
    obtain ⟨hfits, hfields⟩ := hwhole
    obtain ⟨acc, hacc, hdesc⟩ := describes_fieldClasses (x := 0) describes_empty hdvd hall hfields
      fun e he o ho hw => ih e he (by have := le_alignmentOf he; omega)
        (Nat.le_trans (size_le_struct hnil hall hsize' he) hsize) ho hw
    rw [Nat.add_zero] at hacc
    rw [List.nil_append] at hdesc
    rw [classOf_struct, hacc, leaves]
    have hwords : wordClasses ((size.toNat + 7) / 8) acc =
        (List.range ((size.toNat + 7) / 8)).map acc := by
      unfold wordClasses
      rw [if_neg (by omega), if_neg]
      simp only [List.any_eq_true, List.mem_range, decide_eq_true_eq, not_exists, not_and, not_or]
      intro i _
      rcases hdesc.kinds i with hk | hk | hk
      · rw [hk]
        refine ⟨by decide, fun h => ?_⟩
        cases h
      · refine ⟨fun h => ?_, fun h _ => ?_⟩
        · rw [h] at hk
          cases hk
        · rw [h] at hk
          cases hk
      · refine ⟨fun h => ?_, fun h _ => ?_⟩
        · rw [h] at hk
          cases hk
        · rw [h] at hk
          cases hk
    simp only [hwords]
    refine ⟨?_, ?_⟩
    · intro hnil
      have hlen := congrArg List.length hnil
      rw [List.length_map, List.length_range] at hlen
      change (size.toNat + 7) / 8 = 0 at hlen
      omega
    · -- no scalar starts behind the words
      have hbehind : ∀ j, (size.toNat + 7) / 8 ≤ j → acc j = .no := by
        intro j hj
        by_contra hne
        obtain ⟨m, hm, hmj⟩ := (hdesc.occupied j).mp hne
        obtain ⟨l, hl, rfl⟩ := List.mem_map.mp hm
        have hmem : l ∈ leaves ⟨size, alignment, ffiTypeStruct, some elements⟩ := by
          rw [leaves]
          exact hl
        have hlt := leaf_lt hlaid hmem (mem_leaves_size hlaid hmem)
        change l.1 < size.toNat at hlt
        change (o + l.1) / 8 = j at hmj
        omega
      have hcls : (fun i => ((List.range ((size.toNat + 7) / 8)).map acc).getD i .no) = acc := by
        funext i
        rw [getD_map_range]
        split
        · rfl
        · exact (hbehind i (by omega)).symm
      rw [hcls]
      exact hdesc

/-! ### No word without a scalar -/

theorem Whole.fits {t : FfiType} (h : Laid t) (halign : t.alignment.toNat ≤ 8) {o : Nat}
    (ho : Aligned t o) (hwhole : Whole t o) :
    o + t.size.toNat ≤ 8 * ((t.size.toNat + 7) / 8) := by
  cases h with
  | base h =>
    have hpos := (Laid.base h).size_pos
    obtain ⟨c, h⟩ := isScalar_of_mem h
    have hc : c ≠ .longdouble := by
      rintro rfl
      cases h
      exact absurd halign (by decide)
    have hfits := h.fits hc ho
    omega
  | struct =>
    unfold Whole at hwhole
    exact hwhole.1

theorem occupied_fieldLeaves {es : List FfiType} {o x : Nat} {ls : List (Nat × FfiType)}
    (ho : o < 8) (hls : x ≠ 0 → ∀ j, 8 * j < o + x → Occupied ls j)
    (hdvd : ∀ e ∈ es, e.alignment.toNat ∣ o) (hall : ∀ e ∈ es, Laid e)
    (halign : ∀ e ∈ es, e.alignment.toNat ≤ 8) (hwhole : WholeFields es (o + x))
    (ih : ∀ e ∈ es, ∀ o, Aligned e o → Whole e o →
      ∀ j < (e.size.toNat + 7) / 8, Occupied (shift o (leaves e)) j) :
    endOf x es ≠ 0 → ∀ j, 8 * j < o + endOf x es → Occupied (ls ++ shift o (fieldLeaves es x)) j := by
  induction es generalizing x ls with
  | nil =>
    intro hne j hj
    exact occupied_append.mpr (.inl (hls hne j hj))
  | cons e es ihes =>
    have hmem : ∀ e' ∈ es, e' ∈ e :: es := fun e' => List.mem_cons_of_mem _
    have hde := hdvd e List.mem_cons_self
    have hle := hall e List.mem_cons_self
    have hae := halign e List.mem_cons_self
    have hpos := hle.size_pos
    have hup := roundUp_lt (n := x) hle.isAlignment.pos
    unfold WholeFields at hwhole
    rw [roundUp_add _ hde] at hwhole
    unfold endOf
    rw [fieldLeaves]
    have hzero : x = 0 → roundUp x e.alignment.toNat = 0 := by
      intro hx
      rw [hx]
      exact roundUp_eq (Nat.dvd_zero _)
    generalize hb : roundUp x e.alignment.toNat = b at hwhole hup hzero ⊢
    have hb' : e.alignment.toNat ∣ o + b := by
      rw [← hb]
      exact Nat.dvd_add hde dvd_roundUp
    have haligned : Aligned e ((o + b) % 8) :=
      ⟨hle.isAlignment.dvd_mod_eight hb', Nat.mod_lt _ (by omega)⟩
    have hfits := hwhole.1.fits hle hae haligned
    have hls' : ∀ j, 8 * j < o + (b + e.size.toNat) →
        Occupied (ls ++ shift (o + b) (leaves e)) j := by
      intro j hj
      rw [occupied_append]
      by_cases hold : x ≠ 0 ∧ 8 * j < o + x
      · exact .inl (hls hold.1 j hold.2)
      · -- the word in which the field starts, or one behind it
        right
        have hword : (o + b) / 8 ≤ j := by
          by_cases hx : x = 0
          · have := hzero hx
            omega
          · omega
        have hindex := ih e List.mem_cons_self _ haligned hwhole.1 (j - (o + b) / 8) (by omega)
        have hshift := (occupied_shift ((o + b) / 8)).mpr ⟨hword, hindex⟩
        rw [shift_shift, Nat.div_add_mod] at hshift
        exact hshift
    rw [Nat.add_assoc] at hwhole
    change _ → ∀ j, _ → Occupied (ls ++ shift o (shift b (leaves e) ++ _)) j
    rw [shift_append, shift_shift, ← List.append_assoc]
    exact ihes (fun _ => hls') (fun e' he' => hdvd e' (hmem e' he'))
      (fun e' he' => hall e' (hmem e' he')) (fun e' he' => halign e' (hmem e' he')) hwhole.2
      (fun e' he' => ih e' (hmem e' he'))

theorem occupied_leaves {t : FfiType} (h : Laid t) (halign : t.alignment.toNat ≤ 8) {o : Nat}
    (ho : Aligned t o) (hwhole : Whole t o) {j : Nat} (hj : j < (t.size.toNat + 7) / 8) :
    Occupied (shift o (leaves t)) j := by
  induction h generalizing o j with
  | @base t h =>
    obtain ⟨c, h⟩ := isScalar_of_mem h
    have hlt := ho.lt
    have hc : c ≠ .longdouble := by
      rintro rfl
      cases h
      exact absurd halign (by decide)
    have hfits := h.fits hc ho
    rw [leaves_scalar h]
    refine ⟨(o + 0, t), List.mem_singleton.mpr rfl, ?_⟩
    show (o + 0) / 8 = j
    omega
  | @struct size alignment elements hnil hall halign' hsize' ih =>
    have hpow := isAlignment_alignmentOf hnil fun e he => (hall e he).isAlignment
    have hle : alignmentOf elements ≤ 8 := by
      rw [← halign']
      exact halign
    have hdvd : ∀ e ∈ elements, e.alignment.toNat ∣ o := by
      intro e he
      refine Nat.dvd_trans ((hall e he).isAlignment.dvd_of_le hpow (le_alignmentOf he)) ?_
      rw [← halign']
      exact ho.dvd
    change j < (size.toNat + 7) / 8 at hj
    -- the last word starts before the end of the last field
    have hlast : 8 * j < endOf 0 elements := by
      have hup := roundUp_lt (n := endOf 0 elements) hpow.pos
      have hd : alignmentOf elements ∣ size.toNat := by
        rw [hsize']
        exact dvd_roundUp
      rw [← hsize'] at hup
      rcases hpow.eq_of_le hle with ha | ha | ha | ha <;> rw [ha] at hup hd <;> omega
    unfold Whole at hwhole
    have helems : ∀ e ∈ elements, e.alignment.toNat ≤ 8 := by
      intro e he
      have := le_alignmentOf he
      omega
    have hocc : Occupied ([] ++ shift o (fieldLeaves elements 0)) j :=
      occupied_fieldLeaves ho.lt (fun h => absurd rfl h) hdvd hall helems hwhole.2
        (fun e he o ho hw j hj => ih e he (helems e he) ho hw hj) (by omega) j (by omega)
    rw [leaves]
    exact hocc

/-! ### Long doubles -/

theorem classOf_sixteen {t : FfiType} (h : Laid t) (halign : t.alignment.toNat = 16)
    (hne : classOf t 0 ≠ []) : (classOf t 0).getD 0 .no = .x87 := by
  induction h with
  | @base t h =>
    obtain ⟨c, h⟩ := isScalar_of_mem h
    cases h with
    | @integer size alignment _ _ hsize halign' =>
      change alignment.toNat = 16 at halign
      omega
    | float => exact absurd halign (by decide)
    | double => exact absurd halign (by decide)
    | longdouble =>
      rw [classOf_longdouble]
      rfl
  | @struct size alignment elements hnil hall halign' hsize' ih =>
    have hlaid : Laid ⟨size, alignment, ffiTypeStruct, some elements⟩ :=
      .struct hnil hall halign' hsize'
    obtain ⟨hlen, hlen2⟩ := classOf_length hlaid hne
    change (classOf ⟨size, alignment, ffiTypeStruct, some elements⟩ 0).length =
      (size.toNat + 7) / 8 at hlen
    have hpow := isAlignment_alignmentOf hnil fun e he => (hall e he).isAlignment
    have hup := le_roundUp (n := endOf 0 elements) hpow.pos
    rw [← hsize'] at hup
    have hend : endOf 0 elements ≤ 16 := by omega
    change alignment.toNat = 16 at halign
    rw [halign'] at halign
    match elements, hnil, hend, halign with
    | e :: es, hcons, hend, halign =>
      have he := hall e List.mem_cons_self
      have hpos := he.size_pos
      have hrest : ∀ e ∈ es, Laid e := fun e he => hall e (List.mem_cons_of_mem _ he)
      unfold endOf at hend
      rw [roundUp_eq (Nat.dvd_zero _), Nat.zero_add] at hend
      -- a later field with this alignment would end behind the 16 bytes
      have hlate : ∀ e' ∈ es, e'.alignment.toNat ≠ 16 := by
        intro e' he' h16
        have hlate := le_endOf_aligned hrest he' e.size.toNat
        rw [h16] at hlate
        have hpos' := (hrest e' he').size_pos
        have hup' := le_roundUp (n := e.size.toNat) (show 0 < 16 by decide)
        have hdvd : 16 ∣ roundUp e.size.toNat 16 := dvd_roundUp
        omega
      have hfirst : e.alignment.toNat = 16 := by
        unfold alignmentOf at halign
        by_contra hne16
        have hmax : alignmentOf es = 16 := by omega
        have hne : es ≠ [] := by
          rintro rfl
          cases hmax
        obtain ⟨e', he', h16⟩ := exists_alignmentOf hne
        exact hlate e' he' (h16.trans hmax)
      have hes : es = [] := by
        by_contra hes
        obtain ⟨e', he'⟩ := List.exists_mem_of_ne_nil _ hes
        have hdvd := he.dvd_size
        rw [hfirst] at hdvd
        have hlate := le_endOf_aligned hrest he' e.size.toNat
        have hup' := le_roundUp (n := e.size.toNat) (hrest e' he').isAlignment.pos
        have hpos' := (hrest e' he').size_pos
        omega
      subst hes
      rw [classOf_struct, fieldClasses_cons, roundUp_eq (Nat.dvd_zero _)] at hne ⊢
      by_cases hnil' : classOf e (0 % 8) = []
      · rw [if_pos hnil'] at hne
        exact absurd rfl hne
      · rw [if_neg hnil'] at hne ⊢
        rw [fieldClasses] at hne ⊢
        obtain ⟨-, heq, -⟩ := wordClasses_ne_nil hne
        have hwords : 0 < (size.toNat + 7) / 8 := by
          have := hlaid.size_pos
          change 0 < size.toNat at this
          omega
        show (wordClasses _ _).getD 0 .no = .x87
        rw [heq, getD_map_range, if_pos hwords]
        unfold mergeAt
        rw [if_pos (Nat.zero_le 0), mergeClasses_no_right]
        exact ih e List.mem_cons_self hfirst hnil'

/-! ### Arguments -/

section argument

variable {t : FfiType}

theorem align_cases (h : Laid t) : t.alignment.toNat ≤ 8 ∨ t.alignment.toNat = 16 := by
  obtain ⟨k, hk, heq⟩ := h.isAlignment
  rw [heq]
  match k, hk with
  | 0, _ | 1, _ | 2, _ | 3, _ | 4, _ => decide

theorem argClasses_large (h : Laid t) (hsize : 16 < t.size.toNat) : argClasses t = [] := by
  by_contra hne
  have hlen := argClasses_length h hne
  omega

theorem argClasses_sixteen (h : Laid t) (halign : t.alignment.toNat = 16) : argClasses t = [] := by
  by_contra hne
  obtain ⟨heq, hx⟩ := argClasses_ne_nil hne
  have hfirst := classOf_sixteen h halign (heq ▸ hne)
  rw [← heq] at hfirst
  have hpos : 0 < (argClasses t).length := List.length_pos_iff.mpr hne
  rw [List.getD_eq_getElem _ _ hpos] at hfirst
  have := hx _ (List.getElem_mem hpos)
  rw [hfirst] at this
  cases this

theorem describes_argClasses (h : Laid t) (halign : t.alignment.toNat ≤ 8)
    (hsize : t.size.toNat ≤ 16) (hwhole : Whole t 0) :
    argClasses t ≠ [] ∧ Describes (fun i => (argClasses t).getD i .no) (leaves t) := by
  obtain ⟨hne, hdesc⟩ := describes_classOf h halign hsize (aligned_zero t) hwhole
  rw [shift_zero] at hdesc
  have hany : ¬(classOf t 0).any RegClass.isX87 = true := by
    intro hany
    obtain ⟨c, hc, hx⟩ := List.any_eq_true.mp hany
    obtain ⟨i, hi, rfl⟩ := List.getElem_of_mem hc
    have hkinds := hdesc.kinds i
    simp only [List.getD_eq_getElem _ _ hi] at hkinds
    revert hkinds hx
    generalize (classOf t 0)[i] = c
    cases c <;> decide
  have heq : argClasses t = classOf t 0 := if_neg hany
  rw [heq]
  exact ⟨hne, hdesc⟩

theorem argClasses_eq_nil (h : Laid t) (hwhole : Whole t 0) :
    argClasses t = [] ↔ 16 < t.size.toNat ∨ t.alignment.toNat = 16 := by
  constructor
  · intro hnil
    by_contra hor
    have hor : ¬16 < t.size.toNat ∧ ¬t.alignment.toNat = 16 := not_or.mp hor
    have halign := align_cases h
    exact (describes_argClasses h (by omega) (by omega) hwhole).1 hnil
  · rintro (hsize | halign)
    · exact argClasses_large h hsize
    · exact argClasses_sixteen h halign

theorem complete_of_whole (h : Laid t) (hwhole : Whole t 0) : Complete (argClasses t) := by
  by_cases hnil : argClasses t = []
  · rw [hnil]
    exact fun c hc => nomatch hc
  · have hor : ¬16 < t.size.toNat ∧ ¬t.alignment.toNat = 16 :=
      not_or.mp ((argClasses_eq_nil h hwhole).not.mp hnil)
    have halign := align_cases h
    have halign : t.alignment.toNat ≤ 8 := by omega
    have hdesc := (describes_argClasses h halign (by omega) hwhole).2
    intro c hc
    obtain ⟨i, hi, rfl⟩ := List.getElem_of_mem hc
    have hlen := (argClasses_length h hnil).1
    have hocc := occupied_leaves h halign (aligned_zero t) hwhole (j := i) (by omega)
    rw [shift_zero] at hocc
    have hne := (hdesc.occupied i).mpr hocc
    simp only [List.getD_eq_getElem _ _ hi] at hne
    exact hne

/-- **The calling convention**, as `examine_argument` follows it: an argument goes into memory or
into a register for each word, and an integer decides which. -/
theorem examineArgument_convention (frames : Frames) (path : List Nat) (classes : Classes)
    (h : Laid t) (hwhole : Whole t 0) :
    ∃ e, examineArgument frames path t classes false = some e ∧
      (e.n = 0 ↔ 16 < t.size.toNat ∨ t.alignment.toNat = 16) ∧
      (e.n ≠ 0 → e.n = (t.size.toNat + 7) / 8 ∧ ∀ j < e.n,
        ((e.classes j).isGpr = true ↔ HasInteger (leaves t) j) ∧
          ((e.classes j).isSse = true ↔ ¬HasInteger (leaves t) j)) := by
  obtain ⟨e, hrun, hn, hclasses, -⟩ := examineArgument_argument frames path h classes
  have hzero : e.n = 0 ↔ argClasses t = [] := by
    rw [hn]
    exact List.length_eq_zero_iff
  refine ⟨e, hrun, hzero.trans (argClasses_eq_nil h hwhole), ?_⟩
  intro hne
  have hnil := hzero.not.mp hne
  have hor : ¬16 < t.size.toNat ∧ ¬t.alignment.toNat = 16 :=
    not_or.mp ((argClasses_eq_nil h hwhole).not.mp hnil)
  have halign := align_cases h
  have hdesc := (describes_argClasses h (by omega) (by omega) hwhole).2
  refine ⟨hn.trans (argClasses_length h hnil).1, ?_⟩
  intro j hj
  rw [hn] at hj
  have hcomplete := complete_of_whole h hwhole _ (List.getElem_mem hj)
  have hgpr := hdesc.gpr j
  have hkind := argClasses_kind h (List.getElem_mem hj) hcomplete
  simp only [List.getD_eq_getElem _ _ hj] at hgpr
  rw [hclasses j hj, List.getD_eq_getElem _ _ hj, ← hgpr]
  refine ⟨Iff.rfl, ?_⟩
  rcases hkind with ⟨hg, hs, -⟩ | ⟨hg, hs, -⟩ <;> rw [hg, hs] <;> decide

theorem examineArgument_convention_mixed : ∃ e,
    examineArgument (fun _ _ => .memory) []
      ⟨16, 8, ffiTypeStruct, some [⟨4, 4, 10, none⟩, ⟨4, 4, 2, none⟩, ⟨8, 8, 3, none⟩]⟩
      (fun _ => .memory) false = some e ∧
      (e.classes 0).isGpr = true ∧ (e.classes 1).isSse = true := by
  have hlaid : Laid ⟨16, 8, ffiTypeStruct,
      some [⟨4, 4, 10, none⟩, ⟨4, 4, 2, none⟩, ⟨8, 8, 3, none⟩]⟩ :=
    .struct (List.cons_ne_nil _ _) (fun e he => .base (by
      simp only [List.mem_cons, List.not_mem_nil, or_false] at he
      rcases he with rfl | rfl | rfl <;> simp [baseTypes])) (by decide) (by decide)
  have hleaves : leaves ⟨16, 8, ffiTypeStruct,
      some [⟨4, 4, 10, none⟩, ⟨4, 4, 2, none⟩, ⟨8, 8, 3, none⟩]⟩ =
      [(0, ⟨4, 4, 10, none⟩), (4, ⟨4, 4, 2, none⟩), (8, ⟨8, 8, 3, none⟩)] := by
    simp [leaves, fieldLeaves, roundUp, FfiType.alignment, FfiType.size]
  obtain ⟨e, hrun, hzero, hwords⟩ := examineArgument_convention (fun _ _ => .memory) []
    (fun _ => .memory) hlaid (by decide)
  have hne : e.n ≠ 0 := hzero.not.mpr (by decide)
  obtain ⟨hn, hclasses⟩ := hwords hne
  have hn : e.n = 2 := hn
  rw [hn, hleaves] at hclasses
  refine ⟨e, hrun, (hclasses 0 (by decide)).1.mpr ?_, (hclasses 1 (by decide)).2.mpr ?_⟩
  · exact ⟨(0, ⟨4, 4, 10, none⟩), List.mem_cons_self, rfl, rfl⟩
  · rintro ⟨l, hl, hj, hint⟩
    simp only [List.mem_cons, List.not_mem_nil, or_false] at hl
    rcases hl with rfl | rfl | rfl
    · cases hj
    · cases hj
    · cases hint

end argument

theorem passable_of_whole {ts : List FfiType} (h : ∀ t ∈ ts, Laid t)
    (hwhole : ∀ t ∈ ts, Whole t 0) (c : Counts) : Passable c ts := by
  induction ts generalizing c with
  | nil => trivial
  | cons t ts ih =>
    exact ⟨.inr (complete_of_whole (h t List.mem_cons_self) (hwhole t List.mem_cons_self)),
      ih (fun t ht => h t (List.mem_cons_of_mem _ ht))
        (fun t ht => hwhole t (List.mem_cons_of_mem _ ht)) _⟩

end NodeFfi.Unix64
