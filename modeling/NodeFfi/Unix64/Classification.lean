import NodeFfi.Unix64.Classes

/-!
# `classify_argument` on types that are laid out

`classify_argument` computes `classOf`, for whatever its arrays of classes held before, and never
leaves them (`classifyArgument_of_laid`). The arrays do matter on the way: the fields of a structure
that starts in the middle of a word are merged into an entry behind its words, which holds anything.
No result depends on it.
-/

namespace NodeFfi.Unix64

open Libffi Layout

/-! ### The arrays -/

theorem get_eq {classes : Classes} {i : Nat} (h : i < maxClasses) :
    classes.get i = some (classes i) := if_pos h

theorem set_eq {classes : Classes} {i : Nat} {c : RegClass} (h : i < maxClasses) :
    classes.set i c = some (Function.update classes i c) := if_pos h

theorem clearClasses_eq (classes : Classes) (words : Nat) (h : words ≤ maxClasses) :
    ∃ out, clearClasses classes words = some out ∧ ∀ j < words, out j = .no := by
  unfold clearClasses
  induction words with
  | zero => exact ⟨classes, rfl, fun j hj => absurd hj (Nat.not_lt_zero j)⟩
  | succ words ih =>
    obtain ⟨out, hout, hno⟩ := ih (by omega)
    refine ⟨Function.update out words .no, ?_, ?_⟩
    · rw [List.range_succ, List.foldlM_append, hout]
      show (out.set words .no >>= fun classes => some classes) = _
      rw [set_eq (by omega)]
      rfl
    · intro j hj
      rcases Nat.lt_succ_iff_lt_or_eq.mp hj with hj | rfl
      · rw [Function.update_of_ne (by omega)]
        exact hno j hj
      · exact Function.update_self ..

theorem mergeField_eq {sub classes : Classes} {cs : List RegClass} {pos : Nat}
    (hsub : ∀ i < cs.length, sub i = cs.getD i .no) (h : pos + cs.length ≤ maxClasses) :
    mergeField sub classes pos cs.length = some (mergeAt cs pos classes) := by
  have hloop : ∀ num ≤ cs.length, mergeField sub classes pos num =
      some fun j => if pos ≤ j ∧ j < pos + num then mergeClasses (cs.getD (j - pos) .no) (classes j)
        else classes j := by
    intro num
    induction num with
    | zero =>
      intro _
      refine congrArg some (funext fun j => ?_)
      rw [if_neg (by omega)]
    | succ num ih =>
      intro hnum
      have ih := ih (by omega)
      unfold mergeField at ih ⊢
      rw [List.range_succ, List.foldlM_append, ih]
      simp only [Option.bind_eq_bind, Option.bind_some, List.foldlM_cons, List.foldlM_nil]
      rw [get_eq (by omega), hsub num (by omega)]
      simp only [Option.bind_some]
      rw [get_eq (by omega)]
      simp only [Option.bind_some]
      rw [set_eq (by omega)]
      refine congrArg some (funext fun j => ?_)
      by_cases hj : j = num + pos
      · subst hj
        rw [Function.update_self, if_neg (by omega), if_pos (by omega), Nat.add_sub_cancel]
      · rw [Function.update_of_ne hj]
        by_cases hlt : pos ≤ j ∧ j < pos + num
        · rw [if_pos hlt, if_pos (by omega)]
        · rw [if_neg hlt, if_neg (by omega)]
  rw [hloop cs.length (Nat.le_refl _)]
  refine congrArg some (funext fun j => ?_)
  unfold mergeAt
  by_cases hpos : pos ≤ j
  · rw [if_pos hpos]
    split
    · rfl
    · rw [List.getD_eq_default _ _ (by omega), mergeClasses_no_left]
  · rw [if_neg hpos, if_neg (by omega)]

/-! ### The final cleanup -/

/-- A class that sends the structure into memory. -/
def spoils (acc : Classes) (i : Nat) : Bool :=
  acc i = .memory ∨ acc i = .x87up ∧ acc (i - 1) ≠ .x87

theorem cleanupWord_eq {classes : Classes} {i : Nat} (hi : i < maxClasses)
    (hsseup : classes i ≠ .sseup) (hfirst : classes 0 ≠ .x87up) :
    cleanupWord classes i = some (if spoils classes i then none else some classes) := by
  have hbefore : i - 1 < maxClasses := by omega
  unfold cleanupWord spoils
  rw [get_eq hi]
  by_cases hm : classes i = .memory
  · simp [hm]
  by_cases hx : classes i = .x87up
  · have hne : i ≠ 0 := by
      intro h
      rw [h] at hx
      exact hfirst hx
    simp only [hx, get_eq hbefore, hne]
    by_cases h87 : classes (i - 1) = .x87 <;> simp [h87]
  · simp [hm, hx, hsseup]

theorem cleanup_eq {classes : Classes} {i count : Nat} (h : i + count ≤ maxClasses)
    (hsseup : ∀ j < i + count, classes j ≠ .sseup) (hfirst : classes 0 ≠ .x87up) :
    cleanup classes i count =
      some (if (List.range' i count).any (spoils classes) then none else some classes) := by
  induction count generalizing i with
  | zero => rfl
  | succ count ih =>
    unfold cleanup
    rw [cleanupWord_eq (by omega) (hsseup i (by omega)) hfirst]
    rw [List.range'_succ, List.any_cons]
    cases hs : spoils classes i with
    | true => rfl
    | false =>
      rw [Bool.false_or, ← ih (i := i + 1) (by omega) (fun j hj => hsseup j (by omega))]
      rfl

theorem notSseup_eq {classes : Classes} {words : Nat} (hlarge : 2 < words)
    (hwords : words ≤ maxClasses) (hsseup : classes 1 ≠ .sseup) :
    notSseup classes words = some true := by
  unfold maxClasses at hwords
  have hone : classes.get 1 = some (classes 1) := get_eq (by decide)
  unfold notSseup
  obtain rfl | rfl : words = 3 ∨ words = 4 := by omega
  · simp [List.range', hone, hsseup]
  · simp [List.range', hone, hsseup]

theorem finishStruct_eq {out acc : Classes} {words : Nat} (hpos : 0 < words)
    (hwords : words ≤ maxClasses) (hout : ∀ j < words, out j = acc j)
    (hsseup : ∀ j, acc j ≠ .sseup) (hfirst : acc 0 ≠ .x87up) :
    ∃ out', finishStruct out words = some ((wordClasses words acc).length, out') ∧
      ∀ i < (wordClasses words acc).length, out' i = (wordClasses words acc).getD i .no := by
  have hspoils : (List.range words).any (spoils out) = (List.range words).any (spoils acc) := by
    have hcongr : ∀ i ∈ List.range words, spoils out i = spoils acc i := by
      intro i hi
      have hi := List.mem_range.mp hi
      unfold spoils
      rw [hout i hi, hout (i - 1) (by omega)]
    rw [Bool.eq_iff_iff, List.any_eq_true, List.any_eq_true]
    exact exists_congr fun i => and_congr_right fun hi => by rw [hcongr i hi]
  have hout1 : ∀ j < words, out j ≠ .sseup := fun j hj => by
    rw [hout j hj]
    exact hsseup j
  unfold finishStruct
  by_cases hlarge : 2 < words
  · refine ⟨out, ?_, ?_⟩
    · unfold wordClasses
      rw [if_pos hlarge, if_pos hlarge, get_eq (by decide)]
      simp only [Option.bind_eq_bind, Option.bind_some]
      by_cases hsse : out 0 = .sse
      · rw [if_neg (by simp [hsse]), notSseup_eq hlarge hwords (hout1 1 (by omega))]
        rfl
      · rw [if_pos hsse]
        rfl
    · unfold wordClasses
      rw [if_pos hlarge]
      exact fun i hi => absurd hi (Nat.not_lt_zero i)
  · rw [if_neg hlarge, cleanup_eq (i := 0) (by omega) (fun j hj => hout1 j (by omega))
      (by rw [hout 0 hpos]; exact hfirst), ← List.range_eq_range', hspoils]
    refine ⟨out, ?_, ?_⟩
    · unfold wordClasses
      rw [if_neg hlarge]
      change _ = some (List.length (if (List.range words).any (spoils acc) = true then _ else _), _)
      cases (List.range words).any (spoils acc) with
      | true => rfl
      | false => simp
    · intro i hi
      have hne : wordClasses words acc ≠ [] := List.ne_nil_of_length_pos (Nat.zero_lt_of_lt hi)
      obtain ⟨-, heq, -⟩ := wordClasses_ne_nil hne
      rw [heq, List.length_map, List.length_range] at hi
      rw [heq, getD_map_range, if_pos hi]
      exact hout i hi

/-! ### The fields -/

/-- `classify_argument` finds the classes of `t` at the offset `o`. -/
def Classifies (t : FfiType) (o : Nat) : Prop :=
  ∀ (frames : Frames) (path : List Nat) (classes : Classes) (byteOffset : BitVec 64),
    byteOffset.toNat = o →
    ∃ out, classifyArgument frames path t classes byteOffset = some ((classOf t o).length, out) ∧
      ∀ i < (classOf t o).length, out i = (classOf t o).getD i .no

theorem align_small {v : BitVec 64} {t : FfiType} (ht : IsAlignment t.alignment.toNat)
    (hlt : roundUp v.toNat t.alignment.toNat ≤ 32) :
    (align v t.alignArg).toNat = roundUp v.toNat t.alignment.toNat := by
  have harg : t.alignArg.toNat = t.alignment.toNat := by
    have := t.alignment.isLt
    unfold FfiType.alignArg
    rw [BitVec.toNat_setWidth]
    omega
  rw [align_toNat (Nat.mod_eq_of_lt v.isLt).symm harg ht.lt_16]
  omega

theorem classifyElements_eq (frames : Frames) (path : List Nat) (i : Nat) (sub : Classes)
    {es : List FfiType} {o x words : Nat} {classes acc : Classes} {byteOffset : BitVec 64}
    (hoff : byteOffset.toNat = o + x)
    (hdvd : ∀ e ∈ es, e.alignment.toNat ∣ o) (hall : ∀ e ∈ es, Laid e)
    (ih : ∀ e ∈ es, ∀ o, Aligned e o → o + e.size.toNat ≤ 32 → Classifies e o)
    (hend : o + endOf x es ≤ 32) (hagree : ∀ j < words, classes j = acc j) :
    match fieldClasses es (o + x) acc with
    | none => ∃ out, classifyElements frames path i es sub classes byteOffset = some (false, out)
    | some acc' =>
      ∃ out, classifyElements frames path i es sub classes byteOffset = some (true, out) ∧
        ∀ j < words, out j = acc' j := by
  induction es generalizing x i sub classes acc byteOffset with
  | nil =>
    rw [fieldClasses, classifyElements]
    exact ⟨classes, rfl, hagree⟩
  | cons e es ihes =>
    have hmem : ∀ e' ∈ es, e' ∈ e :: es := fun e' => List.mem_cons_of_mem _
    have hde := hdvd e List.mem_cons_self
    have hle := hall e List.mem_cons_self
    have hrest := le_endOf (fun e' he' => (hall e' (hmem e' he')).isAlignment.pos)
      (roundUp x e.alignment.toNat + e.size.toNat)
    unfold endOf at hend
    rw [fieldClasses_cons, roundUp_add _ hde, classifyElements]
    have hb' : e.alignment.toNat ∣ o + roundUp x e.alignment.toNat :=
      Nat.dvd_add hde dvd_roundUp
    have halign : (align byteOffset e.alignArg).toNat = o + roundUp x e.alignment.toNat := by
      rw [align_small hle.isAlignment, hoff, roundUp_add _ hde]
      rw [hoff, roundUp_add _ hde]
      omega
    generalize roundUp x e.alignment.toNat = b at hend hrest hb' halign
    generalize align byteOffset e.alignArg = v at halign
    have haligned : Aligned e ((o + b) % 8) :=
      ⟨hle.isAlignment.dvd_mod_eight hb', Nat.mod_lt _ (by omega)⟩
    have hmod : (v % 8).toNat = (o + b) % 8 := by
      rw [BitVec.toNat_umod, halign]
      rfl
    obtain ⟨sub', hrun, hsub⟩ :=
      ih e List.mem_cons_self _ haligned (by omega) frames (i :: path) sub _ hmod
    simp only [hrun, Option.bind_eq_bind, Option.bind_some]
    by_cases hne : classOf e ((o + b) % 8) = []
    · rw [if_pos hne, hne]
      exact ⟨classes, rfl⟩
    · have hlen := (classOf_length hle hne).1
      have hpos : (classOf e ((o + b) % 8)).length ≠ 0 := List.length_eq_zero_iff.not.mpr hne
      rw [if_neg hne, if_neg hpos]
      rw [halign, mergeField_eq hsub (by rw [hlen]; unfold maxClasses; omega)]
      simp only [Option.bind_some]
      rw [Nat.add_assoc]
      refine ihes (i + 1) _ ?_ (fun e' he' => hdvd e' (hmem e' he')) (fun e' he' => hall e' (hmem e' he'))
        (fun e' he' => ih e' (hmem e' he')) hend ?_
      · rw [BitVec.toNat_add, halign]
        omega
      · intro j hj
        unfold mergeAt
        rw [hagree j hj]

/-! ### The types -/

theorem classifies_scalar {t : FfiType} {c : TypeCase} (h : IsScalar t c) {o : Nat}
    (ho : Aligned t o) : Classifies t o := by
  intro frames path classes byteOffset hoff
  have hzero : (0 : Nat) < maxClasses := by decide
  have hone : (1 : Nat) < maxClasses := by decide
  have hfits : c ≠ .longdouble → o + t.size.toNat ≤ 8 := fun hc => h.fits hc ho
  cases h with
  | @integer size alignment type hcase hsize _ =>
    have hfits : o + size.toNat ≤ 8 := hfits (by decide)
    have hint : ((byteOffset + size).setWidth 32).toInt = o + size.toNat := by
      have htoNat : ((byteOffset + size).setWidth 32).toNat = o + size.toNat := by
        rw [BitVec.toNat_setWidth, BitVec.toNat_add, hoff]
        omega
      rw [BitVec.toInt_eq_toNat_of_lt (by omega), htoNat]
      rfl
    rw [classifyArgument, classOf_integer hcase]
    simp only [hcase]
    unfold classifyInteger
    rw [hint]
    simp only [set_eq hzero, Option.bind_eq_bind, Option.bind_some]
    by_cases h4 : o + size.toNat ≤ 4
    · rw [if_pos (by omega), if_pos h4]
      refine ⟨_, rfl, ?_⟩
      intro i hi
      obtain rfl : i = 0 := by simpa using hi
      exact Function.update_self ..
    · rw [if_neg (by omega), if_pos (by omega), if_neg h4]
      refine ⟨_, rfl, ?_⟩
      intro i hi
      obtain rfl : i = 0 := by simpa using hi
      exact Function.update_self ..
  | float =>
    rw [classifyArgument, classOf_float]
    show ∃ out, classifyFloat classes byteOffset = _ ∧ _
    unfold classifyFloat
    rw [set_eq hzero, hoff]
    refine ⟨_, rfl, ?_⟩
    intro i hi
    obtain rfl : i = 0 := by simpa using hi
    exact Function.update_self ..
  | double =>
    rw [classifyArgument, classOf_double]
    simp only [show typeCase 3 = .double by decide, set_eq hzero, Option.bind_eq_bind,
      Option.bind_some]
    refine ⟨_, rfl, ?_⟩
    intro i hi
    obtain rfl : i = 0 := by simpa using hi
    exact Function.update_self ..
  | longdouble =>
    rw [classifyArgument, classOf_longdouble]
    simp only [show typeCase 4 = .longdouble by decide, set_eq hzero, set_eq hone,
      Option.bind_eq_bind, Option.bind_some]
    refine ⟨_, rfl, ?_⟩
    intro i hi
    match i with
    | 0 => rfl
    | 1 => rfl
    | i + 2 => simp at hi

/-- **`classify_argument` computes the classes.** -/
theorem classifyArgument_of_laid {t : FfiType} (h : Laid t) {o : Nat} (ho : Aligned t o)
    (hfit : t.size.toNat ≤ 32 → o + t.size.toNat ≤ 32) : Classifies t o := by
  induction h generalizing o with
  | base h =>
    obtain ⟨c, h⟩ := isScalar_of_mem h
    exact classifies_scalar h ho
  | @struct size alignment elements hnil hall halign hsize ih =>
    intro frames path classes byteOffset hoff
    change size.toNat ≤ 32 → o + size.toNat ≤ 32 at hfit
    have hdvd : ∀ e ∈ elements, e.alignment.toNat ∣ o := by
      intro e he
      have hpow := isAlignment_alignmentOf hnil fun e he => (hall e he).isAlignment
      refine Nat.dvd_trans ((hall e he).isAlignment.dvd_of_le hpow (le_alignmentOf he)) ?_
      rw [← halign]
      exact ho.dvd
    have hpos : 0 < size.toNat := (Laid.struct hnil hall halign hsize).size_pos
    rw [classifyArgument]
    simp only [typeCase_struct]
    by_cases hlarge : size > 32
    · have hlarge' : 32 < size.toNat := hlarge
      rw [if_pos hlarge, classOf_large (by omega)]
      exact ⟨classes, rfl, fun i hi => absurd hi (Nat.not_lt_zero i)⟩
    · have hsmall : size.toNat ≤ 32 := by
        have : ¬ 32 < size.toNat := hlarge
        omega
      have hwords : wordsOf size = (size.toNat + 7) / 8 := by
        have hone : (1 : BitVec 64).toNat = 1 := rfl
        have height : (8 : BitVec 64).toNat = 8 := rfl
        unfold wordsOf
        rw [BitVec.toNat_sub, BitVec.toNat_add, hone, height]
        omega
      have hend := endOf_le hnil hall hsize (o := o) (by rw [← halign]; exact ho.dvd)
      have hadd := endOf_add hdvd 0
      rw [Nat.add_zero] at hadd
      obtain ⟨out, hclear, hno⟩ := clearClasses_eq classes ((size.toNat + 7) / 8)
        (by unfold maxClasses; omega)
      have hfields := classifyElements_eq frames path 0 (frames path) (x := 0) hoff hdvd hall
        (fun e he o' ho' hfit' => ih e he ho' fun _ => hfit') (by omega) hno
      rw [if_neg hlarge, hwords, hclear, classOf_struct]
      simp only [Option.bind_eq_bind, Option.bind_some]
      rw [if_neg (by omega)]
      cases hacc : fieldClasses elements (o + 0) fun _ => .no with
      | none =>
        rw [hacc] at hfields
        obtain ⟨out', hrun⟩ := hfields
        rw [hrun]
        exact ⟨out', rfl, fun i hi => absurd hi (Nat.not_lt_zero i)⟩
      | some acc =>
        rw [hacc] at hfields
        obtain ⟨out', hrun, hagree⟩ := hfields
        have hacc' := sound_fieldClasses (x := 0) (sound_empty o) hdvd hall
          (fun e he o' ho' => sound_classOf (hall e he) ho') hacc
        rw [hrun]
        exact finishStruct_eq (by omega) (by unfold maxClasses; omega) hagree
          (fun j => (hacc'.kinds j).1) hacc'.first

/-- **What the arrays held before does not matter**, and no access leaves them: the classes are those
of the type alone. -/
theorem classifyArgument_uninitialised {t : FfiType} (h : Laid t) :
    ∃ cs : List RegClass, (cs = [] ∨ cs.length = (t.size.toNat + 7) / 8 ∧ cs.length ≤ 2) ∧
      ∀ (frames : Frames) (path : List Nat) (classes : Classes), ∃ out,
        classifyArgument frames path t classes 0 = some (cs.length, out) ∧
          ∀ i < cs.length, out i = cs.getD i .no := by
  refine ⟨classOf t 0, ?_, ?_⟩
  · by_cases hnil : classOf t 0 = []
    · exact .inl hnil
    · exact .inr (classOf_length h hnil)
  · intro frames path classes
    have haligned : Aligned t 0 := ⟨Nat.dvd_zero _, by decide⟩
    exact classifyArgument_of_laid h haligned (by omega) frames path classes 0 rfl

theorem classifyArgument_uninitialised_nested : ∃ cs : List RegClass,
    ∀ (frames : Frames) (path : List Nat) (classes : Classes), ∃ out,
      classifyArgument frames path ⟨16, 8, ffiTypeStruct, some [⟨8, 8, 3, none⟩,
        ⟨8, 4, ffiTypeStruct, some [⟨4, 4, 10, none⟩, ⟨4, 4, 2, none⟩]⟩]⟩ classes 0 =
        some (cs.length, out) ∧ ∀ i < cs.length, out i = cs.getD i .no := by
  have hpair : Laid ⟨8, 4, ffiTypeStruct, some [⟨4, 4, 10, none⟩, ⟨4, 4, 2, none⟩]⟩ :=
    .struct (List.cons_ne_nil _ _) (by
      intro e he
      simp only [List.mem_cons, List.not_mem_nil, or_false] at he
      rcases he with rfl | rfl
      · exact .base (by simp [baseTypes])
      · exact .base (by simp [baseTypes])) (by decide) (by decide)
  have hlaid : Laid ⟨16, 8, ffiTypeStruct, some [⟨8, 8, 3, none⟩,
      ⟨8, 4, ffiTypeStruct, some [⟨4, 4, 10, none⟩, ⟨4, 4, 2, none⟩]⟩]⟩ :=
    .struct (List.cons_ne_nil _ _) (by
      intro e he
      simp only [List.mem_cons, List.not_mem_nil, or_false] at he
      rcases he with rfl | rfl
      · exact .base (by simp [baseTypes])
      · exact hpair) (by decide) (by decide)
  obtain ⟨cs, -, hrun⟩ := classifyArgument_uninitialised hlaid
  exact ⟨cs, hrun⟩

end NodeFfi.Unix64
