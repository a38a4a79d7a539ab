import NodeFfi.Win64.Convention

/-!
# Closures on 64-bit Windows

A closure saves the four registers, for each slot the one that the mask of its trampoline says. The
mask goes by the arguments, and not by the words: where the address for the result comes first, it is
off by one. So a closure finds what its caller has passed by the convention just as long as none of
the first four arguments is floating point then (`found_conforms_iff`), and it returns the address
for the result just as long as the result is larger than a word (`returns_iff`).
-/

namespace NodeFfi.Win64

open Libffi Layout Bytes

section save

variable (mask : Nat → Bool) (e : Entry)

theorem saveRegisters_word (j : Nat) {k : Nat} (hk : k < 8) :
    saveRegisters mask e (e.rsp + 8 + 8 * j + k) = e.word (mask j) j k := by
  unfold saveRegisters Entry.word
  simp only [List.foldl]
  match j with
  | 0 =>
    rw [Area.write_of_out (by omega), Area.write_of_out (by omega), Area.write_of_out (by omega),
      Area.write_of_lt hk]
    exact congrFun (if_pos (by decide)).symm k
  | 1 =>
    rw [Area.write_of_out (by omega), Area.write_of_out (by omega), Area.write_of_lt hk]
    exact congrFun (if_pos (by decide)).symm k
  | 2 =>
    rw [Area.write_of_out (by omega), Area.write_of_lt hk]
    exact congrFun (if_pos (by decide)).symm k
  | 3 =>
    rw [Area.write_of_lt hk]
    exact congrFun (if_pos (by decide)).symm k
  | j + 4 =>
    rw [Area.write_of_out (by omega), Area.write_of_out (by omega), Area.write_of_out (by omega),
      Area.write_of_out (by omega)]
    have hge : ¬ j + 4 < 4 := by omega
    rw [if_neg hge]
    rfl

theorem saveRegisters_outside :
    Area.AgreeOn (Outside (e.rsp + 8) (e.rsp + 40)) e.memory (saveRegisters mask e) := by
  have hwrite : ∀ {m : Area} {i : Nat} (src : Area), i < 4 →
      Area.AgreeOn (Outside (e.rsp + 8) (e.rsp + 40)) m (m.write (e.rsp + 8 + 8 * i) 8 src) := by
    intro m i src hi
    refine Area.agreeOn_write fun b hb => ?_
    unfold Outside at hb
    omega
  unfold saveRegisters
  simp only [List.foldl]
  exact (((hwrite _ (by omega)).trans (hwrite _ (by omega))).trans (hwrite _ (by omega))).trans
    (hwrite _ (by omega))

end save

section enter

variable {m : Area} {rtype : FfiType} {ts : List FfiType} {rvalue : Nat} {avalue : List Nat}
  {e : Entry} {result : Nat}

/-- The closure has found where its result goes, and the arguments. -/
def Found (m : Area) (rtype : FfiType) (ts : List FfiType) (rvalue : Nat) (avalue : List Nat)
    (entered : Entered) : Prop :=
  (inMemory rtype = true → entered.resp = rvalue) ∧ Finds m entered.memory ts avalue entered.avalue

theorem incoming_iff (hrtype : rtype = ffiTypeVoid ∨ Proper rtype) :
    (8 < rtype.size.toNat ∨ (prepFlags rtype = 13 ∧ irregular rtype.size)) ↔
      inMemory rtype = true := by
  rw [prepFlags_thirteen]
  constructor
  · rintro (h | h)
    · rcases hrtype with rfl | hrtype
      · exact absurd h (by decide)
      · unfold inMemory
        rw [decide_eq_true_eq, irregular_iff]
        rcases hrtype.kind with hkind | hkind
        · simp only [scalars, List.mem_cons, Prod.mk.injEq, List.not_mem_nil, or_false] at hkind
          omega
        · exact ⟨hkind.1, by omega⟩
    · exact h.1
  · intro h
    refine .inr ⟨h, ?_⟩
    unfold inMemory at h
    rw [decide_eq_true_eq] at h
    exact h.2

theorem enterClosure_eq (hrtype : rtype = ffiTypeVoid ∨ Proper rtype) :
    enterClosure (ffiPrepCifMachdep rtype ts) e result =
      ⟨saveRegisters (floatMask ts) e,
        if inMemory rtype then addressOf ((saveRegisters (floatMask ts) e).at_ (e.rsp + 8))
        else result,
        incomingArgs ts (e.rsp + 8 + 8 * first rtype) (saveRegisters (floatMask ts) e)⟩ := by
  unfold enterClosure ffiPrepIncomingArgsSysv first
  show Entered.mk _ (if 8 < rtype.size.toNat ∨ (prepFlags rtype = 13 ∧ irregular rtype.size) then _
    else _ : Nat × List Nat).1 (if 8 < rtype.size.toNat ∨
      (prepFlags rtype = 13 ∧ irregular rtype.size) then _ else _ : Nat × List Nat).2 = _
  simp only [incoming_iff hrtype]
  by_cases hmem : inMemory rtype = true
  · rw [if_pos hmem, if_pos hmem, if_pos hmem]
    rfl
  · rw [if_neg hmem, if_neg hmem, if_neg hmem]
    rfl

theorem found_iff (hrtype : rtype = ffiTypeVoid ∨ Proper rtype) (hts : ∀ t ∈ ts, Proper t)
    (hrvalue : rvalue < 2 ^ 64) (havalue : ∀ p ∈ avalue, p < 2 ^ 64) (halign : 8 ∣ e.rsp + 8) :
    Found m rtype ts rvalue avalue (enterClosure (ffiPrepCifMachdep rtype ts) e result) ↔
      (inMemory rtype = true → ∀ k < 8, e.word (floatMask ts 0) 0 k = addressBytes rvalue k) ∧
        Words m (fun j _ => e.word (floatMask ts j) j) ts avalue (first rtype) := by
  rw [enterClosure_eq hrtype]
  unfold Found
  refine and_congr (imp_congr_right fun hmem => ?_) ((finds_iff hts havalue halign).trans ?_)
  · rw [if_pos hmem, addressOf_eq_iff hrvalue]
    refine forall_congr' fun k => imp_congr_right fun hk => ?_
    rw [← saveRegisters_word (floatMask ts) e 0 hk]
    rfl
  · constructor
    · intro h
      exact h.congr fun j t _ _ _ k hk => (saveRegisters_word (floatMask ts) e j hk).symm
    · intro h
      exact h.congr fun j t _ _ _ k hk => saveRegisters_word (floatMask ts) e j hk

theorem Both.found (h : Both m rtype ts rvalue avalue e)
    (hrtype : rtype = ffiTypeVoid ∨ Proper rtype) (hts : ∀ t ∈ ts, Proper t)
    (hrvalue : rvalue < 2 ^ 64) (havalue : ∀ p ∈ avalue, p < 2 ^ 64) (halign : 8 ∣ e.rsp + 8) :
    Found m rtype ts rvalue avalue (enterClosure (ffiPrepCifMachdep rtype ts) e result) :=
  (found_iff hrtype hts hrvalue havalue halign).mpr
    ⟨fun hmem => h.result hmem _, h.arguments fun j _ => floatMask ts j⟩

/-! ### Callers that follow the convention -/

/-- The bytes of a word of which the first one is wrong. -/
def spoil (word : Area) : Area := fun k => word k + 1

theorem spoil_ne (word : Area) (k : Nat) : spoil word k ≠ word k := by
  intro h
  have hnat := congrArg BitVec.toNat h
  have hlt := (word k).isLt
  unfold spoil at hnat
  rw [BitVec.toNat_add, show (1 : Byte).toNat = 1 from rfl] at hnat
  omega

/-- The register that does not have the word, in place of the one that does. -/
def Entry.spoiled (e : Entry) (i : Nat) : Entry :=
  { e with xmm := Function.update e.xmm i (spoil (e.gpr i)) }

theorem spoiled_word (e : Entry) {i j : Nat} {reg : Bool} (h : reg = true → j ≠ i) :
    (e.spoiled i).word reg j = e.word reg j := by
  unfold Entry.word Entry.spoiled
  cases reg with
  | false => rfl
  | true =>
    simp only [if_true]
    rw [Function.update_of_ne (h rfl)]

theorem spoiled_xmm {i : Nat} (h : i < 4) : (e.spoiled i).word true i = spoil (e.gpr i) := by
  unfold Entry.word Entry.spoiled
  rw [if_pos h, if_pos rfl]
  exact Function.update_self ..

theorem word_gpr {i : Nat} (h : i < 4) : e.word false i = e.gpr i := by
  unfold Entry.word
  rw [if_pos h]
  exact if_neg Bool.false_ne_true

theorem floatMask_get {i : Nat} {t : FfiType} (h : ts[i]? = some t) :
    floatMask ts i = isFloat t := by
  unfold floatMask
  rw [h]

theorem mask_right (hfloat : inMemory rtype = true → ∀ t ∈ ts.take 4, isFloat t = false) {j : Nat}
    (hj : j < 4) {t : FfiType} (ht : ts[j - first rtype]? = some t) : floatMask ts j = isFloat t := by
  unfold first at ht
  split at ht
  · rename_i hmem
    have hnone : ∀ i < 4, ∀ t, ts[i]? = some t → isFloat t = false := by
      intro i hi t ht
      refine hfloat hmem t (List.mem_iff_getElem?.mpr ⟨i, ?_⟩)
      rw [List.getElem?_take_of_lt hi]
      exact ht
    rw [hnone (j - 1) (by omega) t ht]
    unfold floatMask
    cases hget : ts[j]? with
    | none => rfl
    | some t' => exact hnone j hj t' hget
  · exact floatMask_get ht

/-- **A closure finds what it is passed by the convention**, whatever else is in the registers, unless
there is an address for the result and a floating point value among the first four arguments. -/
theorem found_conforms_iff (hrtype : rtype = ffiTypeVoid ∨ Proper rtype)
    (hts : ∀ t ∈ ts, Proper t) (hrvalue : rvalue < 2 ^ 64) (havalue : ∀ p ∈ avalue, p < 2 ^ 64)
    (halign : 8 ∣ e.rsp + 8) (hconf : Conforms m rtype ts rvalue avalue e) (result : Nat) :
    (∀ gpr xmm, Conforms m rtype ts rvalue avalue ⟨gpr, xmm, e.rsp, e.memory⟩ →
      Found m rtype ts rvalue avalue
        (enterClosure (ffiPrepCifMachdep rtype ts) ⟨gpr, xmm, e.rsp, e.memory⟩ result)) ↔
      (inMemory rtype = true → ∀ t ∈ ts.take 4, isFloat t = false) := by
  constructor
  · intro hall hmem
    by_contra hsome
    have hfirst : first rtype = 1 := if_pos hmem
    -- the first slot that is taken for floating point
    have hexists : ∃ i, i < 4 ∧ floatMask ts i = true := by
      simp only [not_forall, Bool.not_eq_false] at hsome
      obtain ⟨t, ht, hfloat⟩ := hsome
      obtain ⟨i, hi⟩ := List.mem_iff_getElem?.mp ht
      have hlt : i < 4 := by
        by_contra hge
        rw [List.getElem?_take_eq_none (by omega)] at hi
        cases hi
      rw [List.getElem?_take_of_lt hlt] at hi
      exact ⟨i, hlt, (floatMask_get hi).trans hfloat⟩
    obtain ⟨i, ⟨hi, hmask⟩, hleast⟩ : ∃ i, (i < 4 ∧ floatMask ts i = true) ∧
        ∀ i' < i, ¬ floatMask ts i' = true := by
      classical
      refine ⟨Nat.find hexists, Nat.find_spec hexists, fun i' hi' hmask => ?_⟩
      have hspec := Nat.find_spec hexists
      exact Nat.find_min hexists hi' ⟨by omega, hmask⟩
    have hbefore : ∀ t, ts[i - 1]? = some t → i ≠ 0 → isFloat t = false := by
      intro t ht hne
      rw [← floatMask_get ht]
      simpa using hleast (i - 1) (by omega)
    have hconf' : Conforms m rtype ts rvalue avalue (e.spoiled i) := by
      constructor
      · intro _ k hk
        have hword : (e.spoiled i).word false 0 = e.word false 0 :=
          spoiled_word e (by intro h; cases h)
        rw [hword]
        exact hconf.result hmem k hk
      · refine hconf.arguments.congr fun j t hj _ ht k _ => ?_
        rw [spoiled_word e]
        rintro hfloat rfl
        rw [hfirst] at hj ht
        rw [hbefore t ht (by omega)] at hfloat
        cases hfloat
    obtain ⟨hresult, hwords⟩ := (found_iff (e := e.spoiled i) hrtype hts hrvalue havalue halign).mp
      (hall (e.spoiled i).gpr (e.spoiled i).xmm hconf')
    cases i with
    | zero =>
      have hspoiled := hresult hmem 0 (by omega)
      have hgpr := hconf.result hmem 0 (by omega)
      rw [word_gpr (by omega)] at hgpr
      have hword : (e.spoiled 0).word (floatMask ts 0) 0 0 = spoil (e.gpr 0) 0 := by
        rw [hmask, spoiled_xmm (by omega)]
      exact spoil_ne (e.gpr 0) 0 (hword.symm.trans (hspoiled.trans hgpr.symm))
    | succ i =>
      obtain ⟨t, ht⟩ : ∃ t, ts[i]? = some t := by
        unfold floatMask at hmask
        cases hget : ts[i + 1]? with
        | none =>
          rw [hget] at hmask
          cases hmask
        | some t =>
          have hlt := (List.getElem?_eq_some_iff.mp hget).1
          exact ⟨ts[i], List.getElem?_eq_getElem (by omega)⟩
      have hnot := hbefore t ht (by omega)
      obtain ⟨p, hp, hholds⟩ := hconf.arguments.get ht
      obtain ⟨p', hp', hspoiled⟩ := hwords.get ht
      obtain rfl := Option.some.inj (hp.symm.trans hp')
      rw [hfirst, Nat.add_comm 1 i, hnot, word_gpr hi] at hholds
      simp only [hfirst, Nat.add_comm 1 i] at hspoiled
      have hword : (e.spoiled (i + 1)).word (floatMask ts (i + 1)) (i + 1) =
          spoil (e.gpr (i + 1)) := by
        rw [hmask, spoiled_xmm hi]
      have hspoiled' : Holds m t p (spoil (e.gpr (i + 1))) := by
        rw [← hword]
        exact hspoiled
      have hpos := (hts t (List.mem_of_getElem? ht)).size_pos
      unfold Holds at hholds hspoiled'
      split at hholds
      · rename_i haddr
        rw [if_pos haddr] at hspoiled'
        exact spoil_ne _ 0 ((hspoiled' 0 (by omega)).trans (hholds 0 (by omega)).symm)
      · rename_i haddr
        rw [if_neg haddr] at hspoiled'
        exact spoil_ne _ 0 ((hspoiled' 0 hpos).trans (hholds 0 hpos).symm)
  · intro hfloat gpr xmm hconf'
    refine (found_iff (e := ⟨gpr, xmm, e.rsp, e.memory⟩) hrtype hts hrvalue havalue halign).mpr
      ⟨fun hmem => ?_, ?_⟩
    · have hmask : floatMask ts 0 = false := by
        unfold floatMask
        cases hget : ts[0]? with
        | none => rfl
        | some t =>
          refine hfloat hmem t (List.mem_iff_getElem?.mpr ⟨0, ?_⟩)
          rw [List.getElem?_take_of_lt (by omega)]
          exact hget
      rw [hmask]
      exact hconf'.result hmem
    · refine hconf'.arguments.congr fun j t hj _ ht k _ => ?_
      by_cases hlt : j < 4
      · rw [mask_right hfloat hlt ht]
      · unfold Entry.word
        rw [if_neg hlt, if_neg hlt]

/-! ### What a closure returns -/

/-- A closure has returned: what the convention has in the registers, and in memory. -/
structure Returns (rtype : FfiType) (rvalue : Nat) (f : List Area → Area) (o : Outcome) : Prop where
  memory : inMemory rtype = true → ∀ k < rtype.size.toNat, o.memory (rvalue + k) = f o.arguments k
  address : inMemory rtype = true → ∀ k < 8, o.rax k = addressBytes rvalue k
  registers : inMemory rtype = false → ∀ k < resultSize rtype,
    o.rax k = f o.arguments k ∧ o.xmm0 k = f o.arguments k

theorem inMemory_struct (h : inMemory rtype = true) :
    code rtype = ffiTypeStruct ∧ rtype.size.toNat ≠ 1 ∧ rtype.size.toNat ≠ 2 ∧
      rtype.size.toNat ≠ 4 ∧ rtype.size.toNat ≠ 8 := by
  unfold inMemory at h
  rw [decide_eq_true_eq, irregular_iff] at h
  exact h

theorem inMemory_size (h : inMemory rtype = true) : resultSize rtype = rtype.size.toNat := by
  unfold resultSize
  rw [(inMemory_struct h).1]
  rfl

theorem large_inMemory (hrtype : rtype = ffiTypeVoid ∨ Proper rtype) (h : 8 < rtype.size.toNat) :
    inMemory rtype = true :=
  (incoming_iff hrtype).mp (.inl h)

/-- **What a closure returns** is right unless a word has room for what is in memory. -/
theorem returns_iff (hrtype : rtype = ffiTypeVoid ∨ Proper rtype)
    (hresp : inMemory rtype = true →
      (enterClosure (ffiPrepCifMachdep rtype ts) e result).resp = rvalue) :
    (∀ f, Returns rtype rvalue f (runClosure (ffiPrepCifMachdep rtype ts) e result f)) ↔
      (inMemory rtype = true → 8 < rtype.size.toNat) := by
  have hwrite : ∀ (f : List Area → Area) (k : Nat), k < resultSize rtype →
      (runClosure (ffiPrepCifMachdep rtype ts) e result f).memory
        ((enterClosure (ffiPrepCifMachdep rtype ts) e result).resp + k) =
      f (runClosure (ffiPrepCifMachdep rtype ts) e result f).arguments k :=
    fun f k hk => Area.write_of_lt hk
  have hsmall : ∀ (f : List Area → Area) (k : Nat), ¬ 8 < rtype.size.toNat → k < resultSize rtype →
      (runClosure (ffiPrepCifMachdep rtype ts) e result f).rax k =
      f (runClosure (ffiPrepCifMachdep rtype ts) e result f).arguments k := by
    intro f k hle hk
    rw [← hwrite f k hk]
    exact congrFun (if_neg hle) k
  constructor
  · intro hall hmem
    by_contra hle
    have hpos : 0 < resultSize rtype := by
      rw [inMemory_size hmem]
      rcases hrtype with rfl | hrtype
      · exact absurd (inMemory_struct hmem).1 (by decide)
      · exact hrtype.size_pos
    have haddress := (hall fun _ => spoil (addressBytes rvalue)).address hmem 0 (by omega)
    rw [hsmall _ 0 hle hpos] at haddress
    exact spoil_ne _ _ haddress
  · intro hlarge f
    refine ⟨fun hmem k hk => ?_, fun hmem k hk => ?_, fun hmem k hk => ?_⟩
    · rw [← inMemory_size hmem] at hk
      rw [← hwrite f k hk, hresp hmem]
    · rw [← hresp hmem]
      exact congrFun (if_pos (hlarge hmem)) k
    · have hle : ¬ 8 < rtype.size.toNat := by
        intro hlt
        rw [large_inMemory hrtype hlt] at hmem
        cases hmem
      exact ⟨hsmall f k hle hk, hsmall f k hle hk⟩

/-- **A closure follows the convention**, whatever its caller has in the other registers and whatever
its function returns, just as long as a result in memory is larger than a word and then none of the
first four arguments is floating point. -/
theorem closure_convention_iff (hrtype : rtype = ffiTypeVoid ∨ Proper rtype)
    (hts : ∀ t ∈ ts, Proper t) (hrvalue : rvalue < 2 ^ 64) (havalue : ∀ p ∈ avalue, p < 2 ^ 64)
    (halign : 8 ∣ e.rsp + 8) (hconf : Conforms m rtype ts rvalue avalue e) (result : Nat) :
    (∀ gpr xmm, Conforms m rtype ts rvalue avalue ⟨gpr, xmm, e.rsp, e.memory⟩ →
      Found m rtype ts rvalue avalue
        (enterClosure (ffiPrepCifMachdep rtype ts) ⟨gpr, xmm, e.rsp, e.memory⟩ result) ∧
      ∀ f, Returns rtype rvalue f
        (runClosure (ffiPrepCifMachdep rtype ts) ⟨gpr, xmm, e.rsp, e.memory⟩ result f)) ↔
      (inMemory rtype = true → 8 < rtype.size.toNat ∧ ∀ t ∈ ts.take 4, isFloat t = false) := by
  have hfound := found_conforms_iff hrtype hts hrvalue havalue halign hconf result
  constructor
  · intro hall hmem
    obtain ⟨hself, hreturns⟩ := hall e.gpr e.xmm hconf
    exact ⟨(returns_iff hrtype hself.1).mp hreturns hmem,
      hfound.mp (fun gpr xmm h => (hall gpr xmm h).1) hmem⟩
  · intro h gpr xmm hconf'
    have hself := hfound.mpr (fun hmem => (h hmem).2) gpr xmm hconf'
    exact ⟨hself, (returns_iff hrtype hself.1).mpr fun hmem => (h hmem).1⟩

end enter

theorem closure_convention_twoDoubles :
    ¬ ∀ gpr xmm, Conforms Area.numbered twoDoubles [ffiTypeDouble] 12288 [4096]
        ⟨gpr, xmm, 8136, Area.numbered⟩ →
      Found Area.numbered twoDoubles [ffiTypeDouble] 12288 [4096]
        (enterClosure (ffiPrepCifMachdep twoDoubles [ffiTypeDouble])
          ⟨gpr, xmm, 8136, Area.numbered⟩ 8000) ∧
      ∀ f, Returns twoDoubles 12288 f
        (runClosure (ffiPrepCifMachdep twoDoubles [ffiTypeDouble])
          ⟨gpr, xmm, 8136, Area.numbered⟩ 8000 f) := by
  have hconf : Conforms Area.numbered twoDoubles [ffiTypeDouble] 12288 [4096]
      ⟨fun _ => addressBytes 12288, fun _ => Area.numbered.at_ 4096, 8136, Area.numbered⟩ :=
    ⟨fun _ _ _ => rfl, fun _ _ => rfl, trivial⟩
  intro hall
  have hiff := closure_convention_iff (.inr proper_twoDoubles)
    (List.forall_mem_singleton.mpr proper_double) (by decide)
    (List.forall_mem_singleton.mpr (by decide)) (by decide) hconf 8000
  exact absurd ((hiff.mp hall (by decide)).2 _ List.mem_cons_self) (by decide)

end NodeFfi.Win64
