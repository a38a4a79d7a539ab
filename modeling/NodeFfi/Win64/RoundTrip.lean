import NodeFfi.Win64.Closure

/-!
# A call from `ffi_call` to a closure on 64-bit Windows

`ffi_call` has every word in both registers, so that a closure finds it there whichever it looks
into: `callClosure` loses no argument and no result, for every signature (`callClosure_sees`), also
for those with which a closure would not follow the convention.
-/

namespace NodeFfi.Win64

open Libffi Layout Bytes

/-! ### The result -/

/-- The integers that are shorter than an `ffi_arg`. -/
def narrow (type : BitVec 16) : Bool := 5 ≤ type ∧ type ≤ 10

/-- How much `ffi_call_win64` writes for a result that is not in memory: integers are widened. -/
def storedSize (rtype : FfiType) : Nat :=
  if narrow (code rtype) then 8 else resultSize rtype

/-- The result `r` is at the address `a`, as an `ffi_arg` if it is an integer. -/
structure Stored (rtype : FfiType) (a : Nat) (r m : Area) : Prop where
  bytes : ∀ k < resultSize rtype, m (a + k) = r k
  widened : narrow (code rtype) →
    ∃ word, widened (code rtype) r = some word ∧ ∀ k < 8, m (a + k) = word k

section result

variable {rtype : FfiType} {rax xmm0 r m : Area} {a : Nat}

theorem stored_written {n : Nat} {src : Area} (hcode : ¬ narrow (code rtype))
    (hsize : resultSize rtype = n) (hsrc : ∀ k < n, src k = r k) :
    Stored rtype a r (m.write a n src) ∧
      Area.AgreeOn (Outside a (a + storedSize rtype)) m (m.write a n src) := by
  refine ⟨⟨fun k hk => ?_, fun h => absurd h hcode⟩, Area.agreeOn_write fun b hb => ?_⟩
  · rw [hsize] at hk
    rw [Area.write_of_lt hk]
    exact hsrc k hk
  · unfold storedSize Outside at hb
    rw [if_neg hcode, hsize] at hb
    exact hb

theorem stored_widened (word : Area → Area) (hcode : narrow (code rtype))
    (hsize : resultSize rtype ≤ 8) (hword : ∀ b, widened (code rtype) b = some (word b))
    (hself : ∀ k < resultSize rtype, word rax k = rax k)
    (hcongr : ∀ k < 8, word rax k = word r k) (hrax : ∀ k < resultSize rtype, rax k = r k) :
    Stored rtype a r (m.write a 8 (word rax)) ∧
      Area.AgreeOn (Outside a (a + storedSize rtype)) m (m.write a 8 (word rax)) := by
  refine ⟨⟨fun k hk => ?_, fun _ => ⟨word r, hword r, fun k hk => ?_⟩⟩,
    Area.agreeOn_write fun b hb => ?_⟩
  · rw [Area.write_of_lt (by omega), hself k hk]
    exact hrax k hk
  · rw [Area.write_of_lt hk]
    exact hcongr k hk
  · unfold storedSize Outside at hb
    rw [if_pos hcode] at hb
    exact hb

theorem extend_congr {n : Nat} {b b' : Area} (h : ∀ k < n, b k = b' k) (k : Nat) :
    b.extend n k = b'.extend n k := by
  unfold Area.extend
  split
  · rename_i hk
    exact h k hk
  · rfl

theorem signExtend_congr {n : Nat} (hpos : 0 < n) {b b' : Area} (h : ∀ k < n, b k = b' k) (k : Nat) :
    signExtend b n k = signExtend b' n k := by
  unfold signExtend
  rw [h (n - 1) (by omega)]
  split
  · rename_i hk
    exact h k hk
  · rfl

theorem prepFlags_scalar {type : BitVec 16} (h : code rtype = type) (hne : type ≠ ffiTypeStruct) :
    prepFlags rtype = prepFlags ⟨8, 8, type, none⟩ := by
  unfold prepFlags
  rw [h, show code ⟨8, 8, type, none⟩ = type from rfl]
  simp only [if_neg hne]

theorem storeResult_spec (hrtype : rtype = ffiTypeVoid ∨ Proper rtype)
    (hmem : inMemory rtype = false)
    (hreg : ∀ k < resultSize rtype, rax k = r k ∧ xmm0 k = r k) :
    Stored rtype a r (storeResult (prepFlags rtype) rax xmm0 m a) ∧
      Area.AgreeOn (Outside a (a + storedSize rtype)) m
        (storeResult (prepFlags rtype) rax xmm0 m a) := by
  rcases hrtype with rfl | hrtype
  · exact ⟨⟨fun k hk => absurd hk (Nat.not_lt_zero k), fun h => absurd h (by decide)⟩, .rfl⟩
  have hrax : ∀ k < resultSize rtype, rax k = r k := fun k hk => (hreg k hk).1
  have hxmm : ∀ k < resultSize rtype, xmm0 k = r k := fun k hk => (hreg k hk).2
  rcases hrtype.kind with hscalar | ⟨hcode, hpos⟩
  · have hsize : code rtype ≠ 0 → resultSize rtype = rtype.size.toNat := fun h => if_neg h
    simp only [scalars, List.mem_cons, Prod.mk.injEq, List.not_mem_nil, or_false] at hscalar
    -- the integers that are widened
    have hzero : ∀ {n : Nat}, n ≤ 8 → resultSize rtype = n → narrow (code rtype) →
        (∀ b : Area, widened (code rtype) b = some (b.extend n)) →
        Stored rtype a r (m.write a 8 (rax.extend n)) ∧
          Area.AgreeOn (Outside a (a + storedSize rtype)) m (m.write a 8 (rax.extend n)) := by
      intro n hn hs hc hw
      refine stored_widened (·.extend n) hc (by omega) hw (fun k hk => Area.extend_of_lt (by omega))
        (fun k _ => extend_congr (fun k hk => hrax k (by omega)) k) hrax
    have hsign : ∀ {n : Nat}, 0 < n → n ≤ 8 → resultSize rtype = n →
        narrow (code rtype) →
        (∀ b : Area, widened (code rtype) b = some (signExtend b n)) →
        Stored rtype a r (m.write a 8 (signExtend rax n)) ∧
          Area.AgreeOn (Outside a (a + storedSize rtype)) m (m.write a 8 (signExtend rax n)) := by
      intro n hpos hn hs hc hw
      refine stored_widened (signExtend · n) hc (by omega) hw
        (fun k hk => signExtend_of_lt (by omega))
        (fun k _ => signExtend_congr hpos (fun k hk => hrax k (by omega)) k) hrax
    have hflags : ∀ {type : BitVec 16}, code rtype = type → type ≠ ffiTypeStruct →
        storeResult (prepFlags rtype) rax xmm0 m a =
          storeResult (prepFlags ⟨8, 8, type, none⟩) rax xmm0 m a :=
      fun h hne => congrArg (storeResult · rax xmm0 m a) (prepFlags_scalar h hne)
    rcases hscalar with ⟨hc, hs⟩ | ⟨hc, hs⟩ | ⟨hc, hs⟩ | ⟨hc, hs⟩ | ⟨hc, hs⟩ | ⟨hc, hs⟩ | ⟨hc, hs⟩ |
      ⟨hc, hs⟩ | ⟨hc, hs⟩ | ⟨hc, hs⟩ | ⟨hc, hs⟩
    all_goals
      have hsize := hsize (by rw [hc]; decide)
      rw [hs] at hsize
      rw [hflags hc (by decide)]
    · exact hzero (by omega) hsize (by rw [hc]; decide) (by rw [hc]; exact fun _ => rfl)
    · exact hsign (by omega) (by omega) hsize (by rw [hc]; decide) (by rw [hc]; exact fun _ => rfl)
    · exact hzero (by omega) hsize (by rw [hc]; decide) (by rw [hc]; exact fun _ => rfl)
    · exact hsign (by omega) (by omega) hsize (by rw [hc]; decide) (by rw [hc]; exact fun _ => rfl)
    · exact hzero (by omega) hsize (by rw [hc]; decide) (by rw [hc]; exact fun _ => rfl)
    · exact hsign (by omega) (by omega) hsize (by rw [hc]; decide) (by rw [hc]; exact fun _ => rfl)
    · exact stored_written (by rw [hc]; decide) hsize fun k hk => hrax k (by omega)
    · exact stored_written (by rw [hc]; decide) hsize fun k hk => hrax k (by omega)
    · exact stored_written (by rw [hc]; decide) hsize fun k hk => hrax k (by omega)
    · exact stored_written (by rw [hc]; decide) hsize fun k hk => hxmm k (by omega)
    · exact stored_written (by rw [hc]; decide) hsize fun k hk => hxmm k (by omega)
  · have hnot : ¬ narrow (code rtype) := by
      rw [hcode]
      decide
    have hsize : resultSize rtype = rtype.size.toNat := if_neg (by rw [hcode]; decide)
    rw [prepFlags_struct hcode]
    unfold inMemory irregular at hmem
    simp only [hcode, true_and, decide_eq_false_iff_not, decide_eq_true_eq, not_and_or,
      not_not] at hmem
    rcases hmem with h | h | h | h
    all_goals
      rw [h] at hsize ⊢
    · exact stored_written hnot hsize fun k hk => hrax k (by rw [hsize]; exact hk)
    · exact stored_written hnot hsize fun k hk => hrax k (by rw [hsize]; exact hk)
    · exact stored_written hnot hsize fun k hk => hrax k (by rw [hsize]; exact hk)
    · exact stored_written hnot hsize fun k hk => hrax k (by rw [hsize]; exact hk)

end result

/-! ### The round trip -/

section call

variable {rtype : FfiType} {ts : List FfiType} {avalue : List Nat}
  {frame rvalue allocated a result : Nat}

theorem enterClosure_memory (cif : Cif) (e : Entry) (result : Nat) :
    Area.AgreeOn (Outside (e.rsp + 8) (e.rsp + 40)) e.memory (enterClosure cif e result).memory :=
  saveRegisters_outside (floatMask cif.argTypes) e

theorem resultSize_le_word (hrtype : rtype = ffiTypeVoid ∨ Proper rtype)
    (hmem : inMemory rtype = false) : resultSize rtype ≤ 8 := by
  by_contra hlt
  have hle : resultSize rtype ≤ rtype.size.toNat := by
    unfold resultSize
    split
    · exact Nat.zero_le _
    · exact Nat.le_refl _
  rw [large_inMemory hrtype (by omega)] at hmem
  cases hmem

/-- What is left of a result: of what was in memory before the function, only its variable and the
place of the result have changed. -/
theorem storeResult_closure {e : Entry} (hrtype : rtype = ffiTypeVoid ∨ Proper rtype)
    (hresp : inMemory rtype = true →
      (enterClosure (ffiPrepCifMachdep rtype ts) e result).resp = a) (f : List Area → Area) :
    let o := runClosure (ffiPrepCifMachdep rtype ts) e result f
    let m := storeResult (prepFlags rtype) o.rax o.xmm0 o.memory a
    Stored rtype a (f o.arguments) m ∧
      Area.AgreeOn (fun b => Outside result (result + 8) b ∧ Outside a (a + storedSize rtype) b)
        (enterClosure (ffiPrepCifMachdep rtype ts) e result).memory m := by
  intro o m
  have hmemory : o.memory = Area.write
      (enterClosure (ffiPrepCifMachdep rtype ts) e result).memory
      (enterClosure (ffiPrepCifMachdep rtype ts) e result).resp (resultSize rtype)
      (f o.arguments) := rfl
  cases hmem : inMemory rtype with
  | true =>
    have hcode := (inMemory_struct hmem).1
    have hnot : ¬ narrow (code rtype) := by
      rw [hcode]
      decide
    have hm : m = o.memory := by
      show storeResult (prepFlags rtype) _ _ _ a = _
      rw [prepFlags_thirteen.mpr hmem]
      rfl
    rw [hm, hmemory, hresp hmem]
    obtain ⟨hstored, hrest⟩ := stored_written (a := a) hnot (Eq.refl (resultSize rtype))
      fun k _ => Eq.refl (f o.arguments k)
    exact ⟨hstored, hrest.mono fun b hb => hb.2⟩
  | false =>
    have hreturns : Returns rtype a f o := (returns_iff hrtype hresp).mpr
      (fun h => absurd h (by rw [hmem]; exact Bool.false_ne_true)) f
    obtain ⟨hstored, hrest⟩ := storeResult_spec (a := a) (m := o.memory) hrtype hmem
      (hreturns.registers hmem)
    refine ⟨hstored, Area.AgreeOn.trans ?_ (hrest.mono fun b hb => hb.2)⟩
    have hplace : (enterClosure (ffiPrepCifMachdep rtype ts) e result).resp = result := by
      rw [enterClosure_eq hrtype]
      exact if_neg (by rw [hmem]; exact Bool.false_ne_true)
    have hsize := resultSize_le_word hrtype hmem
    rw [hmemory, hplace]
    refine Area.agreeOn_write fun b hb => ?_
    obtain ⟨hb, -⟩ := hb
    unfold Outside at hb
    omega

/-- **`ffi_call` of a closure**: the function sees every argument, its result arrives, and nothing
else in memory changes, but what is on the stack; there the return address is still in its place. -/
theorem callClosure_sees (hrtype : rtype = ffiTypeVoid ∨ Proper rtype) (hts : ∀ t ∈ ts, Proper t)
    (hbytes : stackBytes rtype ts < 2 ^ 32) (halign : 16 ∣ frame)
    (hframe : roundUp (stackBytes rtype ts) 16 + 16 ≤ frame)
    (hresult : result + 8 ≤ frame - roundUp (stackBytes rtype ts) 16 - 8)
    (happart : Apart result frame ts avalue) (hat : ResultAt rtype rvalue allocated a)
    (ha : a < 2 ^ 64) (hout : ∀ b, result ≤ b → b < frame → Outside a (a + storedSize rtype) b)
    (pushed m : Area) (f : List Area → Area) :
    let call := callClosure rtype ts rvalue allocated avalue frame result pushed m f
    Sees m ts avalue call.1 ∧ Stored rtype a (f call.1) call.2 ∧
      Area.AgreeOn (fun b => Outside result frame b ∧ Outside a (a + storedSize rtype) b) m
        call.2 ∧
      ∀ k < 8, call.2 (frame - roundUp (stackBytes rtype ts) 16 - 8 + k) = pushed k := by
  intro call
  obtain ⟨e, he⟩ : ∃ e, e = ffiCallWin64 (ffiPrepCifMachdep rtype ts) frame a avalue pushed m :=
    ⟨_, rfl⟩
  obtain ⟨hboth, hrsp, hlow, halign', hcalled⟩ := ffiCallWin64_spec hts hbytes halign hframe
    (happart.mono fun b hb => by
      unfold Outside at hb ⊢
      omega) a pushed m
  have hpushed : ∀ k < 8, e.memory (e.rsp + k) = pushed k := by
    intro k hk
    rw [he]
    exact Area.write_of_lt hk
  rw [← he] at hboth hrsp hlow halign' hcalled
  have hfound : Found m rtype ts a avalue (enterClosure (ffiPrepCifMachdep rtype ts) e result) :=
    hboth.found hrtype hts ha happart.lt halign'
  have hclosure := enterClosure_memory (ffiPrepCifMachdep rtype ts) e result
  -- what the closure writes before its function is on the stack
  have hentered : Area.AgreeOn (Outside result frame) m
      (enterClosure (ffiPrepCifMachdep rtype ts) e result).memory := by
    refine (hcalled.mono fun b hb => ?_).trans (hclosure.mono fun b hb => ?_)
    · unfold Outside at hb ⊢
      omega
    · unfold Outside at hb ⊢
      omega
  obtain ⟨hstored, hrest⟩ := storeResult_closure hrtype hfound.1 f
  have hcall : call = ((runClosure (ffiPrepCifMachdep rtype ts) e result f).arguments,
      storeResult (prepFlags rtype) (runClosure (ffiPrepCifMachdep rtype ts) e result f).rax
        (runClosure (ffiPrepCifMachdep rtype ts) e result f).xmm0
        (runClosure (ffiPrepCifMachdep rtype ts) e result f).memory a) := by
    rw [he, ← hat.resultAddress ts]
    rfl
  rw [hcall]
  refine ⟨hfound.2.sees happart hentered, hstored, ?_, fun k hk => ?_⟩
  · refine (hentered.mono fun b hb => hb.1).trans (hrest.mono fun b hb => ⟨?_, hb.2⟩)
    have hb := hb.1
    unfold Outside at hb ⊢
    omega
  · have hplace : frame - roundUp (stackBytes rtype ts) 16 - 8 = e.rsp := by omega
    have hvariable : Outside result (result + 8) (e.rsp + k) := .inr (by omega)
    have hout' := hout (e.rsp + k) (by omega) (by omega)
    rw [hplace]
    calc _ = (enterClosure (ffiPrepCifMachdep rtype ts) e result).memory (e.rsp + k) :=
          hrest _ ⟨hvariable, hout'⟩
      _ = e.memory (e.rsp + k) := hclosure _ (.inl (by omega))
      _ = pushed k := hpushed k hk

end call

theorem callClosure_sees_twoDoubles :
    let call := callClosure twoDoubles [ffiTypeDouble] 0 12288 [4096] 8192 8000 Area.zero
      Area.numbered fun arguments => arguments.headD Area.zero
    Sees Area.numbered [ffiTypeDouble] [4096] call.1 ∧
      Stored twoDoubles 12288 (call.1.headD Area.zero) call.2 := by
  intro call
  have happart : Apart 8000 8192 [ffiTypeDouble] [4096] := apart_double (by decide) (by decide)
  have hat : ResultAt twoDoubles 0 12288 12288 := .allocated rfl (by decide)
  have hspec := callClosure_sees (.inr proper_twoDoubles)
    (List.forall_mem_singleton.mpr proper_double) (by decide) (by decide) (by decide) (by decide)
    happart hat (by decide) (fun b _ hb => .inl (by omega)) Area.zero Area.numbered
    fun arguments => arguments.headD Area.zero
  exact ⟨hspec.1, hspec.2.1⟩

end NodeFfi.Win64
