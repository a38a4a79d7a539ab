import NodeFfi.Win64.Slots

/-!
# The calling convention of 64-bit Windows

A function finds the word of each parameter in a register or on the stack, the first four in `rcx`,
`rdx`, `r8` and `r9`, or, where they are floating point, in `xmm0` to `xmm3`; the address for a large
result comes before all of them. `ffi_call` calls by this convention whatever the signature is
(`ffiCall_conforms`), and what it writes stays below its frame.
-/

namespace NodeFfi.Win64

open Libffi Layout Bytes

/-- What `types.c` has for `void`. -/
def ffiTypeVoid : FfiType := ⟨1, 1, 0, none⟩

/-- A large result, or one of an irregular size. -/
def inMemory (rtype : FfiType) : Bool := code rtype = ffiTypeStruct ∧ irregular rtype.size

/-! ### `ffi_prep_cif_machdep` -/

def stackBytes (rtype : FfiType) (ts : List FfiType) : Nat :=
  bytesFrom 8 ts (if inMemory rtype then 8 else 0) + 32

theorem le_packedFrom {ts : List FfiType} (hts : ∀ t ∈ ts, Proper t) (b : Nat) :
    b + 8 * ts.length ≤ packedFrom 8 ts b := by
  induction ts generalizing b with
  | nil => exact Nat.le_refl b
  | cons t ts ih =>
    have hrest := ih (fun t ht => hts t (List.mem_cons_of_mem _ ht)) (b + roundUp t.size.toNat 8)
    have hsize : 8 ≤ roundUp t.size.toNat 8 := by
      have hpos := (hts t List.mem_cons_self).size_pos
      unfold roundUp
      omega
    rw [List.length_cons]
    unfold packedFrom
    omega

section cif

variable {rtype : FfiType} {ts : List FfiType}

theorem prepFlags_struct (hcode : code rtype = ffiTypeStruct) : prepFlags rtype =
    if rtype.size = 1 then 15 else if rtype.size = 2 then 16 else if rtype.size = 4 then 17
    else if rtype.size = 8 then 12 else 13 := by
  unfold prepFlags
  rw [hcode]
  rfl

theorem prepFlags_other (hcode : code rtype ≠ ffiTypeStruct) :
    prepFlags rtype ≠ 13 ∧ prepFlags rtype ≠ 18 := by
  unfold prepFlags
  simp only
  split
  · rename_i hmem
    rcases hmem with h | h | h | h | h | h | h | h | h | h
    all_goals
      rw [h]
      decide
  · split
    · decide
    · split
      · decide
      · decide

theorem prepFlags_thirteen : prepFlags rtype = 13 ↔ inMemory rtype = true := by
  unfold inMemory
  rw [decide_eq_true_eq]
  by_cases hcode : code rtype = ffiTypeStruct
  · rw [prepFlags_struct hcode]
    unfold irregular
    simp only [hcode, true_and, decide_eq_true_eq]
    constructor
    · intro h
      by_cases h1 : rtype.size = 1
      · simp [h1] at h
      · by_cases h2 : rtype.size = 2
        · simp [h2] at h
        · by_cases h4 : rtype.size = 4
          · simp [h4] at h
          · by_cases h8 : rtype.size = 8
            · simp [h8] at h
            · exact ⟨h1, h2, h4, h8⟩
    · rintro ⟨h1, h2, h4, h8⟩
      rw [if_neg h1, if_neg h2, if_neg h4, if_neg h8]
  · exact iff_of_false (prepFlags_other hcode).1 fun h => hcode h.1

theorem cif_hidden (rtype : FfiType) (ts : List FfiType) :
    (ffiPrepCifMachdep rtype ts).hidden = inMemory rtype := by
  unfold Cif.hidden
  rw [Bool.eq_iff_iff, decide_eq_true_eq]
  constructor
  · rintro ⟨h | h, -⟩
    · exact prepFlags_thirteen.mp h
    · exfalso
      have h' : prepFlags rtype = 18 := h
      by_cases hcode : code rtype = ffiTypeStruct
      · rw [prepFlags_struct hcode] at h'
        revert h'
        repeat' split
        all_goals decide
      · exact (prepFlags_other hcode).2 h'
  · intro h
    refine ⟨.inl (prepFlags_thirteen.mpr h), ?_⟩
    unfold inMemory at h
    rw [decide_eq_true_eq] at h
    exact h.2

theorem cif_bytes (hts : ∀ t ∈ ts, Proper t) (h : stackBytes rtype ts < 2 ^ 32) :
    (ffiPrepCifMachdep rtype ts).bytes.toNat = stackBytes rtype ts := by
  have hstart : (if code rtype = ffiTypeStruct ∧ irregular rtype.size then 8 else 0 :
      BitVec 32).toNat = if inMemory rtype then 8 else 0 := by
    unfold inMemory
    by_cases hmem : code rtype = ffiTypeStruct ∧ irregular rtype.size
    · simp [hmem]
    · simp [hmem]
  unfold stackBytes at h ⊢
  rw [← hstart] at h ⊢
  have hargs := prepBytes_toNat (fun t ht => (hts t ht).alignment)
    (show (8 : BitVec 64).toNat = 8 from rfl) ⟨3, by omega, rfl⟩
    (Nat.lt_of_le_of_lt (Nat.le_add_right _ 32) h)
  show (prepBytes 8 ts _ + 32).toNat = _
  rw [BitVec.toNat_add, hargs, show (32 : BitVec 32).toNat = 32 from rfl]
  omega

end cif

/-! ### The convention -/

/-- The word of number `j`, in a register that is as the parameter is, or on the stack. -/
def Entry.word (e : Entry) (float : Bool) (j : Nat) : Area :=
  if j < 4 then (if float then e.xmm j else e.gpr j) else e.memory.at_ (e.rsp + 8 + 8 * j)

/-- The number of the first argument's word. -/
def first (rtype : FfiType) : Nat := if inMemory rtype then 1 else 0

/-- A call by the convention, with the arguments at their addresses in `m`. -/
structure Conforms (m : Area) (rtype : FfiType) (ts : List FfiType) (rvalue : Nat)
    (avalue : List Nat) (e : Entry) : Prop where
  result : inMemory rtype = true → ∀ k < 8, e.word false 0 k = addressBytes rvalue k
  arguments : Words m (fun j t => e.word (isFloat t) j) ts avalue (first rtype)

/-- A call that has every word in both registers. -/
structure Both (m : Area) (rtype : FfiType) (ts : List FfiType) (rvalue : Nat)
    (avalue : List Nat) (e : Entry) : Prop where
  result : inMemory rtype = true → ∀ reg, ∀ k < 8, e.word reg 0 k = addressBytes rvalue k
  arguments : ∀ reg : Nat → FfiType → Bool,
    Words m (fun j t => e.word (reg j t) j) ts avalue (first rtype)

theorem Both.conforms {m : Area} {rtype : FfiType} {ts : List FfiType} {rvalue : Nat}
    {avalue : List Nat} {e : Entry} (h : Both m rtype ts rvalue avalue e) :
    Conforms m rtype ts rvalue avalue e where
  result hmem := h.result hmem false
  arguments := h.arguments fun _ t => isFloat t

section call

variable {rtype : FfiType} {ts : List FfiType} {avalue : List Nat}
  {frame rvalue allocated a : Nat} {m : Area}

theorem ffiPrepArgs_spec (hts : ∀ t ∈ ts, Proper t) {stack : Nat}
    (happart : Apart stack (stack + 8 * (first rtype + ts.length)) ts avalue) (halign : 8 ∣ stack)
    (rvalue : Nat) :
    (inMemory rtype = true → ∀ k < 8,
      ffiPrepArgs (ffiPrepCifMachdep rtype ts) stack rvalue avalue m (stack + k) =
        addressBytes rvalue k) ∧
    Words m (onStack (ffiPrepArgs (ffiPrepCifMachdep rtype ts) stack rvalue avalue m) stack) ts
      avalue (first rtype) ∧
    Area.AgreeOn (Outside stack (stack + 8 * (first rtype + ts.length))) m
      (ffiPrepArgs (ffiPrepCifMachdep rtype ts) stack rvalue avalue m) := by
  unfold ffiPrepArgs
  rw [cif_hidden]
  cases hmem : inMemory rtype with
  | true =>
    have hfirst : first rtype = 1 := if_pos hmem
    rw [hfirst] at happart ⊢
    have hwrite : Area.AgreeOn (Outside stack (stack + 8 * (1 + ts.length))) m
        (m.write stack 8 (addressBytes rvalue)) := by
      refine Area.agreeOn_write fun b hb => ?_
      unfold Outside at hb
      omega
    obtain ⟨hwords, hrest⟩ := passArguments_spec (j := 1) hts happart hwrite (by omega)
      (Nat.le_refl _) halign
    refine ⟨fun _ k hk => ?_, hwords, hwrite.trans (hrest.mono fun b hb => ?_)⟩
    · exact (hrest _ (.inl (by omega))).trans (Area.write_of_lt hk)
    · unfold Outside at hb ⊢
      omega
  | false =>
    have hfirst : first rtype = 0 := if_neg (by rw [hmem]; exact Bool.false_ne_true)
    rw [hfirst] at happart ⊢
    obtain ⟨hwords, hrest⟩ := passArguments_spec (j := 0) hts happart .rfl (by omega)
      (Nat.le_refl _) halign
    exact ⟨nofun, hwords, hrest⟩

theorem Apart.mono {lo hi lo' hi' : Nat} (h : Apart lo hi ts avalue)
    (hout : ∀ b, Outside lo hi b → Outside lo' hi' b) : Apart lo' hi' ts avalue := by
  induction ts generalizing avalue with
  | nil =>
    cases avalue with
    | nil => trivial
    | cons p avalue => exact h.elim
  | cons t ts ih =>
    cases avalue with
    | nil => exact h.elim
    | cons p avalue => exact ⟨⟨h.1.1, fun k hk => hout _ (h.1.2 k hk)⟩, ih h.2⟩

/-- **`ffi_call` calls by the convention**, and writes below its frame, down to the return address. -/
theorem ffiCallWin64_spec (hts : ∀ t ∈ ts, Proper t) (hbytes : stackBytes rtype ts < 2 ^ 32)
    (halign : 16 ∣ frame) (hframe : roundUp (stackBytes rtype ts) 16 + 16 ≤ frame)
    (happart : Apart (frame - roundUp (stackBytes rtype ts) 16 - 8) frame ts avalue)
    (rvalue : Nat) (pushed m : Area) :
    let e := ffiCallWin64 (ffiPrepCifMachdep rtype ts) frame rvalue avalue pushed m
    Both m rtype ts rvalue avalue e ∧
      e.rsp + 8 = frame - roundUp (stackBytes rtype ts) 16 ∧
      e.rsp + 8 + 32 ≤ frame ∧ 8 ∣ e.rsp + 8 ∧
      Area.AgreeOn (Outside e.rsp frame) m e.memory := by
  intro e
  have hstack : (ffiPrepCifMachdep rtype ts).stack frame =
      frame - roundUp (stackBytes rtype ts) 16 := by
    unfold Cif.stack
    rw [cif_bytes hts hbytes]
  obtain ⟨stack, hstack', hstackEq⟩ : ∃ stack, stack = frame - roundUp (stackBytes rtype ts) 16 ∧
      (ffiPrepCifMachdep rtype ts).stack frame = stack := ⟨_, rfl, hstack⟩
  have hbytes16 : 16 ∣ roundUp (stackBytes rtype ts) 16 := dvd_roundUp
  have hle : stackBytes rtype ts ≤ roundUp (stackBytes rtype ts) 16 := le_roundUp (by omega)
  have hwords : 8 * (first rtype + ts.length) + 32 ≤ stackBytes rtype ts := by
    have hfrom := Nat.le_trans (le_packedFrom hts (if inMemory rtype then 8 else 0))
      (packedFrom_le (fun t ht => (hts t ht).alignment) (Nat.le_refl _))
    unfold stackBytes first
    split at hfrom
    · rename_i hmem
      rw [if_pos hmem, if_pos hmem]
      omega
    · rename_i hmem
      rw [if_neg hmem, if_neg hmem]
      omega
  have halign' : 8 ∣ stack := by omega
  have happart' : Apart stack (stack + 8 * (first rtype + ts.length)) ts avalue :=
    happart.mono fun b hb => by
      unfold Outside at hb ⊢
      omega
  obtain ⟨hresult, harguments, hrest⟩ := ffiPrepArgs_spec hts happart' halign' rvalue (m := m)
  have hrsp : e.rsp = stack - 8 := by
    show (ffiPrepCifMachdep rtype ts).stack frame - 8 = stack - 8
    rw [hstackEq]
  have hword : ∀ reg j, ∀ k < 8, e.word reg j k =
      ffiPrepArgs (ffiPrepCifMachdep rtype ts) stack rvalue avalue m (stack + 8 * j + k) := by
    intro reg j k hk
    unfold Entry.word
    by_cases hj : j < 4
    · rw [if_pos hj]
      cases reg
      · show ffiPrepArgs _ ((ffiPrepCifMachdep rtype ts).stack frame) rvalue avalue m
          ((ffiPrepCifMachdep rtype ts).stack frame + 8 * j + k) = _
        rw [hstackEq]
      · show ffiPrepArgs _ ((ffiPrepCifMachdep rtype ts).stack frame) rvalue avalue m
          ((ffiPrepCifMachdep rtype ts).stack frame + 8 * j + k) = _
        rw [hstackEq]
    · rw [if_neg hj, hrsp, show stack - 8 + 8 = stack by omega]
      show Area.write _ ((ffiPrepCifMachdep rtype ts).stack frame - 8) 8 pushed _ = _
      rw [hstackEq, Area.write_of_out (by omega)]
  refine ⟨⟨fun hmem reg k hk => ?_, fun reg => ?_⟩, by omega, by omega, by omega, ?_⟩
  · rw [hword reg 0 k hk]
    exact hresult hmem k hk
  · exact harguments.congr fun j t _ _ _ k hk => hword (reg j t) j k hk
  · refine (hrest.mono fun b hb => ?_).trans ?_
    · unfold Outside at hb ⊢
      omega
    · show Area.AgreeOn _ _ (Area.write _ ((ffiPrepCifMachdep rtype ts).stack frame - 8) 8 pushed)
      rw [hstackEq]
      refine Area.agreeOn_write fun b hb => ?_
      unfold Outside at hb
      omega

/-- Where the result goes: for a large one without an address into new memory. -/
inductive ResultAt (rtype : FfiType) (rvalue allocated : Nat) : Nat → Prop
  | given (h : rvalue ≠ 0 ∨ rtype = ffiTypeVoid) : ResultAt rtype rvalue allocated rvalue
  | allocated (h : rvalue = 0) (hmem : inMemory rtype = true) :
    ResultAt rtype rvalue allocated allocated

theorem ResultAt.resultAddress (h : ResultAt rtype rvalue allocated a) (ts : List FfiType) :
    (ffiPrepCifMachdep rtype ts).resultAddress rvalue allocated = a := by
  unfold Cif.resultAddress
  cases h with
  | given h =>
    refine if_neg fun hzero => ?_
    rcases h with h | rfl
    · exact h hzero.1
    · have hvoid : prepFlags ffiTypeVoid = 13 := hzero.2.1
      exact absurd hvoid (by decide)
  | allocated h hmem =>
    refine if_pos ⟨h, prepFlags_thirteen.mpr hmem, ?_⟩
    unfold inMemory at hmem
    rw [decide_eq_true_eq] at hmem
    exact hmem.2

/-- **`ffi_call` calls by the convention**, also for a large result without an address: with the
stack aligned, room for the four registers on it, and all else in memory as it was. -/
theorem ffiCall_conforms (hts : ∀ t ∈ ts, Proper t) (hbytes : stackBytes rtype ts < 2 ^ 32)
    (halign : 16 ∣ frame) (hframe : roundUp (stackBytes rtype ts) 16 + 16 ≤ frame)
    (happart : Apart (frame - roundUp (stackBytes rtype ts) 16 - 8) frame ts avalue)
    (hat : ResultAt rtype rvalue allocated a) (pushed m : Area) :
    let cif := ffiPrepCifMachdep rtype ts
    let e := ffiCallWin64 cif frame (cif.resultAddress rvalue allocated) avalue pushed m
    Conforms m rtype ts a avalue e ∧ 16 ∣ e.rsp + 8 ∧ e.rsp + 8 + 32 ≤ frame ∧
      Area.AgreeOn (Outside e.rsp frame) m e.memory := by
  intro cif e
  have he : e = ffiCallWin64 cif frame a avalue pushed m := by
    rw [← hat.resultAddress ts]
  obtain ⟨hboth, hrsp, hlow, -, hrest⟩ := ffiCallWin64_spec hts hbytes halign hframe happart a
    pushed m
  have hstack : 16 ∣ frame - roundUp (stackBytes rtype ts) 16 := Nat.dvd_sub halign dvd_roundUp
  rw [he]
  exact ⟨hboth.conforms, hrsp ▸ hstack, hlow, hrest⟩

end call

theorem apart_double {lo hi p : Nat} (hp : p < 2 ^ 64) (hlt : p + 8 ≤ lo) :
    Apart lo hi [ffiTypeDouble] [p] :=
  ⟨⟨hp, fun k hk => .inl (by
    have hsize : ffiTypeDouble.size.toNat = 8 := rfl
    omega)⟩, trivial⟩

theorem ffiCall_conforms_twoDoubles :
    Conforms Area.numbered twoDoubles [ffiTypeDouble] 12288 [4096]
      (ffiCallWin64 (ffiPrepCifMachdep twoDoubles [ffiTypeDouble]) 8192
        ((ffiPrepCifMachdep twoDoubles [ffiTypeDouble]).resultAddress 0 12288) [4096] Area.zero
        Area.numbered) :=
  (ffiCall_conforms (List.forall_mem_singleton.mpr proper_double) (by decide) (by decide)
    (by decide) (apart_double (by decide) (by decide)) (.allocated rfl (by decide)) Area.zero
    Area.numbered).1

end NodeFfi.Win64
