import NodeFfi.Ia32.Call

/-!
# The calling conventions of 32-bit Windows

A function finds the first parameters that fit there in the registers of its convention, none for
`cdecl` and `stdcall`, and the others in their order on the stack, above the return address. The
address for a result in memory is the first parameter.
`ffi_call` calls by the convention, whatever the signature is (`ffiCallWin32_conforms`).
-/

namespace NodeFfi.Ia32

open Bytes Layout Libffi

/-- The bytes for the arguments when nothing wraps around. -/
def stackBytes (rtype : FfiType) (ts : List FfiType) : Nat :=
  bytesFrom 4 ts (if inMemory rtype then 4 else 0)

/-- A call by the convention, with `n` registers. -/
structure Conforms (n : Nat) (is : List Item) (e : Entry) : Prop where
  ecx : ∀ i, (inRegisters n is)[0]? = some i → ∀ k < i.size, e.ecx k = i.bytes k
  edx : ∀ i, (inRegisters n is)[1]? = some i → ∀ k < i.size, e.edx k = i.bytes k
  stack : Laid e.memory (e.esp + 4) (onStack n is)

/-! ### `ffi_prep_cif_machdep` -/

section cif

variable {abi : Abi} {rtype : FfiType} {ts : List FfiType}

theorem inMemory_iff : inMemory rtype = true ↔ code rtype = ffiTypeStruct ∧ rtype.size ≠ 1 ∧
    rtype.size ≠ 2 ∧ rtype.size ≠ 4 ∧ rtype.size ≠ 8 := by
  unfold inMemory
  rw [decide_eq_true_eq]

theorem prepFlags_memory (hmem : inMemory rtype = true) :
    prepFlags abi rtype = if abi = .msCdecl then 18 else 13 := by
  obtain ⟨hcode, h1, h2, h4, h8⟩ := inMemory_iff.mp hmem
  unfold prepFlags
  rw [hcode]
  show (if rtype.size = 1 then 15 else if rtype.size = 2 then 16 else if rtype.size = 4 then 1
    else if rtype.size = 8 then 12 else if abi = .msCdecl then 18 else 13 : BitVec 32) = _
  rw [if_neg h1, if_neg h2, if_neg h4, if_neg h8]

theorem prepFlags_register (hmem : inMemory rtype = false) :
    prepFlags abi rtype ≠ 13 ∧ prepFlags abi rtype ≠ 18 := by
  unfold prepFlags
  simp only
  split
  · rename_i hcode
    rcases hcode with h | h | h | h | h | h | h | h
    all_goals
      rw [h]
      decide
  · split
    · decide
    · split
      · rename_i hcode
        split
        · decide
        · split
          · decide
          · split
            · decide
            · split
              · decide
              · rename_i h1 h2 h4 h8
                rw [inMemory_iff.mpr ⟨hcode, h1, h2, h4, h8⟩] at hmem
                cases hmem
      · decide

theorem cif_hidden : (ffiPrepCifMachdep abi rtype ts).hidden = inMemory rtype := by
  unfold Cif.hidden
  rw [Bool.eq_iff_iff, decide_eq_true_eq]
  show prepFlags abi rtype = 13 ∨ prepFlags abi rtype = 18 ↔ inMemory rtype = true
  cases hmem : inMemory rtype with
  | true =>
    rw [prepFlags_memory hmem]
    refine iff_of_true ?_ rfl
    split
    · exact .inr rfl
    · exact .inl rfl
  | false =>
    obtain ⟨h13, h18⟩ : prepFlags abi rtype ≠ 13 ∧ prepFlags abi rtype ≠ 18 :=
      prepFlags_register hmem
    exact iff_of_false (fun h => h.elim h13 h18) Bool.false_ne_true

theorem cif_bytes (hts : ∀ t ∈ ts, Proper t) (h : stackBytes rtype ts < 2 ^ 32) :
    (ffiPrepCifMachdep abi rtype ts).bytes.toNat = stackBytes rtype ts := by
  have hstart : (if inMemory rtype then 4 else 0 : BitVec 32).toNat =
      if inMemory rtype then 4 else 0 := by
    cases inMemory rtype <;> rfl
  unfold stackBytes at h ⊢
  rw [← hstart] at h ⊢
  exact prepBytes_toNat (fun t ht => (hts t ht).alignment) (show (4 : BitVec 64).toNat = 4 from rfl)
    ⟨2, by omega, rfl⟩ h

theorem dvd_bytesFrom (hts : ∀ t ∈ ts, Proper t) {b : Nat} (hb : 4 ∣ b) : 4 ∣ bytesFrom 4 ts b := by
  induction ts generalizing b with
  | nil => exact hb
  | cons t ts ih =>
    refine ih (fun t ht => hts t (List.mem_cons_of_mem _ ht)) (Nat.dvd_add ?_ dvd_roundUp)
    obtain ⟨k, hk, hpow⟩ := (hts t List.mem_cons_self).alignment
    rw [hpow]
    rcases Nat.lt_or_ge k 3 with hlt | hge
    · rw [roundUp_eq (Nat.dvd_trans (Nat.pow_dvd_pow 2 (show k ≤ 2 by omega)) hb)]
      exact hb
    · exact Nat.dvd_trans (Nat.pow_dvd_pow 2 (show 2 ≤ k by omega)) dvd_roundUp

theorem dvd_stackBytes (hts : ∀ t ∈ ts, Proper t) : 4 ∣ stackBytes rtype ts := by
  refine dvd_bytesFrom hts ?_
  cases inMemory rtype <;> decide

end cif

/-! ### How many registers are taken -/

theorem inRegisters_eq (n : Nat) (is : List Item) :
    inRegisters n is = (is.filter Item.register).take n := by
  induction is generalizing n with
  | nil => cases n <;> rfl
  | cons i is ih =>
    cases n with
    | zero => rfl
    | succ n =>
      cases hreg : i.register with
      | true =>
        rw [List.filter_cons_of_pos hreg, List.take_succ_cons, ← ih]
        exact if_pos hreg
      | false =>
        have hno : ¬ i.register = true := by
          rw [hreg]
          exact Bool.false_ne_true
        rw [List.filter_cons_of_neg hno, ← ih]
        exact if_neg hno

theorem passedRegs_spec {ts : List FfiType} (hts : ∀ t ∈ ts, Proper t) {m : Area}
    {avalue : List Nat} {lo hi : Nat} (hclear : Clear lo hi ts avalue) {k : Nat} (hk : k ≤ 2) :
    passedRegs ts k = min 2 (k + ((argItems m ts avalue).filter Item.register).length) := by
  induction ts generalizing avalue k with
  | nil =>
    cases avalue with
    | nil => exact (Nat.min_eq_right hk).symm
    | cons p avalue => exact hclear.elim
  | cons t ts ih =>
    cases avalue with
    | nil => exact hclear.elim
    | cons p avalue =>
      have hpos := (hts t List.mem_cons_self).size_pos
      have ih' := @ih (fun t ht => hts t (List.mem_cons_of_mem _ ht)) avalue
      have hword : roundUp t.size.toNat 4 = 0 ∨ 4 < roundUp t.size.toNat 4 ↔ ¬ t.size.toNat ≤ 4 := by
        unfold roundUp
        omega
      have hitems : argItems m (t :: ts) (p :: avalue) =
          ⟨t.size.toNat, fitsRegister t, m.at_ p⟩ :: argItems m ts avalue := rfl
      have hfits : fitsRegister t = true ↔
          t.size.toNat ≤ 4 ∧ code t ≠ 2 ∧ code t ≠ ffiTypeStruct := by
        unfold fitsRegister
        rw [decide_eq_true_eq]
      obtain ⟨i, hi⟩ : ∃ i : Item, i = ⟨t.size.toNat, fitsRegister t, m.at_ p⟩ := ⟨_, rfl⟩
      have hregister : i.register = fitsRegister t := congrArg Item.register hi
      rw [hitems, ← hi]
      unfold passedRegs
      by_cases hfull : 2 ≤ k
      · rw [if_pos hfull]
        omega
      rw [if_neg hfull]
      cases hreg : fitsRegister t with
      | true =>
        obtain ⟨hsize, hfloat, hstruct⟩ := hfits.mp hreg
        rw [if_neg (fun h => h.elim hfloat hstruct), if_neg (fun h => hword.mp h hsize),
          List.filter_cons_of_pos (hregister.trans hreg), List.length_cons,
          ih' hclear.2 (by omega)]
        omega
      | false =>
        have hno : ¬ i.register = true := by
          rw [hregister, hreg]
          exact Bool.false_ne_true
        rw [List.filter_cons_of_neg hno]
        split
        · exact ih' hclear.2 hk
        · rename_i hcode
          rw [not_or] at hcode
          have hlarge : ¬ t.size.toNat ≤ 4 := by
            intro hsize
            rw [hfits.mpr ⟨hsize, hcode⟩] at hreg
            cases hreg
          rw [if_pos (hword.mpr hlarge)]
          exact ih' hclear.2 hk

section call

variable {abi : Abi} {rtype : FfiType} {ts : List FfiType} {avalue : List Nat} {lo hi rvalue : Nat}
  {m : Area}

theorem callAbi_registers (hts : ∀ t ∈ ts, Proper t) (hclear : Clear lo hi ts avalue) :
    (callAbi (ffiPrepCifMachdep abi rtype ts)).registers =
      (inRegisters abi.registers (items (ffiPrepCifMachdep abi rtype ts) rvalue avalue m)).length := by
  rcases Nat.eq_zero_or_pos abi.registers with hzero | hpos
  · rw [hzero, inRegisters_zero]
    cases abi
    · rfl
    · rfl
    · cases hzero
    · cases hzero
    · rfl
  -- the address for the result is counted by its flag
  have hcount : passedRegs ts (if (ffiPrepCifMachdep abi rtype ts).flags = 13 then 1 else 0) = min 2
      ((items (ffiPrepCifMachdep abi rtype ts) rvalue avalue m).filter Item.register).length := by
    have hne : abi ≠ .msCdecl := by
      rintro rfl
      exact absurd hpos (Nat.lt_irrefl 0)
    have hflags : (ffiPrepCifMachdep abi rtype ts).flags = prepFlags abi rtype := rfl
    unfold items
    rw [cif_hidden, hflags]
    cases hmem : inMemory rtype with
    | true =>
      rw [prepFlags_memory hmem, if_neg hne, if_pos rfl, if_pos rfl,
        passedRegs_spec (m := m) hts hclear (by omega)]
      exact congrArg (min 2) (Nat.add_comm 1 _)
    | false =>
      rw [if_neg (prepFlags_register hmem).1, if_neg Bool.false_ne_true,
        passedRegs_spec (m := m) hts hclear (by omega), Nat.zero_add]
      rfl
  rw [inRegisters_eq, List.length_take]
  generalize ((items (ffiPrepCifMachdep abi rtype ts) rvalue avalue m).filter
    Item.register).length = count at hcount ⊢
  cases abi
  · cases hpos
  · cases hpos
  · show (if passedRegs ts _ < 1 then Abi.stdcall else .thiscall).registers = min 1 count
    rw [hcount]
    split
    · show 0 = min 1 count
      omega
    · show 1 = min 1 count
      omega
  · show (if passedRegs ts _ < 1 then Abi.stdcall
      else if passedRegs ts _ < 2 then .thiscall else .fastcall).registers = min 2 count
    rw [hcount]
    split
    · show 0 = min 2 count
      omega
    · split
      · show 1 = min 2 count
        omega
      · show 2 = min 2 count
        omega
  · cases hpos

/-! ### What `ffi_prep_args` leaves -/

theorem Clear.length_eq (hclear : Clear lo hi ts avalue) : avalue.length = ts.length := by
  induction ts generalizing avalue with
  | nil =>
    cases avalue with
    | nil => rfl
    | cons p avalue => exact hclear.elim
  | cons t ts ih =>
    cases avalue with
    | nil => exact hclear.elim
    | cons p avalue => exact congrArg Nat.succ (ih hclear.2)

theorem total_argItems (hlen : avalue.length = ts.length) :
    total (argItems m ts avalue) = packedFrom 4 ts 0 := by
  induction ts generalizing avalue with
  | nil => rfl
  | cons t ts ih =>
    cases avalue with
    | nil => cases hlen
    | cons p avalue =>
      show roundUp t.size.toNat 4 + total (argItems m ts avalue) =
        packedFrom 4 ts (0 + roundUp t.size.toNat 4)
      rw [ih (Nat.succ.inj hlen), Nat.zero_add, packedFrom_eq (b := roundUp t.size.toNat 4)]

theorem total_hidden {is : List Item} {bytes : Area} :
    total (⟨4, true, bytes⟩ :: is) = 4 + total is :=
  congrArg (· + total is) (roundUp_four (Nat.succ_pos 3) (Nat.le_refl 4))

theorem total_items (hlen : avalue.length = ts.length) :
    total (items (ffiPrepCifMachdep abi rtype ts) rvalue avalue m) =
      packedFrom 4 ts (if inMemory rtype then 4 else 0) := by
  have htotal : total (argItems m ts avalue) = packedFrom 4 ts 0 := total_argItems hlen
  rw [packedFrom_eq, ← htotal]
  unfold items
  rw [cif_hidden]
  cases inMemory rtype with
  | true => exact total_hidden
  | false => exact (Nat.zero_add _).symm

theorem total_items_le (hts : ∀ t ∈ ts, Proper t) (hlen : avalue.length = ts.length) :
    total (items (ffiPrepCifMachdep abi rtype ts) rvalue avalue m) ≤ stackBytes rtype ts := by
  rw [total_items hlen]
  exact packedFrom_le (fun t ht => (hts t ht).alignment) (Nat.le_refl _)

theorem argItems_fits (hts : ∀ t ∈ ts, Proper t) : Fits (argItems m ts avalue) := by
  induction ts generalizing avalue with
  | nil => exact fun i hi => nomatch hi
  | cons t ts ih =>
    cases avalue with
    | nil => exact fun i hi => nomatch hi
    | cons p avalue =>
      intro i hi
      rcases List.mem_cons.mp hi with rfl | hi
      · refine ⟨(hts t List.mem_cons_self).size_pos, fun hreg => ?_⟩
        have hreg' : fitsRegister t = true := hreg
        unfold fitsRegister at hreg'
        rw [decide_eq_true_eq] at hreg'
        exact hreg'.1
      · exact ih (fun t ht => hts t (List.mem_cons_of_mem _ ht)) i hi

theorem items_fits (hts : ∀ t ∈ ts, Proper t) :
    Fits (items (ffiPrepCifMachdep abi rtype ts) rvalue avalue m) := by
  unfold items
  split
  · intro i hi
    rcases List.mem_cons.mp hi with rfl | hi
    · exact ⟨Nat.succ_pos 3, fun _ => Nat.le_refl 4⟩
    · exact argItems_fits hts i hi
  · exact argItems_fits hts

/-- **`ffi_prep_args`** leaves the parameters for registers in front of the others. -/
theorem ffiPrepArgs_spec {stack : Nat} (hts : ∀ t ∈ ts, Proper t) (hclear : Clear lo hi ts avalue)
    (halign : 4 ∣ stack) (hlo : lo ≤ stack)
    (hhi : stack + total (items (ffiPrepCifMachdep abi rtype ts) rvalue avalue m) ≤ hi) :
    let is := items (ffiPrepCifMachdep abi rtype ts) rvalue avalue m
    let m' := ffiPrepArgs (ffiPrepCifMachdep abi rtype ts) stack rvalue avalue m
    Laid m' stack (inRegisters abi.registers is ++ onStack abi.registers is) ∧
      Area.AgreeOn (Outside stack (stack + total is)) m m' := by
  intro is m'
  have hn : abi.registers ≤ 2 := by cases abi <;> decide
  -- what the loop has written and recorded
  obtain ⟨m₁, hm', hlaid, hagree⟩ : ∃ m₁,
      m' = moveRegisterArguments stack (places abi.registers stack is) m₁ ∧ Laid m₁ stack is ∧
        Area.AgreeOn (Outside stack (stack + total is)) m m₁ := by
    cases hmem : inMemory rtype with
    | true =>
      have hhidden : (ffiPrepCifMachdep abi rtype ts).hidden = true := cif_hidden.trans hmem
      have his : is = ⟨4, true, addressBytes rvalue⟩ :: argItems m ts avalue := if_pos hhidden
      have htotal : total is = 4 + total (argItems m ts avalue) := by
        rw [his]
        exact total_hidden
      have hhi' : stack + total is ≤ hi := hhi
      have hword : roundUp 4 4 = 4 := roundUp_four (Nat.succ_pos 3) (Nat.le_refl 4)
      have hround : roundUp (stack + 4) 4 = stack + 4 :=
        roundUp_eq (Nat.dvd_add halign (Nat.dvd_refl 4))
      have hwrite : ∀ {P : Nat → Prop}, (∀ b, P b → Outside stack (stack + 4) b) →
          Area.AgreeOn P m (m.write stack 4 (addressBytes rvalue)) :=
        fun hP => Area.agreeOn_write hP
      obtain ⟨hplaces, hargs, hrest⟩ := passArguments_spec hts abi.registers (stack + 4)
        (if 0 < abi.registers then [(4, stack)] else []) hclear
        (hwrite fun b hb => by unfold Outside at hb ⊢; omega)
        (by rw [hround]; omega) (by rw [hround]; omega)
      rw [hround] at hplaces hargs hrest
      have hrecorded : (passArguments abi.registers ts avalue (stack + 4)
          (if 0 < abi.registers then [(4, stack)] else [])
          (m.write stack 4 (addressBytes rvalue))).1 = places abi.registers stack is := by
        rw [hplaces, his]
        cases abi.registers with
        | zero => exact places_zero
        | succ n =>
          show (4, stack) :: places n (stack + 4) (argItems m ts avalue) =
            (4, stack) :: places n (stack + roundUp 4 4) (argItems m ts avalue)
          rw [hword]
      refine ⟨_, ?_, ?_, (hwrite fun b hb => ?_).trans (hrest.mono fun b hb => ?_)⟩
      · rw [← hrecorded]
        show ffiPrepArgs _ _ _ _ _ = _
        unfold ffiPrepArgs
        rw [hhidden]
        rfl
      · rw [his]
        refine ⟨fun k hk => ?_, hword.symm ▸ hargs⟩
        have hk' : k < 4 := hk
        rw [hrest _ (.inl (by omega)), Area.write_of_lt hk']
      · unfold Outside at hb ⊢
        omega
      · unfold Outside at hb ⊢
        omega
    | false =>
      have hhidden : (ffiPrepCifMachdep abi rtype ts).hidden = false := cif_hidden.trans hmem
      have his : is = argItems m ts avalue := if_neg (by rw [hhidden]; exact Bool.false_ne_true)
      have hround : roundUp stack 4 = stack := roundUp_eq halign
      obtain ⟨hplaces, hargs, hrest⟩ := passArguments_spec hts abi.registers stack [] hclear .rfl
        (by rw [hround]; exact hlo) (by rw [hround, ← his]; exact hhi)
      rw [hround, ← his] at hplaces hargs hrest
      refine ⟨_, ?_, hargs, hrest⟩
      have hrecorded : (passArguments abi.registers ts avalue stack [] m).1 =
          places abi.registers stack is := hplaces
      rw [← hrecorded]
      show ffiPrepArgs _ _ _ _ _ = _
      unfold ffiPrepArgs
      rw [hhidden]
      rfl
  obtain ⟨hmoved, hagree'⟩ := moveRegisterArguments_spec hn (items_fits hts) hlaid
  rw [← hm'] at hmoved hagree'
  exact ⟨hmoved, hagree.trans hagree'⟩

/-! ### `ffi_call` -/

theorem inRegisters_word {n : Nat} {is : List Item} (hfits : Fits is) {i : Item}
    (hi : i ∈ inRegisters n is) : i.size ≤ 4 ∧ roundUp i.size 4 = 4 := by
  rw [inRegisters_eq] at hi
  obtain ⟨hmem, hreg⟩ := List.mem_filter.mp (List.mem_of_mem_take hi)
  obtain ⟨hpos, hle⟩ := hfits i hmem
  exact ⟨hle hreg, roundUp_four hpos (hle hreg)⟩

theorem total_split (n : Nat) (is : List Item) :
    total (inRegisters n is) + total (onStack n is) = total is := by
  induction is generalizing n with
  | nil => cases n <;> rfl
  | cons i is ih =>
    cases n with
    | zero => exact Nat.zero_add _
    | succ n =>
      have hsum : total (i :: is) = roundUp i.size 4 + total is := rfl
      cases hreg : i.register with
      | true =>
        have hin : inRegisters (n + 1) (i :: is) = i :: inRegisters n is := if_pos hreg
        have hon : onStack (n + 1) (i :: is) = onStack n is := if_pos hreg
        have hcons : total (i :: inRegisters n is) =
            roundUp i.size 4 + total (inRegisters n is) := rfl
        rw [hin, hon, hsum, ← ih n, hcons, Nat.add_assoc]
      | false =>
        have hno : ¬ i.register = true := by
          rw [hreg]
          exact Bool.false_ne_true
        have hin : inRegisters (n + 1) (i :: is) = inRegisters (n + 1) is := if_neg hno
        have hon : onStack (n + 1) (i :: is) = i :: onStack (n + 1) is := if_neg hno
        have hcons : total (i :: onStack (n + 1) is) =
            roundUp i.size 4 + total (onStack (n + 1) is) := rfl
        rw [hin, hon, hsum, ← ih (n + 1), hcons, Nat.add_left_comm]

section words

variable {a : Nat} {is : List Item} (hword : ∀ i ∈ is, roundUp i.size 4 = 4)

include hword

theorem total_words : total is = 4 * is.length := by
  induction is with
  | nil => rfl
  | cons i is ih =>
    show roundUp i.size 4 + total is = 4 * (is.length + 1)
    rw [hword i List.mem_cons_self, ih fun i hi => hword i (List.mem_cons_of_mem _ hi)]
    omega

theorem Laid.get (h : Laid m a is) {j k : Nat} {i : Item} (hi : is[j]? = some i)
    (hk : k < i.size) : m (a + 4 * j + k) = i.bytes k := by
  induction is generalizing a j with
  | nil => cases hi
  | cons i' is ih =>
    cases j with
    | zero =>
      obtain rfl := Option.some.inj hi
      exact h.1 k hk
    | succ j =>
      have hrest := ih (fun i hi => hword i (List.mem_cons_of_mem _ hi)) h.2 hi
      rw [hword i' List.mem_cons_self] at hrest
      rw [← hrest]
      exact congrArg m (by omega)

end words

theorem ffiCallWin32_eq {frame : Nat} (ecx edx pushed : Area) {esp : Nat} {m' : Area}
    (hesp : frame - (ffiPrepCifMachdep abi rtype ts).bytes.toNat = esp)
    (hm' : ffiPrepArgs (ffiPrepCifMachdep abi rtype ts) esp rvalue avalue m = m') {r : Nat}
    (hr : (callAbi (ffiPrepCifMachdep abi rtype ts)).registers = r) :
    let e := ffiCallWin32 (ffiPrepCifMachdep abi rtype ts) frame rvalue avalue ecx edx pushed m
    (1 ≤ r → e.ecx = m'.at_ esp) ∧ (2 ≤ r → e.edx = m'.at_ (esp + 4)) ∧
      e.esp = esp + 4 * r - 4 ∧ e.memory = m'.write (esp + 4 * r - 4) 4 pushed := by
  intro e
  have he : e = enterFunction (callAbi (ffiPrepCifMachdep abi rtype ts)) esp ecx edx pushed m' := by
    rw [← hm', ← hesp]
    rfl
  rw [he]
  subst hr
  cases callAbi (ffiPrepCifMachdep abi rtype ts) with
  | fastcall => exact ⟨fun _ => rfl, fun _ => rfl, rfl, rfl⟩
  | thiscall => exact ⟨fun _ => rfl, fun h => absurd h (by decide), rfl, rfl⟩
  | sysv => exact ⟨fun h => absurd h (by decide), fun h => absurd h (by decide), rfl, rfl⟩
  | stdcall => exact ⟨fun h => absurd h (by decide), fun h => absurd h (by decide), rfl, rfl⟩
  | msCdecl => exact ⟨fun h => absurd h (by decide), fun h => absurd h (by decide), rfl, rfl⟩

/-- **`ffi_call` calls by the convention**: the parameters are where it says, the return address is
on top of the stack, and nothing above the reserved bytes has changed. -/
theorem ffiCallWin32_conforms {frame : Nat} {ecx edx pushed : Area} (hts : ∀ t ∈ ts, Proper t)
    (hbytes : stackBytes rtype ts < 2 ^ 32) (halign : 4 ∣ frame)
    (hframe : stackBytes rtype ts + 4 ≤ frame)
    (hclear : Clear (frame - stackBytes rtype ts - 4) frame ts avalue) :
    let cif := ffiPrepCifMachdep abi rtype ts
    let is := items cif rvalue avalue m
    let e := ffiCallWin32 cif frame rvalue avalue ecx edx pushed m
    Conforms abi.registers is e ∧
      e.esp + 4 = frame - stackBytes rtype ts + 4 * (inRegisters abi.registers is).length ∧
      (∀ k < 4, e.memory (e.esp + k) = pushed k) ∧
      Area.AgreeOn (Outside (frame - stackBytes rtype ts - 4) frame) m e.memory := by
  intro cif is e
  obtain ⟨esp, hesp⟩ : ∃ esp, esp = frame - stackBytes rtype ts := ⟨_, rfl⟩
  have hespBytes : frame - cif.bytes.toNat = esp := by
    rw [hesp]
    exact congrArg (frame - ·) (cif_bytes hts hbytes)
  have hwords : 4 ∣ esp := hesp ▸ Nat.dvd_sub halign (dvd_stackBytes hts)
  have htotal : total is ≤ stackBytes rtype ts := total_items_le hts hclear.length_eq
  rw [← hesp] at hclear ⊢
  obtain ⟨hlaid, hagree⟩ : Laid (ffiPrepArgs cif esp rvalue avalue m) esp
      (inRegisters abi.registers is ++ onStack abi.registers is) ∧
        Area.AgreeOn (Outside esp (esp + total is)) m (ffiPrepArgs cif esp rvalue avalue m) :=
    ffiPrepArgs_spec hts hclear hwords (Nat.sub_le esp 4) (show esp + total is ≤ frame by omega)
  obtain ⟨m', hm'⟩ : ∃ m', ffiPrepArgs cif esp rvalue avalue m = m' := ⟨_, rfl⟩
  obtain ⟨regs, hregs⟩ : ∃ regs, regs = inRegisters abi.registers is := ⟨_, rfl⟩
  have hword : ∀ i ∈ regs, i.size ≤ 4 ∧ roundUp i.size 4 = 4 := by
    rw [hregs]
    exact fun i hi => inRegisters_word (items_fits hts) hi
  have hr : (callAbi cif).registers = regs.length :=
    (callAbi_registers hts hclear).trans (congrArg List.length hregs.symm)
  obtain ⟨hecx, hedx, hesp', hmemory⟩ := ffiCallWin32_eq ecx edx pushed hespBytes hm' hr
  have hlaid' : Laid m' esp (regs ++ onStack abi.registers is) := by
    rw [← hm', hregs]
    exact hlaid
  have hagree' : Area.AgreeOn (Outside esp (esp + total is)) m m' := by
    rw [← hm']
    exact hagree
  rw [Laid.append] at hlaid'
  obtain ⟨hregsLaid, hstack⟩ := hlaid'
  have htotalRegs := total_words fun i hi => (hword i hi).2
  have hle : 4 * regs.length ≤ total is := by
    rw [← htotalRegs, ← total_split abi.registers is, ← hregs]
    exact Nat.le_add_right _ _
  have hret : e.esp = esp + 4 * regs.length - 4 := hesp'
  have hwritten : e.memory = m'.write e.esp 4 pushed := by
    rw [hret]
    exact hmemory
  have hplace : e.esp + 4 = esp + 4 * regs.length := by
    rw [hret]
    omega
  rw [htotalRegs, ← hplace] at hstack
  have hget : ∀ {j k : Nat} {i : Item}, regs[j]? = some i → k < i.size →
      j + 1 ≤ regs.length ∧ m' (esp + 4 * j + k) = i.bytes k := fun hi hk =>
    ⟨(List.getElem?_eq_some_iff.mp hi).1, hregsLaid.get (fun i hi => (hword i hi).2) hi hk⟩
  refine ⟨⟨?_, ?_, ?_⟩, ?_, fun k hk => ?_, ?_⟩
  · rw [← hregs]
    intro i hi k hk
    obtain ⟨hlt, hbyte⟩ := hget hi hk
    rw [hecx hlt]
    exact hbyte
  · rw [← hregs]
    intro i hi k hk
    obtain ⟨hlt, hbyte⟩ := hget hi hk
    rw [hedx hlt]
    exact hbyte
  · refine hstack.transport fun k _ => ?_
    rw [hwritten]
    exact Area.write_of_out (.inr (Nat.le_add_right _ k))
  · rw [← hregs]
    exact hplace
  · rw [hwritten]
    exact Area.write_of_lt hk
  · rw [hwritten]
    refine (hagree'.mono fun b hb => ?_).trans (Area.agreeOn_write fun b hb => ?_)
    · unfold Outside at hb ⊢
      omega
    · unfold Outside at hb
      omega

end call

/-! A call in which a `short` and an `int` go around a `double`. -/

def ffiTypeSint16 : FfiType := ⟨2, 2, 8, none⟩

def ffiTypeSint32 : FfiType := ⟨4, 4, 10, none⟩

def ffiTypeDouble : FfiType := ⟨8, 8, 3, none⟩

/-- `int (double, short, int, int)`. -/
def mixed : List FfiType := [ffiTypeDouble, ffiTypeSint16, ffiTypeSint32, ffiTypeSint32]

theorem proper_int : Proper ffiTypeSint32 := ⟨⟨2, by omega, rfl⟩, by decide⟩

theorem proper_double : Proper ffiTypeDouble := ⟨⟨3, by omega, rfl⟩, by decide⟩

theorem proper_mixed : ∀ t ∈ mixed, Proper t := by
  have hshort : Proper ffiTypeSint16 := ⟨⟨1, by omega, rfl⟩, by decide⟩
  unfold mixed
  simp only [List.forall_mem_cons]
  exact ⟨proper_double, hshort, proper_int, proper_int, List.forall_mem_nil _⟩

theorem clear_cons {lo hi p : Nat} {t : FfiType} {ts : List FfiType} {avalue : List Nat}
    (hlt : p + t.size.toNat ≤ lo) (h : Clear lo hi ts avalue) :
    Clear lo hi (t :: ts) (p :: avalue) :=
  ⟨fun k hk => .inl (by omega), h⟩

theorem clear_mixed {lo hi : Nat} (hlo : 4120 ≤ lo) :
    Clear lo hi mixed [4096, 4104, 4108, 4112] :=
  clear_cons (Nat.le_trans (by decide) hlo) (clear_cons (Nat.le_trans (by decide) hlo)
    (clear_cons (Nat.le_trans (by decide) hlo) (clear_cons (Nat.le_trans (by decide) hlo) trivial)))

theorem ffiCallWin32_conforms_mixed :
    Conforms 2 (items (ffiPrepCifMachdep .fastcall ffiTypeSint32 mixed) 12288
        [4096, 4104, 4108, 4112] Area.numbered)
      (ffiCallWin32 (ffiPrepCifMachdep .fastcall ffiTypeSint32 mixed) 8192 12288
        [4096, 4104, 4108, 4112] Area.zero Area.zero Area.zero
        Area.numbered) :=
  (@ffiCallWin32_conforms .fastcall ffiTypeSint32 mixed _ _ _ _ _ _ _ proper_mixed (by decide)
    (by decide) (by decide) (clear_mixed (by decide))).1

end NodeFfi.Ia32
