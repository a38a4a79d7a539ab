import NodeFfi.Ia32.Convention
import NodeFfi.Ia32.Trampoline

/-!
# Closures on 32-bit Windows

A processor that enters the code of a closure gets to the function for its convention, which finds
the parameters in their order (`closure_finds`). For `thiscall` they are found if the first one is in
the register, as `this` is. When the closure returns, its caller has the stack that the convention asks
for just as long as no parameter is padded and, for `thiscall`, the result is not in memory
(`closure_returns_iff`).
-/

namespace NodeFfi.Ia32

open Bytes Layout Libffi X86

/-- Memory by addresses that are numbers. -/
def area (m : Memory) : Area := fun a => m (BitVec.ofNat 32 a)

/-- A processor that enters a function. -/
def entry (s : State) : Entry := ⟨byte s.ecx, byte s.edx, s.esp.toNat, area s.memory⟩

/-! ### The stubs -/

/-- What a stub has on the stack when its function is entered. -/
def Abi.depth : Abi → Word
  | .stdcall => 4
  | .thiscall => 16
  | _ => 0

/-- The memory then. -/
def stubMemory (abi : Abi) (bytes base : Word) (s : State) : Memory :=
  match abi with
  | .stdcall => s.memory.writeWord (s.esp - 4) (base + 10)
  | .thiscall =>
    (moved (pushed s) (s.esp - 4) (bytes.toNat - 4)).writeWord (s.esp - 16) (base + 49)
  | _ => s.memory

/-- The stub at `base` has got to its function. -/
structure Entered (f : Functions) (abi : Abi) (bytes base : Word) (code : List Byte)
    (s s' : State) : Prop where
  reaches : s.Reaches s'
  eip : s'.eip = f.function abi
  eax : s'.eax = base
  esp : s'.esp = s.esp - abi.depth
  memory : s'.memory = stubMemory abi bytes base s
  code : CodeAt s'.memory base code

/-- What the stub for `this` moves: the words of all parameters, of which there is one. -/
structure Movable (bytes : Word) : Prop where
  words : 4 ∣ bytes.toNat
  pos : 0 < bytes.toNat
  short : bytes.toNat < 2 ^ 16

theorem toShort_eq {bytes : Word} (h : bytes.toNat < 2 ^ 16) : toShort bytes = bytes := by
  unfold toShort
  bv_omega

theorem code_pos {f : Functions} {abi : Abi} {bytes base : Word} {code : List Byte}
    (hcode : ffiPrepClosureLoc f abi bytes base = some code) : 0 < code.length := by
  cases abi with
  | fastcall => cases hcode
  | _ =>
    obtain rfl := Option.some.inj hcode
    exact Nat.succ_pos _

section stub

variable {f : Functions} {abi : Abi} {bytes base : Word} {code : List Byte} {s : State}

/-- **Every stub gets to its function**, with its closure in `eax`. -/
theorem stub_enters (hcode : ffiPrepClosureLoc f abi bytes base = some code)
    (hat : CodeAt s.memory base code) (heip : s.eip = base) (hthis : abi = .thiscall → Movable bytes)
    (hapart : Apart base code.length (s.esp - 16) (16 + bytes.toNat)) :
    ∃ s', Entered f abi bytes base code s s' := by
  have hjump : ∀ {g : Word}, base + 10 + (g - (base + 10)) = g := by bv_omega
  have hzero : s.esp - 0 = s.esp := BitVec.sub_zero s.esp
  have hsysv : some (trampoline base (f.closureSysv - (base + 10))) = some code →
      s.Reaches { s with eax := base, eip := f.closureSysv } := by
    intro hsome
    obtain rfl := Option.some.inj hsome
    rw [trampoline_listing] at hat
    have henters := trampoline_enters hat heip
    rw [hjump] at henters
    exact henters
  cases abi with
  | sysv => exact ⟨_, hsysv hcode, rfl, rfl, hzero.symm, rfl, hat⟩
  | msCdecl => exact ⟨_, hsysv hcode, rfl, rfl, hzero.symm, rfl, hat⟩
  | fastcall => cases hcode
  | stdcall =>
    have hpush := hapart.sub (d := 12) (show 12 + 4 ≤ 16 + bytes.toNat by omega)
    rw [show s.esp - 16 + BitVec.ofNat 32 12 = s.esp - 4 by bv_omega] at hpush
    refine ⟨{ s with
      eax := base
      esp := s.esp - 4
      memory := s.memory.writeWord (s.esp - 4) (base + 10)
      eip := f.closureStdcall }, ?_, rfl, rfl, rfl, rfl, hat.writeWord hpush⟩
    obtain rfl := Option.some.inj hcode
    rw [trampolineStdcall_listing] at hat
    have henters := stdcall_enters hat heip
    rw [hjump] at henters
    exact henters
  | thiscall =>
    obtain ⟨⟨n', hn'⟩, hpos, hshort⟩ := hthis rfl
    obtain ⟨n, hn⟩ : ∃ n, bytes.toNat = 4 * (n + 1) := ⟨n' - 1, by omega⟩
    have hless : bytes.toNat - 4 = 4 * n := by omega
    have hjump' : base + 49 + (f.closureThiscall - (base + 49)) = f.closureThiscall := by bv_omega
    have hsize : toShort bytes = BitVec.ofNat 32 (4 * (n + 1)) := by
      rw [toShort_eq (by omega), ← hn, BitVec.ofNat_toNat, BitVec.setWidth_eq]
    have hlow : Apart base code.length (s.esp - 16) 12 := fun k hk =>
      Nat.le_trans (by omega) (hapart k hk)
    have hargs := hapart.sub (d := 12) (show 12 + 4 * n ≤ 16 + bytes.toNat by omega)
    rw [show s.esp - 16 + BitVec.ofNat 32 12 = s.esp - 4 by bv_omega] at hargs
    have hcode' : CodeAt ((moved (pushed s) (s.esp - 4) (4 * n)).writeWord (s.esp - 16) (base + 49))
        base code :=
      (code_moved (code_pushed hat hlow) hargs).writeWord fun k hk =>
        Nat.le_trans (by omega) (hapart k hk)
    obtain rfl := Option.some.inj hcode
    have hlength : (trampolineThiscall base (f.closureThiscall - (base + 49))
        (toShort bytes)).length = 52 := by
      rw [trampolineThiscall_listing]
      rfl
    rw [hlength] at hapart
    rw [trampolineThiscall_listing] at hat
    obtain ⟨ecx, edx, zf, henters⟩ := thiscall_enters hat heip hsize (by omega) fun k hk =>
      Nat.le_trans (by omega) (hapart k hk)
    rw [hjump'] at henters
    refine ⟨_, henters, rfl, rfl, rfl, ?_, hcode'⟩
    unfold stubMemory
    simp only [hless]

end stub

/-! ### Where the words are -/

section words

variable {bytes base : Word} {s : State} {k : Nat}

theorem area_add (m : Memory) (a : Word) (k : Nat) :
    area m (a.toNat + k) = m (a + BitVec.ofNat 32 k) := by
  unfold area
  rw [BitVec.ofNat_add, BitVec.ofNat_toNat, BitVec.setWidth_eq]

theorem dvd_toNat {a b d : Word} (ha : 4 ∣ a.toNat) (hb : b = a + d) (hd : 4 ∣ d.toNat) :
    4 ∣ b.toNat := by
  rw [hb, BitVec.toNat_add]
  omega

theorem writeWord_above {m : Memory} {a w : Word} {d : Nat} (hlow : 4 ≤ d) (hhigh : d < 2 ^ 32) :
    m.writeWord a w (a + BitVec.ofNat 32 d) = m (a + BitVec.ofNat 32 d) := by
  refine Memory.writeWord_of_ge ?_
  bv_omega

theorem stubMemory_stdcall (hk : k + 8 < 2 ^ 32) :
    stubMemory .stdcall bytes base s (s.esp + 4 + BitVec.ofNat 32 k) =
      s.memory (s.esp + 4 + BitVec.ofNat 32 k) := by
  have hplace : s.esp + 4 + BitVec.ofNat 32 k = s.esp - 4 + BitVec.ofNat 32 (k + 8) := by bv_omega
  have hstub : stubMemory .stdcall bytes base s = s.memory.writeWord (s.esp - 4) (base + 10) := rfl
  rw [hplace, hstub, writeWord_above (by omega) hk]

theorem stubMemory_thiscall {d : Nat} (hlow : 4 ≤ d) (hhigh : d < 2 ^ 32) :
    stubMemory .thiscall bytes base s (s.esp - 16 + BitVec.ofNat 32 d) =
      moved (pushed s) (s.esp - 4) (bytes.toNat - 4) (s.esp - 16 + BitVec.ofNat 32 d) := by
  have hstub : stubMemory .thiscall bytes base s = (moved (pushed s) (s.esp - 4)
    (bytes.toNat - 4)).writeWord (s.esp - 16) (base + 49) := rfl
  rw [hstub, writeWord_above hlow hhigh]

theorem pushed_above {d : Nat} (hlow : 4 ≤ d) (hhigh : d < 2 ^ 32) :
    pushed s (s.esp - 12 + BitVec.ofNat 32 d) =
      s.memory.writeWord (s.esp - 8) s.ecx (s.esp - 12 + BitVec.ofNat 32 d) := by
  unfold pushed
  rw [writeWord_above hlow hhigh]

theorem stubMemory_this (hbytes : bytes.toNat < 2 ^ 16) (hk : k < 4) :
    stubMemory .thiscall bytes base s (s.esp - 8 + BitVec.ofNat 32 k) = byte s.ecx k := by
  have hret : s.esp - 8 + BitVec.ofNat 32 k = s.esp - 16 + BitVec.ofNat 32 (k + 8) := by bv_omega
  have hpushed : s.esp - 16 + BitVec.ofNat 32 (k + 8) = s.esp - 12 + BitVec.ofNat 32 (k + 4) := by
    bv_omega
  have hecx : s.esp - 12 + BitVec.ofNat 32 (k + 4) = s.esp - 8 + BitVec.ofNat 32 k := by bv_omega
  have hout : ¬ (s.esp - 16 + BitVec.ofNat 32 (k + 8) - (s.esp - 4)).toNat < bytes.toNat - 4 := by
    bv_omega
  have hmoved : moved (pushed s) (s.esp - 4) (bytes.toNat - 4)
      (s.esp - 16 + BitVec.ofNat 32 (k + 8)) = pushed s (s.esp - 16 + BitVec.ofNat 32 (k + 8)) := by
    unfold moved
    rw [if_neg hout]
  have hword : BitVec.ofNat 32 k < 4 := by bv_omega
  have hnat : (BitVec.ofNat 32 k).toNat = k := by
    rw [BitVec.toNat_ofNat]
    omega
  rw [hret, stubMemory_thiscall (by omega) (by omega), hmoved, hpushed,
    pushed_above (by omega) (by omega), hecx, Memory.writeWord_add hword, hnat]

theorem stubMemory_words (hbytes : bytes.toNat < 2 ^ 16) (hk : k + 4 < bytes.toNat) :
    stubMemory .thiscall bytes base s (s.esp - 8 + BitVec.ofNat 32 (4 + k)) =
      s.memory (s.esp + 4 + BitVec.ofNat 32 k) := by
  have hret : s.esp - 8 + BitVec.ofNat 32 (4 + k) = s.esp - 16 + BitVec.ofNat 32 (k + 12) := by
    bv_omega
  have hfrom : s.esp - 16 + BitVec.ofNat 32 (k + 12) + 8 = s.esp - 12 + BitVec.ofNat 32 (k + 16) := by
    bv_omega
  have hecx : s.esp - 12 + BitVec.ofNat 32 (k + 16) = s.esp - 8 + BitVec.ofNat 32 (k + 12) := by
    bv_omega
  have hword : s.esp - 8 + BitVec.ofNat 32 (k + 12) = s.esp + 4 + BitVec.ofNat 32 k := by bv_omega
  have hin : (s.esp - 16 + BitVec.ofNat 32 (k + 12) - (s.esp - 4)).toNat < bytes.toNat - 4 := by
    have hsub : s.esp - 16 + BitVec.ofNat 32 (k + 12) - (s.esp - 4) = BitVec.ofNat 32 k := by
      bv_omega
    rw [hsub, BitVec.toNat_ofNat]
    omega
  have hmoved : moved (pushed s) (s.esp - 4) (bytes.toNat - 4)
      (s.esp - 16 + BitVec.ofNat 32 (k + 12)) =
        pushed s (s.esp - 16 + BitVec.ofNat 32 (k + 12) + 8) := by
    unfold moved
    rw [if_pos hin]
  rw [hret, stubMemory_thiscall (by omega) (by omega), hmoved, hfrom,
    pushed_above (by omega) (by omega), hecx, writeWord_above (by omega) (by omega), hword]

end words

/-! ### What the function finds -/

/-- `args`, in the frame of the function of a stub: `ebp + 8` or `ebp + 12`, after `ebp` has been
pushed. -/
def closureArgs (abi : Abi) (esp : Word) : Word :=
  match abi with
  | .stdcall | .thiscall => esp + 8
  | _ => esp + 4

theorem closureArgs_zero {a : Word} : a - 0 + 4 = a + 4 := by bv_omega

theorem closureArgs_stdcall {a : Word} : closureArgs .stdcall (a - Abi.stdcall.depth) = a + 4 := by
  show a - 4 + 8 = a + 4
  bv_omega

theorem closureArgs_thiscall {a : Word} : closureArgs .thiscall (a - Abi.thiscall.depth) = a - 8 := by
  show a - 16 + 8 = a - 8
  bv_omega

/-- The parameters have been found. -/
def Sees : List Item → List Area → Prop
  | [], [] => True
  | i :: is, a :: arguments => (∀ k < i.size, a k = i.bytes k) ∧ Sees is arguments
  | _, _ => False

/-- The closure has found where its result goes, and the arguments. -/
def Found (cif : Cif) (rvalue : Nat) (avalue : List Nat) (m₀ m : Area) (found : Nat × List Nat) :
    Prop :=
  (cif.hidden = true → found.1 = rvalue) ∧
    Sees (argItems m₀ cif.argTypes avalue) (found.2.map m.at_)

section found

variable {abi : Abi} {rtype : FfiType} {ts : List FfiType} {avalue : List Nat} {rvalue stack : Nat}
  {m₀ m : Area}

theorem incomingArgs_sees (hlen : avalue.length = ts.length) {argp : Nat}
    (h : Laid m (roundUp argp 4) (argItems m₀ ts avalue)) :
    Sees (argItems m₀ ts avalue) ((incomingArgs ts argp).map m.at_) := by
  induction ts generalizing avalue argp with
  | nil =>
    cases avalue with
    | nil => trivial
    | cons p avalue => cases hlen
  | cons t ts ih =>
    cases avalue with
    | nil => cases hlen
    | cons p avalue =>
      have hnext : roundUp (roundUp argp 4 + t.size.toNat) 4 =
          roundUp argp 4 + roundUp t.size.toNat 4 := by
        unfold roundUp
        omega
      refine ⟨h.1, ih (Nat.succ.inj hlen) ?_⟩
      rw [hnext]
      exact h.2

/-- **What `ffi_prep_incoming_args_SYSV` finds**, where the parameters are in their order. -/
theorem ffiPrepIncomingArgsSysv_found (hlen : avalue.length = ts.length) (hrvalue : rvalue < 2 ^ 32)
    (halign : 4 ∣ stack) (resp : Nat)
    (h : Laid m stack (items (ffiPrepCifMachdep abi rtype ts) rvalue avalue m₀)) :
    Found (ffiPrepCifMachdep abi rtype ts) rvalue avalue m₀ m
      (ffiPrepIncomingArgsSysv (ffiPrepCifMachdep abi rtype ts) stack resp m) := by
  unfold ffiPrepIncomingArgsSysv
  unfold items at h
  cases hhidden : (ffiPrepCifMachdep abi rtype ts).hidden with
  | true =>
    rw [hhidden, if_pos rfl] at h
    rw [if_pos rfl]
    obtain ⟨hresult, hargs⟩ := h
    have hword : stack + roundUp 4 4 = roundUp (stack + 4) 4 := by
      unfold roundUp
      omega
    refine ⟨fun _ => ?_, incomingArgs_sees hlen (hword ▸ hargs)⟩
    show addressOf ((m.at_ stack).extend 4) = rvalue
    rw [addressOf_eq_iff (Nat.lt_trans hrvalue (by decide))]
    intro k hk
    by_cases hlow : k < 4
    · rw [Area.extend_of_lt hlow]
      exact hresult k hlow
    · -- an address has four bytes
      have hzero : rvalue / 256 ^ k = 0 := by
        refine Nat.div_eq_of_lt (Nat.lt_of_lt_of_le hrvalue ?_)
        have hword : 2 ^ 32 ≤ 256 ^ 4 := by decide
        exact Nat.le_trans hword (Nat.pow_le_pow_right (by decide) (by omega))
      unfold Area.extend addressBytes
      rw [if_neg hlow, hzero]
      rfl
  | false =>
    rw [hhidden, if_neg Bool.false_ne_true] at h
    rw [if_neg Bool.false_ne_true]
    refine ⟨fun htrue => ?_, incomingArgs_sees hlen ?_⟩
    · rw [hhidden] at htrue
      cases htrue
    · rw [roundUp_eq halign]
      exact h

end found

theorem dvd_closureArgs {f : Functions} {abi : Abi} {bytes base a : Word} {code : List Byte}
    (ha : 4 ∣ a.toNat) (hcode : ffiPrepClosureLoc f abi bytes base = some code) :
    4 ∣ (closureArgs abi (a - abi.depth)).toNat := by
  have habove : 4 ∣ (a + 4).toNat := dvd_toNat ha rfl (by decide)
  cases abi with
  | fastcall => cases hcode
  | sysv =>
    rw [show closureArgs .sysv (a - Abi.sysv.depth) = a + 4 from closureArgs_zero]
    exact habove
  | msCdecl =>
    rw [show closureArgs .msCdecl (a - Abi.msCdecl.depth) = a + 4 from closureArgs_zero]
    exact habove
  | stdcall =>
    rw [closureArgs_stdcall]
    exact habove
  | thiscall =>
    rw [closureArgs_thiscall]
    exact dvd_toNat ha (BitVec.sub_eq_add_neg a 8) (by decide)

section finds

variable {f : Functions} {abi : Abi} {rtype : FfiType} {ts : List FfiType} {base : Word}
  {code : List Byte} {s s' : State} {rvalue : Nat} {avalue : List Nat} {m₀ : Area} {is : List Item}

theorem Entered.laid {bytes : Word} (h : Entered f abi bytes base code s s')
    (hbytes : bytes.toNat + 16 < 2 ^ 32) (hshort : abi = .thiscall → bytes.toNat < 2 ^ 16) (hfits : Fits is) (htotal : total is ≤ bytes.toNat)
    (hconforms : Conforms abi.registers is (entry s))
    (hcode : ffiPrepClosureLoc f abi bytes base = some code)
    (hthis : abi = .thiscall → ∃ i is', is = i :: is' ∧ i.register = true) :
    Laid (area s'.memory) (closureArgs abi s'.esp).toNat is := by
  have hstack := hconforms.stack
  have hwords : ∀ k, area s.memory (s.esp.toNat + 4 + k) =
      s.memory (s.esp + 4 + BitVec.ofNat 32 k) := by
    intro k
    rw [Nat.add_assoc, area_add, BitVec.ofNat_add, ← BitVec.add_assoc]
    rfl
  rw [h.memory, h.esp]
  -- without a register, all words are where the caller has put them
  have hplain : abi.registers = 0 → closureArgs abi (s.esp - abi.depth) = s.esp + 4 →
      (∀ k < total is, stubMemory abi bytes base s (s.esp + 4 + BitVec.ofNat 32 k) =
        s.memory (s.esp + 4 + BitVec.ofNat 32 k)) →
      Laid (area (stubMemory abi bytes base s)) (closureArgs abi (s.esp - abi.depth)).toNat is := by
    intro hzero hargs hsame
    rw [hzero, onStack_zero] at hstack
    refine hstack.transport fun k hk => ?_
    rw [hargs, area_add, hsame k hk]
    exact (hwords k).symm
  cases abi with
  | fastcall => cases hcode
  | sysv =>
    exact hplain rfl closureArgs_zero fun k hk => rfl
  | msCdecl =>
    exact hplain rfl closureArgs_zero fun k hk => rfl
  | stdcall =>
    exact hplain rfl closureArgs_stdcall fun k hk => stubMemory_stdcall (by omega)
  | thiscall =>
    obtain ⟨i, is', rfl, hreg⟩ := hthis rfl
    obtain ⟨hpos, hle⟩ := hfits i List.mem_cons_self
    have hsize := roundUp_four hpos (hle hreg)
    have htotal' : 4 + total is' ≤ bytes.toNat := by
      rw [← hsize]
      exact htotal
    have hin : inRegisters Abi.thiscall.registers (i :: is') = [i] := (if_pos hreg).trans
      (congrArg (i :: ·) inRegisters_zero)
    have hon : onStack Abi.thiscall.registers (i :: is') = is' := (if_pos hreg).trans onStack_zero
    have hecx := hconforms.ecx i (by rw [hin]; rfl)
    rw [hon] at hstack
    have hshort := hshort rfl
    rw [closureArgs_thiscall]
    refine ⟨fun k hk => ?_, ?_⟩
    · rw [area_add, stubMemory_this (by omega) (Nat.lt_of_lt_of_le hk (hle hreg))]
      exact hecx k hk
    · rw [hsize]
      refine hstack.transport fun k hk => ?_
      rw [Nat.add_assoc, area_add, stubMemory_words (by omega) (by omega)]
      exact (hwords k).symm

theorem movable (hts : ∀ t ∈ ts, Proper t) (hlen : avalue.length = ts.length)
    (hbytes : stackBytes rtype ts < 2 ^ 16)
    (hthis : ∃ i is,
      items (ffiPrepCifMachdep abi rtype ts) rvalue avalue m₀ = i :: is ∧ i.register = true) :
    Movable (ffiPrepCifMachdep abi rtype ts).bytes := by
  have hnat : (ffiPrepCifMachdep abi rtype ts).bytes.toNat = stackBytes rtype ts :=
    cif_bytes hts (by omega)
  have hfits : Fits (items (ffiPrepCifMachdep abi rtype ts) rvalue avalue m₀) := items_fits hts
  have htotal : total (items (ffiPrepCifMachdep abi rtype ts) rvalue avalue m₀) ≤
      stackBytes rtype ts := total_items_le hts hlen
  obtain ⟨i, is, his, -⟩ := hthis
  rw [his] at hfits htotal
  have hpos := (hfits i List.mem_cons_self).1
  have hup := le_roundUp_four i.size
  have hsum : total (i :: is) = roundUp i.size 4 + total is := rfl
  refine ⟨?_, by omega, by omega⟩
  rw [hnat]
  exact dvd_stackBytes hts

/-- **A closure finds its parameters** when it is called by its convention: the processor gets from
the code that `ffi_prep_closure_loc` has written to the function for the convention, which is given
them in their order. -/
theorem closure_finds (hts : ∀ t ∈ ts, Proper t) (hlen : avalue.length = ts.length)
    (hrvalue : rvalue < 2 ^ 32) (hbytes : abi = .thiscall → stackBytes rtype ts < 2 ^ 16)
    (hcode : ffiPrepClosureLoc f abi (ffiPrepCifMachdep abi rtype ts).bytes base = some code)
    (hat : CodeAt s.memory base code) (heip : s.eip = base) (halign : 4 ∣ s.esp.toNat)
    (hapart : Apart base code.length (s.esp - 16) (16 + stackBytes rtype ts))
    (hconforms : Conforms abi.registers (items (ffiPrepCifMachdep abi rtype ts) rvalue avalue m₀)
      (entry s))
    (hthis : abi = .thiscall → ∃ i is,
      items (ffiPrepCifMachdep abi rtype ts) rvalue avalue m₀ = i :: is ∧ i.register = true)
    (resp : Nat) :
    ∃ s', s.Reaches s' ∧ s'.eip = f.function abi ∧ s'.eax = base ∧
      Found (ffiPrepCifMachdep abi rtype ts) rvalue avalue m₀ (area s'.memory)
        (ffiPrepIncomingArgsSysv (ffiPrepCifMachdep abi rtype ts) (closureArgs abi s'.esp).toNat resp
          (area s'.memory)) := by
  have hwrap := hapart.lt (code_pos hcode)
  have hnat : (ffiPrepCifMachdep abi rtype ts).bytes.toNat = stackBytes rtype ts :=
    cif_bytes hts (by omega)
  have htotal : total (items (ffiPrepCifMachdep abi rtype ts) rvalue avalue m₀) ≤
      (ffiPrepCifMachdep abi rtype ts).bytes.toNat := by
    rw [hnat]
    exact total_items_le hts hlen
  obtain ⟨s', hs'⟩ := stub_enters hcode hat heip
    (fun habi => movable hts hlen (hbytes habi) (hthis habi)) (hnat.symm ▸ hapart)
  rw [← hnat] at hbytes hwrap
  refine ⟨s', hs'.reaches, hs'.eip, hs'.eax, ffiPrepIncomingArgsSysv_found hlen hrvalue ?_ resp
    (hs'.laid (by omega) hbytes (items_fits hts) htotal hconforms hcode hthis)⟩
  rw [hs'.esp]
  exact dvd_closureArgs halign hcode

end finds

/-! ### The way back -/

/-- What the last instruction of the function of a stub pops, by the flags: `cs_retstruct` is there
for `ffi_closure_SYSV` and `ffi_closure_THISCALL`. -/
def popped (abi : Abi) (flags : BitVec 32) : BitVec 16 :=
  match abi with
  | .stdcall => 0
  | _ => if flags = 13 then 4 else 0

/-- The function returns, and so does the stub if it has called the function. -/
def closureReturns (abi : Abi) (flags : BitVec 32) (s : State) : Option State :=
  let s := s.exec s.eip (.ret (popped abi flags))
  match abi with
  | .stdcall | .thiscall => s.step
  | _ => some s

/-- What a function pops by its convention, besides the return address. -/
def pops (abi : Abi) (rtype : FfiType) (is : List Item) : Nat :=
  match abi with
  | .sysv => if inMemory rtype then 4 else 0
  | .msCdecl => 0
  | _ => total (onStack abi.registers is)

/-- What was called at `s` has returned to its caller by the convention. -/
def Returned (abi : Abi) (rtype : FfiType) (is : List Item) (s t : State) : Prop :=
  t.eip = s.memory.word s.esp ∧ t.esp = s.esp + 4 + BitVec.ofNat 32 (pops abi rtype is)

/-- The function of the stub, entered at `s`, has come to its end at `r`. -/
structure Kept (abi : Abi) (base : Word) (code : List Byte) (s r : State) : Prop where
  esp : r.esp = s.esp
  code : CodeAt r.memory base code
  back : r.memory.word s.esp = s.memory.word s.esp
  caller : abi = .stdcall ∨ abi = .thiscall →
    r.memory.word (s.esp + 4) = s.memory.word (s.esp + 4)

section returns

variable {f : Functions} {bytes base : Word} {code : List Byte} {s s' r : State}

theorem word_above {m : Memory} {a w : Word} {d : Nat} (hlow : 4 ≤ d) (hhigh : d + 4 < 2 ^ 32) :
    (m.writeWord a w).word (a + BitVec.ofNat 32 d) = m.word (a + BitVec.ofNat 32 d) := by
  refine Memory.word_congr fun k hk => ?_
  have hplace : a + BitVec.ofNat 32 d + k = a + BitVec.ofNat 32 (d + k.toNat) := by bv_omega
  rw [hplace]
  exact writeWord_above (by omega) (by bv_omega)

theorem stdcall_returned (hcode : ffiPrepClosureLoc f .stdcall bytes base = some code)
    (hs' : Entered f .stdcall bytes base code s s') (hr : Kept .stdcall base code s' r)
    (flags : BitVec 32) (hbytes : bytes.toNat < 2 ^ 16) :
    ∃ t, closureReturns .stdcall flags r = some t ∧ t.eip = s.memory.word s.esp ∧
      t.esp = s.esp + 4 + bytes := by
  obtain rfl := Option.some.inj hcode
  have hcode' := hr.code
  rw [trampolineStdcall_listing] at hcode'
  have hmemory : s'.memory = s.memory.writeWord (s.esp - 4) (base + 10) := hs'.memory
  have hesp : s'.esp = s.esp - 4 := hs'.esp
  have hback : r.memory.word r.esp = base + 10 := by
    rw [hr.esp, hr.back, hmemory, hesp]
    exact Memory.word_writeWord
  have hcaller : r.memory.word (s'.esp + 4) = s.memory.word s.esp := by
    have hplace : s.esp - 4 + BitVec.ofNat 32 4 = s.esp := by bv_omega
    have hword := word_above (m := s.memory) (a := s.esp - 4) (w := base + 10) (Nat.le_refl 4)
      (by decide)
    rw [hplace] at hword
    rw [hr.caller (.inl rfl), hmemory, hesp]
    exact (congrArg _ hplace).trans hword
  have hshort : ((toShort bytes).setWidth 16).setWidth 32 = bytes := by
    rw [toShort_eq hbytes]
    bv_omega
  have hreturns := stdcall_returns (s := r.exec r.eip (.ret 0)) hcode' hback
  have htop : (r.exec r.eip (.ret 0)).esp = s'.esp + 4 := by
    show r.esp + 4 + 0 = s'.esp + 4
    rw [hr.esp]
    bv_omega
  refine ⟨_, hreturns, ?_, ?_⟩
  · show r.memory.word (r.exec r.eip (.ret 0)).esp = s.memory.word s.esp
    rw [htop]
    exact hcaller
  · show (r.exec r.eip (.ret 0)).esp + 4 + ((toShort bytes).setWidth 16).setWidth 32 = _
    rw [htop, hesp, hshort]
    bv_omega

theorem thiscall_caller (hbytes : bytes.toNat + 8 < 2 ^ 16) :
    ((moved (pushed s) (s.esp - 4) (bytes.toNat - 4)).writeWord (s.esp - 16) (base + 49)).word
      (s.esp - 12) = s.memory.word s.esp := by
  have hplace : s.esp - 16 + BitVec.ofNat 32 4 = s.esp - 12 := by bv_omega
  have hword := word_above (m := moved (pushed s) (s.esp - 4) (bytes.toNat - 4)) (a := s.esp - 16)
    (w := base + 49) (Nat.le_refl 4) (by decide)
  rw [hplace] at hword
  rw [hword]
  have hmoved : (moved (pushed s) (s.esp - 4) (bytes.toNat - 4)).word (s.esp - 12) =
      (pushed s).word (s.esp - 12) := by
    refine Memory.word_congr fun k hk => if_neg ?_
    bv_omega
  rw [hmoved]
  exact Memory.word_writeWord

theorem thiscall_returned (hcode : ffiPrepClosureLoc f .thiscall bytes base = some code)
    (hs' : Entered f .thiscall bytes base code s s') (hr : Kept .thiscall base code s' r)
    (flags : BitVec 32) (hbytes : bytes.toNat + 8 < 2 ^ 16) :
    ∃ t, closureReturns .thiscall flags r = some t ∧
      (flags ≠ 13 → t.eip = s.memory.word s.esp ∧ t.esp = s.esp + bytes) ∧
        (flags = 13 → t.esp = s.esp + bytes + 4) := by
  obtain rfl := Option.some.inj hcode
  have hcode' := hr.code
  rw [trampolineThiscall_listing] at hcode'
  have hmemory : s'.memory = (moved (pushed s) (s.esp - 4) (bytes.toNat - 4)).writeWord (s.esp - 16)
    (base + 49) := hs'.memory
  have hesp : s'.esp = s.esp - 16 := hs'.esp
  have hback : r.memory.word r.esp = base + 49 := by
    rw [hr.esp, hr.back, hmemory, hesp]
    exact Memory.word_writeWord
  have hcaller : r.memory.word (s'.esp + 4) = s.memory.word s.esp := by
    have hplace : s.esp - 16 + 4 = s.esp - 12 := by bv_omega
    rw [hr.caller (.inr rfl), hmemory, hesp, hplace]
    exact thiscall_caller hbytes
  have hshort : ((toShort bytes + 8).setWidth 16).setWidth 32 = bytes + 8 := by
    rw [toShort_eq (by omega)]
    bv_omega
  have hreturns : ∀ p, (r.exec r.eip (.ret p)).step = _ := fun p =>
    thiscall_returns (s := r.exec r.eip (.ret p)) hcode' hback
  have htop : ∀ p, (r.exec r.eip (.ret p)).esp = s.esp - 12 + p.setWidth 32 := by
    intro p
    show r.esp + 4 + p.setWidth 32 = _
    rw [hr.esp, hesp]
    bv_omega
  refine ⟨_, hreturns (popped .thiscall flags), fun hne => ⟨?_, ?_⟩, fun heq => ?_⟩
  · have hpopped : popped .thiscall flags = 0 := if_neg hne
    show r.memory.word (r.exec r.eip (.ret (popped .thiscall flags))).esp = s.memory.word s.esp
    rw [htop, hpopped, ← hcaller, hesp]
    exact congrArg _ (show s.esp - 12 + 0 = s.esp - 16 + 4 by bv_omega)
  · have hpopped : popped .thiscall flags = 0 := if_neg hne
    show (r.exec r.eip (.ret (popped .thiscall flags))).esp + 4 +
      ((toShort bytes + 8).setWidth 16).setWidth 32 = _
    rw [htop, hpopped, hshort]
    show s.esp - 12 + 0 + 4 + (bytes + 8) = s.esp + bytes
    bv_omega
  · have hpopped : popped .thiscall flags = 4 := if_pos heq
    show (r.exec r.eip (.ret (popped .thiscall flags))).esp + 4 +
      ((toShort bytes + 8).setWidth 16).setWidth 32 = _
    rw [htop, hpopped, hshort]
    show s.esp - 12 + 4 + 4 + (bytes + 8) = s.esp + bytes + 4
    bv_omega

theorem add_eq_iff {a b : Word} {n : Nat} (hn : n < 2 ^ 32) :
    a + b = a + BitVec.ofNat 32 n ↔ b.toNat = n := by
  constructor
  · intro h
    bv_omega
  · intro h
    bv_omega

variable {rtype : FfiType} {is : List Item}

theorem jumped_returned {abi : Abi} {p : BitVec 16} (hesp : s'.esp = s.esp)
    (hmemory : s'.memory = s.memory) (hr : Kept abi base code s' r)
    (hpops : p.setWidth 32 = BitVec.ofNat 32 (pops abi rtype is)) :
    Returned abi rtype is s (r.exec r.eip (.ret p)) := by
  constructor
  · show r.memory.word r.esp = _
    rw [hr.esp, hr.back, hmemory, hesp]
  · show r.esp + 4 + p.setWidth 32 = _
    rw [hr.esp, hesp, hpops]

theorem popped_sysv :
    popped .sysv (prepFlags .sysv rtype) = if inMemory rtype then 4 else 0 := by
  cases hmem : inMemory rtype with
  | true => exact if_pos (prepFlags_memory hmem)
  | false => exact if_neg (prepFlags_register hmem).1

theorem popped_msCdecl : popped .msCdecl (prepFlags .msCdecl rtype) = 0 := by
  refine if_neg ?_
  cases hmem : inMemory rtype with
  | true =>
    rw [prepFlags_memory hmem]
    decide
  | false => exact (prepFlags_register hmem).1

theorem stdcall_returned_iff (hcode : ffiPrepClosureLoc f .stdcall bytes base = some code)
    (hs' : Entered f .stdcall bytes base code s s') (hr : Kept .stdcall base code s' r)
    (hbytes : bytes.toNat < 2 ^ 16) (htotal : total is ≤ bytes.toNat) :
    ∃ t, closureReturns .stdcall (prepFlags .stdcall rtype) r = some t ∧
      (Returned .stdcall rtype is s t ↔ bytes.toNat = total is) := by
  obtain ⟨t, hreturns, heip, hesp⟩ := stdcall_returned hcode hs' hr (prepFlags .stdcall rtype) hbytes
  have hpops : pops .stdcall rtype is = total is := congrArg total onStack_zero
  refine ⟨t, hreturns, ?_⟩
  unfold Returned
  rw [hesp, hpops, add_eq_iff (by omega)]
  exact ⟨fun h => h.2, fun h => ⟨heip, h⟩⟩

theorem thiscall_returned_iff (hcode : ffiPrepClosureLoc f .thiscall bytes base = some code)
    (hs' : Entered f .thiscall bytes base code s s') (hr : Kept .thiscall base code s' r)
    (hbytes : bytes.toNat + 8 < 2 ^ 16) (hfits : Fits is) (htotal : total is ≤ bytes.toNat)
    (hthis : ∃ i is', is = i :: is' ∧ i.register = true) :
    ∃ t, closureReturns .thiscall (prepFlags .thiscall rtype) r = some t ∧
      (Returned .thiscall rtype is s t ↔ bytes.toNat = total is ∧ inMemory rtype = false) := by
  obtain ⟨t, hreturns, hscalar, hmemory⟩ := thiscall_returned hcode hs' hr
    (prepFlags .thiscall rtype) hbytes
  refine ⟨t, hreturns, ?_⟩
  obtain ⟨i, is', rfl, hreg⟩ := hthis
  obtain ⟨hpos, hle⟩ := hfits i List.mem_cons_self
  have hsum : total (i :: is') = 4 + total is' :=
    congrArg (· + total is') (roundUp_four hpos (hle hreg))
  have hpops : pops .thiscall rtype (i :: is') = total is' :=
    congrArg total ((if_pos hreg).trans onStack_zero)
  unfold Returned
  rw [hpops]
  cases hmem : inMemory rtype with
  | true =>
    refine iff_of_false (fun h => ?_) fun h => Bool.false_ne_true h.2.symm
    -- four bytes more are off the stack than there have been
    have hesp := hmemory (prepFlags_memory hmem)
    have heq : s.esp + (bytes + 4) = s.esp + BitVec.ofNat 32 (4 + total is') := by
      rw [← BitVec.add_assoc, ← hesp, h.2, BitVec.ofNat_add, ← BitVec.add_assoc]
      rfl
    rw [add_eq_iff (by omega)] at heq
    have hmore : (bytes + 4).toNat = bytes.toNat + 4 := by bv_omega
    omega
  | false =>
    obtain ⟨heip, hesp⟩ := hscalar (prepFlags_register hmem).1
    have hfour : s.esp + 4 + BitVec.ofNat 32 (total is') =
        s.esp + BitVec.ofNat 32 (total (i :: is')) := by
      rw [hsum, BitVec.ofNat_add, ← BitVec.add_assoc]
      rfl
    rw [hesp, hfour, add_eq_iff (by omega)]
    exact ⟨fun h => ⟨h.2, rfl⟩, fun h => ⟨heip, h.1⟩⟩

end returns

section convention

variable {f : Functions} {abi : Abi} {rtype : FfiType} {ts : List FfiType} {base : Word}
  {code : List Byte} {s : State} {rvalue : Nat} {avalue : List Nat} {m₀ : Area}

/-- **A closure returns by its convention** if no parameter is padded, and, for `this` calls, the
result is not in memory: the stub takes `cif->bytes` off the stack, which counts the padding, and its
function returns as if the address of the result were on top. -/
theorem closure_returns_iff (hts : ∀ t ∈ ts, Proper t) (hlen : avalue.length = ts.length)
    (hbytes : stackBytes rtype ts + 8 < 2 ^ 16)
    (hcode : ffiPrepClosureLoc f abi (ffiPrepCifMachdep abi rtype ts).bytes base = some code)
    (hat : CodeAt s.memory base code) (heip : s.eip = base)
    (hapart : Apart base code.length (s.esp - 16) (16 + stackBytes rtype ts))
    (hthis : abi = .thiscall → ∃ i is,
      items (ffiPrepCifMachdep abi rtype ts) rvalue avalue m₀ = i :: is ∧ i.register = true) :
    ∃ s', s.Reaches s' ∧ s'.eip = f.function abi ∧ Kept abi base code s' s' ∧
      ∀ r, Kept abi base code s' r →
        ∃ t, closureReturns abi (ffiPrepCifMachdep abi rtype ts).flags r = some t ∧
          (Returned abi rtype (items (ffiPrepCifMachdep abi rtype ts) rvalue avalue m₀) s t ↔
            (abi = .stdcall ∨ abi = .thiscall → Dense 4 ts (if inMemory rtype then 4 else 0)) ∧
              (abi = .thiscall → inMemory rtype = false)) := by
  have hnat : (ffiPrepCifMachdep abi rtype ts).bytes.toNat = stackBytes rtype ts :=
    cif_bytes hts (by omega)
  obtain ⟨is, his⟩ : ∃ is, is = items (ffiPrepCifMachdep abi rtype ts) rvalue avalue m₀ := ⟨_, rfl⟩
  have hdense : stackBytes rtype ts = total is ↔ Dense 4 ts (if inMemory rtype then 4 else 0) := by
    rw [his, total_items hlen]
    exact bytesFrom_eq_iff fun t ht => (hts t ht).alignment
  have htotal : total is ≤ stackBytes rtype ts := by
    rw [his]
    exact total_items_le hts hlen
  have hfits : Fits is := his ▸ items_fits hts
  obtain ⟨s', hs'⟩ := stub_enters hcode hat heip
    (fun habi => movable hts hlen (by omega) (hthis habi)) (hnat.symm ▸ hapart)
  have hflags : (ffiPrepCifMachdep abi rtype ts).flags = prepFlags abi rtype := rfl
  rw [← his] at hthis ⊢
  rw [← hnat] at hbytes htotal hdense
  rw [hflags]
  refine ⟨s', hs'.reaches, hs'.eip, ⟨rfl, hs'.code, rfl, fun _ => rfl⟩, fun r hr => ?_⟩
  cases abi with
  | fastcall => cases hcode
  | sysv =>
    refine ⟨_, rfl, iff_of_true (jumped_returned (hs'.esp.trans (BitVec.sub_zero _)) hs'.memory hr ?_)
      ⟨fun h => h.elim Abi.noConfusion Abi.noConfusion, Abi.noConfusion⟩⟩
    rw [popped_sysv]
    show _ = BitVec.ofNat 32 (if inMemory rtype then 4 else 0)
    cases inMemory rtype <;> rfl
  | msCdecl =>
    refine ⟨_, rfl, iff_of_true (jumped_returned (hs'.esp.trans (BitVec.sub_zero _)) hs'.memory hr ?_)
      ⟨fun h => h.elim Abi.noConfusion Abi.noConfusion, Abi.noConfusion⟩⟩
    rw [popped_msCdecl]
    rfl
  | stdcall =>
    obtain ⟨t, hreturns, hiff⟩ := stdcall_returned_iff hcode hs' hr (by omega) htotal
    refine ⟨t, hreturns, ?_⟩
    rw [hiff, hdense]
    exact ⟨fun h => ⟨fun _ => h, Abi.noConfusion⟩, fun h => h.1 (.inl rfl)⟩
  | thiscall =>
    obtain ⟨t, hreturns, hiff⟩ := thiscall_returned_iff hcode hs' hr hbytes hfits htotal (hthis rfl)
    refine ⟨t, hreturns, ?_⟩
    rw [hiff, hdense]
    exact ⟨fun h => ⟨fun _ => h.1, fun _ => h.2⟩, fun h => ⟨h.1 (.inr rfl), h.2 rfl⟩⟩

end convention

/-! ### Methods with a second parameter -/

/-- Memory with a program; elsewhere each byte is the last one of its address. -/
def loaded (base : Word) (code : List Byte) : Memory := fun a =>
  code.getD (a - base).toNat (a.setWidth 8)

theorem codeAt_loaded {base : Word} {code : List Byte} (hlen : code.length < 2 ^ 32) :
    CodeAt (loaded base code) base code := by
  intro k b hb
  have hk := (List.getElem?_eq_some_iff.mp hb).1
  have hsub : (base + BitVec.ofNat 32 k - base).toNat = k := by bv_omega
  unfold loaded
  rw [hsub, List.getD_eq_getElem?_getD, hb]
  rfl

theorem loaded_apart {base a : Word} {code : List Byte} (h : code.length ≤ (a - base).toNat) :
    loaded base code a = a.setWidth 8 := by
  unfold loaded
  rw [List.getD_eq_getElem?_getD, List.getElem?_eq_none h]
  rfl

/-- `int (this, t)`. -/
def method (t : FfiType) : List FfiType := [ffiTypeSint32, t]

def methodCif (t : FfiType) : Cif := ffiPrepCifMachdep .thiscall ffiTypeSint32 (method t)

def methodItems (t : FfiType) : List Item := items (methodCif t) 0 [4096, 4100] Area.numbered

def methodCode (t : FfiType) : List Byte :=
  (listingThiscall 65536 (4096 - (65536 + 49)) (toShort (methodCif t).bytes)).flatten

/-- A call of it: what was at 4096 is in the register, what was at 4100 on the stack. -/
def methodCall (t : FfiType) : State :=
  ⟨0, 0x03020100, 0, 0, 32768, 0, 0, 0, 65536, false, loaded 65536 (methodCode t)⟩

theorem method_items (t : FfiType) : methodItems t =
    [⟨4, true, Area.numbered.at_ 4096⟩, ⟨t.size.toNat, fitsRegister t, Area.numbered.at_ 4100⟩] :=
  rfl

theorem method_this (t : FfiType) : ∃ i is, methodItems t = i :: is ∧ i.register = true :=
  ⟨_, _, method_items t, rfl⟩

theorem method_length (t : FfiType) : (methodCode t).length = 52 := rfl

theorem method_code (t : FfiType) : ffiPrepClosureLoc ⟨0, 0, 4096⟩ .thiscall (methodCif t).bytes
    65536 = some (methodCode t) :=
  congrArg some (trampolineThiscall_listing _ _ _)

theorem method_apart {t : FfiType} (hbytes : stackBytes ffiTypeSint32 (method t) ≤ 16) :
    Apart 65536 (methodCode t).length ((methodCall t).esp - 16)
      (16 + stackBytes ffiTypeSint32 (method t)) := by
  rw [method_length]
  intro k hk
  show 16 + stackBytes ffiTypeSint32 (method t) ≤
    (65536 + BitVec.ofNat 32 k - (32768 - 16 : Word)).toNat
  bv_omega

theorem method_conforms {t : FfiType} (hsize : t.size.toNat ≤ 8) :
    Conforms 1 (methodItems t) (entry (methodCall t)) := by
  rw [method_items]
  refine ⟨fun i hi k hk => ?_, fun i hi => ?_, fun k hk => ?_, trivial⟩
  · obtain rfl := Option.some.inj hi
    have hk' : k < 4 := hk
    show byte 0x03020100 k = BitVec.ofNat 8 (4096 + k)
    rcases (by omega : k = 0 ∨ k = 1 ∨ k = 2 ∨ k = 3) with rfl | rfl | rfl | rfl <;> decide
  · cases hi
  · have hk' : k < 8 := Nat.lt_of_lt_of_le hk hsize
    show loaded 65536 (methodCode t) (BitVec.ofNat 32 (32772 + k)) = BitVec.ofNat 8 (4100 + k)
    rw [loaded_apart (by rw [method_length]; bv_omega)]
    bv_omega

theorem proper_method {t : FfiType} (ht : Proper t) : ∀ u ∈ method t, Proper u := by
  unfold method
  simp only [List.forall_mem_cons]
  exact ⟨proper_int, ht, List.forall_mem_nil _⟩

theorem closure_finds_method :
    ∃ s', (methodCall ffiTypeDouble).Reaches s' ∧ s'.eip = 4096 ∧ s'.eax = 65536 ∧
      Found (methodCif ffiTypeDouble) 0 [4096, 4100] Area.numbered (area s'.memory)
        (ffiPrepIncomingArgsSysv (methodCif ffiTypeDouble) (closureArgs .thiscall s'.esp).toNat 0
          (area s'.memory)) :=
  closure_finds (proper_method proper_double) rfl (by decide) (by decide)
    (method_code ffiTypeDouble) (codeAt_loaded (by rw [method_length]; decide)) rfl (by decide)
    (method_apart (by decide)) (method_conforms (by decide)) (fun _ => method_this ffiTypeDouble) 0

theorem closure_returns_method :
    (∃ s', (methodCall ffiTypeSint32).Reaches s' ∧ s'.eip = 4096 ∧
      Kept .thiscall 65536 (methodCode ffiTypeSint32) s' s' ∧
      ∀ r, Kept .thiscall 65536 (methodCode ffiTypeSint32) s' r →
        ∃ t, closureReturns .thiscall (methodCif ffiTypeSint32).flags r = some t ∧
          Returned .thiscall ffiTypeSint32 (methodItems ffiTypeSint32) (methodCall ffiTypeSint32)
            t) ∧
      ∃ s', (methodCall ffiTypeDouble).Reaches s' ∧ s'.eip = 4096 ∧
        Kept .thiscall 65536 (methodCode ffiTypeDouble) s' s' ∧
        ∀ r, Kept .thiscall 65536 (methodCode ffiTypeDouble) s' r →
          ∃ t, closureReturns .thiscall (methodCif ffiTypeDouble).flags r = some t ∧
            ¬ Returned .thiscall ffiTypeSint32 (methodItems ffiTypeDouble)
              (methodCall ffiTypeDouble) t := by
  have hreturns {t : FfiType} (ht : Proper t)
      (hbytes : stackBytes ffiTypeSint32 (method t) ≤ 16) :=
    closure_returns_iff (proper_method ht) (show [4096, 4100].length = (method t).length from rfl)
      (Nat.lt_of_le_of_lt (Nat.add_le_add_right hbytes 8) (by decide)) (method_code t)
      (codeAt_loaded (by rw [method_length]; decide)) rfl (method_apart hbytes)
      fun _ => method_this t
  constructor
  · obtain ⟨s', hreaches, heip, hkept, hall⟩ := hreturns proper_int (by decide)
    refine ⟨s', hreaches, heip, hkept, fun r hr => ?_⟩
    obtain ⟨t, ht, hiff⟩ := hall r hr
    exact ⟨t, ht, hiff.mpr ⟨fun _ => ⟨by decide, by decide, trivial⟩, fun _ => rfl⟩⟩
  · -- the `double` is padded
    obtain ⟨s', hreaches, heip, hkept, hall⟩ := hreturns proper_double (by decide)
    refine ⟨s', hreaches, heip, hkept, fun r hr => ?_⟩
    obtain ⟨t, ht, hiff⟩ := hall r hr
    refine ⟨t, ht, fun h => ?_⟩
    have hpadded : ¬ 8 ∣ 4 := by decide
    exact hpadded ((hiff.mp h).1 (.inr rfl)).2.1

end NodeFfi.Ia32
