import NodeFfi.Ia32.Model
import NodeFfi.X86.Machine

/-!
# The code that closures are made of

`ffi_prep_closure_loc` for `X86_WIN32` writes machine code, by one of three macros. The code is at the
address of its closure, so that `ctx` is both what it loads into `eax` and where its jump is relative
to. The stub for `this` calls moves the words on the stack down by two, to put the register in front of
them (`thiscall_enters`); all three get to their function with the closure in `eax`.
-/

namespace NodeFfi.Ia32

open Bytes X86

/-! ### `ffi_prep_closure_loc` -/

/-- An `unsigned short`. -/
def short (w : Word) : List Byte := [byte w 0, byte w 1]

/-- What `FFI_INIT_TRAMPOLINE` writes. -/
def trampoline (ctx dis : Word) : List Byte :=
  [0xb8] ++ littleEndian ctx ++ [0xe9] ++ littleEndian dis

/-- What `FFI_INIT_TRAMPOLINE_THISCALL` writes, from the first of its stores to the last. -/
def trampolineThiscall (ctx dis size : Word) : List Byte :=
  littleEndian 0x8324048b ++ littleEndian 0x4c890cec ++ littleEndian 0x04890424 ++ [0x24] ++
    [0xb8] ++ littleEndian size ++ littleEndian 0x08244c8d ++ littleEndian 0x4802e8c1 ++
    short 0x0b74 ++ littleEndian 0x8908518b ++ littleEndian 0x04c18311 ++ [0x48] ++ short 0xf575 ++
    [0xb8] ++ littleEndian ctx ++ [0xe8] ++ littleEndian dis ++ [0xc2] ++ short (size + 8)

/-- What `FFI_INIT_TRAMPOLINE_STDCALL` writes. -/
def trampolineStdcall (ctx dis size : Word) : List Byte :=
  [0xb8] ++ littleEndian ctx ++ [0xe8] ++ littleEndian dis ++ [0xc2] ++ short size

/-- `(unsigned short)(SIZE)`. -/
def toShort (size : Word) : Word := (size.setWidth 16).setWidth 32

/-- The addresses of `ffi_closure_SYSV`, `ffi_closure_STDCALL` and `ffi_closure_THISCALL`. -/
structure Functions where
  closureSysv : Word
  closureStdcall : Word
  closureThiscall : Word

def Functions.function (f : Functions) : Abi → Word
  | .stdcall => f.closureStdcall
  | .thiscall => f.closureThiscall
  | _ => f.closureSysv

/-- `ffi_prep_closure_loc`: the code for the address `codeloc`, if there is one for the ABI. -/
def ffiPrepClosureLoc (f : Functions) (abi : Abi) (bytes codeloc : Word) : Option (List Byte) :=
  match abi with
  | .sysv | .msCdecl => some (trampoline codeloc (f.closureSysv - (codeloc + 10)))
  | .thiscall =>
    some (trampolineThiscall codeloc (f.closureThiscall - (codeloc + 49)) (toShort bytes))
  | .stdcall => some (trampolineStdcall codeloc (f.closureStdcall - (codeloc + 10)) (toShort bytes))
  | .fastcall => none

/-! ### The listings -/

def listing (ctx dis : Word) : List (List Byte) :=
  [0xb8 :: littleEndian ctx,  -- mov eax, ctx
   0xe9 :: littleEndian dis]  -- jmp fun

def listingStdcall (ctx dis size : Word) : List (List Byte) :=
  [0xb8 :: littleEndian ctx,  -- mov eax, ctx
   0xe8 :: littleEndian dis,  -- call fun
   0xc2 :: short size]        -- ret size

def listingThiscall (ctx dis size : Word) : List (List Byte) :=
  [[0x8b, 0x04, 0x24],        --  0: mov eax, [esp]
   [0x83, 0xec, 0x0c],        --  3: sub esp, 12
   [0x89, 0x4c, 0x24, 0x04],  --  6: mov [esp + 4], ecx
   [0x89, 0x04, 0x24],        -- 10: mov [esp], eax
   0xb8 :: littleEndian size, -- 13: mov eax, size
   [0x8d, 0x4c, 0x24, 0x08],  -- 18: lea ecx, [esp + 8]
   [0xc1, 0xe8, 0x02],        -- 22: shr eax, 2
   [0x48],                    -- 25: dec eax
   [0x74, 0x0b],              -- 26: jz 39
   [0x8b, 0x51, 0x08],        -- 28: mov edx, [ecx + 8]
   [0x89, 0x11],              -- 31: mov [ecx], edx
   [0x83, 0xc1, 0x04],        -- 33: add ecx, 4
   [0x48],                    -- 36: dec eax
   [0x75, 0xf5],              -- 37: jnz 28
   0xb8 :: littleEndian ctx,  -- 39: mov eax, ctx
   0xe8 :: littleEndian dis,  -- 44: call fun
   0xc2 :: short (size + 8)]  -- 49: ret size + 8

theorem trampoline_listing (ctx dis : Word) : trampoline ctx dis = (listing ctx dis).flatten := by
  unfold trampoline listing
  simp only [List.flatten_cons, List.flatten_nil, List.append_assoc, List.cons_append,
    List.nil_append, List.append_nil]

theorem trampolineStdcall_listing (ctx dis size : Word) :
    trampolineStdcall ctx dis size = (listingStdcall ctx dis size).flatten := by
  unfold trampolineStdcall listingStdcall
  simp only [List.flatten_cons, List.flatten_nil, List.append_assoc, List.cons_append,
    List.nil_append, List.append_nil]

theorem trampolineThiscall_listing (ctx dis size : Word) :
    trampolineThiscall ctx dis size = (listingThiscall ctx dis size).flatten := by
  have h₀ : littleEndian 0x8324048b = [0x8b, 0x04, 0x24, 0x83] := by decide
  have h₄ : littleEndian 0x4c890cec = [0xec, 0x0c, 0x89, 0x4c] := by decide
  have h₈ : littleEndian 0x04890424 = [0x24, 0x04, 0x89, 0x04] := by decide
  have h₁₈ : littleEndian 0x08244c8d = [0x8d, 0x4c, 0x24, 0x08] := by decide
  have h₂₂ : littleEndian 0x4802e8c1 = [0xc1, 0xe8, 0x02, 0x48] := by decide
  have h₂₆ : short 0x0b74 = [0x74, 0x0b] := by decide
  have h₂₈ : littleEndian 0x8908518b = [0x8b, 0x51, 0x08, 0x89] := by decide
  have h₃₂ : littleEndian 0x04c18311 = [0x11, 0x83, 0xc1, 0x04] := by decide
  have h₃₇ : short 0xf575 = [0x75, 0xf5] := by decide
  unfold trampolineThiscall listingThiscall
  rw [h₀, h₄, h₈, h₁₈, h₂₂, h₂₆, h₂₈, h₃₂, h₃₇]
  generalize littleEndian size = sizeBytes
  generalize littleEndian ctx = ctxBytes
  generalize littleEndian dis = disBytes
  generalize short (size + 8) = poppedBytes
  simp only [List.flatten_cons, List.flatten_nil, List.append_assoc, List.cons_append,
    List.nil_append, List.append_nil]

/-! ### Without `this` -/

section

variable {ctx dis size base : Word} {s : State}

theorem trampoline_enters (hcode : CodeAt s.memory base (listing ctx dis).flatten)
    (heip : s.eip = base) : s.Reaches { s with eax := ctx, eip := base + 10 + dis } := by
  have hstart : base + BitVec.ofNat 32 0 = base := BitVec.add_zero base
  refine reaches_of_listing (i := .mov .eax ctx) hcode 0 0 (heip.trans hstart.symm) rfl rfl
    (length_operand _ _) (decode_mov ctx) ?_
  refine reaches_of_listing (i := .jmp dis) hcode 1 5 rfl rfl rfl (length_operand _ _)
    (decode_jmp dis) ?_
  exact .refl

theorem stdcall_enters (hcode : CodeAt s.memory base (listingStdcall ctx dis size).flatten)
    (heip : s.eip = base) :
    s.Reaches
      { s with
        eax := ctx
        esp := s.esp - 4
        memory := s.memory.writeWord (s.esp - 4) (base + 10)
        eip := base + 10 + dis } := by
  have hstart : base + BitVec.ofNat 32 0 = base := BitVec.add_zero base
  refine reaches_of_listing (i := .mov .eax ctx) hcode 0 0 (heip.trans hstart.symm) rfl rfl
    (length_operand _ _) (decode_mov ctx) ?_
  refine reaches_of_listing (i := .call dis) hcode 1 5 rfl rfl rfl (length_operand _ _)
    (decode_call dis) ?_
  exact .refl

theorem stdcall_returns (hcode : CodeAt s.memory base (listingStdcall ctx dis size).flatten)
    (heip : s.eip = base + 10) :
    s.step = some { s with
      esp := s.esp + 4 + (size.setWidth 16).setWidth 32
      eip := s.memory.word s.esp } :=
  step_of_listing (i := .ret (size.setWidth 16)) hcode 2 10 heip rfl rfl
    (Nat.le_of_ble_eq_true rfl) (decode_ret size)

theorem thiscall_returns (hcode : CodeAt s.memory base (listingThiscall ctx dis size).flatten)
    (heip : s.eip = base + 49) :
    s.step = some { s with
      esp := s.esp + 4 + ((size + 8).setWidth 16).setWidth 32
      eip := s.memory.word s.esp } :=
  step_of_listing (i := .ret ((size + 8).setWidth 16)) hcode 16 49 heip rfl rfl
    (Nat.le_of_ble_eq_true rfl) (decode_ret (size + 8))

end

/-! ### The loop -/

/-- `n` bytes from `a` on are those eight bytes further up. -/
def moved (m : Memory) (a : Word) (n : Nat) : Memory := fun b =>
  if (b - a).toNat < n then m (b + 8) else m b

theorem moved_zero (m : Memory) (a : Word) : moved m a 0 = m :=
  funext fun _ => if_neg (Nat.not_lt_zero _)

theorem moved_succ (m : Memory) (a : Word) {n : Nat} (hn : 4 * (n + 1) + 8 ≤ 2 ^ 32) :
    moved (m.writeWord a (m.word (a + 8))) (a + 4) (4 * n) = moved m a (4 * (n + 1)) := by
  funext b
  obtain ⟨x, hx⟩ : ∃ x, x = b - a := ⟨_, rfl⟩
  have hb : b = a + x := by bv_omega
  subst hb
  have hself : a + x - a = x := by bv_omega
  have hnext : a + x - (a + 4) = x - 4 := by bv_omega
  have hup : a + x + 8 - a = x + 8 := by bv_omega
  unfold moved Memory.writeWord
  rw [hself, hnext, hup]
  by_cases hlow : x < 4
  · have hout : ¬ (x - 4).toNat < 4 * n := by bv_omega
    have hin : x.toNat < 4 * (n + 1) := by bv_omega
    rw [if_neg hout, if_pos hlow, if_pos hin, Memory.byte_word hlow]
    exact congrArg m (by bv_omega)
  · by_cases hin : x.toNat < 4 * (n + 1)
    · have hin' : (x - 4).toNat < 4 * n := by bv_omega
      have hhigh : ¬ x + 8 < 4 := by bv_omega
      rw [if_pos hin', if_neg hhigh, if_pos hin]
    · have hin' : ¬ (x - 4).toNat < 4 * n := by bv_omega
      rw [if_neg hin', if_neg hlow, if_neg hin]

section thiscall

variable {ctx dis size base : Word}

theorem thiscall_round {s : State}
    (hcode : CodeAt s.memory base (listingThiscall ctx dis size).flatten)
    (heip : s.eip = base + 28) (hapart : Apart base 52 s.ecx 4) :
    s.Reaches
      { s with
        eax := s.eax - 1
        ecx := s.ecx + 4
        edx := s.memory.word (s.ecx + 8)
        zf := s.eax - 1 = 0
        memory := s.memory.writeWord s.ecx (s.memory.word (s.ecx + 8))
        eip := if s.eax - 1 = 0 then base + 39 else base + 28 } := by
  have hzero : s.ecx + 0 = s.ecx := BitVec.add_zero s.ecx
  have hback : base + 39 + 0xfffffff5 = base + 28 := by bv_omega
  have hcode' : CodeAt (s.memory.writeWord (s.ecx + 0) (s.memory.word (s.ecx + 8))) base
      (listingThiscall ctx dis size).flatten := by
    rw [hzero]
    exact hcode.writeWord hapart
  refine reaches_of_listing (i := .load .edx ⟨.ecx, 8⟩) hcode 9 28 heip rfl rfl (by decide)
    (fun _ => rfl) ?_
  refine reaches_of_listing (i := .store ⟨.ecx, 0⟩ .edx) hcode 10 31 rfl rfl rfl (by decide)
    (fun _ => rfl) ?_
  refine reaches_of_listing (i := .add .ecx 4) hcode' 11 33 rfl rfl rfl (by decide)
    (fun _ => rfl) ?_
  refine reaches_of_listing (i := .dec .eax) hcode' 12 36 rfl rfl rfl (by decide)
    (fun _ => rfl) ?_
  refine reaches_of_listing (i := .jnz 0xfffffff5) hcode' 13 37 rfl rfl rfl (by decide)
    (fun _ => rfl) ?_
  show State.Reaches
    { s with
      eax := s.eax - 1
      ecx := s.ecx + 4
      edx := s.memory.word (s.ecx + 8)
      zf := s.eax - 1 = 0
      memory := s.memory.writeWord (s.ecx + 0) (s.memory.word (s.ecx + 8))
      eip := if decide (s.eax - 1 = 0) = true then base + 39 else base + 39 + 0xfffffff5 } _
  rw [hzero, hback]
  simp only [decide_eq_true_eq]
  exact .refl

/-- **The loop** moves as many words as `eax` says. -/
theorem thiscall_loop (n : Nat) {s : State}
    (hcode : CodeAt s.memory base (listingThiscall ctx dis size).flatten)
    (heip : s.eip = base + 28) (heax : s.eax = BitVec.ofNat 32 (n + 1))
    (hapart : Apart base 52 s.ecx (4 * (n + 1))) (hn : 4 * (n + 1) + 8 ≤ 2 ^ 32) :
    ∃ ecx edx, s.Reaches
      { s with
        eax := 0
        ecx := ecx
        edx := edx
        zf := true
        memory := moved s.memory s.ecx (4 * (n + 1))
        eip := base + 39 } := by
  induction n generalizing s with
  | zero =>
    have hzero : s.eax - 1 = 0 := by
      rw [heax]
      rfl
    have hround := thiscall_round hcode heip hapart
    have hmoved := moved_succ s.memory s.ecx hn
    rw [moved_zero] at hmoved
    rw [hmoved] at hround
    simp only [hzero, decide_true, if_true] at hround
    exact ⟨_, _, hround⟩
  | succ n ih =>
    have heax' : s.eax - 1 = BitVec.ofNat 32 (n + 1) := by
      rw [heax]
      bv_omega
    have hne : ¬ s.eax - 1 = 0 := by
      rw [heax']
      bv_omega
    have hfirst : Apart base 52 s.ecx 4 := fun k hk => Nat.le_trans (by omega) (hapart k hk)
    have hround := thiscall_round hcode heip hfirst
    simp only [hne, decide_false, if_false] at hround
    obtain ⟨ecx, edx, hrest⟩ := ih (s := { s with
      eax := s.eax - 1
      ecx := s.ecx + 4
      edx := s.memory.word (s.ecx + 8)
      zf := false
      memory := s.memory.writeWord s.ecx (s.memory.word (s.ecx + 8))
      eip := base + 28 }) (hcode.writeWord hfirst) rfl heax' (hapart.sub (d := 4) (by omega))
      (by omega)
    have hmoved := moved_succ s.memory s.ecx hn
    refine ⟨ecx, edx, hround.trans ?_⟩
    rw [← hmoved]
    exact hrest

/-- With the return address and the register below the words on the stack. -/
def pushed (s : State) : Memory :=
  (s.memory.writeWord (s.esp - 8) s.ecx).writeWord (s.esp - 12) (s.memory.word s.esp)

theorem thiscall_starts {s : State}
    (hcode : CodeAt s.memory base (listingThiscall ctx dis size).flatten)
    (heip : s.eip = base) (hapart : Apart base 52 (s.esp - 16) 12) :
    s.Reaches
      { s with
        eax := size >>> 2 - 1
        ecx := s.esp - 4
        esp := s.esp - 12
        zf := size >>> 2 - 1 = 0
        memory := pushed s
        eip := if size >>> 2 - 1 = 0 then base + 39 else base + 28 } := by
  have hself : s.esp + 0 = s.esp := BitVec.add_zero s.esp
  have hecx : s.esp - 12 + 4 = s.esp - 8 := by bv_omega
  have hret : s.esp - 12 + 0 = s.esp - 12 := BitVec.add_zero _
  have hargs : s.esp - 12 + 8 = s.esp - 4 := by bv_omega
  have hlow : s.esp - 16 + BitVec.ofNat 32 8 = s.esp - 8 := by bv_omega
  have hlow' : s.esp - 16 + BitVec.ofNat 32 4 = s.esp - 12 := by bv_omega
  have hafter : base + 28 + 11 = base + 39 := by bv_omega
  have hstart : base + BitVec.ofNat 32 0 = base := BitVec.add_zero base
  have hcode₁ : CodeAt (s.memory.writeWord (s.esp - 12 + 4) s.ecx) base
      (listingThiscall ctx dis size).flatten := by
    have happ := hapart.sub (d := 8) (show 8 + 4 ≤ 12 by omega)
    rw [hlow] at happ
    rw [hecx]
    exact hcode.writeWord happ
  have hcode₂ : CodeAt ((s.memory.writeWord (s.esp - 12 + 4) s.ecx).writeWord (s.esp - 12 + 0)
      (s.memory.word (s.esp + 0))) base (listingThiscall ctx dis size).flatten := by
    have happ := hapart.sub (d := 4) (show 4 + 4 ≤ 12 by omega)
    rw [hlow'] at happ
    rw [hret]
    exact hcode₁.writeWord happ
  refine reaches_of_listing (i := .load .eax ⟨.esp, 0⟩) hcode 0 0 (heip.trans hstart.symm) rfl rfl
    (by decide) (fun _ => rfl) ?_
  refine reaches_of_listing (i := .sub .esp 12) hcode 1 3 rfl rfl rfl (by decide) (fun _ => rfl) ?_
  refine reaches_of_listing (i := .store ⟨.esp, 4⟩ .ecx) hcode 2 6 rfl rfl rfl (by decide)
    (fun _ => rfl) ?_
  refine reaches_of_listing (i := .store ⟨.esp, 0⟩ .eax) hcode₁ 3 10 rfl rfl rfl (by decide)
    (fun _ => rfl) ?_
  refine reaches_of_listing (i := .mov .eax size) hcode₂ 4 13 rfl rfl rfl (length_operand _ _)
    (decode_mov size) ?_
  refine reaches_of_listing (i := .lea .ecx ⟨.esp, 8⟩) hcode₂ 5 18 rfl rfl rfl (by decide)
    (fun _ => rfl) ?_
  refine reaches_of_listing (i := .shr .eax 2) hcode₂ 6 22 rfl rfl rfl (by decide)
    (fun _ => rfl) ?_
  refine reaches_of_listing (i := .dec .eax) hcode₂ 7 25 rfl rfl rfl (by decide) (fun _ => rfl) ?_
  refine reaches_of_listing (i := .jz 11) hcode₂ 8 26 rfl rfl rfl (by decide) (fun _ => rfl) ?_
  show State.Reaches
    { s with
      eax := size >>> 2 - 1
      ecx := s.esp - 12 + 8
      esp := s.esp - 12
      zf := size >>> 2 - 1 = 0
      memory := (s.memory.writeWord (s.esp - 12 + 4) s.ecx).writeWord (s.esp - 12 + 0)
        (s.memory.word (s.esp + 0))
      eip := if decide (size >>> 2 - 1 = 0) = true then base + 28 + 11 else base + 28 } _
  rw [hself, hecx, hret, hargs, hafter]
  simp only [decide_eq_true_eq]
  exact .refl

theorem code_moved {m : Memory} {a : Word} {n : Nat} {code : List Byte} (h : CodeAt m base code)
    (hapart : Apart base code.length a n) : CodeAt (moved m a n) base code :=
  h.congr fun k hk => if_neg (Nat.not_lt.mpr (hapart k hk))

theorem code_pushed {s : State} {code : List Byte} (h : CodeAt s.memory base code)
    (hapart : Apart base code.length (s.esp - 16) 12) : CodeAt (pushed s) base code := by
  have hlow := hapart.sub (d := 8) (show 8 + 4 ≤ 12 by omega)
  have hlow' := hapart.sub (d := 4) (show 4 + 4 ≤ 12 by omega)
  rw [show s.esp - 16 + BitVec.ofNat 32 8 = s.esp - 8 by bv_omega] at hlow
  rw [show s.esp - 16 + BitVec.ofNat 32 4 = s.esp - 12 by bv_omega] at hlow'
  exact (h.writeWord hlow).writeWord hlow'

theorem thiscall_enters {s : State} {n : Nat}
    (hcode : CodeAt s.memory base (listingThiscall ctx dis size).flatten) (heip : s.eip = base)
    (hsize : size = BitVec.ofNat 32 (4 * (n + 1))) (hn : 4 * (n + 1) + 8 ≤ 2 ^ 32)
    (hapart : Apart base 52 (s.esp - 16) (12 + 4 * n)) :
    ∃ ecx edx zf, s.Reaches
      { s with
        eax := ctx
        ecx := ecx
        edx := edx
        zf := zf
        esp := s.esp - 16
        memory := (moved (pushed s) (s.esp - 4) (4 * n)).writeWord (s.esp - 16) (base + 49)
        eip := base + 49 + dis } := by
  have hlow : Apart base 52 (s.esp - 16) 12 := fun k hk => Nat.le_trans (by omega) (hapart k hk)
  have hargs := hapart.sub (d := 12) (Nat.le_refl (12 + 4 * n))
  rw [show s.esp - 16 + BitVec.ofNat 32 12 = s.esp - 4 by bv_omega] at hargs
  have hstarts := thiscall_starts hcode heip hlow
  have hcount : size >>> 2 - 1 = BitVec.ofNat 32 n := by
    apply BitVec.eq_of_toNat_eq
    rw [hsize]
    simp only [BitVec.toNat_sub, BitVec.toNat_ushiftRight, BitVec.toNat_ofNat,
      Nat.shiftRight_eq_div_pow, show (1 : Word).toNat = 1 from rfl]
    omega
  have hcode₁ := code_pushed hcode hlow
  have hcode' := code_moved hcode₁ hargs
  have hcall : s.esp - 12 - 4 = s.esp - 16 := by bv_omega
  -- whether or not there is anything to move
  have hloop : ∃ eax ecx edx zf, s.Reaches
      { s with
        eax := eax
        ecx := ecx
        edx := edx
        zf := zf
        esp := s.esp - 12
        memory := moved (pushed s) (s.esp - 4) (4 * n)
        eip := base + 39 } := by
    rw [hcount] at hstarts
    cases n with
    | zero =>
      rw [moved_zero]
      exact ⟨_, _, _, _, hstarts⟩
    | succ n =>
      have hne : ¬ BitVec.ofNat 32 (n + 1) = 0 := by bv_omega
      rw [if_neg hne] at hstarts
      obtain ⟨ecx, edx, hrest⟩ := thiscall_loop n (s := { s with
        eax := BitVec.ofNat 32 (n + 1)
        ecx := s.esp - 4
        esp := s.esp - 12
        zf := BitVec.ofNat 32 (n + 1) = 0
        memory := pushed s
        eip := base + 28 }) hcode₁ rfl rfl hargs (by omega)
      exact ⟨_, _, _, _, hstarts.trans hrest⟩
  obtain ⟨eax, ecx, edx, zf, hloop⟩ := hloop
  refine ⟨ecx, edx, zf, hloop.trans ?_⟩
  refine reaches_of_listing (i := .mov .eax ctx) hcode' 14 39 rfl rfl rfl (length_operand _ _)
    (decode_mov ctx) ?_
  refine reaches_of_listing (i := .call dis) hcode' 15 44 rfl rfl rfl (length_operand _ _)
    (decode_call dis) ?_
  rw [← hcall]
  exact .refl

end thiscall

end NodeFfi.Ia32
