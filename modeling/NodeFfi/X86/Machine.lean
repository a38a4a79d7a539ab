import Mathlib.Algebra.Ring.Nat
import Mathlib.Logic.Relation
import NodeFfi.Bytes.Area

/-!
# A 32-bit x86 processor

Eight registers, the zero flag, and memory at all 32-bit addresses. `decode` has the instructions that
stubs are made of which a program writes at run time: moves, arithmetic on a register, jumps, calls
and returns. `step` fetches from memory, so code is what is there when it is executed.

A run is followed with `reaches_of_listing`: where the bytes of an instruction are (`CodeAt`), it is the
next one, whatever comes after them.
-/

namespace NodeFfi.X86

open Bytes

abbrev Word := BitVec 32

abbrev Memory := Word → Byte

/-! ### Words in memory -/

/-- The byte of number `k`, the lowest first. -/
def byte (w : Word) (k : Nat) : Byte := BitVec.ofNat 8 (w.toNat / 256 ^ k)

def ofBytes (b₀ b₁ b₂ b₃ : Byte) : Word :=
  BitVec.ofNat 32 (b₀.toNat + 2 ^ 8 * b₁.toNat + 2 ^ 16 * b₂.toNat + 2 ^ 24 * b₃.toNat)

def littleEndian (w : Word) : List Byte := [byte w 0, byte w 1, byte w 2, byte w 3]

namespace Memory

def word (m : Memory) (a : Word) : Word := ofBytes (m a) (m (a + 1)) (m (a + 2)) (m (a + 3))

def writeWord (m : Memory) (a w : Word) : Memory := fun b =>
  if b - a < 4 then byte w (b - a).toNat else m b

end Memory

theorem ofBytes_byte (w : Word) : ofBytes (byte w 0) (byte w 1) (byte w 2) (byte w 3) = w := by
  apply BitVec.eq_of_toNat_eq
  have hlt := w.isLt
  unfold ofBytes byte
  simp only [BitVec.toNat_ofNat]
  omega

theorem littleEndian_ofBytes (b₀ b₁ b₂ b₃ : Byte) :
    littleEndian (ofBytes b₀ b₁ b₂ b₃) = [b₀, b₁, b₂, b₃] := by
  have h₀ := b₀.isLt
  have h₁ := b₁.isLt
  have h₂ := b₂.isLt
  have h₃ := b₃.isLt
  unfold littleEndian byte ofBytes
  simp only [List.cons.injEq, and_true, ← BitVec.toNat_inj, BitVec.toNat_ofNat]
  omega

theorem lt_four {k : Word} (h : k < 4) : k = 0 ∨ k = 1 ∨ k = 2 ∨ k = 3 := by bv_omega

namespace Memory

variable {m m' : Memory} {a b w : Word}

theorem word_congr (h : ∀ k < 4, m (a + k) = m' (a + k)) : m.word a = m'.word a := by
  have hzero := h 0 (by decide)
  rw [show a + 0 = a from BitVec.add_zero a] at hzero
  unfold word
  rw [hzero, h 1 (by decide), h 2 (by decide), h 3 (by decide)]

theorem writeWord_of_ge (h : ¬ b - a < 4) : m.writeWord a w b = m b := if_neg h

theorem writeWord_add {k : Word} (h : k < 4) : m.writeWord a w (a + k) = byte w k.toNat := by
  have hsub : a + k - a = k := by bv_omega
  unfold writeWord
  rw [hsub, if_pos h]

theorem word_writeWord : (m.writeWord a w).word a = w := by
  have hzero : m.writeWord a w (a + 0) = byte w 0 := writeWord_add (by decide)
  rw [show a + 0 = a from BitVec.add_zero a] at hzero
  have hone : m.writeWord a w (a + 1) = byte w 1 := writeWord_add (by decide)
  have htwo : m.writeWord a w (a + 2) = byte w 2 := writeWord_add (by decide)
  have hthree : m.writeWord a w (a + 3) = byte w 3 := writeWord_add (by decide)
  unfold word
  rw [hzero, hone, htwo, hthree]
  exact ofBytes_byte w

theorem byte_word {k : Word} (h : k < 4) : byte (m.word a) k.toNat = m (a + k) := by
  have hbytes := littleEndian_ofBytes (m a) (m (a + 1)) (m (a + 2)) (m (a + 3))
  unfold littleEndian at hbytes
  simp only [List.cons.injEq, and_true] at hbytes
  obtain ⟨h₀, h₁, h₂, h₃⟩ := hbytes
  rcases lt_four h with rfl | rfl | rfl | rfl
  · exact h₀.trans (congrArg m (BitVec.add_zero a).symm)
  · exact h₁
  · exact h₂
  · exact h₃

end Memory

/-! ### Instructions -/

inductive Reg
  | eax | ecx | edx | ebx | esp | ebp | esi | edi

/-- The register of a number, of which the lowest three bits count. -/
def Reg.ofBits (b : Byte) : Reg :=
  match (b &&& 7).toNat with
  | 0 => .eax
  | 1 => .ecx
  | 2 => .edx
  | 3 => .ebx
  | 4 => .esp
  | 5 => .ebp
  | 6 => .esi
  | _ => .edi

/-- `[base + disp]`. -/
structure Address where
  base : Reg
  disp : Word

inductive Instr
  | mov (r : Reg) (v : Word)
  | load (r : Reg) (a : Address)
  | store (a : Address) (r : Reg)
  | lea (r : Reg) (a : Address)
  | add (r : Reg) (v : Word)
  | sub (r : Reg) (v : Word)
  | shr (r : Reg) (n : Nat)
  | dec (r : Reg)
  | jmp (rel : Word)
  | jz (rel : Word)
  | jnz (rel : Word)
  | call (rel : Word)
  | ret (n : BitVec 16)

/-- The displacement after a ModRM or SIB byte, and how long it is. -/
def decodeDisp (mod : Byte) (base : Reg) (rest : List Byte) : Option (Address × Nat) :=
  if mod = 0 then some (⟨base, 0⟩, 0)
  else if mod = 1 then
    match rest with
    | d :: _ => some (⟨base, d.signExtend 32⟩, 1)
    | [] => none
  else
    match rest with
    | d₀ :: d₁ :: d₂ :: d₃ :: _ => some (⟨base, ofBytes d₀ d₁ d₂ d₃⟩, 4)
    | _ => none

/-- An operand in memory, with a base and without an index. -/
def decodeAddress : List Byte → Option (Address × Nat)
  | [] => none
  | b :: rest =>
    if b >>> 6 = 3 then none
    else if b &&& 7 = 4 then
      match rest with
      | [] => none
      | sib :: rest =>
        if (sib >>> 3) &&& 7 ≠ 4 ∨ (b >>> 6 = 0 ∧ sib &&& 7 = 5) then none
        else (decodeDisp (b >>> 6) (.ofBits sib) rest).map fun (a, n) => (a, n + 2)
    else if b >>> 6 = 0 ∧ b &&& 7 = 5 then none
    else (decodeDisp (b >>> 6) (.ofBits b) rest).map fun (a, n) => (a, n + 1)

/-- The instructions `8b`, `89` and `8d`, by what they do with their register and their address. -/
def decodeMove (instr : Reg → Address → Instr) (rest : List Byte) : Option (Instr × Nat) :=
  match rest with
  | [] => none
  | b :: _ => (decodeAddress rest).map fun (a, n) => (instr (.ofBits (b >>> 3)) a, n + 1)

/-- The instruction that is first, and its length. -/
def decode : List Byte → Option (Instr × Nat)
  | [] => none
  | op :: rest =>
    if op = 0x8b then decodeMove (fun r a => .load r a) rest
    else if op = 0x89 then decodeMove (fun r a => .store a r) rest
    else if op = 0x8d then decodeMove (fun r a => .lea r a) rest
    else if op >>> 3 = 9 then some (.dec (.ofBits op), 1)
    else
      match rest with
      | b :: rest =>
        if op = 0x74 then some (.jz (b.signExtend 32), 2)
        else if op = 0x75 then some (.jnz (b.signExtend 32), 2)
        else
          match rest with
          | c :: rest =>
            if op = 0xc2 then some (.ret (BitVec.ofNat 16 (b.toNat + 2 ^ 8 * c.toNat)), 3)
            else if op = 0x83 ∧ b >>> 3 = 0x18 then some (.add (.ofBits b) (c.signExtend 32), 3)
            else if op = 0x83 ∧ b >>> 3 = 0x1d then some (.sub (.ofBits b) (c.signExtend 32), 3)
            else if op = 0xc1 ∧ b >>> 3 = 0x1d then some (.shr (.ofBits b) (c.toNat % 32), 3)
            else
              match rest with
              | d :: e :: _ =>
                if op = 0xe8 then some (.call (ofBytes b c d e), 5)
                else if op = 0xe9 then some (.jmp (ofBytes b c d e), 5)
                else if op >>> 3 = 0x17 then some (.mov (.ofBits op) (ofBytes b c d e), 5)
                else none
              | _ => none
          | [] => none
      | [] => none

/-! ### Execution -/

structure State where
  eax : Word
  ecx : Word
  edx : Word
  ebx : Word
  esp : Word
  ebp : Word
  esi : Word
  edi : Word
  eip : Word
  zf : Bool
  memory : Memory

namespace State

def get (s : State) : Reg → Word
  | .eax => s.eax
  | .ecx => s.ecx
  | .edx => s.edx
  | .ebx => s.ebx
  | .esp => s.esp
  | .ebp => s.ebp
  | .esi => s.esi
  | .edi => s.edi

def set (s : State) (r : Reg) (v : Word) : State :=
  match r with
  | .eax => { s with eax := v }
  | .ecx => { s with ecx := v }
  | .edx => { s with edx := v }
  | .ebx => { s with ebx := v }
  | .esp => { s with esp := v }
  | .ebp => { s with ebp := v }
  | .esi => { s with esi := v }
  | .edi => { s with edi := v }

def address (s : State) (a : Address) : Word := s.get a.base + a.disp

/-- With the result of an operation in a register. -/
def result (s : State) (r : Reg) (v : Word) : State := { s.set r v with zf := v = 0 }

/-- The effect of an instruction, where `next` is the address after it. -/
def exec (s : State) (next : Word) : Instr → State
  | .mov r v => { s.set r v with eip := next }
  | .load r a => { s.set r (s.memory.word (s.address a)) with eip := next }
  | .store a r => { s with memory := s.memory.writeWord (s.address a) (s.get r), eip := next }
  | .lea r a => { s.set r (s.address a) with eip := next }
  | .add r v => { s.result r (s.get r + v) with eip := next }
  | .sub r v => { s.result r (s.get r - v) with eip := next }
  | .shr r n => { (if n = 0 then s else s.result r (s.get r >>> n)) with eip := next }
  | .dec r => { s.result r (s.get r - 1) with eip := next }
  | .jmp rel => { s with eip := next + rel }
  | .jz rel => { s with eip := if s.zf then next + rel else next }
  | .jnz rel => { s with eip := if s.zf then next else next + rel }
  | .call rel =>
    { s with
      esp := s.esp - 4
      memory := s.memory.writeWord (s.esp - 4) next
      eip := next + rel }
  | .ret n =>
    { s with
      esp := s.esp + 4 + n.setWidth 32
      eip := s.memory.word s.esp }

/-- What the processor looks at: no instruction is longer than 15 bytes. -/
def fetch (s : State) : List Byte :=
  (List.range 15).map fun k => s.memory (s.eip + BitVec.ofNat 32 k)

def step (s : State) : Option State :=
  (decode s.fetch).map fun (i, n) => s.exec (s.eip + BitVec.ofNat 32 n) i

/-- Some number of steps lead from one state to the other. -/
def Reaches : State → State → Prop := Relation.ReflTransGen fun s s' => s.step = some s'

end State

/-! ### Code -/

/-- The bytes of a program are in memory. -/
def CodeAt (m : Memory) (a : Word) (code : List Byte) : Prop :=
  ∀ k b, code[k]? = some b → m (a + BitVec.ofNat 32 k) = b

namespace CodeAt

variable {m m' : Memory} {a : Word} {code part : List Byte}

theorem congr (h : CodeAt m a code)
    (hm : ∀ k < code.length, m' (a + BitVec.ofNat 32 k) = m (a + BitVec.ofNat 32 k)) :
    CodeAt m' a code := by
  intro k b hb
  rw [hm k (List.getElem?_eq_some_iff.mp hb).1]
  exact h k b hb

theorem instr {listing : List (List Byte)} (h : CodeAt m a listing.flatten) {i : Nat}
    (hpart : listing[i]? = some part) :
    CodeAt m (a + BitVec.ofNat 32 (listing.take i).flatten.length) part := by
  intro k b hb
  obtain ⟨hlt, hk⟩ := List.getElem?_eq_some_iff.mp hb
  rw [BitVec.add_assoc, ← BitVec.ofNat_add]
  refine h _ b ?_
  obtain ⟨hi, rfl⟩ := List.getElem?_eq_some_iff.mp hpart
  have hsplit : listing = listing.take i ++ (listing[i] :: listing.drop (i + 1)) := by
    rw [← List.drop_eq_getElem_cons hi, List.take_append_drop]
  have hflat := congrArg List.flatten hsplit
  rw [List.flatten_append, List.flatten_cons] at hflat
  rw [hflat, List.getElem?_append_right (Nat.le_add_right _ k), Nat.add_sub_cancel_left,
    List.getElem?_append_left hlt]
  exact hb

end CodeAt

theorem fetch_of_code {s : State} {code : List Byte} (h : CodeAt s.memory s.eip code)
    (hlen : code.length ≤ 15) : ∃ rest, s.fetch = code ++ rest := by
  have htake : s.fetch.take code.length = code := by
    apply List.ext_getElem?
    intro k
    by_cases hk : k < code.length
    · have hget := List.getElem?_eq_getElem hk
      rw [List.getElem?_take_of_lt hk, hget]
      unfold State.fetch
      rw [List.getElem?_map, List.getElem?_range (by omega), Option.map_some]
      exact congrArg some (h k _ hget)
    · rw [List.getElem?_take_eq_none (by omega), List.getElem?_eq_none (by omega)]
  exact ⟨s.fetch.drop code.length, (List.take_append_drop code.length s.fetch).symm.trans
    (congrArg (· ++ s.fetch.drop code.length) htake)⟩

theorem step_of_code {s : State} {code : List Byte} {instr : Instr}
    (h : CodeAt s.memory s.eip code) (hlen : code.length ≤ 15)
    (hdecode : ∀ rest, decode (code ++ rest) = some (instr, code.length)) :
    s.step = some (s.exec (s.eip + BitVec.ofNat 32 code.length) instr) := by
  obtain ⟨rest, hfetch⟩ := fetch_of_code h hlen
  unfold State.step
  rw [hfetch, hdecode]
  rfl

/-- **The next instruction of a listing**, of number `k` and at the offset `n`. -/
theorem step_of_listing {s : State} {base : Word} {listing : List (List Byte)} {code : List Byte}
    {i : Instr} (h : CodeAt s.memory base listing.flatten) (k n : Nat)
    (heip : s.eip = base + BitVec.ofNat 32 n) (hcode : listing[k]? = some code)
    (hoffset : (listing.take k).flatten.length = n) (hlen : code.length ≤ 15)
    (hdecode : ∀ rest, decode (code ++ rest) = some (i, code.length)) :
    s.step = some (s.exec (base + BitVec.ofNat 32 (n + code.length)) i) := by
  have hat : CodeAt s.memory s.eip code := by
    rw [heip, ← hoffset]
    exact h.instr hcode
  have hstep := step_of_code hat hlen hdecode
  rw [heip, BitVec.add_assoc, ← BitVec.ofNat_add] at hstep
  exact hstep

theorem reaches_of_listing {s s' : State} {base : Word} {listing : List (List Byte)}
    {code : List Byte} {i : Instr} (h : CodeAt s.memory base listing.flatten) (k n : Nat)
    (heip : s.eip = base + BitVec.ofNat 32 n) (hcode : listing[k]? = some code)
    (hoffset : (listing.take k).flatten.length = n) (hlen : code.length ≤ 15)
    (hdecode : ∀ rest, decode (code ++ rest) = some (i, code.length))
    (hrest : (s.exec (base + BitVec.ofNat 32 (n + code.length)) i).Reaches s') : s.Reaches s' :=
  .head (step_of_listing h k n heip hcode hoffset hlen hdecode) hrest

/-! The instructions with an operand that is written into them. -/

theorem length_operand (op : Byte) (w : Word) : (op :: littleEndian w).length ≤ 15 :=
  Nat.le_of_ble_eq_true rfl

theorem decode_mov (w : Word) (rest : List Byte) :
    decode (0xb8 :: littleEndian w ++ rest) = some (.mov .eax w, 5) := by
  show some (Instr.mov .eax (ofBytes (byte w 0) (byte w 1) (byte w 2) (byte w 3)), 5) = _
  rw [ofBytes_byte]

theorem decode_jmp (w : Word) (rest : List Byte) :
    decode (0xe9 :: littleEndian w ++ rest) = some (.jmp w, 5) := by
  show some (Instr.jmp (ofBytes (byte w 0) (byte w 1) (byte w 2) (byte w 3)), 5) = _
  rw [ofBytes_byte]

theorem decode_call (w : Word) (rest : List Byte) :
    decode (0xe8 :: littleEndian w ++ rest) = some (.call w, 5) := by
  show some (Instr.call (ofBytes (byte w 0) (byte w 1) (byte w 2) (byte w 3)), 5) = _
  rw [ofBytes_byte]

theorem decode_ret (w : Word) (rest : List Byte) :
    decode (0xc2 :: [byte w 0, byte w 1] ++ rest) = some (.ret (w.setWidth 16), 3) := by
  have hshort : BitVec.ofNat 16 ((byte w 0).toNat + 2 ^ 8 * (byte w 1).toNat) = w.setWidth 16 := by
    apply BitVec.eq_of_toNat_eq
    unfold byte
    simp only [BitVec.toNat_ofNat, BitVec.toNat_setWidth]
    omega
  show some (Instr.ret (BitVec.ofNat 16 ((byte w 0).toNat + 2 ^ 8 * (byte w 1).toNat)), 3) = _
  rw [hshort]

/-! ### Code and data -/

/-- None of the `n` bytes from `a` on is one of the `l` bytes from `b` on. -/
def Apart (a : Word) (n : Nat) (b : Word) (l : Nat) : Prop :=
  ∀ k < n, l ≤ (a + BitVec.ofNat 32 k - b).toNat

theorem Apart.lt {a b : Word} {n l : Nat} (h : Apart a n b l) (hn : 0 < n) : l < 2 ^ 32 :=
  Nat.lt_of_le_of_lt (h 0 hn) (BitVec.isLt _)

theorem Apart.sub {a b : Word} {n l l' d : Nat} (h : Apart a n b l) (hd : d + l' ≤ l) :
    Apart a n (b + BitVec.ofNat 32 d) l' := by
  intro k hk
  have hle := h k hk
  have hlt := (a + BitVec.ofNat 32 k - b).isLt
  have hoff : a + BitVec.ofNat 32 k - (b + BitVec.ofNat 32 d) =
      a + BitVec.ofNat 32 k - b - BitVec.ofNat 32 d := by bv_omega
  rw [hoff]
  generalize a + BitVec.ofNat 32 k - b = x at hle hlt ⊢
  have hd' : (BitVec.ofNat 32 d).toNat = d := by
    rw [BitVec.toNat_ofNat]
    omega
  rw [BitVec.toNat_sub, hd']
  omega

theorem CodeAt.writeWord {m : Memory} {a p w : Word} {code : List Byte} (h : CodeAt m a code)
    (hapart : Apart a code.length p 4) : CodeAt (m.writeWord p w) a code := by
  refine h.congr fun k hk => Memory.writeWord_of_ge ?_
  have hle := hapart k hk
  bv_omega

end NodeFfi.X86
