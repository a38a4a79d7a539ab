import NodeFfi.Bytes.Word
import NodeFfi.Unix64.Model

/-!
# Calls on x86-64

`ffi_prep_cif_machdep`, `ffi_call`, `ffi_prep_closure_loc` and `ffi_closure_unix64_inner` of
`x86/ffi64.c`, with what `x86/unix64.S` does around them. Memory is the bytes at all addresses;
`register_args` starts with six words of general purpose registers, and eight SSE registers follow.
The closure has its own copy of it, so a pointer that it makes leads into that copy, to the stack
of its caller, or to bytes that it has put together.
-/

namespace NodeFfi.Unix64

open Libffi Bytes

/-! ### The registers in memory -/

/-- `MAX_GPR_REGS`. -/
def maxGprRegs : Nat := 6

/-- `MAX_SSE_REGS`. -/
def maxSseRegs : Nat := 8

/-- The offset of `gpr[i]` in `register_args`. -/
def gprOffset (i : Nat) : Nat := 8 * i

/-- The offset of `sse[i]`. -/
def sseOffset (i : Nat) : Nat := 48 + 16 * i

/-- `sizeof (struct register_args)`. -/
def registerArgsSize : Nat := 176

/-- The alignment of an argument on the stack: stack arguments are at least 8 byte aligned. -/
def stackAlign (t : FfiType) : Nat :=
  if t.alignment.toNat < 8 then 8 else t.alignment.toNat

/-- The condition under which an argument is passed in memory, with the counts so far. -/
def passedInMemory (e : Examined) (gprcount ssecount : Nat) : Option Bool :=
  if e.n = 0 then some true
  else do
    let (ngpr, nsse) ← e.counts
    return decide (gprcount + ngpr > maxGprRegs ∨ ssecount + nsse > maxSseRegs)

section frames

variable (frames : Frames)

/-! ### `ffi_prep_cif_machdep` -/

/-- `ffi_cif`. -/
structure Cif where
  rtype : Option FfiType
  argTypes : List FfiType
  bytes : BitVec 32
  flags : BitVec 32

/-- The bits 8 to 10 of the flags: which registers a structure comes back in. -/
def structBits (sse0 sse1 : Bool) : BitVec 32 :=
  if sse0 ∧ ¬sse1 then 0x100
  else if ¬sse0 ∧ sse1 then 0x200
  else if sse0 ∧ sse1 then 0x400
  else 0

/-- What `ffi_prep_cif_machdep` does about the return type: `gprcount` and `flags`. `void` is
`none`. -/
def prepReturn (path : List Nat) (rtype : Option FfiType) (classes : Classes) :
    Option (Nat × BitVec 32) :=
  match rtype with
  | none => some (0, 0)
  | some ⟨size, alignment, type, elements⟩ => do
    let e ← examineArgument frames path ⟨size, alignment, type, elements⟩ classes true
    if e.n = 0 then return (1, 0)
    if type = ffiTypeStruct then do
      let class0 ← e.classes.get 0
      let sse0 := class0.sseClassP
      let sse1 ← if e.n = 2 then do
          let class1 ← e.classes.get 1
          some class1.sseClassP
        else some false
      return (0, type.setWidth 32 ||| structBits sse0 sse1 ||| (size <<< 12).setWidth 32)
    return (0, type.setWidth 32)

/-- The loop over the arguments: `gprcount`, `ssecount` and `bytes`. -/
def prepArguments (i : Nat) : List FfiType → Classes → Nat → Nat → Nat → Option (Nat × Nat × Nat)
  | [], _, gprcount, ssecount, bytes => some (gprcount, ssecount, bytes)
  | t :: ts, classes, gprcount, ssecount, bytes => do
    let e ← examineArgument frames [i] t classes false
    if ← passedInMemory e gprcount ssecount then
      prepArguments (i + 1) ts e.classes gprcount ssecount
        (alignUp bytes (stackAlign t) + t.size.toNat)
    else do
      let (ngpr, nsse) ← e.counts
      prepArguments (i + 1) ts e.classes (gprcount + ngpr) (ssecount + nsse) bytes

/-- `ffi_prep_cif_machdep`. -/
def ffiPrepCifMachdep (rtype : Option FfiType) (argTypes : List FfiType) (classes : Classes) :
    Option Cif := do
  let (gprcount, flags) ← prepReturn frames [argTypes.length] rtype classes
  let (_, ssecount, bytes) ← prepArguments frames 0 argTypes classes gprcount 0 0
  return ⟨rtype, argTypes, BitVec.ofNat 32 (alignUp bytes 8),
    if ssecount = 0 then flags else flags ||| 0x800⟩

/-- `FFI_TYPE_VOID` in the first byte of the flags. -/
def Cif.returnsVoid (cif : Cif) : Bool := cif.flags &&& 0xff = 0

/-- The return value is a structure that goes into memory. -/
def Cif.retInMemory (cif : Cif) : Bool :=
  match cif.rtype with
  | none => false
  | some ⟨_, _, type, _⟩ => decide (type = ffiTypeStruct) && cif.returnsVoid

/-! ### `ffi_call` -/

/-- What `ffi_call` has done for the arguments so far. -/
structure CallState where
  gprcount : Nat
  ssecount : Nat
  argp : Nat
  memory : Area

/-- `reg_args->gpr[gprcount++]`, from `n` bytes. -/
def CallState.pushGpr (st : CallState) (stack : Nat) (src : Area) (n : Nat) : CallState :=
  { st with
    gprcount := st.gprcount + 1
    memory := (st.memory.write (stack + gprOffset st.gprcount) 8 .zero).write
      (stack + gprOffset st.gprcount) n src }

/-- `reg_args->sse[ssecount++]`, from `n` bytes that are extended with zeros. -/
def CallState.pushSse (st : CallState) (stack : Nat) (src : Area) (n : Nat) : CallState :=
  { st with
    ssecount := st.ssecount + 1
    memory := st.memory.write (stack + sseOffset st.ssecount) 16 (src.extend n) }

/-- One word of an argument in registers: `a` is its bytes and `size` what is left of them. -/
def passWord (stack : Nat) (c : RegClass) (a : Area) (size : Nat) (st : CallState) :
    Option CallState :=
  match c with
  | .integer | .integersi => some (st.pushGpr stack a (if size < 8 then size else 8))
  | .sse | .ssedf => some (st.pushSse stack a 8)
  | .ssesf => some (st.pushSse stack a 4)
  | _ => none

/-- The words of an argument from the one of number `j` on. -/
def passWords (stack : Nat) (classes : Classes) (a : Area) (size : Nat) (j : Nat) :
    Nat → CallState → Option CallState
  | 0, st => some st
  | n + 1, st => do
    let c ← classes.get j
    let st ← passWord stack c (a.at_ (8 * j)) (size - 8 * j) st
    passWords stack classes a size (j + 1) n st

/-- One turn of the loop of `ffi_call`, for an argument whose bytes are `a`. -/
def passArgument (stack : Nat) (i : Nat) (t : FfiType) (a : Area) (classes : Classes)
    (st : CallState) : Option (Classes × CallState) := do
  let e ← examineArgument frames [i] t classes false
  if ← passedInMemory e st.gprcount st.ssecount then
    let argp := alignUp st.argp (stackAlign t)
    return (e.classes,
      { st with argp := argp + t.size.toNat, memory := st.memory.write argp t.size.toNat a })
  else do
    let st ← passWords stack e.classes a t.size.toNat 0 e.n st
    return (e.classes, st)

/-- The loop of `ffi_call`. -/
def passArguments (stack : Nat) (i : Nat) :
    List FfiType → List Area → Classes → CallState → Option CallState
  | t :: ts, a :: avalue, classes, st => do
    let (classes, st) ← passArgument frames stack i t a classes st
    passArguments stack (i + 1) ts avalue classes st
  | _, _, _, st => some st

/-- Where the return value goes: without an address for a structure in memory, into new memory. -/
def Cif.resultAddress (cif : Cif) (rvalue allocated : Nat) : Nat :=
  if rvalue = 0 ∧ cif.retInMemory then allocated else rvalue

/-- `ffi_call` up to the call of `ffi_call_unix64`, with the address from `resultAddress`; `stack`
is what it has allocated. -/
def ffiCall (cif : Cif) (rvalue : Nat) (avalue : List Area) (stack : Nat) (memory : Area)
    (classes : Classes) : Option CallState :=
  let st : CallState := ⟨0, 0, stack + registerArgsSize, memory⟩
  let st := if cif.retInMemory then
      { st with
        gprcount := 1
        memory := st.memory.write (stack + gprOffset 0) 8 (addressBytes rvalue) }
    else st
  passArguments frames stack 0 cif.argTypes avalue classes st

/-! ### `ffi_call_unix64` and `ffi_closure_unix64` -/

/-- What a function finds when it is called. -/
structure Entry where
  /-- `rdi`, `rsi`, `rdx`, `rcx`, `r8` and `r9`. -/
  gpr : Nat → Area
  xmm : Nat → Area
  rsp : Nat
  memory : Area

/-- `ffi_call_unix64` up to the call: `saved` is what it keeps behind the arguments, `pushed` the
return address, `xmm` the registers before. -/
def ffiCallUnix64 (args bytes ssecount : Nat) (saved pushed : Area) (xmm : Nat → Area)
    (memory : Area) : Entry :=
  let memory := memory.write (args + bytes) 32 saved
  { gpr := fun i => memory.at_ (args + gprOffset i)
    xmm := if ssecount = 0 then xmm else fun i => memory.at_ (args + sseOffset i)
    rsp := args + 176 - 8
    memory := memory.write (args + 176 - 8) 8 pushed }

/-- The carry bit that the trampoline of `ffi_prep_closure_loc` sets. -/
def Cif.carry (cif : Cif) : Bool := cif.flags &&& 0x800 ≠ 0

/-- The registers that `ffi_closure_unix64` saves, over what is on the stack. -/
def saveRegisters (entry : Entry) (carry : Bool) (frame : Area) : Area := fun k =>
  if k < 48 then entry.gpr (k / 8) (k % 8)
  else if carry ∧ k < 176 then entry.xmm ((k - 48) / 16) ((k - 48) % 16)
  else frame k

/-! ### `ffi_closure_unix64_inner` -/

/-- A pointer in `avalue`. -/
inductive Pointer where
  | registers (offset : Nat)
  | stack (address : Nat)
  /-- To bytes from `alloca`. -/
  | copied (bytes : Area)

structure InnerState where
  gprcount : Nat
  ssecount : Nat
  argp : Nat

/-- The loop that copies the words of an argument: `a` is the copy so far. -/
def copyWords (regArgs : Area) (classes : Classes) (j : Nat) :
    Nat → Area → InnerState → Option (Area × InnerState)
  | 0, a, st => some (a, st)
  | n + 1, a, st => do
    let c ← classes.get j
    if c.sseClassP then
      copyWords regArgs classes (j + 1) n
        (a.write (8 * j) 8 (regArgs.at_ (sseOffset st.ssecount)))
        { st with ssecount := st.ssecount + 1 }
    else
      copyWords regArgs classes (j + 1) n
        (a.write (8 * j) 8 (regArgs.at_ (gprOffset st.gprcount)))
        { st with gprcount := st.gprcount + 1 }

/-- Two consecutive integer registers. -/
def bothInteger (e : Examined) : Option Bool :=
  if e.n = 2 then do
    let class0 ← e.classes.get 0
    let class1 ← e.classes.get 1
    return !(class0.sseClassP || class1.sseClassP)
  else some false

/-- One turn of the loop of `ffi_closure_unix64_inner`; `copy` is what `alloca` gives. -/
def findArgument (regArgs copy : Area) (i : Nat) (t : FfiType) (classes : Classes)
    (st : InnerState) : Option (Pointer × InnerState) := do
  let e ← examineArgument frames [i] t classes false
  if ← passedInMemory e st.gprcount st.ssecount then
    let argp := alignUp st.argp (stackAlign t)
    return (.stack argp, { st with argp := argp + t.size.toNat })
  else if decide (e.n = 1) || (← bothInteger e) then do
    let class0 ← e.classes.get 0
    if class0.sseClassP then
      return (.registers (sseOffset st.ssecount), { st with ssecount := st.ssecount + e.n })
    else
      return (.registers (gprOffset st.gprcount), { st with gprcount := st.gprcount + e.n })
  else do
    let (a, st) ← copyWords regArgs e.classes 0 e.n copy st
    return (.copied a, st)

/-- The loop; the array of classes is a new one in each turn. -/
def findArguments (regArgs copy : Area) (i : Nat) (classes : Nat → Classes) :
    List FfiType → InnerState → Option (List Pointer)
  | [], _ => some []
  | t :: ts, st => do
    let (p, st) ← findArgument frames regArgs copy i t (classes i) st
    let rest ← findArguments regArgs copy (i + 1) classes ts st
    return p :: rest

/-- Where the closure's function puts its result. -/
inductive ResultPlace where
  | address (a : Nat)
  /-- Into the frame of `ffi_closure_unix64`. -/
  | frame
  deriving DecidableEq, Repr

/-- What `ffi_closure_unix64_inner` does about the return type: `gprcount`, where the result goes
and what it returns. -/
def innerReturn (path : List Nat) (rtype : Option FfiType) (classes : Classes) (regArgs : Area) :
    Option (Nat × ResultPlace × BitVec 32) :=
  match rtype with
  | none => some (0, .frame, 0)
  | some ⟨size, alignment, type, elements⟩ => do
    let e ← examineArgument frames path ⟨size, alignment, type, elements⟩ classes true
    if e.n = 0 then return (1, .address (addressOf (regArgs.at_ (gprOffset 0))), 0)
    if type = ffiTypeStruct ∧ e.n = 2 then do
      let class0 ← e.classes.get 0
      let class1 ← e.classes.get 1
      let sse0 := class0.sseClassP
      let sse1 := class1.sseClassP
      let ret : BitVec 32 := type.setWidth 32
      return (0, .frame,
        if ¬sse0 ∧ sse1 then ret ||| 0x100 else if sse0 ∧ ¬sse1 then ret ||| 0x200 else ret)
    return (0, .frame, type.setWidth 32)

/-- `ffi_closure_unix64_inner` up to the call of the function: where its result goes, the return
value for the assembly code, and `avalue`. -/
def ffiClosureUnix64Inner (cif : Cif) (regArgs copy : Area) (argp : Nat) (classes : Classes)
    (argClasses : Nat → Classes) : Option (ResultPlace × BitVec 32 × List Pointer) := do
  let (gprcount, place, ret) ← innerReturn frames [cif.argTypes.length] cif.rtype classes regArgs
  let avalue ← findArguments frames regArgs copy 0 argClasses cif.argTypes ⟨gprcount, 0, argp⟩
  return (place, ret, avalue)

end frames

/-- What is at a pointer of the closure. -/
def Pointer.deref (p : Pointer) (regArgs memory : Area) : Area :=
  match p with
  | .registers offset => regArgs.at_ offset
  | .stack address => memory.at_ address
  | .copied bytes => bytes

end NodeFfi.Unix64
