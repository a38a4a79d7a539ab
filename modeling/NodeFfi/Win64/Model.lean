import NodeFfi.Bytes.Word
import NodeFfi.Libffi.StackBytes

/-!
# Calls on 64-bit Windows

`x86/ffi.c` for `X86_WIN64`, with what `x86/win64.asm` does around it. Every argument has a word on
the stack, and the first four words go into registers from there. What does not fit into a word is
passed by its address. Memory is the bytes at all addresses, and of a register the first eight bytes
count. `FFI_TYPE_LONGDOUBLE` is `FFI_TYPE_DOUBLE` in this configuration.
-/

namespace NodeFfi.Win64

open Libffi Layout Bytes

/-! ### `ffi_prep_cif_machdep` -/

/-- `ffi_cif`. -/
structure Cif where
  rtype : FfiType
  argTypes : List FfiType
  bytes : BitVec 32
  flags : BitVec 32

/-- `z != 1 && z != 2 && z != 4 && z != 8`. -/
def irregular (z : BitVec 64) : Bool := z ≠ 1 ∧ z ≠ 2 ∧ z ≠ 4 ∧ z ≠ 8

/-- The flags for a return type. Those for a structure of one, two or four bytes are codes after
`FFI_TYPE_LAST`. -/
def prepFlags (rtype : FfiType) : BitVec 32 :=
  let type := code rtype
  if type = 0 ∨ type = 5 ∨ type = 7 ∨ type = 6 ∨ type = 8 ∨ type = 9 ∨ type = 10 ∨ type = 12 ∨
      type = 2 ∨ type = 3 then type.setWidth 32
  else if type = 11 ∨ type = 14 then 12
  else if type = ffiTypeStruct then
    if rtype.size = 1 then 15
    else if rtype.size = 2 then 16
    else if rtype.size = 4 then 17
    else if rtype.size = 8 then 12
    else 13
  else if type = 1 then 10
  else 12

/-- `ffi_prep_cif_machdep`. The last 32 bytes are for the four registers. -/
def ffiPrepCifMachdep (rtype : FfiType) (argTypes : List FfiType) : Cif where
  rtype := rtype
  argTypes := argTypes
  bytes :=
    prepBytes 8 argTypes (if code rtype = ffiTypeStruct ∧ irregular rtype.size then 8 else 0) + 32
  flags := prepFlags rtype

/-- The result goes to an address that is passed in front of the arguments. -/
def Cif.hidden (cif : Cif) : Bool :=
  (cif.flags = 13 ∨ cif.flags = 18) ∧ irregular cif.rtype.size

/-! ### `ffi_prep_args` -/

/-- The argument is passed by its address. -/
def byAddress (t : FfiType) : Bool :=
  8 < t.size.toNat ∨ (code t = ffiTypeStruct ∧ irregular t.size)

/-- The `switch` for what is shorter than an `ffi_arg`. -/
def widened (type : BitVec 16) (a : Area) : Option Area :=
  if type = 6 then some (signExtend a 1)
  else if type = 5 then some (a.extend 1)
  else if type = 8 then some (signExtend a 2)
  else if type = 7 then some (a.extend 2)
  else if type = 10 then some (signExtend a 4)
  else if type = 9 then some (a.extend 4)
  else if type = ffiTypeStruct then some a
  else none

/-- What is written for an argument at the address `p`. -/
def passArgument (t : FfiType) (p argp : Nat) (m : Area) : Area :=
  if byAddress t then m.write argp 8 (addressBytes p)
  else if code t = 2 then m.write argp t.size.toNat (m.at_ p)
  else if t.size.toNat < 8 then
    match widened (code t) (m.at_ p) with
    | some word => m.write argp 8 word
    | none => m
  else m.write argp t.size.toNat (m.at_ p)

/-- How far `argp` is moved. -/
def passedSize (t : FfiType) : Nat :=
  if byAddress t then 8
  else if code t = 2 then roundUp t.size.toNat 8
  else if t.size.toNat < 8 then 8
  else roundUp t.size.toNat 8

def passArguments : List FfiType → List Nat → Nat → Area → Area
  | t :: ts, p :: avalue, argp, m =>
    let argp := roundUp argp 8
    passArguments ts avalue (argp + passedSize t) (passArgument t p argp m)
  | _, _, _, m => m

/-- `ffi_prep_args`. -/
def ffiPrepArgs (cif : Cif) (stack rvalue : Nat) (avalue : List Nat) (m : Area) : Area :=
  if cif.hidden then
    passArguments cif.argTypes avalue (stack + 8) (m.write stack 8 (addressBytes rvalue))
  else passArguments cif.argTypes avalue stack m

/-! ### `ffi_call` -/

/-- Where the result goes: without an address, a large structure goes into new memory. -/
def Cif.resultAddress (cif : Cif) (rvalue allocated : Nat) : Nat :=
  if rvalue = 0 ∧ cif.flags = 13 ∧ irregular cif.rtype.size then allocated else rvalue

/-- What a function finds when it is called: `rcx`, `rdx`, `r8`, `r9`, and `xmm0` to `xmm3`. -/
structure Entry where
  gpr : Nat → Area
  xmm : Nat → Area
  rsp : Nat
  memory : Area

/-- Where `ffi_call_win64` has the arguments: below its frame. -/
def Cif.stack (cif : Cif) (frame : Nat) : Nat := frame - roundUp cif.bytes.toNat 16

/-- `ffi_call_win64` up to the call, which pushes the return address. -/
def ffiCallWin64 (cif : Cif) (frame rvalue : Nat) (avalue : List Nat) (pushed m : Area) : Entry :=
  let stack := cif.stack frame
  let m := ffiPrepArgs cif stack rvalue avalue m
  { gpr := fun i => m.at_ (stack + 8 * i)
    xmm := fun i => m.at_ (stack + 8 * i)
    rsp := stack - 8
    memory := m.write (stack - 8) 8 pushed }

/-- `ffi_call_win64` after the call. -/
def storeResult (flags : BitVec 32) (rax xmm0 m : Area) (rvalue : Nat) : Area :=
  if flags = 17 then m.write rvalue 4 rax
  else if flags = 16 then m.write rvalue 2 rax
  else if flags = 15 then m.write rvalue 1 rax
  else if flags = 5 then m.write rvalue 8 (rax.extend 1)
  else if flags = 6 then m.write rvalue 8 (signExtend rax 1)
  else if flags = 7 then m.write rvalue 8 (rax.extend 2)
  else if flags = 8 then m.write rvalue 8 (signExtend rax 2)
  else if flags = 9 then m.write rvalue 8 (rax.extend 4)
  else if flags = 10 then m.write rvalue 8 (signExtend rax 4)
  else if flags = 2 then m.write rvalue 4 xmm0
  else if flags = 3 then m.write rvalue 8 xmm0
  else if flags = 12 then m.write rvalue 8 rax
  else m

/-! ### Closures -/

/-- `ISFLOAT`. -/
def isFloat (t : FfiType) : Bool := code t = 2 ∨ code t = 3

/-- The bits of the mask that `ffi_prep_closure_loc` puts into the trampoline. -/
def floatMask (argTypes : List FfiType) (i : Nat) : Bool :=
  match argTypes[i]? with
  | some t => isFloat t
  | none => false

/-- `ffi_closure_win64` up to its call. -/
def saveRegisters (mask : Nat → Bool) (entry : Entry) : Area :=
  [0, 1, 2, 3].foldl (fun m i =>
    m.write (entry.rsp + 8 + 8 * i) 8 (if mask i then entry.xmm i else entry.gpr i)) entry.memory

/-- The loop of `ffi_prep_incoming_args_SYSV`. -/
def incomingArgs : List FfiType → Nat → Area → List Nat
  | [], _, _ => []
  | t :: ts, argp, m =>
    let argp := roundUp argp 8
    if byAddress t then addressOf (m.at_ argp) :: incomingArgs ts (argp + 8) m
    else argp :: incomingArgs ts (argp + roundUp t.size.toNat 8) m

/-- `ffi_prep_incoming_args_SYSV`: where the result goes, and where the arguments are. -/
def ffiPrepIncomingArgsSysv (cif : Cif) (stack rvalue : Nat) (m : Area) : Nat × List Nat :=
  if 8 < cif.rtype.size.toNat ∨ (cif.flags = 13 ∧ irregular cif.rtype.size) then
    (addressOf (m.at_ stack), incomingArgs cif.argTypes (stack + 8) m)
  else (rvalue, incomingArgs cif.argTypes stack m)

/-- What the function of a closure writes. -/
def resultSize (rtype : FfiType) : Nat := if code rtype = 0 then 0 else rtype.size.toNat

/-- What the function of a closure is given: where its result goes, and where the arguments are. -/
structure Entered where
  memory : Area
  resp : Nat
  avalue : List Nat

/-- A closure up to the call of its function: the trampoline, `ffi_closure_win64`, and
`ffi_closure_win64_inner`, whose variable `result` is at the address `result`. -/
def enterClosure (cif : Cif) (entry : Entry) (result : Nat) : Entered :=
  let m := saveRegisters (floatMask cif.argTypes) entry
  let (resp, avalue) := ffiPrepIncomingArgsSysv cif (entry.rsp + 8) result m
  ⟨m, resp, avalue⟩

/-- After a call: what the function saw, the memory, and the registers for the result. -/
structure Outcome where
  arguments : List Area
  memory : Area
  rax : Area
  xmm0 : Area

/-- A closure of the function `f`. -/
def runClosure (cif : Cif) (entry : Entry) (result : Nat) (f : List Area → Area) : Outcome :=
  let entered := enterClosure cif entry result
  let arguments := entered.avalue.map entered.memory.at_
  let m := entered.memory.write entered.resp (resultSize cif.rtype) (f arguments)
  let rax := if 8 < cif.rtype.size.toNat then addressBytes entered.resp else m.at_ entered.resp
  ⟨arguments, m, rax, rax⟩

/-- `ffi_call`, of a closure. -/
def callClosure (rtype : FfiType) (argTypes : List FfiType) (rvalue allocated : Nat)
    (avalue : List Nat) (frame result : Nat) (pushed m : Area) (f : List Area → Area) :
    List Area × Area :=
  let cif := ffiPrepCifMachdep rtype argTypes
  let rvalue := cif.resultAddress rvalue allocated
  let outcome := runClosure cif (ffiCallWin64 cif frame rvalue avalue pushed m) result f
  (outcome.arguments, storeResult cif.flags outcome.rax outcome.xmm0 outcome.memory rvalue)

end NodeFfi.Win64
