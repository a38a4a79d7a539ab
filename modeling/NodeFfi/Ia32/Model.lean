import NodeFfi.Bytes.Word
import NodeFfi.Libffi.StackBytes

/-!
# Calls on 32-bit Windows

`x86/ffi.c` for `X86_WIN32`, with what `x86/win32.asm` does around it. The arguments are on the stack
in their order, each in as many words as it takes; for `thiscall` and `fastcall` the first one or two
that go into registers are moved to the front, from where `ffi_call_win32` takes them. Of a register
the first four bytes count. `FFI_TYPE_LONGDOUBLE` is `FFI_TYPE_DOUBLE` in this configuration.
-/

namespace NodeFfi.Ia32

open Bytes Layout Libffi

/-- `ffi_abi`. -/
inductive Abi
  | sysv | stdcall | thiscall | fastcall | msCdecl
  deriving DecidableEq

/-! ### `ffi_prep_cif_machdep` -/

/-- `ffi_cif`. -/
structure Cif where
  abi : Abi
  rtype : FfiType
  argTypes : List FfiType
  bytes : BitVec 32
  flags : BitVec 32

/-- A structure that is not returned in registers. -/
def inMemory (rtype : FfiType) : Bool :=
  code rtype = ffiTypeStruct ∧ rtype.size ≠ 1 ∧ rtype.size ≠ 2 ∧ rtype.size ≠ 4 ∧ rtype.size ≠ 8

def prepFlags (abi : Abi) (rtype : FfiType) : BitVec 32 :=
  let type := code rtype
  if type = 0 ∨ type = 5 ∨ type = 7 ∨ type = 6 ∨ type = 8 ∨ type = 12 ∨ type = 2 ∨ type = 3 then
    type.setWidth 32
  else if type = 11 then 12
  else if type = ffiTypeStruct then
    if rtype.size = 1 then 15
    else if rtype.size = 2 then 16
    else if rtype.size = 4 then 1
    else if rtype.size = 8 then 12
    else if abi = .msCdecl then 18
    else 13
  else 1

/-- `ffi_prep_cif_machdep`. -/
def ffiPrepCifMachdep (abi : Abi) (rtype : FfiType) (argTypes : List FfiType) : Cif where
  abi := abi
  rtype := rtype
  argTypes := argTypes
  bytes := prepBytes 4 argTypes (if inMemory rtype then 4 else 0)
  flags := prepFlags abi rtype

/-- The result goes to an address that is passed in front of the arguments. -/
def Cif.hidden (cif : Cif) : Bool := cif.flags = 13 ∨ cif.flags = 18

/-! ### `ffi_prep_args` -/

/-- The `switch` for what is shorter than an `ffi_arg`. -/
def widened (type : BitVec 16) (a : Area) : Option Area :=
  if type = 6 then some (signExtend a 1)
  else if type = 5 then some (a.extend 1)
  else if type = 8 then some (signExtend a 2)
  else if type = 7 then some (a.extend 2)
  else if type = 10 ∨ type = 9 ∨ type = ffiTypeStruct then some a
  else none

/-- What is written for an argument at the address `p`. -/
def passArgument (t : FfiType) (p argp : Nat) (m : Area) : Area :=
  if t.size.toNat < 4 then
    match widened (code t) (m.at_ p) with
    | some word => m.write argp 4 word
    | none => m
  else m.write argp t.size.toNat (m.at_ p)

/-- `z`, after the argument has been written. -/
def passedSize (t : FfiType) : Nat := if t.size.toNat < 4 then 4 else t.size.toNat

/-- How many arguments may go into registers. -/
def Abi.registers : Abi → Nat
  | .thiscall => 1
  | .fastcall => 2
  | _ => 0

/-- `p_stack_args` and `p_stack_data`: sizes and places of what goes into registers. -/
abbrev Recorded := List (Nat × Nat)

/-- The loop over the arguments. -/
def passArguments (registers : Nat) :
    List FfiType → List Nat → Nat → Recorded → Area → Recorded × Area
  | t :: ts, p :: avalue, argp, recorded, m =>
    let argp := roundUp argp 4
    let m := passArgument t p argp m
    let z := passedSize t
    let recorded :=
      if recorded.length < registers ∧ z ≤ 4 ∧ code t ≠ 2 ∧ code t ≠ ffiTypeStruct then
        recorded ++ [(z, argp)]
      else recorded
    passArguments registers ts avalue (argp + z) recorded m
  | _, _, _, recorded, m => (recorded, m)

/-- `zz` bytes from `data` on are moved in front of what starts at `argp2`. -/
def moveToTop (argp2 data zz : Nat) (m : Area) : Area :=
  let h := m.at_ data
  (m.write (argp2 + zz) (data - argp2) (m.at_ argp2)).write argp2 zz h

/-- The second argument for a register is moved after the first one. -/
def moveSecond (argp2 : Nat) (m : Area) : Recorded → Area
  | [] => m
  | (z, data) :: _ => if data ≠ argp2 then moveToTop argp2 data (roundUp z 4) m else m

/-- The arguments for registers are moved on top of the stack. -/
def moveRegisterArguments (stack : Nat) (recorded : Recorded) (m : Area) : Area :=
  match recorded with
  | [] => m
  | (z, data) :: rest =>
    let zz := roundUp z 4
    let m := if data ≠ stack then moveToTop stack data zz m else m
    let argp2 := stack + zz
    if 4 < zz then m else moveSecond argp2 m rest

/-- `ffi_prep_args`. -/
def ffiPrepArgs (cif : Cif) (stack rvalue : Nat) (avalue : List Nat) (m : Area) : Area :=
  let (recorded, m) :=
    if cif.hidden then
      passArguments cif.abi.registers cif.argTypes avalue (stack + 4)
        (if 0 < cif.abi.registers then [(4, stack)] else []) (m.write stack 4 (addressBytes rvalue))
    else passArguments cif.abi.registers cif.argTypes avalue stack [] m
  moveRegisterArguments stack recorded m

/-! ### `ffi_call` -/

/-- The loop that counts the arguments in registers, up to two. -/
def passedRegs : List FfiType → Nat → Nat
  | [], passed => passed
  | t :: ts, passed =>
    if 2 ≤ passed then passed
    else if code t = 2 ∨ code t = ffiTypeStruct then passedRegs ts passed
    else if roundUp t.size.toNat 4 = 0 ∨ 4 < roundUp t.size.toNat 4 then passedRegs ts passed
    else passedRegs ts (passed + 1)

/-- The ABI for `ffi_call_win32`, which takes as many words into registers as there are. -/
def callAbi (cif : Cif) : Abi :=
  let passed := passedRegs cif.argTypes (if cif.flags = 13 then 1 else 0)
  match cif.abi with
  | .fastcall => if passed < 1 then .stdcall else if passed < 2 then .thiscall else .fastcall
  | .thiscall => if passed < 1 then .stdcall else .thiscall
  | abi => abi

/-- What a function finds when it is called. -/
structure Entry where
  ecx : Area
  edx : Area
  esp : Nat
  memory : Area

/-- The call in `ffi_call_win32`, which pushes the return address, after words have been taken into
registers. -/
def enterFunction (abi : Abi) (esp : Nat) (ecx edx pushed m : Area) : Entry :=
  match abi with
  | .fastcall => ⟨m.at_ esp, m.at_ (esp + 4), esp + 4, m.write (esp + 4) 4 pushed⟩
  | .thiscall => ⟨m.at_ esp, edx, esp, m.write esp 4 pushed⟩
  | _ => ⟨ecx, edx, esp - 4, m.write (esp - 4) 4 pushed⟩

/-- `ffi_call_win32` up to the call; `ecx` and `edx` are what is in the registers otherwise. -/
def ffiCallWin32 (cif : Cif) (frame rvalue : Nat) (avalue : List Nat) (ecx edx pushed m : Area) :
    Entry :=
  let esp := frame - cif.bytes.toNat
  enterFunction (callAbi cif) esp ecx edx pushed (ffiPrepArgs cif esp rvalue avalue m)

/-! ### Closures -/

/-- The loop of `ffi_prep_incoming_args_SYSV`. -/
def incomingArgs : List FfiType → Nat → List Nat
  | [], _ => []
  | t :: ts, argp =>
    let argp := roundUp argp 4
    argp :: incomingArgs ts (argp + t.size.toNat)

/-- `ffi_prep_incoming_args_SYSV`: where the result goes, and where the arguments are. -/
def ffiPrepIncomingArgsSysv (cif : Cif) (stack resp : Nat) (m : Area) : Nat × List Nat :=
  if cif.hidden then
    (addressOf ((m.at_ stack).extend 4), incomingArgs cif.argTypes (stack + 4))
  else (resp, incomingArgs cif.argTypes stack)

end NodeFfi.Ia32
