import NodeFfi.Libffi.Target

/-!
# Classifying arguments for x86-64

`merge_classes`, `classify_argument` and `examine_argument` of `x86/ffi64.c`. `subclasses` and the
`classes` of the callers are arrays on the stack that nobody initializes: `Frames` is what they
hold, for each call of `classify_argument` its own contents. A computation is `none` where the C
code has no defined behaviour: an index outside an array, or `elements` that are `NULL`. The
assertions of libffi are empty in a release build.
-/

namespace NodeFfi.Unix64

open Libffi

/-! ### Classes -/

/-- `enum x86_64_reg_class`. -/
inductive RegClass where
  | no
  | integer
  | integersi
  | sse
  | ssesf
  | ssedf
  | sseup
  | x87
  | x87up
  | complexX87
  | memory
  deriving DecidableEq, Repr

/-- `SSE_CLASS_P`. -/
def RegClass.sseClassP (x : RegClass) : Bool :=
  decide (RegClass.sse.ctorIdx ≤ x.ctorIdx) && decide (x.ctorIdx ≤ RegClass.sseup.ctorIdx)

/-- `merge_classes`. -/
def mergeClasses (class1 class2 : RegClass) : RegClass :=
  if class1 = class2 then class1
  else if class1 = .no then class2
  else if class2 = .no then class1
  else if class1 = .memory ∨ class2 = .memory then .memory
  else if class1 = .integersi ∧ class2 = .ssesf ∨ class2 = .integersi ∧ class1 = .ssesf then
    .integersi
  else if class1 = .integer ∨ class1 = .integersi ∨ class2 = .integer ∨ class2 = .integersi then
    .integer
  else if class1 = .x87 ∨ class1 = .x87up ∨ class1 = .complexX87 ∨
      class2 = .x87 ∨ class2 = .x87up ∨ class2 = .complexX87 then
    .memory
  else .sse

/-- An array of classes: what is at each index. -/
abbrev Classes := Nat → RegClass

/-- `MAX_CLASSES`. -/
def maxClasses : Nat := 4

namespace Classes

def get (classes : Classes) (i : Nat) : Option RegClass :=
  if i < maxClasses then some (classes i) else none

def set (classes : Classes) (i : Nat) (c : RegClass) : Option Classes :=
  if i < maxClasses then some (Function.update classes i c) else none

end Classes

/-- What each call finds in its array, the call given by the path that leads to it. -/
abbrev Frames := List Nat → Classes

/-! ### Types -/

/-- The labels of the `switch` over `type->type`. -/
inductive TypeCase where
  | integer
  | float
  | double
  | longdouble
  | struct
  | default
  deriving DecidableEq, Repr

/-- The label for a `FFI_TYPE_*` code. -/
def typeCase (type : BitVec 16) : TypeCase :=
  if type = 2 then .float
  else if type = 3 then .double
  else if type = 4 then .longdouble
  else if type = ffiTypeStruct then .struct
  else if type = 14 ∨ 5 ≤ type ∧ type ≤ 12 then .integer
  else .default

/-! ### `classify_argument` -/

/-- The case of `FFI_TYPE_FLOAT`. -/
def classifyFloat (classes : Classes) (byteOffset : BitVec 64) : Option (Nat × Classes) := do
  let classes ← classes.set 0 (if byteOffset.toNat % 8 = 0 then .ssesf else .sse)
  return (1, classes)

/-- The case of the integers and of pointers. A size that fits nowhere falls through. -/
def classifyInteger (typeSize : BitVec 64) (classes : Classes) (byteOffset : BitVec 64) :
    Option (Nat × Classes) :=
  let size := ((byteOffset + typeSize).setWidth 32).toInt
  if size ≤ 4 then do
    let classes ← classes.set 0 .integersi
    return (1, classes)
  else if size ≤ 8 then do
    let classes ← classes.set 0 .integer
    return (1, classes)
  else if size ≤ 12 then do
    let classes ← classes.set 0 .integer
    let classes ← classes.set 1 .integersi
    return (2, classes)
  else if size ≤ 16 then do
    let classes ← classes.set 1 .integersi
    let classes ← classes.set 0 .integersi
    return (2, classes)
  else classifyFloat classes byteOffset

/-- `for (i = 0; i < words; i++) classes[i] = X86_64_NO_CLASS`. -/
def clearClasses (classes : Classes) (words : Nat) : Option Classes :=
  (List.range words).foldlM (fun classes i => classes.set i .no) classes

/-- The `for` loop that merges the `num` classes of a field. -/
def mergeField (subclasses classes : Classes) (pos num : Nat) : Option Classes :=
  (List.range num).foldlM
    (fun classes i => do
      let c ← subclasses.get i
      let d ← classes.get (i + pos)
      classes.set (i + pos) (mergeClasses c d))
    classes

/-- Some class from `classes[1]` on is not `X86_64_SSEUP_CLASS`. -/
def notSseup (classes : Classes) (words : Nat) : Option Bool :=
  (List.range' 1 (words - 1)).foldlM
    (fun found i => do
      if found then return true
      let c ← classes.get i
      return decide (c ≠ .sseup))
    false

/-- One turn of the final cleanup; `none` inside is the return of `0`. -/
def cleanupWord (classes : Classes) (i : Nat) : Option (Option Classes) := do
  let c ← classes.get i
  if c = .memory then return none
  if c = .sseup then do
    if i = 0 then none
    let before ← classes.get (i - 1)
    if before ≠ .sse ∧ before ≠ .sseup then do
      let classes ← classes.set i .sse
      return some classes
    return some classes
  if c = .x87up then do
    if i = 0 then none
    let before ← classes.get (i - 1)
    if before ≠ .x87 then return none
    return some classes
  return some classes

/-- The final cleanup from word `i` on, over `count` words. -/
def cleanup (classes : Classes) (i : Nat) : Nat → Option (Option Classes)
  | 0 => some (some classes)
  | count + 1 => do
    match ← cleanupWord classes i with
    | none => return none
    | some classes => cleanup classes (i + 1) count

/-- What follows the loop over the fields. -/
def finishStruct (classes : Classes) (words : Nat) : Option (Nat × Classes) := do
  if words > 2 then
    let first ← classes.get 0
    if first ≠ .sse then return (0, classes)
    if ← notSseup classes words then return (0, classes)
  match ← cleanup classes 0 words with
  | none => return (0, classes)
  | some classes => return (words, classes)

/-- The words of an aggregate. -/
def wordsOf (size : BitVec 64) : Nat := ((size + 8 - 1).toNat / 8)

section classify

variable (frames : Frames)

mutual

/-- `classify_argument`: the number of words, with what `classes` is afterwards. -/
def classifyArgument (path : List Nat) : FfiType → Classes → BitVec 64 → Option (Nat × Classes)
  | ⟨size, _, type, elements⟩, classes, byteOffset =>
    match typeCase type with
    | .integer => classifyInteger size classes byteOffset
    | .float => classifyFloat classes byteOffset
    | .double => do
      let classes ← classes.set 0 .ssedf
      return (1, classes)
    | .longdouble => do
      let classes ← classes.set 0 .x87
      let classes ← classes.set 1 .x87up
      return (2, classes)
    | .struct =>
      let words := wordsOf size
      if size > 32 then some (0, classes)
      else do
        let classes ← clearClasses classes words
        if words = 0 then do
          let classes ← classes.set 0 .no
          return (1, classes)
        match elements with
        | none => none
        | some elements =>
          match ← classifyElements path 0 elements (frames path) classes byteOffset with
          | (false, classes) => return (0, classes)
          | (true, classes) => finishStruct classes words
    | .default => some (0, classes)

/-- The loop over the fields from the one of number `i` on; `false` is the return of `0`. -/
def classifyElements (path : List Nat) (i : Nat) : List FfiType → Classes → Classes → BitVec 64 →
    Option (Bool × Classes)
  | [], _, classes, _ => some (true, classes)
  | ptr :: rest, subclasses, classes, byteOffset => do
    let byteOffset := align byteOffset ptr.alignArg
    let (num, subclasses) ← classifyArgument (i :: path) ptr subclasses (byteOffset % 8)
    if num = 0 then return (false, classes)
    let classes ← mergeField subclasses classes (byteOffset.toNat / 8) num
    classifyElements path (i + 1) rest subclasses classes (byteOffset + ptr.size)

end

/-! ### `examine_argument` -/

/-- What `examine_argument` returns: `n`, and through its arguments `classes`, `ngpr` and
`nsse`, which it leaves unset in some cases. -/
structure Examined where
  n : Nat
  classes : Classes
  counts : Option (Nat × Nat)

/-- One class of the `switch`: the counts so far, or that the function returns or aborts. -/
inductive Count where
  | counted (ngpr nsse : Nat)
  | x87
  | aborted

/-- The loop over the classes. -/
def countClasses (classes : Classes) (n : Nat) : Option Count :=
  (List.range n).foldlM
    (fun count i =>
      match count with
      | .counted ngpr nsse => do
        match ← classes.get i with
        | .integer | .integersi => return .counted (ngpr + 1) nsse
        | .sse | .ssesf | .ssedf => return .counted ngpr (nsse + 1)
        | .no | .sseup => return .counted ngpr nsse
        | .x87 | .x87up | .complexX87 => return .x87
        | .memory => return .aborted
      | stopped => some stopped)
    (.counted 0 0)

/-- `examine_argument`. -/
def examineArgument (path : List Nat) (type : FfiType) (classes : Classes) (inReturn : Bool) :
    Option Examined := do
  let (n, classes) ← classifyArgument frames path type classes 0
  if n = 0 then return ⟨0, classes, none⟩
  match ← countClasses classes n with
  | .counted ngpr nsse => return ⟨n, classes, some (ngpr, nsse)⟩
  | .x87 => return ⟨if inReturn then 1 else 0, classes, none⟩
  | .aborted => none

end classify

end NodeFfi.Unix64
