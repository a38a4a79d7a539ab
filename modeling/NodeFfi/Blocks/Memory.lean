import Mathlib.Data.List.Forall2
import Mathlib.Logic.Function.Basic

/-!
# Memory in blocks

Memory is a sequence of blocks, each a list of bytes with a size that is fixed when it is
allocated. A byte of a stored pointer is a fragment of that pointer, so a pointer is read back from
the eight fragments of it and from nothing else. An access outside its block, or through a pointer
that leads to no block, sets `corrupt`.
-/

namespace NodeFfi.Blocks

/-- A pointer to the start of a block, or to memory that is not described here. -/
inductive Ptr where
  | block (b : Nat)
  | foreign (address : Nat)
  deriving DecidableEq, Repr

def Ptr.null : Ptr := .foreign 0

inductive Byte where
  | poison
  | raw (b : UInt8)
  | fragment (p : Ptr) (i : Nat)
  deriving DecidableEq, Repr

/-- The size of a pointer. -/
def pointerSize : Nat := 8

def encodePtr (p : Ptr) : List Byte := (List.range pointerSize).map (Byte.fragment p)

/-- The number that raw bytes are, the first one the lowest. -/
def littleEndian : List Byte → Nat
  | [] => 0
  | .raw b :: rest => b.toNat + 256 * littleEndian rest
  | _ :: rest => 256 * littleEndian rest

def decodePtr : List Byte → Ptr
  | .fragment p i :: rest =>
    if .fragment p i :: rest = encodePtr p then p else .null
  | bytes => .foreign (littleEndian bytes)

@[simp] theorem length_encodePtr (p : Ptr) : (encodePtr p).length = pointerSize := by
  unfold encodePtr
  simp

@[simp] theorem decodePtr_encodePtr (p : Ptr) : decodePtr (encodePtr p) = p := by
  have h : encodePtr p = .fragment p 0 :: (encodePtr p).tail := rfl
  rw [h]
  unfold decodePtr
  exact if_pos h.symm

structure Memory where
  blocks : Nat → List Byte
  next : Nat
  corrupt : Bool

namespace Memory

def setBlock (m : Memory) (b : Nat) (bytes : List Byte) : Memory :=
  { m with blocks := Function.update m.blocks b bytes }

/-- A new block with undefined contents. -/
def alloc (m : Memory) (size : Nat) : Ptr × Memory :=
  (.block m.next,
    { m.setBlock m.next (List.replicate size .poison) with next := m.next + 1 })

/-- A new block with these contents. -/
def place (m : Memory) (bytes : List Byte) : Memory :=
  { m.setBlock m.next bytes with next := m.next + 1 }

/-- `bytes` written over a block from an offset on. -/
def overlay (block : List Byte) (offset : Nat) (bytes : List Byte) : List Byte :=
  block.take offset ++ bytes ++ block.drop (offset + bytes.length)

/-- The bytes lie in a block that exists. -/
def inBounds (m : Memory) (p : Ptr) (offset length : Nat) : Bool :=
  match p with
  | .block b => b < m.next ∧ offset + length ≤ (m.blocks b).length
  | .foreign _ => false

def read (m : Memory) (p : Ptr) (offset length : Nat) : List Byte × Memory :=
  match p with
  | .block b =>
    if m.inBounds p offset length then (((m.blocks b).drop offset).take length, m)
    else (List.replicate length .poison, { m with corrupt := true })
  | .foreign _ => (List.replicate length .poison, { m with corrupt := true })

def write (m : Memory) (p : Ptr) (offset : Nat) (bytes : List Byte) : Memory :=
  match p with
  | .block b =>
    if m.inBounds p offset bytes.length then m.setBlock b (overlay (m.blocks b) offset bytes)
    else { m with corrupt := true }
  | .foreign _ => { m with corrupt := true }

def readPointer (m : Memory) (p : Ptr) (offset : Nat) : Ptr × Memory :=
  let (bytes, m) := m.read p offset pointerSize
  (decodePtr bytes, m)

def writePointer (m : Memory) (p : Ptr) (offset : Nat) (q : Ptr) : Memory :=
  m.write p offset (encodePtr q)

/-! ### Accesses within a block -/

@[simp] theorem place_next (m : Memory) (bytes : List Byte) : (m.place bytes).next = m.next + 1 :=
  rfl

@[simp] theorem place_new (m : Memory) (bytes : List Byte) : (m.place bytes).blocks m.next = bytes :=
  Function.update_self _ _ _

theorem place_old (m : Memory) (bytes : List Byte) {b : Nat} (h : b < m.next) :
    (m.place bytes).blocks b = m.blocks b :=
  Function.update_of_ne (Nat.ne_of_lt h) _ _

@[simp] theorem place_setBlock (m : Memory) (bytes bytes' : List Byte) :
    (m.place bytes).setBlock m.next bytes' = m.place bytes' := by
  unfold place setBlock
  simp only [Function.update_idem]

@[simp] theorem setBlock_next (m : Memory) (b : Nat) (bytes : List Byte) :
    (m.setBlock b bytes).next = m.next := rfl

@[simp] theorem setBlock_same (m : Memory) (b : Nat) (bytes : List Byte) :
    (m.setBlock b bytes).blocks b = bytes := Function.update_self _ _ _

variable {m : Memory} {b : Nat}

theorem read_eq {offset length : Nat} (hb : b < m.next)
    (hlen : offset + length ≤ (m.blocks b).length) :
    m.read (.block b) offset length = (((m.blocks b).drop offset).take length, m) := by
  unfold read inBounds
  simp [hb, hlen]

theorem write_eq {offset : Nat} {bytes : List Byte} (hb : b < m.next)
    (hlen : offset + bytes.length ≤ (m.blocks b).length) :
    m.write (.block b) offset bytes = m.setBlock b (overlay (m.blocks b) offset bytes) := by
  unfold write inBounds
  simp [hb, hlen]

theorem read_middle (pre : List Byte) {mid post : List Byte} (hb : b < m.next)
    (hblock : m.blocks b = pre ++ mid ++ post) :
    m.read (.block b) pre.length mid.length = (mid, m) := by
  rw [read_eq hb (by rw [hblock]; simp), hblock, List.append_assoc, List.drop_left, List.take_left]

theorem write_middle (pre : List Byte) {mid mid' post : List Byte} (hb : b < m.next)
    (hblock : m.blocks b = pre ++ mid ++ post) (hlen : mid'.length = mid.length) :
    m.write (.block b) pre.length mid' = m.setBlock b (pre ++ mid' ++ post) := by
  rw [write_eq hb (by rw [hblock, hlen]; simp)]
  have htake : (pre ++ mid ++ post).take pre.length = pre := by
    rw [List.append_assoc, List.take_left]
  have hdrop : (pre ++ mid ++ post).drop (pre.length + mid.length) = post := by
    rw [← List.length_append, List.drop_left]
  unfold overlay
  rw [hblock, hlen, htake, hdrop]

theorem length_overlay {old bytes : List Byte} (h : bytes.length ≤ old.length) :
    (overlay old 0 bytes).length = old.length := by
  unfold overlay
  simp
  omega

theorem write_front {old bytes post : List Byte} (hb : b < m.next)
    (hblock : m.blocks b = old ++ post) (hlen : bytes.length ≤ old.length) :
    m.write (.block b) 0 bytes = m.setBlock b (overlay old 0 bytes ++ post) := by
  rw [write_eq hb (by rw [hblock, List.length_append]; omega)]
  unfold overlay
  rw [hblock, Nat.zero_add, List.drop_append_of_le_length hlen]
  simp

theorem readPointer_middle (pre : List Byte) {post : List Byte} {q : Ptr} (hb : b < m.next)
    (hblock : m.blocks b = pre ++ encodePtr q ++ post) :
    m.readPointer (.block b) pre.length = (q, m) := by
  have h := read_middle pre hb hblock
  rw [length_encodePtr] at h
  unfold readPointer
  rw [h]
  simp

theorem writePointer_middle (pre : List Byte) {mid post : List Byte} {q : Ptr} (hb : b < m.next)
    (hblock : m.blocks b = pre ++ mid ++ post) (hlen : mid.length = pointerSize) :
    m.writePointer (.block b) pre.length q = m.setBlock b (pre ++ encodePtr q ++ post) :=
  write_middle pre hb hblock (by rw [length_encodePtr, hlen])

theorem of_inBounds {p : Ptr} {offset length : Nat} (h : m.inBounds p offset length = true) :
    ∃ b pre mid post, p = .block b ∧ b < m.next ∧ m.blocks b = pre ++ mid ++ post ∧
      pre.length = offset ∧ mid.length = length := by
  cases p with
  | foreign _ => cases h
  | block b =>
    simp only [inBounds, decide_eq_true_eq] at h
    obtain ⟨hb, hlen⟩ := h
    refine ⟨b, (m.blocks b).take offset, ((m.blocks b).drop offset).take length,
      ((m.blocks b).drop offset).drop length, rfl, hb, ?_, ?_, ?_⟩
    · rw [List.append_assoc, List.take_append_drop, List.take_append_drop]
    · rw [List.length_take]
      omega
    · rw [List.length_take, List.length_drop]
      omega

theorem readPointer_writePointer {p : Ptr} {offset : Nat}
    (h : m.inBounds p offset pointerSize = true) (q : Ptr) :
    (m.writePointer p offset q).readPointer p offset = (q, m.writePointer p offset q) := by
  obtain ⟨b, pre, mid, post, rfl, hb, hblock, rfl, hmid⟩ := of_inBounds h
  rw [writePointer_middle pre hb hblock hmid]
  exact readPointer_middle pre hb (setBlock_same _ _ _)

theorem inBounds_writePointer {p p' : Ptr} {offset offset' length : Nat}
    (h : m.inBounds p offset pointerSize = true) (q : Ptr)
    (h' : m.inBounds p' offset' length = true) :
    (m.writePointer p offset q).inBounds p' offset' length = true := by
  obtain ⟨b, pre, mid, post, rfl, hb, hblock, rfl, hmid⟩ := of_inBounds h
  rw [writePointer_middle pre hb hblock hmid]
  cases p' with
  | foreign _ => cases h'
  | block b' =>
    simp only [inBounds, decide_eq_true_eq] at h' ⊢
    refine ⟨h'.1, ?_⟩
    by_cases heq : b' = b
    · rw [heq, hblock] at h'
      rw [heq, setBlock_same]
      simp only [List.length_append, length_encodePtr] at h' ⊢
      omega
    · have hother : (m.setBlock b (pre ++ encodePtr q ++ post)).blocks b' = m.blocks b' :=
        Function.update_of_ne heq _ _
      rw [hother]
      exact h'.2

theorem inBounds_alloc {p : Ptr} {offset length : Nat} (h : m.inBounds p offset length = true)
    (size : Nat) : (m.alloc size).2.inBounds p offset length = true := by
  cases p with
  | foreign _ => cases h
  | block b =>
    simp only [inBounds, decide_eq_true_eq] at h ⊢
    have hother : (m.alloc size).2.blocks b = m.blocks b :=
      Function.update_of_ne (Nat.ne_of_lt h.1) _ _
    rw [hother]
    exact ⟨Nat.lt_succ_of_lt h.1, h.2⟩

/-! ### Arrays of pointers -/

/-- The contents of an array of pointers to these blocks. -/
def pointers (ps : List Nat) : List Byte := ps.flatMap fun b => encodePtr (.block b)

theorem length_pointers (ps : List Nat) : (pointers ps).length = ps.length * pointerSize := by
  unfold pointers
  induction ps with
  | nil => rfl
  | cons p ps ih =>
    rw [List.flatMap_cons, List.length_append, length_encodePtr, ih, List.length_cons, Nat.succ_mul]
    omega

theorem pointers_append (ps qs : List Nat) : pointers (ps ++ qs) = pointers ps ++ pointers qs :=
  List.flatMap_append

theorem pointers_snoc (ps : List Nat) (p : Nat) :
    pointers (ps ++ [p]) = pointers ps ++ encodePtr (.block p) := by
  rw [pointers_append]
  simp [pointers]

/-- These blocks exist and have these contents. -/
abbrev Holds (m : Memory) (ps : List Nat) (bss : List (List Byte)) : Prop :=
  List.Forall₂ (fun b bytes => b < m.next ∧ m.blocks b = bytes) ps bss

theorem Holds.mem {ps : List Nat} {bss : List (List Byte)} (h : m.Holds ps bss) {b : Nat}
    (hb : b ∈ ps) : ∃ bytes ∈ bss, b < m.next ∧ m.blocks b = bytes := by
  induction h with
  | nil => cases hb
  | cons hp _ ih =>
    rcases List.mem_cons.mp hb with rfl | hb
    · exact ⟨_, List.mem_cons_self, hp⟩
    · obtain ⟨bytes, hbytes, h⟩ := ih hb
      exact ⟨bytes, List.mem_cons_of_mem _ hbytes, h⟩

/-- Block `a` is an array of pointers to blocks with these contents. -/
structure PointsTo (m : Memory) (a : Nat) (ps : List Nat) (bss : List (List Byte)) : Prop where
  lt : a < m.next
  array : m.blocks a = pointers ps
  targets : m.Holds ps bss

theorem readPointer_pointers {a p : Nat} {pre post : List Nat} (ha : a < m.next)
    (harray : m.blocks a = pointers (pre ++ p :: post)) :
    m.readPointer (.block a) (pre.length * pointerSize) = (.block p, m) := by
  have hblock : m.blocks a = pointers pre ++ encodePtr (.block p) ++ pointers post := by
    rw [harray, List.append_cons, pointers_append, pointers_snoc]
  rw [← length_pointers]
  exact readPointer_middle _ ha hblock

theorem writePointer_pointers {a p : Nat} {pre : List Nat} {rest : List Byte} {n : Nat}
    (ha : a < m.next) (harray : m.blocks a = pointers pre ++ rest)
    (hrest : rest.length = (n + 1) * pointerSize) :
    m.writePointer (.block a) (pre.length * pointerSize) (.block p) =
      m.setBlock a (pointers (pre ++ [p]) ++ rest.drop pointerSize) := by
  have hblock : m.blocks a =
      pointers pre ++ rest.take pointerSize ++ rest.drop pointerSize := by
    rw [harray, List.append_assoc, List.take_append_drop]
  have hlen : (rest.take pointerSize).length = pointerSize := by
    rw [List.length_take, hrest, Nat.succ_mul]
    omega
  rw [← length_pointers, writePointer_middle _ ha hblock hlen, pointers_snoc]

/-! ### What an operation leaves as it was -/

/-- Nothing that `m` has allocated changes from `m` to `m'`, except the blocks `own`. -/
structure Keeps (own : Nat → Prop) (m m' : Memory) : Prop where
  next : m.next ≤ m'.next
  blocks : ∀ b < m.next, ¬ own b → m'.blocks b = m.blocks b
  corrupt : m'.corrupt = m.corrupt

/-- Only new blocks change. -/
abbrev Extends (m m' : Memory) : Prop := Keeps (fun _ => False) m m'

variable {own : Nat → Prop} {m' m'' : Memory}

theorem Keeps.refl (own : Nat → Prop) (m : Memory) : Keeps own m m :=
  ⟨Nat.le_refl _, fun _ _ _ => rfl, rfl⟩

theorem Keeps.trans (h : Keeps own m m') (h' : Keeps own m' m'') : Keeps own m m'' := by
  refine ⟨Nat.le_trans h.next h'.next, ?_, h'.corrupt.trans h.corrupt⟩
  intro b hb hown
  rw [h'.blocks b (Nat.lt_of_lt_of_le hb h.next) hown, h.blocks b hb hown]

theorem Keeps.fresh {own' : Nat → Prop} (h : Keeps own m m')
    (hown : ∀ b, own b → own' b ∨ m.next ≤ b) : Keeps own' m m' := by
  refine ⟨h.next, ?_, h.corrupt⟩
  intro b hb hb'
  apply h.blocks b hb
  intro hob
  rcases hown b hob with ho | ho
  · exact hb' ho
  · omega

theorem keeps_place (own : Nat → Prop) (m : Memory) (bytes : List Byte) :
    Keeps own m (m.place bytes) :=
  ⟨Nat.le_succ _, fun _ hb _ => place_old m bytes hb, rfl⟩

theorem keeps_setBlock (m : Memory) {b : Nat} (bytes : List Byte) (hb : own b) :
    Keeps own m (m.setBlock b bytes) := by
  refine ⟨Nat.le_refl _, ?_, rfl⟩
  intro b' _ hb'
  apply Function.update_of_ne
  rintro rfl
  exact hb' hb

theorem Holds.keeps {ps : List Nat} {bss : List (List Byte)} (h : m.Holds ps bss)
    (hkeeps : Keeps own m m') (hps : ∀ b ∈ ps, ¬ own b) : m'.Holds ps bss := by
  induction h with
  | nil => exact .nil
  | @cons b bytes ps bss hb _ ih =>
    have hlt := Nat.lt_of_lt_of_le hb.1 hkeeps.next
    have hblock : m'.blocks b = bytes := by
      rw [hkeeps.blocks b hb.1 (hps b List.mem_cons_self)]
      exact hb.2
    exact .cons ⟨hlt, hblock⟩ (ih fun b' hb' => hps b' (List.mem_cons_of_mem b hb'))

theorem PointsTo.keeps {a : Nat} {ps : List Nat} {bss : List (List Byte)}
    (h : PointsTo m a ps bss) (hkeeps : Keeps own m m') (ha : ¬ own a) (hps : ∀ b ∈ ps, ¬ own b) :
    PointsTo m' a ps bss :=
  ⟨Nat.lt_of_lt_of_le h.lt hkeeps.next, (hkeeps.blocks a h.lt ha).trans h.array,
    h.targets.keeps hkeeps hps⟩

/-! ### Filling an array of pointers -/

/-- A new block with these bytes, and a pointer to it behind those that the array has. -/
def addTarget (m : Memory) (a : Nat) (done : List Nat) (rest bytes : List Byte) : Memory :=
  (m.place bytes).setBlock a (pointers (done ++ [m.next]) ++ rest.drop pointerSize)

section addTarget

variable {a n : Nat} {done : List Nat} {rest bytes : List Byte}

theorem writePointer_place (ha : a < m.next) (harray : m.blocks a = pointers done ++ rest)
    (hrest : rest.length = (n + 1) * pointerSize) :
    (m.place bytes).writePointer (.block a) (done.length * pointerSize) (.block m.next) =
      m.addTarget a done rest bytes := by
  apply writePointer_pointers (Nat.lt_succ_of_lt ha) _ hrest
  rw [place_old _ _ ha, harray]

theorem addTarget_array : (m.addTarget a done rest bytes).blocks a =
    pointers (done ++ [m.next]) ++ rest.drop pointerSize := setBlock_same _ _ _

theorem lt_addTarget (ha : a < m.next) : a < (m.addTarget a done rest bytes).next :=
  Nat.lt_succ_of_lt ha

theorem length_drop_pointer (hrest : rest.length = (n + 1) * pointerSize) :
    (rest.drop pointerSize).length = n * pointerSize := by
  rw [List.length_drop, hrest, Nat.succ_mul]
  omega

theorem keeps_addTarget : Keeps (· = a) m (m.addTarget a done rest bytes) :=
  (keeps_place _ _ _).trans (keeps_setBlock _ _ rfl)

theorem holds_addTarget {ps : List Nat} {bss : List (List Byte)} (ha : a < m.next)
    (hkeeps : Keeps (· = a) (m.addTarget a done rest bytes) m') (h : m'.Holds ps bss) :
    m'.Holds (m.next :: ps) (bytes :: bss) := by
  have hnext : m.next < (m.addTarget a done rest bytes).next := Nat.lt_succ_self _
  have hne : m.next ≠ a := (Nat.ne_of_lt ha).symm
  refine .cons ⟨Nat.lt_of_lt_of_le hnext hkeeps.next, ?_⟩ h
  rw [hkeeps.blocks _ hnext hne]
  exact (Function.update_of_ne hne _ _).trans (place_new _ _)

end addTarget

end Memory

end NodeFfi.Blocks
