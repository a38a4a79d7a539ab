import NodeFfi.Libffi.Aggregate
import NodeFfi.Resolve.Model

/-!
# `ffi_prep_cif` on shared structures

The `FFI_TYPE` structures are in memory, where a structure may be an element of several others and
libffi completes it in place. Each was made after its elements (`Layered`).

A structure whose size is not `0` counts as complete. `Settles` says what becomes of one that can be
completed, and `Stuck` which ones are refused whenever they are looked at. Between the two there
are the structures that are refused once: the loop over the elements leaves the size of the
elements that it has come past (`Prepares`).
-/

namespace NodeFfi.Resolve

open Libffi (Status align)

/-- The `ffi_type`s of libffi itself. -/
structure StaticTypes where
  cell : FfiName → Cell
  size_ne : ∀ name, (cell name).size ≠ 0

structure SizeAlign where
  size : BitVec 64
  alignment : BitVec 16
  deriving DecidableEq, Repr

namespace SizeAlign

/-- The size and the alignment of `arg` after the element `ptr`. -/
def add (arg ptr : SizeAlign) : SizeAlign :=
  ⟨align arg.size (ptr.alignment.setWidth 64) + ptr.size,
    if arg.alignment > ptr.alignment then arg.alignment else ptr.alignment⟩

/-- With the padding at the end. -/
def padded (arg : SizeAlign) : SizeAlign :=
  ⟨align arg.size (arg.alignment.setWidth 64), arg.alignment⟩

end SizeAlign

namespace Cell

def extent (cell : Cell) : SizeAlign := ⟨cell.size, cell.alignment⟩

def withExtent (cell : Cell) (e : SizeAlign) : Cell :=
  { cell with size := e.size, alignment := e.alignment }

@[simp] theorem withExtent_extent (cell : Cell) (e : SizeAlign) :
    (cell.withExtent e).extent = e := rfl

@[simp] theorem withExtent_size (cell : Cell) (e : SizeAlign) :
    (cell.withExtent e).size = e.size := rfl

@[simp] theorem withExtent_elements (cell : Cell) (e : SizeAlign) :
    (cell.withExtent e).elements = cell.elements := rfl

@[simp] theorem withExtent_withExtent (cell : Cell) (e e' : SizeAlign) :
    (cell.withExtent e).withExtent e' = cell.withExtent e' := rfl

end Cell

section memory

variable (S : StaticTypes)

def load (mem : Memory) : Ref → Option Cell
  | .ffiTypes name => some (S.cell name)
  | .made n => mem[n]?
  | .member _ => none

/-- Writes `arg->size` and `arg->alignment`. -/
def storeExtent (mem : Memory) (n : Nat) (e : SizeAlign) : Memory :=
  mem.modify n fun cell => cell.withExtent e

/-- What libffi does with a type before it reads its size. -/
def prepare (init : Ref → Memory → Status × Memory) (ptr : Ref) (mem : Memory) :
    Status × Memory :=
  match load S mem ptr with
  | none => (.badTypedef, mem)
  | some cell => if cell.size = 0 then init ptr mem else (.ok, mem)

/-- The end of a turn of the loop in `initialize_aggregate`. -/
def addElement (arg : Nat) (ptr : Ref) (mem : Memory) : Memory :=
  match mem[arg]?, load S mem ptr with
  | some cell, some elt => storeExtent mem arg (cell.extent.add elt.extent)
  | _, _ => mem

/-- The loop in `initialize_aggregate`. -/
def initializeElements (init : Ref → Memory → Status × Memory) (arg : Nat) :
    List Ref → Memory → Status × Memory
  | [], mem => (.ok, mem)
  | ptr :: rest, mem =>
    match prepare S init ptr mem with
    | (.ok, mem) => initializeElements init arg rest (addElement S arg ptr mem)
    | (_, mem) => (.badTypedef, mem)

/-- After the loop. -/
def padEnd (arg : Nat) (mem : Memory) : Status × Memory :=
  match mem[arg]? with
  | some cell =>
    (if cell.extent.padded.size = 0 then .badTypedef else .ok,
      storeExtent mem arg cell.extent.padded)
  | none => (.badTypedef, mem)

/-- `initialize_aggregate`. The `ffi_type`s of libffi have no elements. -/
def initializeAggregate : Nat → Ref → Memory → Status × Memory
  | fuel + 1, .made arg, mem =>
    match (mem[arg]?).bind Cell.elements with
    | none => (.badTypedef, mem)
    | some elements =>
      match initializeElements S (initializeAggregate fuel) arg elements
          (storeExtent mem arg ⟨0, 0⟩) with
      | (.ok, mem) => padEnd arg mem
      | (_, mem) => (.badTypedef, mem)
  | _, _, mem => (.badTypedef, mem)

/-- The loop over the arguments in `ffi_prep_cif_core`, which does with each of them what it does
with the return type before. -/
def prepareAll (init : Ref → Memory → Status × Memory) : List Ref → Memory → Status × Memory
  | [], mem => (.ok, mem)
  | ptr :: rest, mem =>
    match prepare S init ptr mem with
    | (.ok, mem) => prepareAll init rest mem
    | (_, mem) => (.badTypedef, mem)

/-- `ffi_prep_cif` and `ffi_prep_cif_var`, for an ABI that is there, up to the part that depends on
the machine. -/
def prepCif (rtype : Ref) (atypes : List Ref) (mem : Memory) : Status × Memory :=
  prepareAll S (initializeAggregate S mem.length) (rtype :: atypes) mem

/-! ### What becomes of a structure -/

mutual

/-- `ptr` is complete, or can be completed, with this size and alignment. -/
inductive Settles (mem : Memory) : Ref → SizeAlign → Prop
  | complete {ptr cell} : load S mem ptr = some cell → cell.size ≠ 0 →
      Settles mem ptr cell.extent
  | aggregate {n cell es e} : mem[n]? = some cell → cell.size = 0 → cell.elements = some es →
      Lays mem ⟨0, 0⟩ es e → e.padded.size ≠ 0 → Settles mem (.made n) e.padded

/-- The elements can be completed, and take `arg` from the first size and alignment to the second. -/
inductive Lays (mem : Memory) : SizeAlign → List Ref → SizeAlign → Prop
  | nil {arg} : Lays mem arg [] arg
  | cons {arg ptr e rest arg'} : Settles mem ptr e → Lays mem (arg.add e) rest arg' →
      Lays mem arg (ptr :: rest) arg'

end

/-- `ptr` is refused, and its size is `0` afterwards. -/
inductive Stuck (mem : Memory) : Ref → Prop
  | noElements {n cell} : mem[n]? = some cell → cell.size = 0 → cell.elements = none →
      Stuck mem (.made n)
  | empty {n cell es e} : mem[n]? = some cell → cell.size = 0 → cell.elements = some es →
      Lays S mem ⟨0, 0⟩ es e → e.padded.size = 0 → Stuck mem (.made n)
  | element {n cell pre ptr post e} : mem[n]? = some cell → cell.size = 0 →
      cell.elements = some (pre ++ ptr :: post) → Lays S mem ⟨0, 0⟩ pre e → e.size = 0 →
      Stuck mem ptr → Stuck mem (.made n)

variable {S} {mem mem' mem'' : Memory}

theorem lays_append {arg arg' : SizeAlign} {pre post : List Ref} :
    Lays S mem arg (pre ++ post) arg' ↔
      ∃ mid, Lays S mem arg pre mid ∧ Lays S mem mid post arg' := by
  induction pre generalizing arg with
  | nil => exact ⟨fun h => ⟨arg, .nil, h⟩, fun ⟨_, .nil, h⟩ => h⟩
  | cons ptr pre ih =>
    constructor
    · rintro (_ | ⟨hptr, hrest⟩)
      obtain ⟨mid, hpre, hpost⟩ := ih.mp hrest
      exact ⟨mid, .cons hptr hpre, hpost⟩
    · rintro ⟨mid, _ | ⟨hptr, hpre⟩, hpost⟩
      exact .cons hptr (ih.mpr ⟨mid, hpre, hpost⟩)

theorem Lays.imp {es : List Ref} {arg arg' : SizeAlign} (h : Lays S mem arg es arg')
    (hmono : ∀ ptr ∈ es, ∀ e, Settles S mem ptr e → Settles S mem' ptr e) :
    Lays S mem' arg es arg' := by
  induction es generalizing arg with
  | nil =>
    cases h
    exact .nil
  | cons ptr es ih =>
    obtain _ | ⟨hptr, hrest⟩ := h
    exact .cons (hmono ptr (.head _) _ hptr) (ih hrest fun p hp => hmono p (.tail _ hp))

theorem lays_det {es : List Ref} {arg e e' : SizeAlign} (h : Lays S mem arg es e)
    (h' : Lays S mem arg es e')
    (hdet : ∀ ptr ∈ es, ∀ e e', Settles S mem ptr e → Settles S mem ptr e' → e = e') : e = e' := by
  induction es generalizing arg with
  | nil =>
    cases h
    cases h'
    rfl
  | cons ptr es ih =>
    obtain _ | ⟨hptr, hrest⟩ := h
    obtain _ | ⟨hptr', hrest'⟩ := h'
    obtain rfl := hdet ptr (.head _) _ _ hptr hptr'
    exact ih hrest hrest' fun p hp => hdet p (.tail _ hp)

theorem Settles.det (hlay : Layered mem) {ptr : Ref} {e e' : SizeAlign}
    (h : Settles S mem ptr e) (h' : Settles S mem ptr e') : e = e' := by
  have hmade : ∀ n e e', Settles S mem (.made n) e → Settles S mem (.made n) e' → e = e' := by
    intro n
    induction n using Nat.strongRecOn with
    | ind n ih =>
      intro e e' h h'
      cases h with
      | complete hload hne =>
        cases h' with
        | complete hload' _ => rw [Option.some.inj (hload.symm.trans hload')]
        | aggregate hcell hzero _ _ _ =>
          exact absurd hzero (Option.some.inj (hload.symm.trans hcell) ▸ hne)
      | aggregate hcell hzero hes hlays _ =>
        cases h' with
        | complete hload hne => exact absurd hzero (Option.some.inj (hload.symm.trans hcell) ▸ hne)
        | aggregate hcell' _ hes' hlays' _ =>
          obtain rfl := Option.some.inj (hcell.symm.trans hcell')
          obtain rfl := Option.some.inj (hes.symm.trans hes')
          rw [lays_det hlays hlays' fun ptr hptr => ?_]
          intro e e' h h'
          have hbelow := hlay n _ _ hcell hes ptr hptr
          cases ptr with
          | made k => exact ih k hbelow e e' h h'
          | ffiTypes name =>
            obtain ⟨hload, _⟩ := h
            obtain ⟨hload', _⟩ := h'
            rw [Option.some.inj (hload.symm.trans hload')]
          | member _ => exact hbelow.elim
  cases ptr with
  | made n => exact hmade n e e' h h'
  | ffiTypes _ | member _ =>
    obtain ⟨hload, _⟩ := h
    obtain ⟨hload', _⟩ := h'
    rw [Option.some.inj (hload.symm.trans hload')]

theorem Settles.ne_zero {ptr : Ref} {e : SizeAlign} (h : Settles S mem ptr e) : e.size ≠ 0 := by
  cases h with
  | complete _ hne => exact hne
  | aggregate _ _ _ _ hne => exact hne

theorem Stuck.not_settles (hlay : Layered mem) {ptr : Ref} (h : Stuck S mem ptr) :
    ∀ e, ¬ Settles S mem ptr e := by
  induction h with
  | noElements hcell hzero hes =>
    intro e hs
    cases hs with
    | complete hload hne => exact hne (Option.some.inj (hload.symm.trans hcell) ▸ hzero)
    | aggregate hcell' _ hes' _ _ =>
      obtain rfl := Option.some.inj (hcell.symm.trans hcell')
      rw [hes] at hes'
      cases hes'
  | empty hcell hzero hes hlays hsize =>
    intro e hs
    cases hs with
    | complete hload hne => exact hne (Option.some.inj (hload.symm.trans hcell) ▸ hzero)
    | aggregate hcell' _ hes' hlays' hne =>
      obtain rfl := Option.some.inj (hcell.symm.trans hcell')
      obtain rfl := Option.some.inj (hes.symm.trans hes')
      obtain rfl := lays_det hlays hlays' fun _ _ _ _ => Settles.det hlay
      exact hne hsize
  | element hcell hzero hes _ _ _ ih =>
    intro e hs
    cases hs with
    | complete hload hne => exact hne (Option.some.inj (hload.symm.trans hcell) ▸ hzero)
    | aggregate hcell' _ hes' hlays' _ =>
      obtain rfl := Option.some.inj (hcell.symm.trans hcell')
      obtain rfl := Option.some.inj (hes.symm.trans hes')
      obtain ⟨_, _, hrest⟩ := lays_append.mp hlays'
      obtain _ | ⟨hptr, _⟩ := hrest
      exact ih _ hptr

end memory

end NodeFfi.Resolve
