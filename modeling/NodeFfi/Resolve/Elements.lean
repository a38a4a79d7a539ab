import NodeFfi.Layout.Fill
import NodeFfi.Resolve.History
import NodeFfi.Types.DataModel

/-!
# The two passes over the fields

The struct branch of `Type` with the buffer `elements` it writes to. The first pass counts, the
second one asks `Type` for each field and writes the answers, both reading the fields and their
`fixedLength` as they come to them, and at the end a `NULL` is written. The passes agree
(`passes_agree`): the buffer is written from the front on, each word once, up to the `NULL` that is
its last word. So `Type` makes the structure that `elementPointers` describes (`toFfiType_struct`).
-/

namespace NodeFfi.Resolve

open Js Layout Types

/-- The buffer `elements`; `NULL` is `none`. -/
abbrev Elements := Slots (Option Ref)

/-- Why the passes stop early. -/
inductive Halt where
  /-- In `Type` or in `writePointer`. -/
  | stop (s : Stop)
  /-- `field` is `undefined`, and has no `type`. -/
  | undefinedField
  deriving DecidableEq, Repr

/-- The variables of the passes. -/
structure Filling (O : Type) where
  heap : Heap O
  elements : Elements
  index : Nat

abbrev Fill (O α : Type) := Js (Filling O) Halt α

section definitions

variable {O : Type} (m : DataModel)

/-- A call of `Type`, which does not know of the buffer. -/
def callType {α : Type} (x : Script O α) : Fill O α := fun b =>
  match x b.heap with
  | (.ok a, h) => (.ok a, { b with heap := h })
  | (.error e, h) => (.error (.stop e), { b with heap := h })

/-- `elements.writePointer(ptr, index * ref.sizeof.pointer)` of a Buffer or of `ref.NULL`. -/
def Filling.write (b : Filling O) (index : Nat) (ptr : Option Ref) : Filling O :=
  { b with elements := b.elements.write m.pointerSize (index * m.pointerSize) ptr }

/-- `elements.writePointer(ffi_type_ptr, (index++) * ref.sizeof.pointer)`. -/
def writePointer (ptr : Ref) : Fill O Unit := do
  let index ← Js.step fun b => (b.index, { b with index := b.index + 1 })
  callType (Js.ofExcept (checkBuffer ptr))
  Js.modify fun b => b.write m index (some ptr)

/-- The loop over `j`, with `n` to go. -/
def writeArray (ptr : Ref) : Nat → Fill O Unit
  | 0 => pure ()
  | n + 1 => do
    writePointer m ptr
    writeArray ptr n

namespace World

variable (w : World O)

def numFields (h : Heap O) (type : O) : Nat := ((w.read h.fields type).getD []).length

/-- `fields[fieldNames[i]].type`. -/
def fieldAt (h : Heap O) (type : O) (i : Nat) : Option O :=
  (w.read h.fields type).bind fun fields => fields[i]?

/-- The first pass. -/
def countElements (h : Heap O) (type : O) : Option Nat :=
  (List.range (w.numFields h type)).foldlM (fun numElements i => do
    let field ← w.fieldAt h type i
    return if w.readFixedLength field > 0 then numElements + w.readFixedLength field
      else numElements + 1) 0

/-- The body of the second pass. -/
def fillField (typeOf : O → Script O Ref) (field : O) : Fill O Unit :=
  if w.readFixedLength field > 0 then
    match w.read w.type field with
    | none => Js.throw (.stop (.thrown .notAType))
    | some type => do
      let ffi_type_ptr ← callType (typeOf type)
      writeArray m ffi_type_ptr (w.readFixedLength field)
  else do
    let ffi_type_ptr ← callType (typeOf field)
    writePointer m ffi_type_ptr

/-- The second pass, over the indices that are left. -/
def fillFields (typeOf : O → Script O Ref) (type : O) : List Nat → Fill O Unit
  | [] => pure ()
  | i :: rest => do
    let field ← Js.step fun b => (w.fieldAt b.heap type i, b)
    match field with
    | none => Js.throw .undefinedField
    | some field => do
      w.fillField m typeOf field
      fillFields typeOf type rest

/-- Both passes, and the `NULL`. -/
def buildElements (typeOf : O → Script O Ref) (type : O) (h : Heap O) :
    Except Halt Unit × Filling O :=
  match w.countElements h type with
  | none => (.error .undefinedField, ⟨h, .alloc 0, 0⟩)
  | some numElements =>
    let size := m.pointerSize * (numElements + 1)
    (do
      w.fillFields m typeOf type (List.range (w.numFields h type))
      Js.modify fun b => b.write m b.index none : Fill O Unit)
      ⟨h, .alloc (size / m.pointerSize), 0⟩

end World

end definitions

section passes

variable {O : Type} {m : DataModel} {w : World O} {typeOf : O → Script O Ref} {type field : O}
  {fields : List O} {h h' : Heap O} {b : Filling O} {n : Nat} {as : List (Option Ref)} {ptr : Ref}

theorem callType_ok {α : Type} {x : Script O α} {a : α} (hx : x b.heap = (.ok a, h')) :
    callType x b = (.ok a, { b with heap := h' }) := by
  rw [callType, hx]

theorem callType_error {α : Type} {x : Script O α} {e : Stop} (hx : x b.heap = (.error e, h')) :
    callType x b = (.error (.stop e), { b with heap := h' }) := by
  rw [callType, hx]

/-- The buffer has `n` words and `as` in the first of them, and `index` is the next one. -/
structure Filling.At (m : DataModel) (b : Filling O) (n : Nat) (as : List (Option Ref)) : Prop where
  front : b.elements.Front m.pointerSize n as
  index : b.index = as.length

theorem Filling.At.write (hb : b.At m n as) (hlt : as.length < n) (ptr : Option Ref) :
    ({ b with index := b.index + 1 }.write m b.index ptr).At m n (as ++ [ptr]) where
  front := by
    have := hb.front.write m.pointerSize_pos hlt ptr
    rwa [Filling.write, hb.index]
  index := by simp [Filling.write, hb.index]

/-! ### Writing -/

theorem writePointer_ok (hptr : ptr.isBuffer = true) :
    writePointer m ptr b = (.ok (), { b with index := b.index + 1 }.write m b.index (some ptr)) := by
  rw [writePointer, Js.bind_ok (Js.step_apply _ _),
    Js.bind_ok (callType_ok (checkBuffer_apply hptr _))]
  rfl

theorem writePointer_throws (hptr : ptr.isBuffer ≠ true) :
    writePointer m ptr b =
      (.error (.stop (.thrown .notABuffer)), { b with index := b.index + 1 }) := by
  rw [writePointer, Js.bind_ok (Js.step_apply _ _),
    Js.bind_error (callType_error (checkBuffer_throws hptr _))]

theorem writeArray_ok (hptr : ptr.isBuffer = true) (k : Nat) (hb : b.At m n as)
    (hle : as.length + k ≤ n) :
    ∃ b', writeArray m ptr k b = (.ok (), b') ∧ b'.heap = b.heap ∧
      b'.At m n (as ++ List.replicate k (some ptr)) := by
  induction k generalizing b as with
  | zero => exact ⟨b, rfl, rfl, by simpa using hb⟩
  | succ k ih =>
    rw [writeArray, Js.bind_ok (writePointer_ok hptr)]
    obtain ⟨b', hrun, hheap, hb'⟩ := ih (hb.write (by omega) (some ptr)) (by simp; omega)
    refine ⟨b', hrun, hheap, ?_⟩
    rwa [List.replicate_succ, List.append_cons]

/-! ### The fields -/

namespace World

/-- The types of the fields, as the passes find them. -/
def fieldTypes (w : World O) (h : Heap O) (type : O) : List O := (w.read h.fields type).getD []

/-- The slots that a field takes. -/
def slots (w : World O) (field : O) : Nat := (w.elementType field).2

theorem fieldAt_eq (w : World O) (h : Heap O) (type : O) (i : Nat) :
    w.fieldAt h type i = (w.fieldTypes h type)[i]? := by
  unfold fieldAt fieldTypes
  cases w.read h.fields type <;> rfl

theorem fieldAt_length {done rest : List O} (hfields : w.fieldTypes h type = done ++ field :: rest) :
    w.fieldAt h type done.length = some field := by
  rw [fieldAt_eq, hfields, List.getElem?_append_right (Nat.le_refl _), Nat.sub_self]
  rfl

theorem slots_eq (w : World O) (field : O) : w.slots field =
    if w.readFixedLength field > 0 then w.readFixedLength field else 1 := by
  unfold slots elementType
  split <;> rfl

theorem countElements_eq (w : World O) (h : Heap O) (type : O) :
    w.countElements h type = some ((w.fieldTypes h type).map w.slots).sum := by
  have hpass : ∀ (rest done : List O) (numElements : Nat), w.fieldTypes h type = done ++ rest →
      (List.range' done.length rest.length).foldlM (fun numElements i => do
        let field ← w.fieldAt h type i
        return if w.readFixedLength field > 0 then numElements + w.readFixedLength field
          else numElements + 1) numElements = some (numElements + (rest.map w.slots).sum) := by
    intro rest
    induction rest with
    | nil =>
      intro done numElements _
      rfl
    | cons field rest ih =>
      intro done numElements hfields
      have hrest := ih (done ++ [field]) (numElements + w.slots field) (by simp [hfields])
      rw [List.length_append, List.length_singleton] at hrest
      rw [List.length_cons, List.range'_succ, List.foldlM_cons, fieldAt_length hfields]
      simp only [Option.pure_def, Option.bind_eq_bind, Option.bind_some, List.map_cons,
        List.sum_cons]
      rw [← Nat.add_assoc, ← hrest, slots_eq]
      split <;> rfl
  have h0 := hpass (w.fieldTypes h type) [] 0 rfl
  rw [Nat.zero_add] at h0
  rw [countElements, List.range_eq_range']
  exact h0

end World

/-! ### One field -/

theorem fillField_eq (m : DataModel) (typeOf : O → Script O Ref) (field : O) :
    w.fillField m typeOf field =
      match w.elementType field with
      | (none, _) => Js.throw (.stop (.thrown .notAType))
      | (some type, count) => callType (typeOf type) >>= fun ptr => writeArray m ptr count := by
  unfold World.fillField World.elementType
  split
  · cases w.read w.type field <;> rfl
  · simp only
    congr 1
    funext ptr b
    rw [writeArray]
    rcases hw : writePointer m ptr b with ⟨e | _, b'⟩
    · rw [Js.bind_error hw]
    · rw [Js.bind_ok hw]
      rfl

theorem slots_pos (w : World O) (field : O) : 0 < w.slots field := by
  rw [World.slots_eq]
  split <;> omega

theorem fillField_none (hnone : (w.elementType field).1 = none) :
    w.fillField m typeOf field b = (.error (.stop (.thrown .notAType)), b) := by
  rw [fillField_eq]
  rcases helem : w.elementType field with ⟨t, count⟩
  rw [helem] at hnone
  subst hnone
  rfl

theorem fillField_some {t : O} (htype : (w.elementType field).1 = some t) :
    w.fillField m typeOf field =
      callType (typeOf t) >>= fun ptr => writeArray m ptr (w.slots field) := by
  rw [fillField_eq, World.slots]
  rcases helem : w.elementType field with ⟨t', count⟩
  rw [helem] at htype
  subst htype
  rfl

theorem fillField_stops {t : O} {e : Stop} (htype : (w.elementType field).1 = some t)
    (hptr : typeOf t b.heap = (.error e, h')) :
    w.fillField m typeOf field b = (.error (.stop e), { b with heap := h' }) := by
  rw [fillField_some htype, Js.bind_error (callType_error hptr)]

theorem fillField_throws {t : O} (htype : (w.elementType field).1 = some t)
    (hptr : typeOf t b.heap = (.ok ptr, h')) (hbuf : ptr.isBuffer ≠ true) :
    w.fillField m typeOf field b = (.error (.stop (.thrown .notABuffer)),
      { b with heap := h', index := b.index + 1 }) := by
  obtain ⟨k, hk⟩ : ∃ k, w.slots field = k + 1 :=
    ⟨w.slots field - 1, by have := slots_pos w field; omega⟩
  rw [fillField_some htype, Js.bind_ok (callType_ok hptr), hk, writeArray,
    Js.bind_error (writePointer_throws hbuf)]

theorem fillField_ok {t : O} (htype : (w.elementType field).1 = some t)
    (hptr : typeOf t b.heap = (.ok ptr, h')) (hbuf : ptr.isBuffer = true) (hb : b.At m n as)
    (hle : as.length + w.slots field ≤ n) :
    ∃ b', w.fillField m typeOf field b = (.ok (), b') ∧ b'.heap = h' ∧
      b'.At m n (as ++ List.replicate (w.slots field) (some ptr)) := by
  rw [fillField_some htype, Js.bind_ok (callType_ok hptr)]
  exact writeArray_ok (b := { b with heap := h' }) hbuf (w.slots field) ⟨hb.front, hb.index⟩ hle

/-! ### The passes -/

namespace World

/-- The outcome of the second pass, by that of `elementPointers`. -/
def passOutcome {α : Type} : Except Stop α → Except Halt Unit
  | .ok _ => .ok ()
  | .error e => .error (.stop e)

/-- How the second pass ends with `rest` to go and `as` in front, when `elementPointers` returns `r`
and leaves `h'`. -/
structure Fills (m : DataModel) (w : World O) (n : Nat) (as : List (Option Ref)) (rest : List O)
    (r : Except Stop (List Ref)) (h' : Heap O) (run : Except Halt Unit × Filling O) : Prop where
  outcome : run.1 = passOutcome r
  heap : run.2.heap = h'
  front : ∃ as', run.2.elements.Front m.pointerSize n as'
  filled : ∀ ptrs, r = .ok ptrs →
    run.2.At m n (as ++ ptrs.map some) ∧ ptrs.length = (rest.map w.slots).sum

theorem fills_of_stop {e : Stop} {b' : Filling O} {rest : List O} (hb : b.At m n as)
    (helements : b'.elements = b.elements) (hheap : b'.heap = h') :
    Fills m w n as rest (.error e) h' (.error (.stop e), b') where
  outcome := rfl
  heap := hheap
  front := ⟨as, helements ▸ hb.front⟩
  filled _ h := by cases h

theorem Fills.cons {rest : List O} {r : Except Stop (List Ref)}
    {run : Except Halt Unit × Filling O}
    (h : Fills m w n (as ++ List.replicate (w.slots field) (some ptr)) rest r h' run) :
    Fills m w n as (field :: rest)
      (r.map fun ptrs => List.replicate (w.slots field) ptr ++ ptrs) h' run where
  outcome := by
    rw [h.outcome]
    cases r <;> rfl
  heap := h.heap
  front := h.front
  filled ptrs hptrs := by
    cases r with
    | error e => cases hptrs
    | ok ptrs' =>
      obtain rfl : List.replicate (w.slots field) ptr ++ ptrs' = ptrs := Except.ok.inj hptrs
      obtain ⟨hat, hcount⟩ := h.filled ptrs' rfl
      refine ⟨?_, ?_⟩
      · rwa [List.map_append, List.map_replicate, ← List.append_assoc]
      · rw [List.length_append, List.length_replicate, hcount, List.map_cons, List.sum_cons]

/-- **The second pass** from a buffer with `as` in front and room for the fields that are left: it
ends as `elementPointers` does, and has written what that returns. -/
theorem fillFields_spec (hkeep : ∀ t h, (typeOf t h).2.fields = h.fields) (rest : List O) :
    ∀ (done : List O) {b : Filling O} {as : List (Option Ref)} {r : Except Stop (List Ref)}
      {h' : Heap O}, w.fieldTypes b.heap type = done ++ rest → b.At m n as →
      as.length + (rest.map w.slots).sum ≤ n → w.elementPointers typeOf rest b.heap = (r, h') →
      Fills m w n as rest r h'
        (w.fillFields m typeOf type (List.range' done.length rest.length) b) := by
  induction rest with
  | nil =>
    intro done b as r h' _ hb _ hrun
    obtain ⟨rfl, rfl⟩ := Prod.mk.inj hrun
    refine ⟨rfl, rfl, ⟨as, hb.front⟩, ?_⟩
    rintro ptrs ⟨⟩
    rw [List.map_nil, List.append_nil]
    exact ⟨hb, rfl⟩
  | cons field rest ih =>
    intro done b as r h' hfields hb hle hrun
    rw [List.map_cons, List.sum_cons] at hle
    have hread : w.fillFields m typeOf type (List.range' done.length (field :: rest).length) b =
        (w.fillField m typeOf field >>= fun _ =>
          w.fillFields m typeOf type (List.range' (done.length + 1) rest.length)) b := by
      rw [List.length_cons, List.range'_succ, fillFields, Js.bind_ok (Js.step_apply _ _)]
      simp only [fieldAt_length hfields]
    rw [hread]
    cases fieldStep_of_run hrun with
    | noType hnone =>
      rw [Js.bind_error (fillField_none hnone)]
      exact fills_of_stop hb rfl rfl
    | stops htype hptr =>
      rw [Js.bind_error (fillField_stops htype hptr)]
      exact fills_of_stop hb rfl rfl
    | notBuffer htype hptr hbuf =>
      rw [Js.bind_error (fillField_throws htype hptr hbuf)]
      exact fills_of_stop hb rfl rfl
    | @goesOn t ptr h₁ r h' htype hptr hbuf hrest =>
      obtain ⟨b₁, hfield, hheap, hb₁⟩ := fillField_ok htype hptr hbuf hb (by omega)
      -- the call has kept the fields, so the next one is read from the same list
      have hfields₁ : w.fieldTypes b₁.heap type = (done ++ [field]) ++ rest := by
        have hkept := hkeep t b.heap
        rw [hptr] at hkept
        rw [fieldTypes, hheap, hkept, List.append_assoc]
        exact hfields
      have hlen : (as ++ List.replicate (w.slots field) (some ptr)).length =
          as.length + w.slots field := by simp
      have hnext := ih _ hfields₁ hb₁ (by omega) (hheap ▸ hrest)
      rw [List.length_append, List.length_singleton] at hnext
      rw [Js.bind_ok hfield]
      exact hnext.cons

/-- One call of `Type` for each field, in order, each from what the one before it has left. -/
inductive Answers (w : World O) (typeOf : O → Script O Ref) :
    List O → Heap O → List Ref → Heap O → Prop
  | nil {h₀ : Heap O} : Answers w typeOf [] h₀ [] h₀
  | cons {field type : O} {fields : List O} {ptr : Ref} {ptrs : List Ref} {h₀ h₁ h₂ : Heap O} :
      (w.elementType field).1 = some type → typeOf type h₀ = (.ok ptr, h₁) →
      Answers w typeOf fields h₁ ptrs h₂ → Answers w typeOf (field :: fields) h₀ (ptr :: ptrs) h₂

/-- The answers as the fields take slots: that for an array as often as the array is long. -/
def spread (w : World O) (fields : List O) (ptrs : List Ref) : List Ref :=
  (fields.zip ptrs).flatMap fun p => List.replicate (w.slots p.1) p.2

theorem answers_of_run {ptrs : List Ref}
    (hrun : w.elementPointers typeOf fields h = (.ok ptrs, h')) :
    ∃ answers, w.Answers typeOf fields h answers h' ∧ ptrs = w.spread fields answers := by
  induction fields generalizing h ptrs with
  | nil =>
    obtain ⟨hptrs, rfl⟩ := Prod.mk.inj hrun
    obtain rfl : [] = ptrs := Except.ok.inj hptrs
    exact ⟨[], .nil, rfl⟩
  | cons field fields ih =>
    generalize hr : (Except.ok ptrs : Except Stop (List Ref)) = r at hrun
    cases fieldStep_of_run hrun with
    | noType | stops | notBuffer => cases hr
    | @goesOn t ptr h₁ r h' htype hptr _ hrest =>
      cases r with
      | error e => cases hr
      | ok rest =>
        obtain ⟨answers, hanswers, rfl⟩ := ih hrest
        exact ⟨ptr :: answers, .cons htype hptr hanswers, Except.ok.inj hr⟩

theorem run_of_answers {answers : List Ref} (hanswers : w.Answers typeOf fields h answers h')
    (hbuf : ∀ ptr ∈ answers, ptr.isBuffer = true) :
    w.elementPointers typeOf fields h = (.ok (w.spread fields answers), h') := by
  induction hanswers with
  | nil => rfl
  | @cons field t fields ptr ptrs h₀ h₁ h₂ htype hptr _ ih =>
    have hrest := ih fun ptr hmem => hbuf ptr (List.mem_cons_of_mem _ hmem)
    have hfirst := checkBuffer_apply (hbuf ptr List.mem_cons_self) h₁
    have hslots : w.slots field = (w.elementType field).2 := rfl
    rw [elementPointers]
    rcases helem : w.elementType field with ⟨_ | t', count⟩
    · rw [helem] at htype
      cases htype
    · rw [helem] at htype hslots
      obtain rfl : t' = t := Option.some.inj htype
      simp only
      rw [Js.bind_ok hptr, Js.bind_ok hfirst, Js.bind_ok hrest]
      simp [spread, hslots]

/-- Both passes have come to their end, and the buffer is complete. -/
structure Complete (m : DataModel) (w : World O) (typeOf : O → Script O Ref) (type : O) (h : Heap O)
    (numElements : Nat) (b : Filling O) : Prop where
  /-- The slots hold what `Type` has returned for the fields, in order, and a `NULL`; each was
  written once, and in order. -/
  written : ∃ ptrs, w.Answers typeOf (w.fieldTypes h type) h ptrs b.heap ∧
    b.elements.words = ((w.spread (w.fieldTypes h type) ptrs).map some ++ [none]).map some ∧
    b.elements.writes = ((w.spread (w.fieldTypes h type) ptrs).map some ++ [none]).mapIdx
      fun i ptr => (i * m.pointerSize, ptr)
  index : b.index = numElements
  /-- The last slot holds `NULL`. -/
  null : b.elements.words[numElements]? = some (some none)
  /-- No other does. -/
  pointer : ∀ k < numElements, ∃ ptr, b.elements.words[k]? = some (some (some ptr))

/-- What the second pass does to the buffer when the first one has counted `numElements`. -/
structure Agree (m : DataModel) (w : World O) (typeOf : O → Script O Ref) (type : O) (h : Heap O)
    (numElements : Nat) (run : Except Halt Unit × Filling O) : Prop where
  defined : run.1 ≠ .error .undefinedField
  length : run.2.elements.words.length = numElements + 1
  in_bounds : ∀ p ∈ run.2.elements.writes, p.1 + m.pointerSize ≤ m.pointerSize * (numElements + 1)
  /-- The writes are in order from the front on, each to a slot of its own. -/
  order : ∃ k ≤ numElements + 1,
    run.2.elements.writes.map Prod.fst = (List.range k).map (· * m.pointerSize)
  /-- Nothing stops the second pass but a call of `Type` that does not return a Buffer. -/
  ends : ∀ ptrs h', w.Answers typeOf (w.fieldTypes h type) h ptrs h' →
    (∀ ptr ∈ ptrs, ptr.isBuffer = true) → run.1 = .ok ()
  complete : run.1 = .ok () → w.Complete m typeOf type h numElements run.2

theorem buildElements_spec (m : DataModel) (type : O) (hkeep : ∀ t h, (typeOf t h).2.fields = h.fields)
    {r : Except Stop (List Ref)}
    (hrun : w.elementPointers typeOf (w.fieldTypes h type) h = (r, h')) {numElements : Nat}
    (hcount : ((w.fieldTypes h type).map w.slots).sum = numElements) :
    ∃ b, w.buildElements m typeOf type h = (passOutcome r, b) ∧ b.heap = h' ∧
      (∃ as, b.elements.Front m.pointerSize (numElements + 1) as) ∧
      ∀ ptrs, r = .ok ptrs → ptrs.length = numElements ∧ b.index = numElements ∧
        b.elements.Front m.pointerSize (numElements + 1) (ptrs.map some ++ [none]) := by
  have hsize : m.pointerSize * (numElements + 1) / m.pointerSize = numElements + 1 :=
    Nat.mul_div_cancel_left _ m.pointerSize_pos
  have hbuild : w.buildElements m typeOf type h =
      (w.fillFields m typeOf type (List.range' 0 (w.fieldTypes h type).length) >>= fun _ =>
        (Js.modify fun b => b.write m b.index none : Fill O Unit))
        ⟨h, .alloc (numElements + 1), 0⟩ := by
    unfold buildElements
    rw [countElements_eq, hcount]
    simp only [hsize, List.range_eq_range']
    rfl
  have hstart : (⟨h, .alloc (numElements + 1), 0⟩ : Filling O).At m (numElements + 1) [] :=
    ⟨Slots.front_alloc _ _, rfl⟩
  have hspec := fillFields_spec hkeep (w.fieldTypes h type) [] (List.nil_append _).symm hstart
    (by rw [List.length_nil, hcount]; omega) hrun
  rcases hfill : w.fillFields m typeOf type (List.range' 0 (w.fieldTypes h type).length)
    ⟨h, .alloc (numElements + 1), 0⟩ with ⟨r', b⟩
  rw [List.length_nil, hfill] at hspec
  obtain ⟨houtcome, hheap, hfront, hok⟩ := hspec
  obtain rfl : r' = passOutcome r := houtcome
  rw [hbuild]
  cases r with
  | error e => exact ⟨b, Js.bind_error hfill, hheap, hfront, fun _ h => by cases h⟩
  | ok ptrs =>
    obtain ⟨hat, hlen⟩ := hok ptrs rfl
    rw [hcount] at hlen
    have hindex : b.index = numElements := by
      rw [hat.index, List.nil_append, List.length_map, hlen]
    have hnull : (b.write m b.index none).elements.Front m.pointerSize (numElements + 1)
        (ptrs.map some ++ [none]) := (hat.write (by simp [hlen]) none).front
    refine ⟨b.write m b.index none, Js.bind_ok hfill, hheap, ⟨_, hnull⟩, ?_⟩
    rintro _ ⟨⟩
    exact ⟨hlen, hindex, hnull⟩

variable [DecidableEq O]

/-- **The two passes agree.** Whatever the fields are, and whatever the calls of `Type` in between
do and remember, the buffer is as long as the first pass says and the writes of the second one are
inside it, in order from the front and each at an offset of its own; and if no call throws, each
field has written the answer of its call to as many slots as it takes, and the `NULL` is in the last
slot, and in no other. -/
theorem passes_agree (m : DataModel) (w : World O) (fuel : Nat) (type : O) (h : Heap O) :
    ∃ numElements, w.countElements h type = some numElements ∧
      w.Agree m (w.toFfiType fuel) type h numElements
        (w.buildElements m (w.toFfiType fuel) type h) := by
  refine ⟨_, w.countElements_eq h type, ?_⟩
  rcases hrun : w.elementPointers (w.toFfiType fuel) (w.fieldTypes h type) h with ⟨r, h'⟩
  obtain ⟨b, hbuild, hheap, ⟨as, hfront⟩, hok⟩ := buildElements_spec m type
    (fun t h => (w.toFfiType_grown fuel t h).1) hrun rfl
  rw [hbuild]
  refine ⟨?_, hfront.length, hfront.in_bounds, ⟨as.length, hfront.le, hfront.offsets⟩, ?_,
    fun hr => ?_⟩
  · cases r <;> simp [passOutcome]
  · intro ptrs h' hanswers hbuf
    rw [run_of_answers hanswers hbuf] at hrun
    rw [← (Prod.mk.inj hrun).1]
    rfl
  · cases r with
    | error e => cases hr
    | ok ptrs =>
      obtain ⟨hlen, hindex, hfull⟩ := hok ptrs rfl
      obtain ⟨answers, hanswers, rfl⟩ := answers_of_run hrun
      have hwords := hfull.full (by simp [hlen])
      refine ⟨⟨answers, hheap ▸ hanswers, hwords, hfull.writes⟩, hindex, ?_, fun k hk => ?_⟩
      · rw [hwords, ← hlen]
        simp
      · rw [← hlen] at hk
        exact ⟨(w.spread (w.fieldTypes h type) answers)[k], by
          rw [hwords]; simp [List.getElem?_append_left, hk]⟩

section sample

/-- `0` is `int`, `1` a structure of two of them, `2` an array of three of these, and `3` a structure
with both, the first one twice. -/
def sharing : World Nat where
  proto _ := none
  depth _ := 0
  proto_depth _ _ h := by cases h
  indirection _ := some 1
  name _ := none
  type o := if o = 2 then some 1 else none
  fixedLength o := if o = 2 then some 3 else none

def sharingHeap : Heap Nat where
  fields o := if o = 1 then some [0, 0] else if o = 3 then some [0, 1, 2, 1] else none
  ffiType o := if o = 0 then some (some (.ffiTypes .int)) else none
  made := []

theorem passes_agree_sharing :
    sharing.Complete .lp64 (sharing.toFfiType 2) 3 sharingHeap 6
      (sharing.buildElements .lp64 (sharing.toFfiType 2) 3 sharingHeap).2 := by
  obtain ⟨numElements, hcount, hagree⟩ := passes_agree .lp64 sharing 2 3 sharingHeap
  have hsix : sharing.countElements sharingHeap 3 = some 6 := by decide +kernel
  obtain rfl : 6 = numElements := Option.some.inj (hsix.symm.trans hcount)
  exact hagree.complete (by decide +kernel)

end sample

/-! ### The structure -/

/-- What libffi finds in the buffer before the first `NULL`. -/
def untilNull : List (Option (Option Ref)) → List Ref
  | some (some ptr) :: rest => ptr :: untilNull rest
  | _ => []

theorem untilNull_eq (ptrs : List Ref) :
    untilNull ((ptrs.map some ++ [none]).map some) = ptrs := by
  induction ptrs with
  | nil => rfl
  | cons ptr ptrs ih => simpa [untilNull] using ih

/-- **`Type` of a struct type is both passes**, and the structure around the buffer. -/
theorem toFfiType_struct (m : DataModel) (w : World O) (fuel : Nat) {type : O} {h : Heap O} {fields : List O}
    (hb : w.branch h type = .struct fields) :
    ∃ b, (w.buildElements m (w.toFfiType fuel) type h = (.ok (), b) ∧
        w.toFfiType (fuel + 1) type h = (.ok (.made b.heap.made.length),
          b.heap.cache type (untilNull b.elements.words))) ∨
      ∃ e, w.buildElements m (w.toFfiType fuel) type h = (.error (.stop e), b) ∧
        w.toFfiType (fuel + 1) type h = (.error e, b.heap) := by
  have hfields : w.fieldTypes h type = fields := by
    rw [fieldTypes, (of_branch_struct hb).2.2, Option.getD_some]
  rcases hrun : w.elementPointers (w.toFfiType fuel) (w.fieldTypes h type) h with ⟨r, h'⟩
  obtain ⟨b, hbuild, rfl, _, hok⟩ := buildElements_spec m type
    (fun t h => (w.toFfiType_grown fuel t h).1) hrun rfl
  rw [hfields] at hrun
  refine ⟨b, ?_⟩
  rw [hbuild, toFfiType_succ, hb, resume_struct]
  cases r with
  | error e => exact .inr ⟨e, rfl, Js.bind_error hrun⟩
  | ok ptrs =>
    obtain ⟨hlen, _, hfull⟩ := hok ptrs rfl
    refine .inl ⟨rfl, ?_⟩
    rw [Js.bind_ok hrun, hfull.full (by simp [hlen]), untilNull_eq]
    rfl

example :
    untilNull (sharing.buildElements .lp64 (sharing.toFfiType 2) 3 sharingHeap).2.elements.words =
      .ffiTypes .int :: List.replicate 5 (.made 0) := by decide +kernel

end World

end passes

end NodeFfi.Resolve
