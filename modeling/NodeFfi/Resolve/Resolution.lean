import NodeFfi.Resolve.FfiTypes
import NodeFfi.Resolve.Frame

/-!
# What a type stands for

`resolve` says what `Type` finds for a type in a heap without remembering anything: the size, the
alignment and the number of the `ffi_type`, and the same of its elements, down to any depth `d`, or
the error. A write to an object `c` can only matter to the types that take their `ffi_type` from `c`
(`Reader`). It changes nothing if for each of them the old and the new value are of the same shape,
where a type that has no `ffi_type` goes by its own properties (`Harmless`, `resolve_assign`).
-/

namespace NodeFfi.Resolve

open Js

/-- What is compared of an `ffi_type`. -/
inductive Shape where
  /-- `elements` is `none` for `NULL`, and where they are not compared. -/
  | ffiType (size : BitVec 64) (alignment type : BitVec 16) (elements : Option (List Shape))
  /-- No `ffi_type` but a member of `Object.prototype`. -/
  | member (name : String)

def Cell.shape (cell : Cell) (elements : Option (List Shape)) : Shape :=
  .ffiType cell.size cell.alignment cell.type elements

/-- The shape of a structure as `Type` makes it, of elements of these shapes. -/
def Shape.struct (d : Nat) (elements : List Shape) : Shape :=
  .ffiType 0 0 13 (if d = 0 then none else some elements)

def Shape.isBuffer : Shape → Bool
  | .ffiType _ _ _ _ => true
  | .member _ => false

/-- The `n`-th structure that was made, one without elements if there is none. -/
def cellAt (mem : Memory) (n : Nat) : Cell := (mem[n]?).getD ⟨0, 0, 13, none⟩

/-- The shape with the elements of the structures that `Type` or the program made, to the depth `d`.
The entries of `FFI_TYPES` are scalars. -/
def shape (S : StaticTypes) (mem : Memory) (d : Nat) (r : Ref) : Shape :=
  match r with
  | .ffiTypes name => (S.cell name).shape none
  | .member name => .member name
  | .made n =>
    match d with
    | 0 => (cellAt mem n).shape none
    | d + 1 => (cellAt mem n).shape ((cellAt mem n).elements.map (List.map (shape S mem d)))

/-- What is left of a shape at the depth `d`. -/
def Shape.upTo (d : Nat) : Shape → Shape
  | .member name => .member name
  | .ffiType size alignment type elements =>
    match d with
    | 0 => .ffiType size alignment type none
    | d + 1 => .ffiType size alignment type (elements.map (List.map (upTo d)))

/-- The elements of the structures lead somewhere. -/
def Closed (mem : Memory) : Prop :=
  ∀ n es, (cellAt mem n).elements = some es → ∀ k, Ref.made k ∈ es → k < mem.length

section

variable {S : StaticTypes} {mem mem' : Memory} {d : Nat} {r : Ref}

@[simp] theorem shape_ffiTypes (name : FfiName) :
    shape S mem d (.ffiTypes name) = (S.cell name).shape none := by
  cases d <;> rfl

@[simp] theorem shape_member (name : String) : shape S mem d (.member name) = .member name := by
  cases d <;> rfl

theorem shape_made_zero (n : Nat) : shape S mem 0 (.made n) = (cellAt mem n).shape none := rfl

theorem shape_made_succ (n : Nat) : shape S mem (d + 1) (.made n) =
    (cellAt mem n).shape ((cellAt mem n).elements.map (List.map (shape S mem d))) := rfl

theorem shape_isBuffer (S : StaticTypes) (mem : Memory) (d : Nat) (r : Ref) :
    (shape S mem d r).isBuffer = r.isBuffer := by
  cases r <;> cases d <;> rfl

theorem upTo_shape (r : Ref) : (shape S mem (d + 1) r).upTo d = shape S mem d r := by
  induction d generalizing r with
  | zero => cases r <;> rfl
  | succ d ih =>
    cases r with
    | ffiTypes name => rfl
    | member name => rfl
    | made n =>
      rw [shape_made_succ, shape_made_succ]
      simp only [Cell.shape, Shape.upTo, Option.map_map]
      congr 2
      funext es
      simp only [Function.comp_apply, List.map_map]
      exact List.map_congr_left fun q _ => ih q

theorem shape_eq_of_le {mem₁ mem₂ : Memory} {r₁ r₂ : Ref} {e : Nat} (hle : e ≤ d)
    (heq : shape S mem₁ d r₁ = shape S mem₂ d r₂) : shape S mem₁ e r₁ = shape S mem₂ e r₂ := by
  induction d with
  | zero => rwa [Nat.le_zero.mp hle]
  | succ d ih =>
    rcases Nat.lt_or_eq_of_le hle with hlt | rfl
    · refine ih (Nat.le_of_lt_succ hlt) ?_
      rw [← upTo_shape, heq, upTo_shape]
    · exact heq

theorem cellAt_grown (hpre : mem <+: mem') {n : Nat} (hn : n < mem.length) :
    cellAt mem' n = cellAt mem n := by
  obtain ⟨rest, rfl⟩ := hpre
  rw [cellAt, cellAt, List.getElem?_append_left hn]

/-- **New structures** are not seen from the old ones. -/
theorem shape_grown (hpre : mem <+: mem') (hclosed : 0 < d → Closed mem)
    (hr : ∀ k, r = .made k → k < mem.length) : shape S mem' d r = shape S mem d r := by
  induction d generalizing r with
  | zero =>
    cases r with
    | ffiTypes name => rfl
    | member name => rfl
    | made n => rw [shape_made_zero, shape_made_zero, cellAt_grown hpre (hr n rfl)]
  | succ d ih =>
    cases r with
    | ffiTypes name => rfl
    | member name => rfl
    | made n =>
      rw [shape_made_succ, shape_made_succ, cellAt_grown hpre (hr n rfl)]
      have hclosed' := hclosed (Nat.succ_pos d)
      congr 1
      cases hes : (cellAt mem n).elements with
      | none => rfl
      | some es =>
        refine congrArg some (List.map_congr_left fun q hq => ?_)
        refine ih (fun _ => hclosed') fun k hk => ?_
        exact hclosed' n es hes k (hk ▸ hq)

end

variable {O : Type}

/-- The first name of the chain that is in `FFI_TYPES`. -/
def World.firstName (w : World O) : List O → Option Ref
  | [] => none
  | cur :: rest =>
    match (w.read w.name cur).bind ffiTypes with
    | some r => some r
    | none => firstName w rest

namespace World

variable (w : World O) (S : StaticTypes) (h : Heap O)

def resolveName (d : Nat) (chain : List O) : Except Failure Shape :=
  match w.firstName chain with
  | some r => .ok (shape S h.made d r)
  | none => .error .undetermined

/-- The fields of a structure, one after the other: the elements that they make. -/
def resolveFields (rec : O → Option (Except Failure Shape)) :
    List O → Option (Except Failure (List Shape))
  | [] => some (.ok [])
  | field :: fields =>
    match w.elementType field with
    | (none, _) => some (.error .notAType)
    | (some type, count) =>
      match rec type with
      | none => none
      | some (.error e) => some (.error e)
      | some (.ok s) =>
        if s.isBuffer then
          (resolveFields rec fields).map fun r => r.map fun rest => List.replicate count s ++ rest
        else some (.error .notABuffer)

/-- What `Type` finds, as far as `n` types into one another. -/
def resolve (d : Nat) : Nat → O → Option (Except Failure Shape)
  | 0, _ => none
  | n + 1, type =>
    match w.branch h type with
    | .done r => some (r.map (shape S h.made d))
    | .cString => some (.ok (shape S h.made d Ref.pointer))
    | .names => some (w.resolveName S h d (w.chain type))
    | .struct fields =>
      (w.resolveFields (resolve (d - 1) n) fields).map fun r => r.map (Shape.struct d)

/-- `Type` finds `r`. -/
def Resolves (d : Nat) (type : O) (r : Except Failure Shape) : Prop :=
  ∃ n, w.resolve S h d n type = some r

/-- What the properties of a type other than `ffi_type` and `fields` say. -/
def byProperties (type : O) : Option Ref :=
  if (w.read w.type type).isSome then some Ref.pointer
  else if (w.read h.fields type).isSome then none
  else
    match testName (w.read w.name type) with
    | .falsy => none
    | .cString => some Ref.pointer
    | .other => w.firstName (w.chain type)

/-- `o` has no `ffi_type` nearer than the one of `c`. -/
inductive Reader (c : O) : O → Prop
  | self : Reader c c
  | derived {o p} : w.proto o = some p → h.ffiType o = none → o ≠ c → Reader c p → Reader c o

/-- The value `v` suits every type that takes its `ffi_type` from `c`. -/
def Harmless (d : Nat) (c : O) (v : Option Ref) : Prop :=
  ∀ o, w.Reader h c o → w.read w.indirection o = some 1 →
    match w.readFfiType h c, v with
    | none, none => True
    | some y, some r => shape S h.made d y = shape S h.made d r
    | none, some r | some r, none =>
      ∃ q, w.byProperties h o = some q ∧ shape S h.made d q = shape S h.made d r

end World

/-- The pointers that are remembered lead somewhere, and where elements are compared, so do
these. -/
structure Heap.Valid (d : Nat) (h : Heap O) : Prop where
  made_lt : ∀ o n, h.ffiType o = some (some (.made n)) → n < h.made.length
  closed : 0 < d → Closed h.made

variable {w : World O} {S : StaticTypes} {h h' : Heap O} {d e : Nat} {c t o : O} {v : Option Ref}

/-! ### Fields -/

theorem resolveFields_noType {rec : O → Option (Except Failure Shape)} {field : O}
    {fields : List O} (htype : (w.elementType field).1 = none) :
    w.resolveFields rec (field :: fields) = some (.error .notAType) := by
  unfold World.resolveFields
  rcases helem : w.elementType field with ⟨_ | type, count⟩
  · rfl
  · rw [helem] at htype
    cases htype

/-- What there is to do for a field that has a type. -/
theorem resolveFields_cons {rec : O → Option (Except Failure Shape)} {field : O}
    {fields : List O} (htype : (w.elementType field).1 = some t) :
    w.resolveFields rec (field :: fields) =
      match rec t with
      | none => none
      | some (.error e) => some (.error e)
      | some (.ok s) =>
        if s.isBuffer then
          (w.resolveFields rec fields).map fun r =>
            r.map fun rest => List.replicate (w.elementType field).2 s ++ rest
        else some (.error .notABuffer) := by
  rw [World.resolveFields]
  rcases helem : w.elementType field with ⟨_ | type, count⟩
  · rw [helem] at htype
    cases htype
  · rw [helem] at htype
    obtain rfl := Option.some.inj htype
    rfl

theorem resolveFields_stops {rec : O → Option (Except Failure Shape)} {field : O}
    {fields : List O} (htype : (w.elementType field).1 = some t) {f : Failure}
    (hrec : rec t = some (.error f)) :
    w.resolveFields rec (field :: fields) = some (.error f) := by
  rw [resolveFields_cons htype, hrec]

theorem resolveFields_goesOn {rec : O → Option (Except Failure Shape)} {field : O}
    {fields : List O} (htype : (w.elementType field).1 = some t) {s : Shape}
    (hrec : rec t = some (.ok s)) (hs : s.isBuffer = true) :
    w.resolveFields rec (field :: fields) =
      (w.resolveFields rec fields).map fun r =>
        r.map fun rest => List.replicate (w.elementType field).2 s ++ rest := by
  rw [resolveFields_cons htype, hrec]
  simp only
  rw [if_pos hs]

theorem resolveFields_notBuffer {rec : O → Option (Except Failure Shape)} {field : O}
    {fields : List O} (htype : (w.elementType field).1 = some t) {s : Shape}
    (hrec : rec t = some (.ok s)) (hs : s.isBuffer ≠ true) :
    w.resolveFields rec (field :: fields) = some (.error .notABuffer) := by
  rw [resolveFields_cons htype, hrec]
  simp only
  rw [if_neg hs]

/-! ### Fuel -/

theorem resolveFields_mono {f g : O → Option (Except Failure Shape)}
    (hfg : ∀ t r, f t = some r → g t = some r) {fields : List O}
    {r : Except Failure (List Shape)} (hr : w.resolveFields f fields = some r) :
    w.resolveFields g fields = some r := by
  induction fields generalizing r with
  | nil => exact hr
  | cons field fields ih =>
    cases htype : (w.elementType field).1 with
    | none =>
      rw [resolveFields_noType htype] at hr ⊢
      exact hr
    | some type =>
      rw [resolveFields_cons htype] at hr ⊢
      cases hf : f type with
      | none =>
        rw [hf] at hr
        cases hr
      | some x =>
        rw [hf] at hr
        rw [hfg type x hf]
        cases x with
        | error e => exact hr
        | ok s =>
          simp only at hr ⊢
          by_cases hs : s.isBuffer = true
          · rw [if_pos hs] at hr ⊢
            obtain ⟨x, hx, rfl⟩ := Option.map_eq_some_iff.mp hr
            rw [ih hx]
            rfl
          · rw [if_neg hs] at hr ⊢
            exact hr

theorem resolve_succ (n : Nat) : ∀ (d : Nat) (t : O) r, w.resolve S h d n t = some r →
    w.resolve S h d (n + 1) t = some r := by
  induction n with
  | zero => exact fun d t r hr => by cases hr
  | succ n ih =>
    intro d t r hr
    rw [World.resolve] at hr ⊢
    cases hb : w.branch h t with
    | done x | cString | names =>
      rw [hb] at hr
      exact hr
    | struct fields =>
      rw [hb] at hr
      obtain ⟨x, hx, rfl⟩ := Option.map_eq_some_iff.mp hr
      simp only
      rw [resolveFields_mono (ih (d - 1)) hx]
      rfl

theorem resolve_mono {n m : Nat} (hle : n ≤ m) {t : O} {r : Except Failure Shape}
    (hr : w.resolve S h d n t = some r) : w.resolve S h d m t = some r := by
  obtain ⟨k, rfl⟩ := Nat.exists_eq_add_of_le hle
  clear hle
  induction k with
  | zero => exact hr
  | succ k ih => exact resolve_succ (n + k) d t r ih

theorem Resolves.det {r r' : Except Failure Shape} (hr : w.Resolves S h d t r)
    (hr' : w.Resolves S h d t r') : r = r' := by
  obtain ⟨n, hn⟩ := hr
  obtain ⟨m, hm⟩ := hr'
  have h₁ := resolve_mono (Nat.le_max_left n m) hn
  rw [resolve_mono (Nat.le_max_right n m) hm] at h₁
  exact (Option.some.inj h₁).symm

/-! ### Branches -/

theorem branch_of_one (hind : w.read w.indirection o = some 1) :
    w.branch h o =
      match w.readFfiType h o with
      | some r => .done (.ok r)
      | none =>
        if (w.read w.type o).isSome then .done (.ok Ref.pointer)
        else
          match w.read h.fields o with
          | some fields => .struct fields
          | none =>
            match World.testName (w.read w.name o) with
            | .falsy => .done (.error .undetermined)
            | .cString => .cString
            | .other => .names := by
  rw [World.branch, hind]
  rfl

theorem branch_of_ne_one (hind : w.read w.indirection o ≠ some 1) (h h' : Heap O) :
    w.branch h' o = w.branch h o := by
  unfold World.branch
  cases hi : w.read w.indirection o with
  | none => rfl
  | some i =>
    cases i with
    | zero => rfl
    | succ i =>
      have hne : i + 1 ≠ 1 := fun heq => hind (by rw [hi, heq])
      simp only [if_neg hne]

theorem branch_congr (hfields : h'.fields = h.fields)
    (hread : w.readFfiType h' o = w.readFfiType h o) : w.branch h' o = w.branch h o := by
  by_cases hind : w.read w.indirection o = some 1
  · rw [branch_of_one hind, branch_of_one hind, hread, hfields]
  · exact branch_of_ne_one hind h h'

theorem branch_of_ffiType (hind : w.read w.indirection o = some 1) {r : Ref}
    (hr : w.readFfiType h o = some r) : w.branch h o = .done (.ok r) := by
  rw [branch_of_one hind, hr]

theorem resolve_of_ffiType (hind : w.read w.indirection o = some 1) {r : Ref}
    (hr : w.readFfiType h o = some r) (n : Nat) :
    w.resolve S h d (n + 1) o = some (.ok (shape S h.made d r)) := by
  rw [World.resolve, branch_of_ffiType hind hr]
  rfl

theorem resolve_of_byProperties (hind : w.read w.indirection o = some 1)
    (hnone : w.readFfiType h o = none) {q : Ref} (hq : w.byProperties h o = some q) (n : Nat) :
    w.resolve S h d (n + 1) o = some (.ok (shape S h.made d q)) := by
  rw [World.resolve, branch_of_one hind, hnone]
  unfold World.byProperties at hq
  by_cases htype : (w.read w.type o).isSome = true
  · rw [if_pos htype] at hq
    obtain rfl := Option.some.inj hq
    simp only [if_pos htype]
    rfl
  · rw [if_neg htype] at hq
    simp only [if_neg htype]
    cases hfields : w.read h.fields o with
    | some fields =>
      rw [hfields] at hq
      cases hq
    | none =>
      rw [hfields] at hq
      simp only [Option.isSome_none, Bool.false_eq_true, if_false] at hq
      simp only
      cases htest : World.testName (w.read w.name o) with
      | falsy =>
        rw [htest] at hq
        cases hq
      | cString =>
        rw [htest] at hq
        obtain rfl := Option.some.inj hq
        rfl
      | other =>
        rw [htest] at hq
        simp only at hq ⊢
        rw [World.resolveName, hq]

/-! ### Reading after a write -/

theorem World.Reader.read_eq (hr : w.Reader h c o) : w.readFfiType h o = w.readFfiType h c := by
  induction hr with
  | self => rfl
  | derived hproto hnone _ _ ih =>
    rw [World.readFfiType, World.read_of_proto hnone hproto, ← ih]
    rfl

/-! ### Heaps in which everything stands for the same -/

/-- Every type stands for the same in both heaps, at every depth down to `d`, and is not deeper in
the second. -/
structure Same (w : World O) (S : StaticTypes) (d : Nat) (h h' : Heap O) : Prop where
  forward : ∀ e ≤ d, ∀ n t r, w.resolve S h e n t = some r → w.resolve S h' e n t = some r
  backward : ∀ e ≤ d, ∀ t r, w.Resolves S h' e t r → w.Resolves S h e t r

theorem Same.refl : Same w S d h h := ⟨fun _ _ _ _ _ hr => hr, fun _ _ _ _ hr => hr⟩

theorem Same.trans {h'' : Heap O} (h₁ : Same w S d h h') (h₂ : Same w S d h' h'') :
    Same w S d h h'' :=
  ⟨fun e he n t r hr => h₂.forward e he n t r (h₁.forward e he n t r hr),
    fun e he t r hr => h₁.backward e he t r (h₂.backward e he t r hr)⟩

theorem Same.resolves (hs : Same w S d h h') (t : O) (r : Except Failure Shape) :
    w.Resolves S h d t r ↔ w.Resolves S h' d t r :=
  ⟨fun ⟨n, hn⟩ => ⟨n, hs.forward d le_rfl n t r hn⟩, hs.backward d le_rfl t r⟩

theorem resolveFields_fuel {f : O → Option (Except Failure Shape)}
    (hf : ∀ t r, f t = some r → w.Resolves S h d t r) {fields : List O}
    {x : Except Failure (List Shape)} (hx : w.resolveFields f fields = some x) :
    ∃ m, w.resolveFields (w.resolve S h d m) fields = some x := by
  induction fields generalizing x with
  | nil => exact ⟨0, hx⟩
  | cons field fields ih =>
    cases htype : (w.elementType field).1 with
    | none =>
      rw [resolveFields_noType htype] at hx
      exact ⟨0, (resolveFields_noType htype).trans hx⟩
    | some type =>
      cases hft : f type with
      | none =>
        rw [resolveFields_cons htype, hft] at hx
        cases hx
      | some y =>
        obtain ⟨m, hm⟩ := hf type y hft
        cases y with
        | error e =>
          rw [resolveFields_stops htype hft] at hx
          exact ⟨m, (resolveFields_stops htype hm).trans hx⟩
        | ok s =>
          by_cases hs : s.isBuffer = true
          · rw [resolveFields_goesOn htype hft hs] at hx
            obtain ⟨y, hy, rfl⟩ := Option.map_eq_some_iff.mp hx
            obtain ⟨k, hk⟩ := ih hy
            refine ⟨max m k, ?_⟩
            rw [resolveFields_goesOn htype (resolve_mono (Nat.le_max_left m k) hm) hs,
              resolveFields_mono (fun t r hr => resolve_mono (Nat.le_max_right m k) hr) hk]
            rfl
          · rw [resolveFields_notBuffer htype hft hs] at hx
            exact ⟨m, (resolveFields_notBuffer htype hm hs).trans hx⟩

/-- For every type the next step of `Type` is the same, with the same shape, or the answer is known
in the second heap. -/
def Answers (w : World O) (S : StaticTypes) (d : Nat) (h h' : Heap O) (o : O) : Prop :=
  (w.branch h' o = w.branch h o ∧
      ∀ r, w.branch h o = .done (.ok r) → shape S h'.made d r = shape S h.made d r) ∨
    ∃ s, w.Resolves S h d o (.ok s) ∧ ∀ n, w.resolve S h' d (n + 1) o = some (.ok s)

theorem shape_firstName {mem mem' : Memory} {chain : List O} {r : Ref}
    (hr : w.firstName chain = some r) : shape S mem d r = shape S mem' d r := by
  induction chain with
  | nil => cases hr
  | cons cur rest ih =>
    unfold World.firstName at hr
    cases hname : (w.read w.name cur).bind ffiTypes with
    | none =>
      rw [hname] at hr
      exact ih hr
    | some q =>
      rw [hname] at hr
      obtain rfl := Option.some.inj hr
      obtain ⟨name, _, hq⟩ := Option.bind_eq_some_iff.mp hname
      unfold ffiTypes at hq
      split at hq
      · obtain rfl := Option.some.inj hq
        rw [shape_ffiTypes, shape_ffiTypes]
      · split at hq
        · obtain rfl := Option.some.inj hq
          rw [shape_member, shape_member]
        · cases hq

theorem resolveName_congr (chain : List O) :
    w.resolveName S h' d chain = w.resolveName S h d chain := by
  unfold World.resolveName
  cases hr : w.firstName chain with
  | none => rfl
  | some r =>
    simp only
    rw [shape_firstName hr]

theorem resolve_step (hb : w.branch h' o = w.branch h o)
    (hshape : ∀ r, w.branch h o = .done (.ok r) → shape S h'.made d r = shape S h.made d r)
    {n m : Nat} {r : Except Failure Shape} (hr : w.resolve S h d (n + 1) o = some r)
    (hfields : ∀ fields x, w.branch h o = .struct fields →
      w.resolveFields (w.resolve S h (d - 1) n) fields = some x →
      w.resolveFields (w.resolve S h' (d - 1) m) fields = some x) :
    w.resolve S h' d (m + 1) o = some r := by
  rw [World.resolve] at hr ⊢
  rw [hb]
  cases hbranch : w.branch h o with
  | done x =>
    rw [hbranch] at hr
    cases x with
    | error e => exact hr
    | ok q =>
      simp only [Except.map] at hr ⊢
      rw [hshape q hbranch]
      exact hr
  | cString =>
    rw [hbranch] at hr
    simp only [Ref.pointer, shape_ffiTypes] at hr ⊢
    exact hr
  | names =>
    rw [hbranch] at hr
    simp only at hr ⊢
    rw [resolveName_congr]
    exact hr
  | struct fields =>
    rw [hbranch] at hr
    obtain ⟨x, hx, rfl⟩ := Option.map_eq_some_iff.mp hr
    simp only
    rw [hfields fields x hbranch hx]
    rfl

theorem same_of_answers (hans : ∀ e ≤ d, ∀ o, Answers w S e h h' o) : Same w S d h h' := by
  constructor
  · intro e he n
    induction n generalizing e with
    | zero => exact fun t r hr => by cases hr
    | succ n ih =>
      intro t r hr
      rcases hans e he t with ⟨hb, hshape⟩ | ⟨s, hs, hans⟩
      · exact resolve_step hb hshape hr fun fields x _ hx =>
          resolveFields_mono (ih (e - 1) (by omega)) hx
      · rw [Resolves.det ⟨n + 1, hr⟩ hs]
        exact hans n
  · rintro e he t r ⟨n, hn⟩
    induction n generalizing e t r with
    | zero => cases hn
    | succ n ih =>
      rcases hans e he t with ⟨hb, hshape⟩ | ⟨s, hs, hans⟩
      · cases hbranch : w.branch h t with
        | struct fields =>
          have hstep := hn
          rw [World.resolve, hb, hbranch] at hstep
          obtain ⟨x, hx, _⟩ := Option.map_eq_some_iff.mp hstep
          obtain ⟨m, hm⟩ := resolveFields_fuel (w := w) (S := S) (h := h) (ih (e - 1) (by omega)) hx
          refine ⟨m + 1, resolve_step hb.symm (fun q hq => ?_) hn fun fields' x' hb' hx' => ?_⟩
          · rw [hb, hbranch] at hq
            cases hq
          · rw [hb, hbranch] at hb'
            obtain rfl := World.Branch.struct.inj hb'
            rw [hx] at hx'
            rw [hm, hx']
        | done x | cString | names =>
          refine ⟨1, resolve_step hb.symm (fun q hq => ?_) hn fun fields' x' hb' _ => ?_⟩
          · rw [hb] at hq
            exact (hshape q hq).symm
          · rw [hb, hbranch] at hb'
            cases hb'
      · rw [hans n] at hn
        rw [← Option.some.inj hn]
        exact hs

/-! ### Writes -/

variable [DecidableEq O]

theorem World.Reader.read_assign (hr : w.Reader h c o) (v : Option Ref) :
    w.readFfiType (h.assign c v) o = v := by
  induction hr with
  | self =>
    rw [World.readFfiType, World.read_of_own (assign_ffiType_self h c v)]
    rfl
  | derived hproto hnone hne _ ih =>
    have hown := (assign_ffiType_of_ne h hne v).trans hnone
    rw [World.readFfiType, World.read_of_proto hown hproto]
    exact ih

theorem read_assign_of_not_reader (hr : ¬ w.Reader h c o) (v : Option Ref) :
    w.readFfiType (h.assign c v) o = w.readFfiType h o := by
  induction hd : w.depth o using Nat.strongRecOn generalizing o with
  | ind d ih =>
    have hne : o ≠ c := fun heq => hr (heq ▸ .self)
    have hown := assign_ffiType_of_ne h hne v
    cases hffi : h.ffiType o with
    | some x =>
      rw [World.readFfiType, World.readFfiType, World.read_of_own hffi,
        World.read_of_own (hown.trans hffi)]
    | none =>
      cases hproto : w.proto o with
      | none =>
        rw [World.readFfiType, World.readFfiType, World.read_of_proto_none _ hproto,
          World.read_of_proto_none _ hproto, hown]
      | some p =>
        have hdepth := w.proto_depth o p hproto
        rw [World.readFfiType, World.readFfiType, World.read_of_proto hffi hproto,
          World.read_of_proto (hown.trans hffi) hproto]
        exact ih (w.depth p) (by omega) (fun hp => hr (.derived hproto hffi hne hp)) rfl

omit [DecidableEq O] in
theorem harmless_of_le (hle : e ≤ d) (hharmless : w.Harmless S h d c v) :
    w.Harmless S h e c v := by
  intro o hr hind
  have hcase := hharmless o hr hind
  cases hx : w.readFfiType h c <;> cases v <;> rw [hx] at hcase
  · trivial
  · obtain ⟨q, hq, hshape⟩ := hcase
    exact ⟨q, hq, shape_eq_of_le hle hshape⟩
  · obtain ⟨q, hq, hshape⟩ := hcase
    exact ⟨q, hq, shape_eq_of_le hle hshape⟩
  · exact shape_eq_of_le hle hcase

/-- **A harmless write changes nothing.** -/
theorem resolve_assign (hharmless : w.Harmless S h d c v) : Same w S d h (h.assign c v) := by
  refine same_of_answers fun e he o => ?_
  by_cases hind : w.read w.indirection o = some 1
  · by_cases hr : w.Reader h c o
    · have hread := hr.read_eq
      have hwrite := hr.read_assign v
      have hcase := harmless_of_le he hharmless o hr hind
      cases hx : w.readFfiType h c with
      | none =>
        rw [hx] at hcase hread
        cases v with
        | none => exact .inl ⟨branch_congr rfl (hwrite.trans hread.symm), fun _ _ => rfl⟩
        | some r =>
          obtain ⟨q, hq, hshape⟩ := hcase
          refine .inr ⟨shape S h.made e r, ⟨1, ?_⟩, resolve_of_ffiType hind hwrite⟩
          rw [← hshape]
          exact resolve_of_byProperties hind hread hq 0
      | some y =>
        rw [hx] at hcase hread
        cases v with
        | none =>
          obtain ⟨q, hq, hshape⟩ := hcase
          refine .inr ⟨shape S h.made e y, ⟨1, resolve_of_ffiType hind hread 0⟩, fun n => ?_⟩
          rw [← hshape]
          exact resolve_of_byProperties hind hwrite hq n
        | some r =>
          refine .inr ⟨shape S h.made e y, ⟨1, resolve_of_ffiType hind hread 0⟩, fun n => ?_⟩
          rw [show shape S h.made e y = shape S h.made e r from hcase]
          exact resolve_of_ffiType hind hwrite n
    · exact .inl ⟨branch_congr rfl (read_assign_of_not_reader hr v), fun _ _ => rfl⟩
  · exact .inl ⟨branch_of_ne_one hind _ _, fun _ _ => rfl⟩

end NodeFfi.Resolve
