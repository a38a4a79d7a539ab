import Mathlib.Data.List.Forall2
import Mathlib.Logic.Relation
import NodeFfi.Resolve.Build
import NodeFfi.Resolve.Shared

/-!
# `CIF` on objects

`CIF` and `CIF_var` ask `Type` for the return type and for the types of the arguments and hand the
pointers to libffi, which completes the structures in place. `ForeignFunction` and `Callback` use
types in no other way.

Whatever is done with the types, the `ffi_type`s that are known stay the same, what settles goes on
to settle with the same size, and what is stuck stays stuck (`Later`).
-/

namespace NodeFfi.Resolve

open Js Libffi Relation

structure Call (O : Type) where
  rtype : O
  types : List O
  /-- The number of fixed arguments for `CIF_var`, none for `CIF`. -/
  numFixedArgs : Option Nat

/-- The assertion about the number of fixed arguments. -/
def Call.Valid {O : Type} (call : Call O) : Prop := call.numFixedArgs ≠ some 0

instance {O : Type} (call : Call O) : Decidable call.Valid := instDecidableNot

/-- Why `CIF` returns nothing. -/
inductive CifStop where
  | type (e : Stop)
  | numFixedArgs
  | status (status : Status)
  deriving DecidableEq, Repr

variable {O : Type} [DecidableEq O]

namespace World

variable (w : World O) (S : StaticTypes)

/-- The loop over the types of the arguments. -/
def typePointers (fuel : Nat) : List O → Script O (List Ref)
  | [] => pure []
  | type :: types => do
    let ffiType ← w.toFfiType fuel type
    Js.ofExcept (checkBuffer ffiType)
    let rest ← typePointers fuel types
    return ffiType :: rest

/-- The calls of `Type` in `CIF`. -/
def pointers (fuel : Nat) (call : Call O) : Js (Heap O) CifStop (Ref × List Ref) :=
  Js.tryCatch (do
    let rtypeptr ← w.toFfiType fuel call.rtype
    let argtypesptr ← w.typePointers fuel call.types
    return (rtypeptr, argtypesptr)) fun e => Js.throw (.type e)

/-- `CIF` and `CIF_var`, for an ABI that is there. -/
def cif (fuel : Nat) (call : Call O) : Js (Heap O) CifStop Unit :=
  if call.Valid then do
    let ptrs ← w.pointers fuel call
    let status ← Js.step fun h =>
      let result := prepCif S ptrs.1 ptrs.2 h.made
      (result.1, { h with made := result.2 })
    match status with
    | .ok => return ()
    | status => Js.throw (.status status)
  else Js.throw .numFixedArgs

/-- Some use of the types that has come to its end. -/
inductive Uses : Heap O → Heap O → Prop
  | type {n t h r h'} : w.toFfiType n t h = (r, h') → Ended r → Uses h h'
  | cif {n call h r h'} : w.cif S n call h = (r, h') → r ≠ .error (.type .running) → Uses h h'

end World

namespace Graph

variable {G : Graph O} {S : StaticTypes} {h h' h'' : Heap O}

theorem toFfiType_called {n : Nat} {t : O} {r : Except Stop Ref} (hfits : G.Fits h)
    (hrun : G.world.toFfiType n t h = (r, h')) (hend : Ended r) :
    G.Built (fun _ => False) h h' ∧ ∃ q, r = .ok q ∧ G.ref h' t = some q := by
  obtain ⟨hb, _, hq⟩ := toFfiType_built n (fun _ => False) t h r h' hfits (fun _ hx => hx.elim)
    (fun _ hx => hx.elim) hrun hend
  exact ⟨hb, hq⟩

/-- `Type` has answered with these. -/
def Pointers (G : Graph O) (h : Heap O) (ts : List O) (ptrs : List Ref) : Prop :=
  List.Forall₂ (fun t ptr => G.ref h t = some ptr) ts ptrs

section

omit [DecidableEq O]

theorem Pointers.mono {ts : List O} {ptrs : List Ref} (hp : G.Pointers h ts ptrs)
    (hkeep : ∀ o r, G.ref h o = some r → G.ref h' o = some r) : G.Pointers h' ts ptrs :=
  List.Forall₂.imp (fun t ptr hr => hkeep t ptr hr) hp

theorem Pointers.unique {ts : List O} {ptrs ptrs' : List Ref} (hp : G.Pointers h ts ptrs)
    (hp' : G.Pointers h ts ptrs') : ptrs = ptrs' := by
  induction hp generalizing ptrs' with
  | nil =>
    cases hp'
    rfl
  | cons hr _ ih =>
    obtain _ | ⟨hr', hrest⟩ := hp'
    rw [Option.some.inj (hr.symm.trans hr'), ih hrest]

end

theorem typePointers_built {n : Nat} (ts : List O) {h : Heap O} {r : Except Stop (List Ref)}
    {h' : Heap O} (hfits : G.Fits h) (hrun : G.world.typePointers n ts h = (r, h'))
    (hend : Ended r) :
    G.Built (fun _ => False) h h' ∧ ∃ ptrs, r = .ok ptrs ∧ G.Pointers h' ts ptrs := by
  induction ts generalizing h r with
  | nil =>
    obtain ⟨rfl, rfl⟩ := Prod.mk.inj hrun
    exact ⟨.refl hfits fun _ hx => hx.elim, [], rfl, .nil⟩
  | cons t ts ih =>
    rw [World.typePointers] at hrun
    rcases htype : G.world.toFfiType n t h with ⟨e | q, h₁⟩
    · rw [Js.bind_error htype] at hrun
      obtain ⟨rfl, rfl⟩ := Prod.mk.inj hrun
      obtain ⟨_, q, hq, _⟩ :=
        toFfiType_called hfits htype hend.of_error
      cases hq
    · obtain ⟨hb₁, q', hq, href⟩ := toFfiType_called hfits htype (ended_ok q)
      obtain rfl := Except.ok.inj hq
      rw [Js.bind_ok htype, Js.bind_ok (checkBuffer_apply (ref_isBuffer hb₁.fits href) h₁)] at hrun
      rcases hrest : G.world.typePointers n ts h₁ with ⟨e | ptrs, h₂⟩
      · rw [Js.bind_error hrest] at hrun
        obtain ⟨rfl, rfl⟩ := Prod.mk.inj hrun
        obtain ⟨_, q, hq, _⟩ := ih hb₁.fits hrest hend.of_error
        cases hq
      · rw [Js.bind_ok hrest] at hrun
        obtain ⟨rfl, rfl⟩ := Prod.mk.inj hrun
        obtain ⟨hb₂, ptrs', hq, hptrs⟩ := ih hb₁.fits hrest (ended_ok ptrs)
        obtain rfl := Except.ok.inj hq
        exact ⟨hb₁.trans hfits hb₂, _, rfl, .cons (hb₂.keep _ _ href) hptrs⟩

theorem pointers_built {n : Nat} {call : Call O} {r : Except CifStop (Ref × List Ref)}
    (hfits : G.Fits h) (hrun : G.world.pointers n call h = (r, h'))
    (hend : r ≠ .error (.type .running)) :
    G.Built (fun _ => False) h h' ∧ ∃ ptr ptrs, r = .ok (ptr, ptrs) ∧
      G.Pointers h' (call.rtype :: call.types) (ptr :: ptrs) := by
  rw [World.pointers] at hrun
  have hthrow : ∀ {e : Stop} {h₁ : Heap O}, (do
      let rtypeptr ← G.world.toFfiType n call.rtype
      let argtypesptr ← G.world.typePointers n call.types
      return (rtypeptr, argtypesptr) : Script O (Ref × List Ref)) h = (.error e, h₁) →
      Ended (.error e : Except Stop Ref) := by
    intro e h₁ hbody he
    rw [Js.tryCatch_error hbody] at hrun
    obtain ⟨rfl, _⟩ := Prod.mk.inj hrun
    exact hend (by rw [Except.error.inj he])
  rcases htype : G.world.toFfiType n call.rtype h with ⟨e | ptr, h₁⟩
  · obtain ⟨_, q, hq, _⟩ := toFfiType_called hfits htype (hthrow (Js.bind_error htype))
    cases hq
  · obtain ⟨hb₁, q, hq, href⟩ := toFfiType_called hfits htype (ended_ok ptr)
    obtain rfl := Except.ok.inj hq
    rcases htypes : G.world.typePointers n call.types h₁ with ⟨e | ptrs, h₂⟩
    · have hbody := hthrow ((Js.bind_ok htype).trans (Js.bind_error htypes))
      obtain ⟨_, q, hq, _⟩ := typePointers_built call.types hb₁.fits htypes
        hbody.of_error
      cases hq
    · obtain ⟨hb₂, ptrs', hq, hptrs⟩ :=
        typePointers_built call.types hb₁.fits htypes (ended_ok ptrs)
      obtain rfl := Except.ok.inj hq
      rw [Js.tryCatch_ok ((Js.bind_ok htype).trans (Js.bind_ok htypes))] at hrun
      obtain ⟨rfl, rfl⟩ := Prod.mk.inj hrun
      exact ⟨hb₁.trans hfits hb₂, ptr, ptrs, rfl, .cons (hb₂.keep _ _ href) hptrs⟩

/-- What `CIF` says when libffi has come to this status. -/
def answer : Status → Except CifStop Unit
  | .ok => .ok ()
  | status => .error (.status status)

theorem answer_injective {s s' : Status} (heq : answer s = answer s') : s = s' := by
  cases s <;> cases s' <;> first | rfl | cases heq

theorem cif_spec {n : Nat} {call : Call O} {r : Except CifStop Unit} (hfits : G.Fits h)
    (hvalid : call.Valid) (hrun : G.world.cif S n call h = (r, h'))
    (hend : r ≠ .error (.type .running)) :
    ∃ ptr ptrs h₁, G.Built (fun _ => False) h h₁ ∧
      G.Pointers h₁ (call.rtype :: call.types) (ptr :: ptrs) ∧
      h' = { h₁ with made := (prepCif S ptr ptrs h₁.made).2 } ∧
      r = answer (prepCif S ptr ptrs h₁.made).1 := by
  rw [World.cif, if_pos hvalid] at hrun
  rcases hptrs : G.world.pointers n call h with ⟨e | ⟨ptr, ptrs⟩, h₁⟩
  · rw [Js.bind_error hptrs] at hrun
    obtain ⟨rfl, rfl⟩ := Prod.mk.inj hrun
    obtain ⟨_, _, _, hq, _⟩ :=
      pointers_built hfits hptrs (fun he => hend (by rw [Except.error.inj he]))
    cases hq
  · obtain ⟨hb, ptr', ptrs', hq, hp⟩ := pointers_built hfits hptrs (by simp)
    obtain ⟨rfl, rfl⟩ := Prod.mk.inj (Except.ok.inj hq)
    rw [Js.bind_ok hptrs, Js.bind_ok (Js.step_apply _ _)] at hrun
    refine ⟨ptr, ptrs, h₁, hb, hp, ?_⟩
    simp only at hrun
    cases hs : (prepCif S ptr ptrs h₁.made).1 with
    | ok | badTypedef | badAbi =>
      rw [hs] at hrun
      obtain ⟨rfl, rfl⟩ := Prod.mk.inj hrun
      exact ⟨rfl, rfl⟩

/-! ### Later -/

/-- What holds of the types at any later moment. -/
structure Later (G : Graph O) (S : StaticTypes) (h h' : Heap O) : Prop where
  fits : G.Fits h'
  layered : Layered h'.made
  fields : h'.fields = h.fields
  length_le : h.made.length ≤ h'.made.length
  keep : ∀ o r, G.ref h o = some r → G.ref h' o = some r
  settles : ∀ ptr, Below h.made.length ptr → ∀ e, Settles S h.made ptr e → Settles S h'.made ptr e
  stuck : ∀ ptr, Below h.made.length ptr → Stuck S h.made ptr → Stuck S h'.made ptr

section

omit [DecidableEq O]

theorem Later.refl (hfits : G.Fits h) (hlay : Layered h.made) : G.Later S h h where
  fits := hfits
  layered := hlay
  fields := rfl
  length_le := Nat.le_refl _
  keep _ _ hr := hr
  settles _ _ _ hs := hs
  stuck _ _ hs := hs

theorem Later.trans (h₁ : G.Later S h h') (h₂ : G.Later S h' h'') : G.Later S h h'' where
  fits := h₂.fits
  layered := h₂.layered
  fields := h₂.fields.trans h₁.fields
  length_le := Nat.le_trans h₁.length_le h₂.length_le
  keep o r hr := h₂.keep o r (h₁.keep o r hr)
  settles ptr hptr e hs := h₂.settles ptr (hptr.mono h₁.length_le) e (h₁.settles ptr hptr e hs)
  stuck ptr hptr hs := h₂.stuck ptr (hptr.mono h₁.length_le) (h₁.stuck ptr hptr hs)

theorem Built.later {X : O → Prop} (hb : G.Built X h h') (hlay : Layered h.made) :
    G.Later S h h' := by
  have hcells : Cells (Prepares S) h.made.length h.made h'.made := by
    intro n cell hn hcell
    obtain ⟨suffix, hsuffix⟩ := hb.made
    exact ⟨cell, by rw [← hsuffix, List.getElem?_append_left hn, hcell], .inl (.inl rfl)⟩
  exact
    { fits := hb.fits
      layered := hb.layered hlay
      fields := hb.fields
      length_le := hb.made.length_le
      keep := hb.keep
      settles := fun _ hptr _ hs => settles_mono hlay hcells hptr hs
      stuck := fun _ hptr hs => stuck_mono hlay hcells hptr hs }

theorem Pointers.below (hfits : G.Fits h) {ts : List O} {ptrs : List Ref}
    (hp : G.Pointers h ts ptrs) : ∀ ptr ∈ ptrs, Below h.made.length ptr := by
  induction hp with
  | nil => simp
  | cons hr _ ih =>
    intro ptr hmem
    rcases List.mem_cons.mp hmem with rfl | hmem
    · exact below_of_ref hfits hr
    · exact ih ptr hmem

theorem prepCif_later (hfits : G.Fits h) (hlay : Layered h.made) {ptr : Ref} {ptrs : List Ref}
    (hbelow : ∀ p ∈ ptr :: ptrs, Below h.made.length p) :
    G.Later S h { h with made := (prepCif S ptr ptrs h.made).2 } := by
  obtain ⟨hels, hcells, _⟩ := prepCif_spec (S := S) hlay hbelow
  exact
    { fits :=
        { scalar := hfits.scalar
          array := hfits.array
          refType := hfits.refType
          struct := hfits.struct
          valid := fun o n hr => by
            rw [hels.length]
            exact hfits.valid o n hr }
      layered := hels.layered hlay
      fields := rfl
      length_le := Nat.le_of_eq hels.length.symm
      keep := fun _ _ hr => hr
      settles := fun _ hptr _ hs => settles_mono hlay hcells hptr hs
      stuck := fun _ hptr hs => stuck_mono hlay hcells hptr hs }

end

theorem cif_later {n : Nat} {call : Call O} {r : Except CifStop Unit} (hfits : G.Fits h)
    (hlay : Layered h.made) (hrun : G.world.cif S n call h = (r, h'))
    (hend : r ≠ .error (.type .running)) : G.Later S h h' := by
  by_cases hvalid : call.Valid
  · obtain ⟨ptr, ptrs, h₁, hb, hp, rfl, _⟩ := cif_spec hfits hvalid hrun hend
    exact (hb.later hlay).trans (prepCif_later hb.fits (hb.layered hlay) (hp.below hb.fits))
  · rw [World.cif, if_neg hvalid] at hrun
    obtain ⟨_, rfl⟩ := Prod.mk.inj hrun
    exact .refl hfits hlay

/-- **Any number of uses.** -/
theorem uses_later (hfits : G.Fits h) (hlay : Layered h.made)
    (hrun : ReflTransGen (G.world.Uses S) h h') : G.Later S h h' := by
  induction hrun with
  | refl => exact .refl hfits hlay
  | tail _ hstep ih =>
    refine ih.trans ?_
    cases hstep with
    | type htype hend => exact (toFfiType_called ih.fits htype hend).1.later ih.layered
    | cif hcif hend => exact cif_later ih.fits ih.layered hcif hend

end Graph

end NodeFfi.Resolve
