import Mathlib.Data.Fintype.EquivFin
import Mathlib.Logic.Relation
import NodeFfi.Resolve.Build

/-!
# When `Type` ends

A recursive C type is a cycle of type objects that goes through a pointer, and `Type` stops at a
pointer. It does not stop at a field that is a pointer to an array of fixed length, which it takes
for the array. So `Type` ends on every type of a graph exactly if there is no cycle of its own
calls (`type_ends_iff`), which for graphs without such fields is what C asks for
(`ends_of_no_array_pointer`).
-/

namespace NodeFfi.Resolve

open Js Relation

namespace Graph

variable {O : Type} [DecidableEq O] {G : Graph O} {h : Heap O}

/-- Values of `t` have values of `u` in them: the fields of a struct, the elements of an array of
fixed length. A pointer has nothing in it. -/
def Contains (G : Graph O) (fields : O → Option (List O)) (t u : O) : Prop :=
  (G.node t = .structType ∧ ∃ fs, fields t = some fs ∧ u ∈ fs) ∨
    ∃ n, G.node t = .arrayType u (n + 1)

/-- `Type` comes to a result. -/
def Ends (G : Graph O) (t : O) (h : Heap O) : Prop := ∃ n, Ended (G.world.toFfiType n t h).1

theorem ends_of_ref {t : O} (hfits : G.Fits h) {r : Ref} (hr : G.ref h t = some r) :
    G.Ends t h := by
  refine ⟨1, ?_⟩
  rw [World.toFfiType_succ]
  rcases branch_eq hfits t with ⟨q, _, hbranch⟩ | ⟨_, _, hnone, _⟩
  · rw [hbranch]
    exact ended_ok q
  · rw [hnone] at hr
    cases hr

theorem elementPointers_ends (fields : List O) (h : Heap O) (hfits : G.Fits h)
    (hends : ∀ f ∈ fields, ∀ h', G.Built (fun _ => False) h h' → G.Ends (G.element f).1 h') :
    ∃ n, Ended (G.world.elementPointers (G.world.toFfiType n) fields h).1 := by
  induction fields generalizing h with
  | nil => exact ⟨0, ended_ok []⟩
  | cons f fields ih =>
    obtain ⟨n, hn⟩ := hends f (.head _) h (.refl hfits fun _ hx => hx.elim)
    rcases hptr : G.world.toFfiType n (G.element f).1 h with ⟨r, h₁⟩
    rw [hptr] at hn
    obtain ⟨hb, _, ptr, rfl, href⟩ := toFfiType_built n (fun _ => False) _ h r h₁ hfits
      (fun _ hx => hx.elim) (fun _ hx => hx.elim) hptr hn
    obtain ⟨m, hm⟩ := ih h₁ hb.fits fun f' hf' h' hb' =>
      hends f' (.tail _ hf') h' (hb.trans hfits hb')
    refine ⟨max n m, ?_⟩
    unfold World.elementPointers
    rw [elementType_eq]
    simp only
    rw [Js.bind_ok (World.toFfiType_mono _ (Nat.le_max_left n m) _ h _ h₁ hptr (ended_ok ptr)),
      Js.bind_ok (checkBuffer_apply (ref_isBuffer hb.fits href) h₁)]
    rcases hrec : G.world.elementPointers (G.world.toFfiType m) fields h₁ with ⟨r', h₂⟩
    rw [hrec] at hm
    have hrec' := World.elementPointers_extends _
      (fun t => World.toFfiType_mono _ (Nat.le_max_right n m) t) fields h₁ r' h₂ hrec hm
    cases r' with
    | ok rest =>
      rw [Js.bind_ok hrec']
      exact ended_ok _
    | error e =>
      rw [Js.bind_error hrec']
      exact hm.of_error

/-- `Type` of `t`, if it were called now, would call `Type` of `u`. -/
def Calls (G : Graph O) (h : Heap O) (t u : O) : Prop :=
  G.Recurs h.fields t u ∧ h.ffiType t = none

omit [DecidableEq O] in
theorem Calls.mono {h' : Heap O} (hfields : h'.fields = h.fields)
    (hkeep : ∀ o r, G.ref h o = some r → G.ref h' o = some r) {t u : O} (hcall : G.Calls h' t u)
    (hstruct : h.ffiType t = none ∨ ∃ n, h.ffiType t = some (some (.made n))) :
    G.Calls h t u := by
  obtain ⟨hrec, hnone⟩ := hcall
  refine ⟨hfields ▸ hrec, hstruct.resolve_right ?_⟩
  rintro ⟨n, hn⟩
  have hknown := hkeep t (.made n) (by rw [ref_struct hrec.1, hn]; rfl)
  rw [ref_struct hrec.1, hnone] at hknown
  cases hknown

theorem ends_of_wellFounded {R : O → O → Prop} (hwf : WellFounded fun u t => R t u) (t : O) :
    ∀ h, G.Fits h → (∀ t u, G.Calls h t u → R t u) → G.Ends t h := by
  induction t using hwf.induction with
  | h t ih =>
    intro h hfits hR
    rcases branch_eq hfits t with ⟨r, hr, _⟩ | ⟨hnode, hnone, _, fields, hf, hbranch⟩
    · exact ends_of_ref hfits hr
    · obtain ⟨n, hn⟩ := elementPointers_ends fields h hfits fun f hmem h' hb =>
        ih (G.element f).1 (hR _ _ ⟨⟨hnode, fields, f, hf, hmem, rfl⟩, hnone⟩) h' hb.fits
          fun t u hcall =>
            hR t u (hcall.mono hb.fields hb.keep (hfits.struct t hcall.1.1).2)
      refine ⟨n + 1, ?_⟩
      rw [World.toFfiType_succ, hbranch, World.resume_struct]
      rcases hels : G.world.elementPointers (G.world.toFfiType n) fields h with ⟨e | es, h₁⟩
      · rw [hels] at hn
        rw [Js.bind_error hels]
        exact hn.of_error
      · rw [Js.bind_ok hels]
        exact ended_ok _

theorem not_ends_of_cycle (hfits : G.Fits h) {t : O} (hcycle : TransGen (G.Calls h) t t) :
    ¬ G.Ends t h := by
  rintro ⟨n, hn⟩
  have hnext : ∀ x, TransGen (G.Calls h) x x → ∃ y, G.Calls h x y ∧ TransGen (G.Calls h) y y := by
    intro x hx
    obtain ⟨y, hxy, hyx⟩ := TransGen.head'_iff.mp hx
    exact ⟨y, hxy, TransGen.tail' hyx hxy⟩
  rcases hrun : G.world.toFfiType n t h with ⟨r, h'⟩
  rw [hrun] at hn
  -- no type on a cycle can be the first one to be remembered
  obtain ⟨_, hnot, _⟩ := toFfiType_built n (fun x => TransGen (G.Calls h) x x) t h r h' hfits
    (fun x hx => by
      obtain ⟨y, hxy, _⟩ := hnext x hx
      exact hxy.2)
    (fun x hx => by
      obtain ⟨y, hxy, hy⟩ := hnext x hx
      exact ⟨y, hxy.1, .inl hy⟩) hrun hn
  exact hnot hcycle

/-- **When `Type` ends on every type of a graph**: exactly when its calls do not come back to the
type that they started from. -/
theorem type_ends_iff [Finite O] (hfits : G.Fits h) :
    (∀ t, G.Ends t h) ↔ ∀ t, ¬ TransGen (G.Calls h) t t := by
  constructor
  · exact fun hends t hcycle => not_ends_of_cycle hfits hcycle (hends t)
  · intro hno t
    have hwf : WellFounded fun u t => TransGen (G.Calls h) t u := by
      have : IsTrans O fun u t => TransGen (G.Calls h) t u := ⟨fun _ _ _ h₁ h₂ => h₂.trans h₁⟩
      have : Std.Irrefl fun u t => TransGen (G.Calls h) t u := ⟨hno⟩
      exact Finite.wellFounded_of_trans_of_irrefl _
    exact ends_of_wellFounded (Subrelation.wf (fun h => .single h) hwf) t h hfits fun _ _ hc => hc

omit [DecidableEq O] in
theorem contains_of_recurs {F : O → Option (List O)}
    (hno : ∀ t fs f, F t = some fs → f ∈ fs → ∀ p, G.node f = .refType p →
      ∀ u n, G.node (G.pointee p) ≠ .arrayType u (n + 1)) {t u : O} (hrec : G.Recurs F t u) :
    TransGen (G.Contains F) t u := by
  obtain ⟨hnode, fs, f, hfs, hmem, rfl⟩ := hrec
  have hfield : G.Contains F t f := .inl ⟨hnode, fs, hfs, hmem⟩
  unfold element
  split
  · rename_i v n harray
    cases hf : G.node f with
    | refType p =>
      rw [pointee_refType hf] at harray
      exact absurd harray (hno t fs f hfs hmem p hf v n)
    | scalar _ | structType | arrayType _ _ =>
      rw [pointee_of_not_ref (fun p hp => by rw [hf] at hp; cases hp)] at harray
      exact .tail (.single hfield) (.inr ⟨n, harray⟩)
  · exact .single hfield

/-- **`Type` ends on recursive C types** as long as no field is a pointer to an array of fixed
length. -/
theorem ends_of_no_array_pointer [Finite O] (hfits : G.Fits h)
    (hc : ∀ t, ¬ TransGen (G.Contains h.fields) t t)
    (hno : ∀ t fs f, h.fields t = some fs → f ∈ fs → ∀ p, G.node f = .refType p →
      ∀ u n, G.node (G.pointee p) ≠ .arrayType u (n + 1)) (t : O) : G.Ends t h := by
  refine (type_ends_iff hfits).mpr (fun t hcycle => hc t ?_) t
  exact TransGen.closed (fun _ _ hcall => contains_of_recurs hno hcall.1) _ _ hcycle

end Graph

/-! ### Two recursive types -/

/-- `struct S { struct S (*p)[3]; }`. -/
inductive Holder where
  | struct | pointer | array
  deriving DecidableEq

def holders : Graph Holder where
  node
    | .struct => .structType
    | .pointer => .refType .array
    | .array => .arrayType .struct 3
  rank o := if o = .pointer then 1 else 0
  rank_lt o t h := by
    cases o <;> cases h
    decide
  isBuffer o r h := by cases o <;> cases h

def holderHeap : Heap Holder where
  fields o := if o = .struct then some [.pointer] else none
  ffiType _ := none
  made := []

theorem fits_holderHeap : holders.Fits holderHeap where
  scalar o r h := by cases o <;> cases h
  array o t n h := by cases o <;> cases h; exact ⟨rfl, rfl⟩
  refType o t h := by cases o <;> cases h; exact ⟨rfl, rfl⟩
  struct o h := by cases o <;> cases h; exact ⟨⟨_, rfl⟩, .inl rfl⟩
  valid o n h := by cases o <;> cases h

/-- How deep a value of the type is. -/
def Holder.height : Holder → Nat
  | .pointer => 0
  | .struct => 1
  | .array => 2

theorem height_lt {t u : Holder} (h : holders.Contains holderHeap.fields t u) :
    u.height < t.height := by
  rcases h with ⟨hnode, fs, hfs, hu⟩ | ⟨n, hn⟩
  · cases t <;> cases hnode
    obtain rfl := Option.some.inj hfs
    obtain rfl := List.mem_singleton.mp hu
    decide
  · cases t <;> cases hn
    decide

/-- **A struct holding a pointer to an array of itself**: no value contains itself, and `Type` does
not end. -/
theorem holder_endless : (∀ t, ¬ TransGen (holders.Contains holderHeap.fields) t t) ∧
    ¬ holders.Ends .struct holderHeap := by
  constructor
  · have hdown : ∀ {t u}, TransGen (holders.Contains holderHeap.fields) t u →
        u.height < t.height := by
      intro t u hpath
      induction hpath with
      | single h => exact height_lt h
      | tail _ h ih => exact Nat.lt_trans (height_lt h) ih
    exact fun t hcycle => Nat.lt_irrefl _ (hdown hcycle)
  · exact Graph.not_ends_of_cycle fits_holderHeap
      (.single ⟨⟨rfl, [.pointer], .pointer, rfl, .head _, rfl⟩, rfl⟩)

/-- `struct S { int value; struct S *next; }`. -/
inductive Link where
  | struct | pointer | int
  deriving DecidableEq

instance : Fintype Link where
  elems := {.struct, .pointer, .int}
  complete t := by cases t <;> decide

def links : Graph Link where
  node
    | .struct => .structType
    | .pointer => .refType .struct
    | .int => .scalar (.ffiTypes .int)
  rank o := if o = .pointer then 1 else 0
  rank_lt o t h := by
    cases o <;> cases h
    decide
  isBuffer o r h := by cases o <;> cases h; rfl

def linkHeap : Heap Link where
  fields o := if o = .struct then some [.int, .pointer] else none
  ffiType o := if o = .int then some (some (.ffiTypes .int)) else none
  made := []

theorem fits_linkHeap : links.Fits linkHeap where
  scalar o r h := by cases o <;> cases h; exact ⟨rfl, rfl⟩
  array o t n h := by cases o <;> cases h
  refType o t h := by cases o <;> cases h; exact ⟨rfl, rfl⟩
  struct o h := by cases o <;> cases h; exact ⟨⟨_, rfl⟩, .inl rfl⟩
  valid o n h := by cases o <;> cases h

theorem calls_links {t u : Link} (h : links.Calls linkHeap t u) : t = .struct ∧ u ≠ .struct := by
  obtain ⟨⟨hnode, fs, f, hfs, hf, rfl⟩, -⟩ := h
  cases t <;> cases hnode
  obtain rfl := Option.some.inj hfs
  refine ⟨rfl, ?_⟩
  cases f
  · simp at hf
  · decide
  · decide

/-- How deep a value of the type is; a pointer has the depth of what is stored for it. -/
def Link.height : Link → Nat
  | .struct => 1
  | .pointer | .int => 0

theorem ends_of_no_array_pointer_links : links.Ends .struct linkHeap := by
  have hdown : ∀ {t u}, links.Contains linkHeap.fields t u → u.height < t.height := by
    intro t u h
    rcases h with ⟨hnode, fs, hfs, hu⟩ | ⟨n, hn⟩
    · cases t <;> cases hnode
      obtain rfl := Option.some.inj hfs
      cases u
      · simp at hu
      · decide
      · decide
    · cases t <;> cases hn
  have hpath : ∀ {t u}, TransGen (links.Contains linkHeap.fields) t u → u.height < t.height := by
    intro t u hpath
    induction hpath with
    | single h => exact hdown h
    | tail _ h ih => exact Nat.lt_trans (hdown h) ih
  refine Graph.ends_of_no_array_pointer fits_linkHeap (fun t hcycle => ?_) ?_ .struct
  · exact Nat.lt_irrefl _ (hpath hcycle)
  · intro t fs f hfs hf p hp u n harray
    cases f <;> cases hp
    cases harray

theorem type_ends_links : links.Ends .struct linkHeap := by
  refine (Graph.type_ends_iff fits_linkHeap).mpr (fun t hcycle => ?_) .struct
  obtain ⟨u, htu, -⟩ := TransGen.head'_iff.mp hcycle
  obtain ⟨v, -, hvt⟩ := TransGen.tail'_iff.mp hcycle
  exact (calls_links hvt).2 (calls_links htu).1

end NodeFfi.Resolve
