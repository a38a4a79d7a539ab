import NodeFfi.Resolve.Cif
import NodeFfi.Resolve.FfiTypes
import NodeFfi.Resolve.Termination

/-!
# Struct types that get more fields

`defineProperty` adds a field to a struct type and does not touch its `ffi_type`. What `Type`
remembers of a struct type is right as long as no field is added afterwards, whatever is asked in
between and however the types are nested (`coherent_iff_timely`): a struct type that is contained
in a remembered one is remembered itself, so it is enough that every field comes before the first
question about its own struct type.
-/

namespace NodeFfi.Resolve

open Js Libffi Relation

variable {O : Type} [DecidableEq O]

/-- `defineProperty` on the struct type `s` with these fields. -/
def Heap.defineProperty (h : Heap O) (s t : O) (fields : List O) : Heap O :=
  { h with fields := fun o => if o = s then some (fields ++ [t]) else h.fields o }

namespace Graph

/-! ### What the answers should be -/

/-- The elements are those of the fields, one after the other, with `R` between the type and the
pointer of each. -/
def Elements (G : Graph O) (R : O → Ref → Prop) : List O → List Ref → Prop
  | [], es => es = []
  | f :: fs, es => ∃ r rest, R (G.element f).1 r ∧
      es = List.replicate (G.element f).2 r ++ rest ∧ Elements G R fs rest

/-- Down to depth `n` the `ffi_type` has the elements of the fields, of the fields of the struct
types in them, and so on. -/
def Shows (G : Graph O) (h : Heap O) : Nat → O → Ref → Prop
  | 0, _, _ => True
  | n + 1, t, ptr =>
    match G.node t with
    | .scalar r => ptr = r
    | .arrayType _ _ | .refType _ => ptr = Ref.pointer
    | .structType => ∃ k cell fs es, ptr = .made k ∧ h.made[k]? = some cell ∧
        cell.elements = some es ∧ h.fields t = some fs ∧ G.Elements (Shows G h n) fs es

/-- Every call of `Type` would return the `ffi_type` of the type as it is now. -/
def Coherent (G : Graph O) (h : Heap O) : Prop :=
  ∀ t, ∃ n ptr h', G.world.toFfiType n t h = (.ok ptr, h') ∧ ∀ d, G.Shows h' d t ptr

/-! ### What may happen -/

inductive Action (O : Type) where
  /-- `Type`, `CIF`, `ForeignFunction` or `Callback`. -/
  | use
  | defineProperty (struct type : O)

/-- The nesting of struct types has an end. -/
def Nested (G : Graph O) (fields : O → Option (List O)) : Prop :=
  WellFounded fun u t => G.Recurs fields t u

inductive Step (G : Graph O) (S : StaticTypes) : Heap O → Action O → Heap O → Prop
  | use {h h'} : G.world.Uses S h h' → Step G S h .use h'
  | defineProperty {h s t fields} : G.node s = .structType → h.fields s = some fields →
      G.Nested (h.defineProperty s t fields).fields →
      Step G S h (.defineProperty s t) (h.defineProperty s t fields)

/-- What is done one after the other, each with the heap after it. -/
def Path (G : Graph O) (S : StaticTypes) : Heap O → List (Action O × Heap O) → Prop
  | _, [] => True
  | h, (a, h') :: path => G.Step S h a h' ∧ Path G S h' path

/-- Every field is added before `Type` remembers its struct type. -/
def Timely : Heap O → List (Action O × Heap O) → Prop
  | _, [] => True
  | h, (a, h') :: path =>
    (∀ s t, a = .defineProperty s t → h.ffiType s = none) ∧ Timely h' path

variable {G : Graph O} {S : StaticTypes} {h h' : Heap O}

/-! ### The invariant -/

/-- What holds as long as no field is added too late. -/
structure Sound (G : Graph O) (h : Heap O) : Prop where
  fits : G.Fits h
  layered : Layered h.made
  nested : G.Nested h.fields
  described : ∀ o n, G.node o = .structType → h.ffiType o = some (some (.made n)) →
    G.Describes h o n

section

omit [DecidableEq O]

theorem Sound.built (hs : G.Sound h) {X : O → Prop} (hb : G.Built X h h') : G.Sound h' where
  fits := hb.fits
  layered := hb.layered hs.layered
  nested := hb.fields ▸ hs.nested
  described o n hnode hn := by
    rcases (hs.fits.struct o hnode).2 with hnone | ⟨k, hk⟩
    · exact (hb.describes o n hnone hn).2
    · have hkeep := hb.keep o (.made k) (by rw [ref_struct hnode, hk]; rfl)
      rw [ref_struct hnode, hn] at hkeep
      obtain rfl : n = k := by simpa using hkeep
      exact (hs.described o n hnode hk).mono hb.fields hb.made hb.keep

theorem Sound.prepCif (hs : G.Sound h) {ptr : Ref} {ptrs : List Ref}
    (hbelow : ∀ p ∈ ptr :: ptrs, Below h.made.length p) :
    G.Sound { h with made := (prepCif S ptr ptrs h.made).2 } := by
  have hlater := prepCif_later (S := S) hs.fits hs.layered hbelow
  refine ⟨hlater.fits, hlater.layered, hs.nested, fun o n hnode hn => ?_⟩
  obtain ⟨fields, es, hfields, hes, hcell⟩ := hs.described o n hnode hn
  have hsame := (prepCif_spec (S := S) hs.layered hbelow).1.getElem? n
  obtain ⟨cell, hget, hcell⟩ := Option.bind_eq_some_iff.mp hcell
  rw [hget] at hsame
  obtain ⟨cell', hget', hels⟩ := Option.map_eq_some_iff.mp hsame
  refine ⟨fields, es, hfields, ?_,
    Option.bind_eq_some_iff.mpr ⟨cell', hget', hels.trans hcell⟩⟩
  rw [← hes]
  exact elementRefs_congr (by rfl) fields

end

theorem Sound.uses (hs : G.Sound h) (huse : G.world.Uses S h h') : G.Sound h' := by
  cases huse with
  | type hrun hend => exact hs.built (toFfiType_called hs.fits hrun hend).1
  | @cif n call _ r _ hrun hend =>
    by_cases hvalid : call.Valid
    · obtain ⟨ptr, ptrs, h₁, hb, hp, rfl, _⟩ := cif_spec hs.fits hvalid hrun hend
      exact (hs.built hb).prepCif (hp.below hb.fits)
    · rw [World.cif, if_neg hvalid] at hrun
      obtain ⟨_, rfl⟩ := Prod.mk.inj hrun
      exact hs

theorem fits_defineProperty (hfits : G.Fits h) {s t : O} {fields : List O}
    (hnode : G.node s = .structType) : G.Fits (h.defineProperty s t fields) := by
  have hother : ∀ o, G.node o ≠ .structType →
      (h.defineProperty s t fields).fields o = h.fields o := by
    intro o hne
    refine if_neg fun heq => hne ?_
    rw [heq, hnode]
  refine ⟨fun o r hn => ?_, fun o u n hn => ?_, fun o u hn => ?_, fun o hn => ?_, hfits.valid⟩
  · rw [hother o (by simp [hn])]
    exact hfits.scalar o r hn
  · rw [hother o (by simp [hn])]
    exact hfits.array o u n hn
  · rw [hother o (by simp [hn])]
    exact hfits.refType o u hn
  · refine ⟨?_, (hfits.struct o hn).2⟩
    by_cases heq : o = s
    · exact ⟨fields ++ [t], if_pos heq⟩
    · obtain ⟨fs, hfs⟩ := (hfits.struct o hn).1
      exact ⟨fs, (if_neg heq).trans hfs⟩

theorem Sound.defineProperty (hs : G.Sound h) {s t : O} {fields : List O}
    (hnode : G.node s = .structType) (hnested : G.Nested (h.defineProperty s t fields).fields)
    (hnew : h.ffiType s = none) : G.Sound (h.defineProperty s t fields) := by
  refine ⟨fits_defineProperty hs.fits hnode, hs.layered, hnested, fun o n hn hffi => ?_⟩
  obtain ⟨fs, es, hfs, hes, hcell⟩ := hs.described o n hn hffi
  have hne : o ≠ s := by
    rintro rfl
    have hffi' : h.ffiType o = some (some (.made n)) := hffi
    rw [hnew] at hffi'
    cases hffi'
  refine ⟨fs, es, (if_neg hne).trans hfs, ?_, hcell⟩
  rw [← hes]
  exact elementRefs_congr (by rfl) fs

/-! ### Coherence -/

section

omit [DecidableEq O]

theorem elements_of_refs {R : O → Ref → Prop} (hR : ∀ o r, G.ref h o = some r → R o r)
    {fs : List O} {es : List Ref} (hes : G.elementRefs h fs = some es) : G.Elements R fs es := by
  induction fs generalizing es with
  | nil => exact (Option.some.inj hes).symm
  | cons f fs ih =>
    obtain ⟨r, rest, hr, hrest, rfl⟩ := elementRefs_cons.mp hes
    exact ⟨r, rest, hR _ r hr, rfl, ih hrest⟩

theorem Sound.shows (hs : G.Sound h) (d : Nat) :
    ∀ t ptr, G.ref h t = some ptr → G.Shows h d t ptr := by
  induction d with
  | zero => exact fun _ _ _ => trivial
  | succ d ih =>
    intro t ptr hr
    unfold Shows
    cases hnode : G.node t with
    | scalar r =>
      rw [ref, hnode] at hr
      exact (Option.some.inj hr).symm
    | arrayType u n =>
      rw [ref, hnode] at hr
      exact (Option.some.inj hr).symm
    | refType u =>
      rw [ref, hnode] at hr
      exact (Option.some.inj hr).symm
    | structType =>
      rw [ref_struct hnode] at hr
      obtain ⟨n, hn⟩ : ∃ n, h.ffiType t = some (some (.made n)) := by
        refine (hs.fits.struct t hnode).2.resolve_left fun hnone => ?_
        rw [hnone] at hr
        cases hr
      rw [hn] at hr
      obtain rfl := Option.some.inj hr
      obtain ⟨fs, es, hfs, hes, hcell⟩ := hs.described t n hnode hn
      obtain ⟨cell, hget, hels⟩ := Option.bind_eq_some_iff.mp hcell
      exact ⟨n, cell, fs, es, rfl, hget, hels, hfs, elements_of_refs ih hes⟩

end

theorem Sound.coherent (hs : G.Sound h) : G.Coherent h := by
  intro t
  obtain ⟨n, hend⟩ :=
    ends_of_wellFounded hs.nested t h hs.fits fun _ _ (hcall : G.Calls h _ _) => hcall.1
  rcases hrun : G.world.toFfiType n t h with ⟨r, h'⟩
  rw [hrun] at hend
  obtain ⟨hb, ptr, rfl, hptr⟩ := toFfiType_called hs.fits hrun hend
  exact ⟨n, ptr, h', hrun, fun d => (hs.built hb).shows d t ptr hptr⟩

theorem toFfiType_of_ref (hfits : G.Fits h) {t : O} {r : Ref} (hr : G.ref h t = some r) {n : Nat}
    {x : Except Stop Ref} (hrun : G.world.toFfiType n t h = (x, h')) (hend : Ended x) :
    x = .ok r ∧ h' = h := by
  cases n with
  | zero => exact absurd (congrArg Prod.fst hrun).symm hend
  | succ n =>
    rw [World.toFfiType_succ] at hrun
    rcases branch_eq hfits t with ⟨q, hq, hbranch⟩ | ⟨_, _, hnone, _⟩
    · rw [hbranch] at hrun
      obtain ⟨rfl, rfl⟩ := Prod.mk.inj hrun
      rw [Option.some.inj (hq.symm.trans hr)]
      exact ⟨rfl, rfl⟩
    · rw [hnone] at hr
      cases hr

/-- The number of elements of a structure with these fields. -/
def countElements (G : Graph O) (fs : List O) : Nat := (fs.map fun f => (G.element f).2).sum

omit [DecidableEq O] in
theorem Elements.length {R : O → Ref → Prop} {fs : List O} {es : List Ref}
    (hes : G.Elements R fs es) : es.length = G.countElements fs := by
  induction fs generalizing es with
  | nil =>
    rw [show es = [] from hes]
    rfl
  | cons f fs ih =>
    obtain ⟨r, rest, _, rfl, hrest⟩ := hes
    rw [List.length_append, List.length_replicate, ih hrest]
    rfl

theorem Coherent.length (hc : G.Coherent h) (hfits : G.Fits h) {s : O}
    (hnode : G.node s = .structType) {k : Nat} (hk : h.ffiType s = some (some (.made k)))
    {fs : List O} (hfs : h.fields s = some fs) :
    ∃ cell es, h.made[k]? = some cell ∧ cell.elements = some es ∧
      es.length = G.countElements fs := by
  obtain ⟨n, ptr, h', hrun, hshows⟩ := hc s
  have hr : G.ref h s = some (.made k) := by rw [ref_struct hnode, hk]; rfl
  obtain ⟨hptr, rfl⟩ := toFfiType_of_ref hfits hr hrun (ended_ok ptr)
  obtain rfl := Except.ok.inj hptr
  have hone := hshows 1
  unfold Shows at hone
  rw [hnode] at hone
  obtain ⟨k', cell, fs', es, hk', hget, hels, hfs', hes⟩ := hone
  obtain rfl := Ref.made.inj hk'
  rw [hfs] at hfs'
  obtain rfl := Option.some.inj hfs'
  exact ⟨cell, es, hget, hels, hes.length⟩

omit [DecidableEq O] in
theorem countElements_snoc (fs : List O) (f : O) :
    G.countElements fs < G.countElements (fs ++ [f]) := by
  have hpos := G.element_count_pos f
  simp only [countElements, List.map_append, List.sum_append, List.map_cons, List.map_nil,
    List.sum_cons, List.sum_nil]
  omega

theorem not_coherent_of_late (hfits : G.Fits h) {s t : O} {fields : List O}
    (hnode : G.node s = .structType) (hfields : h.fields s = some fields)
    (hlate : h.ffiType s ≠ none) (hc : G.Coherent h) :
    ¬ G.Coherent (h.defineProperty s t fields) := by
  intro hc'
  obtain ⟨k, hk⟩ := (hfits.struct s hnode).2.resolve_left hlate
  obtain ⟨cell, es, hget, hels, hlen⟩ := hc.length hfits hnode hk hfields
  obtain ⟨cell', es', hget', hels', hlen'⟩ :=
    hc'.length (fits_defineProperty hfits hnode) hnode hk (if_pos rfl)
  obtain rfl := Option.some.inj (hget.symm.trans hget')
  obtain rfl := Option.some.inj (hels.symm.trans hels')
  have hlt := G.countElements_snoc fields t
  omega

theorem Step.fits {a : Action O} (hstep : G.Step S h a h') (hfits : G.Fits h)
    (hlay : Layered h.made) : G.Fits h' ∧ Layered h'.made := by
  cases hstep with
  | use huse =>
    have hlater := uses_later hfits hlay (.single huse)
    exact ⟨hlater.fits, hlater.layered⟩
  | defineProperty hnode _ _ => exact ⟨fits_defineProperty hfits hnode, hlay⟩

theorem coherent_of_timely {path : List (Action O × Heap O)} (hs : G.Sound h)
    (hpath : G.Path S h path) (htimely : Timely h path) :
    ∀ h' ∈ h :: path.map Prod.snd, G.Coherent h' := by
  induction path generalizing h with
  | nil =>
    intro h' hmem
    rw [List.mem_singleton.mp hmem]
    exact hs.coherent
  | cons p path ih =>
    obtain ⟨a, h₁⟩ := p
    obtain ⟨hstep, hpath⟩ := hpath
    obtain ⟨htime, htimely⟩ := htimely
    have hs₁ : G.Sound h₁ := by
      cases hstep with
      | use huse => exact hs.uses huse
      | defineProperty hnode _ hnested => exact hs.defineProperty hnode hnested (htime _ _ rfl)
    intro h' hmem
    rcases List.mem_cons.mp hmem with rfl | hmem
    · exact hs.coherent
    · exact ih hs₁ hpath htimely h' hmem

theorem timely_of_coherent {path : List (Action O × Heap O)} (hfits : G.Fits h)
    (hlay : Layered h.made) (hpath : G.Path S h path)
    (hc : ∀ h' ∈ h :: path.map Prod.snd, G.Coherent h') : Timely h path := by
  induction path generalizing h with
  | nil => trivial
  | cons p path ih =>
    obtain ⟨a, h₁⟩ := p
    obtain ⟨hstep, hpath⟩ := hpath
    obtain ⟨hfits₁, hlay₁⟩ := hstep.fits hfits hlay
    refine ⟨?_, ih hfits₁ hlay₁ hpath fun h' hmem => hc h' (.tail _ hmem)⟩
    rintro s t rfl
    cases hstep with
    | defineProperty hnode hfields _ =>
      by_contra hlate
      exact not_coherent_of_late hfits hnode hfields hlate (hc _ (.head _))
        (hc _ (.tail _ (.head _)))

/-- **What `Type` remembers is right in every state that is reached exactly if every field was
added before its struct type was remembered.** -/
theorem coherent_iff_timely (hfits : G.Fits h) (hlay : Layered h.made)
    (hnested : G.Nested h.fields) (hnew : ∀ o, G.node o = .structType → h.ffiType o = none)
    {path : List (Action O × Heap O)} (hpath : G.Path S h path) :
    (∀ h' ∈ h :: path.map Prod.snd, G.Coherent h') ↔ Timely h path := by
  refine ⟨timely_of_coherent hfits hlay hpath, coherent_of_timely ⟨hfits, hlay, hnested, ?_⟩ hpath⟩
  intro o n hnode hn
  rw [hnew o hnode] at hn
  cases hn

end Graph

/-! ### A field before and after the question -/

/-- A struct type and `int`. -/
inductive Point where
  | struct | int
  deriving DecidableEq

def points : Graph Point where
  node
    | .struct => .structType
    | .int => .scalar (.ffiTypes .int)
  rank _ := 0
  rank_lt o t h := by cases o <;> cases h
  isBuffer o r h := by cases o <;> cases h; rfl

/-- `struct { int x; }`. -/
def pointHeap : Heap Point where
  fields o := if o = .struct then some [.int] else none
  ffiType o := if o = .int then some (some (.ffiTypes .int)) else none
  made := []

theorem fits_pointHeap : points.Fits pointHeap where
  scalar o r h := by cases o <;> cases h; exact ⟨rfl, rfl⟩
  array o t n h := by cases o <;> cases h
  refType o t h := by cases o <;> cases h
  struct o h := by cases o <;> cases h; exact ⟨⟨_, rfl⟩, .inl rfl⟩
  valid o n h := by cases o <;> cases h

theorem layered_pointHeap : Layered pointHeap.made := fun n cell _ hcell => by cases hcell

theorem nested_points {F : Point → Option (List Point)}
    (hF : ∀ fs f, F .struct = some fs → f ∈ fs → f = .int) : points.Nested F := by
  have hrec : ∀ t u, points.Recurs F t u → t = .struct ∧ u = .int := by
    rintro t u ⟨hnode, fs, f, hfs, hf, rfl⟩
    cases t <;> cases hnode
    rw [hF fs f hfs hf]
    exact ⟨rfl, rfl⟩
  refine ⟨fun t => ⟨t, fun u hu => ⟨u, fun v hv => ?_⟩⟩⟩
  have hu' := (hrec t u hu).2
  have hv' := (hrec u v hv).1
  rw [hu'] at hv'
  cases hv'

def pointAsked : Heap Point := (points.world.toFfiType 2 .struct pointHeap).2

/-- A second `int`, after the question. -/
def pointLate : Heap Point := pointAsked.defineProperty .struct .int [.int]

/-- **A field that is added after the struct type was used is missed**: `Type` returns the structure
with one element. -/
theorem late_field_missed :
    points.Path (staticTypes .lp64 8) pointHeap
        [(.use, pointAsked), (.defineProperty .struct .int, pointLate), (.use, pointLate)] ∧
      pointLate.fields .struct = some [.int, .int] ∧
      points.world.toFfiType 1 .struct pointLate = (.ok (.made 0), pointLate) ∧
      pointLate.made[0]?.bind Cell.elements = some [.ffiTypes .int] ∧
      points.Coherent pointAsked ∧ ¬ points.Coherent pointLate := by
  have huse : points.world.Uses (staticTypes .lp64 8) pointHeap pointAsked :=
    .type (n := 2) (t := .struct) rfl (ended_ok (.made 0))
  have hagain : points.world.Uses (staticTypes .lp64 8) pointLate pointLate :=
    .type (n := 1) (t := .struct) rfl (ended_ok (.made 0))
  have hsound : points.Sound pointHeap :=
    ⟨fits_pointHeap, layered_pointHeap, nested_points fun fs f hfs hf => by
      obtain rfl := Option.some.inj hfs
      exact List.mem_singleton.mp hf, fun o n hnode hn => by cases o <;> cases hn⟩
  have hasked : points.Sound pointAsked := hsound.uses huse
  refine ⟨⟨.use huse, .defineProperty rfl rfl (nested_points fun fs f hfs hf => ?_), .use hagain,
    trivial⟩, rfl, rfl, rfl, hasked.coherent, ?_⟩
  · obtain rfl := Option.some.inj hfs
    simpa using hf
  · exact Graph.not_coherent_of_late hasked.fits rfl rfl (by decide) hasked.coherent

def pointExtended : Heap Point := pointHeap.defineProperty .struct .int [.int]

theorem coherent_iff_timely_point :
    points.Coherent (points.world.toFfiType 2 .struct pointExtended).2 := by
  have hpath : points.Path (staticTypes .lp64 8) pointHeap
      [(.defineProperty .struct .int, pointExtended),
        (.use, (points.world.toFfiType 2 .struct pointExtended).2)] := by
    refine ⟨.defineProperty rfl rfl (nested_points fun fs f hfs hf => ?_),
      .use (.type (n := 2) (t := .struct) rfl (ended_ok (.made 0))), trivial⟩
    obtain rfl := Option.some.inj hfs
    simpa using hf
  refine (Graph.coherent_iff_timely fits_pointHeap layered_pointHeap
    (nested_points ?_) ?_ hpath).mpr
    ⟨fun s t heq => ?_, ⟨(fun s t heq => by cases heq), trivial⟩⟩ _ (by simp)
  · rintro fs f hfs hf
    obtain rfl := Option.some.inj hfs
    exact List.mem_singleton.mp hf
  · intro o hnode
    cases o <;> cases hnode
    rfl
  · obtain ⟨rfl, rfl⟩ := Graph.Action.defineProperty.inj heq
    rfl

end NodeFfi.Resolve
