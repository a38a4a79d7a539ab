import NodeFfi.Resolve.Graph

/-!
# What a call of `Type` builds

A call that ends returns what `Type` returns from then on, whatever it has built on the way is
made of the answers for the fields, and the answers that were known stay (`toFfiType_built`). A
struct type whose call is under way is not remembered before the end of that call: this holds for
all the calls under way together, `X`, each of which has called another one of them or the present
one (`Leads`).
-/

namespace NodeFfi.Resolve

open Js

namespace Graph

variable {O : Type} {G : Graph O}

theorem elementRefs_cons {h : Heap O} {field : O} {fields : List O} {es : List Ref} :
    G.elementRefs h (field :: fields) = some es ↔
      ∃ r rest, G.ref h (G.element field).1 = some r ∧ G.elementRefs h fields = some rest ∧
        es = List.replicate (G.element field).2 r ++ rest := by
  rw [elementRefs]
  cases G.ref h (G.element field).1 with
  | none => simp
  | some r =>
    cases G.elementRefs h fields with
    | none => simp
    | some rest => simp [eq_comm]

theorem elementRefs_mono {h h' : Heap O} (hkeep : ∀ o r, G.ref h o = some r → G.ref h' o = some r)
    {fields : List O} {es : List Ref} (hes : G.elementRefs h fields = some es) :
    G.elementRefs h' fields = some es := by
  induction fields generalizing es with
  | nil => exact hes
  | cons field fields ih =>
    obtain ⟨r, rest, hr, hrest, rfl⟩ := elementRefs_cons.mp hes
    exact elementRefs_cons.mpr ⟨r, rest, hkeep _ r hr, ih hrest, rfl⟩

theorem elementRefs_congr {h h' : Heap O} (hffi : h'.ffiType = h.ffiType) (fields : List O) :
    G.elementRefs h' fields = G.elementRefs h fields := by
  have href : ∀ o, G.ref h' o = G.ref h o := fun o => by rw [ref, ref, hffi]
  induction fields with
  | nil => rfl
  | cons field fields ih => rw [elementRefs, elementRefs, href, ih]

theorem mem_elementRefs {h : Heap O} {fields : List O} {es : List Ref} {e : Ref}
    (hes : G.elementRefs h fields = some es) (hmem : e ∈ es) :
    ∃ o, G.ref h o = some e := by
  induction fields generalizing es with
  | nil =>
    obtain rfl := Option.some.inj hes
    cases hmem
  | cons field fields ih =>
    obtain ⟨r, rest, hr, hrest, rfl⟩ := elementRefs_cons.mp hes
    rcases List.mem_append.mp hmem with hmem | hmem
    · rw [List.eq_of_mem_replicate hmem]
      exact ⟨_, hr⟩
    · exact ih hrest hmem

/-- The `n`-th `FFI_TYPE` has the elements of the fields of the struct type. -/
def Describes (G : Graph O) (h : Heap O) (o : O) (n : Nat) : Prop :=
  ∃ fields es, h.fields o = some fields ∧ G.elementRefs h fields = some es ∧
    (h.made[n]?).bind Cell.elements = some es

/-- From `h` to `h'` the struct types of `X` have not been remembered, and all that were are
described by what was built, which libffi has not seen yet. -/
structure Built (G : Graph O) (X : O → Prop) (h h' : Heap O) : Prop where
  fits : G.Fits h'
  fields : h'.fields = h.fields
  made : h.made <+: h'.made
  layered : Layered h.made → Layered h'.made
  blank : ∀ n cell, h.made.length ≤ n → h'.made[n]? = some cell → cell.size = 0
  keep : ∀ o r, G.ref h o = some r → G.ref h' o = some r
  fresh : ∀ x, X x → h'.ffiType x = none
  describes : ∀ o n, h.ffiType o = none → h'.ffiType o = some (some (.made n)) →
    h.made.length ≤ n ∧ G.Describes h' o n

/-- Every struct type of `X` has called another one of them, or `t`. -/
def Leads (G : Graph O) (fields : O → Option (List O)) (X : O → Prop) (t : O) : Prop :=
  ∀ x, X x → ∃ y, G.Recurs fields x y ∧ (X y ∨ y = t)

variable {X : O → Prop} {h h' h'' : Heap O}

theorem Built.refl (hfits : G.Fits h) (hX : ∀ x, X x → h.ffiType x = none) : G.Built X h h where
  fits := hfits
  fields := rfl
  made := List.prefix_rfl
  layered hlay := hlay
  blank n cell hn hcell := by
    rw [List.getElem?_eq_none hn] at hcell
    cases hcell
  keep _ _ hr := hr
  fresh := hX
  describes o n hnone hsome := by
    rw [hnone] at hsome
    cases hsome

theorem node_of_remembered (hfits : G.Fits h) (hfits' : G.Fits h') {o : O} {v : Option Ref}
    (hnone : h.ffiType o = none) (hsome : h'.ffiType o = some v) : G.node o = .structType := by
  cases hnode : G.node o with
  | structType => rfl
  | scalar r =>
    rw [(hfits.scalar o r hnode).1] at hnone
    cases hnone
  | arrayType t n =>
    rw [(hfits'.array o t n hnode).1] at hsome
    cases hsome
  | refType t =>
    rw [(hfits'.refType o t hnode).1] at hsome
    cases hsome

theorem ref_struct {o : O} (hnode : G.node o = .structType) : G.ref h o = (h.ffiType o).join := by
  rw [ref, hnode]

theorem Describes.mono {o : O} {n : Nat} (hd : G.Describes h o n) (hfields : h'.fields = h.fields)
    (hmade : h.made <+: h'.made) (hkeep : ∀ o r, G.ref h o = some r → G.ref h' o = some r) :
    G.Describes h' o n := by
  obtain ⟨fields, es, hf, hes, hcell⟩ := hd
  refine ⟨fields, es, by rw [hfields, hf], elementRefs_mono hkeep hes, ?_⟩
  obtain ⟨cell, hget, hcell⟩ := Option.bind_eq_some_iff.mp hcell
  obtain ⟨suffix, hsuffix⟩ := hmade
  have hlen : n < h.made.length := (List.getElem?_eq_some_iff.mp hget).1
  rw [← hsuffix, List.getElem?_append_left hlen, hget]
  exact hcell

theorem Built.trans (hfits : G.Fits h) (h₁ : G.Built X h h') (h₂ : G.Built X h' h'') :
    G.Built X h h'' where
  fits := h₂.fits
  fields := h₂.fields.trans h₁.fields
  made := h₁.made.trans h₂.made
  layered hlay := h₂.layered (h₁.layered hlay)
  blank n cell hn hcell := by
    by_cases hlt : n < h'.made.length
    · obtain ⟨suffix, hsuffix⟩ := h₂.made
      rw [← hsuffix, List.getElem?_append_left hlt] at hcell
      exact h₁.blank n cell hn hcell
    · exact h₂.blank n cell (by omega) hcell
  keep o r hr := h₂.keep o r (h₁.keep o r hr)
  fresh := h₂.fresh
  describes o n hnone hsome := by
    cases hmid : h'.ffiType o with
    | none =>
      obtain ⟨hn, hd⟩ := h₂.describes o n hmid hsome
      exact ⟨Nat.le_trans h₁.made.length_le hn, hd⟩
    | some v =>
      have hnode := node_of_remembered hfits h₁.fits hnone hmid
      obtain ⟨k, hk⟩ : ∃ k, h'.ffiType o = some (some (.made k)) :=
        (h₁.fits.struct o hnode).2.resolve_left (by simp [hmid])
      have hkeep := h₂.keep o (.made k) (by rw [ref_struct hnode, hk]; rfl)
      rw [ref_struct hnode, hsome] at hkeep
      obtain rfl : n = k := by simpa using hkeep
      obtain ⟨hn, hd⟩ := h₁.describes o n hnone hk
      exact ⟨hn, hd.mono h₂.fields h₂.made h₂.keep⟩

theorem Built.weaken {Y : O → Prop} (hb : G.Built X h h') (hY : ∀ x, Y x → X x) :
    G.Built Y h h' :=
  { hb with fresh := fun x hx => hb.fresh x (hY x hx) }

theorem below_of_ref (hfits : G.Fits h) {o : O} {r : Ref} (hr : G.ref h o = some r) :
    Below h.made.length r := by
  cases r with
  | ffiTypes _ => trivial
  | made n => exact hfits.valid o n hr
  | member s => exact absurd (ref_isBuffer hfits hr) Bool.false_ne_true

/-- What is shown of a call. -/
def BuiltBy (G : Graph O) (X : O → Prop) (t : O) (h h' : Heap O) (r : Except Stop Ref) : Prop :=
  G.Built X h h' ∧ ¬ X t ∧ ∃ q, r = .ok q ∧ G.ref h' t = some q

theorem elementPointers_built {typeOf : O → Script O Ref}
    (hcall : ∀ t h r h', G.Fits h → (∀ x, X x → h.ffiType x = none) → G.Leads h.fields X t →
      typeOf t h = (r, h') → Ended r → G.BuiltBy X t h h' r) :
    ∀ fields h r h', G.Fits h → (∀ x, X x → h.ffiType x = none) →
      (∀ f ∈ fields, G.Leads h.fields X (G.element f).1) →
      G.world.elementPointers typeOf fields h = (r, h') → Ended r →
      G.Built X h h' ∧ (∀ f ∈ fields, ¬ X (G.element f).1) ∧
        ∃ es, r = .ok es ∧ G.elementRefs h' fields = some es := by
  intro fields
  induction fields with
  | nil =>
    intro h r h' hfits hX _ hrun _
    obtain ⟨rfl, rfl⟩ := Prod.mk.inj hrun
    exact ⟨.refl hfits hX, by simp, [], rfl, rfl⟩
  | cons f fields ih =>
    intro h r h' hfits hX hleads hrun hr
    have helem : G.world.elementType f = (some (G.element f).1, (G.element f).2) := elementType_eq f
    have hfirst := hcall (G.element f).1 h
    cases World.fieldStep_of_run hrun with
    | noType htype =>
      rw [helem] at htype
      cases htype
    | stops htype hptr =>
      rw [helem] at htype
      obtain rfl := Option.some.inj htype
      obtain ⟨_, _, q, hq, _⟩ := hfirst _ _ hfits hX (hleads f (.head _)) hptr hr.of_error
      cases hq
    | @notBuffer type ptr _ htype hptr hbuf =>
      rw [helem] at htype
      obtain rfl := Option.some.inj htype
      obtain ⟨hb₁, _, q, hq, href⟩ := hfirst _ _ hfits hX (hleads f (.head _)) hptr (ended_ok ptr)
      obtain rfl := Except.ok.inj hq
      exact absurd (ref_isBuffer hb₁.fits href) hbuf
    | @goesOn type ptr h₁ r _ htype hptr hbuf hrest =>
      rw [helem] at htype
      obtain rfl := Option.some.inj htype
      obtain ⟨hb₁, hnX, q, hq, href⟩ :=
        hfirst _ _ hfits hX (hleads f (.head _)) hptr (ended_ok ptr)
      obtain rfl := Except.ok.inj hq
      have hleads' : ∀ f' ∈ fields, G.Leads h₁.fields X (G.element f').1 := by
        intro f' hf'
        rw [hb₁.fields]
        exact hleads f' (.tail _ hf')
      obtain ⟨hb₂, hnX', es, rfl, hrefs⟩ :=
        ih h₁ r _ hb₁.fits hb₁.fresh hleads' hrest hr.of_map
      refine ⟨hb₁.trans hfits hb₂, ?_, _, rfl, elementRefs_cons.mpr
        ⟨ptr, es, hb₂.keep _ _ href, hrefs, by rw [helem]⟩⟩
      rintro f' (_ | ⟨_, hf'⟩)
      · exact hnX
      · exact hnX' f' hf'

/-! ### The calls -/

variable [DecidableEq O]

theorem ref_cache_of_ne {o o' : O} (hne : o' ≠ o) (es : List Ref) :
    G.ref (h.cache o es) o' = G.ref h o' := by
  unfold ref
  rw [cache_ffiType_of_ne h hne]

theorem new_cell {o : O} {es : List Ref} {n : Nat} {cell : Cell}
    (hcell : (h.cache o es).made[n]? = some cell) (hge : h.made.length ≤ n) :
    n = h.made.length ∧ cell = ⟨0, 0, 13, some es⟩ := by
  rw [cache_made, List.getElem?_append_right hge] at hcell
  obtain ⟨hlt, rfl⟩ := List.getElem?_eq_some_iff.mp hcell
  rw [List.length_singleton] at hlt
  exact ⟨by omega, List.getElem_singleton hlt⟩

theorem built_cache (hfits : G.Fits h) (hX : ∀ x, X x → h.ffiType x = none) {o : O}
    (hnode : G.node o = .structType) (hnone : h.ffiType o = none) (ho : ¬ X o) {fields : List O}
    {es : List Ref} (hf : h.fields o = some fields) (hes : G.elementRefs h fields = some es) :
    G.Built X h (h.cache o es) := by
  have hother : ∀ {o'}, G.node o' ≠ .structType → (h.cache o es).ffiType o' = h.ffiType o' := by
    intro o' hne
    refine cache_ffiType_of_ne h (fun heq => hne ?_) es
    rw [heq, hnode]
  have hkeep : ∀ o' r, G.ref h o' = some r → G.ref (h.cache o es) o' = some r := by
    intro o' r hr
    by_cases heq : o' = o
    · rw [heq, ref_struct hnode, hnone] at hr
      cases hr
    · rw [ref_cache_of_ne heq, hr]
  refine ⟨⟨?_, ?_, ?_, ?_, ?_⟩, rfl, List.prefix_append _ _, ?_, ?_, hkeep, ?_, ?_⟩
  · intro o' r hn
    rw [hother (by simp [hn])]
    exact hfits.scalar o' r hn
  · intro o' t n hn
    rw [hother (by simp [hn])]
    exact hfits.array o' t n hn
  · intro o' t hn
    rw [hother (by simp [hn])]
    exact hfits.refType o' t hn
  · intro o' hn
    refine ⟨(hfits.struct o' hn).1, ?_⟩
    by_cases heq : o' = o
    · subst heq
      exact .inr ⟨_, cache_ffiType_self h o' es⟩
    · rw [cache_ffiType_of_ne h heq]
      exact (hfits.struct o' hn).2
  · intro o' n hr
    rw [cache_made, List.length_append, List.length_singleton]
    by_cases heq : o' = o
    · subst heq
      rw [ref_struct hnode, cache_ffiType_self] at hr
      obtain rfl : h.made.length = n := by simpa using hr
      omega
    · rw [ref_cache_of_ne heq] at hr
      have := hfits.valid o' n hr
      omega
  · intro hlay n cell es' hcell hes' ptr hptr
    rcases Nat.lt_or_ge n h.made.length with hlt | hge
    · rw [cache_made, List.getElem?_append_left hlt] at hcell
      exact hlay n cell es' hcell hes' ptr hptr
    · obtain ⟨rfl, rfl⟩ := new_cell hcell hge
      obtain rfl := Option.some.inj hes'
      obtain ⟨o', hr⟩ := mem_elementRefs hes hptr
      exact below_of_ref hfits hr
  · intro n cell hge hcell
    obtain ⟨_, rfl⟩ := new_cell hcell hge
    rfl
  · intro x hx
    have hne : x ≠ o := fun heq => ho (heq ▸ hx)
    rw [cache_ffiType_of_ne h hne, hX x hx]
  · intro o' n hold hnew
    by_cases heq : o' = o
    · subst heq
      rw [cache_ffiType_self] at hnew
      obtain rfl : h.made.length = n := by simpa using hnew
      exact ⟨Nat.le_refl _, fields, es, hf, elementRefs_mono hkeep hes, by simp⟩
    · rw [cache_ffiType_of_ne h heq, hold] at hnew
      cases hnew

/-- **What a call of `Type` builds**, when it ends: it returns what it returns from then on, and no
struct type whose call is under way has been remembered, or is the one that it was called for. -/
theorem toFfiType_built (n : Nat) : ∀ (X : O → Prop) t h r h', G.Fits h →
    (∀ x, X x → h.ffiType x = none) → G.Leads h.fields X t →
    G.world.toFfiType n t h = (r, h') → Ended r → G.BuiltBy X t h h' r := by
  induction n with
  | zero =>
    intro X t h r h' _ _ _ hrun hr
    exact absurd (congrArg Prod.fst hrun).symm hr
  | succ n ih =>
    intro X t h r h' hfits hX hleads hrun hr
    rw [World.toFfiType_succ] at hrun
    rcases branch_eq hfits t with ⟨q, hq, hbranch⟩ | ⟨hnode, hnone, hqnone, fields, hf, hbranch⟩
    · rw [hbranch] at hrun
      obtain ⟨rfl, rfl⟩ := Prod.mk.inj hrun
      refine ⟨.refl hfits hX, fun ht => ?_, q, rfl, hq⟩
      obtain ⟨y, hrec, _⟩ := hleads t ht
      rw [ref_struct hrec.1, hX t ht] at hq
      cases hq
    · rw [hbranch] at hrun
      -- the call for `t` is under way during the loop
      have hX' : ∀ x, X x ∨ x = t → h.ffiType x = none := by
        rintro x (hx | rfl)
        · exact hX x hx
        · exact hnone
      have hleads' : ∀ f ∈ fields, G.Leads h.fields (fun x => X x ∨ x = t) (G.element f).1 := by
        rintro f hmem x (hx | rfl)
        · obtain ⟨y, hrec, hy | rfl⟩ := hleads x hx
          · exact ⟨y, hrec, .inl (.inl hy)⟩
          · exact ⟨y, hrec, .inl (.inr rfl)⟩
        · exact ⟨_, ⟨hnode, fields, f, hf, hmem, rfl⟩, .inr rfl⟩
      have hloop := elementPointers_built (ih (fun x => X x ∨ x = t)) fields h
      rcases World.struct_cases hrun with ⟨e, rfl, hels⟩ | ⟨es, h₁, hels, rfl, rfl⟩
      · obtain ⟨_, _, es, hes, _⟩ := hloop _ _ hfits hX' hleads' hels hr.of_error
        cases hes
      · obtain ⟨hb, hnX, es', hes', hrefs⟩ := hloop _ _ hfits hX' hleads' hels (ended_ok es)
        obtain rfl := Except.ok.inj hes'
        have ht : ¬ X t := by
          intro ht
          obtain ⟨y, ⟨_, fs, f, hfs, hmem, rfl⟩, hy⟩ := hleads t ht
          rw [hf] at hfs
          obtain rfl := Option.some.inj hfs
          exact hnX f hmem hy
        refine ⟨(hb.weaken fun x hx => .inl hx).trans hfits (built_cache hb.fits
          (fun x hx => hb.fresh x (.inl hx)) hnode (hb.fresh t (.inr rfl)) ht
          (by rw [hb.fields, hf]) hrefs), ht, _, rfl, ?_⟩
        rw [ref_struct hnode, cache_ffiType_self]
        rfl

end Graph

end NodeFfi.Resolve
