import NodeFfi.Resolve.Cif
import NodeFfi.Resolve.FfiTypes

/-!
# Refused signatures

A structure that libffi has refused is left with the size of the elements before the bad one, and
is taken for complete the next time. So a signature that is refused is accepted later, unless one
of its types is refused with nothing before the bad part (`Refused`). With such a type, or with
well-formed types alone, `CIF` gives the same answer ever after (`cif_stable`); a signature that
has been accepted is always accepted (`cif_accepted`).
-/

namespace NodeFfi.Resolve

open Js Libffi Relation

/-- After `n` elements of the same type. -/
def SizeAlign.addMany (arg elt : SizeAlign) : Nat → SizeAlign
  | 0 => arg
  | n + 1 => (arg.add elt).addMany elt n

namespace Graph

variable {O : Type} [DecidableEq O]

/-- A struct type that `Type` has not been asked about. -/
def New (G : Graph O) (h : Heap O) (o : O) (fields : List O) : Prop :=
  G.node o = .structType ∧ h.ffiType o = none ∧ h.fields o = some fields

/-- The fields are well formed, and take a structure from the first size and alignment to the
second. -/
inductive Fills (G : Graph O) (S : StaticTypes) (h : Heap O) :
    SizeAlign → List O → SizeAlign → Prop
  | nil {arg} : Fills G S h arg [] arg
  | known {arg f fs arg' r e} : G.ref h (G.element f).1 = some r → Settles S h.made r e →
      Fills G S h (arg.addMany e (G.element f).2) fs arg' → Fills G S h arg (f :: fs) arg'
  | struct {arg f fs arg' fields e} : G.New h (G.element f).1 fields →
      Fills G S h ⟨0, 0⟩ fields e → e.padded.size ≠ 0 →
      Fills G S h (arg.addMany e.padded (G.element f).2) fs arg' → Fills G S h arg (f :: fs) arg'

/-- A type with an `ffi_type` that is complete or can be completed, or a struct type of such. -/
def WellFormed (G : Graph O) (S : StaticTypes) (h : Heap O) (o : O) : Prop :=
  (∃ r e, G.ref h o = some r ∧ Settles S h.made r e) ∨
    ∃ fields e, G.New h o fields ∧ G.Fills S h ⟨0, 0⟩ fields e ∧ e.padded.size ≠ 0

/-- A type that is refused with nothing before its bad part: an `ffi_type` without size and
elements, a struct type without fields, or with a field of such a type and no size before it. -/
inductive Refused (G : Graph O) (S : StaticTypes) (h : Heap O) : O → Prop
  | known {o r} : G.ref h o = some r → Stuck S h.made r → Refused G S h o
  | empty {o fields e} : G.New h o fields → G.Fills S h ⟨0, 0⟩ fields e → e.padded.size = 0 →
      Refused G S h o
  | field {o pre f post e} : G.New h o (pre ++ f :: post) → G.Fills S h ⟨0, 0⟩ pre e →
      e.size = 0 → Refused G S h (G.element f).1 → Refused G S h o

variable {G : Graph O} {S : StaticTypes} {h h' h'' : Heap O} {X : O → Prop}

omit [DecidableEq O] in
theorem elementRefs_append {pre post : List O} {es : List Ref}
    (hes : G.elementRefs h (pre ++ post) = some es) :
    ∃ es₁ es₂, G.elementRefs h pre = some es₁ ∧ G.elementRefs h post = some es₂ ∧
      es = es₁ ++ es₂ := by
  induction pre generalizing es with
  | nil => exact ⟨[], es, rfl, hes, rfl⟩
  | cons f pre ih =>
    obtain ⟨r, rest, hr, hrest, rfl⟩ := elementRefs_cons.mp hes
    obtain ⟨es₁, es₂, hpre, hpost, rfl⟩ := ih hrest
    exact ⟨_, es₂, elementRefs_cons.mpr ⟨r, es₁, hr, hpre, rfl⟩, hpost, by simp⟩

theorem lays_replicate {mem : Memory} {arg e : SizeAlign} {r : Ref} (hr : Settles S mem r e)
    (n : Nat) : Lays S mem arg (List.replicate n r) (arg.addMany e n) := by
  induction n generalizing arg with
  | zero => exact .nil
  | succ n ih => exact .cons hr ih

section

omit [DecidableEq O]

theorem New.described {o : O} {fields : List O} (hnew : G.New h o fields)
    (hb : G.Built X h h') {r : Ref} (hr : G.ref h' o = some r) :
    ∃ n cell es, r = .made n ∧ h'.made[n]? = some cell ∧ cell.size = 0 ∧
      cell.elements = some es ∧ G.elementRefs h' fields = some es := by
  obtain ⟨hnode, hnone, hfields⟩ := hnew
  rw [ref_struct hnode] at hr
  obtain ⟨n, hn⟩ : ∃ n, h'.ffiType o = some (some (.made n)) := by
    refine (hb.fits.struct o hnode).2.resolve_left fun hnone' => ?_
    rw [hnone'] at hr
    cases hr
  obtain ⟨hge, fields', es, hfields', hes, hcell⟩ := hb.describes o n hnone hn
  obtain ⟨cell, hget, hcell⟩ := Option.bind_eq_some_iff.mp hcell
  rw [hb.fields, hfields] at hfields'
  obtain rfl := Option.some.inj hfields'
  rw [hn] at hr
  exact ⟨n, cell, es, (Option.some.inj hr).symm, hget, hb.blank n cell hge hget, hcell, hes⟩

theorem settles_built (hb : G.Built X h h') (hfits : G.Fits h) (hlay : Layered h.made) {o : O}
    {r : Ref} {e : SizeAlign} (hr : G.ref h o = some r) (hs : Settles S h.made r e) :
    Settles S h'.made r e :=
  (hb.later hlay).settles r (below_of_ref hfits hr) e hs

theorem Fills.lays {arg arg' : SizeAlign} {fs : List O} (hf : G.Fills S h arg fs arg')
    (hfits : G.Fits h) (hlay : Layered h.made) (hb : G.Built X h h') :
    ∀ {es}, G.elementRefs h' fs = some es → Lays S h'.made arg es arg' := by
  induction hf with
  | nil =>
    intro es hes
    obtain rfl := Option.some.inj hes
    exact .nil
  | known hr hs _ ih =>
    intro es hes
    obtain ⟨r', rest, hr', hrest, rfl⟩ := elementRefs_cons.mp hes
    obtain rfl := Option.some.inj ((hb.keep _ _ hr).symm.trans hr')
    exact lays_append.mpr ⟨_, lays_replicate (settles_built hb hfits hlay hr hs) _, ih hrest⟩
  | struct hnew _ hne _ ihfields ih =>
    intro es hes
    obtain ⟨r', rest, hr', hrest, rfl⟩ := elementRefs_cons.mp hes
    obtain ⟨n, cell, es', rfl, hget, hzero, hels, hes'⟩ := hnew.described hb hr'
    have hs : Settles S h'.made (.made n) _ := .aggregate hget hzero hels (ihfields hes') hne
    exact lays_append.mpr ⟨_, lays_replicate hs _, ih hrest⟩

theorem WellFormed.settles {o : O} (hwf : G.WellFormed S h o) (hfits : G.Fits h)
    (hlay : Layered h.made) (hb : G.Built X h h') {r : Ref} (hr : G.ref h' o = some r) :
    ∃ e, Settles S h'.made r e := by
  obtain ⟨r', e, hr', hs⟩ | ⟨fields, e, hnew, hfills, hne⟩ := hwf
  · obtain rfl := Option.some.inj ((hb.keep _ _ hr').symm.trans hr)
    exact ⟨e, settles_built hb hfits hlay hr' hs⟩
  · obtain ⟨n, cell, es, rfl, hget, hzero, hels, hes⟩ := hnew.described hb hr
    exact ⟨_, .aggregate hget hzero hels (hfills.lays hfits hlay hb hes) hne⟩

theorem Refused.stuck {o : O} (href : G.Refused S h o) (hfits : G.Fits h)
    (hlay : Layered h.made) (hb : G.Built X h h') :
    ∀ {r}, G.ref h' o = some r → Stuck S h'.made r := by
  induction href with
  | known hr hs =>
    intro r hr'
    obtain rfl := Option.some.inj ((hb.keep _ _ hr).symm.trans hr')
    exact (hb.later hlay).stuck _ (below_of_ref hfits hr) hs
  | empty hnew hfills hzero =>
    intro r hr
    obtain ⟨n, cell, es, rfl, hget, hsize, hels, hes⟩ := hnew.described hb hr
    exact .empty hget hsize hels (hfills.lays hfits hlay hb hes) hzero
  | @field o pre f post e hnew hfills hzero _ ih =>
    intro r hr
    obtain ⟨n, cell, es, rfl, hget, hsize, hels, hes⟩ := hnew.described hb hr
    obtain ⟨es₁, es₂, hpre, hpost, rfl⟩ := elementRefs_append hes
    obtain ⟨q, rest, hq, _, rfl⟩ := elementRefs_cons.mp hpost
    obtain ⟨k, hk⟩ : ∃ k, (G.element f).2 = k + 1 :=
      Nat.exists_eq_succ_of_ne_zero (Nat.ne_of_gt (G.element_count_pos f))
    rw [hk, List.replicate_succ] at hels
    exact .element hget hsize hels (hfills.lays hfits hlay hb hpre) hzero (ih hq)

end

/-! ### Two calls with the same types -/

/-- Later calls with these types say the same as a call now. -/
def Stable (G : Graph O) (S : StaticTypes) (h : Heap O) (call : Call O) : Prop :=
  ∀ n r h₁, G.world.cif S n call h = (r, h₁) → r ≠ .error (.type .running) →
    ∀ h₂, ReflTransGen (G.world.Uses S) h₁ h₂ →
      ∀ later : Call O, later.Valid → later.rtype = call.rtype → later.types = call.types →
        ∀ m r' h₃, G.world.cif S m later h₂ = (r', h₃) → r' ≠ .error (.type .running) → r' = r

theorem same_pointers (hfits : G.Fits h) (hlay : Layered h.made) {call later : Call O}
    (hvalid : call.Valid) (hvalid' : later.Valid) (hrtype : later.rtype = call.rtype)
    (htypes : later.types = call.types) {n m : Nat} {r r' : Except CifStop Unit} {h₁ h₂ h₃ : Heap O}
    (hrun : G.world.cif S n call h = (r, h₁)) (hend : r ≠ .error (.type .running))
    (huses : ReflTransGen (G.world.Uses S) h₁ h₂)
    (hrun' : G.world.cif S m later h₂ = (r', h₃)) (hend' : r' ≠ .error (.type .running)) :
    ∃ ptr ptrs a b, G.Built (fun _ => False) h a ∧ G.Later S a b ∧
      G.Pointers a (call.rtype :: call.types) (ptr :: ptrs) ∧
      r = answer (prepCif S ptr ptrs a.made).1 ∧ r' = answer (prepCif S ptr ptrs b.made).1 := by
  obtain ⟨ptr, ptrs, a, hb, hp, rfl, hr⟩ := cif_spec hfits hvalid hrun hend
  have hprep := prepCif_later (S := S) hb.fits (hb.layered hlay) (hp.below hb.fits)
  have hlater := hprep.trans (uses_later hprep.fits hprep.layered huses)
  obtain ⟨ptr', ptrs', b, hb', hp', _, hr'⟩ := cif_spec hlater.fits hvalid' hrun' hend'
  have hlater' := hlater.trans (hb'.later hlater.layered)
  rw [hrtype, htypes] at hp'
  have hsame := (hp.mono hlater'.keep).unique hp'
  obtain ⟨rfl, rfl⟩ := List.cons.inj hsame
  exact ⟨ptr, ptrs, a, b, hb, hlater', hp, hr, hr'⟩

/-- **What has been accepted is accepted later.** -/
theorem cif_accepted (hfits : G.Fits h) (hlay : Layered h.made) {call later : Call O}
    (hvalid : call.Valid) (hvalid' : later.Valid) (hrtype : later.rtype = call.rtype)
    (htypes : later.types = call.types) {n m : Nat} {r' : Except CifStop Unit} {h₁ h₂ h₃ : Heap O}
    (hrun : G.world.cif S n call h = (.ok (), h₁))
    (huses : ReflTransGen (G.world.Uses S) h₁ h₂)
    (hrun' : G.world.cif S m later h₂ = (r', h₃)) (hend' : r' ≠ .error (.type .running)) :
    r' = .ok () := by
  obtain ⟨ptr, ptrs, a, b, hb, hlater, hp, hr, hr'⟩ :=
    same_pointers hfits hlay hvalid hvalid' hrtype htypes hrun (by simp) huses hrun' hend'
  have hbelow := hp.below hb.fits
  have hok : (prepCif S ptr ptrs a.made).1 = .ok := answer_injective hr.symm
  have hall : ∀ p ∈ ptr :: ptrs, ∃ e, Settles S a.made p e := by
    rcases (prepCif_spec (S := S) (hb.layered hlay) hbelow).2.2 with ⟨_, hall⟩ | ⟨hbad, _⟩
    · exact hall
    · rw [hok] at hbad
      cases hbad
  rw [hr']
  rcases (prepCif_spec (S := S) hlater.layered fun p hmem =>
    (hbelow p hmem).mono hlater.length_le).2.2 with ⟨hok', _⟩ | ⟨_, p, hmem, hnot⟩
  · rw [hok']
    rfl
  · obtain ⟨e, he⟩ := hall p hmem
    exact absurd (hlater.settles p (hbelow p hmem) e he) (hnot e)

section

omit [DecidableEq O]

theorem Pointers.get {ts : List O} {ptrs : List Ref} (hp : G.Pointers h ts ptrs) {t : O}
    (ht : t ∈ ts) : ∃ p ∈ ptrs, G.ref h t = some p := by
  induction hp with
  | nil => cases ht
  | cons hr _ ih =>
    rcases List.mem_cons.mp ht with rfl | ht
    · exact ⟨_, .head _, hr⟩
    · obtain ⟨p, hmem, hp⟩ := ih ht
      exact ⟨p, .tail _ hmem, hp⟩

theorem Pointers.get_type {ts : List O} {ptrs : List Ref} (hp : G.Pointers h ts ptrs) {p : Ref}
    (hmem : p ∈ ptrs) : ∃ t ∈ ts, G.ref h t = some p := by
  induction hp with
  | nil => cases hmem
  | cons hr _ ih =>
    rcases List.mem_cons.mp hmem with rfl | hmem
    · exact ⟨_, .head _, hr⟩
    · obtain ⟨t, ht, hr⟩ := ih hmem
      exact ⟨t, .tail _ ht, hr⟩

end

/-- **A signature is answered in the same way ever after** if its types are all well formed, or if
one of them is refused with nothing before its bad part. -/
theorem cif_stable (hfits : G.Fits h) (hlay : Layered h.made) {call : Call O}
    (hvalid : call.Valid)
    (htypes : (∀ t ∈ call.rtype :: call.types, G.WellFormed S h t) ∨
      ∃ t ∈ call.rtype :: call.types, G.Refused S h t) : G.Stable S h call := by
  intro n r h₁ hrun hend h₂ huses later hvalid' hrt htys m r' h₃ hrun' hend'
  obtain ⟨ptr, ptrs, a, b, hb, hlater, hp, hr, hr'⟩ :=
    same_pointers hfits hlay hvalid hvalid' hrt htys hrun hend huses hrun' hend'
  have hbelow := hp.below hb.fits
  have hspec := (prepCif_spec (S := S) (hb.layered hlay) hbelow).2.2
  have hspec' := (prepCif_spec (S := S) hlater.layered fun p hmem =>
    (hbelow p hmem).mono hlater.length_le).2.2
  rw [hr, hr']
  rcases htypes with hwf | ⟨t, ht, href⟩
  · have hall : ∀ p ∈ ptr :: ptrs, ∃ e, Settles S a.made p e := by
      intro p hmem
      obtain ⟨t, ht, hrt⟩ := hp.get_type hmem
      exact (hwf t ht).settles hfits hlay hb hrt
    rcases hspec with ⟨hok, _⟩ | ⟨_, p, hmem, hnot⟩
    · rcases hspec' with ⟨hok', _⟩ | ⟨_, p, hmem, hnot⟩
      · rw [hok, hok']
      · obtain ⟨e, he⟩ := hall p hmem
        exact absurd (hlater.settles p (hbelow p hmem) e he) (hnot e)
    · obtain ⟨e, he⟩ := hall p hmem
      exact absurd he (hnot e)
  · obtain ⟨p, hmem, hrp⟩ := hp.get ht
    have hstuck := href.stuck hfits hlay hb hrp
    rcases hspec with ⟨_, hall⟩ | ⟨hbad, _⟩
    · obtain ⟨e, he⟩ := hall p hmem
      exact absurd he (hstuck.not_settles (hb.layered hlay) e)
    · rcases hspec' with ⟨_, hall⟩ | ⟨hbad', _⟩
      · obtain ⟨e, he⟩ := hall p hmem
        exact absurd he ((hlater.stuck p (hbelow p hmem) hstuck).not_settles hlater.layered e)
      · rw [hbad, hbad']

end Graph

/-! ### A bad field after a good one -/

/-- `struct S { int value; bad field; }`, where `bad` has an `ffi_type` of size `0` without
elements. -/
inductive Mixed where
  | struct | int | bad
  deriving DecidableEq

def mixed : Graph Mixed where
  node
    | .struct => .structType
    | .int => .scalar (.ffiTypes .int)
    | .bad => .scalar (.made 0)
  rank _ := 0
  rank_lt o t h := by cases o <;> cases h
  isBuffer o r h := by cases o <;> cases h <;> rfl

def mixedHeap : Heap Mixed where
  fields o := if o = .struct then some [.int, .bad] else none
  ffiType
    | .struct => none
    | .int => some (some (.ffiTypes .int))
    | .bad => some (some (.made 0))
  made := [⟨0, 0, 0, none⟩]

theorem fits_mixedHeap : mixed.Fits mixedHeap where
  scalar o r h := by cases o <;> cases h <;> exact ⟨rfl, rfl⟩
  array o t n h := by cases o <;> cases h
  refType o t h := by cases o <;> cases h
  struct o h := by cases o <;> cases h; exact ⟨⟨_, rfl⟩, .inl rfl⟩
  valid o n h := by cases o <;> cases h; exact Nat.one_pos

theorem layered_mixedHeap : Layered mixedHeap.made := by
  intro n cell es hcell hes
  obtain ⟨hn, rfl⟩ := List.getElem?_eq_some_iff.mp hcell
  obtain rfl : n = 0 := Nat.lt_one_iff.mp hn
  cases hes

/-- `int f(int)`. -/
def intCall : Call Mixed := ⟨.int, [.int], none⟩

/-- `int f(struct S)`. -/
def mixedCall : Call Mixed := ⟨.int, [.struct], none⟩

/-- The heap after the first call. -/
def mixedHeap₁ : Heap Mixed := (mixed.world.cif (staticTypes .lp64 8) 2 mixedCall mixedHeap).2

/-- **A refused signature is accepted the second time.** -/
theorem refused_then_accepted :
    (mixed.world.cif (staticTypes .lp64 8) 2 mixedCall mixedHeap).1 =
        .error (.status .badTypedef) ∧
      (mixed.world.cif (staticTypes .lp64 8) 2 mixedCall mixedHeap₁).1 = .ok () ∧
      ¬ mixed.Stable (staticTypes .lp64 8) mixedHeap mixedCall := by
  have hfirst : (mixed.world.cif (staticTypes .lp64 8) 2 mixedCall mixedHeap).1 =
      .error (.status .badTypedef) := by decide
  have hsecond : (mixed.world.cif (staticTypes .lp64 8) 2 mixedCall mixedHeap₁).1 = .ok () := by
    decide
  refine ⟨hfirst, hsecond, fun hstable => ?_⟩
  have hrun : mixed.world.cif (staticTypes .lp64 8) 2 mixedCall mixedHeap =
      (.error (.status .badTypedef), mixedHeap₁) := Prod.ext hfirst rfl
  have hrun' : mixed.world.cif (staticTypes .lp64 8) 2 mixedCall mixedHeap₁ =
      (.ok (), (mixed.world.cif (staticTypes .lp64 8) 2 mixedCall mixedHeap₁).2) :=
    Prod.ext hsecond rfl
  have heq := hstable 2 _ mixedHeap₁ hrun (by simp) mixedHeap₁ .refl mixedCall (by decide) rfl rfl
    2 _ _ hrun' (by simp)
  cases heq

theorem cif_accepted_mixed :
    ∃ h₁ h₂ h₃, mixed.world.cif (staticTypes .lp64 8) 2 intCall mixedHeap = (.ok (), h₁) ∧
      (mixed.world.cif (staticTypes .lp64 8) 2 mixedCall h₁) = (.error (.status .badTypedef), h₂) ∧
      mixed.world.cif (staticTypes .lp64 8) 2 intCall h₂ = (.ok (), h₃) := by
  let use := mixed.world.cif (staticTypes .lp64 8) 2 intCall mixedHeap
  let use' := mixed.world.cif (staticTypes .lp64 8) 2 mixedCall use.2
  let use'' := mixed.world.cif (staticTypes .lp64 8) 2 intCall use'.2
  have hrun : mixed.world.cif (staticTypes .lp64 8) 2 intCall mixedHeap = (.ok (), use.2) :=
    Prod.ext (by decide) rfl
  have huse : mixed.world.cif (staticTypes .lp64 8) 2 mixedCall use.2 =
      (.error (.status .badTypedef), use'.2) := Prod.ext (by decide) rfl
  have hok : use''.1 = .ok () :=
    Graph.cif_accepted fits_mixedHeap layered_mixedHeap (by decide) (by decide) rfl rfl hrun
      (.single (.cif huse (by simp))) (Prod.ext rfl rfl) (by decide)
  exact ⟨use.2, use'.2, use''.2, hrun, huse, Prod.ext hok rfl⟩

theorem cif_stable_bad : mixed.Stable (staticTypes .lp64 8) mixedHeap ⟨.bad, [.struct], some 1⟩ :=
  Graph.cif_stable fits_mixedHeap layered_mixedHeap (by decide)
    (.inr ⟨.bad, .head _, .known rfl (.noElements rfl rfl rfl)⟩)

end NodeFfi.Resolve
