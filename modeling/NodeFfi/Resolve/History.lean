import NodeFfi.Resolve.BuiltIns
import NodeFfi.Resolve.Resolution

/-!
# `Type` and its history

A call of `Type` writes to the type that it is about and, when it looks up names, to every object
of the chain of prototypes down to the one whose name it finds, whatever these objects had before.
The calls, the recursive ones included, that only write what suits (`Clean`) leave every type
standing for what it stood for (`toFfiType_same`), so that the outcome of a call does not depend on
the calls before it (`history_independent`). A call that cannot determine the type leaves the heap
as it was if there was nothing left to write (`Quiet`). The shapes are compared down to a depth `d`:
at `0` these are size, alignment and kind, and from there on the elements of structures as well.
-/

namespace NodeFfi.Resolve

open Js

variable {O : Type} [DecidableEq O]

namespace World

variable (w : World O) (S : StaticTypes) (d : Nat)

/-! ### The condition -/

/-- The writes of the lookup suit. -/
def HarmlessNames : List O → Heap O → Prop
  | [], _ => True
  | cur :: rest, h =>
    w.Harmless S h d cur ((w.read w.name cur).bind ffiTypes) ∧
      ((w.read w.name cur).bind ffiTypes = none → HarmlessNames rest (h.assign cur none))

/-- What a call for `type` writes itself suits every type that reads it: with a structure, these
are the types that have the fields of `type` and no `type` property. -/
def Clean (h : Heap O) (type : O) : Prop :=
  match w.branch h type with
  | .done _ => True
  | .cString => w.Harmless S h d type (some Ref.pointer)
  | .names => w.HarmlessNames S d (w.chain type) h
  | .struct fields => ∀ o, w.Reader h type o → w.read w.indirection o = some 1 →
      w.read w.type o = none ∧ w.read h.fields o = some fields

/-- A call for `type` writes nothing itself that is not there. -/
def Quiet (h : Heap O) (type : O) : Prop :=
  match w.branch h type with
  | .done _ => True
  | .cString => False
  | .names => ∀ cur ∈ w.chain type,
      (w.read w.name cur).bind ffiTypes = none ∧ h.ffiType cur = some none
  | .struct _ => ∃ e, w.Resolves S h d type (.error e)

/-- The calls of the loop over the fields. -/
def FieldCalls (calls : O → Heap O → Prop) (typeOf : O → Script O Ref) :
    List O → Heap O → Prop
  | [], _ => True
  | field :: fields, h =>
    ∀ type, (w.elementType field).1 = some type → calls type h ∧
      ∀ q h', typeOf type h = (.ok q, h') → q.isBuffer = true → FieldCalls calls typeOf fields h'

/-- `P` holds of the type and of the heap at the beginning of every call. -/
def AllCalls (P : Heap O → O → Prop) : Nat → O → Heap O → Prop
  | 0, _, _ => True
  | n + 1, type, h => P h type ∧ ∀ fields, w.branch h type = .struct fields →
      w.FieldCalls (AllCalls P n) (w.toFfiType n) fields h

/-- The condition on a call of `Type`. -/
structure Good (h : Heap O) (type : O) : Prop where
  clean : ∀ n, w.AllCalls (w.Clean S d) n type h
  quiet : w.Resolves S h d type (.error .undetermined) → ∀ n, w.AllCalls (w.Quiet S d) n type h

/-- What is compared of a result: what `view` shows of it, or the failure. -/
def outcome {α β : Type} (view : α → β) : Except Stop α → Option (Except Failure β)
  | .ok a => some (.ok (view a))
  | .error (.thrown e) => some (.error e)
  | .error .running => none

/-- A call of `Type` comes to `res`: size, alignment and kind, with the elements down to the depth
`d`, or the failure. -/
def Outcome (h : Heap O) (type : O) (res : Except Failure Shape) : Prop :=
  ∃ n, outcome (shape S (w.toFfiType n type h).2.made d) (w.toFfiType n type h).1 = some res

/-- Any number of calls of `Type` that meet the condition. -/
inductive Calls : Heap O → Heap O → Prop
  | refl {h} : Calls h h
  | call {h h₁ n type r h₂} : Calls h h₁ → w.Good S d h₁ type →
      w.toFfiType n type h₁ = (r, h₂) → Ended r → Calls h h₂

end World

variable {w : World O} {S : StaticTypes} {d : Nat} {h h' h₁ : Heap O} {t : O}

/-! ### Writes -/

theorem valid_assign (hvalid : h.Valid d) (c : O) {v : Option Ref}
    (hv : ∀ n, v = some (.made n) → n < h.made.length) : (h.assign c v).Valid d where
  made_lt o n hn := by
    by_cases heq : o = c
    · subst heq
      rw [assign_ffiType_self] at hn
      exact hv n (Option.some.inj hn)
    · rw [assign_ffiType_of_ne h heq] at hn
      exact hvalid.made_lt o n hn
  closed := hvalid.closed

omit [DecidableEq O] in
theorem cellAt_append_self (mem : Memory) (cell : Cell) :
    cellAt (mem ++ [cell]) mem.length = cell := by
  rw [cellAt, List.getElem?_append_right le_rfl, Nat.sub_self]
  rfl

theorem closed_append {mem : Memory} (hclosed : Closed mem) {cell : Cell} {es : List Ref}
    (hcell : cell.elements = some es) (hes : ∀ k, Ref.made k ∈ es → k < mem.length) :
    Closed (mem ++ [cell]) := by
  intro n es' helements k hk
  rw [List.length_append, List.length_singleton]
  rcases Nat.lt_trichotomy n mem.length with hlt | rfl | hgt
  · rw [cellAt_grown (List.prefix_append _ _) hlt] at helements
    exact Nat.lt_succ_of_lt (hclosed n es' helements k hk)
  · rw [cellAt_append_self, hcell] at helements
    obtain rfl := Option.some.inj helements
    exact Nat.lt_succ_of_lt (hes k hk)
  · rw [cellAt, List.getElem?_eq_none (by simp; omega)] at helements
    cases helements

theorem valid_cache (hvalid : h.Valid d) (c : O) {es : List Ref}
    (hes : ∀ k, Ref.made k ∈ es → k < h.made.length) : (h.cache c es).Valid d where
  made_lt o n hn := by
    rw [cache_made, List.length_append, List.length_singleton]
    by_cases heq : o = c
    · subst heq
      rw [cache_ffiType_self] at hn
      obtain rfl : h.made.length = n := by simpa using hn
      omega
    · rw [cache_ffiType_of_ne h heq] at hn
      have := hvalid.made_lt o n hn
      omega
  closed hd := closed_append (hvalid.closed hd) rfl hes

theorem ffiTypes_ne_made {name : String} {n : Nat} : ffiTypes name ≠ some (.made n) := by
  unfold ffiTypes
  cases FfiName.ofText name with
  | some key => simp
  | none =>
    by_cases hmem : name ∈ objectMembers
    · simp [hmem]
    · simp [hmem]

section

omit [DecidableEq O]

theorem bind_name_ne_made {cur : O} {n : Nat} :
    (w.read w.name cur).bind ffiTypes ≠ some (.made n) := by
  cases w.read w.name cur with
  | none => simp
  | some name => exact ffiTypes_ne_made

theorem readFfiType_valid (hvalid : h.Valid d) {o : O} {n : Nat}
    (hr : w.readFfiType h o = some (.made n)) : n < h.made.length := by
  obtain ⟨c, _, hc⟩ := List.exists_of_findSome?_eq_some (Option.join_eq_some_iff.mp hr)
  exact hvalid.made_lt c n hc

theorem branch_done_valid (hvalid : h.Valid d) {o : O} {n : Nat}
    (hb : w.branch h o = .done (.ok (.made n))) : n < h.made.length := by
  by_cases hind : w.read w.indirection o = some 1
  · rw [branch_of_one hind] at hb
    cases hr : w.readFfiType h o with
    | some r =>
      rw [hr] at hb
      obtain rfl := Except.ok.inj (World.Branch.done.inj hb)
      exact readFfiType_valid hvalid hr
    | none =>
      rw [hr] at hb
      simp only at hb
      split at hb
      · cases hb
      · split at hb
        · cases hb
        · split at hb <;> cases hb
  · unfold World.branch at hb
    split at hb
    · cases hb
    · cases hb
    · rename_i i hi0 hi
      rw [if_neg fun heq => hind (by rw [hi, heq])] at hb
      cases hb

theorem of_branch_struct {o : O} {fields : List O} (hb : w.branch h o = .struct fields) :
    w.read w.indirection o = some 1 ∧ w.read w.type o = none ∧ w.read h.fields o = some fields := by
  by_cases hind : w.read w.indirection o = some 1
  · rw [branch_of_one hind] at hb
    refine ⟨hind, ?_⟩
    cases hr : w.readFfiType h o with
    | some r =>
      rw [hr] at hb
      cases hb
    | none =>
      rw [hr] at hb
      simp only at hb
      split at hb
      · cases hb
      · rename_i htype
        refine ⟨Option.not_isSome_iff_eq_none.mp htype, ?_⟩
        split at hb
        · rename_i fs hfs
          rw [hfs, World.Branch.struct.inj hb]
        · split at hb <;> cases hb
  · unfold World.branch at hb
    split at hb
    · cases hb
    · cases hb
    · rename_i i hi0 hi
      rw [if_neg fun heq => hind (by rw [hi, heq])] at hb
      cases hb

end

/-- An object that has no `ffi_type` of its own has had none. -/
def Owns (h h' : Heap O) : Prop := ∀ o, h'.ffiType o = none → h.ffiType o = none

theorem kept_owns : World.Kept (Owns : Heap O → Heap O → Prop) where
  refl _ _ hnone := hnone
  trans _ _ _ h₁ h₂ o hnone := h₁ o (h₂ o hnone)
  assign h o v o' hnone := by
    by_cases heq : o' = o
    · subst heq
      rw [assign_ffiType_self] at hnone
      cases hnone
    · rwa [assign_ffiType_of_ne h heq] at hnone
  cache h o es o' hnone := by
    by_cases heq : o' = o
    · subst heq
      rw [cache_ffiType_self] at hnone
      cases hnone
    · rwa [cache_ffiType_of_ne h heq] at hnone

section

omit [DecidableEq O]

theorem reader_of_owns (howns : Owns h h') {c o : O} (hr : w.Reader h' c o) : w.Reader h c o := by
  induction hr with
  | self => exact .self
  | derived hproto hnone hne _ ih => exact .derived hproto (howns _ hnone) hne ih

theorem reader_congr {h h' : Heap O} (hffi : h'.ffiType = h.ffiType) {c o : O}
    (hr : w.Reader h c o) : w.Reader h' c o :=
  reader_of_owns (fun _ hnone => hffi ▸ hnone) hr

end

theorem same_cache (hvalid : h.Valid d) (fields : List O) (hind : w.read w.indirection t = some 1)
    (es : List Ref)
    (hresolves : ∀ e ≤ d, w.Resolves S h e t
      (.ok (shape S (h.cache t es).made e (.made h.made.length))))
    (hnew : w.readFfiType h t = none → w.branch h t = .struct fields)
    (hreaders : ∀ o, w.Reader h t o → w.read w.indirection o = some 1 →
      w.read w.type o = none ∧ w.read h.fields o = some fields) :
    Same w S d h (h.cache t es) := by
  have hshape : ∀ e ≤ d, ∀ o r, w.branch h o = .done (.ok r) →
      shape S (h.cache t es).made e r = shape S h.made e r := by
    intro e he o r hb
    refine shape_grown (List.prefix_append _ _) (fun hpos => hvalid.closed (by omega)) ?_
    rintro k rfl
    exact branch_done_valid hvalid hb
  refine same_of_answers fun e he o => ?_
  by_cases hindo : w.read w.indirection o = some 1
  · by_cases hr : w.Reader h t o
    · have hread := hr.read_eq
      have hwrite : w.readFfiType (h.cache t es) o = some (.made h.made.length) :=
        World.Reader.read_assign (h := { h with made := h.made ++ [⟨0, 0, 13, some es⟩] })
          (reader_congr (by rfl) hr) (some (.made h.made.length))
      refine .inr ⟨_, ?_, fun n => resolve_of_ffiType hindo hwrite n⟩
      obtain ⟨n, hn⟩ := hresolves e he
      cases hx : w.readFfiType h t with
      | some y =>
        have hone := resolve_of_ffiType (S := S) (d := e) hind hx 0
        rw [Resolves.det ⟨n, hn⟩ ⟨1, hone⟩]
        exact ⟨1, resolve_of_ffiType hindo (hread.trans hx) 0⟩
      | none =>
        cases n with
        | zero => cases hn
        | succ n =>
          have hbo : w.branch h o = w.branch h t := by
            obtain ⟨htype, hfields⟩ := hreaders o hr hindo
            rw [hnew hx, branch_of_one hindo, hread.trans hx, htype, hfields]
            rfl
          refine ⟨n + 1, ?_⟩
          rw [World.resolve, hnew hx] at hn
          rw [World.resolve, hbo, hnew hx]
          exact hn
    · refine .inl ⟨branch_congr rfl ?_, hshape e he o⟩
      exact read_assign_of_not_reader
        (h := { h with made := h.made ++ [⟨0, 0, 13, some es⟩] })
        (fun hr' => hr (reader_congr (by rfl) hr'))
        (some (.made h.made.length))
  · exact .inl ⟨branch_of_ne_one hindo _ _, hshape e he o⟩

/-! ### The calls -/

theorem lookupNames_same (chain : List O) : ∀ (h : Heap O) {r : Except Stop Ref} {h' : Heap O},
    h.Valid d → w.HarmlessNames S d chain h → w.lookupNames chain h = (r, h') →
    h'.Valid d ∧ Same w S d h h' ∧ (∀ k, r ≠ .ok (.made k)) ∧
      ∀ e, World.outcome (shape S h'.made e) r = some (w.resolveName S h e chain) := by
  induction chain with
  | nil =>
    intro h r h' hvalid _ hrun
    obtain ⟨rfl, rfl⟩ := Prod.mk.inj hrun
    exact ⟨hvalid, .refl, (fun _ hk => by cases hk), fun _ => rfl⟩
  | cons cur rest ih =>
    intro h r h' hvalid ⟨hharmless, hrest⟩ hrun
    have hsame := resolve_assign hharmless
    cases hname : (w.read w.name cur).bind ffiTypes with
    | some q =>
      rw [hname] at hsame
      rw [lookupNames_found hname] at hrun
      obtain ⟨rfl, rfl⟩ := Prod.mk.inj hrun
      refine ⟨valid_assign hvalid cur fun n hn => absurd (hname.trans hn) bind_name_ne_made,
        hsame, ?_, fun e => ?_⟩
      · rintro k hk
        obtain rfl := Except.ok.inj hk
        exact bind_name_ne_made hname
      · rw [World.resolveName, World.firstName, hname]
        rfl
    | none =>
      rw [hname] at hsame
      rw [lookupNames_missing hname] at hrun
      obtain ⟨hvalid', hsame', hmade, hout⟩ :=
        ih _ (valid_assign hvalid cur fun n hn => by cases hn) (hrest hname) hrun
      refine ⟨hvalid', hsame.trans hsame', hmade, fun e => ?_⟩
      rw [hout e, World.resolveName, World.resolveName, World.firstName, hname]
      rfl

/-- What is shown of a call. -/
structure Result (w : World O) (S : StaticTypes) (d : Nat) (h : Heap O) (t : O)
    (r : Except Stop Ref) (h' : Heap O) : Prop where
  valid : h'.Valid d
  same : Same w S d h h'
  made_lt : ∀ k, r = .ok (.made k) → k < h'.made.length
  resolves : ∀ e ≤ d, ∃ res, World.outcome (shape S h'.made e) r = some res ∧
    w.Resolves S h e t res

/-- What is shown of the loop over the fields. -/
structure FieldsResult (w : World O) (S : StaticTypes) (d : Nat) (h : Heap O) (fields : List O)
    (r : Except Stop (List Ref)) (h' : Heap O) : Prop where
  valid : h'.Valid d
  same : Same w S d h h'
  made_lt : ∀ es, r = .ok es → ∀ k, Ref.made k ∈ es → k < h'.made.length
  resolves : ∀ e ≤ d, ∃ n x, World.outcome (List.map (shape S h'.made e)) r = some x ∧
    w.resolveFields (w.resolve S h e n) fields = some x

section

omit [DecidableEq O]

theorem Result.error {r : Failure} (hresult : Result w S d h t (.error (.thrown r)) h') {e : Nat}
    (he : e ≤ d) : ∃ n, w.resolve S h e n t = some (.error r) := by
  obtain ⟨res, hout, n, hn⟩ := hresult.resolves e he
  obtain rfl := Option.some.inj hout
  exact ⟨n, hn⟩

theorem Result.ok {q : Ref} (hresult : Result w S d h t (.ok q) h') {e : Nat}
    (he : e ≤ d) : ∃ n, w.resolve S h e n t = some (.ok (shape S h'.made e q)) := by
  obtain ⟨res, hout, n, hn⟩ := hresult.resolves e he
  obtain rfl := Option.some.inj hout
  exact ⟨n, hn⟩

theorem elementPointers_same {calls : O → Heap O → Prop} {typeOf : O → Script O Ref}
    (hcall : ∀ t h r h', h.Valid d → calls t h → typeOf t h = (r, h') → Ended r →
      Result w S d h t r h')
    (hkept : ∀ fields h, World.Grown h (w.elementPointers typeOf fields h).2) (fields : List O) :
    ∀ (h : Heap O) (r : Except Stop (List Ref)) (h' : Heap O), h.Valid d →
      w.FieldCalls calls typeOf fields h → w.elementPointers typeOf fields h = (r, h') →
      Ended r → FieldsResult w S d h fields r h' := by
  induction fields with
  | nil =>
    intro h r h' hvalid _ hrun _
    obtain ⟨rfl, rfl⟩ := Prod.mk.inj hrun
    refine ⟨hvalid, .refl, fun es hes k hk => ?_, fun e _ => ⟨0, .ok [], rfl, rfl⟩⟩
    obtain rfl := Except.ok.inj hes
    cases hk
  | cons field fields ih =>
    intro h r h' hvalid hcalls hrun hend
    cases World.fieldStep_of_run hrun with
    | noType htype =>
      exact ⟨hvalid, .refl, (fun _ hes => by cases hes),
        fun e _ => ⟨0, .error .notAType, rfl, resolveFields_noType htype⟩⟩
    | @stops type f _ htype hptr =>
      have hresult := hcall type h _ _ hvalid (hcalls type htype).1 hptr hend.of_error
      refine ⟨hresult.valid, hresult.same, (fun _ hes => by cases hes), fun e he => ?_⟩
      cases f with
      | running => exact absurd rfl hend
      | thrown f =>
        obtain ⟨n, hn⟩ := hresult.error he
        exact ⟨n, .error f, rfl, resolveFields_stops htype hn⟩
    | @notBuffer type q _ htype hptr hbuf =>
      have hresult := hcall type h _ _ hvalid (hcalls type htype).1 hptr (ended_ok q)
      refine ⟨hresult.valid, hresult.same, (fun _ hes => by cases hes), fun e he => ?_⟩
      obtain ⟨n, hn⟩ := hresult.ok he
      exact ⟨n, .error .notABuffer, rfl,
        resolveFields_notBuffer htype hn (by rwa [shape_isBuffer])⟩
    | @goesOn type q h₁ r _ htype hptr hbuf hrest =>
      obtain ⟨hcalls₁, hcallsRest⟩ := hcalls type htype
      have hresult := hcall type h _ _ hvalid hcalls₁ hptr (ended_ok q)
      have hresult₂ := ih h₁ r _ hresult.valid (hcallsRest q h₁ hptr hbuf) hrest hend.of_map
      have hpre : h₁.made <+: h'.made := by
        have := (hkept fields h₁).2
        rwa [hrest] at this
      refine ⟨hresult₂.valid, hresult.same.trans hresult₂.same, fun es hes k hk => ?_,
        fun e he => ?_⟩
      · cases r with
        | error f => cases hes
        | ok rest =>
          obtain rfl := Except.ok.inj hes
          rcases List.mem_append.mp hk with hk | hk
          · obtain rfl := List.eq_of_mem_replicate hk
            exact Nat.lt_of_lt_of_le (hresult.made_lt k rfl) hpre.length_le
          · exact hresult₂.made_lt rest rfl k hk
      · obtain ⟨n, hn⟩ := hresult.ok he
        obtain ⟨m, x, hx, hm⟩ := hresult₂.resolves e he
        obtain ⟨k, hk⟩ := resolveFields_fuel
          (fun t r hr => hresult.same.backward e he t r ⟨m, hr⟩) hm
        have hshape : shape S h'.made e q = shape S h₁.made e q :=
          shape_grown hpre (fun hpos => hresult.valid.closed (by omega))
            fun k hk => hresult.made_lt k (hk ▸ rfl)
        refine ⟨max n k, x.map fun rest =>
          List.replicate (w.elementType field).2 (shape S h₁.made e q) ++ rest, ?_, ?_⟩
        · cases r with
          | ok rest =>
            obtain rfl := Option.some.inj hx
            simp [World.outcome, Except.map, hshape]
          | error f =>
            cases f with
            | running => cases hx
            | thrown f =>
              obtain rfl := Option.some.inj hx
              rfl
        · rw [resolveFields_goesOn htype (resolve_mono (Nat.le_max_left n k) hn)
            (by rwa [shape_isBuffer]),
            resolveFields_mono (fun t r hr => resolve_mono (Nat.le_max_right n k) hr) hk]
          rfl

end

/-- The shape of the structure that `Type` has just made. -/
theorem shape_cache (hvalid : h.Valid d) (t : O) {es : List Ref} {e : Nat} (he : e ≤ d)
    (hes : ∀ k, Ref.made k ∈ es → k < h.made.length) :
    shape S (h.cache t es).made e (.made h.made.length) =
      .struct e (es.map (shape S h.made (e - 1))) := by
  have hcell : cellAt (h.cache t es).made h.made.length = ⟨0, 0, 13, some es⟩ :=
    cellAt_append_self _ _
  cases e with
  | zero =>
    rw [shape_made_zero, hcell]
    rfl
  | succ e =>
    rw [shape_made_succ, hcell]
    refine congrArg (fun elements => Shape.ffiType 0 0 13 (some elements)) ?_
    refine List.map_congr_left fun q hq => shape_grown (List.prefix_append _ _) ?_ ?_
    · exact fun _ => hvalid.closed (by omega)
    · exact fun k hk => hes k (hk ▸ hq)

/-- **A call that only writes what suits** comes to what its type stands for, and leaves every type
standing for the same. -/
theorem toFfiType_same (n : Nat) : ∀ (t : O) (h : Heap O) (r : Except Stop Ref) (h' : Heap O),
    h.Valid d → w.AllCalls (w.Clean S d) n t h → w.toFfiType n t h = (r, h') → Ended r →
    Result w S d h t r h' := by
  induction n with
  | zero =>
    intro t h r h' _ _ hrun hend
    exact absurd (congrArg Prod.fst hrun).symm hend
  | succ n ih =>
    intro t h r h' hvalid ⟨hclean, hcalls⟩ hrun hend
    rw [World.toFfiType_succ] at hrun
    unfold World.Clean at hclean
    cases hb : w.branch h t with
    | done x =>
      rw [hb] at hrun
      obtain ⟨rfl, rfl⟩ := Prod.mk.inj hrun
      refine ⟨hvalid, .refl, fun k hk => ?_, fun e _ => ⟨x.map (shape S h.made e), ?_, 1, ?_⟩⟩
      · cases x with
        | error f => cases hk
        | ok q =>
          obtain rfl : q = .made k := Except.ok.inj hk
          exact branch_done_valid hvalid hb
      · cases x <;> rfl
      · rw [World.resolve, hb]
    | cString =>
      rw [hb] at hrun hclean
      obtain ⟨rfl, rfl⟩ := Prod.mk.inj hrun
      refine ⟨valid_assign hvalid t (fun n hn => by cases hn), resolve_assign hclean,
        (fun _ hk => by cases hk), fun e _ => ⟨_, rfl, 1, ?_⟩⟩
      rw [World.resolve, hb]
      rfl
    | names =>
      rw [hb] at hrun hclean
      obtain ⟨hvalid', hsame, hmade, hout⟩ := lookupNames_same (w.chain t) h hvalid hclean hrun
      refine ⟨hvalid', hsame, fun k hk => absurd hk (hmade k), fun e _ => ⟨_, hout e, 1, ?_⟩⟩
      rw [World.resolve, hb]
    | struct fields =>
      rw [hb] at hrun hclean
      have hgrown := fun fields h => w.elementPointers_preserves World.kept_grown
        (fun t h => w.toFfiType_grown n t h) fields h
      have hloop := fun r' h₁ => elementPointers_same ih hgrown fields h r' h₁ hvalid
        (hcalls fields hb)
      rcases World.struct_cases hrun with ⟨f, rfl, hels⟩ | ⟨es, h₁, hels, rfl, rfl⟩
      · have hresult := hloop _ _ hels hend.of_error
        refine ⟨hresult.valid, hresult.same, (fun _ hk => by cases hk), fun e he => ?_⟩
        obtain ⟨m, x, hx, hm⟩ := hresult.resolves (e - 1) (by omega)
        cases f with
        | running => cases hx
        | thrown f =>
          obtain rfl := Option.some.inj hx
          refine ⟨.error f, rfl, m + 1, ?_⟩
          rw [World.resolve, hb]
          simp only
          rw [hm]
          rfl
      · have hresult := hloop _ _ hels (ended_ok es)
        have hes := hresult.made_lt es rfl
        have hfinds : ∀ e ≤ d, w.Resolves S h e t
            (.ok (shape S (h₁.cache t es).made e (.made h₁.made.length))) := by
          intro e he
          obtain ⟨m, x, hx, hm⟩ := hresult.resolves (e - 1) (by omega)
          obtain rfl := Option.some.inj hx
          refine ⟨m + 1, ?_⟩
          rw [World.resolve, hb]
          simp only
          rw [hm, shape_cache hresult.valid t he hes]
          rfl
        have hfields₁ : h₁.fields = h.fields := by
          have := (hgrown fields h).1
          rwa [hels] at this
        have howns : Owns h h₁ := by
          have := w.elementPointers_preserves kept_owns
            (fun t h => w.toFfiType_preserves kept_owns n t h) fields h
          rwa [hels] at this
        obtain ⟨hind, htype, hfields⟩ := of_branch_struct hb
        have hcache : Same w S d h₁ (h₁.cache t es) := by
          refine same_cache hresult.valid fields hind es (fun e he => ?_) (fun hnone => ?_)
            (fun o hr hindo => ?_)
          · obtain ⟨m, hm⟩ := hfinds e he
            exact ⟨m, hresult.same.forward e he _ _ _ hm⟩
          · rw [branch_of_one hind, hnone, htype, hfields₁, hfields]
            rfl
          · rw [hfields₁]
            exact hclean o (reader_of_owns howns hr) hindo
        refine ⟨valid_cache hresult.valid t hes, hresult.same.trans hcache, fun k hk => ?_,
          fun e he => ⟨_, rfl, hfinds e he⟩⟩
        obtain rfl := Ref.made.inj (Except.ok.inj hk)
        rw [cache_made, List.length_append, List.length_singleton]
        exact Nat.lt_succ_self _

/-! ### Calls that come to an end -/

omit [DecidableEq O] in
theorem fieldCalls_antitone {calls calls' : O → Heap O → Prop} {f g : O → Script O Ref}
    (hcalls : ∀ t h, calls' t h → calls t h) (hfg : ∀ t, Extends (f t) (g t)) :
    ∀ (fields : List O) (h : Heap O), w.FieldCalls calls' g fields h →
      w.FieldCalls calls f fields h := by
  intro fields
  induction fields with
  | nil => exact fun h _ => trivial
  | cons field fields ih =>
    intro h hc type htype
    obtain ⟨hcall, hrest⟩ := hc type htype
    exact ⟨hcalls type h hcall, fun q h' hrun hbuf =>
      ih h' (hrest q h' (hfg type h _ h' hrun (ended_ok q)) hbuf)⟩

theorem allCalls_pred {P : Heap O → O → Prop} (n : Nat) : ∀ (t : O) (h : Heap O),
    w.AllCalls P (n + 1) t h → w.AllCalls P n t h := by
  induction n with
  | zero => exact fun _ _ _ => trivial
  | succ n ih =>
    intro t h ⟨hP, hcalls⟩
    exact ⟨hP, fun fields hb => fieldCalls_antitone ih (fun t => w.toFfiType_succ_extends n t)
      fields h (hcalls fields hb)⟩

theorem fieldCalls_le {P : Heap O → O → Prop} {n m : Nat} (hle : n ≤ m) {fields : List O}
    {h : Heap O} (hc : w.FieldCalls (w.AllCalls P m) (w.toFfiType m) fields h) :
    w.FieldCalls (w.AllCalls P n) (w.toFfiType n) fields h := by
  obtain ⟨k, rfl⟩ := Nat.exists_eq_add_of_le hle
  clear hle
  induction k with
  | zero => exact hc
  | succ k ih =>
    exact ih (fieldCalls_antitone (allCalls_pred (n + k))
      (fun t => w.toFfiType_succ_extends (n + k) t) fields h hc)

theorem elementPointers_complete {n e : Nat} (he : e ≤ d)
    (hcall : ∀ t h res, h.Valid d → (∀ k, w.AllCalls (w.Clean S d) k t h) →
      w.resolve S h e n t = some res → ∃ k, Ended (w.toFfiType k t h).1) (fields : List O) :
    ∀ (h : Heap O) (x : Except Failure (List Shape)), h.Valid d →
      (∀ k, w.FieldCalls (w.AllCalls (w.Clean S d) k) (w.toFfiType k) fields h) →
      w.resolveFields (w.resolve S h e n) fields = some x →
      ∃ k, Ended (w.elementPointers (w.toFfiType k) fields h).1 := by
  induction fields with
  | nil => exact fun h x _ _ _ => ⟨0, ended_ok []⟩
  | cons field fields ih =>
    intro h x hvalid hcalls hx
    unfold World.elementPointers
    rcases helem : w.elementType field with ⟨_ | type, count⟩
    · exact ⟨0, ended_thrown .notAType⟩
    · rw [resolveFields_cons (by rw [helem])] at hx
      simp only
      have hcalls₁ : ∀ k, w.AllCalls (w.Clean S d) k type h :=
        fun k => (hcalls k type (by rw [helem])).1
      cases hres : w.resolve S h e n type with
      | none =>
        rw [hres] at hx
        cases hx
      | some res =>
        rw [hres] at hx
        obtain ⟨k, hk⟩ := hcall type h res hvalid hcalls₁ hres
        rcases hptr : w.toFfiType k type h with ⟨e | q, h₁⟩
        · rw [hptr] at hk
          refine ⟨k, ?_⟩
          rw [Js.bind_error hptr]
          exact hk.of_error
        · have hresult := toFfiType_same k type h _ h₁ hvalid (hcalls₁ k) hptr (ended_ok q)
          obtain rfl := Resolves.det ⟨n, hres⟩ (hresult.ok he)
          simp only at hx
          rw [shape_isBuffer] at hx
          by_cases hbuf : q.isBuffer = true
          · rw [if_pos hbuf] at hx
            obtain ⟨y, hy, _⟩ := Option.map_eq_some_iff.mp hx
            have hrest : ∀ j,
                w.FieldCalls (w.AllCalls (w.Clean S d) j) (w.toFfiType j) fields h₁ := by
              intro j
              refine fieldCalls_le (Nat.le_max_right k j) ?_
              exact (hcalls (max k j) type (by rw [helem])).2 q h₁
                (World.toFfiType_mono w (Nat.le_max_left k j) type h _ h₁ hptr (ended_ok q)) hbuf
            obtain ⟨j, hj⟩ := ih h₁ y hresult.valid hrest
              (resolveFields_mono (fun t r hr => hresult.same.forward e he n t r hr) hy)
            refine ⟨max k j, ?_⟩
            rw [Js.bind_ok (World.toFfiType_mono w (Nat.le_max_left k j) type h _ h₁ hptr
              (ended_ok q)), Js.bind_ok (checkBuffer_apply hbuf h₁)]
            rcases hels : w.elementPointers (w.toFfiType j) fields h₁ with ⟨e | es, h₂⟩
            · rw [hels] at hj
              rw [Js.bind_error (World.elementPointers_extends w
                (fun t => World.toFfiType_mono w (Nat.le_max_right k j) t) fields h₁ _ h₂ hels hj)]
              exact hj.of_error
            · rw [Js.bind_ok (World.elementPointers_extends w
                (fun t => World.toFfiType_mono w (Nat.le_max_right k j) t) fields h₁ _ h₂ hels
                (ended_ok es))]
              exact ended_ok _
          · refine ⟨k, ?_⟩
            rw [Js.bind_ok hptr, Js.bind_error (checkBuffer_throws hbuf h₁)]
            exact ended_thrown .notABuffer

theorem ended_outcome {α β : Type} {r : Except Stop α} (hend : Ended r) (view : α → β) :
    ∃ res, World.outcome view r = some res := by
  cases r with
  | ok a => exact ⟨_, rfl⟩
  | error e =>
    cases e with
    | running => exact absurd rfl hend
    | thrown e => exact ⟨_, rfl⟩

theorem toFfiType_complete (n : Nat) : ∀ e ≤ d, ∀ (t : O) (h : Heap O)
    (res : Except Failure Shape), h.Valid d → (∀ k, w.AllCalls (w.Clean S d) k t h) →
    w.resolve S h e n t = some res → ∃ k, Ended (w.toFfiType k t h).1 := by
  induction n with
  | zero => exact fun e _ t h res _ _ hres => by cases hres
  | succ n ih =>
    intro e he t h res hvalid hcalls hres
    rw [World.resolve] at hres
    cases hb : w.branch h t with
    | done x =>
      refine ⟨1, ?_⟩
      rw [World.toFfiType_succ, hb]
      cases x with
      | ok q => exact ended_ok q
      | error e => exact ended_thrown e
    | cString =>
      refine ⟨1, ?_⟩
      rw [World.toFfiType_succ, hb]
      exact ended_ok _
    | names =>
      refine ⟨1, fun hrunning => ?_⟩
      rw [World.toFfiType_succ, hb] at hrunning
      have hclean := (hcalls 1).1
      unfold World.Clean at hclean
      rw [hb] at hclean
      have hstop : (w.lookupNames (w.chain t) h).1 = .error .running := hrunning
      rcases hlook : w.lookupNames (w.chain t) h with ⟨r, h₁⟩
      obtain ⟨_, _, _, hout⟩ := lookupNames_same (w.chain t) h hvalid hclean hlook
      obtain rfl : r = .error .running := by rw [← hstop, hlook]
      cases hout e
    | struct fields =>
      rw [hb] at hres
      obtain ⟨x, hx, _⟩ := Option.map_eq_some_iff.mp hres
      have he' : e - 1 ≤ d := by omega
      obtain ⟨k, hk⟩ := elementPointers_complete he' (ih (e - 1) he') fields h x hvalid
        (fun k => (hcalls (k + 1)).2 fields hb) hx
      refine ⟨k + 1, ?_⟩
      rw [World.toFfiType_succ, hb, World.resume_struct]
      rcases hels : w.elementPointers (w.toFfiType k) fields h with ⟨e | es, h₁⟩
      · rw [hels] at hk
        rw [Js.bind_error hels]
        exact hk.of_error
      · rw [Js.bind_ok hels]
        exact ended_ok _

/-- **A call comes to what its type stands for**, and to nothing else. -/
theorem outcome_iff_resolves (hvalid : h.Valid d)
    (hclean : ∀ n, w.AllCalls (w.Clean S d) n t h) (res : Except Failure Shape) :
    w.Outcome S d h t res ↔ w.Resolves S h d t res := by
  have hout : ∀ n res, World.outcome (shape S (w.toFfiType n t h).2.made d)
      (w.toFfiType n t h).1 = some res → w.Resolves S h d t res := by
    intro n res hn
    have hend : Ended (w.toFfiType n t h).1 := fun he => by
      rw [he] at hn
      cases hn
    obtain ⟨res', hout, hres⟩ :=
      (toFfiType_same n t h _ _ hvalid (hclean n) rfl hend).resolves d le_rfl
    rw [hn] at hout
    rw [Option.some.inj hout]
    exact hres
  constructor
  · exact fun ⟨n, hn⟩ => hout n res hn
  · rintro ⟨n, hn⟩
    obtain ⟨k, hk⟩ := toFfiType_complete n d le_rfl t h res hvalid hclean hn
    obtain ⟨res', hres'⟩ := ended_outcome hk (shape S (w.toFfiType k t h).2.made d)
    rw [Resolves.det ⟨n, hn⟩ (hout k res' hres')]
    exact ⟨k, hres'⟩

/-! ### Calls that write nothing -/

theorem assign_same (hffi : h.ffiType t = some none) : h.assign t none = h := by
  have hfun : (h.assign t none).ffiType = h.ffiType := by
    funext o
    by_cases heq : o = t
    · rw [heq, assign_ffiType_self, hffi]
    · exact assign_ffiType_of_ne h heq none
  show { h with ffiType := (h.assign t none).ffiType } = h
  rw [hfun]

theorem lookupNames_quiet (chain : List O)
    (hquiet : ∀ cur ∈ chain, (w.read w.name cur).bind ffiTypes = none ∧ h.ffiType cur = some none) :
    (w.lookupNames chain h).2 = h := by
  induction chain with
  | nil => rfl
  | cons cur rest ih =>
    obtain ⟨hname, hffi⟩ := hquiet cur (.head _)
    rw [lookupNames_missing hname, assign_same hffi]
    exact ih fun c hc => hquiet c (.tail _ hc)

section

omit [DecidableEq O]

theorem elementPointers_quiet {calls : O → Heap O → Prop} {typeOf : O → Script O Ref}
    (hcall : ∀ t r h', calls t h → typeOf t h = (r, h') → Ended r → h' = h) (fields : List O)
    (hcalls : w.FieldCalls calls typeOf fields h) {r : Except Stop (List Ref)}
    (hrun : w.elementPointers typeOf fields h = (r, h')) (hend : Ended r) : h' = h := by
  induction fields generalizing r h' with
  | nil => exact (Prod.mk.inj hrun).2.symm
  | cons field fields ih =>
    cases World.fieldStep_of_run hrun with
    | noType htype => rfl
    | stops htype hptr => exact hcall _ _ _ (hcalls _ htype).1 hptr hend.of_error
    | notBuffer htype hptr => exact hcall _ _ _ (hcalls _ htype).1 hptr (ended_ok _)
    | goesOn htype hptr hbuf hrest =>
      obtain ⟨hcalls₁, hcallsRest⟩ := hcalls _ htype
      obtain rfl := hcall _ _ _ hcalls₁ hptr (ended_ok _)
      exact ih (hcallsRest _ _ hptr hbuf) hrest hend.of_map

theorem fieldCalls_and {calls calls' : O → Heap O → Prop} {typeOf : O → Script O Ref}
    {fields : List O} {h : Heap O} (hc : w.FieldCalls calls typeOf fields h)
    (hc' : w.FieldCalls calls' typeOf fields h) :
    w.FieldCalls (fun t h => calls t h ∧ calls' t h) typeOf fields h := by
  induction fields generalizing h with
  | nil => trivial
  | cons field fields ih =>
    intro type htype
    obtain ⟨hcall, hrest⟩ := hc type htype
    obtain ⟨hcall', hrest'⟩ := hc' type htype
    exact ⟨⟨hcall, hcall'⟩, fun q h' hrun hbuf => ih (hrest q h' hrun hbuf) (hrest' q h' hrun hbuf)⟩

end

theorem toFfiType_quiet (hvalid : h.Valid d) (n : Nat) : ∀ t r h',
    w.AllCalls (w.Clean S d) n t h → w.AllCalls (w.Quiet S d) n t h → w.toFfiType n t h = (r, h') →
    Ended r → h' = h := by
  induction n with
  | zero => exact fun t r h' _ _ hrun _ => (Prod.mk.inj hrun).2.symm
  | succ n ih =>
    intro t r h' hclean hquiet hrun hend
    have hresult := toFfiType_same (n + 1) t h r h' hvalid hclean hrun hend
    obtain ⟨hq, hqcalls⟩ := hquiet
    rw [World.toFfiType_succ] at hrun
    unfold World.Quiet at hq
    cases hb : w.branch h t with
    | done x =>
      rw [hb] at hrun
      exact (Prod.mk.inj hrun).2.symm
    | cString =>
      rw [hb] at hq
      exact hq.elim
    | names =>
      rw [hb] at hq hrun
      have hsame := lookupNames_quiet (w.chain t) hq
      rwa [show w.lookupNames (w.chain t) h = (r, h') from hrun] at hsame
    | struct fields =>
      rw [hb] at hq hrun
      obtain ⟨e, he⟩ := hq
      rcases World.struct_cases hrun with ⟨e', rfl, hels⟩ | ⟨es, h₁, hels, rfl, rfl⟩
      · exact elementPointers_quiet
          (fun t r h' (hc : w.AllCalls (w.Clean S d) n t h ∧ w.AllCalls (w.Quiet S d) n t h) =>
            ih t r h' hc.1 hc.2) fields (fieldCalls_and (hclean.2 fields hb) (hqcalls fields hb))
          hels hend.of_error
      · -- the structure would be complete
        cases Resolves.det he (hresult.ok le_rfl)

/-! ### Histories -/

theorem calls_same (hvalid : h.Valid d) (hrun : w.Calls S d h h') :
    h'.Valid d ∧ Same w S d h h' := by
  induction hrun with
  | refl => exact ⟨hvalid, .refl⟩
  | call _ hgood hstep hend ih =>
    obtain ⟨hvalid₁, hsame⟩ := ih
    have hresult := toFfiType_same _ _ _ _ _ hvalid₁ (hgood.clean _) hstep hend
    exact ⟨hresult.valid, hsame.trans hresult.same⟩

/-- **Where only what suits is written, `Type` has no history**: a call comes to the same before
and after any number of other calls, down to any depth, and one that cannot determine the type
leaves everything as it was. -/
theorem history_independent (d : Nat) (hvalid : h.Valid d) (hrun : w.Calls S d h h')
    (hgood : w.Good S d h t) (hgood' : w.Good S d h' t) :
    (∀ res, w.Outcome S d h t res ↔ w.Outcome S d h' t res) ∧
      ∀ n h'', w.toFfiType n t h' = (.error (.thrown .undetermined), h'') → h'' = h' := by
  obtain ⟨hvalid', hsame⟩ := calls_same hvalid hrun
  constructor
  · intro res
    rw [outcome_iff_resolves hvalid hgood.clean, outcome_iff_resolves hvalid' hgood'.clean]
    exact hsame.resolves t res
  · intro n h'' hstep
    have hres : w.Resolves S h' d t (.error .undetermined) :=
      (toFfiType_same n t h' _ _ hvalid' (hgood'.clean n) hstep
        (ended_thrown .undetermined)).error le_rfl
    exact toFfiType_quiet hvalid' n t _ _ (hgood'.clean n) (hgood'.quiet hres n) hstep
      (ended_thrown .undetermined)

/-! ### The types of `ref` -/

/-- The types after `ffi.js`. -/
def refSetUp : Heap RefObject := (refModule .lp64).setUp refHeap

/-- **Two copies change the types that they are copies of**: `size_t` is a pointer before the call
for a copy of it and an integer afterwards, and the call for a copy of `Object` throws and has
written to `Object` by then. -/
theorem history_dependent :
    ((refWorld .lp64).Outcome (staticTypes .lp64 8) 0 refSetUp (.type (.builtin .sizeT))
        (.ok (.ffiType 8 8 14 none)) ∧
      ¬ (refWorld .lp64).Outcome (staticTypes .lp64 8) 0
        ((refWorld .lp64).toFfiType 1 (.copy (.builtin .sizeT)) refSetUp).2
        (.type (.builtin .sizeT)) (.ok (.ffiType 8 8 14 none))) ∧
      ((refWorld .lp64).toFfiType 1 (.copy (.builtin .object)) refSetUp).1 =
          .error (.thrown .undetermined) ∧
        ((refWorld .lp64).toFfiType 1 (.copy (.builtin .object)) refSetUp).2.ffiType
            (.type (.builtin .object)) = some none ∧
        refSetUp.ffiType (.type (.builtin .object)) = some (some Ref.pointer) := by
  refine ⟨⟨⟨1, rfl⟩, ?_⟩, rfl, rfl, rfl⟩
  rintro ⟨n, hn⟩
  cases n with
  | zero => cases hn
  | succ n =>
    have hresult : ((refWorld .lp64).toFfiType (n + 1) (.type (.builtin .sizeT))
        ((refWorld .lp64).toFfiType 1 (.copy (.builtin .sizeT)) refSetUp).2).1 =
          .ok (.ffiTypes .uint64) := rfl
    rw [hresult] at hn
    have hsame : Shape.ffiType 8 8 11 none = .ffiType 8 8 14 none :=
      Except.ok.inj (Option.some.inj hn)
    exact absurd (Shape.ffiType.inj hsame).2.2.1 (by decide)

theorem allCalls_of_not_struct {P : Heap O → O → Prop} (hP : P h t)
    (hb : ∀ fields, w.branch h t ≠ .struct fields) (n : Nat) : w.AllCalls P n t h := by
  cases n with
  | zero => trivial
  | succ n => exact ⟨hP, fun fields hs => absurd hs (hb fields)⟩

/-- `0` is `int`, `1` a copy of it without its `ffi_type`, `2` a structure of both, and `3` has a
name that is not in the table. -/
def copies : World Nat where
  proto o := if o = 1 then some 0 else none
  depth o := if o = 1 then 1 else 0
  proto_depth o p h := by
    split at h
    · cases h
      simp_all
    · cases h
  indirection _ := some 1
  name o := if o = 0 then some "int" else if o = 3 then some "mystery" else none
  type _ := none
  fixedLength _ := none

def copiesHeap : Heap Nat where
  fields o := if o = 2 then some [1, 0] else none
  ffiType o :=
    if o = 0 then some (some (.ffiTypes .int)) else if o = 1 ∨ o = 3 then some none else none
  made := []

theorem reader_copies {h : Heap Nat} {c o : Nat} (hc : c ≠ 0) (hr : copies.Reader h c o) :
    o = c := by
  induction hr with
  | self => rfl
  | @derived o p hproto _ _ _ ih =>
    subst ih
    have hp : (if o = 1 then some 0 else none) = some p := hproto
    split at hp
    · exact absurd (Option.some.inj hp).symm hc
    · cases hp

theorem mystery_undetermined : copies.toFfiType 1 3 copiesHeap =
    (.error (.thrown .undetermined), copiesHeap) :=
  Prod.ext rfl (assign_same rfl)

theorem good_mystery : copies.Good (staticTypes .lp64 8) 1 copiesHeap 3 where
  clean := by
    refine allCalls_of_not_struct ⟨?_, fun _ => trivial⟩ fun _ hs => by cases hs
    intro o hr _
    obtain rfl := reader_copies (by decide) hr
    trivial
  quiet _ := by
    refine allCalls_of_not_struct ?_ fun _ hs => by cases hs
    intro cur hcur
    obtain rfl : cur = 3 := List.mem_singleton.mp hcur
    exact ⟨rfl, rfl⟩

theorem good_struct : copies.Good (staticTypes .lp64 8) 1 copiesHeap 2 where
  clean n := by
    cases n with
    | zero => trivial
    | succ n =>
      refine ⟨?_, ?_⟩
      · intro o hr _
        obtain rfl := reader_copies (by decide) hr
        exact ⟨rfl, rfl⟩
      · intro fields hfields
        obtain rfl : [1, 0] = fields := World.Branch.struct.inj hfields
        -- the copy is looked up, and gets the `ffi_type` of `int`
        intro type htype
        obtain rfl : 1 = type := Option.some.inj htype
        have hcopy : copies.Clean (staticTypes .lp64 8) 1 copiesHeap 1 := by
          refine ⟨?_, fun hname => by cases hname⟩
          intro o hr _
          obtain rfl := reader_copies (by decide) hr
          exact ⟨.ffiTypes .int, rfl, rfl⟩
        refine ⟨allCalls_of_not_struct hcopy (fun _ hs => by cases hs) n, ?_⟩
        intro q h' hrun _ type htype
        obtain rfl : 0 = type := Option.some.inj htype
        cases n with
        | zero => cases hrun
        | succ n =>
          obtain rfl := (Prod.mk.inj hrun).2
          exact ⟨allCalls_of_not_struct trivial (fun _ hs => by cases hs) _, fun _ _ _ _ => trivial⟩
  quiet hres := by
    have hstruct : copies.resolve (staticTypes .lp64 8) copiesHeap 1 2 2 = some (.ok (.struct 1
      [.ffiType 4 4 10 none, .ffiType 4 4 10 none])) := rfl
    cases Resolves.det ⟨2, hstruct⟩ hres

/-- What the call for the structure leaves, which has also written to the copy. -/
def copiesBuilt : Heap Nat := (copies.toFfiType 2 2 copiesHeap).2

theorem good_struct_again : copies.Good (staticTypes .lp64 8) 1 copiesBuilt 2 where
  clean := allCalls_of_not_struct trivial fun _ hs => by cases hs
  quiet _ := allCalls_of_not_struct trivial fun _ hs => by cases hs

theorem valid_copies : copiesHeap.Valid 1 where
  made_lt o n hn := by
    have hnone : copiesHeap.ffiType o ≠ some (some (.made n)) := by
      simp only [copiesHeap]
      split
      · simp
      · split <;> simp
    exact absurd hn hnone
  closed _ n es hes := by cases hes

theorem history_independent_copies :
    (∀ res, copies.Outcome (staticTypes .lp64 8) 1 copiesHeap 2 res ↔
        copies.Outcome (staticTypes .lp64 8) 1 copiesBuilt 2 res) ∧
      ∀ n h'', copies.toFfiType n 2 copiesBuilt = (.error (.thrown .undetermined), h'') →
        h'' = copiesBuilt :=
  history_independent 1 valid_copies
    (.call (.call .refl good_mystery mystery_undetermined (ended_thrown .undetermined)) good_struct
      (Prod.ext rfl rfl) (ended_ok _))
    good_struct good_struct_again

end NodeFfi.Resolve
