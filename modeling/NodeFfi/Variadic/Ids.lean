import NodeFfi.Variadic.Model

/-!
# Ids

An id is five hexadecimal digits, so a key determines the ids it was joined from, and two types have
the same id exactly when the numbers made from their random numbers are the same. A type object
keeps its id, and never shows the one it inherits.
-/

namespace NodeFfi.Variadic

open Js NodeFfi.Types Libffi Memo

/-! ### Numbers -/

theorem le_roundEven {q : ℚ} {n : Nat} (h : (n : ℚ) ≤ q) : n ≤ roundEven q := by
  have hfloor : n ≤ ⌊q⌋₊ := Nat.le_floor h
  unfold roundEven
  simp only
  split
  · exact hfloor
  · split <;> omega

theorem roundEven_le {q : ℚ} {n : Nat} (hq : 0 ≤ q) (h : q < n) : roundEven q ≤ n := by
  have hfloor : ⌊q⌋₊ < n := (Nat.floor_lt hq).mpr h
  unfold roundEven
  simp only
  split
  · omega
  · split <;> omega

theorem Draw.number_bounds (x : Draw) : 16 ^ 4 ≤ x.number ∧ x.number ≤ 2 * 16 ^ 4 := by
  have h0 := x.nonneg
  have h1 := x.lt_one
  have hlower : 2 ^ 52 ≤ roundEven ((1 + x.value) * 2 ^ 52) := by
    apply le_roundEven
    push_cast
    linarith
  have hupper : roundEven ((1 + x.value) * 2 ^ 52) ≤ 2 ^ 53 := by
    apply roundEven_le
    · positivity
    · push_cast
      linarith
  unfold Draw.number
  omega

theorem Id.length_text (id : Id) : id.text.length = 5 := by
  have := id.random.number_bounds
  rw [id.text_eq]
  exact length_toDigits (by omega) (by omega) this.1 (by omega)

theorem Id.text_eq_iff (id id' : Id) :
    id.text = id'.text ↔ id.random.number = id'.random.number := by
  rw [id.text_eq, id'.text_eq]
  exact ⟨toDigits_inj (by omega) (by omega), fun h => by rw [h]⟩

/-- Ids as a code. -/
def idCode : BlockCode Id Char where
  word := Id.text
  width := 5
  width_pos := by omega
  length_word := Id.length_text

theorem join_some (ids : List Id) : Runtime.join (ids.map some) = idCode.encode ids := by
  unfold Runtime.join BlockCode.encode
  rw [List.flatMap_map]
  rfl

namespace State

variable {T : Type}

/-- The number in the own id of a type. -/
def number (st : State T) (type : T) : Option Nat := (st.ffiId type).map fun id => id.random.number

/-- All of these types have an id. -/
def Identified (st : State T) (types : List T) : Prop := ∀ type ∈ types, (st.ffiId type).isSome

theorem identified_cons {st : State T} {type : T} {types : List T} :
    st.Identified (type :: types) ↔ (st.ffiId type).isSome ∧ st.Identified types :=
  List.forall_mem_cons

theorem identified_append {st : State T} {types types' : List T} :
    st.Identified (types ++ types') ↔ st.Identified types ∧ st.Identified types' :=
  List.forall_mem_append

/-- The ids of these types joined together. -/
def key (st : State T) (types : List T) : List Char := Runtime.join (types.map st.ffiId)

theorem Identified.exists_ids {st : State T} {types : List T} (h : st.Identified types) :
    ∃ ids : List Id, types.map st.ffiId = ids.map some := by
  induction types with
  | nil => exact ⟨[], rfl⟩
  | cons type types ih =>
    obtain ⟨hsome, hrest⟩ := identified_cons.mp h
    obtain ⟨ids, hids⟩ := ih hrest
    obtain ⟨id, hid⟩ := Option.isSome_iff_exists.mp hsome
    refine ⟨id :: ids, ?_⟩
    rw [List.map_cons, List.map_cons, hid, hids]

/-- **Keys are equal exactly when the types have the same numbers, one by one.** -/
theorem key_eq_iff {st : State T} {types types' : List T} (h : st.Identified types)
    (h' : st.Identified types') :
    st.key types = st.key types' ↔ types.map st.number = types'.map st.number := by
  obtain ⟨ids, hids⟩ := h.exists_ids
  obtain ⟨ids', hids'⟩ := h'.exists_ids
  have hnumber : ∀ {types : List T} {ids : List Id}, types.map st.ffiId = ids.map some →
      types.map st.number = (ids.map fun id => id.random.number).map some := by
    intro types ids heq
    have := congrArg (List.map (Option.map fun id : Id => id.random.number)) heq
    rw [List.map_map, List.map_map] at this
    rw [List.map_map]
    exact this
  unfold key
  rw [hids, hids', join_some, join_some, BlockCode.encode_eq_iff, hnumber hids, hnumber hids',
    (List.map_injective_iff.mpr (Option.some_injective _)).eq_iff]
  -- word by word
  have hiff : ∀ l l' : List Id, l.map Id.text = l'.map Id.text ↔
      (l.map fun id => id.random.number) = l'.map fun id => id.random.number := by
    intro l
    induction l with
    | nil => intro l'; cases l' <;> simp
    | cons id l ih =>
      intro l'
      cases l' with
      | nil => simp
      | cons id' l' =>
        rw [List.map_cons, List.map_cons, List.map_cons, List.map_cons, List.cons.injEq,
          List.cons.injEq, id.text_eq_iff, ih]
  exact hiff ids ids'

end State

/-! ### What calls leave alone -/

/-- Types keep their ids, and the generator its cache and its property. -/
structure Grows {T : Type} (st st' : State T) : Prop where
  ffiId : ∀ type id, st.ffiId type = some id → st'.ffiId type = some id
  returnType : st'.returnType = st.returnType
  cache : st'.cache = st.cache
  made : st'.made = st.made

namespace Grows

variable {T : Type} {st st' st'' : State T}

theorem refl (st : State T) : Grows st st := ⟨fun _ _ h => h, rfl, rfl, rfl⟩

theorem trans (h : Grows st st') (h' : Grows st' st'') : Grows st st'' where
  ffiId type id hid := h'.ffiId type id (h.ffiId type id hid)
  returnType := h'.returnType.trans h.returnType
  cache := h'.cache.trans h.cache
  made := h'.made.trans h.made

theorem ffiId_eq (h : Grows st st') {type : T} (hid : (st.ffiId type).isSome) :
    st'.ffiId type = st.ffiId type := by
  obtain ⟨id, hid⟩ := Option.isSome_iff_exists.mp hid
  rw [h.ffiId type id hid, hid]

theorem map_ffiId_eq (h : Grows st st') {types : List T} (hids : st.Identified types) :
    types.map st'.ffiId = types.map st.ffiId :=
  List.map_congr_left fun type htype => h.ffiId_eq (hids type htype)

theorem key_eq (h : Grows st st') {types : List T} (hids : st.Identified types) :
    st'.key types = st.key types := by
  unfold State.key
  rw [h.map_ffiId_eq hids]

theorem identified (h : Grows st st') {types : List T} (hids : st.Identified types) :
    st'.Identified types := by
  intro type htype
  rw [h.ffiId_eq (hids type htype)]
  exact hids type htype

end Grows

/-- A script after which types keep their ids, however it ends. -/
def Steady {T α : Type} (x : Script T α) : Prop := ∀ st, Grows st (x st).2

section steady

variable {T α β : Type}

theorem Steady.bind {x : Script T α} {f : α → Script T β} (hx : Steady x)
    (hf : ∀ a, Steady (f a)) : Steady (x >>= f) := by
  intro st
  have h := hx st
  rcases heq : x st with ⟨e | a, st'⟩
  · rw [heq] at h
    rw [Js.bind_error heq]
    exact h
  · rw [heq] at h
    rw [Js.bind_ok heq]
    exact h.trans (hf a st')

theorem Steady.of_ok {x : Script T α} (hx : Steady x) {st st' : State T} {r : Except String α}
    (h : x st = (r, st')) : Grows st st' := by
  have := hx st
  rw [h] at this
  exact this

theorem steady_pure (a : α) : Steady (pure a : Script T α) := fun st => Grows.refl st

theorem steady_throw (e : String) : Steady (Js.throw e : Script T α) := fun st => Grows.refl st

theorem steady_ofExcept (r : Except String α) : Steady (Js.ofExcept r : Script T α) :=
  fun st => Grows.refl st

theorem steady_read (f : State T → α) : Steady (Js.step fun st => (f st, st) : Script T α) :=
  fun st => Grows.refl st

end steady

namespace Runtime

variable {T : Type} (rt : Runtime T)

theorem steady_assert (b : Bool) (message : String) : Steady (assert b message : Script T Unit) := by
  unfold assert
  split
  · exact steady_pure ()
  · exact steady_throw message

theorem of_assert_ok {b : Bool} {message : String} {st st' : State T} {u : Unit}
    (h : (assert b message : Script T Unit) st = (.ok u, st')) : b = true ∧ st' = st := by
  unfold assert at h
  split at h
  · cases h
    exact ⟨‹_›, rfl⟩
  · cases h

theorem steady_coerceType (arg : TypeArg T) : Steady (rt.coerceType arg) := by
  cases arg with
  | type t => exact steady_pure t
  | text s => exact fun st => ⟨fun _ _ h => h, rfl, rfl, rfl⟩

theorem steady_toFfiType (arg : TypeArg T) : Steady (rt.toFfiType arg) :=
  (rt.steady_coerceType arg).bind fun _ => steady_ofExcept _

theorem steady_toFfiTypes (types : List T) : Steady (rt.toFfiTypes types) := by
  induction types with
  | nil => exact steady_pure []
  | cons type types ih =>
    apply (rt.steady_toFfiType _).bind
    intro ffiType
    exact ih.bind fun _ => steady_pure _

variable [DecidableEq T]

theorem getId_spec (type : T) (st : State T) :
    ∃ id st', rt.getId type st = (.ok (some id), st') ∧ st'.ffiId type = some id ∧
      Grows st st' := by
  have hread : ∀ {st' : State T} {id : Id}, st'.ffiId type = some id →
      rt.readId st' type = some id := by
    intro st' id h
    unfold readId
    rw [List.findSome?_cons, h]
  rcases hid : st.ffiId type with _ | id
  · have hown : (rt.assignId type st).ffiId type = some (Id.ofRandom (rt.random st.randoms)) :=
      Function.update_self _ _ _
    refine ⟨Id.ofRandom (rt.random st.randoms), rt.assignId type st, ?_, hown, ?_, rfl, rfl, rfl⟩
    · have hif : (if (st.ffiId type).isNone then rt.assignId type st else st) =
          rt.assignId type st := by rw [hid]; rfl
      unfold getId
      rw [Js.bind_ok (Js.modify_apply _ st), hif, Js.step_apply, hread hown]
    · intro t id hidt
      have hne : t ≠ type := by
        rintro rfl
        rw [hid] at hidt
        cases hidt
      exact (Function.update_of_ne hne _ _).trans hidt
  · refine ⟨id, st, ?_, hid, Grows.refl st⟩
    have hif : (if (st.ffiId type).isNone then rt.assignId type st else st) = st := by
      rw [hid]; rfl
    unfold getId
    rw [Js.bind_ok (Js.modify_apply _ st), hif, Js.step_apply, hread hid]

theorem steady_getId (type : T) : Steady (rt.getId type) := by
  intro st
  obtain ⟨id, st', heq, _, hgrows⟩ := rt.getId_spec type st
  rw [heq]
  exact hgrows

theorem of_getId_ok {type : T} {st st' : State T} {id : Option Id}
    (h : rt.getId type st = (.ok id, st')) :
    id = st'.ffiId type ∧ (st'.ffiId type).isSome ∧ Grows st st' := by
  obtain ⟨id', st'', heq, hown, hgrows⟩ := rt.getId_spec type st
  rw [heq] at h
  cases h
  exact ⟨hown.symm, by rw [hown]; rfl, hgrows⟩

end Runtime

end NodeFfi.Variadic
