import NodeFfi.Marshal.Callback

/-!
# Conversions

What `ref.get`, `ref.set` and `ref.alloc` do with a Buffer inside its block, as functions on bytes,
and the two loops over an array of pointers: `setArguments` fills one whose targets hold the
encoded values, `readArguments` and `getArguments` read such a one back.
-/

namespace NodeFfi.Marshal

open Js Blocks Blocks.Memory

variable {E W : Type}

section codec

variable [Objects E]

/-- What `ref.set` leaves in place of the bytes of a value. -/
def RefType.overwrite (type : RefType E) (value : Val E) (old : List Byte) :
    Except (Val E) (List Byte) :=
  if type.indirection = 1 then
    (type.set value old).map fun bytes => overlay old 0 (bytes.take type.size)
  else (toPointer value).map encodePtr

/-- The contents of the Buffer that `ref.alloc(type, value)` makes. -/
def RefType.encode (type : RefType E) (value : Val E) : Except (Val E) (List Byte) :=
  type.overwrite value (List.replicate type.cSize .poison)

/-- What `ref.get` makes of the bytes of a value. -/
def RefType.decode (type : RefType E) (bytes : List Byte) : Except (Val E) (Val E) :=
  if type.indirection = 1 then type.get bytes else .ok (.object (.buffer (decodePtr bytes)))

theorem RefType.length_overwrite {type : RefType E} {value : Val E} {old bytes : List Byte}
    (hold : old.length = type.cSize) (h : type.overwrite value old = .ok bytes) :
    bytes.length = type.cSize := by
  unfold overwrite at h
  unfold cSize at hold ⊢
  split at h
  · rename_i hind
    rw [if_pos hind] at hold ⊢
    cases hset : type.set value old with
    | error e => rw [hset] at h; cases h
    | ok bs =>
      rw [hset] at h
      cases h
      rw [length_overlay, hold]
      rw [hold, List.length_take]
      omega
  · rename_i hind
    rw [if_neg hind]
    cases hp : toPointer value with
    | error e => rw [hp] at h; cases h
    | ok p =>
      rw [hp] at h
      cases h
      exact length_encodePtr p

theorem RefType.length_encode {type : RefType E} {value : Val E} {bytes : List Byte}
    (h : type.encode value = .ok bytes) : bytes.length = type.cSize :=
  length_overwrite (List.length_replicate ..) h

end codec

section accesses

variable [Objects E] {m : Machine E W} {b : Nat} {length : Nat} {type : RefType E}

theorem refGet_eq {bytes post : List Byte} (hb : b < m.memory.next)
    (hblock : m.memory.blocks b = bytes ++ post) (hlen : bytes.length = type.cSize)
    (hbuffer : type.indirection = 1 → type.size ≤ length) :
    refGet ⟨.block b, length⟩ type m = (type.decode bytes, m) := by
  have hread : m.memory.read (.block b) 0 type.cSize = (bytes, m.memory) := by
    rw [← hlen]
    exact read_middle [] hb hblock
  unfold RefType.cSize at hread
  unfold refGet RefType.decode
  by_cases hind : type.indirection = 1
  · have hsize : ¬ length < type.size := Nat.not_lt.mpr (hbuffer hind)
    rw [if_pos hind] at hread
    rw [if_pos hind, if_pos hind, if_neg hsize, Js.bind_ok (readBytes_eq hread)]
    rfl
  · rw [if_neg hind] at hread
    have hp : m.memory.readPointer (.block b) 0 = (decodePtr bytes, m.memory) := by
      unfold Memory.readPointer
      rw [hread]
    rw [if_neg hind, if_neg hind, Js.bind_ok (readPointer_eq hp)]
    rfl

theorem refSet_eq {value : Val E} {old post : List Byte} (hb : b < m.memory.next)
    (hblock : m.memory.blocks b = old ++ post) (hlen : old.length = type.cSize)
    (hbuffer : type.indirection = 1 → type.size ≤ length) :
    refSet ⟨.block b, length⟩ value type m =
      match type.overwrite value old with
      | .ok bytes => (.ok (), m.setMemory (m.memory.setBlock b (bytes ++ post)))
      | .error e => (.error e, m) := by
  unfold RefType.cSize at hlen
  unfold refSet RefType.overwrite
  by_cases hind : type.indirection = 1
  · have hsize : ¬ length < type.size := Nat.not_lt.mpr (hbuffer hind)
    rw [if_pos hind] at hlen
    rw [if_pos hind, if_pos hind, if_neg hsize]
    have hread : m.memory.read (.block b) 0 type.size = (old, m.memory) := by
      rw [← hlen]
      exact read_middle [] hb hblock
    rw [Js.bind_ok (readBytes_eq hread)]
    cases hset : type.set value old with
    | error e =>
      rw [Js.bind_error (Js.ofExcept_apply _ _)]
      rfl
    | ok bytes =>
      rw [Js.bind_ok (Js.ofExcept_apply _ _)]
      apply writeBytes_eq
      apply write_front hb hblock
      rw [List.length_take, hlen]
      omega
  · rw [if_neg hind] at hlen
    rw [if_neg hind, if_neg hind]
    cases hp : toPointer value with
    | error e =>
      rw [Js.bind_error (Js.ofExcept_apply _ _)]
      rfl
    | ok p =>
      rw [Js.bind_ok (Js.ofExcept_apply _ _)]
      apply writePointer_eq
      exact writePointer_middle [] hb hblock hlen

theorem refAlloc_eq (type : RefType E) (value : Val E) (m : Machine E W) :
    refAlloc type value m =
      match type.encode value with
      | .ok bytes => (.ok ⟨.block m.memory.next, type.cSize⟩, m.setMemory (m.memory.place bytes))
      | .error e =>
        (.error e, m.setMemory (m.memory.place (List.replicate type.cSize .poison))) := by
  have hblock : (m.memory.place (List.replicate type.cSize .poison)).blocks m.memory.next =
      List.replicate type.cSize .poison ++ [] := by simp
  have hset : refSet ⟨.block m.memory.next, type.cSize⟩ value type
      (m.setMemory (m.memory.place (List.replicate type.cSize .poison))) = _ :=
    refSet_eq (Nat.lt_succ_self _) hblock (List.length_replicate ..)
      (by intro hind; simp [RefType.cSize, hind])
  unfold refAlloc
  rw [Js.bind_ok (newBuffer_eq _)]
  unfold RefType.encode
  cases henc : type.overwrite value (List.replicate type.cSize .poison) with
  | error e =>
    rw [henc] at hset
    rw [Js.bind_error hset]
  | ok bytes =>
    rw [henc] at hset
    rw [Js.bind_ok hset]
    simp [Machine.setMemory]

end accesses

/-! ### The loops -/

section loops

variable [Objects E]

/-- The values encoded, up to the first that is refused, with its number. -/
def encodeAll : Nat → List (RefType E) → List (Val E) → Except (Nat × Val E) (List (List Byte))
  | i, type :: types, value :: values =>
    match type.encode value with
    | .error e => .error (i, e)
    | .ok bytes => (encodeAll (i + 1) types values).map (bytes :: ·)
  | _, _, _ => .ok []

/-- The values decoded. -/
def decodeAll : List (RefType E) → List (List Byte) → Except (Val E) (List (Val E))
  | type :: types, bytes :: bss =>
    match type.decode bytes with
    | .error e => .error e
    | .ok value => (decodeAll types bss).map (value :: ·)
  | _, _ => .ok []

/-- **`setArguments` fills the array that it is given and touches no other block.** -/
theorem setArguments_spec {a length : Nat} : ∀ (types : List (RefType E)) (values : List (Val E))
    (done : List Nat) (rest : List Byte) (m : Machine E W),
    values.length = types.length → a < m.memory.next →
    m.memory.blocks a = pointers done ++ rest → rest.length = types.length * pointerSize →
    ∃ mem, setArguments ⟨.block a, length⟩ done.length types values m =
        ((encodeAll done.length types values).map fun _ => (), m.setMemory mem) ∧
      Keeps (· = a) m.memory mem ∧
      ∀ bss, encodeAll done.length types values = .ok bss →
        ∃ ps, mem.blocks a = pointers (done ++ ps) ∧ (∀ p ∈ ps, m.memory.next ≤ p) ∧
          mem.Holds ps bss := by
  intro types
  induction types with
  | nil =>
    intro values done rest m hvalues ha hblock hrest
    obtain rfl : values = [] := List.eq_nil_of_length_eq_zero hvalues
    obtain rfl : rest = [] := List.eq_nil_of_length_eq_zero (by simpa using hrest)
    refine ⟨m.memory, rfl, Keeps.refl _ _, ?_⟩
    intro bss hbss
    cases hbss
    exact ⟨[], by simpa using hblock, by simp, .nil⟩
  | cons type types ih =>
    intro values done rest m hvalues ha hblock hrest
    obtain ⟨value, values, rfl⟩ := List.exists_cons_of_length_eq_add_one hvalues
    have halloc := refAlloc_eq type value m
    unfold setArguments encodeAll
    cases henc : type.encode value with
    | error e =>
      rw [henc] at halloc
      have hrun : Js.tryCatch (refAlloc type value) (fun e => Js.throw (done.length, e)) m =
          (.error (done.length, e), _) := Js.tryCatch_error halloc
      exact ⟨_, Js.bind_error hrun, keeps_place _ _ _, by simp⟩
    | ok bytes =>
      rw [henc] at halloc
      obtain ⟨mem, hrun, hkeeps, hholds⟩ := ih values (done ++ [m.memory.next])
        (rest.drop pointerSize) (m.setMemory (m.memory.addTarget a done rest bytes))
        (Nat.succ.inj hvalues) (lt_addTarget ha) addTarget_array (length_drop_pointer hrest)
      rw [List.length_append, List.length_singleton] at hrun hholds
      rw [Js.bind_ok (Js.tryCatch_ok halloc),
        Js.bind_ok (writePointer_eq (writePointer_place ha hblock hrest))]
      refine ⟨mem, hrun.trans ?_, keeps_addTarget.trans hkeeps, ?_⟩
      · cases encodeAll (done.length + 1) types values <;> rfl
      · intro bss hbss
        cases hrest' : encodeAll (done.length + 1) types values with
        | error e => rw [hrest'] at hbss; cases hbss
        | ok bss' =>
          rw [hrest'] at hbss
          cases hbss
          obtain ⟨ps, hps, hnew, htargets⟩ := hholds bss' hrest'
          refine ⟨m.memory.next :: ps, ?_, ?_, holds_addTarget ha hkeeps htargets⟩
          · rw [hps, ← List.append_cons]
          · intro p hp
            rcases List.mem_cons.mp hp with rfl | hp
            · exact Nat.le_refl _
            · exact Nat.le_of_lt (hnew p hp)

omit [Objects E] in
theorem readArguments_eq {ε : Type} {a : Nat} {m : Machine E W} (ha : a < m.memory.next) :
    ∀ {ps : List Nat} {bss : List (List Byte)} (done : List Nat), m.memory.Holds ps bss →
    m.memory.blocks a = pointers (done ++ ps) →
    (readArguments (.block a) done.length (bss.map List.length) : Js (Machine E W) ε _) m =
      (.ok bss, m) := by
  intro ps bss done h
  induction h generalizing done with
  | nil =>
    intro _
    rfl
  | @cons p bytes ps bss hp _ ih =>
    intro harray
    have hptr := readPointer_pointers ha harray
    have hread : m.memory.read (.block p) 0 bytes.length = (bytes, m.memory) :=
      read_middle [] hp.1 (hp.2.trans (List.append_nil bytes).symm)
    have hrest := ih (done ++ [p]) (by rw [harray, List.append_cons])
    rw [List.length_append, List.length_singleton] at hrest
    rw [List.map_cons]
    unfold readArguments
    rw [Js.bind_ok (readPointer_eq hptr), Js.bind_ok (readBytes_eq hread), Js.bind_ok hrest]
    rfl

theorem getArguments_eq {a length : Nat} {m : Machine E W} (ha : a < m.memory.next) :
    ∀ {ps : List Nat} {bss : List (List Byte)} (types : List (RefType E)) (done : List Nat),
    m.memory.Holds ps bss → bss.map List.length = types.map RefType.cSize →
    m.memory.blocks a = pointers (done ++ ps) →
    getArguments ⟨.block a, length⟩ done.length types m = (decodeAll types bss, m) := by
  intro ps bss types done h
  induction h generalizing types done with
  | nil =>
    intro hlen _
    obtain rfl : types = [] := List.map_eq_nil_iff.mp hlen.symm
    rfl
  | @cons p bytes ps bss hp _ ih =>
    intro hlen harray
    cases types with
    | nil => cases hlen
    | cons type types =>
      have hptr := readPointer_pointers ha harray
      have hlen' : bytes.length = type.cSize := (List.cons.inj hlen).1
      have hget : refGet ⟨.block p, type.size⟩ type m = (type.decode bytes, m) :=
        refGet_eq hp.1 (hp.2.trans (List.append_nil bytes).symm) hlen' fun _ => Nat.le_refl _
      have hrest := ih types (done ++ [p]) (List.cons.inj hlen).2 (by rw [harray, List.append_cons])
      rw [List.length_append, List.length_singleton] at hrest
      unfold getArguments decodeAll
      rw [Js.bind_ok (readPointer_eq hptr)]
      cases hdec : type.decode bytes with
      | error e =>
        rw [hdec] at hget
        exact Js.bind_error hget
      | ok value =>
        rw [hdec] at hget
        rw [Js.bind_ok hget]
        cases hall : decodeAll types bss with
        | error e =>
          rw [hall] at hrest
          exact Js.bind_error hrest
        | ok values =>
          rw [hall] at hrest
          exact Js.bind_ok hrest

omit [Objects E] in
theorem copyArguments_spec {ε : Type} {a : Nat} (length : Nat) : ∀ (bss : List (List Byte))
    (done : List Nat) (rest : List Byte) (m : Machine E W), a < m.memory.next →
    m.memory.blocks a = pointers done ++ rest → rest.length = bss.length * pointerSize →
    ∃ mem ps, (copyArguments ⟨.block a, length⟩ done.length bss : Js (Machine E W) ε _) m =
        (.ok (), m.setMemory mem) ∧
      Keeps (· = a) m.memory mem ∧ mem.blocks a = pointers (done ++ ps) ∧ mem.Holds ps bss := by
  intro bss
  induction bss with
  | nil =>
    intro done rest m ha hblock hrest
    obtain rfl : rest = [] := List.eq_nil_of_length_eq_zero (by simpa using hrest)
    exact ⟨m.memory, [], rfl, Keeps.refl _ _, by simpa using hblock, .nil⟩
  | cons bytes bss ih =>
    intro done rest m ha hblock hrest
    have hcopy : (m.memory.place (List.replicate bytes.length .poison)).write
        (.block m.memory.next) 0 bytes = m.memory.place bytes := by
      have hblock : (m.memory.place (List.replicate bytes.length .poison)).blocks m.memory.next =
          [] ++ List.replicate bytes.length .poison ++ [] := by simp
      rw [← List.length_nil, write_middle [] (Nat.lt_succ_self _) hblock (by simp)]
      simp
    obtain ⟨mem, ps, hrun, hkeeps, hps, htargets⟩ := ih (done ++ [m.memory.next])
      (rest.drop pointerSize) (m.setMemory (m.memory.addTarget a done rest bytes))
      (lt_addTarget ha) addTarget_array (length_drop_pointer hrest)
    rw [List.length_append, List.length_singleton] at hrun
    unfold copyArguments
    rw [Js.bind_ok (newBuffer_eq _), Js.bind_ok (writeBytes_eq hcopy),
      Js.bind_ok (writePointer_eq (writePointer_place ha hblock hrest))]
    refine ⟨mem, m.memory.next :: ps, hrun, keeps_addTarget.trans hkeeps, ?_,
      holds_addTarget ha hkeeps htargets⟩
    rw [hps, ← List.append_cons]

end loops

end NodeFfi.Marshal
