import NodeFfi.Marshal.Call
import NodeFfi.Marshal.Integer

/-!
# Calls of callbacks through foreign functions

A foreign function around the code address of a callback: the values go through `setArguments`,
libffi and `getArguments`, and the result back through `setResult`, libffi and `ref.get`.
-/

namespace NodeFfi.Marshal

open Js Blocks Blocks.Memory

variable {E W : Type} [Objects E]

/-- The type object `ref.types.void`. -/
structure RefType.IsVoid (type : RefType E) : Prop where
  size : type.size = 0
  indirection : type.indirection = 1
  get : ∀ bytes, type.get bytes = .ok .null
  set : ∀ value old, type.set value old = .ok old

theorem represents_pointer {type : RefType E} (h : type.indirection ≠ 1) (value : Val E) :
    type.Represents value ↔ ∃ p, value = .object (.buffer p) := by
  unfold RefType.Represents RefType.encode RefType.overwrite RefType.decode
  simp only [if_neg h]
  constructor
  · rintro ⟨bytes, -, hdec⟩
    exact ⟨_, (Except.ok.inj hdec).symm⟩
  · rintro ⟨p, rfl⟩
    exact ⟨encodePtr p, rfl, by rw [decodePtr_encodePtr]⟩

/-- **Decoding undoes encoding**, for every list of arguments. -/
theorem decodeAll_encodeAll : ∀ {types : List (RefType E)} {values : List (Val E)} (i : Nat),
    List.Forall₂ RefType.Represents types values →
    ∃ bss, encodeAll i types values = .ok bss ∧ decodeAll types bss = .ok values := by
  intro types values i h
  induction h generalizing i with
  | nil => exact ⟨[], rfl, rfl⟩
  | @cons type value types values hvalue _ ih =>
    obtain ⟨bytes, henc, hdec⟩ := hvalue
    obtain ⟨bss, hencs, hdecs⟩ := ih (i + 1)
    refine ⟨bytes :: bss, ?_, ?_⟩
    · unfold encodeAll
      rw [henc, hencs]
      rfl
    · unfold decodeAll
      rw [hdec, hdecs]
      rfl

/-! ### The native function of a callback -/

section invoke

variable {retType : RefType E} {argTypes : List (RefType E)} {func : UserFunction E W}

/-- The return area of a closure. -/
def retvalSize (retType : RefType E) : Nat := max ffiArgSize retType.cSize

/-- The bytes of what a user's function returns, or what the callback throws instead. -/
def returned (retType : RefType E) : Except (Val E) (Val E) → Except (Val E) (List Byte)
  | .error e => .error e
  | .ok value =>
    match retType.encode value with
    | .error e => .error (annotated settingReturnValue e)
    | .ok bytes => .ok bytes

theorem returned_ok {value : Val E} {bytes : List Byte} (h : retType.encode value = .ok bytes) :
    returned retType (.ok value) = .ok bytes := by
  unfold returned
  simp only [h]

theorem length_returned {result : Except (Val E) (Val E)} {bytes : List Byte}
    (h : returned retType result = .ok bytes) : bytes.length = retType.cSize := by
  unfold returned at h
  cases result with
  | error e => cases h
  | ok value =>
    dsimp only at h
    cases henc : retType.encode value with
    | error e => rw [henc] at h; cases h
    | ok bytes' =>
      rw [henc] at h
      cases h
      exact RefType.length_encode henc

theorem callbackBody_eq {r a length : Nat} {targets : List Nat} {bss : List (List Byte)}
    {values : List (Val E)} {m : Machine E W} {result : Except (Val E) (Val E)} {world : W}
    (hargs : m.memory.PointsTo a targets bss)
    (hbss : bss.map List.length = argTypes.map RefType.cSize)
    (hdec : decodeAll argTypes bss = .ok values) (hr : r < m.memory.next)
    (hblock : m.memory.blocks r = List.replicate (retvalSize retType) .poison)
    (hfunc : func m.world values = (result, world)) :
    callbackBody retType argTypes func ⟨.block r, retType.size⟩ ⟨.block a, length⟩ m =
      match returned retType result with
      | .error e => (.error e, (m.setWorld world).logEvent (.apply values))
      | .ok bytes => (.ok (), ((m.setWorld world).logEvent (.apply values)).setMemory
          (m.memory.setBlock r (bytes ++ List.replicate (retvalSize retType - retType.cSize) .poison))) := by
  have hget : getArguments ⟨.block a, length⟩ 0 argTypes m = (decodeAll argTypes bss, m) :=
    getArguments_eq hargs.lt argTypes [] hargs.targets hbss hargs.array
  rw [hdec] at hget
  have happly : apply func values m =
      (result, (m.setWorld world).logEvent (.apply values)) := by
    unfold apply
    rw [hfunc]
  unfold callbackBody
  rw [Js.bind_ok hget]
  cases result with
  | error e => exact Js.bind_error happly
  | ok value =>
    have hsplit : m.memory.blocks r = List.replicate retType.cSize .poison ++
        List.replicate (retvalSize retType - retType.cSize) .poison := by
      rw [List.replicate_append_replicate]
      refine hblock.trans (congrArg (List.replicate · Byte.poison) ?_)
      unfold retvalSize
      omega
    have hset : refSet ⟨.block r, retType.size⟩ value retType
        ((m.setWorld world).logEvent (.apply values)) = _ :=
      refSet_eq hr hsplit (List.length_replicate ..) fun _ => Nat.le_refl _
    rw [Js.bind_ok happly]
    unfold setResult returned RefType.encode
    dsimp only
    cases henc : retType.overwrite value (List.replicate retType.cSize .poison) with
    | ok bytes =>
      rw [henc] at hset
      exact Js.tryCatch_ok hset
    | error e =>
      rw [henc] at hset
      exact (Js.tryCatch_error hset).trans (annotate_throw _ e _)

omit [Objects E] in
theorem reportReturned_eq (dispatched : Bool) (e : Val E) (m : Machine E W) :
    ∃ pending ticks, reportReturned dispatched e m = { m with pending := pending, ticks := ticks } := by
  unfold reportReturned errorReportCallback
  split
  · exact ⟨_, _, rfl⟩
  · split
    · split <;> exact ⟨_, _, rfl⟩
    · exact ⟨_, _, rfl⟩

theorem callbackFunction_ok {retval params : Buffer} {m m' : Machine E W}
    (h : callbackBody retType argTypes func retval params m = (.ok (), m')) :
    callbackFunction retType argTypes func retval params m = (.ok .undefined, m') :=
  Js.tryCatch_ok (Js.bind_ok h)

theorem callbackFunction_error {retval params : Buffer} {e : Val E} {m m' : Machine E W}
    (h : callbackBody retType argTypes func retval params m = (.error e, m')) :
    callbackFunction retType argTypes func retval params m = (.ok e, m') :=
  Js.tryCatch_error (Js.bind_error h)

theorem dispatchToV8_eq (retType : RefType E) (argTypes : List (RefType E))
    (func : UserFunction E W) (retval parameters : Ptr) (dispatched : Bool) (m : Machine E W) :
    (Callback retType argTypes func).dispatchToV8 retval parameters dispatched m =
      match callbackBody retType argTypes func ⟨retval, retType.size⟩
        ⟨parameters, pointerSize * argTypes.length⟩ m with
      | (.ok (), m) => m
      | (.error e, m) => reportReturned dispatched e m := by
  rcases hbody : callbackBody retType argTypes func ⟨retval, retType.size⟩
    ⟨parameters, pointerSize * argTypes.length⟩ m with ⟨_ | _, m'⟩
  · exact (Callback retType argTypes func).dispatchToV8_ok dispatched (callbackFunction_error hbody)
  · exact (Callback retType argTypes func).dispatchToV8_ok dispatched (callbackFunction_ok hbody)

omit [Objects E] in
theorem copyArguments_fresh (bss : List (List Byte)) (size : Nat) (m : Machine E W) :
    let m₁ := m.setMemory ((m.memory.place (List.replicate size .poison)).place
      (List.replicate (bss.length * pointerSize) .poison))
    ∃ mem targets,
      (copyArguments ⟨.block (m.memory.next + 1), bss.length * pointerSize⟩ 0 bss :
        Js (Machine E W) Empty Unit) m₁ = (.ok (), m.setMemory mem) ∧
      Extends m.memory mem ∧ mem.PointsTo (m.memory.next + 1) targets bss ∧
      m.memory.next < mem.next ∧ mem.blocks m.memory.next = List.replicate size .poison := by
  intro m₁
  have hlt : m.memory.next + 1 < m₁.memory.next := Nat.lt_succ_self _
  have hblock : m₁.memory.blocks (m.memory.next + 1) =
      pointers [] ++ List.replicate (bss.length * pointerSize) .poison := place_new _ _
  obtain ⟨mem, targets, hcopy, hkeeps, harray, htargets⟩ := copyArguments_spec (ε := Empty)
    (bss.length * pointerSize) bss [] _ m₁ hlt hblock (List.length_replicate ..)
  have hnext := hkeeps.next
  refine ⟨mem, targets, hcopy, ?_, ⟨by omega, harray, htargets⟩, by omega, ?_⟩
  · have h : Keeps (· = m.memory.next + 1) m.memory m₁.memory :=
      (keeps_place _ _ _).trans (keeps_place _ _ _)
    exact (h.trans hkeeps).fresh fun b hb => .inr (by omega)
  · rw [hkeeps.blocks _ (by omega) (Nat.ne_of_lt (Nat.lt_succ_self _))]
    exact (place_old _ _ (Nat.lt_succ_self _)).trans (place_new _ _)

omit [Objects E] in
theorem invoke_eq {bss : List (List Byte)} {mem : Memory} {info : CallbackInfo E W}
    (mainThread : Bool) {m : Machine E W}
    (hcopy : (copyArguments ⟨.block (m.memory.next + 1), bss.length * pointerSize⟩ 0 bss :
      Js (Machine E W) Empty Unit) (m.setMemory ((m.memory.place
        (List.replicate (max ffiArgSize info.rtype.2) .poison)).place
          (List.replicate (bss.length * pointerSize) .poison))) = (.ok (), m.setMemory mem)) :
    let m₂ := info.dispatchToV8 (.block m.memory.next) (.block (m.memory.next + 1)) (!mainThread)
      (m.setMemory mem)
    info.invoke mainThread bss m = ((m₂.memory.read (.block m.memory.next) 0 info.rtype.2).1,
      m₂.setMemory (m₂.memory.read (.block m.memory.next) 0 info.rtype.2).2) := by
  intro m₂
  have hcall : info.call (ε := Empty) mainThread bss m =
      readBytes (.block m.memory.next) 0 info.rtype.2 m₂ := by
    unfold CallbackInfo.call
    rw [Js.bind_ok (newBuffer_eq _), Js.bind_ok (newBuffer_eq _)]
    exact (Js.bind_ok hcopy).trans (Js.bind_ok (Js.modify_apply _ _))
  unfold CallbackInfo.invoke
  rw [hcall]
  rfl

/-- **A call of the code address of a callback**: the user's function runs once, with the values
that the arguments stand for, and what it returns is encoded. -/
theorem invoke_spec {bss : List (List Byte)} {values : List (Val E)} (mainThread : Bool)
    (hbss : bss.map List.length = argTypes.map RefType.cSize)
    (hdec : decodeAll argTypes bss = .ok values) (m : Machine E W) :
    let call := (Callback retType argTypes func).invoke mainThread bss m
    Extends m.memory call.2.memory ∧ call.2.world = (func m.world values).2 ∧
    call.2.log = m.log ++ [.apply values] ∧
    ∀ value bytes, (func m.world values).1 = .ok value → retType.encode value = .ok bytes →
      call.1 = bytes ∧ call.2.pending = m.pending := by
  intro call
  obtain ⟨mem, targets, hcopy, hextends, hargs, hr, hretval⟩ :=
    copyArguments_fresh bss (retvalSize retType) m
  let m₂ := (Callback retType argTypes func).dispatchToV8 (.block m.memory.next)
    (.block (m.memory.next + 1)) (!mainThread) (m.setMemory mem)
  have hinvoke : call = ((m₂.memory.read (.block m.memory.next) 0 retType.cSize).1,
      m₂.setMemory (m₂.memory.read (.block m.memory.next) 0 retType.cSize).2) :=
    invoke_eq mainThread hcopy
  have hdispatch : m₂ = _ := dispatchToV8_eq retType argTypes func (.block m.memory.next)
    (.block (m.memory.next + 1)) (!mainThread) (m.setMemory mem)
  rcases hfunc : func m.world values with ⟨result, world⟩
  have hbody : callbackBody retType argTypes func ⟨.block m.memory.next, retType.size⟩
      ⟨.block (m.memory.next + 1), pointerSize * argTypes.length⟩ (m.setMemory mem) = _ :=
    callbackBody_eq hargs hbss hdec hr hretval hfunc
  rw [hbody] at hdispatch
  rw [hinvoke]
  cases hreturned : returned retType result with
  | error e =>
    rw [hreturned] at hdispatch
    obtain ⟨pending, ticks, hreport⟩ := reportReturned_eq (!mainThread) e
      (((m.setMemory mem).setWorld world).logEvent (.apply values))
    have hm₂ := hdispatch.trans hreport
    have hmemory : m₂.memory = mem := by rw [hm₂]; rfl
    have hread : (mem.read (.block m.memory.next) 0 retType.cSize).2 = mem := by
      rw [read_eq hr]
      rw [hretval, List.length_replicate, Nat.zero_add]
      exact Nat.le_max_right _ _
    rw [hmemory, hread, hm₂]
    refine ⟨hextends, rfl, rfl, ?_⟩
    intro value bytes hvalue henc
    simp only at hvalue
    subst hvalue
    rw [returned_ok henc] at hreturned
    cases hreturned
  | ok bytes =>
    rw [hreturned] at hdispatch
    have hlen : bytes.length = retType.cSize := length_returned hreturned
    have hread : m₂.memory.read (.block m.memory.next) 0 retType.cSize = (bytes, m₂.memory) := by
      rw [hdispatch, ← hlen]
      exact read_middle [] hr (setBlock_same _ _ _)
    rw [hread, hdispatch]
    refine ⟨?_, rfl, rfl, ?_⟩
    · have hset := @keeps_setBlock (· = m.memory.next) mem m.memory.next
        (bytes ++ List.replicate (retvalSize retType - retType.cSize) .poison) rfl
      have hall := (hextends.fresh fun _ h => h.elim).trans hset
      exact hall.fresh fun b hb => .inr (Nat.le_of_eq hb.symm)
    · intro value bytes' hvalue henc
      simp only at hvalue
      subst hvalue
      rw [returned_ok henc] at hreturned
      exact ⟨(Except.ok.inj hreturned).symm, rfl⟩

end invoke

/-! ### The round trip -/

omit [Objects E] in
theorem fit_of_length {size : Nat} {bytes : List Byte} (h : bytes.length = size) :
    fit size bytes = bytes := by
  unfold fit
  rw [← h, List.take_length, Nat.sub_self]
  exact List.append_nil bytes

theorem stored_eq {kind : Kind} {size : Nat} {bytes : List Byte} (h : bytes.length = size)
    (hvoid : kind = .void → size = 0) : ∃ rest, stored (kind, size) bytes = bytes ++ rest := by
  cases kind with
  | void =>
    obtain rfl : bytes = [] := List.eq_nil_of_length_eq_zero (h.trans (hvoid rfl))
    exact ⟨[], rfl⟩
  | integer signed =>
    simp only [stored, extend, fit_of_length h]
    exact ⟨_, rfl⟩
  | plain =>
    simp only [stored, fit_of_length h]
    exact ⟨[], (List.append_nil bytes).symm⟩

omit [Objects E] in
theorem resultBytes_eq {p : ForeignFunction E W} {bytes : List Byte}
    (h : bytes.length = p.returnType.cSize) : p.resultBytes bytes = bytes := by
  have hvoid : p.returnType.ffiType.1 = .void → p.returnType.cSize = 0 := by
    unfold RefType.ffiType RefType.cSize
    intro hkind
    by_cases hind : p.returnType.indirection = 1
    · simp only [if_pos hind] at hkind ⊢
      exact p.returnType.void_size hkind
    · simp only [if_neg hind] at hkind
      cases hkind
  obtain ⟨rest, hrest⟩ := stored_eq h hvoid
  change stored p.returnType.ffiType bytes = bytes ++ rest at hrest
  have hblock : p.resultBlock bytes = bytes ++ (rest ++
      (List.replicate p.resultSize Byte.poison).drop (bytes ++ rest).length) := by
    unfold ForeignFunction.resultBlock overlay
    rw [hrest, List.take_zero, List.nil_append, List.append_assoc, Nat.zero_add]
  unfold ForeignFunction.resultBytes
  rw [hblock, ← h, List.take_left]

/-- What JavaScript gets for a value that the user's function returned. -/
def RefType.Receives (type : RefType E) (sent received : Val E) : Prop :=
  type.Represents sent ∧ received = sent ∨ type.IsVoid ∧ received = .null

theorem RefType.Receives.bytes {type : RefType E} {sent received : Val E}
    (h : type.Receives sent received) :
    ∃ bytes, type.encode sent = .ok bytes ∧ type.decode bytes = .ok received := by
  rcases h with ⟨h, rfl⟩ | ⟨h, rfl⟩
  · exact h
  · unfold RefType.encode RefType.overwrite RefType.decode
    simp only [if_pos h.indirection, h.set, h.get]
    exact ⟨_, rfl, trivial⟩

variable {retType : RefType E} {argTypes : List (RefType E)} {func : UserFunction E W}

/-- **The round trip.** -/
theorem callback_round_trip (retType : RefType E) (argTypes : List (RefType E))
    (func : UserFunction E W) {values : List (Val E)}
    (hvalues : List.Forall₂ RefType.Represents argTypes values) {m : Machine E W}
    (hpending : m.pending = none) :
    let p := ForeignFunction.of (Callback retType argTypes func).invoke retType argTypes
    (∃ result m', p.proxy values m = (result, m') ∧
      m'.world = (func m.world values).2 ∧
      m'.log = m.log ++ [.native (.block m.memory.next), .apply values] ∧
      Extends m.memory m'.memory ∧
      ∀ sent received, (func m.world values).1 = .ok sent → retType.Receives sent received →
        result = .ok received) ∧
    ∀ callback, ∃ call m₁, p.async values (some callback) m = (.ok (some call), m₁) ∧
      m₁.world = m.world ∧ m₁.log = m.log ∧ Extends m.memory m₁.memory ∧
      ∀ m₂ : Machine E W, Extends m₁.memory m₂.memory →
        ∃ m₃, (AsyncFFICall call : Js (Machine E W) Empty Unit) m₂ = (.ok (), m₃) ∧
          m₃.world = (func m₂.world values).2 ∧
          m₃.log = m₂.log ++ [.native call.res.data, .apply values] ∧
          Extends m.memory m₃.memory ∧
          ∀ sent received, (func m₂.world values).1 = .ok sent → retType.Receives sent received →
            ∀ m₄ : Machine E W, Extends m₃.memory m₄.memory →
              (FinishAsyncFFICall call : Js (Machine E W) Empty Unit) m₄ =
                (.ok (), m₄.logEvent (.callback callback [.null, received])) := by
  intro p
  have hlen : values.length = p.numArgs := hvalues.length_eq.symm
  obtain ⟨bss, henc, hdec⟩ := decodeAll_encodeAll 0 hvalues
  have hbss := length_encodeAll hlen henc
  have hinvoke := fun mainThread (m : Machine E W) =>
    @invoke_spec E W _ retType argTypes func bss values mainThread hbss hdec m
  have hresult : ∀ {sent received : Val E} {bytes : List Byte}, retType.Receives sent received →
      (∀ b, retType.encode sent = .ok b → bytes = b) →
      p.returnType.decode (p.resultBytes bytes) = .ok received := by
    intro sent received bytes hreceives hbytes
    obtain ⟨b, hsent, hreceived⟩ := hreceives.bytes
    rw [hbytes b hsent, resultBytes_eq (RefType.length_encode hsent)]
    exact hreceived
  constructor
  · obtain ⟨mem, mem', hmem, hmem', -, hproxy⟩ := proxy_ok (p := p) rfl hlen henc
      (fun m₁ => (hinvoke true m₁).1) m
    obtain ⟨-, hworld, hlog, hvalue⟩ :=
      hinvoke true ((m.setMemory mem).logEvent (.native (.block m.memory.next)))
    have hlog' := hlog.trans (List.append_assoc _ _ _)
    cases hcall : (p.funcPtr true bss
        ((m.setMemory mem).logEvent (.native (.block m.memory.next)))).2.pending with
    | some e =>
      simp only [hcall] at hproxy
      refine ⟨_, _, hproxy, hworld, hlog', hmem', ?_⟩
      intro sent received hsent hreceives
      obtain ⟨b, henc', -⟩ := hreceives.bytes
      have hnone := (hvalue sent b hsent henc').2
      change (p.funcPtr true bss _).2.pending = m.pending at hnone
      rw [hcall, hpending] at hnone
      cases hnone
    | none =>
      simp only [hcall] at hproxy
      refine ⟨_, _, hproxy, hworld, hlog', hmem', ?_⟩
      intro sent received hsent hreceives
      exact hresult hreceives fun b hb => (hvalue sent b hsent hb).1
  · intro callback
    obtain ⟨mem, c, hmem, -, hready, hnew, hasync⟩ := async_ok hlen henc callback m
    refine ⟨_, _, hasync, rfl, rfl, hmem, ?_⟩
    intro m₂ hm₂
    have hready₂ := hready.keeps hm₂ fun _ _ => id
    obtain ⟨hextends, hworld, hlog, hvalue⟩ :=
      hinvoke false (m₂.logEvent (.native (.block c.result)))
    have hlog' := hlog.trans (List.append_assoc _ _ _)
    let native := p.funcPtr false bss (m₂.logEvent (.native (.block c.result)))
    have hcall := asyncFFICall_eq (p := p) rfl hready₂ hbss callback hextends
    refine ⟨_, hcall, hworld, hlog', ?_, ?_⟩
    · have hset := @keeps_setBlock (· = c.result) native.2.memory c.result
        (p.resultBlock native.1) rfl
      have hall := ((hmem.trans (hm₂.trans hextends)).fresh fun _ h => h.elim).trans hset
      exact hall.fresh fun b hb => .inr (hb ▸ hnew _ (.inl rfl))
    · intro sent received hsent hreceives m₄ hm₄
      have hr : c.result < native.2.memory.next := Nat.lt_of_lt_of_le hready₂.result_lt hextends.next
      have hblock : m₄.memory.blocks c.result = p.resultBlock native.1 :=
        (hm₄.blocks c.result hr not_false).trans (setBlock_same _ _ _)
      have hdec' : p.returnType.decode (p.resultBytes native.1) = .ok received :=
        hresult hreceives fun b hb => (hvalue sent b hsent hb).1
      have hfinish := finishAsyncFFICall_eq (p := p) (Nat.lt_of_lt_of_le hr hm₄.next) hblock callback
      rw [hdec'] at hfinish
      exact hfinish

theorem callback_round_trip_int16 :
    let int16 : RefType String := RefType.int 2 true
    let pointer : RefType String := { RefType.int 1 true with indirection := 2 }
    let func : UserFunction String Unit := fun world args => (.ok (args.headD .undefined), world)
    let values : List (Val String) := [.number (.finite (-2) 0), .object (.buffer (.foreign 4096))]
    let m : Machine String Unit := ⟨⟨fun _ => [], 0, false⟩, (), none, [], []⟩
    let p := ForeignFunction.of (Callback int16 [int16, pointer] func).invoke int16 [int16, pointer]
    (p.proxy values m).1 = .ok (.number (.finite (-2) 0)) ∧
      (p.proxy values m).2.log = [.native (.block 0), .apply values] := by
  intro int16 pointer func values m p
  have hint : int16.Represents (.number (.finite (-2) 0)) :=
    represents_int (n := 65534) (by decide)
  have hpointer : pointer.Represents (.object (.buffer (.foreign 4096))) :=
    (represents_pointer (by decide) _).mpr ⟨_, rfl⟩
  obtain ⟨⟨result, m', hproxy, -, hlog, -, hresult⟩, -⟩ := callback_round_trip int16
    [int16, pointer] func (.cons hint (.cons hpointer .nil)) (m := m) rfl
  rw [hproxy]
  exact ⟨hresult _ _ rfl (.inl ⟨hint, rfl⟩), hlog⟩

end NodeFfi.Marshal
