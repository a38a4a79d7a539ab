import NodeFfi.Marshal.Conversion

/-!
# Calls

What a call of a proxy, of `proxy.async` and of a callback's code address does, from any state:
the buffers that a call allocates are its own (`CallBuffers`), so that what it does elsewhere is
what the native function, or the user's function, does.
-/

namespace NodeFfi.Marshal

open Js Blocks Blocks.Memory

variable {E W : Type} [Objects E]

theorem length_encodeAll : ∀ {i : Nat} {types : List (RefType E)} {values : List (Val E)}
    {bss : List (List Byte)}, values.length = types.length →
    encodeAll i types values = .ok bss → bss.map List.length = types.map RefType.cSize := by
  intro i types
  induction types generalizing i with
  | nil =>
    intro values bss hlen h
    obtain rfl : values = [] := List.eq_nil_of_length_eq_zero hlen
    cases h
    rfl
  | cons type types ih =>
    intro values bss hlen h
    obtain ⟨value, values, rfl⟩ := List.exists_cons_of_length_eq_add_one hlen
    unfold encodeAll at h
    cases henc : type.encode value with
    | error e => rw [henc] at h; cases h
    | ok bytes =>
      rw [henc] at h
      cases hall : encodeAll (i + 1) types values with
      | error e => rw [hall] at h; cases h
      | ok rest =>
        rw [hall] at h
        cases h
        rw [List.map_cons, List.map_cons, RefType.length_encode henc,
          ih (Nat.succ.inj hlen) hall]

/-! ### The buffers of a call -/

/-- The result buffer, the argument array and the buffers of the arguments. -/
structure CallBuffers where
  result : Nat
  argv : Nat
  targets : List Nat

namespace CallBuffers

def Owns (c : CallBuffers) (b : Nat) : Prop := b = c.result ∨ b = c.argv ∨ b ∈ c.targets

/-- The arguments are there, and so is room for the result. -/
structure Ready (c : CallBuffers) (m : Memory) (size : Nat) (bss : List (List Byte)) : Prop where
  result_lt : c.result < m.next
  result_block : m.blocks c.result = List.replicate size .poison
  arguments : m.PointsTo c.argv c.targets bss
  argv_ne : c.argv ≠ c.result
  targets_ne : ∀ b ∈ c.targets, b ≠ c.result

theorem Ready.lt {c : CallBuffers} {m : Memory} {size : Nat} {bss : List (List Byte)}
    (h : c.Ready m size bss) {b : Nat} (hb : c.Owns b) : b < m.next := by
  rcases hb with rfl | rfl | hb
  · exact h.result_lt
  · exact h.arguments.lt
  · obtain ⟨_, -, hb', -⟩ := Holds.mem h.arguments.targets hb
    exact hb'

theorem Ready.keeps {c : CallBuffers} {m m' : Memory} {own : Nat → Prop} {size : Nat}
    {bss : List (List Byte)} (h : c.Ready m size bss) (hkeeps : Keeps own m m')
    (hown : ∀ b, c.Owns b → ¬ own b) : c.Ready m' size bss := by
  refine ⟨Nat.lt_of_lt_of_le h.result_lt hkeeps.next, ?_, ?_, h.argv_ne, h.targets_ne⟩
  · rw [hkeeps.blocks _ h.result_lt (hown _ (.inl rfl))]
    exact h.result_block
  · apply h.arguments.keeps hkeeps (hown _ (.inr (.inl rfl)))
    intro b hb
    exact hown b (.inr (.inr hb))

end CallBuffers

/-! ### `ffi_call` -/

section call

variable {m : Machine E W}

omit [Objects E] in
theorem ffiCall_eq {ε : Type} {c : CallBuffers} {size : Nat} {bss : List (List Byte)} {cif : Cif}
    (fn : NativeFn E W) (mainThread : Bool) (h : c.Ready m.memory size bss)
    (hcif : cif.atypes = bss.map List.length) :
    let call := fn mainThread bss (m.logEvent (.native (.block c.result)))
    Extends m.memory call.2.memory → (stored cif.rtype call.1).length ≤ size →
    (ffiCall cif fn mainThread (.block c.result) (.block c.argv) : Js (Machine E W) ε Unit) m =
      (.ok (), call.2.setMemory (call.2.memory.setBlock c.result
        (overlay (List.replicate size .poison) 0 (stored cif.rtype call.1)))) := by
  intro call hextends hroom
  have hread : (readArguments (.block c.argv) 0 (bss.map List.length) : Js (Machine E W) ε _) m =
      (.ok bss, m) := readArguments_eq h.arguments.lt [] h.arguments.targets h.arguments.array
  have hblock : call.2.memory.blocks c.result = List.replicate size .poison ++ [] := by
    rw [hextends.blocks _ h.result_lt not_false, h.result_block, List.append_nil]
  have hwrite : call.2.memory.write (.block c.result) 0 (stored cif.rtype call.1) = _ :=
    write_front (Nat.lt_of_lt_of_le h.result_lt hextends.next) hblock
      (by rw [List.length_replicate]; exact hroom)
  rw [List.append_nil] at hwrite
  unfold ffiCall
  rw [hcif, Js.bind_ok hread, Js.bind_ok (Js.modify_apply _ _), Js.bind_ok (Js.step_apply _ _)]
  exact writeBytes_eq hwrite

omit [Objects E] in
theorem length_fit (size : Nat) (bytes : List Byte) : (fit size bytes).length = size := by
  unfold fit
  rw [List.length_append, List.length_take, List.length_replicate]
  omega

omit [Objects E] in
theorem length_stored (kind : Kind) (size : Nat) (bytes : List Byte) :
    (stored (kind, size) bytes).length ≤ max size ffiArgSize := by
  cases kind with
  | void => exact Nat.zero_le _
  | integer signed =>
    simp only [stored, extend, List.length_append, List.length_replicate, length_fit]
    omega
  | plain =>
    simp only [stored, length_fit]
    exact Nat.le_max_left _ _

omit [Objects E] in
theorem le_resultSize (p : ForeignFunction E W) :
    max p.returnType.cSize ffiArgSize ≤ p.resultSize := by
  unfold RefType.cSize ForeignFunction.resultSize longSize ffiArgSize pointerSize
  split <;> split <;> omega

/-- The result buffer after a call that returned `bytes`. -/
def ForeignFunction.resultBlock (p : ForeignFunction E W) (bytes : List Byte) : List Byte :=
  overlay (List.replicate p.resultSize .poison) 0 (stored p.returnType.ffiType bytes)

/-- The bytes that JavaScript reads the result from. -/
def ForeignFunction.resultBytes (p : ForeignFunction E W) (bytes : List Byte) : List Byte :=
  (p.resultBlock bytes).take p.returnType.cSize

theorem refGet_result {p : ForeignFunction E W} {r : Nat} {bytes : List Byte}
    (hr : r < m.memory.next)
    (hblock : m.memory.blocks r = p.resultBlock bytes) :
    refGet ⟨.block r, p.resultSize⟩ p.returnType m =
      (p.returnType.decode (p.resultBytes bytes), m) := by
  have hroom := le_resultSize p
  have hstored := length_stored p.returnType.ffiType.1 p.returnType.cSize bytes
  have hlen : (p.resultBytes bytes).length = p.returnType.cSize := by
    unfold ForeignFunction.resultBytes ForeignFunction.resultBlock
    rw [List.length_take, length_overlay, List.length_replicate]
    · omega
    · rw [List.length_replicate]
      exact Nat.le_trans hstored hroom
  apply refGet_eq hr (hblock.trans (List.take_append_drop p.returnType.cSize _).symm) hlen
  intro hind
  unfold RefType.cSize at hroom
  rw [if_pos hind] at hroom
  omega

end call

/-! ### Proxies -/

section proxy

variable {m : Machine E W} {arguments : List (Val E)}

/-- **The part that `proxy` and `proxy.async` have in common**: two buffers are allocated and the
arguments are encoded behind the second. -/
theorem setArguments_fresh (p : ForeignFunction E W) (hlen : arguments.length = p.numArgs)
    (m : Machine E W) :
    let m₁ := m.setMemory ((m.memory.place (List.replicate p.resultSize .poison)).place
      (List.replicate p.argsArraySize .poison))
    ∃ mem, setArguments ⟨.block (m.memory.next + 1), p.argsArraySize⟩ 0 p.argTypes arguments m₁ =
        ((encodeAll 0 p.argTypes arguments).map fun _ => (), m.setMemory mem) ∧
      Extends m.memory mem ∧ m.memory.next < mem.next ∧
      ∀ bss, encodeAll 0 p.argTypes arguments = .ok bss → ∃ targets,
        CallBuffers.Ready ⟨m.memory.next, m.memory.next + 1, targets⟩ mem p.resultSize bss ∧
        ∀ b ∈ targets, m.memory.next ≤ b := by
  intro m₁
  have hlt : m.memory.next + 1 < m₁.memory.next := Nat.lt_succ_self _
  have hblock : m₁.memory.blocks (m.memory.next + 1) =
      pointers [] ++ List.replicate p.argsArraySize .poison := place_new _ _
  obtain ⟨mem, hrun, hkeeps, hholds⟩ := setArguments_spec p.argTypes arguments [] _ m₁ hlen hlt
    hblock (List.length_replicate ..)
  have hextends : Extends m.memory m₁.memory := (keeps_place _ _ _).trans (keeps_place _ _ _)
  have hnext := hkeeps.next
  refine ⟨mem, hrun, ?_, by omega, ?_⟩
  · have hall : Keeps (· = m.memory.next + 1) m.memory mem :=
      (hextends.fresh fun _ h => h.elim).trans hkeeps
    exact hall.fresh fun b hb => .inr (by omega)
  · intro bss hbss
    obtain ⟨targets, harray, hnew, htargets⟩ := hholds bss hbss
    have hresult : m.memory.next < m₁.memory.next := by omega
    refine ⟨targets, ⟨Nat.lt_of_lt_of_le hresult hkeeps.next, ?_,
      ⟨Nat.lt_of_lt_of_le hlt hkeeps.next, harray, htargets⟩, Nat.succ_ne_self _, ?_⟩, ?_⟩
    · rw [hkeeps.blocks _ hresult (Nat.ne_of_lt (Nat.lt_succ_self _))]
      exact (place_old _ _ (Nat.lt_succ_self _)).trans (place_new _ _)
    · intro b hb
      have hb' := hnew b hb
      change b ≠ m.memory.next
      omega
    · intro b hb
      have hb' := hnew b hb
      omega

theorem proxy_error {p : ForeignFunction E W} {i : Nat} {e : Val E}
    (hlen : arguments.length = p.numArgs) (m : Machine E W)
    (henc : encodeAll 0 p.argTypes arguments = .error (i, e)) :
    ∃ mem, Extends m.memory mem ∧
      p.proxy arguments m = (.error (annotated (settingArgument i) e), m.setMemory mem) := by
  obtain ⟨mem, hrun, hextends, -, -⟩ := setArguments_fresh p hlen m
  refine ⟨mem, hextends, ?_⟩
  rw [henc] at hrun
  unfold ForeignFunction.proxy
  rw [if_neg (not_not_intro hlen), Js.bind_ok (newBuffer_eq _), Js.bind_ok (newBuffer_eq _)]
  exact Js.bind_error ((Js.tryCatch_error hrun).trans (annotate_throw _ e _))

/-- **A proxy whose arguments are accepted** calls the function once, with the encoded arguments,
and throws what the function has left pending or returns what it decodes. -/
theorem proxy_ok {p : ForeignFunction E W} {bss : List (List Byte)}
    (hcif : p.cif = Cif.of p.returnType p.argTypes) (hlen : arguments.length = p.numArgs)
    (henc : encodeAll 0 p.argTypes arguments = .ok bss)
    (hfn : ∀ m₁, Extends m₁.memory (p.funcPtr true bss m₁).2.memory) (m : Machine E W) :
    ∃ mem mem', Extends m.memory mem ∧ Extends m.memory mem' ∧ m.memory.next < mem'.next ∧
      let call := p.funcPtr true bss ((m.setMemory mem).logEvent (.native (.block m.memory.next)))
      p.proxy arguments m =
        match call.2.pending with
        | some e => (.error e, { call.2 with memory := mem', pending := none })
        | none => (p.returnType.decode (p.resultBytes call.1), call.2.setMemory mem') := by
  obtain ⟨mem, hrun, hextends, -, hready⟩ := setArguments_fresh p hlen m
  obtain ⟨targets, hready, -⟩ := hready bss henc
  rw [henc] at hrun
  have hkeeps := hfn ((m.setMemory mem).logEvent (.native (.block m.memory.next)))
  have hatypes : p.cif.atypes = bss.map List.length := by
    rw [hcif, length_encodeAll hlen henc]
    rfl
  have hrtype : p.cif.rtype = p.returnType.ffiType := by rw [hcif]; rfl
  have hroom : ∀ bytes, (stored p.cif.rtype bytes).length ≤ p.resultSize := by
    intro bytes
    rw [hrtype]
    exact Nat.le_trans (length_stored _ _ bytes) (le_resultSize p)
  let call := p.funcPtr true bss ((m.setMemory mem).logEvent (.native (.block m.memory.next)))
  let mem' := call.2.memory.setBlock m.memory.next (p.resultBlock call.1)
  have hcall : (ffiCall p.cif p.funcPtr true (.block m.memory.next) (.block (m.memory.next + 1)) :
      Script E W Unit) (m.setMemory mem) = (.ok (), call.2.setMemory mem') := by
    have h := ffiCall_eq (m := m.setMemory mem) (ε := Val E) p.funcPtr true hready hatypes hkeeps
      (hroom call.1)
    rw [hrtype] at h
    exact h
  have hnext : m.memory.next < mem'.next := Nat.lt_of_lt_of_le hready.result_lt hkeeps.next
  have hresult : mem'.blocks m.memory.next = p.resultBlock call.1 := setBlock_same _ _ _
  refine ⟨mem, mem', hextends, ?_, hnext, ?_⟩
  · have hset := @keeps_setBlock (· = m.memory.next) call.2.memory m.memory.next
      (p.resultBlock call.1) rfl
    have hall := ((hextends.trans hkeeps).fresh fun _ h => h.elim).trans hset
    exact hall.fresh fun b hb => .inr (Nat.le_of_eq hb.symm)
  · change p.proxy arguments m = match call.2.pending with
      | some e => (.error e, { call.2 with memory := mem', pending := none })
      | none => (p.returnType.decode (p.resultBytes call.1), call.2.setMemory mem')
    unfold ForeignFunction.proxy FFICall
    rw [if_neg (not_not_intro hlen), Js.bind_ok (newBuffer_eq _), Js.bind_ok (newBuffer_eq _)]
    refine (Js.bind_ok (Js.tryCatch_ok hrun)).trans ?_
    cases hpending : call.2.pending with
    | some e =>
      have htake : takePending (call.2.setMemory mem') =
          (.error e, { call.2 with memory := mem', pending := none }) := by
        unfold takePending Machine.setMemory
        simp only [hpending]
      exact Js.bind_error ((Js.bind_ok hcall).trans htake)
    | none =>
      have htake : takePending (call.2.setMemory mem') = (.ok (), call.2.setMemory mem') := by
        unfold takePending Machine.setMemory
        simp only [hpending]
      exact (Js.bind_ok ((Js.bind_ok hcall).trans htake)).trans (refGet_result hnext hresult)

/-! ### Asynchronous calls -/

/-- What `proxy.async` queues. -/
def ForeignFunction.params (p : ForeignFunction E W) (c : CallBuffers) (callback : Nat) :
    AsyncCallParams E W :=
  ⟨p.cif, p.funcPtr, ⟨.block c.result, p.resultSize⟩, ⟨.block c.argv, p.argsArraySize⟩,
    p.returnType, callback⟩

theorem async_error {p : ForeignFunction E W} {i : Nat} {e : Val E}
    (hlen : arguments.length = p.numArgs) (callback : Nat) (m : Machine E W)
    (henc : encodeAll 0 p.argTypes arguments = .error (i, e)) :
    ∃ mem, Extends m.memory mem ∧ m.memory.next < mem.next ∧
      p.async arguments (some callback) m =
        match assignMessage (settingArgument i) e with
        | .ok e => (.ok none, { m with memory := mem, ticks := m.ticks ++ [.callback callback e] })
        | .error e => (.error e, m.setMemory mem) := by
  obtain ⟨mem, hrun, hextends, hnext, -⟩ := setArguments_fresh p hlen m
  refine ⟨mem, hextends, hnext, ?_⟩
  rw [henc] at hrun
  unfold ForeignFunction.async
  rw [if_neg (by omega)]
  simp only
  rw [Js.bind_ok (newBuffer_eq _), Js.bind_ok (newBuffer_eq _)]
  refine (Js.tryCatch_error (Js.bind_error hrun)).trans ?_
  simp only
  unfold annotate
  cases assignMessage (settingArgument i) e with
  | ok e => rfl
  | error e => rfl

/-- **`proxy.async` with arguments that are accepted** queues the call. -/
theorem async_ok {p : ForeignFunction E W} {bss : List (List Byte)}
    (hlen : arguments.length = p.numArgs) (henc : encodeAll 0 p.argTypes arguments = .ok bss)
    (callback : Nat) (m : Machine E W) :
    ∃ mem c, Extends m.memory mem ∧ c.result = m.memory.next ∧ c.Ready mem p.resultSize bss ∧
      (∀ b, c.Owns b → m.memory.next ≤ b) ∧
      p.async arguments (some callback) m =
        (.ok (some (p.params c callback)), m.setMemory mem) := by
  obtain ⟨mem, hrun, hextends, -, hready⟩ := setArguments_fresh p hlen m
  obtain ⟨targets, hready, hnew⟩ := hready bss henc
  refine ⟨mem, _, hextends, rfl, hready, ?_, ?_⟩
  · rintro b (rfl | rfl | hb)
    · exact Nat.le_refl _
    · exact Nat.le_succ _
    · exact hnew b hb
  · rw [henc] at hrun
    unfold ForeignFunction.async
    rw [if_neg (by omega)]
    simp only
    rw [Js.bind_ok (newBuffer_eq _), Js.bind_ok (newBuffer_eq _)]
    exact Js.tryCatch_ok (Js.bind_ok hrun)

omit [Objects E] in
theorem asyncFFICall_eq {p : ForeignFunction E W} {c : CallBuffers} {bss : List (List Byte)}
    (hcif : p.cif = Cif.of p.returnType p.argTypes) (h : c.Ready m.memory p.resultSize bss)
    (hbss : bss.map List.length = p.argTypes.map RefType.cSize) (callback : Nat) :
    let call := p.funcPtr false bss (m.logEvent (.native (.block c.result)))
    Extends m.memory call.2.memory →
    (AsyncFFICall (p.params c callback) : Js (Machine E W) Empty Unit) m =
      (.ok (), call.2.setMemory (call.2.memory.setBlock c.result (p.resultBlock call.1))) := by
  intro call hextends
  have hatypes : p.cif.atypes = bss.map List.length := by
    rw [hcif, hbss]
    rfl
  have hrtype : p.cif.rtype = p.returnType.ffiType := by rw [hcif]; rfl
  have hroom : (stored p.cif.rtype call.1).length ≤ p.resultSize := by
    rw [hrtype]
    exact Nat.le_trans (length_stored _ _ call.1) (le_resultSize p)
  have hcall := ffiCall_eq (ε := Empty) p.funcPtr false h hatypes hextends hroom
  rw [hrtype] at hcall
  exact hcall

theorem finishAsyncFFICall_eq {p : ForeignFunction E W} {c : CallBuffers} {bytes : List Byte}
    (hr : c.result < m.memory.next)
    (hblock : m.memory.blocks c.result = p.resultBlock bytes) (callback : Nat) :
    (FinishAsyncFFICall (p.params c callback) : Js (Machine E W) Empty Unit) m =
      (.ok (), m.logEvent
        (match p.returnType.decode (p.resultBytes bytes) with
        | .ok value => .callback callback [.null, value]
        | .error e => .uncaught e)) := by
  have hget := refGet_result hr hblock
  unfold FinishAsyncFFICall AsyncCallParams.completion
  cases hdec : p.returnType.decode (p.resultBytes bytes) with
  | ok value =>
    rw [hdec] at hget
    exact Js.tryCatch_ok (Js.bind_ok hget)
  | error e =>
    rw [hdec] at hget
    exact Js.tryCatch_error (Js.bind_error hget)

end proxy

end NodeFfi.Marshal
