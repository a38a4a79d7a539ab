import NodeFfi.Marshal.EventLoop

/-!
# The phases of an asynchronous call

Each call of `proxy.async` is in one of six phases (`Phase`). An action moves the call that it is
about to the next phase and leaves the other calls where they are (`Unaffected`): their buffers are
their own, and their callbacks have numbers of their own.
-/

namespace NodeFfi.Marshal

open Js Blocks Blocks.Memory Loop

variable {E W : Type} [Objects E]

/-! ### The native function -/

section native

omit [Objects E]

theorem leave_main (thrown : Option (Val E)) {m : Machine E W} (hpending : m.pending = none) :
    leave true thrown m = { m with pending := thrown } := by
  cases thrown with
  | none =>
    change m = { m with pending := none }
    rw [← hpending]
  | some e => rfl

/-- What a thread of the pool reports. -/
def reports : Option (Val E) → List (Tick E)
  | none => []
  | some e => if e.truthy then [.throwError e] else []

theorem leave_pool (thrown : Option (Val E)) (m : Machine E W) :
    leave false thrown m = { m with ticks := m.ticks ++ reports thrown } := by
  unfold leave reports errorReportCallback
  cases thrown with
  | none => simp
  | some e =>
    simp only [Bool.false_eq_true, if_false]
    split
    · rfl
    · simp

theorem native_memory (fn : PlainFn E W) (mainThread : Bool) (bss : List (List Byte))
    (m : Machine E W) : (fn.native mainThread bss m).2.memory = m.memory := by
  unfold PlainFn.native
  cases mainThread with
  | true =>
    unfold leave
    split <;> rfl
  | false =>
    rw [leave_pool]
    rfl

end native

theorem work_eq {call : Call E W} {b : CallBuffers} {bss : List (List Byte)} {m : Machine E W}
    (henc : encodeAll 0 call.argTypes call.arguments = .ok bss)
    (hready : b.Ready m.memory call.proxy.resultSize bss) (number : Nat) :
    (AsyncFFICall (call.proxy.params b number) : Js (Machine E W) Empty Unit) m =
      (.ok (), { m with
        memory := m.memory.setBlock b.result (call.proxy.resultBlock (call.fn bss m.world).1.bytes)
        world := (call.fn bss m.world).2
        ticks := m.ticks ++ reports (call.fn bss m.world).1.thrown
        log := m.log ++ [.native (.block b.result)] }) := by
  have hbss := length_encodeAll call.arity henc
  have hmemory := native_memory call.fn false bss (m.logEvent (.native (.block b.result)))
  have hextends : Extends m.memory
      (call.fn.native false bss (m.logEvent (.native (.block b.result)))).2.memory := by
    rw [hmemory]
    exact Keeps.refl _ _
  refine (asyncFFICall_eq (p := call.proxy) rfl hready hbss number hextends).trans ?_
  have hnative : call.fn.native false bss (m.logEvent (.native (.block b.result))) =
      ((call.fn bss m.world).1.bytes,
        { m with world := (call.fn bss m.world).2
                 ticks := m.ticks ++ reports (call.fn bss m.world).1.thrown
                 log := m.log ++ [.native (.block b.result)] }) :=
    congrArg (Prod.mk _) (leave_pool _ _)
  change (Except.ok (), (call.fn.native false bss _).2.setMemory
    ((call.fn.native false bss _).2.memory.setBlock _
      (call.proxy.resultBlock (call.fn.native false bss _).1))) = _
  rw [hnative]
  rfl

/-! ### The synchronous call -/

section sync

variable {call : Call E W} {m : Machine E W}

theorem sync_error {i : Nat} {e : Val E}
    (henc : encodeAll 0 call.argTypes call.arguments = .error (i, e)) (m : Machine E W) :
    ∃ mem, Extends m.memory mem ∧
      call.proxy.proxy call.arguments m = (.error (annotated (settingArgument i) e), m.setMemory mem) :=
  proxy_error (p := call.proxy) call.arity m henc

/-- What a synchronous call does with the outcome of the native function. -/
def Call.settle (call : Call E W) (outcome : Outcome E) : Except (Val E) (Val E) :=
  match outcome.thrown with
  | some e => .error e
  | none => call.returnType.decode (call.proxy.resultBytes outcome.bytes)

theorem sync_ok {bss : List (List Byte)}
    (henc : encodeAll 0 call.argTypes call.arguments = .ok bss) (hpending : m.pending = none) :
    ∃ mem, Extends m.memory mem ∧ m.memory.next < mem.next ∧
      call.proxy.proxy call.arguments m = (call.settle (call.fn bss m.world).1,
        { m with memory := mem, world := (call.fn bss m.world).2,
                 log := m.log ++ [.native (.block m.memory.next)] }) := by
  have hfn : ∀ m₁ : Machine E W,
      Extends m₁.memory (call.fn.native true bss m₁).2.memory := by
    intro m₁
    rw [native_memory]
    exact Keeps.refl _ _
  obtain ⟨mem, mem', hmem, hmem', hnext, hproxy⟩ :=
    proxy_ok (p := call.proxy) rfl call.arity henc hfn m
  refine ⟨mem', hmem', hnext, hproxy.trans ?_⟩
  have hnative : call.proxy.funcPtr true bss
      ((m.setMemory mem).logEvent (.native (.block m.memory.next))) =
      ((call.fn bss m.world).1.bytes,
        { m with memory := mem, world := (call.fn bss m.world).2,
                 pending := (call.fn bss m.world).1.thrown,
                 log := m.log ++ [.native (.block m.memory.next)] }) :=
    congrArg (Prod.mk _) (leave_main _ hpending)
  rw [hnative]
  unfold Call.settle
  cases (call.fn bss m.world).1.thrown with
  | none =>
    unfold Machine.setMemory
    rw [hpending]
    rfl
  | some e => rw [hpending]

end sync

/-! ### Phases -/

/-- The calls of the callback that a completion makes. -/
def Call.completed (call : Call E W) (bytes : List Byte) : List (List (Val E)) :=
  match call.returnType.decode (call.proxy.resultBytes bytes) with
  | .ok value => [[.null, value]]
  | .error _ => []

inductive Phase (s : Loop E W) (number : Nat) (c : Issued E W) : Prop
  | threw {i : Nat} {e e' : Val E}
      (encode : encodeAll 0 c.call.argTypes c.call.arguments = .error (i, e))
      (message : assignMessage (settingArgument i) e = .error e')
      (returned : c.returned = .error e')
      (view : s.view number = ⟨none, none, [], []⟩) (natives : s.natives c.result = 0)
  | deferred {i : Nat} {e e' : Val E}
      (encode : encodeAll 0 c.call.argTypes c.call.arguments = .error (i, e))
      (message : assignMessage (settingArgument i) e = .ok e')
      (returned : c.returned = .ok ())
      (view : s.view number = ⟨none, none, [e'], []⟩) (natives : s.natives c.result = 0)
  | told {i : Nat} {e e' : Val E}
      (encode : encodeAll 0 c.call.argTypes c.call.arguments = .error (i, e))
      (message : assignMessage (settingArgument i) e = .ok e')
      (returned : c.returned = .ok ())
      (view : s.view number = ⟨none, none, [], [[e']]⟩) (natives : s.natives c.result = 0)
  | queued {bss : List (List Byte)} {b : CallBuffers}
      (encode : encodeAll 0 c.call.argTypes c.call.arguments = .ok bss)
      (returned : c.returned = .ok ()) (result : b.result = c.result)
      (ready : b.Ready s.machine.memory c.call.proxy.resultSize bss)
      (owns : ∀ x, b.Owns x → c.result ≤ x ∧ x < c.bound)
      (view : s.view number = ⟨some (.queued (c.call.proxy.params b number)), none, [], []⟩)
      (natives : s.natives c.result = 0)
  | ran {bss : List (List Byte)} {b : CallBuffers} {world : W}
      (encode : encodeAll 0 c.call.argTypes c.call.arguments = .ok bss)
      (returned : c.returned = .ok ()) (result : b.result = c.result)
      (block : s.machine.memory.blocks c.result =
        c.call.proxy.resultBlock (c.call.fn bss world).1.bytes)
      (view : s.view number = ⟨some (.ran (c.call.proxy.params b number)), some world, [], []⟩)
      (natives : s.natives c.result = 1)
  | finished {bss : List (List Byte)} {world : W}
      (encode : encodeAll 0 c.call.argTypes c.call.arguments = .ok bss)
      (returned : c.returned = .ok ())
      (view : s.view number =
        ⟨none, some world, [], c.call.completed (c.call.fn bss world).1.bytes⟩)
      (natives : s.natives c.result = 1)

/-- A block of another call, or of none. -/
def Issued.Foreign (c : Issued E W) (b : Nat) : Prop := b < c.result ∨ c.bound ≤ b

/-- Nothing of the call changes from `s` to `s'`. -/
structure Unaffected (s s' : Loop E W) (number : Nat) (c : Issued E W) : Prop where
  view : s'.view number = s.view number
  natives : s'.natives c.result = s.natives c.result
  memory : Keeps c.Foreign s.machine.memory s'.machine.memory

theorem Phase.unaffected {s s' : Loop E W} {number : Nat} {c : Issued E W}
    (h : Phase s number c) (hbounds : c.result < c.bound ∧ c.bound ≤ s.machine.memory.next)
    (hs : Unaffected s s' number c) : Phase s' number c := by
  have hview := hs.view
  have hnatives := hs.natives
  cases h with
  | threw encode message returned view natives =>
    exact .threw encode message returned (hview.trans view) (hnatives.trans natives)
  | deferred encode message returned view natives =>
    exact .deferred encode message returned (hview.trans view) (hnatives.trans natives)
  | told encode message returned view natives =>
    exact .told encode message returned (hview.trans view) (hnatives.trans natives)
  | queued encode returned result ready owns view natives =>
    refine .queued encode returned result (ready.keeps hs.memory ?_) owns (hview.trans view)
      (hnatives.trans natives)
    intro x hx hforeign
    have hin := owns x hx
    rcases hforeign with hlt | hle
    · omega
    · omega
  | ran encode returned result block view natives =>
    refine .ran encode returned result ?_ (hview.trans view) (hnatives.trans natives)
    rw [hs.memory.blocks c.result (by omega), block]
    rintro (hlt | hle)
    · omega
    · omega
  | finished encode returned view natives =>
    exact .finished encode returned (hview.trans view) (hnatives.trans natives)

/-! ### The invariant -/

structure Inv (s : Loop E W) : Prop where
  pending : s.machine.pending = none
  phase : ∀ k c, s.issued k = some c → Phase s k c
  issued : ∀ k, s.issued k = none ↔ s.next ≤ k
  fresh : ∀ k, s.next ≤ k → s.view k = ⟨none, none, [], []⟩
  bounds : ∀ k c, s.issued k = some c → c.result < c.bound ∧ c.bound ≤ s.machine.memory.next
  disjoint : ∀ j k c d, s.issued j = some c → s.issued k = some d → j < k → c.bound ≤ d.result
  unused : ∀ r, s.machine.memory.next ≤ r → s.natives r = 0

theorem inv_init (world : W) (memory : Memory) : Inv (Loop.init (E := E) world memory) := by
  refine ⟨rfl, ?_, ?_, fun _ _ => rfl, ?_, ?_, fun _ _ => rfl⟩
  · intro k c h
    cases h
  · intro k
    exact ⟨fun _ => Nat.zero_le k, fun _ => rfl⟩
  · intro k c h
    cases h
  · intro j k c d h
    cases h

theorem Inv.foreign {s : Loop E W} (h : Inv s) {j k : Nat} {c d : Issued E W}
    (hc : s.issued j = some c) (hd : s.issued k = some d) (hne : j ≠ k) : c.Foreign d.result := by
  have hbounds := h.bounds k d hd
  rcases Nat.lt_or_gt_of_ne hne with hlt | hlt
  · exact .inr (h.disjoint j k c d hc hd hlt)
  · have hdisjoint := h.disjoint k j d c hd hc hlt
    exact .inl (by omega)

theorem Inv.update {s : Loop E W} (h : Inv s) (s' : Loop E W) (number : Option Nat)
    (hissued : s'.issued = s.issued) (hnext : s'.next = s.next)
    (hpending : s'.machine.pending = none)
    (hmemory : s.machine.memory.next ≤ s'.machine.memory.next)
    (hunused : ∀ r, s'.machine.memory.next ≤ r → s'.natives r = s.natives r)
    (hview : ∀ k, some k ≠ number → s'.view k = s.view k)
    (hlt : ∀ k, number = some k → k < s.next)
    (hphase : ∀ k c, s.issued k = some c → number = some k → Phase s' k c)
    (hother : ∀ k c, s.issued k = some c → some k ≠ number → Unaffected s s' k c) : Inv s' := by
  refine ⟨hpending, ?_, ?_, ?_, ?_, ?_, ?_⟩
  · intro k c hc
    rw [hissued] at hc
    by_cases hk : some k = number
    · exact hphase k c hc hk.symm
    · exact (h.phase k c hc).unaffected (h.bounds k c hc) (hother k c hc hk)
  · rw [hissued, hnext]
    exact h.issued
  · intro k hk
    rw [hnext] at hk
    rw [hview k, h.fresh k hk]
    rintro hnumber
    have := hlt k hnumber.symm
    omega
  · intro k c hc
    rw [hissued] at hc
    have hbounds := h.bounds k c hc
    omega
  · rw [hissued]
    exact h.disjoint
  · intro r hr
    rw [hunused r hr]
    exact h.unused r (Nat.le_trans hmemory hr)

/-! ### The actions -/

section actions

omit [Objects E]

theorem filterMap_reports (number : Nat) (thrown : Option (Val E)) :
    (reports thrown).filterMap (Loop.deferredOf number) = [] := by
  unfold reports
  split
  · rfl
  · split <;> rfl

theorem view_eq {s s' : Loop E W} {number : Nat} (hworks : s'.works number = s.works number)
    (hranIn : s'.ranIn number = s.ranIn number)
    (hticks : s'.machine.ticks.filterMap (Loop.deferredOf number) =
      s.machine.ticks.filterMap (Loop.deferredOf number))
    (hlog : s'.machine.log.filterMap (Loop.callbackOf number) =
      s.machine.log.filterMap (Loop.callbackOf number)) : s'.view number = s.view number := by
  unfold Loop.view
  rw [hworks, hranIn, hticks, hlog]

theorem view_mk {s : Loop E W} {number : Nat} {work : Option (Work E W)} {ranIn : Option W}
    {deferred : List (Val E)} {callbacks : List (List (Val E))} (hworks : s.works number = work)
    (hranIn : s.ranIn number = ranIn)
    (hticks : s.machine.ticks.filterMap (Loop.deferredOf number) = deferred)
    (hlog : s.machine.log.filterMap (Loop.callbackOf number) = callbacks) :
    s.view number = ⟨work, ranIn, deferred, callbacks⟩ := by
  unfold Loop.view
  rw [hworks, hranIn, hticks, hlog]

theorem natives_append {s s' : Loop E W} {log : List (Event E)}
    (hlog : s'.machine.log = s.machine.log ++ log) (r : Nat) :
    s'.natives r = s.natives r + log.countP (Loop.isNative r) := by
  unfold Loop.natives
  rw [hlog, List.countP_append]

theorem isNative_ne {b r : Nat} (h : b ≠ r) :
    [Event.native (E := E) (.block b)].countP (Loop.isNative r) = 0 := by
  simp [Loop.isNative, h]

theorem unaffected_extends {s s' : Loop E W} {number : Nat} {c : Issued E W}
    (hview : s'.view number = s.view number) (hnatives : s'.natives c.result = s.natives c.result)
    (hmemory : Extends s.machine.memory s'.machine.memory) : Unaffected s s' number c :=
  ⟨hview, hnatives, hmemory.fresh fun _ h => h.elim⟩

end actions

variable {s : Loop E W}

theorem Inv.lt_next (h : Inv s) {number : Nat} {c : Issued E W} (hc : s.issued number = some c) :
    number < s.next := by
  by_contra hle
  rw [(h.issued number).mpr (by omega)] at hc
  cases hc

theorem Inv.lt_of_moved (h : Inv s) {number : Nat} {c : Issued E W}
    (hc : s.issued number = some c) : ∀ k, some number = some k → k < s.next := by
  intro k hk
  cases hk
  exact h.lt_next hc

theorem phase_of_moved {s' : Loop E W} {number : Nat} {c : Issued E W}
    (hc : s.issued number = some c) (hphase : Phase s' number c) :
    ∀ k c', s.issued k = some c' → some number = some k → Phase s' k c' := by
  intro k c' hc' hk
  cases hk
  rw [hc] at hc'
  cases hc'
  exact hphase

theorem Inv.update_quiet (h : Inv s) (s' : Loop E W) (number : Option Nat)
    (hkeep : s'.issued = s.issued ∧ s'.next = s.next ∧ s'.machine.pending = s.machine.pending ∧
      s'.machine.memory = s.machine.memory)
    (hnatives : ∀ r, s'.natives r = s.natives r)
    (hview : ∀ k, some k ≠ number → s'.view k = s.view k)
    (hlt : ∀ k, number = some k → k < s.next)
    (hphase : ∀ k c, s.issued k = some c → number = some k → Phase s' k c) : Inv s' := by
  obtain ⟨hissued, hnext, hpending, hmemory⟩ := hkeep
  apply h.update s' number hissued hnext (hpending.trans h.pending) _ (fun r _ => hnatives r)
    hview hlt hphase
  · intro k c _ hk
    apply unaffected_extends (hview k hk) (hnatives _)
    rw [hmemory]
    exact Keeps.refl _ _
  · exact Nat.le_of_eq (congrArg Memory.next hmemory).symm

theorem Inv.program (h : Inv s) (world : W) (buffers : List (List Byte)) :
    Inv (s.program world buffers) := by
  have hextends : Extends s.machine.memory (buffers.foldl place s.machine.memory) := by
    generalize s.machine.memory = mem
    induction buffers generalizing mem with
    | nil => exact Keeps.refl _ _
    | cons bytes buffers ih => exact (keeps_place _ mem bytes).trans (ih (mem.place bytes))
  apply h.update (s.program world buffers) none rfl rfl h.pending hextends.next
  · intro r _
    rfl
  · intro k _
    rfl
  · intro k hk
    cases hk
  · intro k c _ hk
    cases hk
  · intro k c _ _
    exact unaffected_extends rfl rfl hextends

theorem sync_machine (call : Call E W) {m : Machine E W} (hpending : m.pending = none) :
    ∃ mem world log, Extends m.memory mem ∧
      (call.proxy.proxy call.arguments m).2 =
        { m with memory := mem, world := world, log := m.log ++ log } ∧
      (log = [] ∨ log = [.native (.block m.memory.next)] ∧ m.memory.next < mem.next) := by
  cases henc : encodeAll 0 call.argTypes call.arguments with
  | error e =>
    obtain ⟨mem, hmem, hproxy⟩ := sync_error henc m
    refine ⟨mem, m.world, [], hmem, ?_, .inl rfl⟩
    rw [hproxy, List.append_nil]
    rfl
  | ok bss =>
    obtain ⟨mem, hmem, hnext, hproxy⟩ := sync_ok henc hpending
    exact ⟨mem, _, _, hmem, congrArg Prod.snd hproxy, .inr ⟨rfl, hnext⟩⟩

theorem Inv.sync (h : Inv s) (call : Call E W) : Inv (s.sync call) := by
  obtain ⟨mem, world, log, hmem, hmachine, hlog⟩ := sync_machine call h.pending
  change (s.sync call).machine = _ at hmachine
  have hview : ∀ k, (s.sync call).view k = s.view k := by
    intro k
    refine view_eq (by rfl) (by rfl) ?_ ?_
    · rw [hmachine]
    · rw [hmachine, List.filterMap_append]
      rcases hlog with rfl | ⟨rfl, -⟩ <;> exact List.append_nil _
  have hnatives : ∀ r, r ≠ s.machine.memory.next ∨ mem.next ≤ r →
      (s.sync call).natives r = s.natives r := by
    intro r hr
    rw [natives_append (s := s) (congrArg Machine.log hmachine)]
    rcases hlog with rfl | ⟨rfl, hlt⟩
    · rfl
    · rw [isNative_ne (by omega)]
      rfl
  have hmemory : (s.sync call).machine.memory = mem := congrArg Machine.memory hmachine
  have hpending : (s.sync call).machine.pending = none := by
    rw [hmachine]
    exact h.pending
  apply h.update (s.sync call) none rfl rfl hpending
  · rw [hmemory]
    exact hmem.next
  · intro r hr
    rw [hmemory] at hr
    exact hnatives r (.inr hr)
  · intro k _
    exact hview k
  · intro k hk
    cases hk
  · intro k c _ hk
    cases hk
  · intro k c hc _
    have hbounds := h.bounds k c hc
    apply unaffected_extends (hview k) (hnatives c.result (.inl (by omega)))
    rw [hmemory]
    exact hmem

theorem Inv.issued_of_view (h : Inv s) (number : Nat)
    (hview : s.view number ≠ ⟨none, none, [], []⟩) : ∃ c, s.issued number = some c := by
  cases hc : s.issued number with
  | some c => exact ⟨c, rfl⟩
  | none => exact absurd (h.fresh number ((h.issued number).mp hc)) hview

theorem Inv.queued (h : Inv s) {number : Nat} {p : AsyncCallParams E W}
    (hwork : s.works number = some (.queued p)) :
    ∃ c bss b, s.issued number = some c ∧ p = c.call.proxy.params b number ∧
      encodeAll 0 c.call.argTypes c.call.arguments = .ok bss ∧ c.returned = .ok () ∧
      b.result = c.result ∧ b.Ready s.machine.memory c.call.proxy.resultSize bss ∧
      s.view number = ⟨some (.queued p), none, [], []⟩ ∧ s.natives c.result = 0 := by
  have hview : (s.view number).work = some (.queued p) := hwork
  obtain ⟨c, hc⟩ := h.issued_of_view number fun hnone => by
    rw [hnone] at hview
    cases hview
  cases h.phase number c hc with
  | queued encode returned result ready owns view natives =>
    rw [view] at hview
    cases hview
    exact ⟨c, _, _, hc, rfl, encode, returned, result, ready, view, natives⟩
  | _ => simp_all

theorem Inv.ran (h : Inv s) {number : Nat} {p : AsyncCallParams E W}
    (hwork : s.works number = some (.ran p)) :
    ∃ c bss b world, s.issued number = some c ∧ p = c.call.proxy.params b number ∧
      encodeAll 0 c.call.argTypes c.call.arguments = .ok bss ∧ c.returned = .ok () ∧
      b.result = c.result ∧ s.machine.memory.blocks c.result =
        c.call.proxy.resultBlock (c.call.fn bss world).1.bytes ∧
      s.view number = ⟨some (.ran p), some world, [], []⟩ ∧ s.natives c.result = 1 := by
  have hview : (s.view number).work = some (.ran p) := hwork
  obtain ⟨c, hc⟩ := h.issued_of_view number fun hnone => by
    rw [hnone] at hview
    cases hview
  cases h.phase number c hc with
  | ran encode returned result block view natives =>
    rw [view] at hview
    cases hview
    exact ⟨c, _, _, _, hc, rfl, encode, returned, result, block, view, natives⟩
  | _ => simp_all

theorem Inv.work (h : Inv s) {number : Nat} {p : AsyncCallParams E W}
    (hwork : s.works number = some (.queued p)) : Inv (s.work number) := by
  obtain ⟨c, bss, b, hc, rfl, encode, returned, result, ready, view, natives⟩ := h.queued hwork
  have hs : s.work number = { s with
      machine := { s.machine with
        memory := s.machine.memory.setBlock b.result
          (c.call.proxy.resultBlock (c.call.fn bss s.machine.world).1.bytes)
        world := (c.call.fn bss s.machine.world).2
        ticks := s.machine.ticks ++ reports (c.call.fn bss s.machine.world).1.thrown
        log := s.machine.log ++ [.native (.block b.result)] }
      works := Function.update s.works number (some (.ran (c.call.proxy.params b number)))
      ranIn := Function.update s.ranIn number (some s.machine.world) } := by
    unfold Loop.work
    rw [hwork]
    dsimp only
    rw [work_eq encode ready number]
  have hticks : ∀ k, (s.work number).machine.ticks.filterMap (Loop.deferredOf k) =
      s.machine.ticks.filterMap (Loop.deferredOf k) := by
    intro k
    rw [hs, List.filterMap_append, filterMap_reports, List.append_nil]
  have hlog : ∀ k, (s.work number).machine.log.filterMap (Loop.callbackOf k) =
      s.machine.log.filterMap (Loop.callbackOf k) := by
    intro k
    rw [hs, List.filterMap_append]
    exact List.append_nil _
  have hnatives : ∀ r, (s.work number).natives r =
      s.natives r + [Event.native (E := E) (.block b.result)].countP (Loop.isNative r) := by
    intro r
    rw [hs]
    exact natives_append rfl r
  have hview : ∀ k, k ≠ number → (s.work number).view k = s.view k := by
    intro k hk
    apply view_eq _ _ (hticks k) (hlog k)
    · rw [hs]
      exact Function.update_of_ne hk _ _
    · rw [hs]
      exact Function.update_of_ne hk _ _
  have hbounds := h.bounds number c hc
  have hmemory : (s.work number).machine.memory.next = s.machine.memory.next := by rw [hs]; rfl
  apply h.update (s.work number) (some number)
  · rw [hs]
  · rw [hs]
  · rw [hs]
    exact h.pending
  · exact Nat.le_of_eq hmemory.symm
  · intro r hr
    rw [hnatives r, isNative_ne (by omega)]
    rfl
  · intro k hk
    exact hview k fun heq => hk (congrArg some heq)
  · exact h.lt_of_moved hc
  · apply phase_of_moved hc
    refine @Phase.ran E W _ _ number c bss b s.machine.world encode returned result ?_ ?_ ?_
    · rw [hs, ← result]
      exact setBlock_same _ _ _
    · apply view_mk
      · rw [hs]
        exact Function.update_self _ _ _
      · rw [hs]
        exact Function.update_self _ _ _
      · exact (hticks number).trans (congrArg View.deferred view)
      · exact (hlog number).trans (congrArg View.callbacks view)
    · rw [hnatives, natives, result]
      simp [Loop.isNative]
  · intro k c' hc' hk
    have hne : k ≠ number := fun heq => hk (congrArg some heq)
    have hforeign := h.foreign hc' hc hne
    refine ⟨hview k hne, ?_, ?_⟩
    · rw [hnatives, isNative_ne]
      · rfl
      · have hbounds' := h.bounds k c' hc'
        rcases hforeign with hlt | hle
        · omega
        · omega
    · rw [hs]
      apply keeps_setBlock
      rw [result]
      exact hforeign

/-- What a completion adds to the log. -/
def completionEvent (call : Call E W) (number : Nat) (bytes : List Byte) : Event E :=
  match call.returnType.decode (call.proxy.resultBytes bytes) with
  | .ok value => .callback number [.null, value]
  | .error e => .uncaught e

omit [Objects E] in
theorem callbackOf_completionEvent (call : Call E W) (number : Nat) (bytes : List Byte) (k : Nat) :
    [completionEvent call number bytes].filterMap (callbackOf k) =
      if number = k then call.completed bytes else [] := by
  unfold completionEvent Call.completed
  by_cases hk : number = k
  · rw [if_pos hk]
    cases call.returnType.decode (call.proxy.resultBytes bytes) with
    | ok value => simp [callbackOf, hk]
    | error e => rfl
  · rw [if_neg hk]
    cases call.returnType.decode (call.proxy.resultBytes bytes) with
    | ok value => simp [callbackOf, hk]
    | error e => rfl

omit [Objects E] in
theorem isNative_completionEvent (call : Call E W) (number : Nat) (bytes : List Byte) (r : Nat) :
    [completionEvent call number bytes].countP (isNative r) = 0 := by
  unfold completionEvent
  cases call.returnType.decode (call.proxy.resultBytes bytes) with
  | ok value => rfl
  | error e => rfl

theorem Inv.finish (h : Inv s) {number : Nat} {p : AsyncCallParams E W}
    (hwork : s.works number = some (.ran p)) : Inv (s.finish number) := by
  obtain ⟨c, bss, b, world, hc, rfl, encode, returned, result, block, view, natives⟩ := h.ran hwork
  have hbounds := h.bounds number c hc
  have hfinish := finishAsyncFFICall_eq (p := c.call.proxy) (c := b) (m := s.machine)
    (by rw [result]; omega) (by rw [result]; exact block) number
  have hs : s.finish number = { s with
      machine := s.machine.logEvent
        (completionEvent c.call number (c.call.fn bss world).1.bytes)
      works := Function.update s.works number none } := by
    unfold Loop.finish
    rw [hwork]
    dsimp only
    rw [hfinish]
    rfl
  have hlog : ∀ k, (s.finish number).machine.log.filterMap (callbackOf k) =
      s.machine.log.filterMap (callbackOf k) ++
        if number = k then c.call.completed (c.call.fn bss world).1.bytes else [] := by
    intro k
    rw [← callbackOf_completionEvent, hs]
    exact List.filterMap_append
  have hnatives : ∀ r, (s.finish number).natives r = s.natives r := by
    intro r
    rw [hs, natives_append (s := s) rfl, isNative_completionEvent]
    rfl
  have hview : ∀ k, k ≠ number → (s.finish number).view k = s.view k := by
    intro k hk
    apply view_eq
    · rw [hs]
      exact Function.update_of_ne hk _ _
    · rw [hs]
    · rw [hs]
      rfl
    · rw [hlog k, if_neg hk.symm, List.append_nil]
  apply h.update_quiet (s.finish number) (some number) (by rw [hs]; exact ⟨rfl, rfl, rfl, rfl⟩)
    hnatives
  · intro k hk
    exact hview k fun heq => hk (congrArg some heq)
  · exact h.lt_of_moved hc
  · apply phase_of_moved hc
    refine @Phase.finished E W _ _ number c bss world encode returned ?_ ?_
    · apply view_mk
      · rw [hs]
        exact Function.update_self _ _ _
      · rw [hs]
        exact congrArg View.ranIn view
      · rw [hs]
        exact congrArg View.deferred view
      · rw [hlog number, if_pos rfl]
        have hcallbacks := congrArg View.callbacks view
        change s.machine.log.filterMap (callbackOf number) = [] at hcallbacks
        rw [hcallbacks, List.nil_append]
    · rw [hnatives, natives]

theorem Inv.deferred (h : Inv s) {number : Nat} {e : Val E} {rest : List (Val E)}
    (hdeferred : (s.view number).deferred = e :: rest) :
    ∃ c i e₀, s.issued number = some c ∧
      encodeAll 0 c.call.argTypes c.call.arguments = .error (i, e₀) ∧
      assignMessage (settingArgument i) e₀ = .ok e ∧ c.returned = .ok () ∧
      s.view number = ⟨none, none, [e], []⟩ ∧ s.natives c.result = 0 := by
  obtain ⟨c, hc⟩ := h.issued_of_view number fun hnone => by
    rw [hnone] at hdeferred
    cases hdeferred
  cases h.phase number c hc with
  | deferred encode message returned view natives =>
    rw [view] at hdeferred
    cases hdeferred
    exact ⟨c, _, _, hc, encode, message, returned, view, natives⟩
  | _ => simp_all

theorem Inv.tick_throwError (h : Inv s) {err : Val E} {ts : List (Tick E)}
    (hticks : s.machine.ticks = .throwError err :: ts) : Inv s.tick := by
  have hs : s.tick = { s with machine := { s.machine with
      ticks := ts, log := s.machine.log ++ [.uncaught (rethrown err)] } } := by
    unfold Loop.tick
    rw [hticks]
    rfl
  have hview : ∀ k, s.tick.view k = s.view k := by
    intro k
    rw [hs]
    apply view_eq (s := s) (by rfl) (by rfl)
    · rw [hticks]
      rfl
    · rw [List.filterMap_append]
      exact List.append_nil _
  have hnatives : ∀ r, s.tick.natives r = s.natives r := by
    intro r
    rw [hs, natives_append (s := s) rfl]
    rfl
  apply h.update_quiet s.tick none (by rw [hs]; exact ⟨rfl, rfl, rfl, rfl⟩) hnatives
  · intro k _
    exact hview k
  · intro k hk
    cases hk
  · intro k c _ hk
    cases hk

theorem Inv.tick_callback (h : Inv s) {number : Nat} {e : Val E} {ts : List (Tick E)}
    (hticks : s.machine.ticks = .callback number e :: ts) : Inv s.tick := by
  have hs : s.tick = { s with machine := { s.machine with
      ticks := ts, log := s.machine.log ++ [.callback number [e]] } } := by
    unfold Loop.tick
    rw [hticks]
    rfl
  have hdeferred : (s.view number).deferred = e :: ts.filterMap (deferredOf number) := by
    unfold Loop.view
    rw [hticks]
    simp [deferredOf]
  obtain ⟨c, i, e₀, hc, encode, message, returned, view, natives⟩ := h.deferred hdeferred
  have hview : ∀ k, k ≠ number → s.tick.view k = s.view k := by
    intro k hk
    rw [hs]
    apply view_eq (s := s) (by rfl) (by rfl)
    · rw [hticks]
      simp [deferredOf, hk.symm]
    · simp [callbackOf, hk.symm]
  have hnatives : ∀ r, s.tick.natives r = s.natives r := by
    intro r
    rw [hs, natives_append (s := s) rfl]
    rfl
  apply h.update_quiet s.tick (some number) (by rw [hs]; exact ⟨rfl, rfl, rfl, rfl⟩) hnatives
  · intro k hk
    exact hview k fun heq => hk (congrArg some heq)
  · exact h.lt_of_moved hc
  · apply phase_of_moved hc
    refine .told encode message returned ?_ (by rw [hnatives, natives])
    rw [view] at hdeferred
    rw [hs]
    apply view_mk
    · exact congrArg View.work view
    · exact congrArg View.ranIn view
    · exact (List.cons.inj hdeferred).2.symm
    · have hcallbacks := congrArg View.callbacks view
      change s.machine.log.filterMap (callbackOf number) = [] at hcallbacks
      rw [List.filterMap_append, hcallbacks]
      simp [callbackOf]

theorem Inv.tick (h : Inv s) : Inv s.tick := by
  cases hticks : s.machine.ticks with
  | nil =>
    have hs : s.tick = s := by
      unfold Loop.tick
      rw [hticks]
    rw [hs]
    exact h
  | cons t ts =>
    rcases t with err | ⟨number, e⟩
    · exact h.tick_throwError hticks
    · exact h.tick_callback hticks

theorem async_state {call : Call E W} {m : Machine E W}
    {result : Except (Val E) (Option (AsyncCallParams E W))}
    (hasync : call.proxy.async call.arguments (some s.next) s.machine = (result, m)) :
    s.async call =
      { machine := m
        issued := Function.update s.issued s.next
          (some ⟨call, s.machine.memory.next, m.memory.next, result.map fun _ => ()⟩)
        next := s.next + 1
        works := Function.update s.works s.next (queuedWork result)
        ranIn := s.ranIn } := by
  unfold Loop.async
  rw [hasync]

theorem Inv.async_view (h : Inv s) {call : Call E W} {m : Machine E W}
    {result : Except (Val E) (Option (AsyncCallParams E W))} {deferred : List (Val E)}
    (hasync : call.proxy.async call.arguments (some s.next) s.machine = (result, m))
    (hlog : m.log = s.machine.log)
    (hticks : m.ticks.filterMap (deferredOf s.next) = deferred) :
    (s.async call).view s.next = ⟨queuedWork result, none, deferred, []⟩ ∧
      (s.async call).natives s.machine.memory.next = 0 := by
  have hfresh := h.fresh s.next (Nat.le_refl _)
  rw [async_state hasync]
  constructor
  · apply view_mk
    · exact Function.update_self _ _ _
    · exact congrArg View.ranIn hfresh
    · exact hticks
    · rw [hlog]
      exact congrArg View.callbacks hfresh
  · unfold Loop.natives
    rw [hlog]
    exact h.unused s.machine.memory.next (Nat.le_refl _)

theorem Inv.issue (h : Inv s) {call : Call E W} {m : Machine E W}
    {result : Except (Val E) (Option (AsyncCallParams E W))}
    (hasync : call.proxy.async call.arguments (some s.next) s.machine = (result, m))
    (hpending : m.pending = none) (hmemory : Extends s.machine.memory m.memory)
    (hnext : s.machine.memory.next < m.memory.next) (hlog : m.log = s.machine.log)
    (hticks : ∀ k, k ≠ s.next →
      m.ticks.filterMap (deferredOf k) = s.machine.ticks.filterMap (deferredOf k))
    (hphase : Phase (s.async call) s.next
      ⟨call, s.machine.memory.next, m.memory.next, result.map fun _ => ()⟩) :
    Inv (s.async call) := by
  have hs := async_state hasync
  have hself : (s.async call).issued s.next =
      some ⟨call, s.machine.memory.next, m.memory.next, result.map fun _ => ()⟩ := by
    rw [hs]
    exact Function.update_self _ _ _
  have hold : ∀ k, k ≠ s.next → (s.async call).issued k = s.issued k := by
    intro k hk
    rw [hs]
    exact Function.update_of_ne hk _ _
  have hview : ∀ k, k ≠ s.next → (s.async call).view k = s.view k := by
    intro k hk
    rw [hs]
    apply view_eq (s := s) (Function.update_of_ne hk _ _) (by rfl) (hticks k hk)
    rw [hlog]
  have hnatives : ∀ r, (s.async call).natives r = s.natives r := by
    intro r
    rw [hs]
    unfold Loop.natives
    rw [hlog]
  have hmachine : (s.async call).machine = m := by rw [hs]
  have hnumber : (s.async call).next = s.next + 1 := by rw [hs]
  refine ⟨?_, ?_, ?_, ?_, ?_, ?_, ?_⟩
  · rw [hmachine]
    exact hpending
  · intro k c hc
    by_cases hk : k = s.next
    · subst hk
      rw [hself] at hc
      cases hc
      exact hphase
    · rw [hold k hk] at hc
      apply (h.phase k c hc).unaffected (h.bounds k c hc)
      apply unaffected_extends (hview k hk) (hnatives _)
      rw [hmachine]
      exact hmemory
  · intro k
    rw [hnumber]
    by_cases hk : k = s.next
    · subst hk
      rw [hself]
      simp
    · rw [hold k hk, h.issued k]
      omega
  · intro k hk
    rw [hnumber] at hk
    rw [hview k (by omega)]
    exact h.fresh k (by omega)
  · intro k c hc
    rw [hmachine]
    by_cases hk : k = s.next
    · subst hk
      rw [hself] at hc
      cases hc
      exact ⟨hnext, Nat.le_refl _⟩
    · rw [hold k hk] at hc
      have hbounds := h.bounds k c hc
      omega
  · intro j k c d hc hd hlt
    by_cases hk : k = s.next
    · subst hk
      rw [hself] at hd
      cases hd
      rw [hold j (by omega)] at hc
      exact (h.bounds j c hc).2
    · rw [hold k hk] at hd
      have hk' := h.lt_next hd
      rw [hold j (by omega)] at hc
      exact h.disjoint j k c d hc hd hlt
  · intro r hr
    rw [hmachine] at hr
    rw [hnatives r]
    exact h.unused r (by omega)

theorem Inv.async (h : Inv s) (call : Call E W) : Inv (s.async call) := by
  have hdeferred : s.machine.ticks.filterMap (deferredOf s.next) = [] :=
    congrArg View.deferred (h.fresh s.next (Nat.le_refl _))
  cases henc : encodeAll 0 call.argTypes call.arguments with
  | error ie =>
    obtain ⟨i, e⟩ := ie
    obtain ⟨mem, hmem, hnext, hasync⟩ := async_error (p := call.proxy) call.arity s.next
      s.machine henc
    cases hmessage : assignMessage (settingArgument i) e with
    | error e' =>
      rw [hmessage] at hasync
      obtain ⟨hview, hnatives⟩ := h.async_view hasync rfl hdeferred
      exact h.issue hasync h.pending hmem hnext rfl (fun _ _ => rfl)
        (.threw henc hmessage rfl hview hnatives)
    | ok e' =>
      rw [hmessage] at hasync
      have hadded : (s.machine.ticks ++ [Tick.callback s.next e']).filterMap (deferredOf s.next) =
          [e'] := by
        rw [List.filterMap_append, hdeferred]
        simp [deferredOf]
      obtain ⟨hview, hnatives⟩ := h.async_view hasync rfl hadded
      refine h.issue hasync h.pending hmem hnext rfl ?_
        (.deferred henc hmessage rfl hview hnatives)
      intro k hk
      rw [List.filterMap_append]
      simp [deferredOf, hk.symm]
  | ok bss =>
    obtain ⟨mem, b, hmem, hresult, hready, hnew, hasync⟩ := async_ok (p := call.proxy) call.arity
      henc s.next s.machine
    have hnext : s.machine.memory.next < mem.next := hresult ▸ hready.result_lt
    obtain ⟨hview, hnatives⟩ := h.async_view hasync rfl hdeferred
    refine h.issue hasync h.pending hmem hnext rfl (fun _ _ => rfl)
      (.queued henc rfl hresult ?_ ?_ hview hnatives)
    · rw [async_state hasync]
      exact hready
    · intro x hx
      exact ⟨hnew x hx, hready.lt hx⟩

omit [Objects E] in
theorem enabled_work {number : Nat} (h : s.enabled (.work number) = true) :
    ∃ p, s.works number = some (.queued p) := by
  unfold Loop.enabled at h
  cases hwork : s.works number with
  | none => simp [hwork] at h
  | some work =>
    cases work with
    | queued p => exact ⟨p, rfl⟩
    | ran p => simp [hwork] at h

omit [Objects E] in
theorem enabled_finish {number : Nat} (h : s.enabled (.finish number) = true) :
    ∃ p, s.works number = some (.ran p) := by
  unfold Loop.enabled at h
  cases hwork : s.works number with
  | none => simp [hwork] at h
  | some work =>
    cases work with
    | queued p => simp [hwork] at h
    | ran p => exact ⟨p, rfl⟩

/-- **The invariant holds in every state that is reached.** -/
theorem inv_run {world : W} {memory : Memory} {actions : List (Action E W)}
    (hrun : (Loop.system E W).run (Loop.init world memory) actions = some s) : Inv s := by
  refine Transition.Lts.run_induction (fun _ u => Inv u) (inv_init world memory) ?_ hrun
  intro _ u action _ hu henabled
  cases action with
  | async call => exact hu.async call
  | sync call => exact hu.sync call
  | work number =>
    obtain ⟨p, hwork⟩ := enabled_work henabled
    exact hu.work hwork
  | finish number =>
    obtain ⟨p, hwork⟩ := enabled_finish henabled
    exact hu.finish hwork
  | tick => exact hu.tick
  | program world buffers => exact hu.program world buffers

end NodeFfi.Marshal
