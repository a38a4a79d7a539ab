import NodeFfi.Unix64.Cif

/-!
# A call from `ffi_call` to a closure

A call that one side makes through `ffi_call` and the other takes through a closure, each with a
`cif` of its own for the same types: `callClosure` is everything in between, from `avalue` of the
caller to `avalue` of the closure's function, and back. `Leftovers` is all that the code finds where
nothing has been written. The call goes through unless an argument aborts it, the function sees
every scalar of its arguments, and its result arrives where `resultPlace` says (`callClosure_spec`,
`callClosure_abort`).
-/

namespace NodeFfi.Unix64

open Libffi Layout Bytes

/-- What is on the stack and in the registers before. -/
structure Leftovers where
  /-- The arrays of `classify_argument`: for the two `cif`s, for `ffi_call` and for the closure. -/
  callerFrames : Frames
  closureFrames : Frames
  callFrames : Frames
  innerFrames : Frames
  classes : Classes
  argClasses : Nat → Classes
  saved : Area
  pushed : Area
  xmm : Nat → Area
  frame : Area
  copy : Area
  registers : ResultRegisters

/-- After the call: what the function saw, and the memory of the caller. -/
structure Outcome where
  arguments : List Area
  memory : Area

/-- The size of a result. -/
def resultSize : Option FfiType → Nat
  | none => 0
  | some t => t.size.toNat

/-- The closure: its trampoline, `ffi_closure_unix64` and its function `f`. The outcome is with the
registers that it returns; of the memory only a result that goes there is new. -/
def runClosure (left : Leftovers) (cif : Cif) (entry : Entry) (f : List Area → Area) :
    Option (List Area × Area × ResultRegisters) := do
  let regArgs := saveRegisters entry cif.carry left.frame
  let (place, ret, avalue) ← ffiClosureUnix64Inner left.innerFrames cif regArgs left.copy
    (entry.rsp + 8) left.classes left.argClasses
  let arguments := avalue.map fun p => p.deref regArgs entry.memory
  match place with
  | .address a => do
    let registers ← loadResult ret left.frame left.registers
    return (arguments, entry.memory.write a (resultSize cif.rtype) (f arguments), registers)
  | .frame => do
    let result := (left.frame.at_ 176).write 0 (resultSize cif.rtype) (f arguments)
    let registers ← loadResult ret result left.registers
    return (arguments, entry.memory, registers)

/-- `ffi_call`, of a closure; `stack` and `allocated` are what it allocates. -/
def callClosure (left : Leftovers) (rtype : Option FfiType) (argTypes : List FfiType)
    (rvalue : Nat) (avalue : List Area) (stack allocated : Nat) (memory : Area)
    (f : List Area → Area) : Option Outcome := do
  let closureCif ← ffiPrepCifMachdep left.closureFrames rtype argTypes left.classes
  let cif ← ffiPrepCifMachdep left.callerFrames rtype argTypes left.classes
  let rvalue := cif.resultAddress rvalue allocated
  let st ← ffiCall left.callFrames cif rvalue avalue stack memory left.classes
  let entry := ffiCallUnix64 stack (cif.bytes.toNat + registerArgsSize) st.ssecount left.saved
    left.pushed left.xmm st.memory
  let (arguments, memory, registers) ← runClosure left closureCif entry f
  let memory ← storeResult cif.flags registers memory rvalue
  return ⟨arguments, memory⟩

/-! ### Addresses and flags -/

theorem structFlags_code {t : FfiType} (h : Laid t) (hne : classOf t 0 ≠ []) (carry : Bool) :
    structFlags (resultSse0 t) (resultSse1 t) carry t.size &&& 0xff ≠ 0 ∧
      testBit (structFlags (resultSse0 t) (resultSse1 t) carry t.size) 0x800 = carry := by
  obtain ⟨hlen, hle⟩ := classOf_length h hne
  obtain ⟨hcode, -, -, -, hcarry, -⟩ := structFlags_spec (resultSse0 t) (resultSse1 t) carry
    (show t.size.toNat ≤ 16 by omega)
  rw [hcode]
  exact ⟨by decide, hcarry⟩

theorem resultFlags_spec {rtype : Option FfiType} (h : ∀ t ∈ rtype, Laid t) (carry : Bool) :
    testBit (resultFlags rtype carry) 0x800 = carry ∧
      (resultFlags rtype carry &&& 0xff = 0 ↔ rtype = none ∨ resultGprs rtype = 1) := by
  cases rtype with
  | none =>
    refine ⟨?_, iff_of_true ?_ (.inl rfl)⟩
    · cases carry <;> decide
    · cases carry <;> decide
  | some t =>
    have ht := h t rfl
    by_cases hne : classOf t 0 = []
    · obtain ⟨hgprs, hflags, -⟩ := result_memory carry hne
      rw [hflags]
      refine ⟨?_, iff_of_true ?_ (.inr hgprs)⟩
      · cases carry <;> decide
      · cases carry <;> decide
    · have hzero : ¬(some t = none ∨ resultGprs (some t) = 1) := by
        rw [result_registers hne]
        simp
      by_cases hcode : code t = ffiTypeStruct
      · rw [(result_struct carry hne hcode).1]
        obtain ⟨hfirst, hcarry⟩ := structFlags_code ht hne carry
        exact ⟨hcarry, iff_of_false hfirst hzero⟩
      · rw [(result_scalar carry hne hcode).1]
        have hbase : t ∈ baseTypes := by
          cases ht with
          | base h => exact h
          | struct => exact absurd rfl hcode
        obtain ⟨hfirst, hcarry⟩ := (base_facts hbase).2.2 carry
        exact ⟨hcarry, iff_of_false hfirst hzero⟩

section cif

variable {rtype : Option FfiType} {cif : Cif} {carry : Bool}

theorem cif_carry (h : ∀ t ∈ rtype, Laid t) (hflags : cif.flags = resultFlags rtype carry) :
    cif.carry = carry := by
  have hbit := (resultFlags_spec h carry).1
  rw [← hflags] at hbit
  exact hbit

theorem cif_retInMemory (h : ∀ t ∈ rtype, Laid t) (hrtype : cif.rtype = rtype)
    (hflags : cif.flags = resultFlags rtype carry) :
    cif.retInMemory = decide (resultGprs rtype = 1) := by
  have hvoid := (resultFlags_spec h carry).2
  unfold Cif.retInMemory Cif.returnsVoid
  rw [hrtype, hflags]
  cases rtype with
  | none => rfl
  | some t =>
    have hiff : resultFlags (some t) carry &&& 0xff = 0 ↔ resultGprs (some t) = 1 := by
      rw [hvoid]
      simp
    by_cases hmem : resultGprs (some t) = 1
    · cases h t rfl with
      | base hbase =>
        rw [result_registers (base_facts hbase).1] at hmem
        exact absurd hmem Nat.zero_ne_one
      | struct =>
        simp only [hiff, hmem, decide_true, Bool.true_and]
    · obtain ⟨size, alignment, type, elements⟩ := t
      simp only [hiff, hmem, decide_false, Bool.and_false]

end cif

/-! ### The way there -/

variable {left : Leftovers} {rtype : Option FfiType} {ts : List FfiType} {avalue : List Area}
  {stack : Nat}

theorem start_bounded (rtype : Option FfiType) (argp : Nat) : (Counts.start rtype argp).Bounded := by
  have hle : resultGprs rtype ≤ 1 := by
    unfold resultGprs
    split
    · exact Nat.zero_le 1
    · split <;> omega
  exact ⟨Nat.le_trans hle (by decide), Nat.zero_le _⟩

theorem start_after (rtype : Option FfiType) (hlaid : ∀ t ∈ ts, Laid t) (hstack : 16 ∣ stack) :
    (Counts.start rtype (stack + registerArgsSize)).after ts =
      ⟨((Counts.start rtype 0).after ts).gpr, ((Counts.start rtype 0).after ts).sse,
        stack + registerArgsSize + stackBytes rtype ts⟩ := by
  have hdvd : 16 ∣ stack + registerArgsSize := Nat.dvd_add hstack (by decide)
  exact Counts.after_add hlaid hdvd (Counts.start rtype 0)

theorem start_wrap (hlaid : ∀ t ∈ ts, Laid t) (hstack : 16 ∣ stack)
    (hwrap : stack + registerArgsSize + stackBytes rtype ts < 2 ^ 64) :
    ((Counts.start rtype (stack + registerArgsSize)).after ts).argp < 2 ^ 64 := by
  rw [start_after rtype hlaid hstack]
  exact hwrap

theorem resultGprs_eq_zero (h : resultGprs rtype ≠ 1) : resultGprs rtype = 0 := by
  unfold resultGprs at h ⊢
  split at h
  · rfl
  · split at h
    · exact absurd rfl h
    · rename_i hne
      exact if_neg hne

theorem ffiCall_eq (frames : Frames) (rvalue : Nat) (avalue : List Area) (stack : Nat)
    (memory : Area) {cif : Cif} {carry : Bool} (hrtype : ∀ t ∈ rtype, Laid t)
    (hcif : cif.rtype = rtype) (hargs : cif.argTypes = ts)
    (hflags : cif.flags = resultFlags rtype carry) (classes : Classes) :
    ∃ st, ffiCall frames cif rvalue avalue stack memory classes =
        passArguments frames stack 0 ts avalue classes st ∧
      st.counts = Counts.start rtype (stack + registerArgsSize) ∧
      (resultGprs rtype = 1 → ∀ k < 8, st.memory (stack + k) = addressBytes rvalue k) ∧
      ∀ b, b < stack ∨ stack + registerArgsSize ≤ b → st.memory b = memory b := by
  unfold ffiCall
  rw [cif_retInMemory hrtype hcif hflags, hargs]
  simp only [decide_eq_true_eq]
  by_cases hmem : resultGprs rtype = 1
  · rw [if_pos hmem]
    refine ⟨_, rfl, ?_, fun _ k hk => Area.write_of_lt hk, fun b hb => ?_⟩
    · unfold Counts.start
      rw [hmem]
      rfl
    · refine Area.write_of_out ?_
      unfold registerArgsSize at hb
      unfold gprOffset
      omega
  · rw [if_neg hmem]
    refine ⟨_, rfl, ?_, fun h => absurd h hmem, fun b _ => rfl⟩
    unfold Counts.start
    rw [resultGprs_eq_zero hmem]
    rfl

section ffiCall

variable (frames : Frames) (rvalue : Nat) (memory : Area) {cif : Cif} {carry : Bool}

theorem ffiCall_spec (hrtype : ∀ t ∈ rtype, Laid t) (hlaid : ∀ t ∈ ts, Laid t)
    (hcif : cif.rtype = rtype) (hargs : cif.argTypes = ts)
    (hflags : cif.flags = resultFlags rtype carry) (hlength : avalue.length = ts.length)
    (hstack : 16 ∣ stack) (hwrap : stack + registerArgsSize + stackBytes rtype ts < 2 ^ 64)
    (hpass : Passable (Counts.start rtype 0) ts) (classes : Classes) :
    ∃ st, ffiCall frames cif rvalue avalue stack memory classes = some st ∧
      st.counts = (Counts.start rtype (stack + registerArgsSize)).after ts ∧
      (resultGprs rtype = 1 → ∀ k < 8, st.memory (stack + k) = addressBytes rvalue k) ∧
      (∀ b, b < stack ∨ stack + registerArgsSize + stackBytes rtype ts ≤ b →
        st.memory b = memory b) ∧
      Holds (Counts.start rtype (stack + registerArgsSize)) ts avalue (st.memory.at_ stack)
        st.memory := by
  obtain ⟨st₀, heq, hcounts, haddress, houtside⟩ := ffiCall_eq frames rvalue avalue stack memory
    hrtype hcif hargs hflags classes
  have hwrap' := start_wrap hlaid hstack hwrap
  have hlast : ((Counts.start rtype (stack + registerArgsSize)).after ts).argp ≤
      stack + registerArgsSize + stackBytes rtype ts := by
    rw [start_after rtype hlaid hstack]
  have hargp : st₀.argp = stack + registerArgsSize := congrArg Counts.argp hcounts
  have hpass' : Passable (Counts.start rtype (stack + registerArgsSize)) ts :=
    (passable_start _ _).mp hpass
  rw [← hcounts] at hwrap' hlast hpass'
  obtain ⟨st, hrun, hafter, hframe, hholds⟩ := passArguments_spec frames hlaid hlength
    (hcounts ▸ start_bounded _ _) hwrap' hpass' (Nat.le_of_eq hargp.symm) hlast 0 classes
  rw [hcounts] at hafter hholds
  refine ⟨st, heq.trans hrun, hafter, fun hmem k hk => ?_, fun b hb => ?_, hholds⟩
  · rw [hframe (stack + k), haddress hmem k hk]
    left
    rw [hcounts]
    unfold Counts.UsedOffset Counts.start
    rw [hmem]
    simp only
    omega
  · rw [hframe b (.inr (.inr hb))]
    exact houtside b (by omega)

theorem ffiCall_abort (hrtype : ∀ t ∈ rtype, Laid t) (hlaid : ∀ t ∈ ts, Laid t)
    (hcif : cif.rtype = rtype) (hargs : cif.argTypes = ts)
    (hflags : cif.flags = resultFlags rtype carry) (hlength : avalue.length = ts.length)
    (hstack : 16 ∣ stack) (hwrap : stack + registerArgsSize + stackBytes rtype ts < 2 ^ 64)
    (hpass : ¬Passable (Counts.start rtype 0) ts) (classes : Classes) :
    ffiCall frames cif rvalue avalue stack memory classes = none := by
  obtain ⟨st₀, heq, hcounts, -, -⟩ := ffiCall_eq frames rvalue avalue stack memory hrtype hcif
    hargs hflags classes
  have hwrap' := start_wrap hlaid hstack hwrap
  have hargp : st₀.argp = stack + registerArgsSize := congrArg Counts.argp hcounts
  have hpass' : ¬Passable (Counts.start rtype (stack + registerArgsSize)) ts :=
    fun h => hpass ((passable_start _ _).mpr h)
  rw [← hcounts] at hwrap' hpass'
  rw [heq]
  exact passArguments_abort frames hlaid hlength (hcounts ▸ start_bounded _ _) hwrap' hpass'
    (Nat.le_of_eq hargp.symm) 0 classes

end ffiCall

theorem saveRegisters_entry {st : CallState} {bytes : Nat} {carry : Bool}
    (hcarry : st.ssecount ≠ 0 → carry = true) (hgpr : st.gprcount ≤ maxGprRegs)
    (hsse : st.ssecount ≤ maxSseRegs) (hbytes : registerArgsSize ≤ bytes) (saved pushed : Area)
    (xmm : Nat → Area) (frame : Area) {k : Nat} (hk : st.counts.UsedOffset k) :
    saveRegisters (ffiCallUnix64 stack bytes st.ssecount saved pushed xmm st.memory) carry frame k =
      st.memory (stack + k) := by
  unfold maxGprRegs at hgpr
  unfold maxSseRegs at hsse
  unfold registerArgsSize at hbytes
  unfold Counts.UsedOffset at hk
  change k < 8 * st.gprcount ∨ 48 ≤ k ∧ k < 48 + 16 * st.ssecount at hk
  have hkeep : ∀ a, a < stack + 176 → (st.memory.write (stack + bytes) 32 saved) a = st.memory a :=
    fun a ha => Area.write_of_out (.inl (by omega))
  unfold saveRegisters ffiCallUnix64
  by_cases hk48 : k < 48
  · rw [if_pos hk48]
    simp only [Area.at_apply, gprOffset]
    rw [show stack + 8 * (k / 8) + k % 8 = stack + k by omega]
    exact hkeep _ (by omega)
  · have hne : st.ssecount ≠ 0 := by omega
    rw [if_neg hk48, if_pos ⟨hcarry hne, by omega⟩]
    simp only [if_neg hne, Area.at_apply, sseOffset]
    rw [show stack + (48 + 16 * ((k - 48) / 16)) + (k - 48) % 16 = stack + k by omega]
    exact hkeep _ (by omega)

theorem entry_memory {m : Area} {bytes ssecount : Nat} (saved pushed : Area) (xmm : Nat → Area)
    {a : Nat} (ha : stack + registerArgsSize ≤ a) (hlt : a < stack + bytes) :
    (ffiCallUnix64 stack bytes ssecount saved pushed xmm m).memory a = m a := by
  unfold registerArgsSize at ha
  unfold ffiCallUnix64
  simp only
  rw [Area.write_of_out (.inr (by omega)), Area.write_of_out (.inl hlt)]

theorem entry_memory_outside {m : Area} {bytes ssecount : Nat} (hbytes : registerArgsSize ≤ bytes)
    (saved pushed : Area) (xmm : Nat → Area) {b : Nat} (hb : b < stack ∨ stack + bytes + 32 ≤ b) :
    (ffiCallUnix64 stack bytes ssecount saved pushed xmm m).memory b = m b := by
  unfold registerArgsSize at hbytes
  unfold ffiCallUnix64
  simp only
  rw [Area.write_of_out (by omega), Area.write_of_out (by omega)]

/-- What the closure's function sees of the arguments. -/
def Sees : List FfiType → List Area → List Area → Prop
  | t :: ts, a :: avalue, b :: arguments =>
    (∀ k, Covers (leaves t) k → b k = a k) ∧ Sees ts avalue arguments
  | [], [], [] => True
  | _, _, _ => False

theorem sees_of_holds {c : Counts} {ps : List Pointer} {regArgs m : Area}
    (hlaid : ∀ t ∈ ts, Laid t) (hlength : avalue.length = ts.length)
    (hholds : Holds c ts avalue regArgs m) (hfinds : Finds c ts ps regArgs) :
    Sees ts avalue (ps.map fun p => p.deref regArgs m) := by
  induction ts generalizing c avalue ps with
  | nil =>
    obtain rfl := List.length_eq_zero_iff.mp hlength
    cases ps with
    | nil => trivial
    | cons p ps => exact hfinds.elim
  | cons t ts ih =>
    match avalue, hlength, ps with
    | a :: avalue, hlength, p :: ps =>
      refine ⟨?_, ih (fun t ht => hlaid t (List.mem_cons_of_mem _ ht)) (Nat.succ.inj hlength)
        hholds.2 hfinds.2⟩
      intro k hk
      have hlt := covers_lt (hlaid t List.mem_cons_self) hk
      show p.deref regArgs m k = a k
      rw [hfinds.1 m k hlt]
      exact hholds.1 k hlt (.inr hk)
    | a :: avalue, hlength, [] => exact hfinds.elim

theorem ffiCall_enters (left : Leftovers) (rvalue : Nat) (memory : Area) {cif : Cif} {carry : Bool}
    (hrtype : ∀ t ∈ rtype, Laid t) (hlaid : ∀ t ∈ ts, Laid t) (hcif : cif.rtype = rtype)
    (hargs : cif.argTypes = ts) (hflags : cif.flags = resultFlags rtype carry)
    (hcarry : decide (((Counts.start rtype 0).after ts).sse ≠ 0) = carry)
    (hbytes : stackBytes rtype ts ≤ cif.bytes.toNat)
    (hbytes' : cif.bytes.toNat < stackBytes rtype ts + 8) (hlength : avalue.length = ts.length)
    (hstack : 16 ∣ stack) (hwrap : stack + registerArgsSize + stackBytes rtype ts < 2 ^ 64)
    (hrvalue : rvalue < 2 ^ 64) (hpass : Passable (Counts.start rtype 0) ts) :
    ∃ st entry, ffiCall left.callFrames cif rvalue avalue stack memory left.classes = some st ∧
      ffiCallUnix64 stack (cif.bytes.toNat + registerArgsSize) st.ssecount left.saved left.pushed
        left.xmm st.memory = entry ∧
      entry.rsp + 8 = stack + registerArgsSize ∧
      (∀ b, b < stack ∨ stack + registerArgsSize + stackBytes rtype ts + 40 ≤ b →
        entry.memory b = memory b) ∧
      (resultGprs rtype = 1 →
        addressOf ((saveRegisters entry carry left.frame).at_ (gprOffset 0)) = rvalue) ∧
      Holds (Counts.start rtype (stack + registerArgsSize)) ts avalue
        (saveRegisters entry carry left.frame) entry.memory := by
  obtain ⟨st, hcall, hcounts, haddress, houtside, hholds⟩ := ffiCall_spec left.callFrames rvalue
    memory hrtype hlaid hcif hargs hflags hlength hstack hwrap hpass left.classes
  have hafter := start_after rtype hlaid hstack
  have hbounded : st.counts.Bounded := by
    rw [hcounts]
    exact (start_bounded _ _).after ts
  have hsse : st.ssecount = ((Counts.start rtype 0).after ts).sse := by
    rw [hafter] at hcounts
    exact congrArg Counts.sse hcounts
  have hargp : st.argp = stack + registerArgsSize + stackBytes rtype ts := by
    rw [hafter] at hcounts
    exact congrArg Counts.argp hcounts
  generalize hentry : ffiCallUnix64 stack (cif.bytes.toNat + registerArgsSize) st.ssecount
    left.saved left.pushed left.xmm st.memory = entry
  have hregisters : ∀ k, st.counts.UsedOffset k →
      saveRegisters entry carry left.frame k = st.memory.at_ stack k := by
    intro k hk
    rw [← hentry]
    refine saveRegisters_entry ?_ hbounded.1 hbounded.2 (Nat.le_add_left _ _) _ _ _ _ hk
    intro hne
    rw [hsse] at hne
    rw [← hcarry]
    exact decide_eq_true hne
  have hmemory : ∀ a, stack + registerArgsSize ≤ a → a < st.counts.argp →
      entry.memory a = st.memory a := by
    intro a ha hlt
    change a < st.argp at hlt
    rw [← hentry]
    exact entry_memory _ _ _ ha (by omega)
  have hrsp : entry.rsp + 8 = stack + registerArgsSize := by
    rw [← hentry]
    unfold ffiCallUnix64 registerArgsSize
    simp only
    omega
  refine ⟨st, entry, hcall, hentry, hrsp, ?_, ?_, ?_⟩
  · intro b hb
    rw [← hentry, entry_memory_outside (Nat.le_add_left _ _) _ _ _ (by omega)]
    exact houtside b (by omega)
  · intro hmem
    rw [← addressOf_addressBytes hrvalue]
    refine addressOf_congr fun k hk => ?_
    rw [← haddress hmem k hk]
    show saveRegisters entry carry left.frame (8 * 0 + k) = st.memory (stack + k)
    rw [Nat.mul_zero, Nat.zero_add]
    refine hregisters k (.inl ?_)
    have hle := (Counts.le_after (Counts.start rtype (stack + registerArgsSize)) ts).1
    change resultGprs rtype ≤ _ at hle
    rw [hcounts]
    omega
  · rw [hcounts] at hregisters hmemory
    exact hholds.congr hlaid ((passable_start _ _).mp hpass) hregisters hmemory

theorem ffiClosureUnix64Inner_spec (frames : Frames) {cif : Cif} (hrtype : ∀ t ∈ rtype, Laid t)
    (hlaid : ∀ t ∈ ts, Laid t) (hcif : cif.rtype = rtype) (hargs : cif.argTypes = ts)
    (hlength : avalue.length = ts.length) (hstack : 16 ∣ stack)
    (hwrap : stack + registerArgsSize + stackBytes rtype ts < 2 ^ 64)
    (hpass : Passable (Counts.start rtype 0) ts) {regArgs memory : Area}
    (hholds : Holds (Counts.start rtype (stack + registerArgsSize)) ts avalue regArgs memory)
    (copy : Area) (classes : Classes) (argClasses : Nat → Classes) :
    ∃ ps, ffiClosureUnix64Inner frames cif regArgs copy (stack + registerArgsSize) classes
        argClasses = some (if resultGprs rtype = 1 then
          .address (addressOf (regArgs.at_ (gprOffset 0))) else .frame, resultRet rtype, ps) ∧
      Sees ts avalue (ps.map fun p => p.deref regArgs memory) := by
  have hwrap' := start_wrap hlaid hstack hwrap
  obtain ⟨ps, hfind, hfinds⟩ := findArguments_spec frames
    ⟨resultGprs rtype, 0, stack + registerArgsSize⟩ hlaid hwrap' ((passable_start _ _).mp hpass)
    regArgs copy 0 argClasses
  refine ⟨ps, ?_, sees_of_holds hlaid hlength hholds hfinds⟩
  unfold ffiClosureUnix64Inner
  rw [hcif, hargs, innerReturn_spec frames _ hrtype]
  simp only [Option.bind_eq_bind, Option.bind_some, hfind, Option.pure_def]

/-! ### The way back -/

/-- The value of a result is in memory from `raddr` on. -/
def Returns (rtype : Option FfiType) (result m : Area) (raddr : Nat) : Prop :=
  ∀ t ∈ rtype, ∀ k < valueSize t, m (raddr + k) = result k

theorem storeResult_spec (h : ∀ t ∈ rtype, Laid t) (hregisters : resultGprs rtype ≠ 1) (carry : Bool)
    (result m : Area) (regs : ResultRegisters) (raddr : Nat) :
    ∃ regs' m', loadResult (resultRet rtype) result regs = some regs' ∧
      storeResult (resultFlags rtype carry) regs' m raddr = some m' ∧
      Returns rtype result m' raddr ∧
      ∀ b, b < raddr ∨ raddr + max 8 (resultSize rtype) ≤ b → m' b = m b := by
  cases rtype with
  | none =>
    refine ⟨regs, m, rfl, ?_, fun t ht => (by cases ht), fun b _ => rfl⟩
    cases carry <;> rfl
  | some t =>
    have ht := h t rfl
    have hne : classOf t 0 ≠ [] := fun hnil => hregisters (result_memory carry hnil).1
    have hstores : ∃ regs' m', loadResult (resultRet (some t)) result regs = some regs' ∧
        storeResult (resultFlags (some t) carry) regs' m raddr = some m' ∧
        Stores t result m m' raddr := by
      cases ht with
      | base hbase =>
        obtain ⟨hflags, hret⟩ := result_scalar carry hne (base_facts hbase).2.1
        rw [hflags, hret]
        exact storeResult_scalar hbase carry result m regs raddr
      | struct hne' hall halign hsize =>
        obtain ⟨hflags, hret⟩ := result_struct carry hne rfl
        rw [hflags, hret]
        exact storeResult_struct rfl (.struct hne' hall halign hsize) hne carry result m regs raddr
    obtain ⟨regs', m', hload, hstore, hvalue, hframe⟩ := hstores
    refine ⟨regs', m', hload, hstore, ?_, hframe⟩
    intro t' ht'
    obtain rfl := Option.some.inj ht'
    exact hvalue

theorem valueSize_le (t : FfiType) (h : Laid t) : valueSize t ≤ t.size.toNat := by
  unfold valueSize
  split
  · rename_i hcase
    cases h with
    | base hbase =>
      simp only [baseTypes, List.mem_cons, List.not_mem_nil, or_false] at hbase
      rcases hbase with rfl | rfl | rfl | rfl | rfl | rfl | rfl | rfl | rfl | rfl | rfl | rfl
      all_goals first | decide | exact absurd hcase (by decide)
    | struct =>
      change typeCase ffiTypeStruct = .longdouble at hcase
      rw [typeCase_struct] at hcase
      cases hcase
  · exact Nat.le_refl _

theorem result_inMemory (h : ∀ t ∈ rtype, Laid t) (hmem : resultGprs rtype = 1) (carry : Bool)
    (registers : ResultRegisters) (m : Area) (raddr : Nat) :
    resultRet rtype = 0 ∧ storeResult (resultFlags rtype carry) registers m raddr = some m := by
  have hfirst := (resultFlags_spec h carry).2.mpr (.inr hmem)
  refine ⟨?_, ?_⟩
  · cases rtype with
    | none => rfl
    | some t =>
      by_cases hne : classOf t 0 = []
      · exact (result_memory carry hne).2.2
      · rw [result_registers hne] at hmem
        exact absurd hmem Nat.zero_ne_one
  · unfold storeResult
    rw [hfirst]
    rfl

/-- **The closure's function is called**, and what the assembly code does with the result after it. -/
theorem runClosure_spec (left : Leftovers) (f : List Area → Area) {cif : Cif} {carry : Bool}
    {entry : Entry} {raddr : Nat} (hrtype : ∀ t ∈ rtype, Laid t) (hlaid : ∀ t ∈ ts, Laid t)
    (hcif : cif.rtype = rtype) (hargs : cif.argTypes = ts)
    (hflags : cif.flags = resultFlags rtype carry) (hlength : avalue.length = ts.length)
    (hstack : 16 ∣ stack) (hwrap : stack + registerArgsSize + stackBytes rtype ts < 2 ^ 64)
    (hpass : Passable (Counts.start rtype 0) ts) (hrsp : entry.rsp + 8 = stack + registerArgsSize)
    (haddress : resultGprs rtype = 1 →
      addressOf ((saveRegisters entry carry left.frame).at_ (gprOffset 0)) = raddr)
    (hholds : Holds (Counts.start rtype (stack + registerArgsSize)) ts avalue
      (saveRegisters entry carry left.frame) entry.memory) :
    ∃ arguments m registers m', runClosure left cif entry f = some (arguments, m, registers) ∧
      storeResult (resultFlags rtype carry) registers m raddr = some m' ∧
      Sees ts avalue arguments ∧ Returns rtype (f arguments) m' raddr ∧
      ∀ b, b < raddr ∨ raddr + max 8 (resultSize rtype) ≤ b → m' b = entry.memory b := by
  obtain ⟨ps, hinner, hsees⟩ := ffiClosureUnix64Inner_spec left.innerFrames hrtype hlaid hcif hargs
    hlength hstack hwrap hpass hholds left.copy left.classes left.argClasses
  unfold runClosure
  rw [cif_carry hrtype hflags, hrsp]
  simp only [hinner, hcif, Option.bind_eq_bind, Option.bind_some]
  generalize (ps.map fun p => p.deref (saveRegisters entry carry left.frame) entry.memory) =
    arguments at hsees ⊢
  by_cases hmem : resultGprs rtype = 1
  · obtain ⟨hret, hstore⟩ := result_inMemory hrtype hmem carry left.registers
      (entry.memory.write raddr (resultSize rtype) (f arguments)) raddr
    have hload : loadResult 0 left.frame left.registers = some left.registers := rfl
    rw [if_pos hmem, haddress hmem, hret]
    simp only [hload, Option.bind_some, Option.pure_def]
    refine ⟨_, _, _, _, rfl, hstore, hsees, ?_, ?_⟩
    · intro t ht k hk
      obtain rfl : rtype = some t := ht
      have hle := valueSize_le t (hrtype t rfl)
      exact Area.write_of_lt (show k < t.size.toNat by omega)
    · intro b hb
      exact Area.write_of_out (by omega)
  · obtain ⟨regs', m', hload, hstore, hreturns, hrest⟩ := storeResult_spec hrtype hmem carry
      ((left.frame.at_ 176).write 0 (resultSize rtype) (f arguments)) entry.memory left.registers
      raddr
    rw [if_neg hmem]
    simp only [hload, Option.bind_some, Option.pure_def]
    refine ⟨_, _, _, m', rfl, hstore, hsees, ?_, hrest⟩
    intro t ht k hk
    obtain rfl : rtype = some t := ht
    have hle := valueSize_le t (hrtype t rfl)
    have hwrite : ((left.frame.at_ 176).write 0 (resultSize (some t)) (f arguments)) (0 + k) =
        f arguments k := Area.write_of_lt (Nat.lt_of_lt_of_le hk hle)
    rw [Nat.zero_add] at hwrite
    exact (hreturns t rfl k hk).trans hwrite

/-- Where the caller finds the result: what goes into memory without an address, in the new memory. -/
def resultPlace (rtype : Option FfiType) (rvalue allocated : Nat) : Nat :=
  if rvalue = 0 ∧ resultGprs rtype = 1 then allocated else rvalue

theorem resultPlace_lt {rtype : Option FfiType} {rvalue allocated : Nat}
    (hrvalue : rvalue < 2 ^ 64) (hallocated : allocated < 2 ^ 64) :
    resultPlace rtype rvalue allocated < 2 ^ 64 := by
  unfold resultPlace
  split
  · exact hallocated
  · exact hrvalue

theorem resultAddress_spec {cif : Cif} {carry : Bool} (hrtype : ∀ t ∈ rtype, Laid t)
    (hcif : cif.rtype = rtype) (hflags : cif.flags = resultFlags rtype carry)
    (rvalue allocated : Nat) :
    cif.resultAddress rvalue allocated = resultPlace rtype rvalue allocated := by
  unfold Cif.resultAddress resultPlace
  rw [cif_retInMemory hrtype hcif hflags]
  simp only [decide_eq_true_eq]

/-- **The round trip.** The function sees the scalars of its arguments, its result comes back to
where the caller wants it, and nothing else changes outside the stack. -/
theorem callClosure_spec (left : Leftovers) {rtype : Option FfiType} {ts : List FfiType}
    {avalue : List Area} {stack rvalue allocated : Nat} (memory : Area) (f : List Area → Area)
    (hrtype : ∀ t ∈ rtype, Laid t) (hlaid : ∀ t ∈ ts, Laid t) (hlength : avalue.length = ts.length)
    (hstack : 16 ∣ stack) (hbytes : stackBytes rtype ts < 2 ^ 32 - 8)
    (hwrap : stack + registerArgsSize + stackBytes rtype ts < 2 ^ 64)
    (hrvalue : rvalue < 2 ^ 64) (hallocated : allocated < 2 ^ 64)
    (hpass : Passable (Counts.start rtype 0) ts) :
    ∃ outcome, callClosure left rtype ts rvalue avalue stack allocated memory f = some outcome ∧
      Sees ts avalue outcome.arguments ∧
      Returns rtype (f outcome.arguments) outcome.memory (resultPlace rtype rvalue allocated) ∧
      ∀ b, b < stack ∨ stack + registerArgsSize + stackBytes rtype ts + 40 ≤ b →
        b < resultPlace rtype rvalue allocated ∨
          resultPlace rtype rvalue allocated + max 8 (resultSize rtype) ≤ b →
        outcome.memory b = memory b := by
  obtain ⟨closureCif, hclosure, hrc, hac, hfc, -, -⟩ := ffiPrepCifMachdep_spec left.closureFrames
    hrtype hlaid hbytes left.classes
  obtain ⟨cif, hcaller, hr, ha, hf, hb, hb'⟩ := ffiPrepCifMachdep_spec left.callerFrames
    hrtype hlaid hbytes left.classes
  generalize hcarry : decide (((Counts.start rtype 0).after ts).sse ≠ 0) = carry at hfc hf
  have hraddr := resultAddress_spec hrtype hr hf rvalue allocated
  have hlt : resultPlace rtype rvalue allocated < 2 ^ 64 := resultPlace_lt hrvalue hallocated
  generalize resultPlace rtype rvalue allocated = raddr at hraddr hlt ⊢
  obtain ⟨st, entry, hcall, hentry, hrsp, hkeep, haddress, hholds⟩ := ffiCall_enters left raddr
    memory hrtype hlaid hr ha hf hcarry hb hb' hlength hstack hwrap hlt hpass
  obtain ⟨arguments, m, registers, m', hrun, hstore, hsees, hreturns, hrest⟩ := runClosure_spec left
    f hrtype hlaid hrc hac hfc hlength hstack hwrap hpass hrsp haddress hholds
  unfold callClosure
  rw [hclosure, hcaller]
  simp only [Option.bind_eq_bind, Option.bind_some, hraddr, hcall, hentry, hrun, hf, hstore,
    Option.pure_def]
  exact ⟨_, rfl, hsees, hreturns, fun b hout hraddr => (hrest b hraddr).trans (hkeep b hout)⟩

theorem callClosure_abort (left : Leftovers) {rtype : Option FfiType} {ts : List FfiType}
    {avalue : List Area} {stack rvalue allocated : Nat} (memory : Area) (f : List Area → Area)
    (hrtype : ∀ t ∈ rtype, Laid t) (hlaid : ∀ t ∈ ts, Laid t) (hlength : avalue.length = ts.length)
    (hstack : 16 ∣ stack) (hbytes : stackBytes rtype ts < 2 ^ 32 - 8)
    (hwrap : stack + registerArgsSize + stackBytes rtype ts < 2 ^ 64)
    (hpass : ¬Passable (Counts.start rtype 0) ts) :
    callClosure left rtype ts rvalue avalue stack allocated memory f = none := by
  obtain ⟨closureCif, hclosure, -⟩ := ffiPrepCifMachdep_spec left.closureFrames hrtype hlaid hbytes
    left.classes
  obtain ⟨cif, hcaller, hr, ha, hf, -⟩ := ffiPrepCifMachdep_spec left.callerFrames
    hrtype hlaid hbytes left.classes
  have habort := ffiCall_abort left.callFrames (cif.resultAddress rvalue allocated) memory hrtype
    hlaid hr ha hf hlength hstack hwrap hpass left.classes
  unfold callClosure
  rw [hclosure, hcaller]
  simp only [Option.bind_eq_bind, Option.bind_some, habort, Option.bind_none]

/-- **A call reaches the function and its result comes back, unless an argument aborts it.** -/
theorem callClosure_roundTrip (left : Leftovers) {rtype : Option FfiType} {ts : List FfiType}
    {avalue : List Area} {stack rvalue allocated : Nat} (memory : Area) (f : List Area → Area)
    (hrtype : ∀ t ∈ rtype, Laid t) (hlaid : ∀ t ∈ ts, Laid t) (hlength : avalue.length = ts.length)
    (hstack : 16 ∣ stack) (hbytes : stackBytes rtype ts < 2 ^ 32 - 8)
    (hwrap : stack + registerArgsSize + stackBytes rtype ts < 2 ^ 64)
    (hrvalue : rvalue < 2 ^ 64) (hallocated : allocated < 2 ^ 64) :
    (callClosure left rtype ts rvalue avalue stack allocated memory f = none ↔
        ¬Passable (Counts.start rtype 0) ts) ∧
      ∀ outcome, callClosure left rtype ts rvalue avalue stack allocated memory f = some outcome →
        Sees ts avalue outcome.arguments ∧
        Returns rtype (f outcome.arguments) outcome.memory (resultPlace rtype rvalue allocated) ∧
        ∀ b, b < stack ∨ stack + registerArgsSize + stackBytes rtype ts + 40 ≤ b →
          b < resultPlace rtype rvalue allocated ∨
            resultPlace rtype rvalue allocated + max 8 (resultSize rtype) ≤ b →
          outcome.memory b = memory b := by
  by_cases hpass : Passable (Counts.start rtype 0) ts
  · obtain ⟨outcome, hrun, hresult⟩ := callClosure_spec left memory f hrtype hlaid hlength hstack
      hbytes hwrap hrvalue hallocated hpass
    rw [hrun]
    refine ⟨iff_of_false (Option.some_ne_none _) (not_not_intro hpass), ?_⟩
    intro outcome' houtcome
    rw [← Option.some.inj houtcome]
    exact hresult
  · rw [callClosure_abort left memory f hrtype hlaid hlength hstack hbytes hwrap hpass]
    exact ⟨iff_of_true rfl hpass, fun _ h => nomatch h⟩

/-- Nothing but zeros. -/
def Leftovers.zeros : Leftovers where
  callerFrames _ _ := .no
  closureFrames _ _ := .no
  callFrames _ _ := .no
  innerFrames _ _ := .no
  classes _ := .no
  argClasses _ _ := .no
  saved := .zero
  pushed := .zero
  xmm _ := .zero
  frame := .zero
  copy := .zero
  registers := ⟨.zero, .zero, .zero, .zero, .zero⟩

theorem callClosure_roundTrip_straddling :
    callClosure .zeros none [⟨12, 4, ffiTypeStruct, some [⟨4, 4, 10, none⟩,
        ⟨8, 4, ffiTypeStruct, some [⟨4, 4, 10, none⟩, ⟨4, 4, 10, none⟩]⟩]⟩]
      0 [.zero] 4096 0 .zero (fun _ => .zero) = none ∧
    callClosure .zeros none [⟨4, 4, 10, none⟩,
        ⟨8, 4, ffiTypeStruct, some [⟨4, 4, 10, none⟩, ⟨4, 4, 10, none⟩]⟩]
      0 [.zero, .zero] 4096 0 .zero (fun _ => .zero) ≠ none ∧
    ∃ outcome, callClosure .zeros (some ⟨24, 8, ffiTypeStruct,
          some [⟨8, 8, 3, none⟩, ⟨8, 8, 3, none⟩, ⟨8, 8, 3, none⟩]⟩) [⟨4, 4, 10, none⟩]
        0 [fun k => .ofNat 8 (k + 1)] 4096 8192 .zero (fun _ k => .ofNat 8 (k + 5)) =
        some outcome ∧
      ∀ k < 24, outcome.memory (8192 + k) = .ofNat 8 (k + 5) := by
  have hint : Laid ⟨4, 4, 10, none⟩ := .base (by simp [baseTypes])
  have hdouble : Laid ⟨8, 8, 3, none⟩ := .base (by simp [baseTypes])
  have hpair : Laid ⟨8, 4, ffiTypeStruct, some [⟨4, 4, 10, none⟩, ⟨4, 4, 10, none⟩]⟩ :=
    .struct (List.cons_ne_nil _ _) (by simpa using hint) (by decide) (by decide)
  have hlaid : Laid ⟨12, 4, ffiTypeStruct, some [⟨4, 4, 10, none⟩,
      ⟨8, 4, ffiTypeStruct, some [⟨4, 4, 10, none⟩, ⟨4, 4, 10, none⟩]⟩]⟩ :=
    .struct (List.cons_ne_nil _ _) (by simpa using ⟨hint, hpair⟩) (by decide) (by decide)
  have htriple : Laid ⟨24, 8, ffiTypeStruct,
      some [⟨8, 8, 3, none⟩, ⟨8, 8, 3, none⟩, ⟨8, 8, 3, none⟩]⟩ :=
    .struct (List.cons_ne_nil _ _) (by simpa using hdouble) (by decide) (by decide)
  refine ⟨?_, ?_, ?_⟩
  · exact (callClosure_roundTrip _ _ _ (fun t h => by cases h) (by simpa using hlaid) rfl
      (by decide) (by decide) (by decide) (by decide) (by decide)).1.mpr (by decide)
  · exact (callClosure_roundTrip _ _ _ (fun t h => by cases h) (by simpa using ⟨hint, hpair⟩) rfl
      (by decide) (by decide) (by decide) (by decide) (by decide)).1.not.mpr (by decide)
  · obtain ⟨hnone, hsome⟩ := callClosure_roundTrip .zeros .zero (fun _ k => .ofNat 8 (k + 5))
      (fun t h => Option.some.inj h ▸ htriple) (by simpa using hint)
      (show [fun k => BitVec.ofNat 8 (k + 1)].length = [_].length from rfl)
      (show 16 ∣ 4096 by decide) (by decide) (by decide) (show 0 < 2 ^ 64 by decide)
      (show 8192 < 2 ^ 64 by decide)
    obtain ⟨outcome, hrun⟩ := Option.ne_none_iff_exists'.mp (hnone.not.mpr (by decide))
    exact ⟨outcome, hrun, (hsome outcome hrun).2.1 _ rfl⟩

end NodeFfi.Unix64
