import NodeFfi.Dlfcn.Posix
import NodeFfi.Dlfcn.Windows

/-!
# Runs of the emulation

Whatever the functions are called for, and whatever Windows answers: what `dlerror` returns is what
POSIX says (`runCalls_posix`), and the functions take from the process what they give back
(`runCalls_balanced`): the error mode, the memory of the converted names, and one load of a library
for each handle that has been closed.
-/

namespace NodeFfi.Dlfcn

open DynamicLibrary Transition

variable {Handle Address : Type} (w : Windows Handle Address)

/-! ### What there is to report -/

/-- What there is to report. -/
def Process.pending (p : Process Handle) : Option (List Char) :=
  if p.lastError = 0 then none else some (Windows.message p.lastError)

theorem pending_of_code {p : Process Handle} {e : ErrorCode} (h : p.lastError = e.code) :
    p.pending = some (Windows.message e.code) := by
  unfold Process.pending
  rw [h, if_neg e.ne_zero]

theorem step_of_code {p' : Process Handle} {o : Outcome Handle (List Char)} {e : ErrorCode}
    (ho : o.failure = some (Windows.message p'.threadError)) (hthread : p'.threadError = e.code)
    (hkept : p'.lastError = e.code) (pending : Option (List Char)) :
    posix.Step pending o p'.pending := by
  rw [hthread] at ho
  rw [pending_of_code hkept]
  exact step_failure ho pending

/-! ### What the functions do -/

section functions

variable (p : Process Handle)

theorem utf8ToWchar_cases (s : Path) :
    (∃ (e : ErrorCode) (next : Nat),
      w.utf8ToWchar s p = (none, { p with threadError := e.code, nextBlock := next })) ∨
    w.utf8ToWchar s p = (some p.nextBlock,
      { p with heap := p.nextBlock :: p.heap, nextBlock := p.nextBlock + 1 }) := by
  unfold Windows.utf8ToWchar Windows.multiByteToWideChar
  cases hfirst : w.convertFails p s with
  | some e => exact .inl ⟨e, p.nextBlock, rfl⟩
  | none =>
    simp only [Nat.add_one_ne_zero, if_false]
    unfold Windows.malloc
    cases hmalloc : w.mallocFails p (((w.wide s).length + 1) * 2) with
    | true => exact .inl ⟨errorOutOfMemory, p.nextBlock, rfl⟩
    | false =>
      simp only [Bool.false_eq_true, if_false]
      cases hsecond : w.convertFails { p with
        heap := p.nextBlock :: p.heap, nextBlock := p.nextBlock + 1 } s with
      | some e =>
        left
        refine ⟨e, p.nextBlock + 1, ?_⟩
        simp [Process.free, Process.fail]
      | none =>
        right
        simp

theorem dlsym_cases (handle : Handle) (name : Path) :
    (∃ address, w.dlsym handle name p = (some address, p)) ∨
    ∃ e : ErrorCode, w.dlsym handle name p =
      (none, { p with threadError := e.code, lastError := e.code }) := by
  unfold Windows.dlsym
  split
  · rename_i address _
    exact .inl ⟨address, rfl⟩
  · rename_i e _
    exact .inr ⟨e, rfl⟩

/-- The log of an attempt to load a library. -/
def loadEvents (file : Path) : List (Event Handle) :=
  [.setErrorMode (p.errorMode ||| semFailCriticalErrors),
    .loadLibrary (p.errorMode ||| semFailCriticalErrors) (w.wide file), .setErrorMode p.errorMode]

/-- Libraries are loaded without a message box, and the main module is never freed. -/
def Allowed (mode : BitVec 32) : Event Handle → Prop
  | .setErrorMode m => m = mode ||| semFailCriticalErrors ∨ m = mode
  | .loadLibrary m _ => m = mode ||| semFailCriticalErrors
  | .freeLibrary handle => handle ≠ w.mainModule

theorem loadEvents_allowed (file : Path) :
    ∀ event ∈ loadEvents w p file, Allowed w p.errorMode event := by
  intro event hevent
  simp only [loadEvents, List.mem_cons, List.not_mem_nil, or_false] at hevent
  rcases hevent with rfl | rfl | rfl
  · exact .inl rfl
  · rfl
  · exact .inr rfl

variable [DecidableEq Handle]

theorem dlopen_cases (file : Path) :
    (∃ (e : ErrorCode) (next : Nat), w.dlopen (some file) p =
      (none, { p with threadError := e.code, lastError := e.code, nextBlock := next })) ∨
    (∃ e : ErrorCode, w.dlopen (some file) p = (none, { p with
      threadError := e.code, lastError := e.code, nextBlock := p.nextBlock + 1,
      log := p.log ++ loadEvents w p file })) ∨
    ∃ handle, w.dlopen (some file) p = (some handle, { p with
      loads := Function.update p.loads handle (p.loads handle + 1), nextBlock := p.nextBlock + 1,
      log := p.log ++ loadEvents w p file }) := by
  unfold Windows.dlopen
  rcases utf8ToWchar_cases w p file with ⟨e, next, hconvert⟩ | hconvert
  · simp only [hconvert]
    exact .inl ⟨e, next, rfl⟩
  · simp only [hconvert]
    unfold Windows.loadLibraryW
    split
    · right; right
      rename_i handle _
      refine ⟨handle, ?_⟩
      simp [Process.setErrorMode, Process.free, loadEvents]
    · right; left
      rename_i e _
      refine ⟨e, ?_⟩
      simp [Process.setErrorMode, Process.free, Process.fail, Process.keepError, loadEvents]

theorem dlclose_cases (handle : Handle) :
    (handle = w.mainModule ∧ w.dlclose handle p = (false, p)) ∨
    (handle ≠ w.mainModule ∧ 0 < p.loads handle ∧ w.dlclose handle p = (false, { p with
      loads := Function.update p.loads handle (p.loads handle - 1),
      log := p.log ++ [.freeLibrary handle] })) ∨
    ∃ e : ErrorCode, handle ≠ w.mainModule ∧ w.dlclose handle p = (true, { p with
      threadError := e.code, lastError := e.code, log := p.log ++ [.freeLibrary handle] }) := by
  unfold Windows.dlclose
  by_cases hmain : handle = w.mainModule
  · exact .inl ⟨hmain, by simp [hmain]⟩
  · right
    unfold Windows.freeLibrary
    cases hfree : w.freeLibraryFails p handle with
    | none => exact .inl ⟨hmain, w.loaded p handle hfree, by simp [hmain]⟩
    | some e => exact .inr ⟨e, hmain, by simp [hmain, Process.fail, Process.keepError]⟩

end functions

/-! ### Calls -/

variable [DecidableEq Handle]

/-- A call of one of the four functions. -/
inductive Call (Handle : Type) where
  | dlopen (file : Option Path)
  | dlclose (handle : Handle)
  | dlsym (handle : Handle) (name : Path)
  | dlerror

/-- How a call ends. The text of a failure is that of the code Windows gave for it, whatever the
emulation has kept. -/
def perform (p : Process Handle) : Call Handle → Outcome Handle (List Char) × Process Handle
  | .dlopen file =>
    match w.dlopen file p with
    | (some handle, p) => (.opened handle, p)
    | (none, p) => (.openFailed (Windows.message p.threadError), p)
  | .dlclose handle =>
    match w.dlclose handle p with
    | (false, p) => (.closed handle, p)
    | (true, p) => (.closeFailed (Windows.message p.threadError), p)
  | .dlsym handle name =>
    match w.dlsym handle name p with
    | (some _, p) => (.found, p)
    | (none, p) => (.notFound (Windows.message p.threadError), p)
  | .dlerror =>
    let (report, p) := dlerror p
    (.error report, p)

def runCalls (p : Process Handle) : List (Call Handle) →
    List (Outcome Handle (List Char)) × Process Handle
  | [] => ([], p)
  | c :: cs =>
    let (o, p) := perform w p c
    let (os, p) := runCalls p cs
    (o :: os, p)

/-- What a process has after a sequence of calls, apart from what there is to report. -/
structure Effect (p p' : Process Handle) (os : List (Outcome Handle (List Char))) : Prop where
  errorMode : p'.errorMode = p.errorMode
  heap : p'.heap = p.heap
  log : ∃ events, p'.log = p.log ++ events ∧ ∀ event ∈ events, Allowed w p.errorMode event
  loads : ∀ h ≠ w.mainModule,
    p'.loads h + os.count (.closed h) = p.loads h + os.count (.opened h)
  main : p.loads w.mainModule ≤ p'.loads w.mainModule

section effect

variable {w} {p p' p'' : Process Handle} {os os' : List (Outcome Handle (List Char))}

theorem Effect.nil : Effect w p p [] :=
  ⟨rfl, rfl, ⟨[], (List.append_nil _).symm, nofun⟩, fun _ _ => rfl, Nat.le_refl _⟩

theorem Effect.append (h : Effect w p p' os) (h' : Effect w p' p'' os') :
    Effect w p p'' (os ++ os') where
  errorMode := h'.errorMode.trans h.errorMode
  heap := h'.heap.trans h.heap
  log := by
    obtain ⟨events, hlog, hall⟩ := h.log
    obtain ⟨events', hlog', hall'⟩ := h'.log
    refine ⟨events ++ events', by rw [hlog', hlog, List.append_assoc], ?_⟩
    intro event hevent
    rcases List.mem_append.mp hevent with hevent | hevent
    · exact hall event hevent
    · rw [← h.errorMode]
      exact hall' event hevent
  loads handle hne := by
    have h₁ := h.loads handle hne
    have h₂ := h'.loads handle hne
    rw [List.count_append, List.count_append]
    omega
  main := Nat.le_trans h.main h'.main

theorem effect_other {o : Outcome Handle (List Char)} {events : List (Event Handle)}
    (hmode : p'.errorMode = p.errorMode) (hheap : p'.heap = p.heap)
    (hlog : p'.log = p.log ++ events) (hloads : p'.loads = p.loads)
    (hall : ∀ event ∈ events, Allowed w p.errorMode event)
    (ho : ∀ h ≠ w.mainModule, o ≠ .closed h ∧ o ≠ .opened h) : Effect w p p' [o] where
  errorMode := hmode
  heap := hheap
  log := ⟨events, hlog, hall⟩
  loads h hne := by
    rw [hloads, List.count_singleton, List.count_singleton, if_neg, if_neg]
    · simpa using (ho h hne).2
    · simpa using (ho h hne).1
  main := by rw [hloads]

/-- A call does what POSIX says, and has its effect. -/
def Performs (w : Windows Handle Address) (p : Process Handle) (c : Call Handle) : Prop :=
  Effect w p (perform w p c).2 [(perform w p c).1] ∧
    posix.Step p.pending (perform w p c).1 (perform w p c).2.pending

theorem performs_dlopen (file : Option Path) : Performs w p (.dlopen file) := by
  have hfailed : ∀ text, ∀ h ≠ w.mainModule, (.openFailed text : Outcome Handle (List Char)) ≠
      .closed h ∧ (.openFailed text : Outcome Handle (List Char)) ≠ .opened h :=
    fun _ h _ => ⟨nofun, nofun⟩
  unfold Performs
  cases file with
  | none =>
    refine ⟨effect_other rfl rfl (List.append_nil _).symm rfl nofun ?_,
      step_quiet ⟨rfl, rfl⟩ _⟩
    intro h hne
    exact ⟨nofun, fun heq => hne (Outcome.opened.inj heq).symm⟩
  | some file =>
    rcases dlopen_cases w p file with ⟨e, next, hopen⟩ | ⟨e, hopen⟩ | ⟨handle, hopen⟩
    · simp only [perform, hopen]
      exact ⟨effect_other rfl rfl (List.append_nil _).symm rfl nofun (hfailed _),
        step_of_code rfl rfl rfl _⟩
    · simp only [perform, hopen]
      exact ⟨effect_other rfl rfl rfl rfl (loadEvents_allowed w p file) (hfailed _),
        step_of_code rfl rfl rfl _⟩
    · simp only [perform, hopen]
      refine ⟨⟨rfl, rfl, ⟨_, rfl, loadEvents_allowed w p file⟩, ?_, ?_⟩, step_quiet ⟨rfl, rfl⟩ _⟩
      · intro h _
        by_cases heq : h = handle
        · subst heq
          simp
        · have hne : handle ≠ h := fun h => heq h.symm
          simp [Function.update_of_ne heq, hne]
      · by_cases heq : w.mainModule = handle
        · simp [heq]
        · simp [Function.update_of_ne heq]

theorem performs_dlclose (handle : Handle) : Performs w p (.dlclose handle) := by
  have hfreed : handle ≠ w.mainModule →
      ∀ event ∈ [Event.freeLibrary handle], Allowed w p.errorMode event := by
    intro hne event hevent
    rw [List.mem_singleton.mp hevent]
    exact hne
  unfold Performs
  rcases dlclose_cases w p handle with ⟨hmain, hclose⟩ | ⟨hne, hpos, hclose⟩ | ⟨e, hne, hclose⟩
  · simp only [perform, hclose]
    refine ⟨effect_other rfl rfl (List.append_nil _).symm rfl nofun ?_,
      step_quiet ⟨rfl, rfl⟩ _⟩
    intro h hne
    exact ⟨fun heq => hne ((Outcome.closed.inj heq).symm.trans hmain), nofun⟩
  · simp only [perform, hclose]
    refine ⟨⟨rfl, rfl, ⟨_, rfl, hfreed hne⟩, ?_, ?_⟩, step_quiet ⟨rfl, rfl⟩ _⟩
    · intro h _
      by_cases heq : h = handle
      · subst heq
        simp
        omega
      · have hne : handle ≠ h := fun h => heq h.symm
        simp [Function.update_of_ne heq, hne]
    · simp [Function.update_of_ne hne.symm]
  · simp only [perform, hclose]
    exact ⟨effect_other rfl rfl rfl rfl (hfreed hne)
      fun h _ => ⟨nofun, nofun⟩, step_of_code rfl rfl rfl _⟩

theorem performs_dlsym (handle : Handle) (name : Path) : Performs w p (.dlsym handle name) := by
  unfold Performs
  rcases dlsym_cases w p handle name with ⟨address, hsym⟩ | ⟨e, hsym⟩
  · simp only [perform, hsym]
    exact ⟨effect_other rfl rfl (List.append_nil _).symm rfl nofun
      fun h _ => ⟨nofun, nofun⟩, step_quiet ⟨rfl, rfl⟩ _⟩
  · simp only [perform, hsym]
    exact ⟨effect_other rfl rfl (List.append_nil _).symm rfl nofun
      fun h _ => ⟨nofun, nofun⟩, step_of_code rfl rfl rfl _⟩

theorem performs_dlerror : Performs w p .dlerror := by
  have herror : ∀ report, ∀ h ≠ w.mainModule, (.error report : Outcome Handle (List Char)) ≠
      .closed h ∧ (.error report : Outcome Handle (List Char)) ≠ .opened h :=
    fun _ h _ => ⟨nofun, nofun⟩
  unfold Performs perform dlerror
  by_cases hzero : p.lastError = 0
  · have hpending : p.pending = none := if_pos hzero
    simp only [hzero, ne_eq, not_true_eq_false, if_false, hpending]
    exact ⟨effect_other rfl rfl (List.append_nil _).symm rfl nofun (herror _),
      step_error none⟩
  · have hpending : p.pending = some (Windows.message p.lastError) := if_neg hzero
    simp only [hzero, ne_eq, not_false_eq_true, if_true, hpending]
    exact ⟨effect_other rfl rfl (List.append_nil _).symm rfl nofun (herror _),
      step_error _⟩

theorem performs (c : Call Handle) : Performs w p c := by
  cases c with
  | dlopen file => exact performs_dlopen file
  | dlclose handle => exact performs_dlclose handle
  | dlsym handle name => exact performs_dlsym handle name
  | dlerror => exact performs_dlerror

/-! ### Runs -/

theorem runCalls_cons (c : Call Handle) (cs : List (Call Handle)) (p : Process Handle) :
    runCalls w p (c :: cs) = ((perform w p c).1 :: (runCalls w (perform w p c).2 cs).1,
      (runCalls w (perform w p c).2 cs).2) := rfl

theorem runCalls_spec (cs : List (Call Handle)) (p : Process Handle) :
    Effect w p (runCalls w p cs).2 (runCalls w p cs).1 ∧
      posix.run p.pending (runCalls w p cs).1 = some (runCalls w p cs).2.pending := by
  induction cs generalizing p with
  | nil => exact ⟨.nil, rfl⟩
  | cons c cs ih =>
    obtain ⟨heffect, hstep⟩ := performs (w := w) (p := p) c
    obtain ⟨hrest, hposix⟩ := ih (perform w p c).2
    rw [runCalls_cons]
    refine ⟨heffect.append hrest, ?_⟩
    rw [Lts.run_cons, ← hstep.2]
    exact ⟨hstep.1, hposix⟩

end effect

/-- **`dlerror` of the emulation is that of POSIX**: in every run it reports the last failure since it
was last called. -/
theorem runCalls_posix (cs : List (Call Handle)) (p : Process Handle) (hnone : p.lastError = 0) :
    posix.run none (runCalls w p cs).1 = some (runCalls w p cs).2.pending ∧
      ∀ pre report post, (runCalls w p cs).1 = pre ++ .error report :: post → ∀ text,
        report = some text ↔ ∃ before o after, pre = before ++ o :: after ∧
          o.failure = some text ∧ ∀ o' ∈ after, o'.Quiet := by
  have hposix := (runCalls_spec (w := w) cs p).2
  have hpending : p.pending = none := if_pos hnone
  rw [hpending] at hposix
  refine ⟨hposix, ?_⟩
  intro pre report post heq text
  rw [heq] at hposix
  obtain ⟨u, hpre, henabled, -⟩ := Lts.run_split hposix
  exact run_error ((Lts.run_snoc none pre _ none).mpr ⟨u, hpre, henabled, rfl⟩) text

/-- A system with one library besides the program. -/
def user32 : Windows Bool Nat where
  wide s := s
  convertFails _ _ := none
  mallocFails _ _ := false
  loadLibrary _ file :=
    if file = "user32.dll".toList then .ok true else .error ⟨126, by decide⟩
  freeLibraryFails p h := if 0 < p.loads h then none else some ⟨6, by decide⟩
  getProcAddress _ _ name :=
    if name = "MessageBoxA".toList then .ok 16 else .error ⟨127, by decide⟩
  mainModule := false
  loaded p h hfree := by
    by_contra hzero
    rw [if_neg hzero] at hfree
    cases hfree

/-- A process in which nothing has happened. -/
def Process.initial : Process Bool where
  threadError := 0
  errorMode := 0
  loads _ := 0
  heap := []
  nextBlock := 0
  log := []
  lastError := 0
  errorMessage := []

theorem runCalls_posix_user32 :
    let calls : List (Call Bool) := [.dlopen (some "gone.dll".toList),
      .dlopen (some "user32.dll".toList), .dlerror, .dlsym true "gone".toList,
      .dlsym true "MessageBoxA".toList, .dlerror, .dlerror]
    let run := runCalls user32 .initial calls
    run.1 = [.openFailed "Win32 error 126".toList, .opened true,
      .error (some "Win32 error 126".toList), .notFound "Win32 error 127".toList, .found,
      .error (some "Win32 error 127".toList), .error none] ∧
    posix.run none run.1 = some run.2.pending := by
  intro calls run
  exact ⟨by decide, (runCalls_posix user32 calls .initial rfl).1⟩

/-- **What a run leaves**: the error mode and the memory are as before, libraries have been loaded
without a message box, and each is loaded as often as it was opened and not closed. -/
theorem runCalls_balanced (cs : List (Call Handle)) (p : Process Handle) :
    Effect w p (runCalls w p cs).2 (runCalls w p cs).1 := (runCalls_spec cs p).1

end NodeFfi.Dlfcn
