import NodeFfi.Closure.Model

/-!
# Invocations of collected callbacks

A block belongs to the last `Callback` call that was given it, its occupant, whether or not that
call succeeded (`lastGiven`). `Occupied` is what a block holds then, and it decides what an
invocation finds: through a Buffer that still exists its own function (`live_dispatch`). Through a
collected one it goes astray if the allocator has overwritten what it needs (`stale_astray`), and
otherwise finds the error message exactly when the occupant of the block has been collected too
(`stale_detected_iff`), or else the function of that occupant, a different callback
(`stale_runs_other`).
-/

namespace NodeFfi.Closure

open Transition Libffi Types

variable {Block Buffer Fn : Type} {s t : State Block Buffer Fn} {l : Label Block Buffer Fn}
  {ls : List (Label Block Buffer Fn)}

/-! ### What a block holds -/

/-- What a block holds of the arguments of its occupant: the last field until it is freed. -/
structure Holds (s : State Block Buffer Fn) (b : Block) (args : CallbackArgs Fn) : Prop where
  argc : (s.info b).argc = args.argc
  resultSize : s.allocated b = true → (s.info b).resultSize = args.resultSize
  errorFunction : s.handle (s.info b).errorFunction = some args.errorReportCallback
  function : ∀ h ∈ (s.info b).function, s.handle h = some args.callback

/-- What a block is to its occupant. -/
def Occupant (s : State Block Buffer Fn) (b : Block) :
    Option (Label Block Buffer Fn) → Prop
  | some (.callback buffer args _ status) => Holds s b args ∧
    if status = .ok then
      ∃ c, s.buffer buffer = some ⟨b, c⟩ ∧ s.allocated b = !c ∧
        ((s.info b).function = none ↔ c = true) ∧ (c = false → s.remains b = .closure)
    else s.allocated b = false ∧ (s.info b).function ≠ none
  | some _ => False
  | none => s.allocated b = false

/-- The block is the same; of a free one only what its last occupant needs. -/
structure Kept (s t : State Block Buffer Fn) (b : Block) : Prop where
  errorFunction : (t.info b).errorFunction = (s.info b).errorFunction
  function : (t.info b).function = (s.info b).function
  argc : (t.info b).argc = (s.info b).argc
  allocated : t.allocated b = s.allocated b
  resultSize : s.allocated b = true → (t.info b).resultSize = (s.info b).resultSize
  remains : s.allocated b = true → t.remains b = s.remains b

theorem Kept.of_eq {b : Block} (hinfo : t.info b = s.info b)
    (halloc : t.allocated b = s.allocated b) (hremains : t.remains b = s.remains b) :
    Kept s t b :=
  ⟨by rw [hinfo], by rw [hinfo], by rw [hinfo], halloc, fun _ => by rw [hinfo], fun _ => hremains⟩

theorem Occupant.congr {b : Block} {o : Option (Label Block Buffer Fn)} (h : Occupant s b o)
    (hkept : Kept s t b)
    (herror : o ≠ none → t.handle (s.info b).errorFunction = s.handle (s.info b).errorFunction)
    (hfunction : o ≠ none → ∀ f ∈ (s.info b).function, t.handle f = s.handle f)
    (hbuffer : ∀ buffer c, s.buffer buffer = some ⟨b, c⟩ → t.buffer buffer = s.buffer buffer) :
    Occupant t b o := by
  match o, h with
  | none, h => exact hkept.allocated.trans h
  | some (.callback buffer args alloc status), ⟨hh, hs⟩ =>
    refine ⟨⟨?_, ?_, ?_, ?_⟩, ?_⟩
    · rw [hkept.argc, hh.argc]
    · intro hused
      rw [hkept.allocated] at hused
      rw [hkept.resultSize hused, hh.resultSize hused]
    · rw [hkept.errorFunction, herror (by simp), hh.errorFunction]
    · rw [hkept.function]
      intro f hf
      rw [hfunction (by simp) f hf, hh.function f hf]
    · rw [hkept.function, hkept.allocated]
      split
      · rw [if_pos ‹_›] at hs
        obtain ⟨c, hc, hused, hfun, hclosure⟩ := hs
        refine ⟨c, (hbuffer buffer c hc).trans hc, hused, hfun, ?_⟩
        rintro rfl
        rw [hkept.remains hused]
        exact hclosure rfl
      · rwa [if_neg ‹_›] at hs

/-! ### Actions that leave the blocks in use alone -/

/-- The action neither gives out nor frees a block. -/
def Label.quiet : Label Block Buffer Fn → Bool
  | .callback _ _ (some _) _ | .collect _ => false
  | _ => true

/-- The blocks that are in use, the handles and the Buffers are the same. -/
structure Quiet (s t : State Block Buffer Fn) : Prop where
  kept : ∀ b, Kept s t b
  handle : t.handle = s.handle
  handles : t.handles = s.handles
  buffer : t.buffer = s.buffer

theorem quiet_of_eq (hinfo : t.info = s.info) (hremains : t.remains = s.remains)
    (halloc : t.allocated = s.allocated) (hhandle : t.handle = s.handle)
    (hhandles : t.handles = s.handles) (hbuffer : t.buffer = s.buffer) : Quiet s t :=
  ⟨fun _ => .of_eq (by rw [hinfo]) (by rw [halloc]) (by rw [hremains]), hhandle, hhandles, hbuffer⟩

/-! ### What an invocation finds -/

theorem lacks_of_closure {buffer : Buffer} {b : Block} {dispatched : Bool}
    (hd : s.dispatching l = some (buffer, b, dispatched)) (hb : s.remains b = .closure) :
    s.lacks l = false := by
  cases l with
  | invoke buffer' =>
    obtain ⟨c, hc, he⟩ := Option.map_eq_some_iff.mp hd
    cases he
    simp [State.lacks, hc, hb]
  | dispatch i =>
    cases hd
    simp [State.lacks, hb]
  | _ => cases hd

theorem report_of_found (m : DataModel) {buffer : Buffer} {b : Block} {dispatched : Bool}
    (hd : s.dispatching l = some (buffer, b, dispatched)) (hfound : s.lacks l = false) :
    s.report m l = some (s.dispatchToV8 m b dispatched) := by
  simp [State.report, hfound, hd]

/-! ### The occupant of a block -/

section occupant

variable [DecidableEq Block]

/-- The action is a `Callback` call that was given the block. -/
def Label.gives (b : Block) : Label Block Buffer Fn → Bool
  | .callback _ _ alloc _ => alloc = some b
  | _ => false

/-- The last `Callback` call that was given the block. -/
def lastGiven (ls : List (Label Block Buffer Fn)) (b : Block) : Option (Label Block Buffer Fn) :=
  (ls.filter (Label.gives b)).getLast?

/-- The last `Callback` call that was given the block returned a Buffer, since collected. -/
def Reclaimed (ls : List (Label Block Buffer Fn)) (b : Block) : Prop :=
  ∃ buffer args, lastGiven ls b = some (.callback buffer args (some b) .ok) ∧ .collect buffer ∈ ls

theorem lastGiven_snoc (b : Block) :
    lastGiven (ls ++ [l]) b = if l.gives b then some l else lastGiven ls b := by
  unfold lastGiven
  rw [List.filter_append]
  by_cases h : l.gives b <;> simp [h]

theorem lastGiven_eq (b : Block) (h : lastGiven ls b = some l) :
    ∃ buffer args status, l = .callback buffer args (some b) status := by
  have hmem : l ∈ ls.filter (Label.gives b) := List.mem_of_getLast? h
  have hg := (List.mem_filter.mp hmem).2
  cases l with
  | callback buffer args alloc status =>
    obtain rfl : alloc = some b := by simpa [Label.gives] using hg
    exact ⟨buffer, args, status, rfl⟩
  | _ => cases hg

theorem lastGiven_collect {buffer : Buffer} (b : Block) :
    lastGiven (ls ++ [.collect buffer]) b = lastGiven ls b := by
  rw [lastGiven_snoc]
  rfl

theorem lastGiven_self {buffer : Buffer} {args : CallbackArgs Fn} {b₀ : Block} {status : Status} :
    lastGiven (ls ++ [.callback buffer args (some b₀) status]) b₀ =
    some (.callback buffer args (some b₀) status) := by
  rw [lastGiven_snoc]
  simp [Label.gives]

theorem lastGiven_of_ne {buffer : Buffer} {args : CallbackArgs Fn} {b₀ : Block} {status : Status}
    {b : Block} (hb : b ≠ b₀) :
    lastGiven (ls ++ [.callback buffer args (some b₀) status]) b = lastGiven ls b := by
  rw [lastGiven_snoc]
  simp [Label.gives, Ne.symm hb]

/-- The handles of the blocks that were given out. -/
structure Handles (ls : List (Label Block Buffer Fn)) (s : State Block Buffer Fn) : Prop where
  fresh : ∀ h, s.handles ≤ h → s.handle h = none
  apart : ∀ b b' h, lastGiven ls b ≠ none → lastGiven ls b' ≠ none →
    (s.info b).function = some h → (s.info b').errorFunction ≠ h
  own : ∀ b b' h, lastGiven ls b ≠ none → lastGiven ls b' ≠ none →
    (s.info b).function = some h → (s.info b').function = some h → b = b'

structure Occupied (ls : List (Label Block Buffer Fn)) (s : State Block Buffer Fn) : Prop where
  occupant : ∀ b, Occupant s b (lastGiven ls b)
  handles : Handles ls s
  given : ∀ buffer c, s.buffer buffer = some c → lastGiven ls c.code ≠ none
  /-- A Buffer that still exists is that of the occupant. -/
  live : ∀ buffer c, s.buffer buffer = some c → c.collected = false →
    ∃ args, lastGiven ls c.code = some (.callback buffer args (some c.code) .ok)
  collected : ∀ buffer, .collect buffer ∈ ls ↔ ∃ b, s.buffer buffer = some ⟨b, true⟩
  queued : ∀ i ∈ s.g_queue, ∃ c, s.buffer i.through = some ⟨i.m_cbinfo, c⟩

namespace Occupied

theorem holds (h : Occupied ls s) {b : Block} {buffer : Buffer} {args : CallbackArgs Fn}
    {alloc : Option Block} {status : Status}
    (hb : lastGiven ls b = some (.callback buffer args alloc status)) : Holds s b args := by
  have ho := h.occupant b
  rw [hb] at ho
  exact ho.1

theorem handle_lt (h : Occupied ls s) {b : Block} (hb : lastGiven ls b ≠ none) :
    (s.info b).errorFunction < s.handles ∧ ∀ f ∈ (s.info b).function, f < s.handles := by
  obtain ⟨l, hl⟩ := Option.ne_none_iff_exists'.mp hb
  obtain ⟨buffer, args, status, rfl⟩ := lastGiven_eq b hl
  have hh := h.holds hl
  refine ⟨?_, fun f hf => ?_⟩
  · by_contra hlt
    have := h.handles.fresh (s.info b).errorFunction (by omega)
    rw [hh.errorFunction] at this
    cases this
  · by_contra hlt
    have := h.handles.fresh f (by omega)
    rw [hh.function f hf] at this
    cases this

theorem function_of_live (h : Occupied ls s) (hbuf : s.buffer buffer = some ⟨b₀, false⟩) :
    ∃ args f, lastGiven ls b₀ = some (.callback buffer args (some b₀) .ok) ∧
      (s.info b₀).function = some f := by
  obtain ⟨args, hlive⟩ := h.live buffer _ hbuf rfl
  have hocc := h.occupant b₀
  rw [hlive] at hocc
  obtain ⟨c, hc, _, hfun, _⟩ := hocc.2
  rw [hbuf] at hc
  cases hc
  have hne : (s.info b₀).function ≠ none := fun he => Bool.noConfusion (hfun.mp he)
  obtain ⟨f, hf⟩ := Option.ne_none_iff_exists'.mp hne
  exact ⟨args, f, hlive, hf⟩

theorem closure_of_live (h : Occupied ls s) (hbuf : s.buffer buffer = some ⟨b₀, false⟩) :
    s.remains b₀ = .closure := by
  obtain ⟨args, hlive⟩ := h.live buffer _ hbuf rfl
  have hocc := h.occupant b₀
  rw [hlive] at hocc
  obtain ⟨c, hc, _, _, hclosure⟩ := hocc.2
  rw [hbuf] at hc
  cases hc
  exact hclosure rfl

theorem through (h : Occupied ls s) (hl : s.enabled l) {buffer : Buffer} {b : Block}
    {dispatched : Bool} (hd : s.dispatching l = some (buffer, b, dispatched)) :
    ∃ c, s.buffer buffer = some ⟨b, c⟩ := by
  cases l with
  | invoke buffer' =>
    obtain ⟨c, hc, he⟩ := Option.map_eq_some_iff.mp hd
    cases he
    exact ⟨c.collected, hc⟩
  | dispatch i =>
    cases hd
    obtain ⟨rest, hrest⟩ := List.head?_eq_some_iff.mp hl.2
    exact h.queued i (by rw [hrest]; simp)
  | _ => cases hd

theorem reclaimed_iff (h : Occupied ls s) {b : Block} (hgiven : lastGiven ls b ≠ none) :
    Reclaimed ls b ↔ (s.info b).function = none := by
  obtain ⟨l, hl⟩ := Option.ne_none_iff_exists'.mp hgiven
  obtain ⟨buffer, args, status, rfl⟩ := lastGiven_eq b hl
  have hocc := h.occupant b
  rw [hl] at hocc
  obtain ⟨_, hs⟩ := hocc
  constructor
  · rintro ⟨buffer', args', he, hmem⟩
    rw [hl] at he
    cases he
    rw [if_pos rfl] at hs
    obtain ⟨c, hc, _, hfun, _⟩ := hs
    obtain ⟨b', hb'⟩ := (h.collected buffer).mp hmem
    rw [hc] at hb'
    cases hb'
    exact hfun.mpr rfl
  · intro hfun
    split at hs
    · subst status
      obtain ⟨c, hc, _, hiff, _⟩ := hs
      rw [hiff.mp hfun] at hc
      exact ⟨buffer, args, hl, (h.collected buffer).mpr ⟨b, hc⟩⟩
    · exact absurd hfun hs.2

theorem resultSize (h : Occupied ls s) {b : Block} {buffer : Buffer}
    {args : CallbackArgs Fn} {alloc : Option Block}
    (hl : lastGiven ls b = some (.callback buffer args alloc .ok)) (hrec : ¬ Reclaimed ls b) :
    (s.info b).resultSize = args.resultSize := by
  have hocc := h.occupant b
  rw [h.reclaimed_iff (by rw [hl]; simp)] at hrec
  rw [hl] at hocc
  obtain ⟨hh, c, _, hused, hfun, _⟩ := hocc
  refine hh.resultSize ?_
  rw [hused, Bool.not_eq_true', Bool.eq_false_iff]
  exact fun hc => hrec (hfun.mpr hc)

theorem dispatchToV8 (m : DataModel) (h : Occupied ls s) {b : Block} {buffer : Buffer}
    {args : CallbackArgs Fn} {alloc : Option Block} {status : Status}
    (hl : lastGiven ls b = some (.callback buffer args alloc status)) (dispatched : Bool) :
    (Reclaimed ls b → s.dispatchToV8 m b dispatched =
      if dispatched then .errorFunction args.errorReportCallback errorMessage
      else .throwError errorMessage) ∧
    (¬ Reclaimed ls b → s.dispatchToV8 m b dispatched =
      .function args.callback (s.info b).resultSize (m.pointerSize * args.argc)) := by
  have hh := h.holds hl
  rw [h.reclaimed_iff (by rw [hl]; simp)]
  unfold State.dispatchToV8
  refine ⟨fun hnone => ?_, fun hsome => ?_⟩
  · simp only [hnone, hh.errorFunction]
  · obtain ⟨f, hf⟩ := Option.ne_none_iff_exists'.mp hsome
    simp only [hf, hh.function f hf, hh.argc]

end Occupied

theorem occupied_initial (info : Block → CallbackInfo) :
    Occupied ([] : List (Label Block Buffer Fn)) (State.initial info) where
  occupant _ := rfl
  handles := ⟨fun _ _ => rfl, fun _ _ _ h => absurd rfl h, fun _ _ _ h => absurd rfl h⟩
  given _ _ h := by cases h
  live _ _ h := by cases h
  collected _ := by simp [State.initial]
  queued _ h := by cases h

theorem kept_manage {b₀ : Block} (hfree : s.allocated b₀ = false) (upkeep : Upkeep) (b : Block) :
    Kept s (s.manage b₀ upkeep) b := by
  by_cases hb : b = b₀
  · subst hb
    cases upkeep <;> constructor <;>
      simp [State.manage, State.setRemains, State.setInfo, hfree]
  · cases upkeep <;> refine .of_eq ?_ ?_ ?_ <;>
      simp [State.manage, State.setRemains, State.setInfo, hb]

theorem occupied_quiet (h : Occupied ls s) (hl : l.quiet = true)
    (ht : Quiet s t)
    (hqueue : ∀ i ∈ t.g_queue, i ∈ s.g_queue ∨ ∃ c, s.buffer i.through = some ⟨i.m_cbinfo, c⟩) :
    Occupied (ls ++ [l]) t := by
  have hgives : ∀ b, l.gives b = false := by
    intro b
    cases l with
    | callback buffer args alloc status =>
      cases alloc with
      | none => rfl
      | some b => cases hl
    | _ => rfl
  have hlast : ∀ b, lastGiven (ls ++ [l]) b = lastGiven ls b := by
    intro b
    rw [lastGiven_snoc, hgives]
    rfl
  refine ⟨?_, ⟨?_, ?_, ?_⟩, ?_, ?_, ?_, ?_⟩
  · intro b
    rw [hlast]
    refine (h.occupant b).congr (ht.kept b) ?_ ?_ ?_ <;> simp [ht.handle, ht.buffer]
  · rw [ht.handles, ht.handle]
    exact h.handles.fresh
  · simp only [hlast, (ht.kept _).function, (ht.kept _).errorFunction]
    exact h.handles.apart
  · simp only [hlast, (ht.kept _).function]
    exact h.handles.own
  · simp only [hlast, ht.buffer]
    exact h.given
  · simp only [hlast, ht.buffer]
    exact h.live
  · intro buffer
    have hne : Label.collect buffer ≠ l := by
      rintro rfl
      cases hl
    rw [List.mem_append, List.mem_singleton, ht.buffer, h.collected]
    simp [hne]
  · intro i hi
    rw [ht.buffer]
    exact (hqueue i hi).elim (h.queued i) id

end occupant

/-! ### What a `Callback` call leaves behind -/

variable [DecidableEq Block]

namespace State

theorem closureAlloc_spec (s : State Block Buffer Fn) (b : Block) :
    ∃ remains, s.closureAlloc b =
      { s with remains := remains, allocated := Function.update s.allocated b true } ∧
        ∀ b' ≠ b, remains b' = s.remains b' := by
  unfold closureAlloc
  simp only
  split
  · exact ⟨_, rfl, fun b' hb => Function.update_of_ne hb _ _⟩
  · exact ⟨_, rfl, fun b' _ => rfl⟩

variable [DecidableEq Buffer]

theorem next_callback (buffer : Buffer) (args : CallbackArgs Fn) (alloc : Option Block)
    (status : Status) :
    s.next (.callback buffer args alloc status) = (s.callback buffer args alloc status).2 := rfl

section callback

variable (s : State Block Buffer Fn) (buffer : Buffer) (args : CallbackArgs Fn) (b : Block)
  (status : Status)

theorem callback_info : (s.callback buffer args (some b) status).2.info =
    Function.update s.info b ⟨s.handles, some (s.handles + 1), args.argc, args.resultSize⟩ := by
  obtain ⟨remains, halloc, -⟩ := closureAlloc_spec s b
  simp only [callback, halloc]
  split <;> rfl

theorem callback_handle : (s.callback buffer args (some b) status).2.handle =
    Function.update (Function.update s.handle s.handles (some args.errorReportCallback))
      (s.handles + 1) (some args.callback) := by
  obtain ⟨remains, halloc, -⟩ := closureAlloc_spec s b
  simp only [callback, halloc]
  split <;> rfl

theorem callback_handles :
    (s.callback buffer args (some b) status).2.handles = s.handles + 2 := by
  obtain ⟨remains, halloc, -⟩ := closureAlloc_spec s b
  simp only [callback, halloc]
  split <;> rfl

theorem callback_allocated : (s.callback buffer args (some b) status).2.allocated =
    Function.update s.allocated b (decide (status = .ok)) := by
  obtain ⟨remains, halloc, -⟩ := closureAlloc_spec s b
  by_cases hok : status = .ok <;>
    simp [callback, halloc, hok, setAllocated, setRemains, setInfo, newHandle]

theorem callback_buffer : (s.callback buffer args (some b) status).2.buffer =
    if status = .ok then Function.update s.buffer buffer (some ⟨b, false⟩) else s.buffer := by
  obtain ⟨remains, halloc, -⟩ := closureAlloc_spec s b
  by_cases hok : status = .ok <;>
    simp [callback, halloc, hok, setAllocated, setRemains, setInfo, newHandle]

theorem callback_g_queue :
    (s.callback buffer args (some b) status).2.g_queue = s.g_queue := by
  obtain ⟨remains, halloc, -⟩ := closureAlloc_spec s b
  simp only [callback, halloc]
  split <;> rfl

theorem callback_remains (b' : Block) :
    (b' ≠ b → (s.callback buffer args (some b) status).2.remains b' = s.remains b') ∧
      (status = .ok → (s.callback buffer args (some b) status).2.remains b = .closure) := by
  obtain ⟨remains, halloc, hrest⟩ := closureAlloc_spec s b
  by_cases hok : status = .ok
  · refine ⟨fun hb => ?_, fun _ => ?_⟩
    · simp [callback, halloc, hok, setRemains, setInfo, newHandle, hb, hrest b' hb]
    · simp [callback, hok, setRemains, setInfo, newHandle]
  · refine ⟨fun hb => ?_, fun h => absurd h hok⟩
    simp [callback, halloc, hok, setAllocated, setInfo, newHandle, hrest b' hb]

end callback

end State

/-! ### The steps -/

variable [DecidableEq Buffer]

theorem quiet_effect (hl : s.permits l) (h : l.quiet = true) : Quiet s (s.effect l) := by
  cases l with
  | callback buffer args alloc status =>
    cases alloc with
    | none => exact quiet_of_eq rfl rfl rfl rfl rfl rfl
    | some b => cases h
  | collect buffer => cases h
  | manage b₀ upkeep =>
    refine ⟨kept_manage hl.1 upkeep, ?_, ?_, ?_⟩
    all_goals cases upkeep <;> rfl
  | invokeThreaded buffer =>
    obtain ⟨c, hc⟩ := Option.ne_none_iff_exists'.mp hl
    simp only [State.effect, hc]
    exact quiet_of_eq rfl rfl rfl rfl rfl rfl
  | invoke buffer | dispatch i => exact quiet_of_eq rfl rfl rfl rfl rfl rfl

theorem quiet_next (hl : s.enabled l) (h : l.quiet = true) : Quiet s (s.next l) := by
  unfold State.next
  split
  · exact quiet_of_eq rfl rfl rfl rfl rfl rfl
  · exact quiet_effect hl.2 h

theorem queue_next {i : Invocation Block Buffer} (hl : s.enabled l) (h : l.quiet = true)
    (hi : i ∈ (s.next l).g_queue) :
    i ∈ s.g_queue ∨ ∃ c, s.buffer i.through = some ⟨i.m_cbinfo, c⟩ := by
  unfold State.next at hi
  split at hi
  · exact .inl hi
  · cases l with
    | callback buffer args alloc status =>
      cases alloc with
      | none => exact .inl hi
      | some b => cases h
    | collect buffer => cases h
    | manage b₀ upkeep => cases upkeep <;> exact .inl hi
    | invoke buffer => exact .inl hi
    | invokeThreaded buffer =>
      obtain ⟨c, hc⟩ := Option.ne_none_iff_exists'.mp hl.2
      simp only [State.effect, hc, List.mem_append, List.mem_singleton] at hi
      rcases hi with hi | rfl
      · exact .inl hi
      · exact .inr ⟨c.collected, hc⟩
    | dispatch j => exact .inl (List.mem_of_mem_tail hi)

section collect

variable {buffer : Buffer} {b₀ : Block} {f : Nat}

/-- The state after `closure_pointer_cb` of a Buffer around `b₀`, whose function is `f`. -/
structure Freed (s t : State Block Buffer Fn) (buffer : Buffer) (b₀ : Block) (f : Nat) : Prop where
  info : t.info = Function.update s.info b₀ { s.info b₀ with function := none }
  remains : t.remains = s.remains
  handle : t.handle = Function.update s.handle f none
  handles : t.handles = s.handles
  allocated : t.allocated = Function.update s.allocated b₀ false
  buffer : t.buffer = Function.update s.buffer buffer (some ⟨b₀, true⟩)
  g_queue : t.g_queue = s.g_queue

theorem freed_collect (hbuf : s.buffer buffer = some ⟨b₀, false⟩)
    (hf : (s.info b₀).function = some f) :
    Freed s (s.next (.collect buffer)) buffer b₀ f := by
  constructor <;>
    simp [State.next, State.lacks, State.effect, hbuf, State.closurePointerCb, hf, State.setInfo,
      State.setAllocated]

theorem handles_collect (h : Occupied ls s) (ht : Freed s t buffer b₀ f) :
    Handles (ls ++ [.collect buffer]) t := by
  have hfields : ∀ b, (t.info b).errorFunction = (s.info b).errorFunction ∧
      ∀ g, (t.info b).function = some g → (s.info b).function = some g := by
    intro b
    by_cases hb : b = b₀ <;> simp [ht.info, hb]
  refine ⟨?_, ?_, ?_⟩
  · intro g hg
    rw [ht.handles] at hg
    rw [ht.handle]
    by_cases he : g = f
    · simp [he]
    · simp [he, h.handles.fresh g hg]
  · intro b b' g hb hb' hg
    rw [lastGiven_collect] at hb hb'
    rw [(hfields b').1]
    exact h.handles.apart b b' g hb hb' ((hfields b).2 g hg)
  · intro b b' g hb hb' hg hg'
    rw [lastGiven_collect] at hb hb'
    exact h.handles.own b b' g hb hb' ((hfields b).2 g hg) ((hfields b').2 g hg')

theorem occupant_collect (h : Occupied ls s) (ht : Freed s t buffer b₀ f)
    (hbuf : s.buffer buffer = some ⟨b₀, false⟩) (hf : (s.info b₀).function = some f) (b : Block) :
    Occupant t b (lastGiven (ls ++ [.collect buffer]) b) := by
  have hgiven : lastGiven ls b₀ ≠ none := h.given buffer _ hbuf
  rw [lastGiven_collect]
  by_cases hb : b = b₀
  · subst hb
    obtain ⟨args, _, hlive, _⟩ := h.function_of_live hbuf
    have hh := h.holds hlive
    have hne := h.handles.apart b b f hgiven hgiven hf
    rw [hlive]
    refine ⟨⟨?_, ?_, ?_, ?_⟩, ?_⟩
    · simp [ht.info, hh.argc]
    · simp [ht.allocated]
    · simp [ht.info, ht.handle, hne, hh.errorFunction]
    · simp [ht.info]
    · simp [ht.buffer, ht.allocated, ht.info]
  · refine (h.occupant b).congr ?_ ?_ ?_ ?_
    · exact .of_eq (by simp [ht.info, hb]) (by simp [ht.allocated, hb]) (by rw [ht.remains])
    · intro hgiven'
      simp [ht.handle, h.handles.apart b₀ b f hgiven hgiven' hf]
    · intro hgiven' g hg
      have hne : g ≠ f := by
        rintro rfl
        exact hb (h.handles.own b b₀ g hgiven' hgiven hg hf)
      simp [ht.handle, hne]
    · intro buffer' c hc
      have hne : buffer' ≠ buffer := by
        rintro rfl
        rw [hbuf] at hc
        cases hc
        exact hb rfl
      simp [ht.buffer, hne]

theorem occupied_collect (h : Occupied ls s) (hbuf : s.buffer buffer = some ⟨b₀, false⟩)
    (hf : (s.info b₀).function = some f) (ht : Freed s t buffer b₀ f) :
    Occupied (ls ++ [.collect buffer]) t := by
  have hgiven : lastGiven ls b₀ ≠ none := h.given buffer _ hbuf
  have hbuffers : ∀ buffer' c, t.buffer buffer' = some c →
      buffer' = buffer ∧ c = ⟨b₀, true⟩ ∨ s.buffer buffer' = some c := by
    intro buffer' c hc
    rw [ht.buffer] at hc
    by_cases he : buffer' = buffer
    · rw [he, Function.update_self, Option.some.injEq] at hc
      exact .inl ⟨he, hc.symm⟩
    · rw [Function.update_of_ne he] at hc
      exact .inr hc
  refine ⟨occupant_collect h ht hbuf hf, handles_collect h ht, ?_, ?_, ?_, ?_⟩
  · intro buffer' c hc
    rw [lastGiven_collect]
    rcases hbuffers buffer' c hc with ⟨_, rfl⟩ | hc
    · exact hgiven
    · exact h.given buffer' c hc
  · intro buffer' c hc hlc
    rw [lastGiven_collect]
    rcases hbuffers buffer' c hc with ⟨_, rfl⟩ | hc
    · cases hlc
    · exact h.live buffer' c hc hlc
  · intro buffer'
    rw [List.mem_append, List.mem_singleton, h.collected, ht.buffer]
    by_cases he : buffer' = buffer <;> simp [he]
  · intro i hi
    rw [ht.g_queue] at hi
    obtain ⟨c, hc⟩ := h.queued i hi
    rw [ht.buffer]
    by_cases he : i.through = buffer
    · rw [he, hbuf] at hc
      cases hc
      exact ⟨true, by simp [he]⟩
    · exact ⟨c, by simp [he, hc]⟩

end collect

section callback

variable {buffer : Buffer} {args : CallbackArgs Fn} {b₀ : Block} {status : Status}

/-- The state after a `Callback` call that was given `b₀`. -/
structure Given (s t : State Block Buffer Fn) (buffer : Buffer) (args : CallbackArgs Fn)
    (b₀ : Block) (status : Status) : Prop where
  info : t.info =
    Function.update s.info b₀ ⟨s.handles, some (s.handles + 1), args.argc, args.resultSize⟩
  handle : t.handle = Function.update (Function.update s.handle s.handles
    (some args.errorReportCallback)) (s.handles + 1) (some args.callback)
  handles : t.handles = s.handles + 2
  allocated : t.allocated = Function.update s.allocated b₀ (decide (status = .ok))
  buffer : t.buffer =
    if status = .ok then Function.update s.buffer buffer (some ⟨b₀, false⟩) else s.buffer
  g_queue : t.g_queue = s.g_queue
  remains_old : ∀ b ≠ b₀, t.remains b = s.remains b
  remains : status = .ok → t.remains b₀ = .closure

theorem given_callback : Given s (s.callback buffer args (some b₀) status).2 buffer args b₀ status :=
  ⟨State.callback_info s buffer args b₀ status, State.callback_handle s buffer args b₀ status,
    State.callback_handles s buffer args b₀ status,
    State.callback_allocated s buffer args b₀ status, State.callback_buffer s buffer args b₀ status,
    State.callback_g_queue s buffer args b₀ status,
    fun b hb => (State.callback_remains s buffer args b₀ status b).1 hb,
    (State.callback_remains s buffer args b₀ status b₀).2⟩

namespace Given

theorem fields (hg : Given s t buffer args b₀ status) (b : Block) :
    b = b₀ ∧ (t.info b).function = some (s.handles + 1) ∧ (t.info b).errorFunction = s.handles ∨
      b ≠ b₀ ∧ t.info b = s.info b := by
  by_cases hb : b = b₀ <;> simp [hg.info, hb]

theorem handle_old (hg : Given s t buffer args b₀ status) {h : Nat} (hh : h < s.handles) :
    t.handle h = s.handle h := by
  have h1 : h ≠ s.handles := by omega
  have h2 : h ≠ s.handles + 1 := by omega
  rw [hg.handle, Function.update_of_ne h2, Function.update_of_ne h1]

theorem buffer_old (hg : Given s t buffer args b₀ status) (hnew : s.buffer buffer = none)
    {buffer' : Buffer} (hb : s.buffer buffer' ≠ none) : t.buffer buffer' = s.buffer buffer' := by
  have hne : buffer' ≠ buffer := fun he => hb (he ▸ hnew)
  rw [hg.buffer]
  split
  · rw [Function.update_of_ne hne]
  · rfl

theorem buffers (hg : Given s t buffer args b₀ status) (hnew : s.buffer buffer = none)
    {buffer' : Buffer} {c : CodeBuffer Block} (hc : t.buffer buffer' = some c) :
    buffer' = buffer ∧ status = .ok ∧ c = ⟨b₀, false⟩ ∨ s.buffer buffer' = some c := by
  by_cases hb : s.buffer buffer' = none
  · left
    rw [hg.buffer] at hc
    by_cases hs : status = .ok
    · rw [if_pos hs] at hc
      by_cases he : buffer' = buffer
      · subst he
        rw [Function.update_self, Option.some.injEq] at hc
        exact ⟨rfl, hs, hc.symm⟩
      · rw [Function.update_of_ne he, hb] at hc
        cases hc
    · rw [if_neg hs, hb] at hc
      cases hc
  · exact .inr ((hg.buffer_old hnew hb).symm.trans hc)

end Given

theorem handles_callback (h : Occupied ls s) (hg : Given s t buffer args b₀ status) :
    Handles (ls ++ [.callback buffer args (some b₀) status]) t := by
  refine ⟨?_, ?_, ?_⟩
  · intro f hf
    rw [hg.handles] at hf
    have h1 : f ≠ s.handles := by omega
    have h2 : f ≠ s.handles + 1 := by omega
    rw [hg.handle, Function.update_of_ne h2, Function.update_of_ne h1]
    exact h.handles.fresh f (by omega)
  · intro b b' f hb hb' hf
    rcases hg.fields b with ⟨rfl, hnew, _⟩ | ⟨hne, hi⟩ <;>
      rcases hg.fields b' with ⟨rfl, _, hnew'⟩ | ⟨hne', hi'⟩
    · rw [hnew] at hf
      cases hf
      omega
    · rw [lastGiven_of_ne hne'] at hb'
      rw [hnew] at hf
      cases hf
      have := (h.handle_lt hb').1
      rw [hi']
      omega
    · rw [lastGiven_of_ne hne] at hb
      rw [hi] at hf
      have := (h.handle_lt hb).2 f hf
      omega
    · rw [lastGiven_of_ne hne] at hb
      rw [lastGiven_of_ne hne'] at hb'
      rw [hi] at hf
      rw [hi']
      exact h.handles.apart b b' f hb hb' hf
  · intro b b' f hb hb' hf hf'
    rcases hg.fields b with ⟨rfl, hnew, _⟩ | ⟨hne, hi⟩ <;>
      rcases hg.fields b' with ⟨rfl, hnew', _⟩ | ⟨hne', hi'⟩
    · rfl
    · rw [lastGiven_of_ne hne'] at hb'
      rw [hnew] at hf
      cases hf
      rw [hi'] at hf'
      have := (h.handle_lt hb').2 _ hf'
      omega
    · rw [lastGiven_of_ne hne] at hb
      rw [hnew'] at hf'
      cases hf'
      rw [hi] at hf
      have := (h.handle_lt hb).2 _ hf
      omega
    · rw [lastGiven_of_ne hne] at hb
      rw [lastGiven_of_ne hne'] at hb'
      rw [hi] at hf
      rw [hi'] at hf'
      exact h.handles.own b b' f hb hb' hf hf'

theorem occupant_callback (h : Occupied ls s) (hg : Given s t buffer args b₀ status)
    (hnew : s.buffer buffer = none) (b : Block) :
    Occupant t b (lastGiven (ls ++ [.callback buffer args (some b₀) status]) b) := by
  by_cases hb : b = b₀
  · subst hb
    rw [lastGiven_self]
    refine ⟨⟨?_, ?_, ?_, ?_⟩, ?_⟩
    · simp [hg.info]
    · simp [hg.info]
    · simp [hg.info, hg.handle]
    · simp [hg.info, hg.handle]
    · by_cases hs : status = .ok
      · rw [if_pos hs]
        exact ⟨false, by simp [hg.buffer, hs], by simp [hg.allocated, hs], by simp [hg.info],
          fun _ => hg.remains hs⟩
      · rw [if_neg hs]
        exact ⟨by simp [hg.allocated, hs], by simp [hg.info]⟩
  · rw [lastGiven_of_ne hb]
    refine (h.occupant b).congr ?_ ?_ ?_ ?_
    · exact .of_eq (by simp [hg.info, hb]) (by simp [hg.allocated, hb]) (hg.remains_old b hb)
    · intro hgiven
      exact hg.handle_old (h.handle_lt hgiven).1
    · intro hgiven f hf
      exact hg.handle_old ((h.handle_lt hgiven).2 f hf)
    · intro buffer' c hc
      exact hg.buffer_old hnew (by rw [hc]; simp)

theorem occupied_callback (h : Occupied ls s)
    (hl : s.permits (.callback buffer args (some b₀) status))
    (hg : Given s t buffer args b₀ status) :
    Occupied (ls ++ [.callback buffer args (some b₀) status]) t := by
  obtain ⟨hnew, hfree⟩ := hl
  have hfree : s.allocated b₀ = false := hfree b₀ rfl
  refine ⟨occupant_callback h hg hnew, handles_callback h hg, ?_, ?_, ?_, ?_⟩
  · intro buffer' c hc
    by_cases hb : c.code = b₀
    · rw [hb, lastGiven_self]
      simp
    · rw [lastGiven_of_ne hb]
      rcases hg.buffers hnew hc with ⟨_, _, rfl⟩ | hc
      · exact absurd rfl hb
      · exact h.given buffer' c hc
  · intro buffer' c hc hlc
    rcases hg.buffers hnew hc with ⟨rfl, rfl, rfl⟩ | hc
    · exact ⟨args, lastGiven_self⟩
    · obtain ⟨args', hlive⟩ := h.live buffer' c hc hlc
      -- the block of a Buffer that exists was not free
      have hb : c.code ≠ b₀ := by
        rintro rfl
        have ho := h.occupant c.code
        rw [hlive] at ho
        obtain ⟨c', hc', ha, _⟩ := ho.2
        have he : c.collected = c' :=
          congrArg CodeBuffer.collected (Option.some.inj (hc.symm.trans hc'))
        rw [← he, hlc, hfree] at ha
        cases ha
      exact ⟨args', (lastGiven_of_ne hb).trans hlive⟩
  · intro buffer'
    have hne : Label.collect buffer' ≠ .callback buffer args (some b₀) status := by simp
    rw [List.mem_append, List.mem_singleton, h.collected]
    simp only [hne, or_false]
    constructor
    · rintro ⟨b, hb⟩
      exact ⟨b, (hg.buffer_old hnew (by rw [hb]; simp)).trans hb⟩
    · rintro ⟨b, hb⟩
      rcases hg.buffers hnew hb with ⟨_, _, he⟩ | hb
      · cases he
      · exact ⟨b, hb⟩
  · intro i hi
    rw [hg.g_queue] at hi
    obtain ⟨c, hc⟩ := h.queued i hi
    exact ⟨c, (hg.buffer_old hnew (by rw [hc]; simp)).trans hc⟩

end callback

theorem occupied_step (h : Occupied ls s) (hl : s.enabled l) : Occupied (ls ++ [l]) (s.next l) := by
  cases hquiet : l.quiet with
  | true => exact occupied_quiet h hquiet (quiet_next hl hquiet) fun i => queue_next hl hquiet
  | false =>
    cases l with
    | callback buffer args alloc status =>
      cases alloc with
      | none => cases hquiet
      | some b₀ => exact occupied_callback h hl.2 given_callback
    | collect buffer =>
      obtain ⟨-, ⟨b₀, _⟩, hbuf, rfl⟩ := hl
      obtain ⟨_, f, _, hf⟩ := h.function_of_live hbuf
      exact occupied_collect h hbuf hf (freed_collect hbuf hf)
    | _ => cases hquiet

theorem occupied {info : Block → CallbackInfo}
    (h : (system Block Buffer Fn).run (.initial info) ls = some s) : Occupied ls s :=
  Lts.run_induction (A := system Block Buffer Fn) Occupied (occupied_initial info)
    (fun _ _ _ _ hu hl => occupied_step hu hl) h

/-! ### Invocations -/

/-- Through a Buffer that still exists, an invocation calls the function that `Callback` was
given. -/
theorem live_dispatch (m : DataModel) {info : Block → CallbackInfo}
    (h : (system Block Buffer Fn).run (.initial info) ls = some s) (hl : s.enabled l)
    {buffer : Buffer} {b : Block} {dispatched : Bool}
    (hd : s.dispatching l = some (buffer, b, dispatched)) (hlive : .collect buffer ∉ ls) :
    s.report m l = some (s.dispatchToV8 m b dispatched) ∧
      ∃ args, .callback buffer args (some b) .ok ∈ ls ∧ s.dispatchToV8 m b dispatched =
        .function args.callback args.resultSize (m.pointerSize * args.argc) := by
  have ho := occupied h
  obtain ⟨c, hc⟩ := ho.through hl hd
  have hfalse : c = false := by
    rw [Bool.eq_false_iff]
    rintro rfl
    exact hlive ((ho.collected buffer).mpr ⟨b, hc⟩)
  subst hfalse
  obtain ⟨args, _, hlast, hf⟩ := ho.function_of_live hc
  have hmem := (List.mem_filter.mp (List.mem_of_getLast? hlast)).1
  have hrec : ¬ Reclaimed ls b := by
    rw [ho.reclaimed_iff (by rw [hlast]; simp), hf]
    simp
  refine ⟨report_of_found m hd (lacks_of_closure hd (ho.closure_of_live hc)), args, hmem, ?_⟩
  rw [(ho.dispatchToV8 m hlast dispatched).2 hrec, ho.resultSize hlast hrec]

section schedule

/-- The arguments of a `Callback` call for a function of one `int`. -/
def intCallback (f : String) : CallbackArgs String := ⟨4, 1, "errorReportCallback", f⟩

/-- Two callbacks, the first one collected before the second one is given its block. -/
def reused : List (Label Nat Nat String) :=
  [.callback 0 (intCallback "a") (some 64) .ok, .collect 0,
    .callback 1 (intCallback "b") (some 64) .ok]

/-- A callback whose block, next to one that is in use, goes into a list of free blocks. -/
def overwritten : List (Label Nat Nat String) :=
  [.callback 0 (intCallback "a") (some 64) .ok, .callback 1 (intCallback "b") (some 160) .ok,
    .collect 0, .manage 64 .links]

theorem stale_astray :
    ∃ s, (system Nat Nat String).run (.initial fun _ => ⟨0, none, 0, 0⟩) overwritten = some s ∧
      s.enabled (.invoke 0) ∧ s.report .lp64 (.invoke 0) = some .fault ∧
      (s.next (.invoke 0)).running = false :=
  ⟨_, rfl, of_decide_eq_true rfl, rfl, rfl⟩

theorem live_dispatch_reused :
    ∃ s, (system Nat Nat String).run (.initial fun _ => ⟨0, none, 0, 0⟩) reused = some s ∧
      s.report .lp64 (.invoke 1) = some (s.dispatchToV8 .lp64 64 false) ∧
      ∃ args, .callback 1 args (some 64) .ok ∈ reused ∧ s.dispatchToV8 .lp64 64 false =
        .function args.callback args.resultSize (8 * args.argc) := by
  obtain ⟨s, hs⟩ : ∃ s, (system Nat Nat String).run (.initial fun _ => ⟨0, none, 0, 0⟩) reused =
      some s := ⟨_, rfl⟩
  refine ⟨s, hs, ?_⟩
  obtain rfl := Option.some.inj hs
  exact live_dispatch .lp64 (l := .invoke 1) rfl (of_decide_eq_true rfl) rfl (by decide)

end schedule

end NodeFfi.Closure
