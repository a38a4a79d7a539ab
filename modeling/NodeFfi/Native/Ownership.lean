import NodeFfi.Native.Model

/-!
# Who owns what

The resources of a run as a ledger. Each action is about one owner at most (`State.actor`), and
posts one entry (`posts_entry`), which is a valid one (`valid_entry`) where the fields lead to what
they should (`State.Formed`), and so they do in every run (`formed_next`).
-/

namespace NodeFfi.Native

open Libffi Closure Transition

variable {Block Buffer Fn : Type} {s : State Block Buffer Fn} {l : Label Block Buffer Fn}
  {ls : List (Label Block Buffer Fn)}

namespace State

/-- The owner that an action makes or ends. -/
def actor (s : State Block Buffer Fn) : Label Block Buffer Fn → Option (Owner Buffer)
  | .closure (.callback buffer _ (some _) status) =>
    if status = .ok then some (.buffer buffer) else none
  | .closure (.collect buffer) => some (.buffer buffer)
  | .callAsync _ => some (.call s.calls)
  | .finished n => some (.call n)
  | _ => none

/-- What this owner holds afterwards. -/
def keeps (s : State Block Buffer Fn) (l : Label Block Buffer Fn) : List (Resource Block) :=
  match l with
  | .closure (.callback _ _ (some _) status) => if status = .ok then s.acquired l else []
  | .callAsync _ => s.acquired l
  | _ => []

def entry (s : State Block Buffer Fn) (l : Label Block Buffer Fn) :
    Ledger.Entry (Owner Buffer) (Resource Block) :=
  ⟨s.acquired l, s.released l, s.actor l, s.keeps l⟩

/-- What the fields of the owners lead to. -/
structure Formed (s : State Block Buffer Fn) : Prop where
  handle_fresh : ∀ h, s.closures.handles ≤ h → s.closures.handle h = none
  call_fresh : ∀ n, s.calls ≤ n → s.stage n = none ∧ s.params n = none ∧ s.requests n = none
  buffer : ∀ b c, s.closures.buffer b = some ⟨c, false⟩ →
    ∃ f, (s.closures.info c).function = some f
  call : ∀ n, s.Outstanding n → s.requests n = some ⟨n⟩ ∧ ∃ p, s.params n = some p

end State

theorem ledger_held : s.ledger.held = s.holdings := rfl

theorem live_of_collect {buffer : Buffer} (hl : s.enabled (.closure (.collect buffer))) :
    ∃ code, s.closures.buffer buffer = some ⟨code, false⟩ := by
  obtain ⟨-, ⟨code, collected⟩, hc, rfl⟩ := hl
  exact ⟨code, hc⟩

theorem outstanding_of_stage {n : Nat} {st : Stage} (h : s.stage n = some st)
    (hst : st ≠ .completed) : s.Outstanding n := by
  simp [State.Outstanding, h, hst]

/-! ### Holdings -/

theorem holdings_buffer {buffer : Buffer} {code : Block}
    (h : s.closures.buffer buffer = some ⟨code, false⟩) :
    s.holdings (.buffer buffer) = s.blockResources code := by
  simp [State.holdings, h]

theorem holdings_live (hf : s.Formed) {buffer : Buffer} {code : Block}
    (h : s.closures.buffer buffer = some ⟨code, false⟩) :
    ∃ f, (s.closures.info code).function = some f ∧ s.holdings (.buffer buffer) =
      [.block code, .handle (s.closures.info code).errorFunction, .handle f] := by
  obtain ⟨f, hfunction⟩ := hf.buffer buffer code h
  exact ⟨f, hfunction, by simp [holdings_buffer h, State.blockResources, hfunction]⟩

theorem holdings_call (hf : s.Formed) {n : Nat} (h : s.Outstanding n) :
    ∃ p, s.requests n = some ⟨n⟩ ∧ s.params n = some p ∧
      s.holdings (.call n) = [.request n, .params n, .handle p.callback] := by
  obtain ⟨hreq, p, hp⟩ := hf.call n h
  exact ⟨p, hreq, hp, by simp [State.holdings, h, State.requestResources, hreq, hp]⟩

theorem holdings_not_outstanding {n : Nat} (h : ¬ s.Outstanding n) : s.holdings (.call n) = [] := by
  simp [State.holdings, h]

theorem holdings_buffer_congr {t : State Block Buffer Fn} {buffer : Buffer}
    (hbuffer : t.closures.buffer buffer = s.closures.buffer buffer)
    (hinfo : ∀ code, s.closures.buffer buffer = some ⟨code, false⟩ →
      t.closures.info code = s.closures.info code) :
    t.holdings (.buffer buffer) = s.holdings (.buffer buffer) := by
  cases hb : s.closures.buffer buffer with
  | none => simp [State.holdings, hbuffer, hb]
  | some c =>
    obtain ⟨code, collected⟩ := c
    cases collected with
    | true => simp [State.holdings, hbuffer, hb]
    | false => simp [State.holdings, hbuffer, hb, State.blockResources, hinfo code hb]

theorem holdings_call_congr (hf : s.Formed) {t : State Block Buffer Fn} {n : Nat}
    (hstage : t.Outstanding n ↔ s.Outstanding n) (hreq : t.requests n = s.requests n)
    (hparams : t.params n = s.params n) : t.holdings (.call n) = s.holdings (.call n) := by
  by_cases ho : s.Outstanding n
  · obtain ⟨hn, p, hp⟩ := hf.call n ho
    simp [State.holdings, hstage, ho, State.requestResources, hreq, hn, hparams, hp]
  · simp [State.holdings, hstage, ho]

theorem held_stage (hf : s.Formed) {n : Nat} {st : Stage} (hn : s.Outstanding n)
    (hst : st ≠ .completed) (o : Owner Buffer) :
    ({ s with stage := Function.update s.stage n (some st) } : State Block Buffer Fn).holdings o =
      s.holdings o := by
  cases o with
  | buffer x => rfl
  | call m =>
    refine holdings_call_congr hf ?_ rfl rfl
    by_cases hm : m = n
    · subst hm
      simp [State.Outstanding, hst, hn.1, hn.2]
    · simp [State.Outstanding, hm]

theorem allocated_of_buffer (hs : s.ledger.Sound) {buffer : Buffer} {code : Block}
    (h : s.closures.buffer buffer = some ⟨code, false⟩) : s.closures.allocated code = true :=
  hs.live (.buffer buffer) (.block code) (by
    rw [ledger_held, holdings_buffer h]
    simp [State.blockResources])

theorem code_ne (hs : s.ledger.Sound) {buffer buffer' : Buffer} {code code' : Block}
    (h : s.closures.buffer buffer = some ⟨code, false⟩)
    (h' : s.closures.buffer buffer' = some ⟨code', false⟩) (hne : buffer ≠ buffer') :
    code ≠ code' := by
  rintro rfl
  have hmem : ∀ {x : Buffer}, s.closures.buffer x = some ⟨code, false⟩ →
      .block code ∈ s.ledger.held (.buffer x) := by
    intro x hx
    rw [ledger_held, holdings_buffer hx]
    simp [State.blockResources]
  exact hne (Owner.buffer.inj (hs.apart _ _ _ (hmem h) (hmem h')))

/-! ### The entry of an action is valid -/

theorem entry_quiet {l : Closure.Label Block Buffer Fn} (h : l.quiet = true) : s.entry (.closure l) = .nothing := by
  cases l with
  | callback buffer args alloc status =>
    cases alloc with
    | none => rfl
    | some b => cases h
  | collect buffer => cases h
  | _ => rfl

theorem closure_cases {l : Closure.Label Block Buffer Fn} (hl : s.enabled (.closure l)) :
    l.quiet = true ∨
      (∃ buffer args b status, l = .callback buffer args (some b) status ∧
        s.closures.buffer buffer = none ∧ s.closures.allocated b = false) ∨
      ∃ buffer code, l = .collect buffer ∧ s.closures.buffer buffer = some ⟨code, false⟩ := by
  cases l with
  | callback buffer args alloc status =>
    cases alloc with
    | none => exact .inl rfl
    | some b => exact .inr (.inl ⟨buffer, args, b, status, rfl, hl.2.1, hl.2.2 b rfl⟩)
  | collect buffer =>
    obtain ⟨code, hc⟩ := live_of_collect hl
    exact .inr (.inr ⟨buffer, code, rfl, hc⟩)
  | _ => exact .inl rfl

theorem not_live_handle (hf : s.Formed) {h : Nat} (hh : s.closures.handles ≤ h) :
    ¬ s.Live (.handle h) := by
  simp [State.Live, hf.handle_fresh h hh]

theorem valid_callback (hf : s.Formed) {buffer : Buffer} {args : CallbackArgs Fn} {b : Block}
    {status : Status} (hfree : s.closures.allocated b = false) :
    (s.entry (.closure (.callback buffer args (some b) status))).Valid s.ledger := by
  have hfresh : ∀ r ∈ s.acquired (.closure (.callback buffer args (some b) status)),
      ¬ s.Live r := by
    intro r hr
    simp only [State.acquired, List.mem_cons, List.not_mem_nil, or_false] at hr
    rcases hr with rfl | rfl | rfl
    · simp [State.Live, hfree]
    · exact not_live_handle hf (Nat.le_refl _)
    · exact not_live_handle hf (by omega)
  by_cases hok : status = .ok
  · refine ⟨hfresh, ?_, ?_, ?_, ?_⟩
    · simp [State.entry, State.released, hok]
    · intro r hr
      simp only [State.entry, State.keeps, hok, if_true] at hr
      refine ⟨Ledger.Entry.mem_available.mpr (.inr ?_), by simp [State.entry, State.released, hok]⟩
      simpa [State.entry, hok] using hr
    · simp [State.entry, State.keeps, State.acquired, hok]
    · simp [State.entry, State.actor, hok]
  · refine ⟨hfresh, ?_, ?_, ?_, ?_⟩
    · intro r hr
      refine Ledger.Entry.mem_available.mpr (.inr ?_)
      obtain rfl : r = .block b := by simpa [State.entry, State.released, hok] using hr
      simp [State.entry, State.acquired]
    all_goals simp [State.entry, State.keeps, hok]

theorem valid_collect (hf : s.Formed) {buffer : Buffer} {code : Block}
    (hc : s.closures.buffer buffer = some ⟨code, false⟩) :
    (s.entry (.closure (.collect buffer))).Valid s.ledger := by
  obtain ⟨f, hfunction, hheld⟩ := holdings_live hf hc
  refine ⟨by simp [State.entry, State.acquired], ?_, by simp [State.entry, State.keeps],
    by simp [State.entry, State.keeps], by simp [State.entry, State.keeps]⟩
  intro r hr
  refine Ledger.Entry.mem_available.mpr (.inl ⟨.buffer buffer, rfl, ?_⟩)
  simp only [State.entry, State.released, hc, hfunction] at hr
  rw [ledger_held, hheld]
  simp only [Option.map_some, Option.toList_some, List.cons_append, List.nil_append, List.mem_cons,
    List.not_mem_nil, or_false] at hr
  rcases hr with rfl | rfl <;> simp

theorem valid_callAsync (hf : s.Formed) (args : AsyncArgs Fn) :
    (s.entry (.callAsync args)).Valid s.ledger := by
  refine ⟨?_, by simp [State.entry, State.released], ?_, ?_, by simp [State.entry, State.actor]⟩
  · obtain ⟨_, hparams, hreq⟩ := hf.call_fresh s.calls (Nat.le_refl _)
    intro r hr
    simp only [State.entry, State.acquired, List.mem_cons, List.not_mem_nil, or_false] at hr
    rcases hr with rfl | rfl | rfl
    · simp [State.ledger, State.Live, hreq]
    · simp [State.ledger, State.Live, hparams]
    · exact not_live_handle hf (Nat.le_refl _)
  · intro r hr
    exact ⟨Ledger.Entry.mem_available.mpr (.inr hr), by simp [State.entry, State.released]⟩
  · simp [State.entry, State.keeps, State.acquired]

theorem valid_finished (hf : s.Formed) {n : Nat} (hn : s.Outstanding n) :
    (s.entry (.finished n)).Valid s.ledger := by
  obtain ⟨p, hreq, hp, hheld⟩ := holdings_call hf hn
  refine ⟨by simp [State.entry, State.acquired], ?_, by simp [State.entry, State.keeps],
    by simp [State.entry, State.keeps], by simp [State.entry, State.keeps]⟩
  intro r hr
  refine Ledger.Entry.mem_available.mpr (.inl ⟨.call n, rfl, ?_⟩)
  simp only [State.entry, State.released, hreq, hp, List.mem_cons, List.not_mem_nil, or_false] at hr
  rw [ledger_held, hheld]
  rcases hr with rfl | rfl | rfl <;> simp

theorem valid_entry (hf : s.Formed) (hl : s.enabled l) : (s.entry l).Valid s.ledger := by
  cases l with
  | closure l =>
    rcases closure_cases hl with h | ⟨buffer, args, b, status, rfl, _, hfree⟩ | ⟨buffer, code, rfl, hc⟩
    · rw [entry_quiet h]
      exact Ledger.Entry.valid_nothing
    · exact valid_callback hf hfree
    · exact valid_collect hf hc
  | callAsync args => exact valid_callAsync hf args
  | work n | finish n => exact Ledger.Entry.valid_nothing
  | finished n =>
    exact valid_finished hf (outstanding_of_stage hl (by simp))

theorem formed_stage (hf : s.Formed) {n : Nat} {st : Stage} (hn : s.Outstanding n) :
    ({ s with stage := Function.update s.stage n (some st) } : State Block Buffer Fn).Formed where
  handle_fresh := hf.handle_fresh
  call_fresh m hm := by
    have hne : m ≠ n := by
      rintro rfl
      exact hn.1 (hf.call_fresh m hm).1
    simpa [hne] using hf.call_fresh m hm
  buffer := hf.buffer
  call m hm := by
    refine hf.call m ?_
    by_cases hne : m = n
    · exact hne ▸ hn
    · simpa [State.Outstanding, hne] using hm

variable [DecidableEq Block] [DecidableEq Buffer]

/-! ### Actions of the closures that give out and free nothing -/

section quiet

variable {l : Closure.Label Block Buffer Fn}

theorem live_quiet (hl : s.enabled (.closure l)) (h : l.quiet = true) (r : Resource Block) :
    (s.next (.closure l)).Live r ↔ s.Live r := by
  have hq := quiet_next hl h
  cases r with
  | block b => simp only [State.Live, State.next, (hq.kept b).allocated]
  | handle i => simp only [State.Live, State.next, hq.handle]
  | params p | request p => exact Iff.rfl

theorem held_quiet (hl : s.enabled (.closure l)) (h : l.quiet = true) (o : Owner Buffer) :
    (s.next (.closure l)).holdings o = s.holdings o := by
  have hq := quiet_next hl h
  cases o with
  | buffer x => simp only [State.holdings, State.next, State.blockResources, hq.buffer,
      (hq.kept _).errorFunction, (hq.kept _).function]
  | call n => rfl

theorem formed_quiet (hf : s.Formed) (hl : s.enabled (.closure l)) (h : l.quiet = true) :
    (s.next (.closure l)).Formed := by
  have hq := quiet_next hl h
  refine ⟨?_, hf.call_fresh, ?_, hf.call⟩
  · simp only [State.next, hq.handle, hq.handles]
    exact hf.handle_fresh
  · simp only [State.next, hq.buffer, (hq.kept _).function]
    exact hf.buffer

end quiet

/-! ### What is live -/

section live

variable (r : Resource Block)

theorem live_callback {buffer : Buffer} {args : CallbackArgs Fn} {b : Block} {status : Status}
    (hfree : s.closures.allocated b = false) :
    (s.next (.closure (.callback buffer args (some b) status))).Live r ↔
      (s.Live r ∨ r ∈ s.acquired (.closure (.callback buffer args (some b) status))) ∧
        r ∉ s.released (.closure (.callback buffer args (some b) status)) := by
  cases r with
  | block x =>
    by_cases hx : x = b
    · subst hx
      by_cases hok : status = .ok <;>
        simp [State.Live, State.next, Closure.State.next_callback, State.acquired, State.released,
          Closure.State.callback_allocated, hok]
    · by_cases hok : status = .ok <;>
        simp [State.Live, State.next, Closure.State.next_callback, State.acquired, State.released,
          Closure.State.callback_allocated, hok, hx]
  | handle h =>
    have hnot : .handle h ∉ s.released (.closure (.callback buffer args (some b) status)) := by
      by_cases hok : status = .ok <;> simp [State.released, hok]
    simp only [State.Live, State.next, Closure.State.next_callback, State.acquired,
      Closure.State.callback_handle, Function.update_apply]
    split_ifs <;> simp_all
  | params p | request p =>
    by_cases hok : status = .ok <;>
      simp [State.Live, State.next, State.acquired, State.released, hok]

theorem live_collect (hf : s.Formed) {buffer : Buffer} {code : Block}
    (hc : s.closures.buffer buffer = some ⟨code, false⟩) :
    (s.next (.closure (.collect buffer))).Live r ↔
      s.Live r ∧ r ∉ s.released (.closure (.collect buffer)) := by
  obtain ⟨f, hfunction⟩ := hf.buffer buffer code hc
  have ht := freed_collect hc hfunction
  have hreleased : s.released (.closure (.collect buffer)) = [.handle f, .block code] := by
    simp [State.released, hc, hfunction]
  rw [hreleased]
  cases r with
  | block x => by_cases hx : x = code <;> simp [State.Live, State.next, ht.allocated, hx]
  | handle h => by_cases hh : h = f <;> simp [State.Live, State.next, ht.handle, hh]
  | params p | request p => simp [State.Live, State.next]

theorem live_callAsync {args : AsyncArgs Fn} :
    (s.next (.callAsync args)).Live r ↔ s.Live r ∨ r ∈ s.acquired (.callAsync args) := by
  cases r with
  | block x => simp [State.Live, State.next, State.callAsync, State.acquired, Closure.State.newHandle]
  | handle h => by_cases hh : h = s.closures.handles <;>
      simp [State.Live, State.next, State.callAsync, State.acquired, Closure.State.newHandle, hh]
  | params p | request p => by_cases hp : p = s.calls <;>
      simp [State.Live, State.next, State.callAsync, State.acquired, hp]

theorem live_finished {n : Nat} :
    (s.next (.finished n)).Live r ↔ s.Live r ∧ r ∉ s.released (.finished n) := by
  simp only [State.next, State.finished, State.released]
  split
  · simp
  · rename_i request hreq
    split
    · simp
    · rename_i p hp
      cases r with
      | block x => simp [State.Live]
      | handle h => by_cases hh : h = p.callback <;> simp [State.Live, hh]
      | params q => by_cases hq : q = request.data <;> simp [State.Live, hq]
      | request m => by_cases hm : m = n <;> simp [State.Live, hm]

theorem live_next (hf : s.Formed) (hl : s.enabled l) :
    (s.next l).Live r ↔ (s.Live r ∨ r ∈ s.acquired l) ∧ r ∉ s.released l := by
  cases l with
  | closure l =>
    rcases closure_cases hl with h | ⟨buffer, args, b, status, rfl, _, hfree⟩ | ⟨buffer, code, rfl, hc⟩
    · obtain ⟨hacquired, hreleased, -, -⟩ := Ledger.Entry.mk.inj (entry_quiet (s := s) h)
      rw [live_quiet hl h, hacquired, hreleased]
      simp
    · exact live_callback r hfree
    · rw [live_collect r hf hc]
      simp [State.acquired]
  | callAsync args =>
    rw [live_callAsync r]
    simp [State.released]
  | work n | finish n => cases r <;> simp [State.next, State.acquired, State.released, State.Live]
  | finished n =>
    rw [live_finished r]
    simp [State.acquired]

end live

/-! ### Who holds it -/

theorem held_callback (hf : s.Formed) (hs : s.ledger.Sound) {buffer : Buffer}
    {args : CallbackArgs Fn} {b : Block} {status : Status}
    (hfree : s.closures.allocated b = false) (o : Owner Buffer) :
    (s.next (.closure (.callback buffer args (some b) status))).holdings o =
      if s.actor (.closure (.callback buffer args (some b) status)) = some o then
        s.keeps (.closure (.callback buffer args (some b) status))
      else s.holdings o := by
  have hinfo : ∀ x code, s.closures.buffer x = some ⟨code, false⟩ →
      (s.next (.closure (.callback buffer args (some b) status))).closures.info code =
        s.closures.info code := by
    intro x code hx
    have hne : code ≠ b := by
      rintro rfl
      rw [allocated_of_buffer hs hx] at hfree
      cases hfree
    simp [State.next, Closure.State.next_callback, Closure.State.callback_info, hne]
  cases o with
  | call n =>
    rw [if_neg (by by_cases hok : status = .ok <;> simp [State.actor, hok])]
    exact holdings_call_congr hf Iff.rfl rfl rfl
  | buffer x =>
    by_cases hok : status = .ok
    · by_cases hx : x = buffer
      · subst hx
        subst hok
        rw [if_pos (by simp [State.actor])]
        simp [State.holdings, State.next, Closure.State.next_callback, Closure.State.callback_buffer,
          Closure.State.callback_info, State.blockResources, State.keeps, State.acquired]
      · rw [if_neg (by simp [State.actor, hok, Ne.symm hx])]
        refine holdings_buffer_congr ?_ (hinfo x)
        simp [State.next, Closure.State.next_callback, Closure.State.callback_buffer, hok, hx]
    · rw [if_neg (by simp [State.actor, hok])]
      refine holdings_buffer_congr ?_ (hinfo x)
      simp [State.next, Closure.State.next_callback, Closure.State.callback_buffer, hok]

theorem held_collect (hf : s.Formed) (hs : s.ledger.Sound) {buffer : Buffer} {code : Block}
    (hc : s.closures.buffer buffer = some ⟨code, false⟩) (o : Owner Buffer) :
    (s.next (.closure (.collect buffer))).holdings o =
      if o = .buffer buffer then [] else s.holdings o := by
  obtain ⟨f, hfunction⟩ := hf.buffer buffer code hc
  have ht := freed_collect hc hfunction
  cases o with
  | call n =>
    rw [if_neg (by simp)]
    exact holdings_call_congr hf Iff.rfl rfl rfl
  | buffer x =>
    by_cases hx : x = buffer
    · subst hx
      simp [State.holdings, State.next, ht.buffer]
    · rw [if_neg (by simp [hx])]
      refine holdings_buffer_congr (by simp [State.next, ht.buffer, hx]) fun code' hc' => ?_
      simp [State.next, ht.info, code_ne hs hc' hc hx]

theorem held_callAsync (hf : s.Formed) {args : AsyncArgs Fn} (o : Owner Buffer) :
    (s.next (.callAsync args)).holdings o =
      if o = .call s.calls then s.acquired (.callAsync args) else s.holdings o := by
  cases o with
  | buffer x =>
    rw [if_neg (by simp)]
    exact holdings_buffer_congr rfl fun _ _ => rfl
  | call n =>
    by_cases hn : n = s.calls
    · subst hn
      simp [State.holdings, State.Outstanding, State.next, State.callAsync, State.requestResources,
        State.acquired, Closure.State.newHandle]
    · rw [if_neg (by simp [hn])]
      refine holdings_call_congr hf ?_ ?_ ?_ <;>
        simp [State.Outstanding, State.next, State.callAsync, hn]

theorem next_finished {n : Nat} {p : AsyncCallParams} (hreq : s.requests n = some ⟨n⟩)
    (hp : s.params n = some p) : s.next (.finished n) =
      { s with
        closures := { s.closures with handle := Function.update s.closures.handle p.callback none }
        params := Function.update s.params n none
        requests := Function.update s.requests n none
        stage := Function.update s.stage n (some .completed) } := by
  simp [State.next, State.finished, hreq, hp]

theorem held_finished (hf : s.Formed) {n : Nat} (hn : s.Outstanding n) (o : Owner Buffer) :
    (s.next (.finished n)).holdings o = if o = .call n then [] else s.holdings o := by
  obtain ⟨hreq, p, hp⟩ := hf.call n hn
  rw [next_finished hreq hp]
  cases o with
  | buffer x =>
    rw [if_neg (by simp)]
    exact holdings_buffer_congr rfl fun _ _ => rfl
  | call m =>
    by_cases hm : m = n
    · subst hm
      simp [State.holdings, State.Outstanding]
    · rw [if_neg (by simp [hm])]
      refine holdings_call_congr hf ?_ ?_ ?_ <;> simp [State.Outstanding, hm]

/-- **What an action changes of the holdings**: it is about one owner at most. -/
theorem held_next (hf : s.Formed) (hs : s.ledger.Sound) (hl : s.enabled l) (o : Owner Buffer) :
    (s.next l).holdings o = if s.actor l = some o then s.keeps l else s.holdings o := by
  cases l with
  | closure l =>
    rcases closure_cases hl with h | ⟨buffer, args, b, status, rfl, _, hfree⟩ | ⟨buffer, code, rfl, hc⟩
    · obtain ⟨-, -, hactor, -⟩ := Ledger.Entry.mk.inj (entry_quiet (s := s) h)
      rw [held_quiet hl h, hactor]
      rfl
    · exact held_callback hf hs hfree o
    · rw [held_collect hf hs hc o]
      simp [State.actor, State.keeps, eq_comm]
  | callAsync args =>
    rw [held_callAsync hf o]
    simp [State.actor, State.keeps, eq_comm]
  | work n =>
    exact held_stage hf (outstanding_of_stage hl (by simp)) (by simp) o
  | finish n =>
    exact held_stage hf (outstanding_of_stage hl (by simp)) (by simp) o
  | finished n =>
    rw [held_finished hf (outstanding_of_stage hl (by simp)) o]
    simp [State.actor, State.keeps, eq_comm]

theorem posts_entry (hf : s.Formed) (hs : s.ledger.Sound) (hl : s.enabled l) :
    s.ledger.Posts (s.entry l) (s.next l).ledger :=
  ⟨fun r => live_next r hf hl, held_next hf hs hl⟩

/-! ### What the owners lead to, over a run -/

theorem formed_callback (hf : s.Formed) (buffer : Buffer) (args : CallbackArgs Fn) (b : Block)
    (status : Status) :
    (s.next (.closure (.callback buffer args (some b) status))).Formed where
  handle_fresh h hh := by
    simp only [State.next, Closure.State.next_callback, Closure.State.callback_handles] at hh
    have hold := hf.handle_fresh h (by omega)
    simp only [State.next, Closure.State.next_callback, Closure.State.callback_handle]
    rw [Function.update_of_ne (by omega), Function.update_of_ne (by omega), hold]
  call_fresh := hf.call_fresh
  buffer x c hx := by
    simp only [State.next, Closure.State.next_callback, Closure.State.callback_buffer] at hx
    simp only [State.next, Closure.State.next_callback, Closure.State.callback_info]
    by_cases hc : c = b
    · subst hc
      exact ⟨_, by rw [Function.update_self]⟩
    · rw [Function.update_of_ne hc]
      refine hf.buffer x c ?_
      by_cases hok : status = .ok
      · rw [if_pos hok] at hx
        by_cases hxb : x = buffer
        · subst hxb
          rw [Function.update_self] at hx
          cases hx
          exact absurd rfl hc
        · rwa [Function.update_of_ne hxb] at hx
      · rwa [if_neg hok] at hx
  call := hf.call

theorem formed_collect (hf : s.Formed) (hs : s.ledger.Sound) {buffer : Buffer} {code : Block}
    (hc : s.closures.buffer buffer = some ⟨code, false⟩) :
    (s.next (.closure (.collect buffer))).Formed := by
  obtain ⟨f, hfunction⟩ := hf.buffer buffer code hc
  have ht := freed_collect hc hfunction
  refine ⟨fun h hh => ?_, hf.call_fresh, fun x c hx => ?_, hf.call⟩
  · simp only [State.next, ht.handles] at hh
    simp only [State.next, ht.handle]
    by_cases he : h = f
    · simp [he]
    · rw [Function.update_of_ne he, hf.handle_fresh h hh]
  · simp only [State.next, ht.buffer] at hx
    simp only [State.next, ht.info]
    have hne : x ≠ buffer := by
      rintro rfl
      rw [Function.update_self] at hx
      cases hx
    rw [Function.update_of_ne hne] at hx
    rw [Function.update_of_ne (code_ne hs hx hc hne)]
    exact hf.buffer x c hx

theorem formed_callAsync (hf : s.Formed) (args : AsyncArgs Fn) :
    (s.next (.callAsync args)).Formed where
  handle_fresh h hh := by
    simp only [State.next, State.callAsync, Closure.State.newHandle] at hh ⊢
    rw [Function.update_of_ne (by omega)]
    exact hf.handle_fresh h (by omega)
  call_fresh n hn := by
    simp only [State.next, State.callAsync] at hn ⊢
    have hne : n ≠ s.calls := by omega
    simp [hne, hf.call_fresh n (by omega)]
  buffer := hf.buffer
  call n hn := by
    by_cases hne : n = s.calls
    · simp [State.next, State.callAsync, hne]
    · simp only [State.Outstanding, State.next, State.callAsync, ne_eq, hne, not_false_eq_true,
        Function.update_of_ne] at hn ⊢
      exact hf.call n hn

theorem formed_finished (hf : s.Formed) {n : Nat} (hn : s.Outstanding n) :
    (s.next (.finished n)).Formed := by
  obtain ⟨hreq, p, hp⟩ := hf.call n hn
  rw [next_finished hreq hp]
  refine ⟨fun h hh => ?_, fun m hm => ?_, hf.buffer, fun m hm => ?_⟩
  · by_cases he : h = p.callback
    · simp [he]
    · simpa [he] using hf.handle_fresh h hh
  · have hne : m ≠ n := by
      rintro rfl
      exact hn.1 (hf.call_fresh m hm).1
    simpa [hne] using hf.call_fresh m hm
  · have hne : m ≠ n := by
      rintro rfl
      simp [State.Outstanding] at hm
    simp only [State.Outstanding, ne_eq, hne, not_false_eq_true, Function.update_of_ne] at hm ⊢
    exact hf.call m hm

theorem formed_next (hf : s.Formed) (hs : s.ledger.Sound) (hl : s.enabled l) :
    (s.next l).Formed := by
  cases l with
  | closure l =>
    rcases closure_cases hl with h | ⟨buffer, args, b, status, rfl, _, _⟩ | ⟨buffer, code, rfl, hc⟩
    · exact formed_quiet hf hl h
    · exact formed_callback hf buffer args b status
    · exact formed_collect hf hs hc
  | callAsync args => exact formed_callAsync hf args
  | work n =>
    exact formed_stage hf (outstanding_of_stage hl (by simp))
  | finish n =>
    exact formed_stage hf (outstanding_of_stage hl (by simp))
  | finished n =>
    exact formed_finished hf (outstanding_of_stage hl (by simp))

end NodeFfi.Native
