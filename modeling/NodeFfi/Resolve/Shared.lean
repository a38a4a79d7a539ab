import NodeFfi.Resolve.Prepare

/-!
# What libffi leaves behind

Preparing types changes no structure that is complete. It completes those that can be completed, in
the only way there is, and leaves the others with some size, which is `0` if they are stuck
(`initializeAggregate_spec`). Either way what was going to settle still does, with the same size
(`settles_mono`), and what was stuck still is (`stuck_mono`); so the status of a list of types that
are all well formed, or of which one is stuck, is the same ever after.
-/

namespace NodeFfi.Resolve

open Libffi (Status align)

section shared

variable {S : StaticTypes} {mem mem' mem'' : Memory}

/-- The cell is as it was, or has been completed. -/
def Completes (S : StaticTypes) (mem : Memory) (n : Nat) (cell cell' : Cell) : Prop :=
  cell' = cell ∨
    cell.size = 0 ∧ ∃ e, Settles S mem (.made n) e ∧ cell' = cell.withExtent e

/-- What a call may leave of a cell. -/
def Prepares (S : StaticTypes) (mem : Memory) (n : Nat) (cell cell' : Cell) : Prop :=
  Completes S mem n cell cell' ∨
    cell.size = 0 ∧ (∀ e, ¬ Settles S mem (.made n) e) ∧
      ∃ e : SizeAlign, cell' = cell.withExtent e ∧ (Stuck S mem (.made n) → e.size = 0)

/-- `R` holds of every cell below `b`, before and after. -/
def Cells (R : Memory → Nat → Cell → Cell → Prop) (b : Nat) (mem mem' : Memory) : Prop :=
  ∀ n cell, n < b → mem[n]? = some cell → ∃ cell', mem'[n]? = some cell' ∧ R mem n cell cell'

/-- The cells from `b` on are the same. -/
def SameFrom (b : Nat) (mem mem' : Memory) : Prop := ∀ n, b ≤ n → mem'[n]? = mem[n]?

theorem Completes.prepares {n : Nat} {cell cell' : Cell} (h : Completes S mem n cell cell') :
    Prepares S mem n cell cell' := .inl h

theorem Cells.imp {R R' : Memory → Nat → Cell → Cell → Prop} {b : Nat}
    (h : Cells R b mem mem') (himp : ∀ n cell cell', R mem n cell cell' → R' mem n cell cell') :
    Cells R' b mem mem' := by
  intro n cell hn hcell
  obtain ⟨cell', hcell', hR⟩ := h n cell hn hcell
  exact ⟨cell', hcell', himp n cell cell' hR⟩

theorem Prepares.elements {n : Nat} {cell cell' : Cell} (h : Prepares S mem n cell cell') :
    cell'.elements = cell.elements := by
  rcases h with (rfl | ⟨_, e, _, rfl⟩) | ⟨_, _, e, rfl, _⟩ <;> rfl

theorem Prepares.of_ne_zero {n : Nat} {cell cell' : Cell} (h : Prepares S mem n cell cell')
    (hne : cell.size ≠ 0) : cell' = cell := by
  rcases h with (h | ⟨hzero, _⟩) | ⟨hzero, _⟩
  · exact h
  · exact absurd hzero hne
  · exact absurd hzero hne

theorem below_made {n b : Nat} (h : n < b) : Below b (.made n) := h

theorem settles_of_ne_zero {n : Nat} {cell : Cell} (hcell : mem[n]? = some cell)
    (hne : cell.size ≠ 0) : Settles S mem (.made n) cell.extent :=
  .complete (show load S mem (.made n) = some cell from hcell) hne

theorem settles_ffiTypes {name : FfiName} {e : SizeAlign}
    (h : Settles S mem (.ffiTypes name) e) : Settles S mem' (.ffiTypes name) e := by
  obtain ⟨hload, hne⟩ := h
  exact .complete (show load S mem' (.ffiTypes name) = some _ from hload) hne

/-- **What settles, settles in the same way later.** -/
theorem settles_mono {b : Nat} (hlay : Layered mem) (hcells : Cells (Prepares S) b mem mem')
    {ptr : Ref} (hptr : Below b ptr) {e : SizeAlign} (h : Settles S mem ptr e) :
    Settles S mem' ptr e := by
  have hmade : ∀ n, n < b → ∀ e, Settles S mem (.made n) e → Settles S mem' (.made n) e := by
    intro n
    induction n using Nat.strongRecOn with
    | ind n ih =>
      intro hn e h
      cases h with
      | complete hload hne =>
        obtain ⟨cell', hcell', hR⟩ := hcells n _ hn hload
        obtain rfl := hR.of_ne_zero hne
        exact settles_of_ne_zero hcell' hne
      | @aggregate _ cell es arg hcell hzero hes hlays hne =>
        obtain ⟨cell', hcell', hR⟩ := hcells n _ hn hcell
        have hsettle : Settles S mem (.made n) arg.padded := .aggregate hcell hzero hes hlays hne
        rcases hR with (rfl | ⟨_, e, he, rfl⟩) | ⟨_, hnot, _⟩
        · refine .aggregate hcell' hzero hes (hlays.imp fun ptr hmem e h => ?_) hne
          have hbelow := hlay n _ _ hcell hes ptr hmem
          cases ptr with
          | made k => exact ih k hbelow (Nat.lt_trans hbelow hn) e h
          | ffiTypes _ => exact settles_ffiTypes h
          | member _ => exact hbelow.elim
        · obtain rfl := hsettle.det hlay he
          exact settles_of_ne_zero hcell' hne
        · exact absurd hsettle (hnot _)
  cases ptr with
  | made n => exact hmade n hptr e h
  | ffiTypes _ => exact settles_ffiTypes h
  | member _ => exact hptr.elim

theorem lays_mono {b : Nat} (hlay : Layered mem) (hcells : Cells (Prepares S) b mem mem')
    {es : List Ref} (hes : ∀ ptr ∈ es, Below b ptr) {arg arg' : SizeAlign}
    (h : Lays S mem arg es arg') : Lays S mem' arg es arg' :=
  h.imp fun ptr hmem _ => settles_mono hlay hcells (hes ptr hmem)

theorem stuck_mono {b : Nat} (hlay : Layered mem) (hcells : Cells (Prepares S) b mem mem')
    {ptr : Ref} (hptr : Below b ptr) (h : Stuck S mem ptr) : Stuck S mem' ptr := by
  -- a stuck cell still has size 0
  have hcell' : ∀ n cell, n < b → mem[n]? = some cell → cell.size = 0 → Stuck S mem (.made n) →
      ∃ cell', mem'[n]? = some cell' ∧ cell'.size = 0 ∧ cell'.elements = cell.elements := by
    intro n cell hn hcell hzero hstuck
    obtain ⟨cell', hcell', hR⟩ := hcells n cell hn hcell
    refine ⟨cell', hcell', ?_, hR.elements⟩
    rcases hR with (rfl | ⟨_, e, he, _⟩) | ⟨_, _, e, rfl, hsize⟩
    · exact hzero
    · exact absurd he (hstuck.not_settles hlay e)
    · exact hsize hstuck
  induction h with
  | noElements hcell hzero hes =>
    obtain ⟨cell', hget, hzero', hes'⟩ := hcell' _ _ hptr hcell hzero (.noElements hcell hzero hes)
    exact .noElements hget hzero' (hes'.trans hes)
  | @empty n cell es e hcell hzero hes hlays hsize =>
    obtain ⟨cell', hget, hzero', hes'⟩ :=
      hcell' _ _ hptr hcell hzero (.empty hcell hzero hes hlays hsize)
    refine .empty hget hzero' (hes'.trans hes) ?_ hsize
    exact lays_mono hlay hcells
      (fun p hp => (hlay n cell es hcell hes p hp).mono (Nat.le_of_lt hptr)) hlays
  | @element n cell pre ptr post e hcell hzero hes hlays hsize hstuck ih =>
    obtain ⟨cell', hget, hzero', hes'⟩ :=
      hcell' _ _ hptr hcell hzero (.element hcell hzero hes hlays hsize hstuck)
    have hbelow : ∀ p ∈ pre ++ ptr :: post, Below b p := fun p hp =>
      (hlay n cell _ hcell hes p hp).mono (Nat.le_of_lt hptr)
    refine .element hget hzero' (hes'.trans hes) ?_ hsize (ih (hbelow ptr (by simp)))
    exact lays_mono hlay hcells (fun p hp => hbelow p (by simp [hp])) hlays

theorem settles_back {b : Nat} (hlay : Layered mem) (hcells : Cells (Completes S) b mem mem')
    (hb : b ≤ mem.length) {ptr : Ref} (hptr : Below b ptr) {e : SizeAlign}
    (h : Settles S mem' ptr e) : Settles S mem ptr e := by
  have hmade : ∀ n, n < b → ∀ e, Settles S mem' (.made n) e → Settles S mem (.made n) e := by
    intro n
    induction n using Nat.strongRecOn with
    | ind n ih =>
      intro hn e h
      obtain ⟨cell, hcell⟩ : ∃ cell, mem[n]? = some cell :=
        ⟨_, List.getElem?_eq_getElem (Nat.lt_of_lt_of_le hn hb)⟩
      obtain ⟨cell', hcell', rfl | ⟨hzero, e', he', rfl⟩⟩ := hcells n cell hn hcell
      · cases h with
        | complete hload hne =>
          obtain rfl := Option.some.inj (hcell'.symm.trans hload)
          exact settles_of_ne_zero hcell hne
        | aggregate hget hzero hes hlays hne =>
          obtain rfl := Option.some.inj (hcell'.symm.trans hget)
          refine .aggregate hcell hzero hes (hlays.imp fun ptr hmem e h => ?_) hne
          have hbelow := hlay n _ _ hcell hes ptr hmem
          cases ptr with
          | made k => exact ih k hbelow (Nat.lt_trans hbelow hn) e h
          | ffiTypes _ => exact settles_ffiTypes h
          | member _ => exact hbelow.elim
      · cases h with
        | complete hload _ =>
          obtain rfl := Option.some.inj (hcell'.symm.trans hload)
          exact he'
        | aggregate hget hzero' _ _ _ =>
          obtain rfl := Option.some.inj (hcell'.symm.trans hget)
          exact absurd hzero' he'.ne_zero
  cases ptr with
  | made n => exact hmade n hptr e h
  | ffiTypes _ => exact settles_ffiTypes h
  | member _ => exact hptr.elim

/-! ### One call after another -/

theorem Cells.refl {b : Nat} : Cells (Completes S) b mem mem :=
  fun _ cell _ hcell => ⟨cell, hcell, .inl rfl⟩

theorem Cells.trans {b : Nat} (h₁ : Cells (Completes S) b mem mem') (hlay : Layered mem)
    (hb : b ≤ mem.length) (h₂ : Cells (Prepares S) b mem' mem'') :
    Cells (Prepares S) b mem mem'' := by
  intro n cell hn hcell
  obtain ⟨cell', hcell', hc⟩ := h₁ n cell hn hcell
  obtain ⟨cell'', hcell'', hp⟩ := h₂ n cell' hn hcell'
  refine ⟨cell'', hcell'', ?_⟩
  rcases hc with rfl | ⟨hzero, e, he, rfl⟩
  · rcases hp with (rfl | ⟨hzero, e, he, rfl⟩) | ⟨hzero, hnot, e, rfl, hstuck⟩
    · exact .inl (.inl rfl)
    · exact .inl (.inr ⟨hzero, e, settles_back hlay h₁ hb (below_made hn) he, rfl⟩)
    · refine .inr ⟨hzero, fun e' he' => hnot e' ?_, e, rfl, fun hs => hstuck ?_⟩
      · exact settles_mono hlay (h₁.imp fun _ _ _ => Completes.prepares) (below_made hn) he'
      · exact stuck_mono hlay (h₁.imp fun _ _ _ => Completes.prepares) (below_made hn) hs
  · obtain rfl := hp.of_ne_zero he.ne_zero
    exact .inl (.inr ⟨hzero, e, he, rfl⟩)

theorem Cells.trans_completes {b : Nat} (h₁ : Cells (Completes S) b mem mem')
    (hlay : Layered mem) (hb : b ≤ mem.length)
    (h₂ : Cells (Completes S) b mem' mem'') : Cells (Completes S) b mem mem'' := by
  intro n cell hn hcell
  obtain ⟨cell', hcell', hc⟩ := h₁ n cell hn hcell
  obtain ⟨cell'', hcell'', hc'⟩ := h₂ n cell' hn hcell'
  refine ⟨cell'', hcell'', ?_⟩
  rcases hc with rfl | ⟨hzero, e, he, rfl⟩
  · rcases hc' with rfl | ⟨hzero, e, he, rfl⟩
    · exact .inl rfl
    · exact .inr ⟨hzero, e, settles_back hlay h₁ hb (below_made hn) he, rfl⟩
  · obtain rfl := (Completes.prepares hc').of_ne_zero he.ne_zero
    exact .inr ⟨hzero, e, he, rfl⟩

/-! ### The calls -/

/-- Only sizes and alignments are written. -/
def SameElements (mem mem' : Memory) : Prop :=
  mem'.map Cell.elements = mem.map Cell.elements

theorem SameElements.length (h : SameElements mem mem') : mem'.length = mem.length := by
  simpa using congrArg List.length h

theorem SameElements.getElem? (h : SameElements mem mem') (n : Nat) :
    (mem'[n]?).map Cell.elements = (mem[n]?).map Cell.elements := by
  rw [← List.getElem?_map, ← List.getElem?_map, h]

theorem SameElements.layered (h : SameElements mem mem') (hlay : Layered mem) : Layered mem' := by
  intro n cell' es hcell' hes ptr hptr
  have hn := h.getElem? n
  rw [hcell'] at hn
  obtain ⟨cell, hcell, hsame⟩ := Option.map_eq_some_iff.mp hn.symm
  exact hlay n cell es hcell (hsame.trans hes) ptr hptr

theorem storeExtent_sameElements (n : Nat) (e : SizeAlign) :
    SameElements mem (storeExtent mem n e) := by
  refine List.ext_getElem? fun k => ?_
  rw [List.getElem?_map, List.getElem?_map, storeExtent, List.getElem?_modify]
  cases mem[k]? with
  | none => rfl
  | some cell =>
    by_cases h : n = k
    · simp [h]
    · simp [h]

theorem storeExtent_of_ne {n k : Nat} (h : n ≠ k) (e : SizeAlign) :
    (storeExtent mem n e)[k]? = mem[k]? := List.getElem?_modify_ne _ _ h

theorem storeExtent_self {n : Nat} {cell : Cell} (h : mem[n]? = some cell) (e : SizeAlign) :
    (storeExtent mem n e)[n]? = some (cell.withExtent e) := by
  rw [storeExtent, List.getElem?_modify_eq, h]
  rfl

/-- What a call for `ptr` does, which may write to the cells below `b`. -/
structure Outcome (S : StaticTypes) (b : Nat) (mem : Memory) (ptr : Ref) (r : Status × Memory) :
    Prop where
  same : SameFrom b mem r.2
  elements : SameElements mem r.2
  result : (r.1 = .ok ∧ Cells (Completes S) b mem r.2 ∧
      ∃ cell, load S r.2 ptr = some cell ∧ Settles S mem ptr cell.extent) ∨
    (r.1 = .badTypedef ∧ Cells (Prepares S) b mem r.2 ∧ ∀ e, ¬ Settles S mem ptr e)

/-- `init` does what `initialize_aggregate` should for the cells below `b`. -/
def Initializes (S : StaticTypes) (init : Ref → Memory → Status × Memory) (b : Nat) : Prop :=
  ∀ mem, Layered mem → ∀ k cell, k < b → mem[k]? = some cell → cell.size = 0 →
    Outcome S (k + 1) mem (.made k) (init (.made k) mem)

theorem Cells.extend {R : Memory → Nat → Cell → Cell → Prop} {b b' : Nat}
    (h : Cells R b mem mem') (hR : ∀ n cell, R mem n cell cell) (hsame : SameFrom b mem mem') :
    Cells R b' mem mem' := by
  intro n cell hn hcell
  by_cases hb : n < b
  · exact h n cell hb hcell
  · exact ⟨cell, by rw [hsame n (by omega), hcell], hR n cell⟩

theorem prepare_spec {init : Ref → Memory → Status × Memory} {b : Nat} (hlay : Layered mem)
    (hb : b ≤ mem.length) (hinit : Initializes S init b) {ptr : Ref} (hptr : Below b ptr) :
    Outcome S b mem ptr (prepare S init ptr mem) := by
  have hdone : ∀ cell, load S mem ptr = some cell → cell.size ≠ 0 →
      Outcome S b mem ptr (prepare S init ptr mem) := by
    intro cell hload hne
    have hrun : prepare S init ptr mem = (.ok, mem) := by
      rw [prepare, hload]
      exact if_neg hne
    rw [hrun]
    exact ⟨fun _ _ => rfl, rfl, .inl ⟨rfl, .refl, cell, hload, .complete hload hne⟩⟩
  cases ptr with
  | ffiTypes name => exact hdone (S.cell name) rfl (S.size_ne name)
  | member _ => exact hptr.elim
  | made k =>
    obtain ⟨cell, hcell⟩ : ∃ cell, mem[k]? = some cell :=
      ⟨_, List.getElem?_eq_getElem (Nat.lt_of_lt_of_le hptr hb)⟩
    have hload : load S mem (.made k) = some cell := hcell
    by_cases hzero : cell.size = 0
    · have hrun : prepare S init (.made k) mem = init (.made k) mem := by
        rw [prepare, hload]
        exact if_pos hzero
      obtain ⟨hsame, hels, hres⟩ := hinit mem hlay k cell hptr hcell hzero
      rw [hrun]
      refine ⟨fun n hn => hsame n (Nat.le_trans hptr hn), hels, ?_⟩
      rcases hres with ⟨hok, hcells, hsettle⟩ | ⟨hbad, hcells, hnot⟩
      · exact .inl ⟨hok, hcells.extend (fun _ _ => .inl rfl) hsame, hsettle⟩
      · exact .inr ⟨hbad, hcells.extend (fun _ _ => .inl (.inl rfl)) hsame, hnot⟩
    · exact hdone cell hload hzero

/-- What the loop of `initialize_aggregate` for `n` comes to from `arg`. -/
def LoopResult (S : StaticTypes) (mem : Memory) (n : Nat) (cell : Cell) (arg : SizeAlign)
    (es : List Ref) (r : Status × Memory) : Prop :=
  (r.1 = .ok ∧ Cells (Completes S) n mem r.2 ∧
    ∃ e, Lays S mem arg es e ∧ r.2[n]? = some (cell.withExtent e)) ∨
  (r.1 = .badTypedef ∧ Cells (Prepares S) n mem r.2 ∧
    ∃ pre ptr post e, es = pre ++ ptr :: post ∧ Lays S mem arg pre e ∧
      (∀ e, ¬ Settles S mem ptr e) ∧ r.2[n]? = some (cell.withExtent e))

theorem initializeElements_spec {init : Ref → Memory → Status × Memory} {n : Nat} {cell : Cell}
    (hlay : Layered mem) (hn : n < mem.length) (hinit : Initializes S init n) (es : List Ref) :
    ∀ (m : Memory) (arg : SizeAlign), (∀ ptr ∈ es, Below n ptr) → SameElements mem m →
      Cells (Completes S) n mem m → m[n]? = some (cell.withExtent arg) →
      SameFrom (n + 1) mem m →
      SameElements mem (initializeElements S init n es m).2 ∧
        SameFrom (n + 1) mem (initializeElements S init n es m).2 ∧
        LoopResult S mem n cell arg es (initializeElements S init n es m) := by
  induction es with
  | nil =>
    intro m arg _ hels hcells hget hsame
    exact ⟨hels, hsame, .inl ⟨rfl, hcells, arg, .nil, hget⟩⟩
  | cons ptr es ih =>
    intro m arg hbelow hels hcells hget hsame
    have hle := Nat.le_of_lt hn
    have hptr := hbelow ptr (.head _)
    obtain ⟨hsame₁, hels₁, hres⟩ :=
      prepare_spec (hels.layered hlay) (by rw [hels.length]; exact hle) hinit hptr
    have hsame' : SameFrom (n + 1) mem (prepare S init ptr m).2 := fun k hk => by
      rw [hsame₁ k (by omega), hsame k hk]
    have hget' : (prepare S init ptr m).2[n]? = some (cell.withExtent arg) := by
      rw [hsame₁ n (Nat.le_refl n), hget]
    rw [initializeElements]
    rcases hrun : prepare S init ptr m with ⟨st, m'⟩
    rw [hrun] at hres hels₁ hsame' hget'
    rcases hres with ⟨rfl, hcells', elt, hload, hsettle⟩ | ⟨rfl, hcells', hnot⟩
    · -- the element is complete, and `arg` is read and written
      have hadd : addElement S n ptr m' = storeExtent m' n (arg.add elt.extent) := by
        unfold addElement
        rw [hget', hload]
        rfl
      have hstore := storeExtent_self hget' (arg.add elt.extent)
      rw [Cell.withExtent_withExtent] at hstore
      simp only
      rw [hadd]
      have hcells₂ : Cells (Completes S) n mem (storeExtent m' n (arg.add elt.extent)) := by
        intro k c hk hc
        obtain ⟨c', hc', hR⟩ := hcells.trans_completes hlay hle hcells' k c hk hc
        exact ⟨c', by rw [storeExtent_of_ne (by omega), hc'], hR⟩
      have hsame₂ : SameFrom (n + 1) mem (storeExtent m' n (arg.add elt.extent)) := by
        intro k hk
        rw [storeExtent_of_ne (by omega)]
        exact hsame' k hk
      obtain ⟨hels₂, hsame₂, hloop⟩ := ih (storeExtent m' n (arg.add elt.extent))
        (arg.add elt.extent) (fun p hp => hbelow p (.tail _ hp))
        ((storeExtent_sameElements n _).trans (hels₁.trans hels)) hcells₂ hstore hsame₂
      refine ⟨hels₂, hsame₂, ?_⟩
      have hptr' := settles_back hlay hcells hle hptr hsettle
      rcases hloop with ⟨hok, hc, e, hlays, hfin⟩ |
        ⟨hbad, hc, pre, p, post, e, rfl, hlays, hp, hfin⟩
      · exact .inl ⟨hok, hc, e, .cons hptr' hlays, hfin⟩
      · exact .inr ⟨hbad, hc, ptr :: pre, p, post, e, rfl, .cons hptr' hlays, hp, hfin⟩
    · simp only
      refine ⟨hels₁.trans hels, hsame', .inr ⟨rfl, hcells.trans hlay hle hcells', [], ptr, es, arg,
        rfl, .nil, fun e he => hnot e ?_, hget'⟩⟩
      exact settles_mono hlay (hcells.imp fun _ _ _ => Completes.prepares) hptr he

theorem first_rejected_unique {pre pre' post post' : List Ref} {ptr ptr' : Ref}
    (heq : pre ++ ptr :: post = pre' ++ ptr' :: post') {arg e e' : SizeAlign}
    (hpre : Lays S mem arg pre e) (hpre' : Lays S mem arg pre' e') (hlay : Layered mem)
    (hptr : ∀ e, ¬ Settles S mem ptr e) (hptr' : ∀ e, ¬ Settles S mem ptr' e) : e = e' := by
  induction pre generalizing pre' arg with
  | nil =>
    cases pre' with
    | nil =>
      cases hpre
      cases hpre'
      rfl
    | cons p pre' =>
      obtain ⟨rfl, _⟩ := List.cons.inj heq
      obtain _ | ⟨hp, _⟩ := hpre'
      exact absurd hp (hptr _)
  | cons p pre ih =>
    obtain _ | ⟨hp, hrest⟩ := hpre
    cases pre' with
    | nil =>
      obtain ⟨rfl, _⟩ := List.cons.inj heq
      exact absurd hp (hptr' _)
    | cons p' pre' =>
      obtain ⟨rfl, htail⟩ := List.cons.inj heq
      obtain _ | ⟨hp', hrest'⟩ := hpre'
      obtain rfl := hp.det hlay hp'
      exact ih htail hrest hrest'

/-- **What `initialize_aggregate` does.** -/
theorem initializeAggregate_spec (fuel : Nat) :
    Initializes S (initializeAggregate S fuel) fuel := by
  induction fuel with
  | zero =>
    intro mem _ k cell hk
    omega
  | succ fuel ih =>
    intro mem hlay n cell hn hcell hzero
    have hlen : n < mem.length := (List.getElem?_eq_some_iff.mp hcell).1
    rw [initializeAggregate, hcell]
    cases hes : cell.elements with
    | none =>
      simp only [Option.bind_some, hes]
      refine ⟨fun _ _ => rfl, rfl, .inr ⟨rfl, Cells.refl.imp fun _ _ _ => .inl, ?_⟩⟩
      exact (Stuck.noElements hcell hzero hes).not_settles hlay
    | some es =>
      simp only [Option.bind_some, hes]
      obtain ⟨hels, hsame, hloop⟩ := initializeElements_spec hlay hlen
        (fun m hm k c hk => ih m hm k c (by omega)) es (storeExtent mem n ⟨0, 0⟩) ⟨0, 0⟩
        (hlay n cell es hcell hes) (storeExtent_sameElements n _)
        (fun k c hk hc => ⟨c, by rw [storeExtent_of_ne (by omega), hc], .inl rfl⟩)
        (storeExtent_self hcell _) (fun k hk => storeExtent_of_ne (by omega) _)
      rcases hrun : initializeElements S (initializeAggregate S fuel) n es
        (storeExtent mem n ⟨0, 0⟩) with ⟨st, m⟩
      rw [hrun] at hels hsame hloop
      have hcells : ∀ {R : Memory → Nat → Cell → Cell → Prop} {m' : Memory} {e : SizeAlign},
          Cells R n mem m' → m'[n]? = some (cell.withExtent e) → R mem n cell (cell.withExtent e) →
          Cells R (n + 1) mem m' := by
        intro R m' e hbelow hget hR k c hk hc
        rcases Nat.lt_or_eq_of_le (Nat.le_of_lt_succ hk) with hlt | rfl
        · exact hbelow k c hlt hc
        · obtain rfl := Option.some.inj (hcell.symm.trans hc)
          exact ⟨_, hget, hR⟩
      rcases hloop with ⟨rfl, hbelow, e, hlays, hget⟩ | ⟨rfl, hbelow, pre, ptr, post, e, hsplit,
        hlays, hptr, hget⟩
      · have hstore : (storeExtent m n e.padded)[n]? = some (cell.withExtent e.padded) :=
          storeExtent_self hget _
        have hbelow' : Cells (Completes S) n mem (storeExtent m n e.padded) := fun k c hk hc => by
          rw [storeExtent_of_ne (by omega)]
          exact hbelow k c hk hc
        have hpad : padEnd n m =
            (if e.padded.size = 0 then .badTypedef else .ok, storeExtent m n e.padded) := by
          rw [padEnd, hget]
          rfl
        simp only
        rw [hpad]
        refine ⟨fun k hk => ?_, (storeExtent_sameElements n _).trans hels, ?_⟩
        · rw [storeExtent_of_ne (by omega)]
          exact hsame k hk
        · by_cases hsize : e.padded.size = 0
          · have hstuck : Stuck S mem (.made n) := .empty hcell hzero hes hlays hsize
            refine .inr ⟨if_pos hsize, ?_, hstuck.not_settles hlay⟩
            exact hcells (hbelow'.imp fun _ _ _ => .inl) hstore
              (.inr ⟨hzero, hstuck.not_settles hlay, _, rfl, fun _ => hsize⟩)
          · have hsettle : Settles S mem (.made n) e.padded :=
              .aggregate hcell hzero hes hlays hsize
            exact .inl ⟨if_neg hsize, hcells hbelow' hstore (.inr ⟨hzero, _, hsettle, rfl⟩), _,
              hstore, hsettle⟩
      · have hnot : ∀ e, ¬ Settles S mem (.made n) e := by
          intro e' hs
          cases hs with
          | complete hload hne => exact hne (Option.some.inj (hload.symm.trans hcell) ▸ hzero)
          | aggregate hcell' _ hes' hlays' _ =>
            obtain rfl := Option.some.inj (hcell.symm.trans hcell')
            obtain rfl := Option.some.inj (hes.symm.trans hes')
            rw [hsplit] at hlays'
            obtain ⟨_, _, _ | ⟨hp, _⟩⟩ := lays_append.mp hlays'
            exact hptr _ hp
        refine ⟨hsame, hels, .inr ⟨rfl, hcells hbelow hget (.inr ⟨hzero, hnot, e, rfl, ?_⟩), hnot⟩⟩
        -- a stuck structure is left with the size of what is before its stuck element
        intro hstuck
        cases hstuck with
        | noElements hcell' _ hes' =>
          obtain rfl := Option.some.inj (hcell.symm.trans hcell')
          rw [hes] at hes'
          cases hes'
        | empty hcell' _ hes' hlays' _ =>
          obtain rfl := Option.some.inj (hcell.symm.trans hcell')
          obtain rfl := Option.some.inj (hes.symm.trans hes')
          rw [hsplit] at hlays'
          obtain ⟨_, _, _ | ⟨hp, _⟩⟩ := lays_append.mp hlays'
          exact absurd hp (hptr _)
        | element hcell' _ hes' hlays' hsize hstuck' =>
          obtain rfl := Option.some.inj (hcell.symm.trans hcell')
          have hsplit' := hsplit.symm.trans (Option.some.inj (hes.symm.trans hes'))
          rw [first_rejected_unique hsplit' hlays hlays' hlay hptr (hstuck'.not_settles hlay)]
          exact hsize

theorem prepareAll_spec {init : Ref → Memory → Status × Memory} (hlay : Layered mem)
    (hinit : Initializes S init mem.length) (ptrs : List Ref) :
    ∀ m : Memory, (∀ ptr ∈ ptrs, Below mem.length ptr) → SameElements mem m →
      Cells (Completes S) mem.length mem m →
      SameElements mem (prepareAll S init ptrs m).2 ∧
        Cells (Prepares S) mem.length mem (prepareAll S init ptrs m).2 ∧
        (((prepareAll S init ptrs m).1 = .ok ∧ ∀ ptr ∈ ptrs, ∃ e, Settles S mem ptr e) ∨
          ((prepareAll S init ptrs m).1 = .badTypedef ∧
            ∃ ptr ∈ ptrs, ∀ e, ¬ Settles S mem ptr e)) := by
  induction ptrs with
  | nil =>
    intro m _ hels hcells
    exact ⟨hels, hcells.imp fun _ _ _ => .inl, .inl ⟨rfl, by simp⟩⟩
  | cons ptr ptrs ih =>
    intro m hbelow hels hcells
    have hptr := hbelow ptr (.head _)
    have hlen : mem.length ≤ m.length := Nat.le_of_eq hels.length.symm
    obtain ⟨_, hels', hres⟩ := prepare_spec (hels.layered hlay) hlen hinit hptr
    rw [prepareAll]
    rcases hrun : prepare S init ptr m with ⟨st, m'⟩
    rw [hrun] at hels' hres
    rcases hres with ⟨rfl, hcells', elt, _, hsettle⟩ | ⟨rfl, hcells', hnot⟩
    · obtain ⟨hels'', hcells'', hall⟩ := ih m' (fun p hp => hbelow p (.tail _ hp))
        (hels'.trans hels) (hcells.trans_completes hlay (Nat.le_refl _) hcells')
      refine ⟨hels'', hcells'', ?_⟩
      rcases hall with ⟨hok, hall⟩ | ⟨hbad, p, hp, hnot⟩
      · refine .inl ⟨hok, fun p hp => ?_⟩
        rcases List.mem_cons.mp hp with rfl | hp
        · exact ⟨_, settles_back hlay hcells (Nat.le_refl _) hptr hsettle⟩
        · exact hall p hp
      · exact .inr ⟨hbad, p, .tail _ hp, hnot⟩
    · refine ⟨hels'.trans hels, hcells.trans hlay (Nat.le_refl _) hcells', .inr ⟨rfl, ptr, .head _,
        fun e he => hnot e ?_⟩⟩
      exact settles_mono hlay (hcells.imp fun _ _ _ => Completes.prepares) hptr he

/-- **What `ffi_prep_cif` says**: `FFI_OK` if every type settles, and `FFI_BAD_TYPEDEF` if one does
not. -/
theorem prepCif_spec (hlay : Layered mem) {rtype : Ref} {atypes : List Ref}
    (hbelow : ∀ ptr ∈ rtype :: atypes, Below mem.length ptr) :
    SameElements mem (prepCif S rtype atypes mem).2 ∧
      Cells (Prepares S) mem.length mem (prepCif S rtype atypes mem).2 ∧
      (((prepCif S rtype atypes mem).1 = .ok ∧
          ∀ ptr ∈ rtype :: atypes, ∃ e, Settles S mem ptr e) ∨
        ((prepCif S rtype atypes mem).1 = .badTypedef ∧
          ∃ ptr ∈ rtype :: atypes, ∀ e, ¬ Settles S mem ptr e)) :=
  prepareAll_spec hlay (initializeAggregate_spec mem.length) (rtype :: atypes) mem hbelow rfl .refl

end shared

end NodeFfi.Resolve
