import NodeFfi.Unix64.Transport

/-!
# The closure finds its arguments

`ffi_closure_unix64_inner` makes for each argument a pointer to the bytes that `Counts.view` says
(`findArguments_spec`). Two integer registers are consecutive in `register_args`, so it points there;
of two words that are not, it makes a copy.
-/

namespace NodeFfi.Unix64

open Libffi Layout Bytes

variable (frames : Frames)

/-- The counts of `ffi_closure_unix64_inner`. -/
def InnerState.counts (st : InnerState) : Counts := ⟨st.gprcount, st.ssecount, st.argp⟩

theorem copyWords_spec {cs front rest : List RegClass} (hcs : cs = front ++ rest)
    {classes : Classes} (hclasses : ∀ i < cs.length, classes i = cs.getD i .no)
    (hlen : cs.length ≤ maxClasses)
    (hkind : ∀ d ∈ rest, d.isGpr = true ∧ d.isSse = false ∧ d.sseClassP = false ∨
      d.isGpr = false ∧ d.isSse = true ∧ d.sseClassP = true)
    (c : Counts) {st : InnerState} (regArgs a : Area)
    (hst : st.counts = ⟨c.gpr + gprs front, c.sse + sses front, c.argp⟩) :
    ∃ a' st', copyWords regArgs classes front.length rest.length a st = some (a', st') ∧
      st'.counts = ⟨c.gpr + gprs cs, c.sse + sses cs, c.argp⟩ ∧
      (∀ k < 8 * front.length, a' k = a k) ∧
      ∀ k, 8 * front.length ≤ k → k < 8 * cs.length →
        a' k = regArgs (c.registerOffset cs k) := by
  induction rest generalizing front st a with
  | nil =>
    rw [List.append_nil] at hcs
    refine ⟨a, st, rfl, by rw [hst, hcs], fun k _ => rfl, ?_⟩
    intro k hk hlt
    rw [hcs] at hlt
    omega
  | cons d rest ih =>
    have hlt : front.length < cs.length := by
      rw [hcs, List.length_append, List.length_cons]
      omega
    have hget : cs.getD front.length .no = d := by
      rw [hcs, List.getD_append_right _ _ _ _ (Nat.le_refl _), Nat.sub_self]
      rfl
    have hcs' : cs = (front ++ [d]) ++ rest := by
      rw [hcs, List.append_assoc]
      rfl
    have hfront : (front ++ [d]).length = front.length + 1 := by
      rw [List.length_append, List.length_singleton]
    have hrest := fun e he => hkind e (List.mem_cons_of_mem _ he)
    have hg := gprs_cons front [] d
    have hs := sses_cons front [] d
    simp only [gprs, sses, List.countP_nil, Nat.add_zero] at hg hs
    obtain ⟨hgpr, hsse, hargp⟩ := Counts.mk.inj hst
    simp only [gprs, sses] at hgpr hsse
    rw [List.length_cons, copyWords, get_eq (by omega), hclasses _ hlt, hget]
    simp only [Option.bind_eq_bind, Option.bind_some]
    have hword : ∀ k, 8 * front.length ≤ k → k < 8 * front.length + 8 →
        c.registerOffset cs k = if d.sseClassP then
          sseOffset (c.sse + sses front) + (k - 8 * front.length)
        else gprOffset (c.gpr + gprs front) + (k - 8 * front.length) := by
      intro k hk hk'
      have hoff := registerOffset_word c front rest d (k := k - 8 * front.length) (by omega)
      rw [← hcs, show 8 * front.length + (k - 8 * front.length) = k by omega] at hoff
      exact hoff
    rcases hkind d List.mem_cons_self with ⟨hdg, hds, hp⟩ | ⟨hdg, hds, hp⟩
    · have hst' : InnerState.counts ⟨st.gprcount + 1, st.ssecount, st.argp⟩ =
          ⟨c.gpr + gprs (front ++ [d]), c.sse + sses (front ++ [d]), c.argp⟩ := by
        simp only [InnerState.counts, gprs, sses, hg, hs, hdg, hds, hgpr, hsse, hargp, if_true,
          Bool.false_eq_true, if_false, Nat.add_assoc, Nat.add_zero]
      rw [hp, if_neg Bool.false_ne_true]
      obtain ⟨a', st', hrun, hcounts, hbefore, hafter⟩ := ih hcs' hrest
        (a.write (8 * front.length) 8 (regArgs.at_ (gprOffset st.gprcount))) hst'
      rw [hfront] at hrun hbefore hafter
      refine ⟨a', st', hrun, hcounts, ?_, ?_⟩
      · intro k hk
        rw [hbefore k (by omega), Area.write_of_out (.inl hk)]
      · intro k hk hk'
        rcases Nat.lt_or_ge k (8 * front.length + 8) with hkw | hkw
        · rw [hbefore k (by omega), hword k hk hkw, hp, if_neg Bool.false_ne_true]
          unfold Area.write
          rw [if_pos ⟨hk, hkw⟩, Area.at_apply]
          rw [hgpr]
          rfl
        · exact hafter k (by omega) hk'
    · have hst' : InnerState.counts ⟨st.gprcount, st.ssecount + 1, st.argp⟩ =
          ⟨c.gpr + gprs (front ++ [d]), c.sse + sses (front ++ [d]), c.argp⟩ := by
        simp only [InnerState.counts, gprs, sses, hg, hs, hdg, hds, hgpr, hsse, hargp, if_true,
          Bool.false_eq_true, if_false, Nat.add_assoc, Nat.add_zero]
      rw [hp, if_pos rfl]
      obtain ⟨a', st', hrun, hcounts, hbefore, hafter⟩ := ih hcs' hrest
        (a.write (8 * front.length) 8 (regArgs.at_ (sseOffset st.ssecount))) hst'
      rw [hfront] at hrun hbefore hafter
      refine ⟨a', st', hrun, hcounts, ?_, ?_⟩
      · intro k hk
        rw [hbefore k (by omega), Area.write_of_out (.inl hk)]
      · intro k hk hk'
        rcases Nat.lt_or_ge k (8 * front.length + 8) with hkw | hkw
        · rw [hbefore k (by omega), hword k hk hkw, hp, if_pos rfl]
          unfold Area.write
          rw [if_pos ⟨hk, hkw⟩, Area.at_apply]
          rw [hsse]
          rfl
        · exact hafter k (by omega) hk'

theorem bothInteger_of_ne {e : Examined} (hn : e.n ≠ 2) : bothInteger e = some false := if_neg hn

theorem bothInteger_of_eq {e : Examined} {c d : RegClass} (hn : e.n = 2) (hc : e.classes 0 = c)
    (hd : e.classes 1 = d) : bothInteger e = some !(c.sseClassP || d.sseClassP) := by
  have h0 : e.classes.get 0 = some (e.classes 0) := get_eq (by decide)
  have h1 : e.classes.get 1 = some (e.classes 1) := get_eq (by decide)
  unfold bothInteger
  rw [if_pos hn, h0, h1, hc, hd]
  rfl

theorem findArgument_spec {t : FfiType} (h : Laid t) {st : InnerState}
    (hwrap : (st.counts.next t).argp < 2 ^ 64)
    (hpass : st.counts.InMemory t ∨ Complete (argClasses t)) (regArgs copy : Area) (i : Nat)
    (classes : Classes) :
    ∃ p st', findArgument frames regArgs copy i t classes st = some (p, st') ∧
      st'.counts = st.counts.next t ∧
      ∀ memory, ∀ k < t.size.toNat,
        p.deref regArgs memory k = st.counts.view t regArgs memory k := by
  obtain ⟨e, hrun, hn, hclasses, hcounts⟩ := examineArgument_argument frames [i] h classes
  have hpassed := passedInMemory_eq hn hcounts st.counts
  change passedInMemory e st.gprcount st.ssecount = _ at hpassed
  unfold findArgument Counts.view
  rw [hrun]
  simp only [Option.bind_eq_bind, Option.bind_some, hpassed, decide_eq_true_eq]
  by_cases hmem : st.counts.InMemory t
  · have hnext : st.counts.next t =
        ⟨st.gprcount, st.ssecount, st.counts.stackAddress t + t.size.toNat⟩ := if_pos hmem
    rw [hnext] at hwrap
    simp only at hwrap
    have haddr : alignUp st.argp (stackAlign t) = st.counts.stackAddress t :=
      alignUp_eq (isAlignment_stackAlign h) (show st.counts.stackAddress t < 2 ^ 64 by omega)
    rw [if_pos hmem, haddr]
    exact ⟨_, _, rfl, hnext.symm, fun memory k _ => (if_pos hmem).symm⟩
  · have hcomplete := hpass.resolve_left hmem
    have hnil : argClasses t ≠ [] := fun hnil => hmem (.inl hnil)
    obtain ⟨hlen, hle⟩ := argClasses_length h hnil
    have hkind := fun d hd => argClasses_kind h hd (hcomplete d hd)
    have hnext : st.counts.next t = ⟨st.gprcount + gprs (argClasses t),
        st.ssecount + sses (argClasses t), st.argp⟩ := if_neg hmem
    have h0 : e.classes.get 0 = some (e.classes 0) := get_eq (by decide)
    simp only [if_neg hmem]
    rw [hnext]
    generalize argClasses t = cs at hn hclasses hcomplete hnil hlen hle hkind hnext
    match cs, hnil, hle with
    | [c], _, _ =>
      have hc : e.classes 0 = c := hclasses 0 Nat.one_pos
      have hn : e.n = 1 := hn
      have hsize : t.size.toNat ≤ 8 := by
        simp only [List.length_singleton] at hlen
        omega
      have hoff : ∀ k < t.size.toNat, st.counts.registerOffset [c] k =
          if c.sseClassP then sseOffset st.ssecount + k else gprOffset st.gprcount + k := by
        intro k hk
        have hword := registerOffset_word st.counts [] [] c (k := k) (by omega)
        rw [List.length_nil, Nat.mul_zero, Nat.zero_add] at hword
        exact hword
      rw [bothInteger_of_ne (by omega)]
      simp only [hn, h0, hc, Option.bind_some, decide_true, Bool.true_or, if_true]
      rcases hkind c List.mem_cons_self with ⟨hg, hs, hp⟩ | ⟨hg, hs, hp⟩
      · rw [hp, if_neg Bool.false_ne_true]
        refine ⟨_, _, rfl, ?_, ?_⟩
        · simp [InnerState.counts, gprs, sses, hg, hs]
        · intro memory k hk
          rw [hoff k hk, hp, if_neg Bool.false_ne_true]
          rfl
      · rw [hp, if_pos rfl]
        refine ⟨_, _, rfl, ?_, ?_⟩
        · simp [InnerState.counts, gprs, sses, hg, hs]
        · intro memory k hk
          rw [hoff k hk, hp, if_pos rfl]
          rfl
    | [c, d], _, _ =>
      have hc : e.classes 0 = c := hclasses 0 Nat.two_pos
      have hd : e.classes 1 = d := hclasses 1 Nat.one_lt_two
      have hn : e.n = 2 := hn
      have hsize : t.size.toNat ≤ 16 := by
        simp only [List.length_cons, List.length_nil] at hlen
        omega
      have hcopy := copyWords_spec (show [c, d] = [] ++ [c, d] from rfl) hclasses
        (show 2 ≤ 4 by decide) hkind st.counts regArgs copy
        (show st.counts = ⟨st.gprcount + gprs [], st.ssecount + sses [], st.argp⟩ from rfl)
      rw [bothInteger_of_eq hn hc hd]
      simp only [hn, h0, hc, Option.bind_some, show decide (2 = 1) = false from rfl, Bool.false_or]
      cases hboth : c.sseClassP || d.sseClassP with
      | false =>
        -- two integer registers, one behind the other
        rw [Bool.or_eq_false_iff] at hboth
        have hgc : c.isGpr = true ∧ c.isSse = false := by
          rcases hkind c List.mem_cons_self with ⟨hg, hs, -⟩ | ⟨-, -, hp⟩
          · exact ⟨hg, hs⟩
          · rw [hboth.1] at hp
            exact absurd hp Bool.false_ne_true
        have hgd : d.isGpr = true ∧ d.isSse = false := by
          rcases hkind d (List.mem_cons_of_mem _ List.mem_cons_self) with ⟨hg, hs, -⟩ | ⟨-, -, hp⟩
          · exact ⟨hg, hs⟩
          · rw [hboth.2] at hp
            exact absurd hp Bool.false_ne_true
        simp only [hboth.1, Bool.not_false, if_true, Bool.false_eq_true, if_false]
        refine ⟨_, _, rfl, ?_, ?_⟩
        · simp [InnerState.counts, gprs, sses, hgc.1, hgc.2, hgd.1, hgd.2]
        · intro memory k hk
          have hoff : st.counts.registerOffset [c, d] k = gprOffset st.gprcount + k := by
            rcases Nat.lt_or_ge k 8 with hk8 | hk8
            · have hword := registerOffset_word st.counts [] [d] c hk8
              rw [hboth.1, List.length_nil, Nat.mul_zero, Nat.zero_add] at hword
              exact hword
            · have hword := registerOffset_word st.counts [c] [] d (k := k - 8) (by omega)
              rw [hboth.2] at hword
              have hone : gprs [c] = 1 := by simp [gprs, hgc.1]
              rw [hone, List.length_singleton, show 8 * 1 + (k - 8) = k by omega] at hword
              change st.counts.registerOffset [c, d] k = gprOffset (st.gprcount + 1) + (k - 8)
                at hword
              unfold gprOffset at hword ⊢
              omega
          rw [hoff]
          rfl
      | true =>
        obtain ⟨a', st', hrun', hcounts', -, hbytes⟩ := hcopy
        simp only [Bool.not_true, Bool.false_eq_true, if_false]
        change copyWords regArgs e.classes 0 2 copy st = _ at hrun'
        rw [hrun']
        refine ⟨_, _, rfl, hcounts', ?_⟩
        intro memory k hk
        exact hbytes k (Nat.zero_le k) (show k < 8 * 2 by omega)

/-- The pointers lead to the arguments. -/
def Finds (c : Counts) : List FfiType → List Pointer → Area → Prop
  | t :: ts, p :: ps, regArgs =>
    (∀ memory, ∀ k < t.size.toNat, p.deref regArgs memory k = c.view t regArgs memory k) ∧
      Finds (c.next t) ts ps regArgs
  | [], [], _ => True
  | _, _, _ => False

/-- **`ffi_closure_unix64_inner` finds the arguments.** -/
theorem findArguments_spec {ts : List FfiType} (st : InnerState) (hlaid : ∀ t ∈ ts, Laid t)
    (hwrap : (st.counts.after ts).argp < 2 ^ 64) (hpass : Passable st.counts ts)
    (regArgs copy : Area) (i : Nat) (classes : Nat → Classes) :
    ∃ ps, findArguments frames regArgs copy i classes ts st = some ps ∧
      Finds st.counts ts ps regArgs := by
  induction ts generalizing st i with
  | nil => exact ⟨[], rfl, trivial⟩
  | cons t ts ih =>
    have hle := Counts.le_after (st.counts.next t) ts
    change ((st.counts.next t).after ts).argp < 2 ^ 64 at hwrap
    obtain ⟨p, st', hrun, hcounts, hview⟩ := findArgument_spec frames (hlaid t List.mem_cons_self)
      (by omega) hpass.1 regArgs copy i (classes i)
    rw [← hcounts] at hwrap
    have hpass' : Passable st'.counts ts := by
      rw [hcounts]
      exact hpass.2
    obtain ⟨ps, hrest, hfinds⟩ := ih _ (fun t ht => hlaid t (List.mem_cons_of_mem _ ht)) hwrap hpass'
      (i + 1)
    refine ⟨p :: ps, ?_, hview, ?_⟩
    · rw [findArguments, hrun]
      simp only [Option.bind_eq_bind, Option.bind_some, hrest]
      rfl
    · rw [hcounts] at hfinds
      exact hfinds

end NodeFfi.Unix64
