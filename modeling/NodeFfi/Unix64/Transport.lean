import NodeFfi.Unix64.Examine

/-!
# Arguments reach the closure

`ffi_call` puts each argument where `Counts.view` says (`passArguments_spec`),
`ffi_closure_unix64_inner` looks for it there (`findArguments_spec`), and what lies between them
keeps the registers and the stack that are in use. So the bytes of each scalar in an argument
arrive; what does not are the bytes behind a `float` that has its word for itself, which no scalar
lies on.
-/

namespace NodeFfi.Unix64

open Libffi Layout Bytes

variable (frames : Frames)

/-! ### Registers and stack in use -/

namespace Counts

variable {c : Counts} {t : FfiType} {ts : List FfiType}

/-- The counts do not exceed the registers. -/
def Bounded (c : Counts) : Prop := c.gpr ≤ maxGprRegs ∧ c.sse ≤ maxSseRegs

theorem Bounded.next (h : c.Bounded) : (c.next t).Bounded := by
  unfold Counts.next
  split
  · exact h
  · rename_i hmem
    unfold InMemory at hmem
    simp only [not_or, Nat.not_lt] at hmem
    exact hmem.2

theorem Bounded.after (h : c.Bounded) (ts : List FfiType) : (c.after ts).Bounded := by
  induction ts generalizing c with
  | nil => exact h
  | cons t ts ih => exact ih h.next

/-- An address in the part of `register_args` that is in use. -/
def UsedOffset (c : Counts) (a : Nat) : Prop := a < 8 * c.gpr ∨ 48 ≤ a ∧ a < 48 + 16 * c.sse

/-- An address that holds a register or a stack argument, or lies outside what `ffi_call` has
allocated for them, from `stack` to `last`. -/
def Kept (c : Counts) (stack last a : Nat) : Prop :=
  stack ≤ a ∧ c.UsedOffset (a - stack) ∨ stack + registerArgsSize ≤ a ∧ a < c.argp ∨
    a < stack ∨ last ≤ a

theorem le_stackAddress : c.argp ≤ c.stackAddress t := by
  apply le_roundUp
  unfold stackAlign
  split <;> omega

theorem argp_le_next : c.argp ≤ (c.next t).argp := by
  have hle := le_stackAddress (c := c) (t := t)
  unfold next
  split
  · exact Nat.le_trans hle (Nat.le_add_right _ _)
  · exact Nat.le_refl _

theorem le_after (c : Counts) (ts : List FfiType) : c.gpr ≤ (c.after ts).gpr ∧
    c.sse ≤ (c.after ts).sse ∧ c.argp ≤ (c.after ts).argp := by
  induction ts generalizing c with
  | nil => exact ⟨Nat.le_refl _, Nat.le_refl _, Nat.le_refl _⟩
  | cons t ts ih =>
    have hrest := ih (c.next t)
    have hargp := argp_le_next (c := c) (t := t)
    have hgpr : c.gpr ≤ (c.next t).gpr ∧ c.sse ≤ (c.next t).sse := by
      unfold next
      split
      · exact ⟨Nat.le_refl _, Nat.le_refl _⟩
      · exact ⟨Nat.le_add_right _ _, Nat.le_add_right _ _⟩
    change c.gpr ≤ ((c.next t).after ts).gpr ∧ c.sse ≤ ((c.next t).after ts).sse ∧
      c.argp ≤ ((c.next t).after ts).argp
    omega

theorem Kept.after {stack last a : Nat} (h : c.Kept stack last a) (ts : List FfiType) :
    (c.after ts).Kept stack last a := by
  have hle := le_after c ts
  unfold Kept UsedOffset at h ⊢
  omega

end Counts

/-! ### Where the bytes are -/

/-- The classes of an argument that has a register for each word. -/
def Complete (cs : List RegClass) : Prop := ∀ c ∈ cs, c ≠ .no

instance (cs : List RegClass) : Decidable (Complete cs) := by
  unfold Complete
  infer_instance

theorem registerOffset_word (c : Counts) (front rest : List RegClass) (d : RegClass) {k : Nat}
    (hk : k < 8) : c.registerOffset (front ++ d :: rest) (8 * front.length + k) =
      if d.sseClassP then sseOffset (c.sse + sses front) + k
      else gprOffset (c.gpr + gprs front) + k := by
  have hdiv : (8 * front.length + k) / 8 = front.length := by omega
  have hmod : (8 * front.length + k) % 8 = k := by omega
  unfold Counts.registerOffset
  rw [hdiv, hmod, List.getD_append_right _ _ _ _ (Nat.le_refl _), Nat.sub_self,
    List.take_left]
  rfl

section register

variable {c : Counts} {t : FfiType}

theorem usedOffset_registerOffset (h : Laid t) (hcomplete : Complete (argClasses t)) {k : Nat}
    (hk : k < 8 * (argClasses t).length) :
    Counts.UsedOffset ⟨c.gpr + gprs (argClasses t), c.sse + sses (argClasses t), c.argp⟩
      (c.registerOffset (argClasses t) k) := by
  have hlt : k / 8 < (argClasses t).length := by omega
  obtain ⟨d, hd⟩ : ∃ d, (argClasses t)[k / 8] = d := ⟨_, rfl⟩
  have hmem : d ∈ argClasses t := by
    rw [← hd]
    exact List.getElem_mem hlt
  have hsplit : argClasses t = (argClasses t).take (k / 8) ++ d :: (argClasses t).drop (k / 8 + 1) := by
    rw [← hd, ← List.drop_eq_getElem_cons hlt, List.take_append_drop]
  have hlen : ((argClasses t).take (k / 8)).length = k / 8 := by
    rw [List.length_take]
    omega
  have hoff := registerOffset_word c ((argClasses t).take (k / 8))
    ((argClasses t).drop (k / 8 + 1)) d (k := k % 8) (Nat.mod_lt _ (by omega))
  rw [← hsplit, hlen, Nat.div_add_mod] at hoff
  have hgprs := gprs_cons ((argClasses t).take (k / 8)) ((argClasses t).drop (k / 8 + 1)) d
  have hsses := sses_cons ((argClasses t).take (k / 8)) ((argClasses t).drop (k / 8 + 1)) d
  rw [← hsplit] at hgprs hsses
  have hmod : k % 8 < 8 := Nat.mod_lt _ (by omega)
  rw [hoff]
  unfold Counts.UsedOffset sseOffset gprOffset
  rcases argClasses_kind h hmem (hcomplete d hmem) with ⟨hg, -, hp⟩ | ⟨-, hs, hp⟩
  · rw [hp]
    rw [hg] at hgprs
    simp only [if_true] at hgprs
    simp only [Bool.false_eq_true, if_false]
    omega
  · rw [hp]
    rw [hs] at hsses
    simp only [if_true] at hsses ⊢
    omega

theorem view_congr (h : Laid t) (hcomplete : ¬c.InMemory t → Complete (argClasses t))
    {registers registers' memory memory' : Area}
    (hregisters : ∀ a, (c.next t).UsedOffset a → registers' a = registers a)
    (hmemory : ∀ a, c.argp ≤ a → a < (c.next t).argp → memory' a = memory a) {k : Nat}
    (hk : k < t.size.toNat) :
    c.view t registers' memory' k = c.view t registers memory k := by
  have hle := Counts.le_stackAddress (c := c) (t := t)
  unfold Counts.view
  unfold Counts.next at hregisters hmemory
  split
  · rename_i hmem
    rw [if_pos hmem] at hmemory
    exact hmemory _ (by omega) (by simp only; omega)
  · rename_i hmem
    rw [if_neg hmem] at hregisters
    have hnil : argClasses t ≠ [] := fun hnil => hmem (.inl hnil)
    have hlen := (argClasses_length h hnil).1
    exact hregisters _ (usedOffset_registerOffset h (hcomplete hmem) (by omega))

end register

/-! ### `ffi_call` -/

/-- The counts of `ffi_call`. -/
def CallState.counts (st : CallState) : Counts := ⟨st.gprcount, st.ssecount, st.argp⟩

/-- The bytes of a word that `ffi_call` moves, where `size` bytes of the argument are left. -/
def moved (d : RegClass) (size : Nat) : Nat :=
  if d.isGpr then min size 8 else if d = .ssesf then 4 else 8

theorem passWord_spec (stack size : Nat) (a : Area) {last : Nat}
    (hlast : stack + registerArgsSize ≤ last) {d : RegClass} {st : CallState}
    (hkind : d.isGpr = true ∧ d.isSse = false ∧ d.sseClassP = false ∨
      d.isGpr = false ∧ d.isSse = true ∧ d.sseClassP = true)
    (hbounded : st.counts.Bounded) (hgpr : d.isGpr = true → st.gprcount < maxGprRegs)
    (hsse : d.isSse = true → st.ssecount < maxSseRegs) :
    ∃ st', passWord stack d a size st = some st' ∧
      st'.counts = ⟨st.gprcount + (if d.isGpr then 1 else 0),
        st.ssecount + (if d.isSse then 1 else 0), st.argp⟩ ∧
      Area.AgreeOn (st.counts.Kept stack last) st.memory st'.memory ∧
      ∀ k < moved d size, st'.memory (stack + if d.sseClassP then sseOffset st.ssecount + k
        else gprOffset st.gprcount + k) = a k := by
  rcases hkind with ⟨hg, hs, hp⟩ | ⟨hg, hs, hp⟩
  · have hlt := hgpr hg
    unfold maxGprRegs at hlt
    refine ⟨st.pushGpr stack a (if size < 8 then size else 8), ?_, ?_, ?_, ?_⟩
    · revert hg
      cases d <;> first | exact fun _ => rfl | exact fun hg => absurd hg (by decide)
    · rw [hg, hs]
      rfl
    · have hout : ∀ b, st.counts.Kept stack last b →
          b < stack + gprOffset st.gprcount ∨ stack + gprOffset st.gprcount + 8 ≤ b := by
        intro b hb
        unfold Counts.Kept Counts.UsedOffset registerArgsSize at hb
        unfold gprOffset
        unfold registerArgsSize at hlast
        change stack ≤ b ∧ (b - stack < 8 * st.gprcount ∨ _) ∨ _ at hb
        omega
      refine (Area.agreeOn_write hout).trans (Area.agreeOn_write ?_)
      intro b hb
      have := hout b hb
      split <;> omega
    · intro k hk
      unfold moved at hk
      rw [hg] at hk
      rw [hp]
      show Area.write _ _ _ _ (stack + (gprOffset st.gprcount + k)) = a k
      rw [← Nat.add_assoc]
      refine Area.write_of_lt ?_
      simp only [if_true] at hk
      split <;> omega
  · have hlt := hsse hs
    unfold maxSseRegs at hlt
    have hpush : ∃ n, passWord stack d a size st = some (st.pushSse stack a n) ∧
        n = moved d size ∧ n ≤ 8 := by
      revert hs
      cases d <;> first
        | exact fun _ => ⟨_, rfl, rfl, by decide⟩
        | exact fun hs => absurd hs (by decide)
    obtain ⟨n, hrun, hn, hle⟩ := hpush
    refine ⟨st.pushSse stack a n, hrun, ?_, ?_, ?_⟩
    · rw [hg, hs]
      rfl
    · refine Area.agreeOn_write ?_
      intro b hb
      unfold Counts.Kept Counts.UsedOffset registerArgsSize at hb
      unfold sseOffset
      unfold registerArgsSize at hlast
      have hle : st.gprcount ≤ 6 := hbounded.1
      change stack ≤ b ∧ (b - stack < 8 * st.gprcount ∨ 48 ≤ b - stack ∧
        b - stack < 48 + 16 * st.ssecount) ∨ stack + 176 ≤ b ∧ b < st.argp ∨ _ at hb
      omega
    · intro k hk
      rw [← hn] at hk
      rw [hp]
      show Area.write _ _ _ _ (stack + (sseOffset st.ssecount + k)) = a k
      rw [← Nat.add_assoc]
      exact (Area.write_of_lt (by omega)).trans (Area.extend_of_lt hk)

theorem passWords_spec {cs front rest : List RegClass} (hcs : cs = front ++ rest)
    {classes : Classes} (hclasses : ∀ i < cs.length, classes i = cs.getD i .no)
    (hlen : cs.length ≤ maxClasses)
    (hkind : ∀ d ∈ rest, d.isGpr = true ∧ d.isSse = false ∧ d.sseClassP = false ∨
      d.isGpr = false ∧ d.isSse = true ∧ d.sseClassP = true)
    (c : Counts) {st : CallState} (stack size : Nat) (a : Area) {last : Nat}
    (hlast : stack + registerArgsSize ≤ last) (hst : st.counts = ⟨c.gpr + gprs front, c.sse + sses front, c.argp⟩)
    (hbounded : Counts.Bounded ⟨c.gpr + gprs cs, c.sse + sses cs, c.argp⟩) :
    ∃ st', passWords stack classes a size front.length rest.length st = some st' ∧
      st'.counts = ⟨c.gpr + gprs cs, c.sse + sses cs, c.argp⟩ ∧
      Area.AgreeOn (st.counts.Kept stack last) st.memory st'.memory ∧
      ∀ j, front.length ≤ j → j < cs.length →
        ∀ k < moved (cs.getD j .no) (size - 8 * j), k < 8 →
          st'.memory (stack + c.registerOffset cs (8 * j + k)) = a (8 * j + k) := by
  induction rest generalizing front st with
  | nil =>
    rw [List.append_nil] at hcs
    refine ⟨st, rfl, by rw [hst, hcs], Area.AgreeOn.rfl, ?_⟩
    intro j hj hlt
    rw [hcs] at hlt
    omega
  | cons d rest ih =>
    have hd := hkind d List.mem_cons_self
    have hlt : front.length < cs.length := by
      rw [hcs, List.length_append, List.length_cons]
      omega
    have hget : cs.getD front.length .no = d := by
      rw [hcs, List.getD_append_right _ _ _ _ (Nat.le_refl _), Nat.sub_self]
      rfl
    have hgprs := gprs_cons front rest d
    have hsses := sses_cons front rest d
    rw [← hcs] at hgprs hsses
    obtain ⟨hgpr, hsse, hargp⟩ := Counts.mk.inj hst
    unfold Counts.Bounded at hbounded
    simp only at hbounded
    obtain ⟨st₁, hrun, hcounts, hframe, hbytes⟩ := passWord_spec stack
      (size - 8 * front.length) (a.at_ (8 * front.length)) hlast hd
      (by
        unfold Counts.Bounded
        rw [hst]
        simp only
        omega)
      (fun hg => by rw [hg, if_pos rfl] at hgprs; omega)
      (fun hs => by rw [hs, if_pos rfl] at hsses; omega)
    have hcs' : cs = (front ++ [d]) ++ rest := by
      rw [hcs, List.append_assoc]
      rfl
    have hfront : (front ++ [d]).length = front.length + 1 := by
      rw [List.length_append, List.length_singleton]
    have hst₁ : st₁.counts =
        ⟨c.gpr + gprs (front ++ [d]), c.sse + sses (front ++ [d]), c.argp⟩ := by
      have hg := gprs_cons front [] d
      have hs := sses_cons front [] d
      rw [hcounts, hg, hs, hgpr, hsse, hargp]
      simp only [gprs, sses, List.countP_nil, Nat.add_assoc, Nat.zero_add]
    obtain ⟨st₂, hrest, hcounts', hframe', hbytes'⟩ := ih hcs'
      (fun e he => hkind e (List.mem_cons_of_mem _ he)) hst₁
    have hused : ∀ b, st.counts.Kept stack last b → st₁.counts.Kept stack last b := by
      intro b hb
      rw [hcounts]
      unfold Counts.Kept Counts.UsedOffset at hb ⊢
      change stack ≤ b ∧ (b - stack < 8 * st.gprcount ∨ 48 ≤ b - stack ∧
        b - stack < 48 + 16 * st.ssecount) ∨ stack + registerArgsSize ≤ b ∧ b < st.argp ∨
          b < stack ∨ last ≤ b at hb
      simp only
      omega
    refine ⟨st₂, ?_, hcounts', hframe.trans (hframe'.mono hused), ?_⟩
    · rw [List.length_cons, passWords, get_eq (by omega), hclasses _ hlt, hget]
      simp only [Option.bind_eq_bind, Option.bind_some, hrun]
      rw [hfront] at hrest
      exact hrest
    · intro j hj hjlt k hk hk8
      rcases Nat.lt_or_ge front.length j with hj' | hj'
      · exact hbytes' j (by omega) hjlt k hk hk8
      · obtain rfl : j = front.length := by omega
        rw [hget] at hk
        have hoff := registerOffset_word c front rest d hk8
        rw [← hcs] at hoff
        have hbyte := hbytes k hk
        rw [hgpr, hsse, ← hoff] at hbyte
        rw [hframe' _ ?_, hbyte]
        · rfl
        · rw [hoff, hcounts, hgpr, hsse]
          unfold Counts.Kept Counts.UsedOffset sseOffset gprOffset
          rcases hd with ⟨hg, -, hp⟩ | ⟨-, hs, hp⟩
          · rw [hp, hg]
            simp only [Bool.false_eq_true, if_false, if_true]
            omega
          · rw [hp, hs]
            simp only [if_true]
            omega

theorem passWords_abort {cs front rest : List RegClass} (hcs : cs = front ++ rest)
    {classes : Classes} (hclasses : ∀ i < cs.length, classes i = cs.getD i .no)
    (hlen : cs.length ≤ maxClasses) (hno : RegClass.no ∈ rest) {stack size : Nat} {a : Area}
    {st : CallState} : passWords stack classes a size front.length rest.length st = none := by
  induction rest generalizing front st with
  | nil => cases hno
  | cons d rest ih =>
    have hlt : front.length < cs.length := by
      rw [hcs, List.length_append, List.length_cons]
      omega
    have hget : cs.getD front.length .no = d := by
      rw [hcs, List.getD_append_right _ _ _ _ (Nat.le_refl _), Nat.sub_self]
      rfl
    have hcs' : cs = (front ++ [d]) ++ rest := by
      rw [hcs, List.append_assoc]
      rfl
    rw [List.length_cons, passWords, get_eq (by omega), hclasses _ hlt, hget]
    simp only [Option.bind_eq_bind, Option.bind_some]
    rcases List.mem_cons.mp hno with rfl | hno
    · rfl
    · cases passWord stack d (a.at_ (8 * front.length)) (size - 8 * front.length) st with
      | none => rfl
      | some st₁ =>
        have hrest : passWords stack classes a size (front ++ [d]).length rest.length st₁ = none :=
          ih hcs' hno
        rw [List.length_append, List.length_singleton] at hrest
        exact hrest

theorem isAlignment_stackAlign {t : FfiType} (h : Laid t) : IsAlignment (stackAlign t) := by
  unfold stackAlign
  split
  · exact ⟨3, by omega, rfl⟩
  · exact h.isAlignment

theorem lt_moved {t : FfiType} (h : Laid t) (hne : argClasses t ≠ [])
    (hcomplete : Complete (argClasses t)) {k : Nat} (hk : k < t.size.toNat)
    (hcovers : Covers (leaves t) k) :
    k % 8 < moved ((argClasses t).getD (k / 8) .no) (t.size.toNat - 8 * (k / 8)) := by
  have hlen := (argClasses_length h hne).1
  have hlt : k / 8 < (argClasses t).length := by omega
  have hmem : (argClasses t).getD (k / 8) .no ∈ argClasses t := by
    rw [List.getD_eq_getElem _ _ hlt]
    exact List.getElem_mem hlt
  have hsound := sound_classOf h (aligned_zero t) (by rwa [← (argClasses_ne_nil hne).1])
  rw [← (argClasses_ne_nil hne).1] at hsound
  unfold moved
  rcases argClasses_kind h hmem (hcomplete _ hmem) with ⟨hg, -, -⟩ | ⟨hg, -, -⟩
  · rw [hg, if_pos rfl]
    omega
  · rw [hg, if_neg Bool.false_ne_true]
    split
    · have hno := (hsound.ssesf _ ‹_›).2.2 k ⟨Nat.zero_le k, by simpa using hcovers⟩
      omega
    · omega

theorem passArgument_spec {t : FfiType} (h : Laid t) {st : CallState}
    (hbounded : st.counts.Bounded) (hwrap : (st.counts.next t).argp < 2 ^ 64)
    (hpass : st.counts.InMemory t ∨ Complete (argClasses t)) {stack : Nat}
    (hargp : stack + registerArgsSize ≤ st.argp) {last : Nat}
    (hlast : (st.counts.next t).argp ≤ last) (i : Nat) (a : Area) (classes : Classes) :
    ∃ classes' st', passArgument frames stack i t a classes st = some (classes', st') ∧
      st'.counts = st.counts.next t ∧
      Area.AgreeOn (st.counts.Kept stack last) st.memory st'.memory ∧
      ∀ k < t.size.toNat, st.counts.InMemory t ∨ Covers (leaves t) k →
        st.counts.view t (st'.memory.at_ stack) st'.memory k = a k := by
  obtain ⟨e, hrun, hn, hclasses, hcounts⟩ := examineArgument_argument frames [i] h classes
  have hroom : stack + registerArgsSize ≤ last :=
    Nat.le_trans hargp (Nat.le_trans (Counts.argp_le_next (c := st.counts)) hlast)
  unfold passArgument
  rw [hrun]
  have hpassed := passedInMemory_eq hn hcounts st.counts
  change passedInMemory e st.gprcount st.ssecount = _ at hpassed
  simp only [Option.bind_eq_bind, Option.bind_some, hpassed, decide_eq_true_eq]
  by_cases hmem : st.counts.InMemory t
  · rw [if_pos hmem]
    have hnext : st.counts.next t =
        ⟨st.gprcount, st.ssecount, st.counts.stackAddress t + t.size.toNat⟩ := if_pos hmem
    rw [hnext] at hwrap hlast
    simp only at hwrap hlast
    have haddr : alignUp st.argp (stackAlign t) = st.counts.stackAddress t :=
      alignUp_eq (isAlignment_stackAlign h) (show st.counts.stackAddress t < 2 ^ 64 by omega)
    have hle := Counts.le_stackAddress (c := st.counts) (t := t)
    rw [haddr]
    refine ⟨_, _, rfl, hnext.symm, Area.agreeOn_write ?_, ?_⟩
    · intro b hb
      have hle6 : st.gprcount ≤ 6 := hbounded.1
      have hle8 : st.ssecount ≤ 8 := hbounded.2
      unfold registerArgsSize at hargp
      unfold Counts.Kept Counts.UsedOffset registerArgsSize at hb
      change stack ≤ b ∧ (b - stack < 8 * st.gprcount ∨ 48 ≤ b - stack ∧
        b - stack < 48 + 16 * st.ssecount) ∨ stack + 176 ≤ b ∧ b < st.argp ∨
          b < stack ∨ last ≤ b at hb
      change st.argp ≤ _ at hle
      omega
    · intro k hk _
      unfold Counts.view
      rw [if_pos hmem]
      exact Area.write_of_lt hk
  · have hcomplete := hpass.resolve_left hmem
    have hnil : argClasses t ≠ [] := fun hnil => hmem (.inl hnil)
    obtain ⟨hlen, hle⟩ := argClasses_length h hnil
    have hnext : st.counts.next t = ⟨st.gprcount + gprs (argClasses t),
        st.ssecount + sses (argClasses t), st.argp⟩ := if_neg hmem
    have hbounded' : (st.counts.next t).Bounded := hbounded.next
    rw [hnext] at hbounded'
    obtain ⟨st', hwords, hcounts', hframe, hbytes⟩ := passWords_spec
      (show argClasses t = [] ++ argClasses t from rfl) hclasses (by unfold maxClasses; omega)
      (fun d hd => argClasses_kind h hd (hcomplete d hd)) st.counts stack t.size.toNat a hroom
      (show st.counts = ⟨st.gprcount + gprs [], st.ssecount + sses [], st.argp⟩ from rfl)
      hbounded'
    rw [if_neg hmem, hn]
    rw [List.length_nil] at hwords
    refine ⟨e.classes, st', by rw [hwords]; rfl, by rw [hcounts', hnext]; rfl, hframe, ?_⟩
    intro k hk hcovers
    have hcovers := hcovers.resolve_left hmem
    have hbyte := hbytes (k / 8) (Nat.zero_le _) (by omega) (k % 8)
      (lt_moved h hnil hcomplete hk hcovers) (Nat.mod_lt _ (by omega))
    rw [Nat.div_add_mod] at hbyte
    unfold Counts.view
    rw [if_neg hmem]
    exact hbyte

theorem passArgument_abort {t : FfiType} (h : Laid t) {st : CallState}
    (hmem : ¬st.counts.InMemory t) (hcomplete : ¬Complete (argClasses t)) (stack i : Nat) (a : Area)
    (classes : Classes) : passArgument frames stack i t a classes st = none := by
  obtain ⟨e, hrun, hn, hclasses, hcounts⟩ := examineArgument_argument frames [i] h classes
  have hpassed := passedInMemory_eq hn hcounts st.counts
  change passedInMemory e st.gprcount st.ssecount = _ at hpassed
  have hnil : argClasses t ≠ [] := fun hnil => hmem (.inl hnil)
  have hno : RegClass.no ∈ argClasses t := by
    unfold Complete at hcomplete
    simp only [not_forall, not_not] at hcomplete
    obtain ⟨c, hc, rfl⟩ := hcomplete
    exact hc
  have hlen := (argClasses_length h hnil).2
  have hwords : passWords stack e.classes a t.size.toNat 0 (argClasses t).length st = none :=
    passWords_abort (show argClasses t = [] ++ argClasses t from rfl) hclasses
      (by unfold maxClasses; omega) hno
  unfold passArgument
  rw [hrun]
  simp only [Option.bind_eq_bind, Option.bind_some, hpassed, decide_eq_true_eq]
  rw [if_neg hmem, hn, hwords]
  rfl

/-- No argument aborts the call. -/
def Passable (c : Counts) : List FfiType → Prop
  | [] => True
  | t :: ts => (c.InMemory t ∨ Complete (argClasses t)) ∧ Passable (c.next t) ts

instance decidablePassable (c : Counts) : (ts : List FfiType) → Decidable (Passable c ts)
  | [] => isTrue trivial
  | t :: ts =>
    have := decidablePassable (c.next t) ts
    inferInstanceAs (Decidable ((c.InMemory t ∨ Complete (argClasses t)) ∧
      Passable (c.next t) ts))

/-- The scalars of the arguments are where they are looked for; all bytes of those in memory. -/
def Holds (c : Counts) : List FfiType → List Area → Area → Area → Prop
  | t :: ts, a :: avalue, registers, memory =>
    (∀ k < t.size.toNat, c.InMemory t ∨ Covers (leaves t) k →
      c.view t registers memory k = a k) ∧ Holds (c.next t) ts avalue registers memory
  | _, _, _, _ => True

theorem Holds.congr {ts : List FfiType} {avalue : List Area} {c : Counts}
    {registers registers' memory memory' : Area} (hlaid : ∀ t ∈ ts, Laid t)
    (hpass : Passable c ts) (h : Holds c ts avalue registers memory)
    (hregisters : ∀ a, (c.after ts).UsedOffset a → registers' a = registers a)
    (hmemory : ∀ a, c.argp ≤ a → a < (c.after ts).argp → memory' a = memory a) :
    Holds c ts avalue registers' memory' := by
  induction ts generalizing c avalue with
  | nil => trivial
  | cons t ts ih =>
    cases avalue with
    | nil => trivial
    | cons a avalue =>
      have hle := Counts.le_after (c.next t) ts
      have hargp := Counts.argp_le_next (c := c) (t := t)
      change ∀ a, ((c.next t).after ts).UsedOffset a → registers' a = registers a at hregisters
      change ∀ a, c.argp ≤ a → a < ((c.next t).after ts).argp → memory' a = memory a at hmemory
      refine ⟨?_, ih (fun t ht => hlaid t (List.mem_cons_of_mem _ ht)) hpass.2 h.2 hregisters
        fun a ha => hmemory a (by omega)⟩
      intro k hk hcovers
      rw [← h.1 k hk hcovers]
      refine view_congr (hlaid t List.mem_cons_self) hpass.1.resolve_left ?_ ?_ hk
      · intro b hb
        refine hregisters b ?_
        unfold Counts.UsedOffset at hb ⊢
        omega
      · exact fun b hb hlt => hmemory b hb (by omega)

/-- **`ffi_call` puts the arguments where they belong.** -/
theorem passArguments_spec {ts : List FfiType} {avalue : List Area} {st : CallState} {stack : Nat}
    (hlaid : ∀ t ∈ ts, Laid t) (hlength : avalue.length = ts.length)
    (hbounded : st.counts.Bounded) (hwrap : (st.counts.after ts).argp < 2 ^ 64)
    (hpass : Passable st.counts ts) (hargp : stack + registerArgsSize ≤ st.argp) {last : Nat}
    (hlast : (st.counts.after ts).argp ≤ last) (i : Nat) (classes : Classes) :
    ∃ st', passArguments frames stack i ts avalue classes st = some st' ∧
      st'.counts = st.counts.after ts ∧
      Area.AgreeOn (st.counts.Kept stack last) st.memory st'.memory ∧
      Holds st.counts ts avalue (st'.memory.at_ stack) st'.memory := by
  induction ts generalizing avalue st i classes with
  | nil =>
    obtain rfl := List.length_eq_zero_iff.mp hlength
    exact ⟨st, rfl, rfl, Area.AgreeOn.rfl, trivial⟩
  | cons t ts ih =>
    match avalue, hlength with
    | a :: avalue, hlength =>
      have hle := Counts.le_after (st.counts.next t) ts
      change ((st.counts.next t).after ts).argp < 2 ^ 64 at hwrap
      change ((st.counts.next t).after ts).argp ≤ last at hlast
      have ht := hlaid t List.mem_cons_self
      obtain ⟨classes', st₁, hrun, hcounts, hframe, hview⟩ := passArgument_spec frames ht
        hbounded (by omega) hpass.1 hargp (Nat.le_trans hle.2.2 hlast) i a classes
      have hargp' : stack + registerArgsSize ≤ st₁.argp := by
        have hnext := Counts.argp_le_next (c := st.counts) (t := t)
        have heq := congrArg Counts.argp hcounts
        change st₁.argp = _ at heq
        change st.argp ≤ _ at hnext
        omega
      rw [← hcounts] at hwrap hlast
      have hbounded' : st₁.counts.Bounded := by
        rw [hcounts]
        exact hbounded.next
      have hpass' : Passable st₁.counts ts := by
        rw [hcounts]
        exact hpass.2
      obtain ⟨st₂, hrest, hcounts', hframe', hholds⟩ := ih
        (fun t ht => hlaid t (List.mem_cons_of_mem _ ht))
        (show avalue.length = ts.length from Nat.succ.inj hlength) hbounded' hwrap hpass' hargp'
        hlast (i + 1) classes'
      refine ⟨st₂, ?_, ?_, ?_, ?_, ?_⟩
      · rw [passArguments, hrun]
        exact hrest
      · rw [hcounts', hcounts]
        rfl
      · refine hframe.trans (hframe'.mono fun b hb => ?_)
        rw [hcounts]
        exact hb.after [t]
      · intro k hk hcovers
        rw [← hview k hk hcovers]
        refine view_congr ht hpass.1.resolve_left ?_ ?_ hk
        · intro b hb
          refine hframe' _ ?_
          rw [hcounts]
          refine .inl ⟨Nat.le_add_right _ _, ?_⟩
          rw [Nat.add_sub_cancel_left]
          exact hb
        · intro b hb hlt
          refine hframe' _ ?_
          rw [hcounts]
          exact .inr (.inl ⟨Nat.le_trans hargp hb, hlt⟩)
      · rw [hcounts] at hholds
        exact hholds

theorem passArguments_abort {ts : List FfiType} {avalue : List Area} {st : CallState} {stack : Nat}
    (hlaid : ∀ t ∈ ts, Laid t) (hlength : avalue.length = ts.length)
    (hbounded : st.counts.Bounded) (hwrap : (st.counts.after ts).argp < 2 ^ 64)
    (hpass : ¬Passable st.counts ts) (hargp : stack + registerArgsSize ≤ st.argp) (i : Nat)
    (classes : Classes) : passArguments frames stack i ts avalue classes st = none := by
  induction ts generalizing avalue st i classes with
  | nil => exact absurd trivial hpass
  | cons t ts ih =>
    match avalue, hlength with
    | a :: avalue, hlength =>
      have hle := Counts.le_after (st.counts.next t) ts
      change ((st.counts.next t).after ts).argp < 2 ^ 64 at hwrap
      have ht := hlaid t List.mem_cons_self
      rw [passArguments]
      by_cases hhead : st.counts.InMemory t ∨ Complete (argClasses t)
      · obtain ⟨classes', st₁, hrun, hcounts, -, -⟩ := passArgument_spec frames ht
          hbounded (by omega) hhead hargp (Nat.le_refl _) i a classes
        have hargp' : stack + registerArgsSize ≤ st₁.argp := by
          have hnext := Counts.argp_le_next (c := st.counts) (t := t)
          have heq := congrArg Counts.argp hcounts
          change st₁.argp = _ at heq
          change st.argp ≤ _ at hnext
          omega
        rw [← hcounts] at hwrap
        rw [hrun]
        refine ih (fun t ht => hlaid t (List.mem_cons_of_mem _ ht)) (Nat.succ.inj hlength)
          (by rw [hcounts]; exact hbounded.next) hwrap ?_ hargp' (i + 1) classes'
        rw [hcounts]
        exact fun htail => hpass ⟨hhead, htail⟩
      · rw [not_or] at hhead
        rw [passArgument_abort frames ht hhead.1 hhead.2]
        rfl

end NodeFfi.Unix64
