import NodeFfi.Unix64.Examine

/-!
# Results reach the caller

After the closure's function, `ffi_closure_unix64` loads the registers from the result
(`loadResult`), and `ffi_call_unix64` stores them for its caller (`storeResult`), each through a
table over the type. For a structure the flags that `ffi_prep_cif_machdep` and
`ffi_closure_unix64_inner` compute say which registers its words are in; they do it differently, and
agree (`storeResult_loadResult`).
-/

namespace NodeFfi.Unix64

open Libffi Layout Bytes

/-! ### `unix64.S` -/

/-- The registers that results come back in. -/
structure ResultRegisters where
  rax : Area
  rdx : Area
  xmm0 : Area
  xmm1 : Area
  st0 : Area

/-- `testl`: a bit of the flags is set. -/
def testBit (flags mask : BitVec 32) : Bool := flags &&& mask ≠ 0

/-- What is behind `.Lload_table`. -/
inductive Load where
  | void
  | int (n : Nat)
  | float (n : Nat)
  | ldouble
  | struct
  deriving DecidableEq, Repr

/-- `.Lload_table`. -/
def loadTable : List Load :=
  [.void, .int 4, .float 4, .float 8, .ldouble, .int 1, .int 1, .int 2, .int 2, .int 4, .int 4,
    .int 8, .int 8, .struct, .int 8]

/-- `.Lld_struct`. -/
def loadStruct (ret : BitVec 32) (result : Area) (regs : ResultRegisters) : ResultRegisters :=
  let rcx := result.at_ 0
  let rdx := result.at_ 8
  let rcx := if testBit ret 0x100 then rdx else rcx
  let rax := if testBit ret 0x200 then rdx else result.at_ 0
  { regs with rax := rax, rdx := rdx, xmm0 := rcx.extend 8, xmm1 := rdx.extend 8 }

/-- The end of `ffi_closure_unix64`, with the result that the function has left. -/
def loadResult (ret : BitVec 32) (result : Area) (regs : ResultRegisters) :
    Option ResultRegisters := do
  match ← loadTable[(ret &&& 0xff).toNat]? with
  | .void => return regs
  | .int n => return { regs with rax := result.extend n }
  | .float n => return { regs with xmm0 := result.extend n }
  | .ldouble => return { regs with st0 := result }
  | .struct => return loadStruct ret result regs

/-- What is behind `.Lstore_table`. -/
inductive Store where
  | void
  | uint8
  | sint8
  | uint16
  | sint16
  | uint32
  | sint32
  | int64
  | float
  | double
  | ldouble
  | struct
  deriving DecidableEq, Repr

/-- `.Lstore_table`. -/
def storeTable : List Store :=
  [.void, .sint32, .float, .double, .ldouble, .uint8, .sint8, .uint16, .sint16, .uint32, .sint32,
    .int64, .int64, .struct, .int64]

/-- `.Lst_struct`: the two words in the scratch area. -/
def scratchArea (flags : BitVec 32) (regs : ResultRegisters) : Area :=
  let r10 := regs.xmm0
  let r11 := regs.xmm1
  let (rax, rdx) := if testBit flags 0x100 then (r10, regs.rax) else (regs.rax, regs.rdx)
  let rdx := if testBit flags 0x200 then r10 else rdx
  let (rax, rdx) := if testBit flags 0x400 then (r10, r11) else (rax, rdx)
  fun k => if k < 8 then rax k else rdx (k - 8)

/-- The end of `ffi_call_unix64`, where `m` is the memory and `raddr` where the result goes. The
code for `uint16` and for `uint32` runs on into that for `sint16` and for `sint32`. -/
def storeResult (flags : BitVec 32) (regs : ResultRegisters) (m : Area) (raddr : Nat) :
    Option Area := do
  match ← storeTable[(flags &&& 0xff).toNat]? with
  | .void => return m
  | .uint8 => return m.write raddr 8 (regs.rax.extend 1)
  | .sint8 => return m.write raddr 8 (signExtend regs.rax 1)
  | .uint16 =>
    let rax := regs.rax.extend 2
    return (m.write raddr 8 rax).write raddr 8 (signExtend rax 2)
  | .sint16 => return m.write raddr 8 (signExtend regs.rax 2)
  | .uint32 =>
    let rax := regs.rax.extend 4
    return (m.write raddr 8 rax).write raddr 8 (signExtend rax 4)
  | .sint32 => return m.write raddr 8 (signExtend regs.rax 4)
  | .int64 => return m.write raddr 8 regs.rax
  | .float => return m.write raddr 4 regs.xmm0
  | .double => return m.write raddr 8 regs.xmm0
  | .ldouble => return m.write raddr 10 regs.st0
  | .struct => return m.write raddr (flags >>> 12).toNat (scratchArea flags regs)

/-! ### The flags -/

/-- The flags of a structure that comes back in registers; `carry` is bit 11. -/
def structFlags (sse0 sse1 carry : Bool) (size : BitVec 64) : BitVec 32 :=
  let flags := ffiTypeStruct.setWidth 32 ||| structBits sse0 sse1 ||| (size <<< 12).setWidth 32
  if carry then flags ||| 0x800 else flags

theorem structFlags_spec (sse0 sse1 carry : Bool) {size : BitVec 64} (h : size.toNat ≤ 16) :
    structFlags sse0 sse1 carry size &&& 0xff = 13 ∧
      testBit (structFlags sse0 sse1 carry size) 0x100 = (sse0 && !sse1) ∧
      testBit (structFlags sse0 sse1 carry size) 0x200 = (!sse0 && sse1) ∧
      testBit (structFlags sse0 sse1 carry size) 0x400 = (sse0 && sse1) ∧
      testBit (structFlags sse0 sse1 carry size) 0x800 = carry ∧
      (structFlags sse0 sse1 carry size >>> 12).toNat = size.toNat := by
  have hall : ∀ n : Fin 17, ∀ sse0 sse1 carry : Bool,
      structFlags sse0 sse1 carry (BitVec.ofNat 64 n) &&& 0xff = 13 ∧
        testBit (structFlags sse0 sse1 carry (BitVec.ofNat 64 n)) 0x100 = (sse0 && !sse1) ∧
        testBit (structFlags sse0 sse1 carry (BitVec.ofNat 64 n)) 0x200 = (!sse0 && sse1) ∧
        testBit (structFlags sse0 sse1 carry (BitVec.ofNat 64 n)) 0x400 = (sse0 && sse1) ∧
        testBit (structFlags sse0 sse1 carry (BitVec.ofNat 64 n)) 0x800 = carry ∧
        (structFlags sse0 sse1 carry (BitVec.ofNat 64 n) >>> 12).toNat = n := by
    decide +kernel
  have hsize : size = BitVec.ofNat 64 size.toNat := by
    rw [BitVec.ofNat_toNat, BitVec.setWidth_eq]
  have hspec := hall ⟨size.toNat, by omega⟩ sse0 sse1 carry
  rw [← hsize] at hspec
  exact hspec

/-! ### Scalars -/

/-- The flags of a scalar. -/
def scalarFlags (t : FfiType) (carry : Bool) : BitVec 32 :=
  if carry then (code t).setWidth 32 ||| 0x800 else (code t).setWidth 32

/-- The bytes of a result that are its value: those of a `long double` are ten of the sixteen. -/
def valueSize (t : FfiType) : Nat :=
  if typeCase (code t) = .longdouble then 10 else t.size.toNat

/-- The memory `m'` has the result at `raddr`, and differs from `m` in at most an `ffi_arg` or the
bytes of the result. -/
structure Stores (t : FfiType) (result m m' : Area) (raddr : Nat) : Prop where
  value : ∀ k < valueSize t, m' (raddr + k) = result k
  frame : ∀ b, b < raddr ∨ raddr + max 8 t.size.toNat ≤ b → m' b = m b

theorem stores_write {t : FfiType} {result m src : Area} {raddr n : Nat}
    (hvalue : ∀ k < valueSize t, k < n ∧ src k = result k) (hn : n ≤ max 8 t.size.toNat) :
    Stores t result m (m.write raddr n src) raddr where
  value k hk := by
    rw [Area.write_of_lt (hvalue k hk).1]
    exact (hvalue k hk).2
  frame b hb := Area.write_of_out (by omega)

theorem Stores.rewrite {t : FfiType} {result m src src' : Area} {raddr n n' : Nat}
    (hn' : n' ≤ max 8 t.size.toNat)
    (h : Stores t result (m.write raddr n' src') ((m.write raddr n' src').write raddr n src) raddr) :
    Stores t result m ((m.write raddr n' src').write raddr n src) raddr where
  value := h.value
  frame b hb := (h.frame b hb).trans (Area.write_of_out (by omega))

theorem stores_int {t : FfiType} {n : Nat} (hn : valueSize t = n) (h8 : n ≤ 8) (result m : Area)
    (raddr : Nat) :
    Stores t result m (m.write raddr 8 (result.extend n)) raddr ∧
      Stores t result m (m.write raddr 8 ((result.extend n).extend n)) raddr ∧
      Stores t result m (m.write raddr 8 (signExtend (result.extend n) n)) raddr ∧
      Stores t result m ((m.write raddr 8 ((result.extend n).extend n)).write raddr 8
        (signExtend ((result.extend n).extend n) n)) raddr := by
  have hone : ∀ k < n, (result.extend n) k = result k := fun k hk => Area.extend_of_lt hk
  have htwo : ∀ k < n, ((result.extend n).extend n) k = result k := fun k hk =>
    (Area.extend_of_lt hk).trans (hone k hk)
  have hmax := Nat.le_max_left 8 t.size.toNat
  refine ⟨stores_write ?_ hmax, stores_write ?_ hmax, stores_write ?_ hmax,
    Stores.rewrite hmax (stores_write ?_ hmax)⟩
  all_goals
    intro k hk
    refine ⟨by omega, ?_⟩
  · exact hone k (by omega)
  · exact htwo k (by omega)
  · exact (signExtend_of_lt (by omega)).trans (hone k (by omega))
  · exact (signExtend_of_lt (by omega)).trans (htwo k (by omega))

theorem storeResult_scalar {t : FfiType} (h : t ∈ baseTypes) (carry : Bool) (result m : Area)
    (regs : ResultRegisters) (raddr : Nat) :
    ∃ regs' m', loadResult ((code t).setWidth 32) result regs = some regs' ∧
      storeResult (scalarFlags t carry) regs' m raddr = some m' ∧
      Stores t result m m' raddr := by
  have hfloat : ∀ {t : FfiType} {n : Nat}, valueSize t = n → n ≤ 8 →
      Stores t result m (m.write raddr n (result.extend n)) raddr := fun hn h8 =>
    stores_write (fun k hk => ⟨by omega, Area.extend_of_lt (by omega)⟩) (by omega)
  have hflags : ∀ {t : FfiType} (store : Store),
      storeTable[((code t).setWidth 32 &&& 0xff : BitVec 32).toNat]? = some store →
      storeTable[(((code t).setWidth 32 ||| 0x800) &&& 0xff : BitVec 32).toNat]? = some store →
      storeTable[(scalarFlags t carry &&& 0xff).toNat]? = some store := by
    intro t store hclear hset
    unfold scalarFlags
    split
    · exact hset
    · exact hclear
  unfold storeResult
  simp only [baseTypes, List.mem_cons, List.not_mem_nil, or_false] at h
  rcases h with rfl | rfl | rfl | rfl | rfl | rfl | rfl | rfl | rfl | rfl | rfl | rfl
  · rw [hflags .uint8 rfl rfl]
    exact ⟨_, _, rfl, rfl, (stores_int rfl (by decide) result m raddr).2.1⟩
  · rw [hflags .sint8 rfl rfl]
    exact ⟨_, _, rfl, rfl, (stores_int rfl (by decide) result m raddr).2.2.1⟩
  · rw [hflags .uint16 rfl rfl]
    exact ⟨_, _, rfl, rfl, (stores_int rfl (by decide) result m raddr).2.2.2⟩
  · rw [hflags .sint16 rfl rfl]
    exact ⟨_, _, rfl, rfl, (stores_int rfl (by decide) result m raddr).2.2.1⟩
  · rw [hflags .uint32 rfl rfl]
    exact ⟨_, _, rfl, rfl, (stores_int rfl (by decide) result m raddr).2.2.2⟩
  · rw [hflags .sint32 rfl rfl]
    exact ⟨_, _, rfl, rfl, (stores_int rfl (by decide) result m raddr).2.2.1⟩
  · rw [hflags .int64 rfl rfl]
    exact ⟨_, _, rfl, rfl, (stores_int rfl (by decide) result m raddr).1⟩
  · rw [hflags .int64 rfl rfl]
    exact ⟨_, _, rfl, rfl, (stores_int rfl (by decide) result m raddr).1⟩
  · rw [hflags .int64 rfl rfl]
    exact ⟨_, _, rfl, rfl, (stores_int rfl (by decide) result m raddr).1⟩
  · rw [hflags .float rfl rfl]
    exact ⟨_, _, rfl, rfl, hfloat rfl (by decide)⟩
  · rw [hflags .double rfl rfl]
    exact ⟨_, _, rfl, rfl, hfloat rfl (by decide)⟩
  · rw [hflags .ldouble rfl rfl]
    exact ⟨_, _, rfl, rfl, stores_write (fun k hk => ⟨hk, rfl⟩) (by decide)⟩

/-! ### Structures -/

theorem classOf_x87 {t : FfiType} (h : Laid t) (hany : (classOf t 0).any RegClass.isX87 = true) :
    (classOf t 0).getD 0 .no = .x87 := by
  obtain ⟨c, hc, hx⟩ := List.any_eq_true.mp hany
  have hne : classOf t 0 ≠ [] := List.ne_nil_of_mem hc
  have hsound := sound_classOf h (aligned_zero t) hne
  have hlen := classOf_length h hne
  obtain ⟨i, hi, rfl⟩ := List.getElem_of_mem hc
  have hget : (classOf t 0)[i] = (classOf t 0).getD i .no := (List.getD_eq_getElem _ _ hi).symm
  rw [hget] at hx
  have hkind : (classOf t 0).getD i .no = .x87 ∨ (classOf t 0).getD i .no = .x87up := by
    have hcomplex : (classOf t 0).getD i .no ≠ .complexX87 := (hsound.kinds i).2
    revert hx hcomplex
    generalize (classOf t 0).getD i .no = c
    cases c <;> decide
  rcases hkind with hx | hx
  · -- it takes two words
    have hroom := hsound.x87 i hx
    have hzero : i = 0 := by omega
    rw [hzero] at hx
    exact hx
  · have hpos : i ≠ 0 := fun hzero => hsound.first (by rw [hzero] at hx; exact hx)
    have hone : i = 1 := by omega
    subst hone
    cases h with
    | base h =>
      obtain ⟨c, h⟩ := isScalar_of_mem h
      cases h with
      | integer hcase _ _ =>
        rw [classOf_integer hcase] at hi
        exact absurd hi (Nat.lt_irrefl 1)
      | float =>
        rw [classOf_float] at hi
        exact absurd hi (Nat.lt_irrefl 1)
      | double =>
        rw [classOf_double] at hi
        exact absurd hi (Nat.lt_irrefl 1)
      | longdouble =>
        rw [classOf_longdouble]
        rfl
    | @struct size alignment elements _ _ _ _ =>
      rw [classOf_struct] at hne hx hi ⊢
      cases hacc : fieldClasses elements 0 fun _ => .no with
      | none =>
        rw [hacc] at hne
        exact absurd rfl hne
      | some acc =>
        rw [hacc] at hne hx hi
        obtain ⟨-, heq, hmem⟩ := wordClasses_ne_nil hne
        change (wordClasses _ acc).getD 1 .no = .x87up at hx
        change 1 < (wordClasses _ acc).length at hi
        show (wordClasses _ acc).getD 0 .no = .x87
        rw [heq, List.length_map, List.length_range] at hi
        rw [heq, getD_map_range, if_pos hi] at hx
        rw [heq, getD_map_range, if_pos (by omega)]
        exact (hmem 1 hi).2 hx

/-- The words that `examine_argument` counts for a result in registers. -/
def resultWords (t : FfiType) : Nat :=
  if (classOf t 0).any RegClass.isX87 then 1 else (classOf t 0).length

/-- The first word is in an SSE register. -/
def resultSse0 (t : FfiType) : Bool := ((classOf t 0).getD 0 .no).sseClassP

/-- The second one is. -/
def resultSse1 (t : FfiType) : Bool :=
  decide (resultWords t = 2) && ((classOf t 0).getD 1 .no).sseClassP

/-- What `ffi_closure_unix64_inner` returns for a structure. -/
def structRet (t : FfiType) : BitVec 32 :=
  if resultWords t = 2 then
    if ¬resultSse0 t ∧ resultSse1 t then ffiTypeStruct.setWidth 32 ||| 0x100
    else if resultSse0 t ∧ ¬resultSse1 t then ffiTypeStruct.setWidth 32 ||| 0x200
    else ffiTypeStruct.setWidth 32
  else ffiTypeStruct.setWidth 32

theorem structRet_spec (t : FfiType) :
    structRet t &&& 0xff = 13 ∧
      testBit (structRet t) 0x100 = (decide (resultWords t = 2) && (!resultSse0 t && resultSse1 t)) ∧
      testBit (structRet t) 0x200 =
        (decide (resultWords t = 2) && (resultSse0 t && !resultSse1 t)) := by
  unfold structRet
  by_cases hwords : resultWords t = 2
  · rw [if_pos hwords, decide_eq_true hwords]
    cases resultSse0 t <;> cases resultSse1 t <;> decide
  · rw [if_neg hwords, decide_eq_false hwords]
    exact ⟨by decide, by rw [Bool.false_and]; decide, by rw [Bool.false_and]; decide⟩

/-- **The two ways to say where the words are agree**, also where a word has no class. -/
theorem scratchArea_loadStruct {t : FfiType} (h : Laid t) (hne : classOf t 0 ≠ []) (carry : Bool)
    (result : Area) (regs : ResultRegisters) {k : Nat} (hk : k < t.size.toNat) :
    scratchArea (structFlags (resultSse0 t) (resultSse1 t) carry t.size)
      (loadStruct (structRet t) result regs) k = result k := by
  obtain ⟨hlen, hle⟩ := classOf_length h hne
  obtain ⟨-, h8, h9, h10, -, -⟩ := structFlags_spec (resultSse0 t) (resultSse1 t) carry
    (show t.size.toNat ≤ 16 by omega)
  have hcases : resultWords t = 2 ∨ resultWords t = 1 ∧ resultSse1 t = false ∧
      (resultSse0 t = true → t.size.toNat ≤ 8) := by
    unfold resultSse0 resultSse1 resultWords
    cases hany : (classOf t 0).any RegClass.isX87 with
    | true =>
      right
      refine ⟨rfl, rfl, ?_⟩
      rw [classOf_x87 h hany]
      exact fun h => absurd h Bool.false_ne_true
    | false =>
      simp only [Bool.false_eq_true, if_false]
      rcases Nat.lt_or_ge (classOf t 0).length 2 with hlt | hge
      · right
        have hpos : 0 < (classOf t 0).length := List.length_pos_iff.mpr hne
        refine ⟨by omega, ?_, by omega⟩
        rw [decide_eq_false (by omega), Bool.false_and]
      · exact .inl (by omega)
  have hat0 : result.at_ 0 k = result k := by rw [Area.at_apply, Nat.zero_add]
  have hat8 : ¬k < 8 → result.at_ 8 (k - 8) = result k := by
    intro hk8
    rw [Area.at_apply, Nat.add_sub_cancel' (Nat.le_of_not_lt hk8)]
  obtain ⟨-, hret8, hret9⟩ := structRet_spec t
  have hextend : ∀ {m : Area} {n : Nat}, n < 8 → m.extend 8 n = m n := fun hn =>
    Area.extend_of_lt hn
  unfold scratchArea loadStruct
  rw [h8, h9, h10, hret8, hret9]
  generalize resultSse0 t = sse0 at hcases ⊢
  generalize resultSse1 t = sse1 at hcases ⊢
  by_cases hk8 : k < 8
  · rcases hcases with hwords | ⟨hwords, rfl, hsize⟩
    · cases sse0 <;> cases sse1 <;> simp [hwords, hk8, hextend, hat0]
    · cases sse0 <;> simp [hwords, hk8, hextend, hat0]
  · have hk' : k - 8 < 8 := by omega
    have hat8 := hat8 hk8
    rcases hcases with hwords | ⟨hwords, rfl, hsize⟩
    · cases sse0 <;> cases sse1 <;> simp [hwords, hk8, hextend hk', hat8]
    · cases sse0 with
      | false => simp [hk8, hwords, hat8]
      | true =>
        have := hsize rfl
        omega

/-- **A structure in registers arrives.** -/
theorem storeResult_struct {size : BitVec 64} {alignment : BitVec 16} {elements : List FfiType}
    {t : FfiType} (ht : t = ⟨size, alignment, ffiTypeStruct, some elements⟩) (h : Laid t)
    (hne : classOf t 0 ≠ []) (carry : Bool) (result m : Area) (regs : ResultRegisters)
    (raddr : Nat) :
    ∃ regs' m', loadResult (structRet t) result regs = some regs' ∧
      storeResult (structFlags (resultSse0 t) (resultSse1 t) carry t.size) regs' m raddr =
        some m' ∧ Stores t result m m' raddr := by
  obtain ⟨hlen, hle⟩ := classOf_length h hne
  obtain ⟨hcode, -, -, -, -, hshift⟩ := structFlags_spec (resultSse0 t) (resultSse1 t) carry
    (show t.size.toNat ≤ 16 by omega)
  have hret : loadTable[(structRet t &&& 0xff).toNat]? = some .struct := by
    rw [(structRet_spec t).1]
    rfl
  have hvalue : valueSize t = t.size.toNat := by
    rw [ht]
    rfl
  refine ⟨loadStruct (structRet t) result regs, m.write raddr t.size.toNat (scratchArea
    (structFlags (resultSse0 t) (resultSse1 t) carry t.size)
    (loadStruct (structRet t) result regs)), ?_, ?_, ?_⟩
  · unfold loadResult
    rw [hret]
    rfl
  · unfold storeResult
    rw [hcode, hshift]
    rfl
  · refine stores_write ?_ (Nat.le_max_right _ _)
    intro k hk
    rw [hvalue] at hk
    exact ⟨hk, scratchArea_loadStruct h hne carry result regs hk⟩

/-! ### Widening -/

/-- A value as an `ffi_arg`: what the documentation of `ffi_call` promises for an integer. -/
def ffiArg (t : FfiType) (m : Area) : Area :=
  if isSigned t then signExtend m t.size.toNat else m.extend t.size.toNat

/-- The types whose code in the table runs on. -/
def runsOn (t : FfiType) : Bool := code t = 7 ∨ code t = 9

theorem storeResult_integer {t : FfiType} (h : t ∈ baseTypes) (hint : typeCase (code t) = .integer)
    (carry : Bool) (regs : ResultRegisters) (m : Area) (raddr : Nat) :
    ∃ m', storeResult (scalarFlags t carry) regs m raddr = some m' ∧ ∀ k < 8, m' (raddr + k) =
      if runsOn t then signExtend (regs.rax.extend t.size.toNat) t.size.toNat k
      else ffiArg t regs.rax k := by
  have hstore : ∀ {t : FfiType} (store : Store),
      storeTable[((code t).setWidth 32 &&& 0xff : BitVec 32).toNat]? = some store →
      storeTable[(((code t).setWidth 32 ||| 0x800) &&& 0xff : BitVec 32).toNat]? = some store →
      storeTable[(scalarFlags t carry &&& 0xff).toNat]? = some store := by
    intro t store hclear hset
    unfold scalarFlags
    split
    · exact hset
    · exact hclear
  have hwrite : ∀ {m src : Area} {k : Nat}, k < 8 → m.write raddr 8 src (raddr + k) = src k :=
    fun hk => Area.write_of_lt hk
  unfold storeResult
  simp only [baseTypes, List.mem_cons, List.not_mem_nil, or_false] at h
  rcases h with rfl | rfl | rfl | rfl | rfl | rfl | rfl | rfl | rfl | rfl | rfl | rfl
  · rw [hstore .uint8 rfl rfl]
    exact ⟨_, rfl, fun k hk => hwrite hk⟩
  · rw [hstore .sint8 rfl rfl]
    exact ⟨_, rfl, fun k hk => hwrite hk⟩
  · rw [hstore .uint16 rfl rfl]
    exact ⟨_, rfl, fun k hk => hwrite hk⟩
  · rw [hstore .sint16 rfl rfl]
    exact ⟨_, rfl, fun k hk => hwrite hk⟩
  · rw [hstore .uint32 rfl rfl]
    exact ⟨_, rfl, fun k hk => hwrite hk⟩
  · rw [hstore .sint32 rfl rfl]
    exact ⟨_, rfl, fun k hk => hwrite hk⟩
  · rw [hstore .int64 rfl rfl]
    exact ⟨_, rfl, fun k hk => (hwrite hk).trans (Area.extend_of_lt hk).symm⟩
  · rw [hstore .int64 rfl rfl]
    exact ⟨_, rfl, fun k hk => (hwrite hk).trans (signExtend_of_lt hk).symm⟩
  · rw [hstore .int64 rfl rfl]
    exact ⟨_, rfl, fun k hk => (hwrite hk).trans (Area.extend_of_lt hk).symm⟩
  all_goals exact absurd hint (by decide)

theorem runsOn_spec {t : FfiType} (h : t ∈ baseTypes) (hruns : runsOn t = true) :
    0 < t.size.toNat ∧ t.size.toNat < 8 ∧ isSigned t = false := by
  simp only [baseTypes, List.mem_cons, List.not_mem_nil, or_false] at h
  rcases h with rfl | rfl | rfl | rfl | rfl | rfl | rfl | rfl | rfl | rfl | rfl | rfl
  all_goals first | decide | exact absurd hruns (by decide)

/-- **An integer result is widened to an `ffi_arg`**, except for a `uint16` or a `uint32` with its
highest bit set: their code runs on into the sign extension. -/
theorem storeResult_ffiArg_iff {t : FfiType} (h : t ∈ baseTypes)
    (hint : typeCase (code t) = .integer) (carry : Bool) (regs : ResultRegisters) (m : Area)
    (raddr : Nat) :
    ∃ m', storeResult (scalarFlags t carry) regs m raddr = some m' ∧
      ((∀ k < 8, m' (raddr + k) = ffiArg t regs.rax k) ↔
        (runsOn t = true → (regs.rax (t.size.toNat - 1)).msb = false)) := by
  obtain ⟨m', hstore, hbytes⟩ := storeResult_integer h hint carry regs m raddr
  refine ⟨m', hstore, ?_⟩
  cases hruns : runsOn t with
  | false =>
    rw [hruns] at hbytes
    exact iff_of_true hbytes fun h => nomatch h
  | true =>
    obtain ⟨hpos, hlt, hunsigned⟩ := runsOn_spec h hruns
    have harg : ffiArg t regs.rax = regs.rax.extend t.size.toNat := by
      unfold ffiArg
      rw [hunsigned]
      rfl
    rw [hruns] at hbytes
    rw [harg, ← signExtend_extend_iff hpos hlt]
    constructor
    · intro hall _ k hk
      exact (hbytes k hk).symm.trans (hall k hk)
    · intro hall k hk
      exact (hbytes k hk).trans (hall rfl k hk)

theorem storeResult_ffiArg_iff_uint16 : ∃ m',
    storeResult (scalarFlags ⟨2, 2, 7, none⟩ false)
      ⟨fun k => if k = 1 then 0x80 else 0, .zero, .zero, .zero, .zero⟩ .zero 64 = some m' ∧
      ¬∀ k < 8, m' (64 + k) = ffiArg ⟨2, 2, 7, none⟩ (fun k => if k = 1 then 0x80 else 0) k := by
  obtain ⟨m', hstore, hiff⟩ := storeResult_ffiArg_iff (t := ⟨2, 2, 7, none⟩) (by simp [baseTypes])
    (by decide) false ⟨fun k => if k = 1 then 0x80 else 0, .zero, .zero, .zero, .zero⟩ .zero 64
  exact ⟨m', hstore, hiff.not.mpr fun h => absurd (h rfl) (by decide)⟩

end NodeFfi.Unix64
