import Mathlib.Tactic.IntervalCases
import NodeFfi.DynamicLibrary.Model

/-!
# What the constructor resolves a path to

The files are libraries that load, libraries that need another one that does not, and texts. The
library asked for is at the end of the chain of linker scripts that starts at the path
(`FileSystem.script`). The constructor follows the error texts instead (`Linker.redirect`), which
name a file whatever is wrong with it, and which name a dependency where that is what is wrong.

`as_promised_iff` says when that makes no difference. For a library that is not there it does
(`missing_readError`): what reaches the caller is the failure to read it.
-/

namespace NodeFfi.DynamicLibrary

open Text Transition

variable {Handle : Type}

/-- What is wrong with a file. -/
inductive Reason where
  | missing
  /-- It is there and is no library. -/
  | invalid
  deriving DecidableEq, Repr

inductive File (Handle : Type) where
  /-- A library that `dlopen` loads, by the mode. -/
  | object (handle : Nat → Handle) (content : List Char)
  /-- A library that needs another one, which cannot be loaded. -/
  | broken (dependency : Path) (reason : Reason) (content : List Char)
  | text (content : List Char)

def File.content : File Handle → List Char
  | .object _ content | .broken _ _ content | .text content => content

structure FileSystem (Handle : Type) where
  files : List (Path × File Handle)
  /-- The words of `dlerror` for a reason. -/
  describe : Reason → List Char
  /-- The first file that a text names in its `GROUP ( .. )`, as the linker reads it. -/
  group : List Char → Option Path

namespace FileSystem

variable (fs : FileSystem Handle)

def file? (path : Path) : Option (File Handle) := fs.files.lookup path

/-- `<file>: <reason>`. -/
def errorText (file : Path) (reason : Reason) : List Char :=
  file ++ ": ".toList ++ fs.describe reason

def dlopen (path : Path) (mode : Nat) : Except (List Char) Handle :=
  match fs.file? path with
  | some (.object handle _) => .ok (handle mode)
  | some (.broken dependency reason _) => .error (fs.errorText dependency reason)
  | some (.text _) => .error (fs.errorText path .invalid)
  | none => .error (fs.errorText path .missing)

def linker : Linker Handle where
  files := fs.files.map fun f => (f.1, f.2.content)
  dlopen := fs.dlopen

/-- The first file that the path names, as a linker script. -/
def script (path : Path) : Option Path :=
  match fs.file? path with
  | some (.text content) => fs.group content
  | _ => none

/-- The constructor comes to this path. -/
def Tried (mode : Nat) (path p : Path) : Prop :=
  ∃ k, follow (fs.linker.redirect mode) k path = some p

/-- What the constructor promises: the handle that `dlopen` gives at the end of the chain of
scripts, having tried the paths of the chain, or the error of the last `dlopen`. -/
def Promised (mode : Nat) (path : Path) : Outcome Handle → Prop
  | .handle h => ∃ k last,
      (∀ i ≤ k, follow (fs.linker.redirect mode) i path = follow fs.script i path) ∧
      follow fs.script k path = some last ∧ fs.dlopen last mode = .ok h
  | .error message => ∃ last err, fs.Tried mode path last ∧
      fs.linker.redirect mode last = none ∧ fs.dlopen last mode = .error err ∧
      message = linkingError err
  | .readError _ => False

/-- No error text on the way misleads the constructor. -/
structure NotMisled (mode : Nat) (path : Path) : Prop where
  /-- A file that an error text names can be read. -/
  readable : ∀ p err name, fs.Tried mode path p → fs.dlopen p mode = .error err →
    libraryName.matchFront err = some name → (fs.linker.read name).isSome = true
  /-- A path that is given up for another is itself a script that names the other first, or no
  path on the way can be loaded. -/
  own : (∀ p q, fs.Tried mode path p → fs.linker.redirect mode p = some q →
      fs.script p = some q) ∨
    ∀ p, fs.Tried mode path p → ∃ err, fs.dlopen p mode = .error err

variable {fs} {mode : Nat} {path : Path}

theorem redirect_of_ok {p : Path} {h : Handle} (hok : fs.dlopen p mode = .ok h) :
    fs.linker.redirect mode p = none := by
  have hok' : fs.linker.dlopen p mode = .ok h := hok
  unfold Linker.redirect
  rw [hok']

theorem finish_of_ok {p : Path} {h : Handle} (hok : fs.dlopen p mode = .ok h) :
    fs.linker.finish mode p = .handle h := by
  have hok' : fs.linker.dlopen p mode = .ok h := hok
  unfold Linker.finish
  rw [hok']

theorem finish_of_error {p : Path} {err : List Char} (herr : fs.dlopen p mode = .error err) :
    (fs.linker.finish mode p = .error (linkingError err) ∧
      ∀ name, libraryName.matchFront err = some name → (fs.linker.read name).isSome = true) ∨
    ∃ name, fs.linker.finish mode p = .readError name ∧
      libraryName.matchFront err = some name ∧ ¬ (fs.linker.read name).isSome = true := by
  have herr' : fs.linker.dlopen p mode = .error err := herr
  unfold Linker.finish
  rw [herr']
  simp only
  cases hname : libraryName.matchFront err with
  | none => exact .inl ⟨rfl, fun _ h => by cases h⟩
  | some name =>
    by_cases hread : (fs.linker.read name).isSome = true
    · refine .inl ⟨by simp only [hread, if_true], fun name' h => ?_⟩
      obtain rfl := Option.some.inj h
      exact hread
    · exact .inr ⟨name, by simp only [hread, Bool.false_eq_true, if_false], rfl, hread⟩

theorem readable_of_redirect {p q : Path} {err : List Char} (herr : fs.dlopen p mode = .error err)
    (hq : fs.linker.redirect mode p = some q) {name : Path}
    (hname : libraryName.matchFront err = some name) : (fs.linker.read name).isSome = true := by
  have herr' : fs.linker.dlopen p mode = .error err := herr
  unfold Linker.redirect at hq
  rw [herr'] at hq
  simp only [hname, Option.bind_some] at hq
  obtain ⟨content, hread, _⟩ := Option.bind_eq_some_iff.mp hq
  rw [hread]
  rfl

theorem follow_eq_script (hown : ∀ p q, fs.Tried mode path p →
      fs.linker.redirect mode p = some q → fs.script p = some q) {k : Nat} {last : Path}
    (hk : follow (fs.linker.redirect mode) k path = some last) (i : Nat) (hi : i ≤ k) :
    follow (fs.linker.redirect mode) i path = follow fs.script i path := by
  obtain ⟨p, hp⟩ := exists_follow_of_le hk hi
  rw [hp, follow_of_agree (fun j y z hy => hown y z ⟨j, hy⟩) hp]

/-- **When the constructor keeps its promise**: exactly when no error text misleads it. -/
theorem as_promised_iff {fuel : Nat} {mode : Option Nat} {o : Outcome Handle}
    (h : fs.linker.dynamicLibrary fuel path mode = some o) :
    fs.Promised (mode.getD Linker.rtldLazy) path o ↔
      fs.NotMisled (mode.getD Linker.rtldLazy) path := by
  obtain ⟨k, last, hk, hend, ho⟩ := fs.linker.dynamicLibrary_eq_some h
  generalize mode.getD Linker.rtldLazy = mode at hk hend ho ⊢
  subst ho
  cases hopen : fs.dlopen last mode with
  | ok handle =>
    rw [finish_of_ok hopen]
    constructor
    · rintro ⟨n, last', heq, hn, hopen'⟩
      have hn' : follow (fs.linker.redirect mode) n path = some last' :=
        (heq n (Nat.le_refl n)).trans hn
      obtain ⟨rfl, rfl⟩ := follow_end_unique hk hend hn' (redirect_of_ok hopen')
      refine ⟨fun p err name ⟨i, hi⟩ herr hname => ?_, .inl fun p q ⟨i, hi⟩ hq => ?_⟩
      · cases hq : fs.linker.redirect mode p with
        | some q => exact readable_of_redirect herr hq hname
        | none =>
          obtain ⟨_, rfl⟩ := follow_end_unique hk hend hi hq
          rw [hopen] at herr
          cases herr
      · have hi' : follow (fs.linker.redirect mode) (i + 1) path = some q :=
          (follow_snoc hi).trans hq
        have hle := le_of_follow_end hk hend hi'
        have hscript : follow fs.script i path = some p :=
          (heq i (Nat.le_of_succ_le hle)).symm.trans hi
        rw [← follow_snoc hscript, ← heq (i + 1) hle, hi']
    · intro hcond
      have hown := hcond.own.resolve_right fun hall => by
        obtain ⟨err, herr⟩ := hall last ⟨k, hk⟩
        rw [hopen] at herr
        cases herr
      have heq := follow_eq_script hown hk
      exact ⟨k, last, heq, (heq k (Nat.le_refl k)).symm.trans hk, hopen⟩
  | error err =>
    have hfail : ∀ p, fs.Tried mode path p → ∃ err, fs.dlopen p mode = .error err := by
      rintro p ⟨i, hi⟩
      cases hp : fs.dlopen p mode with
      | error err => exact ⟨err, rfl⟩
      | ok handle =>
        obtain ⟨_, rfl⟩ := follow_end_unique hk hend hi (redirect_of_ok hp)
        rw [hopen] at hp
        cases hp
    rcases finish_of_error hopen with ⟨hfin, hread⟩ | ⟨name, hfin, hname, hread⟩
    · rw [hfin]
      refine ⟨fun _ => ⟨fun p err' name ⟨i, hi⟩ herr hname => ?_, .inr hfail⟩,
        fun _ => ⟨last, err, ⟨k, hk⟩, hend, hopen, rfl⟩⟩
      cases hq : fs.linker.redirect mode p with
      | some q => exact readable_of_redirect herr hq hname
      | none =>
        obtain ⟨_, rfl⟩ := follow_end_unique hk hend hi hq
        obtain rfl : err' = err := by
          rw [hopen] at herr
          exact (Except.error.inj herr).symm
        exact hread name hname
    · rw [hfin]
      exact ⟨fun h => h.elim, fun hcond => hread (hcond.readable last err name ⟨k, hk⟩ hopen hname)⟩

end FileSystem

/-! ### Libraries that are not there -/

/-- The name of a library as it usually is. -/
structure Ordinary (path : Path) : Prop where
  so : ∃ stem tail, path = stem ++ (".so".toList ++ tail) ∧ stem ≠ []
  plain : ∀ c ∈ path, c ∉ [' ', '\t', ':', '(', ')']

theorem matches_group {g : List Char} (h : Matches libraryName.group g) :
    (∃ stem tail, g = stem ++ (".so".toList ++ tail) ∧ stem ≠ []) ∧ ' ' ∉ g := by
  obtain ⟨g', tail, rfl, hg', a, b, rfl, ha, rfl⟩ := matches_append.mp h
  obtain ⟨stem, so, rfl, ⟨c, m, rfl, hc, d, e, rfl, hd, rfl⟩, hso⟩ := matches_append.mp hg'
  rw [matches_literal.mp hso]
  refine ⟨⟨c :: d, a, by simp, by simp⟩, fun hmem => ?_⟩
  simp only [List.append_nil, List.cons_append, List.mem_cons, List.mem_append] at hmem
  rcases hmem with rfl | (hmem | hmem) | hmem
  · simp at hc
  · simpa using hd _ hmem
  · revert hmem
    decide
  · simpa using ha _ hmem

theorem matches_after {a : List Char} (h : Matches libraryName.after a) :
    ∃ rest, a = ':' :: rest := by
  obtain ⟨colon, rest, rfl, hcolon, _⟩ := matches_append.mp h
  rw [matches_literal.mp hcolon]
  exact ⟨rest, rfl⟩

theorem group_of_ordinary {path : Path} (h : Ordinary path) : Matches libraryName.group path := by
  obtain ⟨⟨stem, tail, rfl, hstem⟩, hplain⟩ := h
  obtain ⟨c, d, rfl⟩ := List.exists_cons_of_ne_nil hstem
  have hclass : ∀ x ∈ (c :: d) ++ (".so".toList ++ tail),
      x ≠ ' ' ∧ x ≠ '\t' ∧ x ≠ ':' ∧ x ≠ '(' ∧ x ≠ ')' := by
    simpa using hplain
  have hfront : ∀ x ∈ c :: d, x ≠ ' ' ∧ x ≠ '\t' ∧ x ≠ ':' ∧ x ≠ '(' ∧ x ≠ ')' := fun x hx =>
    hclass x (List.mem_append_left _ hx)
  have htail : ∀ x ∈ tail, x ≠ ' ' ∧ x ≠ '\t' ∧ x ≠ ':' ∧ x ≠ '(' ∧ x ≠ ')' := fun x hx =>
    hclass x (List.mem_append_right _ (List.mem_append_right _ hx))
  refine matches_append.mpr ⟨c :: d ++ ".so".toList, tail, by simp, matches_append.mpr
    ⟨c :: d, ".so".toList, rfl, ⟨c, d, rfl, ?_, d, [], by simp, fun x hx => ?_, rfl⟩,
      matches_literal.mpr rfl⟩, tail, [], by simp, fun x hx => ?_, rfl⟩
  · have := hfront c (.head _)
    simp [this]
  · have := hfront x (.tail _ hx)
    simp [this]
  · have := htail x hx
    simp [this]

theorem libraryName_ordinary {path : Path} (h : Ordinary path) (reason : List Char) :
    libraryName.matchFront (path ++ ": ".toList ++ reason) = some path := by
  have hspace : ' ' ∉ path := fun hmem => h.plain _ hmem (by simp)
  have hcolon : ':' ∉ path := fun hmem => h.plain _ hmem (by simp)
  refine matchFront_of_unique (mem_captures.mpr ?_) fun g hg => ?_
  · exact ⟨[], [':'], ' ' :: reason, by simp, rfl, group_of_ordinary h,
      matches_append.mpr ⟨[':'], [], rfl, matches_literal.mpr rfl, [], [], rfl, by simp, rfl⟩⟩
  · obtain ⟨b, a, r, happ, rfl, hgroup, hafter⟩ := mem_captures.mp hg
    obtain ⟨rest, rfl⟩ := matches_after hafter
    have happ' : g ++ (':' :: (rest ++ r)) = path ++ (':' :: ' ' :: reason) := by
      simpa using happ
    -- a longer match would run over the space, a shorter one would end at a colon in the name
    rcases List.append_eq_append_iff.mp happ' with ⟨as, hpath, has⟩ | ⟨bs, hg', hbs⟩
    · cases as with
      | nil => simpa using hpath.symm
      | cons x as =>
        obtain ⟨rfl, _⟩ := List.cons.inj has
        exact absurd (by rw [hpath]; simp) hcolon
    · match bs with
      | [] => simpa using hg'
      | [x] =>
        simp at hbs
      | x :: y :: bs =>
        simp only [List.cons_append, List.cons.injEq] at hbs
        exact absurd (by rw [hg', ← hbs.2.1]; simp) (matches_group hgroup).2

/-- **A library that is not there** is not reported as such: the failure to read it comes first. -/
theorem missing_readError {fs : FileSystem Handle} {path : Path} (h : Ordinary path)
    (hmissing : fs.file? path = none) (fuel : Nat) (mode : Option Nat) :
    fs.linker.dynamicLibrary (fuel + 1) path mode = some (.readError path) := by
  have hopen : fs.dlopen path (mode.getD Linker.rtldLazy) =
      .error (path ++ ": ".toList ++ fs.describe .missing) := by
    unfold FileSystem.dlopen
    rw [hmissing]
    rfl
  have hname := libraryName_ordinary h (fs.describe .missing)
  have hread : fs.linker.read path = none := by
    unfold FileSystem.file? at hmissing
    rw [Linker.read, FileSystem.linker, List.lookup_eq_none_iff]
    rw [List.lookup_eq_none_iff] at hmissing
    intro f hf
    obtain ⟨f', hf', rfl⟩ := List.mem_map.mp hf
    exact hmissing f' hf'
  rw [Linker.dynamicLibrary_succ]
  have hopen' : fs.linker.dlopen path (mode.getD Linker.rtldLazy) = _ := hopen
  unfold Linker.redirect Linker.finish
  rw [hopen']
  simp only [hname, Option.bind_some, hread, Option.bind_none, Option.isSome_none,
    Bool.false_eq_true, if_false]

section files

/-- The word behind `GROUP (`, outside of comments. -/
def firstInGroup (comment : Bool) : List (List Char) → Option Path
  | [] => none
  | word :: rest =>
    if comment then firstInGroup (word ≠ "*/".toList) rest
    else if word = "GROUP".toList then
      match rest with
      | paren :: name :: _ => if paren = ['('] then some name else none
      | _ => none
    else firstInGroup (word = "/*".toList) rest

-- the expression of the constructor does not know of comments
example : let script := "/* GROUP ( libold.so ) */ GROUP ( libnew.so )".toList
    firstInGroup false (script.splitOn ' ') = some "libnew.so".toList ∧
      groupCommand.search script = some "libold.so".toList := by
  decide

/-- A library that needs another one, in the place of which there is a script, and the script of
the C library. -/
def needy : FileSystem Nat where
  files := [("libapp.so".toList, .broken "libdep.so".toList .invalid []),
    ("libdep.so".toList, .text "GROUP ( libother.so )".toList),
    ("libother.so".toList, .object (fun _ => 7) []),
    ("libc.so".toList, .text "/* GNU ld script */ GROUP ( /lib/libc.so.6 )".toList),
    ("/lib/libc.so.6".toList, .object (fun _ => 6) [])]
  describe
    | .missing => "cannot open shared object file: No such file or directory".toList
    | .invalid => "invalid ELF header".toList
  group content := firstInGroup false (content.splitOn ' ')

theorem missing_readError_libz : needy.linker.dynamicLibrary 1 "libz.so.1".toList none =
    some (.readError "libz.so.1".toList) :=
  missing_readError ⟨⟨"libz".toList, ".1".toList, by decide, by decide⟩, by simp⟩
    (by decide) 0 none

theorem as_promised_iff_libc :
    needy.linker.dynamicLibrary 2 "libc.so".toList none = some (.handle 6) ∧
      needy.NotMisled Linker.rtldLazy "libc.so".toList := by
  have hrun : needy.linker.dynamicLibrary 2 "libc.so".toList none = some (.handle 6) := by decide
  refine ⟨hrun, (FileSystem.as_promised_iff hrun).mp
    ⟨1, "/lib/libc.so.6".toList, ?_, by decide, rfl⟩⟩
  intro i hi
  interval_cases i <;> decide

/-- For a library that is not there the constructor throws what `readFileSync` throws, and in the
place of one whose dependency is a script it returns what the script names. -/
theorem promise_broken :
    (needy.linker.dynamicLibrary 1 "libmissing.so".toList none =
        some (.readError "libmissing.so".toList) ∧
      ¬ needy.Promised Linker.rtldLazy "libmissing.so".toList
        (.readError "libmissing.so".toList)) ∧
    (needy.linker.dynamicLibrary 2 "libapp.so".toList none = some (.handle 7) ∧
      ¬ needy.Promised Linker.rtldLazy "libapp.so".toList (.handle 7)) := by
  refine ⟨⟨by decide, fun h => h⟩, by decide, ?_⟩
  rintro ⟨k, last, _, hk, hopen⟩
  cases k with
  | zero =>
    obtain rfl := Option.some.inj hk
    cases hopen
  | succ k =>
    have hscript : needy.script "libapp.so".toList = none := by decide
    rw [follow, hscript] at hk
    cases hk

end files

end NodeFfi.DynamicLibrary
