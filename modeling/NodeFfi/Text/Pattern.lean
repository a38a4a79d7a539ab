/-!
# Regular expressions without nesting

Patterns are sequences of pieces, a character of a class or as many of them as possible, and one
part of a pattern is captured. Matching backtracks: `splits` lists every way to match, the longest
choice of the first repetition first, and a search takes the first way at the first position that
has one. `mem_splits` says what the list contains, whatever the order.
-/

namespace NodeFfi.Text

/-- A character of a class, or a greedy repetition of such characters. -/
inductive Piece where
  | one (p : Char → Bool)
  | many (p : Char → Bool)

/-- A text to be found as it stands. -/
def literal (s : List Char) : List Piece := s.map fun c => .one (· = c)

/-- `[..]+`. -/
def some1 (p : Char → Bool) : List Piece := [.one p, .many p]

/-- The ways to take a repetition off the front of a text, the longest first. -/
def manySplits (p : Char → Bool) : List Char → List (List Char × List Char)
  | [] => [([], [])]
  | c :: s =>
    if p c then (manySplits p s).map (fun m => (c :: m.1, m.2)) ++ [([], c :: s)]
    else [([], c :: s)]

def Piece.splits : Piece → List Char → List (List Char × List Char)
  | .one _, [] => []
  | .one p, c :: s => if p c then [([c], s)] else []
  | .many p, s => manySplits p s

/-- The ways to match the front of a text, in the order in which they are tried. -/
def splits : List Piece → List Char → List (List Char × List Char)
  | [], s => [([], s)]
  | q :: qs, s => (q.splits s).flatMap fun m => (splits qs m.2).map fun m' => (m.1 ++ m'.1, m'.2)

/-- A pattern with a capturing group. -/
structure Pattern where
  before : List Piece
  group : List Piece
  after : List Piece

namespace Pattern

/-- What the group captures, over all the ways to match at the front of the text. -/
def captures (P : Pattern) (s : List Char) : List (List Char) :=
  (splits P.before s).flatMap fun b =>
    (splits P.group b.2).flatMap fun g => (splits P.after g.2).map fun _ => g.1

/-- The capture of a match at the front. -/
def matchFront (P : Pattern) (s : List Char) : Option (List Char) := (P.captures s).head?

/-- The capture of the first match anywhere. -/
def search (P : Pattern) : List Char → Option (List Char)
  | [] => P.matchFront []
  | c :: s => (P.matchFront (c :: s)).orElse fun _ => search P s

end Pattern

/-! ### What matches -/

/-- The texts that a sequence of pieces matches. -/
def Matches : List Piece → List Char → Prop
  | [], m => m = []
  | .one p :: qs, m => ∃ c m', m = c :: m' ∧ p c = true ∧ Matches qs m'
  | .many p :: qs, m => ∃ a b, m = a ++ b ∧ (∀ c ∈ a, p c = true) ∧ Matches qs b

theorem mem_manySplits {p : Char → Bool} {s : List Char} {m : List Char × List Char} :
    m ∈ manySplits p s ↔ m.1 ++ m.2 = s ∧ ∀ c ∈ m.1, p c = true := by
  induction s generalizing m with
  | nil =>
    obtain ⟨a, b⟩ := m
    simp only [manySplits, List.mem_singleton, Prod.mk.injEq, List.append_eq_nil_iff]
    constructor
    · rintro ⟨rfl, rfl⟩
      simp
    · exact fun h => h.1
  | cons d s ih =>
    obtain ⟨a, b⟩ := m
    unfold manySplits
    split
    · rename_i hd
      simp only [List.mem_append, List.mem_map, List.mem_singleton, Prod.mk.injEq]
      constructor
      · rintro (⟨m', hm', rfl, rfl⟩ | ⟨rfl, rfl⟩)
        · obtain ⟨happ, hall⟩ := ih.mp hm'
          refine ⟨by rw [List.cons_append, happ], ?_⟩
          rintro c (_ | ⟨_, hc⟩)
          · exact hd
          · exact hall c hc
        · simp
      · rintro ⟨happ, hall⟩
        cases a with
        | nil => exact .inr ⟨rfl, happ⟩
        | cons e a =>
          obtain ⟨rfl, hs⟩ := List.cons.inj happ
          exact .inl ⟨(a, b), ih.mpr ⟨hs, fun c hc => hall c (.tail _ hc)⟩, rfl, rfl⟩
    · rename_i hd
      simp only [List.mem_singleton, Prod.mk.injEq]
      constructor
      · rintro ⟨rfl, rfl⟩
        simp
      · rintro ⟨happ, hall⟩
        cases a with
        | nil => exact ⟨rfl, happ⟩
        | cons e a =>
          obtain ⟨rfl, _⟩ := List.cons.inj happ
          exact absurd (hall e (.head _)) hd

theorem mem_splits {qs : List Piece} {s : List Char} {m : List Char × List Char} :
    m ∈ splits qs s ↔ m.1 ++ m.2 = s ∧ Matches qs m.1 := by
  induction qs generalizing s m with
  | nil =>
    obtain ⟨a, b⟩ := m
    simp only [splits, Matches, List.mem_singleton, Prod.mk.injEq]
    constructor
    · rintro ⟨rfl, rfl⟩
      exact ⟨rfl, rfl⟩
    · rintro ⟨rfl, rfl⟩
      exact ⟨rfl, rfl⟩
  | cons q qs ih =>
    obtain ⟨a, b⟩ := m
    simp only [splits, List.mem_flatMap, List.mem_map, Prod.mk.injEq]
    cases q with
    | one p =>
      constructor
      · rintro ⟨m, hm, m', hm', rfl, rfl⟩
        obtain ⟨happ, hmatch⟩ := ih.mp hm'
        cases s with
        | nil => cases hm
        | cons d s =>
          simp only [Piece.splits] at hm
          by_cases hd : p d = true
          · rw [if_pos hd] at hm
            obtain rfl := List.mem_singleton.mp hm
            exact ⟨by simpa using happ, d, m'.1, rfl, hd, hmatch⟩
          · rw [if_neg hd] at hm
            cases hm
      · rintro ⟨rfl, c, m', rfl, hc, hmatch⟩
        refine ⟨([c], m' ++ b), ?_, (m', b), ih.mpr ⟨rfl, hmatch⟩, rfl, rfl⟩
        simp only [List.cons_append, Piece.splits, if_pos hc, List.mem_singleton]
    | many p =>
      simp only [Piece.splits]
      constructor
      · rintro ⟨m, hm, m', hm', rfl, rfl⟩
        obtain ⟨happ, hall⟩ := mem_manySplits.mp hm
        obtain ⟨happ', hmatch⟩ := ih.mp hm'
        exact ⟨by rw [List.append_assoc, happ', happ], m.1, m'.1, rfl, hall, hmatch⟩
      · rintro ⟨rfl, a, b', rfl, hall, hmatch⟩
        refine ⟨(a, b' ++ b), mem_manySplits.mpr ⟨?_, hall⟩, (b', b), ih.mpr ⟨rfl, hmatch⟩,
          rfl, rfl⟩
        rw [List.append_assoc]

theorem mem_captures {P : Pattern} {s g : List Char} :
    g ∈ P.captures s ↔ ∃ b a r, b ++ (g ++ (a ++ r)) = s ∧ Matches P.before b ∧
      Matches P.group g ∧ Matches P.after a := by
  simp only [Pattern.captures, List.mem_flatMap, List.mem_map]
  constructor
  · rintro ⟨mb, hb, mg, hg, ma, ha, rfl⟩
    obtain ⟨hsb, hmb⟩ := mem_splits.mp hb
    obtain ⟨hsg, hmg⟩ := mem_splits.mp hg
    obtain ⟨hsa, hma⟩ := mem_splits.mp ha
    exact ⟨mb.1, ma.1, ma.2, by rw [hsa, hsg, hsb], hmb, hmg, hma⟩
  · rintro ⟨b, a, r, rfl, hmb, hmg, hma⟩
    exact ⟨(b, g ++ (a ++ r)), mem_splits.mpr ⟨rfl, hmb⟩, (g, a ++ r),
      mem_splits.mpr ⟨rfl, hmg⟩, (a, r), mem_splits.mpr ⟨rfl, hma⟩, rfl⟩

/-- Where all the ways to match capture the same, the order in which they are tried is no matter. -/
theorem matchFront_of_unique {P : Pattern} {s g : List Char} (hmem : g ∈ P.captures s)
    (hunique : ∀ g' ∈ P.captures s, g' = g) : P.matchFront s = some g := by
  unfold Pattern.matchFront
  cases hs : P.captures s with
  | nil =>
    rw [hs] at hmem
    cases hmem
  | cons g' rest =>
    rw [hunique g' (by rw [hs]; exact .head _)]
    rfl

theorem matches_literal {s m : List Char} : Matches (literal s) m ↔ m = s := by
  induction s generalizing m with
  | nil => exact Iff.rfl
  | cons c s ih =>
    simp only [literal, List.map_cons, Matches, decide_eq_true_eq] at ih ⊢
    constructor
    · rintro ⟨d, m', rfl, rfl, hm⟩
      rw [ih.mp hm]
    · rintro rfl
      exact ⟨c, s, rfl, rfl, ih.mpr rfl⟩

theorem matches_append {qs qs' : List Piece} {m : List Char} :
    Matches (qs ++ qs') m ↔ ∃ a b, m = a ++ b ∧ Matches qs a ∧ Matches qs' b := by
  induction qs generalizing m with
  | nil =>
    simp only [List.nil_append, Matches]
    constructor
    · exact fun h => ⟨[], m, rfl, rfl, h⟩
    · rintro ⟨a, b, rfl, rfl, h⟩
      exact h
  | cons q qs ih =>
    cases q with
    | one p =>
      simp only [List.cons_append, Matches, ih]
      constructor
      · rintro ⟨c, m', rfl, hc, a, b, rfl, ha, hb⟩
        exact ⟨c :: a, b, rfl, ⟨c, a, rfl, hc, ha⟩, hb⟩
      · rintro ⟨a, b, rfl, ⟨c, a', rfl, hc, ha⟩, hb⟩
        exact ⟨c, a' ++ b, rfl, hc, a', b, rfl, ha, hb⟩
    | many p =>
      simp only [List.cons_append, Matches, ih]
      constructor
      · rintro ⟨x, y, rfl, hx, a, b, rfl, ha, hb⟩
        exact ⟨x ++ a, b, (List.append_assoc x a b).symm, ⟨x, a, rfl, hx, ha⟩, hb⟩
      · rintro ⟨a, b, rfl, ⟨x, y, rfl, hx, hy⟩, hb⟩
        exact ⟨x, y ++ b, List.append_assoc x y b, hx, y, b, rfl, hy, hb⟩

end NodeFfi.Text
