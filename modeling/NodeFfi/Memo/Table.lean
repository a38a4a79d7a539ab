import Mathlib.Data.Set.Card

/-!
# Memo tables

A table that keeps, under a key computed from a request, the value that was made for the first
request with that key, and answers later requests with the same key from it. `Memoised` relates
the table to the answers given so far; the two ways of answering keep it. Two requests have had the
same value exactly when they had the same key (`Memoised.value_eq_iff`), so the answers are right
exactly when the key separates the requests (`Memoised.exact_iff`, `Memoised.sound_iff`). Where
requests that are alike share a value, there are at most as many values as kinds of requests
(`Memoised.values_eq`, `encard_le_of_alike`).
-/

namespace NodeFfi.Memo

/-- A table with one value more. -/
def store {K V : Type} [DecidableEq K] (table : K → Option V) (k : K) (v : V) : K → Option V :=
  fun k' => if k' = k then some v else table k'

theorem store_self {K V : Type} [DecidableEq K] (table : K → Option V) (k : K) (v : V) :
    store table k v k = some v := if_pos rfl

theorem store_of_ne {K V : Type} [DecidableEq K] (table : K → Option V) {k k' : K} (v : V)
    (h : k' ≠ k) : store table k v k' = table k' := if_neg h

/-- An answered request. -/
structure Answer (K Q V : Type) where
  key : K
  query : Q
  value : V

variable {K Q V P : Type} {made : V → Q} {table : K → Option V} {answers : List (Answer K Q V)}

/-- The table is what these answers have left in it; `made` is the request a value was made for. -/
structure Memoised (made : V → Q) (table : K → Option V) (answers : List (Answer K Q V)) :
    Prop where
  served : ∀ a ∈ answers, table a.key = some a.value
  origin : ∀ k v, table k = some v → ⟨k, made v, v⟩ ∈ answers
  once : ∀ k k' v, table k = some v → table k' = some v → k = k'

/-- Requests with the same key agree in `p`. -/
def Separated (p : Q → P) (answers : List (Answer K Q V)) : Prop :=
  ∀ a ∈ answers, ∀ b ∈ answers, a.key = b.key → p a.query = p b.query

namespace Memoised

theorem empty : Memoised made (fun _ : K => none) [] :=
  ⟨by simp, by simp, by simp⟩

theorem hit (h : Memoised made table answers) {k : K} {v : V} (hk : table k = some v) (q : Q) :
    Memoised made table (answers ++ [⟨k, q, v⟩]) where
  served := List.forall_mem_append.mpr ⟨h.served, List.forall_mem_singleton.mpr hk⟩
  origin k v hv := List.mem_append_left _ (h.origin k v hv)
  once := h.once

theorem miss [DecidableEq K] (h : Memoised made table answers) {k : K} {v : V}
    (hk : table k = none) (hv : ∀ k', table k' ≠ some v) :
    Memoised made (store table k v) (answers ++ [⟨k, made v, v⟩]) where
  served a ha := by
    rcases List.mem_append.mp ha with ha | ha
    · have hserved := h.served a ha
      have hne : a.key ≠ k := by
        intro heq
        rw [heq, hk] at hserved
        cases hserved
      rw [store_of_ne table v hne]
      exact hserved
    · obtain rfl := List.mem_singleton.mp ha
      exact store_self table k v
  origin k' v' hv' := by
    by_cases heq : k' = k
    · subst heq
      rw [store_self, Option.some.injEq] at hv'
      subst hv'
      simp
    · rw [store_of_ne table v heq] at hv'
      exact List.mem_append_left _ (h.origin k' v' hv')
  once k₁ k₂ v' h₁ h₂ := by
    by_cases e₁ : k₁ = k
    · by_cases e₂ : k₂ = k
      · exact e₁.trans e₂.symm
      · rw [e₁, store_self, Option.some.injEq] at h₁
        rw [store_of_ne table v e₂, ← h₁] at h₂
        exact absurd h₂ (hv k₂)
    · rw [store_of_ne table v e₁] at h₁
      by_cases e₂ : k₂ = k
      · rw [e₂, store_self, Option.some.injEq] at h₂
        rw [← h₂] at h₁
        exact absurd h₁ (hv k₁)
      · rw [store_of_ne table v e₂] at h₂
        exact h.once k₁ k₂ v' h₁ h₂

theorem value_eq_iff (h : Memoised made table answers) {a b : Answer K Q V} (ha : a ∈ answers)
    (hb : b ∈ answers) : a.value = b.value ↔ a.key = b.key := by
  have hsa := h.served a ha
  have hsb := h.served b hb
  constructor
  · intro heq
    rw [← heq] at hsb
    exact h.once _ _ _ hsa hsb
  · intro heq
    rw [heq, hsb, Option.some.injEq] at hsa
    exact hsa.symm

theorem exists_maker (h : Memoised made table answers) {a : Answer K Q V} (ha : a ∈ answers) :
    ∃ b ∈ answers, b.key = a.key ∧ b.query = made a.value :=
  ⟨_, h.origin _ _ (h.served a ha), rfl, rfl⟩

/-- **The values are made for the requests they answer exactly when the key separates them.** -/
theorem exact_iff (h : Memoised made table answers) (p : Q → P) :
    (∀ a ∈ answers, p (made a.value) = p a.query) ↔ Separated p answers := by
  constructor
  · intro hexact a ha b hb hkey
    rw [← hexact a ha, ← hexact b hb, (h.value_eq_iff ha hb).mpr hkey]
  · intro hsep a ha
    obtain ⟨b, hb, hkey, hquery⟩ := h.exists_maker ha
    rw [← hquery]
    exact hsep b hb a ha hkey

/-- **Requests that differ have different values exactly when the key separates them.** -/
theorem sound_iff (h : Memoised made table answers) (p : Q → P) :
    (∀ a ∈ answers, ∀ b ∈ answers, a.value = b.value → p a.query = p b.query) ↔
      Separated p answers := by
  constructor
  · intro hsound a ha b hb hkey
    exact hsound a ha b hb ((h.value_eq_iff ha hb).mpr hkey)
  · intro hsep a ha b hb hvalue
    exact hsep a ha b hb ((h.value_eq_iff ha hb).mp hvalue)

theorem values_eq (h : Memoised made table answers) :
    {v | ∃ k, table k = some v} = {v | ∃ a ∈ answers, a.value = v} := by
  ext v
  constructor
  · rintro ⟨k, hk⟩
    exact ⟨_, h.origin k v hk, rfl⟩
  · rintro ⟨a, ha, rfl⟩
    exact ⟨a.key, h.served a ha⟩

end Memoised

theorem encard_le_of_alike {A B C : Type} (s : Set A) (f : A → B) (g : A → C)
    (h : ∀ a ∈ s, ∀ b ∈ s, g a = g b → f a = f b) : (f '' s).encard ≤ (g '' s).encard := by
  obtain ⟨u, hus, hbij⟩ := Set.exists_subset_bijOn s f
  have hinj : Set.InjOn g u := fun a ha b hb hg => hbij.injOn ha hb (h a (hus ha) b (hus hb) hg)
  calc (f '' s).encard = u.encard := by rw [← hbij.image_eq, hbij.injOn.encard_image]
    _ = (g '' u).encard := hinj.encard_image.symm
    _ ≤ (g '' s).encard := Set.encard_le_encard (Set.image_mono hus)

end NodeFfi.Memo
