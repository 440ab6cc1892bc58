import Mathlib.Algebra.Order.BigOperators.Group.List
import Mathlib.Algebra.Order.Ring.Nat
import Mathlib.Data.List.Induction

/-! The loop that keeps the first least element of a list, with its index. -/

namespace CellNet.Library

variable {α : Type*} (f : α → ℕ)

/-- One step: a strictly smaller element replaces the one kept. -/
def keepLess (m s : α × ℕ) : α × ℕ :=
  if f m.1 > f s.1 then s else m

/-- `m` is the first of the least elements. -/
structure IsFirstLeast (xs : List α) (m : α × ℕ) : Prop where
  mem : xs[m.2]? = some m.1
  le : ∀ (j : ℕ) (x : α), xs[j]? = some x → f m.1 ≤ f x
  lt : ∀ (j : ℕ) (x : α), xs[j]? = some x → j < m.2 → f m.1 < f x

variable {f}

theorem IsFirstLeast.keepLess {xs : List α} {m : α × ℕ} (h : IsFirstLeast f xs m) (x : α) :
    IsFirstLeast f (xs ++ [x]) (Library.keepLess f m (x, xs.length)) := by
  have hm : m.2 < xs.length := (List.getElem?_eq_some_iff.mp h.mem).1
  have hcases : ∀ (j : ℕ) (y : α), (xs ++ [x])[j]? = some y →
      xs[j]? = some y ∧ j < xs.length ∨ j = xs.length ∧ y = x := by
    intro j y hj
    by_cases hlt : j < xs.length
    · rw [List.getElem?_append_left hlt] at hj
      exact .inl ⟨hj, hlt⟩
    · rw [List.getElem?_append_right (Nat.not_lt.mp hlt)] at hj
      have hs := List.getElem?_eq_some_iff.mp hj
      obtain ⟨hb, hs⟩ := hs
      have hz : j - xs.length = 0 := by simpa using hb
      exact .inr ⟨by omega, by simpa [hz] using hs.symm⟩
  rw [Library.keepLess]
  split
  · next hlt =>
      constructor
      · simp
      · intro j y hj
        rcases hcases j y hj with ⟨hj, -⟩ | ⟨-, rfl⟩
        · exact (Nat.le_of_lt hlt).trans (h.le j y hj)
        · exact Nat.le_refl _
      · intro j y hj hjm
        rcases hcases j y hj with ⟨hj, -⟩ | ⟨rfl, -⟩
        · exact Nat.lt_of_lt_of_le hlt (h.le j y hj)
        · exact absurd hjm (Nat.lt_irrefl _)
  · next hge =>
      constructor
      · rw [List.getElem?_append_left hm]
        exact h.mem
      · intro j y hj
        rcases hcases j y hj with ⟨hj, -⟩ | ⟨-, rfl⟩
        · exact h.le j y hj
        · exact Nat.not_lt.mp hge
      · intro j y hj hjm
        rcases hcases j y hj with ⟨hj, -⟩ | ⟨rfl, -⟩
        · exact h.lt j y hj hjm
        · omega

/-- The loop over the list finds its first least element. -/
theorem isFirstLeast_foldl (x : α) (xs : List α) :
    IsFirstLeast f (x :: xs) ((x :: xs).zipIdx.foldl (keepLess f) (x, 0)) := by
  induction xs using List.reverseRecOn with
  | nil =>
      have hs : keepLess f (x, 0) (x, 0) = (x, 0) := by rw [keepLess, if_neg (Nat.lt_irrefl _)]
      show IsFirstLeast f [x] (keepLess f (x, 0) (x, 0))
      rw [hs]
      constructor
      · rfl
      · intro j y hj
        rw [List.mem_singleton.mp (List.mem_of_getElem? hj)]
      · intro j y _ hj
        exact absurd hj (Nat.not_lt_zero j)
  | append_singleton xs y ih =>
      rw [← List.cons_append, List.zipIdx_append, List.foldl_append]
      have hk := ih.keepLess y
      simpa using hk

theorem IsFirstLeast.unique {xs : List α} {m m' : α × ℕ} (h : IsFirstLeast f xs m)
    (h' : IsFirstLeast f xs m') : m.2 = m'.2 := by
  rcases Nat.lt_trichotomy m.2 m'.2 with hlt | he | hlt
  · have h₁ := h'.lt m.2 m.1 h.mem hlt
    have h₂ := h.le m'.2 m'.1 h'.mem
    omega
  · exact he
  · have h₁ := h.lt m'.2 m'.1 h'.mem hlt
    have h₂ := h'.le m.2 m.1 h.mem
    omega

/-- The least element is not above the average. -/
theorem IsFirstLeast.length_mul_le {xs : List α} {m : α × ℕ} (h : IsFirstLeast f xs m) :
    xs.length * f m.1 ≤ (xs.map f).sum := by
  have hs := List.card_nsmul_le_sum (xs.map f) (f m.1) ?_
  · rwa [List.length_map, nsmul_eq_mul, Nat.cast_id] at hs
  · intro n hn
    obtain ⟨x, hx, rfl⟩ := List.mem_map.mp hn
    obtain ⟨j, hj⟩ := List.mem_iff_getElem?.mp hx
    exact h.le j x hj

end CellNet.Library
