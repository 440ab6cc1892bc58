import Mathlib.Algebra.Order.BigOperators.Group.List
import Mathlib.Algebra.Order.Ring.Nat
import Mathlib.Logic.Function.Basic

/-! Lists and functions that are changed at one place. -/

namespace CellNet.Library

/-- An entry of an updated list is the new one, or stands where it stood. -/
theorem getElem?_set_cases {α : Type*} {xs : List α} {i j : ℕ} {x y : α}
    (h : (xs.set i x)[j]? = some y) : j = i ∧ y = x ∨ j ≠ i ∧ xs[j]? = some y := by
  by_cases hij : i = j
  · subst hij
    rw [List.getElem?_set_self'] at h
    obtain ⟨_, _, rfl⟩ := Option.map_eq_some_iff.mp h
    exact .inl ⟨rfl, rfl⟩
  · rw [List.getElem?_set_ne hij] at h
    exact .inr ⟨Ne.symm hij, h⟩

theorem getElem?_set_same {α : Type*} {xs : List α} {i : ℕ} {x : α} (h : xs[i]? = some x)
    (y : α) : (xs.set i y)[i]? = some y :=
  List.getElem?_set_self (List.getElem?_eq_some_iff.mp h).1

theorem set_getElem?_self {α : Type*} {xs : List α} {i : ℕ} {x : α} (h : xs[i]? = some x) :
    xs.set i x = xs := by
  obtain ⟨hi, rfl⟩ := List.getElem?_eq_some_iff.mp h
  exact List.set_getElem_self hi

/-- A value of an updated function is the new one, or was there. -/
theorem update_cases {α β : Type*} [DecidableEq α] {f : α → β} {a b : α} {x y : β}
    (h : Function.update f a x b = y) : b = a ∧ x = y ∨ b ≠ a ∧ f b = y := by
  rw [Function.update_apply] at h
  split at h
  · next hb => exact .inl ⟨hb, h⟩
  · next hb => exact .inr ⟨hb, h⟩

section Lists

variable {α β : Type*} [DecidableEq α] {f : α → List β} {a b : α} {l : List β} {x : β}

theorem mem_update :
    x ∈ Function.update f a l b ↔ b = a ∧ x ∈ l ∨ b ≠ a ∧ x ∈ f b := by
  by_cases h : b = a
  · subst h
    simp
  · simp [h]

theorem nodup_update (hf : ∀ b, (f b).Nodup) (hl : l.Nodup) (b : α) :
    (Function.update f a l b).Nodup := by
  by_cases h : b = a
  · subst h
    simpa using hl
  · simpa [h] using hf b

end Lists

theorem sum_map_set {α : Type*} {xs : List α} {i : ℕ} {x : α} (hi : xs[i]? = some x)
    (f : α → ℕ) (y : α) : ((xs.set i y).map f).sum + f x = (xs.map f).sum + f y := by
  induction xs generalizing i with
  | nil => cases hi
  | cons z zs ih =>
      cases i with
      | zero =>
          obtain rfl := Option.some.inj hi
          simp only [List.set_cons_zero, List.map_cons, List.sum_cons]
          omega
      | succ i =>
          have hz := ih (i := i) hi
          simp only [List.set_cons_succ, List.map_cons, List.sum_cons]
          omega

section Ones

variable {α : Type*} {f : α → ℕ}

theorem sum_map_le_length (hf : ∀ x, f x ≤ 1) (xs : List α) : (xs.map f).sum ≤ xs.length := by
  induction xs with
  | nil => exact le_rfl
  | cons x xs ih =>
      have hx := hf x
      simp only [List.map_cons, List.sum_cons, List.length_cons]
      omega

/-- A sum of zeros and ones that reaches the length is one of ones. -/
theorem eq_one_of_length_le_sum (hf : ∀ x, f x ≤ 1) {xs : List α}
    (h : xs.length ≤ (xs.map f).sum) : ∀ x ∈ xs, f x = 1 := by
  induction xs with
  | nil => simp
  | cons x xs ih =>
      have hx := hf x
      have hle := sum_map_le_length hf xs
      simp only [List.map_cons, List.sum_cons, List.length_cons] at h
      intro y hy
      rcases List.mem_cons.mp hy with rfl | hy
      · omega
      · exact ih (by omega) y hy

end Ones

end CellNet.Library
