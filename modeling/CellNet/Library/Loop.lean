import Mathlib.Data.Int.Init

/-! Completed runs of `while` loops and `for` loops whose test or body may fault. -/

namespace CellNet.Library

variable {α : Type*}

/-- `Whiles test body n x y`: started in `x`, the loop leaves in `y` after exactly `n`
iterations. A test without an answer and a body without a result are faults. -/
inductive Whiles (test : α → Option Bool) (body : α → α → Prop) : ℕ → α → α → Prop where
  | stop {x} : test x = some false → Whiles test body 0 x x
  | iterate {x y z n} : test x = some true → body x y → Whiles test body n y z →
      Whiles test body (n + 1) x z

theorem Whiles.imp {test : α → Option Bool} {body body' : α → α → Prop}
    (hb : ∀ x y, body x y → body' x y) {n : ℕ} {x y : α} (h : Whiles test body n x y) :
    Whiles test body' n x y := by
  induction h with
  | stop ht => exact .stop ht
  | iterate ht h _ ih => exact .iterate ht (hb _ _ h) ih

/-- A quantity that every iteration decreases and that stays nonnegative bounds the
number of iterations. -/
theorem Whiles.length_le {test : α → Option Bool} {body : α → α → Prop} (μ : α → ℤ)
    {n : ℕ} {x y : α} (h : Whiles test (fun x y => body x y ∧ μ y < μ x) n x y)
    (hy : 0 ≤ μ y) : (n : ℤ) ≤ μ x := by
  induction h with
  | stop => exact hy
  | iterate _ hb _ ih =>
      have := ih hy
      have := hb.2
      omega

/-- The loop rule of a `for` over a list: `P` holds of what is still to be visited, and
the body neither faults nor breaks it. -/
theorem foldlM_some {β : Type*} {f : α → β → Option α} {P : List β → α → Prop}
    (hf : ∀ b l x, P (b :: l) x → ∃ y, f x b = some y ∧ P l y) {l : List β} {x : α}
    (h : P l x) : ∃ y, l.foldlM f x = some y ∧ P [] y := by
  induction l generalizing x with
  | nil => exact ⟨x, rfl, h⟩
  | cons b l ih =>
      rcases hf b l x h with ⟨y, hy, hp⟩
      rcases ih hp with ⟨z, hz, hp⟩
      exact ⟨z, by rw [List.foldlM_cons, hy]; exact hz, hp⟩

/-- The loop rule of a `for` that has come to its end. -/
theorem foldlM_cases {β : Type*} {f : α → β → Option α} {P : List β → α → Prop}
    (hf : ∀ b l x y, P (b :: l) x → f x b = some y → P l y) {l : List β} {x y : α}
    (h : P l x) (hy : l.foldlM f x = some y) : P [] y := by
  induction l generalizing x with
  | nil => exact Option.some.inj hy ▸ h
  | cons b l ih =>
      rw [List.foldlM_cons] at hy
      rcases Option.bind_eq_some_iff.mp hy with ⟨z, hz, hy⟩
      exact ih (hf b l x z h hz) hy

/-- Two loops over the same list whose bodies keep a relation. -/
theorem foldlM_matches {γ β : Type*} {f : α → β → Option α} {g : γ → β → Option γ}
    {R : α → γ → Prop} (hf : ∀ b x y x', R x y → f x b = some x' → ∃ y', g y b = some y' ∧ R x' y')
    {l : List β} {x x' : α} {y : γ} (h : R x y) (hx : l.foldlM f x = some x') :
    ∃ y', l.foldlM g y = some y' ∧ R x' y' := by
  induction l generalizing x y with
  | nil => exact ⟨y, rfl, Option.some.inj hx ▸ h⟩
  | cons b l ih =>
      rw [List.foldlM_cons] at hx
      rcases Option.bind_eq_some_iff.mp hx with ⟨x₁, hx₁, hx⟩
      rcases hf b x y x₁ h hx₁ with ⟨y₁, hy₁, h₁⟩
      rcases ih h₁ hx with ⟨y', hy', h'⟩
      exact ⟨y', by rw [List.foldlM_cons, hy₁]; exact hy', h'⟩

end CellNet.Library
