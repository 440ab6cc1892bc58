import CellNet.Library.Transition
import Mathlib.Algebra.BigOperators.Group.Finset.Basic
import Mathlib.Order.Interval.Finset.Nat

/-! A row of stations through which amounts move forward, and the rule for a run that comes past
one station after the other, whatever else it does in between. -/

namespace CellNet.Library

open Finset

/-- `n` moves from station `i` to the next one. -/
structure MovesOn (p q : ℕ → ℕ) (i n : ℕ) : Prop where
  left : q i + n = p i
  reached : q (i + 1) = p (i + 1) + n
  other : ∀ j, j ≠ i → j ≠ i + 1 → q j = p j

/-- The first `k` stations are empty. -/
def Past (k : ℕ) (p : ℕ → ℕ) : Prop := ∀ j < k, p j = 0

variable {p q : ℕ → ℕ} {i k m n : ℕ}

theorem Past.succ (h : Past k p) (hk : p k = 0) : Past (k + 1) p := by
  intro j hj
  by_cases hjk : j = k
  · rw [hjk]
    exact hk
  · exact h j (by omega)

theorem Past.movesOn (h : Past k p) (hm : MovesOn p q i n) : Past k q := by
  intro j hj
  by_cases hi : i < k
  · have hzero := h i hi
    have hleft := hm.left
    by_cases hji : j = i
    · rw [hji]
      omega
    · by_cases hjs : j = i + 1
      · have hnext := h j hj
        rw [hjs] at hnext ⊢
        rw [hm.reached, hnext]
        omega
      · rw [hm.other j hji hjs]
        exact h j hj
  · rw [hm.other j (by omega) (by omega)]
    exact h j hj

/-- Nothing of it is lost. -/
theorem MovesOn.sum_eq (h : MovesOn p q i n) (hi : i + 1 < m) :
    ∑ j ∈ range m, q j = ∑ j ∈ range m, p j := by
  have hprefix : ∀ m, ∑ j ∈ range m, q j + (if m = i + 1 then n else 0) = ∑ j ∈ range m, p j := by
    intro m
    induction m with
    | zero => simp
    | succ m ih =>
        rw [sum_range_succ, sum_range_succ]
        by_cases hm : m = i
        · have hleft := h.left
          subst hm
          rw [if_neg (by omega)] at ih
          rw [if_pos rfl]
          omega
        · rw [if_neg (by omega : ¬ m + 1 = i + 1)]
          by_cases hs : m = i + 1
          · have hreached := h.reached
            subst hs
            rw [if_pos rfl] at ih
            omega
          · rw [if_neg hs] at ih
            rw [h.other m hm hs]
            omega
  have hall := hprefix m
  rw [if_neg (by omega)] at hall
  exact hall

theorem Past.sum_eq_zero (h : Past k p) : ∑ j ∈ range k, p j = 0 :=
  Finset.sum_eq_zero fun j hj => h j (mem_range.mp hj)

/-- Every step keeps what was reached, and the labels `ms`, met in order, lead on. A path on which
they all occur comes to the end, unless it meets `Q` on its way. -/
theorem System.Path.stages {σ ι : Type*} {S : System σ ι} {P : ℕ → σ → Prop} {Q : σ → Prop}
    {ms : List ι} (hkeep : ∀ k s l t, P k s → ¬ Q s → S.step s l t → P k t)
    (hnext : ∀ k s l t, ms[k]? = some l → P k s → ¬ Q s → S.step s l t → P (k + 1) t)
    {s t : σ} {ls : List ι} (h : S.Path s ls t) {k : ℕ} (hk : k ≤ ms.length)
    (hs : (ms.drop k).Sublist ls) (hp : P k s) :
    P ms.length t ∨ ∃ ls₁ ls₂ u, ls = ls₁ ++ ls₂ ∧ S.Path s ls₁ u ∧ Q u := by
  induction h generalizing k with
  | nil s =>
      have hnil : ms.drop k = [] := List.sublist_nil.mp hs
      have hle := List.drop_eq_nil_iff.mp hnil
      obtain rfl : k = ms.length := by omega
      exact .inl hp
  | @cons s t u l ls hl hpath ih =>
      by_cases hq : Q s
      · exact .inr ⟨[], l :: ls, s, rfl, .nil s, hq⟩
      · have hfurther : P ms.length u ∨
            ∃ ls₁ ls₂ v, ls = ls₁ ++ ls₂ ∧ S.Path t ls₁ v ∧ Q v := by
          rcases List.sublist_cons_iff.mp hs with hs | ⟨rest, hdrop, hs⟩
          · exact ih hk hs (hkeep k s l t hp hq hl)
          · have hlt : k < ms.length := by
              by_contra hge
              rw [List.drop_eq_nil_iff.mpr (by omega)] at hdrop
              cases hdrop
            rw [List.drop_eq_getElem_cons hlt] at hdrop
            obtain ⟨hget, rfl⟩ := List.cons.inj hdrop
            have hlabel : ms[k]? = some l := by rw [List.getElem?_eq_getElem hlt, hget]
            exact ih hlt hs (hnext k s l t hlabel hp hq hl)
        rcases hfurther with hend | ⟨ls₁, ls₂, v, rfl, hv, hq⟩
        · exact .inl hend
        · exact .inr ⟨l :: ls₁, ls₂, v, rfl, .cons hl hv, hq⟩

end CellNet.Library
