import Mathlib.Data.List.Range

/-! Linked lists in memory: the cells that a pointer leads through. -/

namespace CellNet.Library

variable {ι : Type*}

/-- From `head` the pointers lead through the cells `l` to the end of the list. -/
inductive Chain (next : ι → Option ι) : Option ι → List ι → Prop where
  | nil : Chain next none []
  | cons {a l} : Chain next (next a) l → Chain next (some a) (a :: l)

namespace Chain

variable {next next' : ι → Option ι} {head : Option ι} {l l' : List ι} {a : ι}

theorem nil_iff : Chain next none l ↔ l = [] := by
  constructor
  · intro h
    cases h
    rfl
  · rintro rfl
    exact .nil

theorem cons_iff : Chain next (some a) l ↔ ∃ l', l = a :: l' ∧ Chain next (next a) l' := by
  constructor
  · intro h
    cases h with
    | cons h => exact ⟨_, rfl, h⟩
  · intro h
    obtain ⟨l', rfl, h⟩ := h
    exact .cons h

theorem unique (h : Chain next head l) (h' : Chain next head l') : l = l' := by
  induction h generalizing l' with
  | nil => exact (nil_iff.mp h').symm
  | cons _ ih =>
      obtain ⟨l₁, rfl, h₁⟩ := cons_iff.mp h'
      rw [ih h₁]

/-- Only the pointers of the cells in the list matter. -/
theorem congr (h : Chain next head l) (hn : ∀ a ∈ l, next' a = next a) :
    Chain next' head l := by
  induction h with
  | nil => exact .nil
  | @cons a l _ ih =>
      refine .cons ?_
      rw [hn a List.mem_cons_self]
      exact ih fun b hb => hn b (List.mem_cons_of_mem _ hb)

/-- Cells that are linked in the order of their numbers. -/
theorem of_range {f : ℕ → ι} {count : ℕ} (h₀ : 0 < count)
    (hn : ∀ n < count, next (f n) = if n + 1 < count then some (f (n + 1)) else none) :
    Chain next (some (f 0)) ((List.range count).map f) := by
  have hfrom : ∀ k n, n + (k + 1) = count →
      Chain next (some (f n)) ((List.range' n (k + 1)).map f) := by
    intro k
    induction k with
    | zero =>
        intro n hk
        refine .cons ?_
        rw [hn n (by omega), if_neg (by omega)]
        exact .nil
    | succ k ih =>
        intro n hk
        rw [List.range'_succ, List.map_cons]
        refine .cons ?_
        rw [hn n (by omega), if_pos (by omega)]
        exact ih (n + 1) (by omega)
  obtain ⟨k, rfl⟩ := Nat.exists_eq_succ_of_ne_zero h₀.ne'
  rw [List.range_eq_range']
  exact hfrom k 0 (by omega)

end Chain

end CellNet.Library
