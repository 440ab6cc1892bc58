import CellNet.Library.Update
import Mathlib.Tactic.Linarith

/-! Spans of memory, and the regions that `malloc` has given out. -/

namespace CellNet.Library

/-- The addresses from `start` on, `size` of them. -/
structure Span where
  start : ℕ
  size : ℕ
deriving Repr, DecidableEq

namespace Span

variable {x x' y y' : Span}

def Apart (x y : Span) : Prop :=
  x.start + x.size ≤ y.start ∨ y.start + y.size ≤ x.start

def Within (x y : Span) : Prop :=
  y.start ≤ x.start ∧ x.start + x.size ≤ y.start + y.size

instance : Decidable (x.Apart y) := by
  unfold Apart
  infer_instance

theorem Apart.symm (h : x.Apart y) : y.Apart x :=
  Or.symm h

theorem Apart.within (h : x.Apart y) (hx : x'.Within x) (hy : y'.Within y) : x'.Apart y' := by
  rcases h with h | h
  · exact .inl ((hx.2.trans h).trans hy.1)
  · exact .inr ((hy.2.trans h).trans hx.1)

theorem Within.refl (x : Span) : x.Within x :=
  ⟨le_rfl, le_rfl⟩

theorem not_apart_self (h : 0 < x.size) : ¬ x.Apart x := by
  intro ha
  rcases ha with ha | ha
  · omega
  · omega

/-- The cell `n` of an array. -/
def cell (start size n : ℕ) : Span :=
  ⟨start + n * size, size⟩

theorem cell_within {start size n count : ℕ} (h : n < count) :
    (cell start size n).Within ⟨start, size * count⟩ := by
  have hle : (n + 1) * size ≤ count * size := Nat.mul_le_mul_right size h
  rw [Nat.add_mul, Nat.one_mul, Nat.mul_comm count] at hle
  constructor
  · exact Nat.le_add_right _ _
  · simp only [cell]
    omega

theorem cell_apart {start size n m : ℕ} (h : n ≠ m) :
    (cell start size n).Apart (cell start size m) := by
  rcases Nat.lt_or_gt_of_ne h with h | h
  · have hle : (n + 1) * size ≤ m * size := Nat.mul_le_mul_right size h
    rw [Nat.add_mul, Nat.one_mul] at hle
    left
    simp only [cell]
    omega
  · have hle : (m + 1) * size ≤ n * size := Nat.mul_le_mul_right size h
    rw [Nat.add_mul, Nat.one_mul] at hle
    right
    simp only [cell]
    omega

end Span

/-- The sizes of the regions, by address. -/
abbrev Regions := ℕ → Option ℕ

namespace Regions

variable {r : Regions} {a b n m : ℕ}

/-- A region that overlaps none of those given out. -/
def Fresh (r : Regions) (a n : ℕ) : Prop :=
  ∀ b m, r b = some m → Span.Apart ⟨a, n⟩ ⟨b, m⟩

/-- A header of `h` bytes at `p` and the `n` bytes behind it lie in a region, and no other header
is among them. -/
def Room (r : Regions) (Header : ℕ → Prop) (h p n : ℕ) : Prop :=
  (∃ a len, r a = some len ∧ Span.Within ⟨p, h + n⟩ ⟨a, len⟩) ∧
    ∀ q, Header q → q ≠ p → Span.Apart ⟨p, h + n⟩ ⟨q, h⟩

structure Ok (r : Regions) : Prop where
  positive : ∀ a n, r a = some n → 0 < n
  apart : ∀ a b n m, r a = some n → r b = some m → a ≠ b → Span.Apart ⟨a, n⟩ ⟨b, m⟩

theorem ok_empty : Ok fun _ => none :=
  ⟨nofun, nofun⟩

theorem Fresh.ne (h : r.Fresh a n) (hr : r.Ok) (hn : 0 < n) (hb : r b = some m) : a ≠ b := by
  rintro rfl
  have hm := hr.positive a m hb
  rcases h a m hb with hs | hs
  · simp only at hs
    omega
  · simp only at hs
    omega

theorem Ok.malloc (h : r.Ok) (hf : r.Fresh a n) (hn : 0 < n) :
    Ok (Function.update r a (some n)) := by
  constructor
  · intro x k hx
    rcases update_cases hx with ⟨-, hx⟩ | ⟨-, hx⟩
    · obtain rfl := Option.some.inj hx
      exact hn
    · exact h.positive x k hx
  · intro x y k l hx hy hne
    rcases update_cases hx with ⟨rfl, hk⟩ | ⟨-, hk⟩
    · obtain rfl := Option.some.inj hk
      rw [Function.update_of_ne hne.symm] at hy
      exact hf y l hy
    · rcases update_cases hy with ⟨rfl, hl⟩ | ⟨-, hl⟩
      · obtain rfl := Option.some.inj hl
        exact (hf x k hk).symm
      · exact h.apart x y k l hk hl hne

theorem Ok.free (h : r.Ok) (a : ℕ) : Ok (Function.update r a none) := by
  have hold : ∀ x k, Function.update r a none x = some k → r x = some k := by
    intro x k hx
    rcases update_cases hx with ⟨-, hx⟩ | ⟨-, hx⟩
    · cases hx
    · exact hx
  constructor
  · intro x k hx
    exact h.positive x k (hold x k hx)
  · intro x y k l hx hy hne
    exact h.apart x y k l (hold x k hx) (hold y l hy) hne

/-- Regions that share a byte are the same. -/
theorem Ok.unique (h : r.Ok) (ha : r a = some n) (hb : r b = some m) {x : ℕ}
    (hxa : a ≤ x ∧ x < a + n) (hxb : b ≤ x ∧ x < b + m) : a = b := by
  by_contra hne
  rcases h.apart a b n m ha hb hne with hs | hs
  · simp only at hs
    omega
  · simp only at hs
    omega

/-- Behind a header at the start of a new region there is no more room than the region has. -/
theorem Room.le_of_fresh {Header : ℕ → Prop} {h p k : ℕ} (hf : r.Fresh p n) (hpos : 0 < h + k)
    (hr : Room (Function.update r p (some n)) Header h p k) : h + k ≤ n := by
  obtain ⟨⟨a, len, ha, hlow, hhigh⟩, -⟩ := hr
  simp only at hlow hhigh
  rcases update_cases ha with ⟨rfl, he⟩ | ⟨hne, ha⟩
  · obtain rfl := Option.some.inj he
    omega
  · rcases hf a len ha with hs | hs
    · simp only at hs
      omega
    · simp only at hs
      omega

end Regions

end CellNet.Library
