import CellNet.Library.Transition
import Mathlib.Data.Nat.Notation

/-! The counting semaphore as such: permits are given by one operation and taken by another,
which has to find one. -/

namespace CellNet.Library

/-- Every permit that was given so far is there or was taken. -/
structure Permits where
  value : ℕ
  given : ℕ
  taken : ℕ
  balance : value + taken = given

namespace Permits

theorem taken_le_given (p : Permits) : p.taken ≤ p.given := by
  have := p.balance
  omega

def none : Permits := ⟨0, 0, 0, rfl⟩

def give (p : Permits) : Permits where
  value := p.value + 1
  given := p.given + 1
  taken := p.taken
  balance := by
    have := p.balance
    omega

def take (p : Permits) (h : 0 < p.value) : Permits where
  value := p.value - 1
  given := p.given
  taken := p.taken + 1
  balance := by
    have := p.balance
    omega

inductive Act where
  | give
  | take
deriving Repr, DecidableEq

inductive Step : Permits → Act → Permits → Prop where
  | give (p : Permits) : Step p .give p.give
  | take (p : Permits) (h : 0 < p.value) : Step p .take (p.take h)

def system : System Permits Act where
  init p := p = none
  step := Step

end Permits

end CellNet.Library
