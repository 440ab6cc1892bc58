import Mathlib.Data.List.Basic

/-! Objects that are allocated, updated and deleted. An address names one object for
good: it is not given out again, so that a use after the deletion shows. -/

namespace CellNet.Library

/-- The objects ever allocated, in order; a deleted one leaves its place empty. -/
structure Heap (α : Type) where
  objects : List (Option α)
deriving Repr, DecidableEq

namespace Heap

variable {α : Type}

def empty : Heap α := ⟨[]⟩

/-- The object at `p`, where `none` says that there is none, or none any more. -/
def get? (h : Heap α) (p : ℕ) : Option α := h.objects[p]?.join

def next (h : Heap α) : ℕ := h.objects.length

/-- Places `a` at the address `h.next`. -/
def alloc (h : Heap α) (a : α) : Heap α := ⟨h.objects ++ [some a]⟩

/-- Stores `a` at `p`. -/
def set (h : Heap α) (p : ℕ) (a : α) : Heap α := ⟨h.objects.set p (some a)⟩

def free (h : Heap α) (p : ℕ) : Heap α := ⟨h.objects.set p none⟩

theorem lt_next {h : Heap α} {p : ℕ} {a : α} (hp : h.get? p = some a) : p < h.next := by
  by_contra hn
  rw [get?, List.getElem?_eq_none (by simpa [next] using hn)] at hp
  cases hp

@[simp] theorem get?_empty (p : ℕ) : (empty : Heap α).get? p = none := rfl

@[simp] theorem next_alloc (h : Heap α) (a : α) : (h.alloc a).next = h.next + 1 := by
  simp [next, alloc]

@[simp] theorem next_set (h : Heap α) (p : ℕ) (a : α) : (h.set p a).next = h.next := by
  simp [next, set]

@[simp] theorem next_free (h : Heap α) (p : ℕ) : (h.free p).next = h.next := by
  simp [next, free]

theorem get?_alloc (h : Heap α) (a : α) (q : ℕ) :
    (h.alloc a).get? q = if q = h.next then some a else h.get? q := by
  rcases Nat.lt_trichotomy q h.next with hq | rfl | hq
  · rw [if_neg (Nat.ne_of_lt hq), get?, alloc, List.getElem?_append_left hq, get?]
  · simp [get?, alloc, next]
  · have hn : h.objects.length + 1 ≤ q := hq
    rw [if_neg (Nat.ne_of_gt hq), get?, get?, alloc,
      List.getElem?_eq_none (by simpa using hn), List.getElem?_eq_none (by omega)]

theorem get?_set {h : Heap α} {p : ℕ} {b : α} (hp : h.get? p = some b) (a : α) (q : ℕ) :
    (h.set p a).get? q = if q = p then some a else h.get? q := by
  have hlt : p < h.objects.length := lt_next hp
  by_cases hq : q = p
  · simp [get?, set, hq, hlt]
  · simp [get?, set, hq, Ne.symm hq]

theorem get?_free (h : Heap α) (p q : ℕ) :
    (h.free p).get? q = if q = p then none else h.get? q := by
  by_cases hq : q = p
  · by_cases hlt : p < h.objects.length <;> simp [get?, free, hq, hlt]
  · simp [get?, free, hq, Ne.symm hq]

/-- A heap is known by what it has given out and by the objects that live. -/
theorem ext_get? {h h' : Heap α} (hn : h.next = h'.next) (hg : ∀ p, h.get? p = h'.get? p) :
    h = h' := by
  have ho : h.objects = h'.objects := by
    apply List.ext_getElem hn
    intro p hp hp'
    simpa [get?, hp, hp'] using hg p
  cases h
  cases h'
  simpa using ho

theorem free_set (h : Heap α) (p : ℕ) (a : α) : (h.set p a).free p = h.free p := by
  simp [set, free]

end Heap

end CellNet.Library
