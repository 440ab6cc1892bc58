import Mathlib.Data.List.Nodup
import Mathlib.Order.Lattice

/-! Finite maps as key-ordered entry lists: the order of iteration is the order of the
keys, and no key occurs twice. -/

namespace CellNet.Library

/-- A map that is iterated in the order of its keys. -/
structure OrderedMap (κ α : Type*) [LT κ] where
  entries : List (κ × α)
  sorted : entries.Pairwise fun a b => a.1 < b.1

namespace OrderedMap

variable {κ α : Type*} [LinearOrder κ]

def empty : OrderedMap κ α := ⟨[], .nil⟩

def size (m : OrderedMap κ α) : ℕ := m.entries.length

def find? (m : OrderedMap κ α) (k : κ) : Option α :=
  (m.entries.find? fun e => decide (e.1 = k)).map Prod.snd

/-- The entries with `a` stored under `k`, in place of what was stored there. -/
def insertEntry (k : κ) (a : α) : List (κ × α) → List (κ × α)
  | [] => [(k, a)]
  | e :: es =>
      if k < e.1 then (k, a) :: e :: es
      else if e.1 < k then e :: insertEntry k a es
      else (k, a) :: es

theorem mem_insertEntry {k : κ} {a : α} {es : List (κ × α)} {x : κ × α}
    (h : x ∈ insertEntry k a es) : x = (k, a) ∨ x ∈ es := by
  induction es with
  | nil => exact .inl (List.mem_singleton.mp h)
  | cons e es ih =>
      rw [insertEntry] at h
      split at h
      · exact List.mem_cons.mp h
      · split at h
        · rcases List.mem_cons.mp h with rfl | h
          · exact .inr (List.mem_cons_self ..)
          · exact (ih h).imp_right (List.mem_cons_of_mem _)
        · exact (List.mem_cons.mp h).imp_right (List.mem_cons_of_mem _)

theorem pairwise_insertEntry (k : κ) (a : α) {es : List (κ × α)}
    (h : es.Pairwise fun a b => a.1 < b.1) :
    (insertEntry k a es).Pairwise fun a b => a.1 < b.1 := by
  induction es with
  | nil => exact List.pairwise_singleton _ _
  | cons e es ih =>
      have hes := h.of_cons
      have he : ∀ x ∈ es, e.1 < x.1 := fun x hx => List.rel_of_pairwise_cons h hx
      rw [insertEntry]
      split
      · next hk =>
          refine .cons (fun x hx => ?_) h
          rcases List.mem_cons.mp hx with rfl | hx
          · exact hk
          · exact lt_trans hk (he x hx)
      · split
        · next hk =>
            refine .cons (fun x hx => ?_) (ih hes)
            rcases mem_insertEntry hx with rfl | hx
            · exact hk
            · exact he x hx
        · next hk hk' =>
            have hke : k = e.1 := le_antisymm (not_lt.mp hk') (not_lt.mp hk)
            exact .cons (fun x hx => hke ▸ he x hx) hes

/-- `m[k] = a`. -/
def insert (m : OrderedMap κ α) (k : κ) (a : α) : OrderedMap κ α :=
  ⟨insertEntry k a m.entries, pairwise_insertEntry k a m.sorted⟩

def erase (m : OrderedMap κ α) (k : κ) : OrderedMap κ α :=
  ⟨m.entries.filter fun e => decide (e.1 ≠ k), m.sorted.filter _⟩

/-! ### What the operations do to the entries -/

theorem keys_nodup (m : OrderedMap κ α) : (m.entries.map Prod.fst).Nodup := by
  refine List.pairwise_map.mpr (m.sorted.imp fun h => ?_)
  exact ne_of_lt h

theorem eq_of_key {m : OrderedMap κ α} {e f : κ × α} (he : e ∈ m.entries) (hf : f ∈ m.entries)
    (h : e.1 = f.1) : e = f :=
  List.inj_on_of_nodup_map m.keys_nodup he hf h

theorem find?_eq_some_iff {m : OrderedMap κ α} {k : κ} {a : α} :
    m.find? k = some a ↔ (k, a) ∈ m.entries := by
  rw [find?, Option.map_eq_some_iff]
  constructor
  · rintro ⟨e, he, rfl⟩
    have hk : e.1 = k := by simpa using List.find?_some he
    exact hk ▸ List.mem_of_find?_eq_some he
  · intro h
    cases hf : m.entries.find? fun e => decide (e.1 = k) with
    | none =>
        have hk := List.find?_eq_none.mp hf (k, a) h
        simp at hk
    | some e =>
        have hk : e.1 = k := by simpa using List.find?_some hf
        exact ⟨e, rfl, by rw [eq_of_key (List.mem_of_find?_eq_some hf) h hk]⟩

theorem mem_erase {m : OrderedMap κ α} {k : κ} {e : κ × α} :
    e ∈ (m.erase k).entries ↔ e ∈ m.entries ∧ e.1 ≠ k := by
  simp [erase]

/-- A map is known by its entries. -/
theorem ext_mem {m m' : OrderedMap κ α} (h : ∀ e, e ∈ m.entries ↔ e ∈ m'.entries) : m = m' := by
  have hp : m.entries.Perm m'.entries :=
    (List.perm_ext_iff_of_nodup m.keys_nodup.of_map m'.keys_nodup.of_map).mpr h
  have he : m.entries = m'.entries := by
    apply hp.eq_of_pairwise _ m.sorted m'.sorted
    intro a b _ _ hab hba
    exact absurd (lt_trans hab hba) (lt_irrefl _)
  cases m
  cases m'
  simpa using he

theorem perm_insertEntry {k : κ} {es : List (κ × α)} (h : ∀ e ∈ es, e.1 ≠ k) (a : α) :
    (insertEntry k a es).Perm ((k, a) :: es) := by
  induction es with
  | nil => exact .refl _
  | cons e es ih =>
      rw [insertEntry]
      split
      · exact .refl _
      · split
        · have ih := ih fun f hf => h f (List.mem_cons_of_mem _ hf)
          exact (ih.cons e).trans (.swap ..)
        · next hk hk' =>
            have hke : e.1 = k := le_antisymm (not_lt.mp hk) (not_lt.mp hk')
            exact absurd hke (h e List.mem_cons_self)

/-- Storing under a new key adds one entry. -/
theorem perm_insert {m : OrderedMap κ α} {k : κ} (h : ∀ e ∈ m.entries, e.1 ≠ k) (a : α) :
    (m.insert k a).entries.Perm ((k, a) :: m.entries) :=
  perm_insertEntry h a

/-- Erasing a key removes its entry and no other. -/
theorem perm_erase {m : OrderedMap κ α} {k : κ} {a : α} (h : (k, a) ∈ m.entries) :
    m.entries.Perm ((k, a) :: (m.erase k).entries) := by
  obtain ⟨l, r, hlr⟩ := List.append_of_mem h
  have hn : (l ++ (k, a) :: r).map Prod.fst |>.Nodup := hlr ▸ m.keys_nodup
  have hl : ∀ e ∈ l ++ r, e.1 ≠ k := by
    intro e he hk
    have hp := (List.perm_middle.map Prod.fst).nodup_iff.mp hn
    exact (List.nodup_cons.mp hp).1 (List.mem_map.mpr ⟨e, he, hk⟩)
  have he : (m.erase k).entries = l ++ r := by
    simp only [erase, hlr, List.filter_append, List.filter_cons, ne_eq, not_true_eq_false,
      decide_false, Bool.false_eq_true, if_false]
    rw [← List.filter_append]
    exact List.filter_eq_self.mpr fun e h => decide_eq_true (hl e h)
  rw [he, hlr]
  exact List.perm_middle

theorem length_insertEntry_le (k : κ) (a : α) (es : List (κ × α)) :
    (insertEntry k a es).length ≤ es.length + 1 := by
  induction es with
  | nil => exact Nat.le_refl 1
  | cons e es ih =>
      rw [insertEntry]
      split
      · exact Nat.le_refl _
      · split
        · exact Nat.succ_le_succ ih
        · exact Nat.le_succ _

theorem entries_insert_ne_nil (m : OrderedMap κ α) (k : κ) (a : α) :
    (m.insert k a).entries ≠ [] := by
  change insertEntry k a m.entries ≠ []
  cases m.entries with
  | nil => exact List.cons_ne_nil _ _
  | cons e es =>
      rw [insertEntry]
      split
      · exact List.cons_ne_nil _ _
      · split <;> exact List.cons_ne_nil _ _

theorem size_insert_le (m : OrderedMap κ α) (k : κ) (a : α) :
    (m.insert k a).size ≤ m.size + 1 :=
  length_insertEntry_le k a m.entries

theorem size_erase {m : OrderedMap κ α} {k : κ} {a : α} (h : m.find? k = some a) :
    (m.erase k).size + 1 = m.size :=
  (perm_erase (find?_eq_some_iff.mp h)).length_eq.symm

end OrderedMap

end CellNet.Library
