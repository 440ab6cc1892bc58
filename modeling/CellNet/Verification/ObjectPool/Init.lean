import CellNet.Model.CellObjectPool
import CellNet.Verification.Memory.Init

/-! What `initPool` builds: a block that is cut into nodes, and a list that leads through as many
of them as an `int` counts. -/

namespace CellNet

open Library

namespace CellObjectPool

variable {pBuf size total count j n : ℕ} {x y : Links}

/-! ### The loop -/

/-- The node `n` of a block that is cut into nodes of `size` bytes. -/
def nodeAt (pBuf size n : ℕ) : ℕ := pBuf + n * size

/-- The nodes up to the number `j` are written and linked. -/
structure Linked (pBuf size j : ℕ) (x : Links) : Prop where
  last : x.2 = nodeAt pBuf size j
  node : ∀ i ≤ j, x.1 (nodeAt pBuf size i) =
    some ⟨if i < j then some (nodeAt pBuf size (i + 1)) else none, i, 0, true⟩
  other : ∀ q, (∀ i ≤ j, q ≠ nodeAt pBuf size i) → x.1 q = none

theorem nodeAt_inj {i : ℕ} (hs : 0 < size) (h : nodeAt pBuf size i = nodeAt pBuf size j) :
    i = j :=
  MemoryMgr.block_inj hs h

theorem write_inside {nodes : ℕ → Option NodeHeader} {p : ℕ} {h : NodeHeader} (hl : pBuf ≤ p)
    (hu : p + sizeofNodeHeader ≤ pBuf + total) :
    write pBuf total nodes p h = some (Function.update nodes p (some h)) :=
  if_pos ⟨hl, hu⟩

theorem toSize_natCast (hn : n < 2 ^ 64) : toSize n = n := by
  unfold toSize
  omega

/-- One more node. -/
theorem Linked.linkNode (h : Linked pBuf size j x) (hs : 0 < size)
    (hfit : (j + 1) * size + sizeofNodeHeader ≤ total) (ht : total < 2 ^ 64) :
    ∃ y, linkNode pBuf size total x (j + 1 : ℕ) = some y ∧ Linked pBuf size (j + 1) y := by
  have hle : j * size ≤ (j + 1) * size := Nat.mul_le_mul_right _ (by omega)
  have hnew : toSize (((j + 1 : ℕ) : ℤ) * size) = (j + 1) * size := by
    rw [← Nat.cast_mul]
    exact toSize_natCast (by omega)
  have hne : nodeAt pBuf size j ≠ nodeAt pBuf size (j + 1) := fun he => by
    have := nodeAt_inj hs he
    omega
  have hin : ∀ i ≤ j + 1, pBuf ≤ nodeAt pBuf size i ∧
      nodeAt pBuf size i + sizeofNodeHeader ≤ pBuf + total := by
    intro i hi
    have hmul : i * size ≤ (j + 1) * size := Nat.mul_le_mul_right _ hi
    unfold nodeAt
    omega
  have hlast : Function.update x.1 (nodeAt pBuf size (j + 1))
      (some ⟨none, ((j + 1 : ℕ) : ℤ), 0, true⟩) (nodeAt pBuf size j) =
      some ⟨none, j, 0, true⟩ := by
    rw [Function.update_of_ne hne, h.node j le_rfl, if_neg (lt_irrefl _)]
  refine ⟨(Function.update (Function.update x.1 (nodeAt pBuf size (j + 1))
    (some ⟨none, (j + 1 : ℕ), 0, true⟩)) (nodeAt pBuf size j)
    (some ⟨some (nodeAt pBuf size (j + 1)), j, 0, true⟩), nodeAt pBuf size (j + 1)), ?_, ?_⟩
  · unfold CellObjectPool.linkNode
    simp only [hnew, h.last, Option.bind_eq_bind]
    rw [show pBuf + (j + 1) * size = nodeAt pBuf size (j + 1) from rfl,
      write_inside (hin _ le_rfl).1 (hin _ le_rfl).2, Option.bind_some, hlast, Option.bind_some,
      write_inside (hin j (by omega)).1 (hin j (by omega)).2, Option.bind_some]
  · constructor
    case last => rfl
    case node =>
      intro i hi
      dsimp only
      by_cases hij : i = j
      · subst hij
        rw [Function.update_self, if_pos (Nat.lt_succ_self i)]
      · rw [Function.update_of_ne fun he => hij (nodeAt_inj hs he)]
        by_cases hlt : i = j + 1
        · subst hlt
          rw [Function.update_self, if_neg (lt_irrefl _)]
        · rw [Function.update_of_ne fun he => hlt (nodeAt_inj hs he), h.node i (by omega),
            if_pos (by omega), if_pos (by omega)]
    case other =>
      intro q hq
      dsimp only
      rw [Function.update_of_ne (hq j (by omega)), Function.update_of_ne (hq (j + 1) le_rfl)]
      exact h.other q fun i hi => hq i (by omega)

/-- The loop links as many nodes as there are, or as an `int` counts. -/
theorem Linked.linkNodes {nPoolSize : ℕ} (h : Linked pBuf size j x) (hs : 0 < size)
    (hj : j + 1 ≤ count) (hc : count = min nPoolSize (2 ^ 31))
    (hfit : (count - 1) * size + sizeofNodeHeader ≤ total) (ht : total < 2 ^ 64)
    (hN : nPoolSize ≤ 2 ^ 64 - 2 ^ 31) {fuel : ℕ} (hfuel : count ≤ fuel + j) :
    ∃ y, linkNodes pBuf size total nPoolSize fuel (wrap32 (j + 1 : ℕ)) x = some y ∧
      Linked pBuf size (count - 1) y := by
  induction fuel generalizing j x with
  | zero => omega
  | succ fuel ih =>
      unfold CellObjectPool.linkNodes
      by_cases hlt : j + 1 < count
      · have hw : wrap32 (j + 1 : ℕ) = (j + 1 : ℕ) := wrap32_eq (by omega) (by omega)
        have hmul : (j + 1) * size ≤ (count - 1) * size := Nat.mul_le_mul_right _ (by omega)
        have hnode : (j + 1) * size + sizeofNodeHeader ≤ total := by omega
        obtain ⟨y, hy, hly⟩ := h.linkNode hs hnode ht
        have hnext : ((j + 1 : ℕ) : ℤ) + 1 = (j + 1 + 1 : ℕ) := (Nat.cast_succ _).symm
        rw [hw, toSize_natCast (by omega), if_pos (by omega), hy, Option.bind_eq_bind,
          Option.bind_some, hnext]
        exact ih hly (by omega) (by omega)
      · have hend : ¬ toSize (wrap32 (j + 1 : ℕ)) < nPoolSize := by
          by_cases hint : j + 1 = 2147483648
          · have hover : toSize (wrap32 (2147483648 : ℕ)) = 18446744071562067968 := by decide
            rw [hint, hover]
            omega
          · have hw : wrap32 (j + 1 : ℕ) = (j + 1 : ℕ) := wrap32_eq (by omega) (by omega)
            rw [hw, toSize_natCast (by omega)]
            omega
        obtain rfl : j = count - 1 := by omega
        rw [if_neg hend]
        exact ⟨x, rfl, h⟩

/-! ### The pool -/

/-- There is a node, and the block of the pool is no larger than an object may be. -/
structure Fits (sizeofType nPoolSize : ℕ) : Prop where
  nonempty : 1 ≤ nPoolSize
  total : nPoolSize * (sizeofType + sizeofNodeHeader) < 2 ^ 63

/-- The nodes that the loop links. -/
def linked (nPoolSize : ℕ) : ℕ := min nPoolSize (2 ^ 31)

variable {sizeofType nPoolSize : ℕ}

theorem Fits.realSize (h : Fits sizeofType nPoolSize) :
    realSize sizeofType = sizeofType + sizeofNodeHeader := by
  have hn := h.nonempty
  have ht := h.total
  have hle : sizeofType + sizeofNodeHeader ≤ nPoolSize * (sizeofType + sizeofNodeHeader) :=
    Nat.le_mul_of_pos_left _ hn
  exact Nat.mod_eq_of_lt (by omega)

theorem Fits.totalSize (h : Fits sizeofType nPoolSize) :
    totalSize sizeofType nPoolSize = nPoolSize * (sizeofType + sizeofNodeHeader) := by
  have ht := h.total
  unfold CellObjectPool.totalSize
  rw [h.realSize]
  exact Nat.mod_eq_of_lt (by omega)

theorem Fits.linked_pos (h : Fits sizeofType nPoolSize) : 1 ≤ linked nPoolSize := by
  have hn := h.nonempty
  unfold linked
  omega

theorem Fits.initPool (h : Fits sizeofType nPoolSize) (pBuf : ℕ) :
    ∃ x, initPool sizeofType nPoolSize pBuf = some ⟨some pBuf, pBuf, x.1,
        Function.update (fun _ => none) pBuf
          (some (nPoolSize * (sizeofType + sizeofNodeHeader)))⟩ ∧
      Linked pBuf (sizeofType + sizeofNodeHeader) (linked nPoolSize - 1) x := by
  have hn := h.nonempty
  have ht := h.total
  have hM := h.linked_pos
  have hMle : linked nPoolSize ≤ nPoolSize := min_le_left _ _
  have hsize : 16 ≤ sizeofType + sizeofNodeHeader := Nat.le_add_left _ _
  have hle : 16 * nPoolSize ≤ nPoolSize * (sizeofType + sizeofNodeHeader) := by
    rw [Nat.mul_comm]
    exact Nat.mul_le_mul_left _ hsize
  have hfit : (linked nPoolSize - 1) * (sizeofType + sizeofNodeHeader) + sizeofNodeHeader ≤
      nPoolSize * (sizeofType + sizeofNodeHeader) := by
    have hmul : (linked nPoolSize - 1 + 1) * (sizeofType + sizeofNodeHeader) ≤
        nPoolSize * (sizeofType + sizeofNodeHeader) := Nat.mul_le_mul_right _ (by omega)
    rw [Nat.add_mul, Nat.one_mul] at hmul
    omega
  have hwrite : write pBuf (nPoolSize * (sizeofType + sizeofNodeHeader)) (fun _ => none) pBuf
      ⟨none, 0, 0, true⟩ = some _ :=
    write_inside le_rfl (by unfold sizeofNodeHeader at *; omega)
  have h₀ : Linked pBuf (sizeofType + sizeofNodeHeader) 0
      (Function.update (fun _ => none) pBuf (some ⟨none, 0, 0, true⟩), pBuf) := by
    constructor
    case last => simp [nodeAt]
    case node =>
      intro i hi
      obtain rfl := Nat.le_zero.mp hi
      simp [nodeAt]
    case other =>
      intro q hq
      have hne : q ≠ pBuf := by simpa [nodeAt] using hq 0 le_rfl
      dsimp only
      rw [Function.update_of_ne hne]
  have hfuel : linked nPoolSize ≤ 2 ^ 32 + 0 := by
    unfold linked
    omega
  obtain ⟨x, hx, hl⟩ := h₀.linkNodes (by omega) hM rfl hfit (by omega) (by omega) hfuel
  refine ⟨x, ?_, hl⟩
  unfold CellObjectPool.initPool
  dsimp only
  rw [h.realSize, h.totalSize, if_pos ht, hwrite, Option.bind_eq_bind, Option.bind_some]
  have h₁ : wrap32 (0 + 1 : ℕ) = 1 := by decide
  rw [h₁] at hx
  rw [hx, Option.bind_eq_bind, Option.bind_some]

end CellObjectPool

end CellNet
