import CellNet.Verification.Memory.Moves

/-! A pool that is set up: its region is cut into blocks, and the list leads through them in
their order. -/

namespace CellNet

open Library

namespace MemoryMgr

variable {m : MemoryMgr} {A : Arena} {free : ℕ → List ℕ} {k : ℕ} {a : MemoryAlloc} {S : Slab}

/-- The blocks up to the number `j` are written and linked; `pTemp1` is the last of them. -/
structure Linked (k : ℕ) (S : Slab) (blocks : ℕ → Option MemoryBlock) (j : ℕ)
    (x : (ℕ → Option MemoryBlock) × ℕ) : Prop where
  last : x.2 = S.buf + j * S.size
  block : ∀ i ≤ j, ∃ nID, x.1 (S.buf + i * S.size) =
    some ⟨nID, 0, some k, if i < j then some (S.buf + (i + 1) * S.size) else none, true⟩
  other : ∀ q, (∀ i ≤ j, q ≠ S.buf + i * S.size) → x.1 q = blocks q

theorem block_inj {buf size i j : ℕ} (hs : 0 < size) (h : buf + i * size = buf + j * size) :
    i = j :=
  Nat.eq_of_mul_eq_mul_right hs (Nat.add_left_cancel h)

theorem Linked.linkBlock {blocks : ℕ → Option MemoryBlock} {j : ℕ}
    {x : (ℕ → Option MemoryBlock) × ℕ} (h : Linked k S blocks j x) (hs : 0 < S.size)
    (hfit : (j + 1) * S.size < 2 ^ 64) :
    Linked k S blocks (j + 1) (linkBlock k S.buf S.size x (j + 1)) := by
  have hsize : size_t ((j + 1) * S.size) = (j + 1) * S.size := Nat.mod_eq_of_lt hfit
  have hlast : S.buf + j * S.size ≠ S.buf + (j + 1) * S.size := fun he => by
    have := block_inj hs he
    omega
  unfold MemoryMgr.linkBlock
  rw [hsize, h.last]
  constructor
  case last => rfl
  case block =>
    intro i hi
    dsimp only
    by_cases hij : i = j
    · subst hij
      obtain ⟨nID, hb⟩ := h.block i le_rfl
      refine ⟨nID, ?_⟩
      rw [Function.update_self, Function.update_of_ne hlast, hb, if_pos (Nat.lt_succ_self i)]
      rfl
    · rw [Function.update_of_ne fun he => hij (block_inj hs he)]
      by_cases hnew : i = j + 1
      · subst hnew
        rw [Function.update_self, if_neg (lt_irrefl _)]
        exact ⟨_, rfl⟩
      · obtain ⟨nID, hb⟩ := h.block i (by omega)
        refine ⟨nID, ?_⟩
        rw [Function.update_of_ne fun he => hnew (block_inj hs he), hb, if_pos (by omega),
          if_pos (by omega)]
  case other =>
    intro q hq
    dsimp only
    rw [Function.update_of_ne (hq j (by omega)), Function.update_of_ne (hq (j + 1) le_rfl)]
    exact h.other q fun i hi => hq i (by omega)

/-- The whole loop. -/
theorem linked_foldl (blocks : ℕ → Option MemoryBlock) (hs : 0 < S.size) {j : ℕ}
    (hfit : (j + 1) * S.size < 2 ^ 64) :
    Linked k S blocks j ((List.range' 1 j).foldl (linkBlock k S.buf S.size)
      (Function.update blocks S.buf (some ⟨0, 0, some k, none, true⟩), S.buf)) := by
  induction j with
  | zero =>
      constructor
      case last => simp
      case block =>
        intro i hi
        obtain rfl := Nat.le_zero.mp hi
        refine ⟨0, ?_⟩
        simp
      case other =>
        intro q hq
        have h₀ := hq 0 le_rfl
        rw [Nat.zero_mul, Nat.add_zero] at h₀
        exact Function.update_of_ne h₀ ..
  | succ j ih =>
      have hle : (j + 1) * S.size ≤ (j + 1 + 1) * S.size := Nat.mul_le_mul_right _ (by omega)
      have hlt := lt_of_le_of_lt hle hfit
      rw [List.range'_1_concat, List.foldl_append, List.foldl_cons, List.foldl_nil,
        Nat.add_comm 1 j]
      exact (ih hlt).linkBlock hs hlt

/-- The pool `k` after `initMemory`, with the memory `S`. -/
def setUp (m : MemoryMgr) (k : ℕ) (a : MemoryAlloc) (S : Slab) : MemoryMgr :=
  (m.give S.buf (S.size * S.count)).initBlocks k a S.buf

theorem malloc_eq_some {answer : ℕ → Option ℕ} {n p : ℕ} (h : answer n = some p) :
    m.malloc answer n = some (m.give p n, p) := by
  rw [MemoryMgr.malloc, h, Option.map_some]

section

variable (hsize : S.size = a.nSize + sizeofMemoryBlock) (hcount : S.count = a.nBlockSize)
  (hpos : 0 < S.count) (hfit : S.size * S.count < 2 ^ 64)

include hsize hcount hpos hfit

/-- The sizes that `initMemory` computes when none overflows. -/
theorem sizes_of_fit : size_t (a.nSize + sizeofMemoryBlock) = S.size ∧
    a.bufSize = S.size * S.count := by
  have hlt : a.nSize + sizeofMemoryBlock < 2 ^ 64 := by
    rw [← hsize]
    exact lt_of_le_of_lt (Nat.le_mul_of_pos_right _ hpos) hfit
  have h₁ : size_t (a.nSize + sizeofMemoryBlock) = S.size := by
    rw [hsize]
    exact Nat.mod_eq_of_lt hlt
  refine ⟨h₁, ?_⟩
  rw [MemoryAlloc.bufSize, h₁, ← hcount]
  exact Nat.mod_eq_of_lt hfit

theorem setUp_eq (m : MemoryMgr) (k : ℕ) : m.setUp k a S = { m with
      allocs := m.allocs.set k { a with pBuf := some S.buf, pHeader := some S.buf }
      regions := Function.update m.regions S.buf (some (S.size * S.count))
      blocks := ((List.range' 1 (S.count - 1)).foldl (linkBlock k S.buf S.size)
        (Function.update m.blocks S.buf (some ⟨0, 0, some k, none, true⟩), S.buf)).1 } := by
  unfold setUp initBlocks
  simp only [(sizes_of_fit hsize hcount hpos hfit).1, ← hcount]
  rfl

/-- What `initMemory` does when no size overflows. -/
theorem initMemory_eq_some (m : MemoryMgr) (k : ℕ) {answer : ℕ → Option ℕ}
    (h : answer a.bufSize = some S.buf) : m.initMemory k a answer = some (m.setUp k a S) := by
  rw [MemoryMgr.initMemory, malloc_eq_some h, Option.map_some,
    (sizes_of_fit hsize hcount hpos hfit).2]
  rfl

end

/-- The blocks of a region in their order. -/
def cells (S : Slab) : List ℕ :=
  (List.range S.count).map fun n => S.buf + n * S.size

theorem mem_cells {q : ℕ} : q ∈ cells S ↔ S.Cell q := by
  simp [cells, Slab.Cell, eq_comm]

theorem nodup_cells (hs : 0 < S.size) : (cells S).Nodup := by
  apply List.Pairwise.map _ _ List.nodup_range
  intro i j hij he
  exact hij (block_inj hs he)

/-- What lies in the memory of the pool after the loop. -/
theorem Linked.cell {blocks : ℕ → Option MemoryBlock} {x : (ℕ → Option MemoryBlock) × ℕ} {q : ℕ}
    (h : Linked k S blocks (S.count - 1) x) (hq : S.Cell q) :
    ∃ nID pNext, x.1 q = some ⟨nID, 0, some k, pNext, true⟩ := by
  obtain ⟨n, hn, rfl⟩ := hq
  obtain ⟨nID, hb⟩ := h.block n (by omega)
  exact ⟨nID, _, hb⟩

theorem Linked.off {blocks : ℕ → Option MemoryBlock} {x : (ℕ → Option MemoryBlock) × ℕ} {q : ℕ}
    (h : Linked k S blocks (S.count - 1) x) (hpos : 0 < S.count) (hq : ¬ S.Cell q) :
    x.1 q = blocks q := by
  apply h.other
  intro i hi he
  exact hq ⟨i, by omega, he⟩

theorem Linked.chain {blocks : ℕ → Option MemoryBlock} {x : (ℕ → Option MemoryBlock) × ℕ}
    (h : Linked k S blocks (S.count - 1) x) (hpos : 0 < S.count) :
    Chain (fun q => (x.1 q).bind MemoryBlock.pNext) (some S.buf) (cells S) := by
  have hfirst : S.buf = S.buf + 0 * S.size := by
    rw [Nat.zero_mul, Nat.add_zero]
  have hlink : ∀ n < S.count, (x.1 (S.buf + n * S.size)).bind MemoryBlock.pNext =
      if n + 1 < S.count then some (S.buf + (n + 1) * S.size) else none := by
    intro n hn
    obtain ⟨nID, hb⟩ := h.block n (by omega)
    have hlt : n < S.count - 1 ↔ n + 1 < S.count := by omega
    simp only [hb, Option.bind_some, hlt]
  have hc : Chain (fun q => (x.1 q).bind MemoryBlock.pNext) (some (S.buf + 0 * S.size)) (cells S) :=
    Chain.of_range (f := fun n => S.buf + n * S.size) hpos hlink
  rwa [← hfirst] at hc

/-- The headers that were there stay, and are none of the new ones. -/
theorem HeadersOk.setUp (h : m.HeadersOk A) (ha : m.allocs[k]? = some a)
    (hnone : a.pBuf = none) (hsize : S.size = a.nSize + sizeofMemoryBlock)
    (hcount : S.count = a.nBlockSize) (hpos : 0 < S.count) (hfit : S.size * S.count < 2 ^ 64)
    (hf : A.regions.Fresh S.buf (S.size * S.count)) (hn : 0 < S.size * S.count) :
    (m.setUp k a S).HeadersOk (A.cut k S hf hn) ∧
      ∃ x, Linked k S m.blocks (S.count - 1) x ∧ (m.setUp k a S).blocks = x.1 ∧
        ∀ q b, m.blocks q = some b → ¬ S.Cell q ∧ x.1 q = some b := by
  have hs : 0 < S.size := Nat.pos_of_mul_pos_right hn
  have hk : A.slab k = none := h.slab_eq_none ha hnone
  have hold : ∀ q b, m.blocks q = some b → ¬ S.Cell q := by
    intro q b hb hc
    obtain ⟨-, len, -, he⟩ := h.header q b hb
    have hcut : (A.cut k S hf hn).Extent b.pAlloc ⟨q, len⟩ := he.cut hk
    have hu := hcut.unique (Arena.cut_new hc) rfl
    rw [hu.1] at he
    obtain ⟨T, hT, -⟩ := he.slab_of_some
    rw [hk] at hT
    cases hT
  have hle : (S.count - 1 + 1) * S.size < 2 ^ 64 := by
    rw [Nat.sub_add_cancel hpos, Nat.mul_comm]
    exact hfit
  have hl := linked_foldl (k := k) m.blocks hs hle
  rw [setUp_eq hsize hcount hpos hfit m k]
  generalize (List.range' 1 (S.count - 1)).foldl _ _ = x at hl ⊢
  refine ⟨?_, x, hl, rfl, fun q b hb => ⟨hold q b hb, (hl.off hpos (hold q b hb)).trans hb⟩⟩
  constructor
  case slab =>
    funext j
    by_cases hj : j = k
    · subst hj
      refine (Function.update_self ..).trans (slab_eq_some.mpr
        ⟨{ a with pBuf := some S.buf, pHeader := some S.buf }, S.buf, ?_, rfl, ?_⟩).symm
      · exact getElem?_set_same ha _
      · obtain ⟨buf, size, count⟩ := S
        obtain rfl := hsize
        obtain rfl := hcount
        rfl
    · refine (Function.update_of_ne hj ..).trans ?_
      rw [h.slab]
      unfold MemoryMgr.slab
      dsimp only
      rw [List.getElem?_set_ne (Ne.symm hj)]
  case regions =>
    exact congrArg (fun r => Function.update r S.buf (some (S.size * S.count))) h.regions
  case header =>
    intro q c hc
    dsimp only at hc
    by_cases hq : S.Cell q
    · obtain ⟨nID, pNext, hb⟩ := hl.cell hq
      obtain rfl := Option.some.inj (hb.symm.trans hc)
      refine ⟨rfl, S.size, ?_, Arena.cut_new hq⟩
      rw [hsize]
      exact Nat.le_add_left _ _
    · rw [hl.off hpos hq] at hc
      obtain ⟨hb, len, hlen, he⟩ := h.header q c hc
      exact ⟨hb, len, hlen, he.cut hk⟩

theorem BlocksOk.setUp (h : m.BlocksOk A free) (ha : m.allocs[k]? = some a)
    (hnone : a.pBuf = none) (hsize : S.size = a.nSize + sizeofMemoryBlock)
    (hcount : S.count = a.nBlockSize) (hpos : 0 < S.count) (hfit : S.size * S.count < 2 ^ 64)
    (hf : A.regions.Fresh S.buf (S.size * S.count)) (hn : 0 < S.size * S.count) :
    (m.setUp k a S).BlocksOk (A.cut k S hf hn) (Function.update free k (cells S)) ∧
      ∀ q b, m.blocks q = some b → ¬ S.Cell q ∧ (m.setUp k a S).blocks q = some b := by
  have hs : 0 < S.size := Nat.pos_of_mul_pos_right hn
  obtain ⟨hok, x, hl, hx, hkeep⟩ :=
    h.headersOk.setUp ha hnone hsize hcount hpos hfit hf hn
  refine ⟨?_, fun q b hb => hx ▸ hkeep q b hb⟩
  constructor
  case slab => exact hok.slab
  case regions => exact hok.regions
  case chain =>
    intro j c hj
    unfold next
    rw [hx]
    rw [setUp_eq hsize hcount hpos hfit m k] at hj
    rcases getElem?_set_cases hj with ⟨rfl, rfl⟩ | ⟨hjk, hj⟩
    · rw [Function.update_self]
      exact hl.chain hpos
    · rw [Function.update_of_ne hjk]
      refine (h.chain j c hj).congr fun q hq => ?_
      obtain ⟨b, hb, -⟩ := h.blank j q hq
      unfold next
      rw [(hkeep q b hb).2, hb]
  case nodup => exact nodup_update h.nodup (nodup_cells hs)
  case blank =>
    intro j q hq
    rw [hx]
    rcases mem_update.mp hq with ⟨rfl, hin⟩ | ⟨-, hin⟩
    · obtain ⟨nID, pNext, hb⟩ := hl.cell (mem_cells.mp hin)
      exact ⟨_, hb, rfl, rfl⟩
    · obtain ⟨b, hb, hbk, hr⟩ := h.blank j q hin
      exact ⟨b, (hkeep q b hb).2, hbk, hr⟩
  case header => exact hok.header

end MemoryMgr

end CellNet
