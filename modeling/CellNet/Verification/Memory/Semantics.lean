import CellNet.Library.Arena
import CellNet.Library.Chain
import CellNet.Library.Update
import CellNet.Model.MemoryMgr

/-! The representation of the pools: their blocks lie in an arena, and the free blocks of a pool
are the ones that its list leads through. -/

namespace CellNet

open Library

/-- Sizes do not overflow, and there is a block in each pool. -/
structure PoolsFit (pools : List (ℕ × ℕ)) : Prop where
  ne_nil : pools ≠ []
  count : ∀ p ∈ pools, 0 < p.2
  size : ∀ p ∈ pools, (aligned p.1 + sizeofMemoryBlock) * p.2 < 2 ^ 64

theorem le_aligned (n : ℕ) : n ≤ aligned n := by
  unfold aligned
  split
  · omega
  · omega

theorem PoolsFit.aligned_lt {pools : List (ℕ × ℕ)} (h : PoolsFit pools) {p : ℕ × ℕ}
    (hp : p ∈ pools) : aligned p.1 + sizeofMemoryBlock < 2 ^ 64 := by
  have hc := h.count p hp
  have hs := h.size p hp
  exact lt_of_le_of_lt (Nat.le_mul_of_pos_right _ hc) hs

/-! ### The table of sizes -/

/-- A size is served by a pool whose blocks are long enough. -/
theorem init_szAllocs_fits {pools : List (ℕ × ℕ)} {k nBegin n j : ℕ} {szAlloc : ℕ → Option ℕ}
    (h : init_szAllocs k nBegin szAlloc pools n = some j) :
    szAlloc n = some j ∨ ∃ i p, j = k + i ∧ pools[i]? = some p ∧ n ≤ p.1 := by
  induction pools generalizing k nBegin szAlloc with
  | nil => exact .inl h
  | cons p pools ih =>
      rcases ih h with hs | ⟨i, q, rfl, hq, hn⟩
      · unfold init_szAlloc at hs
        split at hs
        · next hr =>
            obtain rfl := Option.some.inj hs
            exact .inr ⟨0, p, rfl, rfl, hr.2⟩
        · exact .inl hs
      · exact .inr ⟨i + 1, q, by omega, hq, hn⟩

theorem init_szAllocs_keeps {pools : List (ℕ × ℕ)} {k nBegin n : ℕ} {szAlloc : ℕ → Option ℕ}
    (h : (szAlloc n).isSome) : (init_szAllocs k nBegin szAlloc pools n).isSome := by
  induction pools generalizing k nBegin szAlloc with
  | nil => exact h
  | cons p pools ih =>
      apply ih
      unfold init_szAlloc
      split
      · rfl
      · exact h

/-- Every size up to that of the last pool is served. -/
theorem init_szAllocs_covers {pools : List (ℕ × ℕ)} {p : ℕ × ℕ} (hl : pools.getLast? = some p)
    {k nBegin n : ℕ} {szAlloc : ℕ → Option ℕ} (hn : n ≤ p.1)
    (h : nBegin ≤ n ∨ (szAlloc n).isSome) :
    (init_szAllocs k nBegin szAlloc pools n).isSome := by
  induction pools generalizing k nBegin szAlloc with
  | nil => cases hl
  | cons q pools ih =>
      by_cases hin : nBegin ≤ n ∧ n ≤ q.1
      · rw [init_szAllocs]
        apply init_szAllocs_keeps
        unfold init_szAlloc
        rw [if_pos hin]
        rfl
      · have hold : q.1 + 1 ≤ n ∨ (init_szAlloc szAlloc nBegin q.1 k n).isSome := by
          unfold init_szAlloc
          rw [if_neg hin]
          rcases h with h | h
          · exact .inl (by omega)
          · exact .inr h
        cases pools with
        | nil =>
            have hq : q = p := Option.some.inj hl
            subst hq
            rcases hold with hold | hold
            · omega
            · exact hold
        | cons q' pools => exact ih (by rwa [List.getLast?_cons_cons] at hl) hold

namespace MemoryMgr

variable {pools : List (ℕ × ℕ)} {m m' : MemoryMgr} {k p : ℕ} {a : MemoryAlloc} {b : MemoryBlock}

/-! ### What never changes -/

/-- The sizes are those that the manager was constructed with. -/
structure Sizes (pools : List (ℕ × ℕ)) (m : MemoryMgr) : Prop where
  allocs : m.allocs.map (fun a => (a.nSize, a.nBlockSize)) =
    pools.map fun p => (size_t (aligned p.1), p.2)
  szAlloc : m.szAlloc = init_szAllocs 0 0 (fun _ => none) pools
  maxMemorySize : m.maxMemorySize = (pools.getLast?.map Prod.fst).getD 0

theorem new_sizes (pools : List (ℕ × ℕ)) : (new pools).Sizes pools := by
  refine ⟨?_, rfl, rfl⟩
  simp only [new, List.map_map]
  rfl

theorem Sizes.set (h : m.Sizes pools) (ha : m.allocs[k]? = some a) (pBuf pHeader : Option ℕ) :
    Sizes pools { m with
      allocs := m.allocs.set k { a with pBuf, pHeader } } := by
  refine ⟨?_, h.szAlloc, h.maxMemorySize⟩
  rw [List.map_set, ← h.allocs]
  apply List.ext_getElem?
  intro i
  rw [List.getElem?_set]
  split
  · next hik =>
      subst hik
      have hlt : k < m.allocs.length := (List.getElem?_eq_some_iff.mp ha).1
      rw [List.length_map, if_pos hlt, List.getElem?_map, ha]
      rfl
  · rfl

/-- A pool has the sizes of its template arguments, and nothing overflows. -/
theorem Sizes.alloc (h : m.Sizes pools) (hp : PoolsFit pools) (ha : m.allocs[k]? = some a) :
    ∃ p, pools[k]? = some p ∧ a.nSize = aligned p.1 ∧ a.nBlockSize = p.2 ∧ 0 < p.2 ∧
      (aligned p.1 + sizeofMemoryBlock) * p.2 < 2 ^ 64 := by
  have hk := congrArg (fun l => l[k]?) h.allocs
  simp only [List.getElem?_map, ha, Option.map_some] at hk
  obtain ⟨p, hpk, he⟩ := Option.map_eq_some_iff.mp hk.symm
  obtain ⟨hs, hc⟩ := Prod.mk.inj he
  have hmem := List.mem_of_getElem? hpk
  refine ⟨p, hpk, ?_, hc.symm, hp.count p hmem, hp.size p hmem⟩
  rw [← hs]
  have hlt := hp.aligned_lt hmem
  exact Nat.mod_eq_of_lt (by omega)

theorem Sizes.alloc_of_pool (h : m.Sizes pools) (hp : PoolsFit pools) {q : ℕ × ℕ}
    (hq : pools[k]? = some q) : ∃ a, m.allocs[k]? = some a ∧ a.nSize = aligned q.1 := by
  have hk := congrArg (fun l => l[k]?) h.allocs
  simp only [List.getElem?_map, hq, Option.map_some] at hk
  obtain ⟨a, ha, -⟩ := Option.map_eq_some_iff.mp hk
  obtain ⟨p, hpk, hs, -⟩ := h.alloc hp ha
  obtain rfl := Option.some.inj (hq.symm.trans hpk)
  exact ⟨a, ha, hs⟩

/-- Every size up to `maxMemorySize` has a pool, whose blocks are long enough. -/
theorem Sizes.served (h : m.Sizes pools) (hp : PoolsFit pools) {nSize : ℕ}
    (hn : nSize ≤ m.maxMemorySize) :
    ∃ k a, m.szAlloc nSize = some k ∧ m.allocs[k]? = some a ∧ nSize ≤ a.nSize := by
  have hlast := List.getLast?_eq_some_getLast hp.ne_nil
  rw [h.maxMemorySize, hlast] at hn
  have hsome : (init_szAllocs 0 0 (fun _ => none) pools nSize).isSome :=
    init_szAllocs_covers hlast hn (.inl (Nat.zero_le _))
  obtain ⟨k, hk⟩ := Option.isSome_iff_exists.mp hsome
  rcases init_szAllocs_fits hk with hnone | ⟨i, q, rfl, hq, hle⟩
  · cases hnone
  · rw [Nat.zero_add] at hk
    obtain ⟨a, ha, hs⟩ := h.alloc_of_pool hp hq
    refine ⟨i, a, h.szAlloc ▸ hk, ha, ?_⟩
    rw [hs]
    exact hle.trans (le_aligned _)

/-! ### Blocks and lists -/

/-- The region of the pool `k`, if it is set up. -/
def slab (m : MemoryMgr) (k : ℕ) : Option Slab := do
  let a ← m.allocs[k]?
  let buf ← a.pBuf
  some ⟨buf, a.nSize + sizeofMemoryBlock, a.nBlockSize⟩

/-- `_pNext` of the block at `p`. -/
def next (m : MemoryMgr) (p : ℕ) : Option ℕ :=
  (m.blocks p).bind MemoryBlock.pNext

/-- The list of the pool `k` leads through the blocks `l`. -/
def FreeList (m : MemoryMgr) (k : ℕ) (l : List ℕ) : Prop :=
  ∃ a, m.allocs[k]? = some a ∧ Chain m.next a.pHeader l

theorem header_eq_some {pMem : ℕ} :
    m.header pMem = some (p, b) ↔ pMem = p + sizeofMemoryBlock ∧ m.blocks p = some b := by
  unfold header
  split
  · next hle =>
      rw [Option.map_eq_some_iff]
      constructor
      · intro h
        obtain ⟨c, hc, he⟩ := h
        obtain ⟨rfl, rfl⟩ := Prod.mk.inj he
        exact ⟨by omega, hc⟩
      · intro h
        obtain ⟨rfl, hb⟩ := h
        rw [Nat.add_sub_cancel]
        exact ⟨b, hb, rfl⟩
  · next hle =>
      constructor
      · nofun
      · intro h
        omega

theorem slab_eq_some {S : Slab} : m.slab k = some S ↔ ∃ a buf, m.allocs[k]? = some a ∧
    a.pBuf = some buf ∧ S = ⟨buf, a.nSize + sizeofMemoryBlock, a.nBlockSize⟩ := by
  unfold slab
  constructor
  · intro h
    obtain ⟨a, ha, h⟩ := Option.bind_eq_some_iff.mp h
    obtain ⟨buf, hb, h⟩ := Option.bind_eq_some_iff.mp h
    exact ⟨a, buf, ha, hb, (Option.some.inj h).symm⟩
  · intro h
    obtain ⟨a, buf, ha, hb, rfl⟩ := h
    simp [ha, hb]

/-- The list of a pool may change without its region. -/
theorem slab_setHeader (ha : m.allocs[k]? = some a) (pHeader : Option ℕ) :
    slab { m with allocs := m.allocs.set k { a with pHeader } } = m.slab := by
  funext j
  unfold slab
  dsimp only
  rw [List.getElem?_set]
  split
  · next hkj =>
      subst hkj
      have hlt : k < m.allocs.length := (List.getElem?_eq_some_iff.mp ha).1
      rw [if_pos hlt, ha]
      rfl
  · rfl

/-- The headers stand where the extents of the arena `A` start, and each knows its pool. -/
structure HeadersOk (m : MemoryMgr) (A : Arena) : Prop where
  slab : A.slab = m.slab
  regions : A.regions = m.regions
  header : ∀ p b, m.blocks p = some b → b.bPool = b.pAlloc.isSome ∧
    ∃ len, sizeofMemoryBlock ≤ len ∧ A.Extent b.pAlloc ⟨p, len⟩

namespace HeadersOk

variable {A : Arena} {S : Slab}

theorem slab_eq_none (h : m.HeadersOk A) (ha : m.allocs[k]? = some a) (hb : a.pBuf = none) :
    A.slab k = none := by
  rw [h.slab, Option.eq_none_iff_forall_ne_some]
  intro S hS
  obtain ⟨c, buf, hc, hbuf, -⟩ := slab_eq_some.mp hS
  obtain rfl := Option.some.inj (ha.symm.trans hc)
  rw [hb] at hbuf
  cases hbuf

/-- A pool that is set up has its record. -/
theorem alloc (h : m.HeadersOk A) (hs : A.slab k = some S) :
    ∃ a, m.allocs[k]? = some a ∧ a.pBuf = some S.buf ∧
      S.size = a.nSize + sizeofMemoryBlock ∧ S.count = a.nBlockSize := by
  rw [h.slab] at hs
  obtain ⟨a, buf, ha, hb, rfl⟩ := slab_eq_some.mp hs
  exact ⟨a, ha, hb, rfl, rfl⟩

end HeadersOk

/-- The blocks lie in the arena `A`, and the free ones of the pool `k` are those in `free k`. -/
structure BlocksOk (m : MemoryMgr) (A : Arena) (free : ℕ → List ℕ) : Prop where
  slab : A.slab = m.slab
  regions : A.regions = m.regions
  chain : ∀ k a, m.allocs[k]? = some a → Chain m.next a.pHeader (free k)
  nodup : ∀ k, (free k).Nodup
  blank : ∀ k p, p ∈ free k → ∃ b, m.blocks p = some b ∧ b.pAlloc = some k ∧ b.nRef = 0
  header : ∀ p b, m.blocks p = some b → b.bPool = b.pAlloc.isSome ∧
    ∃ len, sizeofMemoryBlock ≤ len ∧ A.Extent b.pAlloc ⟨p, len⟩

namespace BlocksOk

variable {A : Arena} {free : ℕ → List ℕ} {l : List ℕ}

theorem headersOk (h : m.BlocksOk A free) : m.HeadersOk A :=
  ⟨h.slab, h.regions, h.header⟩

theorem freeList_eq (h : m.BlocksOk A free) (hl : m.FreeList k l) : l = free k := by
  obtain ⟨a, ha, hc⟩ := hl
  exact hc.unique (h.chain k a ha)

/-- A free block belongs to the pool in whose list it is. -/
theorem cell (h : m.BlocksOk A free) (hp : p ∈ free k) :
    ∃ S, A.slab k = some S ∧ S.Cell p := by
  obtain ⟨b, hb, hk, -⟩ := h.blank k p hp
  obtain ⟨-, len, -, he⟩ := h.header p b hb
  rw [hk] at he
  obtain ⟨S, hs, hc, -⟩ := he.slab_of_some
  exact ⟨S, hs, hc⟩

theorem free_unique {j : ℕ} (h : m.BlocksOk A free) (hj : p ∈ free j) (hk : p ∈ free k) :
    j = k := by
  obtain ⟨b, hb, hbj, -⟩ := h.blank j p hj
  obtain ⟨b', hb', hbk, -⟩ := h.blank k p hk
  obtain rfl := Option.some.inj (hb.symm.trans hb')
  exact Option.some.inj (hbj.symm.trans hbk)

end BlocksOk

theorem new_alloc (ha : (new pools).allocs[k]? = some a) : a.pBuf = none ∧ a.pHeader = none := by
  obtain ⟨q, -, rfl⟩ := Option.map_eq_some_iff.mp (List.getElem?_map.symm.trans ha)
  exact ⟨rfl, rfl⟩

theorem new_headersOk (pools : List (ℕ × ℕ)) : (new pools).HeadersOk .empty := by
  constructor
  case slab =>
    funext k
    cases hs : (new pools).slab k with
    | none => rfl
    | some S =>
        obtain ⟨a, buf, ha, hb, -⟩ := slab_eq_some.mp hs
        rw [(new_alloc ha).1] at hb
        cases hb
  case regions => rfl
  case header => exact fun _ _ hb => nomatch hb

theorem new_blocksOk (pools : List (ℕ × ℕ)) :
    (new pools).BlocksOk .empty fun _ => [] := by
  have hok := new_headersOk pools
  constructor
  case slab => exact hok.slab
  case regions => exact hok.regions
  case chain =>
    intro k a ha
    rw [(new_alloc ha).2]
    exact .nil
  case nodup => exact fun _ => List.nodup_nil
  case blank => exact fun _ _ hp => nomatch hp
  case header => exact hok.header

end MemoryMgr

end CellNet
