import CellNet.Verification.Memory.Usable
import CellNet.Verification.ObjectPool.Overflow

/-! How much of the memory that is handed out can be used: what `allocMem` is asked for unless the
sum with the header wraps around, and an object of the pooled class itself, but no larger one. -/

namespace CellNet

open Library CellObjectPool

variable {sizeofType nPoolSize size p pMem : ℕ} {A : Arena} {free : List ℕ} {s : ObjectRun}
  {c : CellObjectPool} {b : NodeHeader} {new : Option ℕ}

/-- The header of `pMem` and `size` bytes behind it are its own. -/
def CellObjectPool.Usable (c : CellObjectPool) (pMem size : ℕ) : Prop :=
  ∃ p, pMem = p + sizeofNodeHeader ∧
    c.regions.Room (fun q => (c.nodes q).isSome) sizeofNodeHeader p size

/-- `new char[]` is called and throws, so nothing is handed out. -/
def CellObjectPool.Refuses (c : CellObjectPool) (new : Option ℕ) : Prop :=
  c.pHeader = none ∧ new = none

/-- A pool that is set up fits. -/
theorem CellObjectPool.fits_of_initPool (hT : sizeofType < 2 ^ 63) (hN : nPoolSize ≤ 2 ^ 31)
    {pBuf : ℕ} (hc : initPool sizeofType nPoolSize pBuf = some c) : Fits sizeofType nPoolSize := by
  constructor
  case nonempty =>
    by_contra hno
    obtain rfl : nPoolSize = 0 := by omega
    have hzero : totalSize sizeofType 0 = 0 := by
      simp [totalSize, size_t]
    have hwrite : write pBuf 0 (fun _ => none) pBuf ⟨none, 0, 0, true⟩ = none := by
      apply if_neg
      unfold sizeofNodeHeader
      omega
    unfold initPool at hc
    simp only [hzero, hwrite] at hc
    cases hc
  case total =>
    by_contra hbig
    rw [initPool_none hT hN (not_lt.mp hbig)] at hc
    cases hc

theorem CellObjectPool.fits_of_reachable (hT : sizeofType < 2 ^ 63) (hN : nPoolSize ≤ 2 ^ 31)
    (h : (ObjectRun.system sizeofType nPoolSize).Reachable s) : Fits sizeofType nPoolSize := by
  refine System.Invariant.reachable (P := fun _ => Fits sizeofType nPoolSize) ⟨?_, ?_⟩ h
  · intro s hs
    obtain ⟨pBuf, c, hc, -⟩ := hs
    exact fits_of_initPool hT hN hc
  · exact fun _ _ _ hfit _ => hfit

/-- Behind every header there is room for an object of the class. -/
theorem ObjectsOk.usable_iff (h : ObjectsOk sizeofType nPoolSize s A free)
    (hN : nPoolSize ≤ 2 ^ 31) (hb : s.pool.nodes p = some b) :
    s.pool.Usable (p + sizeofNodeHeader) size ↔ size ≤ sizeofType := by
  have hroom : s.pool.Usable (p + sizeofNodeHeader) size ↔
      A.regions.Room (fun q => (s.pool.nodes q).isSome) sizeofNodeHeader p size := by
    rw [h.regions]
    constructor
    · intro hu
      obtain ⟨q, hq, hr⟩ := hu
      obtain rfl : p = q := Nat.add_right_cancel hq
      exact hr
    · exact fun hr => ⟨p, rfl, hr⟩
  rw [hroom]
  constructor
  · intro hr
    have hcells : ∀ k S q, (if b.bPool then some 0 else none) = some k → A.slab k = some S →
        S.Cell q → (s.pool.nodes q).isSome := by
      intro k S q hk hS hq
      split at hk
      · obtain rfl := Option.some.inj hk
        rw [h.slab, Function.update_self] at hS
        obtain rfl := Option.some.inj hS
        obtain ⟨n, hn, rfl⟩ := hq
        have hlinked : linked nPoolSize = nPoolSize := min_eq_left hN
        obtain ⟨d, hd, -⟩ := h.nodes.node n (by rw [hlinked]; exact hn)
        exact Option.isSome_iff_exists.mpr ⟨d, hd⟩
      · cases hk
    have hle := (h.extent hb).room_le hcells (by decide) hr
    omega
  · intro hle
    refine (h.extent hb).room (by omega) fun q hq => ?_
    obtain ⟨d, hd⟩ := Option.isSome_iff_exists.mp hq
    exact ⟨_, _, Nat.le_add_left _ _, h.extent hd⟩

theorem ObjectsOk.allocated_usable_iff (h : ObjectsOk sizeofType nPoolSize s A free)
    (hfit : Fits sizeofType nPoolSize) (hN : nPoolSize ≤ 2 ^ 31)
    (hl : s.Legal sizeofType (.allocObjMemory size new))
    (hc : s.pool.allocObjMemory sizeofType size new = some (c, pMem)) :
    c.Usable pMem size ↔ size ≤ sizeofType := by
  obtain ⟨t, q, A', free', ht, hheld, hok, -⟩ := h.allocObjMemory hfit.realSize hl
  unfold ObjectRun.next at ht
  dsimp only at ht
  rw [hc, Option.map_some] at ht
  obtain rfl := Option.some.inj ht
  obtain rfl : pMem = q + sizeofNodeHeader := (List.cons.inj hheld).1
  obtain ⟨r, b, hr, hb, -⟩ := hok.held _ List.mem_cons_self
  obtain rfl : q = r := Nat.add_right_cancel hr
  exact hok.usable_iff hN hb

theorem ObjectsOk.gives_iff (h : ObjectsOk sizeofType nPoolSize s A free)
    (hfit : Fits sizeofType nPoolSize) (hN : nPoolSize ≤ 2 ^ 31)
    (hf : s.pool.pHeader = none → ∀ p, new = some p →
      s.pool.regions.Fresh p (realSize sizeofType)) :
    ((∃ c pMem, s.pool.allocObjMemory sizeofType size new = some (c, pMem) ∧
      c.Usable pMem size) ∨ s.pool.Refuses new) ↔ size ≤ sizeofType ∨ s.pool.Refuses new := by
  by_cases hr : s.pool.Refuses new
  · exact iff_of_true (.inr hr) (.inr hr)
  have hl : s.Legal sizeofType (.allocObjMemory size new) := by
    intro hp
    obtain ⟨p, hnew⟩ := Option.ne_none_iff_exists'.mp fun hnew => hr ⟨hp, hnew⟩
    exact ⟨p, hnew, hf hp p hnew⟩
  simp only [hr, or_false]
  constructor
  · rintro ⟨c, pMem, hc, hu⟩
    exact (h.allocated_usable_iff hfit hN hl hc).mp hu
  · intro hle
    obtain ⟨t, q, A', free', ht, -⟩ := h.allocObjMemory hfit.realSize hl
    obtain ⟨⟨c, pMem⟩, hc, -⟩ := Option.map_eq_some_iff.mp ht
    exact ⟨c, pMem, hc, (h.allocated_usable_iff hfit hN hl hc).mpr hle⟩

namespace ObjectRun

/-- `allocMem` hands out what it is asked for exactly if the size does not wrap around with the
header and `malloc` returns memory, and an object pool, if `new` does not throw, exactly if no
larger class than its own asks. A failed assertion hands out nothing. -/
theorem enough_iff {pools : List (ℕ × ℕ)} (hfit : PoolsFit pools) (hT : sizeofType < 2 ^ 63)
    (hN : nPoolSize ≤ 2 ^ 31) :
    (∀ s nSize answer, (MemoryRun.anyUse pools).Reachable s → nSize < 2 ^ 64 →
      (∀ n p, answer n = some p → s.mgr.regions.Fresh p n) →
        (((∃ m pMem, s.mgr.allocMem nSize answer = some (m, pMem) ∧ m.Usable pMem nSize) ∨
            s.mgr.Stopped nSize) ↔
          nSize + sizeofMemoryBlock < 2 ^ 64 ∧ s.mgr.Given nSize answer)) ∧
    ∀ s size new, (system sizeofType nPoolSize).Reachable s →
      (s.pool.pHeader = none → ∀ p, new = some p →
        s.pool.regions.Fresh p (realSize sizeofType)) →
        (((∃ c pMem, s.pool.allocObjMemory sizeofType size new = some (c, pMem) ∧
            c.Usable pMem size) ∨ s.pool.Refuses new) ↔
          size ≤ sizeofType ∨ s.pool.Refuses new) := by
  constructor
  · intro s nSize answer hs hn hf
    obtain ⟨hsizes, A, h⟩ := MemoryRun.typed_of_reachable hfit hs
    exact h.usable_iff hsizes hfit hf hn
  · intro s size new hs hf
    have hpool := fits_of_reachable hT hN hs
    obtain ⟨A, free, h⟩ := hpool.ok_of_reachable hs
    exact h.gives_iff hpool hN hf

/-- Two nodes for objects of eight bytes. -/
theorem exists_nodes : ∃ s : ObjectRun, (system 8 2).Reachable s ∧ s.pool.pHeader = some 4096 := by
  have hfit : Fits 8 2 := ⟨by decide, by decide⟩
  obtain ⟨x, hx, -⟩ := hfit.initPool 4096
  exact ⟨_, .init ⟨4096, _, hx, rfl⟩, rfl⟩

/-- The only block of a pool is handed out. -/
def exhausted : MemoryRun :=
  (MemoryRun.next ⟨.new [(64, 1)], []⟩ (.allocMem 10 fun _ => some 4096)).getD ⟨.new [], []⟩

theorem exhausted_reachable : (MemoryRun.anyUse [(64, 1)]).Reachable exhausted := by
  have h₀ : (MemoryRun.anyUse [(64, 1)]).Reachable ⟨.new [(64, 1)], []⟩ := .init rfl
  exact h₀.step (l := .allocMem 10 fun _ => some 4096)
    ⟨⟨by decide, fun _ _ _ _ _ hb => nomatch hb⟩, rfl⟩

/-- Twenty bytes from the heap, since the pool has no free block, and an object of the class. -/
theorem enough_ten : (∃ m pMem, exhausted.mgr.allocMem 20 (fun _ => some 8192) =
      some (m, pMem) ∧ m.Usable pMem 20) ∧
    ∃ s : ObjectRun, ∃ c pMem, (system 8 2).Reachable s ∧
      s.pool.allocObjMemory 8 8 none = some (c, pMem) ∧ c.Usable pMem 8 := by
  have hpools : PoolsFit [(64, 1)] := ⟨by decide, by decide, by decide⟩
  obtain ⟨hmgr, hobj⟩ := enough_iff hpools (show 8 < 2 ^ 63 by decide)
    (show 2 ≤ 2 ^ 31 by decide)
  constructor
  · have hfresh : ∀ n p, some 8192 = some p → exhausted.mgr.regions.Fresh p n := by
      intro n p hp b k hb
      obtain rfl := Option.some.inj hp
      rcases update_cases hb with ⟨rfl, hk⟩ | ⟨-, hk⟩
      · obtain rfl := Option.some.inj hk
        exact .inr (show 4096 + 96 ≤ 8192 by decide)
      · cases hk
    refine ((hmgr exhausted 20 _ exhausted_reachable (by decide) hfresh).mpr
      ⟨by decide, fun _ _ => rfl⟩).resolve_right ?_
    rintro ⟨-, k, a, p, b, hk, ha, -, hp, -⟩
    obtain rfl := Option.some.inj hk
    obtain rfl := Option.some.inj ha
    cases hp
  · obtain ⟨s, hs, hp⟩ := exists_nodes
    have hsome : ∀ new, ¬ s.pool.Refuses new := fun new hr => by
      rw [Refuses, hp] at hr
      cases hr.1
    have hnone : s.pool.pHeader = none → ∀ p, none = some p →
        s.pool.regions.Fresh p (realSize 8) := fun _ _ hnew => nomatch hnew
    obtain ⟨c, pMem, hc⟩ := ((hobj s 8 none hs hnone).mpr (.inl le_rfl)).resolve_right (hsome _)
    exact ⟨s, c, pMem, hs, hc⟩

/-- Sixteen bytes of `malloc` for a size that wraps around, a header that is written through
`NULL`, and a derived object of 24 bytes in a node for eight. -/
theorem too_small : PoolsFit MemoryMgr.pools ∧
    (∃ m pMem, (MemoryMgr.new MemoryMgr.pools).allocMem 18446744073709551600
        (fun _ => some 4096) = some (m, pMem) ∧ ¬ m.Usable pMem 18446744073709551600) ∧
    ((MemoryMgr.new MemoryMgr.pools).allocMem 18446744073709551568 (fun _ => none) = none ∧
      ¬ (MemoryMgr.new MemoryMgr.pools).Stopped 18446744073709551568) ∧
    ∃ s : ObjectRun, ∃ c pMem, (system 8 2).Reachable s ∧
      s.pool.allocObjMemory 8 24 none = some (c, pMem) ∧ ¬ c.Usable pMem 24 := by
  refine ⟨⟨by decide, by decide, by decide⟩, ?_, ⟨?_, ?_⟩, ?_⟩
  · have hlarge : ¬ 18446744073709551600 ≤ (MemoryMgr.new MemoryMgr.pools).maxMemorySize := by
      decide
    have hfresh : ∀ n p, some 4096 = some p →
        (MemoryMgr.new MemoryMgr.pools).regions.Fresh p n := fun _ _ _ _ _ hb => nomatch hb
    exact ⟨_, _, if_neg hlarge,
      MemoryMgr.not_usable_mallocBlock hfresh (by decide) (by decide) rfl⟩
  · exact if_neg (by decide)
  · exact fun hstop => absurd hstop.1 (by decide)
  · obtain ⟨s, hs, hp⟩ := exists_nodes
    have hfit : Fits 8 2 := ⟨by decide, by decide⟩
    obtain ⟨A, free, hok⟩ := hfit.ok_of_reachable hs
    obtain ⟨b, l, -, hb, hzero, -⟩ := hok.take hp
    have hl : s.Legal 8 (.allocObjMemory 24 none) := fun hnone => by
      rw [hp] at hnone
      cases hnone
    have hc := allocObjMemory_some hp hb hzero 8 24 none
    refine ⟨s, _, _, hs, hc, ?_⟩
    rw [hok.allocated_usable_iff hfit (by decide) hl hc]
    decide

end ObjectRun

end CellNet
