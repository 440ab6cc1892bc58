import CellNet.Verification.Memory.Semantics

/-! What the functions of the allocator do to the blocks. -/

namespace CellNet

open Library

namespace MemoryMgr

variable {m m' : MemoryMgr} {A : Arena} {free : ℕ → List ℕ} {k p n : ℕ} {a : MemoryAlloc}
  {b b' : MemoryBlock} {l : List ℕ}

/-! ### One block is written -/

theorem blocks_store (m : MemoryMgr) (p : ℕ) (b : MemoryBlock) : (m.store p b).blocks p = some b :=
  Function.update_self ..

theorem blocks_store_of_ne {q : ℕ} (h : q ≠ p) : (m.store p b).blocks q = m.blocks q :=
  Function.update_of_ne h ..

theorem next_store_of_ne {q : ℕ} (h : q ≠ p) : (m.store p b).next q = m.next q := by
  unfold next
  rw [blocks_store_of_ne h]

/-- Its link stays. -/
theorem next_store (hb : m.blocks p = some b) (hn : b'.pNext = b.pNext) :
    (m.store p b').next = m.next := by
  funext q
  by_cases hq : q = p
  · subst hq
    simp only [next, blocks_store, hb, Option.bind_some, hn]
  · exact next_store_of_ne hq

/-- A header keeps its pool. -/
theorem HeadersOk.edit (h : m.HeadersOk A) (hb : m.blocks p = some b)
    (hk : b'.pAlloc = b.pAlloc) (hp : b'.bPool = b.bPool) : (m.store p b').HeadersOk A := by
  constructor
  case slab => exact h.slab
  case regions => exact h.regions
  case header =>
    intro q c hc
    rcases update_cases hc with ⟨rfl, hbc⟩ | ⟨-, hq⟩
    · obtain rfl := Option.some.inj hbc
      rw [hk, hp]
      exact h.header q b hb
    · exact h.header q c hq

/-- So does one of a pool whose list changes. -/
theorem HeadersOk.edit_set (h : m.HeadersOk A) (ha : m.allocs[k]? = some a)
    (pHeader : Option ℕ) (hb : m.blocks p = some b) (b' : MemoryBlock)
    (hk : b'.pAlloc = b.pAlloc) (hp : b'.bPool = b.bPool) : HeadersOk
      (store { m with allocs := m.allocs.set k { a with pHeader } } p b') A := by
  have hset : HeadersOk { m with allocs := m.allocs.set k { a with pHeader } } A :=
    ⟨h.slab.trans (slab_setHeader ha _).symm, h.regions, h.header⟩
  exact hset.edit hb hk hp

/-- The count of a block that is not free changes. -/
theorem BlocksOk.recount (h : m.BlocksOk A free) (hb : m.blocks p = some b)
    (hp : ∀ k, p ∉ free k) (nRef : ℤ) : (m.store p { b with nRef }).BlocksOk A free := by
  have hok : (m.store p { b with nRef }).HeadersOk A := h.headersOk.edit hb rfl rfl
  constructor
  case slab => exact hok.slab
  case regions => exact hok.regions
  case chain =>
    have hnext : (m.store p { b with nRef }).next = m.next := next_store hb rfl
    intro k a ha
    rw [hnext]
    exact h.chain k a ha
  case nodup => exact h.nodup
  case blank =>
    intro k q hq
    have hqp : q ≠ p := fun he => hp k (he ▸ hq)
    rw [blocks_store_of_ne hqp]
    exact h.blank k q hq
  case header => exact hok.header

/-! ### The list of a pool -/

/-- The first block of a list. -/
theorem BlocksOk.head (h : m.BlocksOk A free) (ha : m.allocs[k]? = some a)
    (hp : a.pHeader = some p) : ∃ b l, m.blocks p = some b ∧ b.pAlloc = some k ∧ b.nRef = 0 ∧
      free k = p :: l ∧ Chain m.next b.pNext l := by
  have hc := h.chain k a ha
  rw [hp] at hc
  obtain ⟨l, hl, hc⟩ := Chain.cons_iff.mp hc
  obtain ⟨b, hb, hk, hr⟩ := h.blank k p (hl ▸ List.mem_cons_self)
  have hn : m.next p = b.pNext := by
    unfold next
    rw [hb]
    rfl
  exact ⟨b, l, hb, hk, hr, hl, hn ▸ hc⟩

/-- The other blocks stay on their lists. -/
theorem BlocksOk.mem_tail (h : m.BlocksOk A free) (hl : free k = p :: l) {j q : ℕ}
    (hq : q ∈ Function.update free k l j) : q ∈ free j ∧ q ≠ p := by
  have hp : p ∉ l := (List.nodup_cons.mp (hl ▸ h.nodup k)).1
  rcases mem_update.mp hq with ⟨rfl, hin⟩ | ⟨hj, hin⟩
  · rw [hl]
    exact ⟨List.mem_cons_of_mem _ hin, fun he => hp (he ▸ hin)⟩
  · refine ⟨hin, ?_⟩
    rintro rfl
    exact hj (h.free_unique hin (hl ▸ List.mem_cons_self))

/-- It is taken from the list. -/
theorem BlocksOk.take (h : m.BlocksOk A free) (ha : m.allocs[k]? = some a)
    (hb : m.blocks p = some b) (hl : free k = p :: l) (hc : Chain m.next b.pNext l) (nRef : ℤ) :
    BlocksOk (store { m with allocs := m.allocs.set k { a with pHeader := b.pNext } } p
      { b with nRef }) A (Function.update free k l) := by
  have hok : HeadersOk (store { m with allocs := m.allocs.set k { a with pHeader := b.pNext } } p
      { b with nRef }) A := h.headersOk.edit_set ha _ hb _ rfl rfl
  constructor
  case slab => exact hok.slab
  case regions => exact hok.regions
  case chain =>
    have hnext : next (store { m with allocs := m.allocs.set k { a with pHeader := b.pNext } } p
        { b with nRef }) = m.next := next_store (m := { m with
          allocs := m.allocs.set k { a with pHeader := b.pNext } }) hb rfl
    intro j c hj
    rw [hnext]
    rcases getElem?_set_cases hj with ⟨rfl, rfl⟩ | ⟨hjk, hj⟩
    · rw [Function.update_self]
      exact hc
    · rw [Function.update_of_ne hjk]
      exact h.chain j c hj
  case nodup => exact nodup_update h.nodup (List.nodup_cons.mp (hl ▸ h.nodup k)).2
  case blank =>
    intro j q hq
    obtain ⟨hq, hne⟩ := h.mem_tail hl hq
    rw [blocks_store_of_ne hne]
    exact h.blank j q hq
  case header => exact hok.header

/-- A block is put in front of the list. -/
theorem BlocksOk.putBack (h : m.BlocksOk A free) (ha : m.allocs[k]? = some a)
    (hb : m.blocks p = some b) (hk : b.pAlloc = some k) (hp : ∀ j, p ∉ free j) :
    BlocksOk (store { m with allocs := m.allocs.set k { a with pHeader := some p } } p
      { b with nRef := 0, pNext := a.pHeader }) A (Function.update free k (p :: free k)) := by
  have hold : ∀ j, ∀ q ∈ free j, q ≠ p := fun j q hq he => hp j (he ▸ hq)
  have hok : HeadersOk (store { m with allocs := m.allocs.set k { a with pHeader := some p } } p
      { b with nRef := 0, pNext := a.pHeader }) A := h.headersOk.edit_set ha _ hb _ rfl rfl
  constructor
  case slab => exact hok.slab
  case regions => exact hok.regions
  case chain =>
    have hnext : ∀ j, ∀ q ∈ free j, next (store { m with
        allocs := m.allocs.set k { a with pHeader := some p } } p
        { b with nRef := 0, pNext := a.pHeader }) q = m.next q :=
      fun j q hq => next_store_of_ne (hold j q hq)
    intro j c hj
    rcases getElem?_set_cases hj with ⟨rfl, rfl⟩ | ⟨hjk, hj⟩
    · rw [Function.update_self]
      apply Chain.cons
      rw [next, blocks_store]
      exact (h.chain j a ha).congr (hnext j)
    · rw [Function.update_of_ne hjk]
      exact (h.chain j c hj).congr (hnext j)
  case nodup => exact nodup_update h.nodup (List.nodup_cons.mpr ⟨hp k, h.nodup k⟩)
  case blank =>
    intro j q hq
    by_cases hqp : q = p
    · subst hqp
      refine ⟨_, blocks_store .., ?_, rfl⟩
      rcases mem_update.mp hq with ⟨rfl, -⟩ | ⟨-, hq⟩
      · exact hk
      · exact absurd hq (hp j)
    · rw [blocks_store_of_ne hqp]
      apply h.blank j q
      rcases mem_update.mp hq with ⟨rfl, hin⟩ | ⟨-, hin⟩
      · exact (List.mem_cons.mp hin).resolve_left hqp
      · exact hin
  case header => exact hok.header

/-! ### Regions of their own -/

theorem HeadersOk.ne_of_fresh (h : m.HeadersOk A) (hf : A.regions.Fresh p n) (hn : 0 < n)
    {q : ℕ} (hb : m.blocks q = some b) : q ≠ p := by
  obtain ⟨-, len, -, he⟩ := h.header q b hb
  exact he.start_ne hf hn

theorem HeadersOk.own (h : m.HeadersOk A) (hf : A.regions.Fresh p n)
    (hn : sizeofMemoryBlock ≤ n) (hpos : 0 < n) :
    HeadersOk ((m.give p n).store p ⟨-1, 1, none, none, false⟩) (A.malloc p n hf hpos) := by
  constructor
  case slab => exact h.slab
  case regions => exact congrArg (fun r => Function.update r p (some n)) h.regions
  case header =>
    intro q c hc
    rcases update_cases hc with ⟨rfl, hbc⟩ | ⟨-, hq⟩
    · obtain rfl := Option.some.inj hbc
      exact ⟨rfl, n, hn, Arena.malloc_new⟩
    · obtain ⟨hb, len, hlen, he⟩ := h.header q c hq
      exact ⟨hb, len, hlen, he.malloc⟩

theorem BlocksOk.own (h : m.BlocksOk A free) (hf : A.regions.Fresh p n)
    (hn : sizeofMemoryBlock ≤ n) (hpos : 0 < n) :
    BlocksOk ((m.give p n).store p ⟨-1, 1, none, none, false⟩) (A.malloc p n hf hpos) free := by
  have hok := h.headersOk.own hf hn hpos
  have hne : ∀ k, ∀ q ∈ free k, q ≠ p := by
    intro k q hq
    obtain ⟨b, hb, -⟩ := h.blank k q hq
    exact h.headersOk.ne_of_fresh hf hpos hb
  constructor
  case slab => exact hok.slab
  case regions => exact hok.regions
  case chain =>
    intro k a ha
    exact (h.chain k a ha).congr fun q hq => next_store_of_ne (hne k q hq)
  case nodup => exact h.nodup
  case blank =>
    intro k q hq
    rw [blocks_store_of_ne (hne k q hq)]
    exact h.blank k q hq
  case header => exact hok.header

/-- Its region is given back. -/
theorem HeadersOk.release (h : m.HeadersOk A) (hb : m.blocks p = some b)
    (hk : b.pAlloc = none) : ∃ hw, HeadersOk { m with
        regions := Function.update m.regions p none
        blocks := Function.update m.blocks p none } (A.free p hw) := by
  obtain ⟨-, len, -, he⟩ := h.header p b hb
  rw [hk] at he
  obtain ⟨-, hw⟩ := he.whole_of_none
  refine ⟨hw, ?_⟩
  constructor
  case slab => exact h.slab
  case regions => exact congrArg (fun r => Function.update r p none) h.regions
  case header =>
    intro q c hc
    rcases update_cases hc with ⟨-, hc⟩ | ⟨hqp, hc⟩
    · cases hc
    · obtain ⟨hb, len, hlen, he⟩ := h.header q c hc
      exact ⟨hb, len, hlen, he.free hqp⟩

theorem BlocksOk.release (h : m.BlocksOk A free) (hb : m.blocks p = some b)
    (hk : b.pAlloc = none) (hp : ∀ k, p ∉ free k) : ∃ hw, BlocksOk { m with
        regions := Function.update m.regions p none
        blocks := Function.update m.blocks p none } (A.free p hw) free := by
  obtain ⟨hw, hok⟩ := h.headersOk.release hb hk
  have hne : ∀ k, ∀ q ∈ free k, q ≠ p := fun k q hq he => hp k (he ▸ hq)
  refine ⟨hw, ?_⟩
  constructor
  case slab => exact hok.slab
  case regions => exact hok.regions
  case chain =>
    intro k a ha
    refine (h.chain k a ha).congr fun q hq => ?_
    unfold next
    dsimp only
    rw [Function.update_of_ne (hne k q hq)]
  case nodup => exact h.nodup
  case blank =>
    intro k q hq
    refine (h.blank k q hq).imp fun c hc => ?_
    exact ⟨(Function.update_of_ne (hne k q hq) ..).trans hc.1, hc.2⟩
  case header => exact hok.header

/-! ### `freeMem` -/

/-- What `freeMem` does to the block `b` at `p`. -/
inductive Frees (m : MemoryMgr) (p : ℕ) (b : MemoryBlock) : MemoryMgr → Prop where
  | keep : wrap32 (b.nRef - 1) ≠ 0 → Frees m p b (m.store p { b with nRef := wrap32 (b.nRef - 1) })
  | pool {k : ℕ} {a : MemoryAlloc} : wrap32 (b.nRef - 1) = 0 → b.pAlloc = some k →
      m.allocs[k]? = some a →
      Frees m p b (store { m with allocs := m.allocs.set k { a with pHeader := some p } } p
        { b with nRef := 0, pNext := a.pHeader })
  | own : wrap32 (b.nRef - 1) = 0 → b.pAlloc = none → Frees m p b { m with
      regions := Function.update m.regions p none
      blocks := Function.update m.blocks p none }

theorem HeadersOk.freeMem (h : m.HeadersOk A) (hb : m.blocks p = some b) :
    ∃ m', m.freeMem (p + sizeofMemoryBlock) = some m' ∧ m.Frees p b m' := by
  have hheader : m.header (p + sizeofMemoryBlock) = some (p, b) := header_eq_some.mpr ⟨rfl, hb⟩
  obtain ⟨hpool, len, -, he⟩ := h.header p b hb
  unfold MemoryMgr.freeMem
  simp only [hheader, Option.bind_eq_bind, Option.bind_some]
  rcases Option.eq_none_or_eq_some b.pAlloc with hk | ⟨k, hk⟩
  · obtain ⟨hreg, -⟩ := Arena.Extent.whole_of_none (hk ▸ he)
    have hout : ¬ b.bPool = true := by
      rw [hpool, hk]
      nofun
    rw [if_neg hout]
    by_cases hr : wrap32 (b.nRef - 1) = 0
    · simp only [hr, ne_eq, not_true, if_false]
      have hsome : (m.regions p).isSome := by
        rw [← h.regions, hreg]
        rfl
      unfold MemoryMgr.free store
      rw [if_pos hsome]
      dsimp only
      rw [Function.update_idem]
      exact ⟨_, rfl, .own hr hk⟩
    · simp only [ne_eq, hr, not_false_eq_true, if_true]
      exact ⟨_, rfl, .keep hr⟩
  · obtain ⟨S, hS, -⟩ := Arena.Extent.slab_of_some (hk ▸ he)
    obtain ⟨a, ha, -⟩ := h.alloc hS
    have hin : b.bPool = true := by
      rw [hpool, hk]
      rfl
    rw [if_pos hin, hk, Option.bind_some]
    unfold freeMemory
    simp only [hheader, ha, Option.bind_eq_bind, Option.bind_some]
    rw [if_pos hin]
    by_cases hr : wrap32 (b.nRef - 1) = 0
    · simp only [hr, ne_eq, not_true, if_false]
      exact ⟨_, rfl, .pool hr hk ha⟩
    · simp only [ne_eq, hr, not_false_eq_true, if_true]
      exact ⟨_, rfl, .keep hr⟩

end MemoryMgr

end CellNet
