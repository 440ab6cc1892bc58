import CellNet.Library.Transition
import CellNet.Verification.Memory.Init

/-! How much of a piece of memory can be used, whatever its callers do with their references: a
block may be given back while it is held, and twice, but its pool and its extent never change. -/

namespace CellNet

open Library

namespace MemoryMgr

variable {pools : List (ℕ × ℕ)} {m m' : MemoryMgr} {A : Arena} {k p n nSize pMem : ℕ}
  {a : MemoryAlloc} {b b' : MemoryBlock} {o : Option ℕ} {answer : ℕ → Option ℕ}

/-- The header of `pMem` and `nSize` bytes behind it are its own. -/
def Usable (m : MemoryMgr) (pMem nSize : ℕ) : Prop :=
  ∃ p, pMem = p + sizeofMemoryBlock ∧
    m.regions.Room (fun q => (m.blocks q).isSome) sizeofMemoryBlock p nSize

theorem mallocBlock_eq_some : m.mallocBlock nSize answer = some (m', pMem) ↔
    ∃ p, answer (size_t (nSize + sizeofMemoryBlock)) = some p ∧
      m' = (m.give p (size_t (nSize + sizeofMemoryBlock))).store p ⟨-1, 1, none, none, false⟩ ∧
      pMem = p + sizeofMemoryBlock := by
  unfold mallocBlock MemoryMgr.malloc
  rw [Option.map_map, Option.map_eq_some_iff]
  simp only [Function.comp_apply, Prod.mk.injEq, eq_comm]

theorem HeadersOk.usable (h : m.HeadersOk A) {len : ℕ} (he : A.Extent o ⟨p, len⟩)
    (hle : nSize + sizeofMemoryBlock ≤ len) : m.Usable (p + sizeofMemoryBlock) nSize := by
  refine ⟨p, rfl, ?_⟩
  rw [← h.regions]
  apply he.room
  · omega
  · intro q hq
    obtain ⟨c, hc⟩ := Option.isSome_iff_exists.mp hq
    exact ⟨c.pAlloc, (h.header q c hc).2⟩

/-! ### The links of the pools -/

/-- A link to a block of the pool `k`. -/
def OfPool (blocks : ℕ → Option MemoryBlock) (k : ℕ) (o : Option ℕ) : Prop :=
  ∀ p ∈ o, ∃ b, blocks p = some b ∧ b.pAlloc = some k

/-- Blocks of pools stay. -/
theorem OfPool.mono {blocks blocks' : ℕ → Option MemoryBlock} (h : OfPool blocks k o)
    (hk : ∀ q b, blocks q = some b → b.pAlloc = some k →
      ∃ b', blocks' q = some b' ∧ b'.pAlloc = some k) : OfPool blocks' k o := by
  intro q hq
  obtain ⟨c, hc, hck⟩ := h q hq
  exact hk q c hc hck

theorem OfPool.store (h : OfPool m.blocks k o) (hb : m.blocks p = some b)
    (hk : b'.pAlloc = b.pAlloc) : OfPool (m.store p b').blocks k o := by
  apply h.mono
  intro q c hc hck
  by_cases hq : q = p
  · subst hq
    obtain rfl := Option.some.inj (hb.symm.trans hc)
    exact ⟨b', blocks_store .., hk.trans hck⟩
  · exact ⟨c, (blocks_store_of_ne hq).trans hc, hck⟩

/-- Lists lead from a block of their pool to the next, perhaps in a circle. -/
structure Typed (m : MemoryMgr) (A : Arena) : Prop extends HeadersOk m A where
  head : ∀ k a, m.allocs[k]? = some a → OfPool m.blocks k a.pHeader
  link : ∀ k p b, m.blocks p = some b → b.pAlloc = some k → OfPool m.blocks k b.pNext

namespace Typed

theorem edit (h : m.Typed A) (hb : m.blocks p = some b) (b' : MemoryBlock)
    (hk : b'.pAlloc = b.pAlloc) (hp : b'.bPool = b.bPool)
    (hn : ∀ k, b.pAlloc = some k → OfPool m.blocks k b'.pNext) : (m.store p b').Typed A := by
  constructor
  case toHeadersOk => exact h.toHeadersOk.edit hb hk hp
  case head => exact fun k a ha => (h.head k a ha).store hb hk
  case link =>
    intro k q c hc hck
    rcases update_cases hc with ⟨rfl, he⟩ | ⟨-, hq⟩
    · obtain rfl := Option.some.inj he
      exact (hn k (hk.symm.trans hck)).store hb hk
    · exact (h.link k q c hq hck).store hb hk

theorem setHeader (h : m.Typed A) (ha : m.allocs[k]? = some a) (ho : OfPool m.blocks k o) :
    Typed { m with allocs := m.allocs.set k { a with pHeader := o } } A := by
  constructor
  case toHeadersOk => exact ⟨h.slab.trans (slab_setHeader ha _).symm, h.regions, h.header⟩
  case head =>
    intro j c hj
    rcases getElem?_set_cases hj with ⟨rfl, rfl⟩ | ⟨-, hj⟩
    · exact ho
    · exact h.head j c hj
  case link => exact h.link

theorem own (h : m.Typed A) (hf : A.regions.Fresh p n) (hn : sizeofMemoryBlock ≤ n)
    (hpos : 0 < n) :
    Typed ((m.give p n).store p ⟨-1, 1, none, none, false⟩) (A.malloc p n hf hpos) := by
  have hkeep : ∀ {j o}, OfPool m.blocks j o →
      OfPool ((m.give p n).store p ⟨-1, 1, none, none, false⟩).blocks j o := by
    intro j o ho
    apply ho.mono
    intro q c hc hck
    exact ⟨c, (blocks_store_of_ne (h.ne_of_fresh hf hpos hc)).trans hc, hck⟩
  constructor
  case toHeadersOk => exact h.toHeadersOk.own hf hn hpos
  case head => exact fun j c hj => hkeep (h.head j c hj)
  case link =>
    intro j q c hc hck
    rcases update_cases hc with ⟨-, he⟩ | ⟨-, hq⟩
    · obtain rfl := Option.some.inj he
      cases hck
    · exact hkeep (h.link j q c hq hck)

theorem release (h : m.Typed A) (hb : m.blocks p = some b) (hk : b.pAlloc = none) :
    ∃ hw, Typed { m with
        regions := Function.update m.regions p none
        blocks := Function.update m.blocks p none } (A.free p hw) := by
  obtain ⟨hw, hok⟩ := h.toHeadersOk.release hb hk
  have hkeep : ∀ {j o}, OfPool m.blocks j o → OfPool (Function.update m.blocks p none) j o := by
    intro j o ho
    apply ho.mono
    intro q c hc hck
    refine ⟨c, (Function.update_of_ne ?_ ..).trans hc, hck⟩
    rintro rfl
    obtain rfl := Option.some.inj (hb.symm.trans hc)
    rw [hk] at hck
    cases hck
  refine ⟨hw, ?_⟩
  constructor
  case toHeadersOk => exact hok
  case head => exact fun j c hj => hkeep (h.head j c hj)
  case link =>
    intro j q c hc hck
    rcases update_cases hc with ⟨-, he⟩ | ⟨-, hq⟩
    · cases he
    · exact hkeep (h.link j q c hq hck)

theorem initMemory (h : m.Typed A) (hs : m.Sizes pools) (hfit : PoolsFit pools)
    (ha : m.allocs[k]? = some a) (hnone : a.pBuf = none)
    (hf : ∀ n p, answer n = some p → m.regions.Fresh p n)
    (hm : m.initMemory k a answer = some m') :
    m'.Sizes pools ∧ (∃ A', m'.Typed A') ∧
      ∃ q b, m'.allocs[k]? = some { a with pBuf := some q, pHeader := some q } ∧
        m'.blocks q = some b ∧ b.nRef = 0 := by
  obtain ⟨q, -, hsize, hcount, hpos, hlt⟩ := hs.alloc hfit ha
  rw [← hsize, ← hcount] at hlt
  rw [← hcount] at hpos
  obtain ⟨pBuf, hbuf, hfresh⟩ : ∃ p, answer a.bufSize = some p ∧
      m.regions.Fresh p a.bufSize := by
    obtain ⟨r, hr, -⟩ := Option.map_eq_some_iff.mp hm
    obtain ⟨p, hp, -⟩ := Option.map_eq_some_iff.mp hr
    exact ⟨p, hp, hf _ _ hp⟩
  let S : Slab := ⟨pBuf, a.nSize + sizeofMemoryBlock, a.nBlockSize⟩
  have hn : 0 < S.size * S.count := Nat.mul_pos (Nat.add_pos_right _ (by decide)) hpos
  rw [(sizes_of_fit (S := S) rfl rfl hpos hlt).2, ← h.regions] at hfresh
  obtain rfl := Option.some.inj
    ((initMemory_eq_some (S := S) rfl rfl hpos hlt m k hbuf).symm.trans hm)
  obtain ⟨hok, x, hl, hx, hkeep⟩ := h.toHeadersOk.setUp ha hnone rfl rfl hpos hlt hfresh hn
  have heq := setUp_eq (S := S) (a := a) rfl rfl hpos hlt m k
  have hold : ∀ {j o}, OfPool m.blocks j o → OfPool x.1 j o := by
    intro j o ho
    apply ho.mono
    intro r c hc hck
    exact ⟨c, (hkeep r c hc).2, hck⟩
  obtain ⟨nID, hfirst⟩ := hl.block 0 (Nat.zero_le _)
  rw [Nat.zero_mul, Nat.add_zero, ← hx] at hfirst
  refine ⟨?_, ⟨_, hok, ?_, ?_⟩, S.buf, _, ?_, hfirst, rfl⟩
  · rw [heq]
    exact ⟨(hs.set ha _ _).allocs, hs.szAlloc, hs.maxMemorySize⟩
  · intro j c hj
    rw [hx]
    rw [heq] at hj
    rcases getElem?_set_cases hj with ⟨rfl, rfl⟩ | ⟨-, hj⟩
    · intro r hr
      obtain rfl := Option.some.inj hr
      exact ⟨_, hx ▸ hfirst, rfl⟩
    · exact hold (h.head j c hj)
  · intro j r c hc hck
    rw [hx] at hc ⊢
    by_cases hr : S.Cell r
    · obtain ⟨i, hi, rfl⟩ := hr
      obtain ⟨nID, hb⟩ := hl.block i (by omega)
      obtain rfl := Option.some.inj (hb.symm.trans hc)
      intro t ht
      dsimp only at hck ht
      split at ht
      · next hlt' =>
          obtain rfl := Option.some.inj ht
          obtain ⟨nID', hb'⟩ := hl.block (i + 1) (by omega)
          exact ⟨_, hb', hck⟩
      · cases ht
    · rw [hl.off hpos hr] at hc
      exact hold (h.link j r c hc hck)
  · rw [heq]
    exact getElem?_set_same ha _

/-! ### `allocMem` -/

/-- The first block of a list is handed out. -/
theorem take (h : m.Typed A) (ha : m.allocs[k]? = some a) (hp : a.pHeader = some p)
    (hb : m.blocks p = some b) (hsz : nSize ≤ a.nSize) (nRef : ℤ) :
    Typed (store { m with allocs := m.allocs.set k { a with pHeader := b.pNext } } p
      { b with nRef }) A ∧
    Usable (store { m with allocs := m.allocs.set k { a with pHeader := b.pNext } } p
      { b with nRef }) (p + sizeofMemoryBlock) nSize := by
  obtain ⟨c, hc, hk⟩ := h.head k a ha p hp
  obtain rfl := Option.some.inj (hb.symm.trans hc)
  have hset := h.setHeader ha (h.link k p b hb hk)
  have hok : Typed (store { m with allocs := m.allocs.set k { a with pHeader := b.pNext } } p
      { b with nRef }) A := hset.edit hb { b with nRef } rfl rfl fun j hj => h.link j p b hb hj
  refine ⟨hok, ?_⟩
  obtain ⟨-, len, -, he⟩ := h.header p b hb
  obtain ⟨S, hS, -, hlen⟩ := Arena.Extent.slab_of_some (hk ▸ he)
  obtain ⟨d, hd, -, hsize, -⟩ := h.alloc hS
  obtain rfl := Option.some.inj (ha.symm.trans hd)
  apply hok.usable he
  dsimp only at hlen
  omega

theorem mallocBlock (h : m.Typed A) (hlt : nSize + sizeofMemoryBlock < 2 ^ 64)
    (hs : m.Sizes pools) (hf : ∀ n p, answer n = some p → m.regions.Fresh p n)
    (hm : m.mallocBlock nSize answer = some (m', pMem)) :
    m'.Sizes pools ∧ (∃ A', m'.Typed A') ∧ m'.Usable pMem nSize := by
  obtain ⟨p, hp, rfl, rfl⟩ := mallocBlock_eq_some.mp hm
  have hsize : size_t (nSize + sizeofMemoryBlock) = nSize + sizeofMemoryBlock :=
    Nat.mod_eq_of_lt hlt
  have hpos : 0 < nSize + sizeofMemoryBlock := Nat.add_pos_right _ (by decide)
  have hfresh := hf _ _ hp
  rw [hsize, ← h.regions] at hfresh
  rw [hsize]
  have hok := h.own hfresh (Nat.le_add_left _ _) hpos
  exact ⟨⟨hs.allocs, hs.szAlloc, hs.maxMemorySize⟩, ⟨_, hok⟩, hok.usable Arena.malloc_new le_rfl⟩

theorem allocMemory (h : m.Typed A) (hs : m.Sizes pools) (hfit : PoolsFit pools)
    (ha : m.allocs[k]? = some a) (hsz : nSize ≤ a.nSize)
    (hf : ∀ n p, answer n = some p → m.regions.Fresh p n)
    (hm : m.allocMemory k nSize answer = some (m', pMem)) :
    m'.Sizes pools ∧ (∃ A', m'.Typed A') ∧ m'.Usable pMem nSize := by
  obtain ⟨q, -, hsize, -, hpos, hfull⟩ := hs.alloc hfit ha
  have hlt : nSize + sizeofMemoryBlock < 2 ^ 64 := by
    have hle : aligned q.1 + sizeofMemoryBlock ≤ (aligned q.1 + sizeofMemoryBlock) * q.2 :=
      Nat.le_mul_of_pos_right _ hpos
    omega
  unfold MemoryMgr.allocMemory at hm
  rw [ha, Option.bind_eq_bind, Option.bind_some] at hm
  by_cases hnone : a.pBuf = none
  · rw [if_pos hnone] at hm
    obtain ⟨m₁, hinit, hm⟩ := Option.bind_eq_some_iff.mp hm
    obtain ⟨hs₁, ⟨A₁, h₁⟩, r, -, ha₁, -⟩ := h.initMemory hs hfit ha hnone hf hinit
    simp only [ha₁, Option.bind_some] at hm
    obtain ⟨b, hb, hm⟩ := Option.bind_eq_some_iff.mp hm
    split at hm
    · obtain ⟨rfl, rfl⟩ := Prod.mk.inj (Option.some.inj hm)
      obtain ⟨hok, hu⟩ := h₁.take ha₁ rfl hb hsz 1
      exact ⟨⟨(hs₁.set ha₁ _ _).allocs, hs₁.szAlloc, hs₁.maxMemorySize⟩, ⟨_, hok⟩, hu⟩
    · cases hm
  · simp only [if_neg hnone, ha, Option.bind_eq_bind, Option.bind_some] at hm
    cases hp : a.pHeader with
    | none =>
        rw [hp] at hm
        exact h.mallocBlock hlt hs hf hm
    | some p =>
        rw [hp] at hm
        obtain ⟨b, hb, hm⟩ := Option.bind_eq_some_iff.mp hm
        split at hm
        · obtain ⟨rfl, rfl⟩ := Prod.mk.inj (Option.some.inj hm)
          obtain ⟨hok, hu⟩ := h.take ha hp hb hsz 1
          exact ⟨⟨(hs.set ha _ _).allocs, hs.szAlloc, hs.maxMemorySize⟩, ⟨_, hok⟩, hu⟩
        · cases hm

/-- Memory that is handed out can be used unless its size wraps around with the header. -/
theorem allocMem (h : m.Typed A) (hs : m.Sizes pools) (hfit : PoolsFit pools)
    (hf : ∀ n p, answer n = some p → m.regions.Fresh p n)
    (hlt : nSize + sizeofMemoryBlock < 2 ^ 64)
    (hm : m.allocMem nSize answer = some (m', pMem)) :
    m'.Sizes pools ∧ (∃ A', m'.Typed A') ∧ m'.Usable pMem nSize := by
  unfold MemoryMgr.allocMem at hm
  by_cases hle : nSize ≤ m.maxMemorySize
  · obtain ⟨k, a, hk, ha, hsz⟩ := hs.served hfit hle
    rw [if_pos hle, hk, Option.bind_eq_bind, Option.bind_some] at hm
    exact h.allocMemory hs hfit ha hsz hf hm
  · rw [if_neg hle] at hm
    exact h.mallocBlock hlt hs hf hm

/-! ### `addRef` and `freeMem` -/

theorem frees (h : m.Typed A) (hs : m.Sizes pools) (hb : m.blocks p = some b)
    (hm : m.Frees p b m') : m'.Sizes pools ∧ ∃ A', m'.Typed A' := by
  cases hm with
  | keep _ =>
      refine ⟨⟨hs.allocs, hs.szAlloc, hs.maxMemorySize⟩, A, ?_⟩
      exact h.edit hb _ rfl rfl fun j hj => h.link j p b hb hj
  | @pool k a _ hk ha =>
      refine ⟨⟨(hs.set ha _ _).allocs, hs.szAlloc, hs.maxMemorySize⟩, A, ?_⟩
      have ho : OfPool m.blocks k (some p) := by
        intro q hq
        obtain rfl := Option.some.inj hq
        exact ⟨b, hb, hk⟩
      apply (h.setHeader ha ho).edit hb
      · rfl
      · rfl
      · intro j hj
        obtain rfl := Option.some.inj (hk.symm.trans hj)
        exact h.head k a ha
  | own _ hk =>
      obtain ⟨hw, hok⟩ := h.release hb hk
      exact ⟨⟨hs.allocs, hs.szAlloc, hs.maxMemorySize⟩, _, hok⟩

end Typed

/-- Where the size wraps around, the region does not even hold the header. -/
theorem not_usable_mallocBlock (hf : ∀ n p, answer n = some p → m.regions.Fresh p n)
    (hn : nSize < 2 ^ 64) (hlarge : 2 ^ 64 ≤ nSize + sizeofMemoryBlock)
    (hm : m.mallocBlock nSize answer = some (m', pMem)) : ¬ m'.Usable pMem nSize := by
  have h32 : sizeofMemoryBlock = 32 := rfl
  have hsize : size_t (nSize + sizeofMemoryBlock) < sizeofMemoryBlock := by
    unfold size_t
    omega
  obtain ⟨p, hp, rfl, rfl⟩ := mallocBlock_eq_some.mp hm
  rintro ⟨q, hq, hroom⟩
  obtain rfl : p = q := Nat.add_right_cancel hq
  have hle := hroom.le_of_fresh (hf _ _ hp) (by omega)
  omega

theorem Sizes.maxMemorySize_lt (h : m.Sizes pools) (hfit : PoolsFit pools) :
    m.maxMemorySize + sizeofMemoryBlock < 2 ^ 64 := by
  have hlast := List.getLast?_eq_some_getLast hfit.ne_nil
  have hlt := hfit.aligned_lt (List.getLast_mem hfit.ne_nil)
  have hle := le_aligned (pools.getLast hfit.ne_nil).1
  rw [h.maxMemorySize, hlast, Option.map_some, Option.getD_some]
  omega

/-! ### What `malloc` is asked for -/

/-- The size that `allocMem` asks `malloc` for, if it asks: for a pool that is used for the first
time, for a pool without a free block, and for what is too large for the pools. -/
def asks (m : MemoryMgr) (nSize : ℕ) : Option ℕ :=
  if nSize ≤ m.maxMemorySize then do
    let k ← m.szAlloc nSize
    let a ← m.allocs[k]?
    if a.pBuf = none then some a.bufSize
    else if a.pHeader = none then some (size_t (nSize + sizeofMemoryBlock))
    else none
  else some (size_t (nSize + sizeofMemoryBlock))

/-- `malloc` returns memory where it is asked. -/
def Given (m : MemoryMgr) (nSize : ℕ) (answer : ℕ → Option ℕ) : Prop :=
  ∀ n, m.asks nSize = some n → (answer n).isSome

/-- `assert(0 == pReturn->_nRef)` stops the program: the first free block has references. -/
def Stopped (m : MemoryMgr) (nSize : ℕ) : Prop :=
  nSize ≤ m.maxMemorySize ∧ ∃ k a p b, m.szAlloc nSize = some k ∧ m.allocs[k]? = some a ∧
    a.pBuf ≠ none ∧ a.pHeader = some p ∧ m.blocks p = some b ∧ b.nRef ≠ 0

theorem mallocBlock_isSome (h : (answer (size_t (nSize + sizeofMemoryBlock))).isSome) :
    ∃ r, m.mallocBlock nSize answer = some r := by
  obtain ⟨p, hp⟩ := Option.isSome_iff_exists.mp h
  exact ⟨_, mallocBlock_eq_some.mpr ⟨p, hp, rfl, rfl⟩⟩

/-- Nothing but `NULL` and the assertion keeps `allocMem` from returning. -/
theorem Typed.allocMem_isSome (h : m.Typed A) (hs : m.Sizes pools) (hfit : PoolsFit pools)
    (hf : ∀ n p, answer n = some p → m.regions.Fresh p n) (hg : m.Given nSize answer)
    (hno : ¬ m.Stopped nSize) : ∃ r, m.allocMem nSize answer = some r := by
  unfold Given asks at hg
  unfold MemoryMgr.allocMem
  by_cases hle : nSize ≤ m.maxMemorySize
  · obtain ⟨k, a, hk, ha, -⟩ := hs.served hfit hle
    simp only [if_pos hle, hk, ha, Option.bind_eq_bind, Option.bind_some] at hg ⊢
    unfold MemoryMgr.allocMemory
    rw [ha, Option.bind_eq_bind, Option.bind_some]
    by_cases hnone : a.pBuf = none
    · rw [if_pos hnone] at hg ⊢
      obtain ⟨pBuf, hbuf⟩ := Option.isSome_iff_exists.mp (hg _ rfl)
      have hinit : m.initMemory k a answer =
          some ((m.give pBuf a.bufSize).initBlocks k a pBuf) := by
        rw [MemoryMgr.initMemory, malloc_eq_some hbuf, Option.map_some]
      obtain ⟨-, -, q, b, ha₁, hb, hzero⟩ := h.initMemory hs hfit ha hnone hf hinit
      simp only [hinit, ha₁, hb, hzero, Option.bind_eq_bind, Option.bind_some, if_true]
      exact ⟨_, rfl⟩
    · rw [if_neg hnone] at hg ⊢
      simp only [Option.bind_eq_bind, Option.bind_some, ha]
      cases hp : a.pHeader with
      | none =>
          rw [if_pos hp] at hg
          exact mallocBlock_isSome (hg _ rfl)
      | some p =>
          obtain ⟨b, hb, -⟩ := h.head k a ha p hp
          have hzero : b.nRef = 0 := by
            by_contra hne
            exact hno ⟨hle, k, a, p, b, hk, ha, hnone, hp, hb, hne⟩
          simp only [hb, hzero, Option.bind_some, if_true]
          exact ⟨_, rfl⟩
  · rw [if_neg hle] at hg ⊢
    exact mallocBlock_isSome (hg _ rfl)

theorem given_of_mallocBlock (hm : m.mallocBlock nSize answer = some (m', pMem)) :
    (answer (size_t (nSize + sizeofMemoryBlock))).isSome := by
  obtain ⟨p, hp, -⟩ := mallocBlock_eq_some.mp hm
  rw [hp]
  rfl

theorem given_of_allocMem (hm : m.allocMem nSize answer = some (m', pMem)) :
    m.Given nSize answer := by
  intro n hn
  unfold MemoryMgr.allocMem at hm
  unfold asks at hn
  by_cases hle : nSize ≤ m.maxMemorySize
  · rw [if_pos hle] at hm hn
    obtain ⟨k, hk, hm⟩ := Option.bind_eq_some_iff.mp hm
    obtain ⟨a, ha, hm⟩ := Option.bind_eq_some_iff.mp hm
    simp only [hk, ha, Option.bind_eq_bind, Option.bind_some] at hn
    split at hn
    · next hnone =>
        obtain rfl := Option.some.inj hn
        rw [if_pos hnone] at hm
        obtain ⟨m₁, hinit, -⟩ := Option.bind_eq_some_iff.mp hm
        obtain ⟨r, hr, -⟩ := Option.map_eq_some_iff.mp hinit
        obtain ⟨p, hp, -⟩ := Option.map_eq_some_iff.mp hr
        rw [hp]
        rfl
    · next hbuf =>
        simp only [if_neg hbuf, ha, Option.bind_eq_bind, Option.bind_some] at hm
        split at hn
        · next hp =>
            obtain rfl := Option.some.inj hn
            rw [hp] at hm
            exact given_of_mallocBlock hm
        · cases hn
  · rw [if_neg hle] at hm hn
    obtain rfl := Option.some.inj hn
    exact given_of_mallocBlock hm

/-- Where the program is stopped, `malloc` was not asked. -/
theorem Stopped.given (h : m.Stopped nSize) : m.Given nSize answer := by
  obtain ⟨hle, k, a, p, b, hk, ha, hbuf, hp, -⟩ := h
  intro n hn
  unfold asks at hn
  simp only [if_pos hle, hk, ha, if_neg hbuf, hp, Option.bind_eq_bind, Option.bind_some,
    reduceCtorEq, if_false] at hn

/-- The memory that is handed out can be used at its full size exactly if the size does not wrap
around with the header and `malloc` returns what it is asked for. -/
theorem Typed.usable_iff (h : m.Typed A) (hs : m.Sizes pools) (hfit : PoolsFit pools)
    (hf : ∀ n p, answer n = some p → m.regions.Fresh p n) (hn : nSize < 2 ^ 64) :
    ((∃ m' pMem, m.allocMem nSize answer = some (m', pMem) ∧ m'.Usable pMem nSize) ∨
      m.Stopped nSize) ↔ nSize + sizeofMemoryBlock < 2 ^ 64 ∧ m.Given nSize answer := by
  have hmax := hs.maxMemorySize_lt hfit
  constructor
  · rintro (⟨m', pMem, hm, hu⟩ | hstop)
    · refine ⟨?_, given_of_allocMem hm⟩
      by_contra hno
      unfold MemoryMgr.allocMem at hm
      rw [if_neg (by omega)] at hm
      exact not_usable_mallocBlock hf hn (not_lt.mp hno) hm hu
    · have hle := hstop.1
      exact ⟨by omega, hstop.given⟩
  · rintro ⟨hlt, hg⟩
    by_cases hstop : m.Stopped nSize
    · exact .inr hstop
    · obtain ⟨⟨m', pMem⟩, hm⟩ := h.allocMem_isSome hs hfit hf hg hstop
      exact .inl ⟨m', pMem, hm, (h.allocMem hs hfit hf hlt hm).2.2⟩

end MemoryMgr

namespace MemoryRun

variable {pools : List (ℕ × ℕ)} {s : MemoryRun}

/-- Sizes do not overflow, and regions that `malloc` returns are fresh. -/
def Served (s : MemoryRun) : MemoryEvent → Prop
  | .allocMem nSize answer => nSize + sizeofMemoryBlock < 2 ^ 64 ∧
      ∀ n p, answer n = some p → s.mgr.regions.Fresh p n
  | .addRef _ => True
  | .freeMem _ => True

/-- The runs in which references may be added and given back to any block at any time. -/
def anyUse (pools : List (ℕ × ℕ)) : System MemoryRun MemoryEvent where
  init s := s = ⟨.new pools, []⟩
  step s e s' := s.Served e ∧ s.next e = some s'

theorem typed_of_reachable (hfit : PoolsFit pools) (h : (anyUse pools).Reachable s) :
    s.mgr.Sizes pools ∧ ∃ A, s.mgr.Typed A := by
  refine System.Invariant.reachable
    (P := fun s => s.mgr.Sizes pools ∧ ∃ A, s.mgr.Typed A) ⟨?_, ?_⟩ h
  · intro s hs
    obtain rfl := hs
    refine ⟨MemoryMgr.new_sizes pools, _, MemoryMgr.new_headersOk pools, ?_, ?_⟩
    · intro k a ha
      rw [(MemoryMgr.new_alloc ha).2]
      exact fun _ hp => nomatch hp
    · exact fun _ _ _ hb => nomatch hb
  · intro s e s' hok he
    obtain ⟨hs, A, h⟩ := hok
    obtain ⟨hserved, hn⟩ := he
    cases e with
    | allocMem nSize answer =>
        obtain ⟨r, hr, rfl⟩ := Option.map_eq_some_iff.mp hn
        obtain ⟨hs', htyped, -⟩ := h.allocMem hs hfit hserved.2 hserved.1 hr
        exact ⟨hs', htyped⟩
    | addRef pMem =>
        obtain ⟨m, hm, rfl⟩ := Option.map_eq_some_iff.mp hn
        obtain ⟨⟨p, b⟩, hx, rfl⟩ := Option.map_eq_some_iff.mp hm
        obtain ⟨-, hb⟩ := MemoryMgr.header_eq_some.mp hx
        refine ⟨⟨hs.allocs, hs.szAlloc, hs.maxMemorySize⟩, A, ?_⟩
        exact h.edit hb _ rfl rfl fun j hj => h.link j p b hb hj
    | freeMem pMem =>
        obtain ⟨m, hm, rfl⟩ := Option.map_eq_some_iff.mp hn
        have hsome := hm
        unfold MemoryMgr.freeMem at hsome
        obtain ⟨⟨p, b⟩, hx, -⟩ := Option.bind_eq_some_iff.mp hsome
        obtain ⟨rfl, hb⟩ := MemoryMgr.header_eq_some.mp hx
        obtain ⟨m', hm', hfrees⟩ := h.toHeadersOk.freeMem hb
        obtain rfl := Option.some.inj (hm'.symm.trans hm)
        exact h.frees hs hb hfrees

end MemoryRun

end CellNet
