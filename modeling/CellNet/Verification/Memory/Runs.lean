import CellNet.Verification.Memory.Init
import Mathlib.Data.List.Nodup

/-! What the callers hold: each piece of memory has a block of its own, which counts the
references to it. -/

namespace CellNet

open Library MemoryMgr

variable {pools : List (ℕ × ℕ)} {m m' : MemoryMgr} {A A' : Arena} {free free' : ℕ → List ℕ}
  {k p : ℕ} {a : MemoryAlloc} {b : MemoryBlock} {s s' : MemoryRun} {h : Held}

theorem wrap32_one : wrap32 (1 : ℕ) = 1 := by
  decide

/-- The block in front of a piece of memory counts its references, and is long enough. -/
structure HeldOk (m : MemoryMgr) (A : Arena) (free : ℕ → List ℕ) (h : Held) : Prop where
  refs : 0 < h.refs
  block : ∃ p b len, h.pMem = p + sizeofMemoryBlock ∧ m.blocks p = some b ∧
    b.nRef = wrap32 h.refs ∧ (∀ k, p ∉ free k) ∧ A.Extent b.pAlloc ⟨p, len⟩ ∧
    h.nSize + sizeofMemoryBlock ≤ len

/-- Nothing that concerns the block at `q` has changed. -/
structure Same (m : MemoryMgr) (A : Arena) (free : ℕ → List ℕ) (m' : MemoryMgr) (A' : Arena)
    (free' : ℕ → List ℕ) (q : ℕ) : Prop where
  block : ∀ b, m.blocks q = some b → m'.blocks q = some b
  extent : ∀ o len, A.Extent o ⟨q, len⟩ → A'.Extent o ⟨q, len⟩
  free : ∀ k, q ∈ free' k → q ∈ free k

theorem HeldOk.same (hh : HeldOk m A free h)
    (hs : ∀ q b, m.blocks q = some b → h.pMem = q + sizeofMemoryBlock →
      Same m A free m' A' free' q) : HeldOk m' A' free' h := by
  obtain ⟨hr, p, b, len, hp, hb, hn, hf, he, hlen⟩ := hh
  have hsame := hs p b hb hp
  exact ⟨hr, p, b, len, hp, hsame.block b hb, hn, fun k hk => hf k (hsame.free k hk),
    hsame.extent _ _ he, hlen⟩

/-- The blocks of the pools are on their lists or held. -/
structure RunOk (pools : List (ℕ × ℕ)) (s : MemoryRun) (A : Arena) (free : ℕ → List ℕ) :
    Prop where
  sizes : s.mgr.Sizes pools
  blocks : s.mgr.BlocksOk A free
  held : ∀ h ∈ s.held, HeldOk s.mgr A free h
  once : (s.held.map Held.pMem).Nodup
  total : ∀ k S q, A.slab k = some S → S.Cell q →
    q ∈ free k ∨ ∃ h ∈ s.held, h.pMem = q + sizeofMemoryBlock

namespace RunOk

/-- One more piece of memory is handed out, the one behind the block at `p`. -/
theorem give (hrun : RunOk pools s A free) (hs : m'.Sizes pools) (hb : m'.BlocksOk A' free')
    {nSize : ℕ} (hsame : ∀ q b, s.mgr.blocks q = some b → q ≠ p →
      Same s.mgr A free m' A' free' q)
    (hnew : HeldOk m' A' free' ⟨p + sizeofMemoryBlock, nSize, 1⟩)
    (hp : ∀ h ∈ s.held, h.pMem ≠ p + sizeofMemoryBlock)
    (htotal : ∀ k S q, A'.slab k = some S → S.Cell q → q ≠ p →
      q ∈ free' k ∨ ∃ h ∈ s.held, h.pMem = q + sizeofMemoryBlock) :
    RunOk pools ⟨m', ⟨p + sizeofMemoryBlock, nSize, 1⟩ :: s.held⟩ A' free' := by
  constructor
  case sizes => exact hs
  case blocks => exact hb
  case held =>
    intro h hh
    rcases List.mem_cons.mp hh with rfl | hin
    · exact hnew
    · refine (hrun.held h hin).same fun q c hc hq => hsame q c hc ?_
      rintro rfl
      exact hp h hin hq
  case once =>
    apply List.nodup_cons.mpr
    refine ⟨?_, hrun.once⟩
    intro hm
    obtain ⟨h, hh, he⟩ := List.mem_map.mp hm
    exact hp h hh he
  case total =>
    intro k S q hS hq
    by_cases hqp : q = p
    · subst hqp
      exact .inr ⟨_, List.mem_cons_self, rfl⟩
    · apply (htotal k S q hS hq hqp).imp_right
      intro hx
      obtain ⟨h, hh, he⟩ := hx
      exact ⟨h, List.mem_cons_of_mem _ hh, he⟩

/-- What is held of the block at `p` changes. -/
theorem edit (hrun : RunOk pools s A free) (hs : m'.Sizes pools) (hb : m'.BlocksOk A' free')
    {f : Held → Option Held} (hsame : ∀ q ≠ p, Same s.mgr A free m' A' free' q)
    (hother : ∀ h ∈ s.held, h.pMem ≠ p + sizeofMemoryBlock → f h = some h)
    (hp : ∀ h ∈ s.held, h.pMem = p + sizeofMemoryBlock → ∀ h', f h = some h' →
      h'.pMem = h.pMem ∧ HeldOk m' A' free' h')
    (hslab : A'.slab = A.slab) (hfree : ∀ k q, q ∈ free k → q ∈ free' k)
    (hgone : ∀ h ∈ s.held, h.pMem = p + sizeofMemoryBlock →
      ∀ k S, A'.slab k = some S → S.Cell p → p ∈ free' k ∨ (f h).isSome) :
    RunOk pools ⟨m', s.held.filterMap f⟩ A' free' := by
  have hkeep : ∀ h ∈ s.held, ∀ h', f h = some h' → h'.pMem = h.pMem := by
    intro h hh h' hf
    by_cases hhp : h.pMem = p + sizeofMemoryBlock
    · exact (hp h hh hhp h' hf).1
    · rw [hother h hh hhp] at hf
      obtain rfl := Option.some.inj hf
      rfl
  constructor
  case sizes => exact hs
  case blocks => exact hb
  case held =>
    intro h' hh'
    obtain ⟨h, hh, hf⟩ := List.mem_filterMap.mp hh'
    by_cases hhp : h.pMem = p + sizeofMemoryBlock
    · exact (hp h hh hhp h' hf).2
    · rw [hother h hh hhp] at hf
      obtain rfl := Option.some.inj hf
      refine (hrun.held h hh).same fun q c hc hq => hsame q ?_
      rintro rfl
      exact hhp hq
  case once =>
    have hpw : s.held.Pairwise fun h h' => h.pMem ≠ h'.pMem := List.pairwise_map.mp hrun.once
    rw [List.Nodup, List.pairwise_map, List.pairwise_filterMap]
    refine hpw.imp_of_mem fun {h₁ h₂} h₁m h₂m hne x hx y hy he => hne ?_
    rw [← hkeep h₁ h₁m x hx, ← hkeep h₂ h₂m y hy, he]
  case total =>
    intro k S q hS hq
    rcases hrun.total k S q (hslab ▸ hS) hq with hqf | ⟨h, hh, he⟩
    · exact .inl (hfree k q hqf)
    · have hin : ∀ h', f h = some h' → ∃ h' ∈ s.held.filterMap f,
          h'.pMem = q + sizeofMemoryBlock := by
        intro h' hf
        exact ⟨h', List.mem_filterMap.mpr ⟨h, hh, hf⟩, (hkeep h hh h' hf).trans he⟩
      by_cases hqp : q = p
      · subst hqp
        apply (hgone h hh he k S hS hq).imp_right
        intro hsome
        obtain ⟨h', hf⟩ := Option.isSome_iff_exists.mp hsome
        exact hin h' hf
      · refine .inr (hin h (hother h hh ?_))
        intro hhp
        omega

/-! ### `allocMem` -/

theorem held_ne (hrun : RunOk pools s A free) (hp : p ∈ free k) :
    ∀ h ∈ s.held, h.pMem ≠ p + sizeofMemoryBlock := by
  intro h hh he
  obtain ⟨-, q, b, len, hq, -, -, hf, -⟩ := hrun.held h hh
  obtain rfl : q = p := by omega
  exact hf k hp

/-- The pool is set up. -/
theorem initMemory (hrun : RunOk pools s A free) (hfit : PoolsFit pools)
    (ha : s.mgr.allocs[k]? = some a) (hnone : a.pBuf = none) {answer : ℕ → Option ℕ}
    (hf : ∀ n, ∃ p, answer n = some p ∧ s.mgr.regions.Fresh p n) :
    ∃ m' A' free' p, s.mgr.initMemory k a answer = some m' ∧
      RunOk pools ⟨m', s.held⟩ A' free' ∧
      m'.allocs[k]? = some { a with pBuf := some p, pHeader := some p } := by
  obtain ⟨q, hq, hsize, hcount, hpos, hlt⟩ := hrun.sizes.alloc hfit ha
  rw [← hsize, ← hcount] at hlt
  rw [← hcount] at hpos
  obtain ⟨pBuf, hbuf, hfresh⟩ := hf a.bufSize
  let S : Slab := ⟨pBuf, a.nSize + sizeofMemoryBlock, a.nBlockSize⟩
  have hn : 0 < S.size * S.count := Nat.mul_pos (Nat.add_pos_right _ (by decide)) hpos
  rw [(sizes_of_fit (S := S) rfl rfl hpos hlt).2, ← hrun.blocks.regions] at hfresh
  obtain ⟨hok, hold⟩ := hrun.blocks.setUp ha hnone rfl rfl hpos hlt hfresh hn
  have hinit := initMemory_eq_some (S := S) rfl rfl hpos hlt s.mgr k hbuf
  have heq := setUp_eq (S := S) (a := a) rfl rfl hpos hlt s.mgr k
  have hk : A.slab k = none := hrun.blocks.headersOk.slab_eq_none ha hnone
  refine ⟨_, _, _, S.buf, hinit, ⟨?_, hok, ?_, hrun.once, ?_⟩, ?_⟩
  · rw [heq]
    exact ⟨(hrun.sizes.set ha _ _).allocs, hrun.sizes.szAlloc, hrun.sizes.maxMemorySize⟩
  · intro h hh
    refine (hrun.held h hh).same fun q b hb _ => ?_
    constructor
    · intro c hc
      exact (hold q c hc).2
    · intro o len he
      exact he.cut hk
    · intro j hj
      rcases mem_update.mp hj with ⟨-, hj⟩ | ⟨-, hj⟩
      · exact absurd (mem_cells.mp hj) (hold q b hb).1
      · exact hj
  · intro j T q hT hq
    rcases update_cases hT with ⟨rfl, hS⟩ | ⟨hj, hT⟩
    · obtain rfl := Option.some.inj hS
      rw [Function.update_self]
      exact .inl (mem_cells.mpr hq)
    · rw [Function.update_of_ne hj]
      exact hrun.total j T q hT hq
  · rw [heq]
    exact getElem?_set_same ha _

/-- The first block of a list is handed out. -/
theorem take (hrun : RunOk pools s A free) (ha : s.mgr.allocs[k]? = some a)
    (hp : a.pHeader = some p) {nSize : ℕ} (hsz : nSize ≤ a.nSize) :
    ∃ b free', s.mgr.blocks p = some b ∧ b.nRef = 0 ∧ RunOk pools
      ⟨store { s.mgr with allocs := s.mgr.allocs.set k { a with pHeader := b.pNext } } p
        { b with nRef := 1 }, ⟨p + sizeofMemoryBlock, nSize, 1⟩ :: s.held⟩ A free' := by
  obtain ⟨b, l, hb, hbk, hr, hl, hc⟩ := hrun.blocks.head ha hp
  have hmem : p ∈ free k := hl ▸ List.mem_cons_self
  obtain ⟨-, len, -, he⟩ := hrun.blocks.header p b hb
  obtain ⟨S, hS, -, hlen⟩ := Arena.Extent.slab_of_some (hbk ▸ he)
  obtain ⟨c, hc', -, hsize, -⟩ := hrun.blocks.headersOk.alloc hS
  obtain rfl := Option.some.inj (ha.symm.trans hc')
  refine ⟨b, Function.update free k l, hb, hr, ?_⟩
  apply hrun.give
  case hs =>
    exact ⟨(hrun.sizes.set ha _ _).allocs, hrun.sizes.szAlloc, hrun.sizes.maxMemorySize⟩
  case hb => exact hrun.blocks.take ha hb hl hc 1
  case hsame =>
    intro q c hq hqp
    exact ⟨fun d hd => (blocks_store_of_ne hqp).trans hd, fun o len he => he,
      fun j hj => (hrun.blocks.mem_tail hl hj).1⟩
  case hnew =>
    refine ⟨Nat.one_pos, p, _, len, rfl, blocks_store .., wrap32_one.symm,
      fun j hj => (hrun.blocks.mem_tail hl hj).2 rfl, he, ?_⟩
    dsimp only at hlen ⊢
    omega
  case hp => exact hrun.held_ne hmem
  case htotal =>
    intro j T q hT hq hqp
    apply (hrun.total j T q hT hq).imp_left
    intro hqj
    rw [mem_update]
    by_cases hj : j = k
    · subst hj
      rw [hl] at hqj
      exact .inl ⟨rfl, (List.mem_cons.mp hqj).resolve_left hqp⟩
    · exact .inr ⟨hj, hqj⟩

/-- A block of its own is handed out. -/
theorem own (hrun : RunOk pools s A free) {nSize : ℕ} {answer : ℕ → Option ℕ}
    (hlt : nSize + sizeofMemoryBlock < 2 ^ 64)
    (hf : ∀ n, ∃ p, answer n = some p ∧ s.mgr.regions.Fresh p n) :
    ∃ m' pMem A', s.mgr.mallocBlock nSize answer = some (m', pMem) ∧
      RunOk pools ⟨m', ⟨pMem, nSize, 1⟩ :: s.held⟩ A' free := by
  have hsize : size_t (nSize + sizeofMemoryBlock) = nSize + sizeofMemoryBlock :=
    Nat.mod_eq_of_lt hlt
  have hpos : 0 < nSize + sizeofMemoryBlock := Nat.add_pos_right _ (by decide)
  obtain ⟨p, hp, hfresh⟩ := hf (nSize + sizeofMemoryBlock)
  rw [← hrun.blocks.regions] at hfresh
  unfold mallocBlock
  rw [hsize, malloc_eq_some hp, Option.map_some]
  refine ⟨_, _, _, rfl, hrun.give ?_ (hrun.blocks.own hfresh (Nat.le_add_left _ _) hpos)
    ?_ ?_ ?_ ?_⟩
  · exact ⟨hrun.sizes.allocs, hrun.sizes.szAlloc, hrun.sizes.maxMemorySize⟩
  · intro q c hq hqp
    exact ⟨fun d hd => (blocks_store_of_ne hqp).trans hd, fun o len he => he.malloc,
      fun j hj => hj⟩
  · refine ⟨Nat.one_pos, _, _, nSize + sizeofMemoryBlock, rfl, blocks_store .., wrap32_one.symm,
      ?_, Arena.malloc_new, le_rfl⟩
    intro j hj
    obtain ⟨c, hc, -⟩ := hrun.blocks.blank j _ hj
    exact hrun.blocks.headersOk.ne_of_fresh hfresh hpos hc rfl
  · intro h hh he
    obtain ⟨-, q, c, len, hq, hc, -⟩ := hrun.held h hh
    apply hrun.blocks.headersOk.ne_of_fresh hfresh hpos hc
    omega
  · intro j T q hT hq _
    exact hrun.total j T q hT hq

theorem allocMemory (hrun : RunOk pools s A free) (hfit : PoolsFit pools)
    (ha : s.mgr.allocs[k]? = some a) {nSize : ℕ} {answer : ℕ → Option ℕ} (hsz : nSize ≤ a.nSize)
    (hlt : nSize + sizeofMemoryBlock < 2 ^ 64)
    (hf : ∀ n, ∃ p, answer n = some p ∧ s.mgr.regions.Fresh p n) :
    ∃ m' pMem A' free', s.mgr.allocMemory k nSize answer = some (m', pMem) ∧
      RunOk pools ⟨m', ⟨pMem, nSize, 1⟩ :: s.held⟩ A' free' := by
  unfold MemoryMgr.allocMemory
  rw [ha, Option.bind_eq_bind, Option.bind_some]
  by_cases hnone : a.pBuf = none
  · obtain ⟨m₁, A₁, free₁, p, hinit, hrun₁, ha₁⟩ := hrun.initMemory hfit ha hnone hf
    have hsz₁ : nSize ≤ MemoryAlloc.nSize { a with pBuf := some p, pHeader := some p } := hsz
    obtain ⟨b, free₂, hb, hr, hrun₂⟩ := hrun₁.take ha₁ rfl hsz₁
    dsimp only at hb
    refine ⟨_, _, _, _, ?_, hrun₂⟩
    simp only [if_pos hnone, hinit, ha₁, Option.bind_eq_bind, Option.bind_some, hb, hr]
    rfl
  · cases hp : a.pHeader with
    | none =>
        obtain ⟨m₁, pMem, A₁, hown, hrun₁⟩ := hrun.own hlt hf
        refine ⟨_, _, _, _, ?_, hrun₁⟩
        simp only [if_neg hnone, ha, Option.bind_eq_bind, Option.bind_some, hp, hown]
    | some p =>
        obtain ⟨b, free₂, hb, hr, hrun₂⟩ := hrun.take ha hp hsz
        refine ⟨_, _, _, _, ?_, hrun₂⟩
        simp only [if_neg hnone, ha, Option.bind_eq_bind, Option.bind_some, hp, hb, hr]
        rfl

theorem allocMem (hrun : RunOk pools s A free) (hfit : PoolsFit pools) {nSize : ℕ}
    {answer : ℕ → Option ℕ} (hlt : nSize + sizeofMemoryBlock < 2 ^ 64)
    (hf : ∀ n, ∃ p, answer n = some p ∧ s.mgr.regions.Fresh p n) :
    ∃ m' pMem A' free', s.mgr.allocMem nSize answer = some (m', pMem) ∧
      RunOk pools ⟨m', ⟨pMem, nSize, 1⟩ :: s.held⟩ A' free' := by
  unfold MemoryMgr.allocMem
  by_cases hle : nSize ≤ s.mgr.maxMemorySize
  · obtain ⟨k, a, hk, ha, hsz⟩ := hrun.sizes.served hfit hle
    rw [if_pos hle, hk, Option.bind_eq_bind, Option.bind_some]
    exact hrun.allocMemory hfit ha hsz hlt hf
  · obtain ⟨m', pMem, A', hown, hrun'⟩ := hrun.own hlt hf
    rw [if_neg hle]
    exact ⟨m', pMem, A', free, hown, hrun'⟩

/-! ### `addRef` and `freeMem` -/

theorem same_pMem (hrun : RunOk pools s A free) {h h' : Held} (hh : h ∈ s.held)
    (hh' : h' ∈ s.held) (he : h.pMem = h'.pMem) : h = h' :=
  List.inj_on_of_nodup_map hrun.once hh hh' he

/-- The count of a block that is held changes with its references. -/
theorem recount (hrun : RunOk pools s A free) (hh : h ∈ s.held)
    (hp : h.pMem = p + sizeofMemoryBlock) (hb : s.mgr.blocks p = some b) {refs : ℕ}
    (hpos : 0 < refs) {f : Held → Option Held}
    (hother : ∀ h ∈ s.held, h.pMem ≠ p + sizeofMemoryBlock → f h = some h)
    (hf : f h = some { h with refs }) :
    RunOk pools ⟨s.mgr.store p { b with nRef := wrap32 refs }, s.held.filterMap f⟩ A free := by
  obtain ⟨-, q, c, len, hq, hc, -, hfree, he, hlen⟩ := hrun.held h hh
  obtain rfl : q = p := by omega
  obtain rfl := Option.some.inj (hb.symm.trans hc)
  have hone : ∀ h' ∈ s.held, h'.pMem = q + sizeofMemoryBlock → h' = h := fun h' hh' hq' =>
    hrun.same_pMem hh' hh (hq'.trans hp.symm)
  apply hrun.edit
  case hs => exact ⟨hrun.sizes.allocs, hrun.sizes.szAlloc, hrun.sizes.maxMemorySize⟩
  case hb => exact hrun.blocks.recount hb hfree _
  case hsame =>
    intro r hr
    exact ⟨fun d hd => (blocks_store_of_ne hr).trans hd, fun o len he => he, fun j hj => hj⟩
  case hother => exact hother
  case hp =>
    intro h₁ hh₁ hq₁ h₂ hf₂
    obtain rfl := hone h₁ hh₁ hq₁
    obtain rfl := Option.some.inj (hf.symm.trans hf₂)
    exact ⟨rfl, hpos, q, _, len, hp, blocks_store .., rfl, hfree, he, hlen⟩
  case hslab => rfl
  case hfree => exact fun _ _ hq => hq
  case hgone =>
    intro h₁ hh₁ hq₁ j S _ _
    obtain rfl := hone h₁ hh₁ hq₁
    right
    rw [hf]
    rfl

/-- The last reference to a block is gone. -/
theorem drop (hrun : RunOk pools s A free) (hh : h ∈ s.held)
    (hp : h.pMem = p + sizeofMemoryBlock) (hb : s.mgr.blocks p = some b)
    (hm : s.mgr.Frees p b m') (hzero : wrap32 (b.nRef - 1) = 0) {f : Held → Option Held}
    (hother : ∀ h ∈ s.held, h.pMem ≠ p + sizeofMemoryBlock → f h = some h)
    (hf : f h = none) :
    ∃ A' free', RunOk pools ⟨m', s.held.filterMap f⟩ A' free' := by
  obtain ⟨-, q, c, len, hq, hc, -, hfree, he, -⟩ := hrun.held h hh
  obtain rfl : q = p := by omega
  obtain rfl := Option.some.inj (hb.symm.trans hc)
  have hgone : ∀ h₁ ∈ s.held, h₁.pMem = q + sizeofMemoryBlock → ∀ h₂, f h₁ ≠ some h₂ := by
    intro h₁ hh₁ hq₁ h₂ hf₂
    obtain rfl := hrun.same_pMem hh₁ hh (hq₁.trans hp.symm)
    rw [hf] at hf₂
    cases hf₂
  cases hm with
  | keep hr => exact absurd hzero hr
  | @pool k a _ hk ha =>
      refine ⟨A, Function.update free k (q :: free k), ?_⟩
      apply hrun.edit
      case hs =>
        exact ⟨(hrun.sizes.set ha _ _).allocs, hrun.sizes.szAlloc, hrun.sizes.maxMemorySize⟩
      case hb => exact hrun.blocks.putBack ha hb hk hfree
      case hsame =>
        intro r hr
        refine ⟨fun d hd => (blocks_store_of_ne hr).trans hd, fun o len he => he, ?_⟩
        intro j hj
        rcases mem_update.mp hj with ⟨rfl, hin⟩ | ⟨-, hin⟩
        · exact (List.mem_cons.mp hin).resolve_left hr
        · exact hin
      case hother => exact hother
      case hp => exact fun h₁ hh₁ hq₁ h₂ hf₂ => absurd hf₂ (hgone h₁ hh₁ hq₁ h₂)
      case hslab => rfl
      case hfree =>
        intro j r hr
        rw [mem_update]
        by_cases hjk : j = k
        · subst hjk
          exact .inl ⟨rfl, List.mem_cons_of_mem _ hr⟩
        · exact .inr ⟨hjk, hr⟩
      case hgone =>
        intro _ _ _ j S hS hq
        left
        obtain ⟨hjk, -⟩ := (Arena.Extent.cell hS hq).unique he rfl
        obtain rfl := Option.some.inj (hjk.trans hk)
        exact mem_update.mpr (.inl ⟨rfl, List.mem_cons_self⟩)
  | own _ hk =>
      obtain ⟨hw, hok⟩ := hrun.blocks.release hb hk hfree
      refine ⟨A.free q hw, free, ?_⟩
      apply hrun.edit
      case hs => exact ⟨hrun.sizes.allocs, hrun.sizes.szAlloc, hrun.sizes.maxMemorySize⟩
      case hb => exact hok
      case hsame =>
        intro r hr
        exact ⟨fun d hd => (Function.update_of_ne hr ..).trans hd, fun o len he => he.free hr,
          fun j hj => hj⟩
      case hother => exact hother
      case hp => exact fun h₁ hh₁ hq₁ h₂ hf₂ => absurd hf₂ (hgone h₁ hh₁ hq₁ h₂)
      case hslab => rfl
      case hfree => exact fun _ _ hq => hq
      case hgone =>
        intro _ _ _ j S hS hq
        obtain ⟨hjk, -⟩ := (Arena.Extent.cell (A := A) hS hq).unique he rfl
        rw [hk] at hjk
        cases hjk

/-- The block of a piece of memory that is held, and what `freeMem` does to it. -/
theorem freeMem (hrun : RunOk pools s A free) (hh : h ∈ s.held) :
    ∃ p b m', h.pMem = p + sizeofMemoryBlock ∧ s.mgr.blocks p = some b ∧
      b.nRef = wrap32 h.refs ∧ (∀ k, p ∉ free k) ∧ s.mgr.freeMem h.pMem = some m' ∧
      s.mgr.Frees p b m' := by
  obtain ⟨-, p, b, len, hp, hb, hn, hf, -⟩ := hrun.held h hh
  obtain ⟨m', hm, hfrees⟩ := hrun.blocks.headersOk.freeMem hb
  exact ⟨p, b, m', hp, hb, hn, hf, hp ▸ hm, hfrees⟩

theorem addRef (hrun : RunOk pools s A free) (hh : h ∈ s.held) :
    ∃ m', s.mgr.addRef h.pMem = some m' ∧ RunOk pools ⟨m', s.held.map fun h' =>
      if h'.pMem = h.pMem then { h' with refs := h'.refs + 1 } else h'⟩ A free := by
  obtain ⟨-, p, b, len, hp, hb, hn, -⟩ := hrun.held h hh
  have hheader : s.mgr.header h.pMem = some (p, b) := header_eq_some.mpr ⟨hp, hb⟩
  have hcount : wrap32 (b.nRef + 1) = wrap32 ((h.refs + 1 : ℕ) : ℤ) := by
    rw [hn]
    unfold wrap32
    omega
  refine ⟨s.mgr.store p { b with nRef := wrap32 (b.nRef + 1) }, ?_, ?_⟩
  · unfold MemoryMgr.addRef
    rw [hheader]
    rfl
  · rw [hcount, ← List.filterMap_eq_map]
    apply hrun.recount hh hp hb (Nat.succ_pos _)
    · intro h' _ hne
      rw [← hp] at hne
      exact congrArg some (if_neg hne)
    · exact congrArg some (if_pos rfl)

end RunOk

namespace MemoryRun

/-- A count that wraps around to one reference counts one. -/
def Counted (s : MemoryRun) : MemoryEvent → Prop
  | .freeMem pMem => ∀ h ∈ s.held, h.pMem = pMem → h.refs % 2 ^ 32 = 1 → h.refs = 1
  | _ => True

theorem last_iff {refs : ℕ} : wrap32 (wrap32 refs - 1) = 0 ↔ refs % 2 ^ 32 = 1 := by
  unfold wrap32
  omega

end MemoryRun

namespace RunOk

/-- Every step that callers may make is defined. -/
theorem next_isSome (hrun : RunOk pools s A free) (hfit : PoolsFit pools) {e : MemoryEvent}
    (hl : s.Legal e) : ∃ s', s.next e = some s' := by
  cases e with
  | allocMem nSize answer =>
      obtain ⟨m', pMem, A', free', hm, -⟩ := hrun.allocMem hfit hl.1 hl.2
      exact ⟨_, Option.map_eq_some_iff.mpr ⟨_, hm, rfl⟩⟩
  | addRef pMem =>
      obtain ⟨h, hh, rfl⟩ := hl
      obtain ⟨m', hm, -⟩ := hrun.addRef hh
      exact ⟨_, Option.map_eq_some_iff.mpr ⟨_, hm, rfl⟩⟩
  | freeMem pMem =>
      obtain ⟨h, hh, rfl⟩ := hl
      obtain ⟨p, b, m', -, -, -, -, hm, -⟩ := hrun.freeMem hh
      exact ⟨_, Option.map_eq_some_iff.mpr ⟨_, hm, rfl⟩⟩

theorem next (hrun : RunOk pools s A free) (hfit : PoolsFit pools) {e : MemoryEvent}
    (hc : s.Counted e) (hl : s.Legal e) (hn : s.next e = some s') :
    ∃ A' free', RunOk pools s' A' free' := by
  cases e with
  | allocMem nSize answer =>
      obtain ⟨m', pMem, A', free', hm, hrun'⟩ := hrun.allocMem hfit hl.1 hl.2
      obtain ⟨r, hr, rfl⟩ := Option.map_eq_some_iff.mp hn
      obtain rfl := Option.some.inj (hm.symm.trans hr)
      exact ⟨A', free', hrun'⟩
  | addRef pMem =>
      obtain ⟨h, hh, rfl⟩ := hl
      obtain ⟨m', hm, hrun'⟩ := hrun.addRef hh
      obtain ⟨r, hr, rfl⟩ := Option.map_eq_some_iff.mp hn
      obtain rfl := Option.some.inj (hm.symm.trans hr)
      exact ⟨A, free, hrun'⟩
  | freeMem pMem =>
      obtain ⟨h, hh, rfl⟩ := hl
      obtain ⟨p, b, m', hp, hb, hnRef, -, hm, hfrees⟩ := hrun.freeMem hh
      obtain ⟨r, hr, rfl⟩ := Option.map_eq_some_iff.mp hn
      obtain rfl := Option.some.inj (hm.symm.trans hr)
      have hlast : wrap32 (b.nRef - 1) = 0 ↔ h.refs = 1 := by
        rw [hnRef, MemoryRun.last_iff]
        constructor
        · exact hc h hh rfl
        · intro h₁
          omega
      by_cases hone : h.refs = 1
      · apply hrun.drop hh hp hb hfrees (hlast.mpr hone)
        · intro h' _ hne
          rw [← hp] at hne
          exact if_neg hne
        · exact (if_pos rfl).trans (if_pos hone)
      · have hpos := (hrun.held h hh).refs
        have hwrap : wrap32 (b.nRef - 1) = wrap32 ((h.refs - 1 : ℕ) : ℤ) := by
          rw [hnRef, Nat.cast_sub hpos]
          unfold wrap32
          omega
        cases hfrees with
        | keep _ =>
            refine ⟨A, free, ?_⟩
            rw [hwrap]
            apply hrun.recount hh hp hb (by omega)
            · intro h' _ hne
              rw [← hp] at hne
              exact if_neg hne
            · exact (if_pos rfl).trans (if_neg hone)
        | pool hzero => exact absurd (hlast.mp hzero) hone
        | own hzero => exact absurd (hlast.mp hzero) hone

end RunOk

end CellNet
