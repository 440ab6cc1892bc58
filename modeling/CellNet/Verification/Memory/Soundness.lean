import CellNet.Library.Transition
import CellNet.Verification.Memory.Runs

/-! The allocator in every run: memory that is held overlaps neither other memory that is held
nor a header, and a block goes back with its last reference. -/

namespace CellNet

open Library MemoryMgr

variable {pools : List (ℕ × ℕ)} {m m' : MemoryMgr} {A A' : Arena} {free free' : ℕ → List ℕ}
  {k p : ℕ} {b : MemoryBlock} {s s' : MemoryRun} {h : Held}

def Held.payload (h : Held) : Span :=
  ⟨h.pMem, h.nSize⟩

namespace MemoryMgr

/-- There is a block of the pool `k` at `p`. -/
def PoolBlock (m : MemoryMgr) (k p : ℕ) : Prop :=
  ∃ S, m.slab k = some S ∧ S.Cell p

/-- The block is on the list of a pool, or `free` got it. -/
def Returned (m : MemoryMgr) (pMem : ℕ) : Prop :=
  m.header pMem = none ∨ ∃ k l p, m.FreeList k l ∧ p ∈ l ∧ pMem = p + sizeofMemoryBlock

end MemoryMgr

namespace MemoryRun

structure Sound (s : MemoryRun) : Prop where
  payloads : s.held.Pairwise fun h h' => h.payload.Apart h'.payload
  headers : ∀ h ∈ s.held, ∀ p, (s.mgr.blocks p).isSome → h.payload.Apart ⟨p, sizeofMemoryBlock⟩
  blocks : ∀ p q, (s.mgr.blocks p).isSome → (s.mgr.blocks q).isSome → p ≠ q →
    Span.Apart ⟨p, sizeofMemoryBlock⟩ ⟨q, sizeofMemoryBlock⟩
  lists : ∀ k < s.mgr.allocs.length, ∃ l, s.mgr.FreeList k l ∧ l.Nodup ∧
    ∀ p ∈ l, s.mgr.PoolBlock k p
  owner : ∀ k k' p, s.mgr.PoolBlock k p → s.mgr.PoolBlock k' p → k = k'
  placed : ∀ k p, s.mgr.PoolBlock k p → Xor (∃ h ∈ s.held, h.pMem = p + sizeofMemoryBlock)
    (∃ l, s.mgr.FreeList k l ∧ p ∈ l)
  once : (s.held.map Held.pMem).Nodup
  kept : ∀ h ∈ s.held, ¬ s.mgr.Returned h.pMem

end MemoryRun

/-! ### The blocks on the lists -/

theorem MemoryMgr.BlocksOk.returned_iff (hok : m.BlocksOk A free)
    (hb : m.blocks p = some b) :
    m.Returned (p + sizeofMemoryBlock) ↔ ∃ k, p ∈ free k := by
  constructor
  · intro hr
    rcases hr with hr | ⟨k, l, q, hl, hq, he⟩
    · rw [header_eq_some.mpr ⟨rfl, hb⟩] at hr
      cases hr
    · obtain rfl : p = q := by omega
      exact ⟨k, hok.freeList_eq hl ▸ hq⟩
  · intro hk
    obtain ⟨k, hk⟩ := hk
    obtain ⟨S, hS, -⟩ := hok.cell hk
    obtain ⟨a, ha, -⟩ := hok.headersOk.alloc hS
    exact .inr ⟨k, free k, p, ⟨a, ha, hok.chain k a ha⟩, hk, rfl⟩

/-- `freeMem` returns a block exactly when its count drops to zero. -/
theorem MemoryMgr.Frees.returned_iff (hm : m.Frees p b m') (hok : m.BlocksOk A free)
    (hb : m.blocks p = some b) (hp : ∀ k, p ∉ free k) :
    m'.Returned (p + sizeofMemoryBlock) ↔ wrap32 (b.nRef - 1) = 0 := by
  cases hm with
  | keep hr =>
      rw [(hok.recount hb hp _).returned_iff (blocks_store ..)]
      constructor
      · intro hk
        obtain ⟨k, hk⟩ := hk
        exact absurd hk (hp k)
      · exact fun hz => absurd hz hr
  | @pool k a hr hk ha =>
      rw [(hok.putBack ha hb hk hp).returned_iff (blocks_store ..)]
      exact ⟨fun _ => hr, fun _ => ⟨k, mem_update.mpr (.inl ⟨rfl, List.mem_cons_self⟩)⟩⟩
  | own hr _ =>
      refine ⟨fun _ => hr, fun _ => .inl ?_⟩
      rw [Option.eq_none_iff_forall_ne_some]
      intro x hx
      obtain ⟨hq, hx⟩ := header_eq_some.mp hx
      obtain rfl : p = x.1 := by omega
      rcases update_cases hx with ⟨-, hx⟩ | ⟨hne, -⟩
      · cases hx
      · exact hne rfl

theorem Held.payload_within {len : ℕ} (hp : h.pMem = p + sizeofMemoryBlock)
    (hlen : h.nSize + sizeofMemoryBlock ≤ len) : h.payload.Within ⟨p, len⟩ := by
  constructor
  · simp only [Held.payload]
    omega
  · simp only [Held.payload]
    omega

theorem header_within {len : ℕ} (hlen : sizeofMemoryBlock ≤ len) :
    Span.Within ⟨p, sizeofMemoryBlock⟩ ⟨p, len⟩ :=
  ⟨le_rfl, Nat.add_le_add_left hlen _⟩

namespace RunOk

theorem payloads (hrun : RunOk pools s A free) :
    s.held.Pairwise fun h h' => h.payload.Apart h'.payload := by
  have hpw : s.held.Pairwise fun h h' => h.pMem ≠ h'.pMem := List.pairwise_map.mp hrun.once
  refine hpw.imp_of_mem fun {h h'} hh hh' hne => ?_
  obtain ⟨-, p, b, len, hp, -, -, -, he, hlen⟩ := hrun.held h hh
  obtain ⟨-, p', b', len', hp', -, -, -, he', hlen'⟩ := hrun.held h' hh'
  have hpp : p ≠ p' := by
    rintro rfl
    exact hne (hp.trans hp'.symm)
  exact (he.apart he' hpp).within (Held.payload_within hp hlen) (Held.payload_within hp' hlen')

theorem headers (hrun : RunOk pools s A free) (hh : h ∈ s.held) (hb : s.mgr.blocks p = some b) :
    h.payload.Apart ⟨p, sizeofMemoryBlock⟩ := by
  obtain ⟨-, q, c, len, hq, -, -, -, he, hlen⟩ := hrun.held h hh
  obtain ⟨-, len', hlen', he'⟩ := hrun.blocks.header p b hb
  by_cases hqp : q = p
  · subst hqp
    right
    simp only [Held.payload]
    omega
  · exact (he.apart he' hqp).within (Held.payload_within hq hlen) (header_within hlen')

theorem placed (hrun : RunOk pools s A free) (hp : s.mgr.PoolBlock k p) :
    Xor (∃ h ∈ s.held, h.pMem = p + sizeofMemoryBlock) (∃ l, s.mgr.FreeList k l ∧ p ∈ l) := by
  obtain ⟨S, hS, hc⟩ := hp
  rw [← hrun.blocks.slab] at hS
  obtain ⟨a, ha, -⟩ := hrun.blocks.headersOk.alloc hS
  have hlist : (∃ l, s.mgr.FreeList k l ∧ p ∈ l) ↔ p ∈ free k := by
    constructor
    · intro hl
      obtain ⟨l, hl, hp⟩ := hl
      exact hrun.blocks.freeList_eq hl ▸ hp
    · intro hp
      exact ⟨free k, ⟨a, ha, hrun.blocks.chain k a ha⟩, hp⟩
  rw [hlist]
  rcases hrun.total k S p hS hc with hf | hheld
  · refine .inr ⟨hf, ?_⟩
    intro hheld
    obtain ⟨h, hh, he⟩ := hheld
    exact hrun.held_ne hf h hh he
  · refine .inl ⟨hheld, ?_⟩
    intro hf
    obtain ⟨h, hh, he⟩ := hheld
    exact hrun.held_ne hf h hh he

theorem sound (hrun : RunOk pools s A free) : s.Sound := by
  constructor
  case payloads => exact hrun.payloads
  case headers =>
    intro h hh p hp
    obtain ⟨b, hb⟩ := Option.isSome_iff_exists.mp hp
    exact hrun.headers hh hb
  case blocks =>
    intro p q hp hq hne
    obtain ⟨b, hb⟩ := Option.isSome_iff_exists.mp hp
    obtain ⟨c, hc⟩ := Option.isSome_iff_exists.mp hq
    obtain ⟨-, len, hlen, he⟩ := hrun.blocks.header p b hb
    obtain ⟨-, len', hlen', he'⟩ := hrun.blocks.header q c hc
    exact (he.apart he' hne).within (header_within hlen) (header_within hlen')
  case lists =>
    intro k hk
    have ha := List.getElem?_eq_getElem hk
    refine ⟨free k, ⟨_, ha, hrun.blocks.chain k _ ha⟩, hrun.blocks.nodup k, ?_⟩
    intro p hp
    obtain ⟨S, hS, hc⟩ := hrun.blocks.cell hp
    exact ⟨S, hrun.blocks.slab ▸ hS, hc⟩
  case owner =>
    intro k k' p hp hp'
    obtain ⟨S, hS, hc⟩ := hp
    obtain ⟨S', hS', hc'⟩ := hp'
    rw [← hrun.blocks.slab] at hS hS'
    exact Option.some.inj ((Arena.Extent.cell hS hc).unique (.cell hS' hc') rfl).1
  case placed => exact fun k p hp => hrun.placed hp
  case once => exact hrun.once
  case kept =>
    intro h hh hr
    obtain ⟨-, p, b, len, hp, hb, -, hf, -⟩ := hrun.held h hh
    rw [hp, hrun.blocks.returned_iff hb] at hr
    obtain ⟨k, hk⟩ := hr
    exact hf k hk

/-- `freeMem` returns a block that counts one reference. -/
theorem returned_iff (hrun : RunOk pools s A free) (hh : h ∈ s.held)
    (hn : s.next (.freeMem h.pMem) = some s') :
    s'.mgr.Returned h.pMem ↔ h.refs % 2 ^ 32 = 1 := by
  obtain ⟨p, b, m', hp, hb, hnRef, hf, hm, hfrees⟩ := hrun.freeMem hh
  obtain ⟨r, hr, rfl⟩ := Option.map_eq_some_iff.mp hn
  obtain rfl := Option.some.inj (hm.symm.trans hr)
  rw [hp, hfrees.returned_iff hrun.blocks hb hf, hnRef]
  exact MemoryRun.last_iff

end RunOk

namespace MemoryRun

theorem new_runOk (pools : List (ℕ × ℕ)) :
    RunOk pools ⟨.new pools, []⟩ .empty fun _ => [] := by
  constructor
  case sizes => exact new_sizes pools
  case blocks => exact new_blocksOk pools
  case held => exact fun _ hh => nomatch hh
  case once => exact List.nodup_nil
  case total => exact fun _ _ _ hS => nomatch hS

theorem runOk_of_reachable (hfit : PoolsFit pools)
    (h : ((system pools).guard Counted).Reachable s) : ∃ A free, RunOk pools s A free := by
  refine System.Invariant.reachable (P := fun s => ∃ A free, RunOk pools s A free) ⟨?_, ?_⟩ h
  · intro s hs
    obtain rfl := hs
    exact ⟨_, _, new_runOk pools⟩
  · intro s e s' hs he
    obtain ⟨A, free, hrun⟩ := hs
    exact hrun.next hfit he.1 he.2.1 he.2.2

/-- As long as no count wraps around to one reference, the allocator is sound, and `freeMem`
returns a block exactly with its last reference; where a count has wrapped, it does so too
early. -/
theorem sound_while (hfit : PoolsFit pools) :
    ∀ s, ((system pools).guard Counted).Reachable s → s.Sound ∧
      (∀ e, s.Legal e → ∃ s', s.next e = some s') ∧
      ∀ h ∈ s.held, ∀ s', s.next (.freeMem h.pMem) = some s' →
        ((s'.mgr.Returned h.pMem ↔ h.refs = 1) ↔ s.Counted (.freeMem h.pMem)) := by
  intro s hs
  obtain ⟨A, free, hrun⟩ := runOk_of_reachable hfit hs
  refine ⟨hrun.sound, fun e hl => hrun.next_isSome hfit hl, ?_⟩
  intro h hh s' hn
  rw [hrun.returned_iff hh hn]
  constructor
  · intro hiff h' hh' he hlast
    obtain rfl := hrun.same_pMem hh' hh he
    exact hiff.mp hlast
  · intro hc
    constructor
    · exact hc h hh rfl
    · intro hone
      omega

/-- Ten bytes of the only pool, which has two blocks. -/
def handed : MemoryRun :=
  (next ⟨.new [(64, 2)], []⟩ (.allocMem 10 fun _ => some 4096)).getD ⟨.new [], []⟩

theorem sound_handed : handed.Sound ∧
    ∃ s', handed.next (.freeMem 4128) = some s' ∧ s'.mgr.Returned 4128 := by
  have hfit : PoolsFit [(64, 2)] := ⟨by decide, by decide, by decide⟩
  have hreach : ((system [(64, 2)]).guard Counted).Reachable handed := by
    have h₀ : ((system [(64, 2)]).guard Counted).Reachable ⟨.new [(64, 2)], []⟩ := .init rfl
    have hlegal : Legal ⟨.new [(64, 2)], []⟩ (.allocMem 10 fun _ => some 4096) :=
      ⟨by decide, fun _ => ⟨4096, rfl, fun _ _ hb => nomatch hb⟩⟩
    exact h₀.step (l := .allocMem 10 fun _ => some 4096) ⟨trivial, hlegal, rfl⟩
  obtain ⟨hsound, hdefined, hreturned⟩ := sound_while hfit handed hreach
  have hheld : (⟨4128, 10, 1⟩ : Held) ∈ handed.held := List.mem_cons_self
  obtain ⟨s', hs'⟩ := hdefined (.freeMem 4128) ⟨_, hheld, rfl⟩
  have hcounted : handed.Counted (.freeMem 4128) := by
    intro h hh _ _
    obtain rfl := List.mem_singleton.mp hh
    rfl
  exact ⟨hsound, s', hs', ((hreturned _ hheld s' hs').mpr hcounted).mpr rfl⟩

/-- After `allocMem(200)`, with `malloc` returning 4096, and `n` times `addRef`. -/
def shared (n : ℕ) : MemoryRun where
  mgr := ((MemoryMgr.new MemoryMgr.pools).give 4096 232).store 4096
    ⟨-1, wrap32 (n + 1 : ℕ), none, none, false⟩
  held := [⟨4128, 200, n + 1⟩]

theorem shared_addRef (n : ℕ) : (shared n).next (.addRef 4128) = some (shared (n + 1)) := by
  have hcount : wrap32 (wrap32 (n + 1 : ℕ) + 1) = wrap32 ((n + 1 + 1 : ℕ) : ℤ) := by
    unfold wrap32
    omega
  have hheader : (shared n).mgr.header 4128 =
      some (4096, ⟨-1, wrap32 (n + 1 : ℕ), none, none, false⟩) :=
    header_eq_some.mpr ⟨rfl, blocks_store ..⟩
  unfold next
  dsimp only
  unfold MemoryMgr.addRef
  rw [hheader, Option.map_some, Option.map_some]
  dsimp only
  rw [hcount]
  unfold shared store
  dsimp only
  rw [Function.update_idem]
  rfl

theorem shared_path (n j : ℕ) : (system MemoryMgr.pools).Path (shared j)
    (List.replicate n (.addRef 4128)) (shared (j + n)) := by
  induction n generalizing j with
  | zero => exact .nil _
  | succ n ih =>
      have hrest := ih (j + 1)
      rw [Nat.add_right_comm, Nat.add_assoc] at hrest
      exact .cons ⟨⟨_, List.mem_cons_self, rfl⟩, shared_addRef j⟩ hrest

theorem shared_freeMem {n : ℕ} (hn : wrap32 (n + 1 : ℕ) = 1) (h₀ : n ≠ 0) :
    (shared n).next (.freeMem 4128) = some ⟨.new MemoryMgr.pools, [⟨4128, 200, n⟩]⟩ := by
  have hheader : (shared n).mgr.header 4128 =
      some (4096, ⟨-1, wrap32 (n + 1 : ℕ), none, none, false⟩) :=
    header_eq_some.mpr ⟨rfl, blocks_store ..⟩
  have hzero : wrap32 (1 - 1) = 0 := by decide
  have hblocks : Function.update (MemoryMgr.new MemoryMgr.pools).blocks 4096 none =
      (MemoryMgr.new MemoryMgr.pools).blocks := Function.update_eq_self ..
  have hregions : Function.update (MemoryMgr.new MemoryMgr.pools).regions 4096 none =
      (MemoryMgr.new MemoryMgr.pools).regions := Function.update_eq_self ..
  have hsome : (Function.update (MemoryMgr.new MemoryMgr.pools).regions 4096 (some 232)
      4096).isSome := by
    rw [Function.update_self]
    rfl
  have hheld : (if n + 1 = 1 then none else some (⟨4128, 200, n + 1 - 1⟩ : Held)) =
      some ⟨4128, 200, n⟩ := if_neg (by omega)
  have hfree : (shared n).mgr.freeMem 4128 = some (.new MemoryMgr.pools) := by
    unfold MemoryMgr.freeMem
    rw [hheader, Option.bind_eq_bind, Option.bind_some, hn]
    simp only [Bool.false_eq_true, if_false, hzero, ne_eq, not_true]
    unfold MemoryMgr.free shared store MemoryMgr.give
    dsimp only
    rw [if_pos hsome, Function.update_idem, Function.update_idem, Function.update_idem, hblocks,
      hregions]
  unfold next
  dsimp only
  rw [hfree]
  unfold shared
  simp only [Option.map_some, List.filterMap_cons, if_true, hheld, List.filterMap_nil]

theorem allocMem_new (held : List Held) :
    next ⟨.new MemoryMgr.pools, held⟩ (.allocMem 200 fun _ => some 4096) =
      some ⟨(shared 0).mgr, ⟨4128, 200, 1⟩ :: held⟩ := by
  rfl

/-- Two pieces of memory at the same address: 2^32 references are added, so the first `freeMem`
gives the block back, and `malloc` returns it again. -/
def overcounted : List MemoryEvent :=
  .allocMem 200 (fun _ => some 4096) ::
    (List.replicate 4294967296 (.addRef 4128) ++ [.freeMem 4128, .allocMem 200 fun _ => some 4096])

theorem not_sound_overcounted : PoolsFit MemoryMgr.pools ∧
    ∃ s, (system MemoryMgr.pools).Path ⟨.new MemoryMgr.pools, []⟩ overcounted s ∧ ¬ s.Sound := by
  have hfresh : ∀ n, (MemoryMgr.new MemoryMgr.pools).regions.Fresh 4096 n :=
    fun _ _ _ hb => nomatch hb
  have hlegal : ∀ held, Legal ⟨.new MemoryMgr.pools, held⟩ (.allocMem 200 fun _ => some 4096) :=
    fun held => ⟨by decide, fun n => ⟨4096, rfl, hfresh n⟩⟩
  have hwrap : wrap32 (4294967296 + 1 : ℕ) = 1 := by decide
  refine ⟨⟨by decide, by decide, by decide⟩,
    ⟨(shared 0).mgr, [⟨4128, 200, 1⟩, ⟨4128, 200, 4294967296⟩]⟩, ?_, ?_⟩
  · have hrefs := shared_path 4294967296 0
    rw [Nat.zero_add] at hrefs
    refine .cons ⟨hlegal [], allocMem_new []⟩ (hrefs.append ?_)
    refine .cons ⟨⟨_, List.mem_cons_self, rfl⟩, shared_freeMem hwrap (by decide)⟩ ?_
    exact .single ⟨hlegal _, allocMem_new _⟩
  · intro hs
    have hp := (List.pairwise_cons.mp hs.payloads).1 _ List.mem_cons_self
    exact Span.not_apart_self (x := ⟨4128, 200⟩) (by decide) hp

end MemoryRun

end CellNet
