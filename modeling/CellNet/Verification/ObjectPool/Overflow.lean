import CellNet.Verification.ObjectPool.Soundness
import Mathlib.Data.Int.Interval

/-! Where an object pool does not work: its block is larger than any object may be, or it has more
nodes than its `int`s can count. -/

namespace CellNet

open Library CellObjectPool

variable {sizeofType nPoolSize pBuf p : ℕ} {s t : ObjectRun} {ls : List ObjectEvent} {lo : ℤ}

namespace CellObjectPool

variable {size total : ℕ} {x y : Links}

/-! ### A block that is too large -/

theorem linkNode_inside {n : ℤ} (h : linkNode pBuf size total x n = some y) :
    toSize (n * size) + sizeofNodeHeader ≤ total := by
  obtain ⟨nodes, hw, -⟩ := Option.bind_eq_some_iff.mp h
  unfold write at hw
  split at hw
  · omega
  · cases hw

/-- Each node that the loop comes to lies in the block. -/
theorem linkNodes_inside {fuel n m : ℕ}
    (h : linkNodes pBuf size total nPoolSize fuel n x = some y) (hn : n ≤ m) (hm : m < nPoolSize)
    (hi : m < 2 ^ 31) : toSize ((m : ℤ) * size) + sizeofNodeHeader ≤ total := by
  induction fuel generalizing n x with
  | zero => cases h
  | succ fuel ih =>
      unfold linkNodes at h
      rw [toSize_natCast (by omega), if_pos (by omega)] at h
      obtain ⟨z, hz, h⟩ := Option.bind_eq_some_iff.mp h
      rcases Nat.eq_or_lt_of_le hn with rfl | hlt
      · exact linkNode_inside hz
      · have hw : wrap32 ((n : ℤ) + 1) = (n + 1 : ℕ) := by
          rw [wrap32_eq (by omega) (by omega), Nat.cast_succ]
        rw [hw] at h
        exact ih h hlt

/-- The last node whose offset does not wrap around is too far out. -/
theorem initPool_none (hT : sizeofType < 2 ^ 63) (hN : nPoolSize ≤ 2 ^ 31)
    (hbig : 2 ^ 63 ≤ nPoolSize * (sizeofType + sizeofNodeHeader)) :
    initPool sizeofType nPoolSize pBuf = none := by
  have h16 : sizeofNodeHeader = 16 := rfl
  have hsize : realSize sizeofType = sizeofType + sizeofNodeHeader :=
    Nat.mod_eq_of_lt (by omega)
  rw [Option.eq_none_iff_forall_ne_some]
  intro c hc
  unfold initPool totalSize at hc
  rw [hsize] at hc
  generalize hR : sizeofType + sizeofNodeHeader = size at hc hbig
  dsimp only at hc
  split at hc
  · next htotal =>
      obtain ⟨nodes, -, hw⟩ := Option.bind_eq_some_iff.mp hc
      obtain ⟨y, hy, -⟩ := Option.bind_eq_some_iff.mp hw
      unfold size_t at htotal hy
      by_cases hfit : nPoolSize * size < 2 ^ 64
      · rw [Nat.mod_eq_of_lt hfit] at htotal
        omega
      · have hdiv := Nat.div_add_mod (2 ^ 64 - 1) size
        have hmod : (2 ^ 64 - 1) % size < size := Nat.mod_lt _ (by omega)
        generalize (2 ^ 64 - 1) / size = m at hdiv
        rw [Nat.mul_comm] at hdiv
        have hm : m < nPoolSize := by
          by_contra hno
          have hle : nPoolSize * size ≤ m * size := Nat.mul_le_mul_right _ (not_lt.mp hno)
          omega
        have hpos : 1 ≤ m := by
          by_contra hno
          obtain rfl : m = 0 := by omega
          omega
        have hin := linkNodes_inside (n := 1) hy hpos hm (by omega)
        rw [← Nat.cast_mul, toSize_natCast (by omega)] at hin
        omega
  · cases hc

/-! ### A pool with too many nodes -/

/-- The nodes of the pool have numbers from `lo` on. -/
def IdsFrom (lo : ℤ) (nodes : ℕ → Option NodeHeader) : Prop :=
  ∀ p b, nodes p = some b → b.bPool = true → lo ≤ b.nID ∧ b.nID < 2147483648

theorem IdsFrom.update {nodes : ℕ → Option NodeHeader} (h : IdsFrom lo nodes)
    {o : Option NodeHeader} (ho : ∀ b ∈ o, b.bPool = true → lo ≤ b.nID ∧ b.nID < 2147483648)
    (p : ℕ) : IdsFrom lo (Function.update nodes p o) := by
  intro q b hb hpool
  rcases update_cases hb with ⟨-, hb⟩ | ⟨-, hb⟩
  · exact ho b hb hpool
  · exact h q b hb hpool

theorem IdsFrom.linkNode {n : ℤ} (h : IdsFrom lo x.1) (hl : lo ≤ n) (hu : n < 2147483648)
    (hn : linkNode pBuf size total x n = some y) : IdsFrom lo y.1 := by
  have hwrite : ∀ {nodes nodes' : ℕ → Option NodeHeader} {p : ℕ} {b : NodeHeader},
      write pBuf total nodes p b = some nodes' → nodes' = Function.update nodes p (some b) := by
    intro nodes nodes' p b hw
    unfold write at hw
    split at hw
    · exact (Option.some.inj hw).symm
    · cases hw
  obtain ⟨nodes, hw, hn⟩ := Option.bind_eq_some_iff.mp hn
  obtain rfl := hwrite hw
  obtain ⟨b, hb, hn⟩ := Option.bind_eq_some_iff.mp hn
  obtain ⟨nodes, hw', hn⟩ := Option.bind_eq_some_iff.mp hn
  obtain rfl := hwrite hw'
  obtain rfl := Option.some.inj hn
  have hnew : IdsFrom lo (Function.update x.1 (pBuf + toSize (n * size))
      (some ⟨none, n, 0, true⟩)) := by
    apply h.update
    intro c hc _
    obtain rfl := Option.some.inj hc
    exact ⟨hl, hu⟩
  apply hnew.update
  intro c hc hpool
  obtain rfl := Option.some.inj hc
  exact hnew x.2 b hb hpool

/-- The least number that the loop may come to: a negative one only if it is less than `nPoolSize`
as a `size_t`. -/
def leastId (nPoolSize : ℕ) : ℤ :=
  if nPoolSize ≤ 18446744071562067968 then 0 else -2147483648

theorem IdsFrom.linkNodes {fuel : ℕ} {n : ℤ} (h : IdsFrom (leastId nPoolSize) x.1)
    (hl : -2147483648 ≤ n) (hu : n < 2147483648)
    (hn : linkNodes pBuf size total nPoolSize fuel n x = some y) :
    IdsFrom (leastId nPoolSize) y.1 := by
  induction fuel generalizing n x with
  | zero => cases hn
  | succ fuel ih =>
      unfold CellObjectPool.linkNodes at hn
      split at hn
      · next hlt =>
          obtain ⟨z, hz, hn⟩ := Option.bind_eq_some_iff.mp hn
          have hlo : leastId nPoolSize ≤ n := by
            unfold leastId toSize at *
            split
            · omega
            · exact hl
          refine ih (h.linkNode hlo hu hz) ?_ ?_ hn
          · unfold wrap32
            omega
          · unfold wrap32
            omega
      · obtain rfl := Option.some.inj hn
        exact h

theorem IdsFrom.initPool {c : CellObjectPool}
    (hc : CellObjectPool.initPool sizeofType nPoolSize pBuf = some c) :
    IdsFrom (leastId nPoolSize) c.nodes := by
  unfold CellObjectPool.initPool at hc
  dsimp only at hc
  split at hc
  · obtain ⟨nodes, hw, hc⟩ := Option.bind_eq_some_iff.mp hc
    obtain ⟨y, hy, hc⟩ := Option.bind_eq_some_iff.mp hc
    obtain rfl := Option.some.inj hc
    refine IdsFrom.linkNodes ?_ (by decide) (by decide) hy
    unfold write at hw
    split at hw
    · obtain rfl := Option.some.inj hw
      have hnone : IdsFrom (leastId nPoolSize) fun _ => none := fun _ _ hb => nomatch hb
      apply hnone.update
      intro b hb _
      obtain rfl := Option.some.inj hb
      unfold leastId
      split
      · decide
      · decide
    · cases hw
  · cases hc

theorem initPool_regions {c : CellObjectPool}
    (hc : initPool sizeofType nPoolSize pBuf = some c) :
    c.regions = Function.update (fun _ => none) pBuf (some (totalSize sizeofType nPoolSize)) := by
  unfold initPool at hc
  dsimp only at hc
  split at hc
  · obtain ⟨nodes, -, hc⟩ := Option.bind_eq_some_iff.mp hc
    obtain ⟨y, -, hc⟩ := Option.bind_eq_some_iff.mp hc
    obtain rfl := Option.some.inj hc
    rfl
  · cases hc

/-! What the two calls do, whatever the state is. -/

theorem allocObjMemory_cases {c : CellObjectPool} {n : ℕ} {new : Option ℕ}
    {r : CellObjectPool × ℕ} (h : c.allocObjMemory sizeofType n new = some r) :
    (∃ p, new = some p ∧ r = (store { c with
      regions := Function.update c.regions p (some (realSize sizeofType)) } p
        ⟨none, -1, 1, false⟩, p + sizeofNodeHeader)) ∨
    ∃ q b, c.pHeader = some q ∧ c.nodes q = some b ∧
      r = (store { c with pHeader := b.pNext } q { b with nRef := 1 }, q + sizeofNodeHeader) := by
  unfold allocObjMemory at h
  split at h
  · obtain ⟨p, hp, h⟩ := Option.map_eq_some_iff.mp h
    exact .inl ⟨p, hp, h.symm⟩
  · next q hq =>
      obtain ⟨b, hb, h⟩ := Option.bind_eq_some_iff.mp h
      split at h
      · exact .inr ⟨q, b, hq, hb, (Option.some.inj h).symm⟩
      · cases h

theorem freeObjMemory_cases {c c' : CellObjectPool} {pMem : ℕ}
    (h : c.freeObjMemory pMem = some c') :
    ∃ q b, c.nodes q = some b ∧ ((∃ pHeader pNext nRef, c' = { c with
        pHeader, nodes := Function.update c.nodes q (some { b with pNext, nRef }) }) ∨
      c' = { c with
        regions := Function.update c.regions q none
        nodes := Function.update c.nodes q none }) := by
  obtain ⟨⟨q, b⟩, hx, h⟩ := Option.bind_eq_some_iff.mp h
  refine ⟨q, b, (header_eq_some.mp hx).2, ?_⟩
  dsimp only at h
  split at h
  · split at h
    · split at h
      · exact .inl ⟨_, _, _, (Option.some.inj h).symm⟩
      · exact .inl ⟨_, _, _, (Option.some.inj h).symm⟩
    · split at h
      · exact .inl ⟨_, _, _, (Option.some.inj h).symm⟩
      · unfold deleteNode at h
        split at h
        · exact .inr (Option.some.inj h).symm
        · cases h
  · cases h

end CellObjectPool

namespace ObjectRun

/-- The blocks that were given out end somewhere. -/
def Bounded (s : ObjectRun) (n : ℕ) : Prop :=
  ∀ p m, s.pool.regions p = some m → p + m ≤ n

theorem Bounded.fresh {n : ℕ} (h : s.Bounded n) (m : ℕ) : s.pool.regions.Fresh n m :=
  fun b k hb => .inr (h b k hb)

/-- The numbers of the nodes never change. -/
theorem next_ids {e : ObjectEvent} (hn : s.next sizeofType e = some t)
    (h : IdsFrom lo s.pool.nodes) : IdsFrom lo t.pool.nodes := by
  cases e with
  | allocObjMemory size new =>
      obtain ⟨r, hr, rfl⟩ := Option.map_eq_some_iff.mp hn
      rcases allocObjMemory_cases hr with ⟨p, -, rfl⟩ | ⟨q, b, -, hb, rfl⟩
      · apply h.update
        intro c hc hpool
        obtain rfl := Option.some.inj hc
        cases hpool
      · apply h.update
        intro c hc hpool
        obtain rfl := Option.some.inj hc
        exact h q b hb hpool
  | freeObjMemory pMem =>
      obtain ⟨c', hc', rfl⟩ := Option.map_eq_some_iff.mp hn
      obtain ⟨q, b, hb, hcases⟩ := freeObjMemory_cases hc'
      rcases hcases with ⟨pHeader, pNext, nRef, rfl⟩ | rfl
      · apply h.update
        intro c hc hpool
        obtain rfl := Option.some.inj hc
        exact h q b hb hpool
      · apply h.update
        exact fun _ hc => nomatch hc

theorem path_ids (hp : (system sizeofType nPoolSize).Path s ls t)
    (h : IdsFrom lo s.pool.nodes) : IdsFrom lo t.pool.nodes :=
  hp.preserves (P := fun s => IdsFrom lo s.pool.nodes) (fun _ _ _ hs hl => next_ids hl.2 hs) h

/-- Where no call fails, any number of objects can be allocated. -/
theorem exists_allocates {c : CellObjectPool}
    (hc : initPool sizeofType nPoolSize pBuf = some c)
    (hdef : ∀ s, (system sizeofType nPoolSize).Reachable s → ∀ e, s.Legal sizeofType e →
      ∃ t, s.next sizeofType e = some t) (k : ℕ) :
    ∃ ls s n, Allocates ls ∧ ls.length = k ∧ (system sizeofType nPoolSize).Path ⟨c, []⟩ ls s ∧
      s.held.length = k ∧ s.Bounded n := by
  have h₀ : (system sizeofType nPoolSize).init ⟨c, []⟩ := ⟨pBuf, c, hc, rfl⟩
  induction k with
  | zero =>
      refine ⟨[], ⟨c, []⟩, pBuf + totalSize sizeofType nPoolSize, nofun, rfl, .nil _, rfl, ?_⟩
      intro p m hm
      dsimp only at hm
      rw [initPool_regions hc] at hm
      rcases update_cases hm with ⟨rfl, he⟩ | ⟨-, he⟩
      · obtain rfl := Option.some.inj he
        exact le_rfl
      · cases he
  | succ k ih =>
      obtain ⟨ls, s, n, hls, hlen, hp, hheld, hb⟩ := ih
      have hl : s.Legal sizeofType (.allocObjMemory 0 (some n)) := fun _ => ⟨n, rfl, hb.fresh _⟩
      obtain ⟨t, ht⟩ := hdef s ((System.Reachable.init h₀).path hp) _ hl
      obtain ⟨r, hr, rfl⟩ := Option.map_eq_some_iff.mp ht
      have hall : Allocates (ls ++ [.allocObjMemory 0 (some n)]) := by
        intro e he
        rcases List.mem_append.mp he with he | he
        · exact hls e he
        · exact ⟨0, some n, List.mem_singleton.mp he⟩
      refine ⟨ls ++ [.allocObjMemory 0 (some n)], _, n + realSize sizeofType, hall, ?_,
        hp.append (.single ⟨hl, ht⟩), ?_, ?_⟩
      · rw [List.length_append, hlen, List.length_singleton]
      · rw [List.length_cons, hheld]
      · intro p m hm
        rcases allocObjMemory_cases hr with ⟨q, hq, rfl⟩ | ⟨q, b, -, -, rfl⟩
        · obtain rfl := Option.some.inj hq
          rcases update_cases hm with ⟨rfl, he⟩ | ⟨-, hold⟩
          · obtain rfl := Option.some.inj he
            exact le_rfl
          · have := hb p m hold
            omega
        · have := hb p m hm
          omega

/-- There are not more nodes than numbers for them. -/
theorem Works.le (hw : Works sizeofType nPoolSize) : nPoolSize ≤ 2 ^ 31 := by
  obtain ⟨c, hc⟩ := hw.1 0
  obtain ⟨ls, s, n, hls, hlen, hp, hheld, -⟩ :=
    exists_allocates hc (fun s hs => (hw.2 s hs).asserts) nPoolSize
  have h₀ : (system sizeofType nPoolSize).Reachable ⟨c, []⟩ := .init ⟨0, c, hc, rfl⟩
  have hreach := h₀.path hp
  have hpool : ∀ m ∈ s.held, s.pool.inPool m = true :=
    (hw.2 _ h₀).refills rfl ls s hls hlen.le hp
  have hids : IdsFrom (leastId nPoolSize) s.pool.nodes := path_ids hp (.initPool hc)
  have hnodup := (hw.2 s hreach).ids
  unfold poolHeld at hnodup
  rw [List.filter_eq_self.mpr hpool] at hnodup
  have hsub : (s.held.map s.pool.idOf).toFinset ⊆
      (Finset.Ico (leastId nPoolSize) 2147483648).image some := by
    intro o ho
    obtain ⟨m, hm, rfl⟩ := List.mem_map.mp (List.mem_toFinset.mp ho)
    obtain ⟨⟨p, b⟩, hx, hb⟩ := (Option.any_eq_true _ _).mp (hpool m hm)
    have hin := hids p b (header_eq_some.mp hx).2 hb
    refine Finset.mem_image.mpr ⟨b.nID, Finset.mem_Ico.mpr hin, ?_⟩
    rw [idOf, hx, Option.map_some]
  have hcard := Finset.card_le_card hsub
  rw [List.toFinset_card_of_nodup hnodup, List.length_map, hheld] at hcard
  have himage := Finset.card_image_le (s := Finset.Ico (leastId nPoolSize) 2147483648)
    (f := fun z : ℤ => some z)
  rw [Int.card_Ico] at himage
  have hle := hcard.trans himage
  unfold leastId at hle
  split at hle
  · omega
  · omega

/-- An object pool works exactly when it has no more nodes than an `int` counts, and its block is
no larger than an object may be. -/
theorem works_iff (hN : 1 ≤ nPoolSize) (hT : sizeofType < 2 ^ 63) :
    Works sizeofType nPoolSize ↔
      nPoolSize ≤ 2 ^ 31 ∧ nPoolSize * (sizeofType + sizeofNodeHeader) < 2 ^ 63 := by
  constructor
  · intro hw
    refine ⟨hw.le, ?_⟩
    by_contra hbig
    obtain ⟨c, hc⟩ := hw.1 0
    rw [initPool_none hT hw.le (not_lt.mp hbig)] at hc
    cases hc
  · intro h
    exact works_of_fits ⟨hN, h.2⟩ h.1

theorem works_two : Works 8 2 :=
  (works_iff (by decide) (by decide)).mpr ⟨by decide, by decide⟩

/-- With one node more than an `int` counts, the last one is never handed out: 2^31 are held, and
the next object comes from the heap. -/
theorem last_node_lost : ∃ s t size new pMem, (system 8 2147483649).Reachable s ∧
    s.poolHeld.length = 2147483648 ∧
    (system 8 2147483649).step s (.allocObjMemory size new) t ∧ t.held = pMem :: s.held ∧
      t.pool.inPool pMem = false := by
  have hfit : Fits 8 2147483649 := ⟨by decide, by decide⟩
  have hlinked : linked 2147483649 = 2147483648 := by decide
  have hdef : ∀ s, (system 8 2147483649).Reachable s → ∀ e, s.Legal 8 e →
      ∃ t, s.next 8 e = some t := by
    intro s hs e hl
    obtain ⟨A, free, hok⟩ := hfit.ok_of_reachable hs
    exact hok.defined hfit hl
  obtain ⟨x, hc, -⟩ := hfit.initPool 4096
  obtain ⟨ls, s, n, hls, hlen, hp, hheld, hb⟩ := exists_allocates hc hdef 2147483648
  have h₀ : (system 8 2147483649).Reachable _ := .init ⟨4096, _, hc, rfl⟩
  have hs := h₀.path hp
  obtain ⟨A₀, free₀, hok₀⟩ := hfit.ok_of_reachable h₀
  have hall := hok₀.fills hfit hp hls rfl (by rw [hlen, hlinked, List.length_nil, Nat.zero_add])
  obtain ⟨A, free, hok⟩ := hfit.ok_of_reachable hs
  have hl : s.Legal 8 (.allocObjMemory 8 (some n)) := fun _ => ⟨n, rfl, hb.fresh _⟩
  obtain ⟨t, ht⟩ := hdef s hs _ hl
  obtain ⟨m, -, -, hm, -, -, hfalls⟩ := hok.falls hfit ⟨hl, ht⟩
  rw [hall, hheld, hlinked] at hfalls
  exact ⟨s, t, 8, some n, m, hs, by rw [hall, hheld], ⟨hl, ht⟩, hm, hfalls.mpr rfl⟩

end ObjectRun

end CellNet
