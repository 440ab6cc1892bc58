import CellNet.Library.Chain
import CellNet.Verification.ObjectPool.Init
import Mathlib.Data.List.Nodup

/-! The nodes of an object pool in every run: each is on the list or held. -/

namespace CellNet

open Library CellObjectPool

variable {sizeofType nPoolSize pBuf p pMem : ℕ} {A : Arena} {free : List ℕ} {s t : ObjectRun}
  {nodes : ℕ → Option NodeHeader} {b : NodeHeader}

namespace CellObjectPool

/-- `pNext` of the node at `p`. -/
def next (c : CellObjectPool) (p : ℕ) : Option ℕ :=
  (c.nodes p).bind NodeHeader.pNext

theorem next_congr {c c' : CellObjectPool} (h : c'.nodes p = c.nodes p) :
    c'.next p = c.next p := by
  unfold next
  rw [h]

theorem header_eq_some {c : CellObjectPool} :
    c.header pMem = some (p, b) ↔ pMem = p + sizeofNodeHeader ∧ c.nodes p = some b := by
  unfold header
  split
  · next h =>
      rw [Option.map_eq_some_iff]
      constructor
      · intro hx
        obtain ⟨c, hc, he⟩ := hx
        obtain ⟨rfl, rfl⟩ := Prod.mk.inj he
        exact ⟨by omega, hc⟩
      · intro hx
        obtain ⟨rfl, hc⟩ := hx
        rw [Nat.add_sub_cancel]
        exact ⟨b, hc, rfl⟩
  · next h =>
      constructor
      · nofun
      · intro hx
        omega

theorem allocObjMemory_none {c : CellObjectPool} (h : c.pHeader = none)
    (sizeofType size p : ℕ) :
    c.allocObjMemory sizeofType size (some p) = some (CellObjectPool.store { c with
      regions := Function.update c.regions p (some (realSize sizeofType)) } p
        ⟨none, -1, 1, false⟩, p + sizeofNodeHeader) := by
  unfold allocObjMemory
  split
  · rfl
  · next hp =>
      rw [h] at hp
      cases hp

theorem allocObjMemory_some {c : CellObjectPool} {q : ℕ} (h : c.pHeader = some q)
    (hb : c.nodes q = some b) (hr : b.nRef = 0) (sizeofType size : ℕ) (new : Option ℕ) :
    c.allocObjMemory sizeofType size new = some (CellObjectPool.store { c with
      pHeader := b.pNext } q { b with nRef := 1 }, q + sizeofNodeHeader) := by
  unfold allocObjMemory
  simp only [h, hb, hr, if_true, Option.bind_eq_bind, Option.bind_some]

/-- The block of the pool, cut into nodes. -/
def poolSlab (sizeofType nPoolSize pBuf : ℕ) : Slab :=
  ⟨pBuf, sizeofType + sizeofNodeHeader, nPoolSize⟩

/-- The objects that the linked nodes have room for, in their order. -/
def places (sizeofType nPoolSize pBuf : ℕ) : List ℕ :=
  (List.range (linked nPoolSize)).map fun n =>
    nodeAt pBuf (sizeofType + sizeofNodeHeader) n + sizeofNodeHeader

theorem mem_places : pMem ∈ places sizeofType nPoolSize pBuf ↔ ∃ n < linked nPoolSize,
    pMem = nodeAt pBuf (sizeofType + sizeofNodeHeader) n + sizeofNodeHeader := by
  simp [places, eq_comm]

theorem nodup_places : (places sizeofType nPoolSize pBuf).Nodup := by
  apply List.Pairwise.map _ _ List.nodup_range
  intro i j hij he
  have hs : 0 < sizeofType + sizeofNodeHeader := Nat.add_pos_right _ (by decide)
  exact hij (nodeAt_inj hs (Nat.add_right_cancel he))

/-- The headers in memory: those of the pool, and those of objects with a block of their own. -/
structure NodesOk (sizeofType nPoolSize pBuf : ℕ) (A : Arena) (nodes : ℕ → Option NodeHeader) :
    Prop where
  node : ∀ n < linked nPoolSize, ∃ b,
    nodes (nodeAt pBuf (sizeofType + sizeofNodeHeader) n) = some b ∧ b.nID = n ∧ b.bPool = true
  inPool : ∀ p b, nodes p = some b → b.bPool = true →
    p + sizeofNodeHeader ∈ places sizeofType nPoolSize pBuf
  own : ∀ p b, nodes p = some b → b.bPool = false →
    A.Extent none ⟨p, sizeofType + sizeofNodeHeader⟩

namespace NodesOk

theorem bPool_iff (h : NodesOk sizeofType nPoolSize pBuf A nodes) (hb : nodes p = some b) :
    b.bPool = true ↔ p + sizeofNodeHeader ∈ places sizeofType nPoolSize pBuf := by
  constructor
  · exact h.inPool p b hb
  · intro hp
    obtain ⟨n, hn, he⟩ := mem_places.mp hp
    obtain ⟨c, hc, -, hpool⟩ := h.node n hn
    obtain rfl : p = _ := Nat.add_right_cancel he
    obtain rfl := Option.some.inj (hb.symm.trans hc)
    exact hpool

/-- A header keeps its number and its kind. -/
theorem store (h : NodesOk sizeofType nPoolSize pBuf A nodes) (hb : nodes p = some b)
    {b' : NodeHeader} (hID : b'.nID = b.nID) (hpool : b'.bPool = b.bPool) :
    NodesOk sizeofType nPoolSize pBuf A (Function.update nodes p (some b')) := by
  constructor
  case node =>
    intro n hn
    obtain ⟨c, hc, hcID, hcpool⟩ := h.node n hn
    by_cases hp : nodeAt pBuf (sizeofType + sizeofNodeHeader) n = p
    · rw [hp] at hc ⊢
      obtain rfl := Option.some.inj (hb.symm.trans hc)
      exact ⟨b', Function.update_self .., hID.trans hcID, hpool.trans hcpool⟩
    · exact ⟨c, (Function.update_of_ne hp ..).trans hc, hcID, hcpool⟩
  case inPool =>
    intro q c hc hcpool
    rcases update_cases hc with ⟨rfl, he⟩ | ⟨-, hc⟩
    · obtain rfl := Option.some.inj he
      exact h.inPool q b hb (hpool.symm.trans hcpool)
    · exact h.inPool q c hc hcpool
  case own =>
    intro q c hc hcpool
    rcases update_cases hc with ⟨rfl, he⟩ | ⟨-, hc⟩
    · obtain rfl := Option.some.inj he
      exact h.own q b hb (hpool.symm.trans hcpool)
    · exact h.own q c hc hcpool

end NodesOk

end CellObjectPool

/-- The linked nodes are on the list or held, each once. -/
structure ObjectsOk (sizeofType nPoolSize : ℕ) (s : ObjectRun) (A : Arena) (free : List ℕ) :
    Prop where
  slab : A.slab = Function.update (fun _ => none) 0
    (some (poolSlab sizeofType nPoolSize s.pool.pBuf))
  regions : A.regions = s.pool.regions
  nodes : NodesOk sizeofType nPoolSize s.pool.pBuf A s.pool.nodes
  chain : Chain s.pool.next s.pool.pHeader free
  perm : (free.map (· + sizeofNodeHeader) ++
    s.held.filter (· ∈ places sizeofType nPoolSize s.pool.pBuf)).Perm
      (places sizeofType nPoolSize s.pool.pBuf)
  blank : ∀ p ∈ free, ∀ b, s.pool.nodes p = some b → b.nRef = 0
  held : ∀ pMem ∈ s.held, ∃ p b, pMem = p + sizeofNodeHeader ∧ s.pool.nodes p = some b ∧
    b.nRef = 1
  once : s.held.Nodup

namespace ObjectsOk

theorem place_of_free (h : ObjectsOk sizeofType nPoolSize s A free) (hp : p ∈ free) :
    p + sizeofNodeHeader ∈ places sizeofType nPoolSize s.pool.pBuf :=
  h.perm.subset (List.mem_append_left _ (List.mem_map_of_mem hp))

theorem node_of_free (h : ObjectsOk sizeofType nPoolSize s A free) (hp : p ∈ free) :
    ∃ b, s.pool.nodes p = some b ∧ b.nRef = 0 ∧ b.bPool = true := by
  obtain ⟨n, hn, he⟩ := mem_places.mp (h.place_of_free hp)
  obtain ⟨b, hb, -, hpool⟩ := h.nodes.node n hn
  obtain rfl : p = _ := Nat.add_right_cancel he
  exact ⟨b, hb, h.blank _ hp b hb, hpool⟩

theorem nodup_free (h : ObjectsOk sizeofType nPoolSize s A free) : free.Nodup := by
  have hn := (h.perm.nodup_iff.mpr nodup_places)
  exact List.Nodup.of_map _ (List.nodup_append.mp hn).1

/-- What is held is not on the list. -/
theorem not_free (h : ObjectsOk sizeofType nPoolSize s A free)
    (hm : p + sizeofNodeHeader ∈ s.held) : p ∉ free := by
  intro hp
  obtain ⟨b, hb, hzero, -⟩ := h.node_of_free hp
  obtain ⟨q, c, hq, hc, hone⟩ := h.held _ hm
  obtain rfl : p = q := Nat.add_right_cancel hq
  obtain rfl := Option.some.inj (hb.symm.trans hc)
  omega

/-- The header at `p` changes, and with it what is on the list and held. -/
theorem edit (h : ObjectsOk sizeofType nPoolSize s A free) (hb : s.pool.nodes p = some b)
    {b' : NodeHeader} (hID : b'.nID = b.nID) (hpool : b'.bPool = b.bPool) {pHeader : Option ℕ}
    {free' held' : List ℕ}
    (hchain : Chain (CellObjectPool.next { s.pool with
      pHeader, nodes := Function.update s.pool.nodes p (some b') }) pHeader free')
    (hperm : (free'.map (· + sizeofNodeHeader) ++
      held'.filter (· ∈ places sizeofType nPoolSize s.pool.pBuf)).Perm
        (places sizeofType nPoolSize s.pool.pBuf))
    (hfree : ∀ q ∈ free', q ≠ p → q ∈ free) (hblank : p ∈ free' → b'.nRef = 0)
    (hheld : ∀ m ∈ held', m ≠ p + sizeofNodeHeader → m ∈ s.held)
    (hone : p + sizeofNodeHeader ∈ held' → b'.nRef = 1) (honce : held'.Nodup) :
    ObjectsOk sizeofType nPoolSize ⟨{ s.pool with
      pHeader, nodes := Function.update s.pool.nodes p (some b') }, held'⟩ A free' := by
  constructor
  case slab => exact h.slab
  case regions => exact h.regions
  case nodes => exact h.nodes.store hb hID hpool
  case chain => exact hchain
  case perm => exact hperm
  case blank =>
    intro q hq c hc
    rcases update_cases hc with ⟨rfl, he⟩ | ⟨hne, hc⟩
    · obtain rfl := Option.some.inj he
      exact hblank hq
    · exact h.blank q (hfree q hq hne) c hc
  case held =>
    intro m hm
    by_cases hmp : m = p + sizeofNodeHeader
    · subst hmp
      exact ⟨p, b', rfl, Function.update_self .., hone hm⟩
    · obtain ⟨q, c, hq, hc, hr⟩ := h.held m (hheld m hm hmp)
      have hqp : q ≠ p := by
        rintro rfl
        exact hmp hq
      exact ⟨q, c, hq, (Function.update_of_ne hqp ..).trans hc, hr⟩
  case once => exact honce

/-- The first node of the list is handed out. -/
theorem take (h : ObjectsOk sizeofType nPoolSize s A free) (hp : s.pool.pHeader = some p) :
    ∃ b l, free = p :: l ∧ s.pool.nodes p = some b ∧ b.nRef = 0 ∧
      p + sizeofNodeHeader ∈ places sizeofType nPoolSize s.pool.pBuf ∧
      ObjectsOk sizeofType nPoolSize ⟨CellObjectPool.store { s.pool with pHeader := b.pNext } p
        { b with nRef := 1 }, (p + sizeofNodeHeader) :: s.held⟩ A l := by
  have hc := h.chain
  rw [hp] at hc
  obtain ⟨l, rfl, hl⟩ := Chain.cons_iff.mp hc
  have hmem : p ∈ p :: l := List.mem_cons_self
  obtain ⟨b, hb, hzero, -⟩ := h.node_of_free hmem
  have hplace := h.place_of_free hmem
  have hpl := (List.nodup_cons.mp h.nodup_free).1
  have hnew : p + sizeofNodeHeader ∉ s.held := fun hm => h.not_free hm hmem
  have hnext : s.pool.next p = b.pNext := by
    unfold CellObjectPool.next
    rw [hb, Option.bind_some]
  rw [hnext] at hl
  refine ⟨b, l, rfl, hb, hzero, hplace, ?_⟩
  have hID : NodeHeader.nID { b with nRef := 1 } = b.nID := rfl
  apply h.edit hb hID rfl
  case hchain =>
    refine hl.congr fun q hq => next_congr (Function.update_of_ne ?_ ..)
    rintro rfl
    exact hpl hq
  case hperm =>
    rw [List.filter_cons_of_pos (by simpa using hplace)]
    exact List.perm_middle.trans h.perm
  case hfree => exact fun q hq _ => List.mem_cons_of_mem _ hq
  case hblank => exact fun hin => absurd hin hpl
  case hheld => exact fun m hm hne => (List.mem_cons.mp hm).resolve_left hne
  case hone => exact fun _ => rfl
  case honce => exact List.nodup_cons.mpr ⟨hnew, h.once⟩

/-- A node of the pool goes back to the list. -/
theorem putBack (h : ObjectsOk sizeofType nPoolSize s A free)
    (hm : p + sizeofNodeHeader ∈ s.held) (hb : s.pool.nodes p = some b) (hpool : b.bPool = true) :
    ObjectsOk sizeofType nPoolSize ⟨CellObjectPool.store { s.pool with pHeader := some p } p
      { b with nRef := 0, pNext := s.pool.pHeader }, s.held.erase (p + sizeofNodeHeader)⟩ A
      (p :: free) := by
  have hplace := h.nodes.inPool p b hb hpool
  have hfilter : p + sizeofNodeHeader ∈
      s.held.filter (· ∈ places sizeofType nPoolSize s.pool.pBuf) :=
    List.mem_filter.mpr ⟨hm, by simpa using hplace⟩
  have hID : NodeHeader.nID { b with nRef := 0, pNext := s.pool.pHeader } = b.nID := rfl
  apply h.edit hb hID rfl
  case hchain =>
    refine .cons ?_
    have hself : CellObjectPool.next { s.pool with
        pHeader := some p
        nodes := Function.update s.pool.nodes p
          (some { b with nRef := 0, pNext := s.pool.pHeader }) } p = s.pool.pHeader := by
      unfold CellObjectPool.next
      dsimp only
      rw [Function.update_self]
      rfl
    rw [hself]
    refine h.chain.congr fun q hq => next_congr (Function.update_of_ne ?_ ..)
    rintro rfl
    exact h.not_free hm hq
  case hperm =>
    rw [List.erase_filter.symm, List.map_cons]
    refine List.Perm.trans ?_ h.perm
    exact (List.perm_middle.symm.trans ((List.perm_cons_erase hfilter).symm.append_left _))
  case hfree => exact fun q hq hne => (List.mem_cons.mp hq).resolve_left hne
  case hblank => exact fun _ => rfl
  case hheld => exact fun m hin _ => List.mem_of_mem_erase hin
  case hone => exact fun hin => absurd hin h.once.not_mem_erase
  case honce => exact h.once.erase _

/-! ### Objects with a block of their own -/

/-- A node lies in the block of the pool, or has a block of its own. -/
theorem extent (h : ObjectsOk sizeofType nPoolSize s A free) (hb : s.pool.nodes p = some b) :
    A.Extent (if b.bPool then some 0 else none) ⟨p, sizeofType + sizeofNodeHeader⟩ := by
  by_cases hpool : b.bPool = true
  · obtain ⟨n, hn, he⟩ := mem_places.mp (h.nodes.inPool p b hb hpool)
    have hslab : A.slab 0 = some (poolSlab sizeofType nPoolSize s.pool.pBuf) := by
      rw [h.slab]
      exact Function.update_self ..
    have hle : linked nPoolSize ≤ nPoolSize := min_le_left _ _
    obtain rfl : p = _ := Nat.add_right_cancel he
    rw [if_pos hpool]
    exact .cell hslab ⟨n, hn.trans_le hle, rfl⟩
  · rw [if_neg hpool]
    exact h.nodes.own p b hb (Bool.eq_false_iff.mpr hpool)

/-- There is no node where fresh memory starts. -/
theorem ne_of_fresh (h : ObjectsOk sizeofType nPoolSize s A free) {n : ℕ}
    (hf : s.pool.regions.Fresh p n) (hn : 0 < n) {q : ℕ} (hb : s.pool.nodes q = some b) :
    q ≠ p := by
  rw [← h.regions] at hf
  exact (h.extent hb).start_ne hf hn

theorem place_ne_of_fresh (h : ObjectsOk sizeofType nPoolSize s A free) {n : ℕ}
    (hf : s.pool.regions.Fresh p n) (hn : 0 < n) :
    p + sizeofNodeHeader ∉ places sizeofType nPoolSize s.pool.pBuf := by
  intro hp
  obtain ⟨i, hi, he⟩ := mem_places.mp hp
  obtain ⟨b, hb, -⟩ := h.nodes.node i hi
  obtain rfl : p = _ := Nat.add_right_cancel he
  exact h.ne_of_fresh hf hn hb rfl

theorem give (h : ObjectsOk sizeofType nPoolSize s A free)
    (hf : s.pool.regions.Fresh p (sizeofType + sizeofNodeHeader)) :
    ∃ A', ObjectsOk sizeofType nPoolSize ⟨CellObjectPool.store { s.pool with
      regions := Function.update s.pool.regions p (some (sizeofType + sizeofNodeHeader)) } p
        ⟨none, -1, 1, false⟩, (p + sizeofNodeHeader) :: s.held⟩ A' free := by
  have hpos : 0 < sizeofType + sizeofNodeHeader := Nat.add_pos_right _ (by decide)
  have hplace := h.place_ne_of_fresh hf hpos
  have hold : ∀ q b, s.pool.nodes q = some b → q ≠ p := fun q b hb => h.ne_of_fresh hf hpos hb
  have hfA : A.regions.Fresh p (sizeofType + sizeofNodeHeader) := h.regions ▸ hf
  refine ⟨A.malloc p _ hfA hpos, ?_⟩
  constructor
  case slab => exact h.slab
  case regions => exact congrArg (fun r => Function.update r p _) h.regions
  case nodes =>
    constructor
    case node =>
      intro n hn
      obtain ⟨b, hb, hID, hpool⟩ := h.nodes.node n hn
      exact ⟨b, (Function.update_of_ne (hold _ b hb) ..).trans hb, hID, hpool⟩
    case inPool =>
      intro q c hc hcpool
      rcases update_cases hc with ⟨-, he⟩ | ⟨-, hc⟩
      · obtain rfl := Option.some.inj he
        cases hcpool
      · exact h.nodes.inPool q c hc hcpool
    case own =>
      intro q c hc hcpool
      rcases update_cases hc with ⟨rfl, -⟩ | ⟨-, hc⟩
      · exact Arena.malloc_new
      · exact (h.nodes.own q c hc hcpool).malloc
  case chain =>
    refine h.chain.congr fun q hq => ?_
    obtain ⟨b, hb, -⟩ := h.node_of_free hq
    exact next_congr (Function.update_of_ne (hold q b hb) ..)
  case perm =>
    have hfilter : ((p + sizeofNodeHeader) :: s.held).filter
        (· ∈ places sizeofType nPoolSize s.pool.pBuf) =
        s.held.filter (· ∈ places sizeofType nPoolSize s.pool.pBuf) := by
      simp [hplace]
    exact List.Perm.trans (.of_eq (congrArg _ hfilter)) h.perm
  case blank =>
    intro q hq c hc
    obtain ⟨b, hb, -⟩ := h.node_of_free hq
    have hqc : s.pool.nodes q = some c := (Function.update_of_ne (hold q b hb) ..).symm.trans hc
    exact h.blank q hq c hqc
  case held =>
    intro m hm
    rcases List.mem_cons.mp hm with rfl | hm
    · exact ⟨p, _, rfl, Function.update_self .., rfl⟩
    · obtain ⟨q, c, hq, hc, hr⟩ := h.held m hm
      exact ⟨q, c, hq, (Function.update_of_ne (hold q c hc) ..).trans hc, hr⟩
  case once =>
    refine List.nodup_cons.mpr ⟨fun hm => ?_, h.once⟩
    obtain ⟨q, c, hq, hc, -⟩ := h.held _ hm
    exact hold q c hc (Nat.add_right_cancel hq).symm

/-- Its block is given back. -/
theorem release (h : ObjectsOk sizeofType nPoolSize s A free)
    (hm : p + sizeofNodeHeader ∈ s.held) (hb : s.pool.nodes p = some b) (hown : b.bPool = false) :
    (s.pool.regions p).isSome ∧ ∃ A', ObjectsOk sizeofType nPoolSize ⟨{ s.pool with
      regions := Function.update s.pool.regions p none
      nodes := Function.update s.pool.nodes p none }, s.held.erase (p + sizeofNodeHeader)⟩
      A' free := by
  obtain ⟨hreg, hw⟩ := (h.nodes.own p b hb hown).whole_of_none
  have hplace : p + sizeofNodeHeader ∉ places sizeofType nPoolSize s.pool.pBuf := by
    rw [← h.nodes.bPool_iff hb, hown]
    nofun
  have hkeep : ∀ q c, s.pool.nodes q = some c → q ≠ p →
      Function.update s.pool.nodes p none q = some c := fun q c hc hq =>
    (Function.update_of_ne hq ..).trans hc
  have hgone : ∀ q c, Function.update s.pool.nodes p none q = some c →
      q ≠ p ∧ s.pool.nodes q = some c := by
    intro q c hc
    rcases update_cases hc with ⟨-, he⟩ | ⟨hq, hc⟩
    · cases he
    · exact ⟨hq, hc⟩
  refine ⟨?_, A.free p hw, ?_⟩
  · rw [← h.regions, hreg]
    rfl
  constructor
  case slab => exact h.slab
  case regions => exact congrArg (fun r => Function.update r p none) h.regions
  case nodes =>
    constructor
    case node =>
      intro n hn
      obtain ⟨c, hc, hID, hpool⟩ := h.nodes.node n hn
      refine ⟨c, hkeep _ c hc ?_, hID, hpool⟩
      intro he
      rw [he] at hc
      rw [Option.some.inj (hb.symm.trans hc), hpool] at hown
      cases hown
    case inPool => exact fun q c hc hcpool => h.nodes.inPool q c (hgone q c hc).2 hcpool
    case own =>
      intro q c hc hcpool
      obtain ⟨hq, hc⟩ := hgone q c hc
      exact (h.nodes.own q c hc hcpool).free hq
  case chain =>
    refine h.chain.congr fun q hq => next_congr (Function.update_of_ne ?_ ..)
    rintro rfl
    exact h.not_free hm hq
  case perm =>
    rw [← List.erase_filter, List.erase_of_not_mem fun hin => ?_]
    · exact h.perm
    · exact hplace (by simpa using (List.mem_filter.mp hin).2)
  case blank => exact fun q hq c hc => h.blank q hq c (hgone q c hc).2
  case held =>
    intro m hin
    obtain ⟨q, c, hq, hc, hr⟩ := h.held m (List.mem_of_mem_erase hin)
    refine ⟨q, c, hq, hkeep q c hc ?_, hr⟩
    rintro rfl
    exact h.once.not_mem_erase (hq ▸ hin)
  case once => exact h.once.erase _

/-! ### Every call -/

/-- A new object, which is a node of the pool exactly when one is on the list. -/
theorem allocObjMemory (h : ObjectsOk sizeofType nPoolSize s A free)
    (hsize : realSize sizeofType = sizeofType + sizeofNodeHeader) {size : ℕ} {new : Option ℕ}
    (hl : s.Legal sizeofType (.allocObjMemory size new)) :
    ∃ t q A' free', s.next sizeofType (.allocObjMemory size new) = some t ∧
      t.held = (q + sizeofNodeHeader) :: s.held ∧ ObjectsOk sizeofType nPoolSize t A' free' ∧
      t.pool.pBuf = s.pool.pBuf ∧
      (q + sizeofNodeHeader ∈ places sizeofType nPoolSize s.pool.pBuf ↔ free ≠ []) := by
  rcases Option.eq_none_or_eq_some s.pool.pHeader with hp | ⟨q, hp⟩
  · obtain ⟨p, rfl, hf⟩ := hl hp
    have halloc := allocObjMemory_none hp sizeofType size p
    have hpos : 0 < sizeofType + sizeofNodeHeader := Nat.add_pos_right _ (by decide)
    have hc := h.chain
    rw [hp] at hc
    obtain rfl := Chain.nil_iff.mp hc
    rw [hsize] at hf halloc
    obtain ⟨A', hok⟩ := h.give hf
    refine ⟨_, p, A', [], congrArg (Option.map _) halloc, rfl, hok, rfl, ?_⟩
    exact iff_of_false (h.place_ne_of_fresh hf hpos) (by simp)
  · obtain ⟨b, l, rfl, hb, hzero, hplace, hok⟩ := h.take hp
    have halloc := allocObjMemory_some hp hb hzero sizeofType size new
    exact ⟨_, q, A, l, congrArg (Option.map _) halloc, rfl, hok, rfl,
      iff_of_true hplace (by simp)⟩

/-- An object that is held is freed without a fault. -/
theorem freeObjMemory (h : ObjectsOk sizeofType nPoolSize s A free) (hm : pMem ∈ s.held) :
    ∃ t A' free', s.next sizeofType (.freeObjMemory pMem) = some t ∧
      t.held = s.held.erase pMem ∧ ObjectsOk sizeofType nPoolSize t A' free' ∧
      t.pool.pBuf = s.pool.pBuf := by
  obtain ⟨p, b, rfl, hb, hone⟩ := h.held pMem hm
  have hheader : s.pool.header (p + sizeofNodeHeader) = some (p, b) := header_eq_some.mpr ⟨rfl, hb⟩
  have hzero : wrap8 (b.nRef - 1) = 0 := by
    rw [hone]
    rfl
  unfold ObjectRun.next CellObjectPool.freeObjMemory
  by_cases hpool : b.bPool = true
  · refine ⟨_, A, p :: free, ?_, rfl, h.putBack hm hb hpool, rfl⟩
    simp only [hheader, Option.bind_eq_bind, Option.bind_some, hone, if_true, hpool]
    rw [hone] at hzero
    simp only [hzero, ne_eq, not_true, if_false, Option.map_some]
  · have hown := Bool.eq_false_iff.mpr hpool
    obtain ⟨hsome, A', hok⟩ := h.release hm hb hown
    refine ⟨_, A', free, ?_, rfl, hok, rfl⟩
    simp only [hheader, Option.bind_eq_bind, Option.bind_some, hone, if_true, hown]
    rw [hone] at hzero
    simp only [hzero, ne_eq, not_true, if_false, Bool.false_eq_true]
    unfold deleteNode
    rw [if_pos hsome, Option.map_some]

end ObjectsOk

end CellNet
