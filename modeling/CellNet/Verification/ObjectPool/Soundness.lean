import CellNet.Verification.ObjectPool.Runs

/-! An object pool in every run: it falls back to the heap exactly when all its nodes are held,
and loses none. -/

namespace CellNet

open Library CellObjectPool

variable {sizeofType nPoolSize pBuf p pMem : ℕ} {A : Arena} {free : List ℕ} {s t : ObjectRun}
  {b : NodeHeader} {ls : List ObjectEvent}

namespace CellObjectPool

/-- The object is a node of the pool. -/
def inPool (c : CellObjectPool) (pMem : ℕ) : Bool :=
  (c.header pMem).any fun x => x.2.bPool

/-- `nID` in front of the object. -/
def idOf (c : CellObjectPool) (pMem : ℕ) : Option ℤ :=
  (c.header pMem).map fun x => x.2.nID

end CellObjectPool

namespace ObjectRun

/-- The nodes of the pool that are held. -/
def poolHeld (s : ObjectRun) : List ℕ :=
  s.held.filter s.pool.inPool

/-- Only allocations. -/
def Allocates (ls : List ObjectEvent) : Prop :=
  ∀ e ∈ ls, ∃ size new, e = .allocObjMemory size new

structure Sound (sizeofType nPoolSize : ℕ) (s : ObjectRun) : Prop where
  falls : ∀ size new t, (system sizeofType nPoolSize).step s (.allocObjMemory size new) t →
    ∃ pMem, t.held = pMem :: s.held ∧
      (t.pool.inPool pMem = false ↔ s.poolHeld.length = nPoolSize)
  addresses : s.held.Nodup
  ids : (s.poolHeld.map s.pool.idOf).Nodup
  refills : s.held = [] → ∀ ls t, Allocates ls → ls.length ≤ nPoolSize →
    (system sizeofType nPoolSize).Path s ls t → ∀ pMem ∈ t.held, t.pool.inPool pMem = true
  asserts : ∀ e, s.Legal sizeofType e → ∃ t, s.next sizeofType e = some t

/-- The pool can be set up wherever `new` puts it, and is sound in every run. -/
def Works (sizeofType nPoolSize : ℕ) : Prop :=
  (∀ pBuf, ∃ c, initPool sizeofType nPoolSize pBuf = some c) ∧
    ∀ s, (system sizeofType nPoolSize).Reachable s → s.Sound sizeofType nPoolSize

end ObjectRun

/-! ### The pool at the start -/

theorem CellObjectPool.Linked.nodesOk {x : Links} (hpos : 1 ≤ linked nPoolSize)
    (h : Linked pBuf (sizeofType + sizeofNodeHeader) (linked nPoolSize - 1) x) (A : Arena) :
    NodesOk sizeofType nPoolSize pBuf A x.1 := by
  have hsome : ∀ p b, x.1 p = some b → b.bPool = true ∧
      p + sizeofNodeHeader ∈ places sizeofType nPoolSize pBuf := by
    intro p b hb
    by_contra hno
    have hnone : x.1 p = none := by
      apply h.other
      intro i hi he
      apply hno
      rw [he, h.node i hi] at hb
      obtain rfl := Option.some.inj hb
      exact ⟨rfl, mem_places.mpr ⟨i, by omega, by rw [he]⟩⟩
    rw [hnone] at hb
    cases hb
  constructor
  case node =>
    intro n hn
    exact ⟨_, h.node n (by omega), rfl, rfl⟩
  case inPool => exact fun p b hb _ => (hsome p b hb).2
  case own =>
    intro p b hb hown
    rw [(hsome p b hb).1] at hown
    cases hown

theorem CellObjectPool.Linked.chain {x : Links} (hpos : 1 ≤ linked nPoolSize)
    (h : Linked pBuf (sizeofType + sizeofNodeHeader) (linked nPoolSize - 1) x) :
    Chain (fun q => (x.1 q).bind NodeHeader.pNext) (some pBuf)
      ((List.range (linked nPoolSize)).map (nodeAt pBuf (sizeofType + sizeofNodeHeader))) := by
  have hfirst : nodeAt pBuf (sizeofType + sizeofNodeHeader) 0 = pBuf := by
    simp [nodeAt]
  have hlink : ∀ n < linked nPoolSize,
      (x.1 (nodeAt pBuf (sizeofType + sizeofNodeHeader) n)).bind NodeHeader.pNext =
        if n + 1 < linked nPoolSize then
          some (nodeAt pBuf (sizeofType + sizeofNodeHeader) (n + 1))
        else none := by
    intro n hn
    have hlt : n < linked nPoolSize - 1 ↔ n + 1 < linked nPoolSize := by omega
    rw [h.node n (by omega), Option.bind_some]
    simp only [hlt]
  have hc : Chain (fun q => (x.1 q).bind NodeHeader.pNext)
      (some (nodeAt pBuf (sizeofType + sizeofNodeHeader) 0))
      ((List.range (linked nPoolSize)).map (nodeAt pBuf (sizeofType + sizeofNodeHeader))) :=
    Chain.of_range hpos hlink
  rwa [hfirst] at hc

theorem CellObjectPool.Fits.objectsOk (hfit : Fits sizeofType nPoolSize) {c : CellObjectPool}
    (hc : CellObjectPool.initPool sizeofType nPoolSize pBuf = some c) :
    ∃ A free, ObjectsOk sizeofType nPoolSize ⟨c, []⟩ A free := by
  obtain ⟨x, hx, hl⟩ := hfit.initPool pBuf
  obtain rfl := Option.some.inj (hx.symm.trans hc)
  have hpos := hfit.linked_pos
  let S := poolSlab sizeofType nPoolSize pBuf
  have hn : 0 < S.size * S.count :=
    Nat.mul_pos (Nat.add_pos_right _ (by decide)) hfit.nonempty
  have hf : Arena.empty.regions.Fresh S.buf (S.size * S.count) := fun _ _ hb => nomatch hb
  refine ⟨Arena.empty.cut 0 S hf hn,
    (List.range (linked nPoolSize)).map (nodeAt pBuf (sizeofType + sizeofNodeHeader)), ?_⟩
  constructor
  case slab => rfl
  case regions =>
    exact congrArg (fun n => Function.update (fun _ => none) pBuf (some n)) (Nat.mul_comm ..)
  case nodes => exact hl.nodesOk hpos _
  case chain => exact hl.chain hpos
  case perm =>
    rw [List.filter_nil, List.append_nil, List.map_map]
    exact .refl _
  case blank =>
    intro p hp b hb
    obtain ⟨n, hn, rfl⟩ := List.mem_map.mp hp
    have hlt := List.mem_range.mp hn
    obtain rfl := Option.some.inj ((hl.node n (by omega)).symm.trans hb)
    rfl
  case held => exact fun _ hm => nomatch hm
  case once => exact List.nodup_nil

theorem CellObjectPool.Fits.ok_of_reachable (hfit : Fits sizeofType nPoolSize)
    (h : (ObjectRun.system sizeofType nPoolSize).Reachable s) :
    ∃ A free, ObjectsOk sizeofType nPoolSize s A free := by
  refine System.Invariant.reachable
    (P := fun s => ∃ A free, ObjectsOk sizeofType nPoolSize s A free) ⟨?_, ?_⟩ h
  · intro s hs
    obtain ⟨pBuf, c, hc, rfl⟩ := hs
    exact hfit.objectsOk hc
  · intro s e t hs he
    obtain ⟨A, free, hok⟩ := hs
    obtain ⟨hl, hn⟩ := he
    cases e with
    | allocObjMemory size new =>
        obtain ⟨u, q, A', free', hu, -, hok', -⟩ := hok.allocObjMemory hfit.realSize hl
        obtain rfl := Option.some.inj (hu.symm.trans hn)
        exact ⟨A', free', hok'⟩
    | freeObjMemory pMem =>
        obtain ⟨u, A', free', hu, -, hok', -⟩ := hok.freeObjMemory hl
        obtain rfl := Option.some.inj (hu.symm.trans hn)
        exact ⟨A', free', hok'⟩

/-! ### Every state -/

namespace ObjectsOk

theorem inPool_iff (h : ObjectsOk sizeofType nPoolSize s A free) (hm : pMem ∈ s.held) :
    s.pool.inPool pMem = true ↔ pMem ∈ places sizeofType nPoolSize s.pool.pBuf := by
  obtain ⟨p, b, rfl, hb, -⟩ := h.held pMem hm
  rw [← h.nodes.bPool_iff hb, inPool, header_eq_some.mpr ⟨rfl, hb⟩, Option.any_some]

theorem poolHeld_eq (h : ObjectsOk sizeofType nPoolSize s A free) :
    s.poolHeld = s.held.filter (· ∈ places sizeofType nPoolSize s.pool.pBuf) := by
  apply List.filter_congr
  intro m hm
  rw [Bool.eq_iff_iff, h.inPool_iff hm, decide_eq_true_iff]

/-- Each linked node is counted once. -/
theorem count (h : ObjectsOk sizeofType nPoolSize s A free) :
    free.length + s.poolHeld.length = linked nPoolSize := by
  have hl := h.perm.length_eq
  rw [List.length_append, List.length_map, ← h.poolHeld_eq] at hl
  rw [hl, places, List.length_map, List.length_range]

theorem ids (h : ObjectsOk sizeofType nPoolSize s A free) :
    (s.poolHeld.map s.pool.idOf).Nodup := by
  have hid : ∀ m ∈ s.poolHeld, ∃ n : ℕ, s.pool.idOf m = some (n : ℤ) ∧
      m = nodeAt s.pool.pBuf (sizeofType + sizeofNodeHeader) n + sizeofNodeHeader := by
    intro m hm
    obtain ⟨hheld, hpool⟩ := List.mem_filter.mp hm
    obtain ⟨n, hn, rfl⟩ := mem_places.mp ((h.inPool_iff hheld).mp hpool)
    obtain ⟨b, hb, hID, -⟩ := h.nodes.node n hn
    refine ⟨n, ?_, rfl⟩
    rw [idOf, header_eq_some.mpr ⟨rfl, hb⟩, Option.map_some, hID]
  apply List.Nodup.map_on
  · intro m hm m' hm' he
    obtain ⟨n, hn, rfl⟩ := hid m hm
    obtain ⟨n', hn', rfl⟩ := hid m' hm'
    rw [hn, hn'] at he
    obtain rfl : n = n' := by exact_mod_cast Option.some.inj he
    rfl
  · exact h.once.filter _

/-- A new object is a node of the pool unless all linked nodes are held. -/
theorem falls (h : ObjectsOk sizeofType nPoolSize s A free) (hfit : Fits sizeofType nPoolSize)
    {size : ℕ} {new : Option ℕ}
    (hs : (ObjectRun.system sizeofType nPoolSize).step s (.allocObjMemory size new) t) :
    ∃ pMem A' free', t.held = pMem :: s.held ∧ ObjectsOk sizeofType nPoolSize t A' free' ∧
      t.pool.pBuf = s.pool.pBuf ∧
      (t.pool.inPool pMem = false ↔ s.poolHeld.length = linked nPoolSize) := by
  obtain ⟨u, q, A', free', hu, hheld, hok, hbuf, hplace⟩ := h.allocObjMemory hfit.realSize hs.1
  obtain rfl := Option.some.inj (hu.symm.trans hs.2)
  have hcount := h.count
  refine ⟨_, A', free', hheld, hok, hbuf, ?_⟩
  have hmem : q + sizeofNodeHeader ∈ u.held := by
    rw [hheld]
    exact List.mem_cons_self
  rw [← Bool.not_eq_true, hok.inPool_iff hmem, hbuf, hplace, not_not, ← List.length_eq_zero_iff]
  omega

theorem poolHeld_eq_held (h : ObjectsOk sizeofType nPoolSize s A free) :
    s.poolHeld = s.held ↔ ∀ m ∈ s.held, m ∈ places sizeofType nPoolSize s.pool.pBuf := by
  rw [h.poolHeld_eq, List.filter_eq_self]
  simp only [decide_eq_true_iff]

/-- As long as there are nodes for all of them, objects come from the pool. -/
theorem fills (h : ObjectsOk sizeofType nPoolSize s A free) (hfit : Fits sizeofType nPoolSize)
    (hp : (ObjectRun.system sizeofType nPoolSize).Path s ls t) (hls : ObjectRun.Allocates ls)
    (hin : s.poolHeld = s.held) (hle : s.held.length + ls.length ≤ linked nPoolSize) :
    t.poolHeld = t.held := by
  induction hp generalizing A free with
  | nil s => exact hin
  | @cons s u t e ls hs hp ih =>
      obtain ⟨⟨size, new, rfl⟩, hrest⟩ := List.forall_mem_cons.mp hls
      obtain ⟨m, A', free', hheld, hok, hbuf, hfalls⟩ := h.falls hfit hs
      rw [List.length_cons] at hle
      have hpool : u.pool.inPool m = true := by
        rw [← Bool.not_eq_false, hfalls, hin]
        omega
      apply ih hok hrest
      · have hold := h.poolHeld_eq_held.mp hin
        rw [hok.poolHeld_eq_held, hheld, hbuf]
        refine List.forall_mem_cons.mpr ⟨?_, hold⟩
        rw [← hbuf, ← hok.inPool_iff (by rw [hheld]; exact List.mem_cons_self)]
        exact hpool
      · rw [hheld, List.length_cons]
        omega

/-- No call fails. -/
theorem defined (h : ObjectsOk sizeofType nPoolSize s A free) (hfit : Fits sizeofType nPoolSize)
    {e : ObjectEvent} (hl : s.Legal sizeofType e) : ∃ t, s.next sizeofType e = some t := by
  cases e with
  | allocObjMemory size new =>
      obtain ⟨t, -, -, -, ht, -⟩ := h.allocObjMemory hfit.realSize hl
      exact ⟨t, ht⟩
  | freeObjMemory pMem =>
      obtain ⟨t, -, -, ht, -⟩ := h.freeObjMemory hl
      exact ⟨t, ht⟩

theorem sound (h : ObjectsOk sizeofType nPoolSize s A free) (hfit : Fits sizeofType nPoolSize)
    (hN : linked nPoolSize = nPoolSize) : s.Sound sizeofType nPoolSize := by
  constructor
  case falls =>
    intro size new t hs
    obtain ⟨m, -, -, hheld, -, -, hfalls⟩ := h.falls hfit hs
    rw [hN] at hfalls
    exact ⟨m, hheld, hfalls⟩
  case addresses => exact h.once
  case ids => exact h.ids
  case refills =>
    intro hnil ls t hls hle hp m hm
    have hin : s.poolHeld = s.held := by
      unfold ObjectRun.poolHeld
      rw [hnil, List.filter_nil]
    have hall := h.fills hfit hp hls hin (by rw [hnil, hN, List.length_nil]; omega)
    rw [← hall] at hm
    exact (List.mem_filter.mp hm).2
  case asserts => exact fun e hl => h.defined hfit hl

end ObjectsOk

/-- A pool whose numbers fit works. -/
theorem ObjectRun.works_of_fits (hfit : Fits sizeofType nPoolSize) (hN : nPoolSize ≤ 2 ^ 31) :
    Works sizeofType nPoolSize := by
  constructor
  · intro pBuf
    obtain ⟨x, hx, -⟩ := hfit.initPool pBuf
    exact ⟨_, hx⟩
  · intro s hs
    obtain ⟨A, free, hok⟩ := hfit.ok_of_reachable hs
    exact hok.sound hfit (min_eq_left hN)

end CellNet
