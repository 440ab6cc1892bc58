import CellNet.Model.CellIOCPServer
import CellNet.Verification.Tables.Workers

/-! What the completion port of a worker has to do with its clients: an outstanding operation
of a live client is one that its flag speaks of. The moves of the roster keep this; a client
that is released while an operation is outstanding leaves it behind in the port. -/

namespace CellNet

open Library Worker

/-- The roster of one worker together with its completion port. -/
structure PortTables (cap : ℤ) (waiting detached : List Ptr) (w : Worker CellIOCP) : Prop where
  roster : Roster cap w.1 w.2.seats waiting detached
  owner : ∀ op ∈ w.2.poller.pending,
    (∃ e ∈ w.2.clients.entries, e.2 = op.ptr) ∨ op.ptr ∈ detached
  flag : ∀ op ∈ w.2.poller.pending,
    ∃ c, w.1.heap.get? op.ptr = some c ∧ c.isPost op.iotype = true
  unique : w.2.poller.pending.Pairwise fun o o' => o.ptr = o'.ptr → o.iotype ≠ o'.iotype
  len : ∀ op ∈ w.2.poller.pending, 0 < op.io.len
  keys : ∀ e ∈ w.2.clients.entries, w.2.poller.key? e.1 = some e.2

/-- No operation is outstanding for the client `p`. -/
def CellIOCP.Idle (q : CellIOCP) (p : Ptr) : Prop := ∀ op ∈ q.pending, op.ptr ≠ p

theorem CellIOCP.key?_reg (q : CellIOCP) (k k' : SOCKET) (p : Ptr) :
    (q.reg k p).key? k' = if k = k' then some p else q.key? k' := by
  rw [key?, reg, List.find?_cons]
  by_cases hk : k = k' <;> simp [hk, key?]

/-- The same for a port that may also have operations of clients that were deleted. -/
structure PortBase (cap : ℤ) (waiting detached : List Ptr) (w : Worker CellIOCP) : Prop where
  roster : Roster cap w.1 w.2.seats waiting detached
  born : ∀ op ∈ w.2.poller.pending, op.ptr < w.1.heap.next ∧ op.ptr ∉ waiting
  flag : ∀ op ∈ w.2.poller.pending, ∀ c, w.1.heap.get? op.ptr = some c →
    c.isPost op.iotype = true
  unique : w.2.poller.pending.Pairwise fun o o' => o.ptr = o'.ptr → o.iotype ≠ o'.iotype
  len : ∀ op ∈ w.2.poller.pending, 0 < op.io.len
  keys : ∀ e ∈ w.2.clients.entries, w.2.poller.key? e.1 = some e.2

section

variable {cap : ℤ} {waiting detached : List Ptr} {w : Worker CellIOCP}

theorem mem_seats_iff {p : Ptr} :
    p ∈ w.2.seats.map Seat.ptr ↔ ∃ e ∈ w.2.clients.entries, e.2 = p := by
  rw [CellServer.seats, List.map_map, List.mem_map]
  rfl

theorem PortTables.base (h : PortTables cap waiting detached w) :
    PortBase cap waiting detached w where
  roster := h.roster
  born op hop := by
    obtain ⟨c, hc, -⟩ := h.flag op hop
    refine ⟨Heap.lt_next hc, fun hw => ?_⟩
    have hn := h.roster.nodup
    rcases h.owner op hop with he | hd
    · exact List.disjoint_of_nodup_append hn.of_append_left (mem_seats_iff.mpr he) hw
    · exact List.disjoint_of_nodup_append hn (List.mem_append_right _ hw) hd
  flag op hop c hc := by
    obtain ⟨d, hd, hf⟩ := h.flag op hop
    rwa [Option.some.inj (hc.symm.trans hd)]
  unique := h.unique
  len := h.len
  keys := h.keys

theorem PortBase.tables (h : PortBase cap waiting detached w)
    (hlive : ∀ op ∈ w.2.poller.pending, ∃ c, w.1.heap.get? op.ptr = some c) :
    PortTables cap waiting detached w where
  roster := h.roster
  owner op hop := by
    obtain ⟨c, hc⟩ := hlive op hop
    have hm := (h.roster.live op.ptr).mpr ⟨c.sockfd, Net.sockfd?_eq_some.mpr ⟨c, hc, rfl⟩⟩
    rcases List.mem_append.mp hm with hm | hd
    · rcases List.mem_append.mp hm with hs | hw
      · exact .inl (mem_seats_iff.mp hs)
      · exact absurd hw (h.born op hop).2
    · exact .inr hd
  flag op hop := (hlive op hop).imp fun c hc => ⟨hc, h.flag op hop c hc⟩
  unique := h.unique
  len := h.len
  keys := h.keys

end

namespace PortBase

variable {cap : ℤ} {waiting detached : List Ptr} {w : Worker CellIOCP}

/-- Fields of the worker that the port has nothing to do with may change. -/
theorem congr (h : PortBase cap waiting detached w) {s : CellServer CellIOCP}
    (hid : s.id = w.2.id) (hc : s.clients = w.2.clients) (hq : s.poller = w.2.poller) :
    PortBase cap waiting detached (w.1, s) := by
  have hs : s.seats = w.2.seats := by rw [CellServer.seats, CellServer.seats, hc,
    show s.seat = w.2.seat from funext fun e => by rw [CellServer.seat, CellServer.seat, hid]]
  refine ⟨?_, ?_, ?_, ?_, ?_, ?_⟩
  · rw [hs]
    exact h.roster
  · rw [hq]
    exact h.born
  · rw [hq]
    exact h.flag
  · rw [hq]
    exact h.unique
  · rw [hq]
    exact h.len
  · rw [hq, hc]
    exact h.keys

theorem get? (h : PortBase cap waiting detached w) {e : SOCKET × Ptr}
    (he : e ∈ w.2.clients.entries) : ∃ c, w.1.heap.get? e.2 = some c ∧ c.sockfd = e.1 :=
  h.roster.get?_of_seated (x := w.2.seat e) (mem_seats he)

theorem ptr_nodup (h : PortBase cap waiting detached w) :
    (w.2.clients.entries.map Prod.snd).Nodup := by
  have hn := h.roster.nodup.of_append_left.of_append_left
  rwa [CellServer.seats, List.map_map] at hn

/-- Data of a client changes, and no flag of an outstanding operation is cleared. -/
theorem setClient (h : PortBase cap waiting detached w) {p : Ptr} {c d : CellClient}
    (hc : w.1.heap.get? p = some c) (hs : d.sockfd = c.sockfd)
    (hf : ∀ op ∈ w.2.poller.pending, op.ptr = p → d.isPost op.iotype = true) :
    PortBase cap waiting detached (w.1.setClient p d, w.2) where
  roster := h.roster.setClient hc hs
  born op hop := by
    rw [Net.setClient, Heap.next_set]
    exact h.born op hop
  flag op hop d' hd' := by
    rw [Net.setClient, Heap.get?_set hc] at hd'
    split at hd'
    · next hp =>
        obtain rfl := Option.some.inj hd'
        exact hf op hop hp
    · exact h.flag op hop d' hd'
  unique := h.unique
  len := h.len
  keys := h.keys

/-- A client leaves the table, in either order of `OnClientLeave` and the erasure. -/
theorem release (h : PortBase cap waiting detached w) {e : SOCKET × Ptr}
    (he : e ∈ w.2.clients.entries) :
    ∃ n', (w.1.onNetLeave e.2).delete e.2 = some n' ∧
      (w.1.onNetLeave e.2).Deleted e.2 e.1 n' ∧
      PortBase cap waiting detached (n', w.2.eraseClient e.1) := by
  have hp : w.2.seats.Perm (w.2.seat e :: (w.2.eraseClient e.1).seats) :=
    (OrderedMap.perm_erase he).map w.2.seat
  obtain ⟨n', hn, hd, hr⟩ := Roster.release (h.roster.perm hp (.refl _) (.refl _))
  refine ⟨n', hn, hd, hr, ?_, ?_, h.unique, h.len, ?_⟩
  · intro op hop
    exact ⟨hd.next ▸ (h.born op hop).1, (h.born op hop).2⟩
  · intro op hop c hc
    have hg := (hd.get? op.ptr).symm.trans hc
    split at hg
    · cases hg
    · exact h.flag op hop c hg
  · exact fun f hf => h.keys f (OrderedMap.mem_erase.mp hf).1

/-- A detached client is released. -/
theorem releaseDetached {p : Ptr} (h : PortBase cap waiting (p :: detached) w) :
    ∃ n', (w.1.onNetLeave p).delete p = some n' ∧
      (w.1.onNetLeave p).Deleted p SOCKET_ERROR n' ∧ PortBase cap waiting detached (n', w.2) := by
  obtain ⟨n', hn, hd, hr⟩ := h.roster.releaseDetached
  refine ⟨n', hn, hd, hr, ?_, ?_, h.unique, h.len, h.keys⟩
  · intro op hop
    exact ⟨hd.next ▸ (h.born op hop).1, (h.born op hop).2⟩
  · intro op hop c hc
    have hg := (hd.get? op.ptr).symm.trans hc
    split at hg
    · cases hg
    · exact h.flag op hop c hg

/-- `destroy` for a client whose entry is erased while its operations go on. -/
theorem detach (h : PortBase cap waiting detached w) {e : SOCKET × Ptr}
    (he : e ∈ w.2.clients.entries) :
    ∃ n', w.1.destroy e.2 = some n' ∧
      (∀ q, n'.heap.get? q =
        if q = e.2 then (w.1.heap.get? q).map CellClient.destroy else w.1.heap.get? q) ∧
      PortBase cap waiting (e.2 :: detached) (n', w.2.eraseClient e.1) := by
  have hp : w.2.seats.Perm (w.2.seat e :: (w.2.eraseClient e.1).seats) :=
    (OrderedMap.perm_erase he).map w.2.seat
  obtain ⟨n', hn, hg, hr⟩ := Roster.detach (h.roster.perm hp (.refl _) (.refl _))
  refine ⟨n', hn, hg, hr, ?_, ?_, h.unique, h.len, ?_⟩
  · intro op hop
    exact ⟨(Net.destroy_spec hn).1 ▸ (h.born op hop).1, (h.born op hop).2⟩
  · intro op hop c hc
    have hc := (hg op.ptr).symm.trans hc
    split at hc
    · obtain ⟨d, hd, rfl⟩ := Option.map_eq_some_iff.mp hc
      have hf := h.flag op hop d hd
      rw [CellClient.destroy]
      split <;> exact hf
    · exact h.flag op hop c hc
  · exact fun f hf => h.keys f (OrderedMap.mem_erase.mp hf).1

/-- An operation is posted for a client whose flag for it was just set. -/
theorem post (h : PortBase cap waiting detached w) {e : SOCKET × Ptr}
    (he : e ∈ w.2.clients.entries) {iotype : IoType} {io : IoData} (hio : io.sockfd = e.1)
    (hlen : 0 < io.len) {c : CellClient} (hc : w.1.heap.get? e.2 = some c)
    (hflag : c.isPost iotype = true)
    (hnew : ∀ op ∈ w.2.poller.pending, op.ptr = e.2 → op.iotype ≠ iotype) :
    (w.2.poller.post iotype io).pending = ⟨e.2, iotype, io⟩ :: w.2.poller.pending ∧
    PortBase cap waiting detached
      (w.1, { w.2 with poller := w.2.poller.post iotype io }) := by
  have hq : w.2.poller.post iotype io =
      { w.2.poller with pending := ⟨e.2, iotype, io⟩ :: w.2.poller.pending } := by
    rw [CellIOCP.post, hio, h.keys e he]
  rw [hq]
  refine ⟨rfl, h.roster, ?_, ?_, ?_, ?_, h.keys⟩
  · intro op hop
    rcases List.mem_cons.mp hop with rfl | hop
    · refine ⟨Heap.lt_next hc, fun hw => ?_⟩
      exact List.disjoint_of_nodup_append h.roster.nodup.of_append_left
        (mem_seats_iff.mpr ⟨e, he, rfl⟩) hw
    · exact h.born op hop
  · intro op hop d hd
    rcases List.mem_cons.mp hop with rfl | hop
    · rwa [Option.some.inj (hd.symm.trans hc)]
    · exact h.flag op hop d hd
  · exact .cons (fun op hop hp => (hnew op hop hp.symm).symm) h.unique
  · intro op hop
    rcases List.mem_cons.mp hop with rfl | hop
    · exact hlen
    · exact h.len op hop

/-- The port returns an operation. -/
theorem finish (h : PortBase cap waiting detached w) (op : Overlapped) :
    PortBase cap waiting detached
      (w.1, { w.2 with poller := w.2.poller.finish op }) where
  roster := h.roster
  born o ho := h.born o (List.mem_of_mem_erase ho)
  flag o ho := h.flag o (List.mem_of_mem_erase ho)
  unique := h.unique.sublist List.erase_sublist
  len o ho := h.len o (List.mem_of_mem_erase ho)
  keys := h.keys

theorem pending_nodup (h : PortBase cap waiting detached w) : w.2.poller.pending.Nodup :=
  h.unique.imp fun hne he => hne (congrArg Overlapped.ptr he) (congrArg Overlapped.iotype he)

/-- A client has at most one operation of each type outstanding. -/
theorem eq_of_pending (h : PortBase cap waiting detached w) {op o : Overlapped}
    (hop : op ∈ w.2.poller.pending) (ho : o ∈ w.2.poller.pending) (hp : o.ptr = op.ptr)
    (ht : o.iotype = op.iotype) : o = op := by
  by_contra hne
  have hpw : (op :: w.2.poller.pending.erase op).Pairwise
      fun o o' => o.ptr = o'.ptr → o.iotype ≠ o'.iotype :=
    (List.perm_cons_erase hop).pairwise h.unique fun hne he => (hne he.symm).symm
  have hmem := (List.mem_erase_of_ne hne).mpr ho
  exact List.rel_of_pairwise_cons hpw hmem hp.symm ht.symm

end PortBase

end CellNet
