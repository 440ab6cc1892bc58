import CellNet.Verification.Loop.Buffers
import CellNet.Verification.Messages.Semantics

/-! Peers that send only messages that fit. When a worker polls, the receive buffer of each of its
clients holds a proper prefix of one such message, so it is not full. -/

namespace CellNet

open Library Worker

variable {π σ : Type}

/-! ### Streams of frames -/

theorem IsFrame.framed {nSize : ℤ} {f : List UInt8} (h : IsFrame nSize f) :
    headerFraming.Framed f :=
  frame?_eq_some_iff.mpr ⟨h.header, h.dataLength.le, h.dataLength⟩

theorem CellBuffer.read4socket_ne_zero {b : CellBuffer} (h : b.nLast < b.nSize)
    (recv : Option (List UInt8)) : (b.read4socket recv).2 ≠ 0 := by
  have hs : b.nSize - b.nLast > 0 := by omega
  have he : SOCKET_ERROR ≠ 0 := by decide
  by_cases hn : recv.getD [] = []
  · rw [read4socket_none hs hn]
    exact he
  · cases recv with
    | none => exact absurd rfl hn
    | some bytes =>
        have hn' : bytes ≠ [] := hn
        rw [read4socket_some hs hn']
        simpa using hn'

/-- What the buffer holds and what its peer still sends are frames that fit. -/
structure CellBuffer.Healthy (nSize : ℤ) (unread : List UInt8) (b : CellBuffer) : Prop where
  valid : b.Valid
  size : b.nSize = nSize
  stream : IsStream nSize (b.content ++ unread)

namespace CellBuffer.Healthy

variable {nSize : ℤ} {unread : List UInt8} {b b' : CellBuffer}

theorem new {block : List UInt8} (hb : (block.length : ℤ) = nSize) (hs : nSize ≤ 2147483647)
    (hu : IsStream nSize unread) : (CellBuffer.new nSize block).Healthy nSize unread where
  valid := valid_new hb hs
  size := rfl
  stream := by simpa using hu

/-- A buffer without a complete frame is not full: the frame it has begun does not fill it. -/
theorem not_full (h : b.Healthy nSize unread) (h4 : 4 ≤ nSize)
    (hn : headerFraming.frame? b.content = none) : b.nLast < b.nSize := by
  obtain ⟨fs, hfs, he⟩ := h.stream
  have hlen := length_content h.valid
  have hsize := h.size
  cases fs with
  | nil =>
      have hc : b.content = [] := (List.append_eq_nil_iff.mp he).1
      rw [hc] at hlen
      simp only [List.length_nil, Nat.cast_zero] at hlen
      omega
  | cons f fs =>
      have hf := hfs f List.mem_cons_self
      have hshort : b.content.length < f.length := by
        by_contra hle
        rw [List.flatten_cons] at he
        obtain ⟨rest, hrest⟩ := List.prefix_of_prefix_length_le (List.prefix_append f fs.flatten)
          (he ▸ List.prefix_append b.content unread) (not_lt.mp hle)
        rw [← hrest, headerFraming.stable rest hf.framed] at hn
        cases hn
      have hfits := hf.fits
      omega

/-- `RecvData` takes the next bytes of the peer. -/
theorem read {recv : Option (List UInt8)} (h : b.Healthy nSize (recv.getD [] ++ unread))
    (hl : ((recv.getD []).length : ℤ) ≤ b.nSize - b.nLast) :
    (b.read4socket recv).1.Healthy nSize unread := by
  obtain ⟨hv, hs, hc⟩ := read4socket_spec h.valid recv hl
  refine ⟨hv, hs.trans h.size, ?_⟩
  have ht : b.taken recv = recv.getD [] := by
    rw [taken]
    split
    · rfl
    · next hs =>
        have hz : (recv.getD []).length = 0 := by omega
        exact (List.length_eq_zero_iff.mp hz).symm
  rw [hc, ht, List.append_assoc]
  exact h.stream

/-- The front message is removed. -/
theorem drop (h : b.Healthy nSize unread) {n : ℕ}
    (hn : headerFraming.frame? b.content = some n) (hv : b'.Valid) (hs : b'.nSize = b.nSize)
    (hc : b'.content = b.content.drop n) : b'.Healthy nSize unread := by
  obtain ⟨fs, hfs, he⟩ := h.stream
  refine ⟨hv, hs.trans h.size, ?_⟩
  have hone : headerFraming.Consumes b.content [b.content.take n] (b.content.drop n) :=
    .cons hn (.nil _)
  obtain ⟨gs, rfl, hg⟩ := hone.framed (fun f hf => (hfs f hf).framed) he
  exact ⟨gs, fun g hg => hfs g (List.mem_append_right _ hg), hc ▸ hg⟩

end CellBuffer.Healthy

/-! ### Messages still to be handled -/

/-- The messages under the key `k` are still to be handled. -/
def LoopPc.Pending : LoopPc → SOCKET → Prop
  | .doMsg rest => fun k => k ∈ rest
  | .left => fun _ => True
  | _ => fun _ => False

namespace ServerLoops

/-- A worker may have read from the client `p` without having handled its messages. -/
def Pending (s : ServerLoops π σ) (p : Ptr) : Prop :=
  ∃ (i : ℕ) (c : CellServer π) (pc : LoopPc) (k : SOCKET), s.server.cellServers[i]? = some c ∧
    s.pcs[i]? = some pc ∧ (k, p) ∈ c.clients.entries ∧ pc.Pending k

variable {s : ServerLoops π σ} {i : ℕ} {pc₀ : LoopPc} {p : Ptr}

/-- A worker without such messages has no part in those of others. -/
theorem Pending.elsewhere (h : s.Pending p) (hi : s.pcs[i]? = some pc₀)
    (h₀ : ∀ k, ¬ pc₀.Pending k) : ∃ (j : ℕ) (c : CellServer π) (pc : LoopPc) (k : SOCKET),
      i ≠ j ∧ s.server.cellServers[j]? = some c ∧ s.pcs[j]? = some pc ∧
      (k, p) ∈ c.clients.entries ∧ pc.Pending k := by
  obtain ⟨j, c, pc, k, hj, hpc, he, hk⟩ := h
  refine ⟨j, c, pc, k, ?_, hj, hpc, he, hk⟩
  rintro rfl
  obtain rfl := Option.some.inj (hi.symm.trans hpc)
  exact h₀ k hk

theorem Pending.put (h : s.Pending p) (hi : s.pcs[i]? = some pc₀) (h₀ : ∀ k, ¬ pc₀.Pending k)
    (w : Worker π) (pc : LoopPc) : (s.put i w pc).Pending p := by
  obtain ⟨j, d, pcj, k, hij, hj, hpc, he, hk⟩ := h.elsewhere hi h₀
  refine ⟨j, d, pcj, k, ?_, ?_, he, hk⟩
  · exact (List.getElem?_set_ne hij).trans hj
  · exact (List.getElem?_set_ne hij).trans hpc

theorem Pending.setPc (h : s.Pending p) (hi : s.pcs[i]? = some pc₀) (h₀ : ∀ k, ¬ pc₀.Pending k)
    (pc : LoopPc) : Pending { s with pcs := s.pcs.set i pc } p := by
  obtain ⟨j, d, pcj, k, hij, hj, hpc, he, hk⟩ := h.elsewhere hi h₀
  exact ⟨j, d, pcj, k, hj, (List.getElem?_set_ne hij).trans hpc, he, hk⟩

theorem Pending.accpet {t : ServerT} {s : ServerLoops t.Poller σ} (h : s.Pending p)
    {cSock : SOCKET} {sendBlock recvBlock : List UInt8} {server : EasyTcpServer t.Poller σ}
    (ha : s.server.accpet cSock sendBlock recvBlock = some server) :
    Pending { s with server := server } p := by
  obtain ⟨j, d, pcj, k, hj, hpc, he, hk⟩ := h
  rcases EasyTcpServer.accpet_cases ha with ⟨-, rfl | rfl⟩ | ⟨-, c, i, hc, rfl⟩
  · exact ⟨j, d, pcj, k, hj, hpc, he, hk⟩
  · exact ⟨j, d, pcj, k, hj, hpc, he, hk⟩
  · by_cases hij : i = j
    · subst hij
      obtain rfl := Option.some.inj (hc.mem.symm.trans hj)
      refine ⟨i, c.addClient s.server.net.heap.next, pcj, k, ?_, hpc, he, hk⟩
      exact getElem?_set_same hj _
    · exact ⟨j, d, pcj, k, (List.getElem?_set_ne hij).trans hj, hpc, he, hk⟩

end ServerLoops

/-! ### Healthy clients in every state -/

namespace ServedPeers

open ServerLoops

/-- The buffers of all clients are healthy, and without a complete message unless they are still
to be handled. -/
structure PeersOk (s : ServedPeers π σ) : Prop where
  least : 4 ≤ s.loops.server.nRecvBuffSize
  most : s.loops.server.nRecvBuffSize ≤ 2147483647
  live : ∀ p b, s.loops.server.net.recvBuff? p = some b →
    b.Healthy s.loops.server.nRecvBuffSize (s.unread p)
  unborn : ∀ p, s.loops.server.net.heap.next ≤ p →
    IsStream s.loops.server.nRecvBuffSize (s.unread p)
  parsed : ∀ p b, s.loops.server.net.recvBuff? p = some b → ¬ s.loops.Pending p →
    headerFraming.frame? b.content = none

/-- A step that spares the receive buffers. -/
theorem PeersOk.spares {s : ServedPeers π σ} (h : s.PeersOk) {loops : ServerLoops π σ}
    (hn : s.loops.server.net.Spares loops.server.net)
    (hs : loops.server.nRecvBuffSize = s.loops.server.nRecvBuffSize)
    (hp : ∀ p, s.loops.Pending p → loops.Pending p) : PeersOk ⟨loops, s.unread⟩ where
  least := by rw [hs]; exact h.least
  most := by rw [hs]; exact h.most
  live p b hb := by rw [hs]; exact h.live p b (hn.recvBuff p b hb)
  unborn p hle := by rw [hs]; exact h.unborn p (hn.next ▸ hle)
  parsed p b hb hnp := h.parsed p b (hn.recvBuff p b hb) fun hq => hnp (hp p hq)

section Steps

variable {t : ServerT} {onNetMsg : Handler σ} {s s' : ServedPeers t.Poller σ}

theorem PeersOk.accpet (h : s.PeersOk) {cSock : SOCKET} {sendBlock recvBlock : List UInt8}
    (hb : (recvBlock.length : ℤ) = s.loops.server.nRecvBuffSize)
    {server : EasyTcpServer t.Poller σ}
    (ha : s.loops.server.accpet cSock sendBlock recvBlock = some server) :
    PeersOk ⟨{ s.loops with server := server }, s.unread⟩ := by
  have hpending : ∀ p, s.loops.Pending p → Pending { s.loops with server := server } p :=
    fun p hp => hp.accpet ha
  rcases EasyTcpServer.accpet_cases ha with ⟨-, rfl | rfl⟩ | ⟨-, c, i, hc, rfl⟩
  · exact h
  · exact h.spares (Net.spares_of_heap rfl) rfl hpending
  · have hview := Net.recvBuff?_newClient s.loops.server.net cSock
      (s.loops.server.newClient cSock sendBlock recvBlock)
    refine ⟨h.least, h.most, ?_, ?_, ?_⟩
    · intro q b hq
      dsimp only at hq
      rw [hview] at hq
      split at hq
      · next he =>
          obtain rfl := Option.some.inj hq
          exact .new hb h.most (h.unborn q he.ge)
      · exact h.live q b hq
    · intro q hq
      have hnext : s.loops.server.net.heap.next + 1 ≤ q := by
        rwa [← Heap.next_alloc]
      exact h.unborn q (Nat.le_of_succ_le hnext)
    · intro q b hq hnp
      dsimp only at hq
      rw [hview] at hq
      split at hq
      · obtain rfl := Option.some.inj hq
        have hc : (s.loops.server.newClient cSock sendBlock recvBlock).recvBuff.content = [] :=
          CellBuffer.content_new ..
        rw [hc]
        exact headerFraming.nil
      · exact h.parsed q b hq fun hp => hnp (hpending q hp)

/-- A round of `DoMsg` removes a message, or finds that none is left. -/
theorem PeersOk.doMsg (h : s.PeersOk) (hk : onNetMsg.KeepsRecv) {i : ℕ}
    {loops : ServerLoops t.Poller σ} (hd : Rounds onNetMsg s.loops i loops) :
    PeersOk ⟨loops, s.unread⟩ := by
  cases hd with
  | done hpc =>
      refine h.spares (.refl _) rfl ?_
      intro p hp
      exact hp.setPc hpc (fun k hk => absurd hk List.not_mem_nil) .test
  | @skip k rest c p pClient hpc hi hf hg hm =>
      refine ⟨h.least, h.most, h.live, h.unborn, ?_⟩
      intro q b hq hnp
      by_cases hpend : s.loops.Pending q
      · obtain ⟨j, d, pcj, k', hj, hpcj, he, hk'⟩ := hpend
        have hset : (s.loops.pcs.set i (.doMsg rest))[i]? = some (.doMsg rest) :=
          getElem?_set_same hpc _
        by_cases hij : i = j
        · subst hij
          obtain rfl := Option.some.inj (hi.symm.trans hj)
          obtain rfl := Option.some.inj (hpc.symm.trans hpcj)
          rcases List.mem_cons.mp hk' with rfl | hk'
          · -- it is the client that has no message left
            have hq' := OrderedMap.find?_eq_some_iff.mpr he
            obtain rfl := Option.some.inj (hf.symm.trans hq')
            rw [Net.recvBuff?, hg] at hq
            obtain rfl := Option.some.inj hq
            have hv := (h.live p pClient.recvBuff (by rw [Net.recvBuff?, hg]; rfl)).valid
            rw [CellClient.hasMsg, CellBuffer.hasMsg_eq hv] at hm
            simpa using hm
          · exact absurd ⟨i, c, _, k', hj, hset, he, hk'⟩ hnp
        · exact absurd ⟨j, d, pcj, k', hj, (List.getElem?_set_ne hij).trans hpcj, he, hk'⟩ hnp
      · exact h.parsed q b hq hpend
  | @handle k rest c p pClient hpc hi hf hg hm =>
      have hb := h.live p pClient.recvBuff (by rw [Net.recvBuff?, hg]; rfl)
      rw [CellClient.hasMsg, CellBuffer.hasMsg_eq hb.valid, Option.isSome_iff_exists] at hm
      obtain ⟨n, hn⟩ := hm
      obtain ⟨hv, hs, hc⟩ := msgBody_spec hk (x := (s.loops.server.ext, pClient)) hb.valid hn
      have hview := Net.recvBuff?_setClient (n := s.loops.server.net.onNetMsg) hg
        (msgBody onNetMsg (s.loops.server.ext, pClient)).2
      refine ⟨h.least, h.most, ?_, ?_, ?_⟩
      · intro q b hq
        dsimp only at hq
        rw [hview] at hq
        split at hq
        · next he =>
            obtain rfl := Option.some.inj hq
            exact he ▸ hb.drop hn hv hs hc
        · exact h.live q b hq
      · intro q hq
        apply h.unborn q
        rwa [← Heap.next_set]
      · intro q b hq hnp
        dsimp only at hq
        rw [hview] at hq
        split at hq
        · next he =>
            refine absurd ⟨i, c, _, k, hi, hpc, ?_, List.mem_cons_self⟩ hnp
            exact he ▸ OrderedMap.find?_eq_some_iff.mp hf
        · exact h.parsed q b hq hnp

/-- Whatever a poll reads from is still to be handled behind it. -/
theorem PeersOk.doNetEvent (h : s.PeersOk) (hok : s.loops.LoopsOk) {i : ℕ} {a : t.Answer}
    (hpc : s.loops.pcs[i]? = some .doNetEvent) {c : CellServer t.Poller}
    (hi : s.loops.server.cellServers[i]? = some c)
    (ha : t.Answers (s.loops.server.net, c) a) {r : Worker t.Poller × Bool}
    (hd : t.doNetEvent (s.loops.server.net, c) a = some r) {unread : Ptr → List UInt8}
    (hf : Feeds t (s.loops.server.net, c) a s.unread unread) :
    PeersOk ⟨s.loops.put i r.1
      (if r.2 then .doMsg (r.1.2.clients.entries.map Prod.fst) else .left), unread⟩ := by
  generalize hpc' : (if r.2 then LoopPc.doMsg (r.1.2.clients.entries.map Prod.fst) else .left) = pc'
  obtain ⟨others, waiters, ht, hid, -⟩ := hok.tables.worker hi
  obtain ⟨hshrinks, hleft⟩ := t.doNetEvent_readsBy ht ha hd
  have hmono : ∀ p, s.loops.Pending p → (s.loops.put i r.1 pc').Pending p :=
    fun p hp => hp.put hpc (fun _ => not_false) r.1 pc'
  refine ⟨h.least, h.most, ?_, ?_, ?_⟩
  · intro p b hb
    rcases hleft p b hb with ⟨hb, hno⟩ | ⟨w₁, recv, b₀, hc, hb₁, hb₀, rfl⟩
    · dsimp only
      rw [(hf p).1 hno]
      exact h.live p b hb
    · obtain ⟨hu, hlen⟩ := (hf p).2 w₁ recv hc
      have hb := h.live p b₀ hb₀
      rw [hu] at hb
      exact hb.read (hlen b₀ hb₁)
  · intro p hp
    have hp' : s.loops.server.net.heap.next ≤ p := hshrinks.next ▸ hp
    have hno : ∀ w₁ recv, ¬ t.Receives (s.loops.server.net, c) a w₁ p recv := by
      intro w₁ recv hc
      obtain ⟨⟨k, hk⟩, -⟩ := t.receives_found ht hid ha hc
      obtain ⟨d, hd, -⟩ := ht.get? hk
      exact absurd (Heap.lt_next hd) (not_lt.mpr hp')
    dsimp only
    rw [(hf p).1 hno]
    exact h.unborn p hp'
  · intro p b hb hnp
    rcases hleft p b hb with ⟨hb, -⟩ | ⟨w₁, recv, b₀, hc, -, -, -⟩
    · exact h.parsed p b hb fun hp => hnp (hmono p hp)
    · -- a client that was read from is in the table, or does not live any more
      obtain ⟨⟨k, hk⟩, -⟩ := t.receives_found ht hid ha hc
      obtain ⟨w', b', hw, ht', -⟩ := t.doNetEvent_tables ht hid (hok.reports hi ha hd).1
      obtain rfl := Option.some.inj (hd.symm.trans hw)
      obtain ⟨client, hg, rfl⟩ := Option.map_eq_some_iff.mp hb
      obtain ⟨k', hk'⟩ := ht.seat_of_live ht' hshrinks.clientsBuff hk
        (Net.sockfd?_eq_some.mpr ⟨client, hg, rfl⟩)
      refine absurd ⟨i, w'.2, pc', k', cellServers_put hi .., pcs_put hpc .., hk', ?_⟩ hnp
      rw [← hpc']
      cases b' with
      | true => exact List.mem_map_of_mem hk'
      | false => trivial

theorem PeersOk.next (h : s.PeersOk) (hok : s.loops.LoopsOk) (hk : onNetMsg.KeepsRecv)
    {e : LoopEvent t.Answer} (hs : (system t onNetMsg).step s e s') : s'.PeersOk := by
  obtain ⟨loops, unread⟩ := s'
  obtain ⟨⟨hl, hn⟩, hr⟩ := hs
  dsimp only at hn hr
  cases next_cases hn with
  | accpet ha =>
      obtain rfl := hr
      exact h.accpet hl.2.2 ha
  | @stop i =>
      obtain rfl := hr
      refine h.spares (.refl _) rfl ?_
      intro p hp
      exact hp.setPc hl (fun _ => not_false) .left
  | idle hi hw =>
      obtain rfl := hr
      refine h.spares (t.drain_spares hw) rfl ?_
      intro p hp
      exact hp.put hl (fun _ => not_false) _ .test
  | @busy i now c w hi hw =>
      obtain rfl := hr
      refine h.spares (t.drain_spares hw) rfl ?_
      intro p hp
      exact hp.put hl (fun _ => not_false) w .checkTime
  | @checkTime i now c w hi hw =>
      obtain rfl := hr
      refine h.spares (checkTime_spares hw) rfl ?_
      intro p hp
      exact hp.put hl (fun _ => not_false) w .doNetEvent
  | @doNetEvent i a c r hi hd => exact h.doNetEvent hok hl.1 hi (hl.2 c hi) hd (hr c hi)
  | doMsg hd =>
      obtain rfl := hr
      exact h.doMsg hk hd

theorem peersOk_of_reachable (hk : onNetMsg.KeepsSock) (hr : onNetMsg.KeepsRecv)
    (h : (system t onNetMsg).Reachable s) : s.PeersOk ∧ s.loops.LoopsOk := by
  refine System.Invariant.reachable (P := fun s => s.PeersOk ∧ s.loops.LoopsOk) ⟨?_, ?_⟩ h
  · intro s hs
    obtain ⟨⟨n, nSend, nRecv, nMax, oldTime, poller, ext, hl⟩, hleast, hmost, hu⟩ := hs
    have hnone : ∀ p, s.loops.server.net.recvBuff? p = none := by
      intro p
      simp [hl, Net.recvBuff?, EasyTcpServer.start, Net.new]
    constructor
    · refine ⟨hleast, hmost, ?_, fun p _ => hu p, ?_⟩
      · intro p b hb
        rw [hnone] at hb
        cases hb
      · intro p b hb
        rw [hnone] at hb
        cases hb
    · rw [hl]
      exact start_loopsOk n nSend nRecv nMax oldTime poller ext
  · intro s e s' hs he
    exact ⟨hs.1.next hs.2 hr he, hs.2.next hk he.1.1 he.1.2⟩

/-- In every run whose peers send only messages that fit: when a poll calls `RecvData`, the
buffer of the client is not full, and nothing is answered that stands for a full one. -/
theorem recvData_not_full (hk : onNetMsg.KeepsSock) (hr : onNetMsg.KeepsRecv)
    (h : (system t onNetMsg).Reachable s) {i : ℕ}
    (hpc : s.loops.pcs[i]? = some .doNetEvent) {c : CellServer t.Poller}
    (hi : s.loops.server.cellServers[i]? = some c) {a : t.Answer}
    (ha : t.Answers (s.loops.server.net, c) a) {w₁ : Worker t.Poller} {p : Ptr}
    {recv : Option (List UInt8)} (hc : t.Receives (s.loops.server.net, c) a w₁ p recv)
    {client : CellClient} (hp : w₁.1.heap.get? p = some client) :
    client.recvBuff.nLast < client.recvBuff.nSize ∧ (client.recvData recv).2 ≠ 0 := by
  obtain ⟨hpeers, hok⟩ := peersOk_of_reachable hk hr h
  obtain ⟨others, waiters, ht, hid, -⟩ := hok.tables.worker hi
  obtain ⟨⟨k, hk⟩, hview⟩ := t.receives_found ht hid ha hc
  have hb : s.loops.server.net.recvBuff? p = some client.recvBuff :=
    hview _ (by rw [Net.recvBuff?, hp, Option.map_some])
  have hnp : ¬ s.loops.Pending p := by
    intro hpend
    obtain ⟨j, d, pcj, k', hj, hpcj, hk', hpj⟩ := hpend
    obtain rfl := hok.tables.owner hi hj hk hk' rfl
    obtain rfl := Option.some.inj (hpc.symm.trans hpcj)
    exact hpj
  have hlt := (hpeers.live p _ hb).not_full hpeers.least (hpeers.parsed p _ hb hnp)
  exact ⟨hlt, CellBuffer.read4socket_ne_zero hlt recv⟩

end Steps

/-- A server with one worker, whose peers each send one message of four bytes. -/
def serving : ServedPeers Unit Unit :=
  ⟨⟨.start 1 8 8 2 (fun _ => 0) () (), [.test]⟩, fun _ => [4, 0, 7, 0]⟩

/-- The first client was accepted and taken up, and its worker is about to poll. -/
def polling : ServedPeers Unit Unit :=
  ⟨([LoopEvent.accpet 5 (List.replicate 8 0) (List.replicate 8 0), .drain 0 0,
      .checkTime 0 0].foldlM (next .epoll EasyTcpServer.quiet) serving.loops).getD serving.loops,
    serving.unread⟩

/-- Its worker. -/
def pollingWorker : CellServer Unit :=
  { CellServer.new 1 0 () with clients := OrderedMap.empty.insert 5 0 }

theorem polling_reachable : (system .epoll EasyTcpServer.quiet).Reachable polling := by
  have hs : IsStream 8 [4, 0, 7, 0] := by
    refine ⟨[[4, 0, 7, 0]], ?_, rfl⟩
    intro f hf
    obtain rfl := List.mem_singleton.mp hf
    exact ⟨by decide, by decide, by decide⟩
  have hu : serving.unread = serving.unread := rfl
  have h₀ : (system .epoll EasyTcpServer.quiet).Reachable serving :=
    .init ⟨⟨1, 8, 8, 2, fun _ => 0, (), (), rfl⟩, by decide, by decide, fun _ => hs⟩
  have h₁ := h₀.step (l := LoopEvent.accpet 5 (List.replicate 8 0) (List.replicate 8 0))
    (t := ServedPeers.mk _ serving.unread) ⟨⟨⟨List.not_mem_nil, rfl, rfl⟩, rfl⟩, hu⟩
  have h₂ := h₁.step (l := LoopEvent.drain 0 0) (t := ServedPeers.mk _ serving.unread)
    ⟨⟨show _ = some LoopPc.test from rfl, rfl⟩, hu⟩
  exact h₂.step (l := LoopEvent.checkTime 0 0)
    ⟨⟨show _ = some LoopPc.checkTime from rfl, rfl⟩, hu⟩

/-- The message of the first client arrives. -/
def arrived : EpollAnswer := .events [⟨0, true, false, some [4, 0, 7, 0], 0⟩]

theorem recvData_not_full_arrived :
    ∃ client, polling.loops.server.net.heap.get? 0 = some client ∧
      client.recvBuff.nLast < client.recvBuff.nSize := by
  have hk : EasyTcpServer.quiet.KeepsSock := fun _ _ _ => rfl
  have hr : EasyTcpServer.quiet.KeepsRecv := fun _ _ _ => rfl
  have ha : CellEpollServer.Reports (polling.loops.server.net, pollingWorker) arrived := by
    intro n evs hn he
    obtain rfl := EpollAnswer.events.inj he
    obtain rfl := Option.some.inj hn
    refine ⟨by simp, ?_⟩
    intro e he
    obtain rfl := List.mem_singleton.mp he
    exact ⟨_, List.mem_singleton.mpr rfl, rfl, rfl, nofun⟩
  have hc : ∃ w₁ client, CellEpollServer.Receives (polling.loops.server.net, pollingWorker)
      arrived w₁ 0 (some [4, 0, 7, 0]) ∧ w₁.1.heap.get? 0 = some client ∧
      polling.loops.server.net.heap.get? 0 = some client :=
    ⟨_, _, ⟨_, _, rfl, rfl, [], _, [], rfl, rfl, rfl⟩, rfl, rfl⟩
  obtain ⟨w₁, client, hc, hp, hp'⟩ := hc
  exact ⟨client, hp', (recvData_not_full (t := .epoll) hk hr polling_reachable (i := 0)
    (a := arrived) rfl rfl ha hc hp).1⟩

end ServedPeers

end CellNet
