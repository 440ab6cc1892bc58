import CellNet.Library.Lockstep
import CellNet.Verification.Service.Registrations
import Mathlib.Data.Multiset.Basic

/-! Servers whose workers may be of different classes. What the class of the workers does not show
is what the subclass of the server, the clients and the accepting thread can see of it; the
functions outside `DoNetEvent` keep two servers alike. -/

namespace CellNet

open Library Worker

variable {π π' : Type}

/-! ### Nets and workers -/

/-- Two nets with the same clients, sockets and counters. -/
structure Net.Akin (n n' : Net) : Prop where
  heap : n'.heap = n.heap
  recvCount : n'.recvCount = n.recvCount
  clientAccept : n'.clientAccept = n.clientAccept
  msgCount : n'.msgCount = n.msgCount
  clientJoin : n'.clientJoin = n.clientJoin
  left : n'.left.Perm n.left
  openSocks : n'.openSocks = n.openSocks

/-- Two tables with the same clients. -/
structure CellServer.Akin (s : CellServer π) (s' : CellServer π') : Prop where
  id : s'.id = s.id
  clients : s'.clients = s.clients
  clientsBuff : s'.clientsBuff = s.clientsBuff
  oldTime : s'.oldTime = s.oldTime

namespace Net.Akin

variable {n n' m : Net} {p : Ptr}

theorem symm (h : n.Akin n') : n'.Akin n :=
  ⟨h.heap.symm, h.recvCount.symm, h.clientAccept.symm, h.msgCount.symm, h.clientJoin.symm,
    h.left.symm, h.openSocks.symm⟩

theorem setClient (h : n.Akin n') (p : Ptr) (c : CellClient) :
    (n.setClient p c).Akin (n'.setClient p c) :=
  { h with heap := by simp [Net.setClient, h.heap] }

theorem onNetJoin (h : n.Akin n') : n.onNetJoin.Akin n'.onNetJoin :=
  { h with clientJoin := by simp [Net.onNetJoin, h.clientJoin] }

theorem onNetLeave (h : n.Akin n') (p : Ptr) : (n.onNetLeave p).Akin (n'.onNetLeave p) :=
  { h with
    clientAccept := by simp [Net.onNetLeave, h.clientAccept]
    clientJoin := by simp [Net.onNetLeave, h.clientJoin]
    left := h.left.append_right [p] }

theorem onNetMsg (h : n.Akin n') : n.onNetMsg.Akin n'.onNetMsg :=
  { h with msgCount := by simp [Net.onNetMsg, h.msgCount] }

theorem accept (h : n.Akin n') (cSock : SOCKET) : (n.accept cSock).Akin (n'.accept cSock) :=
  { h with openSocks := by simp [Net.accept, h.openSocks] }

theorem newClient (h : n.Akin n') (c : CellClient) : (n.newClient c).Akin (n'.newClient c) :=
  { h with
    heap := by simp [Net.newClient, h.heap]
    clientAccept := by simp [Net.newClient, h.clientAccept] }

theorem close (h : n.Akin n') (fd : SOCKET) : (n.close fd).Akin (n'.close fd) :=
  { h with openSocks := by simp [Net.close, h.openSocks] }

theorem destroySocket (h : n.Akin n') {fd : SOCKET} (hd : n.destroySocket fd = some m) :
    ∃ m', n'.destroySocket fd = some m' ∧ m.Akin m' := by
  rw [Net.destroySocket] at hd
  split at hd
  · next ho =>
      obtain rfl := Option.some.inj hd
      exact ⟨n'.close fd, if_pos (h.openSocks ▸ ho), h.close fd⟩
  · cases hd

theorem delete (h : n.Akin n') (hd : n.delete p = some m) :
    ∃ m', n'.delete p = some m' ∧ m.Akin m' := by
  obtain ⟨l, hl, rfl⟩ := Option.map_eq_some_iff.mp hd
  obtain ⟨c, hc, hl⟩ := Option.bind_eq_some_iff.mp hl
  suffices hdestroy : ∃ l', n'.destroy p = some l' ∧ l.Akin l' by
    obtain ⟨l', hl', ha⟩ := hdestroy
    refine ⟨_, by rw [Net.delete, hl', Option.map_some], ?_⟩
    exact { ha with heap := by simp [ha.heap] }
  rw [Net.destroy, h.heap, hc, Option.bind_eq_bind, Option.bind_some]
  split at hl
  · next hs =>
      obtain ⟨k, hk, rfl⟩ := Option.map_eq_some_iff.mp hl
      obtain ⟨k', hk', ha⟩ := h.destroySocket hk
      exact ⟨_, by rw [if_pos hs, hk', Option.map_some], ha.setClient p c.destroy⟩
  · next hs =>
      obtain rfl := Option.some.inj hl
      exact ⟨n', if_neg hs, h⟩

end Net.Akin

namespace CellServer.Akin

variable {s : CellServer π} {s' : CellServer π'}

theorem symm (h : s.Akin s') : s'.Akin s :=
  ⟨h.id.symm, h.clients.symm, h.clientsBuff.symm, h.oldTime.symm⟩

theorem eraseClient (h : s.Akin s') (k : SOCKET) : (s.eraseClient k).Akin (s'.eraseClient k) :=
  { h with clients := by simp [CellServer.eraseClient, h.clients] }

theorem insertClient (h : s.Akin s') (k : SOCKET) (p : Ptr) :
    (s.insertClient k p).Akin (s'.insertClient k p) :=
  { h with clients := by simp [CellServer.insertClient, h.clients] }

theorem addClient (h : s.Akin s') (p : Ptr) : (s.addClient p).Akin (s'.addClient p) :=
  { h with clientsBuff := by simp [CellServer.addClient, h.clientsBuff] }

theorem getClientCount (h : s.Akin s') : s'.getClientCount = s.getClientCount := by
  simp [CellServer.getClientCount, h.clients, h.clientsBuff]

end CellServer.Akin

/-! ### The functions of a worker -/

namespace Worker

/-- The workers are alike, with their nets. -/
structure Akin (w : Worker π) (w' : Worker π') : Prop where
  net : w.1.Akin w'.1
  server : w.2.Akin w'.2

variable {w x : Worker π} {w' : Worker π'}

theorem Akin.symm (h : Akin w w') : Akin w' w := ⟨h.net.symm, h.server.symm⟩

theorem Akin.checkClient (h : Akin w w') {dt : ℤ} {e : SOCKET × Ptr}
    (hx : w.checkClient false dt e = some x) :
    ∃ x', w'.checkClient false dt e = some x' ∧ Akin x x' := by
  obtain ⟨c, hc, ⟨hr, rfl⟩ | ⟨hr, n, hn, rfl⟩⟩ := checkClient_cases hx
  · refine ⟨(w'.1.setClient e.2 (c.checkHeart dt).1, w'.2), ?_, h.net.setClient .., h.server⟩
    simp [Worker.checkClient, h.net.heap, hc, hr]
  · obtain ⟨n', hn', ha⟩ := ((h.net.setClient e.2 (c.checkHeart dt).1).onNetLeave e.2).delete hn
    refine ⟨(n', CellServer.eraseClient { w'.2 with clientsChange := true } e.1), ?_, ha, ?_⟩
    · simp [Worker.checkClient, h.net.heap, hc, hr, Worker.onClientLeave, hn']
    · have hs := h.server.eraseClient e.1
      exact ⟨hs.id, hs.clients, hs.clientsBuff, hs.oldTime⟩

theorem Akin.checkTime (h : Akin w w') {now : ℤ} (hx : w.checkTime false now = some x) :
    ∃ x', w'.checkTime false now = some x' ∧ Akin x x' := by
  rw [Worker.checkTime, h.server.clients, h.server.oldTime]
  apply foldlM_matches (R := Akin) _ _ hx
  · intro e y y' z hy hz
    exact hy.checkClient hz
  · exact ⟨h.net, { h.server with oldTime := rfl }⟩

theorem Akin.enter (h : Akin w w') {p : Ptr} (hx : w.enter p = some x) :
    ∃ x', w'.enter p = some x' ∧ Akin x x' ∧ ∃ c, x'.1.heap.get? p = some c := by
  obtain ⟨c, hc, hx⟩ := Option.bind_eq_some_iff.mp hx
  obtain rfl := Option.some.inj hx
  have hc' : w'.1.heap.get? p = some c := by rw [h.net.heap, hc]
  refine ⟨((w'.1.setClient p { c with serverId := w'.2.id }).onNetJoin,
    w'.2.insertClient c.sockfd p), by simp [Worker.enter, hc'], ⟨?_, h.server.insertClient ..⟩,
    { c with serverId := w'.2.id }, ?_⟩
  · rw [h.server.id]
    exact (h.net.setClient ..).onNetJoin
  · exact (Heap.get?_set hc' _ p).trans (if_pos rfl)

/-- `OnClientJoin` changes nothing that the other class could miss. -/
theorem Akin.onClientJoin {t t' : ServerT} {w x : Worker t.Poller} {w' : Worker t'.Poller}
    (h : Akin w w') {p : Ptr} {c : CellClient} (hc : w'.1.heap.get? p = some c)
    (hx : t.onClientJoin w p = some x) : ∃ x', t'.onClientJoin w' p = some x' ∧ Akin x x' := by
  have hw : Akin x w' := by
    cases t with
    | epoll =>
        obtain ⟨n, hn, rfl⟩ := Option.map_eq_some_iff.mp hx
        obtain ⟨d, -, hn⟩ := Option.bind_eq_some_iff.mp hn
        obtain rfl := Option.some.inj hn
        exact ⟨{ h.net with }, h.server⟩
    | select platform => exact Option.some.inj hx ▸ h
  cases t' with
  | epoll =>
      refine ⟨({ w'.1 with registered := ⟨w'.2.id, c.sockfd, p, false⟩ :: w'.1.registered }, w'.2),
        ?_, { hw.net with }, hw.server⟩
      have hadd : CellEpollServer.onClientJoin w' p =
          (CellEpollServer.ctlAdd w'.1 w'.2.id p).map fun n => (n, w'.2) := rfl
      refine hadd.trans ?_
      rw [CellEpollServer.ctlAdd, hc]
      rfl
  | select platform => exact ⟨w', rfl, hw⟩

theorem Akin.drain {t t' : ServerT} {w x : Worker t.Poller} {w' : Worker t'.Poller}
    (h : Akin w w') (hx : w.drain t.onClientJoin = some x) :
    ∃ x', w'.drain t'.onClientJoin = some x' ∧ Akin x x' := by
  rw [Worker.drain] at hx ⊢
  rw [h.server.clientsBuff]
  split at hx
  · next hb =>
      obtain rfl := Option.some.inj hx
      exact ⟨w', if_pos hb, h⟩
  · next hb =>
      obtain ⟨y, hy, rfl⟩ := Option.map_eq_some_iff.mp hx
      have hloop : ∃ y', w.2.clientsBuff.foldlM (takeUp t'.onClientJoin) w' = some y' ∧
          Akin y y' := by
        apply foldlM_matches (R := Akin) _ h hy
        intro p u u' v hu hv
        obtain ⟨z, hz, hv⟩ := Option.bind_eq_some_iff.mp hv
        obtain ⟨z', hz', ha, c, hc⟩ := hu.enter hz
        obtain ⟨v', hv', ha'⟩ := ha.onClientJoin hc hv
        exact ⟨v', by rw [takeUp, hz', Option.bind_some, hv'], ha'⟩
      obtain ⟨y', hy', ha⟩ := hloop
      refine ⟨(y'.1, { y'.2 with clientsBuff := [], clientsChange := true }), ?_, ha.net, ?_⟩
      · rw [if_neg hb, hy', Option.map_some]
      · exact { ha.server with clientsBuff := rfl }

end Worker

end CellNet
