import CellNet.Verification.Service.Answers

/-! The classes of the workers are interchangeable: a server with `select` and a server with epoll
show the same of their clients, tables, counters and subclasses, step after step. -/

namespace CellNet

open Library Worker

variable {π π' σ : Type}

/-! ### What a server shows -/

/-- The table of a worker, without what its class adds to it. -/
structure TableView where
  id : ℤ
  clients : OrderedMap SOCKET Ptr
  clientsBuff : List Ptr
  oldTime : ℤ

/-- A server as its subclass, its clients and its accepting thread see it. The order in which
clients leave in one poll is up to the kernel. -/
structure ServiceView (σ : Type) where
  heap : Heap CellClient
  recvCount : ℤ
  clientAccept : ℤ
  msgCount : ℤ
  clientJoin : ℤ
  left : Multiset Ptr
  openSocks : List SOCKET
  tables : List TableView
  nSendBuffSize : ℤ
  nRecvBuffSize : ℤ
  nMaxClient : ℤ
  ext : σ
  pcs : List LoopPc

def CellServer.view (s : CellServer π) : TableView := ⟨s.id, s.clients, s.clientsBuff, s.oldTime⟩

theorem CellServer.Akin.view {s : CellServer π} {s' : CellServer π'} (h : s.Akin s') :
    s'.view = s.view := by
  simp [CellServer.view, h.id, h.clients, h.clientsBuff, h.oldTime]

namespace ServerLoops

def view (s : ServerLoops π σ) : ServiceView σ where
  heap := s.server.net.heap
  recvCount := s.server.net.recvCount
  clientAccept := s.server.net.clientAccept
  msgCount := s.server.net.msgCount
  clientJoin := s.server.net.clientJoin
  left := s.server.net.left
  openSocks := s.server.net.openSocks
  tables := s.server.cellServers.map CellServer.view
  nSendBuffSize := s.server.nSendBuffSize
  nRecvBuffSize := s.server.nRecvBuffSize
  nMaxClient := s.server.nMaxClient
  ext := s.server.ext
  pcs := s.pcs

/-- Two servers that show the same. -/
structure Alike (s : ServerLoops π σ) (s' : ServerLoops π' σ) : Prop where
  net : s.server.net.Akin s'.server.net
  length : s'.server.cellServers.length = s.server.cellServers.length
  workers : ∀ (i : ℕ) (c : CellServer π), s.server.cellServers[i]? = some c →
    ∃ c', s'.server.cellServers[i]? = some c' ∧ c.Akin c'
  nSendBuffSize : s'.server.nSendBuffSize = s.server.nSendBuffSize
  nRecvBuffSize : s'.server.nRecvBuffSize = s.server.nRecvBuffSize
  nMaxClient : s'.server.nMaxClient = s.server.nMaxClient
  ext : s'.server.ext = s.server.ext
  pcs : s'.pcs = s.pcs

variable {s : ServerLoops π σ} {s' : ServerLoops π' σ}

theorem Alike.view (h : Alike s s') : s.view = s'.view := by
  have htables : s.server.cellServers.map CellServer.view =
      s'.server.cellServers.map CellServer.view := by
    apply List.ext_getElem?
    intro i
    rw [List.getElem?_map, List.getElem?_map]
    cases hi : s.server.cellServers[i]? with
    | none =>
        rw [List.getElem?_eq_none_iff, ← h.length] at hi
        simp [List.getElem?_eq_none_iff.mpr hi]
    | some c =>
        obtain ⟨c', hc', ha⟩ := h.workers i c hi
        simp [hc', ha.view]
  have hleft : (s.server.net.left : Multiset Ptr) = s'.server.net.left :=
    Multiset.coe_eq_coe.mpr h.net.left.symm
  simp only [ServerLoops.view, htables, hleft, h.net.heap, h.net.recvCount, h.net.clientAccept,
    h.net.msgCount, h.net.clientJoin, h.net.openSocks, h.nSendBuffSize, h.nRecvBuffSize,
    h.nMaxClient, h.ext, h.pcs]

theorem Alike.symm (h : Alike s s') : Alike s' s where
  net := h.net.symm
  length := h.length.symm
  workers := by
    intro i c' hi
    obtain ⟨hlt, -⟩ := List.getElem?_eq_some_iff.mp hi
    rw [h.length] at hlt
    obtain ⟨c₁, hc₁, ha⟩ := h.workers i _ (List.getElem?_eq_getElem hlt)
    obtain rfl := Option.some.inj (hi.symm.trans hc₁)
    exact ⟨_, List.getElem?_eq_getElem hlt, ha.symm⟩
  nSendBuffSize := h.nSendBuffSize.symm
  nRecvBuffSize := h.nRecvBuffSize.symm
  nMaxClient := h.nMaxClient.symm
  ext := h.ext.symm
  pcs := h.pcs.symm

theorem Alike.put (h : Alike s s') {i : ℕ} {w : Worker π} {w' : Worker π'} (hw : Akin w w')
    (pc : LoopPc) : Alike (s.put i w pc) (s'.put i w' pc) where
  net := hw.net
  length := by simpa [ServerLoops.put] using h.length
  workers := by
    intro j c hj
    change (s.server.cellServers.set i w.2)[j]? = some c at hj
    change ∃ c', (s'.server.cellServers.set i w'.2)[j]? = some c' ∧ c.Akin c'
    rw [List.getElem?_set] at hj ⊢
    split at hj
    · next he =>
        split at hj
        · next hlt =>
            obtain rfl := Option.some.inj hj
            exact ⟨w'.2, by simp [he, h.length, he ▸ hlt], hw.server⟩
        · cases hj
    · next hne =>
        rw [if_neg hne]
        exact h.workers j c hj
  nSendBuffSize := h.nSendBuffSize
  nRecvBuffSize := h.nRecvBuffSize
  nMaxClient := h.nMaxClient
  ext := h.ext
  pcs := by simp [ServerLoops.put, h.pcs]

/-! ### The steps -/

/-- The same worker is found to have the fewest clients. -/
theorem Alike.minServer (h : Alike s s') {i : ℕ}
    (hi : EasyTcpServer.minServer s.server.cellServers = some i) :
    EasyTcpServer.minServer s'.server.cellServers = some i := by
  obtain ⟨c, hc⟩ := EasyTcpServer.isFirstLeast_minServer hi
  obtain ⟨c', hc', ha⟩ := h.workers i c hc.mem
  have hback : ∀ (j : ℕ) (d' : CellServer π'), s'.server.cellServers[j]? = some d' →
      ∃ d, s.server.cellServers[j]? = some d ∧ d.Akin d' := by
    intro j d' hj
    obtain ⟨hlt, -⟩ := List.getElem?_eq_some_iff.mp hj
    rw [h.length] at hlt
    obtain ⟨d₁, hd₁, had⟩ := h.workers j _ (List.getElem?_eq_getElem hlt)
    obtain rfl := Option.some.inj (hj.symm.trans hd₁)
    exact ⟨_, List.getElem?_eq_getElem hlt, had⟩
  have hleast : IsFirstLeast CellServer.getClientCount s'.server.cellServers (c', i) := by
    constructor
    · exact hc'
    · intro j d' hj
      obtain ⟨d, hd, had⟩ := hback j d' hj
      rw [ha.getClientCount, had.getClientCount]
      exact hc.le j d hd
    · intro j d' hj hlt
      obtain ⟨d, hd, had⟩ := hback j d' hj
      rw [ha.getClientCount, had.getClientCount]
      exact hc.lt j d hd hlt
  have hlen : 0 < s'.server.cellServers.length :=
    Nat.zero_lt_of_lt (List.getElem?_eq_some_iff.mp hc').1
  obtain ⟨j, hj, -⟩ := EasyTcpServer.minServer_eq_some hlen
  obtain ⟨d', hd'⟩ := EasyTcpServer.isFirstLeast_minServer hj
  have hij : i = j := hleast.unique hd'
  rw [hj, hij]

theorem Alike.accpet (h : Alike s s') {cSock : SOCKET} {sendBlock recvBlock : List UInt8}
    {server : EasyTcpServer π σ} (ha : s.server.accpet cSock sendBlock recvBlock = some server) :
    ∃ server', s'.server.accpet cSock sendBlock recvBlock = some server' ∧
      Alike { s with server := server } { s' with server := server' } := by
  have haccept := h.net.accept cSock
  rw [EasyTcpServer.accpet] at ha ⊢
  split at ha
  · next hv =>
      obtain rfl := Option.some.inj ha
      exact ⟨s'.server, if_pos hv, h⟩
  · next hv =>
      rw [if_neg hv]
      dsimp only at ha ⊢
      rw [haccept.clientAccept, haccept.heap, h.nMaxClient]
      split at ha
      · next hb =>
          rw [if_pos hb]
          obtain ⟨i, hi, ha⟩ := Option.bind_eq_some_iff.mp ha
          obtain ⟨c, hc, ha⟩ := Option.bind_eq_some_iff.mp ha
          obtain rfl := Option.some.inj ha
          obtain ⟨c', hc', hcc⟩ := h.workers i c hc
          have hnew : s'.server.newClient cSock sendBlock recvBlock =
              s.server.newClient cSock sendBlock recvBlock := by
            simp [EasyTcpServer.newClient, h.net.heap, h.nSendBuffSize, h.nRecvBuffSize]
          refine ⟨_, by simp only [EasyTcpServer.addClientToCellServer, h.minServer hi,
            Option.bind_eq_bind, Option.bind_some, hc']; rfl, ?_⟩
          have hw : Worker.Akin
              ((s.server.net.accept cSock).newClient
                (s.server.newClient cSock sendBlock recvBlock),
                c.addClient (s.server.net.accept cSock).heap.next)
              ((s'.server.net.accept cSock).newClient
                (s.server.newClient cSock sendBlock recvBlock),
                c'.addClient (s.server.net.accept cSock).heap.next) :=
            ⟨haccept.newClient _, hcc.addClient _⟩
          have hput := h.put (i := i) hw .test
          rw [hnew]
          exact { hput with nMaxClient := rfl, pcs := h.pcs }
      · next hb =>
          rw [if_neg hb]
          obtain ⟨n, hn, rfl⟩ := Option.map_eq_some_iff.mp ha
          obtain ⟨n', hn', hnn⟩ := haccept.destroySocket hn
          refine ⟨{ s'.server with net := n' }, ?_, { h with net := hnn }⟩
          simp [hn', h.nMaxClient]

theorem Alike.doMsg {onNetMsg : Handler σ} (h : Alike s s') {i : ℕ} {x : ServerLoops π σ}
    (hx : s.doMsg onNetMsg i = some x) :
    ∃ x', s'.doMsg onNetMsg i = some x' ∧ Alike x x' := by
  cases doMsg_cases hx with
  | done hpc =>
      refine ⟨{ s' with pcs := s'.pcs.set i .test }, ?_, { h with pcs := by simp [h.pcs] }⟩
      rw [ServerLoops.doMsg, h.pcs, hpc]
  | @skip k rest c p pClient hpc hi hp hg hm =>
      obtain ⟨c', hi', hc⟩ := h.workers i c hi
      refine ⟨{ s' with pcs := s'.pcs.set i (.doMsg rest) }, ?_,
        { h with pcs := by simp [h.pcs] }⟩
      simp [ServerLoops.doMsg, h.pcs, hpc, hi', hc.clients, hp, h.net.heap, hg, hm]
  | @handle k rest c p pClient hpc hi hp hg hm =>
      obtain ⟨c', hi', hc⟩ := h.workers i c hi
      refine ⟨{ s' with server := { s'.server with
        net := s'.server.net.onNetMsg.setClient p (msgBody onNetMsg (s.server.ext, pClient)).2
        ext := (msgBody onNetMsg (s.server.ext, pClient)).1 } }, ?_, ?_⟩
      · simp [ServerLoops.doMsg, h.pcs, hpc, hi', hc.clients, hp, h.net.heap, hg, hm, handleMsg,
          set_getElem?_self hi', h.ext]
      · exact { h with
          net := h.net.onNetMsg.setClient p _
          ext := rfl }

/-- The worker that polls has a client. -/
def Attended {α : Type} (s : ServerLoops π σ) : LoopEvent α → Prop
  | .doNetEvent i _ => ∀ c, s.server.cellServers[i]? = some c → c.clients.entries ≠ []
  | _ => True

section Steps

variable {t u : ServerT} {onNetMsg : Handler σ} {s x : ServerLoops t.Poller σ}
  {s' : ServerLoops u.Poller σ}

/-- The answer of one poll that makes the other class of worker do the same. -/
structure Mirrors (w : Worker t.Poller) (a : t.Answer) (w' : Worker u.Poller) (a' : u.Answer) :
    Prop where
  reports : u.Reports w' a'
  io : ∀ p, t.io w a p = u.io w' a' p
  result : ∀ r r', t.doNetEvent w a = some r → u.doNetEvent w' a' = some r' → r'.2 = r.2

theorem Alike.doNetEvent (h : Alike s s') (hok : s.LoopsOk) (hok' : s'.LoopsOk) {i : ℕ}
    {c : CellServer t.Poller} {c' : CellServer u.Poller}
    (hi : s.server.cellServers[i]? = some c) (hi' : s'.server.cellServers[i]? = some c')
    (hc : c.Akin c') {a : t.Answer} {a' : u.Answer} {r : Worker t.Poller × Bool}
    (hr : t.Reports (s.server.net, c) a) (hd : t.doNetEvent (s.server.net, c) a = some r)
    (hm : Mirrors (s.server.net, c) a (s'.server.net, c') a') :
    ∃ r', u.doNetEvent (s'.server.net, c') a' = some r' ∧ r'.2 = r.2 ∧ Akin r.1 r'.1 := by
  obtain ⟨others, waiters, ht, hid, -⟩ := hok.tables.worker hi
  obtain ⟨others', waiters', hu, hid', -⟩ := hok'.tables.worker hi'
  obtain ⟨w', b, hd', -, -⟩ := u.doNetEvent_tables hu hid' hm.reports
  refine ⟨(w', b), hd', hm.result r _ hd hd', ?_⟩
  have hpolled := t.doNetEvent_polled ht hid hr hd
  have hpolled' := u.doNetEvent_polled hu hid' hm.reports hd'
  exact hpolled.akin ⟨h.net, hc⟩ hpolled' fun p => .inr (hm.io p)

/-- A step is matched by the same step of the other server, if its polls can be. -/
theorem Alike.next (h : Alike s s') (hok : s.LoopsOk) (hok' : s'.LoopsOk)
    {e : LoopEvent t.Answer} (hl : Legal t s e) (hn : ServerLoops.next t onNetMsg s e = some x)
    (hpoll : ∀ i a c c' r, e = .doNetEvent i a → s.server.cellServers[i]? = some c →
      s'.server.cellServers[i]? = some c' → c.Akin c' → t.Reports (s.server.net, c) a →
      t.doNetEvent (s.server.net, c) a = some r →
      ∃ a', Mirrors (s.server.net, c) a (s'.server.net, c') a') :
    ∃ e' x', (Attended s e → Attended s' e') ∧ Legal u s' e' ∧
      ServerLoops.next u onNetMsg s' e' = some x' ∧ Alike x x' := by
  cases next_cases hn with
  | @accpet cSock sendBlock recvBlock server ha =>
      obtain ⟨server', ha', hx⟩ := h.accpet ha
      refine ⟨.accpet cSock sendBlock recvBlock, { s' with server := server' }, id, ?_, ?_, hx⟩
      · rw [Legal, h.net.openSocks, h.nSendBuffSize, h.nRecvBuffSize]
        exact hl
      · rw [ServerLoops.next, ha', Option.map_some]
  | @stop i =>
      refine ⟨.stop i, { s' with pcs := s'.pcs.set i .left }, id, ?_, rfl,
        { h with pcs := by simp [h.pcs] }⟩
      rw [Legal, h.pcs]
      exact hl
  | @idle i now c w hi hw he =>
      obtain ⟨c', hi', hc⟩ := h.workers i c hi
      have hstart : Akin (s.server.net, c) (s'.server.net, c') := ⟨h.net, hc⟩
      obtain ⟨w', hw', ha⟩ := hstart.drain hw
      have he' : w'.2.clients.entries = [] := by rw [ha.server.clients, he]
      have hclock : Akin (w.1, { w.2 with oldTime := now }) (w'.1, { w'.2 with oldTime := now }) :=
        ⟨ha.net, { ha.server with oldTime := rfl }⟩
      refine ⟨.drain i now, s'.put i (w'.1, { w'.2 with oldTime := now }) .test, id, ?_, ?_, ?_⟩
      · rw [Legal, h.pcs]
        exact hl
      · simp [ServerLoops.next, onWorker, join, hi', hw', he', ServerLoops.put]
      · exact h.put hclock .test
  | @busy i now c w hi hw he =>
      obtain ⟨c', hi', hc⟩ := h.workers i c hi
      have hstart : Akin (s.server.net, c) (s'.server.net, c') := ⟨h.net, hc⟩
      obtain ⟨w', hw', ha⟩ := hstart.drain hw
      have he' : w'.2.clients.entries ≠ [] := by rwa [ha.server.clients]
      refine ⟨.drain i now, s'.put i w' .checkTime, id, ?_, ?_, h.put ha _⟩
      · rw [Legal, h.pcs]
        exact hl
      · simp [ServerLoops.next, onWorker, join, hi', hw', he', ServerLoops.put]
  | @checkTime i now c w hi hw =>
      obtain ⟨c', hi', hc⟩ := h.workers i c hi
      have hstart : Akin (s.server.net, c) (s'.server.net, c') := ⟨h.net, hc⟩
      obtain ⟨w', hw', ha⟩ := hstart.checkTime hw
      refine ⟨.checkTime i now, s'.put i w' .doNetEvent, id, ?_, ?_, h.put ha _⟩
      · rw [Legal, h.pcs]
        exact hl
      · simp [ServerLoops.next, onWorker, hi', hw', ServerLoops.put]
  | @doNetEvent i a c r hi hd =>
      obtain ⟨c', hi', hc⟩ := h.workers i c hi
      have hr := (hok.reports hi (hl.2 c hi) hd).1
      obtain ⟨a', hm⟩ := hpoll i a c c' r rfl hi hi' hc hr hd
      obtain ⟨r', hd', hb, ha⟩ := h.doNetEvent hok hok' hi hi' hc hr hd hm
      refine ⟨.doNetEvent i a', s'.put i r'.1
        (if r.2 then .doMsg (r.1.2.clients.entries.map Prod.fst) else .left), ?_, ?_, ?_,
        h.put ha _⟩
      · intro hat d hd
        obtain rfl := Option.some.inj (hi'.symm.trans hd)
        rw [hc.clients]
        exact hat c hi
      · refine ⟨h.pcs ▸ hl.1, ?_⟩
        intro d hd
        obtain rfl := Option.some.inj (hi'.symm.trans hd)
        exact hm.reports.answers
      · simp [ServerLoops.next, onWorker, poll, hi', hd', hb, ha.server.clients, ServerLoops.put]
  | @doMsg i =>
      obtain ⟨x', hx', ha⟩ := h.doMsg (x := x) hn
      refine ⟨.doMsg i, x', id, ?_, hx', ha⟩
      rw [Legal, h.pcs]
      exact hl

theorem start_alike (nCellServer : ℕ) (nSend nRecv nMax : ℤ) (oldTime : ℕ → ℤ)
    (poller : π) (poller' : π') (ext : σ) :
    Alike ⟨.start nCellServer nSend nRecv nMax oldTime poller ext,
        List.replicate nCellServer .test⟩
      ⟨.start nCellServer nSend nRecv nMax oldTime poller' ext,
        List.replicate nCellServer .test⟩ where
  net := ⟨rfl, rfl, rfl, rfl, rfl, .refl _, rfl⟩
  length := by simp [EasyTcpServer.start]
  workers := by
    intro i c hi
    simp only [EasyTcpServer.start, List.getElem?_map, Option.map_eq_some_iff] at hi ⊢
    obtain ⟨j, hj, rfl⟩ := hi
    exact ⟨_, ⟨j, hj, rfl⟩, rfl, rfl, rfl, rfl⟩
  nSendBuffSize := rfl
  nRecvBuffSize := rfl
  nMaxClient := rfl
  ext := rfl
  pcs := rfl

end Steps

/-! ### The two classes -/

section Classes

variable {onNetMsg : Handler σ} {platform : Platform}

/-- A server with `select` beside one with epoll. -/
structure Beside (platform : Platform) (s : ServerLoops SelectSets σ) (s' : ServerLoops Unit σ) :
    Prop where
  alike : Alike s s'
  select : LoopsOk (t := .select platform) s
  epoll : LoopsOk (t := .epoll) s'
  registers : s'.Registers

theorem Beside.start (nCellServer : ℕ) (nSend nRecv nMax : ℤ) (oldTime : ℕ → ℤ)
    (poller : SelectSets) (ext : σ) :
    Beside platform ⟨.start nCellServer nSend nRecv nMax oldTime poller ext,
        List.replicate nCellServer .test⟩
      ⟨.start nCellServer nSend nRecv nMax oldTime () ext, List.replicate nCellServer .test⟩ where
  alike := start_alike ..
  select := start_loopsOk (t := .select platform) nCellServer nSend nRecv nMax oldTime poller ext
  epoll := start_loopsOk (t := .epoll) nCellServer nSend nRecv nMax oldTime () ext
  registers := by
    refine ⟨?_, .nil⟩
    intro x hx
    obtain ⟨c, hc, hx⟩ := List.mem_flatMap.mp hx
    obtain ⟨j, -, rfl⟩ := List.mem_map.mp hc
    cases hx

/-- Every run of the server with `select` shows what some run of the server with epoll does,
and that never polls without a client. -/
theorem select_lockstep (hk : onNetMsg.KeepsSock) :
    System.Lockstep (system (.select platform) onNetMsg)
      ((system .epoll onNetMsg).guard Attended) view view (Beside platform) where
  init := by
    intro s hs
    obtain ⟨n, nSend, nRecv, nMax, oldTime, poller, ext, rfl⟩ := hs
    exact ⟨_, ⟨n, nSend, nRecv, nMax, oldTime, (), ext, rfl⟩, .start ..⟩
  step := by
    intro s e x s' hr hs
    have hat : Attended s e := by
      cases e with
      | doNetEvent i a =>
          intro c hi
          cases next_cases hs.2 with
          | doNetEvent hi' hd =>
              obtain rfl := Option.some.inj (hi.symm.trans hi')
              exact (hr.select.reports hi (hs.1.2 c hi) hd).1.1
      | _ => trivial
    obtain ⟨e', x', hat', hl, hn, hx⟩ := hr.alike.next (t := .select platform) (u := .epoll)
      hr.select hr.epoll hs.1 hs.2 (by
        intro i a c c' r _ hi hi' hc ha hd
        obtain ⟨others, waiters, ht, hid, -⟩ := hr.epoll.tables.worker hi'
        have hw : Akin (s.server.net, c) (s'.server.net, c') := ⟨hr.alike.net, hc⟩
        refine ⟨a.asEpoll c'.clients, ?_, ?_, ?_⟩
        · apply asEpoll_reports hw ht hid _ ha.2 hd
          intro e he
          exact hr.registers.enrolled _
            (List.mem_flatMap.mpr ⟨c', List.mem_of_getElem? hi', mem_seats he⟩)
        · intro p
          have hio : CellEpollServer.io (a.asEpoll c'.clients) p =
              CellSelectServer.io c'.clients a p := a.io_asEpoll ht.ptr_nodup p
          have hcl : CellSelectServer.io c.clients a = CellSelectServer.io c'.clients a := by
            rw [hc.clients]
          exact (congrFun hcl p).trans hio.symm
        · exact asEpoll_result)
    have hepoll := hr.epoll.next hk hl hn
    exact ⟨e', x', ⟨hat' hat, hl, hn⟩, hx, hr.select.next hk hs.1 hs.2, hepoll,
      hr.registers.next hr.epoll hepoll hl hn⟩
  obs s s' hr := hr.alike.view

/-- Every run of the server with epoll that never polls without a client shows what some run of
the server with `select` does. -/
theorem epoll_lockstep (hk : onNetMsg.KeepsSock) :
    System.Lockstep ((system .epoll onNetMsg).guard Attended)
      (system (.select platform) onNetMsg) view view fun s' s => Beside platform s s' where
  init := by
    intro s' hs
    obtain ⟨n, nSend, nRecv, nMax, oldTime, poller, ext, rfl⟩ := hs
    exact ⟨_, ⟨n, nSend, nRecv, nMax, oldTime, ⟨[], [], [], -1⟩, ext, rfl⟩, .start ..⟩
  step := by
    intro s' e x' s hr hs
    have halike : Alike s' s := hr.alike.symm
    obtain ⟨e', x, -, hl, hn, hx⟩ := halike.next (t := .epoll) (u := .select platform)
      hr.epoll hr.select hs.2.1 hs.2.2 (by
        intro i a c' c r he hi' hi hc ha hd
        obtain ⟨others, waiters, ht, hid, -⟩ := hr.epoll.tables.worker hi'
        have hw : Akin (s'.server.net, c') (s.server.net, c) := ⟨halike.net, hc⟩
        have hne : c.clients.entries ≠ [] := by
          rw [hc.clients]
          subst he
          exact hs.1 c' hi'
        have hsets := hr.select.sets c (List.mem_of_getElem? hi)
        refine ⟨EpollAnswer.asSelect c.clients a, asSelect_reports hw ht hid hsets hne ha, ?_,
          asSelect_result⟩
        intro p
        have hio : CellSelectServer.io c'.clients (EpollAnswer.asSelect c'.clients a) p =
            CellEpollServer.io a p := EpollAnswer.io_asSelect ht hid ha p
        rw [← hc.clients] at hio
        exact hio.symm)
    have hepoll := hr.epoll.next hk hs.2.1 hs.2.2
    exact ⟨e', x, ⟨hl, hn⟩, hx.symm, hr.select.next hk hl hn, hepoll,
      hr.registers.next hr.epoll hepoll hs.2.1 hs.2.2⟩
  obs s' s hr := hr.alike.view.symm

/-- The runs of a server show the same, step after step, whether its workers call `select`, on
either platform, or wait with epoll and have a client whenever they do. -/
theorem shown_same (hk : onNetMsg.KeepsSock) :
    (system (.select platform) onNetMsg).Shown view =
      ((system .epoll onNetMsg).guard Attended).Shown view :=
  Set.Subset.antisymm (select_lockstep hk).shown (epoll_lockstep hk).shown

end Classes

/-- A message arrives on the socket 5. -/
def readable5 : SelectAnswer := ⟨.ready [5] [], fun _ => some [4, 0, 7, 0], fun _ => 0⟩

/-- What a select server comes to in one step, unless it is a fault. -/
def after (s : ServerLoops SelectSets Unit) (e : LoopEvent SelectAnswer) :
    ServerLoops SelectSets Unit :=
  (next (.select .linux) EasyTcpServer.quiet s e).getD s

/-- The client of the socket 5 is polled, and its message handled. -/
def polled5 : ServerLoops SelectSets Unit :=
  [LoopEvent.checkTime 0 0, .doNetEvent 0 readable5, .doMsg 0, .doMsg 0].foldl after joined5

/-- A server that waits with epoll shows the same. -/
theorem shown_same_polled5 : polled5.server.net.msgCount = 1 ∧ ∃ us, us ++ [polled5.view] ∈
    ((system .epoll EasyTcpServer.quiet).guard Attended).Shown view := by
  have hk : EasyTcpServer.quiet.KeepsSock := fun _ _ _ => rfl
  have hl : Legal (.select .linux) selecting accept5 := ⟨List.not_mem_nil, rfl, rfl⟩
  have h₀ : (system (.select .linux) EasyTcpServer.quiet).Shows view selecting [selecting.view] :=
    .init ⟨1, 8, 8, 2, fun _ => 0, ⟨[], [], [], -1⟩, (), rfl⟩
  have h₁ := h₀.step ⟨hl, rfl⟩
  have h₂ := h₁.step (l := LoopEvent.drain 0 0) (t := joined5)
    ⟨show _ = some LoopPc.test from rfl, rfl⟩
  have h₃ := h₂.step (l := LoopEvent.checkTime 0 0) (t := joined5.after (.checkTime 0 0))
    ⟨show _ = some LoopPc.checkTime from rfl, rfl⟩
  have hleaves : ∀ c, (joined5.after (.checkTime 0 0)).server.cellServers[0]? = some c →
      CellSelectServer.Leaves ((joined5.after (.checkTime 0 0)).server.net, c) readable5 := by
    intro c hc s x read write hs hx hr
    obtain ⟨rfl, rfl⟩ := SelectResult.ready.inj hr
    cases hc
    cases hs
    exact ⟨by simp, List.Subset.refl [5], by simp, List.nil_subset _⟩
  have h₄ := h₃.step (l := LoopEvent.doNetEvent 0 readable5)
    (t := (joined5.after (.checkTime 0 0)).after (.doNetEvent 0 readable5)) ⟨⟨rfl, hleaves⟩, rfl⟩
  have h₅ := h₄.step (l := LoopEvent.doMsg 0) ⟨⟨_, rfl⟩, rfl⟩
  have h₆ := h₅.step (l := LoopEvent.doMsg 0) (t := polled5) ⟨⟨_, rfl⟩, rfl⟩
  exact ⟨rfl, _, (shown_same hk).subset ⟨polled5, h₆⟩⟩

end ServerLoops

end CellNet
