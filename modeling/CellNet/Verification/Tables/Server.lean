import CellNet.Library.Least
import CellNet.Verification.Tables.Pollers

/-! The tables and counters of a whole server, whatever the order in which the accepting
thread and the workers take their steps. -/

namespace CellNet

open Library Worker

namespace EasyTcpServer

variable {π σ : Type}

/-- The clients in the tables of the workers. -/
def seated (s : EasyTcpServer π σ) : List Seat := s.cellServers.flatMap CellServer.seats

/-- The clients in the buffers of the workers. -/
def waiting (s : EasyTcpServer π σ) : List Ptr := s.cellServers.flatMap CellServer.clientsBuff

/-- No more clients are accepted than the server admits, and none if that is negative. -/
def capacity (s : EasyTcpServer π σ) : ℤ := max 0 s.nMaxClient

structure TablesOk (s : EasyTcpServer π σ) : Prop where
  roster : Roster s.capacity s.net s.seated s.waiting []
  ids : (s.cellServers.map CellServer.id).Nodup

/-! ### One worker among the others -/

theorem split_at {s : EasyTcpServer π σ} {i : ℕ} {c : CellServer π}
    (hi : s.cellServers[i]? = some c) : ∃ l r, s.cellServers = l ++ c :: r ∧
      ∀ c', s.cellServers.set i c' = l ++ c' :: r := by
  rcases List.getElem?_eq_some_iff.mp hi with ⟨hlt, rfl⟩
  refine ⟨s.cellServers.take i, s.cellServers.drop (i + 1), ?_, fun c' => ?_⟩
  · rw [List.getElem_cons_drop, List.take_append_drop]
  · rw [List.set_eq_take_append_cons_drop, if_pos hlt]

theorem perm_flatMap {α β : Type} (f : α → List β) (l r : List α) (c : α) :
    ((l ++ c :: r).flatMap f).Perm (f c ++ (l ++ r).flatMap f) := by
  rw [List.flatMap_append, List.flatMap_cons, List.flatMap_append]
  exact List.perm_append_comm_assoc ..

/-- The roster around one worker: what belongs to it, and how its tables are put back
once it has changed them. -/
theorem TablesOk.focus {s : EasyTcpServer π σ} (h : s.TablesOk) {i : ℕ} {c : CellServer π}
    (hi : s.cellServers[i]? = some c) : ∃ others waiters,
      s.seated.Perm (c.seats ++ others) ∧ s.waiting.Perm (c.clientsBuff ++ waiters) ∧
      (∀ x ∈ others, x.id ≠ c.id) ∧
      ∀ (w : Worker π) (ext : σ), w.2.id = c.id → Tables s.capacity others waiters w →
        TablesOk { s with net := w.1, cellServers := s.cellServers.set i w.2, ext := ext } := by
  rcases split_at hi with ⟨l, r, hs, hset⟩
  have hids : ((c :: (l ++ r)).map CellServer.id).Nodup :=
    ((List.perm_middle.map CellServer.id).nodup_iff.mp (hs ▸ h.ids))
  refine ⟨(l ++ r).flatMap CellServer.seats, (l ++ r).flatMap CellServer.clientsBuff,
    ?_, ?_, ?_, ?_⟩
  · rw [seated, hs]
    exact perm_flatMap ..
  · rw [waiting, hs]
    exact perm_flatMap ..
  · intro x hx he
    rcases List.mem_flatMap.mp hx with ⟨d, hd, hxd⟩
    rcases List.mem_map.mp hxd with ⟨e, -, rfl⟩
    exact (List.nodup_cons.mp hids).1 (List.mem_map.mpr ⟨d, hd, he⟩)
  · intro w ext hid hw
    refine ⟨hw.perm ?_ ?_ (.refl _), ?_⟩
    · rw [seated, hset]
      exact (perm_flatMap ..).symm
    · rw [waiting, hset]
      exact (perm_flatMap ..).symm
    · rw [hset]
      refine (List.perm_middle.map CellServer.id).nodup_iff.mpr ?_
      rw [List.map_cons, hid]
      exact hids

/-- The tables that a function of one worker starts from. -/
theorem TablesOk.worker {s : EasyTcpServer π σ} (h : s.TablesOk) {i : ℕ} {c : CellServer π}
    (hi : s.cellServers[i]? = some c) : ∃ others waiters,
      Tables s.capacity others waiters (s.net, c) ∧ (∀ x ∈ others, x.id ≠ c.id) ∧
      ∀ (w : Worker π) (ext : σ), w.2.id = c.id → Tables s.capacity others waiters w →
        TablesOk { s with net := w.1, cellServers := s.cellServers.set i w.2, ext := ext } := by
  rcases h.focus hi with ⟨others, waiters, hs, hw, hid, hback⟩
  exact ⟨others, waiters, h.roster.perm hs hw (.refl _), hid, hback⟩

/-- A client is in the table of one worker only. -/
theorem TablesOk.owner {s : EasyTcpServer π σ} (h : s.TablesOk) {i j : ℕ} {c d : CellServer π}
    (hi : s.cellServers[i]? = some c) (hj : s.cellServers[j]? = some d) {e f : SOCKET × Ptr}
    (he : e ∈ c.clients.entries) (hf : f ∈ d.clients.entries) (hp : e.2 = f.2) : i = j := by
  have hnd : (s.seated.map Seat.ptr).Nodup := h.roster.nodup.of_append_left.of_append_left
  have hc : c.seat e ∈ s.seated :=
    List.mem_flatMap.mpr ⟨c, List.mem_of_getElem? hi, mem_seats he⟩
  have hd : d.seat f ∈ s.seated :=
    List.mem_flatMap.mpr ⟨d, List.mem_of_getElem? hj, mem_seats hf⟩
  have hid : c.id = d.id := congrArg Seat.id (List.inj_on_of_nodup_map hnd hc hd hp)
  have hi' : (s.cellServers.map CellServer.id)[i]? = some c.id := by
    rw [List.getElem?_map, hi, Option.map_some]
  have hj' : (s.cellServers.map CellServer.id)[j]? = some c.id := by
    rw [List.getElem?_map, hj, Option.map_some, hid]
  have hlt : i < (s.cellServers.map CellServer.id).length :=
    (List.getElem?_eq_some_iff.mp hi').1
  exact (List.getElem?_inj hlt h.ids).mp (hi'.trans hj'.symm)

/-- A function of one worker that neither faults nor breaks the roster seen from it. -/
theorem TablesOk.onWorker {s : EasyTcpServer π σ} (h : s.TablesOk) {i : ℕ} {c : CellServer π}
    (hi : s.cellServers[i]? = some c) {f : Worker π → Option (Worker π)}
    (hf : ∀ others waiters, (∀ x ∈ others, x.id ≠ c.id) →
      Tables s.capacity others waiters (s.net, c) →
      ∃ w, f (s.net, c) = some w ∧ Tables s.capacity others waiters w ∧ w.2.id = c.id) :
    ∃ s', s.onWorker i f = some s' ∧ s'.TablesOk := by
  rcases h.worker hi with ⟨others, waiters, ht, hid, hback⟩
  rcases hf others waiters hid ht with ⟨w, hw, ht', hid'⟩
  refine ⟨_, ?_, hback w s.ext hid' ht'⟩
  rw [EasyTcpServer.onWorker, hi, Option.bind_eq_bind, Option.bind_some, hw]
  rfl

/-! ### Accepting -/

theorem minServer_eq_some {ss : List (CellServer π)} (h : 0 < ss.length) :
    ∃ i, minServer ss = some i ∧ i < ss.length := by
  rw [minServer, List.getElem?_eq_getElem h]
  refine ⟨_, rfl, ?_⟩
  apply List.foldlRecOn (motive := fun m : CellServer π × ℕ => m.2 < ss.length) _ _ h
  intro m hm x hx
  split
  · exact List.snd_lt_of_mem_zipIdx hx
  · exact hm

theorem isFirstLeast_minServer {ss : List (CellServer π)} {i : ℕ} (h : minServer ss = some i) :
    ∃ c, IsFirstLeast CellServer.getClientCount ss (c, i) := by
  cases ss with
  | nil => cases h
  | cons c cs =>
      have hl := isFirstLeast_foldl (f := CellServer.getClientCount) c cs
      obtain rfl := Option.some.inj h
      exact ⟨_, hl⟩

/-- The connection becomes a client. -/
def Admits (s : EasyTcpServer π σ) (cSock : SOCKET) : Prop :=
  INVALID_SOCKET ≠ cSock ∧ s.net.clientAccept < s.nMaxClient

/-- The connection is turned down, or the worker with the fewest clients gets the client. -/
theorem accpet_cases {s t : EasyTcpServer π σ} {cSock : SOCKET}
    {sendBlock recvBlock : List UInt8} (h : s.accpet cSock sendBlock recvBlock = some t) :
    ¬ s.Admits cSock ∧ (t = s ∨ t = { s with net := (s.net.accept cSock).close cSock }) ∨
      s.Admits cSock ∧ ∃ c i, IsFirstLeast CellServer.getClientCount s.cellServers (c, i) ∧
        t = { s with
          net := (s.net.accept cSock).newClient (s.newClient cSock sendBlock recvBlock)
          cellServers := s.cellServers.set i (c.addClient s.net.heap.next) } := by
  rw [EasyTcpServer.accpet] at h
  split at h
  · next hv =>
      exact .inl ⟨fun ha => ha.1 hv, .inl (Option.some.inj h).symm⟩
  · next hv =>
      dsimp only at h
      split at h
      · next hb =>
          obtain ⟨i, hi, h⟩ := Option.bind_eq_some_iff.mp h
          obtain ⟨c, hc, h⟩ := Option.bind_eq_some_iff.mp h
          obtain ⟨d, hd⟩ := isFirstLeast_minServer hi
          obtain rfl := Option.some.inj (hd.mem.symm.trans hc)
          exact .inr ⟨⟨hv, hb⟩, d, i, hd, (Option.some.inj h).symm⟩
      · next hb =>
          obtain ⟨n, hn, rfl⟩ := Option.map_eq_some_iff.mp h
          rw [Net.destroySocket_accept] at hn
          obtain rfl := Option.some.inj hn
          exact .inl ⟨fun ha => hb ha.2, .inr rfl⟩

/-- The new client is put into the buffer of a worker, if there is one. -/
theorem TablesOk.addClientToCellServer {s : EasyTcpServer π σ} (h : s.TablesOk) {n : Net}
    {p : Ptr} (hr : Roster s.capacity n s.seated (p :: s.waiting) [])
    (hlen : 0 < s.cellServers.length) :
    ∃ s', EasyTcpServer.addClientToCellServer { s with net := n } p = some s' ∧
      s'.TablesOk := by
  rcases minServer_eq_some hlen with ⟨i, hm, hlt⟩
  have hi := List.getElem?_eq_getElem hlt
  generalize s.cellServers[i] = c at hi
  rcases h.focus hi with ⟨others, waiters, hs, hw, -, hback⟩
  refine ⟨_, ?_, hback (n, c.addClient p) s.ext rfl ?_⟩
  · rw [EasyTcpServer.addClientToCellServer]
    dsimp only
    rw [hm, Option.bind_eq_bind, Option.bind_some, hi]
    rfl
  · refine hr.perm hs ((hw.cons p).trans ?_) (.refl _)
    rw [CellServer.addClient, List.append_assoc]
    exact List.perm_middle.symm

theorem addClientToCellServer_none {s : EasyTcpServer π σ} (h : s.cellServers = []) (n : Net)
    (p : Ptr) : EasyTcpServer.addClientToCellServer { s with net := n } p = none := by
  have hm : minServer s.cellServers = none := by rw [h, minServer]; rfl
  rw [EasyTcpServer.addClientToCellServer]
  dsimp only
  rw [hm]
  rfl

/-- A step that keeps the tables. It faults only if it accepts without any worker. -/
def Keeps (s : EasyTcpServer π σ) (r : Option (EasyTcpServer π σ)) : Prop :=
  (∃ s', r = some s' ∧ s'.TablesOk) ∨ s.cellServers = [] ∧ r = none

theorem TablesOk.accpet {s : EasyTcpServer π σ} (h : s.TablesOk) {cSock : SOCKET}
    (hf : cSock ∉ s.net.openSocks) (sendBlock recvBlock : List UInt8) :
    s.Keeps (s.accpet cSock sendBlock recvBlock) := by
  rw [EasyTcpServer.accpet]
  by_cases hv : INVALID_SOCKET = cSock
  · exact .inl ⟨s, if_pos hv, h⟩
  · rw [if_neg hv]
    by_cases hb : (s.net.accept cSock).clientAccept < s.nMaxClient
    · rw [if_pos hb]
      rcases Nat.eq_zero_or_pos s.cellServers.length with hlen | hlen
      · exact .inr ⟨List.length_eq_zero_iff.mp hlen,
          addClientToCellServer_none (List.length_eq_zero_iff.mp hlen) _ _⟩
      · exact .inl (h.addClientToCellServer (h.roster.accept
          (c := s.newClient cSock sendBlock recvBlock) hf (Ne.symm hv)
          (lt_of_lt_of_le hb (le_max_right ..))) hlen)
    · rw [if_neg hb, Net.destroySocket_accept, Option.map_some]
      exact .inl ⟨_, rfl, h.roster.refuse cSock, h.ids⟩

/-! ### The whole server -/

theorem start_tablesOk (nCellServer : ℕ) (nSend nRecv nMax : ℤ) (oldTime : ℕ → ℤ)
    (poller : π) (ext : σ) :
    (start nCellServer nSend nRecv nMax oldTime poller ext).TablesOk := by
  generalize hs : start nCellServer nSend nRecv nMax oldTime poller ext = s
  have hnet : s.net = .new := by rw [← hs, start]
  have hseated : s.seated = [] := by
    rw [seated, ← hs, List.flatMap_eq_nil_iff]
    intro c hc
    rcases List.mem_map.mp hc with ⟨i, -, rfl⟩
    rfl
  have hwaiting : s.waiting = [] := by
    rw [waiting, ← hs, List.flatMap_eq_nil_iff]
    intro c hc
    rcases List.mem_map.mp hc with ⟨i, -, rfl⟩
    rfl
  refine ⟨?_, ?_⟩
  · rw [hnet, hseated, hwaiting]
    exact Roster.new (le_max_left ..)
  · rw [← hs, start, List.map_map]
    exact List.nodup_range.map fun i j hij => by simpa [CellServer.new] using hij

variable (t : ServerT) {onNetMsg : Handler σ}

theorem next_tablesOk (hk : onNetMsg.KeepsSock) {s : EasyTcpServer t.Poller σ}
    (h : s.TablesOk) {e : ServerEvent t.Answer} (hl : Legal t s e) :
    s.Keeps (next t onNetMsg s e) := by
  cases e with
  | accpet cSock sendBlock recvBlock => exact h.accpet hl sendBlock recvBlock
  | drain i =>
      exact .inl (h.onWorker (List.getElem?_eq_getElem hl) fun others waiters _ ht =>
        ht.drain t.joinKeeps)
  | checkTime i now =>
      exact .inl (h.onWorker (List.getElem?_eq_getElem hl) fun others waiters _ ht =>
        ht.checkTime now)
  | doNetEvent i a =>
      rcases hl with ⟨c, hi, hr, -⟩
      refine .inl (h.onWorker (f := fun w => (t.doNetEvent w a).map Prod.fst) hi
        fun others waiters hid ht => ?_)
      rcases t.doNetEvent_tables ht hid hr with ⟨w, b, hw, ht', hid'⟩
      exact ⟨w, by rw [hw, Option.map_some], ht', hid'⟩
  | onNetMsg i k =>
      rcases hl with ⟨c, p, hi, hp⟩
      rcases h.worker hi with ⟨others, waiters, ht, -, hback⟩
      rcases ht.handleMsg hk (OrderedMap.find?_eq_some_iff.mp hp) s.ext with ⟨n, ext, hn, ht⟩
      refine .inl ⟨_, ?_, hback (n, c) ext rfl ht⟩
      rw [next, hi, Option.bind_eq_bind, Option.bind_some, hp, Option.bind_eq_bind,
        Option.bind_some, hn]
      rfl

theorem tablesOk_of_reachable (hk : onNetMsg.KeepsSock) {s : EasyTcpServer t.Poller σ}
    (h : (system t onNetMsg).Reachable s) : s.TablesOk := by
  refine System.Invariant.reachable (P := TablesOk) ⟨?_, ?_⟩ h
  · rintro s ⟨n, nSend, nRecv, nMax, oldTime, poller, ext, rfl⟩
    exact start_tablesOk n nSend nRecv nMax oldTime poller ext
  · rintro s e s' hs ⟨hl, he⟩
    rcases next_tablesOk t hk hs hl with ⟨s'', he', hs'⟩ | ⟨-, he'⟩
    · rwa [Option.some.inj (he.symm.trans he')]
    · exact absurd (he.symm.trans he') nofun

/-- In every run, whatever the order of accepts, joins, timeouts and polls: each accepted
client is in exactly one buffer or table, or has left; the keys, objects, sockets and
counters agree with that; and no step of a server with a worker faults. -/
theorem client_tables (hk : onNetMsg.KeepsSock) {s : EasyTcpServer t.Poller σ}
    (h : (system t onNetMsg).Reachable s) :
    Roster (max 0 s.nMaxClient) s.net s.seated s.waiting [] ∧
      (0 < s.cellServers.length →
        ∀ e, Legal t s e → ∃ s', next t onNetMsg s e = some s') := by
  have hok := tablesOk_of_reachable t hk h
  refine ⟨hok.roster, fun hlen e he => ?_⟩
  rcases next_tablesOk t hk hok he with ⟨s', hs', -⟩ | ⟨hnil, -⟩
  · exact ⟨s', hs'⟩
  · exact absurd (hnil ▸ hlen) (lt_irrefl 0)

/-- A handler that does nothing. -/
def quiet : Handler Unit := fun s c _ => (s, c)

/-- A server whose clients have buffers of eight bytes. -/
def small (nCellServer : ℕ) (nMaxClient : ℤ) : EasyTcpServer ServerT.epoll.Poller Unit :=
  start nCellServer 8 8 nMaxClient (fun _ => 0) () ()

theorem small_reachable (nCellServer : ℕ) (nMaxClient : ℤ) :
    (system .epoll quiet).Reachable (small nCellServer nMaxClient) :=
  .init ⟨nCellServer, 8, 8, nMaxClient, fun _ => 0, (), (), rfl⟩

/-- The kernel hands over socket 5. -/
def accept5 : ServerEvent ServerT.epoll.Answer :=
  .accpet 5 (List.replicate 8 0) (List.replicate 8 0)

theorem accept5_legal (nCellServer : ℕ) (nMaxClient : ℤ) :
    Legal .epoll (small nCellServer nMaxClient) accept5 :=
  show (5 : SOCKET) ∉ [] from List.not_mem_nil

/-- A client is accepted and taken up. -/
theorem client_tables_joined :
    ∃ s s', next .epoll quiet (small 1 2) accept5 = some s ∧
      next .epoll quiet s (.drain 0) = some s' ∧ s'.net.clientJoin = 1 ∧
      Roster (max 0 s'.nMaxClient) s'.net s'.seated s'.waiting [] := by
  have hk : quiet.KeepsSock := fun _ _ _ => rfl
  have h₁ := (small_reachable 1 2).step ⟨accept5_legal 1 2, rfl⟩
  have h₂ := h₁.step (l := ServerEvent.drain 0) ⟨show 0 < List.length _ from Nat.zero_lt_one, rfl⟩
  exact ⟨_, _, rfl, rfl, rfl, (client_tables .epoll hk h₂).1⟩

/-- With a negative `nMaxClient` the counter starts above it, and with no worker the first
client that is accepted is handed to the first worker of an empty vector. -/
theorem client_tables_unconfigured :
    ((system .epoll quiet).Reachable (small 1 (-1)) ∧
      ¬ (small 1 (-1)).net.clientAccept ≤ (small 1 (-1)).nMaxClient) ∧
    (system .epoll quiet).Reachable (small 0 2) ∧ Legal .epoll (small 0 2) accept5 ∧
      next .epoll quiet (small 0 2) accept5 = none :=
  ⟨⟨small_reachable 1 (-1), by decide⟩, small_reachable 0 2, accept5_legal 0 2, rfl⟩

end EasyTcpServer

end CellNet
