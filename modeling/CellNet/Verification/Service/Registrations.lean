import CellNet.Verification.Loop.Polls
import CellNet.Verification.Service.Visits

/-! The registrations of an epoll server. Each client in a table is registered once, with the
instance of the worker that has it, under its socket and with its own pointer; the first loop of
`DoNetEvent` brings what is asked for it up to date. -/

namespace CellNet

open Library Worker

variable {σ : Type}

/-! ### What a worker does to the registrations -/

namespace Worker

variable {π : Type} {w w' : Worker π}

theorem checkClient_closes {dt : ℤ} {e : SOCKET × Ptr}
    (h : w.checkClient false dt e = some w') : w.1.Closes w'.1 ∧ w'.2.id = w.2.id := by
  obtain ⟨c, -, ⟨-, rfl⟩ | ⟨-, n, hn, rfl⟩⟩ := checkClient_cases h
  · exact ⟨Net.closes_of_eq rfl rfl, rfl⟩
  · have hset : w.1.Closes ((w.1.setClient e.2 (c.checkHeart dt).1).onNetLeave e.2) :=
      Net.closes_of_eq rfl rfl
    exact ⟨hset.trans (delete_counts hn).2.2, rfl⟩

theorem checkTime_closes {now : ℤ} (h : w.checkTime false now = some w') :
    w.1.Closes w'.1 ∧ w'.2.id = w.2.id := by
  apply foldlM_cases (P := fun _ (x : Worker π) => w.1.Closes x.1 ∧ x.2.id = w.2.id) _ _ h
  · intro e es x y hx hy
    have hc := checkClient_closes hy
    exact ⟨hx.1.trans hc.1, hc.2.trans hx.2⟩
  · exact ⟨Net.closes_of_eq rfl rfl, rfl⟩

end Worker

namespace CellEpollServer

variable {cap : ℤ} {seated seats seats' : List Seat} {waiting : List Ptr} {w w' : Worker Unit}

/-- The seats of the roster are registered, each once. -/
structure Enrolled (seats : List Seat) (n : Net) : Prop where
  enrolled : ∀ x ∈ seats, x ∈ n.enrolled
  nodup : n.enrolled.Nodup

theorem Enrolled.mono {n : Net} (h : Enrolled seats n) (hs : ∀ x ∈ seats', x ∈ seats) :
    Enrolled seats' n :=
  ⟨fun x hx => h.enrolled x (hs x hx), h.nodup⟩

/-- A client that is taken up is registered. -/
theorem takeUp_enrolled {p : Ptr}
    (hr : Roster cap w.1 (w.2.seats ++ seated) (p :: waiting) [])
    (he : Enrolled (w.2.seats ++ seated) w.1) (h : takeUp onClientJoin w p = some w') :
    Enrolled (w'.2.seats ++ seated) w'.1 := by
  obtain ⟨c, hc, hk, henter, -⟩ := enter_roster hr
  rw [takeUp, henter, Option.bind_some] at h
  obtain ⟨n, hn, rfl⟩ := Option.map_eq_some_iff.mp h
  obtain ⟨d, hd, hn⟩ := Option.bind_eq_some_iff.mp hn
  obtain rfl := Option.some.inj hn
  have hget := (Heap.get?_set hc { c with serverId := w.2.id } p).symm.trans hd
  rw [if_pos rfl] at hget
  obtain rfl := Option.some.inj hget
  let x : Seat := ⟨w.2.id, c.sockfd, p⟩
  have hnew : x ∉ w.1.enrolled := by
    intro hx
    obtain ⟨g, hg, hgx⟩ := List.mem_map.mp hx
    have hseat := hr.registered g hg
    rw [hgx] at hseat
    have hp : p ∈ (w.2.seats ++ seated).map Seat.ptr := List.mem_map_of_mem hseat
    exact List.disjoint_of_nodup_append hr.nodup.of_append_left hp List.mem_cons_self
  constructor
  · intro y hy
    change y ∈ x :: w.1.enrolled
    have hi : (w.2.insertClient c.sockfd p).seats.Perm (x :: w.2.seats) :=
      (OrderedMap.perm_insert hk p).map w.2.seat
    rcases List.mem_append.mp hy with hy | hy
    · rcases List.mem_cons.mp (hi.mem_iff.mp hy) with rfl | hy
      · exact List.mem_cons_self
      · exact List.mem_cons_of_mem _ (he.enrolled y (List.mem_append_left _ hy))
    · exact List.mem_cons_of_mem _ (he.enrolled y (List.mem_append_right _ hy))
  · exact List.nodup_cons.mpr ⟨hnew, he.nodup⟩

theorem drain_enrolled (ht : Tables cap seated waiting w)
    (he : Enrolled (w.2.seats ++ seated) w.1) (h : w.drain onClientJoin = some w') :
    Enrolled (w'.2.seats ++ seated) w'.1 := by
  rw [drain] at h
  split at h
  · obtain rfl := Option.some.inj h
    exact he
  · obtain ⟨w₁, hw, rfl⟩ := Option.map_eq_some_iff.mp h
    have hloop := foldlM_cases (P := fun ps (x : Worker Unit) =>
      Roster cap x.1 (x.2.seats ++ seated) (ps ++ waiting) [] ∧
        Enrolled (x.2.seats ++ seated) x.1) ?_ ⟨ht, he⟩ hw
    · exact hloop.2
    · intro p ps x y hx hy
      obtain ⟨y', hy', hr, -⟩ := takeUp_roster joinKeeps hx.1
      obtain rfl := Option.some.inj (hy.symm.trans hy')
      exact ⟨hr, takeUp_enrolled hx.1 hx.2 hy⟩

/-- Where a seat that is still there was closed, its registration would be gone. -/
theorem Enrolled.closes {n n' : Net} (h : Enrolled seats n) (hn : n.Closes n')
    (ho : n.openSocks.Nodup) (hr : Roster cap n' seats' waiting []) (hs : ∀ x ∈ seats', x ∈ seats) :
    Enrolled seats' n' where
  enrolled x hx := by
    have hv := hr.valid (List.mem_append_left _ (List.mem_map_of_mem hx)) (hr.keys x hx)
    exact hn.kept ho x (h.enrolled x (hs x hx)) hv.2
  nodup := hn.enrolled.nodup h.nodup

/-! ### What is asked for -/

/-- The registrations of this instance whose clients are not among `ps` ask for what their
clients need. -/
def UpToDate (id : ℤ) (ps : List Ptr) (n : Net) : Prop :=
  ∀ g ∈ n.registered, g.epfd = id → g.ptr ∈ ps ∨
    ∃ c, n.heap.get? g.ptr = some c ∧ g.out = c.needWrite

theorem ctlMod_upToDate (ht : Tables cap seated waiting w) {e : SOCKET × Ptr} {ps : List Ptr}
    (hu : UpToDate w.2.id (e.2 :: ps) w.1) {n : Net} (h : ctlMod w.1 w.2.id e.2 = some n) :
    UpToDate w.2.id ps n := by
  obtain ⟨c, hc, h⟩ := Option.bind_eq_some_iff.mp h
  obtain rfl := Option.some.inj h
  intro g hg hid
  obtain ⟨g₀, hg₀, rfl⟩ := List.mem_map.mp hg
  split at hid
  · next hm =>
      rw [if_pos hm]
      exact .inr ⟨c, hc, rfl⟩
  · next hm =>
      rw [if_neg hm]
      rcases hu g₀ hg₀ hid with hp | hp
      · rcases List.mem_cons.mp hp with hp | hp
        · -- its client has another socket, which no registration can have
          obtain ⟨d, hd, hk⟩ := ht.get?_of_seated (ht.registered g₀ hg₀)
          dsimp only at hd hk
          rw [hp, hc] at hd
          obtain rfl := Option.some.inj hd
          exact absurd ⟨hid, hk.symm⟩ hm
        · exact .inl hp
      · exact .inr hp

theorem modClients_upToDate (ht : Tables cap seated waiting w)
    (hid : ∀ x ∈ seated, x.id ≠ w.2.id) {n : Net} (h : modClients w.1 w.2 = some n) :
    UpToDate w.2.id [] n := by
  have hloop := foldlM_cases
    (P := fun es x => (∀ e ∈ es, e ∈ w.2.clients.entries) ∧ Tables cap seated waiting (x, w.2) ∧
      UpToDate w.2.id (es.map Prod.snd) x) ?_ ⟨fun _ he => he, ht, ?_⟩ h
  · exact hloop.2.2
  · intro e es x y hx hy
    obtain ⟨hes, hx, hu⟩ := hx
    obtain ⟨y', hy', ht'⟩ := ctlMod_tables hx (hes e List.mem_cons_self)
    obtain rfl := Option.some.inj (hy.symm.trans hy')
    exact ⟨fun f hf => hes f (List.mem_cons_of_mem _ hf), ht', ctlMod_upToDate hx hu hy⟩
  · intro g hg he
    obtain ⟨e, hp, hin⟩ := registered_here ht hid hg he
    exact .inl (hp ▸ List.mem_map_of_mem hin)

end CellEpollServer

/-! ### The whole server -/

namespace ServerLoops

open CellEpollServer

/-- The seats of the server, seen from one worker, and what they become with it. -/
theorem seated_focus {π : Type} {s : ServerLoops π σ} (h : s.server.TablesOk) {i : ℕ}
    {c : CellServer π} (hi : s.server.cellServers[i]? = some c) : ∃ others waiters,
      Tables s.server.capacity others waiters (s.server.net, c) ∧
      s.server.seated.Perm (c.seats ++ others) ∧
      ∀ w pc, (s.put i w pc).server.seated.Perm (w.2.seats ++ others) := by
  obtain ⟨l, r, hs, hset⟩ := EasyTcpServer.split_at hi
  have hseated : s.server.seated.Perm (c.seats ++ (l ++ r).flatMap CellServer.seats) := by
    rw [EasyTcpServer.seated, hs]
    exact EasyTcpServer.perm_flatMap ..
  have hwaiting : s.server.waiting.Perm
      (c.clientsBuff ++ (l ++ r).flatMap CellServer.clientsBuff) := by
    rw [EasyTcpServer.waiting, hs]
    exact EasyTcpServer.perm_flatMap ..
  refine ⟨_, _, h.roster.perm hseated hwaiting (.refl _), hseated, ?_⟩
  intro w pc
  change (EasyTcpServer.seated { s.server with
    net := w.1, cellServers := s.server.cellServers.set i w.2 }).Perm _
  rw [EasyTcpServer.seated, hset]
  exact EasyTcpServer.perm_flatMap ..

variable {onNetMsg : Handler σ} {s s' : ServerLoops Unit σ}

/-- The registrations of a server are those of its tables. -/
def Registers (s : ServerLoops Unit σ) : Prop := Enrolled s.server.seated s.server.net

/-- A function of one worker that takes clients out of its table. -/
theorem Registers.put (h : s.Registers) (hok : LoopsOk (t := .epoll) s) {i : ℕ}
    {c : CellServer Unit} (hi : s.server.cellServers[i]? = some c) {w : Worker Unit} {pc : LoopPc}
    (hok' : LoopsOk (t := .epoll) (s.put i w pc)) (hc : s.server.net.Closes w.1)
    (hid : w.2.id = c.id) (he : w.2.clients.entries ⊆ c.clients.entries) :
    (s.put i w pc).Registers := by
  obtain ⟨others, waiters, -, hseated, hput⟩ := seated_focus hok.tables hi
  apply Enrolled.closes h hc hok.tables.roster.openNodup hok'.tables.roster
  intro x hx
  apply hseated.mem_iff.mpr
  rcases List.mem_append.mp ((hput w pc).mem_iff.mp hx) with hx | hx
  · obtain ⟨e, hin, rfl⟩ := List.mem_map.mp hx
    rw [CellServer.seat, hid]
    exact List.mem_append_left _ (mem_seats (he hin))
  · exact List.mem_append_right _ hx

/-- Reading the clock afterwards makes no difference. -/
theorem Registers.drain (h : s.Registers) (hok : LoopsOk (t := .epoll) s) {i : ℕ}
    {c : CellServer Unit} (hi : s.server.cellServers[i]? = some c) {w w' : Worker Unit}
    (hw : Worker.drain onClientJoin (s.server.net, c) = some w) (hn : w'.1 = w.1)
    (hs : w'.2.seats = w.2.seats) (pc : LoopPc) : (s.put i w' pc).Registers := by
  obtain ⟨others, waiters, ht, hseated, hput⟩ := seated_focus hok.tables hi
  have hfocus := h.mono fun x hx => hseated.mem_iff.mpr hx
  have hdrain := drain_enrolled ht hfocus hw
  rw [← hn, ← hs] at hdrain
  exact hdrain.mono fun x hx => (hput w' pc).mem_iff.mp hx

theorem Registers.accpet (h : s.Registers) {cSock : SOCKET} {sendBlock recvBlock : List UInt8}
    (hf : cSock ∉ s.server.net.openSocks) (hok : LoopsOk (t := .epoll) s)
    {server : EasyTcpServer Unit σ}
    (hok' : LoopsOk (t := .epoll) { s with server := server })
    (ha : s.server.accpet cSock sendBlock recvBlock = some server) :
    Registers { s with server := server } := by
  rcases EasyTcpServer.accpet_cases ha with ⟨-, rfl | rfl⟩ | ⟨-, d, i, hd, rfl⟩
  · exact h
  · have hopen : (s.server.net.accept cSock).openSocks.Nodup :=
      List.nodup_cons.mpr ⟨hf, hok.tables.roster.openNodup⟩
    exact Enrolled.closes (n := s.server.net.accept cSock) ⟨h.enrolled, h.nodup⟩
      (Net.close_closes _ _) hopen hok'.tables.roster fun _ hx => hx
  · refine ⟨fun x hx => h.enrolled x ?_, h.nodup⟩
    obtain ⟨c, hc, hx⟩ := List.mem_flatMap.mp hx
    rcases List.mem_or_eq_of_mem_set hc with hc | rfl
    · exact List.mem_flatMap.mpr ⟨c, hc, hx⟩
    · exact List.mem_flatMap.mpr ⟨d, List.mem_of_getElem? hd.mem, hx⟩

theorem Registers.doMsg (h : s.Registers) {i : ℕ} (hd : Rounds onNetMsg s i s') :
    s'.Registers := by
  cases hd with
  | done => exact h
  | skip => exact h
  | handle => exact ⟨h.enrolled, h.nodup⟩

theorem Registers.next (h : s.Registers) (hok : LoopsOk (t := .epoll) s)
    (hok' : LoopsOk (t := .epoll) s') {e : LoopEvent ServerT.epoll.Answer} (hl : Legal .epoll s e)
    (hn : ServerLoops.next .epoll onNetMsg s e = some s') : s'.Registers := by
  cases next_cases (t := .epoll) hn with
  | accpet ha => exact h.accpet hl.1 hok hok' ha
  | stop => exact h
  | idle hi hw =>
      apply h.drain hok hi hw
      · rfl
      · rfl
  | busy hi hw => exact h.drain hok hi hw rfl rfl _
  | @checkTime i now c w hi hw =>
      obtain ⟨hc, hid⟩ := checkTime_closes hw
      exact h.put hok hi hok' hc hid fun e he => ((hok.mem_checkTime hi hw e).mp he).1
  | @doNetEvent i a c r hi hd =>
      obtain ⟨others, waiters, ht, hid, -⟩ := hok.tables.worker hi
      have ha := hl.2 c hi
      have hserved := CellEpollServer.doNetEvent_served ht ha hd
      have hsh := CellEpollServer.doNetEvent_rule shrinks_rule hd
      obtain ⟨w', b, hw', -, hid'⟩ := CellEpollServer.doNetEvent_tables ht hid ha
      obtain rfl := Option.some.inj (hd.symm.trans hw')
      exact h.put hok hi hok' hserved.closes hid' hsh.entries
  | doMsg hd => exact h.doMsg hd

theorem registers_of_reachable (hk : onNetMsg.KeepsSock)
    (h : (system .epoll onNetMsg).Reachable s) : s.Registers := by
  have hboth : LoopsOk (t := .epoll) s ∧ s.Registers := by
    refine System.Invariant.reachable
      (P := fun s => LoopsOk (t := .epoll) s ∧ s.Registers) ⟨?_, ?_⟩ h
    · intro s hs
      obtain ⟨n, nSend, nRecv, nMax, oldTime, poller, ext, rfl⟩ := hs
      refine ⟨start_loopsOk n nSend nRecv nMax oldTime poller ext, ?_, .nil⟩
      intro x hx
      obtain ⟨c, hc, hx⟩ := List.mem_flatMap.mp hx
      obtain ⟨j, -, rfl⟩ := List.mem_map.mp hc
      cases hx
    · intro s e s' hs he
      have hok' := hs.1.next hk he.1 he.2
      exact ⟨hok', hs.2.next hs.1 hok' he.1 he.2⟩
  exact hboth.2

theorem Registers.perm (h : s.Registers) (hok : LoopsOk (t := .epoll) s) :
    s.server.net.enrolled.Perm s.server.seated := by
  have hnd : s.server.seated.Nodup := hok.tables.roster.nodup.of_append_left.of_append_left.of_map
  rw [List.perm_ext_iff_of_nodup h.nodup hnd]
  intro x
  constructor
  · intro hx
    obtain ⟨g, hg, rfl⟩ := List.mem_map.mp hx
    exact hok.tables.roster.registered g hg
  · exact h.enrolled x

/-- In every state of every run the registrations are those of the tables, client by client.
`DoNetEvent` of a worker keeps it so, and when it waits, its instance asks for each of its
clients just what that needs. -/
theorem registrations_exact (hk : onNetMsg.KeepsSock)
    (h : (system .epoll onNetMsg).Reachable s) :
    s.server.net.enrolled.Perm s.server.seated ∧
      ∀ (i : ℕ) (c : CellServer Unit), s.server.cellServers[i]? = some c →
        ∃ n, modClients s.server.net c = some n ∧ n.enrolled.Perm s.server.seated ∧
          ∀ g ∈ n.registered, g.epfd = c.id → ∃ e ∈ c.clients.entries, ∃ client,
            s.server.net.heap.get? e.2 = some client ∧
              g = ⟨c.id, e.1, e.2, client.needWrite⟩ := by
  have hok : LoopsOk (t := .epoll) s := loopsOk_of_reachable (t := .epoll) hk h
  have hperm := (registers_of_reachable hk h).perm hok
  refine ⟨hperm, ?_⟩
  intro i c hi
  obtain ⟨others, waiters, ht, hid, -⟩ := hok.tables.worker hi
  obtain ⟨n, hn, ht'⟩ := modClients_tables ht
  have hheap := modClients_heap hn
  refine ⟨n, hn, by rwa [modClients_enrolled ht hn], ?_⟩
  intro g hg he
  obtain ⟨client, hc, hout⟩ := (modClients_upToDate ht hid hn g hg he).resolve_left nofun
  obtain ⟨e, hp, hin⟩ := registered_here ht' hid hg he
  obtain ⟨d, hd, hk⟩ := ht.get? hin
  obtain ⟨d', hd', hk'⟩ := ht'.get?_of_seated (ht'.registered g hg)
  rw [hheap] at hc
  dsimp only at hd hd' hk'
  rw [hp, hc] at hd
  rw [hheap, hc] at hd'
  obtain rfl := Option.some.inj hd
  obtain rfl := Option.some.inj hd'
  refine ⟨e, hin, client, hp ▸ hc, ?_⟩
  rw [← he, ← hk, hk', hp, ← hout]

/-- An epoll server with one worker. -/
def watching : ServerLoops Unit Unit := ⟨.start 1 8 8 2 (fun _ => 0) () (), [.test]⟩

/-- The client with socket 5 was accepted and taken up. -/
def watching5 : ServerLoops Unit Unit :=
  ([LoopEvent.accpet 5 (List.replicate 8 0) (List.replicate 8 0), .drain 0 0].foldlM
    (next .epoll EasyTcpServer.quiet) watching).getD watching

theorem watching5_reachable : (system .epoll EasyTcpServer.quiet).Reachable watching5 := by
  have h₀ : (system .epoll EasyTcpServer.quiet).Reachable watching :=
    .init ⟨1, 8, 8, 2, fun _ => 0, (), (), rfl⟩
  have h₁ := h₀.step (l := LoopEvent.accpet 5 (List.replicate 8 0) (List.replicate 8 0))
    ⟨⟨List.not_mem_nil, rfl, rfl⟩, rfl⟩
  exact h₁.step (l := LoopEvent.drain 0 0) ⟨show _ = some LoopPc.test from rfl, rfl⟩

theorem registrations_exact_watching5 :
    watching5.server.net.enrolled.Perm [⟨1, 5, 0⟩] ∧ ∃ n : Net,
      n.enrolled.Perm [⟨1, 5, 0⟩] ∧
        ∀ g ∈ n.registered, g.epfd = 1 → g = ⟨1, 5, 0, false⟩ := by
  have hk : EasyTcpServer.quiet.KeepsSock := fun _ _ _ => rfl
  obtain ⟨hperm, hall⟩ := registrations_exact hk watching5_reachable
  obtain ⟨n, -, hperm', hg⟩ := hall 0 _ rfl
  refine ⟨hperm, n, hperm', ?_⟩
  intro g hin hid
  obtain ⟨e, he, client, hc, rfl⟩ := hg g hin hid
  obtain rfl := List.mem_singleton.mp he
  obtain rfl := Option.some.inj hc
  rfl

end ServerLoops

end CellNet
