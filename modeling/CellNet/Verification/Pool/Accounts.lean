import CellNet.Verification.Pool.Dispatch
import CellNet.Verification.Tables.Server

/-! The counters of a server over its whole life: what its workers hold, what has left, and how
many clients it admits once it was closed and started again. -/

namespace CellNet

open Library Worker

namespace CellServer

variable {c : CellServer WorkerLoop}

/-- The clients that a worker holds. -/
def held (c : CellServer WorkerLoop) : List Ptr :=
  c.clients.entries.map Prod.snd ++ c.clientsBuff ++ c.poller.detached

/-- Those of them that have joined. -/
def joined (c : CellServer WorkerLoop) : List Ptr :=
  c.clients.entries.map Prod.snd ++ c.poller.detached

theorem length_held (c : CellServer WorkerLoop) : c.held.length = c.load := by
  rw [held, List.length_append, List.length_append, List.length_map]
  rfl

theorem held_eq_nil_iff : c.held = [] ↔ c.load = 0 := by
  rw [← length_held, List.length_eq_zero_iff]

theorem nil_of_load (h : c.load = 0) :
    c.clients.entries = [] ∧ c.clientsBuff = [] ∧ c.poller.detached = [] := by
  have hn := held_eq_nil_iff.mpr h
  rw [held, List.append_eq_nil_iff, List.append_eq_nil_iff, List.map_eq_nil_iff] at hn
  exact ⟨hn.1.1, hn.1.2, hn.2⟩

theorem seats_of_load (h : c.load = 0) : c.seats = [] := by
  rw [seats, (nil_of_load h).1, List.map_nil]

end CellServer

/-! ### The moves of a worker, among the clients of the others -/

namespace Worker

variable {cap : ℤ} {seated : List Seat} {waiting detached : List Ptr} {w : Worker WorkerLoop}

/-- The roster of the whole server, seen from one worker. -/
def Holds (cap : ℤ) (seated : List Seat) (waiting detached : List Ptr)
    (w : Worker WorkerLoop) : Prop :=
  Roster cap w.1 (w.2.seats ++ seated) (w.2.clientsBuff ++ waiting)
    (w.2.poller.detached ++ detached)

theorem seats_perm {s : CellServer WorkerLoop} {k : SOCKET} {p : Ptr}
    (h : s.clients.find? k = some p) :
    (s.seats ++ seated).Perm (s.seat (k, p) :: ((s.eraseClient k).seats ++ seated)) :=
  ((OrderedMap.perm_erase (OrderedMap.find?_eq_some_iff.mp h)).map s.seat).append_right _

theorem Holds.drain (h : Holds cap seated waiting detached w) :
    ∃ w', Worker.drain (fun w _ => some w) w = some w' ∧ Holds cap seated waiting detached w' := by
  rw [Worker.drain]
  by_cases hb : w.2.clientsBuff = []
  · exact ⟨w, if_pos hb, h⟩
  · have hloop := foldlM_some (f := takeUp fun w _ => some w)
      (P := fun ps (v : Worker WorkerLoop) => Roster cap v.1 (v.2.seats ++ seated) (ps ++ waiting)
        (v.2.poller.detached ++ detached)) ?_ h
    · obtain ⟨v, hv, hr⟩ := hloop
      refine ⟨(v.1, { v.2 with clientsBuff := [], clientsChange := true }), ?_, hr⟩
      rw [if_neg hb, hv, Option.map_some]
    · intro p ps v hr
      obtain ⟨c, -, -, he, hr⟩ := enter_roster hr
      exact ⟨_, by rw [takeUp, he, Option.bind_some], hr⟩

theorem Holds.leave (h : Holds cap seated waiting detached w) {k : SOCKET} {p : Ptr}
    (hp : w.2.clients.find? k = some p) :
    ∃ w', Worker.leave k w = some w' ∧ Holds cap seated waiting detached w' := by
  obtain ⟨n, hn, -, hr⟩ := Roster.release (Roster.perm h (seats_perm hp) (.refl _) (.refl _))
  have hn' : (w.1.onNetLeave p).delete p = some n := hn
  refine ⟨(n, { w.2.eraseClient k with clientsChange := true }), ?_, hr⟩
  rw [Worker.leave, hp, Option.bind_eq_bind, Option.bind_some, Worker.onClientLeave, hn']
  rfl

theorem Holds.detach (h : Holds cap seated waiting detached w) {k : SOCKET} {p : Ptr}
    (hp : w.2.clients.find? k = some p) :
    ∃ w', Worker.detach k w = some w' ∧ Holds cap seated waiting detached w' := by
  obtain ⟨n, hn, -, hr⟩ := Roster.detach (Roster.perm h (seats_perm hp) (.refl _) (.refl _))
  have hn' : w.1.destroy p = some n := hn
  refine ⟨(n, { w.2.eraseClient k with poller.detached := p :: w.2.poller.detached }), ?_, hr⟩
  rw [Worker.detach, hp, Option.bind_eq_bind, Option.bind_some, hn']
  rfl

theorem Holds.leaveDetached (h : Holds cap seated waiting detached w) {p : Ptr}
    (hp : p ∈ w.2.poller.detached) :
    ∃ w', Worker.leaveDetached p w = some w' ∧ Holds cap seated waiting detached w' := by
  have hperm : (w.2.poller.detached ++ detached).Perm
      (p :: (w.2.poller.detached.erase p ++ detached)) :=
    (List.perm_cons_erase hp).append_right _
  obtain ⟨n, hn, -, hr⟩ := Roster.releaseDetached (Roster.perm h (.refl _) (.refl _) hperm)
  refine ⟨(n, { w.2 with
    clientsChange := true
    poller.detached := w.2.poller.detached.erase p }), ?_, hr⟩
  rw [Worker.leaveDetached, Worker.onClientLeave, hn]
  rfl

theorem Holds.clear (h : Holds cap seated waiting detached w) (hz : w.2.load = 0) :
    ∃ w', Worker.clear w = some w' ∧ Holds cap seated waiting detached w' := by
  obtain ⟨he, hb, -⟩ := CellServer.nil_of_load hz
  refine ⟨_, by rw [Worker.clear, clearclients, he, hb]; rfl, ?_⟩
  rw [Holds, CellServer.seats_of_load hz, hb] at h
  exact h

end Worker

namespace Pool

variable {s t : Pool}

/-- The clients that are only kept for an operation. -/
def detached (s : Pool) : List Ptr := s.server.cellServers.flatMap fun c => c.poller.detached

def Books (s : Pool) : Prop :=
  Roster s.server.capacity s.server.net s.server.seated s.server.waiting s.detached

/-- The roster around one worker: what belongs to it, and how its tables are put back once it
has changed them. -/
theorem focus {i : ℕ} {c : CellServer WorkerLoop} (hi : s.server.cellServers[i]? = some c) :
    ∃ seated waiting away, s.server.seated.Perm (c.seats ++ seated) ∧
      s.server.waiting.Perm (c.clientsBuff ++ waiting) ∧
      s.detached.Perm (c.poller.detached ++ away) ∧
      ∀ w, Holds s.server.capacity seated waiting away w → Books { s with
        server := { s.server with
          net := w.1
          cellServers := s.server.cellServers.set i w.2 } } := by
  obtain ⟨l, r, hs, hset⟩ := EasyTcpServer.split_at hi
  have hperm : ∀ {β : Type} (f : CellServer WorkerLoop → List β) (d : CellServer WorkerLoop),
      ((l ++ d :: r).flatMap f).Perm (f d ++ (l ++ r).flatMap f) :=
    fun f d => EasyTcpServer.perm_flatMap f l r d
  refine ⟨(l ++ r).flatMap CellServer.seats, (l ++ r).flatMap CellServer.clientsBuff,
    (l ++ r).flatMap fun c => c.poller.detached, ?_, ?_, ?_, fun w hw => ?_⟩
  · rw [EasyTcpServer.seated, hs]
    exact hperm ..
  · rw [EasyTcpServer.waiting, hs]
    exact hperm ..
  · rw [detached, hs]
    exact hperm ..
  · refine Roster.perm hw ?_ ?_ ?_
    · rw [EasyTcpServer.seated, hset]
      exact (hperm ..).symm
    · rw [EasyTcpServer.waiting, hset]
      exact (hperm ..).symm
    · rw [detached, hset]
      exact (hperm (fun c => c.poller.detached) w.2).symm

theorem Books.onWorker (h : s.Books) {i : ℕ} {c : CellServer WorkerLoop}
    (hi : s.server.cellServers[i]? = some c) {f : Worker WorkerLoop → Option (Worker WorkerLoop)}
    (hf : ∀ seated waiting away,
      Holds s.server.capacity seated waiting away (s.server.net, c) →
      ∃ w, f (s.server.net, c) = some w ∧ Holds s.server.capacity seated waiting away w) :
    ∃ t, s.onWorker i f = some t ∧ t.Books := by
  obtain ⟨seated, waiting, away, hs, hw, hd, hback⟩ := focus hi
  obtain ⟨w, hf, hh⟩ := hf seated waiting away (Roster.perm h hs hw hd)
  refine ⟨_, ?_, hback w hh⟩
  rw [Pool.onWorker, EasyTcpServer.onWorker, hi, Option.bind_eq_bind, Option.bind_some, hf]
  rfl

theorem Books.accpet (h : s.Books) {cSock : SOCKET} {sendBlock recvBlock : List UInt8}
    (hf : cSock ∉ s.server.net.openSocks)
    (ht : s.next (.accpet cSock sendBlock recvBlock) = some t) : t.Books := by
  obtain ⟨u, hu, rfl⟩ := Option.map_eq_some_iff.mp ht
  rcases EasyTcpServer.accpet_cases hu with ⟨-, rfl | rfl⟩ | ⟨ha, c, i, hc, rfl⟩
  · exact h
  · exact Roster.refuse h cSock
  · have hr := Roster.accept h (c := s.server.newClient cSock sendBlock recvBlock) hf
      (Ne.symm ha.1) (lt_of_lt_of_le ha.2 (le_max_right ..))
    obtain ⟨seated, waiting, away, hs, hw, hd, hback⟩ := focus hc.mem
    refine hback (_, c.addClient s.server.net.heap.next) (Roster.perm hr hs ?_ hd)
    refine (hw.cons s.server.net.heap.next).trans ?_
    rw [CellServer.addClient, List.append_assoc]
    exact List.perm_middle.symm

/-- Nobody is with a worker that has ended, or whose tables are about to be cleared. -/
def LeavesNone (s : Pool) : PoolEvent → Prop
  | .accpet cSock _ _ => s.server.Admits cSock → s.Fewest (· ≠ .ended)
  | .clear i => ∀ c, s.server.cellServers[i]? = some c → c.load = 0
  | _ => True

/-- The roster, where the workers that have ended hold no client. -/
structure Booked (s : Pool) : Prop where
  books : s.Books
  ended : s.EndedHave fun c => c.load = 0

theorem books_of_workers {nCellServer : ℕ} {oldTime : ℕ → ℤ}
    (hs : s.server.cellServers = workers nCellServer oldTime)
    (h : Roster s.server.capacity s.server.net [] [] []) : s.Books := by
  have hnil : ∀ c ∈ s.server.cellServers,
      c.seats = [] ∧ c.clientsBuff = [] ∧ c.poller.detached = [] := by
    intro c hc
    rw [hs] at hc
    obtain ⟨n, -, rfl⟩ := List.mem_map.mp hc
    exact ⟨rfl, rfl, rfl⟩
  have hseated : s.server.seated = [] :=
    List.flatMap_eq_nil_iff.mpr fun c hc => (hnil c hc).1
  have hwaiting : s.server.waiting = [] :=
    List.flatMap_eq_nil_iff.mpr fun c hc => (hnil c hc).2.1
  have hdetached : s.detached = [] :=
    List.flatMap_eq_nil_iff.mpr fun c hc => (hnil c hc).2.2
  rw [Books, hseated, hwaiting, hdetached]
  exact h

theorem Booked.load_of_closing (h : s.Booked)
    (hc : ∀ c ∈ s.server.cellServers, c.poller.status = .ended) :
    ∀ c ∈ s.server.cellServers, c.load = 0 := by
  intro c hm
  obtain ⟨i, hi⟩ := List.mem_iff_getElem?.mp hm
  exact h.ended i c ⟨hi, hc c hm⟩

/-- Without a client, the roster has nothing left but those who left. -/
theorem Books.empty (h : s.Books) (hz : ∀ c ∈ s.server.cellServers, c.load = 0) :
    Roster s.server.capacity s.server.net [] [] [] := by
  have hseated : s.server.seated = [] :=
    List.flatMap_eq_nil_iff.mpr fun c hc => CellServer.seats_of_load (hz c hc)
  have hwaiting : s.server.waiting = [] :=
    List.flatMap_eq_nil_iff.mpr fun c hc => (CellServer.nil_of_load (hz c hc)).2.1
  have hdetached : s.detached = [] :=
    List.flatMap_eq_nil_iff.mpr fun c hc => (CellServer.nil_of_load (hz c hc)).2.2
  rwa [Books, hseated, hwaiting, hdetached] at h

theorem Booked.next (h : s.Booked) {e : PoolEvent} (hok : s.LeavesNone e) (hl : s.Legal e)
    (ht : s.next e = some t) : t.Booked := by
  have hended : t.EndedHave fun c => c.load = 0 := by
    refine h.ended.next hl ht ?_ ?_
    · rintro cSock sendBlock recvBlock rfl
      exact hok
    · rintro i c w rfl hc hw
      have hz := CellServer.nil_of_load (hok c hc)
      obtain ⟨hb, he, -, hd, -⟩ := Worker.clear_spec hw
      rw [CellServer.load, CellServer.getClientCount, hb, he, hd, hz.2.2]
      rfl
  refine ⟨?_, hended⟩
  have hfrom : ∀ {u : Pool}, s.next e = some u → u.Books → t.Books := by
    intro u hu hb
    rwa [Option.some.inj (ht.symm.trans hu)]
  cases e with
  | accpet cSock sendBlock recvBlock => exact h.books.accpet hl.2 ht
  | drain i =>
      obtain ⟨c, hc⟩ := hl
      obtain ⟨u, hu, hb⟩ := h.books.onWorker hc.1 fun _ _ _ hh => hh.drain
      exact hfrom hu hb
  | leave i k =>
      obtain ⟨c, p, hc, hp⟩ := hl
      obtain ⟨u, hu, hb⟩ := h.books.onWorker hc.1 fun _ _ _ hh => hh.leave hp
      exact hfrom hu hb
  | detach i k =>
      obtain ⟨c, p, hc, hp⟩ := hl
      obtain ⟨u, hu, hb⟩ := h.books.onWorker hc.1 fun _ _ _ hh => hh.detach hp
      exact hfrom hu hb
  | leaveDetached i p =>
      obtain ⟨c, hc, hp⟩ := hl
      obtain ⟨u, hu, hb⟩ := h.books.onWorker hc.1 fun _ _ _ hh => hh.leaveDetached hp
      exact hfrom hu hb
  | exit i =>
      obtain ⟨c, hc⟩ := hl
      obtain ⟨u, hu, hb⟩ := h.books.onWorker (f := Worker.exit) hc.1 fun _ _ _ hh =>
        ⟨_, rfl, hh⟩
      exact hfrom hu hb
  | clear i =>
      obtain ⟨c, hc⟩ := hl
      obtain ⟨u, hu, hb⟩ := h.books.onWorker hc.1 fun _ _ _ hh => hh.clear (hok c hc.1)
      exact hfrom hu hb
  | stopAccept =>
      obtain rfl := Option.some.inj ht
      exact h.books
  | close =>
      obtain rfl := Option.some.inj ht
      exact h.books.empty (h.load_of_closing hl.2)
  | start nCellServer oldTime =>
      obtain rfl := Option.some.inj ht
      refine books_of_workers rfl (h.books.empty fun c hc => ?_)
      rw [hl.2] at hc
      cases hc

theorem booked_of_reachable (hs : (system.guard LeavesNone).Reachable s) : s.Booked := by
  refine System.Invariant.reachable (P := Booked) ⟨?_, ?_⟩ hs
  · rintro s ⟨nCellServer, nSend, nRecv, nMax, oldTime, rfl⟩
    exact ⟨books_of_workers rfl (Roster.new (le_max_left ..)), endedHave_start rfl⟩
  · rintro s e t h ⟨hok, hl, ht⟩
    exact h.next hok hl ht

/-! ### The counters -/

/-- The workers whose tables have not been cleared. -/
def remaining (s : Pool) : List (CellServer WorkerLoop) :=
  s.server.cellServers.filter fun c => decide (c.poller.status ≠ .ended)

/-- Every client ever accepted is held by one remaining worker or was reported as left, and
only once; the counters say how many are held and how many have joined. -/
structure Accounts (s : Pool) : Prop where
  ledger : (s.remaining.flatMap CellServer.held ++ s.server.net.left).Perm
    (List.range s.server.net.heap.next)
  accepted : s.server.net.clientAccept = (s.remaining.flatMap CellServer.held).length
  joined : s.server.net.clientJoin = (s.remaining.flatMap CellServer.joined).length

theorem flatMap_filter_of_nil {α β : Type*} {p : α → Bool} {f : α → List β} {l : List α}
    (h : ∀ x ∈ l, p x = false → f x = []) : (l.filter p).flatMap f = l.flatMap f := by
  induction l with
  | nil => rfl
  | cons x l ih =>
      have ih := ih fun y hy => h y (List.mem_cons_of_mem _ hy)
      rw [List.filter_cons]
      split
      · rw [List.flatMap_cons, List.flatMap_cons, ih]
      · next hx =>
          rw [List.flatMap_cons, h x List.mem_cons_self (eq_false_of_ne_true hx), ih]
          rfl

/-- Workers that have ended add nothing. -/
theorem Booked.flatMap_remaining (h : s.Booked) {f : CellServer WorkerLoop → List Ptr}
    (hf : ∀ c, c.load = 0 → f c = []) :
    s.remaining.flatMap f = s.server.cellServers.flatMap f := by
  apply flatMap_filter_of_nil
  intro c hc hst
  obtain ⟨i, hi⟩ := List.mem_iff_getElem?.mp hc
  exact hf c (h.ended i c ⟨hi, not_not.mp (of_decide_eq_false hst)⟩)

theorem seated_ptr (s : Pool) : s.server.seated.map Seat.ptr =
    s.server.cellServers.flatMap fun c => c.clients.entries.map Prod.snd := by
  rw [EasyTcpServer.seated, List.map_flatMap]
  congr 1
  funext c
  rw [CellServer.seats, List.map_map]
  rfl

theorem joined_of_load {c : CellServer WorkerLoop} (h : c.load = 0) : c.joined = [] := by
  rw [CellServer.joined, (CellServer.nil_of_load h).1, (CellServer.nil_of_load h).2.2]
  rfl

theorem Booked.accounts (h : s.Booked) : s.Accounts := by
  have hheld := h.flatMap_remaining (f := CellServer.held) fun c hc =>
    CellServer.held_eq_nil_iff.mpr hc
  have hjoined := h.flatMap_remaining (f := CellServer.joined) fun c hc => joined_of_load hc
  -- the lists of the roster, put together worker by worker
  have hm : (members s.server.seated s.server.waiting s.detached).Perm
      (s.server.cellServers.flatMap CellServer.held) := by
    rw [members, seated_ptr]
    exact ((List.flatMap_append_perm ..).append_right _).trans (List.flatMap_append_perm ..)
  have hj : (s.server.seated.map Seat.ptr ++ s.detached).Perm
      (s.server.cellServers.flatMap CellServer.joined) := by
    rw [seated_ptr]
    exact List.flatMap_append_perm ..
  have hmlen := hm.length_eq
  have hjlen := hj.length_eq
  simp only [members, List.length_append, List.length_map] at hmlen hjlen
  constructor
  · rw [hheld]
    exact (hm.symm.append_right _).trans h.books.ledger
  · rw [hheld, h.books.accepted]
    omega
  · rw [hjoined, h.books.joined]
    omega

/-! ### Capacity after a restart -/

/-- A connection that is admitted becomes a client of some worker. -/
theorem accpet_admits {cSock : SOCKET} (ha : s.server.Admits cSock)
    (hpos : 0 < s.server.cellServers.length) (sendBlock recvBlock : List UInt8) :
    ∃ t, s.next (.accpet cSock sendBlock recvBlock) = some t ∧ t.accepting = s.accepting ∧
      t.server.cellServers.length = s.server.cellServers.length ∧
      t.server.nMaxClient = s.server.nMaxClient ∧
      t.server.net.openSocks = cSock :: s.server.net.openSocks ∧
      t.server.net.clientAccept = s.server.net.clientAccept + 1 ∧
      t.server.net.heap.next = s.server.net.heap.next + 1 := by
  have hdef : ∃ u, s.server.accpet cSock sendBlock recvBlock = some u := by
    obtain ⟨i, hm, hi⟩ := EasyTcpServer.minServer_eq_some hpos
    have hb : (s.server.net.accept cSock).clientAccept < s.server.nMaxClient := ha.2
    rw [EasyTcpServer.accpet, if_neg ha.1]
    dsimp only
    rw [if_pos hb, EasyTcpServer.addClientToCellServer]
    dsimp only
    rw [hm, Option.bind_eq_bind, Option.bind_some, List.getElem?_eq_getElem hi]
    exact ⟨_, rfl⟩
  obtain ⟨u, hu⟩ := hdef
  refine ⟨{ s with server := u }, ?_, rfl, ?_⟩
  · rw [next, hu, Option.map_some]
  · rcases EasyTcpServer.accpet_cases hu with ⟨hna, -⟩ | ⟨-, c, i, -, rfl⟩
    · exact absurd ha hna
    · exact ⟨List.length_set, rfl, rfl, rfl, Heap.next_alloc ..⟩

/-- Any connections that the capacity has room for are admitted one after the other. -/
theorem accpet_all {conns : List (SOCKET × List UInt8 × List UInt8)} (hacc : s.accepting = true)
    (hpos : 0 < s.server.cellServers.length) (hn : (conns.map Prod.fst).Nodup)
    (hv : INVALID_SOCKET ∉ conns.map Prod.fst)
    (hf : ∀ fd ∈ conns.map Prod.fst, fd ∉ s.server.net.openSocks)
    (hroom : s.server.net.clientAccept + conns.length ≤ s.server.nMaxClient) :
    ∃ t, system.Path s (conns.map fun c => .accpet c.1 c.2.1 c.2.2) t ∧
      t.server.net.clientAccept = s.server.net.clientAccept + conns.length ∧
      t.server.net.heap.next = s.server.net.heap.next + conns.length := by
  induction conns generalizing s with
  | nil => exact ⟨s, .nil s, by simp, by simp⟩
  | cons c conns ih =>
      rw [List.map_cons] at hn hv hf
      rw [List.length_cons] at hroom
      obtain ⟨hne, hv⟩ := not_or.mp fun h => hv (List.mem_cons.mpr h)
      obtain ⟨hfresh, hn⟩ := List.nodup_cons.mp hn
      have ha : s.server.Admits c.1 := ⟨hne, by omega⟩
      obtain ⟨t, ht, hacc', hlen, hmax, hopen, hcount, hnext⟩ := accpet_admits ha hpos c.2.1 c.2.2
      have hl : s.Legal (.accpet c.1 c.2.1 c.2.2) := ⟨hacc, hf c.1 List.mem_cons_self⟩
      obtain ⟨u, hu, huc, hun⟩ := ih (hacc'.trans hacc) (hlen ▸ hpos) hn hv (fun fd hfd => by
          rw [hopen, List.mem_cons, not_or]
          exact ⟨fun he => hfresh (he ▸ hfd), hf fd (List.mem_cons_of_mem _ hfd)⟩)
        (by rw [hcount, hmax]; omega)
      refine ⟨u, .cons ⟨hl, ht⟩ hu, ?_, ?_⟩
      · rw [huc, hcount, List.length_cons]
        omega
      · rw [hun, hnext, List.length_cons]
        omega

theorem Booked.closed (h : s.Booked) (hl : s.Legal .close) :
    s.server.net.clientAccept = 0 ∧ s.server.net.openSocks = [] := by
  have hr := h.books.empty (h.load_of_closing hl.2)
  refine ⟨hr.accepted, List.eq_nil_iff_forall_not_mem.mpr fun fd hfd => ?_⟩
  obtain ⟨-, p, hp⟩ := (hr.opens fd).mp hfd
  exact List.not_mem_nil ((hr.live p).mpr ⟨fd, hp⟩)

/-! ### The end of a loop -/

theorem clear_left {i : ℕ} (ht : s.next (.clear i) = some t) :
    t.server.net.left = s.server.net.left ∧
      t.server.net.clientAccept = s.server.net.clientAccept := by
  obtain ⟨d, w, hd, hw, rfl⟩ := onWorker_cases ht
  obtain ⟨-, -, -, -, ha, hleft⟩ := Worker.clear_spec hw
  exact ⟨hleft, ha⟩

/-- What the worker held is not with a remaining worker any more. -/
theorem clear_held {i : ℕ} {c : CellServer WorkerLoop} (hi : s.Has i .exiting c)
    (ht : s.next (.clear i) = some t) :
    (s.remaining.flatMap CellServer.held).Perm
      (c.held ++ t.remaining.flatMap CellServer.held) := by
  obtain ⟨d, w, hd, hw, rfl⟩ := onWorker_cases ht
  obtain rfl := Option.some.inj (hi.1.symm.trans hd)
  obtain ⟨-, -, hended, -⟩ := Worker.clear_spec hw
  obtain ⟨l, r, hs, hset⟩ := EasyTcpServer.split_at hi.1
  simp only [remaining]
  rw [hset, hs, List.filter_append, List.filter_append, List.filter_cons, List.filter_cons,
    if_pos (by rw [hi.2]; rfl), if_neg (by rw [hended]; decide), List.flatMap_append,
    List.flatMap_append, List.flatMap_cons]
  exact List.perm_append_comm_assoc ..

/-- The clients of a worker that clears its tables are reported only if there are none. -/
theorem Booked.clear_iff (h : s.Booked) {i : ℕ} {c : CellServer WorkerLoop}
    (hi : s.Has i .exiting c) (ht : s.next (.clear i) = some t) :
    ((∀ p ∈ c.held, t.server.net.left.count p = 1) ↔ c.load = 0) ∧
      (t.Accounts ↔ c.load = 0) := by
  have hacc := h.accounts
  obtain ⟨hleft, hcount⟩ := clear_left ht
  have hheld := clear_held hi ht
  refine ⟨⟨fun hall => ?_, fun hz => ?_⟩, fun hta => ?_, fun hz => ?_⟩
  · rw [← CellServer.held_eq_nil_iff]
    refine List.eq_nil_iff_forall_not_mem.mpr fun p hp => ?_
    have hin := hheld.mem_iff.mpr (List.mem_append_left _ hp)
    have hnot : p ∉ s.server.net.left := fun hl =>
      List.disjoint_of_nodup_append (hacc.ledger.symm.nodup List.nodup_range) hin hl
    have hone := hall p hp
    rw [hleft, List.count_eq_zero.mpr hnot] at hone
    cases hone
  · rw [CellServer.held_eq_nil_iff.mpr hz]
    exact nofun
  · have h₁ := hacc.accepted
    have h₂ := hta.accepted
    have hlen := hheld.length_eq
    rw [List.length_append, CellServer.length_held] at hlen
    omega
  · refine (h.next (e := .clear i) ?_ ⟨c, hi⟩ ht).accounts
    intro d hd
    rwa [Option.some.inj (hd.symm.trans hi.1)]

/-- Where nobody is with a worker that clears its tables or has ended, the counters are right in
every state, and a server that was closed and started again admits as many clients as it is made
for. The tables of a worker with clients cannot be cleared without losing count of them. -/
theorem accounts_balance {s : Pool} (hs : (system.guard LeavesNone).Reachable s) :
    s.Accounts ∧
    (∀ t i c, s.Has i .exiting c → s.next (.clear i) = some t →
      ((∀ p ∈ c.held, t.server.net.left.count p = 1) ↔ c.load = 0) ∧
        (t.Accounts ↔ c.load = 0)) ∧
    (s.Legal .close →
      ∀ (nCellServer : ℕ) (oldTime : ℕ → ℤ) (conns : List (SOCKET × List UInt8 × List UInt8)),
        0 < nCellServer → (conns.map Prod.fst).Nodup → INVALID_SOCKET ∉ conns.map Prod.fst →
        (conns.length : ℤ) ≤ s.server.nMaxClient →
        ∃ t, system.Path s (.close :: .start nCellServer oldTime ::
            conns.map fun c => .accpet c.1 c.2.1 c.2.2) t ∧
          t.server.net.clientAccept = conns.length ∧
          t.server.net.heap.next = s.server.net.heap.next + conns.length) := by
  refine ⟨(booked_of_reachable hs).accounts,
    fun t i c hi ht => (booked_of_reachable hs).clear_iff hi ht,
    fun hl nCellServer oldTime conns hpos hn hv hroom => ?_⟩
  obtain ⟨hzero, hsocks⟩ := (booked_of_reachable hs).closed hl
  generalize hu : ({ server := { s.server with cellServers := workers nCellServer oldTime }
                     accepting := true } : Pool) = u
  have hlen : u.server.cellServers.length = nCellServer := by
    rw [← hu]
    exact (List.length_map _).trans List.length_range
  obtain ⟨t, ht, hcount, hnext⟩ := accpet_all (s := u) (by rw [← hu])
    (hlen ▸ hpos) hn hv (fun fd _ => by rw [← hu]; exact hsocks ▸ List.not_mem_nil)
    (by rw [← hu]; dsimp only; omega)
  refine ⟨t, .cons ⟨hl, rfl⟩ (.cons ⟨⟨hl.1, rfl⟩, congrArg some hu⟩ ht), ?_, ?_⟩
  · rw [hcount, ← hu]
    dsimp only
    omega
  · rw [hnext, ← hu]

/-- The only worker of a server for one client has taken it up. -/
def oneSeated : Pool := ((small 1 1).after (connection 5)).after (.drain 0)

/-- The client leaves, the accepting thread ends, then the loop of the worker. -/
def oneLeft : Pool :=
  (((oneSeated.after (.leave 0 5)).after .stopAccept).after (.exit 0)).after (.clear 0)

theorem oneLeft_reachable : (system.guard LeavesNone).Reachable oneLeft := by
  have h₀ : (system.guard LeavesNone).Reachable (small 1 1) := .init ⟨1, 8, 8, 1, fun _ => 0, rfl⟩
  have h₁ := guarded_after h₀ (e := connection 5)
    (fun _ => (fewestRuns_small Nat.zero_lt_one 1).not_ended) ⟨rfl, List.not_mem_nil⟩ rfl
  have h₂ := guarded_after h₁ (e := .drain 0) trivial ⟨_, rfl, rfl⟩ rfl
  have h₃ := guarded_after h₂ (e := .leave 0 5) trivial ⟨_, _, ⟨rfl, rfl⟩, rfl⟩ rfl
  have h₄ := guarded_after h₃ (e := .stopAccept) trivial rfl rfl
  have h₅ := guarded_after h₄ (e := .exit 0) trivial ⟨_, rfl, rfl⟩ rfl
  exact guarded_after h₅ (e := .clear 0) (fun c hc => Option.some.inj hc ▸ rfl) ⟨_, rfl, rfl⟩ rfl

/-- Then the server counts nobody, and closed and started again it admits a client. -/
theorem accounts_balance_closed :
    oneLeft.Accounts ∧ oneLeft.server.net.left = [0] ∧ oneLeft.Legal .close ∧
    ∃ t, system.Path oneLeft [.close, .start 1 fun _ => 0, connection 6] t ∧
      t.server.net.clientAccept = 1 := by
  have hl : oneLeft.Legal .close := ⟨rfl, fun c hc => (List.mem_singleton.mp hc) ▸ rfl⟩
  obtain ⟨haccounts, -, hagain⟩ := accounts_balance oneLeft_reachable
  obtain ⟨t, ht, hcount, -⟩ := hagain hl 1 (fun _ => 0)
    [(6, List.replicate 8 0, List.replicate 8 0)] Nat.zero_lt_one (List.nodup_singleton _)
    (by decide) (by decide)
  exact ⟨haccounts, rfl, hl, t, ht, hcount⟩

/-- The poll of a worker with a client fails. -/
def oneExiting : Pool := oneSeated.after (.exit 0)

theorem oneExiting_reachable : system.Reachable oneExiting := by
  have h₁ := reachable_after (small_reachable 1 1) (e := connection 5)
    ⟨rfl, List.not_mem_nil⟩ rfl
  have h₂ := reachable_after h₁ (e := .drain 0) ⟨_, rfl, rfl⟩ rfl
  exact reachable_after h₂ (e := .exit 0) ⟨_, rfl, rfl⟩ rfl

/-- The client of that worker is deleted, but not reported, and its place is lost: the server
turns down the first connection after it was closed and started again. -/
theorem accounts_unbalanced :
    (∃ c, oneExiting.Has 0 .exiting c ∧ c.held = [0]) ∧
    (oneExiting.after (.clear 0)).server.net.left = [] ∧
    ∃ s, system.Reachable s ∧ s.Legal (connection 6) ∧ s.remaining.flatMap CellServer.held = [] ∧
      s.server.nMaxClient = 1 ∧ s.server.net.clientAccept = 1 ∧ ¬ s.server.Admits 6 := by
  have h₁ := reachable_after oneExiting_reachable (e := .clear 0) ⟨_, rfl, rfl⟩ rfl
  have h₂ := reachable_after h₁ (e := .stopAccept) rfl rfl
  have h₃ := reachable_after h₂ (e := .close) ⟨rfl, fun c hc => List.mem_singleton.mp hc ▸ rfl⟩ rfl
  have h₄ := reachable_after h₃ (e := .start 1 fun _ => 0) ⟨rfl, rfl⟩ rfl
  exact ⟨⟨_, ⟨rfl, rfl⟩, rfl⟩, rfl, _, h₄, ⟨rfl, List.not_mem_nil⟩, rfl, rfl, rfl,
    fun ha => absurd ha.2 (by decide)⟩

end Pool

end CellNet
