import CellNet.Verification.Pool.Semantics

/-! Who gets an accepted client, and how many clients a worker can come to hold. -/

namespace CellNet

open Library

namespace Pool

variable {s t : Pool}

/-! ### Capacity -/

/-- A worker's part of the clients, rounded up. -/
def share (nMaxClient : ℤ) (nCellServer : ℕ) : ℤ := nMaxClient.tdiv nCellServer + 1

/-- The tables have room for their clients: what all workers hold is counted in
`_clientAccept`, and no worker holds more than its share. -/
structure Sized (s : Pool) : Prop where
  total : (((s.server.cellServers.map CellServer.load).sum : ℕ) : ℤ) ≤ s.server.net.clientAccept
  each : ∀ c ∈ s.server.cellServers,
    (c.getClientCount : ℤ) ≤ share s.server.nMaxClient s.server.cellServers.length

/-- A step of a worker takes no client in, and takes none out without counting it. -/
structure Shrinks (w w' : Worker WorkerLoop) : Prop where
  count : w'.2.getClientCount ≤ w.2.getClientCount
  load : (w'.2.load : ℤ) - w'.1.clientAccept ≤ w.2.load - w.1.clientAccept

theorem Sized.onWorker (h : s.Sized) {i : ℕ}
    {f : Worker WorkerLoop → Option (Worker WorkerLoop)} (ht : s.onWorker i f = some t)
    (hf : ∀ c w, s.server.cellServers[i]? = some c → f (s.server.net, c) = some w →
      Shrinks (s.server.net, c) w) : t.Sized := by
  obtain ⟨c, w, hc, hw, rfl⟩ := onWorker_cases ht
  obtain ⟨hcount, hload⟩ := hf c w hc hw
  have hsum := sum_map_set hc CellServer.load w.2
  constructor
  · have := h.total
    dsimp only at hload ⊢
    omega
  · intro d hd
    dsimp only at hd ⊢
    rw [List.length_set]
    rcases List.mem_or_eq_of_mem_set hd with hd | rfl
    · exact h.each d hd
    · have := h.each c (List.mem_of_getElem? hc)
      dsimp only at hcount
      omega

/-- The worker with the fewest clients has room for one more. -/
theorem Sized.room (h : s.Sized) {c : CellServer WorkerLoop} {i : ℕ}
    (hc : IsFirstLeast CellServer.getClientCount s.server.cellServers (c, i))
    (hn : s.server.net.clientAccept < s.server.nMaxClient) :
    (c.getClientCount : ℤ) + 1 ≤
      share s.server.nMaxClient s.server.cellServers.length := by
  have hmul := hc.length_mul_le
  have hle : (s.server.cellServers.map CellServer.getClientCount).sum ≤
      (s.server.cellServers.map CellServer.load).sum :=
    List.sum_le_sum fun c _ => Nat.le_add_right _ _
  have htot := h.total
  have hpos : 0 < s.server.cellServers.length :=
    Nat.zero_lt_of_lt (List.getElem?_eq_some_iff.mp hc.mem).1
  have hmax : (s.server.cellServers.length : ℤ) * c.getClientCount ≤ s.server.nMaxClient := by
    have hcast : ((s.server.cellServers.length * c.getClientCount : ℕ) : ℤ) ≤
        s.server.net.clientAccept := by
      dsimp only at hmul
      omega
    rw [Nat.cast_mul] at hcast
    omega
  have hq : (c.getClientCount : ℤ) ≤ s.server.nMaxClient / s.server.cellServers.length := by
    rw [Int.le_ediv_iff_mul_le (by omega), Int.mul_comm]
    exact hmax
  have hnonneg : 0 ≤ s.server.nMaxClient := by
    have := Nat.zero_le (s.server.cellServers.map CellServer.load).sum
    omega
  rw [share, Int.tdiv_eq_ediv_of_nonneg hnonneg]
  omega

theorem shrinks_of_sizes {w w' : Worker WorkerLoop}
    (hc : w'.2.clients.size + w'.2.clientsBuff.length ≤
      w.2.clients.size + w.2.clientsBuff.length)
    (hl : ((w'.2.clients.size + w'.2.clientsBuff.length + w'.2.poller.detached.length : ℕ) : ℤ) -
        w'.1.clientAccept ≤
      (w.2.clients.size + w.2.clientsBuff.length + w.2.poller.detached.length : ℕ) -
        w.1.clientAccept) : Shrinks w w' :=
  ⟨hc, hl⟩

theorem share_pos {nMaxClient : ℤ} (hn : 0 ≤ nMaxClient) (nCellServer : ℕ) :
    0 < share nMaxClient nCellServer := by
  have hq : 0 ≤ nMaxClient / (nCellServer : ℤ) :=
    Int.ediv_nonneg hn (Int.natCast_nonneg nCellServer)
  rw [share, Int.tdiv_eq_ediv_of_nonneg hn]
  omega

/-- Started servers hold no client. -/
theorem load_workers {nCellServer : ℕ} {oldTime : ℕ → ℤ} {c : CellServer WorkerLoop}
    (hc : c ∈ workers nCellServer oldTime) : c.load = 0 := by
  obtain ⟨n, -, rfl⟩ := List.mem_map.mp hc
  rfl

theorem Sized.of_workers {nCellServer : ℕ} {oldTime : ℕ → ℤ}
    (hs : s.server.cellServers = workers nCellServer oldTime)
    (ha : 0 ≤ s.server.net.clientAccept) (hn : 0 ≤ s.server.nMaxClient) : s.Sized := by
  constructor
  · have hz : (s.server.cellServers.map CellServer.load).sum = 0 := by
      rw [List.sum_eq_zero_iff, hs]
      intro n hm
      obtain ⟨c, hc, rfl⟩ := List.mem_map.mp hm
      exact load_workers hc
    omega
  · intro c hc
    rw [hs] at hc
    have hl := load_workers hc
    have hm := share_pos hn s.server.cellServers.length
    rw [CellServer.load] at hl
    omega

theorem Sized.accpet (h : s.Sized) {cSock : SOCKET} {sendBlock recvBlock : List UInt8}
    {u : EasyTcpServer WorkerLoop Unit}
    (hu : s.server.accpet cSock sendBlock recvBlock = some u) : Sized { s with server := u } := by
  rcases EasyTcpServer.accpet_cases hu with ⟨-, rfl | rfl⟩ | ⟨ha, c, i, hc, rfl⟩
  · exact h
  · exact ⟨h.total, h.each⟩
  · have hsum := sum_map_set hc.mem CellServer.load (c.addClient s.server.net.heap.next)
    have hadd : (c.addClient s.server.net.heap.next).getClientCount =
        c.getClientCount + 1 := by
      simp only [CellServer.getClientCount, CellServer.addClient, List.length_append,
        List.length_singleton]
      omega
    have hload : (c.addClient s.server.net.heap.next).load = c.load + 1 := by
      rw [CellServer.load, hadd, CellServer.load]
      simp only [CellServer.addClient]
      omega
    constructor
    · have := h.total
      dsimp only [Net.newClient, Net.accept] at hsum ⊢
      omega
    · intro d hd
      dsimp only at hd ⊢
      rw [List.length_set]
      rcases List.mem_or_eq_of_mem_set hd with hd | rfl
      · exact h.each d hd
      · have := h.room hc ha.2
        rw [hadd]
        omega

theorem Sized.next (h : s.Sized) {e : PoolEvent} (hl : s.Legal e) (ht : s.next e = some t)
    (hn : 0 ≤ s.server.nMaxClient) : t.Sized := by
  cases e with
  | accpet cSock sendBlock recvBlock =>
      obtain ⟨u, hu, rfl⟩ := Option.map_eq_some_iff.mp ht
      exact h.accpet hu
  | drain i =>
      apply h.onWorker ht
      intro c w _ hw
      obtain ⟨hb, hp, hs, ha⟩ := Worker.drain_spec hw
      apply shrinks_of_sizes
      · rw [hb, List.length_nil]
        exact hs
      · rw [hb, hp, ha, List.length_nil]
        dsimp only at hs ⊢
        omega
  | leave i k =>
      apply h.onWorker ht
      intro c w _ hw
      obtain ⟨hb, hp, hs, ha⟩ := Worker.leave_spec hw
      apply shrinks_of_sizes
      · rw [hb]
        omega
      · rw [hb, hp, ha]
        dsimp only at hs ⊢
        omega
  | detach i k =>
      apply h.onWorker ht
      intro c w _ hw
      obtain ⟨hb, -, hs, hd, ha⟩ := Worker.detach_spec hw
      apply shrinks_of_sizes
      · rw [hb]
        omega
      · rw [hb, hd, ha]
        dsimp only at hs ⊢
        omega
  | leaveDetached i p =>
      obtain ⟨d, hd, hp⟩ := hl
      apply h.onWorker ht
      intro c w hc hw
      obtain rfl := Option.some.inj (hd.1.symm.trans hc)
      obtain ⟨hb, -, hs, hlen, ha⟩ := Worker.leaveDetached_spec hp hw
      apply shrinks_of_sizes
      · rw [hb, hs]
      · rw [hb, hs, ha]
        dsimp only at hlen ⊢
        omega
  | exit i =>
      apply h.onWorker ht
      intro c w _ hw
      obtain rfl := Option.some.inj hw
      exact ⟨Nat.le_refl _, Int.le_refl _⟩
  | clear i =>
      apply h.onWorker ht
      intro c w _ hw
      obtain ⟨hb, hs, -, hd, ha, -⟩ := Worker.clear_spec hw
      apply shrinks_of_sizes
      · rw [hb, hs]
        exact Nat.zero_le _
      · rw [hb, hs, hd, ha]
        simp only [OrderedMap.size, OrderedMap.empty, List.length_nil]
        omega
  | stopAccept =>
      obtain rfl := Option.some.inj ht
      exact ⟨h.total, h.each⟩
  | close =>
      obtain rfl := Option.some.inj ht
      constructor
      · have := h.total
        simp only [List.map_nil, List.sum_nil]
        omega
      · intro c hc
        cases hc
  | start nCellServer oldTime =>
      obtain rfl := Option.some.inj ht
      have := h.total
      exact .of_workers rfl (by dsimp only; omega) hn

/-- The maximum is fixed when the server is built. -/
theorem nMaxClient_next {e : PoolEvent} (ht : s.next e = some t) :
    t.server.nMaxClient = s.server.nMaxClient := by
  cases e with
  | accpet cSock sendBlock recvBlock =>
      obtain ⟨u, hu, rfl⟩ := Option.map_eq_some_iff.mp ht
      rcases EasyTcpServer.accpet_cases hu with ⟨-, rfl | rfl⟩ | ⟨-, c, i, -, rfl⟩ <;> rfl
  | stopAccept | close | start _ _ =>
      obtain rfl := Option.some.inj ht
      rfl
  | _ =>
      obtain ⟨c, w, -, -, rfl⟩ := onWorker_cases ht
      rfl

theorem sized_of_reachable (hs : system.Reachable s) (hn : 0 ≤ s.server.nMaxClient) :
    s.Sized := by
  have hi : system.Invariant fun s => 0 ≤ s.server.nMaxClient → s.Sized := by
    constructor
    · rintro s ⟨nCellServer, nSend, nRecv, nMax, oldTime, rfl⟩ hn
      exact .of_workers rfl (Int.le_refl 0) hn
    · intro s e t h hstep hn
      rw [nMaxClient_next hstep.2] at hn
      exact (h hn).next hstep.1 hstep.2 hn
  exact hi.reachable hs hn

/-- The sum in the argument of `setClientNum` overflows for one worker and the largest `int`. -/
def Overflows (nMaxClient : ℤ) (nCellServer : ℕ) : Prop :=
  nMaxClient = 2147483647 ∧ nCellServer = 1

instance (nMaxClient : ℤ) (nCellServer : ℕ) : Decidable (Overflows nMaxClient nCellServer) :=
  inferInstanceAs (Decidable (_ ∧ _))

theorem clientNum_eq {nMaxClient : ℤ} {nCellServer : ℕ} (hn : 0 ≤ nMaxClient)
    (hm : nMaxClient ≤ 2147483647) (h : ¬ Overflows nMaxClient nCellServer) :
    clientNum nMaxClient nCellServer = share nMaxClient nCellServer := by
  have hq : 0 ≤ nMaxClient / (nCellServer : ℤ) :=
    Int.ediv_nonneg hn (Int.natCast_nonneg nCellServer)
  have hlt : nMaxClient / (nCellServer : ℤ) < 2147483647 := by
    rcases Nat.lt_trichotomy nCellServer 1 with hk | rfl | hk
    · obtain rfl : nCellServer = 0 := by omega
      rw [Nat.cast_zero, Int.ediv_zero]
      decide
    · have hne : nMaxClient ≠ 2147483647 := fun he => h ⟨he, rfl⟩
      rw [Nat.cast_one, Int.ediv_one]
      omega
    · apply Int.ediv_lt_of_lt_mul (by omega)
      have hmul : 2147483647 * 2 ≤ 2147483647 * (nCellServer : ℤ) :=
        Int.mul_le_mul_of_nonneg_left (by omega) (by decide)
      omega
  rw [clientNum, share, Int.tdiv_eq_ediv_of_nonneg hn]
  exact wrap32_eq (by omega) (by omega)

/-- However accepts, drains and departures are ordered, no worker ever holds more clients than
`Start` set it up for, unless the sum that `Start` computes overflows. -/
theorem capacity_of_workers (hs : system.Reachable s) (hn : 0 ≤ s.server.nMaxClient)
    (hm : s.server.nMaxClient ≤ 2147483647) :
    (∀ c ∈ s.server.cellServers,
      (c.getClientCount : ℤ) ≤ clientNum s.server.nMaxClient s.server.cellServers.length) ↔
    ¬ Overflows s.server.nMaxClient s.server.cellServers.length := by
  constructor
  · rintro hall ⟨hmax, hone⟩
    obtain ⟨c, hc⟩ := List.exists_mem_of_length_pos (hone ▸ Nat.zero_lt_one)
    have hle := hall c hc
    rw [hmax, hone] at hle
    have hneg : clientNum 2147483647 1 < 0 := by decide
    omega
  · intro h c hc
    rw [clientNum_eq hn hm h]
    exact (sized_of_reachable hs hn).each c hc

/-- Two workers, set up for two clients each: the first has taken its client up, a second one
waits for the other, and the first client has left. -/
def twoServed : Pool :=
  ((((small 2 3).after (connection 5)).after (.drain 0)).after (connection 6)).after (.leave 0 5)

theorem twoServed_reachable : system.Reachable twoServed := by
  have h₁ := reachable_after (small_reachable 2 3) (e := connection 5)
    ⟨rfl, List.not_mem_nil⟩ rfl
  have h₂ := reachable_after h₁ (e := .drain 0) ⟨_, rfl, rfl⟩ rfl
  have h₃ := reachable_after h₂ (e := connection 6) ⟨rfl, by decide⟩ rfl
  exact reachable_after h₃ (e := .leave 0 5) ⟨_, _, ⟨rfl, rfl⟩, rfl⟩ rfl

theorem capacity_of_two_workers :
    twoServed.server.cellServers.map CellServer.getClientCount = [0, 1] ∧
    ∀ c ∈ twoServed.server.cellServers, (c.getClientCount : ℤ) ≤ clientNum 3 2 :=
  ⟨rfl, (capacity_of_workers twoServed_reachable (by decide) (by decide)).mpr (by decide)⟩

/-- `setClientNum(-2147483648)`: a worker without any client has too many. -/
theorem capacity_overflows : ∃ s, system.Reachable s ∧ s.server.nMaxClient = 2147483647 ∧
    ∃ c ∈ s.server.cellServers,
      clientNum s.server.nMaxClient s.server.cellServers.length = -2147483648 ∧
      ¬ (c.getClientCount : ℤ) ≤
        clientNum s.server.nMaxClient s.server.cellServers.length :=
  ⟨small 1 2147483647, small_reachable 1 2147483647, rfl, _, List.mem_singleton_self _,
    by decide, by decide⟩

/-! ### Which worker gets the client -/

/-- The new client waits in the buffer of the worker `i`. -/
def GivenTo (s t : Pool) (i : ℕ) : Prop :=
  ∃ c, s.server.cellServers[i]? = some c ∧
    t.server.cellServers[i]? = some (c.addClient s.server.net.heap.next)

/-- Some worker of this status holds fewer clients than each worker of another status, or as
many and stands before it. -/
def Fewest (s : Pool) (ok : LoopStatus → Prop) : Prop :=
  ∃ (i : ℕ) (c : CellServer WorkerLoop), s.server.cellServers[i]? = some c ∧ ok c.poller.status ∧
    ∀ (j : ℕ) (d : CellServer WorkerLoop), s.server.cellServers[j]? = some d →
      ¬ ok d.poller.status →
        c.getClientCount < d.getClientCount ∨ c.getClientCount = d.getClientCount ∧ i < j

/-- Among the workers with the fewest clients, one that runs comes first. -/
def FewestRuns (s : Pool) : Prop := s.Fewest (· = .running)

theorem addClient_ne {c : CellServer WorkerLoop} {p : Ptr} : c.addClient p ≠ c := by
  intro h
  have hb := congrArg (fun c => c.clientsBuff.length) h
  simp [CellServer.addClient] at hb

theorem Fewest.mono {ok ok' : LoopStatus → Prop} (hk : ∀ st, ok st → ok' st) (h : s.Fewest ok) :
    s.Fewest ok' := by
  obtain ⟨i, c, hc, hst, hbest⟩ := h
  exact ⟨i, c, hc, hk _ hst, fun j d hd hn => hbest j d hd fun hst' => hn (hk _ hst')⟩

theorem FewestRuns.not_ended (h : s.FewestRuns) : s.Fewest (· ≠ .ended) :=
  h.mono fun st hst => by rw [hst]; exact LoopStatus.noConfusion

/-- The worker that gets the client is the first of those with the fewest. -/
theorem givenTo_iff {cSock : SOCKET} {sendBlock recvBlock : List UInt8}
    (ht : s.next (.accpet cSock sendBlock recvBlock) = some t) (ha : s.server.Admits cSock)
    (i : ℕ) : GivenTo s t i ↔
      ∃ c, IsFirstLeast CellServer.getClientCount s.server.cellServers (c, i) := by
  obtain ⟨u, hu, rfl⟩ := Option.map_eq_some_iff.mp ht
  rcases EasyTcpServer.accpet_cases hu with ⟨hna, -⟩ | ⟨-, c, j, hc, rfl⟩
  · exact absurd ha hna
  have hlt : j < s.server.cellServers.length := (List.getElem?_eq_some_iff.mp hc.mem).1
  constructor
  · rintro ⟨d, hd, hgiven⟩
    dsimp only at hgiven
    by_cases hij : j = i
    · exact ⟨c, hij ▸ hc⟩
    · rw [List.getElem?_set_ne hij, hd] at hgiven
      exact absurd (Option.some.inj hgiven).symm addClient_ne
  · rintro ⟨d, hd⟩
    obtain rfl : j = i := hc.unique hd
    exact ⟨c, hc.mem, List.getElem?_set_self hlt⟩

theorem givenTo_fewest_iff {cSock : SOCKET} {sendBlock recvBlock : List UInt8}
    (ht : s.next (.accpet cSock sendBlock recvBlock) = some t) (ha : s.server.Admits cSock)
    (ok : LoopStatus → Prop) :
    (∃ i c, s.server.cellServers[i]? = some c ∧ ok c.poller.status ∧ GivenTo s t i) ↔
      s.Fewest ok := by
  constructor
  · rintro ⟨i, c, hc, hok, hgiven⟩
    obtain ⟨d, hd⟩ := (givenTo_iff ht ha i).mp hgiven
    obtain rfl := Option.some.inj (hd.mem.symm.trans hc)
    refine ⟨i, d, hc, hok, fun j e he hn => ?_⟩
    have hle := hd.le j e he
    have hlt := hd.lt j e he
    have hij : i ≠ j := by
      rintro rfl
      obtain rfl := Option.some.inj (hc.symm.trans he)
      exact hn hok
    dsimp only at hle hlt
    omega
  · rintro ⟨i, c, hc, hok, hbest⟩
    obtain ⟨u, hu, -⟩ := Option.map_eq_some_iff.mp ht
    rcases EasyTcpServer.accpet_cases hu with ⟨hna, -⟩ | ⟨-, d, j, hd, -⟩
    · exact absurd ha hna
    refine ⟨j, d, hd.mem, ?_, (givenTo_iff ht ha j).mpr ⟨d, hd⟩⟩
    by_contra hn
    have hb := hbest j d hd.mem hn
    have hle := hd.le i c hc
    have hlt := hd.lt i c hc
    dsimp only at hle hlt
    omega

/-! ### The workers that have ended -/

/-- What is known of each worker that has ended. -/
def EndedHave (Q : CellServer WorkerLoop → Prop) (s : Pool) : Prop :=
  ∀ i c, s.Has i .ended c → Q c

variable {Q : CellServer WorkerLoop → Prop}

theorem endedHave_start {nCellServer : ℕ} {oldTime : ℕ → ℤ}
    (hs : s.server.cellServers = workers nCellServer oldTime) : s.EndedHave Q := by
  rintro i c ⟨hc, hstatus⟩
  rw [hs] at hc
  obtain ⟨n, -, rfl⟩ := List.mem_map.mp (List.mem_of_getElem? hc)
  cases hstatus

theorem EndedHave.onWorker (h : s.EndedHave Q) {i : ℕ}
    {f : Worker WorkerLoop → Option (Worker WorkerLoop)} (ht : s.onWorker i f = some t)
    (hf : ∀ c w, s.server.cellServers[i]? = some c → f (s.server.net, c) = some w →
      w.2.poller.status = .ended → Q w.2) : t.EndedHave Q := by
  obtain ⟨c, w, hc, hw, rfl⟩ := onWorker_cases ht
  rintro j d ⟨hd, hstatus⟩
  dsimp only at hd
  rcases getElem?_set_cases hd with ⟨rfl, rfl⟩ | ⟨-, hd⟩
  · exact hf c w hc hw hstatus
  · exact h j d ⟨hd, hstatus⟩

/-- A function of a running worker that does not end its loop concerns none that has ended. -/
theorem EndedHave.onRunning (h : s.EndedHave Q) {i : ℕ} {d : CellServer WorkerLoop}
    (hd : s.Has i .running d) {f : Worker WorkerLoop → Option (Worker WorkerLoop)}
    (ht : s.onWorker i f = some t)
    (hf : ∀ w, f (s.server.net, d) = some w → w.2.poller.status = d.poller.status) :
    t.EndedHave Q := by
  apply h.onWorker ht
  intro c w hc hw hstatus
  obtain rfl := Option.some.inj (hd.1.symm.trans hc)
  rw [hf w hw, hd.2] at hstatus
  cases hstatus

/-- Nor does a client that is turned down, or given to a worker that has not ended. -/
theorem EndedHave.accpet (h : s.EndedHave Q) {cSock : SOCKET} {sendBlock recvBlock : List UInt8}
    (ht : s.next (.accpet cSock sendBlock recvBlock) = some t)
    (hok : s.server.Admits cSock → s.Fewest (· ≠ .ended)) : t.EndedHave Q := by
  obtain ⟨u, hu, hut⟩ := Option.map_eq_some_iff.mp ht
  rcases EasyTcpServer.accpet_cases hu with ⟨-, rfl | rfl⟩ | ⟨ha, c, i, hc, rfl⟩
  · exact hut ▸ h
  · exact hut ▸ h
  · obtain ⟨k, d, hd, hrun, hgiven⟩ := (givenTo_fewest_iff ht ha _).mpr (hok ha)
    obtain ⟨e, he⟩ := (givenTo_iff ht ha k).mp hgiven
    obtain rfl : i = k := hc.unique he
    obtain rfl := Option.some.inj (hc.mem.symm.trans hd)
    obtain rfl := hut
    rintro j b ⟨hb, hstatus⟩
    dsimp only at hb
    rcases getElem?_set_cases hb with ⟨-, rfl⟩ | ⟨-, hb⟩
    · exact absurd hstatus hrun
    · exact h j b ⟨hb, hstatus⟩

theorem EndedHave.next (h : s.EndedHave Q) {e : PoolEvent} (hl : s.Legal e)
    (ht : s.next e = some t)
    (hok : ∀ cSock sendBlock recvBlock, e = .accpet cSock sendBlock recvBlock →
      s.server.Admits cSock → s.Fewest (· ≠ .ended))
    (hclear : ∀ i c w, e = .clear i → s.server.cellServers[i]? = some c →
      Worker.clear (s.server.net, c) = some w → Q w.2) : t.EndedHave Q := by
  cases e with
  | accpet cSock sendBlock recvBlock => exact h.accpet ht (hok _ _ _ rfl)
  | drain i =>
      obtain ⟨d, hd⟩ := hl
      exact h.onRunning hd ht fun w hw => by rw [(Worker.drain_spec hw).2.1]
  | leave i k =>
      obtain ⟨d, p, hd, -⟩ := hl
      exact h.onRunning hd ht fun w hw => by rw [(Worker.leave_spec hw).2.1]
  | detach i k =>
      obtain ⟨d, p, hd, -⟩ := hl
      exact h.onRunning hd ht fun w hw => (Worker.detach_spec hw).2.1
  | leaveDetached i p =>
      obtain ⟨d, hd, hp⟩ := hl
      exact h.onRunning hd ht fun w hw => (Worker.leaveDetached_spec hp hw).2.1
  | exit i =>
      apply h.onWorker ht
      intro c w hc hw hstatus
      obtain rfl := Option.some.inj hw
      cases hstatus
  | clear i => exact h.onWorker ht fun c w hc hw _ => hclear i c w rfl hc hw
  | stopAccept =>
      obtain rfl := Option.some.inj ht
      exact h
  | close =>
      obtain rfl := Option.some.inj ht
      rintro i c ⟨hc, -⟩
      cases hc
  | start nCellServer oldTime =>
      obtain rfl := Option.some.inj ht
      exact endedHave_start rfl

/-- Each client that is accepted finds a running worker with the fewest clients. -/
def AcceptsRunning (s : Pool) : PoolEvent → Prop
  | .accpet cSock _ _ => s.server.Admits cSock → s.FewestRuns
  | _ => True

/-- Nothing waits for a worker that has ended. -/
theorem drained_of_reachable (hs : (system.guard AcceptsRunning).Reachable s) :
    s.EndedHave fun c => c.clientsBuff = [] := by
  refine System.Invariant.reachable (P := EndedHave fun c => c.clientsBuff = []) ⟨?_, ?_⟩ hs
  · rintro s ⟨nCellServer, nSend, nRecv, nMax, oldTime, rfl⟩
    exact endedHave_start rfl
  · rintro s e t h ⟨hok, hl, ht⟩
    refine h.next hl ht ?_ fun i c w _ _ hw => (Worker.clear_spec hw).1
    rintro cSock sendBlock recvBlock rfl ha
    exact (hok ha).not_ended

/-- An accepted client is given to a worker whose loop runs exactly when one of those comes
first among the workers with the fewest clients; where that is so at every accept, no client is
left in the buffer of a worker that has ended. -/
theorem accepted_by_running (s : Pool) :
    (∀ t cSock sendBlock recvBlock, system.Reachable s →
      s.Legal (.accpet cSock sendBlock recvBlock) → s.server.Admits cSock →
      s.next (.accpet cSock sendBlock recvBlock) = some t →
      ((∃ i c, s.server.cellServers[i]? = some c ∧ c.poller.status = .running ∧
        GivenTo s t i) ↔ s.FewestRuns)) ∧
    ((system.guard AcceptsRunning).Reachable s →
      ∀ i c, s.Has i .ended c → c.clientsBuff = []) :=
  ⟨fun _ _ _ _ _ _ ha ht => givenTo_fewest_iff ht ha (· = .running), drained_of_reachable⟩

/-- While no loop has ended, the first with the fewest runs. -/
theorem FewestRuns.of_running (hpos : 0 < s.server.cellServers.length)
    (h : ∀ c ∈ s.server.cellServers, c.poller.status = .running) : s.FewestRuns := by
  obtain ⟨c, hc⟩ := List.exists_mem_of_length_pos hpos
  obtain ⟨i, hi⟩ := List.mem_iff_getElem?.mp hc
  exact ⟨i, c, hi, h c hc, fun j d hd hn => absurd (h d (List.mem_of_getElem? hd)) hn⟩

theorem fewestRuns_small {nCellServer : ℕ} (hpos : 0 < nCellServer) (nMaxClient : ℤ) :
    (small nCellServer nMaxClient).FewestRuns := by
  refine .of_running ?_ fun c hc => ?_
  · exact (List.length_map _).symm ▸ List.length_range.symm ▸ hpos
  · obtain ⟨n, -, rfl⟩ := List.mem_map.mp hc
    rfl

/-- The first of two workers has served a client, and the loop of the second one is over. -/
def secondEnded : Pool :=
  (((((small 2 3).after (connection 5)).after (.drain 0)).after (.leave 0 5)).after
    (.exit 1)).after (.clear 1)

theorem secondEnded_reachable : (system.guard AcceptsRunning).Reachable secondEnded := by
  have h₀ : (system.guard AcceptsRunning).Reachable (small 2 3) :=
    .init ⟨2, 8, 8, 3, fun _ => 0, rfl⟩
  have h₁ := guarded_after h₀ (e := connection 5) (fun _ => fewestRuns_small (by decide) 3)
    ⟨rfl, List.not_mem_nil⟩ rfl
  have h₂ := guarded_after h₁ (e := .drain 0) trivial ⟨_, rfl, rfl⟩ rfl
  have h₃ := guarded_after h₂ (e := .leave 0 5) trivial ⟨_, _, ⟨rfl, rfl⟩, rfl⟩ rfl
  have h₄ := guarded_after h₃ (e := .exit 1) trivial ⟨_, rfl, rfl⟩ rfl
  exact guarded_after h₄ (e := .clear 1) trivial ⟨_, rfl, rfl⟩ rfl

/-- The next client is given to the first worker, and nobody waits for the second. -/
theorem first_accepted_by_running : ∃ t, secondEnded.next (connection 6) = some t ∧
    (∃ c, t.Has 1 .ended c) ∧
    (∃ i c, secondEnded.server.cellServers[i]? = some c ∧ c.poller.status = .running ∧
      GivenTo secondEnded t i) ∧
    ∀ i c, t.Has i .ended c → c.clientsBuff = [] := by
  have hfew : secondEnded.FewestRuns := by
    refine ⟨0, _, rfl, rfl, fun j d hd _ => ?_⟩
    rcases j with _ | _ | j
    · obtain rfl := Option.some.inj hd
      contradiction
    · obtain rfl := Option.some.inj hd
      exact .inr ⟨rfl, Nat.zero_lt_one⟩
    · cases hd
  have hadm : secondEnded.server.Admits 6 := ⟨by decide, by decide⟩
  have hl : secondEnded.Legal (connection 6) := ⟨rfl, List.not_mem_nil⟩
  have hstep := guarded_after secondEnded_reachable (e := connection 6) (fun _ => hfew) hl rfl
  exact ⟨_, next_after rfl, ⟨_, rfl, rfl⟩, ((accepted_by_running _).1 _ _ _ _
    secondEnded_reachable.of_guard hl hadm (next_after rfl)).mpr hfew,
    (accepted_by_running _).2 hstep⟩

/-- The first of two workers takes up its client, its poll fails, and its tables are cleared. -/
def firstEnded : Pool :=
  ((((small 2 3).after (connection 5)).after (.drain 0)).after (.exit 0)).after (.clear 0)

theorem firstEnded_reachable : system.Reachable firstEnded := by
  have h₁ := reachable_after (small_reachable 2 3) (e := connection 5)
    ⟨rfl, List.not_mem_nil⟩ rfl
  have h₂ := reachable_after h₁ (e := .drain 0) ⟨_, rfl, rfl⟩ rfl
  have h₃ := reachable_after h₂ (e := .exit 0) ⟨_, rfl, rfl⟩ rfl
  exact reachable_after h₃ ⟨_, rfl, rfl⟩ rfl

/-- The next client is left in the buffer of the first worker, while the second one runs. -/
theorem accepted_by_ended : ∃ s t, system.Reachable s ∧ (∃ c, s.Has 0 .ended c) ∧
    (∃ c, s.Has 1 .running c) ∧ s.Legal (connection 6) ∧ s.server.Admits 6 ∧
    s.next (connection 6) = some t ∧ GivenTo s t 0 ∧
    ∃ c, t.Has 0 .ended c ∧ c.clientsBuff ≠ [] := by
  refine ⟨firstEnded, firstEnded.after (connection 6), firstEnded_reachable, ⟨_, rfl, rfl⟩,
    ⟨_, rfl, rfl⟩, ⟨rfl, List.not_mem_nil⟩, ⟨by decide, by decide⟩, next_after rfl,
    ⟨_, rfl, rfl⟩, _, ⟨rfl, rfl⟩, List.cons_ne_nil _ _⟩

end Pool

end CellNet
