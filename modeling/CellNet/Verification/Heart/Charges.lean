import CellNet.Verification.Heart.Semantics

/-! The time that a client is charged with. It runs from the last reading of its worker before its
silence, not from the beginning of its silence. -/

namespace CellNet

open Library Worker ServerLoops

variable {π σ : Type}

/-- The time of a client is that between the `_old_time` its silence began with and the one its
worker has now. -/
structure Worker.Charged (silences : Ptr → Silence) (w : Worker π) : Prop where
  waiting : ∀ p ∈ w.2.clientsBuff, ∀ d, w.1.heap.get? p = some d → d.dtHeart = 0
  seated : ∀ e ∈ w.2.clients.entries, ∀ d, w.1.heap.get? e.2 = some d →
    d.dtHeart = w.2.oldTime - (silences e.2).oldTime

namespace HeartRun

def Clocked (silences : Ptr → Silence) (s : ServerLoops π σ) : Prop :=
  ∀ (i : ℕ) (c : CellServer π), s.server.cellServers[i]? = some c →
    Charged silences (s.server.net, c)

variable {silences silences' : Ptr → Silence}

theorem mem_ptrs {c : CellServer π} {p : Ptr} :
    p ∈ c.ptrs ↔ (∃ k, (k, p) ∈ c.clients.entries) ∨ p ∈ c.clientsBuff := by
  simp [CellServer.ptrs]

theorem ptrs_of_entry {c : CellServer π} {e : SOCKET × Ptr} (he : e ∈ c.clients.entries) :
    e.2 ∈ c.ptrs :=
  mem_ptrs.mpr (.inl ⟨e.1, he⟩)

/-- Nothing has changed for the clients of the worker. -/
theorem charged_frame {n n' : Net} {c : CellServer π} (h : Charged silences (n, c))
    (hn : ∀ p ∈ c.ptrs, ∀ d, n'.heap.get? p = some d →
      ∃ d₀, n.heap.get? p = some d₀ ∧ d.dtHeart = d₀.dtHeart)
    (hs : ∀ p ∈ c.ptrs, silences' p = silences p) : Charged silences' (n', c) := by
  constructor
  case waiting =>
    intro p hp d hd
    obtain ⟨d₀, hd₀, ht⟩ := hn p (mem_ptrs.mpr (.inr hp)) d hd
    exact ht.trans (h.waiting p hp d₀ hd₀)
  case seated =>
    intro e he d hd
    obtain ⟨d₀, hd₀, ht⟩ := hn e.2 (ptrs_of_entry he) d hd
    rw [hs e.2 (ptrs_of_entry he)]
    exact ht.trans (h.seated e he d₀ hd₀)

/-- One worker has changed, and for the clients of the others nothing has. -/
theorem Clocked.put {s : ServerLoops π σ} (h : Clocked silences s) (ht : s.server.TablesOk)
    {i : ℕ} {c : CellServer π} (hi : s.server.cellServers[i]? = some c) {w : Worker π}
    (pc : LoopPc) (hw : Charged silences' w)
    (hn : ∀ p, p ∉ c.ptrs → ∀ d, w.1.heap.get? p = some d →
      ∃ d₀, s.server.net.heap.get? p = some d₀ ∧ d.dtHeart = d₀.dtHeart)
    (hs : ∀ p, p ∉ c.ptrs → silences' p = silences p) : Clocked silences' (s.put i w pc) := by
  intro j d hj
  rcases getElem?_set_cases hj with ⟨-, rfl⟩ | ⟨hji, hj⟩
  · exact hw
  · have hout : ∀ p ∈ d.ptrs, p ∉ c.ptrs := by
      intro p hp hq
      exact hji (ht.apart hj hi hp hq)
    exact charged_frame (h j d hj) (fun p hp => hn p (hout p hp)) fun p hp => hs p (hout p hp)

/-- The time of one client is kept, or it is reset when its silence begins. -/
theorem Clocked.touch {s : ServerLoops π σ} (h : Clocked silences s) (ht : s.server.TablesOk)
    {i : ℕ} {c : CellServer π} (hi : s.server.cellServers[i]? = some c) {p : Ptr}
    (hp : p ∈ c.ptrs) {d d' : CellClient} (hd : s.server.net.heap.get? p = some d) {n : Net}
    (hn : n.heap = s.server.net.heap.set p d') (hs : ∀ q, q ≠ p → silences' q = silences q)
    (hd' : d'.dtHeart = d.dtHeart ∧ silences' p = silences p ∨
      d'.dtHeart = 0 ∧ (silences' p).oldTime = c.oldTime) {j : ℕ} {c' : CellServer π}
    (hj : s.server.cellServers[j]? = some c') : Charged silences' (n, c') := by
  have hget : ∀ q, n.heap.get? q = if q = p then some d' else s.server.net.heap.get? q := by
    intro q
    rw [hn, Heap.get?_set hd]
  have hold := h j c' hj
  constructor
  case waiting =>
    intro q hq e he
    have he' := (hget q).symm.trans he
    split at he'
    · next hqp =>
        obtain rfl := Option.some.inj he'
        subst hqp
        rcases hd' with ⟨hsame, -⟩ | ⟨hzero, -⟩
        · exact hsame.trans (hold.waiting q hq d hd)
        · exact hzero
    · exact hold.waiting q hq e he'
  case seated =>
    intro f hf e he
    have he' := (hget f.2).symm.trans he
    split at he'
    · next hfp =>
        obtain rfl := Option.some.inj he'
        subst hfp
        rcases hd' with ⟨hsame, hsil⟩ | ⟨hzero, hold'⟩
        · rw [hsil]
          exact hsame.trans (hold.seated f hf d hd)
        · obtain rfl := ht.apart hi hj hp (ptrs_of_entry hf)
          obtain rfl := Option.some.inj (hi.symm.trans hj)
          rw [hzero, hold']
          exact (sub_self _).symm
    · next hfp =>
        rw [hs f.2 hfp]
        exact hold.seated f hf e he'

/-! ### The steps -/

section Steps

variable {t : ServerT} {onNetMsg : Handler σ} {resets : σ → CellClient → List UInt8 → Bool}
  {s : ServerLoops t.Poller σ} {i : ℕ} {c : CellServer t.Poller} {w : Worker t.Poller}
  {pc : LoopPc}

theorem Clocked.accpet (h : Clocked silences s) (ht : s.server.TablesOk) {cSock : SOCKET}
    {sendBlock recvBlock : List UInt8} {server : EasyTcpServer t.Poller σ}
    (ha : s.server.accpet cSock sendBlock recvBlock = some server) :
    Clocked silences { s with server := server } := by
  rcases EasyTcpServer.accpet_cases ha with ⟨-, rfl | rfl⟩ | ⟨-, c, i, hc, rfl⟩
  · exact h
  · exact fun i c hi => ⟨(h i c hi).waiting, (h i c hi).seated⟩
  · generalize hnew : s.server.newClient cSock sendBlock recvBlock = client
    have hzero : client.dtHeart = 0 := by
      rw [← hnew]
      rfl
    have hget : ∀ q, ((s.server.net.accept cSock).newClient client).heap.get? q =
        if q = s.server.net.heap.next then some client else s.server.net.heap.get? q :=
      Heap.get?_alloc s.server.net.heap client
    have hold : ∀ (j : ℕ) (d : CellServer t.Poller), s.server.cellServers[j]? = some d →
        Charged silences ((s.server.net.accept cSock).newClient client, d) := by
      intro j d hj
      apply charged_frame (h j d hj) _ fun _ _ => rfl
      intro p hp e he
      rw [hget, if_neg (Nat.ne_of_lt (ht.lt_next hj hp))] at he
      exact ⟨e, he, rfl⟩
    intro j d hj
    rcases getElem?_set_cases hj with ⟨-, rfl⟩ | ⟨-, hj⟩
    · obtain ⟨hwaiting, hseated⟩ := hold i c hc.mem
      refine ⟨?_, hseated⟩
      intro p hp e he
      rcases List.mem_append.mp hp with hp | hp
      · exact hwaiting p hp e he
      · obtain rfl := List.mem_singleton.mp hp
        rw [hget, if_pos rfl] at he
        obtain rfl := Option.some.inj he
        exact hzero
    · exact hold j d hj

/-- The clients that waited are charged from the last reading before they came. -/
theorem Clocked.drain (h : Clocked silences s) (ht : s.server.TablesOk)
    (hi : s.server.cellServers[i]? = some c) {w : Worker t.Poller}
    (hd : Worker.drain t.onClientJoin (s.server.net, c) = some w)
    (hin : ∀ p ∈ c.clientsBuff, (silences' p).oldTime = c.oldTime)
    (hout : ∀ p, p ∉ c.clientsBuff → silences' p = silences p) (pc : LoopPc) :
    Clocked silences' (s.put i w pc) := by
  have hdrained := t.drained hd
  have hkeep := hdrained.retains.view
  obtain ⟨hwaiting, hseated⟩ := h i c hi
  apply h.put ht hi pc
  · constructor
    case waiting =>
      intro p hp
      rw [hdrained.clientsBuff] at hp
      cases hp
    case seated =>
      intro e he d hd'
      obtain ⟨d₀, hd₀, hdt⟩ := hkeep e.2 d hd'
      rw [hdt, hdrained.oldTime]
      by_cases hp : e.2 ∈ c.clientsBuff
      · rw [hin e.2 hp, hwaiting e.2 hp d₀ hd₀]
        exact (sub_self _).symm
      · rw [hout e.2 hp]
        exact hseated e ((hdrained.entries e he).resolve_right hp) d₀ hd₀
  · exact fun p _ => hkeep p
  · exact fun p hp => hout p fun hq => hp (mem_ptrs.mpr (.inr hq))

/-- Without a client in the table, the timestamp may be renewed. -/
theorem Clocked.renew (h : Clocked silences' (s.put i w pc)) {now : ℤ}
    (hi : s.server.cellServers[i]? = some c) (hempty : w.2.clients.entries = []) :
    Clocked silences' (s.put i (w.1, { w.2 with oldTime := now }) pc) := by
  intro j d hd
  rcases getElem?_set_cases hd with ⟨rfl, rfl⟩ | ⟨hji, hd⟩
  · constructor
    case waiting => exact (h j w.2 (cellServers_put hi w pc)).waiting
    case seated =>
      intro e he
      have hnil : e ∈ [] := hempty ▸ he
      cases hnil
  · apply h j d
    exact (List.getElem?_set_ne hji.symm).trans hd

theorem Clocked.steady (h : Clocked silences s) (ht : s.server.TablesOk)
    (hi : s.server.cellServers[i]? = some c) {w : Worker t.Poller}
    (hw : Steady (s.server.net, c) w) (pc : LoopPc) : Clocked silences (s.put i w pc) := by
  obtain ⟨hwaiting, hseated⟩ := h i c hi
  have hkeep := hw.retains.view
  apply h.put ht hi pc
  · constructor
    case waiting =>
      intro p hp d hd
      obtain ⟨d₀, hd₀, hdt⟩ := hkeep p d hd
      rw [hw.shrinks.clientsBuff] at hp
      exact hdt.trans (hwaiting p hp d₀ hd₀)
    case seated =>
      intro e he d hd
      obtain ⟨d₀, hd₀, hdt⟩ := hkeep e.2 d hd
      rw [hdt, hw.oldTime]
      exact hseated e (hw.shrinks.entries he) d₀ hd₀
  · exact fun p _ => hkeep p
  · exact fun _ _ => rfl

/-- A reading charges the clients of one table with the time since the last one. -/
theorem Clocked.checkTime (h : Clocked silences s) (hok : s.LoopsOk)
    (hi : s.server.cellServers[i]? = some c) {now : ℤ} {w : Worker t.Poller}
    (hc : Worker.checkTime false now (s.server.net, c) = some w) (pc : LoopPc) :
    Clocked silences (s.put i w pc) := by
  obtain ⟨others, waiters, htables, -⟩ := hok.tables.worker hi
  have hages := ages_checkTime htables.ptr_nodup hc
  obtain ⟨hwaiting, hseated⟩ := h i c hi
  have hout : ∀ p, p ∉ c.clients.entries.map Prod.snd → ∀ d, w.1.heap.get? p = some d →
      ∃ d₀, s.server.net.heap.get? p = some d₀ ∧ d.dtHeart = d₀.dtHeart := by
    intro p hp d hd
    obtain ⟨d₀, hd₀, hdt⟩ := hages.heap p d hd
    exact ⟨d₀, hd₀, by simpa [hp] using hdt⟩
  apply h.put hok.tables hi pc
  · constructor
    case waiting =>
      intro p hp d hd
      rw [hages.clientsBuff] at hp
      have hnot : p ∉ c.clients.entries.map Prod.snd := by
        intro hin
        obtain ⟨e, he, rfl⟩ := List.mem_map.mp hin
        exact hok.tables.not_both hi he hp
      obtain ⟨d₀, hd₀, hdt⟩ := hout p hnot d hd
      exact hdt.trans (hwaiting p hp d₀ hd₀)
    case seated =>
      intro e he d hd
      have hin := ((hok.mem_checkTime hi hc e).mp he).1
      obtain ⟨d₀, hd₀, hdt⟩ := hages.heap e.2 d hd
      rw [if_pos ⟨List.mem_map_of_mem hin, List.not_mem_nil⟩] at hdt
      have hold := hseated e hin d₀ hd₀
      rw [hages.oldTime]
      dsimp only at hdt hold
      omega
  · exact fun p hp => hout p fun hin => hp (List.mem_append_left _ hin)
  · exact fun _ _ => rfl

end Steps

/-! ### Every state -/

/-- Each client is charged with the time since the last reading before its silence. -/
structure HeartOk {t : ServerT} (s : HeartRun t.Poller σ) : Prop where
  loops : s.loops.LoopsOk
  clocked : Clocked s.silences s.loops

section Runs

variable {t : ServerT} {onNetMsg : Handler σ} {resets : σ → CellClient → List UInt8 → Bool}
  {s s₀ s' : HeartRun t.Poller σ} {l : HeartStep t.Answer} {ls : List (HeartStep t.Answer)}

theorem renewed_none {p : Ptr} (h : begins resets s.loops p l.event = none) :
    s.renewed resets l p = s.silences p := by
  rw [renewed, h, Option.elim_none]

theorem renewed_some {p : Ptr} {oldTime : ℤ}
    (h : begins resets s.loops p l.event = some oldTime) :
    s.renewed resets l p = ⟨l.moment p, oldTime⟩ := by
  rw [renewed, h, Option.elim_some]

theorem renewed_eq (h : ∀ p, begins resets s.loops p l.event = none) :
    s.renewed resets l = s.silences :=
  funext fun p => renewed_none (h p)

/-- A message resets the time of its client, or leaves it alone. -/
theorem HeartOk.doMsg (h : s.HeartOk) (hr : onNetMsg.Resets resets) {i : ℕ}
    (he : l.event = .loop (.doMsg i)) {loops : ServerLoops t.Poller σ}
    (hd : Rounds onNetMsg s.loops i loops) : Clocked (s.renewed resets l) loops := by
  cases hd with
  | done hpc =>
      rw [renewed_eq fun p => by simp [he, begins, resetBy, hpc]]
      exact h.clocked
  | skip hpc hi hf hg hm =>
      rw [renewed_eq fun p => by simp [he, begins, resetBy, hpc, hi, hf, hg, hm]]
      exact h.clocked
  | @handle k rest c p pClient hpc hi hf hg hm =>
      have hbegin : ∀ q, begins resets s.loops q l.event =
          if resets s.loops.server.ext pClient pClient.frontMsg = true ∧ p = q
            then some c.oldTime else none := by
        intro q
        simp only [he, begins, resetBy, hpc, hi, hf, hg, hm, Option.bind_eq_bind,
          Option.bind_some, Bool.true_and]
        by_cases hres : resets s.loops.server.ext pClient pClient.frontMsg = true
        · simp [hres]
        · simp [hres]
      have hdt := msgBody_dtHeart hr s.loops.server.ext pClient
      have hp : p ∈ c.ptrs := ptrs_of_entry (OrderedMap.find?_eq_some_iff.mp hf)
      intro j d hj
      refine h.clocked.touch h.loops.tables hi hp hg rfl ?_ ?_ hj
      · intro q hq
        apply renewed_none
        rw [hbegin, if_neg fun h => hq h.2.symm]
      · by_cases hres : resets s.loops.server.ext pClient pClient.frontMsg = true
        · right
          rw [if_pos hres] at hdt
          refine ⟨hdt, ?_⟩
          rw [renewed_some ((hbegin p).trans (if_pos ⟨hres, rfl⟩))]
        · left
          rw [if_neg hres] at hdt
          refine ⟨hdt, ?_⟩
          exact renewed_none ((hbegin p).trans (if_neg fun h => hres h.1))

/-- The clients that waited begin their silence. -/
theorem HeartOk.drain (h : s.HeartOk) {i : ℕ} {now : ℤ} (he : l.event = .loop (.drain i now))
    {c : CellServer t.Poller} (hi : s.loops.server.cellServers[i]? = some c)
    {w : Worker t.Poller} (hw : Worker.drain t.onClientJoin (s.loops.server.net, c) = some w)
    (pc : LoopPc) : Clocked (s.renewed resets l) (s.loops.put i w pc) := by
  have hbegin : ∀ p, begins resets s.loops p l.event =
      if p ∈ c.clientsBuff then some c.oldTime else none := by
    intro p
    rw [he, begins, hi]
    rfl
  apply h.clocked.drain h.loops.tables hi hw
  · intro p hp
    rw [renewed_some ((hbegin p).trans (if_pos hp))]
  · intro p hp
    exact renewed_none ((hbegin p).trans (if_neg hp))

theorem HeartOk.loop (h : s.HeartOk) (hr : onNetMsg.Resets resets) {e : LoopEvent t.Answer}
    (he : l.event = .loop e) {loops : ServerLoops t.Poller σ}
    (hn : ServerLoops.next t onNetMsg s.loops e = some loops) :
    Clocked (s.renewed resets l) loops := by
  have hok := h.loops
  have hc := h.clocked
  cases next_cases hn with
  | accpet ha =>
      rw [renewed_eq fun p => by simp [he, begins]]
      exact hc.accpet hok.tables ha
  | stop =>
      rw [renewed_eq fun p => by simp [he, begins]]
      exact hc
  | idle hi hw hempty => exact (h.drain he hi hw .test).renew hi hempty
  | busy hi hw => exact h.drain he hi hw .checkTime
  | checkTime hi hw =>
      rw [renewed_eq fun p => by simp [he, begins]]
      exact hc.checkTime hok hi hw _
  | doNetEvent hi hd =>
      rw [renewed_eq fun p => by simp [he, begins]]
      exact hc.steady hok.tables hi (t.doNetEvent_rule steady_rule hd) _
  | doMsg hd => exact h.doMsg hr he hd

theorem HeartOk.reset (h : s.HeartOk) {i : ℕ} {p : Ptr} (he : l.event = .resetDtHeart i p)
    {c : CellServer t.Poller} (hi : s.loops.server.cellServers[i]? = some c) (hp : p ∈ c.ptrs)
    {d : CellClient} (hd : s.loops.server.net.heap.get? p = some d) :
    Clocked (s.renewed resets l) { s.loops with server := { s.loops.server with
      net := s.loops.server.net.setClient p d.resetDtHeart } } := by
  have hbegin : ∀ q, begins resets s.loops q l.event = if p = q then some c.oldTime else none := by
    intro q
    rw [he, begins, hi]
    rfl
  intro j c' hj
  refine h.clocked.touch h.loops.tables hi hp hd rfl ?_ (.inr ⟨rfl, ?_⟩) hj
  · intro q hq
    exact renewed_none ((hbegin q).trans (if_neg fun h => hq h.symm))
  · rw [renewed_some ((hbegin p).trans (if_pos rfl))]

theorem HeartOk.next (h : s.HeartOk) (hk : onNetMsg.KeepsSock) (hr : onNetMsg.Resets resets)
    (hs : (system t onNetMsg resets).step s l s') : s'.HeartOk := by
  obtain ⟨⟨-, -, -, hl⟩, hn⟩ := hs
  obtain ⟨loops, ha, rfl⟩ := Option.map_eq_some_iff.mp hn
  cases he : l.event with
  | loop e =>
      rw [he] at hl ha
      exact ⟨h.loops.next hk hl.1 ha, h.loop hr he ha⟩
  | resetDtHeart i p =>
      rw [he] at hl ha
      obtain ⟨c, hi, hp⟩ := hl
      obtain ⟨d, hd, rfl⟩ := Option.map_eq_some_iff.mp ha
      have htables : EasyTcpServer.TablesOk { s.loops.server with
          net := s.loops.server.net.setClient p d.resetDtHeart } :=
        ⟨h.loops.tables.roster.setClient hd rfl, h.loops.tables.ids⟩
      exact ⟨⟨htables, h.loops.sets⟩, h.reset he hi hp hd⟩

theorem heartOk_init (h₀ : (system t onNetMsg resets).init s₀) : s₀.HeartOk := by
  obtain ⟨⟨n, nSend, nRecv, nMax, oldTime, poller, ext, hs⟩, -, -⟩ := h₀
  constructor
  case loops =>
    rw [hs]
    exact start_loopsOk n nSend nRecv nMax oldTime poller ext
  case clocked =>
    have hnone : ∀ p, s₀.loops.server.net.heap.get? p = none := by
      intro p
      simp [hs, EasyTcpServer.start, Net.new]
    intro i c hi
    constructor
    case waiting =>
      intro p hp d hd
      rw [hnone] at hd
      cases hd
    case seated =>
      intro e he d hd
      rw [hnone] at hd
      cases hd

end Runs

end HeartRun

end CellNet
