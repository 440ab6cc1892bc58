import CellNet.Verification.Heart.Early

/-! A client is never removed late: at its last reading of the clock, a worker has no client in its
table that had been silent for long enough. -/

namespace CellNet

open Library Worker ServerLoops

variable {π σ : Type}

/-- No client of the table was due at the last reading. -/
def CellServer.InTime (silences : Ptr → Silence) (c : CellServer π) : Prop :=
  ∀ e ∈ c.clients.entries, c.oldTime < (silences e.2).oldTime + CLIENT_HEART_DEAD_TIME ∧
    (silences e.2).oldTime ≤ (silences e.2).since

namespace HeartRun

section Steps

variable {t : ServerT} {onNetMsg : Handler σ} {resets : σ → CellClient → List UInt8 → Bool}
  {s s₀ s' : HeartRun t.Poller σ} {l : HeartStep t.Answer}

/-- A silence that begins, begins behind the last reading of the worker of its client. -/
theorem begins_cases (hl : Legal t s l) {p : Ptr} {oldTime : ℤ}
    (hb : begins resets s.loops p l.event = some oldTime) :
    ∃ (i : ℕ) (c : CellServer t.Poller), s.loops.server.cellServers[i]? = some c ∧ p ∈ c.ptrs ∧
      oldTime = c.oldTime ∧ c.oldTime ≤ l.moment p := by
  obtain ⟨-, -, hmoment, hlegal⟩ := hl
  have hworker : ∃ (i : ℕ) (c : CellServer t.Poller), s.loops.server.cellServers[i]? = some c ∧
      p ∈ c.ptrs ∧ oldTime = c.oldTime := by
    cases he : l.event with
    | resetDtHeart i q =>
        rw [he] at hb hlegal
        obtain ⟨c, hi, hq⟩ := hlegal
        simp only [begins, hi, Option.bind_eq_bind, Option.bind_some] at hb
        split at hb
        · next heq => exact ⟨i, c, hi, heq ▸ hq, (Option.some.inj hb).symm⟩
        · cases hb
    | loop e =>
        rw [he] at hb
        cases e with
        | drain i now =>
            obtain ⟨c, hi, hb⟩ := Option.bind_eq_some_iff.mp hb
            split at hb
            · next hp => exact ⟨i, c, hi, mem_ptrs.mpr (.inr hp), (Option.some.inj hb).symm⟩
            · cases hb
        | doMsg i =>
            obtain ⟨c, hi, hb⟩ := Option.bind_eq_some_iff.mp hb
            split at hb
            · next hr =>
                refine ⟨i, c, hi, ?_, (Option.some.inj hb).symm⟩
                rw [resetBy] at hr
                split at hr
                · simp only [Option.bind_eq_bind, hi, Option.bind_some,
                    Option.bind_eq_some_iff] at hr
                  obtain ⟨q, hq, d, -, hr⟩ := hr
                  split at hr
                  · obtain rfl := Option.some.inj hr
                    exact ptrs_of_entry (OrderedMap.find?_eq_some_iff.mp hq)
                  · cases hr
                · cases hr
            · cases hb
        | _ => cases hb
  obtain ⟨i, c, hi, hp, hold⟩ := hworker
  exact ⟨i, c, hi, hp, hold, hmoment c (List.mem_of_getElem? hi) p hp⟩

/-- A worker whose table holds none but its clients, and which has not read the clock. -/
theorem inTime_frame (ht : s.loops.server.TablesOk) (hl : Legal t s l) {j : ℕ}
    {c d : CellServer t.Poller} (hj : s.loops.server.cellServers[j]? = some c)
    (hc : c.InTime s.silences) (hold : d.oldTime = c.oldTime)
    (hmem : ∀ e ∈ d.clients.entries, e ∈ c.clients.entries ∨
      e.2 ∈ c.ptrs ∧ (begins resets s.loops e.2 l.event).isSome) :
    d.InTime (s.renewed resets l) := by
  intro e he
  have hpos : (0 : ℤ) < CLIENT_HEART_DEAD_TIME := by decide
  cases hb : begins resets s.loops e.2 l.event with
  | none =>
      rw [renewed_none hb, hold]
      rcases hmem e he with hin | ⟨-, hsome⟩
      · exact hc e hin
      · rw [hb] at hsome
        cases hsome
  | some oldTime =>
      obtain ⟨i, c', hi, hp, rfl, hmoment⟩ := begins_cases hl hb
      have hown : e.2 ∈ c.ptrs := (hmem e he).elim ptrs_of_entry And.left
      obtain rfl := ht.apart hi hj hp hown
      obtain rfl := Option.some.inj (hi.symm.trans hj)
      rw [renewed_some hb, hold]
      dsimp only
      exact ⟨by omega, hmoment⟩

/-- What goes for every worker at each step. -/
def AllInTime (silences : Ptr → Silence) (s : ServerLoops π σ) : Prop :=
  ∀ (i : ℕ) (c : CellServer π), s.server.cellServers[i]? = some c → c.InTime silences

/-- A step that leaves all tables alone. -/
theorem AllInTime.same (h : AllInTime s.silences s.loops) (ht : s.loops.server.TablesOk)
    (hl : Legal t s l) {loops : ServerLoops t.Poller σ}
    (hs : loops.server.cellServers = s.loops.server.cellServers) :
    AllInTime (s.renewed resets l) loops := by
  intro j d hj
  rw [hs] at hj
  exact inTime_frame ht hl hj (h j d hj) rfl fun e he => .inl he

/-- A step of one worker. -/
theorem AllInTime.put (h : AllInTime s.silences s.loops) (ht : s.loops.server.TablesOk)
    (hl : Legal t s l) {i : ℕ} {w : Worker t.Poller} (pc : LoopPc)
    (hw : w.2.InTime (s.renewed resets l)) :
    AllInTime (s.renewed resets l) (s.loops.put i w pc) := by
  intro j d hj
  rcases getElem?_set_cases hj with ⟨-, rfl⟩ | ⟨-, hj⟩
  · exact hw
  · exact inTime_frame ht hl hj (h j d hj) rfl fun e he => .inl he

theorem AllInTime.accpet (h : AllInTime s.silences s.loops) (ht : s.loops.server.TablesOk)
    (hl : Legal t s l) {cSock : SOCKET} {sendBlock recvBlock : List UInt8}
    {server : EasyTcpServer t.Poller σ}
    (ha : s.loops.server.accpet cSock sendBlock recvBlock = some server) :
    AllInTime (s.renewed resets l) { s.loops with server := server } := by
  rcases EasyTcpServer.accpet_cases ha with ⟨-, rfl | rfl⟩ | ⟨-, c, i, hc, rfl⟩
  · exact h.same ht hl rfl
  · exact h.same ht hl rfl
  · intro j d hj
    rcases getElem?_set_cases hj with ⟨-, rfl⟩ | ⟨-, hj⟩
    · exact inTime_frame ht hl hc.mem (h i c hc.mem) rfl fun e he => .inl he
    · exact inTime_frame ht hl hj (h j d hj) rfl fun e he => .inl he

/-- The clients that waited begin their silence as they are taken up. -/
theorem inTime_drain (ht : s.loops.server.TablesOk) (hl : Legal t s l) {i : ℕ} {now : ℤ}
    (he : l.event = .loop (.drain i now)) {c : CellServer t.Poller}
    (hi : s.loops.server.cellServers[i]? = some c) (hc : c.InTime s.silences)
    {w : Worker t.Poller}
    (hw : Worker.drain t.onClientJoin (s.loops.server.net, c) = some w) :
    w.2.InTime (s.renewed resets l) := by
  have hdrained := t.drained hw
  apply inTime_frame ht hl hi hc hdrained.oldTime
  intro e hin
  apply (hdrained.entries e hin).imp id
  intro hp
  refine ⟨mem_ptrs.mpr (.inr hp), ?_⟩
  simp [he, begins, hi, hp]

/-- A reading removes whoever is due. -/
theorem HeartOk.inTime_checkTime (h : s.HeartOk) {i : ℕ} {now : ℤ} {c : CellServer t.Poller}
    (hi : s.loops.server.cellServers[i]? = some c) (hc : c.InTime s.silences)
    {w : Worker t.Poller}
    (hw : Worker.checkTime false now (s.loops.server.net, c) = some w) :
    w.2.InTime s.silences := by
  obtain ⟨others, waiters, ht, -⟩ := h.loops.tables.worker hi
  have hold := (ages_checkTime ht.ptr_nodup hw).oldTime
  intro e he
  obtain ⟨hin, hstays⟩ := (h.loops.mem_checkTime hi hw e).mp he
  rw [hold]
  exact ⟨(h.stays_iff hi hin now).mp hstays, (hc e hin).2⟩

theorem AllInTime.loop (h : AllInTime s.silences s.loops) (hok : s.HeartOk) (hl : Legal t s l)
    {e : LoopEvent t.Answer} (he : l.event = .loop e) {loops : ServerLoops t.Poller σ}
    (hn : ServerLoops.next t onNetMsg s.loops e = some loops) :
    AllInTime (s.renewed resets l) loops := by
  have ht := hok.loops.tables
  cases next_cases hn with
  | accpet ha => exact h.accpet ht hl ha
  | stop => exact h.same ht hl rfl
  | idle hi hw hempty =>
      apply h.put ht hl
      intro e hin
      rw [hempty] at hin
      cases hin
  | busy hi hw => exact h.put ht hl _ (inTime_drain ht hl he hi (h _ _ hi) hw)
  | checkTime hi hw =>
      rw [renewed_eq fun p => by simp [he, begins]]
      have hw' := hok.inTime_checkTime hi (h _ _ hi) hw
      intro j d hj
      rcases getElem?_set_cases hj with ⟨-, rfl⟩ | ⟨-, hj⟩
      · exact hw'
      · exact h j d hj
  | doNetEvent hi hd =>
      have hsteady := t.doNetEvent_rule steady_rule hd
      apply h.put ht hl
      exact inTime_frame ht hl hi (h _ _ hi) hsteady.oldTime fun e hin =>
        .inl (hsteady.shrinks.entries hin)
  | doMsg hd => cases hd <;> exact h.same ht hl rfl

theorem AllInTime.next (h : AllInTime s.silences s.loops) (hok : s.HeartOk)
    (hs : (system t onNetMsg resets).step s l s') : AllInTime s'.silences s'.loops := by
  obtain ⟨hl, hn⟩ := hs
  obtain ⟨loops, ha, rfl⟩ := Option.map_eq_some_iff.mp hn
  cases he : l.event with
  | loop e =>
      rw [he] at ha
      exact h.loop hok hl he ha
  | resetDtHeart i p =>
      rw [he] at ha
      obtain ⟨d, hd, rfl⟩ := Option.map_eq_some_iff.mp ha
      exact h.same hok.loops.tables hl rfl

/-- In every run on a clock that does not go back: whoever is in the table of a worker had not been
silent for `CLIENT_HEART_DEAD_TIME` when the worker last read the clock. -/
theorem never_late (hk : onNetMsg.KeepsSock) (hr : onNetMsg.Resets resets)
    (h : (system t onNetMsg resets).Reachable s) {i : ℕ} {c : CellServer t.Poller}
    (hi : s.loops.server.cellServers[i]? = some c) {e : SOCKET × Ptr}
    (he : e ∈ c.clients.entries) :
    c.oldTime < (s.silences e.2).since + CLIENT_HEART_DEAD_TIME := by
  have hall : AllInTime s.silences s.loops ∧ s.HeartOk := by
    refine System.Invariant.reachable
      (P := fun s => AllInTime s.silences s.loops ∧ s.HeartOk) ⟨?_, ?_⟩ h
    · intro s h₀
      refine ⟨?_, heartOk_init h₀⟩
      obtain ⟨⟨n, nSend, nRecv, nMax, oldTime, poller, ext, hs⟩, -, -⟩ := h₀
      intro i c hi e he
      have hc : c ∈ s.loops.server.cellServers := List.mem_of_getElem? hi
      rw [hs] at hc
      obtain ⟨k, -, rfl⟩ := List.mem_map.mp hc
      cases he
    · intro s l s' hs hstep
      exact ⟨hs.1.next hs.2 hstep, hs.2.next hk hr hstep⟩
  obtain ⟨hlt, hle⟩ := hall.1 i c hi e he
  omega

end Steps

/-- A client that came at the time 0 is still there after a reading at 59999. -/
theorem silentRun_reachable : ∃ s, program.Reachable s ∧ (s.silences 0).since = 0 ∧
    ∃ c, s.loops.server.cellServers[0]? = some c ∧ c.oldTime = 59999 ∧
      (5, 0) ∈ c.clients.entries := by
  have hread : ∀ now nowTime : ℤ, nowTime ∈ some now → nowTime = now :=
    fun _ _ h => (Option.some.inj h).symm
  have hpos : (0 : ℤ) ≤ 59999 := by decide
  have hfirst : ∀ c ∈ started.loops.server.cellServers, ∀ p ∈ c.ptrs, c.oldTime ≤ 0 := by
    intro c hc p hp
    obtain rfl := List.mem_singleton.mp hc
    exact le_rfl
  have haccpet : program.step started
      (atOnce 0 (.accpet 5 (List.replicate 8 0) (List.replicate 8 0))) _ :=
    ⟨⟨le_rfl, fun _ => le_rfl, hfirst, ⟨List.not_mem_nil, rfl, rfl⟩, nofun⟩, rfl⟩
  have h₁ := (System.Reachable.init started_init).step haccpet
  have h₂ := h₁.step (l := atOnce 0 (.drain 0 0)) ⟨⟨le_rfl, fun _ => le_rfl, ?_,
    show _ = some LoopPc.test from rfl, hread 0⟩, rfl⟩
  · have h₃ := h₂.step (l := atOnce 59999 (.checkTime 0 59999)) ⟨⟨hpos, fun _ => le_rfl, ?_,
      show _ = some LoopPc.checkTime from rfl, hread 59999⟩, rfl⟩
    · exact ⟨_, h₃, rfl, _, rfl, rfl, List.mem_singleton.mpr rfl⟩
    · intro c hc p hp
      obtain rfl := List.mem_singleton.mp hc
      exact hpos
  · intro c hc p hp
    obtain rfl := List.mem_singleton.mp hc
    exact le_rfl

theorem never_late_silent : ∃ s, program.Reachable s ∧ ∃ c : CellServer Unit,
    s.loops.server.cellServers[0]? = some c ∧ c.oldTime = 59999 ∧
      c.oldTime < (s.silences 0).since + CLIENT_HEART_DEAD_TIME := by
  obtain ⟨s, h, -, c, hi, hold, he⟩ := silentRun_reachable
  exact ⟨s, h, c, hi, hold,
    never_late (MyServer.handler_keepsSock _) (MyServer.handler_resets _) h hi he⟩

end HeartRun

end CellNet
