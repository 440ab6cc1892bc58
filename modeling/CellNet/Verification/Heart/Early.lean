import CellNet.Verification.Handlers.Semantics
import CellNet.Verification.Heart.Charges

/-! When a client is removed: early exactly if a reading falls between the time at which it has been
charged with enough and the time at which it has been silent for long enough. -/

namespace CellNet

open Library Worker ServerLoops

variable {σ : Type}

namespace HeartRun

/-! ### The removals -/

section Runs

variable {t : ServerT} {onNetMsg : Handler σ} {resets : σ → CellClient → List UInt8 → Bool}
  {s s₀ s' : HeartRun t.Poller σ} {l : HeartStep t.Answer} {ls : List (HeartStep t.Answer)}

theorem entriesAt_eq {π : Type} {loops : ServerLoops π σ} {i : ℕ} {c : CellServer π}
    (hi : loops.server.cellServers[i]? = some c) : entriesAt loops i = c.clients.entries := by
  rw [entriesAt, hi]
  rfl

/-- A client stays as long as `CLIENT_HEART_DEAD_TIME` has not passed since the last reading before
its silence. -/
theorem HeartOk.stays_iff (h : s.HeartOk) {i : ℕ} {c : CellServer t.Poller}
    (hi : s.loops.server.cellServers[i]? = some c) {e : SOCKET × Ptr}
    (he : e ∈ c.clients.entries) (now : ℤ) :
    Stays s.loops.server.net (now - c.oldTime) e ↔
      now < (s.silences e.2).oldTime + CLIENT_HEART_DEAD_TIME := by
  obtain ⟨others, waiters, htables, -⟩ := h.loops.tables.worker hi
  obtain ⟨d, hd, -⟩ := htables.get? he
  have hdt := (h.clocked i c hi).seated e he d hd
  dsimp only at hdt
  have hheart : (d.checkHeart (now - c.oldTime)).2 = false ↔
      d.dtHeart + (now - c.oldTime) < CLIENT_HEART_DEAD_TIME := by
    simp [CellClient.checkHeart]
  constructor
  · intro hs
    obtain ⟨d', hd', hstay⟩ := hs
    obtain rfl := Option.some.inj (hd.symm.trans hd')
    have hlt := hheart.mp hstay
    omega
  · intro hlt
    exact ⟨d, hd, hheart.mpr (by omega)⟩

/-- The clients that a `CheckTime` removes had been silent long enough exactly when it is timely. -/
theorem HeartOk.removed (h : s.HeartOk) {i : ℕ} {now : ℤ}
    (he : l.event = .loop (.checkTime i now)) {loops : ServerLoops t.Poller σ}
    (hn : ServerLoops.next t onNetMsg s.loops (.checkTime i now) = some loops) :
    (∀ e ∈ HeartRun.removed s.loops loops l.event,
      CLIENT_HEART_DEAD_TIME ≤ now - (s.silences e.2).since) ↔ s.Timely l := by
  obtain ⟨c, w₁, hi, hw, rfl⟩ := checkTime_cases hn
  simp only [Timely, he, HeartRun.removed, entriesAt_eq hi,
    entriesAt_eq (cellServers_put hi w₁ .doNetEvent)]
  have hmem : ∀ e ∈ c.clients.entries, (e ∉ w₁.2.clients.entries ↔
      (s.silences e.2).oldTime + CLIENT_HEART_DEAD_TIME ≤ now) := by
    intro e hin
    rw [h.loops.mem_checkTime hi hw e, h.stays_iff hi hin, and_iff_right hin, not_lt]
  constructor
  · intro hall e hin
    by_cases hlt : now < (s.silences e.2).oldTime + CLIENT_HEART_DEAD_TIME
    · exact .inl hlt
    · have hgone := (hmem e hin).mpr (not_lt.mp hlt)
      have hlong := hall e (List.mem_filter.mpr ⟨hin, decide_eq_true hgone⟩)
      right
      omega
  · intro htimely e hrem
    obtain ⟨hin, hgone⟩ := List.mem_filter.mp hrem
    have hle := (hmem e hin).mp (of_decide_eq_true hgone)
    rcases htimely e hin with hlt | hlong
    · exact absurd hle (not_le.mpr hlt)
    · omega

/-- Only a `CheckTime` removes clients for their silence. -/
theorem HeartOk.neverEarly_step (h : s.HeartOk) (hs : (system t onNetMsg resets).step s l s') :
    s'.NeverEarly ↔ s.Timely l ∧ s.NeverEarly := by
  obtain ⟨⟨-, -, -, hl⟩, hn⟩ := hs
  obtain ⟨loops, ha, rfl⟩ := Option.map_eq_some_iff.mp hn
  have hnew : (∀ e ∈ HeartRun.removed s.loops loops l.event,
      CLIENT_HEART_DEAD_TIME ≤ l.now - (s.silences e.2).since) ↔ s.Timely l := by
    cases he : l.event with
    | loop e =>
        cases e with
        | checkTime i now =>
            rw [he] at hl ha
            obtain rfl := hl.2 now rfl
            have hnext : ServerLoops.next t onNetMsg s.loops (.checkTime i l.now) = some loops := ha
            exact he ▸ h.removed he hnext
        | _ => simp [HeartRun.removed, Timely, he]
    | resetDtHeart i p => simp [HeartRun.removed, Timely, he]
  rw [NeverEarly, List.forall_mem_append, List.forall_mem_map, hnew]
  exact and_comm

/-- From a state on in which every client is charged as it should be. -/
theorem HeartOk.neverEarly_path (hk : onNetMsg.KeepsSock) (hr : onNetMsg.Resets resets)
    (hp : (system t onNetMsg resets).Path s ls s') (h : s.HeartOk) :
    s'.NeverEarly ↔ ((system t onNetMsg resets).guard Timely).Path s ls s' ∧ s.NeverEarly := by
  induction hp with
  | nil s => exact ⟨fun hn => ⟨.nil s, hn⟩, And.right⟩
  | @cons s u v l ls hs hp ih =>
      rw [ih (h.next hk hr hs), h.neverEarly_step hs]
      constructor
      · intro hg
        exact ⟨.cons ⟨hg.2.1, hs⟩ hg.1, hg.2.2⟩
      · intro hg
        obtain ⟨hpath, hold⟩ := hg
        cases hpath with
        | @cons _ u' _ _ _ hs' hpath =>
            obtain rfl := Option.some.inj (hs.2.symm.trans hs'.2.2)
            exact ⟨hpath, hs'.1, hold⟩

/-- In a run from a new server, no client is removed before it has been silent for
`CLIENT_HEART_DEAD_TIME` exactly when each `CheckTime` of the run is timely. -/
theorem neverEarly_iff (hk : onNetMsg.KeepsSock) (hr : onNetMsg.Resets resets)
    (h₀ : (system t onNetMsg resets).init s₀) (hp : (system t onNetMsg resets).Path s₀ ls s) :
    s.NeverEarly ↔ ((system t onNetMsg resets).guard Timely).Path s₀ ls s := by
  have hnone : s₀.NeverEarly := by
    rw [NeverEarly, h₀.2.2]
    exact fun r hr => absurd hr List.not_mem_nil
  rw [(heartOk_init h₀).neverEarly_path hk hr hp]
  exact and_iff_left hnone

end Runs

/-! ### A client that comes after a stall -/

/-- The runs of the server program, with epoll. -/
abbrev program : System (HeartRun Unit MyServer) (HeartStep EpollAnswer) :=
  system .epoll (MyServer.handler (MyServer.filled 0)) (MyServer.resetsDtHeart (MyServer.filled 0))

/-- It has one worker, which has read the clock at the time 0. -/
def started : HeartRun Unit MyServer :=
  ⟨⟨.start 1 8 8 2 (fun _ => 0) () ⟨false, false, false, []⟩, [.test]⟩, 0, fun _ => ⟨0, 0⟩, []⟩

theorem started_init : program.init started := by
  refine ⟨⟨1, 8, 8, 2, fun _ => 0, (), _, rfl⟩, ?_, rfl⟩
  intro c hc
  obtain rfl := List.mem_singleton.mp hc
  exact le_rfl

/-- A step that takes no time. -/
def atOnce (now : ℤ) (e : LoopEvent EpollAnswer) : HeartStep EpollAnswer :=
  ⟨now, fun _ => now, .loop e⟩

/-- A client is put into `_clients` at the time `joined`, and the next `CheckTime` is at `now`. -/
def silentRun (joined now : ℤ) : List (HeartStep EpollAnswer) :=
  [atOnce joined (.accpet 5 (List.replicate 8 0) (List.replicate 8 0)),
    atOnce joined (.drain 0 joined), atOnce now (.checkTime 0 now)]

theorem silentRun_path {joined : ℤ} (h₀ : 0 ≤ joined) (hj : joined ≤ 60000) :
    ∃ s, program.Path started (silentRun joined 60000) s ∧ s.removals = [(joined, 60000)] := by
  have hread : ∀ now nowTime : ℤ, nowTime ∈ some now → nowTime = now :=
    fun _ _ h => (Option.some.inj h).symm
  have hfirst : ∀ c ∈ started.loops.server.cellServers, ∀ p ∈ c.ptrs, c.oldTime ≤ joined := by
    intro c hc p hp
    obtain rfl := List.mem_singleton.mp hc
    exact h₀
  have haccpet : program.step started
      (atOnce joined (.accpet 5 (List.replicate 8 0) (List.replicate 8 0))) _ :=
    ⟨⟨h₀, fun _ => le_rfl, hfirst, ⟨List.not_mem_nil, rfl, rfl⟩, nofun⟩, rfl⟩
  refine ⟨_, .cons haccpet (.cons ⟨?_, rfl⟩ (.single ⟨?_, rfl⟩)), rfl⟩
  · refine ⟨le_rfl, fun _ => le_rfl, ?_, show _ = some LoopPc.test from rfl, hread joined⟩
    intro c hc p hp
    obtain rfl := List.mem_singleton.mp hc
    exact h₀
  · refine ⟨hj, fun _ => le_rfl, ?_, show _ = some LoopPc.checkTime from rfl, hread 60000⟩
    intro c hc p hp
    obtain rfl := List.mem_singleton.mp hc
    exact h₀.trans hj

/-- A client that came with the last reading is removed in time. -/
theorem neverEarly_in_time : ∃ s, (program.guard Timely).Path started (silentRun 0 60000) s ∧
    s.removals = [(0, 60000)] := by
  obtain ⟨s, hp, hs⟩ := silentRun_path (le_refl 0) (by decide)
  have hearly : s.NeverEarly := by
    rw [NeverEarly, hs]
    decide
  exact ⟨s, (neverEarly_iff (MyServer.handler_keepsSock _) (MyServer.handler_resets _)
    started_init hp).mp hearly, hs⟩

/-- After a minute without a reading a client joins, and the next `CheckTime` removes it at once. -/
theorem removed_at_once : program.init started ∧
    ∃ s, program.Path started (silentRun 60000 60000) s ∧ s.removals = [(60000, 60000)] ∧
      ¬ s.NeverEarly := by
  have hpos : (0 : ℤ) ≤ 60000 := by decide
  obtain ⟨s, hp, hs⟩ := silentRun_path hpos le_rfl
  refine ⟨started_init, s, hp, hs, ?_⟩
  rw [NeverEarly, hs]
  decide

end HeartRun

end CellNet
