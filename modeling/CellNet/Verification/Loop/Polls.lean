import CellNet.Verification.Loop.Sets

/-! Polls without a client. The loop tests for clients before `CheckTime`, which may remove all
of them. -/

namespace CellNet

open Library Worker

variable {π σ : Type}

/-! ### What `CheckTime` leaves -/

namespace Worker

/-- The client of the entry has been silent for less than `CLIENT_HEART_DEAD_TIME`. -/
def Stays (n : Net) (dt : ℤ) (e : SOCKET × Ptr) : Prop :=
  ∃ c, n.heap.get? e.2 = some c ∧ (c.checkHeart dt).2 = false

/-- Where the loop of `CheckTime` is: the entries `es` are still to be visited. -/
structure Sweeps (dt : ℤ) (w : Worker π) (es : List (SOCKET × Ptr)) (w' : Worker π) : Prop where
  entries : ∀ e, e ∈ w'.2.clients.entries ↔
    e ∈ w.2.clients.entries ∧ (e ∈ es ∨ Stays w.1 dt e)
  rest : es ⊆ w.2.clients.entries
  ptrs : (es.map Prod.snd).Nodup
  heap : ∀ e ∈ es, w'.1.heap.get? e.2 = w.1.heap.get? e.2

theorem Sweeps.ptr_ne {dt : ℤ} {w w' : Worker π} {e f : SOCKET × Ptr} {es : List (SOCKET × Ptr)}
    (h : Sweeps dt w (e :: es) w') (hf : f ∈ es) : f.2 ≠ e.2 := by
  intro he
  have hp := h.ptrs
  rw [List.map_cons, List.nodup_cons] at hp
  exact hp.1 (he ▸ List.mem_map_of_mem hf)

theorem Sweeps.checkClient {dt : ℤ} {w w₁ w₂ : Worker π} {e : SOCKET × Ptr}
    {es : List (SOCKET × Ptr)} (h : Sweeps dt w (e :: es) w₁)
    (hc : w₁.checkClient false dt e = some w₂) : Sweeps dt w es w₂ := by
  have hrest : es ⊆ w.2.clients.entries := fun f hf => h.rest (List.mem_cons_of_mem _ hf)
  have hptrs : (es.map Prod.snd).Nodup := List.Nodup.of_cons h.ptrs
  have hheap := h.heap e List.mem_cons_self
  have hne : ∀ f ∈ es, f ≠ e := fun f hf he => h.ptr_ne hf (congrArg Prod.snd he)
  have hin := h.rest List.mem_cons_self
  have hothers := (checkClient_heap hc).1
  obtain ⟨c, hget, ⟨hr, rfl⟩ | ⟨hr, n, hn, rfl⟩⟩ := checkClient_cases hc
  · have hstay : Stays w.1 dt e := ⟨c, hheap ▸ hget, hr⟩
    refine ⟨?_, hrest, hptrs, ?_⟩
    · intro f
      rw [h.entries, List.mem_cons]
      constructor
      · intro hf
        rcases hf with ⟨hf, (rfl | hf') | hf'⟩
        · exact ⟨hf, .inr hstay⟩
        · exact ⟨hf, .inl hf'⟩
        · exact ⟨hf, .inr hf'⟩
      · intro hf
        exact ⟨hf.1, hf.2.imp_left .inr⟩
    · intro f hf
      rw [← h.heap f (List.mem_cons_of_mem _ hf)]
      exact hothers f.2 (h.ptr_ne hf)
  · have hleave : ¬ Stays w.1 dt e := by
      intro hs
      obtain ⟨c', hc', hr'⟩ := hs
      obtain rfl := Option.some.inj (hget.symm.trans (hheap.trans hc'))
      rw [hr] at hr'
      cases hr'
    refine ⟨?_, hrest, hptrs, ?_⟩
    · intro f
      have hkey : f ∈ w.2.clients.entries → (f.1 ≠ e.1 ↔ f ≠ e) := by
        intro hf
        constructor
        · exact fun hk he => hk (congrArg Prod.fst he)
        · exact fun hk he => hk (OrderedMap.eq_of_key hf hin he)
      have herase : f ∈ (w₁.2.clients.erase e.1).entries ↔
          f ∈ w₁.2.clients.entries ∧ f.1 ≠ e.1 := OrderedMap.mem_erase
      refine herase.trans ?_
      rw [h.entries, List.mem_cons]
      constructor
      · intro hf
        rcases hf with ⟨⟨hf, (rfl | hf') | hf'⟩, hk⟩
        · exact absurd rfl hk
        · exact ⟨hf, .inl hf'⟩
        · exact ⟨hf, .inr hf'⟩
      · intro hf
        rcases hf with ⟨hf, hf' | hf'⟩
        · exact ⟨⟨hf, .inl (.inr hf')⟩, (hkey hf).mpr (hne f hf')⟩
        · refine ⟨⟨hf, .inr hf'⟩, (hkey hf).mpr ?_⟩
          rintro rfl
          exact hleave hf'
    · intro f hf
      rw [← h.heap f (List.mem_cons_of_mem _ hf)]
      exact hothers f.2 (h.ptr_ne hf)

/-- `CheckTime` removes the clients that do not stay, and no other. -/
theorem mem_checkTime {now : ℤ} {w w' : Worker π} (hp : (w.2.clients.entries.map Prod.snd).Nodup)
    (h : w.checkTime false now = some w') (e : SOCKET × Ptr) :
    e ∈ w'.2.clients.entries ↔
      e ∈ w.2.clients.entries ∧ Stays w.1 (now - w.2.oldTime) e := by
  have hend : Sweeps (now - w.2.oldTime) w [] w' := by
    apply foldlM_cases (P := Sweeps (now - w.2.oldTime) w) _ _ h
    · intro f es x y hx hy
      exact hx.checkClient hy
    · refine ⟨?_, fun _ hf => hf, hp, fun _ _ => rfl⟩
      intro f
      exact ⟨fun hf => ⟨hf, .inl hf⟩, And.left⟩
  simpa using hend.entries e

end Worker

namespace ServerLoops

/-- The worker `i` is about to rebuild the sets of an empty table. -/
def PollsEmpty (s : ServerLoops π σ) (i : ℕ) : Prop :=
  s.pcs[i]? = some .doNetEvent ∧ ∃ c, s.server.cellServers[i]? = some c ∧
    c.clientsChange = true ∧ c.clients.entries = []

/-- A client of the worker stays if this is its `CheckTime`. -/
def OneStays {α : Type} (s : ServerLoops π σ) : LoopEvent α → Prop
  | .checkTime i now => ∀ c, s.server.cellServers[i]? = some c →
      ∃ e ∈ c.clients.entries, Stays s.server.net (now - c.oldTime) e
  | _ => True

/-- A worker between the test for clients and its poll has one. -/
def Peopled (s : ServerLoops π σ) : Prop :=
  ∀ (i : ℕ) (c : CellServer π), s.server.cellServers[i]? = some c →
    s.pcs[i]? = some LoopPc.checkTime ∨ s.pcs[i]? = some LoopPc.doNetEvent →
      c.clients.entries ≠ []

theorem Peopled.not_pollsEmpty {s : ServerLoops π σ} (h : s.Peopled) (i : ℕ) :
    ¬ s.PollsEmpty i := by
  intro hp
  obtain ⟨hpc, c, hi, -, he⟩ := hp
  exact h i c hi (.inr hpc) he

/-- The worker `i` has become `w.2`, which has a client if it is to poll. -/
theorem Peopled.put {s : ServerLoops π σ} (h : s.Peopled) {i : ℕ} {w : Worker π} {pc : LoopPc}
    (hw : pc = .checkTime ∨ pc = .doNetEvent → w.2.clients.entries ≠ []) :
    (s.put i w pc).Peopled := by
  intro j c hj hpc
  dsimp only [ServerLoops.put] at hj hpc
  rcases getElem?_set_cases hj with ⟨rfl, rfl⟩ | ⟨hji, hold⟩
  · have hnew : ∀ q, (s.pcs.set j pc)[j]? = some q → pc = q := by
      intro q hq
      rcases getElem?_set_cases hq with ⟨-, he⟩ | ⟨hne, -⟩
      · exact he.symm
      · exact absurd rfl hne
    exact hw (hpc.imp (hnew _) (hnew _))
  · rw [List.getElem?_set_ne hji.symm] at hpc
    exact h j c hold hpc

/-- The place of a worker changes to one that is not in front of its poll. -/
theorem Peopled.setPc {s : ServerLoops π σ} (h : s.Peopled) (i : ℕ) {pc : LoopPc}
    (h₁ : pc ≠ .checkTime) (h₂ : pc ≠ .doNetEvent) :
    Peopled { s with pcs := s.pcs.set i pc } := by
  intro j c hj hpc
  have hold : ∀ q ≠ pc, (s.pcs.set i pc)[j]? = some q → s.pcs[j]? = some q := by
    intro q hne hq
    rcases getElem?_set_cases hq with ⟨-, he⟩ | ⟨-, hq⟩
    · exact absurd he hne
    · exact hq
  exact h j c hj (hpc.imp (hold _ h₁.symm) (hold _ h₂.symm))

section Steps

variable {t : ServerT} {onNetMsg : Handler σ} {s s' : ServerLoops t.Poller σ}

theorem Peopled.accpet (h : s.Peopled) {cSock : SOCKET} {sendBlock recvBlock : List UInt8}
    {server : EasyTcpServer t.Poller σ}
    (ha : s.server.accpet cSock sendBlock recvBlock = some server) :
    Peopled { s with server := server } := by
  rcases EasyTcpServer.accpet_cases ha with ⟨-, rfl | rfl⟩ | ⟨-, c, i, hc, rfl⟩
  · exact h
  · exact h
  · intro j d hj hpc
    dsimp only at hj
    rcases getElem?_set_cases hj with ⟨rfl, rfl⟩ | ⟨-, hj⟩
    · exact h j c hc.mem hpc
    · exact h j d hj hpc

theorem Peopled.doMsg (h : s.Peopled) {i : ℕ} (hd : Rounds onNetMsg s i s') : s'.Peopled := by
  cases hd with
  | done => exact h.setPc i nofun nofun
  | skip => exact h.setPc i nofun nofun
  | handle => exact h

/-- A client that stays is still in the table after `CheckTime`. -/
theorem LoopsOk.mem_checkTime (h : s.LoopsOk) {i : ℕ} {c : CellServer t.Poller}
    (hi : s.server.cellServers[i]? = some c) {now : ℤ} {w : Worker t.Poller}
    (hc : Worker.checkTime false now (s.server.net, c) = some w) (e : SOCKET × Ptr) :
    e ∈ w.2.clients.entries ↔
      e ∈ c.clients.entries ∧ Stays s.server.net (now - c.oldTime) e := by
  obtain ⟨others, waiters, ht, -⟩ := h.tables.worker hi
  exact Worker.mem_checkTime ht.ptr_nodup hc e

theorem Peopled.next (h : s.Peopled) (hok : s.LoopsOk) {e : LoopEvent t.Answer}
    (hs : s.OneStays e) (hn : ServerLoops.next t onNetMsg s e = some s') : s'.Peopled := by
  cases next_cases hn with
  | accpet ha => exact h.accpet ha
  | stop => exact h.setPc _ nofun nofun
  | idle => exact h.put (by simp)
  | busy hi hw hne => exact h.put fun _ => hne
  | checkTime hi hw =>
      obtain ⟨f, hf, hstay⟩ := hs _ hi
      have hmem := (hok.mem_checkTime hi hw f).mpr ⟨hf, hstay⟩
      exact h.put fun _ => List.ne_nil_of_mem hmem
  | doNetEvent =>
      apply h.put
      split <;> simp
  | doMsg hd => exact h.doMsg hd

theorem peopled_of_reachable (hk : onNetMsg.KeepsSock)
    (h : ((system t onNetMsg).guard OneStays).Reachable s) : s.Peopled := by
  have hboth : s.LoopsOk ∧ s.Peopled := by
    refine System.Invariant.reachable (P := fun s => s.LoopsOk ∧ s.Peopled) ⟨?_, ?_⟩ h
    · intro s hs
      obtain ⟨n, nSend, nRecv, nMax, oldTime, poller, ext, rfl⟩ := hs
      refine ⟨start_loopsOk n nSend nRecv nMax oldTime poller ext, ?_⟩
      intro i c _ hpc
      simp only [List.getElem?_replicate] at hpc
      split at hpc <;> simp at hpc
    · intro s e s' hs he
      exact ⟨hs.1.next hk he.2.1 he.2.2, hs.2.next hs.1 he.1 he.2.2⟩
  exact hboth.2

end Steps

/-! ### The poll of an empty table -/

section Select

variable {platform : Platform} {onNetMsg : Handler σ}

/-- `CheckTime` empties the table that is polled next, unless one client stays. -/
theorem pollsEmpty_checkTime (hk : onNetMsg.KeepsSock) {s s' : ServerLoops SelectSets σ}
    (h : (system (.select platform) onNetMsg).Reachable s) {i : ℕ} {now : ℤ}
    (hs : (system (.select platform) onNetMsg).step s (.checkTime i now) s') :
    s'.PollsEmpty i ↔ ¬ s.OneStays (.checkTime i now : LoopEvent SelectAnswer) := by
  have hok : LoopsOk (t := .select platform) s := loopsOk_of_reachable hk h
  have hok' : LoopsOk (t := .select platform) s' := hok.next hk hs.1 hs.2
  obtain ⟨c, w₁, hi, hw, rfl⟩ := checkTime_cases hs.2
  have hmem := hok.mem_checkTime hi hw
  have hi' := cellServers_put hi w₁ .doNetEvent
  constructor
  · intro hp hstay
    obtain ⟨f, hf, hfs⟩ := hstay c hi
    obtain ⟨-, c', hc', -, he⟩ := hp
    obtain rfl := Option.some.inj (hi'.symm.trans hc')
    have hin := (hmem f).mpr ⟨hf, hfs⟩
    rw [he] at hin
    cases hin
  · intro hnone
    have he : w₁.2.clients.entries = [] := by
      rw [List.eq_nil_iff_forall_not_mem]
      intro f hf
      apply hnone
      intro c' hc'
      obtain rfl := Option.some.inj (hi.symm.trans hc')
      exact ⟨f, (hmem f).mp hf⟩
    refine ⟨pcs_put hs.1 .., w₁.2, hi', ?_, he⟩
    · rw [← Bool.not_eq_false]
      intro hb
      obtain ⟨first, rest, hne, -⟩ := hok'.sets _ (List.mem_of_getElem? hi') hb
      rw [he] at hne
      cases hne

/-- As long as each `CheckTime` leaves its worker a client, no worker rebuilds the sets of an
empty table; a `CheckTime` that leaves none is followed by such a poll. -/
theorem not_pollsEmpty_while (hk : onNetMsg.KeepsSock) :
    (∀ s, ((system (.select platform) onNetMsg).guard OneStays).Reachable s →
      ∀ i, ¬ s.PollsEmpty i) ∧
    ∀ s i now s', (system (.select platform) onNetMsg).Reachable s →
      (system (.select platform) onNetMsg).step s (.checkTime i now) s' →
        (s'.PollsEmpty i ↔ ¬ s.OneStays (.checkTime i now : LoopEvent SelectAnswer)) := by
  constructor
  · intro s h
    have hp : s.Peopled := peopled_of_reachable (t := .select platform) hk h
    exact hp.not_pollsEmpty
  · intro s i now s' h hs
    exact pollsEmpty_checkTime hk h hs

end Select

/-- The only client of the worker was checked at the time `now`. -/
def checked5 (now : ℤ) : ServerLoops SelectSets Unit :=
  (next (.select .linux) EasyTcpServer.quiet joined5 (.checkTime 0 now)).getD joined5

theorem not_pollsEmpty_checked5 :
    ¬ (checked5 0).PollsEmpty 0 ∧ (checked5 60000).PollsEmpty 0 := by
  have hk : EasyTcpServer.quiet.KeepsSock := fun _ _ _ => rfl
  have hl : Legal (.select .linux) selecting accept5 := ⟨List.not_mem_nil, rfl, rfl⟩
  have h₀ : ((system (.select .linux) EasyTcpServer.quiet).guard OneStays).Reachable selecting :=
    .init ⟨1, 8, 8, 2, fun _ => 0, ⟨[], [], [], -1⟩, (), rfl⟩
  have h₁ := h₀.step (l := accept5) ⟨trivial, hl, rfl⟩
  have h₂ := h₁.step (l := LoopEvent.drain 0 0)
    ⟨trivial, show _ = some LoopPc.test from rfl, rfl⟩
  have hstays : joined5.OneStays (.checkTime 0 0 : LoopEvent SelectAnswer) := by
    intro c hc
    obtain rfl := Option.some.inj hc
    exact ⟨_, List.mem_singleton.mpr rfl, _, rfl, rfl⟩
  have h₃ := h₂.step (l := LoopEvent.checkTime 0 0) (t := checked5 0)
    ⟨hstays, show _ = some LoopPc.checkTime from rfl, rfl⟩
  have hnone : ¬ joined5.OneStays (.checkTime 0 60000 : LoopEvent SelectAnswer) := by
    intro hs
    obtain ⟨e, he, c, hc, hr⟩ := hs _ rfl
    obtain rfl := List.mem_singleton.mp he
    obtain rfl := Option.some.inj hc
    exact absurd hr (by decide)
  exact ⟨(not_pollsEmpty_while hk).1 _ h₃ 0,
    ((not_pollsEmpty_while hk).2 joined5 0 60000 (checked5 60000) joined5_reachable
      ⟨show _ = some LoopPc.checkTime from rfl, rfl⟩).mpr hnone⟩

/-- A client that is silent for a minute is the only one: the table is empty when it is
polled, and `begin()` is dereferenced. -/
theorem pollsEmpty_reachable : ∃ s : ServerLoops SelectSets Unit,
    (system (.select .linux) EasyTcpServer.quiet).Reachable s ∧ s.PollsEmpty 0 ∧
      ∀ a, next (.select .linux) EasyTcpServer.quiet s (.doNetEvent 0 a) = none := by
  refine ⟨checked5 60000, ?_, ⟨rfl, _, rfl, rfl, rfl⟩, fun a => rfl⟩
  exact joined5_reachable.step (l := LoopEvent.checkTime 0 60000)
    ⟨show _ = some LoopPc.checkTime from rfl, rfl⟩

end ServerLoops

end CellNet
