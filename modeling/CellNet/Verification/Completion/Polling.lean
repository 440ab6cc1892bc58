import CellNet.Verification.Completion.Runs

/-! The clients whose timer has run out while an operation was outstanding: whether the worker
goes on polling the port until they are released. -/

namespace CellNet

open Library Worker

/-! ### Who has left stays so -/

namespace Worker

variable {π : Type} {w w' : Worker π}

theorem onClientLeave_left {p : Ptr} (h : w.onClientLeave p = some w') :
    w'.1.left = w.1.left ++ [p] := by
  obtain ⟨n, hn, rfl⟩ := Option.map_eq_some_iff.mp h
  exact (Net.delete_spec hn).2

theorem checkClient_left {useIocp : Bool} {dt : ℤ} {e : SOCKET × Ptr}
    (h : checkClient useIocp dt w e = some w') : w.1.left ⊆ w'.1.left := by
  obtain ⟨c, -, h⟩ := Option.bind_eq_some_iff.mp h
  dsimp only at h
  split at h
  · split at h
    · obtain ⟨v, hv, h⟩ := Option.bind_eq_some_iff.mp h
      obtain rfl := Option.some.inj h
      obtain ⟨n, hn, rfl⟩ := Option.map_eq_some_iff.mp hv
      have hl : n.left = w.1.left := (Net.destroy_spec hn).2.2
      exact hl ▸ List.Subset.refl _
    · obtain ⟨v, hv, h⟩ := Option.bind_eq_some_iff.mp h
      obtain rfl := Option.some.inj h
      have hl := onClientLeave_left hv
      exact hl ▸ List.subset_append_left _ _
  · obtain rfl := Option.some.inj h
    exact List.Subset.refl _

theorem checkTime_left {useIocp : Bool} {now : ℤ} (h : checkTime useIocp now w = some w') :
    w.1.left ⊆ w'.1.left := by
  rw [checkTime] at h
  have hl := foldlM_cases (P := fun _ (v : Worker π) => w.1.left ⊆ v.1.left) ?_ ?_ h
  · exact hl
  · exact fun _ _ _ _ hs hv => List.Subset.trans hs (checkClient_left hv)
  · exact List.Subset.refl _

theorem drain_left {onClientJoin : Worker π → Ptr → Option (Worker π)}
    (hj : ∀ w p w', onClientJoin w p = some w' → w'.1.left = w.1.left)
    (h : drain onClientJoin w = some w') : w'.1.left = w.1.left := by
  rw [drain] at h
  split at h
  · obtain rfl := Option.some.inj h
    rfl
  · obtain ⟨v, hv, rfl⟩ := Option.map_eq_some_iff.mp h
    have hl := foldlM_cases (P := fun _ (v : Worker π) => v.1.left = w.1.left) ?_ rfl hv
    · exact hl
    · intro p _ u u' hu hu'
      obtain ⟨x, hx, hu'⟩ := Option.bind_eq_some_iff.mp hu'
      obtain ⟨c, -, hx⟩ := Option.bind_eq_some_iff.mp hx
      obtain rfl := Option.some.inj hx
      exact (hj _ _ _ hu').trans hu

end Worker

namespace CellIOCPServer

variable {w w' : Worker CellIOCP}

theorem onClientJoin_left {posted : SOCKET → Bool} {p : Ptr}
    (h : onClientJoin posted w p = some w') : w'.1.left = w.1.left := by
  obtain ⟨c, -, h⟩ := Option.bind_eq_some_iff.mp h
  obtain rfl := Option.some.inj h
  rfl

theorem postEntry_left {iotype : IoType} {e : SOCKET × Ptr} {posted b : Bool}
    (h : postEntry w iotype e posted = some (w', b)) : w.1.left ⊆ w'.1.left := by
  obtain ⟨c, -, h⟩ := Option.bind_eq_some_iff.mp h
  dsimp only at h
  split at h
  · obtain ⟨rfl, -⟩ := Prod.mk.inj (Option.some.inj h)
    exact List.Subset.refl _
  · split at h
    · obtain ⟨rfl, -⟩ := Prod.mk.inj (Option.some.inj h)
      exact List.Subset.refl _
    · obtain ⟨v, hv, h⟩ := Option.map_eq_some_iff.mp h
      obtain ⟨rfl, -⟩ := Prod.mk.inj h
      have hl := onClientLeave_left hv
      exact hl ▸ List.subset_append_left _ _

theorem completion_left {op : Overlapped} {bytes : List UInt8}
    (h : completion w op bytes = some w') : w.1.left ⊆ w'.1.left := by
  obtain ⟨c, -, h⟩ := Option.bind_eq_some_iff.mp h
  dsimp only at h
  split at h
  · obtain ⟨d, -, h⟩ := Option.bind_eq_some_iff.mp h
    rw [onClientLeave_left h]
    exact List.subset_append_left _ _
  · obtain rfl := Option.some.inj h
    split <;> exact List.Subset.refl _

end CellIOCPServer

namespace IocpServer

open CellIOCPServer

variable {σ : Type} {onNetMsg : Handler σ} {s s' : IocpServer σ}

theorem next_left {e : IocpEvent} (h : next onNetMsg s e = some s') :
    s.net.left ⊆ s'.net.left := by
  cases e with
  | accept cSock sendBlock recvBlock =>
      rw [next, iocpAccept] at h
      split at h
      · obtain rfl := Option.some.inj h
        exact List.Subset.refl _
      · dsimp only at h
        split at h
        · obtain rfl := Option.some.inj h
          exact List.Subset.refl _
        · rw [Net.destroySocket_accept] at h
          obtain rfl := Option.some.inj h
          exact List.Subset.refl _
  | loop now posted =>
      obtain ⟨w, hw, rfl⟩ := Option.map_eq_some_iff.mp h
      have hl := drain_left (fun _ _ _ => onClientJoin_left) hw
      split <;> exact (show w.1.left = s.net.left from hl) ▸ List.Subset.refl _
  | checkTime now =>
      obtain ⟨w, hw, rfl⟩ := Option.map_eq_some_iff.mp h
      exact checkTime_left hw
  | post posted =>
      rw [next, IocpServer.post] at h
      split at h
      · obtain ⟨r, hr, rfl⟩ := Option.map_eq_some_iff.mp h
        exact postEntry_left hr
      · obtain rfl := Option.some.inj h
        exact List.Subset.refl _
  | complete op bytes =>
      obtain ⟨w, hw, rfl⟩ := Option.map_eq_some_iff.mp h
      exact completion_left hw
  | stop | idle | error =>
      obtain rfl := Option.some.inj h
      exact List.Subset.refl _
  | doMsg =>
      rw [next, doMsg] at h
      split at h
      · obtain rfl := Option.some.inj h
        exact List.Subset.refl _
      · obtain ⟨c, hc, h⟩ := Option.bind_eq_some_iff.mp h
        split at h
        · next hm =>
            obtain ⟨r, hr, rfl⟩ := Option.map_eq_some_iff.mp h
            obtain ⟨c', hc', hr⟩ := Option.bind_eq_some_iff.mp hr
            obtain rfl := Option.some.inj (hc.symm.trans hc')
            rw [if_pos hm] at hr
            obtain rfl := Option.some.inj hr
            exact List.Subset.refl _
        · obtain rfl := Option.some.inj h
          exact List.Subset.refl _
      · obtain rfl := Option.some.inj h
        exact List.Subset.refl _

/-! ### Whether a round polls -/

/-- The table is empty after the clients that wait were taken up only if there were none. -/
theorem drain_entries {posted : SOCKET → Bool} {w w' : Worker CellIOCP}
    (h : drain (onClientJoin posted) w = some w') :
    w'.2.clients.entries = [] ↔ w.2.clients.entries = [] ∧ w.2.clientsBuff = [] := by
  rw [drain] at h
  split at h
  · next hb =>
      obtain rfl := Option.some.inj h
      exact ⟨fun he => ⟨he, hb⟩, And.left⟩
  · next hb =>
      obtain ⟨v, hv, rfl⟩ := Option.map_eq_some_iff.mp h
      have he := foldlM_cases (P := fun ps (v : Worker CellIOCP) =>
        v.2.clients.entries = [] → ps = w.2.clientsBuff) ?_ (fun _ => rfl) hv
      · exact ⟨fun hempty => absurd (he hempty).symm hb, fun hempty => absurd hempty.2 hb⟩
      · rintro p ps u u' - hu hempty
        obtain ⟨x, hx, hu⟩ := Option.bind_eq_some_iff.mp hu
        obtain ⟨c, -, hx⟩ := Option.bind_eq_some_iff.mp hx
        obtain rfl := Option.some.inj hx
        obtain ⟨d, -, hu⟩ := Option.bind_eq_some_iff.mp hu
        obtain rfl := Option.some.inj hu
        exact absurd hempty (OrderedMap.entries_insert_ne_nil u.2.clients c.sockfd p)

theorem loop_polls {now : ℤ} {posted : SOCKET → Bool} (h : s.loop now posted = some s') :
    s'.pc = .check ↔ s.server.clients.entries ≠ [] ∨ s.server.clientsBuff ≠ [] := by
  obtain ⟨w, hw, rfl⟩ := Option.map_eq_some_iff.mp h
  have he : w.2.clients.entries = [] ↔
      s.server.clients.entries = [] ∧ s.server.clientsBuff = [] := drain_entries hw
  rw [← not_and_or, ← he]
  split
  · next hempty => exact ⟨nofun, fun hn => absurd hempty hn⟩
  · next hempty => exact ⟨fun _ => hempty, fun _ => rfl⟩

/-! ### Clients that were closed and wait for an operation -/

/-- The client `p` was closed while it still had an operation outstanding. -/
def Awaited (s : IocpServer σ) (p : Ptr) : Prop :=
  s.net.sockfd? p = some SOCKET_ERROR ∧ ∃ op ∈ s.server.poller.pending, op.ptr = p

theorem awaited_iff {p : Ptr} : s.Awaited p ↔
    (∃ c, (s.view p).client = some c ∧ c.sockfd = SOCKET_ERROR) ∧ (s.view p).ops.Nonempty := by
  rw [Awaited, Net.sockfd?_eq_some]
  rfl

/-- All that can happen to it is that one of its operations is returned. -/
theorem Occurs.of_closed {p : Ptr} {e : IocpEvent} {a : Act σ} (ho : Occurs s p e a)
    (h : s.Ported) (hp : s.net.sockfd? p = some SOCKET_ERROR) :
    a = .keep ∨ ∃ op bytes, e = .complete op bytes ∧ p = op.ptr ∧
      (bytes = [] ∧ a = .fail op ∨ bytes ≠ [] ∧ a = .fill op bytes) := by
  have hc := h.closed hp
  have hentry : ∀ f ∈ s.pc.entries, p ≠ f.2 := by
    rintro f hf rfl
    exact hc.1 (List.mem_map_of_mem (h.entries.1 f hf))
  cases ho with
  | keep => exact .inl rfl
  | accept _ _ _ hp' =>
      subst hp'
      rw [Net.sockfd?_next] at hp
      cases hp
  | join hm => exact absurd hm hc.2
  | time hm => exact absurd hm hc.1
  | post hpc hp' => exact absurd hp' (hentry _ (by rw [hpc]; exact List.mem_cons_self))
  | complete hp' ha => exact .inr ⟨_, _, rfl, hp', CompleteAct.eq ha⟩
  | msg hpc hp' => exact absurd hp' (hentry _ (by rw [hpc]; exact List.mem_cons_self))

/-- `CheckTime` takes the client `p` out of the table without `OnClientLeave`: its timer has run
out, and one of its flags is set. -/
def TimedOut (s : IocpServer σ) (nowTime : ℤ) (p : Ptr) : Prop :=
  p ∈ s.server.clients.entries.map Prod.snd ∧ ∃ c, s.net.heap.get? p = some c ∧
    (c.checkHeart (nowTime - s.server.oldTime)).2 = true ∧ c.isPostIoAction = true

/-- A round begins with a client in the table or in the buffer if one is awaited; a client that
times out with a flag set has an operation outstanding; and the last operation of a closed client
is returned without bytes. -/
def PollsAwaited (s : IocpServer σ) : IocpEvent → Prop
  | .loop _ _ => (∃ p, s.Awaited p) → s.server.clients.entries ≠ [] ∨ s.server.clientsBuff ≠ []
  | .checkTime nowTime => ∀ p, s.TimedOut nowTime p →
      ∃ op ∈ s.server.poller.pending, op.ptr = p
  | .complete op bytes => bytes ≠ [] → s.net.sockfd? op.ptr = some SOCKET_ERROR →
      ∃ o ∈ s.server.poller.pending.erase op, o.ptr = op.ptr
  | _ => True

/-- It is awaited until it has left. -/
theorem Awaited.step (hk : onNetMsg.KeepsIo) (hs : s.Ported) {p : Ptr} (h : s.Awaited p)
    {e : IocpEvent} (hstep : ((returning onNetMsg).guard PollsAwaited).step s e s') :
    s'.Awaited p ∨ p ∈ s'.net.left := by
  obtain ⟨hok, hl, hn⟩ := hstep
  obtain ⟨-, hmoves⟩ := hs.step hk ⟨hl, hn⟩
  obtain ⟨a, ho, hm⟩ := hmoves p
  rw [awaited_iff] at h ⊢
  rcases ho.of_closed hs (awaited_iff.mpr h).1 with rfl | ⟨op, bytes, rfl, rfl, ha⟩
  · generalize s.view p = v at hm h
    generalize s'.view p = v' at hm ⊢
    cases hm
    exact .inl h
  · obtain ⟨⟨c, hc, hfd⟩, -⟩ := h
    rcases ha with ⟨hb, rfl⟩ | ⟨hb, rfl⟩
    · obtain ⟨t, ht, -, -, -, hleft⟩ := complete_ported onNetMsg hs hl.2.1 hc bytes
      obtain rfl := Option.some.inj (ht.symm.trans hn)
      right
      rw [(hleft hb).1]
      exact List.mem_append_right _ (List.mem_singleton.mpr rfl)
    · left
      obtain ⟨o, ho, hop⟩ := hok hb (Net.sockfd?_eq_some.mpr ⟨c, hc, hfd⟩)
      obtain ⟨d, ht⟩ := hs.tables
      have ho' := ht.pending_nodup.mem_erase_iff.mp ho
      have hmem : o ∈ (s.view op.ptr).ops \ {op} := ⟨⟨ho'.2, hop⟩, ho'.1⟩
      generalize s.view op.ptr = v at hm hc hmem
      generalize s'.view op.ptr = v' at hm ⊢
      cases hm
      obtain rfl := Option.some.inj hc
      exact ⟨⟨_, rfl, (CellClient.complete_sockfd ..).trans hfd⟩, o, hmem⟩

theorem destroy_sockfd (c : CellClient) : c.destroy.sockfd = SOCKET_ERROR := by
  rw [CellClient.destroy]
  split
  · rfl
  · next h => exact (not_not.mp h).symm

/-- The socket of a client that has timed out is closed, and its operations go on. -/
theorem TimedOut.closed {now : ℤ} {p : Ptr} (ht : s.TimedOut now p)
    (hm : Moves onNetMsg s (.checkTime now) s') :
    s'.net.sockfd? p = some SOCKET_ERROR ∧ (s'.view p).ops = (s.view p).ops := by
  obtain ⟨hin, c, hc, hdead, hflag⟩ := ht
  obtain ⟨a, ho, hmove⟩ := hm p
  have hv : s.view p = ⟨some c, (s.view p).ops⟩ := view_eq hc
  cases ho with
  | keep _ hout => exact absurd hin hout
  | time _ hact =>
      obtain ⟨d, hd, hact⟩ := hact
      rw [hv] at hd hmove
      obtain rfl := Option.some.inj hd
      rw [if_pos hdead] at hact
      rcases hact with rfl | rfl
      · generalize s'.view p = v at hmove
        cases hmove with
        | expire hidle =>
            rw [hflag] at hidle
            cases hidle
      · rw [Net.sockfd?_eq_some]
        show (∃ c', (s'.view p).client = some c' ∧ c'.sockfd = SOCKET_ERROR) ∧ _
        generalize s'.view p = v at hmove ⊢
        cases hmove with
        | detach => exact ⟨⟨_, rfl, destroy_sockfd _⟩, rfl⟩

theorem TimedOut.awaited {now : ℤ} {p : Ptr} (ht : s.TimedOut now p)
    (hm : Moves onNetMsg s (.checkTime now) s')
    (hok : s.PollsAwaited (.checkTime now)) : s'.Awaited p := by
  obtain ⟨hclosed, hops⟩ := ht.closed hm
  obtain ⟨op, hop, hp⟩ := hok p ht
  have hmem : op ∈ (s'.view p).ops := hops ▸ ⟨hop, hp⟩
  exact ⟨hclosed, op, hmem⟩

/-- The client `p` was closed and has nothing outstanding. -/
def Stranded (s : IocpServer σ) (p : Ptr) : Prop :=
  (∃ c, (s.view p).client = some c ∧ c.sockfd = SOCKET_ERROR) ∧ (s.view p).ops = ∅

/-- Nothing but one of its operations can reach a closed client. -/
theorem Stranded.step (hk : onNetMsg.KeepsIo) (hs : s.Ported) {p : Ptr} (h : s.Stranded p)
    {e : IocpEvent} (hstep : (returning onNetMsg).step s e s') : s'.Stranded p := by
  obtain ⟨-, hmoves⟩ := hs.step hk hstep
  obtain ⟨a, ho, hm⟩ := hmoves p
  rcases ho.of_closed hs (Net.sockfd?_eq_some.mpr h.1) with rfl | ⟨op, bytes, rfl, rfl, -⟩
  · rw [Stranded] at h ⊢
    generalize s.view p = v at hm h
    generalize s'.view p = v' at hm ⊢
    cases hm
    exact h
  · have hin : op ∈ (s.view op.ptr).ops := ⟨hstep.1.2.1, rfl⟩
    rw [h.2] at hin
    cases hin

/-- A client that has timed out with a flag set and nothing outstanding never leaves. -/
theorem TimedOut.stranded (hk : onNetMsg.KeepsIo) (h : (returning onNetMsg).Reachable s) {now : ℤ}
    (hs : (returning onNetMsg).step s (.checkTime now) s') {p : Ptr} (ht : s.TimedOut now p)
    (hidle : ∀ op ∈ s.server.poller.pending, op.ptr ≠ p) {es : List IocpEvent}
    {u : IocpServer σ} (hp : (returning onNetMsg).Path s' es u) :
    u.Stranded p ∧ p ∉ u.net.left := by
  obtain ⟨hs', hmoves⟩ := (ported_of_reachable hk h).step hk hs
  obtain ⟨hclosed, hops⟩ := ht.closed hmoves
  have h₀ : s'.Stranded p := ⟨Net.sockfd?_eq_some.mp hclosed,
    hops.trans (Set.eq_empty_of_forall_notMem fun op hop => hidle op hop.1 hop.2)⟩
  obtain ⟨hu, hstranded⟩ := hp.preserves (P := fun t => t.Ported ∧ t.Stranded p)
    (fun _ _ _ h hstep => ⟨(h.1.step hk hstep).1, h.2.step hk h.1 hstep⟩) ⟨hs', h₀⟩
  obtain ⟨d, hbase⟩ := hu.tables
  have hlive := (hbase.roster.live p).mpr ⟨_, Net.sockfd?_eq_some.mpr hstranded.1⟩
  exact ⟨hstranded, fun hl => List.disjoint_of_nodup_append
    (hbase.roster.ledger.symm.nodup List.nodup_range) hlive hl⟩

/-- While rounds begin with a client whenever one is awaited, a set flag of a client that times
out speaks of an operation, and the last operation of a closed client is returned without bytes,
a client that has timed out with a flag set is awaited until it has left: the next round polls the
port exactly then, and lets it go. -/
theorem polled_until_left (hk : onNetMsg.KeepsIo)
    (h : ((returning onNetMsg).guard PollsAwaited).Reachable s) {now : ℤ}
    (hs : ((returning onNetMsg).guard PollsAwaited).step s (.checkTime now) s') {p : Ptr}
    (ht : s.TimedOut now p) {es : List IocpEvent} {u : IocpServer σ}
    (hp : ((returning onNetMsg).guard PollsAwaited).Path s' es u) (hl : p ∉ u.net.left) :
    u.Awaited p ∧
    (∀ nowTime posted u', (returning onNetMsg).step u (.loop nowTime posted) u' →
      (u'.pc = .check ↔ PollsAwaited u (.loop nowTime posted))) ∧
    ∀ op, op.ptr = p → Returns u (.complete op []) →
      ∃ u', next onNetMsg u (.complete op []) = some u' ∧ u'.net.left = u.net.left ++ [p] ∧
        u'.net.clientAccept = u.net.clientAccept - 1 := by
  have hu := ported_of_reachable hk ((h.step hs).path hp).of_guard
  have ha : u.Awaited p := by
    obtain ⟨hs', hmoves⟩ := (ported_of_reachable hk h.of_guard).step hk hs.2
    have h₀ := ht.awaited hmoves hs.1
    refine ((hp.preserves (P := fun s => s.Ported ∧ (s.Awaited p ∨ p ∈ s.net.left)) ?_
      ⟨hs', .inl h₀⟩).2).resolve_right hl
    rintro s e s' ⟨hs, ha⟩ hstep
    refine ⟨(hs.step hk hstep.2).1, ?_⟩
    rcases ha with ha | ha
    · exact ha.step hk hs hstep
    · exact .inr (next_left hstep.2.2 ha)
  refine ⟨ha, fun nowTime posted u' hn => ?_, ?_⟩
  · rw [loop_polls hn.2]
    exact ⟨fun he _ => he, fun he => he ⟨p, ha⟩⟩
  · rintro op rfl hr
    obtain ⟨c, hc, -⟩ := Net.sockfd?_eq_some.mp ha.1
    obtain ⟨u', hn, -, -, -, hleft⟩ := complete_ported onNetMsg hu hr.2.1 hc []
    exact ⟨u', hn, hleft rfl⟩

/-- A client has timed out with its first receive outstanding: the port returns the receive, and
the client leaves. -/
theorem polled_until_left_joined :
    ∃ s u, next echo small accept5 = some s ∧ s.net.clientAccept = 1 ∧
      (returning echo).Reachable u ∧ u.net.left = [0] ∧ u.net.clientAccept = 0 := by
  have h₀ : ((returning echo).guard PollsAwaited).Reachable small := .init ⟨8, 8, 2, 1, 0, (), rfl⟩
  have h₁ := h₀.step (l := accept5) ⟨trivial, show (5 : SOCKET) ∉ [] from List.not_mem_nil, rfl⟩
  have h₂ := h₁.step (l := IocpEvent.loop 0 fun _ => true)
    ⟨fun _ => .inr (List.cons_ne_nil _ _), rfl, rfl⟩
  have ht : ∃ s t, ((returning echo).guard PollsAwaited).Reachable s ∧
      ((returning echo).guard PollsAwaited).step s (.checkTime 60000) t ∧ s.TimedOut 60000 0 ∧
      Returns t (.complete ⟨0, .recv, ⟨5, 0, 8⟩⟩ []) ∧ t.net.left = [] ∧ t.net.clientAccept = 1 :=
    ⟨_, _, h₂, ⟨fun p ⟨hp, _⟩ => ⟨_, List.mem_singleton.mpr rfl, (List.mem_singleton.mp hp).symm⟩,
      rfl, rfl⟩, ⟨List.mem_singleton.mpr rfl, _, rfl, rfl, rfl⟩,
      ⟨rfl, List.mem_singleton.mpr rfl, by decide⟩, rfl, rfl⟩
  obtain ⟨s, t, h₂, hs, ht, hr, hl, ha⟩ := ht
  obtain ⟨-, -, hcomplete⟩ := polled_until_left echo_keepsIo h₂ hs ht (.nil t)
    (hl ▸ List.not_mem_nil)
  obtain ⟨u, hu, hleft, haccept⟩ := hcomplete _ rfl hr
  rw [hl] at hleft
  rw [ha] at haccept
  exact ⟨_, u, rfl, rfl, (h₂.of_guard.step hs.2).step ⟨hr, hu⟩, hleft, haccept⟩

/-- It was the only client: every further round ends in front of an empty table, and the client
keeps its place among the accepted ones. -/
theorem polled_never :
    ∃ s₀ s₁ s, (system echo).Reachable s₀ ∧ (system echo).step s₀ (.checkTime 60000) s₁ ∧
      s₀.TimedOut 60000 0 ∧ (∃ op ∈ s₀.server.poller.pending, op.ptr = 0) ∧
      (system echo).Path s₁ [.idle, .doMsg] s ∧ s.pc = .top ∧
      0 ∉ s.net.left ∧ s.net.clientAccept = 1 ∧ s.Awaited 0 ∧
      ∀ nowTime posted s', (system echo).step s (.loop nowTime posted) s' →
        s'.pc = .top ∧ s'.Awaited 0 := by
  have h₀ : (system echo).Reachable small := .init ⟨8, 8, 2, 1, 0, (), rfl⟩
  have h₁ := h₀.step (l := accept5) ⟨show (5 : SOCKET) ∉ [] from List.not_mem_nil, rfl⟩
  have h₂ := h₁.step (l := IocpEvent.loop 0 fun _ => true) ⟨rfl, rfl⟩
  refine ⟨_, _, _, h₂, ⟨rfl, rfl⟩, ⟨List.mem_singleton.mpr rfl, _, rfl, rfl, rfl⟩,
    ⟨_, List.mem_singleton.mpr rfl, rfl⟩, .cons ⟨rfl, rfl⟩ (.cons ⟨⟨_, rfl⟩, rfl⟩ (.nil _)), rfl,
    List.not_mem_nil, rfl, ⟨rfl, _, List.mem_singleton.mpr rfl, rfl⟩, ?_⟩
  rintro nowTime posted s' ⟨-, hs'⟩
  obtain rfl := Option.some.inj hs'
  exact ⟨rfl, rfl, _, List.mem_singleton.mpr rfl, rfl⟩

end IocpServer

end CellNet
