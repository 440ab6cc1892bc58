import CellNet.Model.Peers
import CellNet.Verification.Loop.Views

/-! The receive buffers of the clients: a poll changes those for which it calls `RecvData`, each
once, and all other functions of a worker leave them alone. -/

namespace CellNet

open Library Worker

variable {π σ : Type}

/-! ### Functions that leave them alone -/

namespace Net

variable {n n₁ n' : Net} {p : Ptr}

theorem recvBuff?_setClient {c : CellClient} (hc : n.heap.get? p = some c) (d : CellClient)
    (q : Ptr) :
    (n.setClient p d).recvBuff? q = if q = p then some d.recvBuff else n.recvBuff? q := by
  rw [recvBuff?, setClient, Heap.get?_set hc]
  split
  · rfl
  · rfl

theorem recvBuff?_newClient (n : Net) (cSock : SOCKET) (c : CellClient) (q : Ptr) :
    ((n.accept cSock).newClient c).recvBuff? q =
      if q = n.heap.next then some c.recvBuff else n.recvBuff? q := by
  rw [recvBuff?, newClient, Heap.get?_alloc, recvBuff?, accept]
  split
  · rfl
  · rfl

/-- No client is new, and those that still live have the same receive buffers. -/
structure Spares (n n' : Net) : Prop where
  next : n'.heap.next = n.heap.next
  recvBuff : ∀ p b, n'.recvBuff? p = some b → n.recvBuff? p = some b

theorem Spares.refl (n : Net) : n.Spares n :=
  ⟨rfl, fun _ _ h => h⟩

theorem Spares.trans (h : n.Spares n₁) (h' : n₁.Spares n') : n.Spares n' :=
  ⟨h'.next.trans h.next, fun p b hp => h.recvBuff p b (h'.recvBuff p b hp)⟩

theorem spares_of_heap (h : n'.heap = n.heap) : n.Spares n' :=
  ⟨by rw [h], fun p b hp => by rwa [recvBuff?, ← h]⟩

theorem Retains.spares (h : n.Retains CellClient.recvBuff n') : n.Spares n' := by
  refine ⟨h.next, ?_⟩
  intro p b hb
  obtain ⟨d, hd, rfl⟩ := Option.map_eq_some_iff.mp hb
  obtain ⟨c, hc, hcd⟩ := h.view p d hd
  rw [recvBuff?, hc, Option.map_some, hcd]

end Net

namespace Worker

variable {w w' : Worker π}

theorem checkTime_spares {now : ℤ} (h : w.checkTime false now = some w') : w.1.Spares w'.1 :=
  (checkTime_retains (fun _ _ => rfl) h).spares

end Worker

theorem ServerT.drain_spares (t : ServerT) {w w' : Worker t.Poller}
    (h : w.drain t.onClientJoin = some w') : w.1.Spares w'.1 :=
  (drain_retains (fun _ _ => rfl) t.onClientJoin_retains h).spares

/-! ### The calls of a poll -/

namespace Worker

variable {w w₁ w' : Worker π}

/-- The removal of a client, or nothing at all. -/
structure Removal (w w' : Worker π) : Prop where
  shrinks : Shrinks w w'
  spares : w.1.Spares w'.1

theorem Removal.refl (w : Worker π) : Removal w w :=
  ⟨.refl w, .refl w.1⟩

theorem Removal.trans (h : Removal w w₁) (h' : Removal w₁ w') : Removal w w' :=
  ⟨h.shrinks.trans h'.shrinks, h.spares.trans h'.spares⟩

theorem removal_rule : WriteRule (Removal : Worker π → Worker π → Prop) where
  refl := .refl
  trans := .trans
  sendDataReal h :=
    ⟨shrinks_rule.sendDataReal h, (sendDataReal_retains (fun _ _ => rfl) h).spares⟩
  onClientLeave h := ⟨shrinks_rule.onClientLeave h, (onClientLeave_retains h).spares⟩
  eraseClient w k := ⟨shrinks_rule.eraseClient w k, .refl w.1⟩
  heap w n hn := ⟨shrinks_rule.heap w n hn, Net.spares_of_heap hn⟩
  sets w change poller := ⟨shrinks_rule.sets w change poller, .refl w.1⟩

/-- What a round of a poll does, which calls `RecvData` or does not. -/
structure Round (call : Option (Ptr × Option (List UInt8))) (w w' : Worker π) : Prop where
  shrinks : Shrinks w w'
  called : ∀ p recv b, call = some (p, recv) → w'.1.recvBuff? p = some b →
    ∃ b₀, w.1.recvBuff? p = some b₀ ∧ b = (b₀.read4socket recv).1
  others : ∀ p b, (∀ recv, call ≠ some (p, recv)) → w'.1.recvBuff? p = some b →
    w.1.recvBuff? p = some b

theorem Removal.round (h : Removal w w') : Round none w w' where
  shrinks := h.shrinks
  called := nofun
  others p b _ hb := h.spares.recvBuff p b hb

theorem Round.removal {call : Option (Ptr × Option (List UInt8))} (h : Round call w w₁)
    (h' : Removal w₁ w') : Round call w w' where
  shrinks := h.shrinks.trans h'.shrinks
  called p recv b hc hb := h.called p recv b hc (h'.spares.recvBuff p b hb)
  others p b hc hb := h.others p b hc (h'.spares.recvBuff p b hb)

theorem recvData_round {p : Ptr} {recv : Option (List UInt8)} {r : Worker π × ℤ}
    (h : w.recvData p recv = some r) : Round (some (p, recv)) w r.1 := by
  obtain ⟨c, hc, hr⟩ := Option.bind_eq_some_iff.mp h
  have hheap : r.1.1.heap = (w.1.setClient p (c.recvData recv).1).heap := by
    dsimp only at hr
    split at hr
    · obtain rfl := Option.some.inj hr
      rfl
    · obtain rfl := Option.some.inj hr
      rfl
  have hview : ∀ q, r.1.1.recvBuff? q =
      if q = p then some (c.recvBuff.read4socket recv).1 else w.1.recvBuff? q := by
    intro q
    rw [Net.recvBuff?, hheap]
    exact Net.recvBuff?_setClient hc _ q
  refine ⟨shrinks_rule.recvData h, ?_, ?_⟩
  · intro q recv' b hq hb
    obtain ⟨rfl, rfl⟩ := Prod.mk.inj (Option.some.inj hq)
    rw [hview, if_pos rfl] at hb
    exact ⟨c.recvBuff, by rw [Net.recvBuff?, hc, Option.map_some], (Option.some.inj hb).symm⟩
  · intro q b hq hb
    rwa [hview, if_neg] at hb
    rintro rfl
    exact hq recv rfl

theorem orRemove_round {rm : Worker π → Option (Worker π)} {r : Worker π × Bool} {p : Ptr}
    (hrm : ∀ {w w'}, rm w = some w' → Removal w w') {recv : Option (List UInt8)}
    (h : w.orRemove (fun w => w.recvData p recv) rm = some r) :
    Round (some (p, recv)) w r.1 := by
  obtain ⟨x, hx, h⟩ := Option.bind_eq_some_iff.mp h
  split at h
  · obtain ⟨w₁, hw, rfl⟩ := Option.map_eq_some_iff.mp h
    exact (recvData_round hx).removal (hrm hw)
  · obtain rfl := Option.some.inj h
    exact recvData_round hx

/-- A loop whose rounds call clients of its table. -/
theorem callLoop {β : Type} {body : Worker π → β → Option (Worker π)}
    {call : Worker π → β → Option (Ptr × Option (List UInt8))} {target : β → Ptr → Prop}
    (w₀ : Worker π) (hb : ∀ {w b w'}, body w b = some w' → Round (call w b) w w')
    (ht : ∀ {w b p recv}, Shrinks w₀ w → call w b = some (p, recv) → target b p) :
    CallLoop body call (fun w p => w.1.recvBuff? p) (fun recv b => (b.read4socket recv).1)
      target (Shrinks w₀) where
  inv hx hy := hx.trans (hb hy).shrinks
  target hx hc := ht hx hc
  called _ hy hc ha := (hb hy).called _ _ _ hc ha
  others _ hy hc ha := (hb hy).others _ _ hc ha

/-- What a poll that calls `RecvData` as `calls` says leaves of the clients: a receive buffer is
as it was, or as the call has left it. -/
structure ReadsBy (calls : Worker π → Ptr → Option (List UInt8) → Prop) (w w' : Worker π) :
    Prop where
  shrinks : Shrinks w w'
  buffers : ∀ p b, w'.1.recvBuff? p = some b →
    (w.1.recvBuff? p = some b ∧ ∀ w₁ recv, ¬ calls w₁ p recv) ∨
      ∃ w₁ recv b₀, calls w₁ p recv ∧ w₁.1.recvBuff? p = some b₀ ∧
        w.1.recvBuff? p = some b₀ ∧ b = (b₀.read4socket recv).1

variable {calls calls' : Worker π → Ptr → Option (List UInt8) → Prop}

theorem Removal.readsBy (h : Removal w w') (hno : ∀ w₁ p recv, ¬ calls w₁ p recv) :
    ReadsBy calls w w' where
  shrinks := h.shrinks
  buffers p b hb := .inl ⟨h.spares.recvBuff p b hb, fun w₁ recv => hno w₁ p recv⟩

theorem ReadsBy.removal (h : ReadsBy calls w w₁) (h' : Removal w₁ w') : ReadsBy calls w w' where
  shrinks := h.shrinks.trans h'.shrinks
  buffers p b hb := h.buffers p b (h'.spares.recvBuff p b hb)

/-- Something that spares the clients comes before the calls. -/
theorem ReadsBy.after (h : ReadsBy calls w₁ w') (hw : Removal w w₁)
    (hc : ∀ x p recv, calls x p recv ↔ calls' x p recv) : ReadsBy calls' w w' := by
  refine ⟨hw.shrinks.trans h.shrinks, ?_⟩
  intro p b hb
  rcases h.buffers p b hb with ⟨hb, hno⟩ | ⟨x, recv, b₀, hx, hb₁, hb₀, he⟩
  · exact .inl ⟨hw.spares.recvBuff p b hb, fun x recv hx => hno x recv ((hc x p recv).mpr hx)⟩
  · exact .inr ⟨x, recv, b₀, (hc x p recv).mp hx, hb₁, hw.spares.recvBuff p b₀ hb₀, he⟩

/-- The loops of a poll, if no client is called twice. -/
theorem readsBy_of_callLoop {β : Type} {body : Worker π → β → Option (Worker π)}
    {call : Worker π → β → Option (Ptr × Option (List UInt8))} {target : β → Ptr → Prop}
    (hl : CallLoop body call (fun w p => w.1.recvBuff? p) (fun recv b => (b.read4socket recv).1)
      target (Shrinks w)) {l : List β} (ha : CallLoop.Apart target l)
    (h : l.foldlM body w = some w') : ReadsBy (Calls body call l w) w w' where
  shrinks := hl.foldlM_inv (.refl w) h
  buffers _ _ hb := hl.view_cases (.refl w) ha h hb

end Worker

/-! ### Epoll -/

namespace CellEpollServer

theorem onEvent_round {w w' : Worker Unit} {e : EpollEvent} (h : onEvent w e = some w') :
    Round (recvCall w e) w w' := by
  obtain ⟨r, hr, h⟩ := Option.bind_eq_some_iff.mp h
  have hread : Round (recvCall w e) w r.1 := by
    rw [readEvent] at hr
    rw [recvCall]
    split at hr
    · next hin =>
        rw [if_pos hin]
        exact orRemove_round (rmClient_rule removal_rule) hr
    · next hin =>
        rw [if_neg hin]
        obtain rfl := Option.some.inj hr
        exact (Removal.refl w).round
  split at h
  · obtain rfl := Option.some.inj h
    exact hread
  · obtain ⟨x, hx, rfl⟩ := Option.map_eq_some_iff.mp h
    exact hread.removal (writeEvent_rule removal_rule hx)

theorem onEvent_callLoop (w₀ : Worker Unit) :
    CallLoop onEvent recvCall (fun w p => w.1.recvBuff? p)
      (fun recv b => (b.read4socket recv).1) (fun e p => e.ptr = p) (Shrinks w₀) := by
  apply callLoop w₀ onEvent_round
  intro w e p recv _ hc
  rw [recvCall] at hc
  split at hc
  · exact congrArg Prod.fst (Option.some.inj hc)
  · cases hc

theorem events_apart {evs : List EpollEvent} (h : (evs.map EpollEvent.ptr).Nodup) :
    CallLoop.Apart (fun (e : EpollEvent) p => e.ptr = p) evs := by
  apply (List.pairwise_map.mp h).imp
  intro e e' hne p hp hp'
  exact hne (hp.trans hp'.symm)

end CellEpollServer

/-! ### Select -/

namespace CellSelectServer

theorem readEntry_round {a : SelectAnswer} {e : SOCKET × Ptr} {w w' : Worker SelectSets}
    (h : readEntry a w e = some w') : Round (some (e.2, a.recv e.1)) w w' := by
  obtain ⟨r, hr, rfl⟩ := Option.map_eq_some_iff.mp h
  exact orRemove_round (remove_rule removal_rule) hr

theorem lookUp_callLoop (a : SelectAnswer) (w₀ : Worker SelectSets) :
    CallLoop (lookUp (readEntry a)) (lookUpCall a) (fun w p => w.1.recvBuff? p)
      (fun recv b => (b.read4socket recv).1) (fun fd p => (fd, p) ∈ w₀.2.clients.entries)
      (Shrinks w₀) := by
  apply callLoop w₀
  · intro w fd w' h
    rw [lookUp] at h
    rw [lookUpCall]
    split at h
    · next hf =>
        obtain rfl := Option.some.inj h
        rw [hf]
        exact (Removal.refl w).round
    · next p hf =>
        rw [hf]
        exact readEntry_round h
  · intro w fd p recv hs hc
    obtain ⟨q, hq, hc⟩ := Option.map_eq_some_iff.mp hc
    obtain ⟨rfl, -⟩ := Prod.mk.inj hc
    exact hs.entries (OrderedMap.find?_eq_some_iff.mp hq)

theorem entry_callLoop (a : SelectAnswer) (fdRead : CellFDSet) (w₀ : Worker SelectSets) :
    CallLoop (entryBody a fdRead) (entryCall a fdRead) (fun w p => w.1.recvBuff? p)
      (fun recv b => (b.read4socket recv).1) (fun e p => e.2 = p) (Shrinks w₀) := by
  apply callLoop w₀
  · intro w e w' h
    rw [entryBody] at h
    rw [entryCall]
    split at h
    · next hin =>
        rw [if_pos hin]
        exact readEntry_round h
    · next hin =>
        rw [if_neg hin]
        obtain rfl := Option.some.inj h
        exact (Removal.refl w).round
  · intro w e p recv _ hc
    rw [entryCall] at hc
    split at hc
    · exact congrArg Prod.fst (Option.some.inj hc)
    · cases hc

theorem lookUps_apart {set : CellFDSet} {es : List (SOCKET × Ptr)} (hset : set.Nodup)
    (hp : (es.map Prod.snd).Nodup) : CallLoop.Apart (fun fd p => (fd, p) ∈ es) set := by
  apply hset.imp
  intro fd fd' hne p hin hin'
  exact hne (congrArg Prod.fst (List.inj_on_of_nodup_map hp hin hin' rfl))

theorem entries_apart {es : List (SOCKET × Ptr)} (hp : (es.map Prod.snd).Nodup) :
    CallLoop.Apart (fun (e : SOCKET × Ptr) p => e.2 = p) es := by
  apply (List.pairwise_map.mp hp).imp
  intro e e' hne p h h'
  exact hne (h.trans h'.symm)

/-- What `ReadData` calls are clients of the table, as they were when the loop began. -/
theorem readCalls_found {platform : Platform} {a : SelectAnswer} {w w₁ : Worker SelectSets}
    (hset : w.2.poller.fdRead.Nodup) (hp : (w.2.clients.entries.map Prod.snd).Nodup) {p : Ptr}
    {recv : Option (List UInt8)} (h : ReadCalls platform a w w₁ p recv) :
    (∃ k, (k, p) ∈ w.2.clients.entries) ∧
      ∀ b, w₁.1.recvBuff? p = some b → w.1.recvBuff? p = some b := by
  cases platform with
  | windows =>
      have hl := lookUp_callLoop a w
      constructor
      · obtain ⟨before, fd, after, -, hw, hc⟩ := h
        exact ⟨fd, hl.target (hl.foldlM_inv (.refl w) hw) hc⟩
      · intro b hb
        exact hl.view_of_calls (.refl w) (lookUps_apart hset hp) h hb
  | linux =>
      have hl := entry_callLoop a w.2.poller.fdRead w
      constructor
      · obtain ⟨before, e, after, he, hw, hc⟩ := h
        obtain rfl := hl.target (hl.foldlM_inv (.refl w) hw) hc
        exact ⟨e.1, he ▸ by simp⟩
      · intro b hb
        exact hl.view_of_calls (.refl w) (entries_apart hp) h hb

theorem readData_readsBy {platform : Platform} {a : SelectAnswer} {w w' : Worker SelectSets}
    (hset : w.2.poller.fdRead.Nodup) (hp : (w.2.clients.entries.map Prod.snd).Nodup)
    (h : readData platform a w = some w') : ReadsBy (ReadCalls platform a w) w w' := by
  cases platform with
  | windows => exact readsBy_of_callLoop (lookUp_callLoop a w) (lookUps_apart hset hp) h
  | linux => exact readsBy_of_callLoop (entry_callLoop a _ w) (entries_apart hp) h

theorem not_readCalls {platform : Platform} {a : SelectAnswer} {w : Worker SelectSets}
    (hset : w.2.poller.fdRead = []) (w₁ : Worker SelectSets) (p : Ptr)
    (recv : Option (List UInt8)) : ¬ ReadCalls platform a w w₁ p recv := by
  intro h
  cases platform with
  | windows =>
      obtain ⟨before, fd, after, hl, -, -⟩ := h
      rw [hset] at hl
      exact absurd hl (by simp)
  | linux =>
      obtain ⟨before, e, after, -, -, hc⟩ := h
      rw [hset] at hc
      exact absurd hc (by simp [entryCall, CellFDSet.has])

/-- What follows a successful `select`. -/
theorem afterSelect_readsBy {platform : Platform} {a : SelectAnswer} {w : Worker SelectSets}
    {r : Worker SelectSets × Bool} (h : afterSelect platform a w = some r)
    (hset : w.2.poller.fdRead.Nodup) (hp : (w.2.clients.entries.map Prod.snd).Nodup) :
    ReadsBy (ReadCalls platform a w) w r.1 := by
  rw [afterSelect] at h
  split at h
  · next hnone =>
      obtain rfl := Option.some.inj h
      exact (Removal.refl w).readsBy (not_readCalls hnone.1)
  · obtain ⟨w₁, hread, h⟩ := Option.bind_eq_some_iff.mp h
    obtain ⟨w₂, hwrite, h⟩ := Option.bind_eq_some_iff.mp h
    obtain rfl := Option.some.inj h
    exact (readData_readsBy hset hp hread).removal (writeData_rule removal_rule hwrite)

end CellSelectServer

/-! ### Both classes -/

namespace ServerT

variable {cap : ℤ} {seated : List Seat} {waiting : List Ptr}

/-- A poll calls `RecvData` only for clients of the table, and finds their buffers as they were
when it began. -/
theorem receives_found (t : ServerT) {w w₁ : Worker t.Poller} (h : Tables cap seated waiting w)
    (hid : ∀ x ∈ seated, x.id ≠ w.2.id) {a : t.Answer} (ha : t.Answers w a) {p : Ptr}
    {recv : Option (List UInt8)} (hr : t.Receives w a w₁ p recv) :
    (∃ k, (k, p) ∈ w.2.clients.entries) ∧
      ∀ b, w₁.1.recvBuff? p = some b → w.1.recvBuff? p = some b := by
  cases t with
  | epoll =>
      obtain ⟨n, evs, hn, rfl, hc⟩ := hr
      obtain ⟨hnd, hreg⟩ := ha n evs hn rfl
      have hl := CellEpollServer.onEvent_callLoop (n, w.2)
      constructor
      · obtain ⟨before, ev, after, rfl, hw, hcall⟩ := hc
        obtain rfl := hl.target (hl.foldlM_inv (.refl _) hw) hcall
        obtain ⟨g, hg, hge, hgp, -⟩ := hreg ev (by simp)
        obtain ⟨n', hn', ht⟩ := CellEpollServer.modClients_tables h
        obtain rfl := Option.some.inj (hn.symm.trans hn')
        obtain ⟨e, he, hin⟩ := CellEpollServer.registered_here ht hid hg hge
        exact ⟨e.1, hgp ▸ he ▸ hin⟩
      · intro b hb
        have hb' := hl.view_of_calls (.refl _) (CellEpollServer.events_apart hnd) hc hb
        rwa [Net.recvBuff?, CellEpollServer.modClients_heap hn] at hb'
  | select platform =>
      obtain ⟨s, x, read, write, hs, hx, hres, hc⟩ := hr
      obtain ⟨hnd, -, -, -⟩ := ha s x read write hs hx hres
      obtain ⟨change, sets, rfl⟩ := CellSelectServer.prepareRead_cases hs
      apply CellSelectServer.readCalls_found hnd _ hc
      exact h.ptr_nodup

theorem doNetEvent_readsBy (t : ServerT) {w : Worker t.Poller}
    (h : Tables cap seated waiting w) {a : t.Answer} (ha : t.Answers w a)
    {r : Worker t.Poller × Bool} (hd : t.doNetEvent w a = some r) :
    ReadsBy (t.Receives w a) w r.1 := by
  cases t with
  | epoll =>
      obtain ⟨n, hn, hd⟩ := Option.bind_eq_some_iff.mp hd
      have hheap := CellEpollServer.modClients_heap hn
      have hmod : Removal w (n, w.2) := removal_rule.heap w n hheap
      cases a with
      | error =>
          obtain rfl := Option.some.inj hd
          apply hmod.readsBy
          intro w₁ p recv hr
          obtain ⟨n', evs, -, he, -⟩ := hr
          cases he
      | events evs =>
          obtain ⟨w', hw, rfl⟩ := Option.map_eq_some_iff.mp hd
          have happ := CellEpollServer.events_apart (ha n evs hn rfl).1
          apply (readsBy_of_callLoop (CellEpollServer.onEvent_callLoop (n, w.2)) happ hw).after hmod
          intro x p recv
          constructor
          · exact fun hc => ⟨n, evs, hn, rfl, hc⟩
          · intro hr
            obtain ⟨n', evs', hn', he, hc⟩ := hr
            obtain rfl := Option.some.inj (hn.symm.trans hn')
            obtain rfl := EpollAnswer.events.inj he
            exact hc
  | select platform =>
      obtain ⟨s, hs, hd⟩ := Option.bind_eq_some_iff.mp hd
      obtain ⟨x, hx, hd⟩ := Option.bind_eq_some_iff.mp hd
      obtain ⟨change, sets, rfl⟩ := CellSelectServer.prepareRead_cases hs
      have hset : ∀ change sets,
          Removal w (w.1, { w.2 with clientsChange := change, poller := sets }) :=
        removal_rule.sets w
      split at hd
      · next eintr hres =>
          obtain rfl := Option.some.inj hd
          apply (hset _ _).readsBy
          intro w₁ p recv hr
          obtain ⟨s', x', read, write, -, -, he, -⟩ := hr
          rw [hres] at he
          cases he
      · next read write hres =>
          have hnd := (ha _ x read write hs hx hres).1
          apply (CellSelectServer.afterSelect_readsBy hd hnd h.ptr_nodup).after (hset _ _)
          intro w₁ p recv
          constructor
          · exact fun hc => ⟨_, x, read, write, hs, hx, hres, hc⟩
          · intro hr
            obtain ⟨s', x', read', write', hs', hx', hres', hc⟩ := hr
            obtain rfl := Option.some.inj (hs.symm.trans hs')
            obtain rfl := Option.some.inj (hx.symm.trans hx')
            obtain ⟨rfl, rfl⟩ := SelectResult.ready.inj (hres.symm.trans hres')
            exact hc

end ServerT

end CellNet
