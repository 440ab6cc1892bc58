import CellNet.Verification.Service.Akin

/-! The answers of the kernel to the two classes of workers. Whatever it answers one of them, it can
answer the other so that the same calls are made for each client; and these decide what becomes of
the clients, of the table and of the counters. -/

namespace CellNet

open Library Worker

variable {π π' : Type}

/-! ### What the calls of a poll decide -/

namespace Worker

variable {cap cap' : ℤ} {seated seated' : List Seat} {waiting waiting' : List Ptr}
  {io io' : Ptr → Io} {w x : Worker π} {w' x' : Worker π'}

/-- What a poll that makes the calls `io` has to do with the roster and with its own table. -/
structure Polled (cap : ℤ) (seated : List Seat) (waiting : List Ptr) (io : Ptr → Io)
    (w x : Worker π) : Prop where
  served : Served io w x
  shrinks : Shrinks w x
  before : Tables cap seated waiting w
  after : Tables cap seated waiting x
  id : x.2.id = w.2.id
  oldTime : x.2.oldTime = w.2.oldTime

/-- The clients that are not in the table any more have left. -/
theorem Polled.balance (h : Polled cap seated waiting io w x) :
    (w.2.clients.entries.map Prod.snd ++ w.1.left).Perm
        (x.2.clients.entries.map Prod.snd ++ x.1.left) ∧
      w.1.clientAccept - w.2.clients.size = x.1.clientAccept - x.2.clients.size ∧
      w.1.clientJoin - w.2.clients.size = x.1.clientJoin - x.2.clients.size := by
  have hbuff := h.shrinks.clientsBuff
  have haccept := h.before.accepted
  have hjoin := h.before.joined
  have haccept' := h.after.accepted
  have hjoin' := h.after.joined
  have hledger := h.before.ledger.trans (h.served.next ▸ h.after.ledger.symm)
  simp only [CellServer.seats, hbuff, List.length_append, List.length_map, List.length_nil,
    Nat.cast_add, OrderedMap.size] at haccept hjoin haccept' hjoin' ⊢
  refine ⟨?_, by omega, by omega⟩
  have hcancel : ∀ es es' os bs bs' ls ls' : List Ptr, (es ++ os ++ bs ++ bs' ++ [] ++ ls).Perm
      (es' ++ os ++ bs ++ bs' ++ [] ++ ls') → (es ++ ls).Perm (es' ++ ls') := by
    intro es es' os bs bs' ls ls' hp
    rw [List.perm_iff_count] at hp ⊢
    intro p
    have hcount := hp p
    simp only [List.count_append, List.append_nil] at hcount ⊢
    omega
  simp only [members, CellServer.seats, List.map_append, List.map_map, hbuff] at hledger
  simp only [← List.append_assoc] at hledger
  exact hcancel _ _ _ _ _ _ _ hledger

theorem Polled.mem_clients (h : Polled cap seated waiting io w x) (e : SOCKET × Ptr) :
    e ∈ x.2.clients.entries ↔ e ∈ w.2.clients.entries ∧ ∃ c, x.1.heap.get? e.2 = some c := by
  constructor
  · intro he
    obtain ⟨c, hc, -⟩ := h.after.get? he
    exact ⟨h.shrinks.entries he, c, hc⟩
  · intro he
    obtain ⟨he, c, hc⟩ := he
    obtain ⟨k, hk⟩ := h.before.seat_of_live h.after h.shrinks.clientsBuff he
      (Net.sockfd?_eq_some.mpr ⟨c, hc, rfl⟩)
    have heq := List.inj_on_of_nodup_map h.before.ptr_nodup (h.shrinks.entries hk) he rfl
    exact heq ▸ hk

/-- Polls that make the same calls for the clients that live have the same outcome. -/
theorem Polled.akin (hw : Akin w w') (h : Polled cap seated waiting io w x)
    (h' : Polled cap' seated' waiting' io' w' x')
    (hio : ∀ p, w.1.heap.get? p = none ∨ io p = io' p) : Akin x x' := by
  have hheap : x'.1.heap = x.1.heap := by
    apply Heap.ext_get?
    · rw [h'.served.next, h.served.next, hw.net.heap]
    · intro p
      rw [h'.served.client, h.served.client, hw.net.heap]
      rcases hio p with hp | hp <;> simp [hp]
  have hclients : x'.2.clients = x.2.clients := by
    apply OrderedMap.ext_mem
    intro e
    rw [h'.mem_clients, h.mem_clients, hheap, hw.server.clients]
  have hreceipts : receipts io' w'.1 = receipts io w.1 := by
    rw [receipts, receipts, hw.net.heap]
    apply Finset.sum_congr rfl
    intro p _
    rcases hio p with hp | hp <;> simp [hp]
  obtain ⟨hleft, haccept, hjoin⟩ := h.balance
  obtain ⟨hleft', haccept', hjoin'⟩ := h'.balance
  rw [hw.server.clients, hclients] at hleft' haccept' hjoin'
  constructor
  · constructor
    case heap => exact hheap
    case recvCount => rw [h'.served.recvCount, h.served.recvCount, hw.net.recvCount, hreceipts]
    case clientAccept =>
      rw [hw.net.clientAccept] at haccept'
      omega
    case msgCount => rw [h'.served.msgCount, h.served.msgCount, hw.net.msgCount]
    case clientJoin =>
      rw [hw.net.clientJoin] at hjoin'
      omega
    case left =>
      have hp := (hleft'.symm.trans (hw.net.left.append_left _)).trans hleft
      exact (List.perm_append_left_iff _).mp hp
    case openSocks =>
      have hsub' := h'.served.closes.openSocks
      rw [hw.net.openSocks] at hsub'
      apply (h.before.openNodup.perm_iff_eq_of_sublist hsub' h.served.closes.openSocks).mp
      rw [List.perm_ext_iff_of_nodup h'.after.openNodup h.after.openNodup]
      intro fd
      rw [h'.after.opens, h.after.opens]
      simp only [Net.sockfd?, hheap]
  · constructor
    case id => rw [h'.id, h.id, hw.server.id]
    case clients => exact hclients
    case clientsBuff => rw [h'.shrinks.clientsBuff, h.shrinks.clientsBuff, hw.server.clientsBuff]
    case oldTime => rw [h'.oldTime, h.oldTime, hw.server.oldTime]

theorem oldTime_rule : PollRule fun w w' : Worker π => w'.2.oldTime = w.2.oldTime where
  refl _ := rfl
  trans h h' := h'.trans h
  sendDataReal h := by rw [sendDataReal_snd h]
  onClientLeave h := by rw [(onClientLeave_spec h).2]
  eraseClient _ _ := rfl
  heap _ _ _ := rfl
  sets _ _ _ := rfl
  recvData h := by rw [recvData_snd h]

end Worker

theorem ServerT.Reports.answers {t : ServerT} {w : Worker t.Poller} {a : t.Answer}
    (h : t.Reports w a) : t.Answers w a := by
  cases t with
  | epoll => exact h
  | select platform => exact h.2

theorem ServerT.doNetEvent_polled (t : ServerT) {cap : ℤ} {seated : List Seat}
    {waiting : List Ptr} {w : Worker t.Poller} (ht : Tables cap seated waiting w)
    (hid : ∀ x ∈ seated, x.id ≠ w.2.id) {a : t.Answer} (hr : t.Reports w a)
    {r : Worker t.Poller × Bool} (h : t.doNetEvent w a = some r) :
    Polled cap seated waiting (t.io w a) w r.1 := by
  obtain ⟨x, b, hx, ht', hid'⟩ := t.doNetEvent_tables ht hid hr
  obtain rfl := Option.some.inj (h.symm.trans hx)
  exact {
    served := t.doNetEvent_served ht hr.answers h
    shrinks := t.doNetEvent_rule shrinks_rule h
    before := ht
    after := ht'
    id := hid'
    oldTime := t.doNetEvent_rule oldTime_rule h }

/-! ### The same calls from the other class -/

/-- What `select` left of the descriptors of the table, as events. -/
def SelectAnswer.events (a : SelectAnswer) (clients : OrderedMap SOCKET Ptr)
    (read write : CellFDSet) : List EpollEvent :=
  (clients.entries.filter fun e => decide (e.1 ∈ read ∨ e.1 ∈ write)).map fun e =>
    ⟨e.2, decide (e.1 ∈ read), decide (e.1 ∈ write), a.recv e.1, a.ret e.1⟩

/-- An answer of `select`, as one of `epoll_wait`. A wait that was interrupted is one without an
event. -/
def SelectAnswer.asEpoll (a : SelectAnswer) (clients : OrderedMap SOCKET Ptr) : EpollAnswer :=
  match a.result with
  | .error eintr => if eintr then .events [] else .error
  | .ready read write => .events (a.events clients read write)

/-- The event for the descriptor `fd`. -/
def EpollEvent.of (clients : OrderedMap SOCKET Ptr) (evs : List EpollEvent) (fd : SOCKET) :
    Option EpollEvent :=
  (clients.find? fd).bind fun p => evs.find? fun ev => decide (ev.ptr = p)

/-- The descriptors of the table for which there is such an event. -/
def EpollEvent.fds (clients : OrderedMap SOCKET Ptr) (evs : List EpollEvent)
    (flag : EpollEvent → Bool) : CellFDSet :=
  (clients.entries.map Prod.fst).filter fun fd => (EpollEvent.of clients evs fd).any flag

/-- Events, as an answer of `select`. -/
def EpollEvent.asSelect (clients : OrderedMap SOCKET Ptr) (evs : List EpollEvent) :
    SelectAnswer where
  result := .ready (EpollEvent.fds clients evs EpollEvent.epollin)
    (EpollEvent.fds clients evs EpollEvent.epollout)
  recv fd := (EpollEvent.of clients evs fd).bind EpollEvent.recv
  ret fd := ((EpollEvent.of clients evs fd).map EpollEvent.ret).getD 0

def EpollAnswer.asSelect (clients : OrderedMap SOCKET Ptr) : EpollAnswer → SelectAnswer
  | .error => ⟨.error false, fun _ => none, fun _ => 0⟩
  | .events evs => EpollEvent.asSelect clients evs

section Answers

variable {clients : OrderedMap SOCKET Ptr}

theorem SelectAnswer.ptrs_events (a : SelectAnswer) (read write : CellFDSet) :
    (a.events clients read write).map EpollEvent.ptr =
      (clients.entries.filter fun e => decide (e.1 ∈ read ∨ e.1 ∈ write)).map Prod.snd := by
  simp [SelectAnswer.events]

theorem SelectAnswer.nodup_events (hd : (clients.entries.map Prod.snd).Nodup) (a : SelectAnswer)
    (read write : CellFDSet) : ((a.events clients read write).map EpollEvent.ptr).Nodup := by
  rw [a.ptrs_events]
  exact (List.filter_sublist.map _).nodup hd

theorem SelectAnswer.io_asEpoll (hd : (clients.entries.map Prod.snd).Nodup) (a : SelectAnswer)
    (p : Ptr) : CellEpollServer.io (a.asEpoll clients) p = CellSelectServer.io clients a p := by
  cases hr : a.result with
  | error eintr => cases eintr <;> simp [asEpoll, hr, CellEpollServer.io, CellSelectServer.io]
  | ready read write =>
      simp only [asEpoll, hr, CellSelectServer.io]
      by_cases hp : ∃ e ∈ clients.entries, e.2 = p
      · obtain ⟨e, he, rfl⟩ := hp
        rw [CellSelectServer.seatIo_of_mem hd he]
        by_cases hm : e.1 ∈ read ∨ e.1 ∈ write
        · have hev : (⟨e.2, decide (e.1 ∈ read), decide (e.1 ∈ write), a.recv e.1,
              a.ret e.1⟩ : EpollEvent) ∈ a.events clients read write :=
            List.mem_map.mpr ⟨e, List.mem_filter.mpr ⟨he, decide_eq_true hm⟩, rfl⟩
          refine (CellEpollServer.io_event (a.nodup_events hd read write) hev).trans ?_
          simp [EpollEvent.io, SelectAnswer.io]
        · rw [CellEpollServer.io_other]
          · obtain ⟨hnr, hnw⟩ := not_or.mp hm
            simp [SelectAnswer.io, hnr, hnw, Io.idle]
          · intro hin
            rw [a.ptrs_events] at hin
            obtain ⟨f, hf, hfe⟩ := List.mem_map.mp hin
            obtain ⟨hf, hfm⟩ := List.mem_filter.mp hf
            obtain rfl := List.inj_on_of_nodup_map hd hf he hfe
            exact hm (of_decide_eq_true hfm)
      · rw [CellSelectServer.seatIo_of_not_mem fun e he hep => hp ⟨e, he, hep⟩,
          CellEpollServer.io_other]
        intro hin
        rw [a.ptrs_events] at hin
        obtain ⟨f, hf, hfe⟩ := List.mem_map.mp hin
        exact hp ⟨f, List.mem_of_mem_filter hf, hfe⟩

theorem EpollEvent.of_key {evs : List EpollEvent} {e : SOCKET × Ptr} (he : e ∈ clients.entries) :
    EpollEvent.of clients evs e.1 = evs.find? fun ev => decide (ev.ptr = e.2) := by
  rw [EpollEvent.of, OrderedMap.find?_eq_some_iff.mpr he, Option.bind_some]

theorem EpollEvent.mem_fds {evs : List EpollEvent} {flag : EpollEvent → Bool}
    {e : SOCKET × Ptr} (he : e ∈ clients.entries) :
    e.1 ∈ EpollEvent.fds clients evs flag ↔
      ((evs.find? fun ev => decide (ev.ptr = e.2)).any flag) = true := by
  rw [EpollEvent.fds, List.mem_filter, EpollEvent.of_key he]
  simp only [and_iff_right_iff_imp]
  intro _
  exact List.mem_map_of_mem he

/-- All events are for clients of the table. -/
theorem EpollEvent.io_asSelect {evs : List EpollEvent}
    (hd : (clients.entries.map Prod.snd).Nodup)
    (hin : ∀ ev ∈ evs, ∃ e ∈ clients.entries, e.2 = ev.ptr) (p : Ptr) :
    CellSelectServer.io clients (EpollEvent.asSelect clients evs) p =
      CellEpollServer.io (.events evs) p := by
  change CellSelectServer.seatIo clients ((EpollEvent.asSelect clients evs).io
    (EpollEvent.fds clients evs EpollEvent.epollin)
    (EpollEvent.fds clients evs EpollEvent.epollout)) p = _
  by_cases hp : ∃ e ∈ clients.entries, e.2 = p
  · obtain ⟨e, he, rfl⟩ := hp
    rw [CellSelectServer.seatIo_of_mem hd he]
    cases hf : evs.find? fun ev => decide (ev.ptr = e.2) with
    | none =>
        simp [SelectAnswer.io, EpollEvent.mem_fds he, hf, CellEpollServer.io, Io.idle]
    | some ev =>
        simp [SelectAnswer.io, EpollEvent.mem_fds he, EpollEvent.of_key he, hf,
          CellEpollServer.io, EpollEvent.io, EpollEvent.asSelect]
  · rw [CellSelectServer.seatIo_of_not_mem fun e he hep => hp ⟨e, he, hep⟩,
      CellEpollServer.io_other]
    intro hm
    obtain ⟨ev, hev, hep⟩ := List.mem_map.mp hm
    obtain ⟨e, he, hee⟩ := hin ev hev
    exact hp ⟨e, he, hee.trans hep⟩

end Answers

/-! ### The kernel may answer so -/

section Kernel

variable {cap cap' : ℤ} {seated seated' : List Seat} {waiting waiting' : List Ptr}

/-- Each client is registered, and asked for what it needs. -/
theorem asEpoll_reports {w : Worker SelectSets} {w' : Worker Unit} (hw : Akin w w')
    (ht : Tables cap seated waiting w') (hid : ∀ x ∈ seated, x.id ≠ w'.2.id)
    (he : ∀ e ∈ w'.2.clients.entries, w'.2.seat e ∈ w'.1.enrolled) {platform : Platform}
    {a : SelectAnswer} (ha : CellSelectServer.Leaves w a) {r : Worker SelectSets × Bool}
    (h : CellSelectServer.doNetEvent platform w a = some r) :
    CellEpollServer.Reports w' (a.asEpoll w'.2.clients) := by
  intro n evs hn hevs
  cases hres : a.result with
  | error eintr =>
      cases eintr with
      | false => simp [SelectAnswer.asEpoll, hres] at hevs
      | true =>
          simp only [SelectAnswer.asEpoll, hres, if_true] at hevs
          obtain rfl := EpollAnswer.events.inj hevs
          exact ⟨.nil, nofun⟩
  | ready read write =>
      simp only [SelectAnswer.asEpoll, hres] at hevs
      obtain rfl := EpollAnswer.events.inj hevs
      refine ⟨a.nodup_events ht.ptr_nodup read write, ?_⟩
      intro ev hev
      obtain ⟨e, hmem, rfl⟩ := List.mem_map.mp hev
      have hin : e ∈ w'.2.clients.entries := List.mem_of_mem_filter hmem
      have hseat := he e hin
      rw [← CellEpollServer.modClients_enrolled ht hn] at hseat
      obtain ⟨g, hg, hgs⟩ := List.mem_map.mp hseat
      refine ⟨g, hg, congrArg Seat.id hgs, congrArg Seat.ptr hgs, ?_⟩
      intro hout
      obtain ⟨s, hs, h⟩ := Option.bind_eq_some_iff.mp h
      obtain ⟨x, hx, -⟩ := Option.bind_eq_some_iff.mp h
      obtain ⟨change, sets, rfl⟩ := CellSelectServer.prepareRead_cases hs
      obtain ⟨-, -, -, hsub⟩ := ha _ x read write hs hx hres
      obtain ⟨f, hf, hk, hneed⟩ :=
        ((CellSelectServer.writeSet_spec hx).1 e.1).mp (hsub (of_decide_eq_true hout))
      rw [← hw.server.clients] at hf
      obtain rfl := OrderedMap.eq_of_key hf hin hk
      obtain ⟨c, hc, hgo⟩ := (CellEpollServer.modClients_upToDate ht hid hn g hg
        (congrArg Seat.id hgs)).resolve_left nofun
      have hp : g.ptr = f.2 := congrArg Seat.ptr hgs
      rw [CellEpollServer.modClients_heap hn, hw.net.heap, hp] at hc
      simpa [CellSelectServer.needWrite, hc, ← hgo] using hneed

/-- The sets for `select` have the sockets of the table. -/
theorem CellSelectServer.prepareRead_fdRead {n : Net} {s s' : CellServer SelectSets}
    (h : CellSelectServer.SetsOk s) (hp : CellSelectServer.prepareRead n s = some s')
    {fd : SOCKET} : fd ∈ s'.poller.fdRead ↔ ∃ e ∈ s.clients.entries, e.1 = fd := by
  rw [CellSelectServer.prepareRead] at hp
  split at hp
  · obtain ⟨first, rest, fd, -, -, rfl⟩ := CellSelectServer.rebuild_cases hp
    exact CellSelectServer.mem_readSet
  · next hb =>
      obtain rfl := Option.some.inj hp
      obtain ⟨first, rest, -, hbak, -⟩ := h (Bool.eq_false_iff.mpr hb)
      dsimp only
      rw [hbak]
      exact CellSelectServer.mem_readSet

theorem asSelect_reports {w : Worker Unit} {w' : Worker SelectSets} (hw : Akin w w')
    (ht : Tables cap seated waiting w) (hid : ∀ x ∈ seated, x.id ≠ w.2.id)
    (hsets : CellSelectServer.SetsOk w'.2) (hne : w'.2.clients.entries ≠ []) {a : EpollAnswer}
    (ha : CellEpollServer.Reports w a) :
    CellSelectServer.Reports w' (a.asSelect w'.2.clients) := by
  refine ⟨hne, ?_⟩
  intro s x read write hs hx hres
  cases a with
  | error => cases hres
  | events evs =>
      obtain ⟨rfl, rfl⟩ := SelectResult.ready.inj hres
      have hkeys : ∀ flag, (EpollEvent.fds w'.2.clients evs flag).Nodup :=
        fun flag => w'.2.clients.keys_nodup.filter _
      refine ⟨hkeys _, ?_, hkeys _, ?_⟩
      · intro fd hfd
        rw [CellSelectServer.prepareRead_fdRead hsets hs]
        exact List.mem_map.mp (List.mem_of_mem_filter hfd)
      · intro fd hfd
        obtain ⟨change, sets, rfl⟩ := CellSelectServer.prepareRead_cases hs
        obtain ⟨e, he, rfl⟩ := List.mem_map.mp (List.mem_of_mem_filter hfd)
        rw [EpollEvent.mem_fds he, Option.any_eq_true] at hfd
        obtain ⟨ev, hev, hout⟩ := hfd
        have hptr : ev.ptr = e.2 := by simpa using List.find?_some hev
        obtain ⟨n, hn, -⟩ := CellEpollServer.modClients_tables ht
        obtain ⟨g, hg, hid', hp, hgo⟩ := (ha n evs hn rfl).2 ev (List.mem_of_find?_eq_some hev)
        obtain ⟨c, hc, hneed⟩ :=
          (CellEpollServer.modClients_upToDate ht hid hn g hg hid').resolve_left nofun
        rw [CellEpollServer.modClients_heap hn, hp, hptr] at hc
        rw [(CellSelectServer.writeSet_spec hx).1]
        refine ⟨e, he, rfl, ?_⟩
        simp [CellSelectServer.needWrite, hw.net.heap, hc, ← hneed, hgo hout]

/-- An event is for a client of the table. -/
theorem reports_mem {w : Worker Unit} (ht : Tables cap seated waiting w)
    (hid : ∀ x ∈ seated, x.id ≠ w.2.id) {evs : List EpollEvent}
    (ha : CellEpollServer.Reports w (.events evs)) :
    ∀ ev ∈ evs, ∃ e ∈ w.2.clients.entries, e.2 = ev.ptr := by
  intro ev hev
  obtain ⟨n, hn, ht'⟩ := CellEpollServer.modClients_tables ht
  obtain ⟨g, hg, hge, hp, -⟩ := (ha n evs hn rfl).2 ev hev
  obtain ⟨e, hep, he⟩ := CellEpollServer.registered_here ht' hid hg hge
  exact ⟨e, he, hep.trans hp⟩

theorem afterSelect_result {platform : Platform} {a : SelectAnswer} {w : Worker SelectSets}
    {r : Worker SelectSets × Bool}
    (h : CellSelectServer.afterSelect platform a w = some r) : r.2 = true := by
  rw [CellSelectServer.afterSelect] at h
  split at h
  · obtain rfl := Option.some.inj h
    rfl
  · obtain ⟨w₁, -, h⟩ := Option.bind_eq_some_iff.mp h
    obtain ⟨w₂, -, h⟩ := Option.bind_eq_some_iff.mp h
    obtain rfl := Option.some.inj h
    rfl

/-- Both loops go on, or both end. -/
theorem asEpoll_result {platform : Platform} {w : Worker SelectSets} {w' : Worker Unit}
    {a : SelectAnswer} {clients : OrderedMap SOCKET Ptr} (r : Worker SelectSets × Bool)
    (r' : Worker Unit × Bool) (h : CellSelectServer.doNetEvent platform w a = some r)
    (h' : CellEpollServer.doNetEvent w' (a.asEpoll clients) = some r') : r'.2 = r.2 := by
  obtain ⟨s, -, h⟩ := Option.bind_eq_some_iff.mp h
  obtain ⟨x, -, h⟩ := Option.bind_eq_some_iff.mp h
  obtain ⟨n, -, h'⟩ := Option.bind_eq_some_iff.mp h'
  cases hres : a.result with
  | error eintr =>
      rw [hres] at h
      obtain rfl := Option.some.inj h
      cases eintr with
      | false =>
          simp only [SelectAnswer.asEpoll, hres] at h'
          obtain rfl := Option.some.inj h'
          rfl
      | true =>
          simp only [SelectAnswer.asEpoll, hres] at h'
          obtain ⟨w₁, -, rfl⟩ := Option.map_eq_some_iff.mp h'
          rfl
  | ready read write =>
      simp only [SelectAnswer.asEpoll, hres] at h'
      obtain ⟨w₁, -, rfl⟩ := Option.map_eq_some_iff.mp h'
      rw [hres] at h
      exact (afterSelect_result h).symm

theorem asSelect_result {platform : Platform} {w : Worker Unit} {w' : Worker SelectSets}
    {a : EpollAnswer} {clients : OrderedMap SOCKET Ptr} (r : Worker Unit × Bool)
    (r' : Worker SelectSets × Bool) (h : CellEpollServer.doNetEvent w a = some r)
    (h' : CellSelectServer.doNetEvent platform w' (a.asSelect clients) = some r') :
    r'.2 = r.2 := by
  obtain ⟨n, -, h⟩ := Option.bind_eq_some_iff.mp h
  obtain ⟨s, -, h'⟩ := Option.bind_eq_some_iff.mp h'
  obtain ⟨x, -, h'⟩ := Option.bind_eq_some_iff.mp h'
  cases a with
  | error =>
      obtain rfl := Option.some.inj h
      obtain rfl := Option.some.inj h'
      rfl
  | events evs =>
      obtain ⟨w₁, -, rfl⟩ := Option.map_eq_some_iff.mp h
      exact afterSelect_result h'

theorem EpollAnswer.io_asSelect {w : Worker Unit} (ht : Tables cap seated waiting w)
    (hid : ∀ x ∈ seated, x.id ≠ w.2.id) {a : EpollAnswer} (ha : CellEpollServer.Reports w a)
    (p : Ptr) :
    CellSelectServer.io w.2.clients (a.asSelect w.2.clients) p = CellEpollServer.io a p := by
  cases a with
  | error => rfl
  | events evs => exact EpollEvent.io_asSelect ht.ptr_nodup (reports_mem ht hid ha) p

end Kernel

end CellNet
