import CellNet.Verification.Client.Objects

/-! What `OnNetMsg` may do to the client object while `DoMsg` and `OnRun` wait for it: the client
and the event array that they go on with have to be the ones they had. -/

namespace CellNet

open Library EasyClient

variable {kind : EasyKind} {e : EasyClient} {s t : EasyRun} {p i ret : ℕ} {a : Option ℕ}

/-- The array and the client of an event that is being handled are those of the object. -/
structure EasyClient.AtEvent (e : EasyClient) (a : Option ℕ) (i ret p : ℕ) : Prop where
  index : i = 0
  ret : ret = 1
  array : a ≠ none
  pEvents : e.pEvents = a
  pClient : e.pClient = some p

def RecvCaller.Ok (e : EasyClient) : RecvCaller → Prop
  | .user => True
  | .select _ => e.pClient ≠ none
  | .epoll events i ret p => e.AtEvent events i ret p

def DoMsgCaller.Ok (e : EasyClient) : DoMsgCaller → Prop
  | .user => e.pClient ≠ none
  | .recvData _ caller => e.pClient ≠ none ∧ caller.Ok e

def ClientPc.Ok (e : EasyClient) : ClientPc → Prop
  | .user => True
  | .recvData caller => caller.Ok e
  | .hasMsg caller => caller.Ok e
  | .popFrontMsg caller => caller.Ok e
  | .received _ caller => caller.Ok e
  | .selectWrite _ => e.pClient ≠ none
  | .events a i ret => ret ≤ 1 ∧ (i < ret → a ≠ none ∧ e.pEvents = a)
  | .epollWrite a i ret p => e.AtEvent a i ret p

/-- A waiting `OnRun` is at its only event. -/
def DoMsgCaller.Waits : DoMsgCaller → Prop
  | .recvData _ (.epoll events i ret _) => i = 0 ∧ ret = 1 ∧ events ≠ none
  | _ => True

theorem DoMsgCaller.Ok.pClient {caller : DoMsgCaller} (h : caller.Ok e) : e.pClient ≠ none := by
  cases caller with
  | user => exact h
  | recvData n caller => exact h.1

theorem DoMsgCaller.Ok.waits {caller : DoMsgCaller} (h : caller.Ok e) : caller.Waits := by
  cases caller with
  | user => trivial
  | recvData n caller =>
      cases caller with
      | user => trivial
      | select sock => trivial
      | epoll events i ret p => exact ⟨h.2.index, h.2.ret, h.2.array⟩

/-- Writing to the client leaves the places as they are. -/
theorem RecvCaller.Ok.congr {caller : RecvCaller} {e' : EasyClient} (h : caller.Ok e)
    (hp : e'.pClient = e.pClient) (ha : e'.pEvents = e.pEvents) : caller.Ok e' := by
  cases caller with
  | user => trivial
  | select sock =>
      intro hn
      exact h (hp ▸ hn)
  | epoll events i ret p => exact ⟨h.index, h.ret, h.array, ha.trans h.pEvents, hp.trans h.pClient⟩

theorem DoMsgCaller.Ok.congr {caller : DoMsgCaller} {e' : EasyClient} (h : caller.Ok e)
    (hp : e'.pClient = e.pClient) (ha : e'.pEvents = e.pEvents) : caller.Ok e' := by
  cases caller with
  | user =>
      intro hn
      exact h (hp ▸ hn)
  | recvData n caller => exact ⟨fun hn => h.1 (hp ▸ hn), h.2.congr hp ha⟩

/-- The next event after a round, which is none. -/
theorem EasyClient.AtEvent.next {e' : EasyClient} (h : e.AtEvent a i ret p) :
    ClientPc.Ok e' (.events a (i + 1) ret) := by
  obtain rfl := h.index
  obtain rfl := h.ret
  exact ⟨le_rfl, fun hlt => absurd hlt (lt_irrefl _)⟩

theorem EasyClient.Ok.event (h : e.Ok kind) (hat : e.AtEvent a i ret p) :
    ∃ ev, e.event a i = some ev := by
  obtain rfl := hat.index
  obtain ⟨b, rfl⟩ := Option.ne_none_iff_exists'.mp hat.array
  obtain ⟨ev, hev, -⟩ := h.array b hat.pEvents
  exact ⟨ev, (if_pos rfl).trans hev⟩

namespace EasyRun

structure Ok (kind : EasyKind) (s : EasyRun) : Prop where
  client : s.client.Ok kind
  pc : s.pc.Ok s.client
  stack : ∀ caller ∈ s.stack, caller.Waits

/-- The code outside gives control back to `DoMsg` with a client that is not null, and to an
`OnRun` of epoll with the client and the array that it had. -/
def Kept (s : EasyRun) : EasyEvent → Prop
  | .ret => s.client.pClient ≠ none ∧ ∀ nLen events i ret p,
      s.stack.head? = some (.recvData nLen (.epoll events i ret p)) →
        s.client.pEvents = events ∧ s.client.pClient = some p
  | .call .doMsg => s.client.pClient ≠ none
  | _ => True

/-! ### The statements of the library -/

theorem Ok.goRecvData {caller : RecvCaller} (h : s.Ok kind) (hpc : caller.Ok s.client)
    (recv : Option (List UInt8)) : ∃ t, s.goRecvData caller recv = some t ∧ t.Ok kind := by
  unfold EasyRun.goRecvData
  split
  · next hr =>
      obtain ⟨p, c, hp, hc⟩ := h.client.get? (isRun_ne_none hr)
      rw [target_eq hp hc, Option.bind_eq_bind, Option.bind_some]
      refine ⟨_, rfl, h.client.setClient hc _, ?_, h.stack⟩
      dsimp only
      split
      · exact ⟨isRun_ne_none hr, hpc.congr rfl rfl⟩
      · exact hpc.congr rfl rfl
  · exact ⟨_, rfl, h.client, hpc, h.stack⟩

theorem Ok.goHasMsg {caller : DoMsgCaller} (h : s.Ok kind) (hpc : caller.Ok s.client) :
    ∃ t, s.goHasMsg caller = some t ∧ t.Ok kind := by
  obtain ⟨p, c, hp, hc⟩ := h.client.get? hpc.pClient
  unfold EasyRun.goHasMsg
  rw [client_eq hp hc, Option.bind_eq_bind, Option.bind_some]
  split
  · refine ⟨_, rfl, h.client, trivial, ?_⟩
    exact List.forall_mem_cons.mpr ⟨hpc.waits, h.stack⟩
  · refine ⟨_, rfl, h.client, ?_, h.stack⟩
    cases caller with
    | user => trivial
    | recvData n caller => exact hpc.2

theorem Ok.goPopFrontMsg {caller : DoMsgCaller} (h : s.Ok kind) (hpc : caller.Ok s.client) :
    ∃ t, s.goPopFrontMsg caller = some t ∧ t.Ok kind := by
  obtain ⟨p, c, hp, hc⟩ := h.client.get? hpc.pClient
  unfold EasyRun.goPopFrontMsg
  rw [target_eq hp hc, Option.bind_eq_bind, Option.bind_some]
  exact ⟨_, rfl, h.client.setClient hc _, hpc.congr rfl rfl, h.stack⟩

theorem Ok.goReceived {caller : RecvCaller} (h : s.Ok kind) (hpc : caller.Ok s.client)
    (nLen : ℤ) : ∃ t, s.goReceived kind nLen caller = some t ∧ t.Ok kind := by
  cases caller with
  | user => exact ⟨_, rfl, h.client, trivial, h.stack⟩
  | select sock =>
      unfold EasyRun.goReceived
      dsimp only
      split
      · obtain ⟨e, he, hok, -⟩ := h.client.close
        rw [he, Option.map_some]
        exact ⟨_, rfl, hok, trivial, h.stack⟩
      · exact ⟨_, rfl, h.client, hpc, h.stack⟩
  | epoll a i ret p =>
      have hat : s.client.AtEvent a i ret p := hpc
      unfold EasyRun.goReceived
      dsimp only
      split
      · obtain ⟨c, hc⟩ := h.client.client p hat.pClient
        obtain ⟨e, he, hok, -⟩ := h.client.close
        rw [client_eq hat.pClient hc, Option.bind_some, he, Option.map_some]
        exact ⟨_, rfl, hok, hat.next, h.stack⟩
      · exact ⟨_, rfl, h.client, hat, h.stack⟩

theorem Ok.goSelectWrite (h : s.Ok kind) (hpc : s.client.pClient ≠ none) (sock : SOCKET)
    (send : ℤ) : ∃ t, s.goSelectWrite kind sock send = some t ∧ t.Ok kind := by
  unfold EasyRun.goSelectWrite
  split
  · obtain ⟨p, c, hp, hc⟩ := h.client.get? hpc
    obtain ⟨e, n, he, hok, -⟩ := h.client.sendDataReal hc send
    rw [hp, Option.bind_eq_bind, Option.bind_some, he, Option.bind_eq_bind, Option.bind_some]
    dsimp only
    split
    · obtain ⟨e', he', hok', -⟩ := hok.close
      rw [he', Option.map_some]
      exact ⟨_, rfl, hok', trivial, h.stack⟩
    · exact ⟨_, rfl, hok, trivial, h.stack⟩
  · exact ⟨_, rfl, h.client, trivial, h.stack⟩

theorem Ok.goEvents (h : s.Ok kind) (hpc : ClientPc.Ok s.client (.events a i ret)) :
    ∃ t, s.goEvents a i ret = some t ∧ t.Ok kind := by
  obtain ⟨hle, hin⟩ := hpc
  unfold EasyRun.goEvents
  split
  · next hlt =>
      obtain ⟨ha, hpe⟩ := hin hlt
      obtain rfl : i = 0 := by omega
      obtain rfl : ret = 1 := by omega
      obtain ⟨b, rfl⟩ := Option.ne_none_iff_exists'.mp ha
      obtain ⟨ev, hev, hptr⟩ := h.client.array b hpe
      have hevent : s.client.event (some b) 0 = some ev := (if_pos rfl).trans hev
      rw [hevent, Option.bind_eq_bind, Option.bind_some]
      cases hp : ev.ptr with
      | none =>
          refine ⟨_, rfl, h.client, ?_, h.stack⟩
          exact ⟨le_rfl, fun hlt' => absurd hlt' (lt_irrefl _)⟩
      | some p =>
          have hat : s.client.AtEvent (some b) 0 1 p := ⟨rfl, rfl, ha, hpe, hptr p hp⟩
          refine ⟨_, rfl, h.client, ?_, h.stack⟩
          dsimp only
          split
          · exact hat
          · exact hat
  · exact ⟨_, rfl, h.client, trivial, h.stack⟩

theorem Ok.goEpollWrite (h : s.Ok kind) (hat : s.client.AtEvent a i ret p) (send : ℤ) :
    ∃ t, s.goEpollWrite kind a i ret p send = some t ∧ t.Ok kind := by
  obtain ⟨ev, hev⟩ := h.client.event hat
  obtain ⟨c, hc⟩ := h.client.client p hat.pClient
  unfold EasyRun.goEpollWrite
  rw [hev, Option.bind_eq_bind, Option.bind_some]
  split
  · obtain ⟨e, n, he, hok, hp, -⟩ := h.client.sendDataReal hc send
    rw [he, Option.bind_eq_bind, Option.bind_some]
    dsimp only
    split
    · have hpe := hp.trans hat.pClient
      obtain ⟨c', hc'⟩ := hok.client p hpe
      obtain ⟨e', he', hok', -⟩ := hok.close
      rw [client_eq hpe hc', Option.bind_some, he', Option.map_some]
      exact ⟨_, rfl, hok', hat.next, h.stack⟩
    · exact ⟨_, rfl, hok, hat.next, h.stack⟩
  · exact ⟨_, rfl, h.client, hat.next, h.stack⟩

/-- The library itself keeps what it goes on with. -/
theorem Ok.go (h : s.Ok kind) (hpc : s.pc ≠ .user) (recv : Option (List UInt8)) (send : ℤ) :
    ∃ t, s.go kind recv send = some t ∧ t.Ok kind := by
  have hok := h.pc
  unfold EasyRun.go
  cases hs : s.pc with
  | user => exact absurd hs hpc
  | recvData caller =>
      rw [hs] at hok
      exact h.goRecvData hok recv
  | hasMsg caller =>
      rw [hs] at hok
      exact h.goHasMsg hok
  | popFrontMsg caller =>
      rw [hs] at hok
      exact h.goPopFrontMsg hok
  | received nLen caller =>
      rw [hs] at hok
      exact h.goReceived hok nLen
  | selectWrite sock =>
      rw [hs] at hok
      exact h.goSelectWrite hok sock send
  | events a i ret =>
      rw [hs] at hok
      exact h.goEvents hok
  | epollWrite a i ret p =>
      rw [hs] at hok
      exact h.goEpollWrite hok send

/-! ### The calls -/

theorem selectOnRun_ok (h : e.Ok kind) (poll : PollAnswer) :
    ∃ r, e.selectOnRun kind poll = some r ∧ r.1.Ok kind ∧ r.2.Ok r.1 := by
  have hfd : ∀ fdWrite, EasyClient.Ok kind { e with fdWrite } := fun fdWrite =>
    ⟨h.client, h.array, h.registered, h.select⟩
  unfold EasyClient.selectOnRun
  split
  · next hr =>
      obtain ⟨p, c, hp, hc⟩ := h.get? (isRun_ne_none hr)
      rw [client_eq hp hc, Option.bind_eq_bind, Option.bind_some]
      cases poll with
      | error =>
          obtain ⟨e', he, hok, -⟩ := (hfd none).close
          dsimp only
          rw [he, Option.map_some]
          exact ⟨_, rfl, hok, trivial⟩
      | timeout => exact ⟨_, rfl, hfd none, isRun_ne_none hr⟩
      | ready read write =>
          refine ⟨_, rfl, hfd _, ?_⟩
          cases read with
          | false => exact isRun_ne_none hr
          | true => exact isRun_ne_none hr
  · exact ⟨_, rfl, h, trivial⟩

theorem epollOnRun_ok (h : e.Ok kind) (poll : PollAnswer) (modified : Bool) :
    ∃ r, e.epollOnRun kind poll modified = some r ∧ r.1.Ok kind ∧ r.2.Ok r.1 := by
  unfold EasyClient.epollOnRun
  split
  · next hr =>
      have hne := isRun_ne_none hr
      obtain ⟨e₁, he₁, hok₁, hp₁⟩ := h.ctl hne modified
      obtain ⟨e₂, n, he₂, hok₂, hp₂, hn⟩ := hok₁.wait poll
      have hne₂ : e₂.pClient ≠ none := by
        rw [hp₂, hp₁]
        exact hne
      obtain ⟨p, c, hp, hc⟩ := hok₂.get? hne₂
      rw [he₁, Option.bind_eq_bind, Option.bind_some, he₂, Option.bind_eq_bind, Option.bind_some]
      dsimp only
      split
      · obtain ⟨e₃, he₃, hok₃, -⟩ := hok₂.close
        rw [client_eq hp hc, Option.bind_some, he₃, Option.map_some]
        exact ⟨_, rfl, hok₃, trivial⟩
      · split
        · exact ⟨_, rfl, hok₂, trivial⟩
        · obtain ⟨rfl, ha⟩ := hn (by omega)
          exact ⟨_, rfl, hok₂, le_rfl, fun _ => ⟨ha, rfl⟩⟩
  · exact ⟨_, rfl, h, trivial⟩

/-- A call that makes no fault gives control back, or starts a function of the library. -/
theorem call_ok (h : e.Ok kind) (f : ClientCall)
    (hs : ∀ pData len, f = .sendData pData len →
      ∀ c, e.client = some c → (c.sendData pData len).isSome) :
    ∃ r, e.call kind f = some r ∧ r.1.Ok kind ∧
      ((f = .doMsg → e.pClient ≠ none) → r.2.Ok r.1) := by
  unfold EasyClient.call
  cases f with
  | close =>
      obtain ⟨e', he, hok, -⟩ := h.close
      dsimp only
      rw [he, Option.map_some]
      exact ⟨_, rfl, hok, fun _ => trivial⟩
  | initSocket x =>
      obtain ⟨e', he, hok, -⟩ := h.initSocket x
      dsimp only
      rw [he, Option.map_some]
      exact ⟨_, rfl, hok, fun _ => trivial⟩
  | connect x ret =>
      obtain ⟨e', he, hok⟩ := h.connect x ret
      dsimp only
      rw [he, Option.map_some]
      exact ⟨_, rfl, hok, fun _ => trivial⟩
  | sendData pData len =>
      obtain ⟨e', he, hok⟩ := h.sendData (hs pData len rfl)
      dsimp only
      rw [he, Option.map_some]
      exact ⟨_, rfl, hok, fun _ => trivial⟩
  | recvData => exact ⟨_, rfl, h, fun _ => trivial⟩
  | doMsg => exact ⟨_, rfl, h, fun hne => hne rfl⟩
  | onRun poll modified =>
      cases kind with
      | select =>
          obtain ⟨r, hr, hok, hpc⟩ := selectOnRun_ok h poll
          exact ⟨r, hr, hok, fun _ => hpc⟩
      | epoll =>
          obtain ⟨r, hr, hok, hpc⟩ := epollOnRun_ok h poll modified
          exact ⟨r, hr, hok, fun _ => hpc⟩

/-! ### The return from `OnNetMsg` -/

theorem Ok.returns {caller : DoMsgCaller} {stack : List DoMsgCaller} (h : s.Ok kind)
    (hs : s.stack = caller :: stack) (hk : s.Kept .ret) :
    Ok kind { s with pc := .popFrontMsg caller, stack } := by
  have hwaits := h.stack
  rw [hs, List.forall_mem_cons] at hwaits
  refine ⟨h.client, ?_, hwaits.2⟩
  obtain ⟨hne, hkept⟩ := hk
  cases caller with
  | user => exact hne
  | recvData nLen caller =>
      refine ⟨hne, ?_⟩
      cases caller with
      | user => trivial
      | select sock => exact hne
      | epoll a i ret p =>
          obtain ⟨hi, hret, ha⟩ := hwaits.1
          obtain ⟨hpe, hpc⟩ := hkept nLen a i ret p (by rw [hs, List.head?_cons])
          exact ⟨hi, hret, ha, hpe, hpc⟩

/-- Every step that is due is defined, and leads on if what the library goes on with is kept. -/
theorem Ok.next (h : s.Ok kind) {l : EasyEvent} (hl : s.Legal l) :
    ∃ t, s.next kind l = some t ∧ (s.Kept l → t.Ok kind) := by
  cases l with
  | call f =>
      have hsend : ∀ pData len, f = .sendData pData len →
          ∀ c, s.client.client = some c → (c.sendData pData len).isSome := by
        intro pData len hf
        subst hf
        exact hl.2
      obtain ⟨r, hr, hok, hpc⟩ := call_ok h.client f hsend
      unfold EasyRun.next
      dsimp only
      rw [hr, Option.map_some]
      refine ⟨_, rfl, fun hk => ⟨hok, hpc fun hf => ?_, h.stack⟩⟩
      subst hf
      exact hk
  | ret =>
      cases hs : s.stack with
      | nil => exact absurd hs hl.2
      | cons caller stack =>
          unfold EasyRun.next
          rw [hs]
          exact ⟨_, rfl, fun hk => h.returns hs hk⟩
  | go recv send =>
      obtain ⟨t, ht, hok⟩ := h.go hl recv send
      exact ⟨t, ht, fun _ => hok⟩

theorem ok_of_reachable (h : ((system kind).guard Kept).Reachable s) : s.Ok kind := by
  refine System.Invariant.reachable (P := Ok kind) ⟨?_, ?_⟩ h
  · intro s hs
    obtain rfl := hs
    exact ⟨new_ok kind, trivial, fun _ hc => nomatch hc⟩
  · intro s l t hs hstep
    obtain ⟨hk, hl, hn⟩ := hstep
    obtain ⟨u, hu, hok⟩ := hs.next hl
    obtain rfl := Option.some.inj (hu.symm.trans hn)
    exact hok hk

/-- While every `OnNetMsg` returns with what the library goes on with, no step is a fault; after a
return with a null `_pClient` the next one is. -/
theorem survives_while (kind : EasyKind) : ∀ s, ((system kind).guard Kept).Reachable s →
    (∀ l, s.Legal l → ∃ t, s.next kind l = some t) ∧
    ∀ t, (system kind).step s .ret t → s.client.pClient = none →
      ∀ recv send, t.Legal (.go recv send) ∧ t.next kind (.go recv send) = none := by
  intro s hs
  have hok := ok_of_reachable hs
  constructor
  · intro l hl
    obtain ⟨t, ht, -⟩ := hok.next hl
    exact ⟨t, ht⟩
  · intro t ht hnone recv send
    obtain ⟨-, hn⟩ := ht
    cases hstack : s.stack with
    | nil =>
        unfold EasyRun.next at hn
        rw [hstack] at hn
        cases hn
    | cons caller stack =>
        unfold EasyRun.next at hn
        rw [hstack] at hn
        obtain rfl := Option.some.inj hn
        have htarget : s.client.target = none := by
          unfold target
          rw [hnone, Option.bind_eq_bind, Option.bind_none]
        refine ⟨nofun, ?_⟩
        unfold EasyRun.next EasyRun.go EasyRun.goPopFrontMsg
        dsimp only
        rw [htarget, Option.bind_eq_bind, Option.bind_none]

/-- A socket that is made and connected, with buffers of four bytes. -/
def answer : SocketAnswer :=
  ⟨1, 5, .new 4 [0, 0, 0, 0], .new 4 [0, 0, 0, 0], 6, true⟩

/-- The client connects, and `OnRun` comes to `OnNetMsg` with a message of four bytes. -/
def dispatch : EasyKind → List EasyEvent
  | .select => [.call (.connect answer 0), .call (.onRun (.ready true false) true),
      .go (some [4, 0, 0, 0]) 0, .go none 0]
  | .epoll => [.call (.connect answer 0), .call (.onRun (.ready true false) true), .go none 0,
      .go (some [4, 0, 0, 0]) 0, .go none 0]

def dispatched (kind : EasyKind) : Option EasyRun :=
  (dispatch kind).foldlM (next kind) ⟨.new, .user, []⟩

example : (dispatched .select).map EasyRun.pc = some .user := rfl

example : (dispatched .select).map EasyRun.stack = some [.recvData 4 (.select 5)] := rfl

example : (dispatched .epoll).map EasyRun.stack = some [.recvData 4 (.epoll (some 0) 0 1 0)] := rfl

theorem path_dispatch (kind : EasyKind) : ∃ s, dispatched kind = some s ∧
    ((system kind).guard Kept).Path ⟨.new, .user, []⟩ (dispatch kind) s := by
  cases kind with
  | select =>
      refine ⟨_, rfl, ?_⟩
      refine .cons ⟨trivial, rfl, rfl⟩ (.cons ⟨trivial, rfl, rfl⟩ ?_)
      exact .cons ⟨trivial, nofun, rfl⟩ (.single ⟨trivial, nofun, rfl⟩)
  | epoll =>
      refine ⟨_, rfl, ?_⟩
      refine .cons ⟨trivial, rfl, rfl⟩ (.cons ⟨trivial, rfl, rfl⟩ (.cons ⟨trivial, nofun, rfl⟩ ?_))
      exact .cons ⟨trivial, nofun, rfl⟩ (.single ⟨trivial, nofun, rfl⟩)

theorem reachable_dispatched {kind : EasyKind} {s : EasyRun} (hs : dispatched kind = some s) :
    ((system kind).guard Kept).Reachable s := by
  obtain ⟨t, ht, hp⟩ := path_dispatch kind
  obtain rfl := Option.some.inj (ht.symm.trans hs)
  exact ⟨_, _, rfl, hp⟩

/-- An `OnNetMsg` that leaves the client alone may return. -/
theorem survives_dispatched : ∃ s t, dispatched .epoll = some s ∧ s.next .epoll .ret = some t ∧
    t.pc = .popFrontMsg (.recvData 4 (.epoll (some 0) 0 1 0)) := by
  obtain ⟨s, hs, -⟩ := path_dispatch .epoll
  have hpc : s.pc = .user ∧ s.stack = [.recvData 4 (.epoll (some 0) 0 1 0)] := by
    obtain rfl := Option.some.inj hs
    exact ⟨rfl, rfl⟩
  have hl : s.Legal .ret := ⟨hpc.1, by rw [hpc.2]; nofun⟩
  obtain ⟨t, ht⟩ := (survives_while .epoll s (reachable_dispatched hs)).1 .ret hl
  refine ⟨s, t, hs, ht, ?_⟩
  unfold EasyRun.next at ht
  rw [hpc.2] at ht
  obtain rfl := Option.some.inj ht
  rfl

/-- Whether a step is due, for steps that send nothing. -/
def due (s : EasyRun) : EasyEvent → Bool
  | .call (.sendData _ _) => false
  | .call _ => s.pc == .user
  | .ret => s.pc == .user && !s.stack.isEmpty
  | .go _ _ => s.pc != .user

theorem legal_of_due {l : EasyEvent} (h : s.due l = true) : s.Legal l := by
  cases l with
  | call f =>
      cases f with
      | sendData pData len => cases h
      | close => exact beq_iff_eq.mp h
      | initSocket x => exact beq_iff_eq.mp h
      | connect x ret => exact beq_iff_eq.mp h
      | recvData => exact beq_iff_eq.mp h
      | doMsg => exact beq_iff_eq.mp h
      | onRun poll modified => exact beq_iff_eq.mp h
  | ret =>
      obtain ⟨hpc, hs⟩ := (Bool.and_eq_true _ _).mp h
      refine ⟨beq_iff_eq.mp hpc, ?_⟩
      intro hnil
      rw [hnil] at hs
      cases hs
  | go recv send => exact bne_iff_ne.mp h

def perform (kind : EasyKind) (s : EasyRun) (l : EasyEvent) : Option EasyRun :=
  if s.due l then s.next kind l else none

theorem path_of_perform {ls : List EasyEvent} (h : ls.foldlM (perform kind) s = some t) :
    (system kind).Path s ls t := by
  refine System.Path.of_next (perform kind) ?_ h
  intro s l t hn
  unfold perform at hn
  split at hn
  · next hdue => exact ⟨legal_of_due hdue, hn⟩
  · cases hn

/-- `OnNetMsg` does `ls`, and control comes to a statement that faults. -/
def faults (kind : EasyKind) (ls : List EasyEvent) : Bool :=
  (dispatched kind).any fun s => (ls.foldlM (perform kind) s).any fun t =>
    t.due (.go none 0) && (t.next kind (.go none 0)).isNone

theorem exists_of_faults {ls : List EasyEvent} (h : faults kind ls = true) :
    ∃ s, (system kind).Reachable s ∧ s.Legal (.go none 0) ∧
      s.next kind (.go none 0) = none := by
  obtain ⟨s, hs, h⟩ := (Option.any_eq_true _ _).mp h
  obtain ⟨t, ht, h⟩ := (Option.any_eq_true _ _).mp h
  obtain ⟨hdue, hnone⟩ := (Bool.and_eq_true _ _).mp h
  exact ⟨t, (reachable_dispatched hs).of_guard.path (path_of_perform ht), legal_of_due hdue,
    Option.isNone_iff_eq_none.mp hnone⟩

/-- `OnNetMsg` closes the client of select, and `DoMsg` comes back to a null `_pClient`; it closes
the client of epoll and connects again, and `OnRun` reads the event array that is gone. -/
theorem close_in_callback : (∃ s, (system .select).Reachable s ∧ s.Legal (.go none 0) ∧
      s.next .select (.go none 0) = none) ∧
    ∃ s, (system .epoll).Reachable s ∧ s.Legal (.go none 0) ∧
      s.next .epoll (.go none 0) = none := by
  have hselect : faults .select [.call .close, .ret] = true := by decide
  have hepoll : faults .epoll [.call .close, .call (.connect answer 0), .ret, .go none 0,
    .go none 0, .go none 0] = true := by decide
  exact ⟨exists_of_faults hselect, exists_of_faults hepoll⟩

end EasyRun

end CellNet
