import CellNet.Verification.Completion.Runs
import CellNet.Verification.Completion.Streams

/-! The streams of all clients along the runs of a worker. Between two calls of `DoMsg` no
client that could post a receive holds a complete message. -/

namespace CellNet

open Library Worker

/-! ### Where complete messages may be -/

section

variable {σ : Type} {onNetMsg : Handler σ} {p : Ptr} {v v' : View} {a : Act σ}

/-- Nothing enters or leaves the receive buffer. -/
def Act.Quiet : Act σ → Prop
  | .fill _ _ => False
  | .msg _ => False
  | _ => True

/-- No message is complete, unless the client was closed. -/
def View.Parsed (v : View) : Prop :=
  ∀ c, v.client = some c → c.sockfd ≠ SOCKET_ERROR → c.hasMsg = false

theorem View.Parsed.move (h : v.Parsed) (ha : a.Quiet) (hm : Move onNetMsg p a v v') :
    v'.Parsed := by
  have hsame : ∀ {c d : CellClient} {ops : Set Overlapped} {t : IoType},
      View.Parsed ⟨some c, ops⟩ → c.Touched d → (d.makeIoData t).1.sockfd ≠ SOCKET_ERROR →
      (d.makeIoData t).1.hasMsg = false := by
    intro c d ops t h hd hopen
    rw [CellClient.hasMsg, CellClient.makeIoData_recvBuff, hd.recvBuff]
    rw [CellClient.makeIoData_sockfd, hd.sockfd] at hopen
    exact h c rfl hopen
  intro d' hd' hopen
  cases hm with
  | keep => exact h d' hd' hopen
  | accept =>
      obtain rfl := Option.some.inj hd'
      exact CellBuffer.hasMsg_new ..
  | @touch c d ops hd =>
      obtain rfl := Option.some.inj hd'
      rw [CellClient.hasMsg, hd.recvBuff]
      rw [hd.sockfd] at hopen
      exact h c rfl hopen
  | look t hd | post t hd | lost hd =>
      obtain rfl := Option.some.inj hd'
      exact hsame h hd hopen
  | drop | expire | fail => cases hd'
  | @detach c d ops hd =>
      obtain rfl := Option.some.inj hd'
      rw [CellClient.destroy] at hopen
      split at hopen
      · exact absurd rfl hopen
      · next hclosed => exact absurd hopen.symm hclosed
  | fill | msg => exact ha.elim

end

namespace IocpServer

open CellIOCPServer

variable {σ : Type} {onNetMsg : Handler σ} {s s' : IocpServer σ}

theorem Occurs.quiet {p : Ptr} {e : IocpEvent} {a : Act σ} (h : Occurs s p e a)
    (hc : ∀ op bytes, e ≠ .complete op bytes) (hd : e ≠ .doMsg) : a.Quiet := by
  cases h with
  | keep | accept => trivial
  | join _ hact =>
      cases a with
      | fill | msg => exact hact.elim
      | _ => trivial
  | time _ hact => rcases hact.eq with rfl | rfl | rfl <;> trivial
  | post _ _ hact => rcases hact with rfl | ⟨rfl, -⟩ | ⟨rfl, -⟩ <;> trivial
  | complete => exact absurd rfl (hc _ _)
  | msg => exact absurd rfl hd

/-- The worker has received for the client `p` since it last looked at its messages. -/
def Unparsed (s : IocpServer σ) (p : Ptr) : Prop :=
  match s.pc with
  | .polling => p ∉ s.server.clientsBuff
  | .msgs rest => p ∈ rest.map Prod.snd
  | .exited => True
  | _ => False

def Parsed (s : IocpServer σ) : Prop := ∀ p, s.Unparsed p ∨ (s.view p).Parsed

theorem accept_frame {cSock : SOCKET} {sendBlock recvBlock : List UInt8}
    (h : s.iocpAccept cSock sendBlock recvBlock = some s') :
    s'.pc = s.pc ∧ ∀ p ∈ s'.server.clientsBuff, p ∈ s.server.clientsBuff ∨ p = s.net.heap.next := by
  rw [iocpAccept] at h
  split at h
  · obtain rfl := Option.some.inj h
    exact ⟨rfl, fun p hp => .inl hp⟩
  · dsimp only at h
    split at h
    · obtain rfl := Option.some.inj h
      exact ⟨rfl, fun p hp => (List.mem_append.mp hp).imp_right List.mem_singleton.mp⟩
    · rw [Net.destroySocket_accept] at h
      obtain rfl := Option.some.inj h
      exact ⟨rfl, fun p hp => .inl hp⟩

/-- A new client has no message; that the socket is accepted changes no other. -/
theorem Parsed.accept (h : s.Parsed) (hs : s.Ported) {cSock : SOCKET}
    {sendBlock recvBlock : List UInt8} (hn : s.iocpAccept cSock sendBlock recvBlock = some s')
    {p : Ptr} {a : Act σ} (ha : a.Quiet) (hm : Move onNetMsg p a (s.view p) (s'.view p)) :
    s'.Unparsed p ∨ (s'.view p).Parsed := by
  obtain ⟨hpc, hbuff⟩ := accept_frame hn
  rcases h p with hu | hq
  · by_cases hp : p = s.net.heap.next
    · right
      refine View.Parsed.move ?_ ha hm
      rw [hp, hs.view_next]
      intro c hc
      cases hc
    · left
      rw [Unparsed] at hu ⊢
      rw [hpc]
      cases hphase : s.pc with
      | polling =>
          rw [hphase] at hu
          exact fun hin => (hbuff p hin).elim hu hp
      | _ => rwa [hphase] at hu
  · exact .inr (hq.move ha hm)

/-- The messages of one client are handled, or it has none left. -/
theorem Parsed.doMsg (h : s.Parsed) {rest : List (SOCKET × Ptr)} (hpc : s.pc = .msgs rest)
    (hn : s.doMsg onNetMsg = some s') {p : Ptr} {a : Act σ} (ho : Occurs s p .doMsg a)
    (hm : Move onNetMsg p a (s.view p) (s'.view p)) : s'.Unparsed p ∨ (s'.view p).Parsed := by
  rw [IocpServer.doMsg, hpc] at hn
  have hu : s.Unparsed p ↔ p ∈ rest.map Prod.snd := by rw [Unparsed, hpc]
  cases rest with
  | nil =>
      obtain rfl := Option.some.inj hn
      exact .inr ((h p).resolve_left fun hin => List.not_mem_nil (hu.mp hin))
  | cons f rest =>
      obtain ⟨c, hc, hn⟩ := Option.bind_eq_some_iff.mp hn
      split at hn
      · obtain ⟨r, -, rfl⟩ := Option.map_eq_some_iff.mp hn
        by_cases hp : p = f.2
        · left
          exact hp ▸ List.mem_cons_self
        · refine (h p).imp hu.mp fun hq => ?_
          cases ho with
          | keep => exact hq.move (a := .keep) trivial hm
          | msg hpc' hp' =>
              obtain ⟨rfl, -⟩ := List.cons.inj (IocpPc.msgs.inj (hpc.symm.trans hpc'))
              exact absurd hp' hp
      · next hmsg =>
          obtain rfl := Option.some.inj hn
          rcases h p with hin | hq
          · rcases List.mem_cons.mp (hu.mp hin) with rfl | hin
            · right
              intro c' hc' _
              obtain rfl := Option.some.inj (hc.symm.trans hc')
              exact eq_false_of_ne_true hmsg
            · exact .inl hin
          · exact .inr hq

/-- Messages become complete only while the worker polls, and are gone when `DoMsg` is through. -/
theorem Parsed.step (hk : onNetMsg.KeepsIo) (hs : s.Ported) (h : s.Parsed) {e : IocpEvent}
    (hstep : (returning onNetMsg).step s e s') : s'.Parsed := by
  obtain ⟨hp', hmoves⟩ := hs.step hk hstep
  obtain ⟨hl, hn⟩ := hstep
  intro p
  obtain ⟨a, ho, hm⟩ := hmoves p
  have hquiet : (∀ op bytes, e ≠ .complete op bytes) → e ≠ .doMsg → ¬ s.Unparsed p →
      (s'.view p).Parsed :=
    fun hc hd hu => ((h p).resolve_left hu).move (ho.quiet hc hd) hm
  cases e with
  | accept cSock sendBlock recvBlock => exact h.accept hs hn (ho.quiet nofun nofun) hm
  | loop now posted =>
      have hpc : s.pc = .top := hl
      exact .inr (hquiet nofun nofun (by rw [Unparsed, hpc]; exact id))
  | stop =>
      obtain rfl := Option.some.inj hn
      exact .inl trivial
  | checkTime now =>
      have hpc : s.pc = .check := hl
      exact .inr (hquiet nofun nofun (by rw [Unparsed, hpc]; exact id))
  | post posted =>
      obtain ⟨t, f, rest, hpc⟩ := hl
      exact .inr (hquiet nofun nofun (by rw [Unparsed, hpc]; exact id))
  | complete op bytes =>
      obtain ⟨c, hc⟩ := live_of_next hn
      obtain ⟨t, ht, -, -, hbuff, -⟩ := complete_ported onNetMsg hs hl.2.1 hc bytes
      obtain rfl := Option.some.inj (ht.symm.trans hn)
      have hpc' : t.pc = .polling := by
        obtain ⟨w, -, rfl⟩ := Option.map_eq_some_iff.mp hn
        rfl
      by_cases hw : p ∈ s.server.clientsBuff
      · have hq := (h p).resolve_left (by rw [Unparsed, hl.1]; exact fun hu => hu hw)
        cases ho with
        | keep => exact .inr (hq.move (a := .keep) trivial hm)
        | complete hp =>
            obtain ⟨d, htab⟩ := hs.tables
            exact absurd (hp ▸ hw) (htab.born op hl.2.1).2
      · left
        rw [Unparsed, hpc', hbuff]
        exact hw
  | idle =>
      have hpc : s.pc = .polling := hl
      obtain rfl := Option.some.inj hn
      by_cases hin : p ∈ s.server.clients.entries.map Prod.snd
      · exact .inl hin
      · right
        intro c hc hopen
        have hw := (hs.of_live hc hopen).resolve_left hin
        have hq := (h p).resolve_left (by rw [Unparsed, hpc]; exact fun hu => hu hw)
        exact hq c hc hopen
  | error =>
      obtain rfl := Option.some.inj hn
      exact .inl trivial
  | doMsg =>
      obtain ⟨rest, hpc⟩ := hl
      exact h.doMsg hpc hn ho hm

theorem start_parsed (nSend nRecv nMax id oldTime : ℤ) (ext : σ) :
    (start nSend nRecv nMax id oldTime ext).Parsed := by
  intro p
  right
  rw [start_view]
  intro c hc
  cases hc

/-- The settings of the server stay. -/
theorem next_frame {e : IocpEvent} (h : next onNetMsg s e = some s') :
    ∃ net server pc ext, s' = { s with net := net, server := server, pc := pc, ext := ext } := by
  cases e with
  | accept cSock sendBlock recvBlock =>
      rw [next, iocpAccept] at h
      split at h
      · exact ⟨_, _, _, _, (Option.some.inj h).symm⟩
      · dsimp only at h
        split at h
        · exact ⟨_, _, _, _, (Option.some.inj h).symm⟩
        · obtain ⟨n, -, rfl⟩ := Option.map_eq_some_iff.mp h
          exact ⟨_, _, _, _, rfl⟩
  | loop now posted =>
      obtain ⟨w, -, rfl⟩ := Option.map_eq_some_iff.mp h
      split <;> exact ⟨_, _, _, _, rfl⟩
  | checkTime now =>
      obtain ⟨w, -, rfl⟩ := Option.map_eq_some_iff.mp h
      exact ⟨_, _, _, _, rfl⟩
  | post posted =>
      rw [next, post] at h
      split at h
      · obtain ⟨r, -, rfl⟩ := Option.map_eq_some_iff.mp h
        exact ⟨_, _, _, _, rfl⟩
      · exact ⟨_, _, _, _, (Option.some.inj h).symm⟩
  | complete op bytes =>
      obtain ⟨w, -, rfl⟩ := Option.map_eq_some_iff.mp h
      exact ⟨_, _, _, _, rfl⟩
  | stop | idle | error => exact ⟨_, _, _, _, (Option.some.inj h).symm⟩
  | doMsg =>
      rw [next, doMsg] at h
      split at h
      · exact ⟨_, _, _, _, (Option.some.inj h).symm⟩
      · obtain ⟨c, -, h⟩ := Option.bind_eq_some_iff.mp h
        split at h
        · obtain ⟨r, -, rfl⟩ := Option.map_eq_some_iff.mp h
          exact ⟨_, _, _, _, rfl⟩
        · exact ⟨_, _, _, _, (Option.some.inj h).symm⟩
      · exact ⟨_, _, _, _, (Option.some.inj h).symm⟩

theorem Ported.flagged (h : s.Ported) (p : Ptr) : Flagged (s.view p) := by
  obtain ⟨d, ht⟩ := h.tables
  constructor
  · rintro op ⟨hop, rfl⟩ c hc
    exact ht.flag op hop c hc
  · rintro o ⟨ho, hp⟩ o' ⟨ho', rfl⟩ htype
    exact ht.eq_of_pending ho' ho hp htype

end IocpServer

/-! ### The streams -/

namespace Traffic

open IocpServer

variable {σ : Type} {onNetMsg : Handler σ} {answers : Answers σ} {t t' : Traffic σ}

/-- Every sum that `push` tests in this step stays inside `int`. -/
def SumsFit (answers : Answers σ) (t : Traffic σ) : IocpEvent → Prop
  | .doMsg => ∀ e rest c, t.server.pc = .msgs (e :: rest) →
      t.server.net.heap.get? e.2 = some c → c.hasMsg = true →
      CellBuffer.SumsFit c.sendBuff.nLast c.sendBuff.nSize
        (answers t.server.ext c c.frontMsg)
  | _ => True

/-- The tables, the buffers and the streams of all clients agree. -/
structure Carries (t : Traffic σ) : Prop where
  ported : t.server.Ported
  parsed : t.server.Parsed
  sendInt : t.server.nSendBuffSize ≤ 2147483647
  recvInt : t.server.nRecvBuffSize ≤ 2147483647
  flow : ∀ p c, t.server.net.heap.get? p = some c → Flow c (t.server.view p).ops (t.streams p)

/-- A step that is not one for a client leaves its streams alone. -/
theorem record_spares {e : IocpEvent} {f : Ptr → Streams} (hr : t.record answers e = some f)
    {p : Ptr} (hs : t.server.Spares p e) (hp : p ≠ t.server.net.heap.next) :
    f p = t.streams p := by
  cases e with
  | accept =>
      obtain rfl := Option.some.inj hr
      exact Function.update_of_ne hp ..
  | post posted =>
      rw [record] at hr
      split at hr
      · next hpc =>
          obtain ⟨c, -, hr⟩ := Option.bind_eq_some_iff.mp hr
          obtain rfl := Option.some.inj hr
          exact Function.update_of_ne (hs _ _ _ hpc) ..
      · obtain rfl := Option.some.inj hr
        rfl
  | complete op bytes =>
      obtain rfl := Option.some.inj hr
      exact Function.update_of_ne hs ..
  | doMsg =>
      rw [record] at hr
      split at hr
      · next hpc =>
          obtain ⟨c, hc, hr⟩ := Option.bind_eq_some_iff.mp hr
          split at hr
          · next hmsg =>
              obtain ⟨r, -, hr⟩ := Option.bind_eq_some_iff.mp hr
              obtain rfl := Option.some.inj hr
              exact Function.update_of_ne (hs _ _ _ hpc hc hmsg) ..
          · obtain rfl := Option.some.inj hr
            rfl
      · obtain rfl := Option.some.inj hr
        rfl
  | _ =>
      obtain rfl := Option.some.inj hr
      rfl

/-- What is recorded of a step is what each client adds to its streams, as long as it lives. -/
theorem record_next (hp : t.server.Ported) {e : IocpEvent} {f : Ptr → Streams}
    (hr : t.record answers e = some f) {p : Ptr} {a : Act σ} {v : View}
    (ho : Occurs t.server p e a) (hm : Move onNetMsg p a (t.server.view p) v) :
    (t.streams p).next answers (t.server.view p) a = some (f p) ∨ v.client = none := by
  cases ho with
  | keep _ hs =>
      by_cases hnext : p = t.server.net.heap.next
      · right
        rw [hnext, hp.view_next] at hm
        cases hm
        rfl
      · exact .inl (congrArg some (record_spares hr hs hnext).symm)
  | accept _ _ _ hnext =>
      obtain rfl := Option.some.inj hr
      rw [hnext, Function.update_self]
      exact .inl rfl
  | join _ hact =>
      obtain rfl := Option.some.inj hr
      left
      generalize t.server.view p = w at hm hact
      cases hm with
      | look | post =>
          obtain rfl := hact
          rfl
      | lost => rfl
      | _ => exact hact.elim
  | time _ hact =>
      obtain rfl := Option.some.inj hr
      rcases hact.eq with rfl | rfl | rfl <;> exact .inl rfl
  | post hpc hp hact =>
      rw [record, hpc] at hr
      obtain ⟨c, hc, hr⟩ := Option.bind_eq_some_iff.mp hr
      obtain rfl := Option.some.inj hr
      have hclient : (t.server.view p).client = some c := hp ▸ hc
      rw [hp, Function.update_self, ← hp]
      rcases hact with rfl | ⟨rfl, -⟩ | ⟨rfl, -⟩
      · left
        rw [Streams.next, hclient]
        rfl
      · left
        rw [Streams.next, hclient]
        rfl
      · right
        generalize t.server.view p = w at hm
        cases hm
        rfl
  | complete hp hact =>
      obtain rfl := Option.some.inj hr
      rw [hp, Function.update_self, ← hp]
      rcases CompleteAct.eq hact with ⟨-, rfl⟩ | ⟨-, rfl⟩
      · right
        generalize t.server.view p = w at hm
        cases hm
        rfl
      · exact .inl rfl
  | msg hpc hp =>
      rw [record, hpc] at hr
      obtain ⟨c, hc, hr⟩ := Option.bind_eq_some_iff.mp hr
      have hclient : (t.server.view p).client = some c := hp ▸ hc
      have hmsg : c.hasMsg = true := by
        generalize t.server.view p = w at hm hclient
        cases hm with
        | msg _ hmsg =>
            obtain rfl := Option.some.inj hclient
            exact hmsg
      rw [if_pos hmsg] at hr
      obtain ⟨r, hpush, hr⟩ := Option.bind_eq_some_iff.mp hr
      obtain rfl := Option.some.inj hr
      left
      rw [hp, Function.update_self, ← hp, Streams.next, hclient]
      simp only [Option.bind_eq_bind, Option.bind_some, hpush]

theorem Carries.quiet (h : t.Carries) {p : Ptr} {c : CellClient}
    (hc : (t.server.view p).client = some c) (hu : ¬ t.server.Unparsed p)
    (hin : p ∈ t.server.server.clients.entries.map Prod.snd ∨ p ∈ t.server.server.clientsBuff) :
    c.hasMsg = false := by
  refine (h.parsed p).resolve_left hu c hc fun hclosed => ?_
  have hs := h.ported.closed (Net.sockfd?_eq_some.mpr ⟨c, hc, hclosed⟩)
  exact hin.elim hs.1 hs.2

theorem Carries.proper (h : t.Carries) {e : IocpEvent} (hl : t.Legal e)
    (hfit : t.SumsFit answers e) {p : Ptr} {a : Act σ} {v : View}
    (ho : Occurs t.server p e a) (hm : Move onNetMsg p a (t.server.view p) v) :
    Proper answers (t.server.view p) (t.streams p) a := by
  cases ho with
  | keep => trivial
  | accept =>
      exact ⟨CellBuffer.valid_new hl.2.2 h.recvInt, CellBuffer.valid_new hl.2.1 h.sendInt⟩
  | join hin hact =>
      have hpc : t.server.pc = .top := hl.1
      cases a with
      | post =>
          refine fun _ c hc => h.quiet hc ?_ (.inr hin)
          rw [Unparsed, hpc]
          exact id
      | look | lost => trivial
      | _ => exact hact.elim
  | time _ hact => rcases hact.eq with rfl | rfl | rfl <;> trivial
  | post hpc hp hact =>
      rcases hact with rfl | ⟨rfl, -⟩ | ⟨rfl, -⟩
      · trivial
      · refine fun _ c hc => h.quiet hc ?_ (.inl ?_)
        · rw [Unparsed, hpc]
          exact id
        · refine hp ▸ List.mem_map_of_mem (h.ported.entries.1 _ ?_)
          rw [hpc]
          exact List.mem_cons_self
      · trivial
  | complete hp hact =>
      rcases CompleteAct.eq hact with ⟨-, rfl⟩ | ⟨-, rfl⟩
      · trivial
      · exact ⟨hl.1.2.2, fun ht => hp ▸ hl.2 ht⟩
  | msg hpc hp => exact fun c hc hmsg => hfit _ _ c hpc (hp ▸ hc) hmsg

theorem Carries.step (hk : onNetMsg.Pushes answers) (h : t.Carries) {e : IocpEvent}
    (hs : ((system onNetMsg answers).guard (SumsFit answers)).step t e t') : t'.Carries := by
  obtain ⟨hfit, hl, hn⟩ := hs
  obtain ⟨server, hserver, hn⟩ := Option.bind_eq_some_iff.mp hn
  obtain ⟨streams, hstreams, hn⟩ := Option.bind_eq_some_iff.mp hn
  obtain rfl := Option.some.inj hn
  have hstep : (returning onNetMsg).step t.server e server := ⟨hl.1, hserver⟩
  obtain ⟨hported, hmoves⟩ := h.ported.step hk.keepsIo hstep
  obtain ⟨net, w, pc, ext, rfl⟩ := next_frame hserver
  refine ⟨hported, h.parsed.step hk.keepsIo h.ported hstep, h.sendInt, h.recvInt, fun p c hc => ?_⟩
  obtain ⟨a, ho, hm⟩ := hmoves p
  rcases record_next h.ported hstreams ho hm with hst | hgone
  · exact flow_step hk (h.flow p) (h.ported.flagged p) (h.proper hl hfit ho hm) hm hst c hc
  · cases hc.symm.trans hgone

theorem carries_of_reachable (hk : onNetMsg.Pushes answers)
    (h : ((system onNetMsg answers).guard (SumsFit answers)).Reachable t) : t.Carries := by
  refine System.Invariant.reachable (P := Carries) ⟨?_, fun _ _ _ hs => hs.step hk⟩ h
  rintro t ⟨nSend, nRecv, nMax, id, oldTime, ext, hsend, hrecv, rfl⟩
  refine ⟨start_ported .., start_parsed nSend nRecv nMax id oldTime ext, hsend, hrecv,
    fun p c hc => ?_⟩
  have hnone := congrArg View.client (start_view nSend nRecv nMax id oldTime ext p)
  cases hnone.symm.trans hc

/-- The client that a loop of the worker has come to. -/
theorem Carries.get? (h : t.Carries) {e : SOCKET × Ptr} (he : e ∈ t.server.pc.entries) :
    ∃ c, t.server.net.heap.get? e.2 = some c := by
  obtain ⟨d, ht⟩ := h.ported.tables
  obtain ⟨c, hc, -⟩ := ht.get? (h.ported.entries.1 e he)
  exact ⟨c, hc⟩

/-- The handlers push without undefined behaviour exactly if the sums stay inside `int`. -/
theorem Carries.record_iff (hk : onNetMsg.Pushes answers) (h : t.Carries) {e : IocpEvent}
    (hl : t.Legal e) : (∃ f, t.record answers e = some f) ↔ t.SumsFit answers e := by
  cases e with
  | post posted =>
      obtain ⟨iotype, e, rest, hpc⟩ := hl.1
      obtain ⟨c, hc⟩ := h.get? (e := e) (by rw [hpc]; exact List.mem_cons_self)
      refine ⟨fun _ => trivial, fun _ => ?_⟩
      rw [record, hpc]
      dsimp only
      rw [hc]
      exact ⟨_, rfl⟩
  | doMsg =>
      obtain ⟨rest, hpc⟩ := hl.1
      rw [record, SumsFit, hpc]
      cases rest with
      | nil => exact ⟨fun _ e rest c hpc' => (nomatch hpc'), fun _ => ⟨_, rfl⟩⟩
      | cons e rest =>
          obtain ⟨c, hc⟩ := h.get? (e := e) (by rw [hpc]; exact List.mem_cons_self)
          have hflow := h.flow e.2 c hc
          dsimp only
          rw [hc, Option.bind_eq_bind, Option.bind_some]
          constructor
          · rintro ⟨f, hf⟩ e' rest' c' hpc' hc' hmsg
            obtain ⟨rfl, -⟩ := List.cons.inj (IocpPc.msgs.inj hpc')
            obtain rfl := Option.some.inj (hc.symm.trans hc')
            rw [if_pos hmsg] at hf
            by_contra hno
            rw [CellBuffer.pushAll_eq_none hflow.send (hk.int32 t.server.ext c c.frontMsg)
              hno] at hf
            cases hf
          · intro hfit
            by_cases hmsg : c.hasMsg = true
            · obtain ⟨b, accepted, hp, -⟩ :=
                CellBuffer.pushAll_spec hflow.send (hfit e rest c rfl hc hmsg)
              rw [if_pos hmsg, hp]
              exact ⟨_, rfl⟩
            · exact ⟨_, if_neg hmsg⟩
  | _ => exact ⟨fun _ => trivial, fun _ => ⟨_, rfl⟩⟩

/-- The data path of the port does for the client `p` what the socket calls would do: a receive
comes in behind what is held, a send takes what is held first, and nothing is lost or doubled on
the way from the peer to the handlers and from the pushes to the kernel. -/
structure KeepsStreams (t : Traffic σ) (p : Ptr) (c : CellClient) : Prop where
  received : (t.streams p).arrived = (t.streams p).popped ++ c.recvBuff.content
  written : (t.streams p).pushed = (t.streams p).sent ++ c.sendBuff.content
  recv : ∀ op ∈ t.server.server.poller.pending, op.ptr = p → op.iotype = .recv → ∀ bytes,
    bytes ≠ [] → (bytes.length : ℤ) ≤ op.io.len →
    op.io.buf = c.recvBuff.nLast ∧
    (bytes.length : ℤ) ≤ c.recvBuff.nSize - c.recvBuff.nLast ∧
    (c.recvBuff.read4Iocp bytes.length).2 = true ∧
    (c.complete op bytes).recvBuff = (c.recvBuff.read4socket (some bytes)).1
  send : ∀ op ∈ t.server.server.poller.pending, op.ptr = p → op.iotype = .send →
    op.io.buf = 0 ∧ op.io.len = (t.streams p).window.length ∧
    (t.streams p).window <+: c.sendBuff.content ∧
    ∀ bytes, bytes ≠ [] → bytes <+: (t.streams p).window →
      (bytes.length : ℤ) ≤ c.sendBuff.nLast ∧ bytes = c.sendBuff.content.take bytes.length ∧
      (c.sendBuff.write2Iocp bytes.length).2 = true ∧ ∀ sockfd, sockfd ≠ INVALID_SOCKET →
        (c.complete op bytes).sendBuff = (c.sendBuff.write2socket sockfd bytes.length).1

theorem Carries.keepsStreams (h : t.Carries) {p : Ptr} {c : CellClient}
    (hc : t.server.net.heap.get? p = some c) : t.KeepsStreams p c := by
  have hflow := h.flow p c hc
  have hflag := (h.ported.flagged p).flag
  refine ⟨hflow.arrived, hflow.pushed, ?_, ?_⟩
  · intro op hop hp ht bytes hn hl
    obtain ⟨hb, hlen, -⟩ := hflow.reads op ⟨hop, hp⟩ ht
    have hset := hflag op ⟨hop, hp⟩ c hc
    rw [ht] at hset
    obtain ⟨hread, he⟩ := CellClient.complete_recv hset ht hb hn (hlen ▸ hl)
    exact ⟨hb, hlen ▸ hl, hread, by rw [he]⟩
  · intro op hop hp ht
    obtain ⟨hb, hlen, hw⟩ := hflow.writes op ⟨hop, hp⟩ ht
    refine ⟨hb, hlen, hw, fun bytes hn hpre => ?_⟩
    obtain ⟨hl, htake⟩ := hflow.eq_take ⟨hop, hp⟩ ht hpre
    have hset := hflag op ⟨hop, hp⟩ c hc
    rw [ht] at hset
    refine ⟨hl, htake, ?_, fun sockfd hs => ?_⟩
    · have hs : (0 : SOCKET) ≠ INVALID_SOCKET := by decide
      exact (CellClient.complete_send hset ht hn hl hs).1
    · rw [(CellClient.complete_send hset ht hn hl hs).2]

/-- As long as no sum in `push` leaves `int`, the streams of every live client are kept; and in
each state that is reached, a step goes through exactly if the condition holds for it, completions
for deleted clients aside. -/
theorem streams_kept (hk : onNetMsg.Pushes answers)
    (h : ((system onNetMsg answers).guard (SumsFit answers)).Reachable t) :
    (∀ p c, t.server.net.heap.get? p = some c → t.KeepsStreams p c) ∧
    ∀ e, t.Legal e →
      (∀ op bytes, e = .complete op bytes → ∃ c, t.server.net.heap.get? op.ptr = some c) →
      ((∃ t', t.next onNetMsg answers e = some t') ↔ t.SumsFit answers e) := by
  have hc := carries_of_reachable hk h
  refine ⟨fun p c => hc.keepsStreams, fun e hl hlive => ?_⟩
  obtain ⟨server, hserver, -⟩ := next_ported hk.keepsIo hc.ported hl.1 hlive
  rw [← hc.record_iff hk hl, next, hserver, Option.bind_eq_bind, Option.bind_some]
  constructor
  · rintro ⟨t', ht'⟩
    obtain ⟨f, hf, -⟩ := Option.bind_eq_some_iff.mp ht'
    exact ⟨f, hf⟩
  · rintro ⟨f, hf⟩
    rw [hf]
    exact ⟨_, rfl⟩

/-! ### Concrete traffic -/

/-- The handler that pushes its answers one after the other. -/
def answering (answers : Answers σ) : Handler σ := fun s c header =>
  match c.sendBuff.pushAll (answers s c header) with
  | none => (s, c)
  | some r => (s, { c with sendBuff := r.1 })

theorem answering_pushes (h : ∀ s c header, ∀ frame ∈ answers s c header,
    (frame.length : ℤ) ≤ 2147483647) : (answering answers).Pushes answers := by
  have hb : ∀ s c header, ∃ b, (answering answers s c header).2 = { c with sendBuff := b } ∧
      ∀ r, c.sendBuff.pushAll (answers s c header) = some r → b = r.1 := by
    intro s c header
    rw [answering]
    cases c.sendBuff.pushAll (answers s c header) with
    | none => exact ⟨c.sendBuff, rfl, nofun⟩
    | some r => exact ⟨r.1, rfl, fun r' hr => congrArg Prod.fst (Option.some.inj hr)⟩
  refine ⟨⟨?_, ?_, ?_⟩, ?_, ?_, h⟩
  · intro s c header
    obtain ⟨b, he, -⟩ := hb s c header
    rw [he]
  · intro s c header
    obtain ⟨b, he, -⟩ := hb s c header
    rw [he]
  · intro s c header
    obtain ⟨b, he, -⟩ := hb s c header
    rw [he]
  · intro s c header
    obtain ⟨b, he, -⟩ := hb s c header
    rw [he]
  · intro s c header r hr
    obtain ⟨b, he, hbr⟩ := hb s c header
    rw [he]
    exact hbr r hr

def one : Answers Unit := fun _ _ _ => [[4, 0, 9, 0]]

/-- Before the first client, with send buffers of this size. -/
def idle (nSend : ℤ) : Traffic Unit := ⟨.start nSend 8 2 1 0 (), fun _ => .empty⟩

/-- Until the first message of the first client is received. -/
def received (sendBlock : List UInt8) : List IocpEvent :=
  [.accept 5 sendBlock (List.replicate 8 0), .loop 0 fun _ => true, .checkTime 0, .post true,
    .post true, .complete ⟨0, .recv, ⟨5, 0, 8⟩⟩ [4, 0, 7, 0], .idle]

/-- What the first message finds. -/
theorem path_received (answers : Answers Unit) (sendBlock : List UInt8) :
    ∃ t c, ((system (answering answers) answers).guard (SumsFit answers)).Path
        (idle sendBlock.length) (received sendBlock) t ∧
      t.server.pc = .msgs [(5, 0)] ∧ t.server.net.heap.get? 0 = some c ∧ c.hasMsg = true ∧
      c.sendBuff = .new sendBlock.length sendBlock ∧ (t.streams 0).arrived = [4, 0, 7, 0] := by
  refine ⟨_, _, .cons ⟨trivial, ⟨show (5 : SOCKET) ∉ [] from List.not_mem_nil, rfl, rfl⟩, rfl⟩
    (.cons ⟨trivial, ⟨rfl, trivial⟩, rfl⟩ (.cons ⟨trivial, ⟨rfl, trivial⟩, rfl⟩
    (.cons ⟨trivial, ⟨⟨_, _, _, rfl⟩, trivial⟩, rfl⟩
    (.cons ⟨trivial, ⟨⟨_, _, _, rfl⟩, trivial⟩, rfl⟩
    (.cons ⟨trivial, ⟨⟨rfl, List.mem_singleton.mpr rfl, by decide⟩, nofun⟩, rfl⟩
    (.cons ⟨trivial, ⟨rfl, trivial⟩, rfl⟩ (.nil _))))))), rfl, rfl, rfl, rfl, rfl⟩

theorem streams_kept_received :
    ∃ t c t', (system (answering one) one).Reachable t ∧ t.server.net.heap.get? 0 = some c ∧
      t.KeepsStreams 0 c ∧ (t.streams 0).arrived = [4, 0, 7, 0] ∧
      t.next (answering one) one .doMsg = some t' := by
  obtain ⟨t, c, hp, hpc, hc, -, hsend, harrived⟩ := path_received one (List.replicate 8 0)
  have h₀ : ((system (answering one) one).guard (SumsFit one)).Reachable (idle 8) :=
    .init ⟨8, 8, 2, 1, 0, (), by decide, by decide, rfl⟩
  have hpush : (answering one).Pushes one := by
    refine answering_pushes fun _ _ _ frame hf => ?_
    rw [List.mem_singleton.mp hf]
    decide
  have hr := h₀.path hp
  obtain ⟨hkeeps, hstep⟩ := streams_kept hpush hr
  have hfit : t.SumsFit one .doMsg := by
    rintro e rest d hpc' hd -
    obtain ⟨rfl, -⟩ := List.cons.inj (IocpPc.msgs.inj (hpc.symm.trans hpc'))
    obtain rfl := Option.some.inj (hc.symm.trans hd)
    rw [hsend]
    exact ⟨by decide, trivial⟩
  obtain ⟨t', ht'⟩ := (hstep .doMsg ⟨⟨_, hpc⟩, trivial⟩ nofun).mpr hfit
  exact ⟨t, c, t', hr.of_guard, hc, hkeeps 0 c hc, harrived, ht'⟩

/-- A frame as long as an `int` can say, and one byte more. -/
def flood : Answers Unit := fun _ _ _ => [List.replicate 2147483647 0, [0]]

/-- A send buffer of that size is full after the first answer; the second one is written past its
end. -/
theorem streams_overflow :
    ∃ t, (system (answering flood) flood).Reachable t ∧ t.Legal .doMsg ∧
      t.next (answering flood) flood .doMsg = none := by
  obtain ⟨t, c, hp, hpc, hc, hmsg, hsend, -⟩ :=
    path_received flood (List.replicate 2147483647 0)
  have hlen : ((List.replicate 2147483647 (0 : UInt8)).length : ℤ) = 2147483647 := by
    rw [List.length_replicate]
    rfl
  have h₀ : (system (answering flood) flood).Reachable
      (idle (List.replicate 2147483647 (0 : UInt8)).length) :=
    .init ⟨_, 8, 2, 1, 0, (), hlen.le, by decide, rfl⟩
  refine ⟨t, h₀.path hp.of_guard, ⟨⟨_, hpc⟩, trivial⟩, ?_⟩
  have hnone : c.sendBuff.pushAll (flood () c c.frontMsg) = none := by
    rw [hsend]
    refine CellBuffer.pushAll_eq_none (CellBuffer.valid_new rfl hlen.le) ?_ ?_
    · intro frame hf
      rcases List.mem_cons.mp hf with rfl | hf
      · exact hlen.le
      · rw [List.mem_singleton.mp hf]
        decide
    · rintro ⟨-, hfit, -⟩
      rw [CellBuffer.new, hlen] at hfit
      dsimp only at hfit
      rw [if_pos (by omega), List.length_singleton] at hfit
      omega
  have hrecord : t.record flood .doMsg = none := by
    rw [record, hpc]
    dsimp only
    rw [hc, Option.bind_eq_bind, Option.bind_some, if_pos hmsg, hnone]
    rfl
  rw [next, hrecord]
  cases t.server.next (answering flood) .doMsg <;> rfl

end Traffic

end CellNet
