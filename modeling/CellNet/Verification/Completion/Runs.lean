import CellNet.Verification.Completion.Moves

/-! The runs of a completion-port worker, seen by each client: every step of the worker is one
of the things that can happen to it. -/

namespace CellNet

open Library Worker

/-- The entries that a loop of the worker has still to visit. -/
def IocpPc.entries : IocpPc → List (SOCKET × Ptr)
  | .posting _ rest => rest
  | .msgs rest => rest
  | _ => []

namespace IocpServer

open CellIOCPServer

variable {σ : Type} {onNetMsg : Handler σ} {s s' : IocpServer σ}

def view (s : IocpServer σ) (p : Ptr) : View := s.worker.view p

/-- The tables and the port are in order, operations of deleted clients aside, and the loops go
over clients of the table. -/
structure Ported (s : IocpServer σ) : Prop where
  tables : ∃ detached, PortBase (max 0 s.nMaxClient) s.server.clientsBuff detached s.worker
  entries : Distinct s.pc.entries s.worker

/-- The step is not one for the client `p`. -/
def Spares (s : IocpServer σ) (p : Ptr) : IocpEvent → Prop
  | .checkTime _ => p ∉ s.server.clients.entries.map Prod.snd
  | .post _ => ∀ t e rest, s.pc = .posting t (e :: rest) → p ≠ e.2
  | .complete op _ => p ≠ op.ptr
  | .doMsg => ∀ e rest c, s.pc = .msgs (e :: rest) → s.net.heap.get? e.2 = some c →
      c.hasMsg = true → p ≠ e.2
  | _ => True

/-- What may happen to the client `p` in a step. -/
inductive Occurs (s : IocpServer σ) (p : Ptr) : IocpEvent → Act σ → Prop where
  | keep (e) : Spares s p e → Occurs s p e .keep
  | accept (cSock sendBlock recvBlock) : p = s.net.heap.next →
      Occurs s p (.accept cSock sendBlock recvBlock)
        (.accept (s.newClient cSock sendBlock recvBlock))
  | join {now posted a} : p ∈ s.server.clientsBuff → JoinAct posted (s.view p) a →
      Occurs s p (.loop now posted) a
  | time {now a} : p ∈ s.server.clients.entries.map Prod.snd →
      TimeAct (now - s.server.oldTime) (s.view p) a → Occurs s p (.checkTime now) a
  | post {t e rest posted a} : s.pc = .posting t (e :: rest) → p = e.2 →
      PostAct t posted (s.view p) a → Occurs s p (.post posted) a
  | complete {op bytes a} : p = op.ptr → CompleteAct op bytes (s.view p) a →
      Occurs s p (.complete op bytes) a
  | msg {e rest} : s.pc = .msgs (e :: rest) → p = e.2 → Occurs s p .doMsg (.msg s.ext)

/-! What each act tells of the step that it happens in. -/

section Inversion

variable {p : Ptr} {e : IocpEvent} {t : IoType} {op : Overlapped}

theorem CompleteAct.eq {bytes : List UInt8} {v : View} {a : Act σ} (h : CompleteAct op bytes v a) :
    bytes = [] ∧ a = .fail op ∨ bytes ≠ [] ∧ a = .fill op bytes := by
  rw [CompleteAct] at h
  split at h
  · exact .inl ⟨‹_›, h⟩
  · exact .inr ⟨‹_›, h⟩

theorem Occurs.look (h : Occurs (σ := σ) s p e (.look t)) :
    (∃ now posted, e = .loop now posted ∧ p ∈ s.server.clientsBuff) ∨
      ∃ f rest posted, e = .post posted ∧ s.pc = .posting t (f :: rest) ∧ p = f.2 := by
  cases h with
  | join hp => exact .inl ⟨_, _, rfl, hp⟩
  | time _ ha => rcases ha.eq with ha | ha | ha <;> cases ha
  | post hpc hp ha =>
      rcases ha with ha | ⟨ha, -⟩ | ⟨ha, -⟩ <;> cases ha
      exact .inr ⟨_, _, _, rfl, hpc, hp⟩
  | complete _ ha => rcases CompleteAct.eq ha with ⟨-, ha⟩ | ⟨-, ha⟩ <;> cases ha

theorem Occurs.lost (h : Occurs (σ := σ) s p e .lost) : ∃ now posted c, e = .loop now posted ∧
    p ∈ s.server.clientsBuff ∧ (s.view p).client = some c ∧ posted c.sockfd = false := by
  cases h with
  | join hp ha => exact ⟨_, _, _, rfl, hp, ha.choose_spec⟩
  | time _ ha => rcases ha.eq with ha | ha | ha <;> cases ha
  | post _ _ ha => rcases ha with ha | ⟨ha, -⟩ | ⟨ha, -⟩ <;> cases ha
  | complete _ ha => rcases CompleteAct.eq ha with ⟨-, ha⟩ | ⟨-, ha⟩ <;> cases ha

theorem Occurs.drop (h : Occurs (σ := σ) s p e (.drop t)) :
    ∃ f rest, e = .post false ∧ s.pc = .posting t (f :: rest) ∧ p = f.2 := by
  cases h with
  | join _ ha => exact ha.elim
  | time _ ha => rcases ha.eq with ha | ha | ha <;> cases ha
  | post hpc hp ha =>
      rcases ha with ha | ⟨ha, -⟩ | ⟨ha, rfl⟩ <;> cases ha
      exact ⟨_, _, rfl, hpc, hp⟩
  | complete _ ha => rcases CompleteAct.eq ha with ⟨-, ha⟩ | ⟨-, ha⟩ <;> cases ha

theorem Occurs.fail (h : Occurs (σ := σ) s p e (.fail op)) : e = .complete op [] ∧ p = op.ptr := by
  cases h with
  | join _ ha => exact ha.elim
  | time _ ha => rcases ha.eq with ha | ha | ha <;> cases ha
  | post _ _ ha => rcases ha with ha | ⟨ha, -⟩ | ⟨ha, -⟩ <;> cases ha
  | complete hp ha =>
      rcases CompleteAct.eq ha with ⟨rfl, ha⟩ | ⟨-, ha⟩ <;> cases ha
      exact ⟨rfl, hp⟩

end Inversion

/-- What a step does to each client is something that may happen to it. -/
def Moves (onNetMsg : Handler σ) (s : IocpServer σ) (e : IocpEvent) (s' : IocpServer σ) : Prop :=
  ∀ p, ∃ a, Occurs s p e a ∧ Move onNetMsg p a (s.view p) (s'.view p)

theorem distinct_nil (w : Worker CellIOCP) : Distinct [] w := ⟨nofun, .nil⟩

/-- The worker goes on at `pc` with the tables it has left. -/
theorem ported_withWorker {w : Worker CellIOCP} {detached : List Ptr}
    (h : PortBase (max 0 s.nMaxClient) w.2.clientsBuff detached w) (pc : IocpPc)
    (hd : Distinct pc.entries w) : (s.withWorker w pc).Ported :=
  ⟨⟨detached, h⟩, hd⟩

theorem distinct_nextPost {w : Worker CellIOCP} {rest : List (SOCKET × Ptr)}
    (h : Distinct rest w) : Distinct (IocpPc.nextPost rest).entries w := by
  cases rest with
  | nil => exact distinct_nil w
  | cons e rest => exact h

theorem moves_of_same {e : IocpEvent} (hs : ∀ p, Spares s p e)
    (h : ∀ p, s'.view p = s.view p) : Moves onNetMsg s e s' :=
  fun p => ⟨.keep, .keep e (hs p), by rw [h p]; exact .keep _⟩

theorem moves_of_moved {e : IocpEvent} {ok : View → Act σ → Prop} {p : Ptr}
    (h : Moved onNetMsg ok p s.worker s'.worker) (hs : ∀ q, q ≠ p → Spares s q e)
    (hok : ∀ a, ok (s.view p) a → Occurs s p e a) : Moves onNetMsg s e s' := by
  intro q
  by_cases hq : q = p
  · subst hq
    obtain ⟨a, ha, hm⟩ := h.self
    exact ⟨a, hok a ha, hm⟩
  · refine ⟨.keep, .keep e (hs q hq), ?_⟩
    rw [show s'.view q = s.view q from h.others q hq]
    exact .keep _

theorem moves_of_movedAll {e : IocpEvent} {ok : View → Act σ → Prop} {all : List Ptr}
    (h : MovedAll onNetMsg ok all [] s.worker s'.worker) (hs : ∀ p, p ∉ all → Spares s p e)
    (hok : ∀ p ∈ all, ∀ a, ok (s.view p) a → Occurs s p e a) : Moves onNetMsg s e s' := by
  intro p
  rcases h p with ⟨hout, hv⟩ | ⟨hin, -, a, ha, hm⟩
  · refine ⟨.keep, .keep e (hs p fun hin => List.not_mem_nil (hout hin)), ?_⟩
    rw [show s'.view p = s.view p from hv]
    exact .keep _
  · exact ⟨a, hok p hin a ha, hm⟩

/-! ### The steps -/

theorem loop_ported (h : s.Ported) (now : ℤ) (posted : SOCKET → Bool) :
    ∃ s', s.loop now posted = some s' ∧ s'.Ported ∧ Moves onNetMsg s (.loop now posted) s' := by
  obtain ⟨d, ht⟩ := h.tables
  obtain ⟨w, hw, ht, hm⟩ := drain_base onNetMsg (w := s.worker) posted ht
  have hmoves : ∀ s' : IocpServer σ, (∀ p, s'.view p = w.view p) →
      Moves onNetMsg s (.loop now posted) s' := by
    intro s' hv
    have hall : MovedAll onNetMsg (JoinAct posted) s.server.clientsBuff [] s.worker s'.worker := by
      intro p
      rw [show s'.worker.view p = w.view p from hv p]
      exact hm p
    exact moves_of_movedAll hall (fun _ _ => trivial) fun p hp a => .join hp
  rw [IocpServer.loop, hw, Option.map_some]
  split
  · have ht' := ht.congr (s := { w.2 with oldTime := now }) rfl rfl rfl
    exact ⟨_, rfl, ported_withWorker ht' .top (distinct_nil _), hmoves _ fun _ => rfl⟩
  · exact ⟨_, rfl, ported_withWorker ht .check (distinct_nil _), hmoves _ fun _ => rfl⟩

theorem checkTime_ported (h : s.Ported) (now : ℤ) :
    ∃ s', s.checkTime now = some s' ∧ s'.Ported ∧ Moves onNetMsg s (.checkTime now) s' := by
  obtain ⟨d, ht⟩ := h.tables
  obtain ⟨w, d', hw, ht', hb, hm⟩ := checkTime_base onNetMsg ht now
  rw [IocpServer.checkTime, hw, Option.map_some]
  refine ⟨_, rfl, ported_withWorker (hb ▸ ht') _ ?_, moves_of_movedAll hm (fun _ hp => hp)
    fun p hp a => .time hp⟩
  exact distinct_nextPost ⟨fun _ he => he, ht'.ptr_nodup⟩

theorem post_ported (h : s.Ported) {posted : Bool} (hl : Legal s (.post posted)) :
    ∃ s', s.post posted = some s' ∧ s'.Ported ∧ Moves onNetMsg s (.post posted) s' := by
  obtain ⟨iotype, e, rest, hpc⟩ := hl
  obtain ⟨d, ht⟩ := h.tables
  have hd : Distinct (e :: rest) s.worker := by
    have := h.entries
    rwa [hpc] at this
  obtain ⟨w, b, hw, ht', hk, hb, hm⟩ := postEntry_base onNetMsg ht iotype
    (hd.1 e List.mem_cons_self) posted
  have hrest := hd.tail hk
  rw [IocpServer.post, hpc]
  dsimp only
  rw [hw, Option.map_some]
  refine ⟨_, rfl, ported_withWorker (hk.1 ▸ ht') _ ?_,
    moves_of_moved hm (fun q hq t f es hpc' => ?_) fun a => .post hpc rfl⟩
  swap
  · obtain ⟨-, he⟩ := IocpPc.posting.inj (hpc.symm.trans hpc')
    exact (List.cons.inj he).1 ▸ hq
  cases b with
  | false => exact distinct_nextPost hrest
  | true =>
      cases iotype with
      | recv => exact distinct_nextPost hrest
      | send =>
          refine ⟨fun f hf => ?_, hd.2⟩
          rcases List.mem_cons.mp hf with rfl | hf
          · exact hb rfl
          · exact hrest.1 f hf

variable (onNetMsg) in
/-- A completion for a live client is applied to it. -/
theorem complete_ported (h : s.Ported) {op : Overlapped}
    (hop : op ∈ s.server.poller.pending) {c : CellClient}
    (hc : s.net.heap.get? op.ptr = some c) (bytes : List UInt8) :
    ∃ s', s.complete op bytes = some s' ∧ s'.Ported ∧
      Moved onNetMsg (CompleteAct op bytes) op.ptr s.worker s'.worker ∧
      s'.server.clientsBuff = s.server.clientsBuff ∧
      (bytes = [] → s'.net.left = s.net.left ++ [op.ptr] ∧
        s'.net.clientAccept = s.net.clientAccept - 1) := by
  obtain ⟨d, ht⟩ := h.tables
  obtain ⟨w, d', hw, ht', hb, -, hm, hleft⟩ := completion_base onNetMsg ht hop hc bytes
  rw [IocpServer.complete, hw, Option.map_some]
  exact ⟨_, rfl, ported_withWorker (hb ▸ ht') .polling (distinct_nil _), hm, hb, hleft⟩

/-- An address that is not given out yet has no client and no operation. -/
theorem Ported.view_next (h : s.Ported) : s.view s.net.heap.next = ⟨none, ∅⟩ := by
  obtain ⟨d, ht⟩ := h.tables
  ext1
  · have hs := Net.sockfd?_next s.net
    rw [Net.sockfd?, Option.map_eq_none_iff] at hs
    exact hs
  · exact Set.eq_empty_of_forall_notMem fun op hop =>
      Nat.ne_of_lt (ht.born op hop.1).1 hop.2

theorem accept_ported (h : s.Ported) {cSock : SOCKET} (hf : cSock ∉ s.net.openSocks)
    (sendBlock recvBlock : List UInt8) :
    ∃ s', s.iocpAccept cSock sendBlock recvBlock = some s' ∧ s'.Ported ∧
      Moves onNetMsg s (.accept cSock sendBlock recvBlock) s' := by
  obtain ⟨d, ht⟩ := h.tables
  rw [iocpAccept]
  by_cases hv : INVALID_SOCKET = cSock
  · exact ⟨s, if_pos hv, h, moves_of_same (fun _ => trivial) fun _ => rfl⟩
  · rw [if_neg hv]
    by_cases hb : (s.net.accept cSock).clientAccept < s.nMaxClient
    · rw [if_pos hb]
      have hget : ∀ q, ((s.net.accept cSock).newClient
          (s.newClient cSock sendBlock recvBlock)).heap.get? q =
          if q = s.net.heap.next then some (s.newClient cSock sendBlock recvBlock)
          else s.net.heap.get? q := Heap.get?_alloc s.net.heap _
      refine ⟨_, rfl, ⟨⟨d, ?_, fun op hop => ?_, fun op hop c hc => ?_, ht.unique, ht.len,
        ht.keys⟩, h.entries⟩, fun p => ?_⟩
      · have hr := ht.roster.accept (c := s.newClient cSock sendBlock recvBlock) hf (Ne.symm hv)
          (lt_of_lt_of_le hb (le_max_right ..))
        exact hr.perm (.refl _) (List.perm_append_singleton _ _).symm (.refl _)
      · have hlt := (ht.born op hop).1
        refine ⟨(Heap.next_alloc ..).symm ▸ Nat.lt_succ_of_lt hlt, fun hm => ?_⟩
        rcases List.mem_append.mp hm with hm | hm
        · exact (ht.born op hop).2 hm
        · exact Nat.ne_of_lt hlt (List.mem_singleton.mp hm)
      · have hg := (hget op.ptr).symm.trans hc
        have hne : op.ptr ≠ s.net.heap.next := Nat.ne_of_lt (ht.born op hop).1
        rw [if_neg hne] at hg
        exact ht.flag op hop c hg
      · have hview : Worker.view ((s.net.accept cSock).newClient
            (s.newClient cSock sendBlock recvBlock), s.server.addClient s.net.heap.next) p =
            if p = s.net.heap.next then ⟨some (s.newClient cSock sendBlock recvBlock),
              (Worker.view (s.net, s.server) s.net.heap.next).ops⟩
            else Worker.view (s.net, s.server) p := view_update hget rfl p
        by_cases hp : p = s.net.heap.next
        · refine ⟨.accept (s.newClient cSock sendBlock recvBlock), .accept _ _ _ hp, ?_⟩
          have hold := h.view_next
          rw [if_pos hp, show (Worker.view (s.net, s.server) s.net.heap.next).ops = ∅ from
            congrArg View.ops hold] at hview
          subst hp
          rw [hold]
          have hm : Move onNetMsg s.net.heap.next
              (.accept (s.newClient cSock sendBlock recvBlock)) ⟨none, ∅⟩
              ⟨some (s.newClient cSock sendBlock recvBlock), ∅⟩ :=
            .accept (s.net.heap.next + 1) cSock s.nSendBuffSize s.nRecvBuffSize sendBlock recvBlock
          rwa [← hview] at hm
        · refine ⟨.keep, .keep _ trivial, ?_⟩
          rw [if_neg hp] at hview
          rw [show s.view p = _ from hview.symm]
          exact .keep _
    · rw [if_neg hb, Net.destroySocket_accept, Option.map_some]
      exact ⟨_, rfl, ⟨⟨d, ht.roster.refuse cSock, ht.born, ht.flag, ht.unique, ht.len, ht.keys⟩,
        h.entries⟩, moves_of_same (fun _ => trivial) fun _ => rfl⟩

theorem msgBody_isPost (hk : onNetMsg.KeepsIo) (ext : σ) (c : CellClient) (iotype : IoType) :
    (msgBody onNetMsg (ext, c)).2.isPost iotype = c.isPost iotype := by
  rw [msgBody, CellClient.popFrontMsg]
  cases iotype with
  | recv => split <;> exact hk.isPostRecv ext c _
  | send => split <;> exact hk.isPostSend ext c _

theorem doMsg_ported (hk : onNetMsg.KeepsIo) (h : s.Ported) (hl : Legal s .doMsg) :
    ∃ s', s.doMsg onNetMsg = some s' ∧ s'.Ported ∧ Moves onNetMsg s .doMsg s' := by
  obtain ⟨rest, hpc⟩ := hl
  obtain ⟨d, ht⟩ := h.tables
  have hd : Distinct rest s.worker := by
    have := h.entries
    rwa [hpc] at this
  rw [doMsg, hpc]
  cases rest with
  | nil =>
      refine ⟨_, rfl, ⟨h.tables, distinct_nil _⟩, moves_of_same (fun q f es c hpc' => ?_)
        fun _ => rfl⟩
      cases hpc.symm.trans hpc'
  | cons e rest =>
      obtain ⟨c, hc, -⟩ := ht.get? (hd.1 e List.mem_cons_self)
      have hc' : s.net.heap.get? e.2 = some c := hc
      have hfirst : ∀ {f es}, s.pc = .msgs (f :: es) → f = e := fun hpc' =>
        (List.cons.inj (IocpPc.msgs.inj (hpc'.symm.trans hpc))).1
      dsimp only
      rw [hc', Option.bind_eq_bind, Option.bind_some]
      by_cases hm : c.hasMsg = true
      · have hset := ht.setClient hc (msgBody_sockfd hk.sockfd s.ext c) fun op hop hp =>
          (msgBody_isPost hk s.ext c op.iotype).trans (ht.flag op hop c (hp ▸ hc))
        have hw : Worker.handleMsg onNetMsg s.worker s.ext e.2 =
            some ((s.net.onNetMsg.setClient e.2 (msgBody onNetMsg (s.ext, c)).2, s.server),
              (msgBody onNetMsg (s.ext, c)).1) := by
          rw [Worker.handleMsg, hc, Option.bind_eq_bind, Option.bind_some, if_pos hm]
          rfl
        have hr : Roster (max 0 s.nMaxClient)
            (s.net.onNetMsg.setClient e.2 (msgBody onNetMsg (s.ext, c)).2) s.server.seats
            s.server.clientsBuff d :=
          hset.roster.congr (fun _ => rfl) rfl rfl rfl rfl rfl hset.roster.registered
        have hget : ∀ q, (s.net.onNetMsg.setClient e.2
            (msgBody onNetMsg (s.ext, c)).2).heap.get? q =
            if q = e.2 then some (msgBody onNetMsg (s.ext, c)).2 else s.net.heap.get? q :=
          Heap.get?_set hc' _
        have hmoved : Moved onNetMsg (fun _ a => a = .msg s.ext) e.2 s.worker
            (s.net.onNetMsg.setClient e.2 (msgBody onNetMsg (s.ext, c)).2, s.server) := by
          refine moved_update hget rfl rfl ?_
          rw [view_eq hc']
          exact .msg s.ext hm
        rw [if_pos hm, hw, Option.map_some]
        exact ⟨_, rfl, ⟨⟨d, hr, hset.born, hset.flag, hset.unique, hset.len, hset.keys⟩, hd⟩,
          moves_of_moved hmoved (fun q hq f es c hpc' _ _ => hfirst hpc' ▸ hq)
            fun a ha => ha ▸ .msg hpc rfl⟩
      · refine ⟨_, if_neg hm, ⟨h.tables, fun f hf => hd.1 f (List.mem_cons_of_mem _ hf),
          (List.nodup_cons.mp hd.2).2⟩, moves_of_same (fun q f es d hpc' hd' hm' => ?_)
          fun _ => rfl⟩
        obtain rfl := hfirst hpc'
        obtain rfl := Option.some.inj (hc'.symm.trans hd')
        exact absurd hm' hm

theorem start_ported (nSend nRecv nMax id oldTime : ℤ) (ext : σ) :
    (start nSend nRecv nMax id oldTime ext).Ported :=
  ⟨⟨[], Roster.new (le_max_left ..), nofun, nofun, .nil, nofun, nofun⟩, distinct_nil _⟩

theorem start_view (nSend nRecv nMax id oldTime : ℤ) (ext : σ) (p : Ptr) :
    (start nSend nRecv nMax id oldTime ext).view p = ⟨none, ∅⟩ := by
  ext1
  · rfl
  · exact Set.eq_empty_of_forall_notMem fun op hop => List.not_mem_nil hop.1

/-- A step is taken, unless it is a completion for a client that was deleted. -/
theorem next_ported (hk : onNetMsg.KeepsIo) (h : s.Ported) {e : IocpEvent} (hl : Returns s e)
    (hlive : ∀ op bytes, e = .complete op bytes → ∃ c, s.net.heap.get? op.ptr = some c) :
    ∃ s', next onNetMsg s e = some s' ∧ s'.Ported ∧ Moves onNetMsg s e s' := by
  cases e with
  | accept cSock sendBlock recvBlock => exact accept_ported h hl sendBlock recvBlock
  | loop now posted => exact loop_ported h now posted
  | stop =>
      exact ⟨_, rfl, ⟨h.tables, distinct_nil _⟩, moves_of_same (fun _ => trivial) fun _ => rfl⟩
  | checkTime now => exact checkTime_ported h now
  | post posted => exact post_ported h hl
  | complete op bytes =>
      obtain ⟨c, hc⟩ := hlive op bytes rfl
      obtain ⟨s', hs', hp, hm, -⟩ := complete_ported onNetMsg h hl.2.1 hc bytes
      exact ⟨s', hs', hp, moves_of_moved hm (fun _ hq => hq) fun a => .complete rfl⟩
  | idle =>
      obtain ⟨d, ht⟩ := h.tables
      exact ⟨_, rfl, ⟨⟨d, ht⟩, fun _ he => he, ht.ptr_nodup⟩,
        moves_of_same (fun _ => trivial) fun _ => rfl⟩
  | error =>
      exact ⟨_, rfl, ⟨h.tables, distinct_nil _⟩, moves_of_same (fun _ => trivial) fun _ => rfl⟩
  | doMsg => exact doMsg_ported hk h hl

/-- A completion that is handled is one of a live client. -/
theorem live_of_next {op : Overlapped} {bytes : List UInt8}
    (he : next onNetMsg s (.complete op bytes) = some s') :
    ∃ c, s.net.heap.get? op.ptr = some c := by
  obtain ⟨w, hw, -⟩ := Option.map_eq_some_iff.mp he
  obtain ⟨c, hc, -⟩ := Option.bind_eq_some_iff.mp hw
  exact ⟨c, hc⟩

theorem Ported.step (hk : onNetMsg.KeepsIo) (h : s.Ported) {e : IocpEvent}
    (hs : (returning onNetMsg).step s e s') : s'.Ported ∧ Moves onNetMsg s e s' := by
  obtain ⟨t, ht, hp, hm⟩ := next_ported hk h hs.1 fun op bytes he =>
    by
      subst he
      exact live_of_next hs.2
  obtain rfl := Option.some.inj (ht.symm.trans hs.2)
  exact ⟨hp, hm⟩

theorem ported_of_reachable (hk : onNetMsg.KeepsIo) (h : (returning onNetMsg).Reachable s) :
    s.Ported := by
  refine System.Invariant.reachable (P := Ported) ⟨?_, ?_⟩ h
  · rintro s ⟨nSend, nRecv, nMax, id, oldTime, ext, rfl⟩
    exact start_ported nSend nRecv nMax id oldTime ext
  · exact fun s e s' hs hstep => (hs.step hk hstep).1

theorem Legal.returns {e : IocpEvent} (h : Legal s e) : Returns s e := by
  cases e with
  | complete op bytes => exact ⟨h.1, h.2.1, h.2.2.1⟩
  | _ => exact h

theorem Reachable.returning {ok : IocpServer σ → IocpEvent → Prop}
    (h : ((system onNetMsg).guard ok).Reachable s) :
    ((IocpServer.returning onNetMsg).guard ok).Reachable s := by
  obtain ⟨s₀, es, h₀, hp⟩ := h
  refine ⟨s₀, es, h₀, ?_⟩
  clear h₀
  induction hp with
  | nil s => exact .nil s
  | cons hs _ ih => exact .cons ⟨hs.1, hs.2.1.returns, hs.2.2⟩ ih

/-- The worker, as far as one client is concerned, goes through the life of that client. -/
theorem simulates (hk : onNetMsg.KeepsIo) (p : Ptr) (ok : IocpServer σ → IocpEvent → Prop)
    (ok' : View → Act σ → Prop)
    (hok : ∀ s e a v, s.Ported → ok s e → Occurs s p e a →
      Move onNetMsg p a (s.view p) v → ok' (s.view p) a) :
    System.Simulation ((returning onNetMsg).guard ok) ((clientSystem onNetMsg p).guard ok')
      fun s v => s.Ported ∧ s.view p = v where
  init := by
    rintro s ⟨nSend, nRecv, nMax, id, oldTime, ext, rfl⟩
    exact ⟨⟨none, ∅⟩, rfl, start_ported nSend nRecv nMax id oldTime ext,
      start_view nSend nRecv nMax id oldTime ext p⟩
  step := by
    rintro s e s' v ⟨hp, rfl⟩ ⟨hoks, hstep⟩
    obtain ⟨hp', hm⟩ := hp.step hk hstep
    obtain ⟨a, ha, hmove⟩ := hm p
    exact ⟨[a], _, .single ⟨hok s e a _ hp hoks ha hmove, hmove⟩, hp', rfl⟩

/-! ### Open and closed clients -/

/-- A closed client is in no list of the worker any more. -/
theorem Ported.closed (h : s.Ported) {p : Ptr} (hp : s.net.sockfd? p = some SOCKET_ERROR) :
    p ∉ s.server.clients.entries.map Prod.snd ∧ p ∉ s.server.clientsBuff := by
  obtain ⟨d, ht⟩ := h.tables
  have hd := (ht.roster.closed p).mp hp
  have hn := ht.roster.nodup
  have hs : s.worker.2.seats.map Seat.ptr = s.server.clients.entries.map Prod.snd := by
    rw [CellServer.seats, List.map_map]
    rfl
  rw [members, hs] at hn
  constructor
  · exact fun hm => List.disjoint_of_nodup_append hn (List.mem_append_left _ hm) hd
  · exact fun hm => List.disjoint_of_nodup_append hn (List.mem_append_right _ hm) hd

/-- A live client is in the table, waits, or was closed. -/
theorem Ported.of_live (h : s.Ported) {p : Ptr} {c : CellClient} (hc : s.net.heap.get? p = some c)
    (hopen : c.sockfd ≠ SOCKET_ERROR) :
    p ∈ s.server.clients.entries.map Prod.snd ∨ p ∈ s.server.clientsBuff := by
  obtain ⟨d, ht⟩ := h.tables
  have hm := (ht.roster.live p).mpr ⟨c.sockfd, Net.sockfd?_eq_some.mpr ⟨c, hc, rfl⟩⟩
  rcases List.mem_append.mp hm with hm | hd
  · rcases List.mem_append.mp hm with hs | hw
    · obtain ⟨e, he, rfl⟩ := mem_seats_iff.mp hs
      exact .inl (List.mem_map_of_mem he)
    · exact .inr hw
  · obtain ⟨c', hc', hk⟩ := Net.sockfd?_eq_some.mp ((ht.roster.closed p).mpr hd)
    obtain rfl := Option.some.inj (hc.symm.trans hc')
    exact absurd hk hopen

/-! ### Concrete workers -/

/-- Answers every message with one. -/
def echo : Handler Unit := fun s c _ =>
  match c.sendData [4, 0, 9, 0] 4 with
  | none => (s, c)
  | some r => (s, r.1)

def small : IocpServer Unit := start 8 8 2 1 0 ()

def accept5 : IocpEvent := .accept 5 (List.replicate 8 0) (List.replicate 8 0)

theorem echo_keepsIo : echo.KeepsIo := by
  have h : ∀ (s : Unit) c header, ∃ b, (echo s c header).2 = { c with sendBuff := b } := by
    intro s c header
    rw [echo, CellClient.sendData]
    cases c.sendBuff.push [4, 0, 9, 0] 4 with
    | none => exact ⟨c.sendBuff, rfl⟩
    | some r => exact ⟨r.1, rfl⟩
  constructor <;> intro s c header <;> rcases h s c header with ⟨b, hb⟩ <;> rw [hb]

end IocpServer

end CellNet
