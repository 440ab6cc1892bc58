import CellNet.Verification.Completion.Runs

/-! The lifetime of the clients of a completion-port worker. A client that is removed
while another of its operations is outstanding leaves a stale pointer in the port; as long
as that does not happen, every operation comes back to a live client. -/

namespace CellNet

open Library Worker

/-! ### One client -/

/-- A client goes only while nothing else of it is outstanding. -/
def LeavesIdle {σ : Type} (v : View) : Act σ → Prop
  | .drop _ => v.ops = ∅
  | .expire => v.ops = ∅
  | .fail op => v.ops \ {op} = ∅
  | _ => True

/-- Then nothing is outstanding for a client that is not there. -/
theorem ops_of_gone {σ : Type} {onNetMsg : Handler σ} {p : Ptr} {v : View}
    (h : ((clientSystem onNetMsg p).guard LeavesIdle).Reachable v) (hv : v.client = none) :
    v.ops = ∅ := by
  have hi : ((clientSystem onNetMsg p).guard LeavesIdle).Invariant
      fun v => v.client = none → v.ops = ∅ := by
    constructor
    · rintro v rfl -
      rfl
    · rintro v a v' hv ⟨hok, hm⟩ hnone
      cases hm with
      | keep => exact hv hnone
      | drop | expire | fail => exact hok
      | _ => cases hnone
  exact hi.reachable h hv

/-! ### The runs -/

namespace IocpServer

open CellIOCPServer

variable {σ : Type} {onNetMsg : Handler σ} {s : IocpServer σ}

/-- A client is removed only while none of its other operations is outstanding. -/
def RemovesIdle (s : IocpServer σ) : IocpEvent → Prop
  | .post posted => ∀ iotype e rest c, s.pc = .posting iotype (e :: rest) →
      s.net.heap.get? e.2 = some c → posted = false → (c.makeIoData iotype).2.isSome →
        s.server.poller.Idle e.2
  | .complete op bytes => bytes = [] → (s.server.poller.finish op).Idle op.ptr
  | _ => True

structure PortOk (s : IocpServer σ) : Prop where
  tables : ∃ detached,
    PortTables (max 0 s.nMaxClient) s.server.clientsBuff detached s.worker
  entries : Distinct s.pc.entries s.worker

theorem PortOk.ported (h : s.PortOk) : s.Ported :=
  ⟨h.tables.imp fun _ ht => ht.base, h.entries⟩

theorem leavesIdle {p : Ptr} {e : IocpEvent} {a : Act σ} {v : View} (h : s.Ported)
    (hi : RemovesIdle s e) (ho : Occurs s p e a) (hm : Move onNetMsg p a (s.view p) v) :
    LeavesIdle (s.view p) a := by
  obtain ⟨d, ht⟩ := h.tables
  have hclient : (s.view p).client = s.net.heap.get? p := rfl
  have hops : (s.view p).ops = {op | op ∈ s.server.poller.pending ∧ op.ptr = p} := rfl
  generalize hv : s.view p = w at hm hclient hops
  cases hm with
  | drop t hio =>
      obtain ⟨f, rest, rfl, hpc, rfl⟩ := ho.drop
      have hidle := hi t f rest _ hpc hclient.symm rfl (by rw [hio]; rfl)
      exact hops.trans (Set.eq_empty_of_forall_notMem fun op hop => hidle op hop.1 hop.2)
  | expire hflag =>
      refine hops.trans (Set.eq_empty_of_forall_notMem fun op hop => ?_)
      have hf := ht.flag op hop.1 _ (hop.2 ▸ hclient.symm)
      rw [CellClient.isPostIoAction, Bool.or_eq_false_iff] at hflag
      cases hiot : op.iotype with
      | recv => exact Bool.noConfusion (hflag.1.symm.trans (hiot ▸ hf))
      | send => exact Bool.noConfusion (hflag.2.symm.trans (hiot ▸ hf))
  | @fail c ops op hop =>
      obtain ⟨rfl, hp⟩ := ho.fail
      rw [LeavesIdle]
      refine Set.eq_empty_of_forall_notMem fun o ho => ?_
      have ho' : o ∈ s.server.poller.pending ∧ o.ptr = p := by
        have := ho.1
        rwa [hops] at this
      refine hi rfl o ?_ (ho'.2.trans hp)
      exact ht.pending_nodup.mem_erase_iff.mpr ⟨ho.2, ho'.1⟩
  | _ => exact trivial

/-- Every operation that the port can still return is one of a live client, and no client
has left twice. -/
structure NoStale (s : IocpServer σ) : Prop where
  live : ∀ op ∈ s.server.poller.pending, ∃ c, s.net.heap.get? op.ptr = some c
  once : s.net.left.Nodup
  dead : ∀ p ∈ s.net.left, s.net.heap.get? p = none

theorem PortOk.noStale (h : s.PortOk) : s.NoStale := by
  rcases h.tables with ⟨d, ht⟩
  have hn := ht.roster.ledger.symm.nodup List.nodup_range
  refine ⟨fun op hop => (ht.flag op hop).imp fun _ hc => hc.1, hn.of_append_right, ?_⟩
  intro p hp
  cases hc : s.net.heap.get? p with
  | none => rfl
  | some c =>
      have hm := (ht.roster.live p).mpr ⟨c.sockfd, Net.sockfd?_eq_some.mpr ⟨c, hc, rfl⟩⟩
      exact absurd hp (List.disjoint_of_nodup_append hn hm)

theorem portOk_of_reachable (hk : onNetMsg.KeepsIo)
    (h : ((system onNetMsg).guard RemovesIdle).Reachable s) : s.PortOk := by
  have hr := Reachable.returning h
  have hp := ported_of_reachable hk hr.of_guard
  refine ⟨hp.tables.imp fun _ ht => ht.tables fun op hop => ?_, hp.entries⟩
  have hs := simulates hk op.ptr RemovesIdle LeavesIdle
    fun s e a v => leavesIdle
  obtain ⟨v, hv, -, rfl⟩ := hs.reachable hr
  refine Option.ne_none_iff_exists'.mp fun hnone => ?_
  have hempty := ops_of_gone hv hnone
  exact Set.eq_empty_iff_forall_notMem.mp hempty op ⟨hop, rfl⟩

/-- In every run in which a client is removed only while none of its other operations is
outstanding, all operations come back to live clients, each client leaves at most once, and
no step faults. -/
theorem completions_live (hk : onNetMsg.KeepsIo)
    (h : ((system onNetMsg).guard RemovesIdle).Reachable s) :
    s.NoStale ∧ ∀ e, Legal s e → RemovesIdle s e → ∃ s', next onNetMsg s e = some s' := by
  have hok := portOk_of_reachable hk h
  refine ⟨hok.noStale, fun e hl hi => ?_⟩
  obtain ⟨s', hs', -⟩ := next_ported hk hok.ported hl.returns fun op bytes he =>
    hok.noStale.live op (he ▸ hl).2.1
  exact ⟨s', hs'⟩

/-- Otherwise the other operation comes back to a client that was deleted. -/
theorem completion_stale (h : s.PortOk) {op o : Overlapped} (hl : Legal s (.complete op []))
    (ho : o ∈ s.server.poller.pending.erase op) (hp : o.ptr = op.ptr) :
    ∃ s', next onNetMsg s (.complete op []) = some s' ∧ Legal s' (.complete o []) ∧
      next onNetMsg s' (.complete o []) = none := by
  obtain ⟨d, ht⟩ := h.tables
  obtain ⟨c, hc, -⟩ := ht.flag op hl.2.1
  obtain ⟨w, -, hw, -, -, hq, ⟨⟨a, ha, hm⟩, -⟩, -⟩ := completion_base onNetMsg
    ht.base hl.2.1 hc []
  have hgone : w.1.heap.get? op.ptr = none := by
    obtain rfl : a = .fail op := ha
    generalize s.worker.view op.ptr = u at hm
    generalize hv : w.view op.ptr = v at hm
    cases hm
    exact congrArg View.client hv
  refine ⟨s.withWorker w .polling, ?_, ⟨rfl, ?_, ?_, fun _ => rfl⟩, ?_⟩
  · rw [next, complete, hw, Option.map_some]
  · exact hq.symm ▸ ho
  · exact Int.le_of_lt (ht.len o (List.mem_of_mem_erase ho))
  · have hnone : (s.withWorker w .polling).worker.1.heap.get? o.ptr = none := hp ▸ hgone
    rw [next, complete, completion, hnone]
    rfl

/-- A client that was taken up, with its first receive outstanding. -/
theorem completions_live_joined :
    ∃ s s', next echo small accept5 = some s ∧ next echo s (.loop 0 fun _ => true) = some s' ∧
      s'.server.poller.pending.length = 1 ∧ s'.NoStale := by
  have h₀ : ((system echo).guard RemovesIdle).Reachable small := .init ⟨8, 8, 2, 1, 0, (), rfl⟩
  have h₁ := h₀.step (l := accept5) ⟨trivial, show (5 : SOCKET) ∉ [] from List.not_mem_nil, rfl⟩
  have h₂ := h₁.step (l := IocpEvent.loop 0 fun _ => true) ⟨trivial, rfl, rfl⟩
  exact ⟨_, _, rfl, rfl, rfl, (completions_live echo_keepsIo h₂).1⟩

/-- The receive and the send of a client are outstanding when its peer closes: the client is
deleted with the first completion, and the second one is handled for it all the same. -/
theorem completion_of_deleted :
    ∃ s op, (system echo).Reachable s ∧ Legal s (.complete op []) ∧ op.ptr ∈ s.net.left ∧
      next echo s (.complete op []) = none := by
  have hp : ∃ s, (system echo).Path small [accept5, .loop 0 fun _ => true, .checkTime 0,
      .post true, .post true, .complete ⟨0, .recv, ⟨5, 0, 8⟩⟩ [4, 0, 7, 0], .idle, .doMsg,
      .doMsg, .doMsg, .loop 0 fun _ => true, .checkTime 0, .post true, .post true,
      .complete ⟨0, .recv, ⟨5, 0, 8⟩⟩ []] s ∧ s.pc = .polling ∧ s.net.left = [0] ∧
      s.net.heap.get? 0 = none ∧ s.server.poller.pending = [⟨0, .send, ⟨5, 0, 4⟩⟩] := by
    refine ⟨_, .cons ⟨show (5 : SOCKET) ∉ [] from List.not_mem_nil, rfl⟩ (.cons ⟨rfl, rfl⟩
      (.cons ⟨rfl, rfl⟩ (.cons ⟨⟨_, _, _, rfl⟩, rfl⟩ (.cons ⟨⟨_, _, _, rfl⟩, rfl⟩
      (.cons ⟨⟨rfl, ?_⟩, rfl⟩ (.cons ⟨rfl, rfl⟩ (.cons ⟨⟨_, rfl⟩, rfl⟩ (.cons ⟨⟨_, rfl⟩, rfl⟩
      (.cons ⟨⟨_, rfl⟩, rfl⟩ (.cons ⟨rfl, rfl⟩ (.cons ⟨rfl, rfl⟩ (.cons ⟨⟨_, _, _, rfl⟩, rfl⟩
      (.cons ⟨⟨_, _, _, rfl⟩, rfl⟩ (.cons ⟨⟨rfl, ?_⟩, rfl⟩ (.nil _))))))))))))))),
      rfl, rfl, rfl, rfl⟩
    · exact ⟨List.mem_singleton.mpr rfl, by decide, fun h => absurd rfl h⟩
    · exact ⟨List.mem_cons_self, by decide, fun _ => rfl⟩
  rcases hp with ⟨s, hp, hpc, hleft, hgone, hq⟩
  refine ⟨s, ⟨0, .send, ⟨5, 0, 4⟩⟩, ⟨small, _, ⟨8, 8, 2, 1, 0, (), rfl⟩, hp⟩,
    ⟨hpc, ?_, by decide, fun _ => rfl⟩, ?_, ?_⟩
  · rw [hq]
    exact List.mem_singleton.mpr rfl
  · rw [hleft]
    exact List.mem_singleton.mpr rfl
  · have hnone : s.worker.1.heap.get? 0 = none := hgone
    rw [next, complete, completion, hnone]
    rfl

end IocpServer

end CellNet
