import CellNet.Verification.Completion.Runs

/-! The flags of a client against the operations that the port still has of it. A flag is set
before it is known whether anything is posted; as long as something is, whenever a flag is set,
the flags tell what is outstanding. -/

namespace CellNet

open Library Worker

namespace CellClient

variable {c d : CellClient}

theorem makeIoData_idle {t : IoType}
    (h : c.isPost t = true ∨ t = .send ∧ c.needWrite = false) : c.makeIoData t = (c, none) := by
  cases t with
  | recv =>
      rcases h with h | ⟨h, -⟩
      · exact if_pos h
      · cases h
  | send =>
      rw [makeIoData, makeSendIoData]
      rcases h with h | ⟨-, h⟩
      · split
        · exact if_pos h
        · rfl
      · rw [h]
        rfl

/-- Nothing is posted where the flag was set, where there is nothing to write, or where the
receive buffer is full. -/
theorem of_makeIoData_none {t : IoType} (h : (c.makeIoData t).2 = none) :
    c.isPost t = true ∨ t = .send ∧ c.needWrite = false ∨
      t = .recv ∧ c.recvBuff.nSize ≤ c.recvBuff.nLast := by
  cases t with
  | recv =>
      rw [makeIoData, makeRecvIoData] at h
      split at h
      · next hp => exact .inl hp
      · rw [CellBuffer.makeRecvIoData] at h
        dsimp only at h
        split at h
        · cases h
        · next hn => exact .inr (.inr ⟨rfl, by omega⟩)
  | send =>
      rw [makeIoData, makeSendIoData] at h
      split at h
      · next hw =>
          split at h
          · next hp => exact .inl hp
          · rw [CellBuffer.makeSendIoData] at h
            rw [needWrite, CellBuffer.needWrite, decide_eq_true_iff] at hw
            dsimp only at h
            rw [if_pos hw] at h
            cases h
      · next hw => exact .inr (.inl ⟨rfl, eq_false_of_ne_true hw⟩)

theorem complete_clears {op : Overlapped} (h : c.isPost op.iotype = true) (bytes : List UInt8) :
    (c.complete op bytes).isPost op.iotype = false := by
  cases ht : op.iotype with
  | recv =>
      rw [ht] at h
      simp only [complete, ht, recv4Iocp]
      rw [if_pos (show c.isPostRecv = true from h)]
      rfl
  | send =>
      rw [ht] at h
      simp only [complete, ht, send2Iocp]
      rw [if_pos (show c.isPostSend = true from h)]
      rfl

theorem destroy_isPost (c : CellClient) (t : IoType) : c.destroy.isPost t = c.isPost t := by
  rw [destroy]
  split
  · cases t <;> rfl
  · rfl

end CellClient

/-! ### One client -/

/-- A flag is set only together with an operation. -/
def SetsWithOp {σ : Type} (v : View) : Act σ → Prop
  | .look t => ∀ c, v.client = some c → c.isPost t = true ∨ t = .send ∧ c.needWrite = false
  | .lost => False
  | _ => True

/-- The flags say which operations are outstanding, at most one of each type. -/
structure Expecting (v : View) : Prop where
  flag : ∀ c, v.client = some c → ∀ t, c.isPost t = true ↔ ∃ op ∈ v.ops, op.iotype = t
  unique : ∀ o ∈ v.ops, ∀ o' ∈ v.ops, o.iotype = o'.iotype → o = o'

section

variable {σ : Type} {onNetMsg : Handler σ} {p : Ptr}

theorem Expecting.of_isPost {c d : CellClient} {ops : Set Overlapped}
    (h : Expecting ⟨some c, ops⟩) (hf : ∀ t, d.isPost t = c.isPost t) :
    Expecting ⟨some d, ops⟩ := by
  refine ⟨fun d' hd t => ?_, h.unique⟩
  obtain rfl := Option.some.inj hd
  rw [hf]
  exact h.flag c rfl t

theorem Expecting.gone {ops : Set Overlapped}
    (hu : ∀ o ∈ ops, ∀ o' ∈ ops, o.iotype = o'.iotype → o = o') : Expecting ⟨none, ops⟩ := by
  refine ⟨fun c hc => ?_, hu⟩
  cases hc

/-- Setting the flag of a client whose operation of that type is posted. -/
theorem Expecting.post {c d : CellClient} {ops : Set Overlapped} {t : IoType} {io : IoData}
    (h : Expecting ⟨some c, ops⟩) (hd : c.Touched d) (hio : (d.makeIoData t).2 = some io) :
    Expecting ⟨some (d.makeIoData t).1, insert ⟨p, t, io⟩ ops⟩ := by
  rcases d.makeIoData_cases t with he | ⟨hclear, hset, -⟩
  · rw [he] at hio
    cases hio
  have hnone : ∀ o ∈ ops, o.iotype ≠ t := by
    rintro o ho rfl
    have hf := (h.flag c rfl o.iotype).mpr ⟨o, ho, rfl⟩
    rw [← hd.isPost, hclear] at hf
    cases hf
  constructor
  · intro d' hd' t'
    obtain rfl := Option.some.inj hd'
    rw [hset, CellClient.setPost_isPost, hd.isPost, h.flag c rfl]
    constructor
    · rintro (rfl | ⟨o, ho, hot⟩)
      · exact ⟨_, .inl rfl, rfl⟩
      · exact ⟨o, .inr ho, hot⟩
    · rintro ⟨o, rfl | ho, hot⟩
      · exact .inl hot.symm
      · exact .inr ⟨o, ho, hot⟩
  · rintro o (rfl | ho) o' (rfl | ho') hoo
    · rfl
    · exact absurd hoo.symm (hnone o' ho')
    · exact absurd hoo (hnone o ho)
    · exact h.unique o ho o' ho' hoo

/-- An operation that is returned clears the flag of its type. -/
theorem Expecting.fill {c : CellClient} {ops : Set Overlapped} {op : Overlapped}
    (h : Expecting ⟨some c, ops⟩) (hop : op ∈ ops) (bytes : List UInt8) :
    Expecting ⟨some (c.complete op bytes), ops \ {op}⟩ := by
  refine ⟨fun d hd t => ?_, fun o ho o' ho' => h.unique o ho.1 o' ho'.1⟩
  obtain rfl := Option.some.inj hd
  by_cases ht : t = op.iotype
  · subst ht
    have hf := (h.flag c rfl op.iotype).mpr ⟨op, hop, rfl⟩
    rw [CellClient.complete_clears hf]
    refine ⟨nofun, fun ⟨o, ho, hot⟩ => ?_⟩
    exact absurd (h.unique o ho.1 op hop hot) ho.2
  · rw [CellClient.complete_isPost c ht, h.flag c rfl t]
    constructor
    · rintro ⟨o, ho, hot⟩
      refine ⟨o, ⟨ho, ?_⟩, hot⟩
      rintro rfl
      exact ht hot.symm
    · rintro ⟨o, ho, hot⟩
      exact ⟨o, ho.1, hot⟩

theorem Expecting.step (hk : onNetMsg.KeepsIo) {v v' : View} {a : Act σ} (h : Expecting v)
    (hok : SetsWithOp v a) (hm : Move onNetMsg p a v v') : Expecting v' := by
  cases hm with
  | keep => exact h
  | accept =>
      refine ⟨fun c hc t => ?_, fun o ho => ho.elim⟩
      obtain rfl := Option.some.inj hc
      have hclear : ∀ {c : CellClient}, c.isPost t = false →
          (c.isPost t = true ↔ ∃ op ∈ (∅ : Set Overlapped), op.iotype = t) := by
        intro c hc
        rw [hc]
        constructor
        · intro h
          cases h
        · rintro ⟨o, ho, -⟩
          exact ho.elim
      apply hclear
      cases t <;> rfl
  | touch hd => exact h.of_isPost hd.isPost
  | @look c d ops t hd hio =>
      have hidle : d.isPost t = true ∨ t = .send ∧ d.needWrite = false := by
        rw [hd.isPost, CellClient.needWrite, hd.sendBuff]
        exact hok c rfl
      rw [CellClient.makeIoData_idle hidle]
      exact h.of_isPost hd.isPost
  | post t hd hio => exact h.post hd hio
  | lost => exact hok.elim
  | drop | expire => exact .gone h.unique
  | @detach c d ops hd =>
      exact h.of_isPost fun t => (d.destroy_isPost t).trans (hd.isPost t)
  | fill hop hb => exact h.fill hop _
  | fail => exact .gone fun o ho o' ho' => h.unique o ho.1 o' ho'.1
  | msg ext => exact h.of_isPost (IocpServer.msgBody_isPost hk ext _)

theorem expecting_of_reachable (hk : onNetMsg.KeepsIo) {v : View}
    (h : ((clientSystem onNetMsg p).guard SetsWithOp).Reachable v) : Expecting v := by
  refine System.Invariant.reachable (P := Expecting) ⟨?_, ?_⟩ h
  · rintro v rfl
    exact .gone fun o ho => ho.elim
  · rintro v a v' hv ⟨hok, hm⟩
    exact hv.step hk hok hm

end

/-! ### The runs -/

/-- How many operations of this type are outstanding for the client `p`. -/
def CellIOCP.outstanding (q : CellIOCP) (p : Ptr) (t : IoType) : ℕ :=
  q.pending.countP fun op => decide (op.ptr = p ∧ op.iotype = t)

namespace IocpServer

variable {σ : Type} {onNetMsg : Handler σ} {s : IocpServer σ}

/-- Whenever a client that has no receive outstanding looks for one, its receive buffer has room,
and the first receive of a client is posted with success. -/
def PostsRecv (s : IocpServer σ) : IocpEvent → Prop
  | .loop _ posted => ∀ p ∈ s.server.clientsBuff, ∀ c, s.net.heap.get? p = some c →
      posted c.sockfd = true ∧ c.recvBuff.nLast < c.recvBuff.nSize
  | .post _ => ∀ e rest c, s.pc = .posting .recv (e :: rest) →
      s.net.heap.get? e.2 = some c → c.isPostRecv = false → c.recvBuff.nLast < c.recvBuff.nSize
  | _ => True

theorem setsWithOp {p : Ptr} {e : IocpEvent} {a : Act σ} {v : View} (hi : PostsRecv s e)
    (ho : Occurs s p e a) (hm : Move onNetMsg p a (s.view p) v) : SetsWithOp (s.view p) a := by
  have hclient : (s.view p).client = s.net.heap.get? p := rfl
  cases a with
  | look t =>
      intro c hc
      rw [hclient] at hc
      generalize s.view p = w at hm hclient
      cases hm with
      | @look c' d ops t hd hio =>
          obtain rfl := Option.some.inj (hclient.trans hc)
          rcases CellClient.of_makeIoData_none hio with hp | ⟨ht, hw⟩ | ⟨ht, hfull⟩
          · exact .inl ((hd.isPost t).symm.trans hp)
          · rw [CellClient.needWrite, hd.sendBuff] at hw
            exact .inr ⟨ht, hw⟩
          · subst ht
            rw [hd.recvBuff] at hfull
            by_contra hn
            have hclear : c'.isPostRecv = false := eq_false_of_ne_true fun hp => hn (.inl hp)
            have hroom : c'.recvBuff.nLast < c'.recvBuff.nSize := by
              rcases ho.look with ⟨now, posted, rfl, hp⟩ | ⟨f, rest, posted, rfl, hpc, rfl⟩
              · exact (hi p hp c' hc).2
              · exact hi f rest c' hpc hc hclear
            omega
  | lost =>
      obtain ⟨now, posted, c, rfl, hp, hc, hposted⟩ := ho.lost
      rw [(hi p hp c (hclient.symm.trans hc)).1] at hposted
      cases hposted
  | _ => exact trivial

/-- At most one operation of each type is outstanding. -/
theorem Ported.outstanding_iff (h : s.Ported) (p : Ptr) (t : IoType) :
    s.server.poller.outstanding p t = 1 ↔ ∃ op ∈ (s.view p).ops, op.iotype = t := by
  obtain ⟨d, ht⟩ := h.tables
  constructor
  · intro hone
    have hpos : 0 < s.server.poller.outstanding p t := by omega
    obtain ⟨op, hop, hp⟩ := List.countP_pos_iff.mp hpos
    rw [decide_eq_true_iff] at hp
    exact ⟨op, ⟨hop, hp.1⟩, hp.2⟩
  · rintro ⟨op, ⟨hop, rfl⟩, rfl⟩
    have hop' : op ∈ s.server.poller.pending := hop
    rw [CellIOCP.outstanding, (List.perm_cons_erase hop').countP_eq, List.countP_cons_of_pos,
      List.countP_eq_zero.mpr]
    · intro o ho hp
      rw [decide_eq_true_iff] at hp
      obtain ⟨hne, ho⟩ := ht.pending_nodup.mem_erase_iff.mp ho
      exact hne (ht.eq_of_pending hop ho hp.1 hp.2)
    · exact decide_eq_true ⟨rfl, rfl⟩

/-- Where a receive is looked for only with room for it, and first receives are posted, the
flags of a client say exactly what is outstanding, and each operation that is returned clears its
flag, unless the client leaves with it. -/
theorem flags_tell (hk : onNetMsg.KeepsIo)
    (h : ((returning onNetMsg).guard PostsRecv).Reachable s) {p : Ptr} {c : CellClient}
    (hc : s.net.heap.get? p = some c) :
    (∀ t, c.isPost t = true ↔ s.server.poller.outstanding p t = 1) ∧
    ∀ op bytes s' c', op.ptr = p → Returns s (.complete op bytes) →
      next onNetMsg s (.complete op bytes) = some s' → s'.net.heap.get? p = some c' →
      c'.isPost op.iotype = false := by
  have hp := ported_of_reachable hk h.of_guard
  have hs := simulates hk p PostsRecv SetsWithOp
    fun s e a v _ hi ho hm => setsWithOp hi ho hm
  obtain ⟨v, hv, -, rfl⟩ := hs.reachable h
  have he := expecting_of_reachable hk hv
  refine ⟨fun t => (he.flag c hc t).trans (hp.outstanding_iff p t).symm, ?_⟩
  rintro op bytes s' c' rfl hl hn hc'
  obtain ⟨t, ht, -, ⟨⟨a, ha, hm⟩, -⟩, -⟩ := complete_ported onNetMsg hp
    hl.2.1 hc bytes
  obtain rfl := Option.some.inj (ht.symm.trans hn)
  have hv : s.worker.view op.ptr = ⟨some c, (s.view op.ptr).ops⟩ := CellIOCPServer.view_eq hc
  have hv' : t.worker.view op.ptr = ⟨some c', (t.view op.ptr).ops⟩ := CellIOCPServer.view_eq hc'
  rw [hv, hv'] at hm
  rcases CompleteAct.eq ha with ⟨-, rfl⟩ | ⟨-, rfl⟩
  · cases hm
  · generalize (t.view op.ptr).ops = ops' at hm
    cases hm
    exact CellClient.complete_clears ((he.flag c hc op.iotype).mpr ⟨op, ⟨hl.2.1, rfl⟩, rfl⟩) _

/-- The first receive of a client is outstanding, and its flag is set. -/
theorem flags_tell_joined :
    ∃ s s' c, next echo small accept5 = some s ∧ next echo s (.loop 0 fun _ => true) = some s' ∧
      s'.net.heap.get? 0 = some c ∧ c.isPostRecv = true ∧
      s'.server.poller.outstanding 0 .recv = 1 := by
  have h₀ : ((returning echo).guard PostsRecv).Reachable small := .init ⟨8, 8, 2, 1, 0, (), rfl⟩
  have h₁ := h₀.step (l := accept5) ⟨trivial, show (5 : SOCKET) ∉ [] from List.not_mem_nil, rfl⟩
  have h₂ := h₁.step (l := IocpEvent.loop 0 fun _ => true)
    ⟨fun p hp c hc => by
      obtain rfl := List.mem_singleton.mp hp
      obtain rfl := Option.some.inj hc
      exact ⟨rfl, by decide⟩, rfl, rfl⟩
  exact ⟨_, _, _, rfl, rfl, rfl, rfl, ((flags_tell echo_keepsIo h₂ rfl).1 .recv).mp rfl⟩

/-- A peer announces a message that is longer than the receive buffer, and fills the buffer: the
flag is set again, but no receive is outstanding any more. -/
theorem flags_tell_nothing :
    ∃ s c, (returning echo).Reachable s ∧ s.pc = .polling ∧ s.net.heap.get? 0 = some c ∧
      c.isPostRecv = true ∧ s.server.poller.outstanding 0 .recv = 0 := by
  have hp : ∃ s, (returning echo).Path small [accept5, .loop 0 fun _ => true, .checkTime 0,
      .post true, .post true, .complete ⟨0, .recv, ⟨5, 0, 8⟩⟩ [9, 0, 7, 0, 0, 0, 0, 0], .idle,
      .doMsg, .doMsg, .loop 0 fun _ => true, .checkTime 0, .post true, .post true] s ∧
      s.pc = .polling ∧ (∃ c, s.net.heap.get? 0 = some c ∧ c.isPostRecv = true) ∧
      s.server.poller.pending = [] := by
    refine ⟨_, .cons ⟨show (5 : SOCKET) ∉ [] from List.not_mem_nil, rfl⟩ (.cons ⟨rfl, rfl⟩
      (.cons ⟨rfl, rfl⟩ (.cons ⟨⟨_, _, _, rfl⟩, rfl⟩ (.cons ⟨⟨_, _, _, rfl⟩, rfl⟩
      (.cons ⟨⟨rfl, List.mem_singleton.mpr rfl, by decide⟩, rfl⟩ (.cons ⟨rfl, rfl⟩
      (.cons ⟨⟨_, rfl⟩, rfl⟩ (.cons ⟨⟨_, rfl⟩, rfl⟩ (.cons ⟨rfl, rfl⟩ (.cons ⟨rfl, rfl⟩
      (.cons ⟨⟨_, _, _, rfl⟩, rfl⟩ (.cons ⟨⟨_, _, _, rfl⟩, rfl⟩ (.nil _))))))))))))),
      rfl, ⟨_, rfl, rfl⟩, rfl⟩
  obtain ⟨s, hp, hpc, ⟨c, hc, hflag⟩, hq⟩ := hp
  refine ⟨s, c, ⟨small, _, ⟨8, 8, 2, 1, 0, (), rfl⟩, hp⟩, hpc, hc, hflag, ?_⟩
  rw [CellIOCP.outstanding, hq]
  rfl

end IocpServer

end CellNet
