import CellNet.Library.Loop
import CellNet.Verification.Completion.Clients
import CellNet.Verification.Completion.Semantics

/-! What each function of the worker does to the client it looks at; to the others it does
nothing. -/

namespace CellNet

open Library Worker

namespace Worker

/-- The client at the address `p`, as the port sees it. -/
def view (w : Worker CellIOCP) (p : Ptr) : View :=
  ⟨w.1.heap.get? p, {op | op ∈ w.2.poller.pending ∧ op.ptr = p}⟩

section View

variable {w : Worker CellIOCP} {n n' : Net} {s s' : CellServer CellIOCP} {p : Ptr}

/-- The client `p` is replaced, or deleted. -/
theorem view_update {d : Option CellClient}
    (hh : ∀ q, n'.heap.get? q = if q = p then d else n.heap.get? q)
    (hq : s'.poller.pending = s.poller.pending) (q : Ptr) :
    view (n', s') q = if q = p then ⟨d, (view (n, s) p).ops⟩ else view (n, s) q := by
  rw [view, view, view]
  dsimp only
  rw [hh, hq]
  split
  · next h => rw [h]
  · rfl

theorem view_cons {op : Overlapped} (hq : s'.poller.pending = op :: s.poller.pending) (q : Ptr) :
    view (n, s') q = if q = op.ptr then ⟨n.heap.get? q, insert op (view (n, s) q).ops⟩
      else view (n, s) q := by
  rw [view, view]
  dsimp only
  rw [hq]
  split
  · next h =>
      ext1
      · rfl
      · ext o
        simp only [List.mem_cons, Set.mem_ofPred_eq, Set.mem_insert_iff]
        constructor
        · rintro ⟨rfl | ho, hp⟩
          · exact .inl rfl
          · exact .inr ⟨ho, hp⟩
        · rintro (rfl | ⟨ho, hp⟩)
          · exact ⟨.inl rfl, h.symm⟩
          · exact ⟨.inr ho, hp⟩
  · next h =>
      ext1
      · rfl
      · ext o
        simp only [List.mem_cons, Set.mem_ofPred_eq]
        constructor
        · rintro ⟨rfl | ho, hp⟩
          · exact absurd hp.symm h
          · exact ⟨ho, hp⟩
        · exact fun ho => ⟨.inr ho.1, ho.2⟩

theorem view_erase {op : Overlapped} (hn : s.poller.pending.Nodup)
    (hq : s'.poller.pending = s.poller.pending.erase op) (q : Ptr) :
    view (n, s') q = if q = op.ptr then ⟨n.heap.get? q, (view (n, s) q).ops \ {op}⟩
      else view (n, s) q := by
  rw [view, view]
  dsimp only
  rw [hq]
  split
  · ext1
    · rfl
    · ext o
      simp only [hn.mem_erase_iff, Set.mem_ofPred_eq, Set.mem_sdiff, Set.mem_singleton_iff]
      tauto
  · next h =>
      ext1
      · rfl
      · ext o
        simp only [hn.mem_erase_iff, Set.mem_ofPred_eq]
        constructor
        · exact fun ho => ⟨ho.1.2, ho.2⟩
        · rintro ⟨ho, hp⟩
          refine ⟨⟨?_, ho⟩, hp⟩
          rintro rfl
          exact h hp.symm

end View

end Worker

/-! ### One client after the other -/

section

variable {σ : Type} {onNetMsg : Handler σ}

/-- Something that `ok` allows happens to the client `p`, and nothing to the others. -/
structure Moved (onNetMsg : Handler σ) (ok : View → Act σ → Prop) (p : Ptr)
    (w w' : Worker CellIOCP) : Prop where
  self : ∃ a, ok (w.view p) a ∧ Move onNetMsg p a (w.view p) (w'.view p)
  others : ∀ q, q ≠ p → w'.view q = w.view q

/-- A loop has come to the clients `rest`: to each of the others among `all`, something that
`ok` allows has happened. -/
def MovedAll (onNetMsg : Handler σ) (ok : View → Act σ → Prop) (all rest : List Ptr)
    (w w' : Worker CellIOCP) : Prop :=
  ∀ q, (q ∈ all → q ∈ rest) ∧ w'.view q = w.view q ∨
    q ∈ all ∧ q ∉ rest ∧ ∃ a, ok (w.view q) a ∧ Move onNetMsg q a (w.view q) (w'.view q)

variable {ok : View → Act σ → Prop} {all rest : List Ptr} {w w₁ w₂ : Worker CellIOCP} {p : Ptr}

theorem MovedAll.refl (w : Worker CellIOCP) : MovedAll onNetMsg ok all all w w :=
  fun _ => .inl ⟨id, rfl⟩

theorem MovedAll.next (h : MovedAll onNetMsg ok all (p :: rest) w w₁)
    (hm : Moved onNetMsg ok p w₁ w₂) (hp : p ∈ all) (hr : p ∉ rest) :
    MovedAll onNetMsg ok all rest w w₂ := by
  intro q
  by_cases hq : q = p
  · subst hq
    rcases h q with ⟨-, hv⟩ | ⟨-, hn, -⟩
    · exact .inr ⟨hp, hr, hv ▸ hm.self⟩
    · exact absurd List.mem_cons_self hn
  · rw [hm.others q hq]
    rcases h q with ⟨hin, hv⟩ | ⟨hin, hn, ha⟩
    · exact .inl ⟨fun hm => List.mem_of_ne_of_mem hq (hin hm), hv⟩
    · exact .inr ⟨hin, fun hm => hn (List.mem_cons_of_mem _ hm), ha⟩

end

/-! ### The functions of the worker -/

namespace CellIOCPServer

variable {σ : Type} {onNetMsg : Handler σ} {cap : ℤ} {waiting detached : List Ptr}
  {w : Worker CellIOCP}

/-- A new client posts its first receive, as far as `posted` says. -/
def JoinAct (posted : SOCKET → Bool) (v : View) : Act σ → Prop
  | .look t => t = .recv
  | .post t => t = .recv
  | .lost => ∃ c, v.client = some c ∧ posted c.sockfd = false
  | _ => False

/-- What a client wants to post is posted, and its flag is set. -/
theorem makeIoData_base (h : PortBase cap waiting detached w) {e : SOCKET × Ptr}
    (he : e ∈ w.2.clients.entries) {c : CellClient} (hc : w.1.heap.get? e.2 = some c)
    (iotype : IoType) :
    PortBase cap waiting detached (w.1.setClient e.2 (c.makeIoData iotype).1, w.2) ∧
      ∀ io, (c.makeIoData iotype).2 = some io →
        (w.2.poller.post iotype io).pending = ⟨e.2, iotype, io⟩ :: w.2.poller.pending ∧
        PortBase cap waiting detached (w.1.setClient e.2 (c.makeIoData iotype).1,
          { w.2 with poller := w.2.poller.post iotype io }) := by
  have hk : c.sockfd = e.1 := by
    obtain ⟨c', hc', hk⟩ := h.get? he
    rwa [Option.some.inj (hc.symm.trans hc')]
  have hset := h.setClient hc (c.makeIoData_sockfd iotype) fun op hop hp =>
    CellClient.makeIoData_isPost (h.flag op hop c (hp ▸ hc)) iotype
  refine ⟨hset, fun io hio => ?_⟩
  obtain ⟨hs, hlen, hclear, hflag⟩ := CellClient.makeIoData_eq_some hio
  refine PortBase.post (w := (w.1.setClient e.2 (c.makeIoData iotype).1, w.2)) hset he
    (hs.trans hk) hlen ((Heap.get?_set hc _ e.2).trans (if_pos rfl)) hflag ?_
  rintro op hop hp rfl
  have hf := h.flag op hop c (hp ▸ hc)
  rw [hclear] at hf
  cases hf

/-- The client `p` after a look at its flag: with what it was told to post, or without. -/
theorem moved_post {ok : View → Act σ → Prop} {n : Net} {s s' : CellServer CellIOCP} {p : Ptr}
    {c d : CellClient} {n' : Net} (t : IoType) (hc : n.heap.get? p = some c) (hd : c.Touched d)
    (hh : ∀ q, n'.heap.get? q = if q = p then some (d.makeIoData t).1 else n.heap.get? q)
    {io : IoData} (hio : (d.makeIoData t).2 = some io)
    (hq : s'.poller.pending = ⟨p, t, io⟩ :: s.poller.pending)
    (hok : ok (view (n, s) p) (.post t)) : Moved onNetMsg ok p (n, s) (n', s') := by
  have hv : view (n, s) p = ⟨some c, (view (n, s) p).ops⟩ := by
    rw [← hc]
    rfl
  have hup : ∀ q, view (n', s) q =
      if q = p then ⟨some (d.makeIoData t).1, (view (n, s) p).ops⟩ else view (n, s) q :=
    view_update hh rfl
  have hcons : ∀ q, view (n', s') q =
      if q = p then ⟨n'.heap.get? q, insert ⟨p, t, io⟩ (view (n', s) q).ops⟩
      else view (n', s) q :=
    view_cons hq
  constructor
  · refine ⟨.post t, hok, ?_⟩
    have hself := hup p
    rw [if_pos rfl] at hself
    rw [hcons p, if_pos rfl, hself, hh, if_pos rfl]
    rw [hv]
    exact .post t hd hio
  · intro q hqp
    rw [hcons q, if_neg hqp, hup q, if_neg hqp]

/-- The client `p` after something that leaves the port alone. -/
theorem moved_update {ok : View → Act σ → Prop} {n n' : Net} {s s' : CellServer CellIOCP}
    {p : Ptr} {d : Option CellClient}
    (hh : ∀ q, n'.heap.get? q = if q = p then d else n.heap.get? q)
    (hq : s'.poller.pending = s.poller.pending) {a : Act σ} (hok : ok (view (n, s) p) a)
    (hm : Move onNetMsg p a (view (n, s) p) ⟨d, (view (n, s) p).ops⟩) :
    Moved onNetMsg ok p (n, s) (n', s') := by
  have hup : ∀ q, view (n', s') q =
      if q = p then ⟨d, (view (n, s) p).ops⟩ else view (n, s) q := view_update hh hq
  constructor
  · refine ⟨a, hok, ?_⟩
    rw [hup p, if_pos rfl]
    exact hm
  · intro q hqp
    rw [hup q, if_neg hqp]

/-- The table with the client `p`, which is registered with the port. -/
def entered (w : Worker CellIOCP) (p : Ptr) (d : CellClient) : Worker CellIOCP :=
  ((w.1.setClient p d).onNetJoin, { w.2.insertClient d.sockfd p with
    poller := w.2.poller.reg d.sockfd p })

/-- A client that waits has nothing outstanding, and is entered under a new key. -/
theorem enter_base {p : Ptr} (h : PortBase cap (p :: waiting) detached w) :
    ∃ c d, w.1.heap.get? p = some c ∧ c.Touched d ∧
      Worker.enter w p = some ((w.1.setClient p d).onNetJoin, w.2.insertClient d.sockfd p) ∧
      (d.sockfd, p) ∈ (entered w p d).2.clients.entries ∧
      PortBase cap waiting detached (entered w p d) := by
  have hr := h.roster
  rw [← List.append_nil w.2.seats] at hr
  obtain ⟨c, hc, hk, he, hr'⟩ := enter_roster hr
  rw [List.append_nil] at hr'
  have hidle : ∀ op ∈ w.2.poller.pending, op.ptr ≠ p := fun op hop hp =>
    (h.born op hop).2 (hp ▸ List.mem_cons_self)
  refine ⟨c, { c with serverId := w.2.id }, hc, ⟨rfl, rfl, rfl, fun t => by cases t <;> rfl⟩, he,
    (mem_insertClient hk).mpr (.inl rfl), hr', ?_, ?_, h.unique, h.len, ?_⟩
  · intro op hop
    have hb := h.born op hop
    refine ⟨?_, fun hm => hb.2 (List.mem_cons_of_mem _ hm)⟩
    exact (Heap.next_set w.1.heap p _).symm ▸ hb.1
  · intro op hop c' hc'
    have hg := (Heap.get?_set hc { c with serverId := w.2.id } op.ptr).symm.trans hc'
    rw [if_neg (hidle op hop)] at hg
    exact h.flag op hop c' hg
  · intro e hm
    have hreg := CellIOCP.key?_reg w.2.poller c.sockfd e.1 p
    rcases (mem_insertClient hk).mp hm with rfl | hm
    · exact hreg.trans (if_pos rfl)
    · exact (hreg.trans (if_neg fun heq => hk e hm heq.symm)).trans (h.keys e hm)

theorem takeUp_none (posted : SOCKET → Bool) {p : Ptr} {c d : CellClient}
    (hc : w.1.heap.get? p = some c)
    (he : Worker.enter w p = some ((w.1.setClient p d).onNetJoin, w.2.insertClient d.sockfd p))
    (hio : (d.makeIoData .recv).2 = none) :
    Worker.takeUp (onClientJoin posted) w p =
      some ((entered w p d).1.setClient p (d.makeIoData .recv).1, (entered w p d).2) := by
  have hd : (w.1.setClient p d).onNetJoin.heap.get? p = some d :=
    (Heap.get?_set hc d p).trans (if_pos rfl)
  have hio' : d.makeRecvIoData.2 = none := hio
  rw [Worker.takeUp, he, Option.bind_some, onClientJoin, hd, Option.bind_eq_bind,
    Option.bind_some]
  dsimp only
  rw [hio']
  rfl

theorem takeUp_some (posted : SOCKET → Bool) {p : Ptr} {c d : CellClient} {io : IoData}
    (hc : w.1.heap.get? p = some c)
    (he : Worker.enter w p = some ((w.1.setClient p d).onNetJoin, w.2.insertClient d.sockfd p))
    (hio : (d.makeIoData .recv).2 = some io) :
    Worker.takeUp (onClientJoin posted) w p =
      some ((entered w p d).1.setClient p (d.makeIoData .recv).1, { (entered w p d).2 with
        poller := if posted d.sockfd then (entered w p d).2.poller.post .recv io
          else (entered w p d).2.poller }) := by
  have hd : (w.1.setClient p d).onNetJoin.heap.get? p = some d :=
    (Heap.get?_set hc d p).trans (if_pos rfl)
  have hio' : d.makeRecvIoData.2 = some io := hio
  rw [Worker.takeUp, he, Option.bind_some, onClientJoin, hd, Option.bind_eq_bind,
    Option.bind_some]
  dsimp only
  rw [hio']
  rfl

variable (onNetMsg) in
theorem takeUp_base (posted : SOCKET → Bool) {p : Ptr}
    (h : PortBase cap (p :: waiting) detached w) :
    ∃ w', Worker.takeUp (onClientJoin posted) w p = some w' ∧
      PortBase cap waiting detached w' ∧ Moved onNetMsg (JoinAct posted) p w w' := by
  obtain ⟨c, d, hc, hd, he, hmem, hbase⟩ := enter_base h
  generalize hw₁ : entered w p d = w₁ at hmem hbase
  have hget : ∀ q, w₁.1.heap.get? q = if q = p then some d else w.1.heap.get? q := by
    intro q
    rw [← hw₁]
    exact Heap.get?_set hc d q
  have hd₁ : w₁.1.heap.get? p = some d := (hget p).trans (if_pos rfl)
  have hpend : w₁.2.poller.pending = w.2.poller.pending := by rw [← hw₁]; rfl
  obtain ⟨hnone, hsome⟩ := makeIoData_base hbase hmem hd₁ .recv
  have hget₂ : ∀ q, (w₁.1.setClient p (d.makeIoData .recv).1).heap.get? q =
      if q = p then some (d.makeIoData .recv).1 else w.1.heap.get? q := by
    intro q
    rw [Net.setClient, Heap.get?_set hd₁, hget]
    split <;> rfl
  have hv : w.view p = ⟨some c, (w.view p).ops⟩ := by
    rw [← hc]
    rfl
  cases hio : (d.makeIoData .recv).2 with
  | none =>
      refine ⟨_, takeUp_none posted hc he hio, hw₁.symm ▸ hnone, ?_⟩
      rw [hw₁]
      refine moved_update hget₂ hpend (a := .look .recv) rfl ?_
      rw [hv]
      exact .look .recv hd hio
  | some io =>
      refine ⟨_, takeUp_some posted hc he hio, ?_⟩
      rw [hw₁]
      obtain ⟨hq, hpost⟩ := hsome io hio
      cases hpo : posted d.sockfd with
      | true =>
          refine ⟨by simpa using hpost, moved_post .recv hc hd hget₂ hio ?_ rfl⟩
          rw [← hpend]
          simpa using hq
      | false =>
          refine ⟨by simpa using hnone, moved_update hget₂ (by simpa using hpend) (a := .lost)
            ⟨c, by rw [hv], by rwa [← hd.sockfd]⟩ ?_⟩
          rw [hv]
          exact .lost hd hio

variable (onNetMsg) in
theorem drain_base (posted : SOCKET → Bool)
    (h : PortBase cap w.2.clientsBuff detached w) :
    ∃ w', Worker.drain (onClientJoin posted) w = some w' ∧
      PortBase cap w'.2.clientsBuff detached w' ∧
      MovedAll onNetMsg (JoinAct posted) w.2.clientsBuff [] w w' := by
  rw [Worker.drain]
  by_cases hb : w.2.clientsBuff = []
  · exact ⟨w, if_pos hb, h, by rw [hb]; exact .refl w⟩
  · have hnd : w.2.clientsBuff.Nodup := h.roster.nodup.of_append_left.of_append_right
    have hloop := foldlM_some (f := Worker.takeUp (onClientJoin posted))
      (P := fun ps w' => PortBase cap ps detached w' ∧ ps.Nodup ∧
        (∀ p ∈ ps, p ∈ w.2.clientsBuff) ∧
        MovedAll onNetMsg (JoinAct posted) w.2.clientsBuff ps w w') ?_
      ⟨h, hnd, fun _ hp => hp, .refl w⟩
    · obtain ⟨w', hw, ht, -, -, hm⟩ := hloop
      refine ⟨(w'.1, { w'.2 with clientsBuff := [], clientsChange := true }), ?_,
        ht.congr rfl rfl rfl, hm⟩
      rw [if_neg hb, hw, Option.map_some]
    · rintro p ps w₁ ⟨ht, hnd, hin, hm⟩
      obtain ⟨hp, hnd⟩ := List.nodup_cons.mp hnd
      obtain ⟨w₂, hw, ht, hmoved⟩ := takeUp_base onNetMsg posted ht
      exact ⟨w₂, hw, ht, hnd, fun q hq => hin q (List.mem_cons_of_mem _ hq),
        hm.next hmoved (hin p List.mem_cons_self) hp⟩

/-! ### `CheckTime` -/

/-- What is left of the table when the entry `e` was visited. -/
def Kept (e : SOCKET × Ptr) (w w' : Worker CellIOCP) : Prop :=
  w'.2.clientsBuff = w.2.clientsBuff ∧
    ∀ f ∈ w.2.clients.entries, f.2 ≠ e.2 → f ∈ w'.2.clients.entries

/-- The clients of some of the entries, each once. -/
def Distinct (es : List (SOCKET × Ptr)) (w : Worker CellIOCP) : Prop :=
  (∀ e ∈ es, e ∈ w.2.clients.entries) ∧ (es.map Prod.snd).Nodup

theorem Distinct.tail {e : SOCKET × Ptr} {es : List (SOCKET × Ptr)} {w' : Worker CellIOCP}
    (h : Distinct (e :: es) w) (hk : Kept e w w') : Distinct es w' := by
  obtain ⟨hnot, hnd⟩ := List.nodup_cons.mp h.2
  refine ⟨fun f hf => ?_, hnd⟩
  refine hk.2 f (h.1 f (List.mem_cons_of_mem _ hf)) fun he => hnot ?_
  exact he ▸ List.mem_map_of_mem hf

/-- The timer of a client goes on, or has run out. -/
def TimeAct (dt : ℤ) (v : View) (a : Act σ) : Prop :=
  ∃ c, v.client = some c ∧ if (c.checkHeart dt).2 then a = .expire ∨ a = .detach else a = .touch

theorem TimeAct.eq {dt : ℤ} {v : View} {a : Act σ} (h : TimeAct dt v a) :
    a = .touch ∨ a = .expire ∨ a = .detach := by
  obtain ⟨c, -, h⟩ := h
  split at h
  · exact .inr h
  · exact .inl h

theorem view_eq {c : CellClient} {p : Ptr} (hc : w.1.heap.get? p = some c) :
    w.view p = ⟨some c, (w.view p).ops⟩ := by
  rw [← hc]
  rfl

variable (onNetMsg) in
/-- A client without a flag set is deleted, any other one detached. -/
theorem checkClient_base (h : PortBase cap waiting detached w) (dt : ℤ)
    {e : SOCKET × Ptr} (he : e ∈ w.2.clients.entries) :
    ∃ w' detached', Worker.checkClient true dt w e = some w' ∧
      PortBase cap waiting detached' w' ∧ Kept e w w' ∧ Moved onNetMsg (TimeAct dt) e.2 w w' := by
  obtain ⟨c, hc, hk⟩ := h.get? he
  have hflag : ∀ iotype, (c.checkHeart dt).1.isPost iotype = c.isPost iotype := by
    intro iotype
    cases iotype <;> rfl
  have htouch : c.Touched (c.checkHeart dt).1 := ⟨rfl, rfl, rfl, hflag⟩
  have ht := h.setClient hc (d := (c.checkHeart dt).1) rfl fun op hop hp =>
    (hflag _).trans (h.flag op hop c (hp ▸ hc))
  have hget : ∀ q, (w.1.setClient e.2 (c.checkHeart dt).1).heap.get? q =
      if q = e.2 then some (c.checkHeart dt).1 else w.1.heap.get? q := Heap.get?_set hc _
  rw [Worker.checkClient, hc, Option.bind_eq_bind, Option.bind_some]
  by_cases hd : (c.checkHeart dt).2 = true
  · rw [if_pos hd, Bool.true_and]
    by_cases hp : (c.checkHeart dt).1.isPostIoAction = true
    · obtain ⟨n', hn, hg, ht'⟩ := ht.detach he
      refine ⟨(n', w.2.eraseClient e.1), _, ?_, ht', ⟨rfl, fun f hf hne => kept_erase he hf hne⟩,
        moved_update (d := some (c.checkHeart dt).1.destroy) (fun q => ?_) rfl
          (a := .detach) ⟨c, hc, by rw [if_pos hd]; exact .inr rfl⟩ ?_⟩
      · rw [if_pos hp, hn]
        rfl
      · rw [hg, hget]
        split
        · rfl
        · rfl
      · rw [view_eq hc]
        exact .detach htouch hp
    · obtain ⟨n', hn, hdel, ht'⟩ := ht.release he
      refine ⟨(n', { w.2.eraseClient e.1 with clientsChange := true }), _, ?_,
        ht'.congr rfl rfl rfl, ⟨rfl, fun f hf hne => kept_erase he hf hne⟩,
        moved_update (d := none) (fun q => ?_) rfl (a := .expire)
          ⟨c, hc, by rw [if_pos hd]; exact .inl rfl⟩ ?_⟩
      · rw [if_neg hp, Worker.onClientLeave, hn]
        rfl
      · rw [hdel.get?]
        split
        · rfl
        · next hq => exact (hget q).trans (if_neg hq)
      · rw [view_eq hc]
        exact .expire (eq_false_of_ne_true hp)
  · refine ⟨_, _, if_neg hd, ht, ⟨rfl, fun f hf _ => hf⟩,
      moved_update hget rfl (a := .touch) ⟨c, hc, by rw [if_neg hd]⟩ ?_⟩
    rw [view_eq hc]
    exact .touch htouch

variable (onNetMsg) in
theorem checkTime_base (h : PortBase cap waiting detached w) (now : ℤ) :
    ∃ w' detached', Worker.checkTime true now w = some w' ∧
      PortBase cap waiting detached' w' ∧ w'.2.clientsBuff = w.2.clientsBuff ∧
      MovedAll onNetMsg (TimeAct (now - w.2.oldTime)) (w.2.clients.entries.map Prod.snd) []
        w w' := by
  have hloop := foldlM_some (f := Worker.checkClient (π := CellIOCP) true (now - w.2.oldTime))
    (l := w.2.clients.entries) (x := (w.1, { w.2 with oldTime := now }))
    (P := fun es w' => (∃ d, PortBase cap waiting d w') ∧ Distinct es w' ∧
      w'.2.clientsBuff = w.2.clientsBuff ∧ (∀ e ∈ es, e ∈ w.2.clients.entries) ∧
      MovedAll onNetMsg (TimeAct (now - w.2.oldTime)) (w.2.clients.entries.map Prod.snd)
        (es.map Prod.snd) w w') ?_
    ⟨⟨detached, h.congr rfl rfl rfl⟩, ⟨fun _ he => he, h.ptr_nodup⟩, rfl, fun _ he => he,
      .refl w⟩
  · obtain ⟨w', hw, ⟨d, ht⟩, -, hb, -, hm⟩ := hloop
    exact ⟨w', d, hw, ht, hb, hm⟩
  · rintro e es w₁ ⟨⟨d, ht⟩, hd, hb, hin, hm⟩
    obtain ⟨w₂, d', hw, ht', hk, hmoved⟩ := checkClient_base onNetMsg ht
      (now - w.2.oldTime) (hd.1 e List.mem_cons_self)
    refine ⟨w₂, hw, ⟨d', ht'⟩, hd.tail hk, hk.1.trans hb,
      fun f hf => hin f (List.mem_cons_of_mem _ hf), hm.next hmoved ?_ ?_⟩
    · exact List.mem_map_of_mem (hin e List.mem_cons_self)
    · exact (List.nodup_cons.mp hd.2).1

/-! ### The posting loop -/

/-- What `posted` makes of an operation of this type. -/
def PostAct (t : IoType) (posted : Bool) (_ : View) (a : Act σ) : Prop :=
  a = .look t ∨ a = .post t ∧ posted = true ∨ a = .drop t ∧ posted = false

theorem touched_refl (c : CellClient) : c.Touched c := ⟨rfl, rfl, rfl, fun _ => rfl⟩

variable (onNetMsg) in
/-- One operation of the posting loop. -/
theorem postEntry_base (h : PortBase cap waiting detached w) (iotype : IoType)
    {e : SOCKET × Ptr} (he : e ∈ w.2.clients.entries) (posted : Bool) :
    ∃ w' b, postEntry w iotype e posted = some (w', b) ∧
      PortBase cap waiting detached w' ∧ Kept e w w' ∧
      (b = true → e ∈ w'.2.clients.entries) ∧
      Moved onNetMsg (PostAct iotype posted) e.2 w w' := by
  obtain ⟨c, hc, hk⟩ := h.get? he
  obtain ⟨hset, hpost⟩ := makeIoData_base h he hc iotype
  have hget : ∀ q, (w.1.setClient e.2 (c.makeIoData iotype).1).heap.get? q =
      if q = e.2 then some (c.makeIoData iotype).1 else w.1.heap.get? q := Heap.get?_set hc _
  rw [postEntry, hc, Option.bind_eq_bind, Option.bind_some]
  dsimp only
  cases hio : (c.makeIoData iotype).2 with
  | none =>
      refine ⟨_, true, rfl, hset, ⟨rfl, fun f hf _ => hf⟩, fun _ => he,
        moved_update hget rfl (a := .look iotype) (.inl rfl) ?_⟩
      rw [view_eq hc]
      exact .look iotype (touched_refl c) hio
  | some io =>
      cases posted with
      | true =>
          obtain ⟨hq, hp⟩ := hpost io hio
          exact ⟨_, true, rfl, hp, ⟨rfl, fun f hf _ => hf⟩, fun _ => he,
            moved_post iotype hc (touched_refl c) hget hio hq (.inr (.inl ⟨rfl, rfl⟩))⟩
      | false =>
          obtain ⟨n', hn, hdel, ht⟩ := hset.release he
          refine ⟨(n', { w.2.eraseClient e.1 with clientsChange := true }), false, ?_,
            ht.congr rfl rfl rfl, ⟨rfl, fun f hf hne => kept_erase he hf hne⟩, nofun,
            moved_update (d := none) (fun q => ?_) rfl (a := .drop iotype)
              (.inr (.inr ⟨rfl, rfl⟩)) ?_⟩
          · dsimp only at hn ⊢
            rw [if_neg Bool.false_ne_true, Worker.onClientLeave, hn]
            rfl
          · rw [hdel.get?]
            split
            · rfl
            · next hq => exact (hget q).trans (if_neg hq)
          · rw [view_eq hc]
            exact .drop iotype hio

/-! ### Completions -/

/-- `rmClient` for a client of the table, or a detached one. -/
theorem rmClient_base (h : PortBase cap waiting detached w) {p : Ptr} {c : CellClient}
    (hc : w.1.heap.get? p = some c) (hp : p ∉ waiting) :
    ∃ w' detached', rmClient w p = some w' ∧ PortBase cap waiting detached' w' ∧
      (∀ q, w'.1.heap.get? q = if q = p then none else w.1.heap.get? q) ∧
      w'.2.poller = w.2.poller ∧ w'.2.clientsBuff = w.2.clientsBuff ∧
      w'.1.left = w.1.left ++ [p] ∧ w'.1.clientAccept = w.1.clientAccept - 1 := by
  have hm := (h.roster.live p).mpr ⟨c.sockfd, Net.sockfd?_eq_some.mpr ⟨c, hc, rfl⟩⟩
  rcases List.mem_append.mp hm with hm | hd
  · obtain ⟨e, he, rfl⟩ := mem_seats_iff.mp ((List.mem_append.mp hm).resolve_right hp)
    obtain ⟨c', hc', hk⟩ := h.get? he
    obtain rfl := Option.some.inj (hc.symm.trans hc')
    have hf : w.2.clients.find? c.sockfd = some e.2 :=
      OrderedMap.find?_eq_some_iff.mpr (hk ▸ he)
    obtain ⟨n', hn, hdel, ht⟩ := h.release he
    refine ⟨(n', { w.2.eraseClient e.1 with clientsChange := true }), detached, ?_,
      ht.congr rfl rfl rfl, hdel.get?, rfl, rfl, hdel.left, hdel.clientAccept⟩
    rw [rmClient, hc, Option.bind_eq_bind, Option.bind_some, hf, Option.isSome_some,
      if_pos rfl, hk, Worker.onClientLeave, hn]
    rfl
  · have hperm : detached.Perm (p :: detached.erase p) := List.perm_cons_erase hd
    have h' : PortBase cap waiting (p :: detached.erase p) w :=
      ⟨h.roster.perm (.refl _) (.refl _) hperm, h.born, h.flag, h.unique, h.len, h.keys⟩
    have hk : c.sockfd = SOCKET_ERROR := by
      obtain ⟨c', hc', hk⟩ := Net.sockfd?_eq_some.mp ((h.roster.closed p).mpr hd)
      rwa [Option.some.inj (hc.symm.trans hc')]
    -- no key of the table is the mark of a closed socket
    have hf : w.2.clients.find? c.sockfd = none := by
      cases hf : w.2.clients.find? c.sockfd with
      | none => rfl
      | some q =>
          have hm := OrderedMap.find?_eq_some_iff.mp hf
          have hs := h.roster.keys _ (mem_seats hm)
          have hmem : q ∈ w.2.seats.map Seat.ptr ++ waiting :=
            List.mem_append_left _ (List.mem_map_of_mem (f := Seat.ptr) (mem_seats hm))
          exact absurd hk (h.roster.valid hmem hs).1
    obtain ⟨n', hn, hdel, ht⟩ := h'.releaseDetached
    refine ⟨(n', { w.2 with clientsChange := true }), detached.erase p, ?_,
      ht.congr rfl rfl rfl, hdel.get?, rfl, rfl, hdel.left, hdel.clientAccept⟩
    rw [rmClient, hc, Option.bind_eq_bind, Option.bind_some, hf, Option.isSome_none,
      if_neg Bool.false_ne_true, Worker.onClientLeave, hn]
    rfl

def CompleteAct (op : Overlapped) (bytes : List UInt8) (_ : View) (a : Act σ) : Prop :=
  a = if bytes = [] then .fail op else .fill op bytes

/-- The client after the port has returned one of its operations. -/
theorem moved_finish {ok : View → Act σ → Prop} {n n' : Net} {s s' : CellServer CellIOCP}
    {op : Overlapped} {d : Option CellClient}
    (hh : ∀ q, n'.heap.get? q = if q = op.ptr then d else n.heap.get? q)
    (hn : s.poller.pending.Nodup) (hq : s'.poller.pending = s.poller.pending.erase op)
    {a : Act σ} (hok : ok (view (n, s) op.ptr) a)
    (hm : Move onNetMsg op.ptr a (view (n, s) op.ptr) ⟨d, (view (n, s) op.ptr).ops \ {op}⟩) :
    Moved onNetMsg ok op.ptr (n, s) (n', s') := by
  have hup : ∀ q, view (n', s) q =
      if q = op.ptr then ⟨d, (view (n, s) op.ptr).ops⟩ else view (n, s) q := view_update hh rfl
  have her := view_erase (n := n') hn hq
  constructor
  · refine ⟨a, hok, ?_⟩
    rw [her op.ptr, if_pos rfl, hup op.ptr, if_pos rfl, hh, if_pos rfl]
    exact hm
  · intro q hqp
    rw [her q, if_neg hqp, hup q, if_neg hqp]

variable (onNetMsg) in
theorem completion_base (h : PortBase cap waiting detached w) {op : Overlapped}
    (hop : op ∈ w.2.poller.pending) {c : CellClient} (hc : w.1.heap.get? op.ptr = some c)
    (bytes : List UInt8) :
    ∃ w' detached', completion w op bytes = some w' ∧ PortBase cap waiting detached' w' ∧
      w'.2.clientsBuff = w.2.clientsBuff ∧
      w'.2.poller.pending = w.2.poller.pending.erase op ∧
      Moved onNetMsg (CompleteAct op bytes) op.ptr w w' ∧
      (bytes = [] → w'.1.left = w.1.left ++ [op.ptr] ∧
        w'.1.clientAccept = w.1.clientAccept - 1) := by
  have hfin := h.finish op
  have hin : op ∈ (w.view op.ptr).ops := ⟨hop, rfl⟩
  rw [completion, hc, Option.bind_eq_bind, Option.bind_some]
  dsimp only
  by_cases hb : bytes = []
  · obtain ⟨w', d', hw, ht, hg, hq, hbuff, hleft, hacc⟩ :=
      rmClient_base hfin hc (h.born op hop).2
    have hpend : w'.2.poller.pending = w.2.poller.pending.erase op := by rw [hq]; rfl
    refine ⟨w', d', ?_, ht, hbuff, hpend, moved_finish hg h.pending_nodup hpend
      (a := .fail op) (if_pos hb).symm ?_, fun _ => ⟨hleft, hacc⟩⟩
    · rw [if_pos (List.length_eq_zero_iff.mpr hb)]
      exact hw
    · rw [view_eq hc] at hin ⊢
      exact .fail hin
  · have hset := hfin.setClient (p := op.ptr) hc (c.complete_sockfd op bytes) fun o ho hp => by
      have hne : o.iotype ≠ op.iotype := fun ht => by
        have he := h.eq_of_pending hop (List.mem_of_mem_erase ho) hp ht
        exact (h.pending_nodup.mem_erase_iff.mp ho).1 he
      rw [CellClient.complete_isPost c hne]
      exact h.flag o (List.mem_of_mem_erase ho) c (hp ▸ hc)
    have hget : ∀ q, (w.1.setClient op.ptr (c.complete op bytes)).heap.get? q =
        if q = op.ptr then some (c.complete op bytes) else w.1.heap.get? q := Heap.get?_set hc _
    have hmove : Move onNetMsg op.ptr (.fill op bytes) (w.view op.ptr)
        ⟨some (c.complete op bytes), (w.view op.ptr).ops \ {op}⟩ := by
      rw [view_eq hc] at hin ⊢
      exact .fill hin hb
    rw [if_neg fun hl => hb (List.length_eq_zero_iff.mp hl)]
    by_cases ht : op.iotype = .recv
    · refine ⟨((w.1.setClient op.ptr (c.complete op bytes)).onNetRecv,
        { w.2 with poller := w.2.poller.finish op }), detached, by rw [if_pos ht], ?_, rfl, rfl,
        moved_finish hget h.pending_nodup rfl (a := .fill op bytes) (if_neg hb).symm hmove,
        fun he => absurd he hb⟩
      exact ⟨hset.roster.congr (fun _ => rfl) rfl rfl rfl rfl rfl hset.roster.registered,
        hset.born, hset.flag, hset.unique, hset.len, hset.keys⟩
    · exact ⟨(w.1.setClient op.ptr (c.complete op bytes),
        { w.2 with poller := w.2.poller.finish op }), detached, by rw [if_neg ht], hset, rfl, rfl,
        moved_finish hget h.pending_nodup rfl (a := .fill op bytes) (if_neg hb).symm hmove,
        fun he => absurd he hb⟩

end CellIOCPServer

end CellNet
