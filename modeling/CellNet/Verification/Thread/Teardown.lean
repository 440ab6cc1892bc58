import CellNet.Model.Teardown
import CellNet.Verification.Thread.Semantics

/-! Whether a worker can still poll when the destructor has destroyed what it polls. -/

namespace CellNet

open Library CellThread

/-- The worker is on its way out of `OnRun`, or past it. -/
def WorkerPc.LoopLeft : WorkerPc OnRunPc → Prop
  | .exiting .left | .running .left | .destroying | .waking | .clearing | .ended => True
  | _ => False

/-- The loop calls `Exit` only in front of its `break`. -/
theorem CellServer.onRun_exit {e : OnRunEnv} {b : Bool} {r r' : OnRunPc} {k : Option Bool}
    (h : (onRun e).step b r k = .exit r') : r' = .left := by
  cases r <;> simp only [onRun] at h
  · split at h <;> cases h
  · split at h <;> cases h
  · split at h <;> cases h
    rfl
  · split at h <;> cases h
    rfl
  · cases h
  · cases h

namespace ServerObject

variable {o o' : ServerObject} {pc : WorkerPc OnRunPc}

def Polling (o : ServerObject) : Prop :=
  ∃ i : ℕ, o.thread.workers[i]? = some (.running .poll)

/-- The worker has left its loop, or it has no client and does not stand at or in
`DoNetEvent`. -/
def Idles (o : ServerObject) (pc : WorkerPc OnRunPc) : Prop :=
  pc.LoopLeft ∨ o.clients = 0 ∧ o.clientsBuff = 0 ∧ pc ≠ .running .ready ∧ pc ≠ .running .poll

/-- A started object, whose worker stands at `pc`. What `Close` can find at its return
shows that the worker has left its loop. -/
structure Inv (o : ServerObject) (pc : WorkerPc OnRunPc) : Prop where
  worker : o.thread.workers = [pc]
  sem : o.thread.SemOk
  exits : ∀ r, pc = .exiting r → r = .left
  exited : o.thread.owner = .idle → o.thread.isRun = false → pc.LoopLeft
  counted : o.thread.owner ≠ .blocked → 0 < o.thread.sem.waitCount → pc.LoopLeft
  signalled : o.thread.owner = .blocked → 0 < o.thread.sem.wakeupCount → pc.LoopLeft
  selected : o.kind = .select → o.todo = ServerKind.select.destructor ∨
    o.thread.owner ≠ .idle ∨ pc.LoopLeft
  safe : o.poller = false → o.Idles pc

theorem inv_started (kind : ServerKind) : (started kind).Inv .created where
  worker := rfl
  sem := ⟨show (0 : ℤ) ≤ 2147483647 by decide, fun _ => ⟨rfl, Int.le_refl 0⟩, nofun⟩
  exits := nofun
  exited := nofun
  counted _ h := absurd h (Int.lt_irrefl 0)
  signalled := nofun
  selected h := .inl (by rw [started, show kind = .select from h])
  safe := nofun

/-- A worker out of its loop keeps every clause that matters. -/
theorem Inv.of_loopLeft (hw : o.thread.workers = [pc]) (hs : o.thread.SemOk)
    (hx : ∀ r, pc = .exiting r → r = .left) (hl : pc.LoopLeft) : o.Inv pc :=
  ⟨hw, hs, hx, fun _ _ => hl, fun _ _ => hl, fun _ _ => hl, fun _ => .inr (.inr hl),
    fun _ => .inl hl⟩

/-! ### The worker -/

theorem worker_zero (h : o.thread.workers = [pc]) : o.thread.workers[0]? = some pc := by
  rw [h]
  rfl

theorem work_spec {k : Option Bool} {removed : ℕ} (h : o.thread.workers = [pc])
    (hw : o.work k removed = some o') :
    ∃ pc' b sem, Works o.onRun o.thread pc k pc' b sem ∧
      o' = { o.tables removed pc with
        thread := { o.thread with isRun := b, sem := sem, workers := [pc'] } } := by
  have hpc := worker_zero h
  simp only [work, hpc, Option.bind_eq_bind, Option.bind_some, Option.bind_eq_some_iff,
    Option.some.injEq] at hw
  obtain ⟨thread, ht, rfl⟩ := hw
  cases next_eq_some_iff.mp ht with
  | @work _ qc _ pc' b sem hqc hs =>
      obtain rfl := Option.some.inj (hpc.symm.trans hqc)
      refine ⟨pc', b, sem, hs, ?_⟩
      simp only [h, List.set_cons_zero]

/-- Whatever the worker can do, the object can do. -/
theorem work_of_works {pc' : WorkerPc OnRunPc} {k : Option Bool} {b : Bool}
    {sem : CellSemaphore} (h : o.thread.workers = [pc])
    (hs : Works o.onRun o.thread pc k pc' b sem) (removed : ℕ) :
    o.work k removed = some { o.tables removed pc with
      thread := { o.thread with isRun := b, sem := sem, workers := [pc'] } } := by
  rw [work, worker_zero h, Option.bind_eq_bind, Option.bind_some,
    hs.next (worker_zero h), Option.bind_eq_bind, Option.bind_some, h, List.set_cons_zero]

/-- Inside the loop a step changes neither the flag nor the semaphore, and it comes to
`DoNetEvent` only with a client. -/
theorem works_onRun {pc' : WorkerPc OnRunPc} {k : Option Bool} {b : Bool} {sem : CellSemaphore}
    (hx : ∀ r, pc = .exiting r → r = .left) (h : Works o.onRun o.thread pc k pc' b sem) :
    (∀ r, pc' = .exiting r → r = .left) ∧
      (pc'.LoopLeft ∨ ¬ pc.LoopLeft ∧ b = o.thread.isRun ∧ sem = o.thread.sem ∧
        (o.Idles pc → o.clients = 0 ∧ o.clientsBuff = 0 ∧ pc' ≠ .running .ready ∧
          pc' ≠ .running .poll)) := by
  cases h with
  | create =>
      refine ⟨nofun, .inr ⟨nofun, rfl, rfl, ?_⟩⟩
      rintro (hl | ⟨hc, hb, _⟩)
      · cases hl
      · exact ⟨hc, hb, nofun, nofun⟩
  | @goto r r' _ hs =>
      refine ⟨nofun, .inr ⟨fun hl => ?_, rfl, rfl, ?_⟩⟩
      · cases r <;> cases hl
        simp [onRun, CellServer.onRun] at hs
      · rintro (hl | ⟨hc, hb, hready, hpoll⟩)
        · cases r <;> cases hl
          simp [onRun, CellServer.onRun] at hs
        · refine ⟨hc, hb, ?_⟩
          cases r with
          | ready => exact absurd rfl hready
          | poll => exact absurd rfl hpoll
          | test =>
              simp only [onRun, CellServer.onRun] at hs
              split at hs <;> cases hs
              exact ⟨nofun, nofun⟩
          | body =>
              simp only [onRun, CellServer.onRun, hc, hb] at hs
              cases hs
              exact ⟨nofun, nofun⟩
          | msgs => cases hs; exact ⟨nofun, nofun⟩
          | left => cases hs
  | @callExit r r' _ hs =>
      obtain rfl := CellServer.onRun_exit hs
      exact ⟨fun r h => by cases h; rfl, .inl trivial⟩
  | ret | destroy | wake | clear => exact ⟨nofun, .inl trivial⟩
  | @exit r k hi =>
      obtain rfl := hx r rfl
      exact ⟨nofun, .inl trivial⟩

theorem tables_spec (o : ServerObject) (removed : ℕ) (pc : WorkerPc OnRunPc) :
    (o.tables removed pc).kind = o.kind ∧ (o.tables removed pc).todo = o.todo ∧
      (o.tables removed pc).poller = o.poller ∧
      (o.clients = 0 → o.clientsBuff = 0 →
        (o.tables removed pc).clients = 0 ∧ (o.tables removed pc).clientsBuff = 0) := by
  unfold tables
  split <;> simp +contextual

theorem Inv.work (h : o.Inv pc) {k : Option Bool} {removed : ℕ}
    (hw : o.work k removed = some o') : ∃ pc', o'.Inv pc' ∧ o'.poller = o.poller := by
  obtain ⟨pc', b, sem, hs, rfl⟩ := work_spec h.worker hw
  have hsem : SemOk { o.thread with isRun := b, sem := sem, workers := [pc'] } := by
    have := h.sem.step (.work (worker_zero h.worker) hs)
    rwa [h.worker] at this
  obtain ⟨hkind, htodo, hpoller, hempty⟩ := o.tables_spec removed pc
  obtain ⟨hx, hl | ⟨hin, rfl, rfl, hidle⟩⟩ := works_onRun h.exits hs
  · exact ⟨pc', .of_loopLeft rfl hsem hx hl, hpoller⟩
  · refine ⟨pc', ⟨rfl, hsem, hx, ?_, ?_, ?_, ?_, ?_⟩, hpoller⟩
    · exact fun ho hr => absurd (h.exited ho hr) hin
    · exact fun ho hc => absurd (h.counted ho hc) hin
    · exact fun ho hc => absurd (h.signalled ho hc) hin
    · intro hk
      rcases h.selected (hkind ▸ hk) with ht | ho | hl
      · exact .inl (htodo.trans ht)
      · exact .inr (.inl ho)
      · exact absurd hl hin
    · intro hp
      obtain ⟨hc, hb, hready, hpoll⟩ := hidle (h.safe (hpoller ▸ hp))
      obtain ⟨hc', hb'⟩ := hempty hc hb
      exact .inr ⟨hc', hb', hready, hpoll⟩

/-! ### The destructor -/

/-- The poller is destroyed only when the worker cannot come back to it. -/
def DeletesIdle (o : ServerObject) : Prop :=
  ∀ pc todo, o.thread.workers[0]? = some pc → o.thread.owner = .idle →
    o.todo = .destroyPoller :: todo → o.kind = .select ∨ o.Idles pc

/-- A step inside `Close`, after which the destructor goes on with `todo`. -/
theorem Inv.closeStep (h : o.Inv pc) {thread : CellThread OnRunPc} {todo : List DtorStep}
    (hs : Steps o.onRun o.thread .close thread ∨
      todo = o.todo ∧ (Steps o.onRun o.thread .semWait thread ∨
        Steps o.onRun o.thread .semRetest thread)) :
    ({ o with thread, todo } : ServerObject).Inv pc := by
  rcases hs with hs | ⟨rfl, hs | hs⟩
  · have hsem := h.sem.step hs
    cases hs with
    | close hi hr =>
        refine ⟨h.worker, hsem, h.exits, by simp, ?_, by simp, by simp, h.safe⟩
        exact fun _ => h.counted (by simp [hi])
    | closeAgain hi hr => exact .of_loopLeft h.worker h.sem h.exits (h.exited hi hr)
  · have hsem := h.sem.step hs
    cases hs with
    | waitReturn hi hw =>
        rw [semWait_eq h.sem hi] at hw
        exact .of_loopLeft h.worker hsem h.exits
          (h.counted (by simp [hi]) (of_decide_eq_true hw))
    | waitBlock hi hw =>
        refine ⟨h.worker, hsem, h.exits, by simp, by simp, fun _ hz => ?_, by simp, h.safe⟩
        have := h.sem.free (by simp [hi])
        simp only [semWait_eq h.sem hi] at hz
        omega
  · have hsem := h.sem.step hs
    cases hs with
    | retestReturn hi hw =>
        refine .of_loopLeft h.worker hsem h.exits (h.signalled hi ?_)
        rcases h.sem.held hi with ⟨_, hz⟩ | ⟨_, hz⟩
        · simp [CellSemaphore.retest, hz] at hw
        · omega
    | retestBlock hi hw =>
        refine ⟨h.worker, hsem, h.exits, by simp, by simp, fun _ hz => ?_, by simp, h.safe⟩
        refine h.signalled hi ?_
        rcases h.sem.held hi with ⟨_, hz'⟩ | ⟨_, hz'⟩
        · simp [CellSemaphore.retest, hz'] at hz
        · omega

theorem Inv.selected_loopLeft (h : o.Inv pc) (hi : o.thread.owner = .idle)
    (ht : o.todo ≠ ServerKind.select.destructor) (hk : o.kind = .select) : pc.LoopLeft := by
  rcases h.selected hk with ht' | ho | hl
  · exact absurd ht' ht
  · exact absurd hi ho
  · exact hl

theorem Inv.delete (h : o.Inv pc) (hd : o.DeletesIdle) (hn : o.delete = some o') :
    o'.Inv pc := by
  rw [ServerObject.delete] at hn
  split at hn
  · obtain ⟨thread, ht, rfl⟩ := Option.map_eq_some_iff.mp hn
    exact h.closeStep (.inr ⟨rfl, .inl (next_eq_some_iff.mp ht)⟩)
  · obtain ⟨thread, ht, rfl⟩ := Option.map_eq_some_iff.mp hn
    exact h.closeStep (.inr ⟨rfl, .inr (next_eq_some_iff.mp ht)⟩)
  · cases hn
  · obtain ⟨thread, ht, rfl⟩ := Option.map_eq_some_iff.mp hn
    exact h.closeStep (.inl (next_eq_some_iff.mp ht))
  · next todo hi htodo =>
      obtain rfl := Option.some.inj hn
      have hsel := h.selected_loopLeft hi (by rw [htodo]; nofun)
      refine ⟨h.worker, h.sem, h.exits, h.exited, h.counted, h.signalled,
        fun hk => .inr (.inr (hsel hk)), fun _ => ?_⟩
      rcases hd pc todo (worker_zero h.worker) hi htodo with hk | hidle
      · exact .inl (hsel hk)
      · exact hidle
  · next todo hi htodo =>
      obtain rfl := Option.some.inj hn
      have hsel := h.selected_loopLeft hi (by rw [htodo]; nofun)
      exact ⟨h.worker, h.sem, h.exits, h.exited, h.counted, h.signalled,
        fun hk => .inr (.inr (hsel hk)), h.safe⟩

end ServerObject

namespace TcpTeardown

variable {s t : TcpTeardown}

/-- The owner destroys a poller only when the worker cannot come back to it. -/
def OwnerWaits (s : TcpTeardown) : TeardownEvent → Prop
  | .owner => ∀ n o, s.cur = some n → s.servers[n]? = some o → o.DeletesIdle
  | _ => True

/-- Every object is in shape; before the deletions all pollers exist. -/
structure Inv (s : TcpTeardown) : Prop where
  objects : ∀ (i : ℕ) (o : ServerObject), s.servers[i]? = some o → ∃ pc, o.Inv pc
  before : s.cur = none → ∀ (i : ℕ) (o : ServerObject), s.servers[i]? = some o → o.poller = true

theorem inv_init (h : system.init s) : s.Inv := by
  obtain ⟨_, kinds, hk⟩ := h
  have hobj : ∀ (i : ℕ) (o : ServerObject), s.servers[i]? = some o →
      ∃ kind, o = .started kind := by
    intro i o ho
    rw [hk, List.getElem?_map] at ho
    obtain ⟨kind, _, rfl⟩ := Option.map_eq_some_iff.mp ho
    exact ⟨kind, rfl⟩
  refine ⟨fun i o ho => ?_, fun _ i o ho => ?_⟩
  · obtain ⟨kind, rfl⟩ := hobj i o ho
    exact ⟨.created, ServerObject.inv_started kind⟩
  · obtain ⟨kind, rfl⟩ := hobj i o ho
    rfl

/-- Replacing one object by an object in shape. -/
theorem Inv.set (h : s.Inv) {i : ℕ} {o' : ServerObject} (ho : ∃ pc, o'.Inv pc)
    (hb : s.cur = none → o'.poller = true) : Inv { s with servers := s.servers.set i o' } := by
  refine ⟨fun j o hj => ?_, fun hc j o hj => ?_⟩
  · rcases getElem?_set_cases hj with ⟨rfl, rfl⟩ | ⟨_, hj⟩
    · exact ho
    · exact h.objects j o hj
  · rcases getElem?_set_cases hj with ⟨rfl, rfl⟩ | ⟨_, hj⟩
    · exact hb hc
    · exact h.before hc j o hj

theorem Inv.step (h : s.Inv) {e : TeardownEvent} (ho : s.OwnerWaits e)
    (hs : s.next e = some t) : t.Inv := by
  cases e with
  | addClient i =>
      simp only [next, Option.ite_none_right_eq_some] at hs
      obtain ⟨hc, hs⟩ := hs
      obtain ⟨o, hio, rfl⟩ := Option.map_eq_some_iff.mp hs
      obtain ⟨pc, hi⟩ := h.objects i o hio
      have hp := h.before hc i o hio
      refine h.set ⟨pc, hi.worker, hi.sem, hi.exits, hi.exited, hi.counted, hi.signalled,
        hi.selected, fun hf => ?_⟩ fun _ => hp
      rw [show o.poller = false from hf] at hp
      cases hp
  | owner =>
      rw [next] at hs
      split at hs
      · obtain rfl := Option.some.inj hs
        exact ⟨h.objects, nofun⟩
      · next n hn =>
          split at hs
          · cases hs
          · next o hio =>
              split at hs
              · obtain rfl := Option.some.inj hs
                exact ⟨h.objects, nofun⟩
              · obtain ⟨o', hd, rfl⟩ := Option.map_eq_some_iff.mp hs
                obtain ⟨pc, hi⟩ := h.objects n o hio
                refine h.set ⟨pc, hi.delete (ho n o hn hio) hd⟩ fun hc => ?_
                rw [hn] at hc
                cases hc
  | work i k removed =>
      simp only [next, Option.bind_eq_bind, Option.bind_eq_some_iff, Option.some.injEq] at hs
      obtain ⟨o, hio, o', hw, rfl⟩ := hs
      obtain ⟨pc, hi⟩ := h.objects i o hio
      obtain ⟨pc', hi', hp⟩ := hi.work hw
      exact h.set ⟨pc', hi'⟩ fun hc => hp.trans (h.before hc i o hio)

theorem inv_reachable (h : (system.guard OwnerWaits).Reachable s) : s.Inv := by
  have hinv : (system.guard OwnerWaits).Invariant Inv :=
    ⟨fun _ => inv_init, fun _ _ _ hi hst => hi.step hst.1 hst.2⟩
  exact hinv.reachable h

/-- In every run in which each poller is destroyed at a moment when its worker cannot come
back to it, no worker is in `DoNetEvent` of an object without poller. Servers of the
`select` kind meet the condition by themselves. -/
theorem teardown_safe (h : (system.guard OwnerWaits).Reachable s) (i : ℕ) (o : ServerObject)
    (ho : s.servers[i]? = some o) (hp : o.poller = false) : ¬ o.Polling := by
  obtain ⟨pc, hi⟩ := (inv_reachable h).objects i o ho
  rintro ⟨j, hj⟩
  rw [hi.worker] at hj
  have hpc : pc = .running .poll := by
    obtain ⟨hlt, hj⟩ := List.getElem?_eq_some_iff.mp hj
    obtain rfl : j = 0 := by simpa using hlt
    exact hj
  rcases hi.safe hp with hl | ⟨_, _, _, hpoll⟩
  · rw [hpc] at hl
    cases hl
  · exact hpoll hpc

theorem teardown_safe_idle :
    ¬ ({ ServerObject.started .epoll with poller := false, todo := [.toBase, .close] } :
      ServerObject).Polling := by
  have hidle : (ServerObject.started .epoll).DeletesIdle := by
    intro pc todo hpc _ _
    obtain rfl := Option.some.inj hpc
    exact .inr (.inr ⟨rfl, rfl, nofun, nofun⟩)
  have hr : (system.guard OwnerWaits).Reachable
      ⟨[{ ServerObject.started .epoll with poller := false, todo := [.toBase, .close] }],
        some 0⟩ := by
    refine ⟨⟨[.started .epoll], none⟩, [.owner, .owner], ⟨rfl, [.epoll], rfl⟩,
      .cons ⟨nofun, rfl⟩ (.cons ⟨?_, rfl⟩ (.nil _))⟩
    intro n o hn ho
    obtain rfl := Option.some.inj hn
    obtain rfl := Option.some.inj ho
    exact hidle
  exact teardown_safe hr 0 _ rfl rfl

/-- The worker is polling when `~CellEpollServer` destroys the poller. -/
theorem teardown_polls :
    ∃ (s : TcpTeardown) (o : ServerObject), system.Reachable s ∧ s.servers[0]? = some o ∧
      o.poller = false ∧ o.Polling := by
  have hp : ∃ s, system.Path ⟨[.started .epoll], none⟩
      [.addClient 0, .work 0 none 0, .work 0 none 0, .work 0 none 0, .work 0 none 0, .owner,
        .owner] s ∧
      s = ⟨[{ kind := .epoll, thread := ⟨true, ⟨0, 0⟩, .idle, [.running .poll]⟩, clients := 1,
              clientsBuff := 0, poller := false, derived := true, todo := [.toBase, .close] }],
            some 0⟩ :=
    ⟨_, .cons rfl (.cons rfl (.cons rfl (.cons rfl (.cons rfl (.cons rfl (.cons rfl
      (.nil _))))))), rfl⟩
  obtain ⟨s, hp, rfl⟩ := hp
  exact ⟨_, _, ⟨_, _, ⟨rfl, [.epoll], rfl⟩, hp⟩, rfl, rfl, 0, rfl⟩

/-! ### The condition is needed -/

/-- The worker of object `i` can come to poll, although the poller is gone. -/
def ComesToPoll (s : TcpTeardown) (i : ℕ) : Prop :=
  ∃ es t o, system.Path s es t ∧ t.servers[i]? = some o ∧ o.Polling ∧ o.poller = false

/-- A step of the worker of object `i`, which can be followed by more. -/
theorem work_then {i : ℕ} {o : ServerObject} {pc pc' : WorkerPc OnRunPc} {b : Bool}
    {sem : CellSemaphore} (hi : s.servers[i]? = some o) (hw : o.thread.workers = [pc])
    (hs : Works o.onRun o.thread pc none pc' b sem)
    (h : ComesToPoll { s with servers := s.servers.set i { o.tables 0 pc with
      thread := { o.thread with isRun := b, sem := sem, workers := [pc'] } } } i) :
    s.ComesToPoll i := by
  obtain ⟨es, t, p, hp, ht⟩ := h
  refine ⟨.work i none 0 :: es, t, p, .cons ?_ hp, ht⟩
  simp only [system, next, hi, ServerObject.work_of_works hw hs, Option.bind_eq_bind,
    Option.bind_some]

/-- The poller is gone, but the worker stands at `r`, its flag is set, and its calls of
`DoNetEvent` still go to the derived class. -/
structure Busy (o : ServerObject) (r : WorkerPc OnRunPc) : Prop where
  worker : o.thread.workers = [r]
  poller : o.poller = false
  derived : o.derived = true
  isRun : o.thread.isRun = true

theorem comesToPoll_ready {i : ℕ} {o : ServerObject} (hi : s.servers[i]? = some o)
    (h : Busy o (.running .ready)) : s.ComesToPoll i := by
  have hs : o.onRun.step o.thread.isRun .ready none = .goto .poll := by
    simp [ServerObject.onRun, CellServer.onRun, h.derived]
  apply work_then hi h.worker (.goto hs)
  exact ⟨[], _, _, .nil _, getElem?_set_same hi _, ⟨0, rfl⟩, h.poller⟩

theorem comesToPoll_body {i : ℕ} {o : ServerObject} (hi : s.servers[i]? = some o)
    (h : Busy o (.running .body)) (hc : o.clients + o.clientsBuff ≠ 0) : s.ComesToPoll i := by
  have hs : o.onRun.step o.thread.isRun .body none = .goto .ready := by
    simp only [ServerObject.onRun, CellServer.onRun, hc, decide_false, Bool.false_eq_true,
      if_false]
  apply work_then hi h.worker (.goto hs)
  exact comesToPoll_ready (getElem?_set_same hi _) ⟨rfl, h.poller, h.derived, h.isRun⟩

theorem comesToPoll_test {i : ℕ} {o : ServerObject} (hi : s.servers[i]? = some o)
    (h : Busy o (.running .test)) (hc : o.clients + o.clientsBuff ≠ 0) : s.ComesToPoll i := by
  have hs : o.onRun.step o.thread.isRun .test none = .goto .body := by
    simp [ServerObject.onRun, CellServer.onRun, h.isRun]
  apply work_then hi h.worker (.goto hs)
  exact comesToPoll_body (getElem?_set_same hi _) ⟨rfl, h.poller, h.derived, h.isRun⟩ hc

/-- A poller destroyed too early is polled again, unless `~CellServer` comes first. -/
theorem comesToPoll {i : ℕ} {o : ServerObject} {pc : WorkerPc OnRunPc}
    (hi : s.servers[i]? = some o) (h : Busy o pc) (hx : ∀ r, pc = .exiting r → r = .left)
    (hidle : ¬ o.Idles pc) : s.ComesToPoll i := by
  obtain ⟨hl, hq⟩ := not_or.mp hidle
  have hc : pc ≠ .running .ready → pc ≠ .running .poll → o.clients + o.clientsBuff ≠ 0 :=
    fun hr hp hz => hq ⟨by omega, by omega, hr, hp⟩
  cases pc with
  | created =>
      apply work_then hi h.worker .create
      exact comesToPoll_test (getElem?_set_same hi _) ⟨rfl, h.poller, h.derived, h.isRun⟩
        (hc (by simp) (by simp))
  | running r =>
      cases r with
      | test => exact comesToPoll_test hi h (hc (by simp) (by simp))
      | body => exact comesToPoll_body hi h (hc (by simp) (by simp))
      | ready => exact comesToPoll_ready hi h
      | poll => exact ⟨[], s, o, .nil s, hi, ⟨0, ServerObject.worker_zero h.worker⟩, h.poller⟩
      | msgs =>
          apply work_then hi h.worker (.goto rfl)
          exact comesToPoll_test (getElem?_set_same hi _)
            ⟨rfl, h.poller, h.derived, h.isRun⟩ (hc (by simp) (by simp))
      | left => exact absurd trivial hl
  | exiting r =>
      obtain rfl := hx r rfl
      exact absurd trivial hl
  | destroying | waking | clearing | ended => exact absurd trivial hl

end TcpTeardown

end CellNet
