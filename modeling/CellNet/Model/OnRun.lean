import CellNet.Model.EasyTcpServer

/-! The loops of the workers: `CellServer::OnRun` with the place of each worker in it. A step is
one function of the loop or one round of `DoMsg`; a step without a result is a fault. -/

namespace CellNet

open Library

/-- Where a worker is in the loop of `OnRun`. -/
inductive LoopPc where
  /-- In front of `while (pThread->isRun())`. -/
  | test
  /-- In front of `CheckTime()`. -/
  | checkTime
  /-- In front of `DoNetEvent()`. -/
  | doNetEvent
  /-- In `DoMsg()`, with the keys of the clients whose messages are still to be handled. -/
  | doMsg (rest : List SOCKET)
  /-- Behind the loop. -/
  | left
deriving Repr, DecidableEq

/-- A server and the places of its workers. -/
structure ServerLoops (π σ : Type) where
  server : EasyTcpServer π σ
  pcs : List LoopPc

inductive LoopEvent (α : Type) where
  | accpet (cSock : SOCKET) (sendBlock recvBlock : List UInt8)
  /-- `isRun()` answers false. -/
  | stop (i : ℕ)
  /-- `isRun()` answers true; the worker takes up the clients that wait and tests for clients.
  Without one it reads the clock. -/
  | drain (i : ℕ) (nowTime : ℤ)
  | checkTime (i : ℕ) (nowTime : ℤ)
  | doNetEvent (i : ℕ) (answer : α)
  /-- A test of `hasMsg()` with the body of its loop. -/
  | doMsg (i : ℕ)

/-- The kernel leaves in a set only descriptors that were in it. -/
def CellSelectServer.Leaves (w : Worker SelectSets) (a : SelectAnswer) : Prop :=
  ∀ s x read write, prepareRead w.1 w.2 = some s → writeSet w.1 s = some x →
    a.result = .ready read write →
      read.Nodup ∧ read ⊆ s.poller.fdRead ∧ write.Nodup ∧ write ⊆ x.1

/-- What the kernel promises of its answers, whatever the worker has made of its table. -/
def ServerT.Answers : (t : ServerT) → Worker t.Poller → t.Answer → Prop
  | .epoll => CellEpollServer.Reports
  | .select _ => CellSelectServer.Leaves

namespace ServerLoops

variable {π σ : Type}

/-- A function of the worker `i`, which ends at a place of the loop. -/
def onWorker (s : ServerLoops π σ) (i : ℕ) (f : Worker π → Option (Worker π × LoopPc)) :
    Option (ServerLoops π σ) := do
  let c ← s.server.cellServers[i]?
  let r ← f (s.server.net, c)
  some ⟨{ s.server with net := r.1.1, cellServers := s.server.cellServers.set i r.1.2 },
    s.pcs.set i r.2⟩

/-- The loop up to `CheckTime()`. -/
def join (onClientJoin : Worker π → Ptr → Option (Worker π)) (nowTime : ℤ) (w : Worker π) :
    Option (Worker π × LoopPc) :=
  (w.drain onClientJoin).map fun w =>
    if w.2.clients.entries = [] then ((w.1, { w.2 with oldTime := nowTime }), .test)
    else (w, .checkTime)

/-- `DoNetEvent()`, and `pThread->Exit(); break;` if it answers false. -/
def poll (t : ServerT) (a : t.Answer) (w : Worker t.Poller) :
    Option (Worker t.Poller × LoopPc) :=
  (t.doNetEvent w a).map fun r =>
    (r.1, if r.2 then .doMsg (r.1.2.clients.entries.map Prod.fst) else .left)

/-- One round of `DoMsg()`. -/
def doMsg (onNetMsg : Handler σ) (s : ServerLoops π σ) (i : ℕ) : Option (ServerLoops π σ) :=
  match s.pcs[i]? with
  | some (.doMsg []) => some { s with pcs := s.pcs.set i .test }
  | some (.doMsg (k :: rest)) => do
      let c ← s.server.cellServers[i]?
      let p ← c.clients.find? k
      let pClient ← s.server.net.heap.get? p
      if pClient.hasMsg then
        let r ← Worker.handleMsg onNetMsg (s.server.net, c) s.server.ext p
        some { s with server := { s.server with
          net := r.1.1, cellServers := s.server.cellServers.set i r.1.2, ext := r.2 } }
      else some { s with pcs := s.pcs.set i (.doMsg rest) }
  | _ => none

section System

variable (t : ServerT) (onNetMsg : Handler σ)

/-- `none` is a fault. -/
def next (s : ServerLoops t.Poller σ) : LoopEvent t.Answer → Option (ServerLoops t.Poller σ)
  | .accpet cSock sendBlock recvBlock =>
      (s.server.accpet cSock sendBlock recvBlock).map fun server => { s with server }
  | .stop i => some { s with pcs := s.pcs.set i .left }
  | .drain i nowTime => s.onWorker i (join t.onClientJoin nowTime)
  | .checkTime i nowTime => s.onWorker i fun w =>
      (w.checkTime false nowTime).map fun w => (w, .doNetEvent)
  | .doNetEvent i a => s.onWorker i (poll t a)
  | .doMsg i => s.doMsg onNetMsg i

/-- The worker is at the place of the step; an accepted socket is not one of the open ones, and
its blocks have the sizes asked for; the kernel answers as it promises. -/
def Legal (s : ServerLoops t.Poller σ) : LoopEvent t.Answer → Prop
  | .accpet cSock sendBlock recvBlock => cSock ∉ s.server.net.openSocks ∧
      sendBlock.length = s.server.nSendBuffSize ∧ recvBlock.length = s.server.nRecvBuffSize
  | .stop i => s.pcs[i]? = some .test
  | .drain i _ => s.pcs[i]? = some .test
  | .checkTime i _ => s.pcs[i]? = some .checkTime
  | .doNetEvent i a => s.pcs[i]? = some .doNetEvent ∧
      ∀ c, s.server.cellServers[i]? = some c → t.Answers (s.server.net, c) a
  | .doMsg i => ∃ rest, s.pcs[i]? = some (.doMsg rest)

def system : System (ServerLoops t.Poller σ) (LoopEvent t.Answer) where
  init s := ∃ nCellServer nSend nRecv nMax oldTime poller ext,
    s = ⟨.start nCellServer nSend nRecv nMax oldTime poller ext,
      List.replicate nCellServer .test⟩
  step s e s' := Legal t s e ∧ next t onNetMsg s e = some s'

end System

end ServerLoops

end CellNet
