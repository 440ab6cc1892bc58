import CellNet.Model.EasyTcpServer

/-! The whole life of a server: its workers take clients up, let them leave and end their loops,
and the server is closed and started again. What a poll does to the tables is a sequence of
departures, whichever class the workers have. -/

namespace CellNet

open Library

/-- Where the thread of a worker is. -/
inductive LoopStatus where
  | running
  /-- `OnRun` has returned, `Clearclients` is still to come. -/
  | exiting
  | ended
deriving Repr, DecidableEq

/-- The thread of a worker, and the clients that `CheckTime` destroyed and erased while their
overlapped operations went on. -/
structure WorkerLoop where
  status : LoopStatus
  detached : List Ptr
deriving Repr, DecidableEq

namespace Worker

/-- A client of the table leaves. -/
def leave (k : SOCKET) (w : Worker WorkerLoop) : Option (Worker WorkerLoop) := do
  let p ← w.2.clients.find? k
  let w ← w.onClientLeave p
  some (w.1, w.2.eraseClient k)

/-- `CheckTime` under `CELL_USE_IOCP`, for a client with an operation outstanding. -/
def detach (k : SOCKET) (w : Worker WorkerLoop) : Option (Worker WorkerLoop) := do
  let p ← w.2.clients.find? k
  let n ← w.1.destroy p
  some (n, { w.2.eraseClient k with
    poller.detached := p :: w.2.poller.detached })

/-- The last operation of a destroyed client is returned. -/
def leaveDetached (p : Ptr) (w : Worker WorkerLoop) : Option (Worker WorkerLoop) :=
  (w.onClientLeave p).map fun w =>
    (w.1, { w.2 with poller.detached := w.2.poller.detached.erase p })

/-- `OnRun` returns. -/
def exit (w : Worker WorkerLoop) : Option (Worker WorkerLoop) :=
  some (w.1, { w.2 with poller.status := .exiting })

/-- `_onDestory`. -/
def clear (w : Worker WorkerLoop) : Option (Worker WorkerLoop) :=
  w.clearclients.map fun w => (w.1, { w.2 with poller.status := .ended })

end Worker

/-- The argument of `setClientNum`, a 32-bit `int`. -/
def clientNum (nMaxClient : ℤ) (nCellServer : ℕ) : ℤ :=
  wrap32 (nMaxClient.tdiv nCellServer + 1)

/-- The server; `accepting` says whether its accepting thread runs. -/
structure Pool where
  server : EasyTcpServer WorkerLoop Unit
  accepting : Bool

inductive PoolEvent where
  | accpet (cSock : SOCKET) (sendBlock recvBlock : List UInt8)
  | drain (i : ℕ)
  | leave (i : ℕ) (k : SOCKET)
  | detach (i : ℕ) (k : SOCKET)
  | leaveDetached (i : ℕ) (p : Ptr)
  /-- `DoNetEvent` returned false, or `isRun()` did. -/
  | exit (i : ℕ)
  | clear (i : ℕ)
  /-- `Close`: the accepting thread is closed first. -/
  | stopAccept
  /-- `Close`: the servers, whose threads have ended, are deleted. -/
  | close
  /-- `InitSocket` and `Start<ServerT>(nCellServer)`. -/
  | start (nCellServer : ℕ) (oldTime : ℕ → ℤ)

namespace Pool

/-- The workers that `Start` creates. -/
def workers (nCellServer : ℕ) (oldTime : ℕ → ℤ) : List (CellServer WorkerLoop) :=
  (List.range nCellServer).map fun (n : ℕ) => .new (n + 1) (oldTime n) ⟨.running, []⟩

def start (nCellServer : ℕ) (nSendBuffSize nRecvBuffSize nMaxClient : ℤ) (oldTime : ℕ → ℤ) :
    Pool where
  server := .start nCellServer nSendBuffSize nRecvBuffSize nMaxClient oldTime ⟨.running, []⟩ ()
  accepting := true

def onWorker (s : Pool) (i : ℕ) (f : Worker WorkerLoop → Option (Worker WorkerLoop)) :
    Option Pool :=
  (s.server.onWorker i f).map fun server => { s with server }

/-- `none` is a fault. -/
def next (s : Pool) : PoolEvent → Option Pool
  | .accpet cSock sendBlock recvBlock =>
      (s.server.accpet cSock sendBlock recvBlock).map fun server => { s with server }
  | .drain i => s.onWorker i (Worker.drain fun w _ => some w)
  | .leave i k => s.onWorker i (Worker.leave k)
  | .detach i k => s.onWorker i (Worker.detach k)
  | .leaveDetached i p => s.onWorker i (Worker.leaveDetached p)
  | .exit i => s.onWorker i Worker.exit
  | .clear i => s.onWorker i Worker.clear
  | .stopAccept => some { s with accepting := false }
  | .close => some { s with server := { s.server with cellServers := [] } }
  | .start nCellServer oldTime =>
      some { server := { s.server with cellServers := workers nCellServer oldTime }
             accepting := true }

/-- The thread of the worker `i` is there, and `c` are its tables. -/
def Has (s : Pool) (i : ℕ) (status : LoopStatus) (c : CellServer WorkerLoop) : Prop :=
  s.server.cellServers[i]? = some c ∧ c.poller.status = status

/-- Where each step is taken: accepted sockets are not among the open ones; clients are taken up
and leave while the loop runs; `Close` deletes workers whose threads have ended, and a closed
server is started again. -/
def Legal (s : Pool) : PoolEvent → Prop
  | .accpet cSock _ _ => s.accepting = true ∧ cSock ∉ s.server.net.openSocks
  | .drain i => ∃ c, s.Has i .running c
  | .leave i k => ∃ c p, s.Has i .running c ∧ c.clients.find? k = some p
  | .detach i k => ∃ c p, s.Has i .running c ∧ c.clients.find? k = some p
  | .leaveDetached i p => ∃ c, s.Has i .running c ∧ p ∈ c.poller.detached
  | .exit i => ∃ c, s.Has i .running c
  | .clear i => ∃ c, s.Has i .exiting c
  | .stopAccept => s.accepting = true
  | .close => s.accepting = false ∧ ∀ c ∈ s.server.cellServers, c.poller.status = .ended
  | .start _ _ => s.accepting = false ∧ s.server.cellServers = []

def system : System Pool PoolEvent where
  init s := ∃ nCellServer nSend nRecv nMax oldTime,
    s = start nCellServer nSend nRecv nMax oldTime
  step s e t := s.Legal e ∧ s.next e = some t

end Pool

end CellNet
