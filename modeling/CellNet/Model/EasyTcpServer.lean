import CellNet.Library.Transition
import CellNet.Model.CellEpollServer
import CellNet.Model.CellSelectServer

/-! The server: it accepts connections and hands each client to the worker with the
fewest. Its workers run side by side, one function of a worker at a time. -/

namespace CellNet

open Library

/-- The class of the workers that `Start<ServerT>` creates. -/
inductive ServerT where
  | epoll
  | select (platform : Platform)
deriving Repr, DecidableEq

namespace ServerT

/-- The fields that the class adds to `CellServer`. -/
def Poller : ServerT → Type
  | .epoll => Unit
  | .select _ => SelectSets

/-- What the kernel answers during one `DoNetEvent`. -/
def Answer : ServerT → Type
  | .epoll => EpollAnswer
  | .select _ => SelectAnswer

def onClientJoin : (t : ServerT) → Worker t.Poller → Ptr → Option (Worker t.Poller)
  | .epoll => CellEpollServer.onClientJoin
  | .select _ => CellSelectServer.onClientJoin

def doNetEvent : (t : ServerT) → Worker t.Poller → t.Answer → Option (Worker t.Poller × Bool)
  | .epoll => CellEpollServer.doNetEvent
  | .select platform => CellSelectServer.doNetEvent platform

def Reports : (t : ServerT) → Worker t.Poller → t.Answer → Prop
  | .epoll => CellEpollServer.Reports
  | .select _ => CellSelectServer.Reports

end ServerT

/-- The server with the state `ext` of its subclass. -/
structure EasyTcpServer (π σ : Type) where
  net : Net
  cellServers : List (CellServer π)
  nSendBuffSize : ℤ
  nRecvBuffSize : ℤ
  nMaxClient : ℤ
  ext : σ

namespace EasyTcpServer

variable {π σ : Type}

/-- The worker with the fewest clients, the first of them if there are several. -/
def minServer (cellServers : List (CellServer π)) : Option ℕ := do
  let first ← cellServers[0]?
  let m := cellServers.zipIdx.foldl
    (fun m s => if m.1.getClientCount > s.1.getClientCount then s else m) (first, 0)
  some m.2

def addClientToCellServer (s : EasyTcpServer π σ) (p : Ptr) : Option (EasyTcpServer π σ) := do
  let i ← minServer s.cellServers
  let c ← s.cellServers[i]?
  some { s with cellServers := s.cellServers.set i (c.addClient p) }

/-- `new CellClient(cSock, _nSendBuffSize, _nRecvBuffSize)`; the two blocks are the memory
of its buffers. -/
def newClient (s : EasyTcpServer π σ) (cSock : SOCKET) (sendBlock recvBlock : List UInt8) :
    CellClient :=
  .new (s.net.heap.next + 1) cSock (.new s.nSendBuffSize sendBlock)
    (.new s.nRecvBuffSize recvBlock)

/-- `Accpet`, for which `accept` returns `cSock`. -/
def accpet (s : EasyTcpServer π σ) (cSock : SOCKET) (sendBlock recvBlock : List UInt8) :
    Option (EasyTcpServer π σ) :=
  if INVALID_SOCKET = cSock then some s
  else
    let n := s.net.accept cSock
    if n.clientAccept < s.nMaxClient then
      addClientToCellServer
        { s with net := n.newClient (s.newClient cSock sendBlock recvBlock) } n.heap.next
    else (n.destroySocket cSock).map fun n => { s with net := n }

/-- One function of the worker `i`. -/
def onWorker (s : EasyTcpServer π σ) (i : ℕ) (f : Worker π → Option (Worker π)) :
    Option (EasyTcpServer π σ) := do
  let c ← s.cellServers[i]?
  let w ← f (s.net, c)
  some { s with net := w.1, cellServers := s.cellServers.set i w.2 }

/-- The server after `Start<ServerT>(nCellServer)`. -/
def start (nCellServer : ℕ) (nSendBuffSize nRecvBuffSize nMaxClient : ℤ) (oldTime : ℕ → ℤ)
    (poller : π) (ext : σ) : EasyTcpServer π σ where
  net := .new
  cellServers := (List.range nCellServer).map fun (n : ℕ) => .new (n + 1) (oldTime n) poller
  nSendBuffSize := nSendBuffSize
  nRecvBuffSize := nRecvBuffSize
  nMaxClient := nMaxClient
  ext := ext

end EasyTcpServer

/-- The steps of the accepting thread and of the workers. -/
inductive ServerEvent (α : Type) where
  | accpet (cSock : SOCKET) (sendBlock recvBlock : List UInt8)
  /-- The worker `i` takes up the clients in its buffer. -/
  | drain (i : ℕ)
  | checkTime (i : ℕ) (nowTime : ℤ)
  | doNetEvent (i : ℕ) (answer : α)
  /-- `DoMsg` of the worker `i` handles a message of the client under the key `k`. -/
  | onNetMsg (i : ℕ) (k : SOCKET)

namespace EasyTcpServer

variable {σ : Type}

section System

variable (t : ServerT) (onNetMsg : Handler σ)

/-- `none` is a fault. -/
def next (s : EasyTcpServer t.Poller σ) :
    ServerEvent t.Answer → Option (EasyTcpServer t.Poller σ)
  | .accpet cSock sendBlock recvBlock => s.accpet cSock sendBlock recvBlock
  | .drain i => s.onWorker i (Worker.drain t.onClientJoin)
  | .checkTime i nowTime => s.onWorker i (Worker.checkTime false nowTime)
  | .doNetEvent i answer => s.onWorker i fun w => (t.doNetEvent w answer).map Prod.fst
  | .onNetMsg i k => do
      let c ← s.cellServers[i]?
      let p ← c.clients.find? k
      let r ← Worker.handleMsg onNetMsg (s.net, c) s.ext p
      some { s with net := r.1.1, cellServers := s.cellServers.set i r.1.2, ext := r.2 }

/-- What the kernel and the loops promise: an accepted socket is not one of the open ones,
a worker is one of those started, its poll is answered as the class says and does not end
its loop, and messages are looked for in the clients of the table. -/
def Legal (s : EasyTcpServer t.Poller σ) : ServerEvent t.Answer → Prop
  | .accpet cSock _ _ => cSock ∉ s.net.openSocks
  | .drain i => i < s.cellServers.length
  | .checkTime i _ => i < s.cellServers.length
  | .doNetEvent i answer => ∃ c, s.cellServers[i]? = some c ∧ t.Reports (s.net, c) answer ∧
      ∀ r, t.doNetEvent (s.net, c) answer = some r → r.2 = true
  | .onNetMsg i k => ∃ c p, s.cellServers[i]? = some c ∧ c.clients.find? k = some p

def system : System (EasyTcpServer t.Poller σ) (ServerEvent t.Answer) where
  init s := ∃ nCellServer nSend nRecv nMax oldTime poller ext,
    s = start nCellServer nSend nRecv nMax oldTime poller ext
  step s e s' := Legal t s e ∧ next t onNetMsg s e = some s'

end System

end EasyTcpServer

end CellNet
