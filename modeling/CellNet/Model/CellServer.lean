import CellNet.Library.Heap
import CellNet.Library.OrderedMap
import CellNet.Model.CellClient

/-! One worker of a server: its table of clients, the buffer of clients that wait to be
taken up, and the functions of `CellServer` that move clients in and out. A result `none`
is a fault: a call through the pointer of a deleted object, or undefined behaviour. -/

namespace CellNet

open Library

/-- The address of a `CellClient`. -/
abbrev Ptr := ℕ

/-- A socket registered with an epoll instance, and whether `EPOLLOUT` is asked for. -/
structure Registration where
  epfd : ℤ
  sockfd : SOCKET
  ptr : Ptr
  out : Bool
deriving Repr, DecidableEq

/-- What the workers of one server share: the client objects, the counters of
`EasyTcpServer`, and the open sockets and epoll registrations that the kernel keeps for
them. The clients that were passed to `OnNetLeave` are listed in `left`. -/
structure Net where
  heap : Heap CellClient
  recvCount : ℤ
  clientAccept : ℤ
  msgCount : ℤ
  clientJoin : ℤ
  left : List Ptr
  openSocks : List SOCKET
  registered : List Registration
deriving Repr, DecidableEq

namespace Net

def new : Net := ⟨.empty, 0, 0, 0, 0, [], [], []⟩

def sockfd? (n : Net) (p : Ptr) : Option SOCKET := (n.heap.get? p).map CellClient.sockfd

def setClient (n : Net) (p : Ptr) (c : CellClient) : Net := { n with heap := n.heap.set p c }

/-! ### The events of `EasyTcpServer` -/

def onNetJoin (n : Net) : Net := { n with clientJoin := n.clientJoin + 1 }

def onNetLeave (n : Net) (p : Ptr) : Net :=
  { n with
    clientAccept := n.clientAccept - 1
    clientJoin := n.clientJoin - 1
    left := n.left ++ [p] }

def onNetRecv (n : Net) : Net := { n with recvCount := n.recvCount + 1 }

def onNetMsg (n : Net) : Net := { n with msgCount := n.msgCount + 1 }

/-! ### Sockets and objects -/

/-- `accept` returned `cSock`. -/
def accept (n : Net) (cSock : SOCKET) : Net := { n with openSocks := cSock :: n.openSocks }

/-- `_clientAccept++` and the new object. -/
def newClient (n : Net) (c : CellClient) : Net :=
  { n with clientAccept := n.clientAccept + 1, heap := n.heap.alloc c }

/-- The kernel closes a socket; that ends its registrations too. -/
def close (n : Net) (sockfd : SOCKET) : Net :=
  { n with
    openSocks := n.openSocks.erase sockfd
    registered := n.registered.filter fun g => decide (g.sockfd ≠ sockfd) }

/-- Closing a descriptor that is not open counts as a fault: it may be somebody else's. -/
def destroySocket (n : Net) (sockfd : SOCKET) : Option Net :=
  if sockfd ∈ n.openSocks then some (n.close sockfd) else none

/-- `pClient->destroy()`. -/
def destroy (n : Net) (p : Ptr) : Option Net := do
  let c ← n.heap.get? p
  if SOCKET_ERROR ≠ c.sockfd then
    (n.destroySocket c.sockfd).map fun n => n.setClient p c.destroy
  else some n

/-- `delete pClient`. -/
def delete (n : Net) (p : Ptr) : Option Net :=
  (n.destroy p).map fun n => { n with heap := n.heap.free p }

end Net

structure CellServer (π : Type) where
  id : ℤ
  clients : OrderedMap SOCKET Ptr
  clientsBuff : List Ptr
  clientsChange : Bool
  oldTime : ℤ
  /-- What the derived class adds. -/
  poller : π

namespace CellServer

variable {π : Type}

def new (id oldTime : ℤ) (poller : π) : CellServer π := ⟨id, .empty, [], true, oldTime, poller⟩

def getClientCount (s : CellServer π) : ℕ := s.clients.size + s.clientsBuff.length

def addClient (s : CellServer π) (p : Ptr) : CellServer π :=
  { s with clientsBuff := s.clientsBuff ++ [p] }

/-- `_clients[k] = p`. -/
def insertClient (s : CellServer π) (k : SOCKET) (p : Ptr) : CellServer π :=
  { s with clients := s.clients.insert k p }

/-- `_clients.erase(k)`. -/
def eraseClient (s : CellServer π) (k : SOCKET) : CellServer π :=
  { s with clients := s.clients.erase k }

end CellServer

/-- What the functions of a worker act on. -/
abbrev Worker (π : Type) := Net × CellServer π

namespace Worker

variable {π : Type}

def onClientLeave (w : Worker π) (p : Ptr) : Option (Worker π) :=
  ((w.1.onNetLeave p).delete p).map fun n => (n, { w.2 with clientsChange := true })

/-! ### `OnRun`: taking up the clients that wait -/

/-- `_clients[pClient->sockfd()] = pClient; pClient->serverId = _id; OnNetJoin(pClient);` -/
def enter (w : Worker π) (p : Ptr) : Option (Worker π) := do
  let c ← w.1.heap.get? p
  let n := w.1.setClient p { c with serverId := w.2.id }
  some (n.onNetJoin, w.2.insertClient c.sockfd p)

section Drain

variable (onClientJoin : Worker π → Ptr → Option (Worker π))

/-- The body of the loop over `_clientsBuff`. -/
def takeUp (w : Worker π) (p : Ptr) : Option (Worker π) :=
  (enter w p).bind fun w => onClientJoin w p

def drain (w : Worker π) : Option (Worker π) :=
  if w.2.clientsBuff = [] then some w
  else (w.2.clientsBuff.foldlM (takeUp onClientJoin) w).map fun w =>
    (w.1, { w.2 with clientsBuff := [], clientsChange := true })

end Drain

/-! ### `CheckTime` -/

/-- The body of the loop over `_clients`. It erases no entry but the one it is at. -/
def checkClient (useIocp : Bool) (dt : ℤ) (w : Worker π) (e : SOCKET × Ptr) :
    Option (Worker π) := do
  let c ← w.1.heap.get? e.2
  let r := c.checkHeart dt
  let w := (w.1.setClient e.2 r.1, w.2)
  if r.2 then
    let w ← if useIocp && r.1.isPostIoAction then (w.1.destroy e.2).map fun n => (n, w.2)
      else onClientLeave w e.2
    some (w.1, w.2.eraseClient e.1)
  else some w

/-- `useIocp` says whether the program is built with `CELL_USE_IOCP`. -/
def checkTime (useIocp : Bool) (nowTime : ℤ) (w : Worker π) : Option (Worker π) :=
  w.2.clients.entries.foldlM (checkClient useIocp (nowTime - w.2.oldTime))
    (w.1, { w.2 with oldTime := nowTime })

/-! ### The end of the loop -/

/-- `Clearclients`. -/
def clearclients (w : Worker π) : Option (Worker π) := do
  let n ← w.2.clients.entries.foldlM (fun n e => n.delete e.2) w.1
  let n ← w.2.clientsBuff.foldlM (fun n p => n.delete p) n
  some (n, { w.2 with clients := .empty, clientsBuff := [] })

/-! ### Socket calls on behalf of a client -/

/-- `CellServer::RecvData`. -/
def recvData (w : Worker π) (p : Ptr) (recv : Option (List UInt8)) :
    Option (Worker π × ℤ) := do
  let c ← w.1.heap.get? p
  let r := c.recvData recv
  let n := w.1.setClient p r.1
  if r.2 ≤ 0 then some ((n, w.2), SOCKET_ERROR) else some ((n.onNetRecv, w.2), r.2)

/-- `pClient->SendDataReal()`. -/
def sendDataReal (w : Worker π) (p : Ptr) (ret : ℤ) : Option (Worker π × ℤ) := do
  let c ← w.1.heap.get? p
  let r := c.sendDataReal ret
  some ((w.1.setClient p r.1, w.2), r.2)

/-- `if (SOCKET_ERROR == io) { rm; continue; }`; the answer says whether the client was
removed. -/
def orRemove (io : Worker π → Option (Worker π × ℤ)) (rm : Worker π → Option (Worker π))
    (w : Worker π) : Option (Worker π × Bool) := do
  let r ← io w
  if r.2 = SOCKET_ERROR then (rm r.1).map fun w => (w, true) else some (r.1, false)

/-- One round of the loop of `DoMsg`: a complete message of the client is dispatched and
removed. -/
def handleMsg {σ : Type} (onNetMsg : Handler σ) (w : Worker π) (ext : σ) (p : Ptr) :
    Option (Worker π × σ) := do
  let c ← w.1.heap.get? p
  if c.hasMsg then
    let r := msgBody onNetMsg (ext, c)
    some ((w.1.onNetMsg.setClient p r.2, w.2), r.1)
  else some (w, ext)

end Worker

end CellNet
