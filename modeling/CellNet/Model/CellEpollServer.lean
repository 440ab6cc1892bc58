import CellNet.Model.CellServer

/-! The worker that waits for its sockets with epoll. The epoll instance is known by the
id of the worker that owns it. -/

namespace CellNet

open Library

/-- A reported event, with what `recv` and `send` will answer on its socket. -/
structure EpollEvent where
  ptr : Ptr
  epollin : Bool
  epollout : Bool
  recv : Option (List UInt8)
  ret : ℤ

/-- What `epoll_wait` answers: it fails, or fills in the events. -/
inductive EpollAnswer where
  | error
  | events (evs : List EpollEvent)

namespace CellEpollServer

/-- `_ep.ctl(EPOLL_CTL_ADD, pClient, EPOLLIN)`. -/
def ctlAdd (n : Net) (epfd : ℤ) (p : Ptr) : Option Net := do
  let c ← n.heap.get? p
  some { n with registered := ⟨epfd, c.sockfd, p, false⟩ :: n.registered }

/-- `_ep.ctl(EPOLL_CTL_MOD, pClient, ..)`. -/
def ctlMod (n : Net) (epfd : ℤ) (p : Ptr) : Option Net := do
  let c ← n.heap.get? p
  some { n with registered := n.registered.map fun g =>
    if g.epfd = epfd ∧ g.sockfd = c.sockfd then ⟨epfd, c.sockfd, p, c.needWrite⟩ else g }

def onClientJoin (w : Worker Unit) (p : Ptr) : Option (Worker Unit) :=
  (ctlAdd w.1 w.2.id p).map fun n => (n, w.2)

/-- The first loop of `DoNetEvent`. -/
def modClients (n : Net) (s : CellServer Unit) : Option Net :=
  s.clients.entries.foldlM (fun n e => ctlMod n s.id e.2) n

def rmClient (p : Ptr) (w : Worker Unit) : Option (Worker Unit) := do
  let c ← w.1.heap.get? p
  let s := if (w.2.clients.find? c.sockfd).isSome then w.2.eraseClient c.sockfd else w.2
  Worker.onClientLeave (w.1, s) p

/-- What an event makes of `EPOLLIN`; the answer says whether the client was removed. -/
def readEvent (w : Worker Unit) (e : EpollEvent) : Option (Worker Unit × Bool) :=
  if e.epollin then w.orRemove (fun w => w.recvData e.ptr e.recv) (rmClient e.ptr)
  else some (w, false)

def writeEvent (w : Worker Unit) (e : EpollEvent) : Option (Worker Unit × Bool) :=
  if e.epollout then w.orRemove (fun w => w.sendDataReal e.ptr e.ret) (rmClient e.ptr)
  else some (w, false)

/-- The body of the loop over the events. -/
def onEvent (w : Worker Unit) (e : EpollEvent) : Option (Worker Unit) := do
  let r ← readEvent w e
  if r.2 then some r.1 else (writeEvent r.1 e).map Prod.fst

def doNetEvent (w : Worker Unit) (a : EpollAnswer) : Option (Worker Unit × Bool) := do
  let n ← modClients w.1 w.2
  match a with
  | .error => some ((n, w.2), false)
  | .events evs => (evs.foldlM onEvent (n, w.2)).map fun w => (w, true)

/-- The kernel reports sockets that are registered with this instance, each at most once. -/
def Reports (w : Worker Unit) (a : EpollAnswer) : Prop :=
  ∀ n evs, modClients w.1 w.2 = some n → a = .events evs →
    (evs.map EpollEvent.ptr).Nodup ∧
      ∀ e ∈ evs, ∃ g ∈ n.registered, g.epfd = w.2.id ∧ g.ptr = e.ptr ∧ (e.epollout → g.out)

end CellEpollServer

end CellNet
