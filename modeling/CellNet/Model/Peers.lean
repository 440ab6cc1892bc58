import CellNet.Library.Calls
import CellNet.Model.OnRun

/-! The loops of the workers together with the peers of their clients: the calls of `RecvData`
in a poll, and the bytes that the peers have still to deliver. -/

namespace CellNet

open Library

/-- The receive buffer of a client that lives. -/
def Net.recvBuff? (n : Net) (p : Ptr) : Option CellBuffer :=
  (n.heap.get? p).map CellClient.recvBuff

/-! ### The calls of `RecvData` -/

namespace CellEpollServer

/-- The call of one event, with what `recv` answers. -/
def recvCall (_ : Worker Unit) (e : EpollEvent) : Option (Ptr × Option (List UInt8)) :=
  if e.epollin then some (e.ptr, e.recv) else none

/-- The poll calls `RecvData` for the client `p` when the worker has become `w₁`. -/
def Receives (w : Worker Unit) (a : EpollAnswer) (w₁ : Worker Unit) (p : Ptr)
    (recv : Option (List UInt8)) : Prop :=
  ∃ n evs, modClients w.1 w.2 = some n ∧ a = .events evs ∧
    Calls onEvent recvCall evs (n, w.2) w₁ p recv

end CellEpollServer

namespace CellSelectServer

/-- The call for one descriptor of the array. -/
def lookUpCall (a : SelectAnswer) (w : Worker SelectSets) (fd : SOCKET) :
    Option (Ptr × Option (List UInt8)) :=
  (w.2.clients.find? fd).map fun p => (p, a.recv fd)

/-- The body of the loop over `_clients`. -/
def entryBody (a : SelectAnswer) (fdRead : CellFDSet) (w : Worker SelectSets)
    (e : SOCKET × Ptr) : Option (Worker SelectSets) :=
  if CellFDSet.has fdRead e.1 then readEntry a w e else some w

/-- The call for one entry of `_clients`. -/
def entryCall (a : SelectAnswer) (fdRead : CellFDSet) (_ : Worker SelectSets)
    (e : SOCKET × Ptr) : Option (Ptr × Option (List UInt8)) :=
  if CellFDSet.has fdRead e.1 then some (e.2, a.recv e.1) else none

/-- The calls of `ReadData`. -/
def ReadCalls (platform : Platform) (a : SelectAnswer) (w w₁ : Worker SelectSets) (p : Ptr)
    (recv : Option (List UInt8)) : Prop :=
  match platform with
  | .windows => Calls (lookUp (readEntry a)) (lookUpCall a) w.2.poller.fdRead w w₁ p recv
  | .linux => Calls (entryBody a w.2.poller.fdRead) (entryCall a w.2.poller.fdRead)
      w.2.clients.entries w w₁ p recv

/-- The poll calls `RecvData` for the client `p` when the worker has become `w₁`. -/
def Receives (platform : Platform) (w : Worker SelectSets) (a : SelectAnswer)
    (w₁ : Worker SelectSets) (p : Ptr) (recv : Option (List UInt8)) : Prop :=
  ∃ s x read write, prepareRead w.1 w.2 = some s ∧ writeSet w.1 s = some x ∧
    a.result = .ready read write ∧
    ReadCalls platform a (w.1, { s with
      poller.fdRead := read
      poller.fdWrite := if x.2 then write else x.1 }) w₁ p recv

end CellSelectServer

def ServerT.Receives : (t : ServerT) → Worker t.Poller → t.Answer → Worker t.Poller → Ptr →
    Option (List UInt8) → Prop
  | .epoll => CellEpollServer.Receives
  | .select platform => CellSelectServer.Receives platform

/-! ### The peers -/

/-- A message that a buffer of `nSize` bytes can hold. -/
structure IsFrame (nSize : ℤ) (f : List UInt8) : Prop where
  dataLength : dataLength f = f.length
  header : sizeofDataHeader ≤ f.length
  fits : f.length ≤ nSize

/-- Nothing but such messages, one behind the other. -/
def IsStream (nSize : ℤ) (bytes : List UInt8) : Prop :=
  ∃ fs : List (List UInt8), (∀ f ∈ fs, IsFrame nSize f) ∧ bytes = fs.flatten

/-- A server and, of all that the peer of each client sends, the bytes it has not read yet. -/
structure ServedPeers (π σ : Type) where
  loops : ServerLoops π σ
  unread : Ptr → List UInt8

namespace ServedPeers

variable {σ : Type}

/-- Each call of `recv` takes the next bytes of its peer, as many as it asks for at most. -/
def Feeds (t : ServerT) (w : Worker t.Poller) (a : t.Answer) (unread unread' : Ptr → List UInt8) :
    Prop :=
  ∀ p, ((∀ w₁ recv, ¬ t.Receives w a w₁ p recv) → unread' p = unread p) ∧
    ∀ w₁ recv, t.Receives w a w₁ p recv → unread p = recv.getD [] ++ unread' p ∧
      ∀ b, w₁.1.recvBuff? p = some b → ((recv.getD []).length : ℤ) ≤ b.nSize - b.nLast

section System

variable (t : ServerT) (onNetMsg : Handler σ)

/-- What a step leaves unread. -/
def Reads (s : ServedPeers t.Poller σ) : LoopEvent t.Answer → (Ptr → List UInt8) → Prop
  | .doNetEvent i a, unread => ∀ c, s.loops.server.cellServers[i]? = some c →
      Feeds t (s.loops.server.net, c) a s.unread unread
  | _, unread => unread = s.unread

/-- The buffers have room for a header, their size is an `int`, and every peer sends only
messages that they can hold. -/
def system : System (ServedPeers t.Poller σ) (LoopEvent t.Answer) where
  init s := (ServerLoops.system t onNetMsg).init s.loops ∧
    4 ≤ s.loops.server.nRecvBuffSize ∧ s.loops.server.nRecvBuffSize ≤ 2147483647 ∧
    ∀ p, IsStream s.loops.server.nRecvBuffSize (s.unread p)
  step s e s' := (ServerLoops.system t onNetMsg).step s.loops e s'.loops ∧
    Reads t s e s'.unread

end System

end ServedPeers

end CellNet
