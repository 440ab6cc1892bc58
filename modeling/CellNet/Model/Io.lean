import CellNet.Model.EasyTcpServer

/-! What one poll does for one client of its worker, told without the other clients and without
the way in which the kernel reports them: the socket calls made for it, with their answers. -/

namespace CellNet

open Library

/-- The answer of `recv`, if `RecvData` is called, and that of `send`, if `SendDataReal` is called
afterwards. -/
structure Io where
  recv : Option (Option (List UInt8))
  send : Option ℤ
deriving Repr, DecidableEq

def Io.idle : Io := ⟨none, none⟩

namespace CellClient

/-- `none`: the client is removed, because `RecvData` of its worker returned `SOCKET_ERROR`. -/
def recvOrLeave (c : CellClient) : Option (Option (List UInt8)) → Option CellClient
  | none => some c
  | some recv => if (c.recvData recv).2 ≤ 0 then none else some (c.recvData recv).1

/-- `none`: the client is removed, because `SendDataReal` returned `SOCKET_ERROR`. -/
def sendOrLeave (c : CellClient) : Option ℤ → Option CellClient
  | none => some c
  | some ret =>
      if (c.sendDataReal ret).2 = SOCKET_ERROR then none else some (c.sendDataReal ret).1

end CellClient

namespace Io

/-- What becomes of the client. One that was removed is not written to. -/
def serve (io : Io) (c : CellClient) : Option CellClient :=
  (c.recvOrLeave io.recv).bind fun c => c.sendOrLeave io.send

/-- `OnNetRecv` is called for the client. -/
def received (io : Io) (c : CellClient) : Bool :=
  io.recv.any fun recv => decide (0 < (c.recvData recv).2)

end Io

/-! ### The calls that an answer of the kernel leads to -/

/-- The calls of the loop over the events. -/
def EpollEvent.io (e : EpollEvent) : Io where
  recv := if e.epollin then some e.recv else none
  send := if e.epollout then some e.ret else none

def CellEpollServer.io (a : EpollAnswer) (p : Ptr) : Io :=
  match a with
  | .error => .idle
  | .events evs => ((evs.find? fun e => decide (e.ptr = p)).map EpollEvent.io).getD .idle

/-- The calls of `ReadData` and `WriteData` for the client under the key `fd`. -/
def SelectAnswer.io (a : SelectAnswer) (read write : CellFDSet) (fd : SOCKET) : Io where
  recv := if fd ∈ read then some (a.recv fd) else none
  send := if fd ∈ write then some (a.ret fd) else none

/-- The calls `io` that are made for a socket, seen from the client that has it in the table. -/
def CellSelectServer.seatIo (clients : OrderedMap SOCKET Ptr) (io : SOCKET → Io) (p : Ptr) : Io :=
  ((clients.entries.find? fun e => decide (e.2 = p)).map fun e => io e.1).getD .idle

def CellSelectServer.io (clients : OrderedMap SOCKET Ptr) (a : SelectAnswer) : Ptr → Io :=
  match a.result with
  | .error _ => fun _ => .idle
  | .ready read write => seatIo clients (a.io read write)

def ServerT.io : (t : ServerT) → Worker t.Poller → t.Answer → Ptr → Io
  | .epoll => fun _ a => CellEpollServer.io a
  | .select _ => fun w a => CellSelectServer.io w.2.clients a

end CellNet
