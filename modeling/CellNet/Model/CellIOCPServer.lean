import CellNet.Library.Transition
import CellNet.Model.CellServer

/-! The worker that posts its receives and sends to a completion port, and the loop of
`OnRun` around it. The kernel finishes the outstanding operations in any order. -/

namespace CellNet

open Library

/-- `IO_TYPE`, as far as this worker posts it. -/
inductive IoType where
  | recv
  | send
deriving Repr, DecidableEq

/-- An outstanding operation: the pointer registered for its socket, which comes back with
the completion, and what was captured when it was posted. -/
structure Overlapped where
  ptr : Ptr
  iotype : IoType
  io : IoData
deriving Repr, DecidableEq

/-- The completion port: the pointer registered for each socket, the latest first, and
the outstanding operations. -/
structure CellIOCP where
  keys : List (SOCKET × Ptr)
  pending : List Overlapped
deriving Repr, DecidableEq

namespace CellIOCP

def key? (q : CellIOCP) (sockfd : SOCKET) : Option Ptr :=
  (q.keys.find? fun e => decide (e.1 = sockfd)).map Prod.snd

/-- `reg`. -/
def reg (q : CellIOCP) (sockfd : SOCKET) (p : Ptr) : CellIOCP :=
  { q with keys := (sockfd, p) :: q.keys }

/-- A successful `postRecv` or `postSend`. A socket that is not registered would not
report to this port. -/
def post (q : CellIOCP) (iotype : IoType) (io : IoData) : CellIOCP :=
  match q.key? io.sockfd with
  | none => q
  | some p => { q with pending := ⟨p, iotype, io⟩ :: q.pending }

def finish (q : CellIOCP) (op : Overlapped) : CellIOCP :=
  { q with pending := q.pending.erase op }

end CellIOCP

namespace CellClient

/-- The flag for an operation of this type. -/
def isPost (c : CellClient) : IoType → Bool
  | .recv => c.isPostRecv
  | .send => c.isPostSend

/-- What the loop of `DoNetEvent` makes of a client for one type of operation: a send only
if there is something to write, a receive always. -/
def makeIoData (c : CellClient) : IoType → CellClient × Option IoData
  | .recv => c.makeRecvIoData
  | .send => if c.needWrite then c.makeSendIoData else (c, none)

/-- `recv4Iocp` or `send2Iocp`. The bytes of a receive were written by the kernel, at the
offset captured when it was posted. -/
def complete (c : CellClient) (op : Overlapped) (bytes : List UInt8) : CellClient :=
  match op.iotype with
  | .recv =>
      { c with recvBuff.pBuff := blit c.recvBuff.pBuff op.io.buf.toNat bytes }.recv4Iocp
        bytes.length
  | .send => c.send2Iocp bytes.length

end CellClient

/-- Where the worker is in the loop of `OnRun`. -/
inductive IocpPc where
  /-- In front of `while (pThread->isRun())`. -/
  | top
  /-- In front of `CheckTime`. -/
  | check
  /-- In the first loop of `DoNetEvent`, at the operation of this type for the first of
  these entries. -/
  | posting (iotype : IoType) (rest : List (SOCKET × Ptr))
  /-- In front of `DoIOCPNetEvent`. -/
  | polling
  /-- In `DoMsg`, at the first of these entries. -/
  | msgs (rest : List (SOCKET × Ptr))
  /-- The loop has ended. -/
  | exited
deriving Repr, DecidableEq

/-- The posting loop goes on with the next entry. -/
def IocpPc.nextPost : List (SOCKET × Ptr) → IocpPc
  | [] => .polling
  | rest => .posting .send rest

/-- The posting loop goes on within an entry: its send is looked at before its receive. -/
def IocpPc.afterPost (iotype : IoType) (e : SOCKET × Ptr) (rest : List (SOCKET × Ptr)) :
    IocpPc :=
  match iotype with
  | .send => .posting .recv (e :: rest)
  | .recv => .nextPost rest

namespace CellIOCPServer

def onClientJoin (posted : SOCKET → Bool) (w : Worker CellIOCP) (p : Ptr) :
    Option (Worker CellIOCP) := do
  let c ← w.1.heap.get? p
  let q := w.2.poller.reg c.sockfd p
  let r := c.makeRecvIoData
  let q := match r.2 with
    | some io => if posted c.sockfd then q.post .recv io else q
    | none => q
  some (w.1.setClient p r.1, { w.2 with poller := q })

def rmClient (w : Worker CellIOCP) (p : Ptr) : Option (Worker CellIOCP) := do
  let c ← w.1.heap.get? p
  let s := if (w.2.clients.find? c.sockfd).isSome then w.2.eraseClient c.sockfd else w.2
  Worker.onClientLeave (w.1, s) p

/-- One operation of the posting loop. The answer says whether the client is still there;
`posted` is what `postSend` or `postRecv` returns. -/
def postEntry (w : Worker CellIOCP) (iotype : IoType) (e : SOCKET × Ptr) (posted : Bool) :
    Option (Worker CellIOCP × Bool) := do
  let c ← w.1.heap.get? e.2
  let r := c.makeIoData iotype
  let w := (w.1.setClient e.2 r.1, w.2)
  match r.2 with
  | none => some (w, true)
  | some io =>
      if posted then
        some ((w.1, { w.2 with poller := w.2.poller.post iotype io }), true)
      else
        (Worker.onClientLeave w e.2).map fun w => ((w.1, w.2.eraseClient e.1), false)

/-- `DoIOCPNetEvent` when the port returns `op` with these bytes. The type of the operation
is read from the buffer of the client. -/
def completion (w : Worker CellIOCP) (op : Overlapped) (bytes : List UInt8) :
    Option (Worker CellIOCP) := do
  let c ← w.1.heap.get? op.ptr
  let w := (w.1, { w.2 with poller := w.2.poller.finish op })
  if bytes.length = 0 then rmClient w op.ptr
  else
    let n := w.1.setClient op.ptr (c.complete op bytes)
    some (if op.iotype = .recv then n.onNetRecv else n, w.2)

end CellIOCPServer

/-- A worker with the accepting thread that feeds it. -/
structure IocpServer (σ : Type) where
  net : Net
  server : CellServer CellIOCP
  pc : IocpPc
  nSendBuffSize : ℤ
  nRecvBuffSize : ℤ
  nMaxClient : ℤ
  ext : σ

inductive IocpEvent where
  /-- `IOCPAccept`, with the memory of the two buffers of the new client. -/
  | accept (cSock : SOCKET) (sendBlock recvBlock : List UInt8)
  /-- A round of the loop begins; `posted` is what `postRecv` returns for the new clients. -/
  | loop (nowTime : ℤ) (posted : SOCKET → Bool)
  /-- `isRun` turns out false. -/
  | stop
  | checkTime (nowTime : ℤ)
  /-- The next operation of the posting loop. -/
  | post (posted : Bool)
  /-- The port returns an operation, with the bytes it moved. -/
  | complete (op : Overlapped) (bytes : List UInt8)
  /-- The port has nothing to return. -/
  | idle
  /-- The port fails. -/
  | error
  /-- `DoMsg` handles a message, or goes on to the next client. -/
  | doMsg

namespace IocpServer

variable {σ : Type}

def worker (s : IocpServer σ) : Worker CellIOCP := (s.net, s.server)

def withWorker (s : IocpServer σ) (w : Worker CellIOCP) (pc : IocpPc) : IocpServer σ :=
  { s with net := w.1, server := w.2, pc := pc }

def newClient (s : IocpServer σ) (cSock : SOCKET) (sendBlock recvBlock : List UInt8) :
    CellClient :=
  .new (s.net.heap.next + 1) cSock (.new s.nSendBuffSize sendBlock)
    (.new s.nRecvBuffSize recvBlock)

def iocpAccept (s : IocpServer σ) (cSock : SOCKET) (sendBlock recvBlock : List UInt8) :
    Option (IocpServer σ) :=
  if INVALID_SOCKET = cSock then some s
  else
    let n := s.net.accept cSock
    if n.clientAccept < s.nMaxClient then
      some { s with
        net := n.newClient (s.newClient cSock sendBlock recvBlock)
        server := s.server.addClient n.heap.next }
    else (n.destroySocket cSock).map fun n => { s with net := n }

/-- The clients that wait are taken up; without a client the round ends there. -/
def loop (s : IocpServer σ) (nowTime : ℤ) (posted : SOCKET → Bool) : Option (IocpServer σ) :=
  (Worker.drain (CellIOCPServer.onClientJoin posted) s.worker).map fun w =>
    if w.2.clients.entries = [] then
      s.withWorker (w.1, { w.2 with oldTime := nowTime }) .top
    else s.withWorker w .check

def checkTime (s : IocpServer σ) (nowTime : ℤ) : Option (IocpServer σ) :=
  (Worker.checkTime true nowTime s.worker).map fun w =>
    s.withWorker w (.nextPost w.2.clients.entries)

def post (s : IocpServer σ) (posted : Bool) : Option (IocpServer σ) :=
  match s.pc with
  | .posting iotype (e :: rest) =>
      (CellIOCPServer.postEntry s.worker iotype e posted).map fun r =>
        s.withWorker r.1 (if r.2 then .afterPost iotype e rest else .nextPost rest)
  | _ => some s

def complete (s : IocpServer σ) (op : Overlapped) (bytes : List UInt8) :
    Option (IocpServer σ) :=
  (CellIOCPServer.completion s.worker op bytes).map fun w => s.withWorker w .polling

def doMsg (onNetMsg : Handler σ) (s : IocpServer σ) : Option (IocpServer σ) :=
  match s.pc with
  | .msgs [] => some { s with pc := .top }
  | .msgs (e :: rest) => do
      let c ← s.net.heap.get? e.2
      if c.hasMsg then
        (Worker.handleMsg onNetMsg s.worker s.ext e.2).map fun r =>
          { s.withWorker r.1 (.msgs (e :: rest)) with ext := r.2 }
      else some { s with pc := .msgs rest }
  | _ => some s

/-- `none` is a fault: a completion or a call for a client that is deleted. -/
def next (onNetMsg : Handler σ) (s : IocpServer σ) : IocpEvent → Option (IocpServer σ)
  | .accept cSock sendBlock recvBlock => s.iocpAccept cSock sendBlock recvBlock
  | .loop nowTime posted => s.loop nowTime posted
  | .stop => some { s with pc := .exited }
  | .checkTime nowTime => s.checkTime nowTime
  | .post posted => s.post posted
  | .complete op bytes => s.complete op bytes
  | .idle => some { s with pc := .msgs s.server.clients.entries }
  | .error => some { s with pc := .exited }
  | .doMsg => s.doMsg onNetMsg

/-- Where each step is taken, and what the kernel promises: an accepted socket is not one
of the open ones; the port returns outstanding operations, each with no more bytes than
asked for, and with none if the socket was closed. -/
def Legal (s : IocpServer σ) : IocpEvent → Prop
  | .accept cSock _ _ => cSock ∉ s.net.openSocks
  | .loop _ _ => s.pc = .top
  | .stop => s.pc = .top
  | .checkTime _ => s.pc = .check
  | .post _ => ∃ iotype e rest, s.pc = .posting iotype (e :: rest)
  | .complete op bytes => s.pc = .polling ∧ op ∈ s.server.poller.pending ∧
      (bytes.length : ℤ) ≤ op.io.len ∧
      (s.net.sockfd? op.ptr ≠ some op.io.sockfd → bytes = [])
  | .idle => s.pc = .polling
  | .error => s.pc = .polling
  | .doMsg => ∃ rest, s.pc = .msgs rest

/-- As `Legal`, but an operation may also return the bytes that it moved before its socket was
closed. -/
def Returns (s : IocpServer σ) : IocpEvent → Prop
  | .complete op bytes => s.pc = .polling ∧ op ∈ s.server.poller.pending ∧
      (bytes.length : ℤ) ≤ op.io.len
  | e => Legal s e

def start (nSendBuffSize nRecvBuffSize nMaxClient id oldTime : ℤ) (ext : σ) :
    IocpServer σ where
  net := .new
  server := .new id oldTime ⟨[], []⟩
  pc := .top
  nSendBuffSize := nSendBuffSize
  nRecvBuffSize := nRecvBuffSize
  nMaxClient := nMaxClient
  ext := ext

def system (onNetMsg : Handler σ) : System (IocpServer σ) IocpEvent where
  init s := ∃ nSend nRecv nMax id oldTime ext, s = start nSend nRecv nMax id oldTime ext
  step s e s' := Legal s e ∧ next onNetMsg s e = some s'

def returning (onNetMsg : Handler σ) : System (IocpServer σ) IocpEvent where
  init := (system onNetMsg).init
  step s e s' := Returns s e ∧ next onNetMsg s e = some s'

end IocpServer

end CellNet
