import CellNet.Model.Io
import CellNet.Model.OnRun

/-! The life of one client, told without the server it is a client of; and the loops of the workers
together with a transcript of every client: the bytes that arrived, the messages handed over, the
bytes its handler put into the send buffer and those that went out. -/

namespace CellNet

open Library

/-! ### What passes through a client -/

namespace CellClient

/-- The bytes that `recv` hands over. Without room it is not called. -/
def arrives (c : CellClient) : Option (Option (List UInt8)) → List UInt8
  | some (some bytes) => if c.recvBuff.nSize - c.recvBuff.nLast > 0 then bytes else []
  | _ => []

/-- The bytes that `send` takes, if the client is still there after `RecvData`. -/
def sends (c : CellClient) (io : Io) : List UInt8 :=
  ((c.recvOrLeave io.recv).bind fun c =>
    io.send.map fun ret => c.sendBuff.wire c.sockfd ret).getD []

end CellClient

/-- `recv` hands over no more than it was asked for, and `send` takes no more than it was
offered. -/
structure Io.Fits (io : Io) (c : CellClient) : Prop where
  recv : ((c.arrives io.recv).length : ℤ) ≤ c.recvBuff.nSize - c.recvBuff.nLast
  send : ∀ ret, io.send = some ret → ret ≤ c.sendBuff.nLast

structure Transcript where
  arrived : List UInt8
  dispatched : List Msg
  pushed : List UInt8
  wired : List UInt8
deriving Repr, DecidableEq

namespace Transcript

def blank : Transcript := ⟨[], [], [], []⟩

def poll (h : Transcript) (io : Io) (c : CellClient) : Transcript :=
  { h with
    arrived := h.arrived ++ c.arrives io.recv
    wired := h.wired ++ c.sends io }

/-- The front message of `c` is handled, which makes it `d`. -/
def handle (h : Transcript) (c d : CellClient) : Transcript :=
  { h with
    dispatched := h.dispatched ++ [frontMessage c]
    pushed := h.pushed ++
      (d.sendBuff.data.take d.sendBuff.dataLen.toNat).drop c.sendBuff.dataLen.toNat }

end Transcript

/-! ### One client -/

inductive Life where
  | unborn
  | alive (c : CellClient) (h : Transcript)
  | gone (h : Transcript)

inductive LifeEvent (σ : Type) where
  /-- It is accepted; the blocks are the memory of its buffers. -/
  | born (id : ℤ) (sockfd : SOCKET) (sendBlock recvBlock : List UInt8)
  /-- The worker `id` takes it up. -/
  | seat (id : ℤ)
  | checkHeart (dt : ℤ)
  | poll (io : Io)
  /-- Its front message is handed to the handler, whose object is in the state `ext`. -/
  | handle (ext : σ)

namespace Life

variable {σ : Type}

section System

variable (onNetMsg : Handler σ) (nSendBuffSize nRecvBuffSize : ℤ)

def next : Life → LifeEvent σ → Option Life
  | .unborn, .born id sockfd sendBlock recvBlock =>
      some (.alive (.new id sockfd (.new nSendBuffSize sendBlock) (.new nRecvBuffSize recvBlock))
        .blank)
  | .alive c h, .seat id => some (.alive { c with serverId := id } h)
  | .alive c h, .checkHeart dt =>
      some (if (c.checkHeart dt).2 then .gone h else .alive (c.checkHeart dt).1 h)
  | .alive c h, .poll io =>
      some ((io.serve c).elim (.gone (h.poll io c)) fun d => .alive d (h.poll io c))
  | .alive c h, .handle ext =>
      if c.hasMsg then
        some (.alive (msgBody onNetMsg (ext, c)).2 (h.handle c (msgBody onNetMsg (ext, c)).2))
      else none
  | _, _ => none

/-- The blocks have the sizes asked for, and the kernel keeps to what it is given. -/
def Legal : Life → LifeEvent σ → Prop
  | _, .born _ _ sendBlock recvBlock =>
      sendBlock.length = nSendBuffSize ∧ recvBlock.length = nRecvBuffSize
  | .alive c _, .poll io => io.Fits c
  | _, _ => True

def system : System Life (LifeEvent σ) where
  init l := l = .unborn
  step l e l' := Legal nSendBuffSize nRecvBuffSize l e ∧
    next onNetMsg nSendBuffSize nRecvBuffSize l e = some l'

end System

end Life

/-! ### All clients of a server -/

/-- The client whose front message the next round of `DoMsg` handles. -/
def ServerLoops.handling {π σ : Type} (s : ServerLoops π σ) (i : ℕ) :
    Option (Ptr × CellClient) :=
  match s.pcs[i]? with
  | some (.doMsg (k :: _)) => do
      let c ← s.server.cellServers[i]?
      let p ← c.clients.find? k
      let pClient ← s.server.net.heap.get? p
      if pClient.hasMsg then some (p, pClient) else none
  | _ => none

structure ServedStreams (π σ : Type) where
  loops : ServerLoops π σ
  transcripts : Ptr → Transcript

namespace ServedStreams

variable {π σ : Type}

/-- The server, seen from one client. -/
def life (s : ServedStreams π σ) (p : Ptr) : Life :=
  match s.loops.server.net.heap.get? p with
  | some c => .alive c (s.transcripts p)
  | none => if p < s.loops.server.net.heap.next then .gone (s.transcripts p) else .unborn

section System

variable (t : ServerT) (onNetMsg : Handler σ)

/-- What a step adds to the transcripts. -/
def record (s : ServedStreams t.Poller σ) : LoopEvent t.Answer → Ptr → Transcript
  | .doNetEvent i a => fun p =>
      match s.loops.server.cellServers[i]?, s.loops.server.net.heap.get? p with
      | some c, some client =>
          (s.transcripts p).poll (t.io (s.loops.server.net, c) a p) client
      | _, _ => s.transcripts p
  | .doMsg i => fun p =>
      match s.loops.handling i with
      | some (q, client) =>
          if p = q then
            (s.transcripts p).handle client (msgBody onNetMsg (s.loops.server.ext, client)).2
          else s.transcripts p
      | none => s.transcripts p
  | _ => s.transcripts

/-- The kernel keeps to what it is given. -/
def Fits (s : ServedStreams t.Poller σ) : LoopEvent t.Answer → Prop
  | .doNetEvent i a => ∀ c p client, s.loops.server.cellServers[i]? = some c →
      s.loops.server.net.heap.get? p = some client →
        (t.io (s.loops.server.net, c) a p).Fits client
  | _ => True

/-- A server whose buffers have sizes that are `int`s. -/
def system (nSendBuffSize nRecvBuffSize : ℤ) :
    System (ServedStreams t.Poller σ) (LoopEvent t.Answer) where
  init s := (ServerLoops.system t onNetMsg).init s.loops ∧
    s.loops.server.nSendBuffSize = nSendBuffSize ∧
    s.loops.server.nRecvBuffSize = nRecvBuffSize ∧ ∀ p, s.transcripts p = .blank
  step s e s' := (ServerLoops.system t onNetMsg).step s.loops e s'.loops ∧ Fits t s e ∧
    s'.transcripts = record t onNetMsg s e

end System

end ServedStreams

end CellNet
