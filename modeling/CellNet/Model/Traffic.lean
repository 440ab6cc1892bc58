import CellNet.Model.CellIOCPServer

/-! The bytes that pass through a completion-port worker, recorded beside its run: what the
receives of each client have brought in, what `DoMsg` has taken out, what the handlers have pushed
and what the sends have carried away. -/

namespace CellNet

open Library

/-- Pushes frame after frame, and collects the bytes of those that are accepted. -/
def CellBuffer.pushAll (b : CellBuffer) : List (List UInt8) → Option (CellBuffer × List UInt8)
  | [] => some (b, [])
  | frame :: frames => do
      let r ← b.push frame frame.length
      let rs ← r.1.pushAll frames
      some (rs.1, (if r.2 then frame else []) ++ rs.2)

/-- The frames that a handler passes to `SendData`. -/
abbrev Answers (σ : Type*) := σ → CellClient → List UInt8 → List (List UInt8)

/-- All that the handler does to the client is to push its answers. The length of each is an
`int`. -/
structure Handler.Pushes {σ : Type*} (onNetMsg : Handler σ) (answers : Answers σ) : Prop where
  keepsIo : onNetMsg.KeepsIo
  keepsRecv : onNetMsg.KeepsRecv
  sendBuff : ∀ s c header r, c.sendBuff.pushAll (answers s c header) = some r →
    (onNetMsg s c header).2.sendBuff = r.1
  int32 : ∀ s c header, ∀ frame ∈ answers s c header, (frame.length : ℤ) ≤ 2147483647

/-- The bytes of one client. -/
structure Streams where
  /-- What the receives have returned, in the order of their completions. -/
  arrived : List UInt8
  /-- The messages that were handed to `OnNetMsg` and removed. -/
  popped : List UInt8
  /-- The frames that `push` has accepted. -/
  pushed : List UInt8
  /-- What the sends have taken. -/
  sent : List UInt8
  /-- The memory that the last send was posted with, as it was then. -/
  window : List UInt8
deriving Repr, DecidableEq

namespace Streams

def empty : Streams := ⟨[], [], [], [], []⟩

def complete (st : Streams) (iotype : IoType) (bytes : List UInt8) : Streams :=
  match iotype with
  | .recv => { st with arrived := st.arrived ++ bytes }
  | .send => { st with sent := st.sent ++ bytes }

def post (st : Streams) (c : CellClient) (iotype : IoType) : Streams :=
  match iotype, (c.makeIoData iotype).2 with
  | .send, some io => { st with window := slice c.sendBuff.pBuff io.buf.toNat io.len.toNat }
  | _, _ => st

def msg (st : Streams) (message accepted : List UInt8) : Streams :=
  { st with popped := st.popped ++ message, pushed := st.pushed ++ accepted }

end Streams

/-- A worker with the streams of its clients. -/
structure Traffic (σ : Type) where
  server : IocpServer σ
  streams : Ptr → Streams

namespace Traffic

variable {σ : Type}

/-- What an event adds to the streams; `none` is a push with undefined behaviour. -/
def record (answers : Answers σ) (t : Traffic σ) : IocpEvent → Option (Ptr → Streams)
  | .accept _ _ _ => some (Function.update t.streams t.server.net.heap.next .empty)
  | .post _ =>
      match t.server.pc with
      | .posting iotype (e :: _) => do
          let c ← t.server.net.heap.get? e.2
          some (Function.update t.streams e.2 ((t.streams e.2).post c iotype))
      | _ => some t.streams
  | .complete op bytes =>
      some (Function.update t.streams op.ptr ((t.streams op.ptr).complete op.iotype bytes))
  | .doMsg =>
      match t.server.pc with
      | .msgs (e :: _) => do
          let c ← t.server.net.heap.get? e.2
          if c.hasMsg then
            let r ← c.sendBuff.pushAll (answers t.server.ext c c.frontMsg)
            some (Function.update t.streams e.2 ((t.streams e.2).msg (frontMessage c).2 r.2))
          else some t.streams
      | _ => some t.streams
  | _ => some t.streams

def next (onNetMsg : Handler σ) (answers : Answers σ) (t : Traffic σ) (e : IocpEvent) :
    Option (Traffic σ) := do
  let server ← t.server.next onNetMsg e
  let streams ← t.record answers e
  some ⟨server, streams⟩

/-- The two buffers of a new client are as large as announced, and the bytes that a send has
moved are the first ones of the memory that it was posted with. -/
def Legal (t : Traffic σ) (e : IocpEvent) : Prop :=
  t.server.Returns e ∧ match e with
    | .accept _ sendBlock recvBlock => (sendBlock.length : ℤ) = t.server.nSendBuffSize ∧
        (recvBlock.length : ℤ) = t.server.nRecvBuffSize
    | .complete op bytes => op.iotype = .send → bytes <+: (t.streams op.ptr).window
    | _ => True

/-- The sizes of the buffers are `int`s. -/
def system (onNetMsg : Handler σ) (answers : Answers σ) : System (Traffic σ) IocpEvent where
  init t := ∃ nSend nRecv nMax id oldTime ext, nSend ≤ 2147483647 ∧ nRecv ≤ 2147483647 ∧
    t = ⟨.start nSend nRecv nMax id oldTime ext, fun _ => .empty⟩
  step t e t' := t.Legal e ∧ t.next onNetMsg answers e = some t'

end Traffic

end CellNet
