import CellNet.Library.Transition
import CellNet.Model.CellClient

/-! A sending and a receiving client joined by a first-in first-out byte channel. The
kernel may cut the stream anywhere: `send` and `recv` move as much as they like. -/

namespace CellNet

open Library

/-- The receiving end. `parsed` records that no byte was received since `DoMsg` ran. -/
structure Receiver (σ : Type*) where
  ext : σ
  client : CellClient
  channel : List UInt8
  delivered : List Msg
  parsed : Bool

inductive RecvEvent where
  /-- `RecvData`, for which the kernel hands over at most `k` bytes. -/
  | recv (k : ℕ)
  | doMsg

namespace Receiver

variable {σ : Type*}

/-- What `recv` returns: a prefix of the bytes in flight that fits the free space. -/
def chunk (r : Receiver σ) (k : ℕ) : List UInt8 :=
  r.channel.take (min k (r.client.recvBuff.nSize - r.client.recvBuff.nLast).toNat)

/-- `none` stands for a message loop that does not end. -/
def step (onNetMsg : Handler σ) (r : Receiver σ) : RecvEvent → Option (Receiver σ)
  | .recv k =>
      some { r with
        client := (r.client.recvData (some (r.chunk k))).1
        channel := r.channel.drop (r.chunk k).length
        parsed := false }
  | .doMsg =>
      (msgLoop onNetMsg (r.client.recvBuff.nLast.toNat + 1) (r.ext, r.client)).map fun y =>
        { r with
          ext := y.2.1
          client := y.2.2
          delivered := r.delivered ++ y.1
          parsed := true }

def run (onNetMsg : Handler σ) : List RecvEvent → Receiver σ → Option (Receiver σ)
  | [], r => some r
  | e :: es, r => (r.step onNetMsg e).bind (run onNetMsg es)

end Receiver

/-- Both ends, with the frames whose `SendData` returned success. -/
structure Link (σ : Type*) where
  sender : CellClient
  receiver : Receiver σ
  accepted : List (List UInt8)

inductive LinkEvent where
  | sendData (frame : List UInt8)
  /-- `SendDataReal`, for which `send` fails (`ret ≤ 0`) or takes at most `ret` bytes. -/
  | sendDataReal (ret : ℤ)
  | receive (e : RecvEvent)

namespace Link

variable {σ : Type*}

/-- What `send` returns when it is offered the whole send buffer. -/
def sent (s : Link σ) (ret : ℤ) : ℤ :=
  min ret s.sender.sendBuff.nLast

/-- `none` is undefined behaviour, or a message loop that does not end. -/
def next (onNetMsg : Handler σ) (s : Link σ) : LinkEvent → Option (Link σ)
  | .sendData frame =>
      (s.sender.sendHeader frame).map fun r =>
        { s with
          sender := r.1
          accepted := if r.2 = SOCKET_ERROR then s.accepted else s.accepted ++ [frame] }
  | .sendDataReal ret =>
      some { s with
        sender := (s.sender.sendDataReal (s.sent ret)).1
        receiver := { s.receiver with
          channel := s.receiver.channel ++
            s.sender.sendBuff.wire s.sender.sockfd (s.sent ret) } }
  | .receive e => (s.receiver.step onNetMsg e).map fun r => { s with receiver := r }

/-- A frame is as long as its header says, and fits the receive buffer of the peer. -/
def Legal (s : Link σ) : LinkEvent → Prop
  | .sendData frame => frame.length = dataLength frame ∧ 4 ≤ dataLength frame ∧
      (dataLength frame : ℤ) ≤ s.receiver.client.recvBuff.nSize
  | _ => True

end Link

end CellNet
