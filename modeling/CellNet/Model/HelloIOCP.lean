import CellNet.Library.Transition
import CellNet.Model.CellBuffer

/-! The echo server on a completion port. Each of its blocks accepts a client, and then receives and
sends back in turn; the kernel finishes the outstanding operations in any order. A result `none` is
the call of a function that was not loaded, or the closing of a socket that is not open. -/

namespace CellNet.HelloIOCP

open Library

/-- `IO_TYPE`. -/
inductive IoType where
  | accpet
  | recv
  | send
deriving Repr, DecidableEq

def IO_DATA_BUFF_SIZE : ℕ := 1024

/-- `IO_DATA_BASE`. In zeroed memory the type is none of the enumeration. -/
structure IoDataBase where
  sockfd : SOCKET
  buffer : List UInt8
  length : ℤ
  iotype : Option IoType
deriving Repr, DecidableEq

/-- An outstanding operation: the index of its block in `ioData`, and what was captured when it was
posted. -/
structure Overlapped where
  slot : ℕ
  iotype : IoType
  sockfd : SOCKET
  len : ℤ
deriving Repr, DecidableEq

/-- The variables of `main` with those of its `CellIOCP`, the open sockets and the outstanding
operations. `posted` counts the rounds of the first loop. -/
structure HelloServer where
  acceptEx : Bool
  sockServer : SOCKET
  ioData : List IoDataBase
  posted : ℕ
  running : Bool
  sockets : List SOCKET
  pending : List Overlapped
deriving Repr, DecidableEq

/-- What the calls of `postAccept` return: the socket, and whether `AcceptEx` has taken it. -/
structure AcceptAnswer where
  sockfd : SOCKET
  posted : Bool
deriving Repr, DecidableEq

/-- What the calls behind a completion return: `reg`, the `WSARecv` or `WSASend`, and those of
`postAccept`. -/
structure Answer where
  reg : Bool
  posted : Bool
  accept : AcceptAnswer
deriving Repr, DecidableEq

inductive HelloEvent where
  /-- A round of the first loop. -/
  | postAccept (a : AcceptAnswer)
  /-- `wait` returns 0 behind `WAIT_TIMEOUT`. -/
  | timeout
  /-- `wait` returns 0 behind `ERROR_NETNAME_DELETED`, which has taken an operation off the port. -/
  | netnameDeleted (op : Overlapped)
  /-- `wait` returns -1. -/
  | failed
  /-- `wait` returns 1. The kernel has received, or has sent, these bytes. -/
  | completion (op : Overlapped) (bytes : List UInt8) (a : Answer)
deriving Repr, DecidableEq

namespace HelloServer

/-- Before the first loop; `acceptEx` is what `loadAccpetEx` returned. -/
def start (nClient : ℕ) (sockServer : SOCKET) (acceptEx : Bool) : HelloServer where
  acceptEx := acceptEx
  sockServer := sockServer
  ioData := List.replicate nClient ⟨0, List.replicate IO_DATA_BUFF_SIZE 0, 0, none⟩
  posted := 0
  running := true
  sockets := [sockServer]
  pending := []

/-- Closing `INVALID_SOCKET` is an error without effect. -/
def closesocket (s : HelloServer) (sockfd : SOCKET) : Option HelloServer :=
  if sockfd = INVALID_SOCKET then some s
  else if sockfd ∈ s.sockets then some { s with sockets := s.sockets.erase sockfd }
  else none

/-- A block with a new operation, if the kernel has taken it. -/
def post (s : HelloServer) (i : ℕ) (d : IoDataBase) (op : Overlapped) (posted : Bool) :
    HelloServer :=
  { s with
    ioData := s.ioData.set i d
    pending := if posted then op :: s.pending else s.pending }

def postAccept (s : HelloServer) (i : ℕ) (a : AcceptAnswer) : Option HelloServer := do
  let d ← s.ioData[i]?
  let d := { d with iotype := some .accpet, sockfd := a.sockfd }
  let sockets := if a.sockfd = INVALID_SOCKET then s.sockets else a.sockfd :: s.sockets
  if s.acceptEx then
    some ({ s with sockets }.post i d ⟨i, .accpet, d.sockfd, 0⟩ a.posted)
  else none

def postRecv (s : HelloServer) (i : ℕ) (posted : Bool) : Option HelloServer := do
  let d ← s.ioData[i]?
  let d := { d with iotype := some .recv }
  some (s.post i d ⟨i, .recv, d.sockfd, IO_DATA_BUFF_SIZE⟩ posted)

def postSend (s : HelloServer) (i : ℕ) (posted : Bool) : Option HelloServer := do
  let d ← s.ioData[i]?
  let d := { d with iotype := some .send }
  some (s.post i d ⟨i, .send, d.sockfd, d.length⟩ posted)

def setLength (s : HelloServer) (i : ℕ) (d : IoDataBase) (length : ℤ) : HelloServer :=
  { s with ioData := s.ioData.set i { d with length } }

/-- `closesocket(..); iocp.postAccept(..);` -/
def leave (s : HelloServer) (i : ℕ) (d : IoDataBase) (a : AcceptAnswer) : Option HelloServer := do
  let s ← s.closesocket d.sockfd
  s.postAccept i a

/-- The branches behind `wait`. The type is read from the block. -/
def onEvent (s : HelloServer) (i : ℕ) (bytesTrans : ℕ) (a : Answer) : Option HelloServer := do
  let d ← s.ioData[i]?
  match d.iotype with
  | some .accpet => if a.reg then s.postRecv i a.posted else s.leave i d a.accept
  | some .recv =>
      if bytesTrans ≤ 0 then s.leave i d a.accept
      else (s.setLength i d bytesTrans).postSend i a.posted
  | some .send =>
      if bytesTrans ≤ 0 then s.leave i d a.accept
      else (s.setLength i d 0).postRecv i a.posted
  | none => some s

/-- What the kernel has written into the block of a receive. -/
def fill (s : HelloServer) (op : Overlapped) (bytes : List UInt8) : HelloServer :=
  match op.iotype, s.ioData[op.slot]? with
  | .recv, some d =>
      { s with ioData := s.ioData.set op.slot { d with buffer := blit d.buffer 0 bytes } }
  | _, _ => s

/-- Behind the loop all sockets are closed. -/
def finish (s : HelloServer) : Option HelloServer :=
  (s.ioData.map IoDataBase.sockfd ++ [s.sockServer]).foldlM closesocket { s with running := false }

def next (s : HelloServer) : HelloEvent → Option HelloServer
  | .postAccept a => (s.postAccept s.posted a).map fun s => { s with posted := s.posted + 1 }
  | .timeout => some s
  | .netnameDeleted op => some { s with pending := s.pending.erase op }
  | .failed => s.finish
  | .completion op bytes a =>
      ({ s with pending := s.pending.erase op }.fill op bytes).onEvent op.slot bytes.length a

/-- A new socket is none of the open ones, and nothing is accepted on an invalid one. -/
def Fresh (sockets : List SOCKET) (a : AcceptAnswer) : Prop :=
  if a.sockfd = INVALID_SOCKET then a.posted = false else a.sockfd ∉ sockets

/-- What the kernel may do with an operation. -/
def Moves (s : HelloServer) (op : Overlapped) (bytes : List UInt8) : Prop :=
  match op.iotype with
  | .accpet => bytes = []
  | .recv => (bytes.length : ℤ) ≤ op.len
  | .send => ∀ d, s.ioData[op.slot]? = some d → bytes <+: d.buffer.take op.len.toNat

instance (sockets : List SOCKET) (a : AcceptAnswer) : Decidable (Fresh sockets a) :=
  inferInstanceAs (Decidable (if a.sockfd = INVALID_SOCKET then _ else _))

instance (s : HelloServer) (bytes : List UInt8) : (op : Overlapped) → Decidable (s.Moves op bytes)
  | ⟨_, .accpet, _, _⟩ => inferInstanceAs (Decidable (bytes = []))
  | ⟨_, .recv, _, len⟩ => inferInstanceAs (Decidable ((bytes.length : ℤ) ≤ len))
  | ⟨slot, .send, _, len⟩ =>
      inferInstanceAs (Decidable (∀ d ∈ s.ioData[slot]?, bytes <+: d.buffer.take len.toNat))

/-- The main loop runs once all blocks are posted. -/
def Legal (s : HelloServer) : HelloEvent → Prop
  | .postAccept a => s.running = true ∧ s.posted < s.ioData.length ∧ Fresh s.sockets a
  | .timeout => s.running = true ∧ s.posted = s.ioData.length
  | .failed => s.running = true ∧ s.posted = s.ioData.length
  | .netnameDeleted op => s.running = true ∧ s.posted = s.ioData.length ∧ op ∈ s.pending
  | .completion op bytes a => s.running = true ∧ s.posted = s.ioData.length ∧ op ∈ s.pending ∧
      s.Moves op bytes ∧ Fresh (s.sockets.erase op.sockfd) a.accept

instance (s : HelloServer) : (e : HelloEvent) → Decidable (s.Legal e)
  | .postAccept _ | .timeout | .failed | .netnameDeleted _ | .completion .. =>
      inferInstanceAs (Decidable (_ ∧ _))

end HelloServer

/-- Whether the event leaves the block that it is about without an operation. -/
def HelloEvent.drops : HelloEvent → Bool
  | .postAccept a => !a.posted
  | .netnameDeleted _ => true
  | .completion op bytes a =>
      match op.iotype with
      | .accpet => if a.reg then !a.posted else !a.accept.posted
      | _ => if bytes = [] then !a.accept.posted else !a.posted
  | _ => false

/-- The server with what a maintainer would watch: of the client that each block serves, the chunks
that were received and those that were sent, and how many blocks were left without an operation. -/
structure Watched where
  server : HelloServer
  heard : ℕ → List (List UInt8)
  told : ℕ → List (List UInt8)
  lost : ℕ

namespace Watched

def heardBy (w : Watched) : HelloEvent → ℕ → List (List UInt8)
  | .completion op bytes _ => fun i =>
      if i = op.slot then
        match op.iotype with
        | .accpet => []
        | .recv => w.heard i ++ [bytes]
        | .send => w.heard i
      else w.heard i
  | _ => w.heard

def toldBy (w : Watched) : HelloEvent → ℕ → List (List UInt8)
  | .completion op bytes _ => fun i =>
      if i = op.slot then
        match op.iotype with
        | .accpet => []
        | .recv => w.told i
        | .send => w.told i ++ [bytes]
      else w.told i
  | _ => w.told

def next (w : Watched) (e : HelloEvent) : Option Watched :=
  (w.server.next e).map fun server =>
    { server
      heard := w.heardBy e
      told := w.toldBy e
      lost := w.lost + if e.drops then 1 else 0 }

/-- A server for `nClient` clients that has loaded `AcceptEx`. -/
def system (nClient : ℕ) : System Watched HelloEvent where
  init w := ∃ sockServer, sockServer ≠ INVALID_SOCKET ∧
    w = ⟨.start nClient sockServer true, fun _ => [], fun _ => [], 0⟩
  step w e w' := w.server.Legal e ∧ w.next e = some w'

end Watched

end CellNet.HelloIOCP
