import CellNet.Model.CellBuffer

/-! One connected client: its socket, its two buffers and its timers. -/

namespace CellNet

open Library

def CLIENT_HEART_DEAD_TIME : ℤ := 60000

structure CellClient where
  id : ℤ
  serverId : ℤ
  nRecvMsgID : ℤ
  nSendMsgID : ℤ
  sockfd : SOCKET
  recvBuff : CellBuffer
  sendBuff : CellBuffer
  dtHeart : ℤ
  dtSend : ℤ
  isPostRecv : Bool
  isPostSend : Bool
deriving Repr, DecidableEq

namespace CellClient

/-- The constructor; the two blocks are the memory the buffers allocate. -/
def new (id : ℤ) (sockfd : SOCKET) (sendBuff recvBuff : CellBuffer) : CellClient where
  id := id
  serverId := -1
  nRecvMsgID := 1
  nSendMsgID := 1
  sockfd := sockfd
  recvBuff := recvBuff
  sendBuff := sendBuff
  dtHeart := 0
  dtSend := 0
  isPostRecv := false
  isPostSend := false

/-- Closes the socket; a second call finds it closed. -/
def destroy (c : CellClient) : CellClient :=
  if SOCKET_ERROR ≠ c.sockfd then { c with sockfd := SOCKET_ERROR } else c

def recvData (c : CellClient) (recv : Option (List UInt8)) : CellClient × ℤ :=
  let r := c.recvBuff.read4socket recv
  ({ c with recvBuff := r.1 }, r.2)

def hasMsg (c : CellClient) : Bool := c.recvBuff.hasMsg

def frontMsg (c : CellClient) : List UInt8 := c.recvBuff.data

def popFrontMsg (c : CellClient) : CellClient :=
  if c.hasMsg then { c with recvBuff := c.recvBuff.pop (dataLength c.frontMsg) } else c

def needWrite (c : CellClient) : Bool := c.sendBuff.needWrite

def resetDtHeart (c : CellClient) : CellClient := { c with dtHeart := 0 }

def resetDTSend (c : CellClient) : CellClient := { c with dtSend := 0 }

def sendDataReal (c : CellClient) (ret : ℤ) : CellClient × ℤ :=
  let r := c.resetDTSend.sendBuff.write2socket c.sockfd ret
  ({ c.resetDTSend with sendBuff := r.1 }, r.2)

/-- `SendData(const char*, int)`. -/
def sendData (c : CellClient) (pData : List UInt8) (len : ℤ) : Option (CellClient × ℤ) := do
  let r ← c.sendBuff.push pData len
  some ({ c with sendBuff := r.1 }, if r.2 then len else SOCKET_ERROR)

/-- `SendData(netmsg_DataHeader*)`: the header says how much to send. -/
def sendHeader (c : CellClient) (header : List UInt8) : Option (CellClient × ℤ) :=
  c.sendData header (dataLength header)

def checkHeart (c : CellClient) (dt : ℤ) : CellClient × Bool :=
  let dtHeart := c.dtHeart + dt
  ({ c with dtHeart }, decide (dtHeart ≥ CLIENT_HEART_DEAD_TIME))

/-! ### Overlapped operations -/

/-- The flag is set before the buffer decides whether there is anything to post. -/
def makeRecvIoData (c : CellClient) : CellClient × Option IoData :=
  if c.isPostRecv then (c, none)
  else ({ c with isPostRecv := true }, c.recvBuff.makeRecvIoData c.sockfd)

def recv4Iocp (c : CellClient) (nRecv : ℤ) : CellClient :=
  if c.isPostRecv then
    { c with isPostRecv := false, recvBuff := (c.recvBuff.read4Iocp nRecv).1 }
  else c

def makeSendIoData (c : CellClient) : CellClient × Option IoData :=
  if c.isPostSend then (c, none)
  else ({ c with isPostSend := true }, c.sendBuff.makeSendIoData c.sockfd)

def send2Iocp (c : CellClient) (nSend : ℤ) : CellClient :=
  if c.isPostSend then
    { c with isPostSend := false, sendBuff := (c.sendBuff.write2Iocp nSend).1 }
  else c

def isPostIoAction (c : CellClient) : Bool :=
  c.isPostRecv || c.isPostSend

end CellClient

/-! ### The message loop -/

/-- A dispatched message: its announced length and that many bytes. -/
abbrev Msg := ℕ × List UInt8

/-- `OnNetMsg(client, header)`, acting on the state `σ` of its object. -/
abbrev Handler (σ : Type*) := σ → CellClient → List UInt8 → σ × CellClient

/-- The handler leaves the receive buffer alone. -/
def Handler.KeepsRecv {σ : Type*} (onNetMsg : Handler σ) : Prop :=
  ∀ s c header, (onNetMsg s c header).2.recvBuff = c.recvBuff

/-- The handler does not call `destroy`. -/
def Handler.KeepsSock {σ : Type*} (onNetMsg : Handler σ) : Prop :=
  ∀ s c header, (onNetMsg s c header).2.sockfd = c.sockfd

/-- The handler leaves the socket and the overlapped operations alone. -/
structure Handler.KeepsIo {σ : Type*} (onNetMsg : Handler σ) : Prop where
  sockfd : onNetMsg.KeepsSock
  isPostRecv : ∀ s c header, (onNetMsg s c header).2.isPostRecv = c.isPostRecv
  isPostSend : ∀ s c header, (onNetMsg s c header).2.isPostSend = c.isPostSend

def frontMessage (c : CellClient) : Msg :=
  (dataLength c.frontMsg, c.frontMsg.take (dataLength c.frontMsg))

section Loop

variable {σ : Type*} (onNetMsg : Handler σ)

/-- `OnNetMsg(pClient, pClient->front_msg()); pClient->pop_front_msg();` -/
def msgBody (x : σ × CellClient) : σ × CellClient :=
  let y := onNetMsg x.1 x.2 x.2.frontMsg
  (y.1, y.2.popFrontMsg)

/-- `while (pClient->hasMsg())`, with the messages in the order of dispatch. -/
def msgLoop : ℕ → σ × CellClient → Option (List Msg × σ × CellClient)
  | 0, _ => none
  | fuel + 1, x =>
      if x.2.hasMsg then
        (msgLoop fuel (msgBody onNetMsg x)).map fun r => (frontMessage x.2 :: r.1, r.2)
      else some ([], x)

/-- `CellServer::DoMsg`: the loop of each client in turn. -/
def doMsg (fuel : ℕ) : σ → List CellClient → Option (List (List Msg) × σ × List CellClient)
  | s, [] => some ([], s, [])
  | s, c :: cs => do
      let r ← msgLoop onNetMsg fuel (s, c)
      let rs ← doMsg fuel r.2.1 cs
      some (r.1 :: rs.1, rs.2.1, r.2.2 :: rs.2.2)

end Loop

/-! ### The client side -/

/-- `EasyTcpClient` together with the state `ext` of its subclass. -/
structure EasyTcpClient (σ : Type*) where
  pClient : Option CellClient
  isConnect : Bool
  ext : σ

namespace EasyTcpClient

variable {σ : Type*}

/-- `OnNetMsg(_pClient->front_msg()); _pClient->pop_front_msg();`, where `none` is
the dereference of a null `_pClient`. -/
def msgBody (onNetMsg : EasyTcpClient σ → List UInt8 → EasyTcpClient σ)
    (e : EasyTcpClient σ) : Option (EasyTcpClient σ) :=
  match e.pClient with
  | none => none
  | some c =>
      let e' := onNetMsg e c.frontMsg
      match e'.pClient with
      | none => none
      | some c' => some { e' with pClient := some c'.popFrontMsg }

/-- The loop test `_pClient->hasMsg()`. -/
def hasMsg (e : EasyTcpClient σ) : Option Bool :=
  e.pClient.map CellClient.hasMsg

/-- The handler keeps the client object and leaves its receive buffer alone. -/
def KeepsRecv (onNetMsg : EasyTcpClient σ → List UInt8 → EasyTcpClient σ) : Prop :=
  ∀ e c header, e.pClient = some c →
    ∃ c', (onNetMsg e header).pClient = some c' ∧ c'.recvBuff = c.recvBuff

end EasyTcpClient

end CellNet
