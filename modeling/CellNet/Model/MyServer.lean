import CellNet.Model.CellClient
import CellNet.Model.MessageHeader

/-! The message handler of the server program. A result `none` is an access outside a block, or an
overflow in a buffer; what was not initialised has any value, and the message IDs wrap around. -/

namespace CellNet

open Library

/-- What the log is told about. -/
inductive ServerReport where
  /-- The message ID is not the one expected; last comes the difference. -/
  | msgID (sockfd : SOCKET) (msgID nRecvMsgID diff : ℤ)
  | sendFull (sockfd : SOCKET)
  | unknown (sockfd : SOCKET) (msglen : ℕ)
deriving Repr, DecidableEq

structure MyServer where
  bSendBack : Bool
  bSendFull : Bool
  bCheckMsgID : Bool
  log : List ServerReport
deriving Repr, DecidableEq

/-- Memory that the handler uses without having initialised it: the variables that
`readInt32`, `readFloat` and `readDouble` return when they fail, the `data` of a
`netmsg_LoginR`, and the block of a `CellWriteStream`. -/
structure Locals where
  int : ℕ
  float : ℕ
  double : ℕ
  data : List UInt8
  block : List UInt8
  length_data : data.length = 88
  length_block : block.length = 1024

/-- The values of a `CMD_LOGOUT`: scalars as bit patterns, and the arrays of the handler with
the number of elements read into them. -/
structure LogoutFields where
  int8 : ℕ
  int16 : ℕ
  int32 : ℕ
  float : ℕ
  double : ℕ
  name : List UInt8 × ℕ
  pw : List UInt8 × ℕ
  data : List UInt8 × ℕ
deriving Repr, DecidableEq

namespace MyServer

/-- The check of the message ID under `CMD_LOGIN`. -/
def checkMsgID (s : MyServer) (c : CellClient) (header : List UInt8) :
    Option (MyServer × CellClient) :=
  if s.bCheckMsgID then do
    let id ← msgID header
    let report := .msgID c.sockfd id c.nRecvMsgID (wrap32 (id - c.nRecvMsgID))
    some (if id ≠ c.nRecvMsgID then { s with log := s.log ++ [report] } else s,
      { c with nRecvMsgID := wrap32 (c.nRecvMsgID + 1) })
  else some (s, c)

/-- The answer to `CMD_LOGIN`. -/
def sendBack (s : MyServer) (u : Locals) (c : CellClient) : Option (MyServer × CellClient) :=
  if s.bSendBack then do
    let r ← c.sendHeader (netmsg_LoginR u.data c.nSendMsgID)
    if r.2 = SOCKET_ERROR then
      some (if s.bSendFull then { s with log := s.log ++ [.sendFull c.sockfd] } else s, r.1)
    else some (s, { r.1 with nSendMsgID := wrap32 (r.1.nSendMsgID + 1) })
  else some (s, c)

def onLogin (s : MyServer) (u : Locals) (c : CellClient) (header : List UInt8) :
    Option (MyServer × CellClient) := do
  let r ← s.checkMsgID c.resetDtHeart header
  r.1.sendBack u r.2

/-- What is read of a `CMD_LOGOUT`. -/
def readLogout (u : Locals) (header : List UInt8) : Option LogoutFields := do
  let r ← CellReadStream.ofHeader header
  let n1 ← r.readInt8
  let n2 ← n1.1.readInt16
  let n3 ← n2.1.readInt32 u.int
  let n4 ← n3.1.readFloat u.float
  let n5 ← n4.1.readDouble u.double
  let n ← n5.1.onlyRead 4 0
  let name ← n.1.readArray 1 (List.replicate 32 0) 32
  let pw ← name.1.readArray 1 (List.replicate 32 0) 32
  let data ← pw.1.readArray 4 (List.replicate 40 0) 10
  some ⟨n1.2, n2.2, n3.2, n4.2, n5.2, name.2, pw.2, data.2⟩

/-- The stream that answers it. -/
def writeLogout (u : Locals) (f : LogoutFields) : Option CellStream := do
  let s ← CellWriteStream.new u.block 1024
  let s ← CellWriteStream.setNetCmd s CMD_LOGOUT_RESULT
  let s ← s.writeInt8 f.int8
  let s ← s.1.writeInt16 f.int16
  let s ← s.1.writeInt32 f.int32
  let s ← s.1.writeFloat f.float
  let s ← s.1.writeDouble f.double
  let s ← s.1.writeArray 1 f.name.1 f.name.2
  let s ← s.1.writeArray 1 f.pw.1 f.pw.2
  let s ← s.1.writeArray 4 f.data.1 f.data.2
  CellWriteStream.finish s.1

def onLogout (s : MyServer) (u : Locals) (c : CellClient) (header : List UInt8) :
    Option (MyServer × CellClient) := do
  let f ← readLogout u header
  let reply ← writeLogout u f
  let r ← c.sendData reply.data reply.length
  some (s, r.1)

def onHeart (s : MyServer) (c : CellClient) : Option (MyServer × CellClient) := do
  let r ← c.resetDtHeart.sendHeader netmsg_s2c_Heart
  some (s, r.1)

/-- `OnNetMsg`; `header` is the memory from the header to the end of its block. -/
def onNetMsg (s : MyServer) (u : Locals) (c : CellClient) (header : List UInt8) :
    Option (MyServer × CellClient) :=
  if cmd header = CMD_LOGIN then s.onLogin u c header
  else if cmd header = CMD_LOGOUT then s.onLogout u c header
  else if cmd header = CMD_C2S_HEART then s.onHeart c
  else some ({ s with log := s.log ++ [.unknown c.sockfd (dataLength header)] }, c)

/-- `OnNetMsg` as the handler of the workers. The state is the object, or `none` behind a fault,
with the memory that each further call finds uninitialised. -/
def checkedHandler : Handler (Option MyServer × (ℕ → Locals)) := fun s c header =>
  match s.1.bind fun server => server.onNetMsg (s.2 0) c header with
  | some r => ((some r.1, fun n => s.2 (n + 1)), r.2)
  | none => ((none, s.2), c)

end MyServer

end CellNet
