import CellNet.Model.MyServer

/-! The test client program, and its session with the server program over two first-in
first-out byte channels. A result `none` is an access outside a block, an overflow in a buffer or
the use of a null pointer; the message IDs wrap around. -/

namespace CellNet

open Library

inductive ClientReport where
  /-- The message ID is not the one expected; last comes the difference. -/
  | msgID (sockfd : SOCKET) (msgID nRecvMsgID diff : ℤ)
  | error (msglen : ℕ)
  | unknown (msglen : ℕ)
deriving Repr, DecidableEq

/-- What `MyClient` adds to `EasyTcpClient`. -/
structure MyClient where
  tRestTime : ℤ
  nRecvMsgID : ℤ
  nSendMsgID : ℤ
  nSendCount : ℤ
  bCheckMsgID : Bool
  bSend : Bool
  log : List ClientReport
deriving Repr, DecidableEq

/-- The globals of the program that the client uses. -/
structure ClientConfig where
  nMsg : ℤ
  nSendSleep : ℤ
  bCheckSendBack : Bool

namespace EasyTcpClient

variable {σ : Type*}

def isRun (e : EasyTcpClient σ) : Bool :=
  e.pClient.isSome && e.isConnect

/-- `SendData(netmsg_DataHeader*)`. -/
def sendHeader (e : EasyTcpClient σ) (header : List UInt8) : Option (EasyTcpClient σ × ℤ) :=
  if e.isRun then
    e.pClient.bind fun c => (c.sendHeader header).map fun r =>
      ({ e with pClient := some r.1 }, r.2)
  else some (e, 0)

end EasyTcpClient

namespace MyClient

/-- The constructor; `hasKey` tells whether `-checkMsgID` was given. -/
def new (hasKey : Bool) : MyClient where
  tRestTime := 0
  nRecvMsgID := 1
  nSendMsgID := 1
  nSendCount := 0
  bCheckMsgID := hasKey
  bSend := false
  log := []

/-- The branch of `CMD_LOGIN_RESULT`. -/
def onLoginResult (m : MyClient) (sockfd : SOCKET) (header : List UInt8) : Option MyClient :=
  if m.bCheckMsgID then do
    let id ← msgID header
    let report := .msgID sockfd id m.nRecvMsgID (wrap32 (id - m.nRecvMsgID))
    let log := if id ≠ m.nRecvMsgID then m.log ++ [report] else m.log
    some { m with log, nRecvMsgID := wrap32 (m.nRecvMsgID + 1) }
  else some m

def onNetMsg (m : MyClient) (sockfd : SOCKET) (header : List UInt8) : Option MyClient :=
  let m := { m with bSend := false }
  if cmd header = CMD_LOGIN_RESULT then m.onLoginResult sockfd header
  else if cmd header = CMD_LOGOUT_RESULT then some m
  else if cmd header = CMD_NEW_USER_JOIN then some m
  else if cmd header = CMD_ERROR then
    some { m with log := m.log ++ [.error (dataLength header)] }
  else some { m with log := m.log ++ [.unknown (dataLength header)] }

/-- `fields` are those of the login but for its message ID, which is set here. -/
def sendTest (cfg : ClientConfig) (e : EasyTcpClient MyClient) (fields : List UInt8) :
    Option (EasyTcpClient MyClient × ℤ) :=
  if e.ext.nSendCount > 0 ∧ e.ext.bSend = false then do
    let r ← e.sendHeader (netmsg_Login fields e.ext.nSendMsgID)
    if SOCKET_ERROR ≠ r.2 then
      some ({ r.1 with ext := { r.1.ext with
        bSend := cfg.bCheckSendBack
        nSendMsgID := wrap32 (r.1.ext.nSendMsgID + 1)
        nSendCount := r.1.ext.nSendCount - 1 } }, r.2)
    else some r
  else some (e, 0)

def checkSend (cfg : ClientConfig) (m : MyClient) (dt : ℤ) : MyClient × Bool :=
  let tRestTime := m.tRestTime + dt
  let m := if tRestTime ≥ cfg.nSendSleep then
      { m with tRestTime := tRestTime - cfg.nSendSleep, nSendCount := cfg.nMsg }
    else { m with tRestTime }
  (m, decide (m.nSendCount > 0))

/-- One round of `EasyTcpClient::DoMsg`. -/
def doMsg (e : EasyTcpClient MyClient) : Option (EasyTcpClient MyClient) := do
  let c ← e.pClient
  if c.hasMsg then
    let ext ← e.ext.onNetMsg c.sockfd c.frontMsg
    some { e with pClient := some c.popFrontMsg, ext }
  else some e

end MyClient

/-- One round of the loop of `CellServer::DoMsg`. -/
def MyServer.doMsg (s : MyServer) (u : Locals) (c : CellClient) :
    Option (MyServer × CellClient) :=
  if c.hasMsg then do
    let r ← s.onNetMsg u c c.frontMsg
    some (r.1, r.2.popFrontMsg)
  else some (s, c)

/-! ### The session -/

namespace CellClient

/-- `SendDataReal` into a channel; `send` takes at most `ret` bytes, or fails. -/
def sendInto (c : CellClient) (ret : ℤ) (channel : List UInt8) : CellClient × List UInt8 :=
  let n := min ret c.sendBuff.nLast
  ((c.sendDataReal n).1, channel ++ c.sendBuff.wire c.sockfd n)

/-- `RecvData` from a channel; `recv` returns at most `k` bytes. -/
def recvFrom (c : CellClient) (k : ℕ) (channel : List UInt8) : CellClient × List UInt8 :=
  let n := min k (c.recvBuff.nSize - c.recvBuff.nLast).toNat
  ((c.recvData (some (channel.take n))).1, channel.drop n)

end CellClient

/-- A client program and a server program; `up` carries the bytes to the server. -/
structure Session where
  client : EasyTcpClient MyClient
  server : MyServer
  pClient : CellClient
  up : List UInt8
  down : List UInt8

/-- The fields of a login, without its message ID. -/
abbrev LoginFields := { fields : List UInt8 // fields.length = 92 }

inductive SessionEvent where
  | sendTest (login : LoginFields)
  | checkSend (dt : ℤ)
  | clientSend (ret : ℤ)
  | clientRecv (k : ℕ)
  | clientMsg
  | serverSend (ret : ℤ)
  | serverRecv (k : ℕ)
  | serverMsg (u : Locals)

namespace Session

def next (cfg : ClientConfig) (s : Session) : SessionEvent → Option Session
  | .sendTest login =>
      (MyClient.sendTest cfg s.client login.val).map fun r => { s with client := r.1 }
  | .checkSend dt =>
      some { s with client := { s.client with ext := (s.client.ext.checkSend cfg dt).1 } }
  | .clientSend ret => s.client.pClient.map fun c =>
      { s with
        client := { s.client with pClient := some (c.sendInto ret s.up).1 }
        up := (c.sendInto ret s.up).2 }
  | .clientRecv k => s.client.pClient.map fun c =>
      { s with
        client := { s.client with pClient := some (c.recvFrom k s.down).1 }
        down := (c.recvFrom k s.down).2 }
  | .clientMsg => (MyClient.doMsg s.client).map fun client => { s with client }
  | .serverSend ret =>
      some { s with
        pClient := (s.pClient.sendInto ret s.down).1
        down := (s.pClient.sendInto ret s.down).2 }
  | .serverRecv k =>
      some { s with
        pClient := (s.pClient.recvFrom k s.up).1
        up := (s.pClient.recvFrom k s.up).2 }
  | .serverMsg u => (s.server.doMsg u s.pClient).map fun r =>
      { s with server := r.1, pClient := r.2 }

end Session

end CellNet
