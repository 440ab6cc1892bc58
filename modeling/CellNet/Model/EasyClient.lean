import CellNet.Library.Heap
import CellNet.Library.Transition
import CellNet.Model.CellClient

/-! `EasyTcpClient` and its classes `EasyEpollClient` and `EasySelectClient`, with the objects that
they delete. `OnNetMsg` may call every public function of the object while `DoMsg` and `OnRun` wait
for it. A result `none` is the use of a deleted object or of a null pointer. -/

namespace CellNet

open Library

inductive EasyKind where
  | epoll
  | select
deriving Repr, DecidableEq

def EPOLL_ERROR : ℤ := -1

/-- `data.ptr` and the flags of an `epoll_event`. -/
structure ClientEvent where
  ptr : Option ℕ
  epollin : Bool
  epollout : Bool
deriving Repr, DecidableEq

/-- The members of the object, and the clients and event arrays on the heap. `create(1)` makes an
array of one event. `registered` is the pointer that the epoll instance has for the socket, and
`fdWrite` the socket in the set of that name. -/
structure EasyClient where
  clients : Heap CellClient
  arrays : Heap ClientEvent
  pClient : Option ℕ
  isConnect : Bool
  pEvents : Option ℕ
  epfd : ℤ
  registered : Option ℕ
  fdWrite : Option SOCKET
deriving Repr, DecidableEq

/-- What the system answers while a socket is made, and the memory of its client. -/
structure SocketAnswer where
  id : ℤ
  sock : SOCKET
  sendBuff : CellBuffer
  recvBuff : CellBuffer
  epfd : ℤ
  added : Bool
deriving Repr, DecidableEq

/-- What `select` or `epoll_wait` answers; an interrupted call is a timeout. -/
inductive PollAnswer where
  | error
  | timeout
  | ready (read write : Bool)
deriving Repr, DecidableEq

namespace EasyClient

def new : EasyClient where
  clients := .empty
  arrays := .empty
  pClient := none
  isConnect := false
  pEvents := none
  epfd := EPOLL_ERROR
  registered := none
  fdWrite := none

/-- `*_pClient`. -/
def client (e : EasyClient) : Option CellClient :=
  e.pClient.bind e.clients.get?

def setClient (e : EasyClient) (p : ℕ) (c : CellClient) : EasyClient :=
  { e with clients := e.clients.set p c }

/-! ### `CellEpoll` -/

/-- `delete[] _pEvents`, if there is an array. -/
def deleteEvents (e : EasyClient) : Option EasyClient :=
  match e.pEvents with
  | none => some e
  | some a =>
      if (e.arrays.get? a).isSome then
        some { e with arrays := e.arrays.free a, pEvents := none }
      else none

def destroy (e : EasyClient) : Option EasyClient :=
  e.deleteEvents.map fun e =>
    if e.epfd > 0 then { e with epfd := EPOLL_ERROR, registered := none } else e

/-- `create(1)`, where `epoll_create` returns `epfd`. -/
def create (e : EasyClient) (epfd : ℤ) : Option EasyClient :=
  (if e.epfd > 0 then e.destroy else some e).map fun e =>
    if epfd = EPOLL_ERROR then { e with epfd }
    else { e with
      epfd
      arrays := e.arrays.alloc ⟨none, false, false⟩
      pEvents := some e.arrays.next }

/-- `ctl(op, _pClient, ..)`, which succeeds if the system says so. -/
def ctl (e : EasyClient) (ok : Bool) : Option EasyClient :=
  e.client.map fun _ =>
    if ok ∧ e.epfd ≠ EPOLL_ERROR then { e with registered := e.pClient } else e

/-- `wait`. An event has the pointer that is registered; without an array the call fails. -/
def wait (e : EasyClient) : PollAnswer → Option (EasyClient × ℤ)
  | .error => some (e, EPOLL_ERROR)
  | .timeout => some (e, 0)
  | .ready read write =>
      match e.pEvents with
      | none => some (e, EPOLL_ERROR)
      | some a =>
          if (e.arrays.get? a).isSome then
            if e.registered = none then some (e, 0)
            else some ({ e with arrays := e.arrays.set a ⟨e.registered, read, write⟩ }, 1)
          else none

/-- `events[i]`. -/
def event (e : EasyClient) (events : Option ℕ) (i : ℕ) : Option ClientEvent :=
  if i = 0 then events.bind e.arrays.get? else none

/-! ### `EasyTcpClient` -/

/-- `EasyTcpClient::Close`. A socket that is closed is no longer registered. -/
def closeClient (e : EasyClient) : Option EasyClient :=
  match e.pClient with
  | none => some { e with isConnect := false }
  | some p =>
      if (e.clients.get? p).isSome then
        some { e with
          clients := e.clients.free p
          pClient := none
          isConnect := false
          registered := none }
      else none

/-- The `Close` of the class. -/
def close (kind : EasyKind) (e : EasyClient) : Option EasyClient :=
  match kind with
  | .epoll => e.destroy.bind closeClient
  | .select => e.closeClient

def onInitSocket (kind : EasyKind) (e : EasyClient) (x : SocketAnswer) : Option EasyClient :=
  match kind with
  | .epoll => (e.create x.epfd).bind fun e => e.ctl x.added
  | .select => some e

def initSocket (kind : EasyKind) (e : EasyClient) (x : SocketAnswer) : Option EasyClient :=
  (if e.pClient = none then some e else e.client.bind fun _ => e.close kind).bind fun e =>
    if x.sock = INVALID_SOCKET then some e
    else onInitSocket kind { e with
      clients := e.clients.alloc (.new x.id x.sock x.sendBuff x.recvBuff)
      pClient := some e.clients.next } x

/-- The second half of `Connect`; `ret` is what `connect` returns. -/
def connectClient (e : EasyClient) (ret : ℤ) : Option EasyClient :=
  e.client.map fun _ => if ret = SOCKET_ERROR then e else { e with isConnect := true }

def connect (kind : EasyKind) (e : EasyClient) (x : SocketAnswer) (ret : ℤ) :
    Option EasyClient :=
  if e.pClient = none then do
    let e ← e.initSocket kind x
    if x.sock = INVALID_SOCKET then some e else e.connectClient ret
  else e.connectClient ret

def isRun (e : EasyClient) : Bool :=
  e.pClient.isSome && e.isConnect

/-- `_pClient` with the client behind it, for a call that changes it. -/
def target (e : EasyClient) : Option (ℕ × CellClient) := do
  let p ← e.pClient
  let c ← e.clients.get? p
  some (p, c)

def sendData (e : EasyClient) (pData : List UInt8) (len : ℤ) : Option EasyClient :=
  if e.isRun then do
    let x ← e.target
    let r ← x.2.sendData pData len
    some (e.setClient x.1 r.1)
  else some e

/-- `SendDataReal` of the client at `p`. -/
def sendDataReal (e : EasyClient) (p : ℕ) (send : ℤ) : Option (EasyClient × ℤ) := do
  let c ← e.clients.get? p
  let r := c.sendDataReal send
  some (e.setClient p r.1, r.2)

end EasyClient

/-! ### Control -/

/-- Who waits for `RecvData`: code outside the library, or `OnRun` with its local variables. -/
inductive RecvCaller where
  | user
  | select (sock : SOCKET)
  | epoll (events : Option ℕ) (i ret pClient : ℕ)
deriving Repr, DecidableEq

/-- Who waits for `DoMsg`. -/
inductive DoMsgCaller where
  | user
  | recvData (nLen : ℤ) (caller : RecvCaller)
deriving Repr, DecidableEq

/-- The statement that comes next; `user` is code outside the library, which is that of `OnNetMsg`
while a `DoMsg` waits. -/
inductive ClientPc where
  | user
  | recvData (caller : RecvCaller)
  | hasMsg (caller : DoMsgCaller)
  | popFrontMsg (caller : DoMsgCaller)
  | received (nLen : ℤ) (caller : RecvCaller)
  | selectWrite (sock : SOCKET)
  | events (events : Option ℕ) (i ret : ℕ)
  | epollWrite (events : Option ℕ) (i ret pClient : ℕ)
deriving Repr, DecidableEq

namespace EasyClient

/-- `EasySelectClient::OnRun` up to `RecvData`. -/
def selectOnRun (kind : EasyKind) (e : EasyClient) (poll : PollAnswer) :
    Option (EasyClient × ClientPc) :=
  if e.isRun then do
    let c ← e.client
    match poll with
    | .error => (EasyClient.close kind { e with fdWrite := none }).map fun e => (e, .user)
    | .timeout => some ({ e with fdWrite := none }, .selectWrite c.sockfd)
    | .ready read write =>
        let fdWrite := if write && c.needWrite then some c.sockfd else none
        some ({ e with fdWrite },
          if read then .recvData (.select c.sockfd) else .selectWrite c.sockfd)
  else some (e, .user)

/-- `EasyEpollClient::OnRun` up to its loop. -/
def epollOnRun (kind : EasyKind) (e : EasyClient) (poll : PollAnswer) (modified : Bool) :
    Option (EasyClient × ClientPc) :=
  if e.isRun then do
    let e ← e.ctl modified
    let r ← e.wait poll
    if r.2 < 0 then (r.1.client.bind fun _ => r.1.close kind).map fun e => (e, .user)
    else if r.2 = 0 then some (r.1, .user)
    else some (r.1, .events r.1.pEvents 0 r.2.toNat)
  else some (e, .user)

end EasyClient

/-- The calls of code outside the library. -/
inductive ClientCall where
  | close
  | initSocket (x : SocketAnswer)
  | connect (x : SocketAnswer) (ret : ℤ)
  | sendData (pData : List UInt8) (len : ℤ)
  | recvData
  | doMsg
  | onRun (poll : PollAnswer) (modified : Bool)
deriving Repr, DecidableEq

def EasyClient.call (kind : EasyKind) (e : EasyClient) :
    ClientCall → Option (EasyClient × ClientPc)
  | .close => (e.close kind).map fun e => (e, .user)
  | .initSocket x => (e.initSocket kind x).map fun e => (e, .user)
  | .connect x ret => (e.connect kind x ret).map fun e => (e, .user)
  | .sendData pData len => (e.sendData pData len).map fun e => (e, .user)
  | .recvData => some (e, .recvData .user)
  | .doMsg => some (e, .hasMsg .user)
  | .onRun poll modified =>
      match kind with
      | .select => e.selectOnRun kind poll
      | .epoll => e.epollOnRun kind poll modified

/-- The object, the next statement, and the `DoMsg`s that wait for their `OnNetMsg`. -/
structure EasyRun where
  client : EasyClient
  pc : ClientPc
  stack : List DoMsgCaller
deriving Repr, DecidableEq

/-- A call, the return from `OnNetMsg`, or the next statement of the library with what `recv` and
`send` return. -/
inductive EasyEvent where
  | call (f : ClientCall)
  | ret
  | go (recv : Option (List UInt8)) (send : ℤ)
deriving Repr, DecidableEq

namespace EasyRun

open EasyClient

def goRecvData (s : EasyRun) (caller : RecvCaller) (recv : Option (List UInt8)) :
    Option EasyRun :=
  if s.client.isRun then do
    let x ← s.client.target
    let r := x.2.recvData recv
    some { s with
      client := s.client.setClient x.1 r.1
      pc := if r.2 > 0 then .hasMsg (.recvData r.2 caller) else .received r.2 caller }
  else some { s with pc := .received 0 caller }

/-- The test of the loop of `DoMsg`, and the call of `OnNetMsg`. -/
def goHasMsg (s : EasyRun) (caller : DoMsgCaller) : Option EasyRun := do
  let c ← s.client.client
  if c.hasMsg then some { s with pc := .user, stack := caller :: s.stack }
  else some { s with
    pc := match caller with
      | .user => .user
      | .recvData nLen caller => .received nLen caller }

def goPopFrontMsg (s : EasyRun) (caller : DoMsgCaller) : Option EasyRun := do
  let x ← s.client.target
  some { s with client := s.client.setClient x.1 x.2.popFrontMsg, pc := .hasMsg caller }

def goReceived (kind : EasyKind) (s : EasyRun) (nLen : ℤ) : RecvCaller → Option EasyRun
  | .user => some { s with pc := .user }
  | .select sock =>
      if nLen = SOCKET_ERROR then
        (s.client.close kind).map fun e => { s with client := e, pc := .user }
      else some { s with pc := .selectWrite sock }
  | .epoll events i ret p =>
      if nLen = SOCKET_ERROR then
        (s.client.client.bind fun _ => s.client.close kind).map fun e =>
          { s with client := e, pc := .events events (i + 1) ret }
      else some { s with pc := .epollWrite events i ret p }

def goSelectWrite (kind : EasyKind) (s : EasyRun) (sock : SOCKET) (send : ℤ) : Option EasyRun :=
  if s.client.fdWrite = some sock then do
    let p ← s.client.pClient
    let r ← s.client.sendDataReal p send
    (if r.2 = SOCKET_ERROR then r.1.close kind else some r.1).map fun e =>
      { s with client := e, pc := .user }
  else some { s with pc := .user }

/-- The loop over the events, up to `RecvData`. -/
def goEvents (s : EasyRun) (events : Option ℕ) (i ret : ℕ) : Option EasyRun :=
  if i < ret then do
    let ev ← s.client.event events i
    match ev.ptr with
    | none => some { s with pc := .events events (i + 1) ret }
    | some p => some { s with
        pc := if ev.epollin then .recvData (.epoll events i ret p)
          else .epollWrite events i ret p }
  else some { s with pc := .user }

/-- The rest of the body of the loop. -/
def goEpollWrite (kind : EasyKind) (s : EasyRun) (events : Option ℕ) (i ret p : ℕ) (send : ℤ) :
    Option EasyRun := do
  let ev ← s.client.event events i
  if ev.epollout then do
    let r ← s.client.sendDataReal p send
    (if r.2 = SOCKET_ERROR then r.1.client.bind fun _ => r.1.close kind else some r.1).map
      fun e => { s with client := e, pc := .events events (i + 1) ret }
  else some { s with pc := .events events (i + 1) ret }

def go (kind : EasyKind) (s : EasyRun) (recv : Option (List UInt8)) (send : ℤ) : Option EasyRun :=
  match s.pc with
  | .user => none
  | .recvData caller => s.goRecvData caller recv
  | .hasMsg caller => s.goHasMsg caller
  | .popFrontMsg caller => s.goPopFrontMsg caller
  | .received nLen caller => s.goReceived kind nLen caller
  | .selectWrite sock => s.goSelectWrite kind sock send
  | .events events i ret => s.goEvents events i ret
  | .epollWrite events i ret p => s.goEpollWrite kind events i ret p send

def next (kind : EasyKind) (s : EasyRun) : EasyEvent → Option EasyRun
  | .call f => (s.client.call kind f).map fun r => { s with client := r.1, pc := r.2 }
  | .ret =>
      match s.stack with
      | [] => none
      | caller :: stack => some { s with pc := .popFrontMsg caller, stack }
  | .go recv send => s.go kind recv send

/-- Who is to move; what is sent can be copied. -/
def Legal (s : EasyRun) : EasyEvent → Prop
  | .call (.sendData pData len) => s.pc = .user ∧
      ∀ c, s.client.client = some c → (c.sendData pData len).isSome
  | .call _ => s.pc = .user
  | .ret => s.pc = .user ∧ s.stack ≠ []
  | .go _ _ => s.pc ≠ .user

def system (kind : EasyKind) : System EasyRun EasyEvent where
  init s := s = ⟨.new, .user, []⟩
  step s l t := s.Legal l ∧ s.next kind l = some t

end EasyRun

end CellNet
