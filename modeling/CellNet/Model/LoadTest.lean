import CellNet.Library.Memory
import CellNet.Library.Rounding
import CellNet.Library.Transition
import CellNet.Model.EasyClient
import CellNet.Model.EasyTcpClient
import Mathlib.Data.Rat.Floor

/-! The test client program with all its threads: `main`, and the `WorkThread`s with the counters
that they share. A step makes at most one access to what is shared. A result `none` is a thread that
waits or has ended, or the use of a null pointer. -/

namespace CellNet

open Library

/-- What `epoll_wait` answers, and `recv` and `send` for the flags of its event. -/
inductive RunAnswer where
  | interrupted
  | failed
  | timeout
  | ready (epollin : Option (Option (List UInt8))) (epollout : Option ℤ)
deriving Repr, DecidableEq

namespace MyClient

/-- `EasyTcpClient::DoMsg`; `none` also stands for a loop that does not end. -/
def doMsgLoop : ℕ → EasyTcpClient MyClient → Option (EasyTcpClient MyClient)
  | 0, _ => none
  | fuel + 1, e => e.hasMsg.bind fun b => if b then (doMsg e).bind (doMsgLoop fuel) else some e

/-- `EasyTcpClient::RecvData`. -/
def recvData (e : EasyTcpClient MyClient) (recv : Option (List UInt8)) :
    Option (EasyTcpClient MyClient × ℤ) :=
  if e.isRun then
    e.pClient.bind fun c =>
      let r := c.recvData recv
      let e := { e with pClient := some r.1 }
      if r.2 > 0 then (doMsgLoop (r.1.recvBuff.nLast.toNat + 1) e).map fun e => (e, r.2)
      else some (e, r.2)
  else some (e, 0)

/-- The flag `EPOLLIN` of an event. The second component is the `continue`. -/
def onEpollIn (e : EasyTcpClient MyClient) :
    Option (Option (List UInt8)) → Option (EasyTcpClient MyClient × Bool)
  | none => some (e, false)
  | some recv => (recvData e recv).map fun r =>
      if SOCKET_ERROR = r.2 then (r.1.close, true) else (r.1, false)

/-- The flag `EPOLLOUT`. -/
def onEpollOut (e : EasyTcpClient MyClient) : Option ℤ → Option (EasyTcpClient MyClient)
  | none => some e
  | some send => e.pClient.map fun c =>
      let r := c.sendDataReal send
      if SOCKET_ERROR = r.2 then e.close else { e with pClient := some r.1 }

/-- `EasyEpollClient::OnRun`. -/
def onRun (e : EasyTcpClient MyClient) (a : RunAnswer) :
    Option (EasyTcpClient MyClient × Bool) :=
  if e.isRun then
    match a with
    | .interrupted | .timeout => some (e, true)
    | .failed => some (e.close, false)
    | .ready epollin epollout => (onEpollIn e epollin).bind fun r =>
        if r.2 then some (r.1, true) else (onEpollOut r.1 epollout).map fun e => (e, true)
  else some (e, false)

/-- The constructor, and the `_tRestTime` of client `n`. -/
def create (cfg : ClientConfig) (hasKey : Bool) (n : ℕ) : EasyTcpClient MyClient where
  pClient := none
  isConnect := false
  ext := { MyClient.new hasKey with
    tRestTime := (n : ℤ) % (if cfg.nSendSleep > 0 then cfg.nSendSleep else 1) }

/-- `InitSocket` of a client that has no socket yet, and `Connect`; `ret` is what `connect` returns.
The second component says whether both have succeeded. -/
def connect (e : EasyTcpClient MyClient) (x : SocketAnswer) (ret : ℤ) :
    EasyTcpClient MyClient × Bool :=
  if x.sock = INVALID_SOCKET then (e, false)
  else
    let e := { e with pClient := some (.new x.id x.sock x.sendBuff x.recvBuff) }
    if ret = SOCKET_ERROR then (e, false) else ({ e with isConnect := true }, true)

end MyClient

/-! ### `WorkThread` -/

/-- The globals of the program, and what the threads write into `login`. -/
structure LoadConfig extends ClientConfig where
  nThread : ℕ
  nClient : ℕ
  hasKey : Bool
  login : LoginFields
  nThread_le : nThread ≤ 2147483647

/-- `std::atomic_int`: an overflow wraps around. -/
structure Counters where
  sendCount : ℤ
  readyCount : ℤ
  nConnect : ℤ
deriving Repr, DecidableEq

/-- The statement of `WorkThread` that comes next. -/
inductive WorkPc where
  | creating (n : ℕ)
  /-- The test of `isRun()` in front of `InitSocket`. -/
  | connecting (n : ℕ)
  | opening (n : ℕ)
  /-- `nConnect++`, behind `Connect`. -/
  | connected (n : ℕ)
  /-- `readyCount++`. -/
  | ready
  /-- The two tests of the loop that waits for the other threads. -/
  | waiting
  | waitRun
  /-- The test of the main loop. -/
  | loop
  | sending (m n : ℕ)
  /-- `++sendCount`, behind `SendTest`. -/
  | sent (m n : ℕ)
  | running (n : ℕ)
  /-- `nConnect--`, behind `OnRun`. -/
  | dropped (n : ℕ)
  | closing (n : ℕ)
  /-- `--readyCount`. -/
  | leaving
  | finished
deriving Repr, DecidableEq

structure WorkThread where
  isRun : Bool
  pc : WorkPc
  clients : List (Option (EasyTcpClient MyClient))
  dt : ℤ

/-- What is answered to a step of a thread. -/
structure WorkAnswer where
  socket : SocketAnswer
  connect : ℤ
  dt : ℤ
  run : RunAnswer

namespace WorkThread

def start (cfg : LoadConfig) : WorkThread := ⟨true, .creating 0, .replicate cfg.nClient none, 0⟩

/-- `*clients[n]`. -/
def client (t : WorkThread) (n : ℕ) : Option (EasyTcpClient MyClient) := t.clients[n]?.join

def put (t : WorkThread) (n : ℕ) (e : Option (EasyTcpClient MyClient)) (pc : WorkPc) :
    WorkThread :=
  { t with clients := t.clients.set n e, pc }

def goto (t : WorkThread) (pc : WorkPc) : WorkThread := { t with pc }

/-- `InitSocket` and `Connect`. -/
def opens (t : WorkThread) (n : ℕ) (a : WorkAnswer) : Option WorkThread :=
  (t.client n).map fun e =>
    let r := MyClient.connect e a.socket a.connect
    t.put n (some r.1) (if r.2 then .connected n else .ready)

/-- The test of `SendTest(&login) > 0`, for a client that runs. -/
def sends (cfg : LoadConfig) (t : WorkThread) (m n : ℕ) : Option WorkThread := do
  let e ← t.client n
  if e.isRun then do
    let r ← MyClient.sendTest cfg.toClientConfig e cfg.login.val
    some (t.put n (some r.1) (if r.2 > 0 then .sent m n else .sending m (n + 1)))
  else some (t.goto (.sending m (n + 1)))

/-- The test of `OnRun`, and `checkSend`, for a client that runs. -/
def runs (cfg : LoadConfig) (t : WorkThread) (n : ℕ) (a : WorkAnswer) : Option WorkThread := do
  let e ← t.client n
  if e.isRun then do
    let r ← MyClient.onRun e a.run
    if r.2 then
      let e := { r.1 with ext := (r.1.ext.checkSend cfg.toClientConfig t.dt).1 }
      some (t.put n (some e) (.running (n + 1)))
    else some (t.put n (some r.1) (.dropped n))
  else some (t.goto (.running (n + 1)))

/-- `Close` and `delete`. -/
def closes (t : WorkThread) (n : ℕ) : Option WorkThread :=
  (t.client n).map fun _ => t.put n none (.closing (n + 1))

def step (cfg : LoadConfig) (k : Counters) (t : WorkThread) (a : WorkAnswer) :
    Option (Counters × WorkThread) :=
  match t.pc with
  | .creating n =>
      if n < cfg.nClient ∧ t.isRun = true then
        some (k, t.put n (some (MyClient.create cfg.toClientConfig cfg.hasKey n))
          (.creating (n + 1)))
      else some (k, t.goto (.connecting 0))
  | .connecting n =>
      some (k, t.goto (if n < cfg.nClient ∧ t.isRun = true then .opening n else .ready))
  | .opening n => (t.opens n a).map fun t => (k, t)
  | .connected n =>
      some ({ k with nConnect := wrap32 (k.nConnect + 1) }, t.goto (.connecting (n + 1)))
  | .ready => some ({ k with readyCount := wrap32 (k.readyCount + 1) }, t.goto .waiting)
  | .waiting => some (k, t.goto (if k.readyCount < cfg.nThread then .waitRun else .loop))
  | .waitRun => some (k, t.goto (if t.isRun then .waiting else .loop))
  | .loop => some (k, if t.isRun then { t with dt := a.dt, pc := .sending 0 0 }
      else t.goto (.closing 0))
  | .sending m n =>
      if (m : ℤ) < cfg.nMsg then
        if n < cfg.nClient then (t.sends cfg m n).map fun t => (k, t)
        else some (k, t.goto (.sending (m + 1) 0))
      else some (k, t.goto (.running 0))
  | .sent m n =>
      some ({ k with sendCount := wrap32 (k.sendCount + 1) }, t.goto (.sending m (n + 1)))
  | .running n =>
      if n < cfg.nClient then (t.runs cfg n a).map fun t => (k, t) else some (k, t.goto .loop)
  | .dropped n =>
      some ({ k with nConnect := wrap32 (k.nConnect - 1) }, t.goto (.running (n + 1)))
  | .closing n =>
      if n < cfg.nClient then (t.closes n).map fun t => (k, t) else some (k, t.goto .leaving)
  | .leaving => some ({ k with readyCount := wrap32 (k.readyCount - 1) }, t.goto .finished)
  | .finished => none

end WorkThread

/-! ### `main` -/

inductive MainPc where
  | starting
  /-- The test of `tCmd.isRun()`. -/
  | stats
  | printing (t : ℚ)
  | resetting
  /-- `threads[n]->Close()`, up to its wait for the thread. -/
  | closing (n : ℕ)
  | joining (n : ℕ)
  | done
deriving Repr, DecidableEq

/-- `double`. -/
def double : FloatFormat := ⟨53, -1074, by decide, by decide⟩

/-- `(int)(sendCount / t)`; both operands are numbers of the format. -/
def perSecond (sendCount : ℤ) (t : ℚ) : ℤ := truncate (double.round ((sendCount : ℚ) / t))

/-- `shown` are the numbers that were printed for `sendCount`. -/
structure LoadTest where
  counters : Counters
  threads : List WorkThread
  main : MainPc
  tCmd : Bool
  shown : List ℤ

inductive LoadEvent where
  /-- The user has entered `exit`. -/
  | command
  /-- A step of `main`; `t` are the seconds of its time stamp, if it is asked. -/
  | main (t : ℚ)
  | work (i : ℕ) (a : WorkAnswer)

namespace LoadTest

def new : LoadTest := ⟨⟨0, 0, 0⟩, [], .starting, true, []⟩

def stepMain (cfg : LoadConfig) (s : LoadTest) (t : ℚ) : Option LoadTest :=
  match s.main with
  | .starting =>
      if s.threads.length < cfg.nThread then
        some { s with threads := s.threads ++ [.start cfg] }
      else some { s with main := .stats }
  | .stats =>
      if s.tCmd then some { s with main := if t ≥ 1 then .printing t else .stats }
      else some { s with main := .closing 0 }
  | .printing t =>
      some { s with
        shown := s.shown ++ [perSecond s.counters.sendCount t]
        main := .resetting }
  | .resetting => some { s with counters := { s.counters with sendCount := 0 }, main := .stats }
  | .closing n => some (match s.threads[n]? with
      | some t => { s with
          threads := s.threads.set n { t with isRun := false }
          main := .joining n }
      | none => { s with main := .done })
  | .joining n => do
      let t ← s.threads[n]?
      if t.pc = .finished then some { s with main := .closing (n + 1) } else none
  | .done => none

def next (cfg : LoadConfig) (s : LoadTest) : LoadEvent → Option LoadTest
  | .command => some { s with tCmd := false }
  | .main t => s.stepMain cfg t
  | .work i a => do
      let t ← s.threads[i]?
      let r ← t.step cfg s.counters a
      some { s with counters := r.1, threads := s.threads.set i r.2 }

/-- All runs of the program, in any order of steps of its threads. -/
def system (cfg : LoadConfig) : System LoadTest LoadEvent where
  init s := s = new
  step s e s' := s.next cfg e = some s'

end LoadTest

end CellNet
