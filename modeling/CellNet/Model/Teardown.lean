import CellNet.Model.ServerLoop

/-! `EasyTcpServer::Close` deletes its servers one after the other while their workers
run. A destructor runs the statements of the derived class first. -/

namespace CellNet

open Library

inductive ServerKind where
  | select
  | epoll
  | iocp
deriving Repr, DecidableEq

/-- What matters of a destructor: a call of `CellServer::Close`, the destruction of the
poller state, and the moment from which virtual calls go to `CellServer`. -/
inductive DtorStep where
  | close
  | destroyPoller
  | toBase
deriving Repr, DecidableEq

/-- `~CellSelectServer` calls `Close` and then loses its fd sets as members; the other two
destroy their poller in the body. `~CellServer` calls `Close` in every case. -/
def ServerKind.destructor : ServerKind → List DtorStep
  | .select => [.close, .destroyPoller, .toBase, .close]
  | .epoll | .iocp => [.destroyPoller, .toBase, .close]

/-- A server object with the sizes of its two client tables. -/
structure ServerObject where
  kind : ServerKind
  thread : CellThread OnRunPc
  clients : ℕ
  clientsBuff : ℕ
  poller : Bool
  derived : Bool
  /-- What the destructor still has to do. -/
  todo : List DtorStep
deriving Repr, DecidableEq

namespace ServerObject

/-- The object after `CellServer::Start`. -/
def started (kind : ServerKind) : ServerObject where
  kind := kind
  thread := CellThread.new.start
  clients := 0
  clientsBuff := 0
  poller := true
  derived := true
  todo := kind.destructor

def onRun (o : ServerObject) : RunCallback OnRunPc (Option Bool) :=
  CellServer.onRun ⟨decide (o.clients + o.clientsBuff = 0), o.derived⟩

def addClient (o : ServerObject) : ServerObject :=
  { o with clientsBuff := o.clientsBuff + 1 }

/-- What the step of the worker does to the tables; `removed` clients leave. -/
def tables (o : ServerObject) (removed : ℕ) : WorkerPc OnRunPc → ServerObject
  | .running .body => { o with clients := o.clients + o.clientsBuff, clientsBuff := 0 }
  | .running .ready | .running .poll => { o with clients := o.clients - removed }
  | .destroying => { o with clients := 0, clientsBuff := 0 }
  | _ => o

/-- A step of the worker. -/
def work (o : ServerObject) (doNetEvent : Option Bool) (removed : ℕ) : Option ServerObject := do
  let pc ← o.thread.workers[0]?
  let thread ← o.thread.next o.onRun (.work 0 doNetEvent)
  some { o.tables removed pc with thread }

/-- A step of the thread that deletes the object. -/
def delete (o : ServerObject) : Option ServerObject :=
  match o.thread.owner, o.todo with
  | .closing, _ => (o.thread.next o.onRun .semWait).map fun thread => { o with thread }
  | .blocked, _ => (o.thread.next o.onRun .semRetest).map fun thread => { o with thread }
  | .idle, [] => none
  | .idle, .close :: todo =>
      (o.thread.next o.onRun .close).map fun thread => { o with thread, todo }
  | .idle, .destroyPoller :: todo => some { o with poller := false, todo }
  | .idle, .toBase :: todo => some { o with derived := false, todo }

end ServerObject

/-- The servers of an `EasyTcpServer`. `cur` is the one that `Close` is deleting; it is
`none` until the accepting thread has been closed. -/
structure TcpTeardown where
  servers : List ServerObject
  cur : Option ℕ
deriving Repr, DecidableEq

inductive TeardownEvent where
  /-- A client accepted and given to server `i`. -/
  | addClient (i : ℕ)
  | owner
  | work (i : ℕ) (doNetEvent : Option Bool) (removed : ℕ)

namespace TcpTeardown

def next (s : TcpTeardown) : TeardownEvent → Option TcpTeardown
  | .addClient i =>
      if s.cur = none then
        (s.servers[i]?).map fun o => { s with servers := s.servers.set i o.addClient }
      else none
  | .owner =>
      match s.cur with
      | none => some { s with cur := some 0 }
      | some n =>
          match s.servers[n]? with
          | none => none
          | some o =>
              if o.thread.owner = .idle ∧ o.todo = [] then some { s with cur := some (n + 1) }
              else o.delete.map fun o' => { s with servers := s.servers.set n o' }
  | .work i doNetEvent removed => do
      let o ← s.servers[i]?
      let o' ← o.work doNetEvent removed
      some { s with servers := s.servers.set i o' }

def system : System TcpTeardown TeardownEvent where
  init s := s.cur = none ∧ ∃ kinds : List ServerKind, s.servers = kinds.map .started
  step s e t := s.next e = some t

end TcpTeardown

end CellNet
