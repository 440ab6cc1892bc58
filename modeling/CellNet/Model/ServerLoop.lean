import CellNet.Model.CellThread

/-! The loop of `CellServer::OnRun` as a run callback. -/

namespace CellNet

/-- Where `OnRun` is in its loop. -/
inductive OnRunPc where
  /-- In front of `while (pThread->isRun())`. -/
  | test
  /-- In front of the draining of `_clientsBuff` and the test for clients. -/
  | body
  /-- In front of the virtual call of `DoNetEvent`. -/
  | ready
  /-- Inside `DoNetEvent` of the derived class. -/
  | poll
  /-- In front of `DoMsg`. -/
  | msgs
  /-- Behind the `break`. -/
  | left
deriving Repr, DecidableEq

/-- What the loop finds: whether no client is there after draining, and whether the
object still has the class whose `DoNetEvent` polls. -/
structure OnRunEnv where
  clientsEmpty : Bool
  derived : Bool

/-- The answer is what `DoNetEvent` returns; it is `none` while it goes on polling. The
`DoNetEvent` of the base class returns false at once. -/
def CellServer.onRun (e : OnRunEnv) : RunCallback OnRunPc (Option Bool) where
  enter := .test
  step isRun pc doNetEvent :=
    match pc with
    | .test => if isRun then .goto .body else .ret
    | .body => if e.clientsEmpty then .goto .test else .goto .ready
    | .ready => if e.derived then .goto .poll else .exit .left
    | .poll =>
        match doNetEvent with
        | none => .goto .poll
        | some true => .goto .msgs
        | some false => .exit .left
    | .msgs => .goto .test
    | .left => .ret

/-- The loop of a server that has a client. -/
def CellServer.busyLoop : RunCallback OnRunPc (Option Bool) :=
  onRun ⟨false, true⟩

end CellNet
