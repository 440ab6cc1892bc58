import CellNet.Model.CellSemaphore

/-! The restartable thread. Each section under a lock is one step; only `_cv.wait` gives its lock
back in the middle of a section. -/

namespace CellNet

open Library

/-! ### The run callback -/

/-- What a run callback does next: it goes on, calls `Exit` and then goes on, or returns. -/
inductive RunStep (ρ : Type*) where
  | goto (r : ρ)
  | exit (r : ρ)
  | ret
deriving Repr, DecidableEq

/-- A run callback with control points `ρ`; it reads `isRun()`, and `κ` are the answers of
its environment. -/
structure RunCallback (ρ κ : Type*) where
  enter : ρ
  step : Bool → ρ → κ → RunStep ρ

/-! ### The thread -/

/-- Where a worker is in `OnWork`. -/
inductive WorkerPc (ρ : Type*) where
  /-- In front of the return of `_onCreate`. -/
  | created
  | running (r : ρ)
  /-- Inside `Exit`, acquiring `_mutex`; the callback goes on at `r`. -/
  | exiting (r : ρ)
  /-- In front of the return of `_onDestory`. -/
  | destroying
  /-- In front of `_sem.wakeup()`. -/
  | waking
  /-- In front of `_isRun = false`. -/
  | clearing
  | ended
deriving Repr, DecidableEq

/-- Where the owner of the thread is: outside, or inside `Close`, holding `_mutex`. -/
inductive OwnerPc where
  | idle
  /-- In front of `_sem.wait()`. -/
  | closing
  /-- Inside `_cv.wait`. -/
  | blocked
deriving Repr, DecidableEq

structure CellThread (ρ : Type*) where
  isRun : Bool
  sem : CellSemaphore
  owner : OwnerPc
  workers : List (WorkerPc ρ)
deriving Repr, DecidableEq

inductive ThreadEvent (κ : Type*) where
  | start
  | close
  | exit
  /-- `_sem.wait()` up to its return or to its first wait on `_cv`. -/
  | semWait
  /-- A return from the wait on `_cv`, also a spurious one. -/
  | semRetest
  /-- A step of worker `i`, with the answer `k` of its environment. -/
  | work (i : ℕ) (k : κ)

namespace CellThread

variable {ρ κ : Type*}

def new : CellThread ρ := ⟨false, .new, .idle, []⟩

def start (t : CellThread ρ) : CellThread ρ :=
  if t.isRun then t else { t with isRun := true, workers := t.workers ++ [.created] }

/-- `Close`, up to `_sem.wait()`. -/
def close (t : CellThread ρ) : CellThread ρ :=
  if t.isRun then { t with isRun := false, owner := .closing } else t

def exit (t : CellThread ρ) : CellThread ρ :=
  if t.isRun then { t with isRun := false } else t

/-- One step of a worker: its next place, and `_isRun` and `_sem` after it. -/
def onWork (onRun : RunCallback ρ κ) (t : CellThread ρ) :
    WorkerPc ρ → κ → Option (WorkerPc ρ × Bool × CellSemaphore)
  | .created, _ => some (.running onRun.enter, t.isRun, t.sem)
  | .running r, k =>
      match onRun.step t.isRun r k with
      | .goto r' => some (.running r', t.isRun, t.sem)
      | .exit r' => some (.exiting r', t.isRun, t.sem)
      | .ret => some (.destroying, t.isRun, t.sem)
  | .exiting r, _ => if t.owner = .idle then some (.running r, t.exit.isRun, t.sem) else none
  | .destroying, _ => some (.waking, t.isRun, t.sem)
  | .waking, _ =>
      if t.sem.waitCount < 2147483647 then some (.clearing, t.isRun, t.sem.wakeup) else none
  | .clearing, _ => some (.ended, false, t.sem)
  | .ended, _ => none

/-- `none`: the event cannot happen now, or `++_wait` overflows. A section under `_mutex` waits
until it is free. -/
def next (onRun : RunCallback ρ κ) (t : CellThread ρ) : ThreadEvent κ → Option (CellThread ρ)
  | .start => if t.owner = .idle then some t.start else none
  | .close => if t.owner = .idle then some t.close else none
  | .exit => if t.owner = .idle then some t.exit else none
  | .semWait =>
      if t.owner = .closing then
        some { t with sem := t.sem.wait.1, owner := if t.sem.wait.2 then .idle else .blocked }
      else none
  | .semRetest =>
      if t.owner = .blocked then
        some { t with sem := t.sem.retest.1, owner := if t.sem.retest.2 then .idle else .blocked }
      else none
  | .work i k => do
      let pc ← t.workers[i]?
      let r ← onWork onRun t pc k
      some { t with isRun := r.2.1, sem := r.2.2, workers := t.workers.set i r.1 }

/-- All runs of a thread object, for an owner that calls its methods in any order. -/
def system (onRun : RunCallback ρ κ) : System (CellThread ρ) (ThreadEvent κ) where
  init t := t = new
  step t e t' := t.next onRun e = some t'

end CellThread

end CellNet
