import CellNet.Library.Memory
import CellNet.Library.Transition

/-! The semaphore with its two counters, which are `int`s, and any number of threads that
call it. -/

namespace CellNet

open Library

structure CellSemaphore where
  waitCount : ℤ
  wakeupCount : ℤ
deriving Repr, DecidableEq

namespace CellSemaphore

def new : CellSemaphore := ⟨0, 0⟩

/-- The predicate of `_cv.wait` and the decrement behind it. The second component says
whether the call of `wait` returns. -/
def retest (s : CellSemaphore) : CellSemaphore × Bool :=
  if s.wakeupCount > 0 then ({ s with wakeupCount := s.wakeupCount - 1 }, true) else (s, false)

def wait (s : CellSemaphore) : CellSemaphore × Bool :=
  let s := { s with waitCount := wrap32 (s.waitCount - 1) }
  if s.waitCount < 0 then s.retest else (s, true)

def wakeup (s : CellSemaphore) : CellSemaphore :=
  let s := { s with waitCount := wrap32 (s.waitCount + 1) }
  if s.waitCount ≤ 0 then { s with wakeupCount := wrap32 (s.wakeupCount + 1) } else s

end CellSemaphore

/-- Where a thread is: outside the semaphore, or inside `_cv.wait`. -/
inductive SemPc where
  | idle
  | blocked
deriving Repr, DecidableEq

/-- The semaphore and its threads, with the number of calls of `wait` that were started and that
have returned, and of the calls of `wakeup`. -/
structure SemRun where
  sem : CellSemaphore
  threads : List SemPc
  started : ℕ
  returned : ℕ
  made : ℕ
deriving Repr, DecidableEq

/-- The sections under the lock, by the thread that is in them. -/
inductive SemEvent where
  /-- `wait` up to its return or to its first wait on `_cv`. -/
  | wait (i : ℕ)
  /-- A return from the wait on `_cv`, also a spurious one. -/
  | retest (i : ℕ)
  | wakeup (i : ℕ)
deriving Repr, DecidableEq

namespace SemRun

def blocked (s : SemRun) : ℕ := s.threads.count .blocked

/-- Thread `i` leaves its section with `r`. -/
def leave (s : SemRun) (i : ℕ) (r : CellSemaphore × Bool) : SemRun :=
  { s with
    sem := r.1
    threads := s.threads.set i (if r.2 then .idle else .blocked)
    returned := s.returned + if r.2 then 1 else 0 }

/-- `none`: the thread is somewhere else. -/
def next (s : SemRun) : SemEvent → Option SemRun
  | .wait i =>
      if s.threads[i]? = some .idle then
        some ({ s with started := s.started + 1 }.leave i s.sem.wait)
      else none
  | .retest i => if s.threads[i]? = some .blocked then some (s.leave i s.sem.retest) else none
  | .wakeup i =>
      if s.threads[i]? = some .idle then
        some { s with sem := s.sem.wakeup, made := s.made + 1 }
      else none

def new (n : ℕ) : SemRun := ⟨.new, List.replicate n .idle, 0, 0, 0⟩

/-- Every interleaving of the calls of any number of threads. -/
def system : System SemRun SemEvent where
  init s := ∃ n, s = new n
  step s e t := s.next e = some t

/-- The counter that the call changes does not leave `int`. -/
def InRange (s : SemRun) : SemEvent → Prop
  | .wait _ => -2147483648 < s.sem.waitCount
  | .retest _ => True
  | .wakeup _ => s.sem.waitCount < 2147483647 ∧
      (s.sem.waitCount < 0 → s.sem.wakeupCount < 2147483647)

end SemRun

end CellNet
