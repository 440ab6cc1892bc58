import CellNet.Model.CellThread

/-! The task server: two task lists and the thread that works on them. A test of a list, a
section under its lock, and the beginning and the end of a task are single steps. -/

namespace CellNet

open Library

/-- Where `CellTaskServer::OnRun` is. -/
inductive TaskPc where
  /-- In front of `while (pThread->isRun())`. -/
  | test
  /-- In front of `if (!_tasksBuf.empty())`. -/
  | testBuf
  /-- In front of the section that moves `_tasksBuf` to the end of `_tasks`. -/
  | drain
  /-- In front of `if (_tasks.empty())`. -/
  | testTasks
  /-- In the loop over `_tasks`, in front of element `i`. -/
  | exec (i : ℕ)
  /-- Inside that task. -/
  | call (i : ℕ)
  /-- In front of `_tasks.clear()`. -/
  | clear
  /-- In the last loop, over `_tasksBuf`, in front of element `i`. -/
  | sweep (i : ℕ)
  | callBuf (i : ℕ)
deriving Repr, DecidableEq

/-- The loop finds `tasks` elements in `_tasks` and `tasksBuf` elements in `_tasksBuf`. -/
def CellTaskServer.loop (tasks tasksBuf : ℕ) : RunCallback TaskPc Unit where
  enter := .test
  step isRun pc _ :=
    match pc with
    | .test => if isRun then .goto .testBuf else .goto (.sweep 0)
    | .testBuf => if tasksBuf ≠ 0 then .goto .drain else .goto .testTasks
    | .drain => .goto .testTasks
    | .testTasks => if tasks = 0 then .goto .test else .goto (.exec 0)
    | .exec i => if i < tasks then .goto (.call i) else .goto .clear
    | .call i => .goto (.exec (i + 1))
    | .clear => .goto .test
    | .sweep i => if i < tasksBuf then .goto (.callBuf i) else .ret
    | .callBuf i => .goto (.sweep (i + 1))

/-- The task server with the history of its tasks: `added` in the order of the calls of
`addTask`, `executed` in the order in which they began. `closedAt` is the number of tasks
added when `Close` was called. -/
structure CellTaskServer (τ : Type*) where
  tasks : List τ
  tasksBuf : List τ
  thread : CellThread TaskPc
  added : List τ
  executed : List τ
  closedAt : Option ℕ

inductive TaskEvent (τ : Type*) where
  /-- `addTask`, from any thread or from inside a task. -/
  | addTask (task : τ)
  | start
  | close
  /-- A step inside `Close`. -/
  | semWait
  | semRetest
  | work (i : ℕ)

namespace CellTaskServer

variable {τ : Type*}

def new : CellTaskServer τ := ⟨[], [], .new, [], [], none⟩

def onRun (s : CellTaskServer τ) : RunCallback TaskPc Unit :=
  loop s.tasks.length s.tasksBuf.length

def addTask (s : CellTaskServer τ) (task : τ) : CellTaskServer τ :=
  { s with tasksBuf := s.tasksBuf ++ [task], added := s.added ++ [task] }

/-- What the step of a worker at `pc` does to the lists. -/
def lists (s : CellTaskServer τ) : WorkerPc TaskPc → CellTaskServer τ
  | .running .drain => { s with tasks := s.tasks ++ s.tasksBuf, tasksBuf := [] }
  | .running (.exec i) => { s with executed := s.executed ++ s.tasks[i]?.toList }
  | .running .clear => { s with tasks := [] }
  | .running (.sweep i) => { s with executed := s.executed ++ s.tasksBuf[i]?.toList }
  | _ => s

/-- `none`: the event cannot happen now. -/
def next (s : CellTaskServer τ) : TaskEvent τ → Option (CellTaskServer τ)
  | .addTask task => some (s.addTask task)
  | .start => (s.thread.next s.onRun .start).map fun thread => { s with thread }
  | .close => (s.thread.next s.onRun .close).map fun thread =>
      { s with thread, closedAt := some s.added.length }
  | .semWait => (s.thread.next s.onRun .semWait).map fun thread => { s with thread }
  | .semRetest => (s.thread.next s.onRun .semRetest).map fun thread => { s with thread }
  | .work i => (s.thread.workers[i]?).bind fun pc =>
      (s.thread.next s.onRun (.work i ())).map fun thread => { s.lists pc with thread }

def system (τ : Type*) : System (CellTaskServer τ) (TaskEvent τ) where
  init s := s = new
  step s e t := s.next e = some t

end CellTaskServer

end CellNet
