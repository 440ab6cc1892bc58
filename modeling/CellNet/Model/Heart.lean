import CellNet.Model.MyServer
import CellNet.Model.OnRun

/-! The loops of the workers on a clock that does not go back. For each client it is kept since
when it has been silent: since it was put into `_clients`, or since its last `resetDtHeart`. -/

namespace CellNet

open Library

/-! ### The handlers that reset the time of a client -/

/-- `resets` says when the handler calls `resetDtHeart`; nothing else it does changes the time. -/
def Handler.Resets {σ : Type} (onNetMsg : Handler σ)
    (resets : σ → CellClient → List UInt8 → Bool) : Prop :=
  ∀ s c header, (onNetMsg s c header).2.dtHeart = if resets s c header then 0 else c.dtHeart

namespace MyServer

/-- `OnNetMsg`, as long as its behaviour is defined. -/
def handler (u : Locals) : Handler MyServer := fun s c header =>
  (s.onNetMsg u c header).getD (s, c)

/-- The two commands for which `OnNetMsg` calls `resetDtHeart`. -/
def resetsDtHeart (u : Locals) (s : MyServer) (c : CellClient) (header : List UInt8) : Bool :=
  (s.onNetMsg u c header).isSome && decide (cmd header = CMD_LOGIN ∨ cmd header = CMD_C2S_HEART)

end MyServer

/-! ### The loops with their clock -/

/-- Since when a client has been silent, and the `_old_time` that its worker had then. -/
structure Silence where
  since : ℤ
  oldTime : ℤ
deriving Repr, DecidableEq

structure HeartRun (π σ : Type) where
  loops : ServerLoops π σ
  /-- The latest reading. -/
  clock : ℤ
  silences : Ptr → Silence
  /-- Of each client that a `CheckTime` has removed, since when it was silent, and the time. -/
  removals : List (ℤ × ℤ)

inductive HeartEvent (α : Type) where
  | loop (e : LoopEvent α)
  /-- A call of `resetDtHeart` that is not one of `OnNetMsg`. -/
  | resetDtHeart (i : ℕ) (p : Ptr)

/-- An event, the time at which it ends, and the moment in between at which it put a client into
`_clients` or reset its time. -/
structure HeartStep (α : Type) where
  now : ℤ
  moment : Ptr → ℤ
  event : HeartEvent α

/-- What the event reads from the clock. -/
def LoopEvent.reading {α : Type} : LoopEvent α → Option ℤ
  | .drain _ nowTime => some nowTime
  | .checkTime _ nowTime => some nowTime
  | _ => none

/-- The clients of a worker, in its table or in its buffer. -/
def CellServer.ptrs {π : Type} (s : CellServer π) : List Ptr :=
  s.clients.entries.map Prod.snd ++ s.clientsBuff

namespace HeartRun

variable {π σ α : Type}

def entriesAt (s : ServerLoops π σ) (i : ℕ) : List (SOCKET × Ptr) :=
  (s.server.cellServers[i]?.map fun c => c.clients.entries).getD []

/-- The entries that a `CheckTime` has taken out. -/
def removed (s s' : ServerLoops π σ) : HeartEvent α → List (SOCKET × Ptr)
  | .loop (.checkTime i _) => (entriesAt s i).filter fun e => decide (e ∉ entriesAt s' i)
  | _ => []

section Begins

variable (resets : σ → CellClient → List UInt8 → Bool)

/-- The client whose message is handled next by the worker `i`, if that resets its time. -/
def resetBy (s : ServerLoops π σ) (i : ℕ) : Option Ptr :=
  match s.pcs[i]? with
  | some (.doMsg (k :: _)) => do
      let c ← s.server.cellServers[i]?
      let p ← c.clients.find? k
      let pClient ← s.server.net.heap.get? p
      if pClient.hasMsg && resets s.server.ext pClient pClient.frontMsg then some p else none
  | _ => none

/-- The `_old_time` of the worker, if the event puts the client `p` into `_clients` or resets its
time. -/
def begins (s : ServerLoops π σ) (p : Ptr) : HeartEvent α → Option ℤ
  | .loop (.drain i _) => do
      let c ← s.server.cellServers[i]?
      if p ∈ c.clientsBuff then some c.oldTime else none
  | .loop (.doMsg i) => do
      let c ← s.server.cellServers[i]?
      if resetBy resets s i = some p then some c.oldTime else none
  | .resetDtHeart i q => do
      let c ← s.server.cellServers[i]?
      if q = p then some c.oldTime else none
  | _ => none

/-- Since when each client is silent behind the step. -/
def renewed (s : HeartRun π σ) (l : HeartStep α) (p : Ptr) : Silence :=
  (begins resets s.loops p l.event).elim (s.silences p) fun oldTime => ⟨l.moment p, oldTime⟩

end Begins

section System

variable (t : ServerT) (onNetMsg : Handler σ) (resets : σ → CellClient → List UInt8 → Bool)

/-- What the event makes of the server and the places of its workers. -/
def act (s : ServerLoops t.Poller σ) : HeartEvent t.Answer → Option (ServerLoops t.Poller σ)
  | .loop e => ServerLoops.next t onNetMsg s e
  | .resetDtHeart _ p => (s.server.net.heap.get? p).map fun c =>
      { s with server := { s.server with net := s.server.net.setClient p c.resetDtHeart } }

def next (s : HeartRun t.Poller σ) (l : HeartStep t.Answer) : Option (HeartRun t.Poller σ) :=
  (act t onNetMsg s.loops l.event).map fun loops => {
    loops
    clock := l.now
    silences := s.renewed resets l
    removals := s.removals ++
      (removed s.loops loops l.event).map fun e => ((s.silences e.2).since, l.now) }

/-- The clock does not go back, nothing befalls a client before the last reading of its worker, and
the worker is at the place of the step. -/
def Legal (s : HeartRun t.Poller σ) (l : HeartStep t.Answer) : Prop :=
  s.clock ≤ l.now ∧ (∀ p, l.moment p ≤ l.now) ∧
    (∀ c ∈ s.loops.server.cellServers, ∀ p ∈ c.ptrs, c.oldTime ≤ l.moment p) ∧
    match l.event with
    | .loop e => ServerLoops.Legal t s.loops e ∧ ∀ nowTime ∈ e.reading, nowTime = l.now
    | .resetDtHeart i p => ∃ c, s.loops.server.cellServers[i]? = some c ∧ p ∈ c.ptrs

def system : System (HeartRun t.Poller σ) (HeartStep t.Answer) where
  init s := (ServerLoops.system t onNetMsg).init s.loops ∧
    (∀ c ∈ s.loops.server.cellServers, c.oldTime ≤ s.clock) ∧ s.removals = []
  step s l s' := Legal t s l ∧ next t onNetMsg resets s l = some s'

end System

/-- Every client that was removed had been silent for `CLIENT_HEART_DEAD_TIME`. -/
def NeverEarly (s : HeartRun π σ) : Prop :=
  ∀ r ∈ s.removals, CLIENT_HEART_DEAD_TIME ≤ r.2 - r.1

/-- No `CheckTime` falls in the time between `CLIENT_HEART_DEAD_TIME` after the last reading that
came before the silence of a client and `CLIENT_HEART_DEAD_TIME` after its beginning. -/
def Timely (s : HeartRun π σ) (l : HeartStep α) : Prop :=
  match l.event with
  | .loop (.checkTime i now) => ∀ e ∈ entriesAt s.loops i,
      now < (s.silences e.2).oldTime + CLIENT_HEART_DEAD_TIME ∨
        (s.silences e.2).since + CLIENT_HEART_DEAD_TIME ≤ now
  | _ => True

end HeartRun

end CellNet
