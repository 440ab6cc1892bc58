import CellNet.Model.CellServer

/-! The worker that waits for its sockets with `select`. -/

namespace CellNet

open Library

/-- `CellFDSet`, as the descriptors in the order in which they were added. -/
abbrev CellFDSet := List SOCKET

namespace CellFDSet

def add (s : CellFDSet) (fd : SOCKET) : CellFDSet := if fd ∈ s then s else s ++ [fd]

def has (s : CellFDSet) (fd : SOCKET) : Bool := decide (fd ∈ s)

end CellFDSet

/-- The fields of `CellSelectServer`. -/
structure SelectSets where
  fdRead : CellFDSet
  fdWrite : CellFDSet
  fdReadBak : CellFDSet
  maxSock : SOCKET

/-- What `select` answers: it fails, interrupted or not, or leaves these descriptors in
the sets. -/
inductive SelectResult where
  | error (eintr : Bool)
  | ready (read write : CellFDSet)

/-- The result of `select`, with what `recv` and `send` will answer on each socket. -/
structure SelectAnswer where
  result : SelectResult
  recv : SOCKET → Option (List UInt8)
  ret : SOCKET → ℤ

/-- Which branch of `#ifdef _WIN32` is compiled. -/
inductive Platform where
  | windows
  | linux
deriving Repr, DecidableEq

namespace CellSelectServer

def onClientJoin (w : Worker SelectSets) (_ : Ptr) : Option (Worker SelectSets) := some w

/-- `begin()` of an empty map is not dereferenceable. -/
def rebuild (n : Net) (s : CellServer SelectSets) : Option (CellServer SelectSets) :=
  match s.clients.entries with
  | [] => none
  | first :: _ =>
      (n.sockfd? first.2).map fun fd =>
        let fdRead := s.clients.entries.foldl (fun set e => CellFDSet.add set e.1) []
        let maxSock := s.clients.entries.foldl (fun m e => if e.1 > m then e.1 else m) fd
        { s with
          clientsChange := false
          poller := { s.poller with fdRead, fdReadBak := fdRead, maxSock } }

/-- The read set and `_maxSock` for the next call of `select`. -/
def prepareRead (n : Net) (s : CellServer SelectSets) : Option (CellServer SelectSets) :=
  if s.clientsChange then rebuild n s
  else some { s with poller := { s.poller with fdRead := s.poller.fdReadBak } }

/-- `iter->second->needWrite()`. -/
def needWrite (n : Net) (p : Ptr) : Option Bool := (n.heap.get? p).map CellClient.needWrite

/-- The write set for the next call of `select`, and `bNeedWrite`. -/
def writeSet (n : Net) (s : CellServer SelectSets) : Option (CellFDSet × Bool) :=
  s.clients.entries.foldlM
    (fun x e => (needWrite n e.2).map fun b =>
      if b then (CellFDSet.add x.1 e.1, true) else x) ([], false)

/-- `OnClientLeave(iter->second); _clients.erase(iter);` -/
def remove (e : SOCKET × Ptr) (w : Worker SelectSets) : Option (Worker SelectSets) :=
  (w.onClientLeave e.2).map fun w => (w.1, w.2.eraseClient e.1)

/-- Receives from the client of one entry. -/
def readEntry (a : SelectAnswer) (w : Worker SelectSets) (e : SOCKET × Ptr) :
    Option (Worker SelectSets) :=
  (w.orRemove (fun w => w.recvData e.2 (a.recv e.1)) (remove e)).map Prod.fst

/-- Sends to the client of one entry. -/
def writeEntry (a : SelectAnswer) (w : Worker SelectSets) (e : SOCKET × Ptr) :
    Option (Worker SelectSets) :=
  (w.orRemove (fun w => w.sendDataReal e.2 (a.ret e.1)) (remove e)).map Prod.fst

/-- A descriptor of the array is looked up in `_clients`. -/
def lookUp (body : Worker SelectSets → SOCKET × Ptr → Option (Worker SelectSets))
    (w : Worker SelectSets) (fd : SOCKET) : Option (Worker SelectSets) :=
  match w.2.clients.find? fd with
  | none => some w
  | some p => body w (fd, p)

/-- The loop over the array of a set. -/
def overArray (body : Worker SelectSets → SOCKET × Ptr → Option (Worker SelectSets))
    (set : CellFDSet) (w : Worker SelectSets) : Option (Worker SelectSets) :=
  set.foldlM (lookUp body) w

/-- The loop over `_clients`: each entry is looked up in a set, after a further test of
its client. It erases no entry but the one it is at. -/
def overClients (body : Worker SelectSets → SOCKET × Ptr → Option (Worker SelectSets))
    (test : Net → Ptr → Option Bool) (set : CellFDSet) (w : Worker SelectSets) :
    Option (Worker SelectSets) :=
  w.2.clients.entries.foldlM (fun w e => do
    let b ← test w.1 e.2
    if b && CellFDSet.has set e.1 then body w e else some w) w

def readData (platform : Platform) (a : SelectAnswer) (w : Worker SelectSets) :
    Option (Worker SelectSets) :=
  match platform with
  | .windows => overArray (readEntry a) w.2.poller.fdRead w
  | .linux => overClients (readEntry a) (fun _ _ => some true) w.2.poller.fdRead w

def writeData (platform : Platform) (a : SelectAnswer) (w : Worker SelectSets) :
    Option (Worker SelectSets) :=
  match platform with
  | .windows => overArray (writeEntry a) w.2.poller.fdWrite w
  | .linux => overClients (writeEntry a) needWrite w.2.poller.fdWrite w

/-- What follows a successful `select`, which left its descriptors in the sets. -/
def afterSelect (platform : Platform) (a : SelectAnswer) (w : Worker SelectSets) :
    Option (Worker SelectSets × Bool) :=
  if w.2.poller.fdRead = [] ∧ w.2.poller.fdWrite = [] then some (w, true)
  else do
    let w ← readData platform a w
    let w ← writeData platform a w
    some (w, true)

/-- `select` gets the write set only if a client needs it. -/
def doNetEvent (platform : Platform) (w : Worker SelectSets) (a : SelectAnswer) :
    Option (Worker SelectSets × Bool) := do
  let s ← prepareRead w.1 w.2
  let x ← writeSet w.1 s
  match a.result with
  | .error eintr => some ((w.1, { s with poller.fdWrite := x.1 }), eintr)
  | .ready read write =>
      afterSelect platform a (w.1, { s with
        poller.fdRead := read
        poller.fdWrite := if x.2 then write else x.1 })

/-- The kernel leaves in a set only descriptors that were in it, and the server polls
only with a client. -/
def Reports (w : Worker SelectSets) (a : SelectAnswer) : Prop :=
  w.2.clients.entries ≠ [] ∧
    ∀ s x read write, prepareRead w.1 w.2 = some s → writeSet w.1 s = some x →
      a.result = .ready read write →
        read.Nodup ∧ read ⊆ s.poller.fdRead ∧ write.Nodup ∧ write ⊆ x.1

end CellSelectServer

end CellNet
