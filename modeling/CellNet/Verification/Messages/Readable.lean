import CellNet.Model.CellEpollServer
import CellNet.Model.CellSelectServer
import CellNet.Model.EasyTcpClient
import CellNet.Verification.Buffer.Semantics

/-! What the two sides make of a readable socket. A full buffer reads nothing: the server takes
that for an error, the client does not. -/

namespace CellNet

open Library

namespace CellBuffer

variable {b : CellBuffer} {recv : Option (List UInt8)}

/-- A buffer that takes nothing answers 0 when it is full, and the error otherwise. -/
theorem read4socket_nothing (h : b.taken recv = []) :
    b.read4socket recv = (b, if b.nSize - b.nLast > 0 then SOCKET_ERROR else 0) := by
  by_cases hs : b.nSize - b.nLast > 0
  · rw [taken, if_pos hs] at h
    rw [if_pos hs, read4socket_none hs h]
  · rw [if_neg hs, read4socket_full hs]

theorem read4socket_positive (h : b.taken recv ≠ []) : 0 < (b.read4socket recv).2 := by
  by_cases hs : b.nSize - b.nLast > 0
  · rw [taken, if_pos hs] at h
    cases recv with
    | none => exact absurd rfl h
    | some bytes =>
        have hn : bytes ≠ [] := h
        rw [read4socket_some hs hn]
        exact Int.natCast_pos.mpr (List.length_pos_iff.mpr hn)
  · rw [taken, if_neg hs] at h
    exact absurd rfl h

end CellBuffer

variable {π σ : Type} {c c' : CellClient} {recv : Option (List UInt8)}

/-- The object of a client after the server read from its socket; a removed one is deleted. -/
def CellClient.afterRead (c : CellClient) (recv : Option (List UInt8)) : Option CellClient :=
  if c.recvBuff.taken recv = [] then none else some (c.recvData recv).1

/-! ### The server -/

namespace Net

theorem delete_get? {n : Net} {p : Ptr} (hc : n.heap.get? p = some c)
    (ho : c.sockfd ∈ n.openSocks) : ∃ n', n.delete p = some n' ∧ n'.heap.get? p = none := by
  rw [delete, destroy, hc, Option.bind_eq_bind, Option.bind_some]
  by_cases hs : SOCKET_ERROR ≠ c.sockfd
  · rw [if_pos hs, destroySocket, if_pos ho]
    refine ⟨_, rfl, ?_⟩
    simp [Heap.get?_free]
  · rw [if_neg hs]
    refine ⟨_, rfl, ?_⟩
    simp [Heap.get?_free]

end Net

namespace Worker

/-- `rm` deletes the client `p`, whatever is in its receive buffer. -/
def Removes (rm : Worker π → Option (Worker π)) (p : Ptr) : Prop :=
  ∀ w c, w.1.heap.get? p = some c → c.sockfd ∈ w.1.openSocks →
    ∃ w', rm w = some w' ∧ w'.1.heap.get? p = none

theorem onClientLeave_removes {w : Worker π} {p : Ptr} (hc : w.1.heap.get? p = some c)
    (ho : c.sockfd ∈ w.1.openSocks) :
    ∃ w', w.onClientLeave p = some w' ∧ w'.1.heap.get? p = none := by
  obtain ⟨n, hn, hp⟩ := Net.delete_get? (n := w.1.onNetLeave p) hc ho
  exact ⟨_, by rw [onClientLeave, hn, Option.map_some], hp⟩

/-- The client stays with what was read, or is removed. -/
theorem orRemove_reads {rm : Worker π → Option (Worker π)} {p : Ptr} (hrm : Removes rm p)
    {w : Worker π} (hc : w.1.heap.get? p = some c) (ho : c.sockfd ∈ w.1.openSocks)
    (recv : Option (List UInt8)) :
    ∃ r, w.orRemove (fun w => w.recvData p recv) rm = some r ∧
      r.1.1.heap.get? p = c.afterRead recv := by
  have hset : (w.1.setClient p (c.recvData recv).1).heap.get? p = some (c.recvData recv).1 := by
    rw [Net.setClient, Heap.get?_set hc, if_pos rfl]
  by_cases ht : c.recvBuff.taken recv = []
  · have hle : (c.recvData recv).2 ≤ 0 := by
      simp only [CellClient.recvData, CellBuffer.read4socket_nothing ht]
      split
      · decide
      · exact le_rfl
    obtain ⟨w', hw, hp⟩ := hrm (w.1.setClient p (c.recvData recv).1, w.2) _ hset ho
    refine ⟨(w', true), ?_, ?_⟩
    · simp only [orRemove, recvData, hc, Option.bind_eq_bind, Option.bind_some, hle, if_true, hw,
        Option.map_some]
    · rw [CellClient.afterRead, if_pos ht]
      exact hp
  · have hpos : 0 < (c.recvData recv).2 := CellBuffer.read4socket_positive ht
    have hne : (c.recvData recv).2 ≠ SOCKET_ERROR := by
      rw [SOCKET_ERROR]
      omega
    refine ⟨(((w.1.setClient p (c.recvData recv).1).onNetRecv, w.2), false), ?_, ?_⟩
    · simp only [orRemove, recvData, hc, Option.bind_eq_bind, Option.bind_some, not_le.mpr hpos,
        if_false, hne]
    · rw [CellClient.afterRead, if_neg ht]
      exact hset

end Worker

theorem CellEpollServer.rmClient_removes (p : Ptr) : Worker.Removes (rmClient p) p := by
  intro w c hc ho
  obtain ⟨w', hw, hp⟩ := Worker.onClientLeave_removes (w := (w.1,
    if (w.2.clients.find? c.sockfd).isSome then w.2.eraseClient c.sockfd else w.2)) hc ho
  refine ⟨w', ?_, hp⟩
  rw [rmClient, hc]
  exact hw

theorem CellSelectServer.remove_removes (e : SOCKET × Ptr) : Worker.Removes (remove e) e.2 := by
  intro w c hc ho
  obtain ⟨w', hw, hp⟩ := Worker.onClientLeave_removes hc ho
  refine ⟨(w'.1, w'.2.eraseClient e.1), ?_, hp⟩
  rw [remove, hw, Option.map_some]

/-! ### The client -/

namespace EasyTcpClient

variable {e : EasyTcpClient σ} (onNetMsg : EasyTcpClient σ → List UInt8 → EasyTcpClient σ)

/-- With something to read the messages follow; otherwise only a buffer that is not full closes
the client. -/
theorem onReadable_eq (hc : e.pClient = some c) (hr : e.isConnect = true) (fuel : ℕ)
    (recv : Option (List UInt8)) : e.onReadable onNetMsg fuel recv =
      if c.recvBuff.taken recv = [] then
        some (if c.recvBuff.nSize - c.recvBuff.nLast > 0 then e.close else e)
      else doMsg onNetMsg fuel { e with pClient := some (c.recvData recv).1 } := by
  have hrun : e.isRun = true := by simp [isRun, hc, hr]
  simp only [onReadable, recvData, hrun, if_true, hc, Option.bind_some]
  by_cases ht : c.recvBuff.taken recv = []
  · have hq : c.recvData recv =
        (c, if c.recvBuff.nSize - c.recvBuff.nLast > 0 then SOCKET_ERROR else 0) := by
      rw [CellClient.recvData, CellBuffer.read4socket_nothing ht]
    have he : ({ e with pClient := some c } : EasyTcpClient σ) = e := by rw [← hc]
    rw [if_pos ht, hq, he]
    by_cases hs : c.recvBuff.nSize - c.recvBuff.nLast > 0
    · rw [if_pos hs, if_pos hs]
      rfl
    · rw [if_neg hs, if_neg hs]
      rfl
  · have hpos : 0 < (c.recvData recv).2 := CellBuffer.read4socket_positive ht
    have hne : SOCKET_ERROR ≠ (c.recvData recv).2 := by
      rw [SOCKET_ERROR]
      omega
    rw [if_neg ht, if_pos hpos, Option.map_map]
    simp [Function.comp_def, hne]

end EasyTcpClient

/-! ### Both -/

section Both

variable (onNetMsg : EasyTcpClient σ → List UInt8 → EasyTcpClient σ)

/-- The server, which holds `after` for its client `c`, and the client `e` with the object `c'`
have both closed the connection, or both appended the same new bytes. -/
def TreatAlike (c c' : CellClient) (e : EasyTcpClient σ) (recv : Option (List UInt8))
    (after : Option CellClient) : Prop :=
  (after = none ∧ ∀ fuel, e.onReadable onNetMsg fuel recv = some e.close) ∨
    ∃ b bytes, bytes ≠ [] ∧ b.content = c.recvBuff.content ++ bytes ∧
      after = some { c with recvBuff := b } ∧
      ∀ fuel, e.onReadable onNetMsg fuel recv =
        EasyTcpClient.doMsg onNetMsg fuel
          { e with pClient := some { c' with recvBuff := b } }

theorem treatAlike_iff (hv : c.recvBuff.Valid) (hb : c'.recvBuff = c.recvBuff)
    (hl : ((recv.getD []).length : ℤ) ≤ c.recvBuff.nSize - c.recvBuff.nLast)
    {e : EasyTcpClient σ} (hc : e.pClient = some c') (hr : e.isConnect = true) :
    TreatAlike onNetMsg c c' e recv (c.afterRead recv) ↔ c.recvBuff.nLast < c.recvBuff.nSize := by
  have heq (fuel : ℕ) := EasyTcpClient.onReadable_eq onNetMsg hc hr fuel recv
  rw [hb] at heq
  by_cases ht : c.recvBuff.taken recv = []
  · simp only [if_pos ht] at heq
    have ha : c.afterRead recv = none := if_pos ht
    constructor
    · intro h
      rcases h with ⟨-, hclose⟩ | ⟨b, bytes, -, -, hsome, -⟩
      · by_contra hs
        have hopen := heq 0
        rw [hclose 0, if_neg (by omega)] at hopen
        -- a closed client has no object
        have hcl := congrArg EasyTcpClient.pClient (Option.some.inj hopen)
        rw [hc] at hcl
        cases hcl
      · rw [ha] at hsome
        cases hsome
    · intro hs
      refine .inl ⟨ha, fun fuel => ?_⟩
      rw [heq fuel, if_pos (by omega)]
  · simp only [if_neg ht] at heq
    have hs : c.recvBuff.nLast < c.recvBuff.nSize := by
      by_contra hs
      exact ht (if_neg (by omega))
    refine iff_of_true (.inr ⟨(c.recvBuff.read4socket recv).1, c.recvBuff.taken recv, ht,
      (CellBuffer.read4socket_spec hv recv hl).2.2, if_neg ht, fun fuel => ?_⟩) hs
    rw [heq fuel, CellClient.recvData, hb]

/-- A read event on either kind of server and on a client with the same receive buffer has the
same outcome if and only if the buffer is not full. -/
theorem readable_alike_iff (hv : c.recvBuff.Valid) (hb : c'.recvBuff = c.recvBuff)
    (hl : ((recv.getD []).length : ℤ) ≤ c.recvBuff.nSize - c.recvBuff.nLast)
    {e : EasyTcpClient σ} (hc : e.pClient = some c') (hr : e.isConnect = true) :
    (∀ (w : Worker Unit) (ev : EpollEvent), w.1.heap.get? ev.ptr = some c →
      c.sockfd ∈ w.1.openSocks → ev.epollin = true → ev.recv = recv →
        ((∃ r, CellEpollServer.readEvent w ev = some r ∧
          TreatAlike onNetMsg c c' e recv (r.1.1.heap.get? ev.ptr)) ↔
            c.recvBuff.nLast < c.recvBuff.nSize)) ∧
    ∀ (w : Worker SelectSets) (a : SelectAnswer) (fd : SOCKET) (p : Ptr),
      w.1.heap.get? p = some c → c.sockfd ∈ w.1.openSocks → a.recv fd = recv →
        ((∃ w', CellSelectServer.readEntry a w (fd, p) = some w' ∧
          TreatAlike onNetMsg c c' e recv (w'.1.heap.get? p)) ↔
            c.recvBuff.nLast < c.recvBuff.nSize) := by
  have halike := treatAlike_iff onNetMsg hv hb hl hc hr
  constructor
  · intro w ev hp ho hin hrecv
    obtain ⟨r, hread, hafter⟩ :=
      Worker.orRemove_reads (CellEpollServer.rmClient_removes ev.ptr) hp ho recv
    rw [CellEpollServer.readEvent, if_pos hin, hrecv, hread, ← halike, ← hafter]
    simp
  · intro w a fd p hp ho hrecv
    obtain ⟨r, hread, hafter⟩ :=
      Worker.orRemove_reads (CellSelectServer.remove_removes (fd, p)) hp ho recv
    rw [CellSelectServer.readEntry, hrecv, hread, ← halike, ← hafter]
    simp

end Both

/-- A connected client with eight bytes of receive buffer, of which `bytes` are filled. -/
def connected (bytes : List UInt8) : CellClient :=
  .new 0 5 (.new 0 []) ⟨bytes ++ List.replicate (8 - bytes.length) 0, bytes.length, 8, 0⟩

/-- A worker that holds this client alone. -/
def holder (bytes : List UInt8) : Worker Unit :=
  ({ Net.new with heap := ⟨[some (connected bytes)]⟩, openSocks := [5] }, .new 1 0 ())

/-- A client program that ignores its messages. -/
def deafClient : EasyTcpClient Unit → List UInt8 → EasyTcpClient Unit := fun e _ => e

theorem readable_alike_empty :
    ∃ r, CellEpollServer.readEvent (holder []) ⟨0, true, false, some [9], 0⟩ = some r ∧
      TreatAlike deafClient (connected []) (connected []) ⟨some (connected []), true, ()⟩
        (some [9]) (r.1.1.heap.get? 0) :=
  ((readable_alike_iff deafClient (c := connected []) ⟨by decide, by decide, by decide, by decide⟩
    rfl (by decide) rfl rfl).1 (holder []) ⟨0, true, false, some [9], 0⟩ rfl (by decide) rfl
    rfl).mpr (by decide)

/-- The front message announces nine bytes, and the buffer is full with eight. -/
def stuck : List UInt8 := [9, 0, 0, 0, 0, 0, 0, 0]

/-- The server removes the client; the client stays connected as it was. -/
theorem full_not_alike :
    ∃ r, CellEpollServer.readEvent (holder stuck) ⟨0, true, false, none, 0⟩ = some r ∧
      r.1.1.heap.get? 0 = none ∧
      (∀ fuel, EasyTcpClient.onReadable deafClient fuel ⟨some (connected stuck), true, ()⟩ none =
        some ⟨some (connected stuck), true, ()⟩) ∧
      ¬ TreatAlike deafClient (connected stuck) (connected stuck)
        ⟨some (connected stuck), true, ()⟩ none (r.1.1.heap.get? 0) := by
  have hv : (connected stuck).recvBuff.Valid := ⟨by decide, by decide, by decide, by decide⟩
  obtain ⟨r, hr, hp⟩ := Worker.orRemove_reads (CellEpollServer.rmClient_removes 0)
    (w := holder stuck) (c := connected stuck) rfl (by decide) none
  refine ⟨r, hr, hp, fun fuel => ?_, ?_⟩
  · rw [EasyTcpClient.onReadable_eq deafClient (c := connected stuck) rfl rfl]
    rfl
  · rw [hp, treatAlike_iff deafClient hv rfl (by decide) rfl rfl]
    decide

end CellNet
