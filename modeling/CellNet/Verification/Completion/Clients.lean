import CellNet.Library.Transition
import CellNet.Model.CellIOCPServer
import Mathlib.Data.Set.Insert

/-! The life of one client of a completion-port worker: what can happen to the object and to
its outstanding operations, whatever the other clients do. -/

namespace CellNet

open Library

/-! ### What the calls of `CellClient` do to the flags -/

namespace CellClient

def setPost (c : CellClient) : IoType → CellClient
  | .recv => { c with isPostRecv := true }
  | .send => { c with isPostSend := true }

@[simp] theorem setPost_sockfd (c : CellClient) (iotype : IoType) :
    (c.setPost iotype).sockfd = c.sockfd := by
  cases iotype <;> rfl

theorem setPost_isPost (c : CellClient) (iotype iotype' : IoType) :
    (c.setPost iotype).isPost iotype' = true ↔ iotype' = iotype ∨ c.isPost iotype' = true := by
  cases iotype <;> cases iotype' <;> simp [setPost, isPost]

/-- Either nothing happens, or the flag was clear and is set; what is then posted is for
the socket of the client and asks for something. -/
theorem makeIoData_cases (c : CellClient) (iotype : IoType) :
    c.makeIoData iotype = (c, none) ∨ c.isPost iotype = false ∧
      (c.makeIoData iotype).1 = c.setPost iotype ∧
      ∀ io, (c.makeIoData iotype).2 = some io → io.sockfd = c.sockfd ∧ 0 < io.len := by
  cases iotype with
  | recv =>
      rw [makeIoData, makeRecvIoData]
      by_cases hp : c.isPostRecv = true
      · exact .inl (if_pos hp)
      · rw [if_neg hp]
        refine .inr ⟨eq_false_of_ne_true hp, rfl, fun io hio => ?_⟩
        rw [CellBuffer.makeRecvIoData] at hio
        split at hio
        · obtain rfl := Option.some.inj hio
          exact ⟨rfl, ‹_›⟩
        · cases hio
  | send =>
      rw [makeIoData, makeSendIoData]
      by_cases hw : c.needWrite = true
      · rw [if_pos hw]
        by_cases hp : c.isPostSend = true
        · exact .inl (if_pos hp)
        · rw [if_neg hp]
          refine .inr ⟨eq_false_of_ne_true hp, rfl, fun io hio => ?_⟩
          rw [CellBuffer.makeSendIoData] at hio
          split at hio
          · obtain rfl := Option.some.inj hio
            exact ⟨rfl, ‹_›⟩
          · cases hio
      · exact .inl (if_neg hw)

theorem makeIoData_sockfd (c : CellClient) (iotype : IoType) :
    (c.makeIoData iotype).1.sockfd = c.sockfd := by
  rcases c.makeIoData_cases iotype with h | ⟨-, h, -⟩
  · rw [h]
  · rw [h, setPost_sockfd]

/-- Posting sets flags and clears none. -/
theorem makeIoData_isPost {c : CellClient} {iotype' : IoType} (h : c.isPost iotype' = true)
    (iotype : IoType) : (c.makeIoData iotype).1.isPost iotype' = true := by
  rcases c.makeIoData_cases iotype with he | ⟨-, he, -⟩
  · rwa [he]
  · rw [he, setPost_isPost]
    exact .inr h

theorem makeIoData_eq_some {c : CellClient} {iotype : IoType} {io : IoData}
    (h : (c.makeIoData iotype).2 = some io) :
    io.sockfd = c.sockfd ∧ 0 < io.len ∧ c.isPost iotype = false ∧
      (c.makeIoData iotype).1.isPost iotype = true := by
  rcases c.makeIoData_cases iotype with he | ⟨hf, he, hio⟩
  · rw [he] at h
    cases h
  · refine ⟨(hio io h).1, (hio io h).2, hf, ?_⟩
    rw [he, setPost_isPost]
    exact .inl rfl

theorem complete_sockfd (c : CellClient) (op : Overlapped) (bytes : List UInt8) :
    (c.complete op bytes).sockfd = c.sockfd := by
  cases ht : op.iotype with
  | recv =>
      simp only [complete, ht, recv4Iocp]
      split <;> rfl
  | send =>
      simp only [complete, ht, send2Iocp]
      split <;> rfl

/-- A completion clears no flag but that of its own type. -/
theorem complete_isPost (c : CellClient) {op : Overlapped} {iotype : IoType}
    (hne : iotype ≠ op.iotype) (bytes : List UInt8) :
    (c.complete op bytes).isPost iotype = c.isPost iotype := by
  cases ht : op.iotype with
  | recv =>
      cases iotype with
      | recv => exact absurd ht.symm hne
      | send =>
          simp only [complete, ht, recv4Iocp, isPost]
          split <;> rfl
  | send =>
      cases iotype with
      | send => exact absurd ht.symm hne
      | recv =>
          simp only [complete, ht, send2Iocp, isPost]
          split <;> rfl

end CellClient

/-! ### One client -/

/-- The client and its outstanding operations. -/
@[ext]
structure View where
  client : Option CellClient
  ops : Set Overlapped

/-- What the operations and the buffers have to do with is the same. -/
structure CellClient.Touched (c d : CellClient) : Prop where
  sockfd : d.sockfd = c.sockfd
  recvBuff : d.recvBuff = c.recvBuff
  sendBuff : d.sendBuff = c.sendBuff
  isPost : ∀ iotype, d.isPost iotype = c.isPost iotype

inductive Act (σ : Type) where
  | keep
  | accept (c : CellClient)
  /-- Only its server number or its timer changes. -/
  | touch
  /-- The flag is looked at, and set where it was clear, but there is nothing to post. -/
  | look (iotype : IoType)
  | post (iotype : IoType)
  /-- The first receive is not posted. -/
  | lost
  /-- Another operation is not posted: the client leaves. -/
  | drop (iotype : IoType)
  /-- The timer has run out, without and with a flag set. -/
  | expire
  | detach
  | fill (op : Overlapped) (bytes : List UInt8)
  /-- An operation is returned without bytes. -/
  | fail (op : Overlapped)
  | msg (ext : σ)

section

variable {σ : Type} (onNetMsg : Handler σ) (p : Ptr)

/-- What happens to the client at the address `p`. -/
inductive Move : Act σ → View → View → Prop where
  | keep (v) : Move .keep v v
  | accept (id sockfd nSend nRecv sendBlock recvBlock) :
      Move (.accept (.new id sockfd (.new nSend sendBlock) (.new nRecv recvBlock))) ⟨none, ∅⟩
        ⟨some (.new id sockfd (.new nSend sendBlock) (.new nRecv recvBlock)), ∅⟩
  | touch {c d ops} : c.Touched d → Move .touch ⟨some c, ops⟩ ⟨some d, ops⟩
  | look {c d ops} (t) : c.Touched d → (d.makeIoData t).2 = none →
      Move (.look t) ⟨some c, ops⟩ ⟨some (d.makeIoData t).1, ops⟩
  | post {c d ops} (t) {io} : c.Touched d → (d.makeIoData t).2 = some io →
      Move (.post t) ⟨some c, ops⟩ ⟨some (d.makeIoData t).1, insert ⟨p, t, io⟩ ops⟩
  | lost {c d ops io} : c.Touched d → (d.makeIoData .recv).2 = some io →
      Move .lost ⟨some c, ops⟩ ⟨some (d.makeIoData .recv).1, ops⟩
  | drop {c ops} (t) {io} : (c.makeIoData t).2 = some io →
      Move (.drop t) ⟨some c, ops⟩ ⟨none, ops⟩
  | expire {c ops} : c.isPostIoAction = false → Move .expire ⟨some c, ops⟩ ⟨none, ops⟩
  | detach {c d ops} : c.Touched d → c.isPostIoAction = true →
      Move .detach ⟨some c, ops⟩ ⟨some d.destroy, ops⟩
  | fill {c ops op bytes} : op ∈ ops → bytes ≠ [] →
      Move (.fill op bytes) ⟨some c, ops⟩ ⟨some (c.complete op bytes), ops \ {op}⟩
  | fail {c ops op} : op ∈ ops → Move (.fail op) ⟨some c, ops⟩ ⟨none, ops \ {op}⟩
  | msg {c ops} (ext) : c.hasMsg = true →
      Move (.msg ext) ⟨some c, ops⟩ ⟨some (msgBody onNetMsg (ext, c)).2, ops⟩

/-- The life of the client, from before it is accepted. -/
def clientSystem : System View (Act σ) where
  init v := v = ⟨none, ∅⟩
  step v a v' := Move onNetMsg p a v v'

end

end CellNet
