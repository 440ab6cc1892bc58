import CellNet.Model.Traffic
import CellNet.Verification.Completion.Clients
import CellNet.Verification.Messages.Semantics

/-! The bytes of one client: what its buffers hold against what its receives have brought in and
its sends have taken. A receive is outstanding only while no message is complete, and a send pins
the front of its buffer. -/

namespace CellNet

open Library

/-! ### Pushing several frames -/

namespace CellBuffer

variable {b : CellBuffer}

/-- The sums that `push` tests stay inside `int`, for a buffer of this fill level and size. -/
def SumsFit (nLast nSize : ℤ) : List (List UInt8) → Prop
  | [] => True
  | frame :: frames => nLast + frame.length ≤ 2147483647 ∧
      SumsFit (if nLast + frame.length ≤ nSize then nLast + frame.length else nLast) nSize frames

/-- The fill level after a push, whether the frame was accepted or not. -/
theorem push_nLast (h : b.Valid) {frame : List UInt8} {b' : CellBuffer} (hv : b'.Valid)
    (hc : b'.content = if b.nLast + frame.length ≤ b.nSize then b.content ++ frame
      else b.content) :
    b'.nLast = if b.nLast + frame.length ≤ b.nSize then b.nLast + frame.length else b.nLast := by
  have hl := length_content h
  have hl' := length_content hv
  rw [hc] at hl'
  split at hl'
  · next hf =>
      rw [if_pos hf]
      rw [List.length_append] at hl'
      omega
  · next hf =>
      rw [if_neg hf]
      omega

theorem pushAll_spec (h : b.Valid) {frames : List (List UInt8)}
    (hf : SumsFit b.nLast b.nSize frames) :
    ∃ b' accepted, b.pushAll frames = some (b', accepted) ∧ b'.Valid ∧
      b'.content = b.content ++ accepted := by
  induction frames generalizing b with
  | nil => exact ⟨b, [], rfl, h, (List.append_nil _).symm⟩
  | cons frame frames ih =>
      obtain ⟨b₁, hp, hv, hs, hc⟩ := push_spec h frame hf.1
      have hn := push_nLast h hv hc
      obtain ⟨b₂, accepted, hp₂, hv₂, hc₂⟩ := ih hv (by rw [hn, hs]; exact hf.2)
      by_cases ha : b.nLast + frame.length ≤ b.nSize
      · rw [decide_eq_true ha] at hp
        rw [if_pos ha] at hc
        refine ⟨b₂, frame ++ accepted, ?_, hv₂, ?_⟩
        · rw [pushAll, hp, Option.bind_eq_bind, Option.bind_some, hp₂]
          rfl
        · rw [hc₂, hc, List.append_assoc]
      · rw [decide_eq_false ha] at hp
        rw [if_neg ha] at hc
        refine ⟨b₂, accepted, ?_, hv₂, ?_⟩
        · rw [pushAll, hp, Option.bind_eq_bind, Option.bind_some, hp₂]
          rfl
        · rw [hc₂, hc]

theorem pushAll_eq_none (h : b.Valid) {frames : List (List UInt8)}
    (hl : ∀ frame ∈ frames, (frame.length : ℤ) ≤ 2147483647)
    (hf : ¬ SumsFit b.nLast b.nSize frames) : b.pushAll frames = none := by
  induction frames generalizing b with
  | nil => exact absurd trivial hf
  | cons frame frames ih =>
      obtain ⟨hl₁, hl⟩ := List.forall_mem_cons.mp hl
      by_cases ho : b.nLast + frame.length ≤ 2147483647
      · obtain ⟨b₁, hp, hv, hs, hc⟩ := push_spec h frame ho
        have hn := push_nLast h hv hc
        have hnone := ih hv hl (by rw [hn, hs]; exact fun hr => hf ⟨ho, hr⟩)
        rw [pushAll, hp, Option.bind_eq_bind, Option.bind_some, hnone]
        rfl
      · rw [pushAll, push_overflow h frame (by omega) (by omega)]
        rfl

end CellBuffer

/-! ### Completions -/

namespace CellClient

variable {c d : CellClient} {op : Overlapped} {bytes : List UInt8}

/-- A receive that was posted at the fill level does what `read4socket` does. -/
theorem complete_recv (hp : c.isPostRecv = true) (ht : op.iotype = .recv)
    (hb : op.io.buf = c.recvBuff.nLast) (hn : bytes ≠ [])
    (hl : (bytes.length : ℤ) ≤ c.recvBuff.nSize - c.recvBuff.nLast) :
    (c.recvBuff.read4Iocp bytes.length).2 = true ∧ c.complete op bytes = { c with
      isPostRecv := false
      recvBuff := (c.recvBuff.read4socket (some bytes)).1 } := by
  have hpos : 0 < bytes.length := List.length_pos_iff.mpr hn
  have hfit : (bytes.length : ℤ) > 0 ∧ c.recvBuff.nSize - c.recvBuff.nLast ≥ bytes.length := by
    omega
  constructor
  · rw [CellBuffer.read4Iocp, if_pos hfit]
  · rw [CellBuffer.read4socket_some (by omega) hn]
    simp only [complete, ht, recv4Iocp, hp, if_true]
    rw [CellBuffer.read4Iocp, if_pos hfit, hb]

/-- A send of bytes that the buffer still holds does what `write2socket` does. -/
theorem complete_send (hp : c.isPostSend = true) (ht : op.iotype = .send) (hn : bytes ≠ [])
    (hl : (bytes.length : ℤ) ≤ c.sendBuff.nLast) {sockfd : SOCKET} (hs : sockfd ≠ INVALID_SOCKET) :
    (c.sendBuff.write2Iocp bytes.length).2 = true ∧ c.complete op bytes = { c with
      isPostSend := false
      sendBuff := (c.sendBuff.write2socket sockfd bytes.length).1 } := by
  have hpos : 0 < bytes.length := List.length_pos_iff.mpr hn
  have hopen : c.sendBuff.nLast > 0 ∧ INVALID_SOCKET ≠ sockfd := ⟨by omega, hs.symm⟩
  have hsplit : c.sendBuff.write2Iocp bytes.length =
      ((c.sendBuff.write2socket sockfd bytes.length).1, true) := by
    rw [CellBuffer.write2Iocp, if_neg (by omega)]
    by_cases he : (bytes.length : ℤ) = c.sendBuff.nLast
    · rw [if_pos he, he, CellBuffer.write2socket_all hopen]
    · rw [if_neg he, CellBuffer.write2socket_part hopen (by omega) he]
  constructor
  · rw [hsplit]
  · simp only [complete, ht, send2Iocp, hp, if_true, hsplit]

/-! ### Posting -/

theorem makeIoData_recvBuff (c : CellClient) (t : IoType) :
    (c.makeIoData t).1.recvBuff = c.recvBuff := by
  rcases c.makeIoData_cases t with h | ⟨-, h, -⟩
  · rw [h]
  · rw [h]
    cases t <;> rfl

theorem makeIoData_sendBuff (c : CellClient) (t : IoType) :
    (c.makeIoData t).1.sendBuff = c.sendBuff := by
  rcases c.makeIoData_cases t with h | ⟨-, h, -⟩
  · rw [h]
  · rw [h]
    cases t <;> rfl

/-- A receive is posted for the free space of the buffer. -/
theorem eq_of_makeIoData_recv {io : IoData} (h : (c.makeIoData .recv).2 = some io) :
    io = ⟨c.sockfd, c.recvBuff.nLast, c.recvBuff.nSize - c.recvBuff.nLast⟩ := by
  rw [makeIoData, makeRecvIoData] at h
  split at h
  · cases h
  · rw [CellBuffer.makeRecvIoData] at h
    dsimp only at h
    split at h
    · exact (Option.some.inj h).symm
    · cases h

/-- A send is posted for all that the buffer holds. -/
theorem eq_of_makeIoData_send {io : IoData} (h : (c.makeIoData .send).2 = some io) :
    io = ⟨c.sockfd, 0, c.sendBuff.nLast⟩ := by
  rw [makeIoData, makeSendIoData] at h
  split at h
  · split at h
    · cases h
    · rw [CellBuffer.makeSendIoData] at h
      dsimp only at h
      split at h
      · exact (Option.some.inj h).symm
      · cases h
  · cases h

/-- What a client would post depends only on what the posting loop sees of it. -/
theorem Touched.makeIoData (h : c.Touched d) (t : IoType) :
    (d.makeIoData t).2 = (c.makeIoData t).2 := by
  cases t with
  | recv =>
      have hp : d.isPostRecv = c.isPostRecv := h.isPost .recv
      rw [CellClient.makeIoData, CellClient.makeIoData, makeRecvIoData, makeRecvIoData, hp,
        h.recvBuff, h.sockfd]
      split <;> rfl
  | send =>
      have hp : d.isPostSend = c.isPostSend := h.isPost .send
      rw [CellClient.makeIoData, CellClient.makeIoData, makeSendIoData, makeSendIoData, needWrite,
        needWrite, hp, h.sendBuff, h.sockfd]
      split
      · split <;> rfl
      · rfl

end CellClient

namespace Streams

theorem post_none {st : Streams} {c : CellClient} {t : IoType} (h : (c.makeIoData t).2 = none) :
    st.post c t = st := by
  cases t with
  | recv => rfl
  | send => simp only [post, h]

theorem post_send {st : Streams} {c : CellClient} {io : IoData}
    (h : (c.makeIoData .send).2 = some io) :
    st.post c .send = { st with window := c.sendBuff.content } := by
  simp only [post, h, CellClient.eq_of_makeIoData_send h]
  rfl

/-- What a client adds to its streams. -/
def next {σ : Type} (answers : Answers σ) (st : Streams) (v : View) : Act σ → Option Streams
  | .accept _ => some .empty
  | .look t => v.client.map fun c => st.post c t
  | .post t => v.client.map fun c => st.post c t
  | .fill op bytes => some (st.complete op.iotype bytes)
  | .msg ext => do
      let c ← v.client
      let r ← c.sendBuff.pushAll (answers ext c c.frontMsg)
      some (st.msg (frontMessage c).2 r.2)
  | _ => some st

end Streams

/-! ### One client -/

/-- An outstanding operation is one that the flag of its type speaks of, and the only one. -/
structure Flagged (v : View) : Prop where
  flag : ∀ op ∈ v.ops, ∀ c, v.client = some c → c.isPost op.iotype = true
  unique : ∀ o ∈ v.ops, ∀ o' ∈ v.ops, o.iotype = o'.iotype → o = o'

/-- The buffers of a client account for its streams, and its operations point to where the
buffers still are. -/
structure Flow (c : CellClient) (ops : Set Overlapped) (st : Streams) : Prop where
  recv : c.recvBuff.Valid
  send : c.sendBuff.Valid
  arrived : st.arrived = st.popped ++ c.recvBuff.content
  pushed : st.pushed = st.sent ++ c.sendBuff.content
  reads : ∀ op ∈ ops, op.iotype = .recv → op.io.buf = c.recvBuff.nLast ∧
    op.io.len = c.recvBuff.nSize - c.recvBuff.nLast ∧ c.hasMsg = false
  writes : ∀ op ∈ ops, op.iotype = .send → op.io.buf = 0 ∧ op.io.len = st.window.length ∧
    st.window <+: c.sendBuff.content

namespace Flow

variable {σ : Type} {onNetMsg : Handler σ} {answers : Answers σ} {c d : CellClient}
  {ops : Set Overlapped} {st : Streams}

theorem congr (h : Flow c ops st) (hr : d.recvBuff = c.recvBuff) (hs : d.sendBuff = c.sendBuff) :
    Flow d ops st := by
  have hm : d.hasMsg = c.hasMsg := congrArg CellBuffer.hasMsg hr
  constructor
  · rw [hr]
    exact h.recv
  · rw [hs]
    exact h.send
  · rw [hr]
    exact h.arrived
  · rw [hs]
    exact h.pushed
  · rw [hr, hm]
    exact h.reads
  · rw [hs]
    exact h.writes

/-- A client starts with empty buffers. -/
theorem start (hr : c.recvBuff.Valid) (hs : c.sendBuff.Valid) (hr₀ : c.recvBuff.content = [])
    (hs₀ : c.sendBuff.content = []) : Flow c ∅ .empty where
  recv := hr
  send := hs
  arrived := hr₀.symm
  pushed := hs₀.symm
  reads _ hop := hop.elim
  writes _ hop := hop.elim

theorem post_recv (h : Flow c ops st) {p : Ptr} {io : IoData} (hm : c.hasMsg = false)
    (hio : (c.makeIoData .recv).2 = some io) : Flow c (insert ⟨p, .recv, io⟩ ops) st := by
  obtain rfl := CellClient.eq_of_makeIoData_recv hio
  refine ⟨h.recv, h.send, h.arrived, h.pushed, ?_, ?_⟩
  · rintro op (rfl | hop) ht
    · exact ⟨rfl, rfl, hm⟩
    · exact h.reads op hop ht
  · rintro op (rfl | hop) ht
    · cases ht
    · exact h.writes op hop ht

/-- The window of a send that is posted is what the buffer holds; there was no other send. -/
theorem post_send (h : Flow c ops st) {p : Ptr} {io : IoData}
    (hclear : ∀ op ∈ ops, op.iotype ≠ .send) (hio : (c.makeIoData .send).2 = some io) :
    Flow c (insert ⟨p, .send, io⟩ ops) (st.post c .send) := by
  rw [Streams.post_send hio]
  obtain rfl := CellClient.eq_of_makeIoData_send hio
  refine ⟨h.recv, h.send, h.arrived, h.pushed, ?_, ?_⟩
  · rintro op (rfl | hop) ht
    · cases ht
    · exact h.reads op hop ht
  · rintro op (rfl | hop) ht
    · exact ⟨rfl, (CellBuffer.length_content h.send).symm, List.prefix_refl _⟩
    · exact absurd ht (hclear op hop)

/-- A receive that is returned ends what `read4socket` would have read. -/
theorem complete_recv (h : Flow c ops st) (hf : Flagged ⟨some c, ops⟩) {op : Overlapped}
    (hop : op ∈ ops) (ht : op.iotype = .recv) {bytes : List UInt8} (hn : bytes ≠ [])
    (hl : (bytes.length : ℤ) ≤ op.io.len) :
    Flow (c.complete op bytes) (ops \ {op}) (st.complete .recv bytes) := by
  obtain ⟨hb, hlen, -⟩ := h.reads op hop ht
  have hp : c.isPostRecv = true := by
    have := hf.flag op hop c rfl
    rwa [ht] at this
  have hpos : 0 < bytes.length := List.length_pos_iff.mpr hn
  obtain ⟨-, he⟩ := CellClient.complete_recv hp ht hb hn (hlen ▸ hl)
  obtain ⟨hv, hs, hc⟩ := CellBuffer.read4socket_spec h.recv (some bytes) (hlen ▸ hl)
  have hroom : c.recvBuff.nSize - c.recvBuff.nLast > 0 := by omega
  rw [CellBuffer.taken, if_pos hroom] at hc
  rw [he]
  refine ⟨hv, h.send, ?_, h.pushed, ?_, fun o ho => h.writes o ho.1⟩
  · change st.arrived ++ bytes = st.popped ++ (c.recvBuff.read4socket (some bytes)).1.content
    rw [hc, h.arrived, List.append_assoc]
    rfl
  · intro o ho hto
    exact absurd (hf.unique o ho.1 op hop (hto.trans ht.symm)) ho.2

/-- A send that is returned has taken the first bytes of the buffer. -/
theorem eq_take (h : Flow c ops st) {op : Overlapped} (hop : op ∈ ops) (ht : op.iotype = .send)
    {bytes : List UInt8} (hw : bytes <+: st.window) :
    (bytes.length : ℤ) ≤ c.sendBuff.nLast ∧ bytes = c.sendBuff.content.take bytes.length := by
  have hpre := hw.trans (h.writes op hop ht).2.2
  have hlen := CellBuffer.length_content h.send
  have := hpre.length_le
  exact ⟨by omega, List.prefix_iff_eq_take.mp hpre⟩

theorem complete_send (h : Flow c ops st) (hf : Flagged ⟨some c, ops⟩) {op : Overlapped}
    (hop : op ∈ ops) (ht : op.iotype = .send) {bytes : List UInt8} (hn : bytes ≠ [])
    (hw : bytes <+: st.window) :
    Flow (c.complete op bytes) (ops \ {op}) (st.complete .send bytes) := by
  obtain ⟨hl, htake⟩ := h.eq_take hop ht hw
  have hp : c.isPostSend = true := by
    have := hf.flag op hop c rfl
    rwa [ht] at this
  have hpos : 0 < bytes.length := List.length_pos_iff.mpr hn
  have hs : (0 : SOCKET) ≠ INVALID_SOCKET := by decide
  obtain ⟨-, he⟩ := CellClient.complete_send hp ht hn hl hs
  obtain ⟨hv, -, hc⟩ := CellBuffer.write2socket_spec h.send 0 hl
  rw [CellBuffer.wire, if_pos ⟨by omega, hs.symm⟩, Int.toNat_natCast,
    ← CellBuffer.take_content (by omega), ← htake] at hc
  rw [he]
  refine ⟨h.recv, hv, h.arrived, ?_, fun o ho => h.reads o ho.1, ?_⟩
  · change st.pushed = st.sent ++ bytes ++ _
    rw [h.pushed, hc, List.append_assoc]
  · intro o ho hto
    exact absurd (hf.unique o ho.1 op hop (hto.trans ht.symm)) ho.2

/-- A message that is handled leaves the receive buffer, and its answers enter the send buffer
behind the window of a send. -/
theorem msg (h : Flow c ops st) (hk : onNetMsg.Pushes answers) {ext : σ} (hm : c.hasMsg = true)
    (hfit : CellBuffer.SumsFit c.sendBuff.nLast c.sendBuff.nSize (answers ext c c.frontMsg)) :
    ∃ r, c.sendBuff.pushAll (answers ext c c.frontMsg) = some r ∧
      Flow (msgBody onNetMsg (ext, c)).2 ops (st.msg (frontMessage c).2 r.2) := by
  obtain ⟨b, accepted, hp, hv, hc⟩ := CellBuffer.pushAll_spec h.send hfit
  have hsome := CellBuffer.hasMsg_eq h.recv
  rw [show c.recvBuff.hasMsg = true from hm, eq_comm, Option.isSome_iff_exists] at hsome
  obtain ⟨n, hn⟩ := hsome
  obtain ⟨hrv, -, hrc⟩ := msgBody_spec (x := (ext, c)) hk.keepsRecv h.recv hn
  have hsend : (msgBody onNetMsg (ext, c)).2.sendBuff = b := by
    have hb := hk.sendBuff ext c c.frontMsg _ hp
    rw [msgBody, CellClient.popFrontMsg]
    split <;> exact hb
  refine ⟨_, hp, hrv, hsend.symm ▸ hv, ?_, ?_, ?_, ?_⟩
  · change st.arrived = st.popped ++ (frontMessage c).2 ++ _
    rw [hrc, CellClient.frontMessage_eq h.recv hn, announced, h.arrived, List.append_assoc,
      List.take_append_drop]
  · change st.pushed ++ accepted = st.sent ++ _
    rw [hsend, hc, h.pushed, List.append_assoc]
  · intro op hop ht
    have hno := (h.reads op hop ht).2.2
    rw [hm] at hno
    cases hno
  · intro op hop ht
    obtain ⟨hbuf, hlen, hpre⟩ := h.writes op hop ht
    refine ⟨hbuf, hlen, hpre.trans ?_⟩
    rw [hsend, hc]
    exact List.prefix_append _ _

end Flow

/-- What the port and the worker promise about what happens to a client. -/
def Proper {σ : Type} (answers : Answers σ) (v : View) (st : Streams) : Act σ → Prop
  | .accept c => c.recvBuff.Valid ∧ c.sendBuff.Valid
  | .post t => t = .recv → ∀ c, v.client = some c → c.hasMsg = false
  | .fill op bytes => (bytes.length : ℤ) ≤ op.io.len ∧ (op.iotype = .send → bytes <+: st.window)
  | .msg ext => ∀ c, v.client = some c → c.hasMsg = true →
      CellBuffer.SumsFit c.sendBuff.nLast c.sendBuff.nSize (answers ext c c.frontMsg)
  | _ => True

section

variable {σ : Type} {onNetMsg : Handler σ} {answers : Answers σ} {p : Ptr} {v v' : View}
  {st st' : Streams} {a : Act σ}

theorem flow_step (hk : onNetMsg.Pushes answers) (h : ∀ c, v.client = some c → Flow c v.ops st)
    (hf : Flagged v) (hok : Proper answers v st a) (hm : Move onNetMsg p a v v')
    (hst : st.next answers v a = some st') : ∀ c, v'.client = some c → Flow c v'.ops st' := by
  intro d' hd'
  cases hm with
  | keep =>
      obtain rfl := Option.some.inj hst
      exact h d' hd'
  | accept =>
      obtain rfl := Option.some.inj hst
      obtain rfl := Option.some.inj hd'
      exact .start hok.1 hok.2 (CellBuffer.content_new ..) (CellBuffer.content_new ..)
  | touch hd =>
      obtain rfl := Option.some.inj hst
      obtain rfl := Option.some.inj hd'
      exact (h _ rfl).congr hd.recvBuff hd.sendBuff
  | @look c d ops t hd hio =>
      obtain rfl := Option.some.inj hst
      obtain rfl := Option.some.inj hd'
      have hpost : st.post c t = st := Streams.post_none ((hd.makeIoData t).symm.trans hio)
      exact (hpost.symm ▸ h c rfl).congr ((CellClient.makeIoData_recvBuff ..).trans hd.recvBuff)
        ((CellClient.makeIoData_sendBuff ..).trans hd.sendBuff)
  | @post c d ops t io hd hio =>
      obtain rfl := Option.some.inj hst
      obtain rfl := Option.some.inj hd'
      have hio' := (hd.makeIoData t).symm.trans hio
      have hclear := (CellClient.makeIoData_eq_some hio').2.2.1
      have hpost : Flow c (insert ⟨p, t, io⟩ ops) (st.post c t) := by
        cases t with
        | recv => exact (h c rfl).post_recv (hok rfl c rfl) hio'
        | send =>
            refine (h c rfl).post_send (fun op hop ht => ?_) hio'
            have hset := hf.flag op hop c rfl
            rw [ht, hclear] at hset
            cases hset
      exact hpost.congr ((CellClient.makeIoData_recvBuff ..).trans hd.recvBuff)
        ((CellClient.makeIoData_sendBuff ..).trans hd.sendBuff)
  | lost hd =>
      obtain rfl := Option.some.inj hst
      obtain rfl := Option.some.inj hd'
      exact (h _ rfl).congr ((CellClient.makeIoData_recvBuff ..).trans hd.recvBuff)
        ((CellClient.makeIoData_sendBuff ..).trans hd.sendBuff)
  | drop | expire | fail => cases hd'
  | @detach c d ops hd =>
      obtain rfl := Option.some.inj hst
      obtain rfl := Option.some.inj hd'
      have hbuff : d.destroy.recvBuff = d.recvBuff ∧ d.destroy.sendBuff = d.sendBuff := by
        rw [CellClient.destroy]
        split <;> exact ⟨rfl, rfl⟩
      exact (h c rfl).congr (hbuff.1.trans hd.recvBuff) (hbuff.2.trans hd.sendBuff)
  | @fill c ops op bytes hop hn =>
      obtain rfl := Option.some.inj hst
      obtain rfl := Option.some.inj hd'
      cases ht : op.iotype with
      | recv => exact (h c rfl).complete_recv hf hop ht hn hok.1
      | send => exact (h c rfl).complete_send hf hop ht hn (hok.2 ht)
  | @msg c ops ext hm =>
      obtain rfl := Option.some.inj hd'
      obtain ⟨r, hr, hflow⟩ := (h c rfl).msg hk hm (hok c rfl hm)
      simp only [Streams.next, Option.bind_eq_bind, Option.bind_some, hr] at hst
      obtain rfl := Option.some.inj hst
      exact hflow

end

end CellNet
