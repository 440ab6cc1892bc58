import CellNet.Verification.Handlers.Semantics

/-! What the answer to a logout depends on: the scalars that a truncated frame does not hold
are read into uninitialised variables and sent to the peer. -/

namespace CellNet

open Library CellStream

namespace MyServer

/-- The send buffer after the handler, which starts from the front of the receive buffer. -/
def answer (s : MyServer) (u : Locals) (c : CellClient) : Option CellBuffer :=
  (s.onNetMsg u c c.frontMsg).map fun r => r.2.sendBuff

/-- Only the written bytes of a stream are sent. -/
theorem push_stream {s : CellStream} (h : s.Valid) (b : CellBuffer) :
    b.push s.data s.length = b.push s.written s.written.length := by
  have hl := length_written h
  have hb := h.block
  have hf := h.fits
  have hn : s.data.take s.written.length = s.written := by
    rw [show s.written.length = s.nWritePos.toNat by omega]
    rfl
  have hd : s.written.length ≤ s.data.length := by
    rw [CellStream.data]
    omega
  rw [CellStream.length, ← hl, CellBuffer.push_take b hd, hn]

/-- A logout is one push of the values that were read. -/
theorem onNetMsg_logout {b : CellBuffer} {frame : List UInt8} (hp : b.Presents frame)
    (h4 : 4 ≤ frame.length) (hcmd : cmd frame = CMD_LOGOUT) (s : MyServer) (u : Locals)
    (c : CellClient) : s.onNetMsg u { c with recvBuff := b } b.data =
      (c.sendBuff.push (LogoutFields.ofPayload u (frame.drop 4)).reply
        (LogoutFields.ofPayload u (frame.drop 4)).reply.length).map fun r =>
          (s, { c with recvBuff := b, sendBuff := r.1 }) := by
  obtain ⟨hd, hc⟩ := hp.header h4
  have hf : readLogout u b.data = some (LogoutFields.ofPayload u (frame.drop 4)) := by
    rw [readLogout_eq u (by omega) hp.bounds.2, hp.front]
  obtain ⟨r, hr, hv, hw⟩ := writeLogout_eq u (LogoutFields.ofPayload_fits u (frame.drop 4))
  have hlogin : ¬ CMD_LOGOUT = CMD_LOGIN := by decide
  rw [← hw, ← push_stream hv, onNetMsg, hc, hcmd, if_neg hlogin, if_pos rfl, onLogout, hf,
    Option.bind_eq_bind, Option.bind_some, hr, Option.bind_eq_bind, Option.bind_some,
    CellClient.sendData]
  cases c.sendBuff.push r.data r.length <;> rfl

theorem answer_logout {b : CellBuffer} {frame : List UInt8} (hp : b.Presents frame)
    (h4 : 4 ≤ frame.length) (hcmd : cmd frame = CMD_LOGOUT) (s : MyServer) (u : Locals)
    (c : CellClient) : s.answer u { c with recvBuff := b } =
      (c.sendBuff.push (LogoutFields.ofPayload u (frame.drop 4)).reply
        (LogoutFields.ofPayload u (frame.drop 4)).reply.length).map Prod.fst := by
  rw [answer, CellClient.frontMsg, onNetMsg_logout hp h4 hcmd, Option.map_map]
  rfl

end MyServer

namespace LogoutFields

theorem length_takeScalar (w n : ℕ) (unread : List UInt8) :
    (w ≤ unread.length → (takeScalar w n unread).1.length = unread.length - w) ∧
      (unread.length < w → (takeScalar w n unread).1.length = unread.length) := by
  rw [takeScalar]
  split
  · exact ⟨fun _ => List.length_drop, fun _ => by omega⟩
  · exact ⟨fun _ => by omega, fun _ => rfl⟩

/-- Nineteen bytes hold all scalars. -/
theorem ofPayload_congr {payload : List UInt8} (h : 19 ≤ payload.length) (u v : Locals) :
    ofPayload u payload = ofPayload v payload := by
  have l1 := length_takeScalar 1 0 payload
  have l2 := length_takeScalar 2 0 (takeScalar 1 0 payload).1
  unfold ofPayload
  dsimp only
  generalize (takeScalar 2 0 (takeScalar 1 0 payload).1).1 = rest at l2
  have c3 : takeScalar 4 u.int rest = takeScalar 4 v.int rest := takeScalar_congr (by omega)
  have l3 := length_takeScalar 4 v.int rest
  have c4 : takeScalar 4 u.float (takeScalar 4 v.int rest).1 =
      takeScalar 4 v.float (takeScalar 4 v.int rest).1 := takeScalar_congr (by omega)
  have l4 := length_takeScalar 4 v.float (takeScalar 4 v.int rest).1
  have c5 : takeScalar 8 u.double (takeScalar 4 v.float (takeScalar 4 v.int rest).1).1 =
      takeScalar 8 v.double (takeScalar 4 v.float (takeScalar 4 v.int rest).1).1 :=
    takeScalar_congr (by omega)
  rw [c3, c4, c5]

/-- In a shorter payload the last scalar is not found, whatever is found before it. -/
theorem double_ofPayload {payload : List UInt8} (h : payload.length < 19) (u : Locals) :
    (ofPayload u payload).double = u.double := by
  have l1 := length_takeScalar 1 0 payload
  have l2 := length_takeScalar 2 0 (takeScalar 1 0 payload).1
  unfold ofPayload
  dsimp only
  generalize (takeScalar 2 0 (takeScalar 1 0 payload).1).1 = rest at l2
  have l3 := length_takeScalar 4 u.int rest
  have l4 := length_takeScalar 4 u.float (takeScalar 4 u.int rest).1
  rw [takeScalar, if_neg (by omega)]

/-- The double lies behind the header and eleven bytes of smaller scalars. -/
theorem slice_reply (f : LogoutFields) : slice f.reply 15 8 = encodeLE 8 f.double := by
  have hr : f.reply = (netmsg_DataHeader (23 + f.arrays.length) CMD_LOGOUT_RESULT ++
      (encodeLE 1 f.int8 ++ encodeLE 2 f.int16 ++ encodeLE 4 f.int32 ++ encodeLE 4 f.float)) ++
      (encodeLE 8 f.double ++ f.arrays) := by
    simp only [reply, scalars, List.append_assoc]
  rw [slice, hr, List.drop_left' (by simp [netmsg_DataHeader]), List.take_left' (by simp)]

theorem length_reply {f : LogoutFields} (hf : f.Fits) : f.reply.length ≤ 139 := by
  have hl := (MyServer.length_unfinished hf).2
  simp only [reply, netmsg_DataHeader, List.length_append, length_encodeLE, length_scalars]
  omega

end LogoutFields

namespace MyServer

open LogoutFields CellBuffer

/-- A client with room for any answer. -/
def roomy : CellClient :=
  .new 0 0 (.new 1024 (List.replicate 1024 0)) (.new 0 [])

/-- The answers to one frame, whatever is behind it and in the uninitialised memory. -/
def AnswersAlike (frame : List UInt8) : Prop :=
  ∀ (s : MyServer) (c : CellClient) (u v : Locals) (b₁ b₂ : CellBuffer), b₁.Presents frame →
    b₂.Presents frame →
      s.answer u { c with recvBuff := b₁ } = s.answer v { c with recvBuff := b₂ }

/-- Into an empty buffer the answer goes as it is. -/
theorem content_answer {b : CellBuffer} {frame : List UInt8} (hp : b.Presents frame)
    (h4 : 4 ≤ frame.length) (hcmd : cmd frame = CMD_LOGOUT) (s : MyServer) (u : Locals) :
    (s.answer u { roomy with recvBuff := b }).map CellBuffer.content =
      some (ofPayload u (frame.drop 4)).reply := by
  have hv : roomy.sendBuff.Valid :=
    valid_new (congrArg Nat.cast List.length_replicate) (by decide)
  have he : roomy.sendBuff.content = [] := content_new ..
  have hl := length_reply (ofPayload_fits u (frame.drop 4))
  have hn : roomy.sendBuff.nLast = 0 ∧ roomy.sendBuff.nSize = 1024 := ⟨rfl, rfl⟩
  obtain ⟨b', hb, -, -, hc⟩ := push_spec hv (ofPayload u (frame.drop 4)).reply (by omega)
  rw [if_pos (by omega)] at hc
  rw [answer_logout hp h4 hcmd, hb, Option.map_some, Option.map_some, hc, he, List.nil_append]

theorem answers_alike {frame : List UInt8} (h23 : 23 ≤ frame.length)
    (hcmd : cmd frame = CMD_LOGOUT) : AnswersAlike frame := by
  intro s c u v b₁ b₂ h₁ h₂
  have hf : ofPayload u (frame.drop 4) = ofPayload v (frame.drop 4) := by
    apply ofPayload_congr
    rw [List.length_drop]
    omega
  rw [answer_logout h₁ (by omega) hcmd, answer_logout h₂ (by omega) hcmd, hf]

/-- A shorter frame gives away the uninitialised double. -/
theorem not_answersAlike {frame : List UInt8} (h4 : 4 ≤ frame.length)
    (hl : dataLength frame = frame.length) (hcmd : cmd frame = CMD_LOGOUT)
    (h23 : frame.length < 23) : ¬ AnswersAlike frame := by
  intro h
  have hp : (CellBuffer.holding frame []).Presents frame :=
    CellBuffer.presents_holding h4 hl (Nat.zero_le _)
  have hs : (frame.drop 4).length < 19 := by
    rw [List.length_drop]
    omega
  have ha := congrArg (Option.map CellBuffer.content)
    (h ⟨false, false, false, []⟩ roomy (filled 0) (filled 1) _ _ hp hp)
  rw [content_answer hp h4 hcmd, content_answer hp h4 hcmd] at ha
  have hd := congrArg (fun bytes => decodeLE (slice bytes 15 8)) (Option.some.inj ha)
  simp only [slice_reply, double_ofPayload hs, decodeLE_encodeLE] at hd
  exact absurd hd (by decide)

/-- The answer to a logout is a function of its frame exactly when the frame is long enough for
the five scalars. -/
theorem logout_answers_alike_iff {frame : List UInt8} (h4 : 4 ≤ frame.length)
    (hl : dataLength frame = frame.length) (hcmd : cmd frame = CMD_LOGOUT) :
    AnswersAlike frame ↔ 23 ≤ frame.length := by
  constructor
  · intro h
    by_contra h23
    exact not_answersAlike h4 hl hcmd (by omega) h
  · intro h23
    exact answers_alike h23 hcmd

/-- A logout of 23 bytes, the scalars all zero and no arrays. -/
def shortest : List UInt8 := [23, 0, 2, 0] ++ List.replicate 19 0

theorem shortest_answers_alike : AnswersAlike shortest :=
  (logout_answers_alike_iff (by decide) (by decide) (by decide)).mpr (by decide)

/-- A logout that is only a header. -/
theorem bare_logout_answers_differ : ¬ AnswersAlike [4, 0, 2, 0] :=
  not_answersAlike (by decide) (by decide) (by decide) (by decide)

end MyServer

end CellNet
