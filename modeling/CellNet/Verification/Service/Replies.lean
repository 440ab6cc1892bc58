import CellNet.Verification.Handlers.Logout
import CellNet.Verification.Heart.Semantics
import CellNet.Verification.Service.Streams

/-! The server program on whatever its clients send: its handler never runs into undefined
behaviour, and answers with whole messages, in the order in which it was asked. -/

namespace CellNet

open Library CellStream

/-! ### Messages of the program -/

/-- The command that answers a command. -/
def answerCmd (command : ℕ) : Option ℕ :=
  if command = CMD_LOGIN then some CMD_LOGIN_RESULT
  else if command = CMD_LOGOUT then some CMD_LOGOUT_RESULT
  else if command = CMD_C2S_HEART then some CMD_S2C_HEART
  else none

/-- A whole message whose command answers that of `m`, if `m` is long enough to hold one. -/
structure Reply (m : Msg) (f : List UInt8) : Prop where
  framed : headerFraming.Framed f
  cmd : 4 ≤ m.1 → answerCmd (cmd m.2) = some (CellNet.cmd f)

theorem netmsg_DataHeader_framed (n command : ℕ) (body : List UInt8) (hn : n < 65536)
    (hc : command < 65536) (hb : n = 4 + body.length) :
    headerFraming.Framed (netmsg_DataHeader n command ++ body) ∧
      cmd (netmsg_DataHeader n command ++ body) = command := by
  have hd : dataLength (netmsg_DataHeader n command ++ body) = n := by
    rw [dataLength, slice, List.drop_zero, netmsg_DataHeader, List.append_assoc,
      List.take_left' (by simp), decodeLE_encodeLE]
    exact Nat.mod_eq_of_lt hn
  have hl : (netmsg_DataHeader n command ++ body).length = n := by
    simp [netmsg_DataHeader, hb]
    omega
  constructor
  · exact frame?_eq_some_iff.mpr ⟨by omega, by omega, hd.trans hl.symm⟩
  · rw [cmd, slice, netmsg_DataHeader, List.append_assoc, List.drop_left' (by simp),
      List.take_left' (by simp), decodeLE_encodeLE]
    exact Nat.mod_eq_of_lt hc

/-- The handler sees the command of the message it is given. -/
theorem reply_frontMessage {c : CellClient} {f : List UInt8} (hf : headerFraming.Framed f)
    (hc : answerCmd (cmd c.frontMsg) = some (cmd f)) : Reply (frontMessage c) f := by
  refine ⟨hf, ?_⟩
  intro h4
  have h4 : 4 ≤ CellNet.dataLength c.frontMsg := h4
  rw [frontMessage, (header_take h4).2, hc]

theorem Reply.dataLength {m : Msg} {f : List UInt8} (h : Reply m f) :
    CellNet.dataLength f = f.length :=
  (frame?_eq_some_iff.mp h.framed).2.2

theorem framed_of_replies {asked : List Msg} {replies : List (List UInt8)}
    (h : List.Forall₂ Reply asked replies) : ∀ f ∈ replies, headerFraming.Framed f := by
  induction h with
  | nil => simp
  | cons hr _ ih => simpa using ⟨hr.framed, ih⟩

theorem loginR_reply (u : Locals) (id : ℤ) {c : CellClient}
    (hc : cmd c.frontMsg = CMD_LOGIN) : Reply (frontMessage c) (netmsg_LoginR u.data id) := by
  have hf := netmsg_DataHeader_framed sizeofLogin CMD_LOGIN_RESULT
    (encodeInt 1 ++ u.data ++ encodeInt id) (by decide) (by decide)
    (by simp [encodeInt, u.length_data, sizeofLogin])
  rw [← List.append_assoc, ← netmsg_LoginR] at hf
  refine reply_frontMessage hf.1 ?_
  rw [hf.2, hc]
  rfl

theorem heart_reply {c : CellClient} (hc : cmd c.frontMsg = CMD_C2S_HEART) :
    Reply (frontMessage c) netmsg_s2c_Heart := by
  have hf := netmsg_DataHeader_framed 4 CMD_S2C_HEART [] (by decide) (by decide) rfl
  rw [List.append_nil, ← netmsg_s2c_Heart] at hf
  refine reply_frontMessage hf.1 ?_
  rw [hf.2, hc]
  rfl

theorem logout_reply {fields : LogoutFields} (hf : fields.Fits) {c : CellClient}
    (hc : cmd c.frontMsg = CMD_LOGOUT) : Reply (frontMessage c) fields.reply := by
  have hl := (MyServer.length_unfinished hf).2
  have hframed := netmsg_DataHeader_framed (23 + fields.arrays.length) CMD_LOGOUT_RESULT
    (fields.scalars ++ fields.arrays) (by omega) (by decide)
    (by rw [List.length_append, LogoutFields.length_scalars]; omega)
  refine reply_frontMessage hframed.1 ?_
  rw [LogoutFields.reply, hframed.2, hc]
  rfl

/-! ### The handler -/

/-- What the handler makes of a client: there is at most one reply to `m` behind what was still to
be sent. -/
structure Handled (nSendBuffSize : ℤ) (m : Msg) (c d : CellClient) : Prop where
  recvBuff : d.recvBuff = c.recvBuff
  sockfd : d.sockfd = c.sockfd
  valid : d.sendBuff.Valid
  size : d.sendBuff.nSize = nSendBuffSize
  reply : ∃ out, d.sendBuff.content = c.sendBuff.content ++ out ∧ (out = [] ∨ Reply m out)

namespace Handled

variable {nSendBuffSize : ℤ} {m : Msg} {c d e : CellClient}

/-- Nothing is sent. -/
theorem silent (hv : c.sendBuff.Valid) (hs : c.sendBuff.nSize = nSendBuffSize)
    (hb : d.sendBuff = c.sendBuff) (hr : d.recvBuff = c.recvBuff) (hk : d.sockfd = c.sockfd) :
    Handled nSendBuffSize m c d where
  recvBuff := hr
  sockfd := hk
  valid := hb ▸ hv
  size := hb ▸ hs
  reply := ⟨[], by rw [hb, List.append_nil], .inl rfl⟩

/-- Counters and timers make no difference. -/
theorem congr (h : Handled nSendBuffSize m c d) (hb : e.sendBuff = d.sendBuff)
    (hr : e.recvBuff = d.recvBuff) (hk : e.sockfd = d.sockfd) :
    Handled nSendBuffSize m c e where
  recvBuff := hr.trans h.recvBuff
  sockfd := hk.trans h.sockfd
  valid := hb ▸ h.valid
  size := hb ▸ h.size
  reply := hb ▸ h.reply

end Handled

namespace CellClient

variable {nSendBuffSize : ℤ} {m : Msg} {c : CellClient} {f : List UInt8}

/-- A reply goes into the send buffer as a whole, or not at all. -/
theorem sendData_handled (hv : c.sendBuff.Valid) (hs : c.sendBuff.nSize = nSendBuffSize)
    (hmax : nSendBuffSize ≤ 2147483508) (hl : f.length ≤ 139) (hr : Reply m f) :
    ∃ r, c.sendData f f.length = some r ∧ Handled nSendBuffSize m c r.1 := by
  have hf := hv.fits
  obtain ⟨b, hp, hb, hn, hc⟩ := CellBuffer.push_spec hv f (by omega)
  rw [sendData, hp]
  refine ⟨_, rfl, rfl, rfl, hb, hn.trans hs, ?_⟩
  split at hc
  · exact ⟨f, hc, .inr hr⟩
  · exact ⟨[], hc.trans (List.append_nil _).symm, .inl rfl⟩

theorem sendHeader_handled (hv : c.sendBuff.Valid) (hs : c.sendBuff.nSize = nSendBuffSize)
    (hmax : nSendBuffSize ≤ 2147483508) (hl : f.length ≤ 139) (hr : Reply m f) :
    ∃ r, c.sendHeader f = some r ∧ Handled nSendBuffSize m c r.1 := by
  rw [sendHeader, hr.dataLength]
  exact sendData_handled hv hs hmax hl hr

end CellClient

namespace MyServer

variable {nSendBuffSize nRecvBuffSize : ℤ} {c : CellClient}

theorem msgID_isSome {header : List UInt8} (h : sizeofLogin ≤ header.length) :
    (msgID header).isSome = true := by
  have h100 : 100 ≤ header.length := h
  rw [msgID, load, if_pos (by omega)]
  rfl

/-- Of the client, the check changes a counter only. -/
theorem checkMsgID_total (s : MyServer) (c : CellClient) {header : List UInt8}
    (h : sizeofLogin ≤ header.length) : ∃ s' n,
      s.checkMsgID c header = some (s', { c with nRecvMsgID := n }) := by
  obtain ⟨id, hid⟩ := Option.isSome_iff_exists.mp (msgID_isSome h)
  rw [checkMsgID]
  split
  · rw [hid]
    exact ⟨_, _, rfl⟩
  · exact ⟨s, c.nRecvMsgID, rfl⟩

theorem sendBack_handled (s : MyServer) (u : Locals) {m : Msg}
    (hv : c.sendBuff.Valid) (hs : c.sendBuff.nSize = nSendBuffSize)
    (hmax : nSendBuffSize ≤ 2147483508) (hr : Reply m (netmsg_LoginR u.data c.nSendMsgID)) :
    ∃ r, s.sendBack u c = some r ∧ Handled nSendBuffSize m c r.2 := by
  have hl : (netmsg_LoginR u.data c.nSendMsgID).length ≤ 139 := by
    simp [netmsg_LoginR, netmsg_DataHeader, encodeInt, u.length_data]
  obtain ⟨r, hsend, hh⟩ := CellClient.sendHeader_handled hv hs hmax hl hr
  rw [sendBack]
  split
  · rw [hsend, Option.bind_eq_bind, Option.bind_some]
    split
    · exact ⟨_, rfl, hh⟩
    · exact ⟨_, rfl, hh.congr rfl rfl rfl⟩
  · exact ⟨_, rfl, .silent hv hs rfl rfl rfl⟩

theorem onLogin_handled (s : MyServer) (u : Locals)
    (h : c.Sized nSendBuffSize nRecvBuffSize) (hmax : nSendBuffSize ≤ 2147483508)
    (hmin : (sizeofLogin : ℤ) ≤ nRecvBuffSize) (hc : cmd c.frontMsg = CMD_LOGIN) :
    ∃ r, s.onLogin u c c.frontMsg = some r ∧ Handled nSendBuffSize (frontMessage c) c r.2 := by
  have hblock : sizeofLogin ≤ c.frontMsg.length := by
    have hb : (c.frontMsg.length : ℤ) = c.recvBuff.nSize := h.recv.block
    rw [h.recvSize] at hb
    omega
  obtain ⟨s', n, hcheck⟩ := checkMsgID_total s c.resetDtHeart hblock
  obtain ⟨r, hback, hh⟩ := sendBack_handled s' u (c := { c.resetDtHeart with nRecvMsgID := n })
    h.send h.sendSize hmax (loginR_reply u c.nSendMsgID hc)
  refine ⟨r, ?_, hh.recvBuff, hh.sockfd, hh.valid, hh.size, hh.reply⟩
  rw [onLogin, hcheck, Option.bind_eq_bind, Option.bind_some]
  exact hback

/-- The constructor of a reader is defined for a header that announces less than itself, too. -/
theorem ofHeader_total {header : List UInt8} (hl : dataLength header ≤ header.length) :
    ∃ r, CellReadStream.ofHeader header = some r ∧ r.Valid := by
  have hi := dataLength_le header
  have hw : wrap32 ((0 : ℤ) + dataLength header) = dataLength header := by
    rw [zero_add, wrap32_eq (by omega) (by omega)]
  have hv : ((CellStream.new header (dataLength header)).push (dataLength header)).Valid := by
    simp only [CellStream.push, CellStream.new, hw]
    exact ⟨by simpa using hl, le_rfl, by simp, le_rfl, by simp; omega⟩
  obtain ⟨r₁, h₁, hv₁, -⟩ := read_take hv (w := 2) (by omega) 0
  obtain ⟨r₂, h₂, hv₂, -⟩ := read_take hv₁ (w := 2) (by omega) CMD_ERROR
  refine ⟨r₂, ?_, hv₂⟩
  simp only [CellReadStream.ofHeader, CellReadStream.new, readInt16, h₁, CellReadStream.getNetCmd,
    h₂, Option.bind_eq_bind, Option.bind_some]

/-- The fields are read from whatever is in front of the reader. -/
theorem readLogout_total (u : Locals) {header : List UInt8}
    (hl : dataLength header ≤ header.length) :
    ∃ f, readLogout u header = some f ∧ f.Fits := by
  obtain ⟨r, hr, hv⟩ := ofHeader_total hl
  obtain ⟨r1, h1, hv1, hu1⟩ := read_take hv (w := 1) (by omega) 0
  obtain ⟨r2, h2, hv2, hu2⟩ := read_take hv1 (w := 2) (by omega) 0
  obtain ⟨r3, h3, hv3, hu3⟩ := read_take hv2 (w := 4) (by omega) u.int
  obtain ⟨r4, h4, hv4, hu4⟩ := read_take hv3 (w := 4) (by omega) u.float
  obtain ⟨r5, h5, hv5, hu5⟩ := read_take hv4 (w := 8) (by omega) u.double
  obtain ⟨b, hb⟩ := read_peek hv5 (w := 4) (by omega) 0
  obtain ⟨r6, h6, hv6, hu6⟩ := readArray_take hv5 1 32
    (List.length_replicate (a := (0 : UInt8))) (by omega)
  obtain ⟨r7, h7, hv7, hu7⟩ := readArray_take hv6 1 32
    (List.length_replicate (a := (0 : UInt8))) (by omega)
  obtain ⟨r8, h8, -, -⟩ := readArray_take hv7 4 10
    (List.length_replicate (a := (0 : UInt8))) (by omega)
  refine ⟨.ofPayload u r.unread, ?_, LogoutFields.ofPayload_fits u r.unread⟩
  simp only [readLogout, hr, readInt8, h1, readInt16, h2, readInt32, h3, readFloat, h4,
    readDouble, h5, onlyRead, hb, h6, h7, h8, Option.bind_eq_bind, Option.bind_some,
    LogoutFields.ofPayload, hu1, hu2, hu3, hu4, hu5, hu6, hu7]

theorem onLogout_handled (s : MyServer) (u : Locals)
    (h : c.Sized nSendBuffSize nRecvBuffSize) (hmax : nSendBuffSize ≤ 2147483508)
    (hm : c.hasMsg = true) (hc : cmd c.frontMsg = CMD_LOGOUT) :
    ∃ r, s.onLogout u c c.frontMsg = some r ∧ Handled nSendBuffSize (frontMessage c) c r.2 := by
  have hp : c.recvBuff.Presents (frontMessage c).2 := ⟨h.recv, hm, rfl⟩
  have hlen : dataLength c.frontMsg ≤ c.frontMsg.length := hp.bounds.2
  obtain ⟨f, hf, hfits⟩ := readLogout_total u hlen
  obtain ⟨w, hw, hv, hwritten⟩ := writeLogout_eq u hfits
  obtain ⟨r, hr, hh⟩ := CellClient.sendData_handled h.send h.sendSize hmax
    (LogoutFields.length_reply hfits) (logout_reply hfits hc)
  refine ⟨(s, r.1), ?_, hh⟩
  have hsend : c.sendData w.data w.length = some r := by
    have hl : w.length = f.reply.length := by
      rw [← hwritten]
      exact (length_written hv).symm
    rw [CellClient.sendData, push_stream hv, hwritten, hl]
    exact hr
  rw [onLogout, hf, Option.bind_eq_bind, Option.bind_some, hw, Option.bind_eq_bind,
    Option.bind_some, hsend]
  rfl

theorem onHeart_handled (s : MyServer)
    (h : c.Sized nSendBuffSize nRecvBuffSize) (hmax : nSendBuffSize ≤ 2147483508)
    (hc : cmd c.frontMsg = CMD_C2S_HEART) :
    ∃ r, s.onHeart c = some r ∧ Handled nSendBuffSize (frontMessage c) c r.2 := by
  obtain ⟨r, hr, hh⟩ := CellClient.sendHeader_handled (c := c.resetDtHeart) h.send h.sendSize hmax
    (by decide) (heart_reply hc)
  refine ⟨(s, r.1), ?_, hh.recvBuff, hh.sockfd, hh.valid, hh.size, hh.reply⟩
  rw [onHeart, hr]
  rfl

/-- Whatever message the handler is given, it returns. -/
theorem onNetMsg_handled (s : MyServer) (u : Locals)
    (h : c.Sized nSendBuffSize nRecvBuffSize) (hmax : nSendBuffSize ≤ 2147483508)
    (hmin : (sizeofLogin : ℤ) ≤ nRecvBuffSize) (hm : c.hasMsg = true) :
    ∃ r, s.onNetMsg u c c.frontMsg = some r ∧
      Handled nSendBuffSize (frontMessage c) c r.2 := by
  rw [onNetMsg]
  split
  · next hc => exact onLogin_handled s u h hmax hmin hc
  · split
    · next hc => exact onLogout_handled s u h hmax hm hc
    · split
      · next hc => exact onHeart_handled s h hmax hc
      · exact ⟨_, rfl, .silent h.send h.sendSize rfl rfl rfl⟩

/-! ### The handler as the workers call it -/

/-- As long as behaviour was defined, it stays so. -/
theorem checkedHandler_spec {x : Option MyServer × (ℕ → Locals)}
    (h : c.Sized nSendBuffSize nRecvBuffSize) (hmax : nSendBuffSize ≤ 2147483508)
    (hmin : (sizeofLogin : ℤ) ≤ nRecvBuffSize) (hm : c.hasMsg = true) :
    ((checkedHandler x c c.frontMsg).1.1.isSome = x.1.isSome) ∧
      Handled nSendBuffSize (frontMessage c) c (checkedHandler x c c.frontMsg).2 := by
  obtain ⟨s, u⟩ := x
  cases s with
  | none => exact ⟨rfl, .silent h.send h.sendSize rfl rfl rfl⟩
  | some s =>
      obtain ⟨r, hr, hh⟩ := onNetMsg_handled s (u 0) h hmax hmin hm
      simp only [checkedHandler, Option.bind_some, hr]
      exact ⟨rfl, hh⟩

section RecvBuff

variable {s : MyServer} {u : Locals} {header : List UInt8} {r : MyServer × CellClient}

theorem sendData_recvBuff {pData : List UInt8} {len : ℤ} {x : CellClient × ℤ}
    (h : c.sendData pData len = some x) : x.1.recvBuff = c.recvBuff := by
  obtain ⟨y, -, h⟩ := Option.bind_eq_some_iff.mp h
  obtain rfl := Option.some.inj h
  rfl

theorem onLogin_recvBuff (h : s.onLogin u c header = some r) : r.2.recvBuff = c.recvBuff := by
  obtain ⟨x, hx, h⟩ := Option.bind_eq_some_iff.mp h
  have hcheck : x.2.recvBuff = c.recvBuff := by
    rw [checkMsgID] at hx
    split at hx
    · obtain ⟨id, -, hx⟩ := Option.bind_eq_some_iff.mp hx
      obtain rfl := Option.some.inj hx
      rfl
    · obtain rfl := Option.some.inj hx
      rfl
  refine Eq.trans ?_ hcheck
  rw [sendBack] at h
  split at h
  · obtain ⟨y, hy, h⟩ := Option.bind_eq_some_iff.mp h
    have hk := sendData_recvBuff hy
    split at h
    · obtain rfl := Option.some.inj h
      exact hk
    · obtain rfl := Option.some.inj h
      exact hk
  · obtain rfl := Option.some.inj h
    rfl

theorem onNetMsg_recvBuff (h : s.onNetMsg u c header = some r) : r.2.recvBuff = c.recvBuff := by
  rw [onNetMsg] at h
  split at h
  · exact onLogin_recvBuff h
  · split at h
    · simp only [onLogout, Option.bind_eq_bind, Option.bind_eq_some_iff] at h
      obtain ⟨f, -, reply, -, x, hx, h⟩ := h
      obtain rfl := Option.some.inj h
      exact sendData_recvBuff hx
    · split at h
      · obtain ⟨x, hx, h⟩ := Option.bind_eq_some_iff.mp h
        obtain rfl := Option.some.inj h
        exact sendData_recvBuff (c := c.resetDtHeart) hx
      · obtain rfl := Option.some.inj h
        rfl

end RecvBuff

theorem checkedHandler_keepsRecv : checkedHandler.KeepsRecv := by
  intro x c header
  simp only [checkedHandler]
  split
  · next r hr =>
      obtain ⟨s, -, hs⟩ := Option.bind_eq_some_iff.mp hr
      exact onNetMsg_recvBuff hs
  · rfl

theorem checkedHandler_keepsSock : checkedHandler.KeepsSock := by
  intro x c header
  simp only [checkedHandler]
  split
  · next r hr =>
      obtain ⟨s, -, hs⟩ := Option.bind_eq_some_iff.mp hr
      exact (onNetMsg_keeps hs).1
  · rfl

theorem checkedHandler_replies (hmax : nSendBuffSize ≤ 2147483508)
    (hmin : (sizeofLogin : ℤ) ≤ nRecvBuffSize) :
    checkedHandler.Replies nSendBuffSize nRecvBuffSize Reply := by
  intro x c h hm
  obtain ⟨-, hh⟩ := checkedHandler_spec (x := x) h hmax hmin hm
  exact ⟨hh.valid, hh.size, hh.reply⟩

/-! ### Runs of the server program -/

open ServedStreams ServerLoops

section Runs

variable {t : ServerT} {s s₀ s' : ServedStreams t.Poller (Option MyServer × (ℕ → Locals))}

/-- Nothing but a message calls the handler, and that of a client with sound buffers. -/
theorem defined_next (hmax : nSendBuffSize ≤ 2147483508)
    (hmin : (sizeofLogin : ℤ) ≤ nRecvBuffSize) (hrecv : nRecvBuffSize ≤ 2147483647)
    (h : (ServedStreams.system t checkedHandler nSendBuffSize nRecvBuffSize).Reachable s)
    {e : LoopEvent t.Answer} {loops : ServerLoops t.Poller (Option MyServer × (ℕ → Locals))}
    (hn : ServerLoops.next t checkedHandler s.loops e = some loops) :
    loops.server.ext.1.isSome = s.loops.server.ext.1.isSome := by
  cases next_cases hn with
  | accpet ha =>
      rcases EasyTcpServer.accpet_cases ha with ⟨-, rfl | rfl⟩ | ⟨-, c, i, hc, rfl⟩
      · rfl
      · rfl
      · rfl
  | doMsg hd =>
      cases hd with
      | done => rfl
      | skip => rfl
      | @handle k rest c p client hpc hi hf hg hm =>
          have hs := streams_of_reachable checkedHandler_keepsSock checkedHandler_keepsRecv
            (checkedHandler_replies hmax hmin) (by omega) hrecv h p
          rw [life_some hg] at hs
          exact (checkedHandler_spec hs.1 hmax hmin hm).1
  | _ => rfl

/-- In every run of the server program, whatever bytes its clients send: the handler stays in its
blocks, and what a client is sent is the front of whole messages that answer some of its own, in the
order in which they were handled. Whatever it parses is a front of these. -/
theorem replies_in_order (hmax : nSendBuffSize ≤ 2147483508)
    (hmin : (sizeofLogin : ℤ) ≤ nRecvBuffSize) (hrecv : nRecvBuffSize ≤ 2147483647)
    (h₀ : (ServedStreams.system t checkedHandler nSendBuffSize nRecvBuffSize).init s₀)
    (hext : s₀.loops.server.ext.1.isSome = true) {es : List (LoopEvent t.Answer)}
    (h : (ServedStreams.system t checkedHandler nSendBuffSize nRecvBuffSize).Path s₀ es s)
    (p : Ptr) : s.loops.server.ext.1.isSome = true ∧
      ∃ asked replies, asked.Sublist (s.transcripts p).dispatched ∧
        List.Forall₂ Reply asked replies ∧ (s.transcripts p).wired <+: replies.flatten ∧
        ∀ ms rest, headerFraming.Consumes (s.transcripts p).wired ms rest → ms <+: replies := by
  have hreachable :
      (ServedStreams.system t checkedHandler nSendBuffSize nRecvBuffSize).Reachable s :=
    ⟨s₀, es, h₀, h⟩
  constructor
  · have hall := h.preserves (P := fun s =>
      (ServedStreams.system t checkedHandler nSendBuffSize nRecvBuffSize).Reachable s ∧
        s.loops.server.ext.1.isSome = true) ?_ ⟨.init h₀, hext⟩
    · exact hall.2
    · intro s e s' hs he
      exact ⟨hs.1.step he, (defined_next hmax hmin hrecv hs.1 he.1.2).trans hs.2⟩
  · obtain ⟨-, ⟨asked, replies, hasked, hreplies, hpushed⟩, hwired⟩ :=
      transcript_of_reachable checkedHandler_keepsSock checkedHandler_keepsRecv
        (checkedHandler_replies hmax hmin) (by omega) hrecv hreachable p
    rw [hpushed] at hwired
    refine ⟨asked, replies, hasked, hreplies, hwired, ?_⟩
    intro ms rest hms
    obtain ⟨tail, htail⟩ := hwired
    obtain ⟨gs, hgs, -⟩ := hms.framed (framed_of_replies hreplies) htail
    exact ⟨gs, hgs.symm⟩

end Runs

/-! A client on the socket 5 sends one heartbeat and is sent one back. -/

/-- The server program with one worker. -/
def answering : ServedStreams Unit (Option MyServer × (ℕ → Locals)) :=
  ⟨⟨.start 1 8 100 2 (fun _ => 0) () (some ⟨true, true, true, []⟩, fun _ => filled 0), [.test]⟩,
    fun _ => .blank⟩

/-- Its worker is about to poll. -/
def answering5 : ServedStreams Unit (Option MyServer × (ℕ → Locals)) :=
  [LoopEvent.accpet 5 (List.replicate 8 0) (List.replicate 100 0), .drain 0 0,
    .checkTime 0 0].foldl (play checkedHandler) answering

/-- The heartbeat arrives. -/
def beats : EpollAnswer := .events [⟨0, true, false, some [4, 0, 5, 0], 0⟩]

/-- The worker is about to poll again. -/
def answered5 : ServedStreams Unit (Option MyServer × (ℕ → Locals)) :=
  [LoopEvent.doNetEvent 0 beats, .doMsg 0, .doMsg 0, .doMsg 0, .drain 0 0,
    .checkTime 0 0].foldl (play checkedHandler) answering5

/-- The answer goes out. -/
def writable : EpollAnswer := .events [⟨0, false, true, none, 4⟩]

def wired5 : ServedStreams Unit (Option MyServer × (ℕ → Locals)) :=
  play checkedHandler answered5 (.doNetEvent 0 writable)

/-- The worker while the client is connected. -/
def answerer5 : CellServer Unit :=
  { CellServer.new 1 0 () with clients := OrderedMap.empty.insert 5 0 }

/-- The client as it was taken up. -/
def asking5 : CellClient :=
  { CellClient.new 1 5 (.new 8 (List.replicate 8 0)) (.new 100 (List.replicate 100 0)) with
    serverId := 1 }

theorem answering5_path : ∃ es,
    (ServedStreams.system .epoll checkedHandler 8 100).Path answering es answering5 := by
  have h₀ : (ServedStreams.system .epoll checkedHandler 8 100).Path answering [] answering :=
    .nil answering
  have h₁ := h₀.append (.single (step_play
    (e := .accpet 5 (List.replicate 8 0) (List.replicate 100 0))
    ⟨List.not_mem_nil, rfl, rfl⟩ trivial (by decide +kernel)))
  have h₂ := h₁.append (.single (step_play (e := .drain 0 0) rfl trivial (by decide +kernel)))
  exact ⟨_, h₂.append (.single (step_play (e := .checkTime 0 0) rfl trivial (by decide +kernel)))⟩

theorem answered5_path : ∃ es,
    (ServedStreams.system .epoll checkedHandler 8 100).Path answering es answered5 := by
  obtain ⟨es, h₀⟩ := answering5_path
  have hworker : answering5.loops.server.cellServers[0]? = some answerer5 := rfl
  have hanswers : ∀ c, answering5.loops.server.cellServers[0]? = some c →
      CellEpollServer.Reports (answering5.loops.server.net, c) beats := by
    intro c hc
    obtain rfl := Option.some.inj (hworker.symm.trans hc)
    exact reports_one rfl (List.mem_singleton.mpr rfl) rfl rfl nofun
  have hclient : answering5.loops.server.net.heap.get? 0 = some asking5 := rfl
  have hfits : Fits .epoll answering5 (.doNetEvent 0 beats) :=
    fits_one rfl hclient ⟨by decide, nofun⟩
  have h₁ := h₀.append (.single (step_play (e := .doNetEvent 0 beats) ⟨rfl, hanswers⟩ hfits
    (by decide +kernel)))
  have h₂ := h₁.append (.single (step_play (e := .doMsg 0) ⟨[5], by decide +kernel⟩ trivial
    (by decide +kernel)))
  have h₃ := h₂.append (.single (step_play (e := .doMsg 0) ⟨[5], by decide +kernel⟩ trivial
    (by decide +kernel)))
  have h₄ := h₃.append (.single (step_play (e := .doMsg 0) ⟨[], by decide +kernel⟩ trivial
    (by decide +kernel)))
  have h₅ := h₄.append (.single (step_play (e := .drain 0 0)
    (show _ = some LoopPc.test from by decide +kernel) trivial (by decide +kernel)))
  exact ⟨_, h₅.append (.single (step_play (e := .checkTime 0 0)
    (show _ = some LoopPc.checkTime from by decide +kernel) trivial (by decide +kernel)))⟩

theorem wired5_path : ∃ es,
    (ServedStreams.system .epoll checkedHandler 8 100).Path answering es wired5 := by
  obtain ⟨es, h₀⟩ := answered5_path
  have hworker : answered5.loops.server.cellServers[0]? = some answerer5 := rfl
  have hanswers : ∀ c, answered5.loops.server.cellServers[0]? = some c →
      CellEpollServer.Reports (answered5.loops.server.net, c) writable := by
    intro c hc
    obtain rfl := Option.some.inj (hworker.symm.trans hc)
    exact reports_one rfl (List.mem_singleton.mpr rfl) rfl rfl fun _ => rfl
  have hheld : (answered5.loops.server.net.heap.get? 0).map (fun c =>
      (c.sendBuff.nLast, c.recvBuff.nSize - c.recvBuff.nLast)) = some (4, 100) := by
    decide +kernel
  obtain ⟨client, hc, hheld⟩ := Option.map_eq_some_iff.mp hheld
  obtain ⟨hlast, hroom⟩ := Prod.mk.inj hheld
  have hnext : answered5.loops.server.net.heap.next = 1 := by decide +kernel
  have hfits : Fits .epoll answered5 (.doNetEvent 0 writable) := by
    refine fits_one hnext hc ⟨?_, ?_⟩
    · rw [hroom]
      simp [CellEpollServer.io, writable, EpollEvent.io, CellClient.arrives]
    · intro ret hret
      obtain rfl := Option.some.inj hret
      exact hlast.ge
  have hpc : answered5.loops.pcs[0]? = some LoopPc.doNetEvent := by decide +kernel
  exact ⟨_, h₀.append (.single (step_play (e := .doNetEvent 0 writable)
    ⟨hpc, hanswers⟩ hfits (by decide +kernel)))⟩

theorem replies_in_order_wired5 :
    (wired5.transcripts 0).dispatched = [(4, [4, 0, 5, 0])] ∧
      (wired5.transcripts 0).wired = [4, 0, 6, 0] ∧
      ∃ asked replies, asked.Sublist (wired5.transcripts 0).dispatched ∧
        List.Forall₂ Reply asked replies ∧ (wired5.transcripts 0).wired <+: replies.flatten := by
  obtain ⟨es, hpath⟩ := wired5_path
  have h₀ : (ServedStreams.system .epoll checkedHandler 8 100).init answering :=
    ⟨⟨1, 8, 100, 2, fun _ => 0, (), _, rfl⟩, rfl, rfl, fun _ => rfl⟩
  obtain ⟨-, asked, replies, hasked, hreplies, hwired, -⟩ :=
    replies_in_order (by decide) (by decide) (by decide) h₀ rfl hpath 0
  exact ⟨by decide +kernel, by decide +kernel, asked, replies, hasked, hreplies, hwired⟩

end MyServer

end CellNet
