import CellNet.Library.Stations
import CellNet.Verification.Session.Continuity

/-! With `-checkSendBack` the two programs take turns: what each call does to the one message
that is under way. -/

namespace CellNet

open Finset Library

/-! ### What the calls move -/

theorem InFlight.nil_or_long {command : ℕ} {n m : ℤ} {bytes : List UInt8}
    (h : InFlight command n bytes m) : bytes = [] ∨ sizeofLogin ≤ bytes.length := by
  cases h with
  | nil => exact .inl rfl
  | cons hs _ => exact .inr (by rw [List.length_append, hs.length]; omega)

theorem InFlight.of_nil {command : ℕ} {n m : ℤ} (h : InFlight command n [] m) : n = m := by
  generalize hb : ([] : List UInt8) = bytes at h
  cases h with
  | nil => rfl
  | cons hs _ =>
      have hsize : sizeofLogin = 100 := rfl
      have hlen := congrArg List.length hb
      rw [List.length_append, hs.length, List.length_nil] at hlen
      omega

/-- A message is complete once all of its bytes are there. -/
theorem InFlight.complete {command : ℕ} {n m : ℤ} {xs ys : List UInt8}
    (h : InFlight command n (xs ++ ys) m) (hl : sizeofLogin ≤ xs.length) :
    headerFraming.frame? xs = some sizeofLogin := by
  generalize hb : xs ++ ys = bytes at h
  cases h with
  | nil n =>
      have hx : xs = [] := (List.append_eq_nil_iff.mp hb).1
      rw [hx] at hl
      exact absurd hl (by decide)
  | @cons n m f rest hs hr =>
      have hsize : 4 ≤ sizeofLogin := by decide
      have hd : dataLength xs = sizeofLogin := by
        have hxs : dataLength (xs ++ ys) = dataLength xs := dataLength_append (by omega) ys
        have hf : dataLength (f ++ rest) = dataLength f :=
          dataLength_append (by rw [hs.length]; omega) rest
        rw [← hxs, hb, hf, hs.dataLength]
      exact frame?_eq_some_iff.mpr ⟨by omega, by omega, hd⟩

namespace CellClient

variable {c : CellClient}

/-- The socket is open, and a message fits either buffer. -/
structure Roomy (c : CellClient) : Prop where
  sockfd : INVALID_SOCKET ≠ c.sockfd
  send : sizeofLogin ≤ c.sendBuff.nSize
  recv : sizeofLogin ≤ c.recvBuff.nSize

theorem Roomy.sendInto (h : c.Roomy) (hv : c.sendBuff.Valid) (ret : ℤ) (channel : List UInt8) :
    (c.sendInto ret channel).1.Roomy := by
  obtain ⟨-, hs, -⟩ := CellBuffer.write2socket_spec hv c.sockfd
    (min_le_right ret c.sendBuff.nLast)
  exact ⟨h.sockfd, hs ▸ h.send, h.recv⟩

theorem sendInto_amount (h : c.sendBuff.Valid) (ret : ℤ) (channel : List UInt8) :
    ∃ n, (c.sendInto ret channel).1.sendBuff.content.length + n = c.sendBuff.content.length ∧
      (c.sendInto ret channel).2.length = channel.length + n := by
  obtain ⟨-, -, hc⟩ := CellBuffer.write2socket_spec h c.sockfd
    (min_le_right ret c.sendBuff.nLast)
  refine ⟨(c.sendBuff.wire c.sockfd (min ret c.sendBuff.nLast)).length, ?_, ?_⟩
  · rw [hc, List.length_append, Nat.add_comm]
    rfl
  · rw [CellClient.sendInto, List.length_append]

/-- A `send` that takes everything. -/
theorem sendInto_all (h : c.sendBuff.Valid) (hs : INVALID_SOCKET ≠ c.sockfd) {ret : ℤ}
    (hr : c.sendBuff.content.length ≤ ret) (channel : List UInt8) :
    (c.sendInto ret channel).1.sendBuff.content = [] := by
  have hl := CellBuffer.length_content h
  have hall : (c.sendInto ret channel).1.sendBuff =
      (c.sendBuff.write2socket c.sockfd c.sendBuff.nLast).1 := by
    rw [← min_eq_right (show c.sendBuff.nLast ≤ ret by omega)]
    rfl
  rw [hall]
  by_cases hn : c.sendBuff.nLast > 0
  · rw [CellBuffer.write2socket_all ⟨hn, hs⟩]
    simp [CellBuffer.content]
  · rw [CellBuffer.write2socket_idle fun hw => hn hw.1]
    have hnil := h.nonneg
    exact (CellBuffer.content_eq_nil_iff h).mpr (by omega)

theorem Roomy.recvFrom (h : c.Roomy) (hv : c.recvBuff.Valid) (k : ℕ) (channel : List UInt8) :
    (c.recvFrom k channel).1.Roomy := by
  have hf := hv.fits
  have hl := List.length_take_le (min k (c.recvBuff.nSize - c.recvBuff.nLast).toNat) channel
  obtain ⟨-, hs, -⟩ := CellBuffer.read4socket_spec hv
    (some (channel.take (min k (c.recvBuff.nSize - c.recvBuff.nLast).toNat)))
    (by rw [Option.getD_some]; omega)
  exact ⟨h.sockfd, h.send, hs ▸ h.recv⟩

theorem recvFrom_amount (h : c.recvBuff.Valid) (k : ℕ) (channel : List UInt8) :
    ∃ n, (c.recvFrom k channel).2.length + n = channel.length ∧
      (c.recvFrom k channel).1.recvBuff.content.length = c.recvBuff.content.length + n := by
  obtain ⟨-, hc⟩ := recvFrom_spec h k channel
  have hl := congrArg List.length hc
  have hle : (c.recvFrom k channel).2.length ≤ channel.length := by
    simp [CellClient.recvFrom]
  rw [List.length_append, List.length_append] at hl
  exact ⟨channel.length - (c.recvFrom k channel).2.length, by omega, by omega⟩

/-- A `recv` that takes everything. -/
theorem recvFrom_all (h : c.recvBuff.Valid) {k : ℕ} {channel : List UInt8}
    (hk : channel.length ≤ k)
    (hroom : (c.recvBuff.content.length + channel.length : ℤ) ≤ c.recvBuff.nSize) :
    (c.recvFrom k channel).2 = [] := by
  have hl := CellBuffer.length_content h
  rw [CellClient.recvFrom, List.drop_eq_nil_iff]
  omega

/-- A message that fits is taken whole. -/
theorem sendHeader_fits (h : c.sendBuff.Valid) {f : List UInt8} (hl : f.length = dataLength f)
    (hfit : (c.sendBuff.content.length + f.length : ℤ) ≤ c.sendBuff.nSize) :
    ∃ b, c.sendHeader f = some ({ c with sendBuff := b }, (f.length : ℤ)) ∧
      b.nSize = c.sendBuff.nSize ∧ b.content = c.sendBuff.content ++ f := by
  have hn := CellBuffer.length_content h
  have hle : c.sendBuff.nLast + f.length ≤ c.sendBuff.nSize := by omega
  obtain ⟨b, hp, -, hs, hc⟩ := CellBuffer.push_spec h f (hle.trans h.int32)
  rw [if_pos hle] at hc
  refine ⟨b, ?_, hs, hc⟩
  rw [sendHeader, ← hl, sendData, hp, decide_eq_true hle]
  rfl

/-- Popping takes one message off. -/
theorem popFrontMsg_amount (h : c.recvBuff.Valid)
    (hf : headerFraming.frame? c.recvBuff.content = some sizeofLogin) (hr : c.Roomy) :
    c.popFrontMsg.Roomy ∧ c.popFrontMsg.sendBuff = c.sendBuff ∧
      c.popFrontMsg.recvBuff.content.length + sizeofLogin = c.recvBuff.content.length := by
  obtain ⟨-, hs, hc⟩ := popFrontMsg_spec h hf
  obtain ⟨-, hd, hlen⟩ := frame?_eq_some_iff.mp hf
  have hsize : c.popFrontMsg.recvBuff.content.length + sizeofLogin =
      c.recvBuff.content.length := by
    rw [hc, List.length_drop]
    omega
  rw [popFrontMsg_eq]
  exact ⟨⟨hr.sockfd, hr.send, hs ▸ hr.recv⟩, rfl, hsize⟩

end CellClient

/-! ### The two programs -/

/-- The server answers a login if there is room for it. -/
theorem MyServer.Inv.answers {s : MyServer} {u : Locals} {c : CellClient} (h : s.Inv c)
    (hr : c.Roomy) (hb : s.bSendBack = true) {rest : List UInt8} {n : ℤ}
    (hf : InFlight CMD_LOGIN c.nRecvMsgID (c.recvBuff.content ++ rest) n)
    (hlen : sizeofLogin ≤ c.recvBuff.content.length) (hempty : c.sendBuff.content = []) :
    ∃ r, s.doMsg u c = some r ∧ r.1.bSendBack = true ∧ r.2.Roomy ∧
      r.2.recvBuff.content.length + sizeofLogin = c.recvBuff.content.length ∧
      r.2.sendBuff.content.length = sizeofLogin := by
  have hk := hf.complete hlen
  have hm : c.hasMsg = true := by
    rw [CellClient.hasMsg, CellBuffer.hasMsg_eq h.recv, hk]
    rfl
  obtain ⟨hc, hid⟩ := front_message h.recv hm hf
  have hcheck := checkMsgID_eq h.checks hid c.resetDtHeart
  have hnum : c.resetDtHeart.nRecvMsgID = c.nRecvMsgID := rfl
  rw [hnum, if_neg (not_not.mpr rfl)] at hcheck
  have hst := stamped_LoginR u h.int32
  let c₁ : CellClient := { c.resetDtHeart with nRecvMsgID := wrap32 (c.nRecvMsgID + 1) }
  have hfit : (c₁.sendBuff.content.length +
      (netmsg_LoginR u.data c.nSendMsgID).length : ℤ) ≤ c₁.sendBuff.nSize := by
    have hroom := hr.send
    have hnil : c₁.sendBuff.content = [] := hempty
    have hsize : c₁.sendBuff.nSize = c.sendBuff.nSize := rfl
    rw [hnil, hst.length, hsize, List.length_nil]
    omega
  obtain ⟨b, hsend, hs, hb'⟩ := CellClient.sendHeader_fits (c := c₁) h.send
    (hst.length.trans hst.dataLength.symm) hfit
  have hne : ¬ ((netmsg_LoginR u.data c.nSendMsgID).length : ℤ) = SOCKET_ERROR := by
    rw [SOCKET_ERROR]
    omega
  have hanswer : s.sendBack u c₁ =
      some (s, { c₁ with sendBuff := b, nSendMsgID := wrap32 (c.nSendMsgID + 1) }) := by
    rw [MyServer.sendBack, if_pos hb]
    simp only [show c₁.nSendMsgID = c.nSendMsgID from rfl, hsend, Option.bind_eq_bind,
      Option.bind_some, if_neg hne]
  let c₂ : CellClient := { c₁ with sendBuff := b, nSendMsgID := wrap32 (c.nSendMsgID + 1) }
  have hroomy : c₂.Roomy := ⟨hr.sockfd, hs ▸ hr.send, hr.recv⟩
  obtain ⟨hroomy', hsame, hpop⟩ := CellClient.popFrontMsg_amount (c := c₂) h.recv hk hroomy
  refine ⟨(s, c₂.popFrontMsg), ?_, hb, hroomy', hpop, ?_⟩
  · rw [MyServer.doMsg, if_pos hm, onNetMsg_login hc, onLogin, hcheck, Option.bind_eq_bind,
      Option.bind_some, hanswer]
    rfl
  · have hlength : b.content.length = sizeofLogin := by
      have hnil : c₁.sendBuff.content = [] := hempty
      rw [hb', hnil, List.nil_append, hst.length]
    show c₂.popFrontMsg.sendBuff.content.length = sizeofLogin
    rw [hsame]
    exact hlength

theorem MyServer.Inv.waits {s : MyServer} {u : Locals} {c : CellClient} (h : s.Inv c)
    (hlen : c.recvBuff.content.length < sizeofLogin) {rest : List UInt8} {n : ℤ}
    (hf : InFlight CMD_LOGIN c.nRecvMsgID (c.recvBuff.content ++ rest) n) :
    s.doMsg u c = some (s, c) := by
  rw [MyServer.doMsg, if_neg]
  intro hm
  rw [CellClient.hasMsg, CellBuffer.hasMsg_eq h.recv] at hm
  obtain ⟨k, hk⟩ := Option.isSome_iff_exists.mp hm
  have hfull := (hf.front hk).1.length
  rw [List.length_take] at hfull
  omega

namespace MyClient

variable {e : EasyTcpClient MyClient} {c : CellClient}

theorem Inv.answered (h : Inv e c) (hr : c.Roomy) {rest : List UInt8} {n : ℤ}
    (hf : InFlight CMD_LOGIN_RESULT e.ext.nRecvMsgID (c.recvBuff.content ++ rest) n)
    (hlen : sizeofLogin ≤ c.recvBuff.content.length) :
    ∃ e' c', MyClient.doMsg e = some e' ∧ e'.pClient = some c' ∧ e'.ext.bSend = false ∧ c'.Roomy ∧
      c'.sendBuff = c.sendBuff ∧
      c'.recvBuff.content.length + sizeofLogin = c.recvBuff.content.length := by
  have hk := hf.complete hlen
  have hm : c.hasMsg = true := by
    rw [CellClient.hasMsg, CellBuffer.hasMsg_eq h.recv, hk]
    rfl
  obtain ⟨hc, hid⟩ := front_message h.recv hm hf
  obtain ⟨hroomy, hsame, hpop⟩ := CellClient.popFrontMsg_amount h.recv hk hr
  let m : MyClient :=
    { e.ext with bSend := false, nRecvMsgID := wrap32 (e.ext.nRecvMsgID + 1) }
  refine ⟨{ e with pClient := some c.popFrontMsg, ext := m }, c.popFrontMsg, ?_, rfl, rfl, hroomy,
    hsame, hpop⟩
  rw [MyClient.doMsg, h.pClient, Option.bind_eq_bind, Option.bind_some, if_pos hm,
    onNetMsg_loginResult h.checks hc hid]
  rfl

theorem Inv.waits (h : Inv e c) {rest : List UInt8} {n : ℤ}
    (hf : InFlight CMD_LOGIN_RESULT e.ext.nRecvMsgID (c.recvBuff.content ++ rest) n)
    (hlen : c.recvBuff.content.length < sizeofLogin) : MyClient.doMsg e = some e := by
  rw [MyClient.doMsg, h.pClient, Option.bind_eq_bind, Option.bind_some, if_neg]
  intro hm
  rw [CellClient.hasMsg, CellBuffer.hasMsg_eq h.recv] at hm
  obtain ⟨k, hk⟩ := Option.isSome_iff_exists.mp hm
  have hfull := (hf.front hk).1.length
  rw [List.length_take] at hfull
  omega

/-- A login is not refused when there is room for it. -/
theorem Inv.asks (h : Inv e c) (hr : c.Roomy) (cfg : ClientConfig) {fields : List UInt8}
    (hl : fields.length = 92) (hturn : e.ext.nSendCount > 0 ∧ e.ext.bSend = false)
    (hempty : c.sendBuff.content = []) :
    ∃ r c', MyClient.sendTest cfg e fields = some r ∧ r.1.pClient = some c' ∧
      r.1.ext.bSend = cfg.bCheckSendBack ∧ c'.Roomy ∧ c'.recvBuff = c.recvBuff ∧
      c'.sendBuff.content.length = sizeofLogin := by
  have hrun : e.isRun = true := by rw [EasyTcpClient.isRun, h.pClient, h.isConnect]; rfl
  have hst := stamped_Login hl h.int32
  have hfit : (c.sendBuff.content.length + (netmsg_Login fields e.ext.nSendMsgID).length : ℤ) ≤
      c.sendBuff.nSize := by
    have hroom := hr.send
    rw [hempty, hst.length, List.length_nil]
    omega
  obtain ⟨b, hsend, hs, hb⟩ := CellClient.sendHeader_fits h.send
    (hst.length.trans hst.dataLength.symm) hfit
  have hne : SOCKET_ERROR ≠ ((netmsg_Login fields e.ext.nSendMsgID).length : ℤ) := by
    rw [SOCKET_ERROR]
    omega
  have hlength : b.content.length = sizeofLogin := by
    rw [hb, hempty, List.nil_append, hst.length]
  let m : MyClient := { e.ext with
    bSend := cfg.bCheckSendBack
    nSendMsgID := wrap32 (e.ext.nSendMsgID + 1)
    nSendCount := e.ext.nSendCount - 1 }
  refine ⟨({ e with pClient := some { c with sendBuff := b }, ext := m },
      (netmsg_Login fields e.ext.nSendMsgID).length),
    { c with sendBuff := b }, ?_, rfl, rfl, ⟨hr.sockfd, hs ▸ hr.send, hr.recv⟩, rfl, hlength⟩
  rw [MyClient.sendTest, if_pos hturn, EasyTcpClient.sendHeader, if_pos hrun, h.pClient,
    Option.bind_some, hsend, Option.map_some, Option.bind_eq_bind, Option.bind_some, if_pos hne]

end MyClient

/-! ### The turns -/

namespace Session

variable {cfg : ClientConfig} {s t : Session} {c c' : CellClient}

/-- The bytes in each place on the way of a message and its answer. -/
def places (s : Session) (c : CellClient) : ℕ → ℕ
  | 0 => c.sendBuff.content.length
  | 1 => s.up.length
  | 2 => s.pClient.recvBuff.content.length
  | 3 => s.pClient.sendBuff.content.length
  | 4 => s.down.length
  | 5 => c.recvBuff.content.length
  | _ => 0

/-- Nothing is under way, or one message, and then the client waits. -/
structure Turn (s : Session) (c : CellClient) : Prop extends s.Inv c where
  client_roomy : c.Roomy
  server_roomy : s.pClient.Roomy
  back : s.server.bSendBack = true
  total : ∑ j ∈ range 6, s.places c j = if s.client.ext.bSend then sizeofLogin else 0

theorem Turn.sum (h : s.Turn c) : c.sendBuff.content.length + s.up.length +
    s.pClient.recvBuff.content.length + s.pClient.sendBuff.content.length + s.down.length +
      c.recvBuff.content.length = if s.client.ext.bSend then sizeofLogin else 0 := by
  rw [← h.total]
  simp [sum_range_succ, places]

/-- A step that only moves bytes on. -/
theorem Turn.moved (h : s.Turn c) (ht : t.Inv c') (hc : c'.Roomy) (hs : t.pClient.Roomy)
    (hback : t.server.bSendBack = true) (hb : t.client.ext.bSend = s.client.ext.bSend) {i n : ℕ}
    (hi : i + 1 < 6) (hm : MovesOn (s.places c) (t.places c') i n) :
    t.Turn c' ∧ ∀ k, Past k (s.places c) → Past k (t.places c') :=
  ⟨⟨ht, hc, hs, hback, by rw [hm.sum_eq hi, h.total, hb]⟩, fun _ hp => hp.movesOn hm⟩

/-! ### One step -/

theorem movesOn_clientSend {ret : ℤ} (h : c.sendBuff.Valid) (hc : s.client.pClient = some c)
    (ht : s.next cfg (.clientSend ret) = some t) :
    ∃ n, MovesOn (s.places c) (t.places (c.sendInto ret s.up).1) 0 n := by
  rw [Session.next, hc] at ht
  obtain rfl := Option.some.inj ht
  obtain ⟨n, hleft, hreached⟩ := CellClient.sendInto_amount h ret s.up
  refine ⟨n, hleft, hreached, ?_⟩
  intro j h0 h1
  rcases j with _ | _ | _ | _ | _ | _ | j <;> first | rfl | contradiction

theorem movesOn_serverRecv {k : ℕ} (h : s.pClient.recvBuff.Valid)
    (ht : s.next cfg (.serverRecv k) = some t) : ∃ n, MovesOn (s.places c) (t.places c) 1 n := by
  obtain rfl := Option.some.inj ht
  obtain ⟨n, hleft, hreached⟩ := CellClient.recvFrom_amount h k s.up
  refine ⟨n, hleft, hreached, ?_⟩
  intro j h1 h2
  rcases j with _ | _ | _ | _ | _ | _ | j <;> first | rfl | contradiction

theorem movesOn_serverSend {ret : ℤ} (h : s.pClient.sendBuff.Valid)
    (ht : s.next cfg (.serverSend ret) = some t) :
    ∃ n, MovesOn (s.places c) (t.places c) 3 n := by
  obtain rfl := Option.some.inj ht
  obtain ⟨n, hleft, hreached⟩ := CellClient.sendInto_amount h ret s.down
  refine ⟨n, hleft, hreached, ?_⟩
  intro j h3 h4
  rcases j with _ | _ | _ | _ | _ | _ | j <;> first | rfl | contradiction

theorem movesOn_clientRecv {k : ℕ} (h : c.recvBuff.Valid) (hc : s.client.pClient = some c)
    (ht : s.next cfg (.clientRecv k) = some t) :
    ∃ n, MovesOn (s.places c) (t.places (c.recvFrom k s.down).1) 4 n := by
  rw [Session.next, hc] at ht
  obtain rfl := Option.some.inj ht
  obtain ⟨n, hleft, hreached⟩ := CellClient.recvFrom_amount h k s.down
  refine ⟨n, hleft, hreached, ?_⟩
  intro j h4 h5
  rcases j with _ | _ | _ | _ | _ | _ | j <;> first | rfl | contradiction

theorem Inv.next_client (h : s.Inv c) {f : ClientConfig} {e : SessionEvent}
    (he : s.next f e = some t) {d : CellClient} (hd : t.client.pClient = some d) : t.Inv d := by
  obtain ⟨c', hc⟩ := h.next he
  obtain rfl := Option.some.inj (hc.client.pClient.symm.trans hd)
  exact hc

/-- The turns go on, and while the client waits, the message stays past what it came past. -/
def Onward (s t : Session) (c : CellClient) : Prop :=
  ∃ c', t.Turn c' ∧ (s.client.ext.bSend = true → t.client.ext.bSend = true →
    ∀ k, Past k (s.places c) → Past k (t.places c'))

theorem Turn.sendTest (hcfg : cfg.bCheckSendBack = true) (h : s.Turn c) {login : LoginFields}
    (he : s.next cfg (.sendTest login) = some t) : s.Onward t c := by
  have hsum := h.sum
  by_cases hturn : s.client.ext.nSendCount > 0 ∧ s.client.ext.bSend = false
  · rw [hturn.2, if_neg Bool.false_ne_true] at hsum
    have hempty : c.sendBuff.content = [] := List.length_eq_zero_iff.mp (by omega)
    obtain ⟨r, c', hr, hc, hb, hroomy, hrecv, hlen⟩ :=
      h.client.asks h.client_roomy cfg login.property hturn hempty
    have hi := h.toInv
    rw [Session.next, hr] at he
    obtain rfl := Option.some.inj he
    have ht : Session.Inv { s with client := r.1 } c' := by
      refine hi.next_client (f := cfg) (e := .sendTest login) ?_ hc
      rw [Session.next, hr]
      rfl
    refine ⟨c', ⟨ht, hroomy, h.server_roomy, h.back, ?_⟩, fun hs => ?_⟩
    · rw [hb, hcfg, if_pos rfl]
      simp only [sum_range_succ, sum_range_zero, places, hlen, hrecv]
      omega
    · rw [hturn.2] at hs
      cases hs
  · rw [Session.next, MyClient.sendTest, if_neg hturn] at he
    obtain rfl := Option.some.inj he
    exact ⟨c, h, fun _ _ k hp => hp⟩

theorem Turn.serverMsg (h : s.Turn c) {u : Locals} (he : s.next cfg (.serverMsg u) = some t) :
    s.Onward t c := by
  have hsum := h.sum
  by_cases hlen : s.pClient.recvBuff.content.length < sizeofLogin
  · rw [Session.next, h.server.waits hlen h.up] at he
    obtain rfl := Option.some.inj he
    exact ⟨c, h, fun _ _ k hp => hp⟩
  · have hle : sizeofLogin ≤ s.pClient.recvBuff.content.length := by omega
    have hpos : 0 < sizeofLogin := by decide
    have hbusy : s.client.ext.bSend = true := by
      by_contra hb
      rw [if_neg hb] at hsum
      omega
    rw [if_pos hbusy] at hsum
    have hempty : s.pClient.sendBuff.content = [] := List.length_eq_zero_iff.mp (by omega)
    obtain ⟨r, hr, hback, hroomy, hrecv, hsend⟩ :=
      h.server.answers (u := u) h.server_roomy h.back h.up hle hempty
    have hi := h.toInv
    rw [Session.next, hr] at he
    obtain rfl := Option.some.inj he
    have ht : Session.Inv { s with server := r.1, pClient := r.2 } c := by
      refine hi.next_client (f := cfg) (e := .serverMsg u) ?_ h.client.pClient
      rw [Session.next, hr]
      rfl
    have hmoves : MovesOn (s.places c)
        (Session.places { s with server := r.1, pClient := r.2 } c) 2 sizeofLogin := by
      refine ⟨hrecv, ?_, ?_⟩
      · show r.2.sendBuff.content.length = s.pClient.sendBuff.content.length + sizeofLogin
        rw [hsend, hempty, List.length_nil, Nat.zero_add]
      · intro j h2 h3
        rcases j with _ | _ | _ | _ | _ | _ | j <;> first | rfl | contradiction
    obtain ⟨hturn, hpast⟩ := h.moved ht h.client_roomy hroomy hback rfl (by decide) hmoves
    exact ⟨c, hturn, fun _ _ => hpast⟩

theorem Turn.clientMsg (h : s.Turn c) (he : s.next cfg .clientMsg = some t) : s.Onward t c := by
  have hsum := h.sum
  by_cases hlen : c.recvBuff.content.length < sizeofLogin
  · rw [Session.next, h.client.waits h.down hlen] at he
    obtain rfl := Option.some.inj he
    exact ⟨c, h, fun _ _ k hp => hp⟩
  · have hle : sizeofLogin ≤ c.recvBuff.content.length := by omega
    obtain ⟨e', c', hd, hc, hb, hroomy, hsend, hrecv⟩ :=
      h.client.answered h.client_roomy h.down hle
    have hi := h.toInv
    rw [Session.next, hd] at he
    obtain rfl := Option.some.inj he
    have ht : Session.Inv { s with client := e' } c' := by
      refine hi.next_client (f := cfg) (e := .clientMsg) ?_ hc
      rw [Session.next, hd]
      rfl
    refine ⟨c', ⟨ht, hroomy, h.server_roomy, h.back, ?_⟩, fun _ hs => ?_⟩
    · have hone : c.sendBuff.content.length + s.up.length + s.pClient.recvBuff.content.length +
          s.pClient.sendBuff.content.length + s.down.length + c.recvBuff.content.length ≤
            sizeofLogin := by
        rw [hsum]
        split
        · exact le_rfl
        · exact Nat.zero_le _
      rw [hb, if_neg Bool.false_ne_true]
      simp only [sum_range_succ, sum_range_zero, places, hsend]
      omega
    · rw [hb] at hs
      cases hs

/-- Every step keeps the turns. -/
theorem Turn.next (hcfg : cfg.bCheckSendBack = true) (h : s.Turn c) {e : SessionEvent}
    (he : s.next cfg e = some t) : s.Onward t c := by
  have hinv := fun c' => h.toInv.next_client (d := c') he
  cases e with
  | sendTest login => exact h.sendTest hcfg he
  | serverMsg u => exact h.serverMsg he
  | clientMsg => exact h.clientMsg he
  | checkSend dt =>
      obtain rfl := Option.some.inj he
      have hb : (s.client.ext.checkSend cfg dt).1.bSend = s.client.ext.bSend := by
        rw [MyClient.checkSend]
        split <;> rfl
      have htotal := h.total
      rw [← hb] at htotal
      exact ⟨c, ⟨hinv c h.client.pClient, h.client_roomy, h.server_roomy, h.back, htotal⟩,
        fun _ _ k hp => hp⟩
  | clientSend ret =>
      obtain ⟨n, hm⟩ := movesOn_clientSend h.client.send h.client.pClient he
      rw [Session.next, h.client.pClient] at he
      obtain rfl := Option.some.inj he
      have hroomy := h.client_roomy.sendInto h.client.send ret s.up
      obtain ⟨hturn, hpast⟩ := h.moved (hinv _ rfl) hroomy h.server_roomy h.back rfl (by decide) hm
      exact ⟨_, hturn, fun _ _ => hpast⟩
  | serverRecv k =>
      obtain ⟨n, hm⟩ := movesOn_serverRecv (c := c) h.server.recv he
      obtain rfl := Option.some.inj he
      have hroomy := h.server_roomy.recvFrom h.server.recv k s.up
      obtain ⟨hturn, hpast⟩ := h.moved (hinv c h.client.pClient) h.client_roomy hroomy h.back rfl
        (by decide) hm
      exact ⟨_, hturn, fun _ _ => hpast⟩
  | serverSend ret =>
      obtain ⟨n, hm⟩ := movesOn_serverSend (c := c) h.server.send he
      obtain rfl := Option.some.inj he
      have hroomy := h.server_roomy.sendInto h.server.send ret s.down
      obtain ⟨hturn, hpast⟩ := h.moved (hinv c h.client.pClient) h.client_roomy hroomy h.back rfl
        (by decide) hm
      exact ⟨_, hturn, fun _ _ => hpast⟩
  | clientRecv k =>
      obtain ⟨n, hm⟩ := movesOn_clientRecv h.client.recv h.client.pClient he
      rw [Session.next, h.client.pClient] at he
      obtain rfl := Option.some.inj he
      have hroomy := h.client_roomy.recvFrom h.client.recv k s.down
      obtain ⟨hturn, hpast⟩ := h.moved (hinv _ rfl) hroomy h.server_roomy h.back rfl (by decide) hm
      exact ⟨_, hturn, fun _ _ => hpast⟩

end Session

end CellNet
