import CellNet.Library.Transition
import CellNet.Verification.Session.Semantics

/-! Neither program ever sees a message ID other than the one it expects: on either way the
messages that are buffered or under way are numbered without gaps. -/

namespace CellNet

open Library

def ClientReport.isMsgID : ClientReport → Bool
  | .msgID .. => true
  | _ => false

/-- No wrong message ID was seen. -/
def MyServer.Silent (s : MyServer) : Prop := ∀ r ∈ s.log, r.isMsgID = false

def MyClient.Silent (m : MyClient) : Prop := ∀ r ∈ m.log, r.isMsgID = false

/-- The buffers of one end are sound, and its counter is an `int`. -/
structure SoundEnd (c : CellClient) (nSendMsgID : ℤ) : Prop where
  send : c.sendBuff.Valid
  recv : c.recvBuff.Valid
  int32 : wrap32 nSendMsgID = nSendMsgID

/-- The front message carries the number that the receiver expects. -/
theorem front_message {c : CellClient} (h : c.recvBuff.Valid) (hm : c.hasMsg = true)
    {command : ℕ} {n m : ℤ} {rest : List UInt8}
    (hf : InFlight command n (c.recvBuff.content ++ rest) m) :
    cmd c.frontMsg = command ∧ msgID c.frontMsg = some n := by
  rw [CellClient.hasMsg, CellBuffer.hasMsg_eq h] at hm
  obtain ⟨k, hk⟩ := Option.isSome_iff_exists.mp hm
  have hst := (hf.front hk).1
  have hp := CellBuffer.presents_front h hk
  have h4 : 4 ≤ (c.recvBuff.content.take k).length := hst.length ▸ by decide
  exact ⟨(hp.header h4).2.trans hst.cmd, (hp.msgID_eq hst.length.ge).trans hst.msgID⟩

/-- Once it is popped, the next number is expected. -/
theorem pop_message {c : CellClient} (h : c.recvBuff.Valid) (hm : c.hasMsg = true)
    {command : ℕ} {n m : ℤ} {rest : List UInt8}
    (hf : InFlight command n (c.recvBuff.content ++ rest) m) :
    c.popFrontMsg.recvBuff.Valid ∧
      InFlight command (wrap32 (n + 1)) (c.popFrontMsg.recvBuff.content ++ rest) m := by
  rw [CellClient.hasMsg, CellBuffer.hasMsg_eq h] at hm
  obtain ⟨k, hk⟩ := Option.isSome_iff_exists.mp hm
  obtain ⟨hv, -, hpop⟩ := CellClient.popFrontMsg_spec h hk
  exact ⟨hv, hpop ▸ (hf.front hk).2⟩

/-! ### The server -/

namespace MyServer

/-- The server's end of the session. -/
structure Inv (s : MyServer) (c : CellClient) : Prop extends SoundEnd c c.nSendMsgID where
  checks : s.bCheckMsgID = true
  silent : s.Silent

variable {s : MyServer} {u : Locals} {c : CellClient} {r : MyServer × CellClient}

/-- The answer to a login is numbered, or dropped. -/
theorem Inv.sendBack (h : s.Inv c) (hr : s.sendBack u c = some r) :
    r.1.Inv r.2 ∧ r.2.recvBuff = c.recvBuff ∧ r.2.nRecvMsgID = c.nRecvMsgID ∧
      Appends CMD_LOGIN_RESULT c.sendBuff r.2.sendBuff c.nSendMsgID r.2.nSendMsgID := by
  rw [MyServer.sendBack] at hr
  split at hr
  · obtain ⟨⟨c', ret⟩, hx, hr⟩ := Option.bind_eq_some_iff.mp hr
    have hst := stamped_LoginR u h.int32
    obtain ⟨b, rfl, hbv, hc⟩ :=
      CellClient.sendHeader_cases h.send (hst.length.trans hst.dataLength.symm) hx
    rcases hc with ⟨he, hc⟩ | ⟨hn, hc⟩
    · rw [if_pos he] at hr
      obtain rfl := Option.some.inj hr
      have ha : Appends CMD_LOGIN_RESULT c.sendBuff b c.nSendMsgID c.nSendMsgID :=
        ⟨hbv, .inl ⟨hc, rfl⟩⟩
      refine ⟨⟨⟨hbv, h.recv, h.int32⟩, ?_, ?_⟩, rfl, rfl, ha⟩
      · split
        · exact h.checks
        · exact h.checks
      · split
        · intro x hm
          rcases List.mem_append.mp hm with hm | hm
          · exact h.silent x hm
          · rw [List.mem_singleton.mp hm]
            rfl
        · exact h.silent
    · rw [if_neg hn] at hr
      obtain rfl := Option.some.inj hr
      have ha : Appends CMD_LOGIN_RESULT c.sendBuff b c.nSendMsgID
          (wrap32 (c.nSendMsgID + 1)) := ⟨hbv, .inr ⟨_, hst, hc, rfl⟩⟩
      exact ⟨⟨⟨hbv, h.recv, wrap32_wrap32 _⟩, h.checks, h.silent⟩, rfl, rfl, ha⟩
  · obtain rfl := Option.some.inj hr
    exact ⟨h, rfl, rfl, h.send, .inl ⟨rfl, rfl⟩⟩

/-- The check of a message ID that is the expected one. -/
theorem Inv.checkMsgID (h : s.Inv c) {header : List UInt8}
    (hm : msgID header = some c.nRecvMsgID) :
    ∃ c', s.checkMsgID c.resetDtHeart header = some (s, c') ∧ s.Inv c' ∧
      c'.recvBuff = c.recvBuff ∧ c'.sendBuff = c.sendBuff ∧ c'.nSendMsgID = c.nSendMsgID ∧
      c'.nRecvMsgID = wrap32 (c.nRecvMsgID + 1) := by
  have hk := checkMsgID_eq h.checks hm c.resetDtHeart
  have hn : c.resetDtHeart.nRecvMsgID = c.nRecvMsgID := rfl
  rw [hn, if_neg (not_not.mpr rfl)] at hk
  exact ⟨_, hk, ⟨⟨h.send, h.recv, h.int32⟩, h.checks, h.silent⟩, rfl, rfl, rfl, rfl⟩

theorem Inv.doMsg (h : s.Inv c) {rest : List UInt8} {n : ℤ}
    (hf : InFlight CMD_LOGIN c.nRecvMsgID (c.recvBuff.content ++ rest) n)
    (hr : s.doMsg u c = some r) :
    r.1.Inv r.2 ∧ InFlight CMD_LOGIN r.2.nRecvMsgID (r.2.recvBuff.content ++ rest) n ∧
      Appends CMD_LOGIN_RESULT c.sendBuff r.2.sendBuff c.nSendMsgID r.2.nSendMsgID := by
  rw [MyServer.doMsg] at hr
  split at hr
  · next hm =>
      obtain ⟨hc, hid⟩ := front_message h.recv hm hf
      obtain ⟨c₁, hk, hi, hrecv, hsend, hns, hnr⟩ := h.checkMsgID hid
      rw [onNetMsg_login hc, onLogin, hk] at hr
      obtain ⟨⟨s', c₂⟩, hx, hr⟩ := Option.bind_eq_some_iff.mp hr
      obtain rfl := Option.some.inj hr
      obtain ⟨hi', hrecv', hnr', ha⟩ := hi.sendBack hx
      rw [hsend, hns] at ha
      have hb : c₂.recvBuff = c.recvBuff := hrecv'.trans hrecv
      have hm' : c₂.hasMsg = true := by rw [CellClient.hasMsg, hb]; exact hm
      obtain ⟨hv, hf'⟩ := pop_message (c := c₂) (hb ▸ h.recv) hm' (hb ▸ hf)
      dsimp only
      rw [CellClient.popFrontMsg_eq, hnr', hnr]
      exact ⟨⟨⟨hi'.send, hv, hi'.int32⟩, hi'.checks, hi'.silent⟩, hf', ha⟩
  · obtain rfl := Option.some.inj hr
    exact ⟨h, hf, h.send, .inl ⟨rfl, rfl⟩⟩

theorem Inv.sendBack_isSome (h : s.Inv c)
    (ho : c.sendBuff.nLast + sizeofLogin ≤ 2147483647) : ∃ r, s.sendBack u c = some r := by
  have hst := stamped_LoginR u h.int32
  obtain ⟨r, hr⟩ := CellClient.sendHeader_isSome h.send
    (hst.length.trans hst.dataLength.symm) (hst.length ▸ ho)
  rw [MyServer.sendBack, hr, Option.bind_eq_bind, Option.bind_some]
  split
  · split
    · exact ⟨_, rfl⟩
    · exact ⟨_, rfl⟩
  · exact ⟨_, rfl⟩

theorem Inv.doMsg_isSome (h : s.Inv c) {rest : List UInt8} {n : ℤ}
    (hf : InFlight CMD_LOGIN c.nRecvMsgID (c.recvBuff.content ++ rest) n)
    (ho : c.sendBuff.nLast + sizeofLogin ≤ 2147483647) : ∃ r, s.doMsg u c = some r := by
  rw [MyServer.doMsg]
  split
  · next hm =>
      obtain ⟨hc, hid⟩ := front_message h.recv hm hf
      obtain ⟨c₁, hx, hi, -, hb, -⟩ := h.checkMsgID hid
      obtain ⟨r, hr⟩ := hi.sendBack_isSome (u := u) (hb ▸ ho)
      rw [onNetMsg_login hc, onLogin, hx, Option.bind_eq_bind, Option.bind_some, hr]
      exact ⟨_, rfl⟩
  · exact ⟨_, rfl⟩

end MyServer

/-! ### The client -/

namespace MyClient

/-- The client's end of the session. -/
structure Inv (e : EasyTcpClient MyClient) (c : CellClient) : Prop
    extends SoundEnd c e.ext.nSendMsgID where
  pClient : e.pClient = some c
  isConnect : e.isConnect = true
  checks : e.ext.bCheckMsgID = true
  silent : e.ext.Silent

variable {e : EasyTcpClient MyClient} {c : CellClient}

theorem onNetMsg_loginResult {m : MyClient} (hk : m.bCheckMsgID = true) {header : List UInt8}
    (hc : cmd header = CMD_LOGIN_RESULT) (hm : msgID header = some m.nRecvMsgID)
    (sockfd : SOCKET) : m.onNetMsg sockfd header =
      some { m with bSend := false, nRecvMsgID := wrap32 (m.nRecvMsgID + 1) } := by
  rw [onNetMsg, if_pos hc, onLoginResult, if_pos hk, hm, Option.bind_eq_bind, Option.bind_some]
  dsimp only
  rw [if_neg (not_not.mpr rfl)]

theorem Inv.doMsg (h : Inv e c) {rest : List UInt8} {n : ℤ}
    (hf : InFlight CMD_LOGIN_RESULT e.ext.nRecvMsgID (c.recvBuff.content ++ rest) n) :
    ∃ e' c', doMsg e = some e' ∧ Inv e' c' ∧
      InFlight CMD_LOGIN_RESULT e'.ext.nRecvMsgID (c'.recvBuff.content ++ rest) n ∧
      c'.sendBuff = c.sendBuff ∧ e'.ext.nSendMsgID = e.ext.nSendMsgID := by
  rw [MyClient.doMsg, h.pClient, Option.bind_eq_bind, Option.bind_some]
  split
  · next hm =>
      obtain ⟨hc, hid⟩ := front_message h.recv hm hf
      obtain ⟨hv, hf'⟩ := pop_message h.recv hm hf
      refine ⟨_, c.popFrontMsg, congrArg (Option.bind · _)
        (onNetMsg_loginResult h.checks hc hid c.sockfd), ?_⟩
      rw [CellClient.popFrontMsg_eq]
      exact ⟨⟨⟨h.send, hv, h.int32⟩, rfl, h.isConnect, h.checks, h.silent⟩, hf', rfl, rfl⟩
  · exact ⟨e, c, rfl, h, hf, rfl, rfl⟩

/-- A login is numbered with the counter, which moves on only when the login was taken. -/
theorem Inv.sendTest (h : Inv e c) {cfg : ClientConfig} {fields : List UInt8}
    (hl : fields.length = 92) {r : EasyTcpClient MyClient × ℤ}
    (hr : sendTest cfg e fields = some r) :
    ∃ c', Inv r.1 c' ∧ c'.recvBuff = c.recvBuff ∧ r.1.ext.nRecvMsgID = e.ext.nRecvMsgID ∧
      Appends CMD_LOGIN c.sendBuff c'.sendBuff e.ext.nSendMsgID r.1.ext.nSendMsgID := by
  have hrun : e.isRun = true := by rw [EasyTcpClient.isRun, h.pClient, h.isConnect]; rfl
  have hst := stamped_Login hl h.int32
  rw [MyClient.sendTest, EasyTcpClient.sendHeader, if_pos hrun, h.pClient] at hr
  split at hr
  · obtain ⟨x, hx, hr⟩ := Option.bind_eq_some_iff.mp hr
    rw [Option.bind_some, Option.map_eq_some_iff] at hx
    obtain ⟨⟨c', ret⟩, hx, rfl⟩ := hx
    obtain ⟨b, rfl, hbv, hc⟩ :=
      CellClient.sendHeader_cases h.send (hst.length.trans hst.dataLength.symm) hx
    rcases hc with ⟨he, hc⟩ | ⟨hn, hc⟩
    · rw [if_neg (not_not.mpr he.symm)] at hr
      obtain rfl := Option.some.inj hr
      exact ⟨{ c with sendBuff := b },
        ⟨⟨hbv, h.recv, h.int32⟩, rfl, h.isConnect, h.checks, h.silent⟩, rfl, rfl, hbv,
        .inl ⟨hc, rfl⟩⟩
    · rw [if_pos (Ne.symm hn)] at hr
      obtain rfl := Option.some.inj hr
      exact ⟨{ c with sendBuff := b },
        ⟨⟨hbv, h.recv, wrap32_wrap32 _⟩, rfl, h.isConnect, h.checks, h.silent⟩, rfl, rfl, hbv,
        .inr ⟨_, hst, hc, rfl⟩⟩
  · obtain rfl := Option.some.inj hr
    exact ⟨c, h, rfl, rfl, h.send, .inl ⟨rfl, rfl⟩⟩

theorem Inv.sendTest_isSome (h : Inv e c) {cfg : ClientConfig} {fields : List UInt8}
    (hl : fields.length = 92) (ho : c.sendBuff.nLast + sizeofLogin ≤ 2147483647) :
    ∃ r, MyClient.sendTest cfg e fields = some r := by
  have hrun : e.isRun = true := by rw [EasyTcpClient.isRun, h.pClient, h.isConnect]; rfl
  have hst := stamped_Login hl h.int32
  obtain ⟨r, hr⟩ := CellClient.sendHeader_isSome h.send
    (hst.length.trans hst.dataLength.symm) (hst.length ▸ ho)
  rw [MyClient.sendTest, EasyTcpClient.sendHeader, if_pos hrun, h.pClient, Option.bind_some, hr,
    Option.map_some, Option.bind_eq_bind, Option.bind_some]
  split
  · split
    · exact ⟨_, rfl⟩
    · exact ⟨_, rfl⟩
  · exact ⟨_, rfl⟩

theorem Inv.checkSend (h : Inv e c) (cfg : ClientConfig) (dt : ℤ) :
    Inv { e with ext := (e.ext.checkSend cfg dt).1 } c ∧
      (e.ext.checkSend cfg dt).1.nSendMsgID = e.ext.nSendMsgID ∧
      (e.ext.checkSend cfg dt).1.nRecvMsgID = e.ext.nRecvMsgID := by
  rw [MyClient.checkSend]
  dsimp only
  split
  · exact ⟨⟨⟨h.send, h.recv, h.int32⟩, h.pClient, h.isConnect, h.checks, h.silent⟩, rfl, rfl⟩
  · exact ⟨⟨⟨h.send, h.recv, h.int32⟩, h.pClient, h.isConnect, h.checks, h.silent⟩, rfl, rfl⟩

end MyClient

/-! ### The session -/

namespace Session

variable {cfg : ClientConfig} {s t : Session}

/-- Both programs have just connected, with `-checkMsgID`. -/
structure Fresh (s : Session) : Prop where
  client : ∃ c t, s.client = ⟨some c, true, { MyClient.new true with tRestTime := t }⟩ ∧
    c.sendBuff.Valid ∧ c.recvBuff.Valid ∧ c.sendBuff.content = [] ∧ c.recvBuff.content = []
  checks : s.server.bCheckMsgID = true
  log : s.server.log = []
  send : s.pClient.sendBuff.Valid
  recv : s.pClient.recvBuff.Valid
  sendEmpty : s.pClient.sendBuff.content = []
  recvEmpty : s.pClient.recvBuff.content = []
  nRecvMsgID : s.pClient.nRecvMsgID = 1
  nSendMsgID : s.pClient.nSendMsgID = 1
  up : s.up = []
  down : s.down = []

def system (cfg : ClientConfig) : System Session SessionEvent where
  init := Fresh
  step s e t := s.next cfg e = some t

/-- On either way, the bytes are the messages between the counters of the two ends. -/
structure Inv (s : Session) (c : CellClient) : Prop where
  client : MyClient.Inv s.client c
  server : s.server.Inv s.pClient
  up : InFlight CMD_LOGIN s.pClient.nRecvMsgID
    (s.pClient.recvBuff.content ++ (s.up ++ c.sendBuff.content)) s.client.ext.nSendMsgID
  down : InFlight CMD_LOGIN_RESULT s.client.ext.nRecvMsgID
    (c.recvBuff.content ++ (s.down ++ s.pClient.sendBuff.content)) s.pClient.nSendMsgID

theorem Fresh.inv (h : s.Fresh) : ∃ c, s.Inv c := by
  obtain ⟨c, t, hc, hs, hr, hse, hre⟩ := h.client
  refine ⟨c, ⟨⟨hs, hr, ?_⟩, ?_, ?_, ?_, ?_⟩, ⟨⟨h.send, h.recv, ?_⟩, h.checks, ?_⟩, ?_, ?_⟩
  · rw [hc]; rfl
  · rw [hc]
  · rw [hc]
  · rw [hc]; rfl
  · rw [hc]; exact fun _ hm => absurd hm List.not_mem_nil
  · rw [h.nSendMsgID]; decide
  · rw [MyServer.Silent, h.log]; exact fun _ hm => absurd hm List.not_mem_nil
  · rw [hc, h.nRecvMsgID, h.recvEmpty, h.up, hse]
    exact .nil 1
  · rw [hc, h.nSendMsgID, hre, h.down, h.sendEmpty]
    exact .nil 1

theorem Inv.next {c : CellClient} (h : s.Inv c) {e : SessionEvent}
    (he : s.next cfg e = some t) : ∃ c', t.Inv c' := by
  have hup := h.up
  have hdown := h.down
  cases e with
  | sendTest login =>
      obtain ⟨r, hr, rfl⟩ := Option.map_eq_some_iff.mp he
      obtain ⟨c', hi, hb, hn, ha⟩ := h.client.sendTest login.property hr
      refine ⟨c', hi, h.server, ?_, ?_⟩
      · rw [← List.append_assoc] at hup ⊢
        exact ha.inFlight hup
      · rw [hb, hn]
        exact hdown
  | checkSend dt =>
      obtain rfl := Option.some.inj he
      obtain ⟨hi, hs, hr⟩ := h.client.checkSend cfg dt
      refine ⟨c, hi, h.server, ?_, ?_⟩
      · show InFlight _ _ _ (s.client.ext.checkSend cfg dt).1.nSendMsgID
        rw [hs]
        exact hup
      · show InFlight _ (s.client.ext.checkSend cfg dt).1.nRecvMsgID _ _
        rw [hr]
        exact hdown
  | clientSend ret =>
      rw [Session.next, h.client.pClient] at he
      obtain rfl := Option.some.inj he
      obtain ⟨hv, hc⟩ := CellClient.sendInto_spec h.client.send ret s.up
      exact ⟨(c.sendInto ret s.up).1, ⟨⟨hv, h.client.recv, h.client.int32⟩, rfl,
        h.client.isConnect, h.client.checks, h.client.silent⟩, h.server, hc ▸ hup, hdown⟩
  | clientRecv k =>
      rw [Session.next, h.client.pClient] at he
      obtain rfl := Option.some.inj he
      obtain ⟨hv, hc⟩ := CellClient.recvFrom_spec h.client.recv k s.down
      refine ⟨(c.recvFrom k s.down).1, ⟨⟨h.client.send, hv, h.client.int32⟩, rfl,
        h.client.isConnect, h.client.checks, h.client.silent⟩, h.server, hup, ?_⟩
      rw [← List.append_assoc, ← hc, List.append_assoc] at hdown
      exact hdown
  | clientMsg =>
      obtain ⟨e', c', hd, hi, hf, hb, hn⟩ := h.client.doMsg hdown
      rw [Session.next, hd] at he
      obtain rfl := Option.some.inj he
      refine ⟨c', hi, h.server, ?_, hf⟩
      show InFlight _ _ _ e'.ext.nSendMsgID
      rw [hb, hn]
      exact hup
  | serverSend ret =>
      obtain rfl := Option.some.inj he
      obtain ⟨hv, hc⟩ := CellClient.sendInto_spec h.server.send ret s.down
      exact ⟨c, h.client, ⟨⟨hv, h.server.recv, h.server.int32⟩, h.server.checks,
        h.server.silent⟩, hup, hc ▸ hdown⟩
  | serverRecv k =>
      obtain rfl := Option.some.inj he
      obtain ⟨hv, hc⟩ := CellClient.recvFrom_spec h.server.recv k s.up
      refine ⟨c, h.client, ⟨⟨h.server.send, hv, h.server.int32⟩, h.server.checks,
        h.server.silent⟩, ?_, hdown⟩
      rw [← List.append_assoc, ← hc, List.append_assoc] at hup
      exact hup
  | serverMsg u =>
      obtain ⟨r, hr, rfl⟩ := Option.map_eq_some_iff.mp he
      obtain ⟨hi, hf, ha⟩ := h.server.doMsg hup hr
      refine ⟨c, h.client, hi, hf, ?_⟩
      rw [← List.append_assoc] at hdown ⊢
      exact ha.inFlight hdown

theorem invariant (cfg : ClientConfig) : (system cfg).Invariant fun s => ∃ c, s.Inv c where
  init _ h := h.inv
  step _ _ _ h he := by
    obtain ⟨c, hc⟩ := h
    exact hc.next he

/-- The addition in `push` stays inside `int`. -/
def NoOverflow (s : Session) : SessionEvent → Prop
  | .sendTest _ => ∀ c, s.client.pClient = some c → c.sendBuff.nLast + sizeofLogin ≤ 2147483647
  | .serverMsg _ => s.pClient.sendBuff.nLast + sizeofLogin ≤ 2147483647
  | _ => True

/-- Only an overflow leaves the defined behaviour. -/
theorem Inv.defined {c : CellClient} (h : s.Inv c) {e : SessionEvent} (ho : s.NoOverflow e) :
    ∃ t, s.next cfg e = some t := by
  cases e with
  | sendTest login =>
      obtain ⟨r, hr⟩ := h.client.sendTest_isSome login.property (ho c h.client.pClient)
      rw [Session.next, hr]
      exact ⟨_, rfl⟩
  | checkSend dt => exact ⟨_, rfl⟩
  | clientSend ret =>
      rw [Session.next, h.client.pClient]
      exact ⟨_, rfl⟩
  | clientRecv k =>
      rw [Session.next, h.client.pClient]
      exact ⟨_, rfl⟩
  | clientMsg =>
      obtain ⟨e', c', hd, -⟩ := h.client.doMsg h.down
      rw [Session.next, hd]
      exact ⟨_, rfl⟩
  | serverSend ret => exact ⟨_, rfl⟩
  | serverRecv k => exact ⟨_, rfl⟩
  | serverMsg u =>
      obtain ⟨r, hr⟩ := h.server.doMsg_isSome h.up ho
      rw [Session.next, hr]
      exact ⟨_, rfl⟩

/-- In every run no wrong message ID is seen on either side, and the run can go on. -/
theorem message_ids_continuous (h : (system cfg).Reachable s) :
    s.server.Silent ∧ s.client.ext.Silent ∧
      ∀ e, s.NoOverflow e → ∃ t, s.next cfg e = some t := by
  obtain ⟨c, hc⟩ := (invariant cfg).reachable h
  exact ⟨hc.server.silent, hc.client.silent, fun _ ho => hc.defined ho⟩

/-- Both programs with buffers of `n` bytes. -/
def connected (n : ℕ) : Session where
  client := ⟨some (.new 0 5 (.new n (List.replicate n 0)) (.new n (List.replicate n 0))), true,
    .new true⟩
  server := ⟨true, true, true, []⟩
  pClient := .new 0 6 (.new n (List.replicate n 0)) (.new n (List.replicate n 0))
  up := []
  down := []

theorem fresh_connected {n : ℕ} (hn : n ≤ 2147483647) : (connected n).Fresh := by
  have hv : (CellBuffer.new n (List.replicate n 0)).Valid :=
    CellBuffer.valid_new (congrArg Nat.cast List.length_replicate) (by omega)
  have he : (CellBuffer.new n (List.replicate n 0)).content = [] := CellBuffer.content_new ..
  exact ⟨⟨_, 0, rfl, hv, hv, he, he⟩, rfl, rfl, hv, hv, he, he, rfl, rfl, rfl, rfl⟩

/-- A login without names. -/
def blank : LoginFields := ⟨List.replicate 92 0, List.length_replicate⟩

/-- Two logins go out, one and a half arrive, and the answer to the first is cut as well. -/
def chatting : List SessionEvent :=
  [.checkSend 0, .sendTest blank, .sendTest blank, .clientSend 150, .serverRecv 150,
    .serverMsg (MyServer.filled 0), .serverSend 60, .clientRecv 60]

theorem message_ids_continuous_chatting :
    ∃ s, chatting.foldlM (next ⟨2, 0, false⟩) (connected 200) = some s ∧
      s.client.ext.nSendMsgID = 3 ∧ s.pClient.nRecvMsgID = 2 ∧
      s.server.Silent ∧ s.client.ext.Silent ∧
        ∀ e, s.NoOverflow e → ∃ t, s.next ⟨2, 0, false⟩ e = some t := by
  have hrun : (chatting.foldlM (next ⟨2, 0, false⟩) (connected 200)).map (fun s =>
      (s.client.ext.nSendMsgID, s.pClient.nRecvMsgID)) = some (3, 2) := by decide +kernel
  obtain ⟨s, hs, heq⟩ := Option.map_eq_some_iff.mp hrun
  obtain ⟨hsend, hrecv⟩ := Prod.mk.inj heq
  have hreach : (system ⟨2, 0, false⟩).Reachable s :=
    (System.Reachable.init (fresh_connected (by decide))).path
      (.of_next _ (fun _ _ _ h => h) hs)
  exact ⟨s, hs, hsend, hrecv, message_ids_continuous hreach⟩

end Session

end CellNet
