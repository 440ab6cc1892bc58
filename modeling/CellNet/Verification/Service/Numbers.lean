import CellNet.Verification.Service.Replies
import CellNet.Verification.Session.Continuity

/-! Whatever else a server does, the results of the logins of one client are numbered without gaps,
and the test client behind the connection never reports a wrong number. -/

namespace CellNet

open Library

/-! ### Numbered results -/

/-- Whole messages. The login results among them are numbered from the first number on, and the
last one comes next. -/
inductive Numbered : ℤ → List (List UInt8) → ℤ → Prop where
  | nil (n) : Numbered n [] n
  | result {n m f fs} : Stamped CMD_LOGIN_RESULT n f → Numbered (wrap32 (n + 1)) fs m →
      Numbered n (f :: fs) m
  | other {n m f fs} : headerFraming.Framed f → cmd f ≠ CMD_LOGIN_RESULT → Numbered n fs m →
      Numbered n (f :: fs) m

theorem Stamped.framed {command : ℕ} {id : ℤ} {f : List UInt8} (h : Stamped command id f) :
    headerFraming.Framed f := by
  have hl := h.length
  have hd := h.dataLength
  have hsize : sizeofLogin = 100 := rfl
  exact frame?_eq_some_iff.mpr ⟨by omega, by omega, by omega⟩

namespace Numbered

variable {n m k : ℤ} {fs gs : List (List UInt8)}

theorem append (h : Numbered n fs k) (hg : Numbered k gs m) : Numbered n (fs ++ gs) m := by
  induction h with
  | nil => exact hg
  | result hs _ ih => exact .result hs (ih hg)
  | other hf hc _ ih => exact .other hf hc (ih hg)

theorem front (h : Numbered n (fs ++ gs) m) : ∃ k, Numbered n fs k := by
  induction fs generalizing n with
  | nil => exact ⟨n, .nil n⟩
  | cons f fs ih =>
      cases h with
      | result hs h =>
          obtain ⟨k, hk⟩ := ih h
          exact ⟨k, .result hs hk⟩
      | other hf hc h =>
          obtain ⟨k, hk⟩ := ih h
          exact ⟨k, .other hf hc hk⟩

theorem framed (h : Numbered n fs m) : ∀ f ∈ fs, headerFraming.Framed f := by
  induction h with
  | nil => simp
  | result hs _ ih => simpa using ⟨hs.framed, ih⟩
  | other hf _ _ ih => simpa using ⟨hf, ih⟩

theorem int32 (h : Numbered n fs m) (hn : wrap32 n = n) : wrap32 m = m := by
  induction h with
  | nil => exact hn
  | result _ _ ih => exact ih (wrap32_wrap32 _)
  | other _ _ _ ih => exact ih hn

end Numbered

/-! ### The test client -/

/-- What the handler reads of a message is not behind it. -/
theorem header_congr {f header : List UInt8} (hp : f <+: header) (hf : 4 ≤ f.length) :
    dataLength header = dataLength f ∧ cmd header = cmd f := by
  obtain ⟨tail, rfl⟩ := hp
  have ht : dataLength ((f ++ tail).take f.length) = dataLength (f ++ tail) ∧
      cmd ((f ++ tail).take f.length) = cmd (f ++ tail) := header_take hf
  rw [List.take_left' rfl] at ht
  exact ⟨ht.1.symm, ht.2.symm⟩

theorem msgID_congr {f header : List UInt8} (hp : f <+: header) (hf : f.length = sizeofLogin) :
    msgID header = msgID f := by
  obtain ⟨tail, rfl⟩ := hp
  have hsize : f.length = 100 := hf
  have hs : slice (f ++ tail) (96 : ℤ).toNat (4 : ℤ).toNat =
      slice f (96 : ℤ).toNat (4 : ℤ).toNat := by
    rw [slice, slice, List.drop_append_of_le_length (by omega), List.take_append_of_le_length]
    rw [List.length_drop]
    omega
  rw [msgID, msgID, load, load, if_pos (by rw [List.length_append]; omega), if_pos (by omega), hs]

/-- The client handles one message after the other; behind each lies what lies behind. -/
def MyClient.handles (m : MyClient) (sockfd : SOCKET) (headers : List (List UInt8)) :
    Option MyClient :=
  headers.foldlM (fun m header => m.onNetMsg sockfd header) m

/-- A message that is not the result of a login is not looked at for its number. -/
theorem MyClient.onNetMsg_other {m : MyClient} {header : List UInt8}
    (hc : cmd header ≠ CMD_LOGIN_RESULT) (hs : m.Silent) (sockfd : SOCKET) :
    ∃ m', m.onNetMsg sockfd header = some m' ∧ m'.Silent ∧
      m'.bCheckMsgID = m.bCheckMsgID ∧ m'.nRecvMsgID = m.nRecvMsgID := by
  have hreport : ∀ r : ClientReport, r.isMsgID = false →
      ({ m with bSend := false, log := m.log ++ [r] } : MyClient).Silent := by
    intro r hr x hx
    rcases List.mem_append.mp hx with hx | hx
    · exact hs x hx
    · rw [List.mem_singleton.mp hx]
      exact hr
  rw [onNetMsg, if_neg hc]
  split
  · exact ⟨_, rfl, hs, rfl, rfl⟩
  · split
    · exact ⟨_, rfl, hs, rfl, rfl⟩
    · split
      · exact ⟨_, rfl, hreport _ rfl, rfl, rfl⟩
      · exact ⟨_, rfl, hreport _ rfl, rfl, rfl⟩

/-- A client that expects the first number finds all the others as it expects them. -/
theorem Numbered.handles {n k : ℤ} {fs headers : List (List UInt8)} (h : Numbered n fs k)
    (hh : List.Forall₂ (· <+: ·) fs headers) (sockfd : SOCKET) {m : MyClient}
    (hk : m.bCheckMsgID = true) (hn : m.nRecvMsgID = n) (hs : m.Silent) :
    ∃ m', m.handles sockfd headers = some m' ∧ m'.Silent ∧ m'.nRecvMsgID = k := by
  induction h generalizing headers m with
  | nil =>
      cases hh
      exact ⟨m, rfl, hs, hn⟩
  | @result n k f fs hf _ ih =>
      cases hh with
      | cons hp hh =>
          have hsize : 4 ≤ f.length := hf.length ▸ by decide
          have hcmd := (header_congr hp hsize).2.trans hf.cmd
          have hid := (msgID_congr hp hf.length).trans hf.msgID
          rw [← hn] at hid
          have hstep := MyClient.onNetMsg_loginResult hk hcmd hid sockfd
          rw [MyClient.handles, List.foldlM_cons, hstep]
          exact ih hh hk (by rw [← hn]) hs
  | @other n k f fs hf hc _ ih =>
      cases hh with
      | cons hp hh =>
          have hsize := (frame?_eq_some_iff.mp hf).1
          have hcmd : cmd _ ≠ CMD_LOGIN_RESULT := (header_congr hp hsize).2.symm ▸ hc
          obtain ⟨m', hstep, hs', hk', hn'⟩ := MyClient.onNetMsg_other hcmd hs sockfd
          rw [MyClient.handles, List.foldlM_cons, hstep]
          exact ih hh (hk'.trans hk) (hn'.trans hn) hs'

/-! ### What the handler sends -/

/-- Behind what was still to be sent come messages that carry on with the numbers. -/
def CellClient.Sends (c d : CellClient) : Prop :=
  ∃ fs, d.sendBuff.content = c.sendBuff.content ++ fs.flatten ∧
    Numbered c.nSendMsgID fs d.nSendMsgID

namespace CellClient

variable {c d : CellClient}

theorem Sends.silent (hb : d.sendBuff = c.sendBuff) (hn : d.nSendMsgID = c.nSendMsgID) :
    c.Sends d :=
  ⟨[], by rw [hb, List.flatten_nil, List.append_nil], hn ▸ .nil _⟩

/-- Any message but the result of a login. -/
theorem sendHeader_sends (hv : c.sendBuff.Valid) {f : List UInt8}
    (hf : headerFraming.Framed f) (hc : cmd f ≠ CMD_LOGIN_RESULT) {r : CellClient × ℤ}
    (hr : c.sendHeader f = some r) : c.Sends r.1 := by
  have hl := (frame?_eq_some_iff.mp hf).2.2
  obtain ⟨b, hb, -, hcontent⟩ := sendHeader_cases hv hl.symm hr
  rw [hb]
  rcases hcontent with ⟨-, he⟩ | ⟨-, he⟩
  · exact ⟨[], by rw [he, List.flatten_nil, List.append_nil], .nil _⟩
  · exact ⟨[f], by rw [he, List.flatten_singleton], .other hf hc (.nil _)⟩

end CellClient

namespace MyServer

variable {nSendBuffSize nRecvBuffSize : ℤ} {s : MyServer} {u : Locals} {c : CellClient}
  {r : MyServer × CellClient}

/-- A result that is refused leaves its number to the next one. -/
theorem sendBack_sends (hv : c.sendBuff.Valid) (hn : wrap32 c.nSendMsgID = c.nSendMsgID)
    (hr : s.sendBack u c = some r) : c.Sends r.2 := by
  rw [sendBack] at hr
  split at hr
  · obtain ⟨x, hx, hr⟩ := Option.bind_eq_some_iff.mp hr
    have hst := stamped_LoginR u hn
    obtain ⟨b, hb, -, hcontent⟩ :=
      CellClient.sendHeader_cases hv (hst.length.trans hst.dataLength.symm) hx
    rcases hcontent with ⟨he, hc⟩ | ⟨he, hc⟩
    · rw [if_pos he, hb] at hr
      obtain rfl := Option.some.inj hr
      exact ⟨[], by rw [hc, List.flatten_nil, List.append_nil], .nil _⟩
    · rw [if_neg he, hb] at hr
      obtain rfl := Option.some.inj hr
      exact ⟨[_], by rw [hc, List.flatten_singleton], .result hst (.nil _)⟩
  · obtain rfl := Option.some.inj hr
    exact .silent rfl rfl

theorem onLogin_sends (hv : c.sendBuff.Valid) (hn : wrap32 c.nSendMsgID = c.nSendMsgID)
    {header : List UInt8} (hr : s.onLogin u c header = some r) : c.Sends r.2 := by
  obtain ⟨x, hx, hr⟩ := Option.bind_eq_some_iff.mp hr
  have hsame : x.2.sendBuff = c.sendBuff ∧ x.2.nSendMsgID = c.nSendMsgID := by
    rw [checkMsgID] at hx
    split at hx
    · obtain ⟨id, -, hx⟩ := Option.bind_eq_some_iff.mp hx
      obtain rfl := Option.some.inj hx
      exact ⟨rfl, rfl⟩
    · obtain rfl := Option.some.inj hx
      exact ⟨rfl, rfl⟩
  have hsends := sendBack_sends (hsame.1 ▸ hv) (hsame.2 ▸ hn) hr
  rwa [CellClient.Sends, hsame.1, hsame.2] at hsends

theorem onLogout_sends (hv : c.sendBuff.Valid)
    (hlen : dataLength c.frontMsg ≤ c.frontMsg.length)
    (hr : s.onLogout u c c.frontMsg = some r) : c.Sends r.2 := by
  obtain ⟨f, hf, hfits⟩ := readLogout_total u hlen
  obtain ⟨w, hw, hwv, hwritten⟩ := writeLogout_eq u hfits
  have hl := (MyServer.length_unfinished hfits).2
  have hframed := netmsg_DataHeader_framed (23 + f.arrays.length) CMD_LOGOUT_RESULT
    (f.scalars ++ f.arrays) (by omega) (by decide)
    (by rw [List.length_append, LogoutFields.length_scalars]; omega)
  rw [← List.append_assoc] at hframed
  have hreply : headerFraming.Framed f.reply ∧ cmd f.reply = CMD_LOGOUT_RESULT := by
    rw [LogoutFields.reply]
    simpa using hframed
  rw [onLogout, hf, Option.bind_eq_bind, Option.bind_some, hw, Option.bind_eq_bind,
    Option.bind_some] at hr
  obtain ⟨x, hx, hr⟩ := Option.bind_eq_some_iff.mp hr
  obtain rfl := Option.some.inj hr
  have hd := (frame?_eq_some_iff.mp hreply.1).2.2
  have hlength : w.length = f.reply.length := by
    rw [← hwritten]
    exact (CellStream.length_written hwv).symm
  have hsend : c.sendHeader f.reply = some x := by
    rw [← hx, CellClient.sendHeader, hd, CellClient.sendData, CellClient.sendData,
      push_stream hwv, hwritten, hlength]
  exact CellClient.sendHeader_sends hv hreply.1 (hreply.2 ▸ by decide) hsend

theorem onHeart_sends (hv : c.sendBuff.Valid) (hr : s.onHeart c = some r) : c.Sends r.2 := by
  obtain ⟨x, hx, hr⟩ := Option.bind_eq_some_iff.mp hr
  obtain rfl := Option.some.inj hr
  have hf := netmsg_DataHeader_framed 4 CMD_S2C_HEART [] (by decide) (by decide) rfl
  rw [List.append_nil, ← netmsg_s2c_Heart] at hf
  exact CellClient.sendHeader_sends (c := c.resetDtHeart) hv hf.1 (hf.2 ▸ by decide) hx

/-- Whatever the message and the flags of the server are. -/
theorem onNetMsg_sends (h : c.Sized nSendBuffSize nRecvBuffSize) (hm : c.hasMsg = true)
    (hn : wrap32 c.nSendMsgID = c.nSendMsgID) (hr : s.onNetMsg u c c.frontMsg = some r) :
    c.Sends r.2 := by
  have hp : c.recvBuff.Presents (frontMessage c).2 := ⟨h.recv, hm, rfl⟩
  rw [onNetMsg] at hr
  split at hr
  · exact onLogin_sends h.send hn hr
  · split at hr
    · exact onLogout_sends h.send hp.bounds.2 hr
    · split at hr
      · exact onHeart_sends h.send hr
      · obtain rfl := Option.some.inj hr
        exact .silent rfl rfl

theorem checkedHandler_sends (h : c.Sized nSendBuffSize nRecvBuffSize) (hm : c.hasMsg = true)
    (hn : wrap32 c.nSendMsgID = c.nSendMsgID) (x : Option MyServer × (ℕ → Locals)) :
    c.Sends (checkedHandler x c c.frontMsg).2 := by
  rw [checkedHandler]
  split
  · next r hr =>
      obtain ⟨s, -, hs⟩ := Option.bind_eq_some_iff.mp hr
      exact onNetMsg_sends h hm hn hs
  · exact .silent rfl rfl

end MyServer

/-! ### The life of a client -/

namespace Life

variable {nSendBuffSize nRecvBuffSize : ℤ} {c : CellClient} {h : Transcript}

theorem serve_nSendMsgID {io : Io} {d : CellClient} (h : io.serve c = some d) :
    d.nSendMsgID = c.nSendMsgID := by
  obtain ⟨e, hr, hs⟩ := Option.bind_eq_some_iff.mp h
  have hrecv : e.nSendMsgID = c.nSendMsgID := by
    cases hio : io.recv with
    | none =>
        rw [hio] at hr
        obtain rfl := Option.some.inj hr
        rfl
    | some recv =>
        rw [hio, CellClient.recvOrLeave] at hr
        split at hr
        · cases hr
        · obtain rfl := Option.some.inj hr
          rfl
  rw [← hrecv]
  cases hio : io.send with
  | none =>
      rw [hio] at hs
      obtain rfl := Option.some.inj hs
      rfl
  | some ret =>
      rw [hio, CellClient.sendOrLeave] at hs
      split at hs
      · cases hs
      · obtain rfl := Option.some.inj hs
        rfl

/-- All that was ever put into the send buffer of the client carries on from the number 1. -/
def Counted : Life → Prop
  | .unborn => True
  | .alive c h => ∃ fs, h.pushed = fs.flatten ∧ Numbered 1 fs c.nSendMsgID
  | .gone h => ∃ fs m, h.pushed = fs.flatten ∧ Numbered 1 fs m

theorem counted_handle (hs : c.Sized nSendBuffSize nRecvBuffSize) (hc : Counted (.alive c h))
    (hm : c.hasMsg = true) (x : Option MyServer × (ℕ → Locals)) :
    Counted (.alive (msgBody MyServer.checkedHandler (x, c)).2
      (h.handle c (msgBody MyServer.checkedHandler (x, c)).2)) := by
  obtain ⟨fs, hpushed, hnum⟩ := hc
  have hint := hnum.int32 (by decide)
  obtain ⟨gs, hout, hnew⟩ := MyServer.checkedHandler_sends hs hm hint x
  have hpop : (msgBody MyServer.checkedHandler (x, c)).2.sendBuff =
      (MyServer.checkedHandler x c c.frontMsg).2.sendBuff ∧
      (msgBody MyServer.checkedHandler (x, c)).2.nSendMsgID =
        (MyServer.checkedHandler x c c.frontMsg).2.nSendMsgID := by
    rw [msgBody, CellClient.popFrontMsg_eq]
    exact ⟨rfl, rfl⟩
  refine ⟨fs ++ gs, ?_, ?_⟩
  · rw [List.flatten_append, ← hpushed, ← CellBuffer.drop_content hs.send hout, ← hpop.1]
    rfl
  · rw [hpop.2]
    exact hnum.append hnew

theorem counted_invariant (hmax : nSendBuffSize ≤ 2147483508)
    (hmin : (sizeofLogin : ℤ) ≤ nRecvBuffSize) (hrecv : nRecvBuffSize ≤ 2147483647) :
    (system MyServer.checkedHandler nSendBuffSize nRecvBuffSize).Invariant fun l =>
      Streams nSendBuffSize nRecvBuffSize Reply l ∧ l.Counted := by
  have hstreams := streams_invariant MyServer.checkedHandler_keepsRecv
    (MyServer.checkedHandler_replies hmax hmin) (by omega) hrecv
  constructor
  · rintro l rfl
    exact ⟨trivial, trivial⟩
  · intro l e l' ⟨hs, hc⟩ he
    refine ⟨hstreams.step l e l' hs he, ?_⟩
    obtain ⟨-, hn⟩ := he
    cases l with
    | unborn =>
        cases e with
        | born id sockfd sendBlock recvBlock =>
            obtain rfl := Option.some.inj hn
            exact ⟨[], rfl, .nil 1⟩
        | _ => cases hn
    | alive c h =>
        cases e with
        | born => cases hn
        | seat id =>
            obtain rfl := Option.some.inj hn
            exact hc
        | checkHeart dt =>
            obtain rfl := Option.some.inj hn
            obtain ⟨fs, hpushed, hnum⟩ := hc
            split
            · exact ⟨fs, _, hpushed, hnum⟩
            · exact ⟨fs, hpushed, hnum⟩
        | poll io =>
            obtain rfl := Option.some.inj hn
            obtain ⟨fs, hpushed, hnum⟩ := hc
            cases hserve : io.serve c with
            | none => exact ⟨fs, _, hpushed, hnum⟩
            | some d =>
                have hsame : d.nSendMsgID = c.nSendMsgID := serve_nSendMsgID hserve
                exact ⟨fs, hpushed, hsame ▸ hnum⟩
        | handle ext =>
            simp only [next] at hn
            split at hn
            · next hm =>
                obtain rfl := Option.some.inj hn
                exact counted_handle hs.1 hc hm ext
            · cases hn
    | gone h => cases e <;> cases hn

end Life

/-! ### Runs -/

namespace ServedStreams

section Runs

variable {t : ServerT} {nSendBuffSize nRecvBuffSize : ℤ}
  {s : ServedStreams t.Poller (Option MyServer × (ℕ → Locals))}

theorem counted_of_reachable (hmax : nSendBuffSize ≤ 2147483508)
    (hmin : (sizeofLogin : ℤ) ≤ nRecvBuffSize) (hrecv : nRecvBuffSize ≤ 2147483647)
    (h : (system t MyServer.checkedHandler nSendBuffSize nRecvBuffSize).Reachable s) (p : Ptr) :
    ∃ fs m, (s.transcripts p).pushed = fs.flatten ∧ Numbered 1 fs m := by
  have hk := MyServer.checkedHandler_keepsSock
  obtain ⟨l, hl, -, rfl⟩ := (life_simulation hk p).reachable h
  have hc := ((Life.counted_invariant hmax hmin hrecv).reachable hl).2
  rw [life] at hc
  cases hg : s.loops.server.net.heap.get? p with
  | none =>
      rw [hg] at hc
      dsimp only at hc
      split at hc
      · exact hc
      · next hp =>
          rw [blank_of_reachable hk h p (not_lt.mp hp)]
          exact ⟨[], 1, rfl, .nil 1⟩
  | some c =>
      rw [hg] at hc
      obtain ⟨fs, hpushed, hnum⟩ := hc
      exact ⟨fs, _, hpushed, hnum⟩

/-- In every run of the server program: the login results among the messages that a client parses
from what it was sent carry the numbers 1, 2, 3 and so on, and a test client that handles them
reports no wrong number. -/
theorem results_numbered (hmax : nSendBuffSize ≤ 2147483508)
    (hmin : (sizeofLogin : ℤ) ≤ nRecvBuffSize) (hrecv : nRecvBuffSize ≤ 2147483647)
    (h : (system t MyServer.checkedHandler nSendBuffSize nRecvBuffSize).Reachable s) (p : Ptr)
    {ms headers : List (List UInt8)} {rest : List UInt8}
    (hms : headerFraming.Consumes (s.transcripts p).wired ms rest)
    (hh : List.Forall₂ (· <+: ·) ms headers) (sockfd : SOCKET) :
    ∃ m k, (MyClient.new true).handles sockfd headers = some m ∧ m.Silent ∧
      Numbered 1 ms k ∧ m.nRecvMsgID = k := by
  obtain ⟨fs, n, hpushed, hnum⟩ := counted_of_reachable hmax hmin hrecv h p
  obtain ⟨-, -, tail, hwired⟩ := transcript_of_reachable MyServer.checkedHandler_keepsSock
    MyServer.checkedHandler_keepsRecv (MyServer.checkedHandler_replies hmax hmin) (by omega) hrecv
    h p
  rw [hpushed] at hwired
  obtain ⟨gs, rfl, -⟩ := hms.framed hnum.framed hwired
  obtain ⟨k, hk⟩ := hnum.front
  have hsilent : (MyClient.new true).Silent := by simp [MyClient.Silent, MyClient.new]
  obtain ⟨m, hm, hs, hn⟩ := hk.handles hh sockfd rfl rfl hsilent
  exact ⟨m, k, hm, hs, hk, hn⟩

end Runs

/-! A client on the socket 5 logs in, and is sent the result. -/

/-- The server program with one worker. -/
def greeting : ServedStreams Unit (Option MyServer × (ℕ → Locals)) :=
  ⟨⟨.start 1 100 100 2 (fun _ => 0) ()
    (some ⟨true, true, true, []⟩, fun _ => MyServer.filled 0), [.test]⟩, fun _ => .blank⟩

/-- Its worker is about to poll. -/
def greeting5 : ServedStreams Unit (Option MyServer × (ℕ → Locals)) :=
  [LoopEvent.accpet 5 (List.replicate 100 0) (List.replicate 100 0), .drain 0 0,
    .checkTime 0 0].foldl (play MyServer.checkedHandler) greeting

/-- The login arrives. -/
def logsIn : EpollAnswer :=
  .events [⟨0, true, false, some (netmsg_Login (List.replicate 92 0) 1), 0⟩]

/-- The worker is about to poll again. -/
def greeted5 : ServedStreams Unit (Option MyServer × (ℕ → Locals)) :=
  [LoopEvent.doNetEvent 0 logsIn, .doMsg 0, .doMsg 0, .doMsg 0, .drain 0 0,
    .checkTime 0 0].foldl (play MyServer.checkedHandler) greeting5

/-- The result goes out. -/
def drains : EpollAnswer := .events [⟨0, false, true, none, 100⟩]

def welcomed5 : ServedStreams Unit (Option MyServer × (ℕ → Locals)) :=
  play MyServer.checkedHandler greeted5 (.doNetEvent 0 drains)

/-- The client as it was taken up. -/
def newcomer5 : CellClient :=
  { CellClient.new 1 5 (.new 100 (List.replicate 100 0)) (.new 100 (List.replicate 100 0)) with
    serverId := 1 }

theorem greeting5_reachable :
    (system .epoll MyServer.checkedHandler 100 100).Reachable greeting5 := by
  have h₀ : (system .epoll MyServer.checkedHandler 100 100).Reachable greeting :=
    .init ⟨⟨1, 100, 100, 2, fun _ => 0, (), _, rfl⟩, rfl, rfl, fun _ => rfl⟩
  have h₁ := h₀.step (step_play
    (e := .accpet 5 (List.replicate 100 0) (List.replicate 100 0))
    ⟨List.not_mem_nil, rfl, rfl⟩ trivial (by decide +kernel))
  have h₂ := h₁.step (step_play (e := .drain 0 0) rfl trivial (by decide +kernel))
  exact h₂.step (step_play (e := .checkTime 0 0) rfl trivial (by decide +kernel))

set_option maxRecDepth 4000 in
theorem greeted5_reachable :
    (system .epoll MyServer.checkedHandler 100 100).Reachable greeted5 := by
  have hworker : greeting5.loops.server.cellServers[0]? = some MyServer.answerer5 := rfl
  have hanswers : ∀ c, greeting5.loops.server.cellServers[0]? = some c →
      CellEpollServer.Reports (greeting5.loops.server.net, c) logsIn := by
    intro c hc
    obtain rfl := Option.some.inj (hworker.symm.trans hc)
    exact reports_one rfl (List.mem_singleton.mpr rfl) rfl rfl (by simp)
  have hclient : greeting5.loops.server.net.heap.get? 0 = some newcomer5 := rfl
  have hfits : Fits .epoll greeting5 (.doNetEvent 0 logsIn) := by
    refine fits_one rfl hclient ⟨by decide +kernel, ?_⟩
    simp [CellEpollServer.io, logsIn, EpollEvent.io]
  have h₁ := greeting5_reachable.step (step_play (e := .doNetEvent 0 logsIn) ⟨rfl, hanswers⟩ hfits
    (by decide +kernel))
  have h₂ := h₁.step (step_play (e := .doMsg 0) ⟨[5], by decide +kernel⟩ trivial
    (by decide +kernel))
  have h₃ := h₂.step (step_play (e := .doMsg 0) ⟨[5], by decide +kernel⟩ trivial
    (by decide +kernel))
  have h₄ := h₃.step (step_play (e := .doMsg 0) ⟨[], by decide +kernel⟩ trivial
    (by decide +kernel))
  have h₅ := h₄.step (step_play (e := .drain 0 0)
    (show _ = some LoopPc.test from by decide +kernel) trivial (by decide +kernel))
  exact h₅.step (step_play (e := .checkTime 0 0)
    (show _ = some LoopPc.checkTime from by decide +kernel) trivial (by decide +kernel))

set_option maxRecDepth 4000 in
theorem welcomed5_reachable :
    (system .epoll MyServer.checkedHandler 100 100).Reachable welcomed5 := by
  have hworker : greeted5.loops.server.cellServers[0]? = some MyServer.answerer5 := rfl
  have hanswers : ∀ c, greeted5.loops.server.cellServers[0]? = some c →
      CellEpollServer.Reports (greeted5.loops.server.net, c) drains := by
    intro c hc
    obtain rfl := Option.some.inj (hworker.symm.trans hc)
    exact reports_one rfl (List.mem_singleton.mpr rfl) rfl rfl fun _ => rfl
  have hheld : (greeted5.loops.server.net.heap.get? 0).map (fun c =>
      (c.sendBuff.nLast, c.recvBuff.nSize - c.recvBuff.nLast)) = some (100, 100) := by
    decide +kernel
  obtain ⟨client, hc, hheld⟩ := Option.map_eq_some_iff.mp hheld
  obtain ⟨hlast, hroom⟩ := Prod.mk.inj hheld
  have hnext : greeted5.loops.server.net.heap.next = 1 := by decide +kernel
  have hfits : Fits .epoll greeted5 (.doNetEvent 0 drains) := by
    refine fits_one hnext hc ⟨?_, ?_⟩
    · rw [hroom]
      simp [CellEpollServer.io, drains, EpollEvent.io, CellClient.arrives]
    · intro ret hret
      obtain rfl := Option.some.inj hret
      exact hlast.ge
  have hpc : greeted5.loops.pcs[0]? = some LoopPc.doNetEvent := by decide +kernel
  exact greeted5_reachable.step (step_play (e := .doNetEvent 0 drains) ⟨hpc, hanswers⟩ hfits
    (by decide +kernel))

set_option maxRecDepth 4000 in
/-- The result carries the number 1. -/
theorem results_numbered_welcomed5 :
    (welcomed5.transcripts 0).wired = netmsg_LoginR (List.replicate 88 0) 1 ∧
      ∃ m, (MyClient.new true).handles 5 [(welcomed5.transcripts 0).wired] = some m ∧
        m.Silent ∧ m.nRecvMsgID = 2 := by
  have hwired : (welcomed5.transcripts 0).wired = netmsg_LoginR (List.replicate 88 0) 1 := by
    decide +kernel
  have hstamped : Stamped CMD_LOGIN_RESULT 1 (welcomed5.transcripts 0).wired :=
    hwired ▸ stamped_LoginR (MyServer.filled 0) (by decide)
  have hconsumes : headerFraming.Consumes (welcomed5.transcripts 0).wired
      [(welcomed5.transcripts 0).wired] [] := by
    have hall := Framing.consumes_flatten (F := headerFraming)
      (List.forall_mem_singleton.mpr hstamped.framed)
    rwa [List.flatten_singleton] at hall
  obtain ⟨m, k, hm, hs, hnum, hn⟩ := results_numbered (by decide) (by decide) (by decide)
    welcomed5_reachable 0 hconsumes (.cons (List.prefix_refl _) .nil) 5
  refine ⟨hwired, m, hm, hs, ?_⟩
  rw [hn]
  cases hnum with
  | result _ hrest =>
      cases hrest
      decide
  | other _ hc _ => exact absurd hstamped.cmd hc

end ServedStreams

end CellNet
