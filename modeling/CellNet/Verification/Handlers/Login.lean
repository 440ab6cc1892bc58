import CellNet.Verification.Handlers.Semantics

/-! What the outcome of a login depends on: its message ID is read at a fixed place, behind the
end of a frame that is too short. -/

namespace CellNet

open Library CellBuffer

theorem decodeInt_inj {a b : List UInt8} (ha : a.length = 4) (hb : b.length = 4)
    (h : decodeInt a = decodeInt b) : a = b := by
  have la := decodeLE_lt a
  have lb := decodeLE_lt b
  rw [ha] at la
  rw [hb] at lb
  simp only [decodeInt, wrap32] at h
  have hd : decodeLE a = decodeLE b := by omega
  rw [← encodeLE_decodeLE a, ← encodeLE_decodeLE b, ha, hb, hd]

/-- A frame of full size holds its message ID. -/
theorem CellBuffer.Presents.msgID_eq {b : CellBuffer} {frame : List UInt8}
    (h : b.Presents frame) (hl : sizeofLogin ≤ frame.length) : msgID b.data = msgID frame := by
  obtain ⟨he, hd⟩ := h.bounds
  rw [sizeofLogin] at hl
  have hs : slice frame 96 4 = slice b.data 96 4 := by
    rw [← h.front, slice, slice, List.drop_take, List.take_take, min_eq_left (by omega)]
  have hs' : slice frame (96 : ℤ).toNat (4 : ℤ).toNat = slice b.data (96 : ℤ).toNat (4 : ℤ).toNat :=
    hs
  rw [msgID, msgID, load, load, if_pos (by omega), if_pos (by omega), hs']

def ServerReport.isMsgID : ServerReport → Bool
  | .msgID .. => true
  | _ => false

namespace MyServer

/-- Whether a wrong message ID is reported, the counters of the client, and its send buffer. -/
def outcome (s : MyServer) (u : Locals) (c : CellClient) :
    Option (Bool × ℤ × ℤ × CellBuffer) :=
  (s.onNetMsg u c c.frontMsg).map fun r =>
    ((r.1.log.drop s.log.length).any ServerReport.isMsgID, r.2.nRecvMsgID, r.2.nSendMsgID,
      r.2.sendBuff)

/-- The outcomes of one frame, whatever is behind it. -/
def EndsAlike (frame : List UInt8) : Prop :=
  ∀ (s : MyServer) (u : Locals) (c : CellClient) (b₁ b₂ : CellBuffer), s.bCheckMsgID = true →
    b₁.Presents frame → b₂.Presents frame →
      s.outcome u { c with recvBuff := b₁ } = s.outcome u { c with recvBuff := b₂ }

theorem onNetMsg_login {header : List UInt8} (h : cmd header = CMD_LOGIN) (s : MyServer)
    (u : Locals) (c : CellClient) : s.onNetMsg u c header = s.onLogin u c header :=
  if_pos h

/-- The same result with another receive buffer. -/
def swapRecv (b : CellBuffer) (r : MyServer × CellClient) : MyServer × CellClient :=
  (r.1, { r.2 with recvBuff := b })

theorem checkMsgID_congr {h₁ h₂ : List UInt8} (h : msgID h₁ = msgID h₂) (s : MyServer)
    (c : CellClient) (b : CellBuffer) :
    (s.checkMsgID c h₁).map (swapRecv b) = s.checkMsgID { c with recvBuff := b } h₂ := by
  rw [checkMsgID, checkMsgID, h]
  split
  · cases msgID h₂ with
    | none => rfl
    | some id => rfl
  · rfl

theorem sendBack_congr (s : MyServer) (u : Locals) (c : CellClient) (b : CellBuffer) :
    (s.sendBack u c).map (swapRecv b) = s.sendBack u { c with recvBuff := b } := by
  simp only [sendBack, CellClient.sendHeader, CellClient.sendData]
  split
  · cases c.sendBuff.push (netmsg_LoginR u.data c.nSendMsgID)
        (dataLength (netmsg_LoginR u.data c.nSendMsgID)) with
    | none => rfl
    | some r =>
        simp only [Option.bind_eq_bind, Option.bind_some]
        split
        · rfl
        · rfl
  · rfl

/-- The login looks at its message ID and at nothing else of the receive buffer. -/
theorem onLogin_congr {h₁ h₂ : List UInt8} (h : msgID h₁ = msgID h₂) (s : MyServer)
    (u : Locals) (c : CellClient) (b : CellBuffer) :
    (s.onLogin u c h₁).map (swapRecv b) = s.onLogin u { c with recvBuff := b } h₂ := by
  have hc := checkMsgID_congr h s c.resetDtHeart b
  have hr : ({ c with recvBuff := b } : CellClient).resetDtHeart =
      { c.resetDtHeart with recvBuff := b } := rfl
  rw [onLogin, onLogin, hr, ← hc]
  cases s.checkMsgID c.resetDtHeart h₁ with
  | none => rfl
  | some r => exact sendBack_congr r.1 u r.2 b

theorem ends_alike {frame : List UInt8} (hl : sizeofLogin ≤ frame.length)
    (hcmd : cmd frame = CMD_LOGIN) : EndsAlike frame := by
  intro s u c b₁ b₂ _ h₁ h₂
  have h4 : 4 ≤ frame.length := le_trans (by decide) hl
  have hm : msgID b₁.data = msgID b₂.data := (h₁.msgID_eq hl).trans (h₂.msgID_eq hl).symm
  have hc := onLogin_congr hm s u { c with recvBuff := b₁ } b₂
  have hl₁ := onNetMsg_login ((h₁.header h4).2.trans hcmd) s u { c with recvBuff := b₁ }
  have hl₂ := onNetMsg_login ((h₂.header h4).2.trans hcmd) s u { c with recvBuff := b₂ }
  rw [outcome, outcome, CellClient.frontMsg, CellClient.frontMsg, hl₁, hl₂, ← hc,
    Option.map_map]
  rfl

/-! ### A frame that is too short -/

/-- What is behind the frame, up to the end of the struct; the last byte is `x`. -/
def behind (frame : List UInt8) (x : UInt8) : List UInt8 :=
  List.replicate (99 - frame.length) 0 ++ [x]

/-- The message ID that is read when `x` is its last byte. -/
def idBehind (frame : List UInt8) (x : UInt8) : ℤ :=
  decodeInt ((frame ++ List.replicate (99 - frame.length) 0).drop 96 ++ [x])

theorem msgID_behind {frame : List UInt8} (h : frame.length < sizeofLogin) (x : UInt8) :
    msgID (frame ++ behind frame x) = some (idBehind frame x) := by
  rw [sizeofLogin] at h
  have hl : (frame ++ List.replicate (99 - frame.length) 0).length = 99 := by
    rw [List.length_append, List.length_replicate]
    omega
  have hs : slice (frame ++ behind frame x) (96 : ℤ).toNat (4 : ℤ).toNat =
      (frame ++ List.replicate (99 - frame.length) 0).drop 96 ++ [x] := by
    have hd : ((frame ++ List.replicate (99 - frame.length) 0).drop 96 ++ [x]).length ≤ 4 := by
      rw [List.length_append, List.length_drop, hl, List.length_singleton]
    rw [behind, ← List.append_assoc, slice, show (96 : ℤ).toNat = 96 from rfl,
      show (4 : ℤ).toNat = 4 from rfl, List.drop_append_of_le_length (by omega),
      List.take_of_length_le hd]
  have hn : (frame ++ behind frame x).length = 100 := by
    rw [behind, ← List.append_assoc, List.length_append, hl, List.length_singleton]
  rw [msgID, load, if_pos (by omega), hs]
  rfl

theorem idBehind_inj {frame : List UInt8} (h : frame.length < sizeofLogin) {x y : UInt8}
    (he : idBehind frame x = idBehind frame y) : x = y := by
  rw [sizeofLogin] at h
  have hl : ∀ z : UInt8,
      ((frame ++ List.replicate (99 - frame.length) 0).drop 96 ++ [z]).length = 4 := by
    intro z
    simp only [List.length_append, List.length_drop, List.length_replicate,
      List.length_singleton]
    omega
  have hb := decodeInt_inj (hl x) (hl y) he
  exact List.singleton_inj.mp (List.append_cancel_left hb)

/-- A server that checks message IDs and sends nothing back. -/
def checking : MyServer := ⟨false, false, true, []⟩

/-- A client that expects the message ID `id`. -/
def expecting (id : ℤ) (b : CellBuffer) : CellClient :=
  { CellClient.new 0 0 (.new 0 []) b with nRecvMsgID := id }

theorem checkMsgID_eq {s : MyServer} (hs : s.bCheckMsgID = true) {header : List UInt8} {n : ℤ}
    (hm : msgID header = some n) (c : CellClient) : s.checkMsgID c header =
      some (if n ≠ c.nRecvMsgID then
          { s with log := s.log ++ [.msgID c.sockfd n c.nRecvMsgID (wrap32 (n - c.nRecvMsgID))] }
        else s, { c with nRecvMsgID := wrap32 (c.nRecvMsgID + 1) }) := by
  rw [checkMsgID, if_pos hs, hm]
  rfl

theorem outcome_checking {header : List UInt8} {id n : ℤ} (hcmd : cmd header = CMD_LOGIN)
    (hm : msgID header = some n) (u : Locals) {b : CellBuffer} (hb : b.data = header) :
    checking.outcome u (expecting id b) =
      some (decide (n ≠ id), wrap32 (id + 1), 1, .new 0 []) := by
  have hf : (expecting id b).frontMsg = header := hb
  have hk := checkMsgID_eq (s := checking) rfl hm (expecting id b).resetDtHeart
  have hn : (expecting id b).resetDtHeart.nRecvMsgID = id := rfl
  rw [hn] at hk
  rw [outcome, hf, onNetMsg_login hcmd, onLogin, hk]
  by_cases he : n = id
  · rw [if_neg (not_not.mpr he), decide_eq_false (not_not.mpr he)]
    rfl
  · rw [if_pos he, decide_eq_true he]
    rfl

/-- A shorter frame is judged by bytes that do not belong to it. -/
theorem not_endsAlike {frame : List UInt8} (h4 : 4 ≤ frame.length)
    (hd : dataLength frame = frame.length) (hcmd : cmd frame = CMD_LOGIN)
    (h : frame.length < sizeofLogin) : ¬ EndsAlike frame := by
  intro ha
  have hr : ∀ x, (holding frame (behind frame x)).Presents frame := by
    intro x
    apply presents_holding h4 hd
    rw [behind, List.length_append, List.length_replicate, List.length_singleton]
    omega
  have ho : ∀ x, checking.outcome (filled 0) (expecting (idBehind frame 0)
      (holding frame (behind frame x))) = some (decide (idBehind frame x ≠ idBehind frame 0),
        wrap32 (idBehind frame 0 + 1), 1, .new 0 []) :=
    fun x => outcome_checking (((hr x).header h4).2.trans hcmd) (msgID_behind h x) (filled 0) rfl
  have h₀ := ho 0
  have h₁ := ho 1
  have he := ha checking (filled 0) (expecting (idBehind frame 0) (.new 0 [])) _ _ rfl (hr 0) (hr 1)
  have hn : ¬ idBehind frame 1 = idBehind frame 0 := by
    intro hi
    exact absurd (idBehind_inj h hi) (by decide)
  rw [decide_eq_false (not_not.mpr rfl)] at h₀
  rw [decide_eq_true hn] at h₁
  exact absurd (h₀.symm.trans (he.trans h₁)) (by simp)

/-- The outcome of a login depends on its frame alone exactly when the frame has the size of
the struct. -/
theorem login_ends_alike_iff {frame : List UInt8} (h4 : 4 ≤ frame.length)
    (hd : dataLength frame = frame.length) (hcmd : cmd frame = CMD_LOGIN) :
    EndsAlike frame ↔ sizeofLogin ≤ frame.length := by
  constructor
  · intro h
    by_contra hl
    exact not_endsAlike h4 hd hcmd (by omega) h
  · intro hl
    exact ends_alike hl hcmd

theorem netmsg_Login_ends_alike : EndsAlike (netmsg_Login (List.replicate 92 0) 1) :=
  (login_ends_alike_iff (by decide) (by decide) (by decide)).mpr (by decide)

/-- A login that is only a header. -/
theorem bare_login_ends_differ : ¬ EndsAlike [4, 0, 0, 0] :=
  not_endsAlike (by decide) (by decide) (by decide) (by decide)

end MyServer

end CellNet
