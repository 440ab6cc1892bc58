import CellNet.Model.MyClient
import CellNet.Verification.Handlers.Login
import CellNet.Verification.Messages.Semantics

/-! Numbered messages on their way from one program to the other: what the calls of both ends
do to them. -/

namespace CellNet

open Library

/-! ### Numbered messages -/

/-- A message of this command that carries the number `id`. -/
structure Stamped (command : ℕ) (id : ℤ) (f : List UInt8) : Prop where
  length : f.length = sizeofLogin
  dataLength : dataLength f = sizeofLogin
  cmd : cmd f = command
  msgID : msgID f = some id

theorem decodeInt_encodeInt (n : ℤ) : decodeInt (encodeInt n) = wrap32 n := by
  rw [decodeInt, encodeInt, decodeLE_encodeLE]
  unfold wrap32
  omega

theorem stamped_header {command : ℕ} (hc : command < 65536) {body : List UInt8}
    (hb : body.length = 92) {id : ℤ} (hi : wrap32 id = id) :
    Stamped command id (netmsg_DataHeader sizeofLogin command ++ body ++ encodeInt id) := by
  have he : (encodeInt id).length = 4 := length_encodeLE 4 _
  have hl : (netmsg_DataHeader sizeofLogin command ++ body ++ encodeInt id).length = 100 := by
    simp [netmsg_DataHeader, hb, he]
  constructor
  · exact hl
  · rw [CellNet.dataLength, slice, List.drop_zero, netmsg_DataHeader, List.append_assoc,
      List.append_assoc, List.take_left' (by simp), decodeLE_encodeLE]
    rfl
  · rw [CellNet.cmd, slice, netmsg_DataHeader, List.append_assoc, List.append_assoc,
      List.drop_left' (by simp), List.take_left' (by simp), decodeLE_encodeLE]
    omega
  · have hd : slice (netmsg_DataHeader sizeofLogin command ++ body ++ encodeInt id)
        (96 : ℤ).toNat (4 : ℤ).toNat = encodeInt id := by
      rw [slice, List.drop_left' (by simp [netmsg_DataHeader, hb]),
        List.take_of_length_le (by simp [he])]
    rw [CellNet.msgID, load, if_pos (by omega), hd, Option.map_some, decodeInt_encodeInt, hi]

theorem stamped_Login {fields : List UInt8} (hf : fields.length = 92) {id : ℤ}
    (hi : wrap32 id = id) : Stamped CMD_LOGIN id (netmsg_Login fields id) :=
  stamped_header (by decide) hf hi

theorem stamped_LoginR (u : Locals) {id : ℤ} (hi : wrap32 id = id) :
    Stamped CMD_LOGIN_RESULT id (netmsg_LoginR u.data id) := by
  apply stamped_header (by decide) _ hi
  rw [List.length_append, u.length_data, encodeInt, length_encodeLE]

/-- The bytes are messages numbered from the one the receiver expects, up to the one the sender
will send. -/
inductive InFlight (command : ℕ) : ℤ → List UInt8 → ℤ → Prop where
  | nil (n) : InFlight command n [] n
  | cons {n m f bytes} : Stamped command n f → InFlight command (wrap32 (n + 1)) bytes m →
      InFlight command n (f ++ bytes) m

namespace InFlight

variable {command : ℕ} {n m : ℤ} {xs ys : List UInt8}

theorem snoc (h : InFlight command n xs m) {f : List UInt8} (hf : Stamped command m f) :
    InFlight command n (xs ++ f) (wrap32 (m + 1)) := by
  induction h with
  | nil n =>
      have hnil : InFlight command (wrap32 (n + 1)) [] (wrap32 (n + 1)) := nil _
      have hc := cons hf hnil
      rwa [List.append_nil] at hc
  | cons hs _ ih =>
      rw [List.append_assoc]
      exact cons hs (ih hf)

/-- The first complete message among the received bytes is the one expected. -/
theorem front (h : InFlight command n (xs ++ ys) m) {k : ℕ}
    (hk : headerFraming.frame? xs = some k) :
    Stamped command n (xs.take k) ∧ InFlight command (wrap32 (n + 1)) (xs.drop k ++ ys) m := by
  obtain ⟨h4, hd, rfl⟩ := frame?_eq_some_iff.mp hk
  generalize hb : xs ++ ys = bytes at h
  cases h with
  | nil n =>
      have hx : xs = [] := (List.append_eq_nil_iff.mp hb).1
      rw [hx] at h4
      exact absurd h4 (by decide)
  | @cons n m f rest hf hr =>
      have hlen : f.length = dataLength xs := by
        have hl := hf.length
        rw [sizeofLogin] at hl
        have hx : dataLength (xs ++ ys) = dataLength xs := dataLength_append (by omega) ys
        have hy : dataLength (f ++ rest) = dataLength f := dataLength_append (by omega) rest
        rw [← hx, hb, hy, hf.dataLength, hf.length]
      have ht : xs.take (dataLength xs) = f := by
        rw [← List.take_append_of_le_length hd, hb, ← hlen, List.take_left]
      have hdr : xs.drop (dataLength xs) ++ ys = rest := by
        rw [← List.drop_append_of_le_length hd, hb, ← hlen, List.drop_left]
      rw [ht, hdr]
      exact ⟨hf, hr⟩

end InFlight

/-- What the front message of a buffer with a complete message is. -/
theorem CellBuffer.presents_front {b : CellBuffer} (h : b.Valid) {k : ℕ}
    (hk : headerFraming.frame? b.content = some k) : b.Presents (b.content.take k) := by
  obtain ⟨h4, hd, rfl⟩ := frame?_eq_some_iff.mp hk
  have hl := length_content h
  have hp : dataLength b.data = dataLength b.content := dataLength_pBuff h (by omega)
  constructor
  · exact h
  · rw [hasMsg_eq h, hk, Option.isSome_some]
  · rw [hp, take_content (by omega), data]

/-- At most one message was appended, with the number that the counter showed. -/
structure Appends (command : ℕ) (b b' : CellBuffer) (n n' : ℤ) : Prop where
  valid : b'.Valid
  bytes : b'.content = b.content ∧ n' = n ∨
    ∃ f, Stamped command n f ∧ b'.content = b.content ++ f ∧ n' = wrap32 (n + 1)

theorem Appends.inFlight {command : ℕ} {b b' : CellBuffer} {n n' k : ℤ} {xs : List UInt8}
    (h : Appends command b b' n n') (hf : InFlight command k (xs ++ b.content) n) :
    InFlight command k (xs ++ b'.content) n' := by
  rcases h.bytes with ⟨hc, rfl⟩ | ⟨f, hs, hc, rfl⟩
  · rw [hc]
    exact hf
  · rw [hc, ← List.append_assoc]
    exact hf.snoc hs

theorem Appends.int32 {command : ℕ} {b b' : CellBuffer} {n n' : ℤ}
    (h : Appends command b b' n n') (hn : wrap32 n = n) : wrap32 n' = n' := by
  rcases h.bytes with ⟨-, rfl⟩ | ⟨f, -, -, rfl⟩
  · exact hn
  · exact wrap32_wrap32 _

/-! ### The calls -/

namespace CellClient

variable {c : CellClient}

/-- A call of `SendData` that returns has appended the message or nothing. -/
theorem sendHeader_cases (h : c.sendBuff.Valid) {f : List UInt8} (hl : f.length = dataLength f)
    {r : CellClient × ℤ} (hr : c.sendHeader f = some r) :
    ∃ b, r.1 = { c with sendBuff := b } ∧ b.Valid ∧
      (r.2 = SOCKET_ERROR ∧ b.content = c.sendBuff.content ∨
        r.2 ≠ SOCKET_ERROR ∧ b.content = c.sendBuff.content ++ f) := by
  have hi := dataLength_le f
  rw [sendHeader, ← hl, sendData] at hr
  by_cases ho : c.sendBuff.nLast + f.length ≤ 2147483647
  · obtain ⟨b, hp, hv, -, hc⟩ := CellBuffer.push_spec h f ho
    rw [hp] at hr
    obtain rfl := Option.some.inj hr
    refine ⟨b, rfl, hv, ?_⟩
    by_cases hf : c.sendBuff.nLast + f.length ≤ c.sendBuff.nSize
    · rw [if_pos hf] at hc
      rw [decide_eq_true hf, if_pos rfl]
      refine .inr ⟨?_, hc⟩
      simp only [SOCKET_ERROR]
      omega
    · rw [if_neg hf] at hc
      rw [decide_eq_false hf, if_neg Bool.false_ne_true]
      exact .inl ⟨rfl, hc⟩
  · rw [CellBuffer.push_overflow h f (by omega) (by omega)] at hr
    cases hr

theorem sendHeader_isSome (h : c.sendBuff.Valid) {f : List UInt8} (hl : f.length = dataLength f)
    (ho : c.sendBuff.nLast + f.length ≤ 2147483647) : ∃ r, c.sendHeader f = some r := by
  obtain ⟨b, hp, -⟩ := CellBuffer.push_spec h f ho
  rw [sendHeader, ← hl, sendData, hp]
  exact ⟨_, rfl⟩

/-- Popping a message changes the receive buffer only. -/
theorem popFrontMsg_eq (c : CellClient) :
    c.popFrontMsg = { c with recvBuff := c.popFrontMsg.recvBuff } := by
  rw [popFrontMsg]
  split
  · rfl
  · rfl

theorem sendInto_spec (h : c.sendBuff.Valid) (ret : ℤ) (channel : List UInt8) :
    (c.sendInto ret channel).1.sendBuff.Valid ∧
      (c.sendInto ret channel).2 ++ (c.sendInto ret channel).1.sendBuff.content =
        channel ++ c.sendBuff.content := by
  obtain ⟨hv, -, hc⟩ := CellBuffer.write2socket_spec h c.sockfd
    (min_le_right ret c.sendBuff.nLast)
  refine ⟨hv, ?_⟩
  rw [hc, ← List.append_assoc]
  rfl

theorem recvFrom_spec (h : c.recvBuff.Valid) (k : ℕ) (channel : List UInt8) :
    (c.recvFrom k channel).1.recvBuff.Valid ∧
      (c.recvFrom k channel).1.recvBuff.content ++ (c.recvFrom k channel).2 =
        c.recvBuff.content ++ channel := by
  have hf := h.fits
  have hl := List.length_take_le (min k (c.recvBuff.nSize - c.recvBuff.nLast).toNat) channel
  obtain ⟨hv, -, hc⟩ := CellBuffer.read4socket_spec h
    (some (channel.take (min k (c.recvBuff.nSize - c.recvBuff.nLast).toNat)))
    (by rw [Option.getD_some]; omega)
  refine ⟨hv, ?_⟩
  have ht : c.recvBuff.taken
      (some (channel.take (min k (c.recvBuff.nSize - c.recvBuff.nLast).toNat))) =
      channel.take (min k (c.recvBuff.nSize - c.recvBuff.nLast).toNat) := by
    rw [CellBuffer.taken, Option.getD_some]
    split
    · rfl
    · rw [show min k (c.recvBuff.nSize - c.recvBuff.nLast).toNat = 0 by omega, List.take_zero]
  have he : (c.recvFrom k channel).1.recvBuff.content = c.recvBuff.content ++
      channel.take (min k (c.recvBuff.nSize - c.recvBuff.nLast).toNat) := by
    rw [← ht]
    exact hc
  rw [he, List.append_assoc, recvFrom, List.take_append_drop]

end CellClient

end CellNet
