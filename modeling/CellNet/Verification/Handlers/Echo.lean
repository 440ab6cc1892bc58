import CellNet.Verification.Handlers.Logout

/-! The answer to a well-formed logout is the request under another command. -/

namespace CellNet

open Library

/-- The values of a well-formed logout; floating-point numbers are bit patterns. -/
structure LogoutValues where
  int8 : BitVec 8
  int16 : BitVec 16
  int32 : BitVec 32
  float : BitVec 32
  double : BitVec 64
  name : List UInt8
  pw : List UInt8
  data : List (BitVec 32)
  length_name : name.length ≤ 32
  length_pw : pw.length ≤ 32
  length_data : data.length ≤ 10

namespace LogoutValues

/-- The bytes of the elements of `data`. -/
def words (v : LogoutValues) : List UInt8 :=
  v.data.flatMap fun n => encodeLE 4 n.toNat

def payload (v : LogoutValues) : List UInt8 :=
  encodeLE 1 v.int8.toNat ++ (encodeLE 2 v.int16.toNat ++ (encodeLE 4 v.int32.toNat ++
    (encodeLE 4 v.float.toNat ++ (encodeLE 8 v.double.toNat ++
      (encodeLE 4 v.name.length ++ v.name ++ (encodeLE 4 v.pw.length ++ v.pw ++
        (encodeLE 4 v.data.length ++ v.words)))))))

/-- The frame as a `CellWriteStream` encodes it. -/
def frame (v : LogoutValues) : List UInt8 :=
  netmsg_DataHeader (4 + v.payload.length) CMD_LOGOUT ++ v.payload

theorem length_words (v : LogoutValues) : v.words.length = 4 * v.data.length := by
  simp [words, Nat.mul_comm]

theorem length_payload (v : LogoutValues) :
    v.payload.length = 31 + v.name.length + v.pw.length + 4 * v.data.length := by
  simp only [payload, List.length_append, length_encodeLE, length_words]
  omega

theorem length_frame (v : LogoutValues) : v.frame.length = 4 + v.payload.length := by
  simp only [frame, netmsg_DataHeader, List.length_append, length_encodeLE]

end LogoutValues

theorem header_append {n c : ℕ} (hn : n < 65536) (hc : c < 65536) (payload : List UInt8) :
    dataLength (netmsg_DataHeader n c ++ payload) = n ∧
      cmd (netmsg_DataHeader n c ++ payload) = c := by
  have hl (v : ℕ) : (encodeLE 2 v).length = 2 := length_encodeLE 2 v
  rw [netmsg_DataHeader, List.append_assoc]
  constructor
  · rw [dataLength, slice, List.drop_zero, List.take_left' (hl n), decodeLE_encodeLE]
    exact Nat.mod_eq_of_lt hn
  · rw [cmd, slice, List.drop_left' (hl n), List.take_left' (hl c), decodeLE_encodeLE]
    exact Nat.mod_eq_of_lt hc

theorem takeScalar_encode {w v : ℕ} (hv : v < 256 ^ w) (n : ℕ) (rest : List UInt8) :
    takeScalar w n (encodeLE w v ++ rest) = (rest, v) := by
  have hl : (encodeLE w v).length = w := length_encodeLE w v
  rw [takeScalar, if_pos (by simp), List.drop_left' hl, List.take_left' hl, decodeLE_encodeLE,
    Nat.mod_eq_of_lt hv]

theorem takeArray_encode {size len cap : ℕ} {bytes : List UInt8} (hb : bytes.length = size * len)
    (hc : len ≤ cap) (h32 : len < 256 ^ 4) (rest : List UInt8) :
    takeArray size cap (encodeLE 4 len ++ bytes ++ rest) = (rest, bytes, len) := by
  have hl : (encodeLE 4 len ++ bytes).length = 4 + size * len := by simp [hb]
  have hn : (takeScalar 4 0 (encodeLE 4 len ++ bytes ++ rest)).2 = len := by
    rw [List.append_assoc, takeScalar_encode h32]
  have hs : slice (encodeLE 4 len ++ bytes ++ rest) 4 (size * len) = bytes := by
    rw [slice, List.append_assoc, List.drop_left' (length_encodeLE 4 len), List.take_left' hb]
  have hfit : 4 + size * len ≤ (encodeLE 4 len ++ bytes ++ rest).length := by
    rw [List.length_append, hl]
    omega
  simp only [takeArray, hn, hs, hc, hfit, and_self, if_true, List.drop_left' hl]

namespace LogoutValues

/-- The values as the handler holds them, in arrays of full size. -/
def fields (v : LogoutValues) : LogoutFields where
  int8 := v.int8.toNat
  int16 := v.int16.toNat
  int32 := v.int32.toNat
  float := v.float.toNat
  double := v.double.toNat
  name := (blit (List.replicate 32 0) 0 v.name, v.name.length)
  pw := (blit (List.replicate 32 0) 0 v.pw, v.pw.length)
  data := (blit (List.replicate 40 0) 0 v.words, v.data.length)

/-- What was encoded is read. -/
theorem ofPayload_payload (v : LogoutValues) (u : Locals) :
    LogoutFields.ofPayload u v.payload = v.fields := by
  have h1 := v.length_name
  have h2 := v.length_pw
  have h3 := v.length_data
  have hd := takeArray_encode (v.length_words) h3 (by omega) []
  rw [List.append_nil] at hd
  simp only [LogoutFields.ofPayload, payload]
  rw [takeScalar_encode v.int8.isLt, takeScalar_encode v.int16.isLt,
    takeScalar_encode v.int32.isLt, takeScalar_encode v.float.isLt,
    takeScalar_encode v.double.isLt, takeArray_encode (by omega) h1 (by omega),
    takeArray_encode (by omega) h2 (by omega), hd]
  rfl

/-- The counted elements of a filled array are those it was filled with. -/
theorem array_blit {size : ℕ} {bytes mem : List UInt8} {n : ℕ} (hb : bytes.length = size * n) :
    LogoutFields.array size (blit mem 0 bytes, n) = encodeLE 4 n ++ bytes := by
  rw [LogoutFields.array, ← hb, take_blit_zero]

theorem reply_fields (v : LogoutValues) :
    v.fields.reply = netmsg_DataHeader (4 + v.payload.length) CMD_LOGOUT_RESULT ++ v.payload := by
  have hp : v.fields.scalars ++ v.fields.arrays = v.payload := by
    simp only [LogoutFields.scalars, LogoutFields.arrays, fields,
      array_blit (Nat.one_mul v.name.length).symm, array_blit (Nat.one_mul v.pw.length).symm,
      array_blit v.length_words, payload, List.append_assoc]
  have hl : 23 + v.fields.arrays.length = 4 + v.payload.length := by
    rw [← hp, List.length_append, LogoutFields.length_scalars]
    omega
  rw [LogoutFields.reply, hp, hl]

end LogoutValues

/-- The answer to a well-formed logout is one frame of the same length with the same payload,
under the command of the answer, if the send buffer has room for it. -/
theorem logout_echoes (v : LogoutValues) {b : CellBuffer} (hp : b.Presents v.frame)
    (s : MyServer) (u : Locals) {c : CellClient} (hs : c.sendBuff.Valid)
    (hf : c.sendBuff.nLast + v.frame.length ≤ c.sendBuff.nSize) :
    ∃ b' reply, s.onNetMsg u { c with recvBuff := b } b.data =
        some (s, { c with recvBuff := b, sendBuff := b' }) ∧
      b'.Valid ∧ b'.content = c.sendBuff.content ++ reply ∧
      reply.length = v.frame.length ∧ dataLength reply = dataLength v.frame ∧
      cmd reply = CMD_LOGOUT_RESULT ∧ reply.drop 4 = v.frame.drop 4 := by
  have hl := v.length_payload
  have h1 := v.length_name
  have h2 := v.length_pw
  have h3 := v.length_data
  have hdrop (n c : ℕ) : (netmsg_DataHeader n c ++ v.payload).drop 4 = v.payload :=
    List.drop_left' (by simp [netmsg_DataHeader])
  have hframe : v.frame.drop 4 = v.payload := hdrop ..
  have hreq := header_append (n := 4 + v.payload.length) (c := CMD_LOGOUT) (by omega)
    (by decide) v.payload
  have hrep := header_append (n := 4 + v.payload.length) (c := CMD_LOGOUT_RESULT) (by omega)
    (by decide) v.payload
  have hlen : v.fields.reply.length = v.frame.length := by
    rw [v.reply_fields, v.length_frame]
    simp only [netmsg_DataHeader, List.length_append, length_encodeLE]
  have hn := MyServer.onNetMsg_logout hp (by rw [v.length_frame]; omega) hreq.2 s u c
  rw [hframe, v.ofPayload_payload] at hn
  have hi := hs.int32
  obtain ⟨b', hb, hv, -, hc⟩ := CellBuffer.push_spec hs v.fields.reply (by omega)
  rw [if_pos (by omega)] at hc
  refine ⟨b', v.fields.reply, ?_, hv, hc, hlen, ?_, ?_, ?_⟩
  · rw [hn, hb, Option.map_some]
  · rw [v.reply_fields, hrep.1, LogoutValues.frame, hreq.1]
  · rw [v.reply_fields, hrep.2]
  · rw [v.reply_fields, hdrop, hframe]

/-- The request of the test program. -/
def testRequest : LogoutValues where
  int8 := 1
  int16 := 2
  int32 := 3
  float := 0x40900000
  double := 0x401ACCCCCCCCCCCD
  name := [99, 108, 105, 101, 110, 116]
  pw := [97, 104, 97, 104]
  data := [1, 2, 3, 4, 5]
  length_name := by decide
  length_pw := by decide
  length_data := by decide

/-- The server with all its options off. -/
def MyServer.plain : MyServer := ⟨false, false, false, []⟩

theorem testRequest_echoes :
    ∃ b' reply, MyServer.plain.onNetMsg (MyServer.filled 0)
        { MyServer.roomy with recvBuff := .holding testRequest.frame [] }
        (CellBuffer.holding testRequest.frame []).data =
        some (MyServer.plain, { MyServer.roomy with
          recvBuff := .holding testRequest.frame [], sendBuff := b' }) ∧
      b'.Valid ∧ b'.content = MyServer.roomy.sendBuff.content ++ reply ∧
      reply.length = testRequest.frame.length ∧
      dataLength reply = dataLength testRequest.frame ∧
      cmd reply = CMD_LOGOUT_RESULT ∧ reply.drop 4 = testRequest.frame.drop 4 :=
  logout_echoes testRequest (CellBuffer.presents_holding (by decide) (by decide) (by decide))
    MyServer.plain (MyServer.filled 0)
    (CellBuffer.valid_new (congrArg Nat.cast List.length_replicate) (by decide)) (by decide)

end CellNet
