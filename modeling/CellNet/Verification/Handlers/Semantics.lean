import CellNet.Model.MyServer
import CellNet.Verification.Buffer.Semantics
import CellNet.Verification.Stream.Semantics

/-! The frame that a handler is given, and what the handler of a logout reads and writes, as
functions on the bytes in front of the reader. -/

namespace CellNet

open Library CellStream

/-- `DoMsg` dispatches `frame` from this buffer. -/
structure CellBuffer.Presents (b : CellBuffer) (frame : List UInt8) : Prop where
  valid : b.Valid
  hasMsg : b.hasMsg = true
  front : b.data.take (dataLength b.data) = frame

theorem header_take {bytes : List UInt8} {n : ℕ} (h : 4 ≤ n) :
    dataLength (bytes.take n) = dataLength bytes ∧ cmd (bytes.take n) = cmd bytes := by
  constructor
  · rw [dataLength, dataLength, slice, slice, List.drop_zero, List.drop_zero, List.take_take,
      min_eq_left (by omega)]
  · rw [cmd, cmd, slice, slice, List.drop_take, List.take_take, min_eq_left (by omega)]

namespace CellBuffer.Presents

variable {b : CellBuffer} {frame : List UInt8}

theorem bounds (h : b.Presents frame) :
    frame.length = dataLength b.data ∧ dataLength b.data ≤ b.data.length := by
  have hm := h.hasMsg
  have hb := h.valid.block
  have hf := h.valid.fits
  have hle : (dataLength b.data : ℤ) ≤ b.nLast := by
    rw [CellBuffer.hasMsg] at hm
    split at hm
    · exact of_decide_eq_true hm
    · cases hm
  have hd : dataLength b.data ≤ b.data.length := by
    rw [CellBuffer.data] at hle ⊢
    omega
  rw [← h.front, List.length_take, min_eq_left hd]
  exact ⟨rfl, hd⟩

/-- The header of the frame is the one in front of the buffer. -/
theorem header (h : b.Presents frame) (h4 : 4 ≤ frame.length) :
    dataLength b.data = frame.length ∧ cmd b.data = cmd frame := by
  obtain ⟨hl, -⟩ := h.bounds
  refine ⟨hl.symm, ?_⟩
  rw [← h.front]
  exact (header_take (hl ▸ h4)).2.symm

end CellBuffer.Presents

theorem dataLength_le (header : List UInt8) : dataLength header ≤ 65535 := by
  have hl : (slice header 0 2).length ≤ 2 := List.length_take_le ..
  have hp : 256 ^ (slice header 0 2).length ≤ 256 ^ 2 := Nat.pow_le_pow_right (by decide) hl
  exact Nat.le_of_lt_succ ((decodeLE_lt _).trans_le hp)

/-- A block with the frame in front and nothing after it is received. -/
def CellBuffer.holding (frame rest : List UInt8) : CellBuffer :=
  ⟨frame ++ rest, frame.length, frame.length + rest.length, 0⟩

theorem CellBuffer.presents_holding {frame : List UInt8} (h4 : 4 ≤ frame.length)
    (hd : dataLength frame = frame.length) {rest : List UInt8} (hr : rest.length ≤ 65535) :
    (holding frame rest).Presents frame := by
  have hi := dataLength_le frame
  have hh : dataLength (frame ++ rest) = frame.length := by
    rw [← hd, ← (header_take h4).1, List.take_left, hd]
  constructor
  · constructor
    · simp [holding]
    · simp [holding]
    · simp [holding]
    · simp only [holding]
      omega
  · simp only [hasMsg, holding, sizeofDataHeader, hh]
    rw [if_pos (by omega), decide_eq_true le_rfl]
  · rw [data, holding, hh, List.take_left]

/-- Memory in which every scalar is `n`. -/
def MyServer.filled (n : ℕ) : Locals where
  int := n
  float := n
  double := n
  data := List.replicate 88 0
  block := List.replicate 1024 0
  length_data := List.length_replicate
  length_block := List.length_replicate

/-- A read of `w` bytes, with what is unread after it; a failing read returns `n`. -/
def takeScalar (w n : ℕ) (unread : List UInt8) : List UInt8 × ℕ :=
  if w ≤ unread.length then (unread.drop w, decodeLE (unread.take w)) else (unread, n)

/-- A read of an array, with its bytes and the number of its elements. -/
def takeArray (size cap : ℕ) (unread : List UInt8) : List UInt8 × List UInt8 × ℕ :=
  let len := (takeScalar 4 0 unread).2
  if len ≤ cap ∧ 4 + size * len ≤ unread.length then
    (unread.drop (4 + size * len), slice unread 4 (size * len), len)
  else (unread, [], 0)

theorem takeScalar_congr {w n n' : ℕ} {unread : List UInt8} (h : w ≤ unread.length) :
    takeScalar w n unread = takeScalar w n' unread := by
  rw [takeScalar, takeScalar, if_pos h, if_pos h]

theorem takeArray_fits (size cap : ℕ) (unread : List UInt8) :
    (takeArray size cap unread).2.1.length = size * (takeArray size cap unread).2.2 ∧
      (takeArray size cap unread).2.2 ≤ cap := by
  rw [takeArray]
  split
  · next h => exact ⟨length_slice (by omega), h.1⟩
  · exact ⟨rfl, Nat.zero_le cap⟩

namespace CellStream

variable {s : CellStream}

theorem read_take (h : s.Valid) {w : ℕ} (hw : w ≤ 2147483647) (n : ℕ) :
    ∃ t, ((s.read w n).map fun r => (r.1, r.2.1)) = some (t, (takeScalar w n s.unread).2) ∧
      t.Valid ∧ t.unread = (takeScalar w n s.unread).1 := by
  rw [takeScalar]
  by_cases hl : w ≤ s.unread.length
  · rw [read_accept h hl, if_pos hl]
    exact ⟨s.skip w, rfl, skip_valid h hl, unread_skip h w⟩
  · rw [read_reject h (by omega) hw, if_neg hl]
    exact ⟨s, rfl, h, rfl⟩

/-- Looking at the element count leaves the reader where it is. -/
theorem read_peek (h : s.Valid) {w : ℕ} (hw : w ≤ 2147483647) (n : ℕ) :
    ∃ b, s.read w n false = some (s, (takeScalar w n s.unread).2, b) := by
  rw [takeScalar]
  by_cases hl : w ≤ s.unread.length
  · rw [read_accept h hl, if_pos hl]
    exact ⟨true, rfl⟩
  · rw [read_reject h (by omega) hw, if_neg hl]
    exact ⟨false, rfl⟩

theorem readArray_reject (h : s.Valid) {size cap : ℕ} (hs : size * cap ≤ 65535)
    {pArr : List UInt8} (hr : ¬ ((takeScalar 4 0 s.unread).2 ≤ cap ∧
      4 + size * (takeScalar 4 0 s.unread).2 ≤ s.unread.length)) :
    s.readArray size pArr cap = some (s, pArr, 0) := by
  obtain ⟨b, hb⟩ := read_peek h (w := 4) (by omega) 0
  generalize (takeScalar 4 0 s.unread).2 = len at hr hb
  rw [readArray, hb]
  simp only [Option.bind_eq_bind, Option.bind_some]
  by_cases hl : len ≤ cap
  · have hle : size * len ≤ size * cap := Nat.mul_le_mul_left size hl
    have hm : len * size % 2 ^ 64 = size * len := by
      rw [Nat.mul_comm]
      exact Nat.mod_eq_of_lt (by omega)
    have hm' : (size * len + 4) % 2 ^ 64 = size * len + 4 := Nat.mod_eq_of_lt (by omega)
    have hc : ¬ s.canRead (wrap32 (size * len + 4 : ℕ)) = true := by
      rw [canRead_iff h, wrap32_eq (by omega) (by omega)]
      omega
    rw [if_pos hl, hm, hm', if_neg hc]
  · rw [if_neg hl]

theorem readArray_take (h : s.Valid) (size cap : ℕ) {pArr : List UInt8}
    (hp : pArr.length = size * cap) (hs : size * cap ≤ 65535) :
    ∃ t, s.readArray size pArr cap = some (t, blit pArr 0 (takeArray size cap s.unread).2.1,
        (takeArray size cap s.unread).2.2) ∧
      t.Valid ∧ t.unread = (takeArray size cap s.unread).1 := by
  rw [takeArray]
  split
  · next hf =>
      obtain ⟨hc, hl⟩ := hf
      have h4 : 4 ≤ s.unread.length := by omega
      have hlen : (takeScalar 4 0 s.unread).2 = decodeLE (s.unread.take 4) := by
        rw [takeScalar, if_pos h4]
      generalize (takeScalar 4 0 s.unread).2 = len at hc hl hlen
      have ht : (s.unread.take 4).length = 4 := by rw [List.length_take]; omega
      have henc : encodeLE 4 len = s.unread.take 4 := by
        have := encodeLE_decodeLE (s.unread.take 4)
        rwa [ht, ← hlen] at this
      have hlt : len < 256 ^ 4 := by
        have := decodeLE_lt (s.unread.take 4)
        rwa [ht, ← hlen] at this
      have hu : s.unread = encodeLE 4 len ++ slice s.unread 4 (size * len) ++
          s.unread.drop (4 + size * len) := by
        rw [henc, slice, List.append_assoc, ← List.drop_drop, List.take_append_drop,
          List.take_append_drop]
      refine ⟨s.skip (4 + size * len), ?_, skip_valid h hl, unread_skip h _⟩
      exact readArray_accept h hu (length_slice hl) hlt hc
        (hp ▸ Nat.mul_le_mul_left size hc)
  · next hf =>
      refine ⟨s, ?_, h, rfl⟩
      rw [readArray_reject h hs hf]
      rfl

/-! ### Writing into a fresh stream -/

theorem write_append (h : s.Valid) {w : ℕ} {bytes : List UInt8}
    (hf : s.nWritePos + (bytes.length + w : ℕ) ≤ s.nSize) (n : ℕ) :
    (s.append bytes).write w n = some (s.append (bytes ++ encodeLE w n), true) := by
  have hb : s.nWritePos + bytes.length ≤ s.nSize := by omega
  have hw : (s.append bytes).nWritePos + w ≤ (s.append bytes).nSize := by
    rw [append_nWritePos, append_nSize]
    omega
  rw [write_accept (append_valid h hb) hw, append_append h]

theorem writeArray_append (h : s.Valid) {size len : ℕ} {pData data bytes : List UInt8}
    (hd : pData.take (size * len) = data) (hl : data.length = size * len)
    (hf : s.nWritePos + (bytes.length + (4 + size * len) : ℕ) ≤ s.nSize) :
    (s.append bytes).writeArray size pData len =
      some (s.append (bytes ++ (encodeLE 4 len ++ data)), true) := by
  have hb : s.nWritePos + bytes.length ≤ s.nSize := by omega
  have hp : size * len ≤ pData.length := by
    rw [← hl, ← hd, List.length_take]
    exact min_le_right ..
  have hw : (s.append bytes).nWritePos + (4 + size * len) ≤ (s.append bytes).nSize := by
    rw [append_nWritePos, append_nSize]
    omega
  rw [writeArray_accept (append_valid h hb) hp hw, append_append h, append_append h, hd,
    List.append_assoc]

end CellStream

/-! ### The fields of a logout -/

namespace LogoutFields

/-- The values that the handler reads from a payload. -/
def ofPayload (u : Locals) (payload : List UInt8) : LogoutFields :=
  let int8 := takeScalar 1 0 payload
  let int16 := takeScalar 2 0 int8.1
  let int32 := takeScalar 4 u.int int16.1
  let float := takeScalar 4 u.float int32.1
  let double := takeScalar 8 u.double float.1
  let name := takeArray 1 32 double.1
  let pw := takeArray 1 32 name.1
  let data := takeArray 4 10 pw.1
  { int8 := int8.2
    int16 := int16.2
    int32 := int32.2
    float := float.2
    double := double.2
    name := (blit (List.replicate 32 0) 0 name.2.1, name.2.2)
    pw := (blit (List.replicate 32 0) 0 pw.2.1, pw.2.2)
    data := (blit (List.replicate 40 0) 0 data.2.1, data.2.2) }

/-- An array as it is written: the number of its elements and their bytes. -/
def array (size : ℕ) (a : List UInt8 × ℕ) : List UInt8 :=
  encodeLE 4 a.2 ++ a.1.take (size * a.2)

def scalars (f : LogoutFields) : List UInt8 :=
  encodeLE 1 f.int8 ++ encodeLE 2 f.int16 ++ encodeLE 4 f.int32 ++ encodeLE 4 f.float ++
    encodeLE 8 f.double

def arrays (f : LogoutFields) : List UInt8 := array 1 f.name ++ array 1 f.pw ++ array 4 f.data

/-- The frame of the answer. -/
def reply (f : LogoutFields) : List UInt8 :=
  netmsg_DataHeader (23 + f.arrays.length) CMD_LOGOUT_RESULT ++ (f.scalars ++ f.arrays)

/-- The counts of the arrays stay inside the arrays of the handler. -/
structure Fits (f : LogoutFields) : Prop where
  name : f.name.1.length = 32 ∧ f.name.2 ≤ 32
  pw : f.pw.1.length = 32 ∧ f.pw.2 ≤ 32
  data : f.data.1.length = 40 ∧ f.data.2 ≤ 10

theorem length_blit_takeArray (size cap : ℕ) (unread : List UInt8) {pArr : List UInt8}
    (hp : pArr.length = size * cap) :
    (blit pArr 0 (takeArray size cap unread).2.1).length = size * cap ∧
      (takeArray size cap unread).2.2 ≤ cap := by
  obtain ⟨hl, hc⟩ := takeArray_fits size cap unread
  have := Nat.mul_le_mul_left size hc
  exact ⟨(length_blit (by omega)).trans hp, hc⟩

theorem ofPayload_fits (u : Locals) (payload : List UInt8) : (ofPayload u payload).Fits := by
  unfold ofPayload
  dsimp only
  generalize (takeScalar 8 u.double _).1 = rest
  exact ⟨length_blit_takeArray 1 32 _ (by simp), length_blit_takeArray 1 32 _ (by simp),
    length_blit_takeArray 4 10 _ (by simp)⟩

theorem length_scalars (f : LogoutFields) : f.scalars.length = 19 := by
  simp [scalars]

theorem length_array (size : ℕ) {a : List UInt8 × ℕ} (h : size * a.2 ≤ a.1.length) :
    (array size a).length = 4 + size * a.2 := by
  rw [array, List.length_append, length_encodeLE, List.length_take, min_eq_left h]

end LogoutFields

namespace MyServer

open LogoutFields

theorem readLogout_eq (u : Locals) {header : List UInt8} (h4 : 4 ≤ dataLength header)
    (hl : dataLength header ≤ header.length) :
    readLogout u header = some (ofPayload u ((header.take (dataLength header)).drop 4)) := by
  obtain ⟨r, hr, hv, -, hu⟩ := CellReadStream.ofHeader_spec h4 hl (dataLength_le header)
  obtain ⟨r1, h1, hv1, hu1⟩ := read_take hv (w := 1) (by omega) 0
  obtain ⟨r2, h2, hv2, hu2⟩ := read_take hv1 (w := 2) (by omega) 0
  obtain ⟨r3, h3, hv3, hu3⟩ := read_take hv2 (w := 4) (by omega) u.int
  obtain ⟨r4, h4', hv4, hu4⟩ := read_take hv3 (w := 4) (by omega) u.float
  obtain ⟨r5, h5, hv5, hu5⟩ := read_take hv4 (w := 8) (by omega) u.double
  obtain ⟨b, hb⟩ := read_peek hv5 (w := 4) (by omega) 0
  obtain ⟨r6, h6, hv6, hu6⟩ := readArray_take hv5 1 32
    (List.length_replicate (a := (0 : UInt8))) (by omega)
  obtain ⟨r7, h7, hv7, hu7⟩ := readArray_take hv6 1 32
    (List.length_replicate (a := (0 : UInt8))) (by omega)
  obtain ⟨r8, h8, hv8, hu8⟩ := readArray_take hv7 4 10
    (List.length_replicate (a := (0 : UInt8))) (by omega)
  simp only [readLogout, hr, readInt8, h1, readInt16, h2, readInt32, h3, readFloat, h4',
    readDouble, h5, onlyRead, hb, h6, h7, h8, Option.bind_eq_bind, Option.bind_some, ofPayload,
    hu, hu1, hu2, hu3, hu4, hu5, hu6, hu7]

/-- The fresh stream of the answer. -/
def blank (u : Locals) : CellStream := .new u.block 1024

theorem blank_valid (u : Locals) : (blank u).Valid :=
  ⟨by simp [blank, CellStream.new, u.length_block], le_rfl, le_rfl,
    show (0 : ℤ) ≤ 1024 by decide, show (1024 : ℤ) ≤ 2147483647 by decide⟩

/-- The bytes written before the length is filled in. -/
def unfinished (f : LogoutFields) : List UInt8 :=
  encodeLE 2 0 ++ encodeLE 2 CMD_LOGOUT_RESULT ++ encodeLE 1 f.int8 ++ encodeLE 2 f.int16 ++
    encodeLE 4 f.int32 ++ encodeLE 4 f.float ++ encodeLE 8 f.double ++ array 1 f.name ++
    array 1 f.pw ++ array 4 f.data

theorem length_unfinished {f : LogoutFields} (hf : f.Fits) :
    (unfinished f).length = 23 + f.arrays.length ∧ f.arrays.length ≤ 116 := by
  have h1 := length_array 1 (a := f.name) (by have := hf.name; omega)
  have h2 := length_array 1 (a := f.pw) (by have := hf.pw; omega)
  have h3 := length_array 4 (a := f.data) (by have := hf.data; omega)
  have := hf.name
  have := hf.pw
  have := hf.data
  simp only [unfinished, arrays, List.length_append, length_encodeLE, h1, h2, h3]
  omega

/-- The calls of the writer, up to `finish`. -/
theorem writeLogout_unfinished (u : Locals) {f : LogoutFields} (hf : f.Fits) :
    writeLogout u f = CellWriteStream.finish ((blank u).append (unfinished f)) := by
  have hv := blank_valid u
  have hw : ∀ {w : ℕ} {b : List UInt8}, b.length + w ≤ 1024 → ∀ n,
      ((blank u).append b).write w n = some ((blank u).append (b ++ encodeLE w n), true) :=
    fun hb => write_append hv (by simp only [blank, CellStream.new]; omega)
  have ha : ∀ {size : ℕ} {a : List UInt8 × ℕ} {bytes : List UInt8},
      size * a.2 ≤ a.1.length → bytes.length + (4 + size * a.2) ≤ 1024 →
      ((blank u).append bytes).writeArray size a.1 a.2 =
        some ((blank u).append (bytes ++ array size a), true) :=
    fun hl hb => writeArray_append hv rfl (by rw [List.length_take, min_eq_left hl])
      (by simp only [blank, CellStream.new]; omega)
  have hnew : CellWriteStream.new u.block 1024 = some ((blank u).append (encodeLE 2 0)) := by
    rw [CellWriteStream.new, ← blank, write_accept hv (by simp [blank, CellStream.new])]
    rfl
  have h1 := length_array 1 (a := f.name) (by have := hf.name; omega)
  have h2 := length_array 1 (a := f.pw) (by have := hf.pw; omega)
  have := hf.name
  have := hf.pw
  have := hf.data
  have hcmd := hw (w := 2) (b := encodeLE 2 0) (by simp) CMD_LOGOUT_RESULT
  rw [writeLogout, hnew, Option.bind_eq_bind, Option.bind_some, CellWriteStream.setNetCmd, hcmd]
  simp only [Option.map_some, Option.bind_eq_bind, Option.bind_some, writeInt8, writeInt16,
    writeInt32, writeFloat, writeDouble]
  rw [hw (by simp), Option.bind_some, hw (by simp), Option.bind_some, hw (by simp),
    Option.bind_some, hw (by simp), Option.bind_some, hw (by simp), Option.bind_some,
    ha (by omega) (by simp; omega), Option.bind_some,
    ha (by omega) (by simp [h1]; omega), Option.bind_some,
    ha (by omega) (by simp [h1, h2]; omega), Option.bind_some, unfinished]

/-- The answer consists of the values read, whatever the block of the stream held. -/
theorem writeLogout_eq (u : Locals) {f : LogoutFields} (hf : f.Fits) :
    ∃ s, writeLogout u f = some s ∧ s.Valid ∧ s.written = f.reply := by
  have hv := blank_valid u
  obtain ⟨hl, hle⟩ := length_unfinished hf
  have hsize : (blank u).nSize = 1024 := rfl
  have hpos : (blank u).nWritePos = 0 := rfl
  have hva : ((blank u).append (unfinished f)).Valid := append_valid hv (by omega)
  refine ⟨_, (writeLogout_unfinished u hf).trans (CellWriteStream.finish_eq hva ?_),
    CellWriteStream.patched_valid hva ?_, ?_⟩
  · rw [append_nSize]
    omega
  · rw [append_nSize]
    omega
  · have hp : ((blank u).append (unfinished f)).nWritePos = (23 + f.arrays.length : ℕ) := by
      rw [append_nWritePos, hl]
      omega
    have hn : (((23 + f.arrays.length : ℕ) : ℤ) % 2 ^ 16).toNat = 23 + f.arrays.length := by
      omega
    have hb : (blank u).written = [] := rfl
    rw [CellWriteStream.written_patched (by omega), hp, hn, written_append hv, hb,
      List.nil_append, unfinished]
    simp only [List.append_assoc]
    rw [List.drop_left' (length_encodeLE 2 0), reply, netmsg_DataHeader, scalars, arrays]
    simp only [List.append_assoc]

end MyServer

end CellNet
