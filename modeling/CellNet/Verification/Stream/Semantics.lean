import CellNet.Model.CellStream

/-! Each stream call seen through the bytes written so far and those not yet read. -/

namespace CellNet

open Library

/-- The positions are ordered and stay inside the block. -/
structure CellStream.Valid (s : CellStream) : Prop where
  block : s.nSize ≤ s.pBuff.length
  nonneg : 0 ≤ s.nReadPos
  ordered : s.nReadPos ≤ s.nWritePos
  fits : s.nWritePos ≤ s.nSize
  int32 : s.nSize ≤ 2147483647

namespace CellStream

variable {s : CellStream}

/-- The bytes in front of the write position. -/
def written (s : CellStream) : List UInt8 :=
  s.pBuff.take s.nWritePos.toNat

/-- The bytes between the two positions. -/
def unread (s : CellStream) : List UInt8 :=
  s.written.drop s.nReadPos.toNat

theorem length_written (h : s.Valid) : (s.written.length : ℤ) = s.nWritePos := by
  obtain ⟨hb, hr, ho, hf, _⟩ := h
  rw [written, List.length_take]
  omega

theorem length_unread (h : s.Valid) : (s.unread.length : ℤ) = s.nWritePos - s.nReadPos := by
  have hw := length_written h
  obtain ⟨_, hr, ho, _, _⟩ := h
  rw [unread, List.length_drop]
  omega

theorem canWrite_iff (h : s.Valid) (n : ℤ) :
    s.canWrite n = true ↔ s.nWritePos + n ≤ s.nSize := by
  obtain ⟨_, hr, ho, hf, hi⟩ := h
  have hw : wrap32 (s.nSize - s.nWritePos) = s.nSize - s.nWritePos :=
    wrap32_eq (by omega) (by omega)
  rw [canWrite, decide_eq_true_iff, hw]
  omega

theorem canRead_iff (h : s.Valid) (n : ℤ) :
    s.canRead n = true ↔ n ≤ (s.unread.length : ℤ) := by
  have hu := length_unread h
  obtain ⟨_, hr, ho, hf, hi⟩ := h
  have hw : wrap32 (s.nWritePos - s.nReadPos) = s.nWritePos - s.nReadPos :=
    wrap32_eq (by omega) (by omega)
  rw [canRead, decide_eq_true_iff, hw, hu]

/-! ### Writing -/

/-- The stream after `bytes` were copied behind the written ones. -/
def append (s : CellStream) (bytes : List UInt8) : CellStream :=
  { s with
    pBuff := blit s.pBuff s.nWritePos.toNat bytes
    nWritePos := s.nWritePos + bytes.length }

@[simp] theorem append_nSize (bytes : List UInt8) : (s.append bytes).nSize = s.nSize := rfl

@[simp] theorem append_nReadPos (bytes : List UInt8) :
    (s.append bytes).nReadPos = s.nReadPos := rfl

@[simp] theorem append_nWritePos (bytes : List UInt8) :
    (s.append bytes).nWritePos = s.nWritePos + bytes.length := rfl

theorem length_append (h : s.Valid) {bytes : List UInt8}
    (hf : s.nWritePos + bytes.length ≤ s.nSize) :
    (s.append bytes).pBuff.length = s.pBuff.length := by
  obtain ⟨hb, hr, ho, _, _⟩ := h
  exact length_blit (by omega)

theorem append_valid (h : s.Valid) {bytes : List UInt8}
    (hf : s.nWritePos + bytes.length ≤ s.nSize) : (s.append bytes).Valid where
  block := by rw [length_append h hf]; exact h.block
  nonneg := h.nonneg
  ordered := by
    have := h.ordered
    simp only [append_nReadPos, append_nWritePos]
    omega
  fits := hf
  int32 := h.int32

theorem written_append (h : s.Valid) (bytes : List UInt8) :
    (s.append bytes).written = s.written ++ bytes := by
  obtain ⟨hb, hr, ho, hf, _⟩ := h
  have ht : (s.nWritePos + bytes.length).toNat = s.nWritePos.toNat + bytes.length := by omega
  show (blit s.pBuff s.nWritePos.toNat bytes).take (s.nWritePos + bytes.length).toNat = _
  rw [ht, take_blit (by omega)]
  rfl

theorem append_append (h : s.Valid) (xs ys : List UInt8) :
    (s.append xs).append ys = s.append (xs ++ ys) := by
  obtain ⟨hb, hr, ho, hf, _⟩ := h
  have ht : (s.nWritePos + xs.length).toNat = s.nWritePos.toNat + xs.length := by omega
  have hcopy : blit (blit s.pBuff s.nWritePos.toNat xs) (s.nWritePos.toNat + xs.length) ys =
      blit s.pBuff s.nWritePos.toNat (xs ++ ys) := blit_blit (by omega) ys
  simp only [append, ht, hcopy, List.length_append, Nat.cast_add, Int.add_assoc]

/-- A copy behind the written bytes, inside the block, followed by `push`. -/
theorem memcpy_push (h : s.Valid) {src : List UInt8} {n : ℕ} (hn : n ≤ src.length)
    (hf : s.nWritePos + n ≤ s.nSize) :
    ((memcpy s.pBuff s.nWritePos src n).map fun pBuff =>
      ({ s with pBuff }.push (wrap32 n), true)) = some (s.append (src.take n), true) := by
  obtain ⟨hb, hr, ho, _, hi⟩ := h
  have hw : wrap32 n = n := wrap32_eq (by omega) (by omega)
  have hp : wrap32 (s.nWritePos + n) = s.nWritePos + n := wrap32_eq (by omega) (by omega)
  have hl : ((src.take n).length : ℤ) = n := by simp [hn]
  rw [memcpy, if_pos (by omega), Option.map_some, push, hw, append, hl]
  simp only [hp, Int.toNat_natCast]

theorem write_accept (h : s.Valid) {w : ℕ} (hf : s.nWritePos + w ≤ s.nSize) (n : ℕ) :
    s.write w n = some (s.append (encodeLE w n), true) := by
  have hw : wrap32 w = w := by
    obtain ⟨_, hr, ho, _, hi⟩ := h
    exact wrap32_eq (by omega) (by omega)
  have hc : s.canWrite (wrap32 w) = true := by rwa [canWrite_iff h, hw]
  have hm := memcpy_push h (length_encodeLE w n).ge hf
  have ht : (encodeLE w n).take w = encodeLE w n := List.take_of_length_le (by simp)
  rw [ht, Option.map_eq_bind] at hm
  rw [write, if_pos hc]
  exact hm

theorem write_reject (h : s.Valid) {w : ℕ} (hw : w ≤ 2147483647)
    (hf : s.nSize < s.nWritePos + w) (n : ℕ) : s.write w n = some (s, false) := by
  have hc : ¬ s.canWrite (wrap32 w) = true := by
    rw [canWrite_iff h, wrap32_eq (by omega) (by omega)]
    omega
  rw [write, if_neg hc]

/-- The element count goes in front of the elements. -/
theorem writeArray_accept (h : s.Valid) {sizeofT len : ℕ} {pData : List UInt8}
    (hl : sizeofT * len ≤ pData.length) (hf : s.nWritePos + (4 + sizeofT * len) ≤ s.nSize) :
    s.writeArray sizeofT pData len =
      some ((s.append (encodeLE 4 len)).append (pData.take (sizeofT * len)), true) := by
  have hf4 : s.nWritePos + (encodeLE 4 len).length ≤ s.nSize := by
    rw [length_encodeLE]
    omega
  have hbound : 4 + sizeofT * len ≤ 2147483647 := by
    obtain ⟨_, hr, ho, _, hi⟩ := h
    omega
  have hm : sizeofT * len % 2 ^ 64 = sizeofT * len := Nat.mod_eq_of_lt (by omega)
  have hm' : (sizeofT * len + 4) % 2 ^ 64 = sizeofT * len + 4 := Nat.mod_eq_of_lt (by omega)
  have hc : s.canWrite (wrap32 (sizeofT * len + 4 : ℕ)) = true := by
    rw [canWrite_iff h, wrap32_eq (by omega) (by omega)]
    omega
  have hfit : (s.append (encodeLE 4 len)).nWritePos + (sizeofT * len : ℕ) ≤ s.nSize := by
    rw [append_nWritePos, length_encodeLE]
    omega
  have hp := memcpy_push (append_valid h hf4) hl hfit
  rw [Option.map_eq_bind] at hp
  simp only [writeArray, hm, hm', hc, if_true, writeInt32,
    write_accept h (w := 4) (by rw [length_encodeLE] at hf4; exact hf4)]
  exact hp

/-- The admission test of `writeArray` sees the byte count as an `int`. -/
theorem writeArray_reject (h : s.Valid) {sizeofT len : ℕ} {pData : List UInt8}
    (hf : s.nSize < s.nWritePos + wrap32 ((sizeofT * len % 2 ^ 64 + 4) % 2 ^ 64 : ℕ)) :
    s.writeArray sizeofT pData len = some (s, false) := by
  have hc : ¬ s.canWrite (wrap32 ((sizeofT * len % 2 ^ 64 + 4) % 2 ^ 64 : ℕ)) = true := by
    rw [canWrite_iff h]
    omega
  rw [writeArray, if_neg hc]

/-! ### Reading -/

/-- The stream after `n` unread bytes were passed. -/
def skip (s : CellStream) (n : ℕ) : CellStream :=
  { s with nReadPos := s.nReadPos + n }

theorem skip_valid (h : s.Valid) {n : ℕ} (hn : n ≤ s.unread.length) : (s.skip n).Valid where
  block := h.block
  nonneg := by
    have := h.nonneg
    simp only [skip]
    omega
  ordered := by
    have := length_unread h
    simp only [skip]
    omega
  fits := h.fits
  int32 := h.int32

theorem unread_skip (h : s.Valid) (n : ℕ) : (s.skip n).unread = s.unread.drop n := by
  have hn := h.nonneg
  have ht : (s.nReadPos + n).toNat = s.nReadPos.toNat + n := by omega
  show s.written.drop (s.nReadPos + n).toNat = _
  rw [ht, unread, List.drop_drop]

theorem pop_eq_skip (h : s.Valid) {n : ℕ} (hn : n ≤ s.unread.length) :
    s.pop (wrap32 n) = s.skip n := by
  have hl := length_unread h
  obtain ⟨_, hr, _, hf, hi⟩ := h
  have hw : wrap32 n = n := wrap32_eq (by omega) (by omega)
  have hp : wrap32 (s.nReadPos + n) = s.nReadPos + n := wrap32_eq (by omega) (by omega)
  rw [pop, hw, hp, skip]

theorem load_unread (h : s.Valid) {n : ℕ} (hn : n ≤ s.unread.length) :
    load s.pBuff s.nReadPos n = some (s.unread.take n) := by
  have hl := length_unread h
  obtain ⟨hb, hr, _, hf, _⟩ := h
  rw [load, if_pos (by omega), Int.toNat_natCast, slice, unread, written, List.drop_take,
    List.take_take]
  congr 2
  omega

theorem read_accept (h : s.Valid) {w : ℕ} (hw : w ≤ s.unread.length) (n : ℕ) (bOffset : Bool) :
    s.read w n bOffset =
      some (if bOffset then s.skip w else s, decodeLE (s.unread.take w), true) := by
  have hb : wrap32 w = w := by
    have hl := length_unread h
    obtain ⟨_, hr, _, hf, hi⟩ := h
    exact wrap32_eq (by omega) (by omega)
  have hc : s.canRead (wrap32 w) = true := by
    rw [canRead_iff h, hb]
    omega
  rw [read, if_pos hc, load_unread h hw, pop_eq_skip h hw]
  rfl

theorem read_reject (h : s.Valid) {w : ℕ} (hw : s.unread.length < w) (hi : w ≤ 2147483647)
    (n : ℕ) (bOffset : Bool) : s.read w n bOffset = some (s, n, false) := by
  have hc : ¬ s.canRead (wrap32 w) = true := by
    rw [canRead_iff h, wrap32_eq (by omega) (by omega)]
    omega
  rw [read, if_neg hc]

/-- An array that lies at the front of the unread bytes is copied and passed. -/
theorem readArray_accept (h : s.Valid) {sizeofT len cap : ℕ} {data rest pArr : List UInt8}
    (hu : s.unread = encodeLE 4 len ++ data ++ rest) (hd : data.length = sizeofT * len)
    (hlen : len < 256 ^ 4) (hc : len ≤ cap) (hp : sizeofT * len ≤ pArr.length) :
    s.readArray sizeofT pArr cap = some (s.skip (4 + sizeofT * len), blit pArr 0 data, len) := by
  have hl : s.unread.length = 4 + sizeofT * len + rest.length := by
    rw [hu, List.length_append, List.length_append, length_encodeLE, hd]
  have hbound : 4 + sizeofT * len ≤ 2147483647 := by
    have hn := length_unread h
    obtain ⟨_, hr, _, hf, hi⟩ := h
    omega
  have h4 : s.unread.take 4 = encodeLE 4 len := by
    rw [hu, List.append_assoc, List.take_left' (length_encodeLE 4 len)]
  have hm : len * sizeofT % 2 ^ 64 = sizeofT * len := by
    rw [Nat.mul_comm]
    exact Nat.mod_eq_of_lt (by omega)
  have hm' : (sizeofT * len + 4) % 2 ^ 64 = sizeofT * len + 4 := Nat.mod_eq_of_lt (by omega)
  have hcan : s.canRead (wrap32 (sizeofT * len + 4 : ℕ)) = true := by
    rw [canRead_iff h, wrap32_eq (by omega) (by omega)]
    omega
  have hv : (s.skip 4).Valid := skip_valid h (by omega)
  have hs : s.pop 4 = s.skip 4 := pop_eq_skip h (n := 4) (by omega)
  have hu' : (s.skip 4).unread = data ++ rest := by
    rw [unread_skip h, hu, List.append_assoc, List.drop_left' (length_encodeLE 4 len)]
  have hle : sizeofT * len ≤ (s.skip 4).unread.length := by
    rw [hu', List.length_append]
    omega
  have ht : (s.skip 4).unread.take (sizeofT * len) = data := by
    rw [hu', List.take_left' hd]
  have hcopy : memcpy pArr 0 data (sizeofT * len : ℕ) = some (blit pArr 0 data) := by
    rw [memcpy, if_pos (by omega), Int.toNat_natCast, ← hd, List.take_length]
    rfl
  have hsum : (s.skip 4).skip (sizeofT * len) = s.skip (4 + sizeofT * len) := by
    simp only [skip, Nat.cast_add, Int.add_assoc]
  rw [readArray, read_accept h (by omega)]
  simp only [h4, decodeLE_encodeLE, Nat.mod_eq_of_lt hlen, Option.bind_eq_bind,
    Option.bind_some, hc, if_true, hm, hm', Bool.false_eq_true, if_false, hcan, hs,
    load_unread hv hle, ht, hcopy, pop_eq_skip hv hle, hsum]

end CellStream

/-! ### Message streams -/

variable {s : CellStream}

/-- The two header fields are what the first four written bytes say. -/
theorem header_of_written {l c : ℕ} {rest : List UInt8}
    (h : s.written = encodeLE 2 l ++ (encodeLE 2 c ++ rest)) :
    dataLength s.data = l % 256 ^ 2 ∧ cmd s.data = c % 256 ^ 2 := by
  have hd : s.data =
      encodeLE 2 l ++ (encodeLE 2 c ++ (rest ++ s.pBuff.drop s.nWritePos.toNat)) := by
    have hsplit : s.written ++ s.pBuff.drop s.nWritePos.toNat = s.data :=
      List.take_append_drop _ _
    rw [← hsplit, h, List.append_assoc, List.append_assoc]
  have hl (v : ℕ) : (encodeLE 2 v).length = 2 := length_encodeLE 2 v
  rw [dataLength, cmd, slice, slice, List.drop_zero, hd, List.take_left' (hl l),
    List.drop_left' (hl l), List.take_left' (hl c)]
  exact ⟨decodeLE_encodeLE 2 l, decodeLE_encodeLE 2 c⟩

/-- The constructor of a reader passes the header of the message. -/
theorem CellReadStream.ofHeader_spec {header : List UInt8} (h4 : 4 ≤ dataLength header)
    (hl : dataLength header ≤ header.length) (hi : dataLength header ≤ 65535) :
    ∃ r, ofHeader header = some r ∧ r.Valid ∧ r.nWritePos = dataLength header ∧
      r.unread = (header.take (dataLength header)).drop 4 := by
  let s : CellStream := ⟨header, dataLength header, dataLength header, 0⟩
  have hs : (CellStream.new header (dataLength header)).push (dataLength header) = s := by
    have hw : wrap32 ((0 : ℤ) + dataLength header) = dataLength header := by
      rw [zero_add, wrap32_eq (by omega) (by omega)]
    simp only [CellStream.push, CellStream.new, hw, s]
  have hv : s.Valid := ⟨by simpa [s] using hl, le_rfl, by simp [s], le_rfl, by simp [s]; omega⟩
  have hu : s.unread = header.take (dataLength header) := by
    simp [CellStream.unread, CellStream.written, s]
  have hlen : s.unread.length = dataLength header := by rw [hu, List.length_take]; omega
  have hv₂ : (s.skip 2).Valid := CellStream.skip_valid hv (by omega)
  have hlen₂ : (s.skip 2).unread.length = dataLength header - 2 := by
    rw [CellStream.unread_skip hv, List.length_drop, hlen]
  refine ⟨(s.skip 2).skip 2, ?_, CellStream.skip_valid hv₂ (by omega), rfl, ?_⟩
  · rw [ofHeader, new, hs, CellStream.readInt16, CellStream.read_accept hv (by omega)]
    simp only [if_true, Option.map_some, Option.bind_eq_bind, Option.bind_some, getNetCmd,
      CellStream.read_accept hv₂ (show 2 ≤ _ by omega)]
  · rw [CellStream.unread_skip hv₂, CellStream.unread_skip hv, hu, List.drop_drop]

namespace CellWriteStream

/-- The stream after the write position was copied over the first two bytes. -/
def patched (s : CellStream) : CellStream :=
  { s with pBuff := encodeLE 2 (s.nWritePos % 2 ^ 16).toNat ++ s.pBuff.drop 2 }

theorem finish_eq (h : s.Valid) (h2 : 2 ≤ s.nSize) : finish s = some (patched s) := by
  obtain ⟨hb, _, _, _, hi⟩ := h
  have hw : wrap32 (2 : ℕ) = 2 := wrap32_eq (by omega) (by omega)
  have hc : (s.setWritePos 0).canWrite 2 = true := by
    have hs : wrap32 (s.nSize - 0) = s.nSize := by rw [sub_zero, wrap32_eq (by omega) hi]
    rw [CellStream.canWrite, decide_eq_true_iff]
    simp only [CellStream.setWritePos, hs]
    exact h2
  have hm (v : ℕ) : memcpy s.pBuff 0 (encodeLE 2 v) (2 : ℕ) =
      some (encodeLE 2 v ++ s.pBuff.drop 2) := by
    have hl : (encodeLE 2 v).length = 2 := length_encodeLE 2 v
    have hz : (0 : ℤ).toNat = 0 := rfl
    rw [memcpy, if_pos (by omega), Int.toNat_natCast, List.take_of_length_le hl.le, hz, blit,
      List.take_zero, List.nil_append, hl]
  rw [finish, CellStream.write, hw, if_pos hc]
  simp only [CellStream.setWritePos, CellStream.getWritePos, hm, Option.bind_eq_bind,
    Option.bind_some, Option.map_some, CellStream.push, patched]

theorem length_patched (h2 : 2 ≤ s.pBuff.length) :
    (patched s).pBuff.length = s.pBuff.length := by
  simp only [patched, List.length_append, length_encodeLE, List.length_drop]
  omega

theorem patched_valid (h : s.Valid) (h2 : 2 ≤ s.nSize) : (patched s).Valid where
  block := by
    have := h.block
    rw [length_patched (by omega)]
    exact h.block
  nonneg := h.nonneg
  ordered := h.ordered
  fits := h.fits
  int32 := h.int32

theorem written_patched (h2 : 2 ≤ s.nWritePos) :
    (patched s).written = encodeLE 2 (s.nWritePos % 2 ^ 16).toNat ++ s.written.drop 2 := by
  have hl (v : ℕ) : (encodeLE 2 v).length = 2 := length_encodeLE 2 v
  simp only [CellStream.written, patched, List.take_append, hl, List.drop_take]
  rw [List.take_of_length_le (by rw [hl]; omega)]

end CellWriteStream

end CellNet
