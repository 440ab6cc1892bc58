import CellNet.Model.CellClient

/-! Each buffer call seen through the bytes the buffer holds. -/

namespace CellNet

open Library

/-- The block has the announced size and the fill level stays inside it. -/
structure CellBuffer.Valid (b : CellBuffer) : Prop where
  block : (b.pBuff.length : ℤ) = b.nSize
  nonneg : 0 ≤ b.nLast
  fits : b.nLast ≤ b.nSize
  int32 : b.nSize ≤ 2147483647

/-- The bytes in front of the fill level. -/
def CellBuffer.content (b : CellBuffer) : List UInt8 :=
  b.pBuff.take b.nLast.toNat

namespace CellBuffer

variable {b : CellBuffer}

theorem valid_new {nSize : ℤ} {block : List UInt8} (hb : (block.length : ℤ) = nSize)
    (hs : nSize ≤ 2147483647) : (new nSize block).Valid :=
  ⟨hb, le_rfl, by simp only [new]; omega, hs⟩

@[simp] theorem content_new (nSize : ℤ) (block : List UInt8) :
    (new nSize block).content = [] := by
  simp [content, new]

theorem hasMsg_new (nSize : ℤ) (block : List UInt8) : (new nSize block).hasMsg = false := by
  have h : ¬ (sizeofDataHeader : ℤ) ≤ 0 % 2 ^ 64 := by decide
  exact if_neg h

theorem length_content (h : b.Valid) : (b.content.length : ℤ) = b.nLast := by
  obtain ⟨hb, hn, hf, _⟩ := h
  rw [content, List.length_take]
  omega

theorem nLast_toNat (h : b.Valid) : b.nLast.toNat = b.content.length := by
  have := length_content h
  omega

theorem content_eq_nil_iff (h : b.Valid) : b.content = [] ↔ b.nLast = 0 := by
  rw [← List.length_eq_zero_iff]
  have := length_content h
  omega

/-! ### Appending -/

theorem push_accept (h : b.Valid) {pData : List UInt8}
    (hs : b.nLast + pData.length ≤ b.nSize) :
    b.push pData pData.length = some ({ b with
      pBuff := blit b.pBuff b.nLast.toNat pData
      nLast := b.nLast + pData.length
      fullCount := if b.nLast + pData.length = SEND_BUFF_SIZE then b.fullCount + 1
        else b.fullCount }, true) := by
  obtain ⟨hb, hn, hf, hi⟩ := h
  have hw : wrap32 (b.nLast + pData.length) = b.nLast + pData.length :=
    wrap32_eq (by omega) (by omega)
  have hm : memcpy b.pBuff b.nLast pData pData.length =
      some (blit b.pBuff b.nLast.toNat pData) := by
    rw [memcpy, if_pos (by omega)]
    simp
  simp [push, hw, hs, hm]

theorem push_reject (h : b.Valid) {pData : List UInt8}
    (hs : b.nSize < b.nLast + pData.length) (ho : b.nLast + pData.length ≤ 2147483647) :
    b.push pData pData.length = some ({ b with fullCount := b.fullCount + 1 }, false) := by
  obtain ⟨_, hn, _, _⟩ := h
  have hw : wrap32 (b.nLast + pData.length) = b.nLast + pData.length :=
    wrap32_eq (by omega) ho
  have hs' : ¬ b.nLast + pData.length ≤ b.nSize := by omega
  simp [push, hw, hs']

/-- Only the announced bytes are looked at. -/
theorem push_take (b : CellBuffer) {pData : List UInt8} {n : ℕ} (hn : n ≤ pData.length) :
    b.push pData n = b.push (pData.take n) (pData.take n).length := by
  have hl : (pData.take n).length = n := by simp [hn]
  have hm : memcpy b.pBuff b.nLast pData n = memcpy b.pBuff b.nLast (pData.take n) n := by
    simp [memcpy, hl, hn, List.take_take]
  simp only [push, hl, hm]

/-- An accepted push appends the whole message; a rejected one changes no byte. -/
theorem push_spec (h : b.Valid) (pData : List UInt8)
    (ho : b.nLast + pData.length ≤ 2147483647) :
    ∃ b', b.push pData pData.length =
        some (b', decide (b.nLast + pData.length ≤ b.nSize)) ∧ b'.Valid ∧ b'.nSize = b.nSize ∧
      b'.content = if b.nLast + pData.length ≤ b.nSize then b.content ++ pData else b.content := by
  by_cases hs : b.nLast + pData.length ≤ b.nSize
  · rw [decide_eq_true hs, if_pos hs]
    refine ⟨_, push_accept h hs, ?_, rfl, ?_⟩
    · obtain ⟨hb, hn, hf, hi⟩ := h
      refine ⟨?_, ?_, hs, hi⟩
      · show ((blit b.pBuff b.nLast.toNat pData).length : ℤ) = b.nSize
        rw [length_blit (by omega), hb]
      · show 0 ≤ b.nLast + pData.length
        omega
    · obtain ⟨hb, hn, hf, _⟩ := h
      show (blit b.pBuff b.nLast.toNat pData).take (b.nLast + pData.length).toNat = _
      have ht : (b.nLast + pData.length).toNat = b.nLast.toNat + pData.length := by omega
      rw [ht, take_blit (by omega)]
      rfl
  · rw [decide_eq_false hs, if_neg hs]
    refine ⟨_, push_reject h (by omega) ho, ?_, rfl, rfl⟩
    exact ⟨h.block, h.nonneg, h.fits, h.int32⟩

/-- A push whose wrapped sum passes the test writes past the block. -/
theorem push_overflow (h : b.Valid) (pData : List UInt8)
    (hl : pData.length ≤ 2147483647) (ho : 2147483647 < b.nLast + pData.length) :
    b.push pData pData.length = none := by
  obtain ⟨hb, hn, hf, hi⟩ := h
  have hw : wrap32 (b.nLast + pData.length) ≤ b.nSize := by
    unfold wrap32
    omega
  have hm : memcpy b.pBuff b.nLast pData pData.length = none := by
    rw [memcpy, if_neg (by omega)]
  simp [push, hw, hm]

/-! ### Consuming -/

theorem length_compact {p : List UInt8} {k n : ℤ} (hk : 0 ≤ k) (hn : 0 ≤ n)
    (h : k + n ≤ p.length) : (compact p k n).length = p.length := by
  have hs : (slice p k.toNat n.toNat).length = n.toNat := length_slice (by omega)
  rw [compact, length_blit (by omega)]

/-- Moving the tail of the held bytes to the front leaves exactly that tail. -/
theorem take_compact {p : List UInt8} {k n : ℤ} (hk : 0 ≤ k) (hn : 0 ≤ n)
    (h : k + n ≤ p.length) :
    (compact p k n).take n.toNat = (p.take (k + n).toNat).drop k.toNat := by
  have hs : (slice p k.toNat n.toNat).length = n.toNat := length_slice (by omega)
  have ht := take_blit_zero p (slice p k.toNat n.toNat)
  rw [hs] at ht
  rw [compact, ht, slice, List.drop_take]
  congr 1
  omega

theorem pop_spec (h : b.Valid) {k : ℕ} (hk : (k : ℤ) ≤ b.nLast) :
    (b.pop k).Valid ∧ (b.pop k).nSize = b.nSize ∧ (b.pop k).nLast = b.nLast - k ∧
      (b.pop k).content = b.content.drop k := by
  obtain ⟨hb, hn, hf, hi⟩ := h
  by_cases hz : b.nLast - k > 0
  · refine ⟨⟨?_, ?_, ?_, hi⟩, rfl, rfl, ?_⟩
    · simp only [pop, hz, ite_true]
      rw [length_compact (by omega) (by omega) (by omega), hb]
    · simp only [pop]
      omega
    · simp only [pop]
      omega
    · simp only [content, pop, hz, ite_true]
      rw [take_compact (by omega) (by omega) (by omega), Int.toNat_natCast]
      congr 2
      omega
  · have he : b.nLast = k := by omega
    refine ⟨⟨by simp only [pop, hz, ite_false, hb], by simp only [pop]; omega,
      by simp only [pop]; omega, hi⟩, rfl, rfl, ?_⟩
    have hd : b.nLast - k = 0 := by omega
    have hc : b.content.length ≤ k := by rw [content, List.length_take]; omega
    rw [List.drop_of_length_le hc]
    simp only [content, pop, hd]
    simp

/-! The branches of `write2socket`. -/

theorem write2socket_idle {sockfd : SOCKET} (h : ¬ (b.nLast > 0 ∧ INVALID_SOCKET ≠ sockfd))
    (ret : ℤ) : b.write2socket sockfd ret = (b, 0) :=
  if_neg h

theorem write2socket_fail {sockfd : SOCKET} (h : b.nLast > 0 ∧ INVALID_SOCKET ≠ sockfd)
    {ret : ℤ} (hr : ret ≤ 0) : b.write2socket sockfd ret = (b, SOCKET_ERROR) := by
  rw [write2socket, if_pos h, if_pos hr]

theorem write2socket_all {sockfd : SOCKET} (h : b.nLast > 0 ∧ INVALID_SOCKET ≠ sockfd) :
    b.write2socket sockfd b.nLast = ({ b with nLast := 0, fullCount := 0 }, b.nLast) := by
  rw [write2socket, if_pos h, if_neg (by omega), if_pos rfl]

theorem write2socket_part {sockfd : SOCKET} (h : b.nLast > 0 ∧ INVALID_SOCKET ≠ sockfd)
    {ret : ℤ} (hr : 0 < ret) (hn : ret ≠ b.nLast) :
    b.write2socket sockfd ret = ({ b with
      pBuff := compact b.pBuff ret (b.nLast - ret)
      nLast := b.nLast - ret
      fullCount := 0 }, ret) := by
  rw [write2socket, if_pos h, if_neg (by omega), if_neg hn]

/-- The held bytes are split between the kernel and the buffer. -/
theorem write2socket_spec (h : b.Valid) (sockfd : SOCKET) {ret : ℤ} (hr : ret ≤ b.nLast) :
    (b.write2socket sockfd ret).1.Valid ∧ (b.write2socket sockfd ret).1.nSize = b.nSize ∧
      b.content = b.wire sockfd ret ++ (b.write2socket sockfd ret).1.content := by
  by_cases hc : b.nLast > 0 ∧ INVALID_SOCKET ≠ sockfd
  · rw [wire, if_pos hc]
    by_cases hz : ret ≤ 0
    · have ht : ret.toNat = 0 := by omega
      rw [write2socket_fail hc hz, ht]
      exact ⟨h, rfl, by simp⟩
    · obtain ⟨hb, hn, hf, hi⟩ := h
      by_cases he : ret = b.nLast
      · subst he
        rw [write2socket_all hc]
        refine ⟨⟨hb, le_rfl, ?_, hi⟩, rfl, by simp [content]⟩
        show (0 : ℤ) ≤ b.nSize
        omega
      · rw [write2socket_part hc (by omega) he]
        refine ⟨⟨?_, ?_, ?_, hi⟩, rfl, ?_⟩
        · show ((compact b.pBuff ret (b.nLast - ret)).length : ℤ) = b.nSize
          rw [length_compact (by omega) (by omega) (by omega), hb]
        · show 0 ≤ b.nLast - ret
          omega
        · show b.nLast - ret ≤ b.nSize
          omega
        · show b.pBuff.take b.nLast.toNat = b.pBuff.take ret.toNat ++
            (compact b.pBuff ret (b.nLast - ret)).take (b.nLast - ret).toNat
          have hsum : (ret + (b.nLast - ret)).toNat = b.nLast.toNat := by omega
          have hmin : b.pBuff.take ret.toNat = (b.pBuff.take b.nLast.toNat).take ret.toNat := by
            rw [List.take_take]
            congr 1
            omega
          rw [take_compact (by omega) (by omega) (by omega), hsum, hmin, List.take_append_drop]
  · rw [write2socket_idle hc, wire, if_neg hc]
    exact ⟨h, rfl, rfl⟩

/-! ### Receiving -/

theorem read4socket_full (h : ¬ b.nSize - b.nLast > 0) (recv : Option (List UInt8)) :
    b.read4socket recv = (b, 0) :=
  if_neg h

theorem read4socket_none (h : b.nSize - b.nLast > 0) {recv : Option (List UInt8)}
    (hr : recv.getD [] = []) : b.read4socket recv = (b, SOCKET_ERROR) := by
  cases recv with
  | none => exact if_pos h
  | some bytes =>
      obtain rfl : bytes = [] := hr
      exact if_pos h

theorem read4socket_some (h : b.nSize - b.nLast > 0) {bytes : List UInt8} (hn : bytes ≠ []) :
    b.read4socket (some bytes) = ({ b with
      pBuff := blit b.pBuff b.nLast.toNat bytes
      nLast := b.nLast + bytes.length }, (bytes.length : ℤ)) := by
  have hz : bytes.length ≠ 0 := by simpa using hn
  simp only [read4socket, h, hz, if_true, if_false]

/-- The bytes that `read4socket` takes from the socket. -/
def taken (b : CellBuffer) (recv : Option (List UInt8)) : List UInt8 :=
  if b.nSize - b.nLast > 0 then recv.getD [] else []

theorem read4socket_spec (h : b.Valid) (recv : Option (List UInt8))
    (hr : ((recv.getD []).length : ℤ) ≤ b.nSize - b.nLast) :
    (b.read4socket recv).1.Valid ∧ (b.read4socket recv).1.nSize = b.nSize ∧
      (b.read4socket recv).1.content = b.content ++ b.taken recv := by
  by_cases hs : b.nSize - b.nLast > 0
  · rw [taken, if_pos hs]
    by_cases hz : recv.getD [] = []
    · rw [read4socket_none hs hz, hz, List.append_nil]
      exact ⟨h, rfl, rfl⟩
    · obtain ⟨bytes, rfl⟩ : ∃ bytes, recv = some bytes := by
        cases recv with
        | none => exact absurd rfl hz
        | some bytes => exact ⟨bytes, rfl⟩
      simp only [Option.getD_some] at hr hz ⊢
      rw [read4socket_some hs hz]
      obtain ⟨hb, hn, hf, hi⟩ := h
      refine ⟨⟨?_, ?_, ?_, hi⟩, rfl, ?_⟩
      · show ((blit b.pBuff b.nLast.toNat bytes).length : ℤ) = b.nSize
        rw [length_blit (by omega), hb]
      · show 0 ≤ b.nLast + bytes.length
        omega
      · show b.nLast + bytes.length ≤ b.nSize
        omega
      · show (blit b.pBuff b.nLast.toNat bytes).take (b.nLast + bytes.length).toNat = _
        have ht : (b.nLast + bytes.length).toNat = b.nLast.toNat + bytes.length := by omega
        rw [ht, take_blit (by omega)]
        rfl
  · rw [read4socket_full hs, taken, if_neg hs, List.append_nil]
    exact ⟨h, rfl, rfl⟩

end CellBuffer

end CellNet
