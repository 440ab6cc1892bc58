import CellNet.Model.EasyTcpClient
import CellNet.Verification.Handlers.Semantics

/-! Which arrays are written and read, in exact arithmetic: the byte counts are computed as
`size_t` and tested as `int`. -/

namespace CellNet

open Library

namespace CellStream

variable {s : CellStream} {size len : ℕ} {pData pArr : List UInt8}

/-- A byte count that stays itself as an `int`, or is too large as one as well. -/
def NarrowsRight (n : ℕ) (room : ℤ) : Prop :=
  n ≤ 2147483647 ∨ room < wrap32 n

/-- The count and the elements go behind the written bytes exactly when they fit there. -/
structure WritesExactly (s : CellStream) (size : ℕ) (pData : List UInt8) (len : ℕ)
    (r : CellStream × Bool) : Prop where
  admits : r.2 = true ↔ (4 + size * len : ℕ) ≤ s.nSize - s.nWritePos
  written : r.2 = true → r.1 = (s.append (encodeLE 4 len)).append (pData.take (size * len))
  refused : r.2 = false → r.1 = s
  ordered : 0 ≤ r.1.nReadPos ∧ r.1.nReadPos ≤ r.1.nWritePos ∧ r.1.nWritePos ≤ r.1.nSize

/-- The element count in front of the unread bytes. -/
def storedCount (s : CellStream) : ℕ := (takeScalar 4 0 s.unread).2

/-- The stored array is there in full, and the caller has room for it. -/
def Admits (s : CellStream) (size len : ℕ) : Prop :=
  s.storedCount ≤ len ∧ (4 + size * s.storedCount : ℕ) ≤ s.nWritePos - s.nReadPos

/-- The elements are copied and passed exactly when the array is admitted. -/
structure ReadsExactly (s : CellStream) (size : ℕ) (pArr : List UInt8) (len : ℕ)
    (r : CellStream × List UInt8 × ℕ) : Prop where
  copied : s.Admits size len → r = (s.skip (4 + size * s.storedCount),
    blit pArr 0 (slice s.unread 4 (size * s.storedCount)), s.storedCount)
  refused : ¬ s.Admits size len → r = (s, pArr, 0)
  ordered : 0 ≤ r.1.nReadPos ∧ r.1.nReadPos ≤ r.1.nWritePos ∧ r.1.nWritePos ≤ r.1.nSize

theorem Valid.positions (h : s.Valid) :
    0 ≤ s.nReadPos ∧ s.nReadPos ≤ s.nWritePos ∧ s.nWritePos ≤ s.nSize :=
  ⟨h.nonneg, h.ordered, h.fits⟩

/-- The `size_t` arithmetic does not change what the count is as an `int`. -/
theorem wrap32_count (n : ℕ) : wrap32 ((n % 2 ^ 64 + 4) % 2 ^ 64 : ℕ) = wrap32 (4 + n : ℕ) := by
  unfold wrap32
  omega

/-! ### Writing -/

theorem writesExactly_of_narrowsRight (h : s.Valid)
    (hd : (4 + size * len : ℕ) ≤ s.nSize - s.nWritePos → size * len ≤ pData.length)
    (hn : NarrowsRight (4 + size * len) (s.nSize - s.nWritePos)) :
    ∃ r, s.writeArray size pData len = some r ∧ s.WritesExactly size pData len r := by
  by_cases hf : (4 + size * len : ℕ) ≤ s.nSize - s.nWritePos
  · have hl := hd hf
    have hfit : s.nWritePos + (4 + size * len) ≤ s.nSize := by
      push_cast at hf
      omega
    have hv4 : (s.append (encodeLE 4 len)).Valid := by
      apply append_valid h
      rw [length_encodeLE]
      omega
    have hv : ((s.append (encodeLE 4 len)).append (pData.take (size * len))).Valid := by
      apply append_valid hv4
      simp only [append_nWritePos, append_nSize, length_encodeLE, List.length_take,
        min_eq_left hl]
      omega
    exact ⟨_, writeArray_accept h hl (by exact_mod_cast hfit),
      by simpa using hf, fun _ => rfl, nofun, hv.positions⟩
  · have hi := h.int32
    have hr := h.nonneg
    have ho := h.ordered
    have hrej : s.nSize < s.nWritePos + wrap32 (4 + size * len : ℕ) := by
      cases hn with
      | inl hle =>
          rw [wrap32_eq (by omega) (by omega)]
          omega
      | inr hlt => omega
    refine ⟨_, writeArray_reject h (by rwa [wrap32_count]), ?_, nofun, fun _ => rfl, h.positions⟩
    simpa using hf

/-- Past the test, `writeArray` returns true if it returns at all. -/
theorem writeArray_true (hc : s.canWrite (wrap32 (4 + size * len : ℕ)) = true)
    {r : CellStream × Bool} (hr : s.writeArray size pData len = some r) : r.2 = true := by
  rw [← wrap32_count] at hc
  simp only [writeArray, hc, if_true, Option.bind_eq_bind, Option.bind_eq_some_iff] at hr
  obtain ⟨t, -, p, -, hr⟩ := hr
  cases hr
  rfl

theorem writesExactly_iff (h : s.Valid)
    (hd : (4 + size * len : ℕ) ≤ s.nSize - s.nWritePos → size * len ≤ pData.length) :
    (∃ r, s.writeArray size pData len = some r ∧ s.WritesExactly size pData len r) ↔
      NarrowsRight (4 + size * len) (s.nSize - s.nWritePos) := by
  constructor
  · intro hex
    obtain ⟨r, hr, hw⟩ := hex
    have hi := h.int32
    have hr0 := h.nonneg
    have ho := h.ordered
    by_contra hn
    simp only [NarrowsRight, not_or, not_le, not_lt] at hn
    have hc : s.canWrite (wrap32 (4 + size * len : ℕ)) = true := by
      rw [canWrite_iff h]
      omega
    have := hw.admits.mp (writeArray_true hc hr)
    omega
  · exact writesExactly_of_narrowsRight h hd

/-! ### Reading -/

theorem readArray_refused (h : s.Valid) (hr : ¬ (s.storedCount ≤ len ∧
      wrap32 (4 + size * s.storedCount : ℕ) ≤ s.unread.length)) :
    s.readArray size pArr len = some (s, pArr, 0) := by
  obtain ⟨b, hb⟩ := read_peek h (w := 4) (by omega) 0
  rw [← storedCount] at hb
  rw [readArray, hb]
  simp only [Option.bind_eq_bind, Option.bind_some]
  by_cases hl : s.storedCount ≤ len
  · have hc : ¬ s.canRead (wrap32 ((s.storedCount * size % 2 ^ 64 + 4) % 2 ^ 64 : ℕ)) = true := by
      rw [wrap32_count, Nat.mul_comm, canRead_iff h]
      intro hle
      exact hr ⟨hl, hle⟩
    rw [if_pos hl, if_neg hc]
  · rw [if_neg hl]

theorem readArray_admitted (h : s.Valid) (ha : s.Admits size len)
    (hp : size * s.storedCount ≤ pArr.length) :
    s.readArray size pArr len = some (s.skip (4 + size * s.storedCount),
      blit pArr 0 (slice s.unread 4 (size * s.storedCount)), s.storedCount) := by
  obtain ⟨hc, hfit⟩ := ha
  have hlen : 4 + size * s.storedCount ≤ s.unread.length := by
    have := length_unread h
    omega
  have hst : s.storedCount = decodeLE (s.unread.take 4) := by
    rw [storedCount, takeScalar, if_pos (by omega)]
  have ht : (s.unread.take 4).length = 4 := by
    rw [List.length_take]
    omega
  have henc : encodeLE 4 s.storedCount = s.unread.take 4 := by
    have := encodeLE_decodeLE (s.unread.take 4)
    rwa [ht, ← hst] at this
  have hlt : s.storedCount < 256 ^ 4 := by
    have := decodeLE_lt (s.unread.take 4)
    rwa [ht, ← hst] at this
  have hu : s.unread = encodeLE 4 s.storedCount ++ slice s.unread 4 (size * s.storedCount) ++
      s.unread.drop (4 + size * s.storedCount) := by
    rw [henc, slice, List.append_assoc, ← List.drop_drop, List.take_append_drop,
      List.take_append_drop]
  exact readArray_accept h hu (length_slice hlen) hlt hc hp

/-- Past its tests, `readArray` returns the stored count if it returns at all. -/
theorem readArray_count (h : s.Valid) (hl : s.storedCount ≤ len)
    (hc : wrap32 (4 + size * s.storedCount : ℕ) ≤ s.unread.length)
    {r : CellStream × List UInt8 × ℕ} (hr : s.readArray size pArr len = some r) :
    r.2.2 = s.storedCount := by
  obtain ⟨b, hb⟩ := read_peek h (w := 4) (by omega) 0
  have hcan : s.canRead (wrap32 ((s.storedCount * size % 2 ^ 64 + 4) % 2 ^ 64 : ℕ)) = true := by
    rwa [wrap32_count, Nat.mul_comm, canRead_iff h]
  rw [← storedCount] at hb
  simp only [readArray, hb, Option.bind_eq_bind, Option.bind_some, hl, if_true, hcan,
    Option.bind_eq_some_iff] at hr
  obtain ⟨bytes, -, p, -, hr⟩ := hr
  cases hr
  rfl

theorem readsExactly_of_narrowsRight (h : s.Valid)
    (hp : s.Admits size len → size * s.storedCount ≤ pArr.length)
    (hn : s.storedCount ≤ len →
      NarrowsRight (4 + size * s.storedCount) (s.nWritePos - s.nReadPos)) :
    ∃ r, s.readArray size pArr len = some r ∧ s.ReadsExactly size pArr len r := by
  have hu := length_unread h
  by_cases ha : s.Admits size len
  · have hv : (s.skip (4 + size * s.storedCount)).Valid := by
      apply skip_valid h
      have := ha.2
      omega
    exact ⟨_, readArray_admitted h ha (hp ha), fun _ => rfl, fun hna => absurd ha hna,
      hv.positions⟩
  · refine ⟨_, readArray_refused h ?_, fun hya => absurd hya ha, fun _ => rfl, h.positions⟩
    intro hc
    obtain ⟨hl, hw⟩ := hc
    cases hn hl with
    | inl hle =>
        rw [wrap32_eq (by omega) (by omega)] at hw
        exact ha ⟨hl, by omega⟩
    | inr hlt => omega

/-- A count that only narrowing admits is returned. -/
theorem readArray_narrowed (h : s.Valid) {r : CellStream × List UInt8 × ℕ}
    (hr : s.readArray size pArr len = some r)
    (hn : ¬ (s.storedCount ≤ len →
      NarrowsRight (4 + size * s.storedCount) (s.nWritePos - s.nReadPos))) :
    ¬ s.Admits size len ∧ r.2.2 ≠ 0 := by
  have hu := length_unread h
  have hi := h.int32
  have h0 := h.nonneg
  have ho := h.ordered
  have hf := h.fits
  simp only [NarrowsRight, Classical.not_imp, not_or, not_le, not_lt] at hn
  obtain ⟨hl, hbig, hw⟩ := hn
  constructor
  · intro ha
    have := ha.2
    omega
  · rw [readArray_count h hl (by omega) hr]
    intro hz
    rw [hz] at hbig
    omega

theorem readsExactly_iff (h : s.Valid)
    (hp : s.Admits size len → size * s.storedCount ≤ pArr.length) {β : Type*}
    {f : CellStream × List UInt8 × ℕ → β}
    (hf : ∀ r r', f r = f r' → r'.2.2 = 0 → r.2.2 = 0) :
    (∃ r, (s.readArray size pArr len).map f = some (f r) ∧ s.ReadsExactly size pArr len r) ↔
      (s.storedCount ≤ len →
        NarrowsRight (4 + size * s.storedCount) (s.nWritePos - s.nReadPos)) := by
  constructor
  · intro hex
    obtain ⟨r, hr, he⟩ := hex
    obtain ⟨r', hr', hff⟩ := Option.map_eq_some_iff.mp hr
    by_contra hn
    obtain ⟨ha, hne⟩ := readArray_narrowed h hr' hn
    apply hne
    apply hf r' r hff
    rw [he.refused ha]
  · intro hn
    obtain ⟨r, hr, he⟩ := readsExactly_of_narrowsRight h hp hn
    exact ⟨r, by rw [hr, Option.map_some], he⟩

/-- Arrays are written and read as exact arithmetic says, through `writeArray`, `readArray`,
`writeString` and the exported `ReadString`, if and only if the byte count narrows right. -/
theorem arrays_exactly_iff (h : s.Valid)
    (hd : (4 + size * len : ℕ) ≤ s.nSize - s.nWritePos → size * len ≤ pData.length)
    (hp : s.Admits size len → size * s.storedCount ≤ pArr.length) :
    ((∃ r, s.writeArray size pData len = some r ∧ s.WritesExactly size pData len r) ↔
      NarrowsRight (4 + size * len) (s.nSize - s.nWritePos)) ∧
    ((∃ r, s.readArray size pArr len = some r ∧ s.ReadsExactly size pArr len r) ↔
      (s.storedCount ≤ len →
        NarrowsRight (4 + size * s.storedCount) (s.nWritePos - s.nReadPos))) ∧
    ∀ n : ℤ, size = 1 → len = toUInt32 n →
      ((∃ r, CellWriteStream.writeChars s pData n = some r ∧ s.WritesExactly 1 pData len r) ↔
        NarrowsRight (4 + len) (s.nSize - s.nWritePos)) ∧
      ((∃ r, cellReadStream_ReadString (some s) (some pArr) n =
            some (some r.1, some r.2.1, decide (r.2.2 ≠ 0)) ∧
          s.ReadsExactly 1 pArr len r) ↔
        (s.storedCount ≤ len →
          NarrowsRight (4 + s.storedCount) (s.nWritePos - s.nReadPos))) := by
  refine ⟨writesExactly_iff h hd, ?_, ?_⟩
  · have hid : ∀ r r' : CellStream × List UInt8 × ℕ, id r = id r' → r'.2.2 = 0 → r.2.2 = 0 := by
      intro r r' he hz
      rwa [show r = r' from he]
    simpa using readsExactly_iff h hp hid
  · intro n hs hl
    subst hs hl
    constructor
    · simpa only [CellWriteStream.writeChars, one_mul] using writesExactly_iff h hd
    · have hout : ∀ r r' : CellStream × List UInt8 × ℕ,
          (some r.1, some r.2.1, decide (r.2.2 ≠ 0)) =
            (some r'.1, some r'.2.1, decide (r'.2.2 ≠ 0)) → r'.2.2 = 0 → r.2.2 = 0 := by
        intro r r' he hz
        simp only [Prod.mk.injEq, decide_eq_decide] at he
        by_contra hne
        exact he.2.2.mp hne hz
      simpa only [cellReadStream_ReadString, one_mul] using readsExactly_iff h hp hout

/-- Sixteen bytes of which two are written and read. -/
def sixteen : CellStream := ⟨List.replicate 16 0, 16, 2, 2⟩

theorem sixteen_valid : sixteen.Valid := by
  constructor <;> decide

theorem arrays_exactly_three :
    ∃ r, sixteen.writeArray 1 [7, 8, 9] 3 = some r ∧ sixteen.WritesExactly 1 [7, 8, 9] 3 r :=
  have hp : sixteen.Admits 1 3 → 1 * sixteen.storedCount ≤ ([] : List UInt8).length :=
    fun ha => absurd ha.2 (by decide)
  (arrays_exactly_iff sixteen_valid (fun _ => by decide) hp).1.mpr (Or.inl (by decide))

/-- The length -1 passes the test as a count of three bytes. -/
theorem write_minus_one :
    CellWriteStream.writeChars sixteen [] (-1) = none ∧
      ¬ (4 + 1 * toUInt32 (-1) : ℕ) ≤ sixteen.nSize - sixteen.nWritePos ∧
      ¬ ∃ r, CellWriteStream.writeChars sixteen [] (-1) = some r ∧
        sixteen.WritesExactly 1 [] (toUInt32 (-1)) r := by
  have hn : CellWriteStream.writeChars sixteen [] (-1) = none := by decide
  refine ⟨hn, by decide, ?_⟩
  intro hex
  obtain ⟨r, hr, -⟩ := hex
  rw [hn] at hr
  cases hr

end CellStream

end CellNet
