import CellNet.Model.EasyTcpClient
import CellNet.Verification.Buffer.Semantics

/-! Which lengths `push` admits, in exact arithmetic: its test adds two `int`s, and a negative
length passes it. -/

namespace CellNet

open Library

namespace CellBuffer

variable {b : CellBuffer} {pData : List UInt8} {nLen : ℤ}

/-- The bytes are admitted exactly when they fit, are then appended, and otherwise nothing but
the count of refusals changes. -/
structure PushesExactly (b : CellBuffer) (pData : List UInt8) (nLen : ℤ) (r : CellBuffer × Bool) :
    Prop where
  admits : r.2 = true ↔ 0 ≤ nLen ∧ nLen ≤ b.nSize - b.nLast
  appended : r.2 = true → r.1.nLast = b.nLast + nLen ∧
    r.1.content = b.content ++ pData.take nLen.toNat
  refused : r.2 = false → r.1.nLast = b.nLast ∧ r.1.pBuff = b.pBuff
  inside : 0 ≤ r.1.nLast ∧ r.1.nLast ≤ r.1.nSize

theorem pushesExactly_of_fits (h : b.Valid) (hp : nLen ≤ pData.length) (h0 : 0 ≤ nLen)
    (ho : b.nLast + nLen ≤ 2147483647) :
    ∃ r, b.push pData nLen = some r ∧ b.PushesExactly pData nLen r := by
  lift nLen to ℕ using h0
  have hl : (pData.take nLen).length = nLen := by
    simp only [List.length_take]
    omega
  rw [push_take b (by omega)]
  by_cases hs : b.nLast + (pData.take nLen).length ≤ b.nSize
  · obtain ⟨b', hb, hv, hz, hc⟩ := push_spec h (pData.take nLen) (by omega)
    rw [decide_eq_true hs] at hb
    rw [if_pos hs] at hc
    have hn : b'.nLast = b.nLast + nLen := by
      have h₁ := length_content h
      have h₂ := length_content hv
      rw [hc, List.length_append] at h₂
      omega
    refine ⟨_, hb, ?_, fun _ => ⟨hn, hc⟩, nofun, hv.nonneg, hv.fits⟩
    simp only [true_iff]
    omega
  · have hr : b.push (pData.take nLen) (pData.take nLen).length = _ :=
      push_reject h (by omega) (by omega)
    refine ⟨_, hr, ?_, nofun, fun _ => ⟨rfl, rfl⟩, h.nonneg, h.fits⟩
    simp only [Bool.false_eq_true, false_iff]
    omega

/-- A negative length passes the test and is a huge one for `memcpy`. -/
theorem push_negative (h : b.Valid) (hn : nLen < 0) (hi : -2147483648 ≤ nLen) :
    b.push pData nLen = none := by
  have h0 := h.nonneg
  have hf := h.fits
  have h32 := h.int32
  have hw : wrap32 (b.nLast + nLen) = b.nLast + nLen := wrap32_eq (by omega) (by omega)
  have hle : b.nLast + nLen ≤ b.nSize := by omega
  have hm : memcpy b.pBuff b.nLast pData nLen = none := by
    apply if_neg
    omega
  simp [push, hw, hle, hm]

theorem push_past_int (h : b.Valid) (hp : nLen ≤ pData.length) (hi : nLen ≤ 2147483647)
    (ho : 2147483647 < b.nLast + nLen) : b.push pData nLen = none := by
  have hf := h.fits
  have h32 := h.int32
  lift nLen to ℕ using by omega
  have hl : (pData.take nLen).length = nLen := by
    simp only [List.length_take]
    omega
  rw [push_take b (by omega)]
  exact push_overflow h _ (by omega) (by omega)

/-- The lengths with which `push` is defined. -/
theorem push_isSome_iff (h : b.Valid) (hlo : -2147483648 ≤ nLen) (hhi : nLen ≤ 2147483647)
    (hp : nLen ≤ pData.length) :
    (∃ r, b.push pData nLen = some r) ↔ 0 ≤ nLen ∧ b.nLast + nLen ≤ 2147483647 := by
  constructor
  · rintro ⟨r, hr⟩
    by_contra hc
    by_cases h0 : 0 ≤ nLen
    · rw [push_past_int h hp hhi (by omega)] at hr
      cases hr
    · rw [push_negative h (by omega) hlo] at hr
      cases hr
  · rintro ⟨h0, ho⟩
    exact (pushesExactly_of_fits h hp h0 ho).imp fun r hr => hr.1

end CellBuffer

/-! ### Through the callers -/

/-- What `SendData` leaves and answers, given what `push` did. -/
def CellClient.sent (c : CellClient) (len : ℤ) (r : CellBuffer × Bool) : CellClient × ℤ :=
  ({ c with sendBuff := r.1 }, if r.2 then len else SOCKET_ERROR)

theorem CellClient.sendData_eq (c : CellClient) (pData : List UInt8) (len : ℤ) :
    c.sendData pData len = (c.sendBuff.push pData len).map (c.sent len) := by
  rw [sendData]
  cases c.sendBuff.push pData len <;> rfl

variable {σ : Type*} {e : EasyTcpClient σ} {c : CellClient}

/-- What the exported function leaves and answers. -/
def EasyTcpClient.sent (e : EasyTcpClient σ) (r : CellClient × ℤ) :
    Option (EasyTcpClient σ) × ℤ :=
  (some { e with pClient := some r.1 }, r.2)

/-- The exported function passes its length on without a check. -/
theorem cellClient_SendData_eq (hc : e.pClient = some c) (hr : e.isConnect = true)
    (data : List UInt8) (len : ℤ) :
    cellClient_SendData (some e) data len =
      (c.sendBuff.push data len).map fun r => e.sent (c.sent len r) := by
  have hrun : e.isRun = true := by simp [EasyTcpClient.isRun, hc, hr]
  simp only [cellClient_SendData, EasyTcpClient.sendData, hrun, if_true, hc, Option.bind_some,
    CellClient.sendData_eq, Option.map_map]
  rfl

/-- A call that answers as `f` says, by a push that was exact. -/
def AnswersExactly {α : Type*} (c : CellClient) (data : List UInt8) (len : ℤ) (call : Option α)
    (f : CellBuffer × Bool → α) : Prop :=
  ∃ r, call = some (f r) ∧ c.sendBuff.PushesExactly data len r

theorem answersExactly_iff {α : Type*} (h : c.sendBuff.Valid) {data : List UInt8} {len : ℤ}
    (hlo : -2147483648 ≤ len) (hhi : len ≤ 2147483647) (hp : len ≤ data.length)
    (f : CellBuffer × Bool → α) :
    AnswersExactly c data len ((c.sendBuff.push data len).map f) f ↔
      0 ≤ len ∧ c.sendBuff.nLast + len ≤ 2147483647 := by
  constructor
  · rintro ⟨r, hr, -⟩
    obtain ⟨r', hr', -⟩ := Option.map_eq_some_iff.mp hr
    exact (CellBuffer.push_isSome_iff h hlo hhi hp).mp ⟨r', hr'⟩
  · rintro ⟨h0, ho⟩
    obtain ⟨r, hr, he⟩ := CellBuffer.pushesExactly_of_fits h hp h0 ho
    exact ⟨r, by rw [hr, Option.map_some], he⟩

/-- For every `int` length, `push` admits exactly what fits, and so do `SendData` and the
exported function, if and only if the length is not negative and the sum is an `int`. -/
theorem sends_exactly_iff (h : c.sendBuff.Valid) {data : List UInt8} {len : ℤ}
    (hlo : -2147483648 ≤ len) (hhi : len ≤ 2147483647) (hp : len ≤ data.length) :
    (AnswersExactly c data len (c.sendBuff.push data len) id ↔
      0 ≤ len ∧ c.sendBuff.nLast + len ≤ 2147483647) ∧
    (AnswersExactly c data len (c.sendData data len) (c.sent len) ↔
      0 ≤ len ∧ c.sendBuff.nLast + len ≤ 2147483647) ∧
    ∀ e : EasyTcpClient σ, e.pClient = some c → e.isConnect = true →
      (AnswersExactly c data len (cellClient_SendData (some e) data len)
          (fun r => e.sent (c.sent len r)) ↔
        0 ≤ len ∧ c.sendBuff.nLast + len ≤ 2147483647) := by
  refine ⟨?_, ?_, fun e hc hr => ?_⟩
  · have hid : c.sendBuff.push data len = (c.sendBuff.push data len).map id := by simp
    rw [hid]
    exact answersExactly_iff h hlo hhi hp id
  · rw [CellClient.sendData_eq]
    exact answersExactly_iff h hlo hhi hp (c.sent len)
  · rw [cellClient_SendData_eq hc hr]
    exact answersExactly_iff h hlo hhi hp _

/-- A connected client with a send buffer of eight bytes. -/
def eightBytes : CellClient := .new 0 5 (.new 8 (List.replicate 8 0)) (.new 0 [])

theorem eightBytes_valid : eightBytes.sendBuff.Valid :=
  CellBuffer.valid_new (by decide) (by decide)

theorem sends_exactly_four :
    AnswersExactly eightBytes [1, 2, 3, 4] 4
      (cellClient_SendData (some ⟨some eightBytes, true, ()⟩) [1, 2, 3, 4] 4)
      (fun r => EasyTcpClient.sent ⟨some eightBytes, true, ()⟩ (eightBytes.sent 4 r)) :=
  ((sends_exactly_iff eightBytes_valid (by decide) (by decide) (by decide)).2.2
    ⟨some eightBytes, true, ()⟩ rfl rfl).mpr (by decide)

/-- A negative length reaches `memcpy`, where nothing should be sent. -/
theorem sends_negative :
    cellClient_SendData (some ⟨some eightBytes, true, ()⟩) [] (-1) = none ∧
      ∀ f, ¬ AnswersExactly eightBytes [] (-1)
        (cellClient_SendData (some ⟨some eightBytes, true, ()⟩) [] (-1)) f := by
  have hn : cellClient_SendData (some ⟨some eightBytes, true, ()⟩) [] (-1) = none := by
    rw [cellClient_SendData_eq rfl rfl, CellBuffer.push_negative eightBytes_valid] <;> decide
  refine ⟨hn, fun f hf => ?_⟩
  obtain ⟨r, hr, -⟩ := hf
  rw [hn] at hr
  cases hr

end CellNet
