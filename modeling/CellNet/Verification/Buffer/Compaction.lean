import CellNet.Model.Compaction
import CellNet.Verification.Buffer.Admission

/-! The copies of a buffer stay inside its block; their ranges are apart exactly when what is
consumed is at least what remains. -/

namespace CellNet

open Library

/-! ### One copy to the front -/

theorem Copy.front_inside {k nLast nSize : ℤ} (h0 : 0 ≤ k) (hk : k ≤ nLast) (hs : nLast ≤ nSize) :
    Copy.Inside ⟨0, k, nLast - k⟩ nSize := by
  simp only [Copy.Inside]
  omega

theorem Copy.front_apart_iff {k nLast : ℤ} (h0 : 0 ≤ k) (hk : k < nLast) :
    Copy.Apart ⟨0, k, nLast - k⟩ ↔ nLast ≤ 2 * k := by
  have hpos : ¬ k + (nLast - k) ≤ 0 := by omega
  simp only [Copy.Apart, hpos, or_false]
  omega

namespace CellBuffer

variable {b : CellBuffer} {c : Copy}

/-! The model moves the bytes by exactly these copies. -/

/-- The block after a copy that may not take place. -/
def moved (b : CellBuffer) (o : Option Copy) : List UInt8 :=
  (o.map fun c => c.perform b.pBuff).getD b.pBuff

theorem pop_pBuff (b : CellBuffer) (nLen : ℤ) : (b.pop nLen).pBuff = b.moved (b.popCopy nLen) := by
  unfold pop popCopy moved
  dsimp only
  split
  · rfl
  · rfl

theorem write2socket_pBuff (b : CellBuffer) (sockfd : SOCKET) (ret : ℤ) :
    (b.write2socket sockfd ret).1.pBuff = b.moved (b.write2socketCopy sockfd ret) := by
  unfold write2socket write2socketCopy moved
  by_cases hc : b.nLast > 0 ∧ INVALID_SOCKET ≠ sockfd
  · rw [if_pos hc, if_pos hc]
    by_cases hr : ret ≤ 0
    · rw [if_pos hr, if_pos hr]
      rfl
    · rw [if_neg hr, if_neg hr]
      split
      · rfl
      · rfl
  · rw [if_neg hc, if_neg hc]
    rfl

theorem write2Iocp_pBuff (b : CellBuffer) (nSend : ℤ) :
    (b.write2Iocp nSend).1.pBuff = b.moved (b.write2IocpCopy nSend) := by
  unfold write2Iocp write2IocpCopy moved
  by_cases hl : b.nLast < nSend
  · rw [if_pos hl, if_pos hl]
    rfl
  · rw [if_neg hl, if_neg hl]
    split
    · rfl
    · rfl

/-! ### The buffer stays valid -/

theorem announced_le (h : b.hasMsg) : (dataLength b.data : ℤ) ≤ b.nLast := by
  unfold hasMsg at h
  split at h
  · exact of_decide_eq_true h
  · cases h

/-- The block and its size are still what they were announced to be. -/
def Keeps (b b' : CellBuffer) : Prop :=
  b'.Valid ∧ b'.nSize = b.nSize

theorem popFrontMsg_keeps (h : b.Valid) : b.Keeps b.popFrontMsg := by
  unfold popFrontMsg
  split
  · next hm =>
      have hp := pop_spec h (announced_le hm)
      exact ⟨hp.1, hp.2.1⟩
  · exact ⟨h, rfl⟩

theorem push_keeps (h : b.Valid) {pData : List UInt8} {nLen : ℤ} {r : CellBuffer × Bool}
    (hp : nLen ≤ pData.length) (hlo : -2147483648 ≤ nLen) (hhi : nLen ≤ 2147483647)
    (hr : b.push pData nLen = some r) : b.Keeps r.1 := by
  obtain ⟨h0, ho⟩ := (push_isSome_iff h hlo hhi hp).mp ⟨r, hr⟩
  lift nLen to ℕ using h0
  have hl : (pData.take nLen).length = nLen := by
    simp only [List.length_take]
    omega
  rw [push_take b (by omega)] at hr
  obtain ⟨b', hb, hv, hz, -⟩ := push_spec h (pData.take nLen) (by omega)
  obtain rfl := Option.some.inj (hb.symm.trans hr)
  exact ⟨hv, hz⟩

theorem receive_keeps (h : b.Valid) {off : ℕ} {bytes : List UInt8}
    (hf : (off + bytes.length : ℤ) ≤ b.nSize) :
    b.Keeps { b with pBuff := blit b.pBuff off bytes } := by
  have hb := h.block
  refine ⟨⟨?_, h.nonneg, h.fits, h.int32⟩, rfl⟩
  dsimp only
  rw [length_blit (by omega), hb]

theorem read4Iocp_keeps (h : b.Valid) (nRecv : ℤ) : b.Keeps (b.read4Iocp nRecv).1 := by
  have hn := h.nonneg
  have hf := h.fits
  unfold read4Iocp
  split
  · next hr =>
      refine ⟨⟨h.block, ?_, ?_, h.int32⟩, rfl⟩
      · dsimp only
        omega
      · dsimp only
        omega
  · exact ⟨h, rfl⟩

theorem write2Iocp_keeps (h : b.Valid) {nSend : ℤ} (hs : 0 < nSend) :
    b.Keeps (b.write2Iocp nSend).1 := by
  obtain ⟨hb, hn, hf, hi⟩ := h
  unfold write2Iocp
  split
  · exact ⟨⟨hb, hn, hf, hi⟩, rfl⟩
  · split
    · exact ⟨⟨hb, le_rfl, hn.trans hf, hi⟩, rfl⟩
    · refine ⟨⟨?_, ?_, ?_, hi⟩, rfl⟩
      · dsimp only
        rw [length_compact (by omega) (by omega) (by omega), hb]
      · dsimp only
        omega
      · dsimp only
        omega

/-! ### The copy at each site -/

theorem popFrontMsgCopy_spec (h : b.Valid) :
    (∀ c ∈ b.popFrontMsgCopy, c.Inside b.nSize) ∧
      ((∀ c ∈ b.popFrontMsgCopy, c.Apart) ↔
        (b.hasMsg → b.nLast ≤ 2 * dataLength b.data)) := by
  unfold popFrontMsgCopy
  by_cases hm : b.hasMsg = true
  · have hle := announced_le hm
    rw [if_pos hm]
    unfold popCopy
    dsimp only
    by_cases hn : b.nLast - (dataLength b.data : ℤ) > 0
    · rw [if_pos hn]
      simp only [Option.mem_some_iff, forall_eq', hm, forall_true_left]
      exact ⟨Copy.front_inside (by omega) hle h.fits,
        Copy.front_apart_iff (by omega) (by omega)⟩
    · rw [if_neg hn]
      simp only [Option.not_mem_none, false_implies, implies_true, true_and, true_iff]
      omega
  · rw [if_neg hm]
    simp [hm]

theorem write2socketCopy_spec (h : b.Valid) (sockfd : SOCKET) {ret : ℤ} (hr : ret ≤ b.nLast) :
    (∀ c ∈ b.write2socketCopy sockfd ret, c.Inside b.nSize) ∧
      ((∀ c ∈ b.write2socketCopy sockfd ret, c.Apart) ↔
        (INVALID_SOCKET ≠ sockfd → 0 < ret → b.nLast ≤ 2 * ret)) := by
  unfold write2socketCopy
  by_cases hc : b.nLast > 0 ∧ INVALID_SOCKET ≠ sockfd
  · rw [if_pos hc]
    by_cases hz : ret ≤ 0
    · rw [if_pos hz]
      simp only [Option.not_mem_none, false_implies, implies_true, true_and, true_iff]
      omega
    · rw [if_neg hz]
      by_cases he : ret = b.nLast
      · rw [if_pos he]
        simp only [Option.not_mem_none, false_implies, implies_true, true_and, true_iff]
        omega
      · rw [if_neg he]
        have hpos : 0 < ret := by omega
        simp only [Option.mem_some_iff, forall_eq', hc.2, hpos, forall_true_left, ne_eq,
          not_false_eq_true]
        exact ⟨Copy.front_inside (by omega) hr h.fits,
          Copy.front_apart_iff (by omega) (by omega)⟩
  · rw [if_neg hc]
    simp only [Option.not_mem_none, false_implies, implies_true, true_and, true_iff]
    intro hs hpos
    have hn : ¬ b.nLast > 0 := fun hn => hc ⟨hn, hs⟩
    omega

theorem write2IocpCopy_spec (h : b.Valid) {nSend : ℤ} (hs : 0 < nSend) :
    (∀ c ∈ b.write2IocpCopy nSend, c.Inside b.nSize) ∧
      ((∀ c ∈ b.write2IocpCopy nSend, c.Apart) ↔
        (nSend ≤ b.nLast → b.nLast ≤ 2 * nSend)) := by
  unfold write2IocpCopy
  by_cases hl : b.nLast < nSend
  · rw [if_pos hl]
    simp only [Option.not_mem_none, false_implies, implies_true, true_and, true_iff]
    omega
  · rw [if_neg hl]
    by_cases he : nSend = b.nLast
    · rw [if_pos he]
      simp only [Option.not_mem_none, false_implies, implies_true, true_and, true_iff]
      omega
    · rw [if_neg he]
      have hle : nSend ≤ b.nLast := by omega
      simp only [Option.mem_some_iff, forall_eq', hle, forall_true_left]
      exact ⟨Copy.front_inside (by omega) hle h.fits,
        Copy.front_apart_iff (by omega) (by omega)⟩

end CellBuffer

/-! ### Runs -/

/-- The copy that a call makes. -/
def BufferEvent.copy (b : CellBuffer) : BufferEvent → Option Copy
  | .popFrontMsg => b.popFrontMsgCopy
  | .write2socket sockfd ret => b.write2socketCopy sockfd ret
  | .write2Iocp nSend => b.write2IocpCopy nSend
  | _ => none

namespace BufferRun

variable {s s' s₀ : BufferRun} {e : BufferEvent} {ls : List BufferEvent} {c : Copy}

theorem next_copies (h : s.next e = some s') :
    s'.copies = (e.copy s.buff).toList ++ s.copies := by
  cases e with
  | push pData nLen =>
      obtain ⟨r, -, rfl⟩ := Option.map_eq_some_iff.mp h
      rfl
  | read4socket recv => cases h; rfl
  | receive off bytes => cases h; rfl
  | read4Iocp nRecv => cases h; rfl
  | popFrontMsg => cases h; rfl
  | write2socket sockfd ret => cases h; rfl
  | write2Iocp nSend => cases h; rfl

theorem next_keeps (h : s.buff.Valid) (ha : Answers s.buff e) (hn : s.next e = some s') :
    s.buff.Keeps s'.buff := by
  cases e with
  | push pData nLen =>
      obtain ⟨r, hr, rfl⟩ := Option.map_eq_some_iff.mp hn
      exact CellBuffer.push_keeps h ha.1 ha.2.1 ha.2.2 hr
  | read4socket recv =>
      obtain rfl := Option.some.inj hn
      have hr := CellBuffer.read4socket_spec h recv ha
      exact ⟨hr.1, hr.2.1⟩
  | receive off bytes =>
      obtain rfl := Option.some.inj hn
      exact CellBuffer.receive_keeps h ha
  | read4Iocp nRecv =>
      obtain rfl := Option.some.inj hn
      exact CellBuffer.read4Iocp_keeps h nRecv
  | popFrontMsg =>
      obtain rfl := Option.some.inj hn
      exact CellBuffer.popFrontMsg_keeps h
  | write2socket sockfd ret =>
      obtain rfl := Option.some.inj hn
      have hw := CellBuffer.write2socket_spec h sockfd ha
      exact ⟨hw.1, hw.2.1⟩
  | write2Iocp nSend =>
      obtain rfl := Option.some.inj hn
      exact CellBuffer.write2Iocp_keeps h ha

/-- The copy of a call is inside the block, and its ranges are apart exactly when the call
consumes at least half. -/
theorem copy_spec (h : s.buff.Valid) (ha : Answers s.buff e) :
    (∀ c ∈ e.copy s.buff, c.Inside s.buff.nSize) ∧
      ((∀ c ∈ e.copy s.buff, c.Apart) ↔ Halves s e) := by
  have hnone : (∀ c ∈ (none : Option Copy), c.Inside s.buff.nSize) ∧
      ((∀ c ∈ (none : Option Copy), c.Apart) ↔ True) := by
    simp
  cases e with
  | push pData nLen => exact hnone
  | read4socket recv => exact hnone
  | receive off bytes => exact hnone
  | read4Iocp nRecv => exact hnone
  | popFrontMsg => exact CellBuffer.popFrontMsgCopy_spec h
  | write2socket sockfd ret => exact CellBuffer.write2socketCopy_spec h sockfd ha
  | write2Iocp nSend => exact CellBuffer.write2IocpCopy_spec h ha

/-- One step adds copies that are inside the block, and apart as far as it consumes enough. -/
theorem step_copies (h : s.buff.Valid) (hs : system.step s e s') :
    ((∀ c ∈ s'.copies, c.Inside s'.buff.nSize) ↔ ∀ c ∈ s.copies, c.Inside s.buff.nSize) ∧
      ((∀ c ∈ s'.copies, c.Apart) ↔ Halves s e ∧ ∀ c ∈ s.copies, c.Apart) := by
  obtain ⟨hinside, hapart⟩ := copy_spec h hs.1
  rw [next_copies hs.2, (next_keeps h hs.1 hs.2).2, ← hapart]
  simp only [List.forall_mem_append, Option.mem_toList]
  exact ⟨and_iff_right hinside, Iff.rfl⟩

/-- From a valid buffer on, the copies of a run are apart exactly when each call consumes enough. -/
theorem path_copies (hp : system.Path s ls s') (h : s.buff.Valid)
    (hin : ∀ c ∈ s.copies, c.Inside s.buff.nSize) :
    (∀ c ∈ s'.copies, c.Inside s'.buff.nSize) ∧
      ((∀ c ∈ s'.copies, c.Apart) ↔
        (system.guard Halves).Path s ls s' ∧ ∀ c ∈ s.copies, c.Apart) := by
  induction hp with
  | nil s => exact ⟨hin, ⟨fun ha => ⟨.nil s, ha⟩, fun ha => ha.2⟩⟩
  | @cons s u t e ls hs hp ih =>
      obtain ⟨hstep, hapart⟩ := step_copies h hs
      obtain ⟨hinside, hiff⟩ := ih (next_keeps h hs.1 hs.2).1 (hstep.mpr hin)
      refine ⟨hinside, hiff.trans ?_⟩
      rw [hapart]
      constructor
      · intro hr
        exact ⟨.cons ⟨hr.2.1, hs⟩ hr.1, hr.2.2⟩
      · intro hr
        obtain ⟨hg, hold⟩ := hr
        cases hg with
        | @cons _ u' _ _ _ hs' hg =>
            obtain rfl := Option.some.inj (hs.2.symm.trans hs'.2.2)
            exact ⟨hg, hs'.1, hold⟩

/-- In a run from a new buffer every copy stays inside the block. The copies do not overlap exactly
when each call of the run that moves bytes has consumed at least half of what was held. -/
theorem copies_apart_iff (h₀ : system.init s₀) (hp : system.Path s₀ ls s) :
    (∀ c ∈ s.copies, c.Inside s.buff.nSize) ∧
      ((∀ c ∈ s.copies, c.Apart) ↔ (system.guard Halves).Path s₀ ls s) := by
  obtain ⟨nSize, block, hb, hs, rfl⟩ := h₀
  have hnil : ∀ P : Copy → Prop, ∀ c ∈ ([] : List Copy), P c := by simp
  obtain ⟨hinside, hiff⟩ := path_copies hp (CellBuffer.valid_new hb hs) (hnil _)
  exact ⟨hinside, hiff.trans (and_iff_left (hnil _))⟩

/-- A buffer of 16 bytes. -/
def fresh : BufferRun :=
  ⟨.new 16 (List.replicate 16 0), []⟩

theorem fresh_init : system.init fresh :=
  ⟨16, List.replicate 16 0, rfl, by decide, rfl⟩

/-- Two messages of four bytes, of which the first is taken out. -/
theorem copies_apart_two_messages : ∃ s, (system.guard Halves).Path fresh
    [.read4socket (some [4, 0, 6, 0, 4, 0, 6, 0]), .popFrontMsg] s ∧
      s.copies = [⟨0, 4, 4⟩] ∧ (⟨0, 4, 4⟩ : Copy).Inside 16 := by
  have hfit : Answers fresh.buff (.read4socket (some [4, 0, 6, 0, 4, 0, 6, 0])) := by
    simp [Answers, fresh, CellBuffer.new]
  have hp : system.Path fresh [.read4socket (some [4, 0, 6, 0, 4, 0, 6, 0]), .popFrontMsg] _ :=
    .cons ⟨hfit, rfl⟩ (.single ⟨trivial, rfl⟩)
  obtain ⟨hinside, hiff⟩ := copies_apart_iff fresh_init hp
  exact ⟨_, hiff.mp (by decide), by decide, hinside _ (by decide)⟩

/-- Of 12 bytes the call takes 4, and moves the other 8 onto themselves. -/
def Overlaps (e : BufferEvent) : Prop :=
  ∃ s, system.Path fresh [.push [4, 0, 6, 0, 8, 0, 6, 0, 1, 2, 3, 4] 12, e] s ∧
    s.copies = [⟨0, 4, 8⟩] ∧ ¬ (⟨0, 4, 8⟩ : Copy).Apart

/-- Each of the three sites. -/
theorem copies_overlap : system.init fresh ∧ Overlaps .popFrontMsg ∧
    Overlaps (.write2socket 3 4) ∧ Overlaps (.write2Iocp 4) := by
  have hpush : system.step fresh (.push [4, 0, 6, 0, 8, 0, 6, 0, 1, 2, 3, 4] 12) _ :=
    ⟨⟨by decide, by decide, by decide⟩, rfl⟩
  have hle : (4 : ℤ) ≤ 12 := by decide
  have hpos : (0 : ℤ) < 4 := by decide
  refine ⟨fresh_init, ?_, ?_, ?_⟩
  · exact ⟨_, .cons hpush (.single ⟨trivial, rfl⟩), by decide, by decide⟩
  · exact ⟨_, .cons hpush (.single ⟨hle, rfl⟩), by decide, by decide⟩
  · exact ⟨_, .cons hpush (.single ⟨hpos, rfl⟩), by decide, by decide⟩

end BufferRun

end CellNet
