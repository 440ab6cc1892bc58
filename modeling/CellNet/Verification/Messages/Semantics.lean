import CellNet.Library.Framing
import CellNet.Verification.Buffer.Semantics

/-! The message loop against the greedy reference parse of the buffered bytes. -/

namespace CellNet

open Library

theorem dataLength_append {xs : List UInt8} (h : 2 ≤ xs.length) (ys : List UInt8) :
    dataLength (xs ++ ys) = dataLength xs := by
  rw [dataLength, dataLength, slice, slice, List.drop_zero, List.drop_zero,
    List.take_append_of_le_length h]

/-- A message is complete once its header and all announced bytes have arrived. -/
def headerFraming : Framing UInt8 where
  frame? xs :=
    if sizeofDataHeader ≤ xs.length ∧ dataLength xs ≤ xs.length then some (dataLength xs)
    else none
  nil := rfl
  le_length := by
    intro xs n h
    split at h
    · next hc => exact Option.some.inj h ▸ hc.2
    · cases h
  stable := by
    intro xs n ys h
    split at h
    · next hc =>
        have h4 : 4 ≤ xs.length := hc.1
        have hd : dataLength (xs ++ ys) = dataLength xs := dataLength_append (by omega) ys
        rw [if_pos ⟨by rw [List.length_append]; exact hc.1.trans (Nat.le_add_right _ _),
          by rw [hd, List.length_append]; exact hc.2.trans (Nat.le_add_right _ _)⟩, hd]
        exact h
    · cases h

theorem frame?_eq_some_iff {xs : List UInt8} {n : ℕ} :
    headerFraming.frame? xs = some n ↔
      4 ≤ xs.length ∧ dataLength xs ≤ xs.length ∧ dataLength xs = n := by
  show (if _ then _ else _) = some n ↔ _
  split
  · next h => simp [h.2, show 4 ≤ xs.length from h.1]
  · next h =>
      simp only [reduceCtorEq, false_iff]
      rintro ⟨h₁, h₂, _⟩
      exact h ⟨h₁, h₂⟩

/-- A message as the loop dispatches it. -/
def announced (f : List UInt8) : Msg :=
  (f.length, f)

namespace CellBuffer

variable {b : CellBuffer}

theorem take_content {n : ℕ} (hn : n ≤ b.nLast.toNat) : b.content.take n = b.pBuff.take n := by
  rw [content, List.take_take, Nat.min_eq_left hn]

theorem dataLength_pBuff (h : b.Valid) (hl : 2 ≤ b.nLast) :
    dataLength b.pBuff = dataLength b.content := by
  have hlen := length_content h
  rw [← List.take_append_drop b.nLast.toNat b.pBuff]
  exact dataLength_append (by rw [← content]; omega) _

theorem hasMsg_eq (h : b.Valid) :
    b.hasMsg = (headerFraming.frame? b.content).isSome := by
  have hlen := length_content h
  obtain ⟨_, hn, hf, hi⟩ := h
  have hm : b.nLast % 2 ^ 64 = b.nLast := Int.emod_eq_of_lt hn (by omega)
  rw [Bool.eq_iff_iff, Option.isSome_iff_exists]
  simp only [frame?_eq_some_iff, hasMsg, hm]
  by_cases hs : (sizeofDataHeader : ℤ) ≤ b.nLast
  · have h4 : 4 ≤ b.nLast := hs
    rw [if_pos hs, decide_eq_true_iff, dataLength_pBuff ⟨‹_›, hn, hf, hi⟩ (by omega)]
    constructor
    · intro hd
      exact ⟨_, by omega, by omega, rfl⟩
    · rintro ⟨_, _, hd, _⟩
      omega
  · have h4 : ¬ 4 ≤ b.nLast := hs
    rw [if_neg hs]
    simp only [Bool.false_eq_true, false_iff]
    rintro ⟨_, hd, _⟩
    omega

end CellBuffer

namespace CellClient

/-- Popping the front message removes exactly the first frame of the held bytes. -/
theorem popFrontMsg_spec {c : CellClient} (h : c.recvBuff.Valid) {n : ℕ}
    (hn : headerFraming.frame? c.recvBuff.content = some n) :
    c.popFrontMsg.recvBuff.Valid ∧ c.popFrontMsg.recvBuff.nSize = c.recvBuff.nSize ∧
      c.popFrontMsg.recvBuff.content = c.recvBuff.content.drop n := by
  have hm : c.hasMsg = true := by rw [hasMsg, CellBuffer.hasMsg_eq h, hn]; rfl
  have hl := CellBuffer.length_content h
  obtain ⟨h4, hd, rfl⟩ := frame?_eq_some_iff.mp hn
  have hp : dataLength c.frontMsg = dataLength c.recvBuff.content :=
    CellBuffer.dataLength_pBuff h (by omega)
  rw [popFrontMsg, if_pos hm, hp]
  obtain ⟨hv, hs, _, hc⟩ :=
    CellBuffer.pop_spec (k := dataLength c.recvBuff.content) h (by omega)
  exact ⟨hv, hs, hc⟩

theorem frontMessage_eq {c : CellClient} (h : c.recvBuff.Valid) {n : ℕ}
    (hn : headerFraming.frame? c.recvBuff.content = some n) :
    frontMessage c = announced (c.recvBuff.content.take n) := by
  have hl := CellBuffer.length_content h
  obtain ⟨h4, hd, rfl⟩ := frame?_eq_some_iff.mp hn
  have hp : dataLength c.frontMsg = dataLength c.recvBuff.content :=
    CellBuffer.dataLength_pBuff h (by omega)
  have ht : c.frontMsg.take (dataLength c.recvBuff.content) =
      c.recvBuff.content.take (dataLength c.recvBuff.content) :=
    (CellBuffer.take_content (by omega)).symm
  rw [frontMessage, hp, ht, announced, List.length_take, Nat.min_eq_left hd]

end CellClient

section Loop

variable {σ : Type*} {onNetMsg : Handler σ}

/-- One iteration hands over the first frame and removes it. -/
theorem msgBody_spec (hk : onNetMsg.KeepsRecv) {x : σ × CellClient} (hv : x.2.recvBuff.Valid)
    {n : ℕ} (hn : headerFraming.frame? x.2.recvBuff.content = some n) :
    (msgBody onNetMsg x).2.recvBuff.Valid ∧
      (msgBody onNetMsg x).2.recvBuff.nSize = x.2.recvBuff.nSize ∧
      (msgBody onNetMsg x).2.recvBuff.content = x.2.recvBuff.content.drop n := by
  have he := hk x.1 x.2 x.2.frontMsg
  have hs := CellClient.popFrontMsg_spec (c := (onNetMsg x.1 x.2 x.2.frontMsg).2)
    (n := n) (he ▸ hv) (he ▸ hn)
  rw [he] at hs
  exact hs

/-- What a finished run of the loop has dispatched is the complete greedy parse of the
bytes held before it, and what it leaves is the unparsed remainder. -/
theorem msgLoop_parses (hk : onNetMsg.KeepsRecv) {fuel : ℕ} {x y : σ × CellClient}
    {ms : List Msg} (h : msgLoop onNetMsg fuel x = some (ms, y)) (hv : x.2.recvBuff.Valid) :
    y.2.recvBuff.Valid ∧ y.2.recvBuff.nSize = x.2.recvBuff.nSize ∧
      ∃ fs, ms = fs.map announced ∧
        headerFraming.Parses x.2.recvBuff.content fs y.2.recvBuff.content := by
  induction fuel generalizing x ms with
  | zero => cases h
  | succ fuel ih =>
      have ht := CellBuffer.hasMsg_eq hv
      rw [msgLoop] at h
      cases hn : headerFraming.frame? x.2.recvBuff.content with
      | none =>
          have hf : x.2.hasMsg = false := by rw [CellClient.hasMsg, ht, hn]; rfl
          rw [hf, if_neg (by simp)] at h
          cases h
          exact ⟨hv, rfl, [], rfl, .nil _, hn⟩
      | some n =>
          have hf : x.2.hasMsg = true := by rw [CellClient.hasMsg, ht, hn]; rfl
          rw [if_pos hf, Option.map_eq_some_iff] at h
          obtain ⟨⟨ns, z⟩, hr, he⟩ := h
          obtain ⟨rfl, rfl⟩ := Prod.mk.inj he
          obtain ⟨hbv, hbs, hbc⟩ := msgBody_spec hk hv hn
          obtain ⟨hyv, hys, fs, hfs, hc, hrest⟩ := ih hr hbv
          refine ⟨hyv, hys.trans hbs, x.2.recvBuff.content.take n :: fs, ?_, ?_, hrest⟩
          · rw [List.map_cons, ← CellClient.frontMessage_eq hv hn]
            exact congrArg _ hfs
          · exact .cons hn (hbc ▸ hc)

/-- Enough fuel finishes the loop whenever the greedy parse completes. -/
theorem exists_msgLoop (hk : onNetMsg.KeepsRecv) {xs r : List UInt8} {fs : List (List UInt8)}
    (hp : headerFraming.Parses xs fs r) {x : σ × CellClient} (hv : x.2.recvBuff.Valid)
    (hx : x.2.recvBuff.content = xs) {fuel : ℕ} (hf : fs.length < fuel) :
    ∃ y, msgLoop onNetMsg fuel x = some (fs.map announced, y) := by
  obtain ⟨hc, hr⟩ := hp
  induction hc generalizing x fuel with
  | nil xs =>
      cases fuel with
      | zero => omega
      | succ fuel =>
          have hm : x.2.hasMsg = false := by
            rw [CellClient.hasMsg, CellBuffer.hasMsg_eq hv, hx, hr]; rfl
          exact ⟨x, by rw [msgLoop, hm]; rfl⟩
  | @cons xs n fs rest hn _ ih =>
      cases fuel with
      | zero => omega
      | succ fuel =>
          subst hx
          have hm : x.2.hasMsg = true := by
            rw [CellClient.hasMsg, CellBuffer.hasMsg_eq hv, hn]; rfl
          obtain ⟨hbv, _, hbc⟩ := msgBody_spec hk hv hn
          simp only [List.length_cons] at hf
          have hf' : fs.length < fuel := by omega
          obtain ⟨y, hy⟩ := ih hbv hbc hf' hr
          refine ⟨y, ?_⟩
          rw [msgLoop, if_pos hm, hy, List.map_cons, ← CellClient.frontMessage_eq hv hn]
          rfl

end Loop

end CellNet
