import CellNet.Verification.Stream.Semantics

/-! A message stream read back. Writes may fail anywhere in between; the reader asks for
the fields whose write succeeded and gets each of them back. -/

namespace CellNet

open Library CellStream

/-- What a program may try to write; arrays are short enough for an `int` byte count. -/
inductive Field where
  | scalar (w : ℕ) (hw : w ≤ 8) (v : BitVec (8 * w))
  | array (size len : ℕ) (pData : List UInt8) (hpos : 0 < size)
      (hdata : pData.length = size * len) (hlen : 4 + size * len < 2 ^ 31)

/-- A read of a type; `n` and `pArr` are what its destination holds before. -/
inductive Request where
  | scalar (w n : ℕ)
  | array (size : ℕ) (pArr : List UInt8) (cap : ℕ)

inductive Answer where
  | scalar (n : ℕ) (ok : Bool)
  | array (pArr : List UInt8) (count : ℕ)
deriving Repr, DecidableEq

namespace Field

def write : Field → CellStream → Option (CellStream × Bool)
  | .scalar w _ v, s => s.write w v.toNat
  | .array size len pData _ _ _, s => s.writeArray size pData len

def bytes : Field → List UInt8
  | .scalar w _ v => encodeLE w v.toNat
  | .array _ len pData _ _ _ => encodeLE 4 len ++ pData

/-- The request asks for the type of the field, with room for it, and the answer is the
field's value. -/
inductive Returns : Field → Request → Answer → Prop where
  | scalar {w hw v n} : Returns (.scalar w hw v) (.scalar w n) (.scalar v.toNat true)
  | array {size len pData hpos hdata hlen pArr cap} : len ≤ cap → pArr.length = size * cap →
      Returns (.array size len pData hpos hdata hlen) (.array size pArr cap)
        (.array (pData ++ pArr.drop pData.length) len)

end Field

def Request.read : Request → CellStream → Option (CellStream × Answer)
  | .scalar w n, s => (s.read w n).map fun r => (r.1, .scalar r.2.1 r.2.2)
  | .array size pArr cap, s => (s.readArray size pArr cap).map fun r => (r.1, .array r.2.1 r.2.2)

/-- All writes in turn, with the fields whose write returned true. -/
def writeAll : List Field → CellStream → Option (CellStream × List Field)
  | [], s => some (s, [])
  | f :: fs, s => do
      let r ← f.write s
      let t ← writeAll fs r.1
      some (t.1, if r.2 then f :: t.2 else t.2)

def readAll : List Request → CellStream → Option (CellStream × List Answer)
  | [], s => some (s, [])
  | q :: qs, s => do
      let r ← q.read s
      let t ← readAll qs r.1
      some (t.1, r.2 :: t.2)

/-- Request by request, the reads return the fields. -/
inductive ReturnAll : List Field → List Request → List Answer → Prop where
  | nil : ReturnAll [] [] []
  | cons {f q a fs qs as} : f.Returns q a → ReturnAll fs qs as →
      ReturnAll (f :: fs) (q :: qs) (a :: as)

variable {s : CellStream}

/-! ### The writer -/

/-- A write appends all bytes of its field, or returns false and changes nothing. -/
theorem Field.write_spec (h : s.Valid) (f : Field) :
    f.write s = some (if s.nWritePos + f.bytes.length ≤ s.nSize then (s.append f.bytes, true)
      else (s, false)) := by
  cases f with
  | scalar w hw v =>
      have hl : (Field.scalar w hw v).bytes.length = w := length_encodeLE w v.toNat
      rw [hl]
      by_cases hf : s.nWritePos + w ≤ s.nSize
      · rw [if_pos hf]
        exact write_accept h hf _
      · rw [if_neg hf]
        exact write_reject h (by omega) (by omega) _
  | array size len pData hpos hdata hlen =>
      have hl : (Field.array size len pData hpos hdata hlen).bytes.length = 4 + size * len := by
        rw [bytes, List.length_append, length_encodeLE, hdata]
      rw [hl]
      by_cases hf : s.nWritePos + (4 + size * len : ℕ) ≤ s.nSize
      · rw [if_pos hf, write, writeArray_accept h hdata.ge (by omega)]
        rw [← hdata, List.take_length, append_append h]
        rfl
      · rw [if_neg hf, write]
        refine writeArray_reject h ?_
        have hm : size * len % 2 ^ 64 = size * len := Nat.mod_eq_of_lt (by omega)
        have hm' : (size * len + 4) % 2 ^ 64 = size * len + 4 := Nat.mod_eq_of_lt (by omega)
        rw [hm, hm', wrap32_eq (by omega) (by omega)]
        omega

theorem writeAll_spec (h : s.Valid) (fs : List Field) :
    ∃ t gs, writeAll fs s = some (t, gs) ∧ t.Valid ∧ t.nSize = s.nSize ∧
      t.pBuff.length = s.pBuff.length ∧ t.nReadPos = s.nReadPos ∧
      t.written = s.written ++ gs.flatMap Field.bytes := by
  induction fs generalizing s with
  | nil => exact ⟨s, [], rfl, h, rfl, rfl, rfl, by simp⟩
  | cons f fs ih =>
      have hw := f.write_spec h
      by_cases hf : s.nWritePos + f.bytes.length ≤ s.nSize
      · rw [if_pos hf] at hw
        obtain ⟨t, gs, ht, hv, hs, hl, hr, hb⟩ := ih (append_valid h hf)
        refine ⟨t, f :: gs, ?_, hv, hs, hl.trans (length_append h hf), hr, ?_⟩
        · simp [writeAll, hw, ht]
        · rw [hb, written_append h, List.flatMap_cons, List.append_assoc]
      · rw [if_neg hf] at hw
        obtain ⟨t, gs, ht, hv, hs, hl, hr, hb⟩ := ih h
        exact ⟨t, gs, by simp [writeAll, hw, ht], hv, hs, hl, hr, hb⟩

/-! ### The reader -/

theorem Field.Returns.read_spec {f : Field} {q : Request} {a : Answer} (hq : f.Returns q a)
    (h : s.Valid) {rest : List UInt8} (hu : s.unread = f.bytes ++ rest) :
    q.read s = some (s.skip f.bytes.length, a) := by
  cases hq with
  | @scalar w hw v n =>
      have hl : (Field.scalar w hw v).bytes.length = w := length_encodeLE w v.toNat
      have hlen : w ≤ s.unread.length := by
        rw [hu, List.length_append, hl]
        omega
      have hv : v.toNat < 256 ^ w := by
        have := v.isLt
        rwa [Nat.pow_mul] at this
      have ht : s.unread.take w = encodeLE w v.toNat := by rw [hu, List.take_left' hl]; rfl
      rw [Request.read, read_accept h hlen, ht, decodeLE_encodeLE, Nat.mod_eq_of_lt hv, hl]
      rfl
  | @array size len pData hpos hdata hlen pArr cap hc hp =>
      have hl : (Field.array size len pData hpos hdata hlen).bytes.length = 4 + size * len := by
        rw [bytes, List.length_append, length_encodeLE, hdata]
      have hmul : len ≤ size * len := Nat.le_mul_of_pos_left len hpos
      have hfit : size * len ≤ pArr.length := hp ▸ Nat.mul_le_mul_left size hc
      have hblit : blit pArr 0 pData = pData ++ pArr.drop pData.length := by simp [blit]
      rw [Request.read, readArray_accept h hu hdata (by omega) hc hfit, hl, hblit]
      rfl

theorem ReturnAll.readAll_spec {fs : List Field} {qs : List Request} {as : List Answer}
    (hq : ReturnAll fs qs as) (h : s.Valid) (hu : s.unread = fs.flatMap Field.bytes) :
    ∃ t, readAll qs s = some (t, as) ∧ t.Valid ∧ t.unread = [] ∧
      t.nWritePos = s.nWritePos := by
  induction hq generalizing s with
  | nil => exact ⟨s, rfl, h, hu, rfl⟩
  | @cons f q a fs qs as hfq _ ih =>
      rw [List.flatMap_cons] at hu
      have hr := hfq.read_spec h hu
      have hlen : f.bytes.length ≤ s.unread.length := by
        rw [hu, List.length_append]
        omega
      obtain ⟨t, ht, hv, hn, hw⟩ := ih (skip_valid h hlen)
        (by rw [unread_skip h, hu, List.drop_left])
      exact ⟨t, by simp [readAll, hr, ht], hv, hn, hw⟩

/-! ### A whole message -/

namespace CellWriteStream

/-- A new stream in which the command of the message stands. -/
def opened (pData : List UInt8) (nSize : ℤ) (cmd : ℕ) : Option CellStream :=
  (new pData nSize).bind fun s => setNetCmd s cmd

theorem opened_spec {block : List UInt8} {nSize : ℤ} (hb : (block.length : ℤ) = nSize)
    (h4 : 4 ≤ nSize) (hi : nSize ≤ 2147483647) (c : ℕ) :
    ∃ s, opened block nSize c = some s ∧ s.Valid ∧ s.nSize = nSize ∧
      s.pBuff.length = block.length ∧ s.nReadPos = 0 ∧
      s.written = encodeLE 2 0 ++ encodeLE 2 c := by
  let s₀ : CellStream := .new block nSize
  have hv₀ : s₀.Valid := ⟨hb.ge, le_rfl, le_rfl, by simp only [s₀, CellStream.new]; omega, hi⟩
  have hw₀ : s₀.nWritePos = 0 := rfl
  have hs₀ : s₀.nSize = nSize := rfl
  have hl (v : ℕ) : (encodeLE 2 v).length = 2 := length_encodeLE 2 v
  have hf₀ : s₀.nWritePos + (encodeLE 2 0).length ≤ s₀.nSize := by rw [hl]; omega
  have hv₁ : (s₀.append (encodeLE 2 0)).Valid := append_valid hv₀ hf₀
  have hf₁ : (s₀.append (encodeLE 2 0)).nWritePos + (encodeLE 2 c).length ≤ s₀.nSize := by
    rw [append_nWritePos, hl, hl]
    omega
  refine ⟨_, ?_, append_valid hv₁ hf₁, rfl, ?_, rfl, ?_⟩
  · rw [hl] at hf₀ hf₁
    rw [opened, new, write_accept hv₀ hf₀, Option.map_some, Option.bind_some, setNetCmd,
      write_accept hv₁ hf₁, Option.map_some]
  · rw [length_append hv₁ hf₁, length_append hv₀ hf₀]
    rfl
  · rw [written_append hv₁, written_append hv₀]
    rfl

/-- Patching the length in completes the header in front of the fields. -/
theorem patched_message {t : CellStream} (h : t.Valid) {c : ℕ} {body : List UInt8}
    (hw : t.written = encodeLE 2 0 ++ encodeLE 2 c ++ body) (hmax : t.nWritePos ≤ 65535)
    (hc : c < 65536) :
    (patched t).Valid ∧ dataLength (patched t).data = t.nWritePos.toNat ∧
      cmd (patched t).data = c ∧ 4 ≤ t.nWritePos ∧ (patched t).written.drop 4 = body := by
  have hpos := length_written h
  rw [hw, List.length_append, List.length_append, length_encodeLE, length_encodeLE] at hpos
  have hsize := h.fits
  have hw' : (patched t).written = encodeLE 2 (t.nWritePos % 2 ^ 16).toNat ++
      (encodeLE 2 c ++ body) := by
    rw [written_patched (by omega), hw, List.append_assoc,
      List.drop_left' (length_encodeLE 2 0)]
  obtain ⟨hd, hcmd⟩ := header_of_written hw'
  refine ⟨patched_valid h (by omega), by rw [hd]; omega, by rw [hcmd]; omega, by omega, ?_⟩
  rw [hw', ← List.append_assoc, List.drop_left' (by simp)]

/-- A finished message is read back field by field, and nothing is left. -/
theorem readAll_message {u : CellStream} (h : u.Valid)
    (hd : (dataLength u.data : ℤ) = u.nWritePos) (h4 : 4 ≤ u.nWritePos)
    (hmax : u.nWritePos ≤ 65535) {gs : List Field}
    (hb : u.written.drop 4 = gs.flatMap Field.bytes) {qs : List Request} {as : List Answer}
    (hq : ReturnAll gs qs as) :
    ∃ r r', CellReadStream.ofHeader u.data = some r ∧ readAll qs r = some (r', as) ∧
      r'.nReadPos = r'.nWritePos ∧ r'.canRead 1 = false := by
  have hblock : u.nSize ≤ u.data.length := h.block
  have hfits := h.fits
  obtain ⟨r, hr, hrv, _, hru⟩ :=
    CellReadStream.ofHeader_spec (show 4 ≤ dataLength u.data by omega) (by omega) (by omega)
  have hbody : r.unread = gs.flatMap Field.bytes := by
    have hlen : dataLength u.data = u.nWritePos.toNat := by omega
    rw [hru, hlen, ← hb]
    rfl
  obtain ⟨r', hr', hv', hu', _⟩ := hq.readAll_spec hrv hbody
  have hend := length_unread hv'
  rw [hu', List.length_nil] at hend
  refine ⟨r, r', hr, hr', by omega, ?_⟩
  rw [← Bool.not_eq_true, canRead_iff hv', hu', List.length_nil]
  omega

/-- Whatever was written is read back, each field from its own request; a failed write
leaves the stream as it was; and the header announces the length and the command. -/
theorem message_round_trip {block : List UInt8} {nSize : ℤ} (hb : (block.length : ℤ) = nSize)
    (h4 : 4 ≤ nSize) (hmax : nSize ≤ 65535) (c : BitVec 16) (fs : List Field) :
    ∃ s t gs u, opened block nSize c.toNat = some s ∧ writeAll fs s = some (t, gs) ∧
      finish t = some u ∧
      (∀ gs₁ f gs₂ s₁ ws s₂, fs = gs₁ ++ f :: gs₂ → writeAll gs₁ s = some (s₁, ws) →
        f.write s₁ = some (s₂, false) → s₂ = s₁) ∧
      (dataLength u.data : ℤ) = u.length ∧ cmd u.data = c.toNat ∧
      ∀ qs as, ReturnAll gs qs as → ∃ r r', CellReadStream.ofHeader u.data = some r ∧
        readAll qs r = some (r', as) ∧ r'.nReadPos = r'.nWritePos ∧ r'.canRead 1 = false := by
  obtain ⟨s, hs, hv, hsize, _, _, hw⟩ := opened_spec hb h4 (by omega) c.toNat
  obtain ⟨t, gs, ht, htv, hts, _, _, htw⟩ := writeAll_spec hv fs
  have hle : t.nWritePos ≤ 65535 := by
    have := htv.fits
    omega
  obtain ⟨huv, hd, hcmd, hu4, hub⟩ := patched_message htv (hw ▸ htw) hle c.isLt
  have hlen : (dataLength (patched t).data : ℤ) = t.nWritePos := by omega
  refine ⟨s, t, gs, patched t, hs, ht, finish_eq htv (by omega), ?_, hlen, hcmd, ?_⟩
  · intro gs₁ f gs₂ s₁ ws s₂ _ h₁ h₂
    obtain ⟨s₁', ws', h₁', hv₁, _⟩ := writeAll_spec hv gs₁
    obtain ⟨rfl, rfl⟩ := Prod.mk.inj (Option.some.inj (h₁'.symm.trans h₁))
    rw [f.write_spec hv₁] at h₂
    split at h₂
    · cases h₂
    · exact (congrArg Prod.fst (Option.some.inj h₂)).symm
  · intro qs as hqs
    exact readAll_message huv hlen hu4 hle hub hqs

/-- The byte and the array fit, the second byte does not. -/
theorem message_round_trip_nine :
    ∃ s t gs u, opened (.replicate 11 0) 11 (2#16).toNat = some s ∧
      writeAll [.scalar 1 (by decide) 7#8, .array 2 1 [1, 2] (by decide) rfl (by decide),
        .scalar 1 (by decide) 8#8] s = some (t, gs) ∧ finish t = some u ∧
      ∀ qs as, ReturnAll gs qs as → ∃ r r', CellReadStream.ofHeader u.data = some r ∧
        readAll qs r = some (r', as) := by
  obtain ⟨s, t, gs, u, hs, ht, hu, _, _, _, hr⟩ :=
    message_round_trip (show ((List.replicate 11 (0 : UInt8)).length : ℤ) = 11 from rfl)
      (by decide) (by decide) 2#16
      [.scalar 1 (by decide) 7#8, .array 2 1 [1, 2] (by decide) rfl (by decide),
        .scalar 1 (by decide) 8#8]
  refine ⟨s, t, gs, u, hs, ht, hu, fun qs as hqs => ?_⟩
  obtain ⟨r, r', h, h', _⟩ := hr qs as hqs
  exact ⟨r, r', h, h'⟩

end CellWriteStream

end CellNet
