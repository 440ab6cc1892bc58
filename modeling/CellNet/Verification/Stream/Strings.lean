import CellNet.Verification.Stream.Bounds

/-! Strings through the exported functions: what is written comes back, except that the count of
an empty string is taken for a failure. -/

namespace CellNet

open Library

theorem strlen_append {s : List UInt8} (hs : 0 ∉ s) (tail : List UInt8) :
    strlen (s ++ 0 :: tail) = some s.length := by
  induction s with
  | nil => rfl
  | cons x s ih =>
      obtain ⟨hx, hs⟩ := not_or.mp (mt List.mem_cons.mpr hs)
      have hne : (x == 0) = false := by simpa using Ne.symm hx
      have htail := ih hs
      unfold strlen at htail ⊢
      rw [List.cons_append, List.findIdx?_cons, hne, htail]
      rfl

theorem memcpy_inside {dst src res : List UInt8} {off n : ℤ}
    (h : memcpy dst off src n = some res) : 0 ≤ off ∧ off + n ≤ dst.length := by
  unfold memcpy at h
  split at h
  · next hin => exact ⟨hin.1, hin.2.2.1⟩
  · cases h

namespace CellStream

variable {w w' r : CellStream} {pArr pData : List UInt8} {len : ℕ}

/-! ### Writing -/

/-- In a block that is as long as announced, nothing is written past its end, so an array that
was written has had room. -/
theorem writeArray_fits (h : w.Valid) (hb : (w.pBuff.length : ℤ) = w.nSize) (hl : len < 2 ^ 32)
    (hw : w.writeArray 1 pData len = some (w', true)) :
    w.nWritePos + (4 + len : ℕ) ≤ w.nSize := by
  by_contra hfit
  have hpos := h.positions
  have hi := h.int32
  have hlen : 1 * len % 2 ^ 64 = len := by omega
  unfold writeArray at hw
  simp only [hlen] at hw
  split at hw
  · next hc =>
      obtain ⟨t, ht, hw⟩ := Option.bind_eq_some_iff.mp hw
      obtain ⟨pBuff, hm, -⟩ := Option.bind_eq_some_iff.mp hw
      have hin := (memcpy_inside hm).2
      rw [canWrite_iff h] at hc
      by_cases h4 : w.nWritePos + (4 : ℕ) ≤ w.nSize
      · obtain rfl := Option.some.inj ((write_accept h h4 len).symm.trans ht)
        have hf4 : w.nWritePos + (encodeLE 4 len).length ≤ w.nSize := by
          rw [length_encodeLE]
          exact h4
        rw [length_append h hf4, append_nWritePos, length_encodeLE] at hin
        omega
      · obtain rfl := Option.some.inj
          ((write_reject h (by decide) (not_le.mp h4) len).symm.trans ht)
        dsimp only at hin
        -- Only a byte count that is negative as an `int` can have passed the test.
        unfold wrap32 at hc
        omega
  · cases hw

/-- The bytes of a string behind its length. -/
def stringField (s : List UInt8) : List UInt8 :=
  encodeLE 4 s.length ++ s

theorem writeCString_written {s tail : List UInt8} (hs : 0 ∉ s) (hl : s.length < 2 ^ 32)
    (h : w.Valid) (hb : (w.pBuff.length : ℤ) = w.nSize)
    (hw : CellWriteStream.writeCString w (s ++ 0 :: tail) = some (w', true)) :
    w'.written = w.written ++ stringField s := by
  unfold CellWriteStream.writeCString at hw
  rw [strlen_append hs, Option.bind_some, Nat.mod_eq_of_lt hl] at hw
  have hfit := writeArray_fits h hb hl hw
  have hle : 1 * s.length ≤ (s ++ 0 :: tail).length := by
    rw [List.length_append]
    omega
  have hroom : w.nWritePos + (4 + (1 * s.length : ℕ)) ≤ w.nSize := by
    push_cast at hfit ⊢
    omega
  have hacc := writeArray_accept h hle hroom
  obtain rfl := (Prod.mk.inj (Option.some.inj (hacc.symm.trans hw))).1
  have hv : (w.append (encodeLE 4 s.length)).Valid := by
    apply append_valid h
    rw [length_encodeLE]
    push_cast at hfit ⊢
    omega
  rw [written_append hv, written_append h, Nat.one_mul, List.take_left, List.append_assoc]
  rfl

/-! ### Reading -/

theorem readString_field {s rest buffer : List UInt8} {len : ℤ} (hr : r.Valid)
    (hu : r.unread = stringField s ++ rest) (hl : (s.length : ℤ) ≤ len) (hi : len ≤ 2147483647)
    (hb : len ≤ buffer.length) :
    cellReadStream_ReadString (some r) (some buffer) len =
      some (some (r.skip (4 + s.length)), some (s ++ buffer.drop s.length),
        decide (s ≠ [])) := by
  have hlen : toUInt32 len = len.toNat := by
    unfold toUInt32
    omega
  have hroom : 1 * s.length ≤ buffer.length := by omega
  have hcap : s.length ≤ len.toNat := by omega
  have hacc := readArray_accept hr hu (Nat.one_mul _).symm (by omega) hcap hroom
  have hblit : blit buffer 0 s = s ++ buffer.drop s.length := by
    simp [blit]
  have hne : decide (s.length ≠ 0) = decide (s ≠ []) := by
    simp [List.length_eq_zero_iff]
  simp only [cellReadStream_ReadString]
  rw [hlen, hacc, Option.map_some, hblit, hne, Nat.one_mul]

/-- The count that lies at the read position. -/
def count (s : CellStream) : ℕ :=
  decodeLE (slice s.pBuff s.nReadPos.toNat 4)

/-- The count is looked at, and the position stays. -/
theorem peek_count (t : CellStream) {x : CellStream × ℕ × Bool} (h : t.read 4 0 false = some x) :
    x.1 = t ∧ (t.canRead 4 = true → x.2.1 = t.count) := by
  have h4 : wrap32 (4 : ℕ) = 4 := by decide
  unfold read at h
  rw [h4] at h
  split at h
  · next hc =>
      obtain ⟨bytes, hload, hx⟩ := Option.bind_eq_some_iff.mp h
      obtain rfl := Option.some.inj hx
      unfold load at hload
      split at hload
      · obtain rfl := Option.some.inj hload
        exact ⟨rfl, fun _ => rfl⟩
      · cases hload
  · next hc =>
      obtain rfl := Option.some.inj h
      exact ⟨rfl, fun hy => absurd hy hc⟩

/-- Whatever the positions are, an array read that answers zero has moved exactly when it has
read a count of zero. -/
theorem readArray_zero {t t' : CellStream} {pArr' : List UInt8}
    (hread : t.readArray 1 pArr len = some (t', pArr', 0)) :
    t'.nReadPos = t.nReadPos ↔ ¬ (t.canRead 4 = true ∧ t.count = 0) := by
  unfold readArray at hread
  obtain ⟨⟨u, n, b⟩, hx, hr⟩ := Option.bind_eq_some_iff.mp hread
  obtain ⟨hu, hcount⟩ := peek_count t hx
  dsimp only at hu hcount hr
  subst hu
  have hzero : wrap32 ((0 * 1 % 2 ^ 64 + 4) % 2 ^ 64 : ℕ) = 4 := by decide
  split at hr
  · next hle =>
      split at hr
      · next hc =>
          obtain ⟨bytes, -, hload⟩ := Option.bind_eq_some_iff.mp hr
          obtain ⟨p, -, hout⟩ := Option.bind_eq_some_iff.mp hload
          simp only [Option.some.injEq, Prod.mk.injEq] at hout
          obtain ⟨rfl, -, rfl⟩ := hout
          rw [hzero] at hc
          have hmoved : wrap32 (wrap32 (u.nReadPos + 4) + wrap32 (wrap32 (0 : ℕ))) ≠
              u.nReadPos := by
            unfold wrap32
            omega
          constructor
          · exact fun he => absurd he hmoved
          · exact fun hno => absurd ⟨hc, (hcount hc).symm⟩ hno
      · next hc =>
          obtain ⟨rfl, -⟩ := Prod.mk.inj (Option.some.inj hr)
          refine iff_of_true rfl ?_
          intro hz
          obtain rfl : n = 0 := (hcount hz.1).trans hz.2
          rw [hzero] at hc
          exact hc hz.1
  · next hle =>
      obtain ⟨rfl, -⟩ := Prod.mk.inj (Option.some.inj hr)
      refine iff_of_true rfl ?_
      intro hz
      have hn := (hcount hz.1).trans hz.2
      omega

/-- A written string comes back, in full and behind its field, exactly when it is not empty; and a
failing read leaves the position where it is exactly when no count of zero lies there. -/
theorem strings_round_trip_iff {s tail rest buffer : List UInt8} {len : ℤ} (hs : 0 ∉ s)
    (hv : w.Valid) (hb : (w.pBuff.length : ℤ) = w.nSize)
    (hw : cellWriteStream_WriteString (some w) (s ++ 0 :: tail) = some (some w', true))
    (hr : r.Valid) (hu : r.unread = w'.written.drop w.written.length ++ rest)
    (hl : (s.length : ℤ) ≤ len) (hi : len ≤ 2147483647) (hcap : len ≤ buffer.length) :
    (cellReadStream_ReadString (some r) (some buffer) len =
      some (some (r.skip (4 + s.length)), some (s ++ buffer.drop s.length), true) ↔ s ≠ []) ∧
    ∀ (t t' : CellStream) (pArr pArr' : List UInt8) (n : ℤ),
      cellReadStream_ReadString (some t) (some pArr) n = some (some t', some pArr', false) →
      (t'.nReadPos = t.nReadPos ↔ ¬ (t.canRead 4 = true ∧ t.count = 0)) := by
  constructor
  · obtain ⟨x, hx, he⟩ := Option.map_eq_some_iff.mp hw
    obtain ⟨rfl, hx₂⟩ : x.1 = w' ∧ x.2 = true := by simpa using he
    have hwritten : x.1.written = w.written ++ stringField s :=
      writeCString_written hs (by omega) hv hb (hx.trans (by rw [← hx₂]))
    rw [hwritten, List.drop_left] at hu
    rw [readString_field hr hu hl hi hcap]
    simp
  · intro t t' pArr pArr' n hread
    obtain ⟨x, hx, he⟩ := Option.map_eq_some_iff.mp hread
    simp only [Prod.mk.injEq, Option.some.injEq, decide_eq_false_iff_not, not_not] at he
    obtain ⟨rfl, -, hz⟩ := he
    exact readArray_zero (hx.trans (by rw [← hz]))

/-- The stream of sixteen bytes with a string of two characters. -/
def greeted : CellStream :=
  ⟨[0, 0, 2, 0, 0, 0, 104, 105, 0, 0, 0, 0, 0, 0, 0, 0], 16, 8, 2⟩

theorem greeted_round_trip :
    cellReadStream_ReadString (some greeted) (some [9, 9, 9]) 3 =
      some (some (greeted.skip 6), some [104, 105, 9], true) ∧
    ∃ t buffer, cellReadStream_ReadString (some greeted) (some [9]) 1 =
        some (some t, some buffer, false) ∧
      t.nReadPos = greeted.nReadPos := by
  have hv : greeted.Valid := by
    constructor <;> decide
  have hs : (0 : UInt8) ∉ [(104 : UInt8), 105] := by decide
  have hshort : cellReadStream_ReadString (some greeted) (some [9]) 1 =
      some (some greeted, some [9], false) := by decide
  have hwrite : cellWriteStream_WriteString (some sixteen) ([104, 105] ++ 0 :: []) =
      some (some greeted, true) := by decide
  have hunread : greeted.unread = greeted.written.drop sixteen.written.length ++ [] := by decide
  have hlen : (([104, 105] : List UInt8).length : ℤ) ≤ 3 := by decide
  have hcap : (3 : ℤ) ≤ ([9, 9, 9] : List UInt8).length := by decide
  obtain ⟨htrip, hstay⟩ := strings_round_trip_iff hs sixteen_valid (by decide) hwrite hv hunread
    hlen (by decide) hcap
  exact ⟨htrip.mpr (by decide), greeted, [9], hshort, (hstay _ _ _ _ _ hshort).mpr (by decide)⟩

/-- The empty string is written, answered with false, and its count is passed. -/
theorem empty_string_lost : ∃ w t buffer,
    cellWriteStream_WriteString (some sixteen) [0] = some (some w, true) ∧ w.Valid ∧
      w.unread = w.written.drop sixteen.written.length ∧
      cellReadStream_ReadString (some w) (some [9, 9, 9]) 3 =
        some (some t, some buffer, false) ∧
      w.nReadPos = 2 ∧ t.nReadPos = 6 := by
  refine ⟨⟨List.replicate 16 0, 16, 6, 2⟩, ⟨List.replicate 16 0, 16, 6, 6⟩, [9, 9, 9], by decide,
    ?_, by decide, by decide, rfl, rfl⟩
  constructor <;> decide

end CellStream

end CellNet
