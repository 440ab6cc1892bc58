import CellNet.Library.Transition
import CellNet.Verification.Messages.Semantics
import CellNet.Verification.Stream.RoundTrip

/-! Finishing a message, any number of times and with further writes in between. The
length goes into the header as a 16-bit value, while positions are `int`s. -/

namespace CellNet

open Library CellStream

inductive WriteEvent where
  | write (sizeofT n : ℕ)
  | writeArray (sizeofT : ℕ) (pData : List UInt8) (len : ℕ)
  | finish

namespace CellWriteStream

variable {s t : CellStream} {nSize : ℤ}

/-- `none` is undefined behaviour. -/
def next (s : CellStream) : WriteEvent → Option CellStream
  | .write sizeofT n => (s.write sizeofT n).map Prod.fst
  | .writeArray sizeofT pData len => (s.writeArray sizeofT pData len).map Prod.fst
  | .finish => finish s

/-- The size of a type is an `int`, and an array has the elements its caller announces. -/
def Legal : WriteEvent → Prop
  | .write sizeofT _ => sizeofT ≤ 2147483647
  | .writeArray sizeofT pData len => sizeofT * len ≤ pData.length
  | .finish => True

/-- The runs of a stream of `nSize` bytes, from the constructor on. -/
def system (nSize : ℤ) : System CellStream WriteEvent where
  init s := ∃ block : List UInt8, (block.length : ℤ) = nSize ∧ 4 ≤ nSize ∧
    nSize ≤ 2147483647 ∧ new block nSize = some s
  step s e t := Legal e ∧ next s e = some t

/-- An array whose size passes the test as an `int` really fits. -/
def Admits (s : CellStream) : WriteEvent → Prop
  | .writeArray sizeofT _ len =>
      s.nWritePos + wrap32 ((sizeofT * len % 2 ^ 64 + 4) % 2 ^ 64 : ℕ) ≤ s.nSize →
        s.nWritePos + (4 + sizeofT * len) ≤ s.nSize
  | _ => True

/-- What `finish` must do: the first two bytes become the length, and nothing else changes;
so the frame that is sent announces as many bytes as it has. -/
structure Announces (s t : CellStream) : Prop where
  length : (dataLength t.data : ℤ) = t.length
  size : t.data.length = s.data.length
  rest : t.data.drop 2 = s.data.drop 2
  pos : t.nWritePos = s.nWritePos
  frame : dataLength (t.data.take t.length.toNat) = (t.data.take t.length.toNat).length

/-- A stream in a run: the constructor reserved the length, and only writes followed. -/
structure Inv (nSize : ℤ) (s : CellStream) : Prop where
  valid : s.Valid
  size : s.nSize = nSize
  min : 4 ≤ nSize
  reserved : 2 ≤ s.nWritePos

theorem inv_init (h : (system nSize).init s) : Inv nSize s := by
  obtain ⟨block, hb, h4, hi, hs⟩ := h
  let s₀ : CellStream := .new block nSize
  have hv₀ : s₀.Valid := ⟨hb.ge, le_rfl, le_rfl, by simp only [s₀, CellStream.new]; omega, hi⟩
  have hw₀ : s₀.nWritePos = 0 := rfl
  have hs₀ : s₀.nSize = nSize := rfl
  have hf : s₀.nWritePos + (2 : ℕ) ≤ s₀.nSize := by omega
  have hl : ((encodeLE 2 0).length : ℤ) = 2 := by rw [length_encodeLE]; rfl
  rw [new, write_accept hv₀ hf, Option.map_some, Option.some.injEq] at hs
  subst hs
  refine ⟨append_valid hv₀ (by rw [hl]; exact hf), rfl, h4, ?_⟩
  rw [append_nWritePos, hl, hw₀]
  decide

theorem Inv.append (h : Inv nSize s) {bytes : List UInt8}
    (hf : s.nWritePos + bytes.length ≤ s.nSize) : Inv nSize (s.append bytes) where
  valid := append_valid h.valid hf
  size := h.size
  min := h.min
  reserved := by
    have := h.reserved
    rw [append_nWritePos]
    omega

/-- Every admitted step is defined and keeps the stream in shape. -/
theorem Inv.next (h : Inv nSize s) {e : WriteEvent} (hl : Legal e) (ha : Admits s e) :
    ∃ t, next s e = some t ∧ Inv nSize t := by
  cases e with
  | write sizeofT n =>
      by_cases hf : s.nWritePos + sizeofT ≤ s.nSize
      · refine ⟨_, by rw [CellWriteStream.next, write_accept h.valid hf]; rfl, ?_⟩
        exact h.append (by rwa [length_encodeLE])
      · refine ⟨s, ?_, h⟩
        rw [CellWriteStream.next, write_reject h.valid hl (by omega)]
        rfl
  | writeArray sizeofT pData len =>
      by_cases hf : s.nWritePos + wrap32 ((sizeofT * len % 2 ^ 64 + 4) % 2 ^ 64 : ℕ) ≤ s.nSize
      · have hfit := ha hf
        refine ⟨_, by rw [CellWriteStream.next, writeArray_accept h.valid hl hfit]; rfl, ?_⟩
        have htake : ((pData.take (sizeofT * len)).length : ℤ) = sizeofT * len := by
          rw [List.length_take, Nat.min_eq_left hl]
          rfl
        have h4 : ((encodeLE 4 len).length : ℤ) = 4 := by rw [length_encodeLE]; rfl
        refine (h.append ?_).append ?_
        · have hn : (0 : ℤ) ≤ sizeofT * len := Int.natCast_nonneg (sizeofT * len)
          rw [h4]
          omega
        · rw [htake, append_nWritePos, append_nSize, h4]
          omega
      · refine ⟨s, ?_, h⟩
        rw [CellWriteStream.next, writeArray_reject h.valid (by omega)]
        rfl
  | finish =>
      have h2 : 2 ≤ s.nSize := by
        have := h.size
        have := h.min
        omega
      exact ⟨_, finish_eq h.valid h2, patched_valid h.valid h2, h.size, h.min, h.reserved⟩

theorem inv_reachable (h : ((system nSize).guard Admits).Reachable s) : Inv nSize s := by
  have hinv : ((system nSize).guard Admits).Invariant (Inv nSize) := by
    refine ⟨fun s hs => inv_init hs, ?_⟩
    rintro s e t hi ⟨ha, hl, hn⟩
    obtain ⟨t', ht, hi'⟩ := hi.next hl ha
    exact Option.some.inj (ht.symm.trans hn) ▸ hi'
  exact hinv.reachable h

/-- The patched length is the write position, reduced to 16 bits. -/
theorem dataLength_patched (s : CellStream) :
    dataLength (patched s).data = (s.nWritePos % 2 ^ 16).toNat % 65536 := by
  have hl (v : ℕ) : (encodeLE 2 v).length = 2 := length_encodeLE 2 v
  rw [dataLength, slice, List.drop_zero, CellStream.data, patched, List.take_left' (hl _),
    decodeLE_encodeLE]
  rfl

theorem Inv.announces_iff (h : Inv nSize s) :
    Announces s (patched s) ↔ s.nWritePos ≤ 65535 := by
  have hr := h.reserved
  have hd := dataLength_patched s
  have hlen : (patched s).length = s.nWritePos := rfl
  constructor
  · intro ha
    have := ha.length
    omega
  · intro hmax
    have h2 : 2 ≤ s.nSize := by
      have := h.valid.fits
      omega
    have hv := patched_valid h.valid h2
    have hl : (patched s).data.length = s.data.length := by
      have := h.valid.block
      exact length_patched (by omega)
    have hw : ((patched s).written.length : ℤ) = s.nWritePos := length_written hv
    have hsplit := List.take_append_drop s.nWritePos.toNat (patched s).data
    refine ⟨by omega, hl, ?_, rfl, ?_⟩
    · exact List.drop_left' (length_encodeLE 2 _)
    · have hframe : (patched s).data.take (patched s).length.toNat = (patched s).written := rfl
      have ht : dataLength (patched s).written = dataLength (patched s).data := by
        rw [← hsplit]
        exact (dataLength_append (by omega) _).symm
      rw [hframe, ht]
      omega

/-- In every run in which no array is admitted that does not fit, `finish` returns; it
announces the length of the message exactly when the length fits 16 bits. -/
theorem finish_announces_iff (h : ((system nSize).guard Admits).Reachable s) :
    ∃ t, finish s = some t ∧ (Announces s t ↔ s.length ≤ 65535) := by
  have hi := inv_reachable h
  have h2 : 2 ≤ s.nSize := by
    have := hi.size
    have := hi.min
    omega
  exact ⟨_, finish_eq hi.valid h2, hi.announces_iff⟩

/-- A stream of `n` zero bytes from the constructor. -/
def created (n : ℕ) : CellStream :=
  (CellStream.new (.replicate n 0) n).append (encodeLE 2 0)

theorem created_init {n : ℕ} (h4 : 4 ≤ n) (hi : n ≤ 2147483647) :
    (system n).init (created n) := by
  have hv : (CellStream.new (.replicate n 0) n).Valid :=
    ⟨by simp [CellStream.new], le_rfl, le_rfl, by simp [CellStream.new],
      by simp only [CellStream.new]; omega⟩
  have hf : (CellStream.new (.replicate n 0) n).nWritePos + (2 : ℕ) ≤
      (CellStream.new (.replicate n 0) n).nSize := by
    simp only [CellStream.new]
    omega
  exact ⟨.replicate n 0, by simp, by omega, by omega, by rw [new, write_accept hv hf]; rfl⟩

instance : DecidablePred Legal
  | .write sizeofT _ => inferInstanceAs (Decidable (sizeofT ≤ 2147483647))
  | .writeArray sizeofT pData len => inferInstanceAs (Decidable (sizeofT * len ≤ pData.length))
  | .finish => .isTrue trivial

instance (s : CellStream) : DecidablePred (Admits s)
  | .writeArray _ _ _ => inferInstanceAs (Decidable (_ → _))
  | .write _ _ | .finish => .isTrue trivial

/-- A command, an array of two bytes, and one byte behind a first `finish`. -/
def commands : List WriteEvent :=
  [.write 2 1, .writeArray 1 [7, 9] 2, .finish, .write 1 5]

def nextAdmitted (s : CellStream) (e : WriteEvent) : Option CellStream :=
  if Admits s e ∧ Legal e then next s e else none

theorem finish_announces_commands :
    ∃ s t, commands.foldlM nextAdmitted (created 16) = some s ∧ s.length = 11 ∧
      finish s = some t ∧ (Announces s t ↔ s.length ≤ 65535) := by
  obtain ⟨s, hs, hlen⟩ := Option.map_eq_some_iff.mp
    (show (commands.foldlM nextAdmitted (created 16)).map CellStream.length = some 11 by
      decide +kernel)
  have hpath : ((system 16).guard Admits).Path (created 16) commands s := by
    refine System.Path.of_next _ (fun s e t ht => ?_) hs
    obtain ⟨⟨ha, hl⟩, ht⟩ := Option.ite_none_right_eq_some.mp ht
    exact ⟨ha, hl, ht⟩
  have hinit : ((system 16).guard Admits).init (created 16) :=
    created_init (n := 16) (by decide) (by decide)
  obtain ⟨t, ht, hiff⟩ := finish_announces_iff ((System.Reachable.init hinit).path hpath)
  exact ⟨s, t, hs, hlen, ht, hiff⟩

/-- An array of 66000 bytes fits a stream of 70000, but its length does not fit the header. -/
theorem finish_truncates :
    ∃ s t, (system 70000).Reachable s ∧ finish s = some t ∧ ¬ Announces s t := by
  have h₀ : (system (70000 : ℕ)).init (created 70000) := created_init (by decide) (by decide)
  have hi := inv_init h₀
  have hpos : (created 70000).nWritePos = 2 := rfl
  have hsize : (created 70000).nSize = 70000 := rfl
  have hl : Legal (.writeArray 1 (.replicate 66000 0) 66000) := by
    rw [Legal, List.length_replicate]
  have ha : Admits (created 70000) (.writeArray 1 (.replicate 66000 0) 66000) := by
    intro _
    rw [hpos, hsize]
    decide
  obtain ⟨s, hs, hsi⟩ := hi.next hl ha
  have hlen : s.nWritePos = 66006 := by
    rw [next, writeArray_accept hi.valid hl (by rw [hpos, hsize]; decide)] at hs
    cases hs
    rw [append_nWritePos, append_nWritePos, hpos, length_encodeLE, List.length_take,
      List.length_replicate]
    decide
  refine ⟨s, _, (System.Reachable.init h₀).step ⟨hl, hs⟩, finish_eq hsi.valid ?_, ?_⟩
  · have := hsi.size
    omega
  · rw [hsi.announces_iff]
    omega

end CellWriteStream

end CellNet
