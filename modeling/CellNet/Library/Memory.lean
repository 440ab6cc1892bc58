import Mathlib.Data.List.Infix
import Mathlib.Tactic.Ring

/-! Flat memory blocks, 32-bit signed arithmetic and little-endian scalars. -/

namespace CellNet.Library

/-- Two's complement reduction to a signed 32-bit value. -/
def wrap32 (x : ℤ) : ℤ :=
  (x + 2147483648) % 4294967296 - 2147483648

theorem wrap32_eq {x : ℤ} (hl : -2147483648 ≤ x) (hu : x ≤ 2147483647) : wrap32 x = x := by
  unfold wrap32
  omega

theorem wrap32_wrap32 (x : ℤ) : wrap32 (wrap32 x) = wrap32 x := by
  unfold wrap32
  omega

section Blocks

variable {α : Type*}

/-- Overwrite `mem` with `xs`, starting at offset `off`. -/
def blit (mem : List α) (off : ℕ) (xs : List α) : List α :=
  mem.take off ++ xs ++ mem.drop (off + xs.length)

/-- The `n` cells of `mem` that start at offset `off`. -/
def slice (mem : List α) (off n : ℕ) : List α :=
  (mem.drop off).take n

theorem length_blit {mem xs : List α} {off : ℕ} (h : off + xs.length ≤ mem.length) :
    (blit mem off xs).length = mem.length := by
  simp only [blit, List.length_append, List.length_take, List.length_drop]
  omega

theorem length_slice {mem : List α} {off n : ℕ} (h : off + n ≤ mem.length) :
    (slice mem off n).length = n := by
  simp only [slice, List.length_take, List.length_drop]
  omega

theorem take_blit {mem xs : List α} {off : ℕ} (h : off ≤ mem.length) :
    (blit mem off xs).take (off + xs.length) = mem.take off ++ xs := by
  have hl : (mem.take off ++ xs).length = off + xs.length := by
    simp only [List.length_append, List.length_take]
    omega
  rw [blit, ← hl, List.take_left]

theorem drop_blit {mem xs : List α} {off n : ℕ} (h : off ≤ mem.length)
    (hn : off + xs.length ≤ n) : (blit mem off xs).drop n = mem.drop n := by
  have hl : (mem.take off ++ xs).length = off + xs.length := by
    simp only [List.length_append, List.length_take]
    omega
  rw [blit, List.drop_append, List.drop_of_length_le (by omega), List.nil_append, hl,
    List.drop_drop]
  congr 1
  omega

/-- Two copies one behind the other are a single copy. -/
theorem blit_blit {mem xs : List α} {off : ℕ} (h : off ≤ mem.length) (ys : List α) :
    blit (blit mem off xs) (off + xs.length) ys = blit mem off (xs ++ ys) := by
  have hd : (blit mem off xs).drop (off + xs.length + ys.length) =
      mem.drop (off + (xs.length + ys.length)) := by
    rw [drop_blit h (Nat.le_add_right _ _), Nat.add_assoc]
  rw [blit, take_blit h, hd, blit, List.length_append, List.append_assoc (mem.take off)]

/-- Moving a block to the front keeps exactly its cells there. -/
theorem take_blit_zero (mem xs : List α) : (blit mem 0 xs).take xs.length = xs := by
  simp [blit]

end Blocks

/-! ### Little-endian scalars -/

/-- The `w` low bytes of `v`, least significant first. -/
def encodeLE : ℕ → ℕ → List UInt8
  | 0, _ => []
  | w + 1, v => UInt8.ofNat v :: encodeLE w (v / 256)

def decodeLE : List UInt8 → ℕ
  | [] => 0
  | b :: bs => b.toNat + 256 * decodeLE bs

@[simp] theorem length_encodeLE (w v : ℕ) : (encodeLE w v).length = w := by
  induction w generalizing v with
  | zero => rfl
  | succ w ih => simp [encodeLE, ih]

theorem decodeLE_encodeLE (w v : ℕ) : decodeLE (encodeLE w v) = v % 256 ^ w := by
  induction w generalizing v with
  | zero => simp [encodeLE, decodeLE, Nat.mod_one]
  | succ w ih =>
      have hb : (UInt8.ofNat v).toNat = v % 256 := by simp
      rw [encodeLE, decodeLE, ih, hb, pow_succ', Nat.mod_mul]

/-- Every list of bytes is the encoding of the number it decodes to. -/
theorem encodeLE_decodeLE (bs : List UInt8) : encodeLE bs.length (decodeLE bs) = bs := by
  induction bs with
  | nil => rfl
  | cons b bs ih =>
      have hb : b.toNat < 256 := b.toNat_lt
      have hq : (b.toNat + 256 * decodeLE bs) / 256 = decodeLE bs := by omega
      have hr : UInt8.ofNat (b.toNat + 256 * decodeLE bs) = b := by
        apply UInt8.toNat.inj
        rw [UInt8.toNat_ofNat']
        omega
      rw [decodeLE, List.length_cons, encodeLE, hq, hr, ih]

theorem decodeLE_lt (bs : List UInt8) : decodeLE bs < 256 ^ bs.length := by
  induction bs with
  | nil => simp [decodeLE]
  | cons b bs ih =>
      have hb : b.toNat < 256 := b.toNat_lt
      rw [decodeLE, List.length_cons, Nat.pow_succ]
      omega

end CellNet.Library
