import CellNet.Library.Transition
import CellNet.Model.CellClient

/-! The copies that move the rest of a buffer to its front, and the runs of one buffer with the
copies made so far. -/

namespace CellNet

open Library

/-- A `memcpy` of `n` bytes inside one block. -/
structure Copy where
  dst : ℤ
  src : ℤ
  n : ℤ
deriving Repr, DecidableEq

namespace Copy

def Inside (c : Copy) (nSize : ℤ) : Prop :=
  0 ≤ c.n ∧ 0 ≤ c.dst ∧ c.dst + c.n ≤ nSize ∧ 0 ≤ c.src ∧ c.src + c.n ≤ nSize

/-- What `memcpy` requires of the two ranges. -/
def Apart (c : Copy) : Prop :=
  c.dst + c.n ≤ c.src ∨ c.src + c.n ≤ c.dst

instance (c : Copy) : Decidable c.Apart := by
  unfold Apart
  infer_instance

/-- The block once every byte is where it should be. -/
def perform (c : Copy) (pBuff : List UInt8) : List UInt8 :=
  blit pBuff c.dst.toNat (slice pBuff c.src.toNat c.n.toNat)

end Copy

namespace CellBuffer

/-- The copy in `pop`. -/
def popCopy (b : CellBuffer) (nLen : ℤ) : Option Copy :=
  let n := b.nLast - nLen
  if n > 0 then some ⟨0, nLen, n⟩ else none

/-- The copy in `write2socket`. -/
def write2socketCopy (b : CellBuffer) (sockfd : SOCKET) (ret : ℤ) : Option Copy :=
  if b.nLast > 0 ∧ INVALID_SOCKET ≠ sockfd then
    if ret ≤ 0 then none
    else if ret = b.nLast then none
    else some ⟨0, ret, b.nLast - ret⟩
  else none

/-- The copy in `write2Iocp`. -/
def write2IocpCopy (b : CellBuffer) (nSend : ℤ) : Option Copy :=
  if b.nLast < nSend then none
  else if nSend = b.nLast then none
  else some ⟨0, nSend, b.nLast - nSend⟩

/-- `pop_front_msg`, on the receive buffer of a client. -/
def popFrontMsg (b : CellBuffer) : CellBuffer :=
  if b.hasMsg then b.pop (dataLength b.data) else b

def popFrontMsgCopy (b : CellBuffer) : Option Copy :=
  if b.hasMsg then b.popCopy (dataLength b.data) else none

end CellBuffer

/-- The calls on a buffer, with the answers of the system; `receive` is the kernel, which writes
into the block while a read is posted. -/
inductive BufferEvent where
  | push (pData : List UInt8) (nLen : ℤ)
  | read4socket (recv : Option (List UInt8))
  | receive (off : ℕ) (bytes : List UInt8)
  | read4Iocp (nRecv : ℤ)
  | popFrontMsg
  | write2socket (sockfd : SOCKET) (ret : ℤ)
  | write2Iocp (nSend : ℤ)
deriving Repr, DecidableEq

/-- A buffer, with the copies it has made, the last one first. -/
structure BufferRun where
  buff : CellBuffer
  copies : List Copy
deriving Repr, DecidableEq

namespace BufferRun

/-- `none` is undefined behaviour of another kind. -/
def next (s : BufferRun) : BufferEvent → Option BufferRun
  | .push pData nLen => (s.buff.push pData nLen).map fun r => { s with buff := r.1 }
  | .read4socket recv => some { s with buff := (s.buff.read4socket recv).1 }
  | .receive off bytes => some { s with
      buff := { s.buff with pBuff := blit s.buff.pBuff off bytes } }
  | .read4Iocp nRecv => some { s with buff := (s.buff.read4Iocp nRecv).1 }
  | .popFrontMsg => some ⟨s.buff.popFrontMsg, s.buff.popFrontMsgCopy.toList ++ s.copies⟩
  | .write2socket sockfd ret => some ⟨(s.buff.write2socket sockfd ret).1,
      (s.buff.write2socketCopy sockfd ret).toList ++ s.copies⟩
  | .write2Iocp nSend => some ⟨(s.buff.write2Iocp nSend).1,
      (s.buff.write2IocpCopy nSend).toList ++ s.copies⟩

/-- What the system promises: it answers within the range it was given, and no message that is
pushed is shorter than it says. -/
def Answers (b : CellBuffer) : BufferEvent → Prop
  | .push pData nLen => nLen ≤ pData.length ∧ -2147483648 ≤ nLen ∧ nLen ≤ 2147483647
  | .read4socket recv => ((recv.getD []).length : ℤ) ≤ b.nSize - b.nLast
  | .receive off bytes => (off + bytes.length : ℤ) ≤ b.nSize
  | .read4Iocp _ => True
  | .popFrontMsg => True
  | .write2socket _ ret => ret ≤ b.nLast
  | .write2Iocp nSend => 0 < nSend

/-- A new buffer has made no copy. -/
def system : System BufferRun BufferEvent where
  init s := ∃ nSize block, (block.length : ℤ) = nSize ∧ nSize ≤ 2147483647 ∧
    s = ⟨.new nSize block, []⟩
  step s e s' := Answers s.buff e ∧ s.next e = some s'

/-- What is consumed is at least half of what the buffer holds. -/
def Halves (s : BufferRun) : BufferEvent → Prop
  | .popFrontMsg => s.buff.hasMsg → s.buff.nLast ≤ 2 * dataLength s.buff.data
  | .write2socket sockfd ret => INVALID_SOCKET ≠ sockfd → 0 < ret → s.buff.nLast ≤ 2 * ret
  | .write2Iocp nSend => nSend ≤ s.buff.nLast → s.buff.nLast ≤ 2 * nSend
  | _ => True

end BufferRun

end CellNet
