import CellNet.Model.CellBuffer

/-! The byte stream with its read and write positions, and its two message forms. A
result `none` is undefined behaviour; scalars are bit patterns of `sizeofT` bytes. -/

namespace CellNet

open Library

/-- The source range of a copy that starts at `off`. -/
def load (src : List UInt8) (off n : ℤ) : Option (List UInt8) :=
  if 0 ≤ off ∧ 0 ≤ n ∧ off + n ≤ src.length then some (slice src off.toNat n.toNat) else none

structure CellStream where
  pBuff : List UInt8
  nSize : ℤ
  nWritePos : ℤ
  nReadPos : ℤ
deriving Repr, DecidableEq

namespace CellStream

/-- The constructor; `pData` is the memory of the stream, up to where its block ends. -/
def new (pData : List UInt8) (nSize : ℤ) : CellStream :=
  ⟨pData, nSize, 0, 0⟩

def data (s : CellStream) : List UInt8 := s.pBuff

def length (s : CellStream) : ℤ := s.nWritePos

def canRead (s : CellStream) (n : ℤ) : Bool :=
  decide (wrap32 (s.nWritePos - s.nReadPos) ≥ n)

def canWrite (s : CellStream) (n : ℤ) : Bool :=
  decide (wrap32 (s.nSize - s.nWritePos) ≥ n)

def push (s : CellStream) (n : ℤ) : CellStream :=
  { s with nWritePos := wrap32 (s.nWritePos + n) }

def pop (s : CellStream) (n : ℤ) : CellStream :=
  { s with nReadPos := wrap32 (s.nReadPos + n) }

def setWritePos (s : CellStream) (n : ℤ) : CellStream :=
  { s with nWritePos := n }

def getWritePos (s : CellStream) : ℤ := s.nWritePos

/-! ### Reading -/

/-- `n` is what the variable held before; a failing read leaves it there. -/
def read (s : CellStream) (sizeofT n : ℕ) (bOffset : Bool := true) :
    Option (CellStream × ℕ × Bool) :=
  if s.canRead (wrap32 sizeofT) then do
    let bytes ← load s.pBuff s.nReadPos sizeofT
    some (if bOffset then s.pop (wrap32 sizeofT) else s, decodeLE bytes, true)
  else some (s, n, false)

def onlyRead (s : CellStream) (sizeofT n : ℕ) : Option (CellStream × ℕ × Bool) :=
  s.read sizeofT n false

/-- The byte counts are `size_t`; `canRead` and `pop` take them as `int`. -/
def readArray (s : CellStream) (sizeofT : ℕ) (pArr : List UInt8) (len : ℕ) :
    Option (CellStream × List UInt8 × ℕ) := do
  let r ← s.read 4 0 false
  let len1 := r.2.1
  if len1 ≤ len then
    let nLen := len1 * sizeofT % 2 ^ 64
    if r.1.canRead (wrap32 ((nLen + 4) % 2 ^ 64 : ℕ)) then
      let t := r.1.pop 4
      let bytes ← load t.pBuff t.nReadPos nLen
      let pArr ← memcpy pArr 0 bytes nLen
      some (t.pop (wrap32 nLen), pArr, len1)
    else some (r.1, pArr, 0)
  else some (r.1, pArr, 0)

/-- `readInt8`, `readInt16` and their unsigned forms start from zero. -/
def readInt8 (s : CellStream) : Option (CellStream × ℕ) :=
  (s.read 1 0).map fun r => (r.1, r.2.1)

def readInt16 (s : CellStream) : Option (CellStream × ℕ) :=
  (s.read 2 0).map fun r => (r.1, r.2.1)

/-- The wider ones, and those for floating point, return an uninitialised `n` on failure. -/
def readInt32 (s : CellStream) (n : ℕ) : Option (CellStream × ℕ) :=
  (s.read 4 n).map fun r => (r.1, r.2.1)

def readFloat (s : CellStream) (n : ℕ) : Option (CellStream × ℕ) :=
  (s.read 4 n).map fun r => (r.1, r.2.1)

def readDouble (s : CellStream) (n : ℕ) : Option (CellStream × ℕ) :=
  (s.read 8 n).map fun r => (r.1, r.2.1)

/-! ### Writing -/

def write (s : CellStream) (sizeofT n : ℕ) : Option (CellStream × Bool) :=
  if s.canWrite (wrap32 sizeofT) then do
    let pBuff ← memcpy s.pBuff s.nWritePos (encodeLE sizeofT n) sizeofT
    some ({ s with pBuff }.push (wrap32 sizeofT), true)
  else some (s, false)

def writeInt8 (s : CellStream) (n : ℕ) : Option (CellStream × Bool) :=
  s.write 1 n

def writeInt16 (s : CellStream) (n : ℕ) : Option (CellStream × Bool) :=
  s.write 2 n

def writeInt32 (s : CellStream) (n : ℕ) : Option (CellStream × Bool) :=
  s.write 4 n

def writeFloat (s : CellStream) (n : ℕ) : Option (CellStream × Bool) :=
  s.write 4 n

def writeDouble (s : CellStream) (n : ℕ) : Option (CellStream × Bool) :=
  s.write 8 n

/-- The result of writing the element count is not looked at. -/
def writeArray (s : CellStream) (sizeofT : ℕ) (pData : List UInt8) (len : ℕ) :
    Option (CellStream × Bool) :=
  let nLen := sizeofT * len % 2 ^ 64
  if s.canWrite (wrap32 ((nLen + 4) % 2 ^ 64 : ℕ)) then do
    let r ← s.writeInt32 len
    let pBuff ← memcpy r.1.pBuff r.1.nWritePos pData nLen
    some ({ r.1 with pBuff }.push (wrap32 nLen), true)
  else some (s, false)

end CellStream

/-! ### Message streams -/

def CMD_ERROR : ℕ := 7

namespace CellReadStream

open CellStream

def getNetCmd (s : CellStream) : Option (CellStream × ℕ) :=
  (s.read 2 CMD_ERROR).map fun r => (r.1, r.2.1)

/-- The constructor declares all `nSize` bytes written and reads past the header. -/
def new (pData : List UInt8) (nSize : ℤ) : Option CellStream := do
  let r ← (CellStream.new pData nSize).push nSize |>.readInt16
  let r ← getNetCmd r.1
  some r.1

/-- `CellReadStream(netmsg_DataHeader*)`. -/
def ofHeader (header : List UInt8) : Option CellStream :=
  new header (dataLength header)

end CellReadStream

namespace CellWriteStream

/-- The constructor reserves the space for the message length. -/
def new (pData : List UInt8) (nSize : ℤ) : Option CellStream :=
  ((CellStream.new pData nSize).write 2 0).map Prod.fst

def setNetCmd (s : CellStream) (cmd : ℕ) : Option CellStream :=
  (s.write 2 cmd).map Prod.fst

def writeString (s : CellStream) (str : List UInt8) (len : ℕ) : Option (CellStream × Bool) :=
  s.writeArray 1 str len

/-- Writes the position over the first two bytes, as a 16-bit value. -/
def finish (s : CellStream) : Option CellStream :=
  let pos := s.getWritePos
  ((s.setWritePos 0).write 2 (pos % 2 ^ 16).toNat).map fun r => r.1.setWritePos pos

end CellWriteStream

end CellNet
