import CellNet.Library.Memory

/-! The send and receive buffer: one allocated block, a fill level and the calls
that append, consume and move bytes. A result `none` is undefined behaviour. -/

namespace CellNet

open Library

abbrev SOCKET := ℤ

def INVALID_SOCKET : SOCKET := -1

def SOCKET_ERROR : ℤ := -1

def SEND_BUFF_SIZE : ℤ := 102400

/-! ### The message header, as it lies in memory -/

def sizeofDataHeader : ℕ := 4

def dataLength (header : List UInt8) : ℕ :=
  decodeLE (slice header 0 2)

def cmd (header : List UInt8) : ℕ :=
  decodeLE (slice header 2 2)

/-- Copying `n` bytes of `src` into the block `dst`, at offset `off`. The copy is
undefined when the range leaves either block; a negative `n` is a huge `size_t`. -/
def memcpy (dst : List UInt8) (off : ℤ) (src : List UInt8) (n : ℤ) : Option (List UInt8) :=
  if 0 ≤ off ∧ 0 ≤ n ∧ off + n ≤ dst.length ∧ n ≤ src.length then
    some (blit dst off.toNat (src.take n.toNat))
  else none

/-- What a posted overlapped operation captures of the buffer. -/
structure IoData where
  sockfd : SOCKET
  buf : ℤ
  len : ℤ
deriving Repr, DecidableEq

structure CellBuffer where
  pBuff : List UInt8
  nLast : ℤ
  nSize : ℤ
  fullCount : ℤ
deriving Repr, DecidableEq

namespace CellBuffer

/-- The constructor; `block` is the uninitialised memory that `new` returns. -/
def new (nSize : ℤ) (block : List UInt8) : CellBuffer :=
  ⟨block, 0, nSize, 0⟩

def data (b : CellBuffer) : List UInt8 := b.pBuff

def dataLen (b : CellBuffer) : ℤ := b.nLast

/-- The admission test adds two `int`s and compares the wrapped sum. -/
def push (b : CellBuffer) (pData : List UInt8) (nLen : ℤ) : Option (CellBuffer × Bool) :=
  let nLast := wrap32 (b.nLast + nLen)
  if nLast ≤ b.nSize then do
    let pBuff ← memcpy b.pBuff b.nLast pData nLen
    let fullCount := if nLast = SEND_BUFF_SIZE then b.fullCount + 1 else b.fullCount
    some ({ b with pBuff, nLast, fullCount }, true)
  else
    some ({ b with fullCount := b.fullCount + 1 }, false)

/-- The compaction copy of `n` bytes from offset `from` to the front. It moves the
bytes as intended even where the two ranges overlap. -/
def compact (pBuff : List UInt8) (from' n : ℤ) : List UInt8 :=
  blit pBuff 0 (slice pBuff from'.toNat n.toNat)

def pop (b : CellBuffer) (nLen : ℤ) : CellBuffer :=
  let n := b.nLast - nLen
  { b with
    pBuff := if n > 0 then compact b.pBuff nLen n else b.pBuff
    nLast := n
    fullCount := if b.fullCount > 0 then b.fullCount - 1 else b.fullCount }

/-- `ret` is what `send` returns when it is offered the whole buffer. -/
def write2socket (b : CellBuffer) (sockfd : SOCKET) (ret : ℤ) : CellBuffer × ℤ :=
  if b.nLast > 0 ∧ INVALID_SOCKET ≠ sockfd then
    if ret ≤ 0 then (b, SOCKET_ERROR)
    else if ret = b.nLast then ({ b with nLast := 0, fullCount := 0 }, ret)
    else
      let nLast := b.nLast - ret
      ({ b with pBuff := compact b.pBuff ret nLast, nLast, fullCount := 0 }, ret)
  else (b, 0)

/-- The bytes that the `send` call of `write2socket` hands to the kernel. -/
def wire (b : CellBuffer) (sockfd : SOCKET) (ret : ℤ) : List UInt8 :=
  if b.nLast > 0 ∧ INVALID_SOCKET ≠ sockfd then b.pBuff.take ret.toNat else []

/-- `recv` is the answer of the call: `none` for a failure, the received bytes
otherwise, which are none at the end of the stream. -/
def read4socket (b : CellBuffer) (recv : Option (List UInt8)) : CellBuffer × ℤ :=
  if b.nSize - b.nLast > 0 then
    match recv with
    | none => (b, SOCKET_ERROR)
    | some bytes =>
        if bytes.length = 0 then (b, SOCKET_ERROR)
        else
          ({ b with
              pBuff := blit b.pBuff b.nLast.toNat bytes
              nLast := b.nLast + bytes.length }, bytes.length)
  else (b, 0)

/-- The comparison with `sizeof` is unsigned. -/
def hasMsg (b : CellBuffer) : Bool :=
  if (sizeofDataHeader : ℤ) ≤ b.nLast % 2 ^ 64 then decide ((dataLength b.pBuff : ℤ) ≤ b.nLast)
  else false

def needWrite (b : CellBuffer) : Bool :=
  decide (b.nLast > 0)

def makeRecvIoData (b : CellBuffer) (sockfd : SOCKET) : Option IoData :=
  let nLen := b.nSize - b.nLast
  if nLen > 0 then some ⟨sockfd, b.nLast, nLen⟩ else none

def makeSendIoData (b : CellBuffer) (sockfd : SOCKET) : Option IoData :=
  if b.nLast > 0 then some ⟨sockfd, 0, b.nLast⟩ else none

def read4Iocp (b : CellBuffer) (nRecv : ℤ) : CellBuffer × Bool :=
  if nRecv > 0 ∧ b.nSize - b.nLast ≥ nRecv then ({ b with nLast := b.nLast + nRecv }, true)
  else (b, false)

def write2Iocp (b : CellBuffer) (nSend : ℤ) : CellBuffer × Bool :=
  if b.nLast < nSend then (b, false)
  else if nSend = b.nLast then ({ b with nLast := 0, fullCount := 0 }, true)
  else
    let nLast := b.nLast - nSend
    ({ b with pBuff := compact b.pBuff nSend nLast, nLast, fullCount := 0 }, true)

end CellBuffer

end CellNet
