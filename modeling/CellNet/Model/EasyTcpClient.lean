import CellNet.Model.CellStream
import CellNet.Model.MyClient

/-! The client side of the library: the functions of `EasyTcpClient` around its message loop,
what `OnRun` of `EasyEpollClient` and of `EasySelectClient` does on a readable socket, and the
functions that `CppNet100` exports with a length as an `int`. -/

namespace CellNet

open Library

namespace EasyTcpClient

variable {σ : Type*}

/-- `SendData(const char*, int)`. -/
def sendData (e : EasyTcpClient σ) (pData : List UInt8) (len : ℤ) :
    Option (EasyTcpClient σ × ℤ) :=
  if e.isRun then
    e.pClient.bind fun c => (c.sendData pData len).map fun r =>
      ({ e with pClient := some r.1 }, r.2)
  else some (e, 0)

def close (e : EasyTcpClient σ) : EasyTcpClient σ :=
  { e with pClient := none, isConnect := false }

section Loop

variable (onNetMsg : EasyTcpClient σ → List UInt8 → EasyTcpClient σ)

/-- `none` also stands for a loop that does not end. -/
def doMsg : ℕ → EasyTcpClient σ → Option (EasyTcpClient σ)
  | 0, _ => none
  | fuel + 1, e =>
      e.hasMsg.bind fun b => if b then (e.msgBody onNetMsg).bind (doMsg fuel) else some e

def recvData (fuel : ℕ) (e : EasyTcpClient σ) (recv : Option (List UInt8)) :
    Option (EasyTcpClient σ × ℤ) :=
  if e.isRun then
    e.pClient.bind fun c =>
      let r := c.recvData recv
      let e := { e with pClient := some r.1 }
      if r.2 > 0 then (doMsg onNetMsg fuel e).map fun e => (e, r.2) else some (e, r.2)
  else some (e, 0)

/-- `if (SOCKET_ERROR == RecvData()) Close();`, which is what both classes do when the socket
is reported as readable. -/
def onReadable (fuel : ℕ) (e : EasyTcpClient σ) (recv : Option (List UInt8)) :
    Option (EasyTcpClient σ) :=
  (e.recvData onNetMsg fuel recv).map fun r => if SOCKET_ERROR = r.2 then r.1.close else r.1

end Loop

end EasyTcpClient

/-! ### The exported functions -/

/-- The conversion of an `int` to `uint32_t`. -/
def toUInt32 (n : ℤ) : ℕ := (n % 2 ^ 32).toNat

/-- `CellClient_SendData`. -/
def cellClient_SendData {σ : Type*} (pClient : Option (EasyTcpClient σ)) (data : List UInt8)
    (len : ℤ) : Option (Option (EasyTcpClient σ) × ℤ) :=
  match pClient with
  | none => some (none, 0)
  | some e => (e.sendData data len).map fun r => (some r.1, r.2)

/-- `writeString(const char*, int)`. -/
def CellWriteStream.writeChars (s : CellStream) (str : List UInt8) (len : ℤ) :
    Option (CellStream × Bool) :=
  s.writeArray 1 str (toUInt32 len)

/-- The bytes in front of the first zero byte; there has to be one. -/
def strlen (str : List UInt8) : Option ℕ := str.findIdx? (· == 0)

/-- `writeString(const char*)`; the length becomes a `uint32_t`. -/
def CellWriteStream.writeCString (s : CellStream) (str : List UInt8) :
    Option (CellStream × Bool) :=
  (strlen str).bind fun n => s.writeArray 1 str (n % 2 ^ 32)

/-- `CellWriteStream_WriteString`. -/
def cellWriteStream_WriteString (wStream : Option CellStream) (n : List UInt8) :
    Option (Option CellStream × Bool) :=
  match wStream with
  | none => some (none, false)
  | some s => (CellWriteStream.writeCString s n).map fun r => (some r.1, r.2)

/-- `CellReadStream_ReadString`. -/
def cellReadStream_ReadString (rStream : Option CellStream) (buffer : Option (List UInt8))
    (len : ℤ) : Option (Option CellStream × Option (List UInt8) × Bool) :=
  match rStream, buffer with
  | some s, some b => (s.readArray 1 b (toUInt32 len)).map fun r =>
      (some r.1, some r.2.1, decide (r.2.2 ≠ 0))
  | _, _ => some (rStream, buffer, false)

end CellNet
