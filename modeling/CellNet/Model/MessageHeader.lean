import CellNet.Model.CellStream

/-! The commands and the messages of fixed layout, as they lie in memory. -/

namespace CellNet

open Library

def CMD_LOGIN : ℕ := 0

def CMD_LOGIN_RESULT : ℕ := 1

def CMD_LOGOUT : ℕ := 2

def CMD_LOGOUT_RESULT : ℕ := 3

def CMD_NEW_USER_JOIN : ℕ := 4

def CMD_C2S_HEART : ℕ := 5

def CMD_S2C_HEART : ℕ := 6

/-- The four bytes of an `int`. -/
def encodeInt (n : ℤ) : List UInt8 := encodeLE 4 (n % 2 ^ 32).toNat

def decodeInt (bytes : List UInt8) : ℤ := wrap32 (decodeLE bytes)

/-- `netmsg_DataHeader`. -/
def netmsg_DataHeader (dataLength cmd : ℕ) : List UInt8 := encodeLE 2 dataLength ++ encodeLE 2 cmd

def sizeofLogin : ℕ := 100

/-- `netmsg_Login`; `fields` are the user name, the password and `data`, 92 bytes. -/
def netmsg_Login (fields : List UInt8) (msgID : ℤ) : List UInt8 :=
  netmsg_DataHeader sizeofLogin CMD_LOGIN ++ fields ++ encodeInt msgID

/-- `netmsg_LoginR`; its `data` of 88 bytes is not initialised. -/
def netmsg_LoginR (data : List UInt8) (msgID : ℤ) : List UInt8 :=
  netmsg_DataHeader sizeofLogin CMD_LOGIN_RESULT ++ (encodeInt 1 ++ data) ++ encodeInt msgID

/-- `login->msgID` and `loginret->msgID`, which have the same place. The pointer was cast, so
the place is read whatever the header says of the length. -/
def msgID (header : List UInt8) : Option ℤ := (load header 96 4).map decodeInt

/-- `netmsg_s2c_Heart`. -/
def netmsg_s2c_Heart : List UInt8 := netmsg_DataHeader 4 CMD_S2C_HEART

end CellNet
