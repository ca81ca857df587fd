import ZeroLanCom.Utils.Event
import ZeroLanCom.Utils.Text

/-!
# Serialisation

`encode` and `decode` wrap MessagePack for one message type: whatever it throws
becomes an `EncodeException` or a `DecodeException`. Service names travel as
bare bytes and are read back up to the first zero byte.
-/

namespace ZeroLanCom

/-- MessagePack for the type `ρ`; no result means that the library throws. It never reads a
value out of no bytes. -/
structure MsgPack (ρ : Type*) where
  pack : ρ → Option Bytes
  unpack : Bytes → Option ρ
  unpack_nil : unpack [] = none

/-- The adaptors of `Empty`, which travels as nil. -/
def emptyCodec : MsgPack Unit where
  pack _ := some [0xC0]
  unpack b := if b.head? = some 0xC0 then some () else none
  unpack_nil := rfl

variable {ρ : Type*}

/-- `encode`. What MessagePack cannot pack is rethrown as an exception of its own class. -/
def MsgPack.encode (c : MsgPack ρ) (obj : ρ) : Except Exn Bytes :=
  match c.pack obj with
  | some out => .ok out
  | none => .error .encodeException

/-- `decode`. So is what it cannot unpack. -/
def MsgPack.decode (c : MsgPack ρ) (bv : Bytes) : Except Exn ρ :=
  match c.unpack bv with
  | some out => .ok out
  | none => .error .decodeException

/-- `decodeServiceHeader`: at most `kMaxLen` bytes before a zero byte. -/
def decodeServiceHeader (payload : Bytes) : Str := (payload.take 1024).takeWhile (· ≠ 0)

end ZeroLanCom
