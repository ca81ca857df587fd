import ZeroLanCom.Utils.Text

/-!
# Node identifiers

`generateUUID` writes four random 32-bit draws as a version 4 UUID. The draws
are its arguments here.
-/

namespace ZeroLanCom

/-- `using UUID = std::string`. -/
abbrev UUID := Str

/-- One lower-case hexadecimal digit. -/
def hexDigit (d : UInt8) : UInt8 := if d < 10 then 48 + d else 87 + d

/-- `std::setw(2)` with fill `'0'` in `std::hex`. -/
def hexByte (b : UInt8) : Str := [hexDigit (b >>> 4), hexDigit (b &&& 0x0F)]

/-- The sixteen bytes of an identifier, with its version and variant bits set. -/
def uuidBytes (r₀ r₁ r₂ r₃ : UInt32) : Bytes :=
  ((be32 r₀ ++ be32 r₁ ++ be32 r₂ ++ be32 r₃).modify 6 fun b => (b &&& 0x0F) ||| 0x40).modify 8
    fun b => (b &&& 0x3F) ||| 0x80

/-- The separator the formatting loop writes behind byte `i`. -/
def uuidSeparator (i : Nat) : Str :=
  if i = 3 ∨ i = 5 ∨ i = 7 ∨ i = 9 then ascii "-" else []

/-- `generateUUID`, formatted as 8-4-4-4-12. -/
def generateUUID (r₀ r₁ r₂ r₃ : UInt32) : UUID :=
  (uuidBytes r₀ r₁ r₂ r₃).zipIdx.flatMap fun p => hexByte p.1 ++ uuidSeparator p.2

/-- The heartbeat encoder relies on this length. -/
theorem length_generateUUID (r₀ r₁ r₂ r₃ : UInt32) :
    (generateUUID r₀ r₁ r₂ r₃).length = 36 := rfl

end ZeroLanCom
