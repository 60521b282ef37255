import Nxp.Types

/-! The CRC32C checksum, computed an octet at a time from a table. -/

namespace Nxp

/-- The Castagnoli polynomial with its bits reversed. -/
def crc32cPoly : UInt32 := 0x82F63B78

/-- One turn of the loop that fills in a table entry. -/
def crc32cTurn (crc : UInt32) : UInt32 :=
  if crc &&& 1 ≠ 0 then (crc >>> 1) ^^^ crc32cPoly else crc >>> 1

/-- The loop over the bits of a table entry. -/
def crc32cTurns : Nat → UInt32 → UInt32
  | 0, crc => crc
  | turns + 1, crc => crc32cTurns turns (crc32cTurn crc)

/-- The table as its initialization leaves it: eight turns from every octet. -/
def crc32cTable : Vector UInt32 256 :=
  Vector.ofFn fun i => crc32cTurns 8 (UInt32.ofNat i)

/-- The register after one octet. -/
def crc32cOctet (crc : UInt32) (octet : UInt8) : UInt32 :=
  crc32cTable[((crc ^^^ octet.toUInt32) &&& 0xFF).toNat]?.getD 0 ^^^ (crc >>> 8)

/-- Carry a checksum on over more octets. -/
def crc32cUpdate (crc : UInt32) (data : Bytes) : UInt32 :=
  ~~~data.foldl crc32cOctet (~~~crc)

/-- The checksum of a buffer. -/
def crc32c (data : Bytes) : UInt32 :=
  crc32cUpdate 0 data

end Nxp
