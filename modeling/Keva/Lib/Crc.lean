import Mathlib.Data.List.Basic

/-!
# Reflected 64-bit cyclic redundancy checks

The checksum of a byte string with a table of 256 remainders, one for each value of the low byte.
`update` continues a checksum: it complements the register before and after, so that a string may be
given in pieces.
-/

namespace Crc

/-- One bit of the division by `poly`. -/
def shift (poly c : UInt64) : UInt64 :=
  if c &&& 1 = 1 then poly ^^^ (c >>> 1) else c >>> 1

/-- The remainder for a low byte `i`. -/
def tableEntry (poly i : UInt64) : UInt64 := Nat.repeat (shift poly) 8 i

def updateByte (poly c : UInt64) (b : UInt8) : UInt64 :=
  tableEntry poly ((c ^^^ b.toUInt64) &&& 0xFF) ^^^ (c >>> 8)

def update (poly crc : UInt64) (bytes : List UInt8) : UInt64 :=
  ~~~(bytes.foldl (updateByte poly) (~~~crc))

theorem update_nil (poly crc : UInt64) : update poly crc [] = crc := UInt64.not_not

theorem update_append (poly crc : UInt64) (bytes bytes' : List UInt8) :
    update poly (update poly crc bytes) bytes' = update poly crc (bytes ++ bytes') := by
  unfold update
  rw [UInt64.not_not, List.foldl_append]

end Crc
