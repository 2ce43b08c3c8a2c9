import Mathlib.Logic.Function.Iterate

/-! `HashCRC64` over byte strings: the CRC-64 of the ISO polynomial, bit-reflected, with the
register inverted before and after. -/

namespace NirnProxy

def isoPolynomial : UInt64 := 0xD800000000000000

def crc64Shift (crc : UInt64) : UInt64 :=
  if crc &&& 1 = 1 then (crc >>> 1) ^^^ isoPolynomial else crc >>> 1

/-- The entry of `crc64Table` at an index below 256. -/
def crc64Table (i : UInt64) : UInt64 := crc64Shift^[8] i

def crc64Update (crc : UInt64) (v : UInt8) : UInt64 :=
  crc64Table ((crc &&& 0xFF) ^^^ v.toUInt64) ^^^ (crc >>> 8)

def hashCRC64 (data : List UInt8) : UInt64 := ~~~(data.foldl crc64Update (~~~0))

def canonicalHash (discordBucket majorKey : List UInt8) : UInt64 :=
  hashCRC64 (discordBucket ++ 0 :: majorKey)

example : hashCRC64 [116, 101, 115, 116, 32, 100, 97, 116, 97] = 10232006911339297906 := by
  decide +kernel

end NirnProxy
