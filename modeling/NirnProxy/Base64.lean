import NirnProxy.Strings

/-! Base64 with the standard alphabet and padding, as `base64.StdEncoding` decodes it: line breaks
are skipped, the last group may be padded, and the bits that padding leaves over are not looked at.
The raw encodings have no padding, and one of them has an alphabet for URLs. -/

namespace NirnProxy.Base64

open Strings (ascii)

def index (c : UInt8) : Option Nat :=
  if 65 ≤ c ∧ c ≤ 90 then some (c.toNat - 65)
  else if 97 ≤ c ∧ c ≤ 122 then some (c.toNat - 71)
  else if 48 ≤ c ∧ c ≤ 57 then some (c.toNat + 4)
  else if c = 43 then some 62
  else if c = 47 then some 63
  else none

def padding : UInt8 := 61

def firstByte (a b : Nat) : UInt8 := UInt8.ofNat (4 * a + b / 16)

def secondByte (b c : Nat) : UInt8 := UInt8.ofNat (b % 16 * 16 + c / 4)

def thirdByte (c d : Nat) : UInt8 := UInt8.ofNat (c % 4 * 64 + d)

def decodeGroups : List UInt8 → Option (List UInt8)
  | [] => some []
  | a :: b :: c :: d :: rest =>
    if c = padding ∧ d = padding ∧ rest = [] then do
      let a ← index a
      let b ← index b
      some [firstByte a b]
    else if d = padding ∧ rest = [] then do
      let a ← index a
      let b ← index b
      let c ← index c
      some [firstByte a b, secondByte b c]
    else do
      let a ← index a
      let b ← index b
      let c ← index c
      let d ← index d
      let decoded ← decodeGroups rest
      some (firstByte a b :: secondByte b c :: thirdByte c d :: decoded)
  | _ => none

/-- `base64.StdEncoding.DecodeString`; `none` stands for its error. -/
def decodeString (s : List UInt8) : Option (List UInt8) :=
  decodeGroups (s.filter fun c => c ≠ 10 ∧ c ≠ 13)

example : decodeString (ascii "aW50ZXJhY3Rpb246MTIzOg==") = some (ascii "interaction:123:") := by
  decide +kernel

def indexURL (c : UInt8) : Option Nat :=
  if c = 45 then some 62
  else if c = 95 then some 63
  else if c = 43 ∨ c = 47 then none
  else index c

/-- Without padding the last group may be short, but not of one symbol. -/
def decodeRawGroups (index : UInt8 → Option Nat) : List UInt8 → Option (List UInt8)
  | [] => some []
  | [_] => none
  | [a, b] => do
    let a ← index a
    let b ← index b
    some [firstByte a b]
  | [a, b, c] => do
    let a ← index a
    let b ← index b
    let c ← index c
    some [firstByte a b, secondByte b c]
  | a :: b :: c :: d :: rest => do
    let a ← index a
    let b ← index b
    let c ← index c
    let d ← index d
    let decoded ← decodeRawGroups index rest
    some (firstByte a b :: secondByte b c :: thirdByte c d :: decoded)

/-- `base64.RawStdEncoding.DecodeString` and, with its alphabet, that of `RawURLEncoding`. -/
def decodeRawString (index : UInt8 → Option Nat) (s : List UInt8) : Option (List UInt8) :=
  decodeRawGroups index (s.filter fun c => c ≠ 10 ∧ c ≠ 13)

example : decodeRawString indexURL (ascii "MTIz_w") = some [49, 50, 51, 255] := by decide +kernel

end NirnProxy.Base64
