import NirnProxy.Text

/-! SHA-256 over byte strings, as `crypto/sha256` computes it. -/

namespace NirnProxy.Sha256

def rotr (x n : UInt32) : UInt32 := (x >>> n) ||| (x <<< (32 - n))

def choose (x y z : UInt32) : UInt32 := (x &&& y) ^^^ (~~~x &&& z)

def majority (x y z : UInt32) : UInt32 := (x &&& y) ^^^ (x &&& z) ^^^ (y &&& z)

def bigSigma0 (x : UInt32) : UInt32 := rotr x 2 ^^^ rotr x 13 ^^^ rotr x 22

def bigSigma1 (x : UInt32) : UInt32 := rotr x 6 ^^^ rotr x 11 ^^^ rotr x 25

def smallSigma0 (x : UInt32) : UInt32 := rotr x 7 ^^^ rotr x 18 ^^^ (x >>> 3)

def smallSigma1 (x : UInt32) : UInt32 := rotr x 17 ^^^ rotr x 19 ^^^ (x >>> 10)

def roundConstants : List UInt32 :=
  [0x428a2f98, 0x71374491, 0xb5c0fbcf, 0xe9b5dba5, 0x3956c25b, 0x59f111f1, 0x923f82a4, 0xab1c5ed5,
   0xd807aa98, 0x12835b01, 0x243185be, 0x550c7dc3, 0x72be5d74, 0x80deb1fe, 0x9bdc06a7, 0xc19bf174,
   0xe49b69c1, 0xefbe4786, 0x0fc19dc6, 0x240ca1cc, 0x2de92c6f, 0x4a7484aa, 0x5cb0a9dc, 0x76f988da,
   0x983e5152, 0xa831c66d, 0xb00327c8, 0xbf597fc7, 0xc6e00bf3, 0xd5a79147, 0x06ca6351, 0x14292967,
   0x27b70a85, 0x2e1b2138, 0x4d2c6dfc, 0x53380d13, 0x650a7354, 0x766a0abb, 0x81c2c92e, 0x92722c85,
   0xa2bfe8a1, 0xa81a664b, 0xc24b8b70, 0xc76c51a3, 0xd192e819, 0xd6990624, 0xf40e3585, 0x106aa070,
   0x19a4c116, 0x1e376c08, 0x2748774c, 0x34b0bcb5, 0x391c0cb3, 0x4ed8aa4a, 0x5b9cca4f, 0x682e6ff3,
   0x748f82ee, 0x78a5636f, 0x84c87814, 0x8cc70208, 0x90befffa, 0xa4506ceb, 0xbef9a3f7, 0xc67178f2]

structure State where
  a : UInt32
  b : UInt32
  c : UInt32
  d : UInt32
  e : UInt32
  f : UInt32
  g : UInt32
  h : UInt32

def State.initial : State :=
  ⟨0x6a09e667, 0xbb67ae85, 0x3c6ef372, 0xa54ff53a, 0x510e527f, 0x9b05688c, 0x1f83d9ab, 0x5be0cd19⟩

def State.add (s t : State) : State :=
  ⟨s.a + t.a, s.b + t.b, s.c + t.c, s.d + t.d, s.e + t.e, s.f + t.f, s.g + t.g, s.h + t.h⟩

def State.words (s : State) : List UInt32 := [s.a, s.b, s.c, s.d, s.e, s.f, s.g, s.h]

def extend : Nat → List UInt32 → List UInt32
  | 0, w => w
  | n + 1, w =>
    extend n
      ((smallSigma1 (w.getD 1 0) + w.getD 6 0 + smallSigma0 (w.getD 14 0) + w.getD 15 0) :: w)

def schedule (block : List UInt32) : List UInt32 := (extend 48 block.reverse).reverse

def round (s : State) (kw : UInt32 × UInt32) : State :=
  let t1 := s.h + bigSigma1 s.e + choose s.e s.f s.g + kw.1 + kw.2
  let t2 := bigSigma0 s.a + majority s.a s.b s.c
  ⟨t1 + t2, s.a, s.b, s.c, s.d + t1, s.e, s.f, s.g⟩

def compress (s : State) (block : List UInt32) : State :=
  s.add ((roundConstants.zip (schedule block)).foldl round s)

def bytesOf (n x : Nat) : List UInt8 :=
  ((List.range n).map fun i => UInt8.ofNat (x / 256 ^ i)).reverse

def pad (data : List UInt8) : List UInt8 :=
  data ++ 128 :: List.replicate ((119 - data.length % 64) % 64) 0 ++ bytesOf 8 (8 * data.length)

def wordsOf (data : List UInt8) : List UInt32 :=
  (List.range (data.length / 4)).map fun i =>
    UInt32.ofNat (Text.bigEndian ((data.drop (4 * i)).take 4))

def blocksOf (data : List UInt32) : List (List UInt32) :=
  (List.range (data.length / 16)).map fun i => (data.drop (16 * i)).take 16

def sum256 (data : List UInt8) : List UInt8 :=
  ((blocksOf (wordsOf (pad data))).foldl compress State.initial).words.flatMap fun w =>
    bytesOf 4 w.toNat

theorem length_sum256 (data : List UInt8) : (sum256 data).length = 32 := by
  simp [sum256, State.words, bytesOf]

def digest (data : List UInt8) : Vector UInt8 32 :=
  ⟨(sum256 data).toArray, by rw [List.size_toArray, length_sum256]⟩

theorem digest_inj {data data' : List UInt8} :
    digest data = digest data' ↔ sum256 data = sum256 data' := by
  simp [digest]

-- the digest of "abc"
example : Text.bigEndian (sum256 [97, 98, 99]) =
    0xba7816bf8f01cfea414140de5dae2223b00361a396177a9cb410ff61f20015ad := by
  decide +kernel

end NirnProxy.Sha256
