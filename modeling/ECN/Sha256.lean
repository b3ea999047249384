import ECN.Hex

/-!
# SHA-256

The hash of FIPS 180-4 on lists of bytes, with words as natural numbers below
`2 ^ 32`. The message schedule is kept newest word first while it grows.
-/
namespace ECN
namespace Sha256

/-- Rotate a word right by `n`. -/
def rotr (n x : ℕ) : ℕ := (x >>> n) ||| ((x <<< (32 - n)) % 2 ^ 32)

def bigSigma0 (x : ℕ) : ℕ := rotr 2 x ^^^ rotr 13 x ^^^ rotr 22 x
def bigSigma1 (x : ℕ) : ℕ := rotr 6 x ^^^ rotr 11 x ^^^ rotr 25 x
def smallSigma0 (x : ℕ) : ℕ := rotr 7 x ^^^ rotr 18 x ^^^ (x >>> 3)
def smallSigma1 (x : ℕ) : ℕ := rotr 17 x ^^^ rotr 19 x ^^^ (x >>> 10)

def choose (x y z : ℕ) : ℕ := (x &&& y) ^^^ ((x ^^^ (2 ^ 32 - 1)) &&& z)
def majority (x y z : ℕ) : ℕ := (x &&& y) ^^^ (x &&& z) ^^^ (y &&& z)

def roundConstants : List ℕ :=
  [0x428a2f98, 0x71374491, 0xb5c0fbcf, 0xe9b5dba5, 0x3956c25b, 0x59f111f1, 0x923f82a4, 0xab1c5ed5,
   0xd807aa98, 0x12835b01, 0x243185be, 0x550c7dc3, 0x72be5d74, 0x80deb1fe, 0x9bdc06a7, 0xc19bf174,
   0xe49b69c1, 0xefbe4786, 0x0fc19dc6, 0x240ca1cc, 0x2de92c6f, 0x4a7484aa, 0x5cb0a9dc, 0x76f988da,
   0x983e5152, 0xa831c66d, 0xb00327c8, 0xbf597fc7, 0xc6e00bf3, 0xd5a79147, 0x06ca6351, 0x14292967,
   0x27b70a85, 0x2e1b2138, 0x4d2c6dfc, 0x53380d13, 0x650a7354, 0x766a0abb, 0x81c2c92e, 0x92722c85,
   0xa2bfe8a1, 0xa81a664b, 0xc24b8b70, 0xc76c51a3, 0xd192e819, 0xd6990624, 0xf40e3585, 0x106aa070,
   0x19a4c116, 0x1e376c08, 0x2748774c, 0x34b0bcb5, 0x391c0cb3, 0x4ed8aa4a, 0x5b9cca4f, 0x682e6ff3,
   0x748f82ee, 0x78a5636f, 0x84c87814, 0x8cc70208, 0x90befffa, 0xa4506ceb, 0xbef9a3f7, 0xc67178f2]

/-- The eight working variables. -/
structure Words where
  a : ℕ
  b : ℕ
  c : ℕ
  d : ℕ
  e : ℕ
  f : ℕ
  g : ℕ
  h : ℕ

def initial : Words :=
  ⟨0x6a09e667, 0xbb67ae85, 0x3c6ef372, 0xa54ff53a,
   0x510e527f, 0x9b05688c, 0x1f83d9ab, 0x5be0cd19⟩

def Words.toList (w : Words) : List ℕ := [w.a, w.b, w.c, w.d, w.e, w.f, w.g, w.h]

def round (w : Words) (kw : ℕ × ℕ) : Words :=
  let t₁ := w.h + bigSigma1 w.e + choose w.e w.f w.g + kw.1 + kw.2
  let t₂ := bigSigma0 w.a + majority w.a w.b w.c
  ⟨(t₁ + t₂) % 2 ^ 32, w.a, w.b, w.c, (w.d + t₁) % 2 ^ 32, w.e, w.f, w.g⟩

/-- Add `n` words to the schedule. -/
def extend : ℕ → List ℕ → List ℕ
  | 0, ws => ws
  | n + 1, ws => extend n (((smallSigma1 (ws.getD 1 0) + ws.getD 6 0 + smallSigma0 (ws.getD 14 0) +
      ws.getD 15 0) % 2 ^ 32) :: ws)

def bigEndian (bs : List UInt8) : ℕ := bs.foldl (fun n b => n * 256 + b.toNat) 0

/-- The first `n` words of a block. -/
def wordsOf (bs : List UInt8) : ℕ → List ℕ
  | 0 => []
  | n + 1 => bigEndian (bs.take 4) :: wordsOf (bs.drop 4) n

/-- The compression function on one block of 64 bytes. -/
def compress (w : Words) (block : List UInt8) : Words :=
  let schedule := (extend 48 (wordsOf block 16).reverse).reverse
  let v := (roundConstants.zip schedule).foldl round w
  ⟨(w.a + v.a) % 2 ^ 32, (w.b + v.b) % 2 ^ 32, (w.c + v.c) % 2 ^ 32, (w.d + v.d) % 2 ^ 32,
   (w.e + v.e) % 2 ^ 32, (w.f + v.f) % 2 ^ 32, (w.g + v.g) % 2 ^ 32, (w.h + v.h) % 2 ^ 32⟩

/-- The low `width` bytes of `n`, most significant first. -/
def bytesOf (width n : ℕ) : List UInt8 :=
  (List.range width).map fun i => UInt8.ofNat (n >>> (8 * (width - 1 - i)))

/-- One bit, zeros, and the bit length in eight bytes. -/
def pad (bs : List UInt8) : List UInt8 :=
  bs ++ 0x80 :: List.replicate ((119 - bs.length % 64) % 64) 0 ++ bytesOf 8 (8 * bs.length)

def blocks (w : Words) : ℕ → List UInt8 → Words
  | 0, _ => w
  | n + 1, bs => blocks (compress w (bs.take 64)) n (bs.drop 64)

/-- The 32 bytes of the digest. -/
def digest (bs : List UInt8) : List UInt8 :=
  ((blocks initial ((pad bs).length / 64) (pad bs)).toList).flatMap (bytesOf 4)

theorem digest_length (bs : List UInt8) : (digest bs).length = 32 := by
  simp [digest, Words.toList, bytesOf]

example : toHex (digest (utf8 "abc")) =
    "ba7816bf8f01cfea414140de5dae2223b00361a396177a9cb410ff61f20015ad" := by
  decide +kernel

end Sha256
end ECN
