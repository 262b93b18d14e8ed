import TandemVerifier.Library.FixedWidth

/-! # SHA-256, RIPEMD-160 and compressed secp256k1 points

Executable definitions of the two compression functions over 32-bit words, the
padding to 64-byte blocks that they share, the digests of byte strings, and the
test that a compressed encoding is a point of the curve.
-/
namespace TandemVerifier.Library.Crypto

section Words

def word (x : ℕ) : ℕ := x % 2 ^ 32
def complement (x : ℕ) : ℕ := 2 ^ 32 - 1 - x
def rotr (n x : ℕ) : ℕ := x >>> n ||| word (x <<< (32 - n))
def rotl (n x : ℕ) : ℕ := word (x <<< n) ||| x >>> (32 - n)

def beBytes (width n : ℕ) : Bytes := (leBytes width n).reverse

/-- Split into groups of a positive size; a shorter last group is kept. -/
def groups {α : Type} (size : ℕ) : ℕ → List α → List (List α)
  | 0,_ => []
  | fuel + 1,xs => if xs.isEmpty then [] else xs.take size :: groups size fuel (xs.drop size)

/-- A one bit, zeros up to the length field, and the bit length in the given byte order. -/
def padded (encode : ℕ → ℕ → Bytes) (bytes : Bytes) : Bytes :=
  bytes ++ [0x80] ++ List.replicate ((119 - bytes.length % 64) % 64) 0 ++ encode 8 (8 * bytes.length)

/-- The padded message as blocks of sixteen words. -/
def wordBlocks (encode : ℕ → ℕ → Bytes) (decode : Bytes → ℕ) (bytes : Bytes) : List (List ℕ) :=
  let message := padded encode bytes
  groups 16 message.length ((groups 4 message.length message).map decode)

end Words

section Sha256

def shaConstants : List ℕ := [
  0x428a2f98,0x71374491,0xb5c0fbcf,0xe9b5dba5,0x3956c25b,0x59f111f1,0x923f82a4,0xab1c5ed5,
  0xd807aa98,0x12835b01,0x243185be,0x550c7dc3,0x72be5d74,0x80deb1fe,0x9bdc06a7,0xc19bf174,
  0xe49b69c1,0xefbe4786,0x0fc19dc6,0x240ca1cc,0x2de92c6f,0x4a7484aa,0x5cb0a9dc,0x76f988da,
  0x983e5152,0xa831c66d,0xb00327c8,0xbf597fc7,0xc6e00bf3,0xd5a79147,0x06ca6351,0x14292967,
  0x27b70a85,0x2e1b2138,0x4d2c6dfc,0x53380d13,0x650a7354,0x766a0abb,0x81c2c92e,0x92722c85,
  0xa2bfe8a1,0xa81a664b,0xc24b8b70,0xc76c51a3,0xd192e819,0xd6990624,0xf40e3585,0x106aa070,
  0x19a4c116,0x1e376c08,0x2748774c,0x34b0bcb5,0x391c0cb3,0x4ed8aa4a,0x5b9cca4f,0x682e6ff3,
  0x748f82ee,0x78a5636f,0x84c87814,0x8cc70208,0x90befffa,0xa4506ceb,0xbef9a3f7,0xc67178f2]

structure ShaState where
  a : ℕ
  b : ℕ
  c : ℕ
  d : ℕ
  e : ℕ
  f : ℕ
  g : ℕ
  h : ℕ

def shaInitial : ShaState :=
  ⟨0x6a09e667,0xbb67ae85,0x3c6ef372,0xa54ff53a,0x510e527f,0x9b05688c,0x1f83d9ab,0x5be0cd19⟩

/-- The word that extends a window of sixteen scheduled words. -/
def shaSchedule (window : List ℕ) : ℕ :=
  match window with
  | w0 :: w1 :: _ :: _ :: _ :: _ :: _ :: _ :: _ :: w9 :: _ :: _ :: _ :: _ :: w14 :: _ =>
    let sigma0 := rotr 7 w1 ^^^ rotr 18 w1 ^^^ w1 >>> 3
    let sigma1 := rotr 17 w14 ^^^ rotr 19 w14 ^^^ w14 >>> 10
    word (sigma1 + w9 + sigma0 + w0)
  | _ => 0

def shaRound (s : ShaState) (constant scheduled : ℕ) : ShaState :=
  let sum0 := rotr 2 s.a ^^^ rotr 13 s.a ^^^ rotr 22 s.a
  let sum1 := rotr 6 s.e ^^^ rotr 11 s.e ^^^ rotr 25 s.e
  let choice := (s.e &&& s.f) ^^^ (complement s.e &&& s.g)
  let majority := (s.a &&& s.b) ^^^ (s.a &&& s.c) ^^^ (s.b &&& s.c)
  let first := s.h + sum1 + choice + constant + scheduled
  ⟨word (first + sum0 + majority),s.a,s.b,s.c,word (s.d + first),s.e,s.f,s.g⟩

def shaRounds : List ℕ → List ℕ → ShaState → ShaState
  | constant :: constants,scheduled :: window,s =>
    shaRounds constants (window ++ [shaSchedule (scheduled :: window)]) (shaRound s constant scheduled)
  | _,_,s => s

def shaCompress (s : ShaState) (block : List ℕ) : ShaState :=
  match shaRounds shaConstants block s with
  | ⟨a,b,c,d,e,f,g,h⟩ =>
    ⟨word (s.a + a),word (s.b + b),word (s.c + c),word (s.d + d),word (s.e + e),word (s.f + f),
      word (s.g + g),word (s.h + h)⟩

def sha256 (bytes : Bytes) : ByteVector 32 :=
  let s := (wordBlocks beBytes (fun b => ofLeBytes b.reverse) bytes).foldl shaCompress shaInitial
  ⟨[beBytes 4 s.a,beBytes 4 s.b,beBytes 4 s.c,beBytes 4 s.d,beBytes 4 s.e,beBytes 4 s.f,
    beBytes 4 s.g,beBytes 4 s.h].flatten,by simp [beBytes]⟩

end Sha256

section Ripemd160

structure RipemdState where
  a : ℕ
  b : ℕ
  c : ℕ
  d : ℕ
  e : ℕ

def ripemdInitial : RipemdState := ⟨0x67452301,0xefcdab89,0x98badcfe,0x10325476,0xc3d2e1f0⟩

def ripemdMix : List (ℕ → ℕ → ℕ → ℕ) := [
  fun x y z => x ^^^ y ^^^ z,
  fun x y z => (x &&& y) ||| (complement x &&& z),
  fun x y z => (x ||| complement y) ^^^ z,
  fun x y z => (x &&& z) ||| (y &&& complement z),
  fun x y z => x ^^^ (y ||| complement z)]

def leftConstants : List ℕ := [0,0x5a827999,0x6ed9eba1,0x8f1bbcdc,0xa953fd4e]
def rightConstants : List ℕ := [0x50a28be6,0x5c4dd124,0x6d703ef3,0x7a6d76e9,0]

def leftWords : List (List ℕ) := [
  [0,1,2,3,4,5,6,7,8,9,10,11,12,13,14,15],
  [7,4,13,1,10,6,15,3,12,0,9,5,2,14,11,8],
  [3,10,14,4,9,15,8,1,2,7,0,6,13,11,5,12],
  [1,9,11,10,0,8,12,4,13,3,7,15,14,5,6,2],
  [4,0,5,9,7,12,2,10,14,1,3,8,11,6,15,13]]

def rightWords : List (List ℕ) := [
  [5,14,7,0,9,2,11,4,13,6,15,8,1,10,3,12],
  [6,11,3,7,0,13,5,10,14,15,8,12,4,9,1,2],
  [15,5,1,3,7,14,6,9,11,8,12,2,10,0,4,13],
  [8,6,4,1,3,11,15,0,5,12,2,13,9,7,10,14],
  [12,15,10,4,1,5,8,7,6,2,13,14,0,3,9,11]]

def leftShifts : List (List ℕ) := [
  [11,14,15,12,5,8,7,9,11,13,14,15,6,7,9,8],
  [7,6,8,13,11,9,7,15,7,12,15,9,11,7,13,12],
  [11,13,6,7,14,9,13,15,14,8,13,6,5,12,7,5],
  [11,12,14,15,14,15,9,8,9,14,5,6,8,6,5,12],
  [9,15,5,11,6,8,13,12,5,12,13,14,11,8,5,6]]

def rightShifts : List (List ℕ) := [
  [8,9,9,11,13,15,15,5,7,7,8,11,14,14,12,6],
  [9,13,15,7,12,8,9,11,7,7,12,7,6,15,13,11],
  [9,7,15,11,8,6,6,14,12,13,5,14,13,13,7,5],
  [15,5,8,11,14,14,6,14,6,9,12,9,12,5,15,8],
  [8,5,12,9,12,5,14,6,8,13,6,5,15,13,11,11]]

def ripemdStep (block : List ℕ) (mix : ℕ → ℕ → ℕ → ℕ) (constant : ℕ) (s : RipemdState)
    (entry : ℕ × ℕ) : RipemdState :=
  let sum := word (s.a + mix s.b s.c s.d + block.getD entry.1 0 + constant)
  ⟨s.e,word (rotl entry.2 sum + s.e),s.b,rotl 10 s.c,s.d⟩

/-- One of the two parallel lines: five rounds of sixteen steps. -/
def ripemdLine (block : List ℕ) : List (ℕ → ℕ → ℕ → ℕ) → List ℕ → List (List ℕ) → List (List ℕ) →
    RipemdState → RipemdState
  | mix :: mixes,constant :: constants,words :: wordRows,shifts :: shiftRows,s =>
    ripemdLine block mixes constants wordRows shiftRows
      ((words.zip shifts).foldl (ripemdStep block mix constant) s)
  | _,_,_,_,s => s

def ripemdCompress (s : RipemdState) (block : List ℕ) : RipemdState :=
  match ripemdLine block ripemdMix leftConstants leftWords leftShifts s,
    ripemdLine block ripemdMix.reverse rightConstants rightWords rightShifts s with
  | ⟨a,b,c,d,e⟩,⟨a',b',c',d',e'⟩ =>
    ⟨word (s.b + c + d'),word (s.c + d + e'),word (s.d + e + a'),word (s.e + a + b'),
      word (s.a + b + c')⟩

def ripemd160 (bytes : Bytes) : ByteVector 20 :=
  let s := (wordBlocks leBytes ofLeBytes bytes).foldl ripemdCompress ripemdInitial
  ⟨[leBytes 4 s.a,leBytes 4 s.b,leBytes 4 s.c,leBytes 4 s.d,leBytes 4 s.e].flatten,by simp⟩

end Ripemd160

section Curve

def fieldPrime : ℕ := 2 ^ 256 - 2 ^ 32 - 977

/-- Square and multiply over the low bits of the exponent. -/
def powMod (modulus : ℕ) : ℕ → ℕ → ℕ → ℕ → ℕ
  | 0,_,_,acc => acc
  | bits + 1,base,exponent,acc =>
    powMod modulus bits (base * base % modulus) (exponent / 2)
      (if exponent % 2 = 1 then acc * base % modulus else acc)

/-- The field prime is 3 modulo 4, so a square has its root at the exponent `(p + 1) / 4`. -/
def isSquare (x : ℕ) : Bool :=
  let root := powMod fieldPrime 256 x ((fieldPrime + 1) / 4) 1
  root * root % fieldPrime == x

/-- A parity tag and the abscissa of a point with `y² = x³ + 7`. -/
def isCompressedPoint : Bytes → Bool
  | [] => false
  | tag :: abscissa =>
    let x := ofLeBytes abscissa.reverse
    (tag == 0x02 || tag == 0x03) && abscissa.length == 32 && decide (x < fieldPrime) &&
      isSquare ((x * x * x + 7) % fieldPrime)

end Curve
end TandemVerifier.Library.Crypto
