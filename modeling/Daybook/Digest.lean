/-!
# Digests

The hash function SHA-256 of the Secure Hash Standard. A digest serves to recognise a transaction
that has been written twice.
-/

namespace Daybook.Digest

def roundConstants : List UInt32 :=
  [0x428a2f98, 0x71374491, 0xb5c0fbcf, 0xe9b5dba5, 0x3956c25b, 0x59f111f1, 0x923f82a4, 0xab1c5ed5,
   0xd807aa98, 0x12835b01, 0x243185be, 0x550c7dc3, 0x72be5d74, 0x80deb1fe, 0x9bdc06a7, 0xc19bf174,
   0xe49b69c1, 0xefbe4786, 0x0fc19dc6, 0x240ca1cc, 0x2de92c6f, 0x4a7484aa, 0x5cb0a9dc, 0x76f988da,
   0x983e5152, 0xa831c66d, 0xb00327c8, 0xbf597fc7, 0xc6e00bf3, 0xd5a79147, 0x06ca6351, 0x14292967,
   0x27b70a85, 0x2e1b2138, 0x4d2c6dfc, 0x53380d13, 0x650a7354, 0x766a0abb, 0x81c2c92e, 0x92722c85,
   0xa2bfe8a1, 0xa81a664b, 0xc24b8b70, 0xc76c51a3, 0xd192e819, 0xd6990624, 0xf40e3585, 0x106aa070,
   0x19a4c116, 0x1e376c08, 0x2748774c, 0x34b0bcb5, 0x391c0cb3, 0x4ed8aa4a, 0x5b9cca4f, 0x682e6ff3,
   0x748f82ee, 0x78a5636f, 0x84c87814, 0x8cc70208, 0x90befffa, 0xa4506ceb, 0xbef9a3f7, 0xc67178f2]

/-- The eight words that the blocks of a message are mixed into. -/
structure Words where
  a : UInt32
  b : UInt32
  c : UInt32
  d : UInt32
  e : UInt32
  f : UInt32
  g : UInt32
  h : UInt32
  deriving DecidableEq, Repr

namespace Words

def initial : Words :=
  ⟨0x6a09e667, 0xbb67ae85, 0x3c6ef372, 0xa54ff53a, 0x510e527f, 0x9b05688c, 0x1f83d9ab, 0x5be0cd19⟩

def add (x y : Words) : Words :=
  ⟨x.a + y.a, x.b + y.b, x.c + y.c, x.d + y.d, x.e + y.e, x.f + y.f, x.g + y.g, x.h + y.h⟩

def toList (x : Words) : List UInt32 := [x.a, x.b, x.c, x.d, x.e, x.f, x.g, x.h]

end Words

/-- The word turned `n` places to the right. -/
def rotate (x : UInt32) (n : UInt32) : UInt32 := (x >>> n) ||| (x <<< (32 - n))

/-- One round, with its constant and its word of the message. -/
def round (x : Words) (k w : UInt32) : Words :=
  let mixE := rotate x.e 6 ^^^ rotate x.e 11 ^^^ rotate x.e 25
  let choice := (x.e &&& x.f) ^^^ (~~~x.e &&& x.g)
  let t := x.h + mixE + choice + k + w
  let mixA := rotate x.a 2 ^^^ rotate x.a 13 ^^^ rotate x.a 22
  let majority := (x.a &&& x.b) ^^^ (x.a &&& x.c) ^^^ (x.b &&& x.c)
  ⟨t + mixA + majority, x.a, x.b, x.c, x.d + t, x.e, x.f, x.g⟩

/-- The next word of the message, from the sixteen before it, oldest first. -/
def nextWord (window : List UInt32) : UInt32 :=
  let near := window.getD 1 0
  let far := window.getD 14 0
  let s₀ := rotate near 7 ^^^ rotate near 18 ^^^ (near >>> 3)
  let s₁ := rotate far 17 ^^^ rotate far 19 ^^^ (far >>> 10)
  window.getD 0 0 + s₀ + window.getD 9 0 + s₁

/-- The words for `n` rounds, the first sixteen being the block itself. -/
def schedule : (n : Nat) → (window : List UInt32) → List UInt32
  | 0, _ => []
  | n + 1, window => window.getD 0 0 :: schedule n (window.drop 1 ++ [nextWord window])

def compress (x : Words) (block : List UInt32) : Words :=
  x.add ((roundConstants.zip (schedule 64 block)).foldl (fun y (k, w) => round y k w) x)

/-- The bytes of a number, most significant first. -/
def bytesOf : (count : Nat) → Nat → List UInt8
  | 0, _ => []
  | count + 1, n => bytesOf count (n / 256) ++ [UInt8.ofNat (n % 256)]

/-- The message, filled up to a whole number of blocks that end with its length in bits. -/
def padded (message : List UInt8) : List UInt8 :=
  let filling := (119 - message.length % 64) % 64
  message ++ 0x80 :: (List.replicate filling 0 ++ bytesOf 8 (8 * message.length))

/-- Words of four bytes each. -/
def wordsOf : List UInt8 → List UInt32
  | a :: b :: c :: d :: rest =>
    ((a.toUInt32 <<< 24) ||| (b.toUInt32 <<< 16) ||| (c.toUInt32 <<< 8) ||| d.toUInt32) ::
      wordsOf rest
  | _ => []

/-- Mixes the first `count` blocks of the words in. -/
def absorb : (count : Nat) → Words → List UInt32 → Words
  | 0, x, _ => x
  | count + 1, x, ws => absorb count (compress x (ws.take 16)) (ws.drop 16)

def sha256 (message : List UInt8) : Words :=
  let ws := wordsOf (padded message)
  absorb (ws.length / 16) .initial ws

def hexWord (w : UInt32) : List Char :=
  let digits := Nat.toDigits 16 w.toNat
  List.replicate (8 - digits.length) '0' ++ digits

def hexOfText (s : String) : String :=
  String.ofList ((sha256 s.toUTF8.toList).toList.flatMap hexWord)

end Daybook.Digest
