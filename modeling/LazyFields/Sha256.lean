/-
  LazyFields.Sha256
  ────────────────────────────────
  **THE SHA-256 DIGEST.**

  The message is padded with one set bit, zeros, and its length in bits to a
  multiple of 64 bytes; each block of 64 bytes is expanded to 64 words that
  drive 64 rounds over eight words of state.
-/

namespace LazyFields.Sha256

/-- The words of the state before the first block. -/
def initial : List UInt32 :=
  [0x6a09e667, 0xbb67ae85, 0x3c6ef372, 0xa54ff53a, 0x510e527f, 0x9b05688c, 0x1f83d9ab, 0x5be0cd19]

/-- The constants of the rounds. -/
def roundConstants : List UInt32 :=
  [0x428a2f98, 0x71374491, 0xb5c0fbcf, 0xe9b5dba5, 0x3956c25b, 0x59f111f1, 0x923f82a4, 0xab1c5ed5,
   0xd807aa98, 0x12835b01, 0x243185be, 0x550c7dc3, 0x72be5d74, 0x80deb1fe, 0x9bdc06a7, 0xc19bf174,
   0xe49b69c1, 0xefbe4786, 0x0fc19dc6, 0x240ca1cc, 0x2de92c6f, 0x4a7484aa, 0x5cb0a9dc, 0x76f988da,
   0x983e5152, 0xa831c66d, 0xb00327c8, 0xbf597fc7, 0xc6e00bf3, 0xd5a79147, 0x06ca6351, 0x14292967,
   0x27b70a85, 0x2e1b2138, 0x4d2c6dfc, 0x53380d13, 0x650a7354, 0x766a0abb, 0x81c2c92e, 0x92722c85,
   0xa2bfe8a1, 0xa81a664b, 0xc24b8b70, 0xc76c51a3, 0xd192e819, 0xd6990624, 0xf40e3585, 0x106aa070,
   0x19a4c116, 0x1e376c08, 0x2748774c, 0x34b0bcb5, 0x391c0cb3, 0x4ed8aa4a, 0x5b9cca4f, 0x682e6ff3,
   0x748f82ee, 0x78a5636f, 0x84c87814, 0x8cc70208, 0x90befffa, 0xa4506ceb, 0xbef9a3f7, 0xc67178f2]

/-- Rotation to the right. -/
def rotate (x : UInt32) (n : UInt32) : UInt32 := (x >>> n) ||| (x <<< (32 - n))

/-- A number as bytes, the most significant first. -/
def bigEndian (count n : Nat) : List UInt8 :=
  (List.range count).map fun i => UInt8.ofNat (n / Nat.pow 256 (count - 1 - i))

/-- The message padded to whole blocks. -/
def pad (message : List UInt8) : List UInt8 :=
  let n := message.length
  message ++ 0x80 :: List.replicate ((119 - n % 64) % 64) 0 ++ bigEndian 8 (8 * n)

/-- The word of four bytes. -/
def word (a b c d : UInt8) : UInt32 :=
  (a.toUInt32 <<< 24) ||| (b.toUInt32 <<< 16) ||| (c.toUInt32 <<< 8) ||| d.toUInt32

/-- The words of some bytes; fewer than four bytes at the end are no word. -/
def words : List UInt8 → List UInt32
  | a :: b :: c :: d :: rest => word a b c d :: words rest
  | _ => []

/-- The next word of the expansion, from the sixteen words before it, the
latest first. -/
def nextWord (recent : List UInt32) : UInt32 :=
  match recent with
  | [_, w2, _, _, _, _, w7, _, _, _, _, _, _, _, w15, w16] =>
      let s0 := rotate w15 7 ^^^ rotate w15 18 ^^^ (w15 >>> 3)
      let s1 := rotate w2 17 ^^^ rotate w2 19 ^^^ (w2 >>> 10)
      w16 + s0 + w7 + s1
  | _ => 0

/-- The words of the expansion that follow, given the sixteen before. -/
def expand : Nat → List UInt32 → List UInt32
  | 0, _ => []
  | n + 1, recent =>
      let w := nextWord recent
      w :: expand n (w :: recent.take 15)

/-- The words that drive the rounds of a block. -/
def schedule (block : List UInt32) : List UInt32 := block ++ expand 48 block.reverse

/-- One round. -/
def round (state : List UInt32) (kw : UInt32 × UInt32) : List UInt32 :=
  match state with
  | [a, b, c, d, e, f, g, h] =>
      let s1 := rotate e 6 ^^^ rotate e 11 ^^^ rotate e 25
      let choice := (e &&& f) ^^^ ((~~~ e) &&& g)
      let t1 := h + s1 + choice + kw.1 + kw.2
      let s0 := rotate a 2 ^^^ rotate a 13 ^^^ rotate a 22
      let majority := (a &&& b) ^^^ (a &&& c) ^^^ (b &&& c)
      [t1 + (s0 + majority), a, b, c, d + t1, e, f, g]
  | other => other

/-- The state after a block. -/
def absorb (state : List UInt32) (block : List UInt32) : List UInt32 :=
  let out := (roundConstants.zip (schedule block)).foldl round state
  state.zipWith (· + ·) out

/-- Cut a list of words into blocks of sixteen. -/
def blocks : Nat → List UInt32 → List (List UInt32)
  | 0, _ => []
  | n + 1, ws => ws.take 16 :: blocks n (ws.drop 16)

/-- The digest of some bytes, as eight words. -/
def digest (message : List UInt8) : List UInt32 :=
  let ws := words (pad message)
  (blocks (ws.length / 16) ws).foldl absorb initial

/-- A word in hexadecimal. -/
def hex (w : UInt32) : List Char :=
  (List.range 8).map fun i => Nat.digitChar (w.toNat / Nat.pow 16 (7 - i) % 16)

/-- The digest of the UTF-8 bytes of a text, in hexadecimal. -/
def hexDigest (s : String) : String :=
  String.ofList ((digest s.toUTF8.toList).flatMap hex)

end LazyFields.Sha256
