import SafeRefactor.Text.Hexadecimal

/-!
# Content digests

The 64-bit xxHash of a byte sequence with seed 0, and its use as a fingerprint of source text:
sixteen lower-case hexadecimal digits. A plan carries the digest of the text it was made for.
-/

set_option autoImplicit false

namespace SafeRefactor.Digest

def prime1 : UInt64 := 0x9E3779B185EBCA87
def prime2 : UInt64 := 0xC2B2AE3D27D4EB4F
def prime3 : UInt64 := 0x165667B19E3779F9
def prime4 : UInt64 := 0x85EBCA77C2B2AE63
def prime5 : UInt64 := 0x27D4EB2F165667C5

def rotateLeft (x : UInt64) (n : UInt64) : UInt64 := (x <<< n) ||| (x >>> (64 - n))

def word : List UInt8 → UInt64
  | [] => 0
  | b :: bs => b.toUInt64 ||| (word bs <<< 8)

def round (acc input : UInt64) : UInt64 := rotateLeft (acc + input * prime2) 31 * prime1

def mergeRound (acc lane : UInt64) : UInt64 := (acc ^^^ round 0 lane) * prime1 + prime4

structure Lanes where
  a : UInt64
  b : UInt64
  c : UInt64
  d : UInt64

def Lanes.initial : Lanes := ⟨prime1 + prime2, prime2, 0, 0 - prime1⟩

def Lanes.absorb (v : Lanes) (stripe : List UInt8) : Lanes where
  a := round v.a (word (stripe.take 8))
  b := round v.b (word ((stripe.drop 8).take 8))
  c := round v.c (word ((stripe.drop 16).take 8))
  d := round v.d (word ((stripe.drop 24).take 8))

def Lanes.merge (v : Lanes) : UInt64 :=
  let h := rotateLeft v.a 1 + rotateLeft v.b 7 + rotateLeft v.c 12 + rotateLeft v.d 18
  mergeRound (mergeRound (mergeRound (mergeRound h v.a) v.b) v.c) v.d

/-- Reads whole stripes; `fuel` bounds their number. Gives the lanes and the bytes left over. -/
def stripes : Nat → Lanes → Nat → List UInt8 → Lanes × List UInt8
  | 0, v, _, bytes => (v, bytes)
  | fuel + 1, v, size, bytes =>
    if size < 32 then (v, bytes) else stripes fuel (v.absorb bytes) (size - 32) (bytes.drop 32)

def tail : Nat → UInt64 → List UInt8 → UInt64
  | 0, h, _ => h
  | fuel + 1, h, bytes =>
    if 8 ≤ bytes.length then
      tail fuel (rotateLeft (h ^^^ round 0 (word (bytes.take 8))) 27 * prime1 + prime4)
        (bytes.drop 8)
    else if 4 ≤ bytes.length then
      tail fuel (rotateLeft (h ^^^ (word (bytes.take 4) * prime1)) 23 * prime2 + prime3)
        (bytes.drop 4)
    else match bytes with
      | [] => h
      | b :: rest => tail fuel (rotateLeft (h ^^^ (b.toUInt64 * prime5)) 11 * prime1) rest

def avalanche (h : UInt64) : UInt64 :=
  let h := (h ^^^ (h >>> 33)) * prime2
  let h := (h ^^^ (h >>> 29)) * prime3
  h ^^^ (h >>> 32)

def hash (bytes : List UInt8) : UInt64 :=
  let size := bytes.length
  let (h, rest) :=
    if 32 ≤ size then
      let (v, rest) := stripes (size / 32) Lanes.initial size bytes
      (v.merge, rest)
    else (prime5, bytes)
  avalanche (tail 32 (h + UInt64.ofNat size) rest)

def ofSource (source : String) : String :=
  String.ofList (Text.hexDigits 16 (hash source.toUTF8.toList).toNat)

end SafeRefactor.Digest
