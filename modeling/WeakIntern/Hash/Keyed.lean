import WeakIntern.Text.Utf8
/-!
# The keyed hash

`keyedHash seed s` mixes the UTF-8 bytes of a string with a key derived from a 64-bit seed. The
strings that collide depend on the seed, so a chain built against the default hash falls apart under
it. The mixing step multiplies two 64-bit words and folds the 128-bit product; all else is 64-bit
arithmetic.

The mixing is that of `ahash` in its portable form, with fixed keys. It is written out here so that
the hashes of a rehashed table can be computed, and no proof opens it: what is proved of a table
under a keyed hash needs no more than that it is a function of the seed and the string.
-/

namespace WeakIntern

/-- Rotate a word to the left. -/
def rotateLeft (x n : UInt64) : UInt64 := (x <<< n) ||| (x >>> ((64 - n) &&& 63))

/-- The low and the high half of a 128-bit product, combined. -/
def foldedProduct (a b : UInt64) : UInt64 :=
  let product := a.toNat * b.toNat
  product.toUInt64 ^^^ (product >>> 64).toUInt64

/-- The four words that a seed expands to. -/
structure HashKey where
  pad : UInt64
  buffer : UInt64
  lowMask : UInt64
  highMask : UInt64

namespace HashKey

/-- The key of a seed: rotations of it, masked with fixed words. -/
def ofSeed (seed : UInt64) : HashKey where
  pad := seed ^^^ 0x452821e638d01377
  buffer := rotateLeft seed 17 ^^^ 0x9e3779b97f4a7c15 ^^^ 0xbe5466cf34e90c6c
  lowMask := rotateLeft seed 31 ^^^ 0xc2b2ae3d27d4eb4f ^^^ 0xc0ac29b7c97c50dd
  highMask := rotateLeft seed 47 ^^^ 0x165667b19e3779f9 ^^^ 0x3f84d5b5b5470917

/-- Mix two words into the buffer. -/
def mix (key : HashKey) (buffer low high : UInt64) : UInt64 :=
  rotateLeft ((buffer + key.pad) ^^^ foldedProduct (low ^^^ key.lowMask) (high ^^^ key.highMask)) 23

end HashKey

/-- The little-endian value of at most eight bytes. -/
def wordOfBytes (bytes : List UInt8) : UInt64 :=
  bytes.foldr (fun b acc => (acc <<< 8) ||| b.toUInt64) 0

/-- Mix sixteen bytes at a time while more than sixteen remain. -/
def mixBlocks (key : HashKey) (buffer : UInt64) (bytes : List UInt8) : UInt64 :=
  let rest := bytes.drop 16
  if rest.isEmpty then buffer
  else mixBlocks key
    (key.mix buffer (wordOfBytes (bytes.take 8)) (wordOfBytes ((bytes.drop 8).take 8))) rest
termination_by bytes.length
decreasing_by
  rename_i h
  simp only [rest, List.isEmpty_iff, List.drop_eq_nil_iff] at h
  simp only [List.length_drop]
  omega

/-- Mix all bytes of a string. Short strings are covered by two words that may overlap; of a long
one the last sixteen bytes come first, then the blocks from the front. -/
def mixBytes (key : HashKey) (bytes : List UInt8) : UInt64 :=
  let n := bytes.length
  let buffer := (key.buffer + n.toUInt64) * 6364136223846793005
  let front (k : Nat) := wordOfBytes (bytes.take k)
  let back (k : Nat) := wordOfBytes (bytes.drop (n - k))
  if n ≤ 1 then key.mix buffer (front 1) (front 1)
  else if n ≤ 3 then key.mix buffer (front 2) (back 1)
  else if n ≤ 8 then key.mix buffer (front 4) (back 4)
  else if n ≤ 16 then key.mix buffer (front 8) (back 8)
  else
    let last := bytes.drop (n - 16)
    mixBlocks key (key.mix buffer (wordOfBytes (last.take 8)) (wordOfBytes (last.drop 8))) bytes

/-- The keyed hash of a string. -/
def keyedHash (seed : UInt64) (s : String) : UInt32 :=
  let key := HashKey.ofSeed seed
  let buffer := mixBytes key (utf8Bytes s)
  let h := rotateLeft (foldedProduct buffer key.pad) (buffer &&& 63)
  (h ^^^ (h >>> 32)).toUInt32

end WeakIntern
