import PowLedger.Bytes

/-!
# Messages in blocks of sixteen words

Both digests of the ledger read a message as 64-byte blocks of sixteen 32-bit words. The message is
closed by one set bit, zeros up to the last eight bytes of a block, and its length in bits.
-/

namespace PowLedger.Digest

/-- The bytes that close a message of `length` bytes; `sizeForm` writes its size in bits. -/
def closing (sizeForm : Nat → Bytes) (length : Nat) : Bytes :=
  0x80 :: List.replicate ((119 - length % 64) % 64) 0 ++ sizeForm (8 * length)

/-- The 32-bit words of a byte string, most significant byte first. -/
def wordsBig : Bytes → List UInt32
  | a :: b :: c :: d :: rest =>
    ((a.toUInt32 <<< 24) ||| (b.toUInt32 <<< 16) ||| (c.toUInt32 <<< 8) ||| d.toUInt32)
      :: wordsBig rest
  | _ => []

/-- The 32-bit words of a byte string, least significant byte first. -/
def wordsLittle : Bytes → List UInt32
  | a :: b :: c :: d :: rest =>
    (a.toUInt32 ||| (b.toUInt32 <<< 8) ||| (c.toUInt32 <<< 16) ||| (d.toUInt32 <<< 24))
      :: wordsLittle rest
  | _ => []

/-- The four bytes of a word, most significant first. -/
def bytesBig (w : UInt32) : Bytes :=
  [(w >>> 24).toUInt8, (w >>> 16).toUInt8, (w >>> 8).toUInt8, w.toUInt8]

/-- The four bytes of a word, least significant first. -/
def bytesLittle (w : UInt32) : Bytes :=
  [w.toUInt8, (w >>> 8).toUInt8, (w >>> 16).toUInt8, (w >>> 24).toUInt8]

/-- Rotation of a word to the right by fewer than 32 places. -/
def rotateRight (w : UInt32) (n : UInt32) : UInt32 :=
  (w >>> n) ||| (w <<< (32 - n))

/-- Rotation of a word to the left by fewer than 32 places. -/
def rotateLeft (w : UInt32) (n : UInt32) : UInt32 :=
  (w <<< n) ||| (w >>> (32 - n))

end PowLedger.Digest
