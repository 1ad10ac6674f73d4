/-!
# Words, texts and padding as bytes

Words are written with the highest byte first. Everything on the wire is a multiple of four bytes
long; texts are closed by one to four NUL bytes and blobs are filled up with none to three.
-/

namespace Tangible.Osc

def wordBytes (w : UInt32) : List UInt8 :=
  [(w >>> 24).toUInt8, (w >>> 16).toUInt8, (w >>> 8).toUInt8, w.toUInt8]

def wordOfBytes (a b c d : UInt8) : UInt32 :=
  a.toUInt32 <<< 24 ||| b.toUInt32 <<< 16 ||| c.toUInt32 <<< 8 ||| d.toUInt32

def doubleWordBytes (w : UInt64) : List UInt8 :=
  wordBytes (w >>> 32).toUInt32 ++ wordBytes w.toUInt32

def doubleWord (high low : UInt32) : UInt64 :=
  high.toUInt64 <<< 32 ||| low.toUInt64

def textBytes (s : String) : List UInt8 :=
  s.toByteArray.data.toList

def text? (bytes : List UInt8) : Option String :=
  String.fromUTF8? ⟨bytes.toArray⟩

/-- How many bytes close a text that ends at the given offset. -/
def textPadding (offset : Nat) : Nat :=
  4 - offset % 4

/-- How many bytes fill up a blob of the given length. -/
def blobPadding (length : Nat) : Nat :=
  (4 - length % 4) % 4

theorem wordBytes_length (w : UInt32) : (wordBytes w).length = 4 := rfl

theorem text?_textBytes (s : String) : text? (textBytes s) = some s := by
  simp [text?, textBytes, String.fromUTF8?, s.isValidUTF8]
  rfl

end Tangible.Osc
