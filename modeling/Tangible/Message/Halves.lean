/-!
# Half words

Two 16-bit numbers share one identifier on the wire: the first one fills the upper half of the
word, the second one the lower half.
-/

namespace Tangible

def joinHalves (upper lower : UInt16) : UInt32 :=
  upper.toUInt32 <<< 16 ||| lower.toUInt32

def upperHalf (word : UInt32) : UInt16 :=
  (word >>> 16).toUInt16

def lowerHalf (word : UInt32) : UInt16 :=
  word.toUInt16

end Tangible
