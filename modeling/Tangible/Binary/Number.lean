/-!
# Numbers in single and double precision

A number is its bit pattern, and `=` compares patterns. So the patterns that stand for no number are
told apart like all others, and they are stored and sent as they are.

Arithmetic sees the value that a pattern stands for. An operation whose result is no number gives
the same pattern every time, whatever it was given. Negation and `abs` change the sign bit alone.
`==` and the order compare values: there is one zero, and what is no number differs from itself.
-/

namespace Tangible

structure Single where
  bits : UInt32
deriving DecidableEq, Repr

structure Double where
  bits : UInt64
deriving DecidableEq, Repr

namespace Single

def toFloat (x : Single) : Float32 := .ofBits x.bits

def ofFloat (x : Float32) : Single := ⟨x.toBits⟩

instance : Inhabited Single := ⟨⟨0⟩⟩
instance : BEq Single := ⟨fun x y => x.toFloat == y.toFloat⟩
instance : LT Single := ⟨fun x y => x.toFloat < y.toFloat⟩
instance : LE Single := ⟨fun x y => x.toFloat ≤ y.toFloat⟩
instance : DecidableLT Single := fun x y => inferInstanceAs (Decidable (x.toFloat < y.toFloat))
instance : DecidableLE Single := fun x y => inferInstanceAs (Decidable (x.toFloat ≤ y.toFloat))

instance (n : Nat) : OfNat Single n := ⟨ofFloat (OfNat.ofNat n)⟩
instance : OfScientific Single := ⟨fun m s e => ofFloat (OfScientific.ofScientific m s e)⟩

instance : Add Single := ⟨fun x y => ofFloat (x.toFloat + y.toFloat)⟩
instance : Sub Single := ⟨fun x y => ofFloat (x.toFloat - y.toFloat)⟩
instance : Mul Single := ⟨fun x y => ofFloat (x.toFloat * y.toFloat)⟩
instance : Div Single := ⟨fun x y => ofFloat (x.toFloat / y.toFloat)⟩
instance : Neg Single := ⟨fun x => ⟨x.bits ^^^ 0x80000000⟩⟩

def abs (x : Single) : Single := ⟨x.bits &&& 0x7fffffff⟩

def isFinite (x : Single) : Bool := x.toFloat.isFinite

def ofNat (n : Nat) : Single := ofFloat (.ofNat n)

end Single

instance : BEq Double := ⟨fun x y => Float.ofBits x.bits == Float.ofBits y.bits⟩

end Tangible
