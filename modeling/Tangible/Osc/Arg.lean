import Tangible.Binary.Number
import Tangible.Timetag

/-!
# Arguments of wire messages

An `Arg` is one typed argument. Each has a tag character; the tag string of an argument list names
the types in order. Equality `==` compares floating-point numbers as numbers, so an argument that
holds a NaN differs from itself, while `=` compares their bit patterns, those of NaNs too.
-/

namespace Tangible.Osc

inductive Arg where
  | int (value : Int32)
  | float (value : Single)
  | string (value : String)
  | blob (bytes : List UInt8)
  | time (value : Timetag)
  | long (value : Int64)
  | double (value : Double)
  | char (value : Char)
  | color (red green blue alpha : UInt8)
  | midi (port status data1 data2 : UInt8)
  | bool (value : Bool)
  | array (items : List Arg)
  | nil
  | infinitum

namespace Arg

/-- An identifier travels as the integer with the same bits. -/
def ofId (id : UInt32) : Arg :=
  .int id.toInt32

def tag : Arg → Char
  | .int _ => 'i'
  | .float _ => 'f'
  | .string _ => 's'
  | .blob _ => 'b'
  | .time _ => 't'
  | .long _ => 'h'
  | .double _ => 'd'
  | .char _ => 'c'
  | .color .. => 'r'
  | .midi .. => 'm'
  | .bool true => 'T'
  | .bool false => 'F'
  | .array _ => '['
  | .nil => 'N'
  | .infinitum => 'I'

mutual

def beq : Arg → Arg → Bool
  | .int a, .int b => a == b
  | .float a, .float b => a == b
  | .string a, .string b => a == b
  | .blob a, .blob b => a == b
  | .time a, .time b => a == b
  | .long a, .long b => a == b
  | .double a, .double b => a == b
  | .char a, .char b => a == b
  | .color r g b a, .color r' g' b' a' => r == r' && g == g' && b == b' && a == a'
  | .midi p s d e, .midi p' s' d' e' => p == p' && s == s' && d == d' && e == e'
  | .bool a, .bool b => a == b
  | .array a, .array b => beqList a b
  | .nil, .nil => true
  | .infinitum, .infinitum => true
  | _, _ => false

def beqList : List Arg → List Arg → Bool
  | [], [] => true
  | a :: as, b :: bs => beq a b && beqList as bs
  | _, _ => false

end

instance : BEq Arg := ⟨beq⟩

end Arg

/-- The tags of the arguments in order, an array as one tag. -/
def tags (args : List Arg) : String :=
  String.ofList (args.map Arg.tag)

end Tangible.Osc
