import Tangible.Osc.Arg

/-!
# Walking an argument list

A `Cursor` stands before the arguments that are still to be read. A reading operation gives the
next argument if it has the wanted type and moves behind it; otherwise the cursor stays. The
operations that read several arguments stop at the first that does not fit and stay there.
-/

namespace Tangible.Osc

structure Cursor where
  rest : List Arg

namespace Cursor

/-- Reads one argument that `view` accepts. -/
def next {α : Type} (view : Arg → Option α) (c : Cursor) : Option α × Cursor :=
  match c.rest with
  | [] => (none, c)
  | arg :: rest =>
    match view arg with
    | some a => (some a, ⟨rest⟩)
    | none => (none, c)

def int : Cursor → Option Int32 × Cursor :=
  next fun | .int v => some v | _ => none

/-- An integer with the same bits as an identifier. -/
def uint : Cursor → Option UInt32 × Cursor :=
  next fun | .int v => some v.toUInt32 | _ => none

def float : Cursor → Option Single × Cursor :=
  next fun | .float v => some v | _ => none

def string : Cursor → Option String × Cursor :=
  next fun | .string v => some v | _ => none

def blob : Cursor → Option (List UInt8) × Cursor :=
  next fun | .blob v => some v | _ => none

def time : Cursor → Option Timetag × Cursor :=
  next fun | .time v => some v | _ => none

def bool : Cursor → Option Bool × Cursor :=
  next fun | .bool v => some v | _ => none

/-- Moves behind a separator, which is a true, if one is next. -/
def separator (c : Cursor) : Bool × Cursor :=
  match c.rest with
  | .bool true :: rest => (true, ⟨rest⟩)
  | _ => (false, c)

/-- Reads one argument of any type. -/
def skip : Cursor → Option Arg × Cursor :=
  next some

/-- Reads `count` arguments of one type. -/
def repeated {α : Type} (read : Cursor → Option α × Cursor) : Nat → Cursor → Option (List α) × Cursor
  | 0, c => (some [], c)
  | count + 1, c =>
    match read c with
    | (none, after) => (none, after)
    | (some a, after) =>
      match repeated read count after with
      | (some as, last) => (some (a :: as), last)
      | (none, last) => (none, last)

def floats (count : Nat) : Cursor → Option (List Single) × Cursor :=
  repeated float count

def remaining (c : Cursor) : Nat :=
  c.rest.length

def isEmpty (c : Cursor) : Bool :=
  c.rest.isEmpty

def restUints (c : Cursor) : Option (List UInt32) × Cursor :=
  repeated uint c.remaining c

def restFloats (c : Cursor) : Option (List Single) × Cursor :=
  repeated float c.remaining c

/-- Whether every argument was read. -/
def finish (c : Cursor) : Bool :=
  c.isEmpty

end Cursor

end Tangible.Osc
