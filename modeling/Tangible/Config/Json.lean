import Tangible.Text.Hex

/-!
# JSON texts

A reader for JSON values that accepts the grammar and nothing else. Numbers keep their spelling. A
text or a key with an escape that stands for half a surrogate pair is well formed but has no
content.
-/

namespace Tangible.Config

inductive Json where
  | null
  | boolean (value : Bool)
  | number (spelling : List Char)
  | text (content : Option String)
  | array (items : List Json)
  | object (members : List (Option String × Json))

namespace Json

/-! ## Lexical rules -/

def isBlank (c : Char) : Bool :=
  c = ' ' || c = '\t' || c = '\n' || c = '\r'

def skipBlank (cs : List Char) : List Char := cs.dropWhile isBlank

def digits (cs : List Char) : List Char × List Char :=
  (cs.takeWhile Char.isDigit, cs.dropWhile Char.isDigit)

/-- At least one digit. -/
def someDigits? (cs : List Char) : Option (List Char × List Char) :=
  let (found, rest) := digits cs
  if found.isEmpty then none else some (found, rest)

/-- A whole number without superfluous zeros. -/
def whole? : List Char → Option (List Char × List Char)
  | '0' :: rest =>
    if (rest.head?.map Char.isDigit).getD false then none else some (['0'], rest)
  | cs => someDigits? cs

def fraction? : List Char → Option (List Char × List Char)
  | '.' :: rest => (someDigits? rest).map fun (found, rest) => ('.' :: found, rest)
  | cs => some ([], cs)

def exponent? : List Char → Option (List Char × List Char)
  | c :: rest =>
    if c = 'e' ∨ c = 'E' then
      match rest with
      | '+' :: rest => (someDigits? rest).map fun (found, rest) => (c :: '+' :: found, rest)
      | '-' :: rest => (someDigits? rest).map fun (found, rest) => (c :: '-' :: found, rest)
      | _ => (someDigits? rest).map fun (found, rest) => (c :: found, rest)
    else some ([], c :: rest)
  | [] => some ([], [])

def number? (cs : List Char) : Option (List Char × List Char) := do
  let (sign, cs) := match cs with
    | '-' :: rest => (['-'], rest)
    | _ => ([], cs)
  let (w, cs) ← whole? cs
  let (f, cs) ← fraction? cs
  let (e, cs) ← exponent? cs
  return (sign ++ w ++ f ++ e, cs)

def simpleEscape? : Char → Option Char
  | '"' => some '"'
  | '\\' => some '\\'
  | '/' => some '/'
  | 'b' => some '\x08'
  | 'f' => some '\x0c'
  | 'n' => some '\n'
  | 'r' => some '\r'
  | 't' => some '\t'
  | _ => none

/-- The units of a text up to its closing quote: characters and halves of surrogate pairs, which
are given as their numbers. -/
def units? : List Char → Option (List Nat × List Char)
  | '"' :: rest => some ([], rest)
  | '\\' :: 'u' :: a :: b :: c :: d :: rest => do
    let unit ← Text.hexValue? [a, b, c, d]
    let (units, rest) ← units? rest
    return (unit :: units, rest)
  | '\\' :: c :: rest => do
    let c ← simpleEscape? c
    let (units, rest) ← units? rest
    return (c.toNat :: units, rest)
  | c :: rest =>
    if c.toNat < 32 then none
    else (units? rest).map fun (units, rest) => (c.toNat :: units, rest)
  | [] => none

/-- Joins surrogate pairs. A half on its own has no character. -/
def chars? : List Nat → Option (List Char)
  | [] => some []
  | high :: low :: rest =>
    if 0xd800 ≤ high ∧ high < 0xdc00 then
      if 0xdc00 ≤ low ∧ low < 0xe000 then
        (chars? rest).map (.ofNat (0x10000 + (high - 0xd800) * 0x400 + (low - 0xdc00)) :: ·)
      else none
    else if 0xdc00 ≤ high ∧ high < 0xe000 then none
    else (chars? (low :: rest)).map (.ofNat high :: ·)
  | [unit] => if 0xd800 ≤ unit ∧ unit < 0xe000 then none else some [.ofNat unit]

/-- The content of a text behind its opening quote. -/
def text? (cs : List Char) : Option (Option String × List Char) :=
  (units? cs).map fun (units, rest) => ((chars? units).map String.ofList, rest)

def word? (word cs : List Char) : Option (List Char) :=
  if cs.take word.length = word then some (cs.drop word.length) else none

/-! ## Values -/

mutual

/-- One value and what follows it. `fuel` bounds the number of steps. -/
def value? : Nat → List Char → Option (Json × List Char)
  | 0, _ => none
  | fuel + 1, cs =>
    match skipBlank cs with
    | '"' :: rest => (text? rest).map fun (content, rest) => (.text content, rest)
    | '[' :: rest =>
      match skipBlank rest with
      | ']' :: rest => some (.array [], rest)
      | rest => (items? fuel rest).map fun (items, rest) => (.array items, rest)
    | '\x7b' :: rest =>
      match skipBlank rest with
      | '\x7d' :: rest => some (.object [], rest)
      | rest => (members? fuel rest).map fun (members, rest) => (.object members, rest)
    | 't' :: rest => (word? ['r', 'u', 'e'] rest).map fun rest => (.boolean true, rest)
    | 'f' :: rest => (word? ['a', 'l', 's', 'e'] rest).map fun rest => (.boolean false, rest)
    | 'n' :: rest => (word? ['u', 'l', 'l'] rest).map fun rest => (.null, rest)
    | cs => (number? cs).map fun (spelling, rest) => (.number spelling, rest)

/-- The items of an array that has some, up to its closing bracket. -/
def items? : Nat → List Char → Option (List Json × List Char)
  | 0, _ => none
  | fuel + 1, cs => do
    let (item, rest) ← value? fuel cs
    match skipBlank rest with
    | ',' :: rest => (items? fuel rest).map fun (items, rest) => (item :: items, rest)
    | ']' :: rest => some ([item], rest)
    | _ => none

/-- The members of an object that has some, up to its closing brace. -/
def members? : Nat → List Char → Option (List (Option String × Json) × List Char)
  | 0, _ => none
  | fuel + 1, cs =>
    match skipBlank cs with
    | '"' :: rest => do
      let (key, rest) ← text? rest
      match skipBlank rest with
      | ':' :: rest =>
        let (value, rest) ← value? fuel rest
        match skipBlank rest with
        | ',' :: rest =>
          (members? fuel rest).map fun (members, rest) => ((key, value) :: members, rest)
        | '\x7d' :: rest => some ([(key, value)], rest)
        | _ => none
      | _ => none
    | _ => none

end

/-- The value of a text that holds one value and nothing else. Every step but the last of each
nesting takes a character, so twice their number is enough. -/
def parse? (s : String) : Option Json :=
  let cs := s.toList
  match value? (2 * cs.length + 2) cs with
  | some (value, rest) => if (skipBlank rest).isEmpty then some value else none
  | none => none

/-! ## Typed views -/

def boolean? : Json → Option Bool
  | .boolean b => some b
  | _ => none

def string? : Json → Option String
  | .text content => content
  | _ => none

def list? {α : Type} (view : Json → Option α) : Json → Option (List α)
  | .array items => items.mapM view
  | _ => none

/-- A number spelled with digits alone that is less than the bound. -/
def natBelow? (bound : Nat) : Json → Option Nat
  | .number spelling =>
    if spelling.all Char.isDigit then
      let n := spelling.foldl (fun n c => 10 * n + (c.toNat - 48)) 0
      if n < bound then some n else none
    else none
  | _ => none

/-- A member whose key has content. -/
def named? : Option String × Json → Option (String × Json)
  | (some key, value) => some (key, value)
  | (none, _) => none

/-- The fields of a record: the members with known names, none of them twice, or the items of an
array in the order of the names. Every key of a record has content. -/
def fields? (names : List String) : Json → Option (List (String × Json))
  | .object members => do
    let known := (← members.mapM named?).filter fun (key, _) => names.contains key
    if (known.map (·.1)).Nodup then some known else none
  | .array items => if items.length ≤ names.length then some (names.zip items) else none
  | _ => none

/-- The field with the given name, or a default where it is missing. -/
def field {α : Type} (fields : List (String × Json)) (name : String) (view : Json → Option α)
    (default : α) : Option α :=
  match fields.lookup name with
  | some value => view value
  | none => some default

end Json

end Tangible.Config
