import Tangible.Text.Escaped
import Tangible.Text.Hex

/-!
# Quoted text

`quoted` writes a text between double quotes on one line: the quote, the backslash and the usual
controls get a backslash, every other character without a glyph is written as its code point.
`quotedChar` is the same for one character between apostrophes.
-/

namespace Tangible.Text

/-- The escape of a character that is the same in every kind of quotes, if it has one. -/
def escape? (c : Char) : Option String :=
  if c = '\x00' then some "\\0"
  else if c = '\t' then some "\\t"
  else if c = '\r' then some "\\r"
  else if c = '\n' then some "\\n"
  else if c = '\\' then some "\\\\"
  else if isEscaped c then some ("\\u\x7b" ++ hex c.toNat ++ "\x7d")
  else none

def escapeWithin (quote c : Char) : String :=
  if c = quote then String.ofList ['\\', c] else (escape? c).getD (String.singleton c)

def quoted (s : String) : String :=
  "\"" ++ String.join (s.toList.map (escapeWithin '"')) ++ "\""

def quotedChar (c : Char) : String :=
  "\x27" ++ escapeWithin '\x27' c ++ "\x27"

/-- Items between brackets, separated by commas. -/
def bracketed (items : List String) : String :=
  "[" ++ String.intercalate ", " items ++ "]"

end Tangible.Text
