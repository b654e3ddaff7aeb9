import PageTree.Json.Basic
import PageTree.Number.Form

/-!
# Printing JSON

The compact form has no white space. The pretty form puts each item and member on a line of its
own, indented by two blanks for each open container, and writes empty containers as in the compact
form. Strings escape the quote, the backslash and the control characters below the blank, nothing
else.

## Main definitions

* `Json.compact`, `Json.pretty`
-/

namespace PageTree

namespace Number

/-- A number as it is written in a JSON text. -/
def chars : Number → List Char
  | .int value =>
    if value < 0 then '-' :: Nat.toDigits 10 value.natAbs else Nat.toDigits 10 value.natAbs
  | .float value => value.jsonText

end Number

namespace Json

/-- A character inside a string. -/
def charEscape (c : Char) : List Char :=
  if c = '"' then ['\\', '"']
  else if c = '\\' then ['\\', '\\']
  else if c = '\x08' then ['\\', 'b']
  else if c = '\x0c' then ['\\', 'f']
  else if c = '\n' then ['\\', 'n']
  else if c = '\r' then ['\\', 'r']
  else if c = '\t' then ['\\', 't']
  else if c.toNat < 0x20 then
    ['\\', 'u', '0', '0', Nat.digitChar (c.toNat / 16), Nat.digitChar (c.toNat % 16)]
  else [c]

/-- A string with its quotes. -/
def stringChars (text : String) : List Char :=
  '"' :: text.toList.flatMap charEscape ++ ['"']

mutual

/-- The compact form. -/
def chars : Json → List Char
  | .null => ['n', 'u', 'l', 'l']
  | .bool true => ['t', 'r', 'u', 'e']
  | .bool false => ['f', 'a', 'l', 's', 'e']
  | .num value => value.chars
  | .str value => stringChars value
  | .arr [] => ['[', ']']
  | .arr (item :: items) => '[' :: chars item ++ itemChars items
  | .obj [] => ['\x7b', '\x7d']
  | .obj ((key, value) :: members) =>
    '\x7b' :: stringChars key ++ ':' :: chars value ++ memberChars members

/-- The items of an array after the first, and its end. -/
def itemChars : List Json → List Char
  | [] => [']']
  | item :: items => ',' :: chars item ++ itemChars items

/-- The members of an object after the first, and its end. -/
def memberChars : List (String × Json) → List Char
  | [] => ['\x7d']
  | (key, value) :: members =>
    ',' :: stringChars key ++ ':' :: chars value ++ memberChars members

end

/-- The start of a line inside `depth` open containers. -/
def newline (depth : Nat) : List Char :=
  '\n' :: List.replicate (2 * depth) ' '

mutual

/-- The pretty form inside `depth` open containers. -/
def prettyChars (depth : Nat) : Json → List Char
  | .arr [] => ['[', ']']
  | .arr (item :: items) =>
    '[' :: newline (depth + 1) ++ prettyChars (depth + 1) item ++ prettyItems depth items
  | .obj [] => ['\x7b', '\x7d']
  | .obj ((key, value) :: members) =>
    '\x7b' :: newline (depth + 1) ++ stringChars key ++ ':' :: ' ' ::
      prettyChars (depth + 1) value ++ prettyMembers depth members
  | value => value.chars

/-- The items of an array after the first, and its end on a line of its own. -/
def prettyItems (depth : Nat) : List Json → List Char
  | [] => newline depth ++ [']']
  | item :: items =>
    ',' :: newline (depth + 1) ++ prettyChars (depth + 1) item ++ prettyItems depth items

/-- The members of an object after the first, and its end on a line of its own. -/
def prettyMembers (depth : Nat) : List (String × Json) → List Char
  | [] => newline depth ++ ['\x7d']
  | (key, value) :: members =>
    ',' :: newline (depth + 1) ++ stringChars key ++ ':' :: ' ' ::
      prettyChars (depth + 1) value ++ prettyMembers depth members

end

/-- The compact text of a value. -/
def compact (value : Json) : String :=
  String.ofList value.chars

/-- The pretty text of a value. -/
def pretty (value : Json) : String :=
  String.ofList (value.prettyChars 0)

end Json

end PageTree
