import PageTree.Json.Literal

/-!
# Reading JSON texts

A recursive descent reader for the strict grammar: white space is the blank, the tab, the line
feed and the carriage return, there are no comments and no trailing commas, and strings hold no
raw control characters. Containers may be nested `maxDepth` deep. A container below that is still
checked for its form and becomes unusable.

## Main definitions

* `Literal.read?`: what a text says
* `Json.parse?`: the value of a text
-/

namespace PageTree

/-- How many containers may be open at once. -/
def maxDepth : Nat := 127

namespace JsonReader

/-- White space between the parts of a text. -/
def isGap (c : Char) : Bool :=
  c = ' ' || c = '\t' || c = '\n' || c = '\r'

/-- The text without white space at its start. -/
def skipGap (text : List Char) : List Char :=
  text.dropWhile isGap

/-- The value of a hexadecimal digit. -/
def hexValue? (c : Char) : Option Nat :=
  if '0' ≤ c ∧ c ≤ '9' then some (c.toNat - '0'.toNat)
  else if 'a' ≤ c ∧ c ≤ 'f' then some (c.toNat - 'a'.toNat + 10)
  else if 'A' ≤ c ∧ c ≤ 'F' then some (c.toNat - 'A'.toNat + 10)
  else none

/-- The value of four hexadecimal digits. -/
def hexCode? (a b c d : Char) : Option Nat :=
  match hexValue? a, hexValue? b, hexValue? c, hexValue? d with
  | some a, some b, some c, some d => some (((a * 16 + b) * 16 + c) * 16 + d)
  | _, _, _, _ => none

/-- The character that a one letter escape stands for. -/
def escapeValue? (c : Char) : Option Char :=
  if c = '"' ∨ c = '\\' ∨ c = '/' then some c
  else if c = 'b' then some '\x08'
  else if c = 'f' then some '\x0c'
  else if c = 'n' then some '\n'
  else if c = 'r' then some '\r'
  else if c = 't' then some '\t'
  else none

/-- The codes of a string up to its closing quote, and the text after the quote. A code is a code
point or, when it was written as an escape, half of a surrogate pair. -/
def readCodes : List Char → Option (List Nat × List Char)
  | [] => none
  | '"' :: rest => some ([], rest)
  | '\\' :: 'u' :: a :: b :: c :: d :: rest =>
    match hexCode? a b c d, readCodes rest with
    | some code, some (codes, rest) => some (code :: codes, rest)
    | _, _ => none
  | '\\' :: c :: rest =>
    match escapeValue? c, readCodes rest with
    | some c, some (codes, rest) => some (c.toNat :: codes, rest)
    | _, _ => none
  | c :: rest =>
    if c = '\\' ∨ c.toNat < 0x20 then none
    else (readCodes rest).map fun (codes, rest) => (c.toNat :: codes, rest)

/-- A code is the first half of a surrogate pair. -/
def isHighHalf (code : Nat) : Bool := 0xd800 ≤ code && code < 0xdc00

/-- A code is the second half of a surrogate pair. -/
def isLowHalf (code : Nat) : Bool := 0xdc00 ≤ code && code < 0xe000

/-- The characters of codes in which surrogate halves come in pairs only. -/
def charsOfCodes? : List Nat → Option (List Char)
  | [] => some []
  | high :: low :: codes =>
    if isHighHalf high then
      if isLowHalf low then
        (charsOfCodes? codes).map
          (Char.ofNat (0x10000 + (high - 0xd800) * 0x400 + (low - 0xdc00)) :: ·)
      else none
    else if isLowHalf high then none
    else (charsOfCodes? (low :: codes)).map (Char.ofNat high :: ·)
  | [code] =>
    if isHighHalf code || isLowHalf code then none else some [Char.ofNat code]

/-- The text of a string literal after its opening quote, unless it holds half a surrogate pair,
and the text after it. -/
def readString (text : List Char) : Option (Option String × List Char) :=
  (readCodes text).map fun (codes, rest) => ((charsOfCodes? codes).map String.ofList, rest)

/-- The digits after a point, if there is a point. -/
def readFraction : List Char → Option (Option (List Nat) × List Char)
  | '.' :: rest =>
    match splitDigits rest with
    | ([], _) => none
    | (digits, rest) => some (some digits, rest)
  | rest => some (none, rest)

/-- An exponent, if one is written. -/
def readExponent : List Char → Option (Option Int × List Char)
  | [] => some (none, [])
  | c :: rest =>
    if c = 'e' ∨ c = 'E' then
      let (negative, rest) := splitSign rest
      match splitDigits rest with
      | ([], _) => none
      | (digits, rest) =>
        let n : Nat := naturalOf digits
        some (some (if negative then -n else n), rest)
    else some (none, c :: rest)

/-- A numeral after its sign: no leading zero, at least one digit before and after a point. -/
def readUnsigned (negative : Bool) (text : List Char) : Option (Numeral × List Char) :=
  match splitDigits text with
  | ([], _) => none
  | (0 :: _ :: _, _) => none
  | (whole, rest) =>
    match readFraction rest with
    | none => none
    | some (fraction, rest) =>
      (readExponent rest).map fun (exponent, rest) =>
        ({ negative, whole, fraction, exponent }, rest)

/-- A numeral at the start of a text. -/
def readNumeral : List Char → Option (Numeral × List Char)
  | '-' :: rest => readUnsigned true rest
  | rest => readUnsigned false rest

/-- A literal that has a value if there is something to make it of. -/
def usable {α : Type} (make : α → Literal) : Option α → Literal
  | some value => make value
  | none => .unusable

/-- A key with the colon after it; the key of a member that is half of a surrogate pair makes the
whole object unusable. -/
def readKey (text : List Char) : Option (Option String × List Char) :=
  match skipGap text with
  | '"' :: rest =>
    match readString rest with
    | none => none
    | some (key, rest) =>
      match skipGap rest with
      | ':' :: rest => some (key, rest)
      | _ => none
  | _ => none

/-- Puts a member in front of those read after it. -/
def addMember (key : Option String) (member : Literal) :
    Option (List (String × Literal)) → Option (List (String × Literal))
  | some members => key.map fun key => (key, member) :: members
  | none => none

mutual

/-- A value at the start of a text and the text after it; `depth` more containers may be opened.
The fuel bounds the number of nested calls. -/
def readValue : Nat → Nat → List Char → Option (Literal × List Char)
  | 0, _, _ => none
  | fuel + 1, depth, text =>
    match skipGap text with
    | 'n' :: 'u' :: 'l' :: 'l' :: rest => some (.null, rest)
    | 't' :: 'r' :: 'u' :: 'e' :: rest => some (.bool true, rest)
    | 'f' :: 'a' :: 'l' :: 's' :: 'e' :: rest => some (.bool false, rest)
    | '"' :: rest => (readString rest).map fun (text, rest) => (usable .str text, rest)
    | '[' :: rest =>
      let items :=
        match skipGap rest with
        | ']' :: rest => some ([], rest)
        | rest => readItems fuel (depth - 1) rest
      items.map fun (items, rest) => (if depth = 0 then .unusable else .arr items, rest)
    | '\x7b' :: rest =>
      let members :=
        match skipGap rest with
        | '\x7d' :: rest => some (some [], rest)
        | rest => readMembers fuel (depth - 1) rest
      members.map fun (members, rest) =>
        (if depth = 0 then .unusable else usable .obj members, rest)
    | text =>
      (readNumeral text).map fun (numeral, rest) => (usable .num numeral.number?, rest)

/-- The items of an array from an item on, and the text after its closing bracket. -/
def readItems : Nat → Nat → List Char → Option (List Literal × List Char)
  | 0, _, _ => none
  | fuel + 1, depth, text =>
    match readValue fuel depth text with
    | none => none
    | some (item, rest) =>
      match skipGap rest with
      | ']' :: rest => some ([item], rest)
      | ',' :: rest =>
        (readItems fuel depth rest).map fun (items, rest) => (item :: items, rest)
      | _ => none

/-- The members of an object from a key on, unless a key is unusable, and the text after its
closing brace. -/
def readMembers : Nat → Nat → List Char → Option (Option (List (String × Literal)) × List Char)
  | 0, _, _ => none
  | fuel + 1, depth, text =>
    match readKey text with
    | none => none
    | some (key, rest) =>
      match readValue fuel depth rest with
      | none => none
      | some (member, rest) =>
        match skipGap rest with
        | '\x7d' :: rest => some (addMember key member (some []), rest)
        | ',' :: rest =>
          (readMembers fuel depth rest).map fun (members, rest) =>
            (addMember key member members, rest)
        | _ => none

end

/-- The literal of a whole text in which `depth` containers may be open at once. Every second
nested call takes up a character, so the fuel suffices. -/
def readText (depth : Nat) (text : List Char) : Option Literal :=
  match readValue (2 * text.length + 2) depth text with
  | some (literal, rest) => if (skipGap rest).isEmpty then some literal else none
  | none => none

end JsonReader

/-- What a JSON text says; nothing when it is malformed. -/
def Literal.read? (text : String) : Option Literal :=
  JsonReader.readText maxDepth text.toList

/-- The value of a JSON text; nothing when it is malformed or a part of it has no value. -/
def Json.parse? (text : String) : Option Json :=
  (Literal.read? text).bind Literal.value?

end PageTree
