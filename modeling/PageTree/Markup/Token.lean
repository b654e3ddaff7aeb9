import PageTree.Markup.Escape
import PageTree.OrderedMap
import PageTree.Text.Classes

/-!
# Tokens of markup

Markup is cut into opening tags, closing tags and texts; comments and declarations are skipped.
The rules are lenient: an angle bracket that begins none of these is text, attributes may be
quoted or not, and a repeated attribute keeps its first value. Only a construct that never ends is
a fault. An element of raw text is one token with the text inside it, up to a closing tag of its
name in letters of either case, or to the end.

## Main definitions

* `Token`, `Token.ofMarkup`
* `MarkupFault`: what may be unterminated, and where it begins
-/

namespace PageTree

/-- Constructs that may lack their end. -/
inductive Unterminated where
  | comment | declaration | closingTag | tag
  deriving DecidableEq, Repr

/-- A construct without its end. -/
structure MarkupFault where
  /-- What it is. -/
  what : Unterminated
  /-- Where it begins, counted in bytes. -/
  offset : Nat
  deriving DecidableEq, Repr

/-- The construct in words. -/
def Unterminated.words : Unterminated → String
  | .comment => "unterminated comment"
  | .declaration => "unterminated declaration"
  | .closingTag => "unterminated closing tag"
  | .tag => "unterminated tag"

/-- The fault in words. -/
def MarkupFault.message (fault : MarkupFault) : String :=
  fault.what.words ++ " at byte " ++ toString fault.offset

/-- A piece of markup. -/
inductive Token where
  /-- A comment or a declaration. -/
  | skipped
  /-- A closing tag. -/
  | closing (name : String)
  /-- An opening tag, perhaps closed by a slash at its end. -/
  | opening (name : String) (attributes : OrderedMap String) (selfClosing : Bool)
  /-- An element of raw text. -/
  | raw (name : String) (attributes : OrderedMap String) (body : String)
  /-- A text. -/
  | text (content : String)
  deriving DecidableEq, Repr

namespace MarkupReader

/-- The tags of elements whose content is not markup. -/
def rawTags : List String := ["script", "style"]

/-- White space inside tags. -/
def isGap (c : Char) : Bool :=
  c = ' ' || c = '\t' || c = '\n' || c = '\r' || c = '\x0c'

/-- Characters of tag names. -/
def isTagChar (c : Char) : Bool := c.isAlphanum || c == '-'

/-- Characters that end the name of an attribute. -/
def endsName (c : Char) : Bool := isGap c || c == '=' || c == '>' || c == '/'

/-- The value of an attribute after the equals sign and white space, and the rest; a quoted value
needs its closing quote. -/
def readAttributeValue : List Char → Option (String × List Char)
  | '"' :: rest =>
    (Text.cut? ['"'] rest).map fun (value, rest) =>
      (String.ofList (Markup.unescapeChars value), rest)
  | '\'' :: rest =>
    (Text.cut? ['\''] rest).map fun (value, rest) =>
      (String.ofList (Markup.unescapeChars value), rest)
  | text =>
    let inValue (c : Char) : Bool := !isGap c && c != '>'
    some (String.ofList (Markup.unescapeChars (text.takeWhile inValue)), text.dropWhile inValue)

/-- An attribute after its name: its value, which is empty without an equals sign, and the
rest. -/
def readAssignment (text : List Char) : Option (String × List Char) :=
  match text.dropWhile isGap with
  | '=' :: rest => readAttributeValue (rest.dropWhile isGap)
  | rest => some ("", rest)

/-- The attributes of an opening tag, whether it is closed by a slash, and the text behind it.
Each round takes up a character, so the length of the text suffices as fuel. -/
def readAttributes : Nat → OrderedMap String → List Char →
    Option (OrderedMap String × Bool × List Char)
  | 0, _, _ => none
  | fuel + 1, attributes, text =>
    match text.dropWhile isGap with
    | [] => none
    | '>' :: rest => some (attributes, false, rest)
    | '/' :: '>' :: rest => some (attributes, true, rest)
    | c :: rest =>
      if c = '/' ∨ c = '=' then readAttributes fuel attributes rest
      else
        let name := c :: rest.takeWhile (!endsName ·)
        match readAssignment (rest.dropWhile (!endsName ·)) with
        | none => none
        | some (value, rest) =>
          readAttributes fuel
            (OrderedMap.setNew (String.ofList (Text.lower name)) value attributes) rest

/-- The body of raw text up to a closing tag with this name, and the text behind that tag. -/
def splitRaw (name : List Char) : List Char → List Char × List Char
  | [] => ([], [])
  | c :: rest =>
    if ('<' :: '/' :: name).isPrefixOf (Text.lower ((c :: rest).take (name.length + 2))) then
      ([], (rest.dropWhile (· != '>')).drop 1)
    else
      let (body, behind) := splitRaw name rest
      (c :: body, behind)

/-- The token of an opening tag, given the text behind its angle bracket. -/
def readOpening (text : List Char) : Option (Token × List Char) :=
  let name := Text.lower (text.takeWhile isTagChar)
  let tag := String.ofList name
  (readAttributes (text.length + 1) [] (text.dropWhile isTagChar)).map
    fun (attributes, selfClosing, rest) =>
      if rawTags.contains tag then
        let (body, behind) := splitRaw name rest
        (.raw tag attributes (String.ofList body), behind)
      else (.opening tag attributes selfClosing, rest)

/-- The first token of a text that is not empty, and the rest; or what is unterminated. -/
def readFirst : List Char → Except Unterminated (Token × List Char)
  | '<' :: '!' :: '-' :: '-' :: rest =>
    match Text.cut? ['-', '-', '>'] rest with
    | some (_, rest) => .ok (.skipped, rest)
    | none => .error .comment
  | '<' :: '!' :: rest =>
    match Text.cut? ['>'] rest with
    | some (_, rest) => .ok (.skipped, rest)
    | none => .error .declaration
  | '<' :: '/' :: rest =>
    match Text.cut? ['>'] rest with
    | some (name, rest) =>
      .ok (.closing (String.ofList (Text.lower (Text.trimBlank name))), rest)
    | none => .error .closingTag
  | c :: rest =>
    if c = '<' ∧ rest.head?.any Char.isAlpha then
      match readOpening rest with
      | some (token, rest) => .ok (token, rest)
      | none => .error .tag
    else
      .ok (.text (String.ofList (Markup.unescapeChars (c :: rest.takeWhile (· != '<')))),
        rest.dropWhile (· != '<'))
  | [] => .ok (.skipped, [])

/-- The number of bytes of a text. -/
def byteLength (text : List Char) : Nat :=
  text.foldl (fun n c => n + c.utf8Size) 0

/-- The tokens of a text that begins at an offset. Each token takes up a character, so the length
of the text suffices as fuel. -/
def readFrom : Nat → Nat → List Char → Except MarkupFault (List Token)
  | _, _, [] => .ok []
  | 0, _, _ => .ok []
  | fuel + 1, offset, text =>
    match readFirst text with
    | .error what => .error ⟨what, offset⟩
    | .ok (token, rest) =>
      match readFrom fuel (offset + (byteLength text - byteLength rest)) rest with
      | .error fault => .error fault
      | .ok tokens => .ok (token :: tokens)

end MarkupReader

/-- The tokens of markup. -/
def Token.ofMarkup (markup : String) : Except MarkupFault (List Token) :=
  MarkupReader.readFrom markup.toList.length 0 markup.toList

end PageTree
