/-!
# Escaping markup

Characters that have a meaning in markup are written as entities. Reading knows one entity more
than writing uses; any other ampersand stands for itself.

## Main definitions

* `Markup.escape`, `Markup.unescape`
-/

namespace PageTree.Markup

/-- A character as it is written in text and in quoted attribute values. -/
def escapeChar (c : Char) : List Char :=
  if c = '&' then ['&', 'a', 'm', 'p', ';']
  else if c = '<' then ['&', 'l', 't', ';']
  else if c = '>' then ['&', 'g', 't', ';']
  else if c = '"' then ['&', 'q', 'u', 'o', 't', ';']
  else [c]

/-- A text as it is written. -/
def escapeChars (text : List Char) : List Char :=
  text.flatMap escapeChar

/-- What written text stands for. An entity begins with an ampersand and holds no other, so one
pass from left to right finds them all. -/
def unescapeChars : List Char → List Char
  | [] => []
  | '&' :: 'l' :: 't' :: ';' :: rest => '<' :: unescapeChars rest
  | '&' :: 'g' :: 't' :: ';' :: rest => '>' :: unescapeChars rest
  | '&' :: 'q' :: 'u' :: 'o' :: 't' :: ';' :: rest => '"' :: unescapeChars rest
  | '&' :: '#' :: '3' :: '9' :: ';' :: rest => '\'' :: unescapeChars rest
  | '&' :: 'a' :: 'm' :: 'p' :: ';' :: rest => '&' :: unescapeChars rest
  | c :: rest => c :: unescapeChars rest

/-- A text as it is written. -/
def escape (text : String) : String := String.ofList (escapeChars text.toList)

/-- What written text stands for. -/
def unescape (text : String) : String := String.ofList (unescapeChars text.toList)

end PageTree.Markup
