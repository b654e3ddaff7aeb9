import PageTree.Markup.Escape

/-!
# Written markup

Markup as a tree, and how it is written. Some tags are void: their elements have no content and no
closing tag.

## Main definitions

* `Markup`, `Markup.write`
-/

namespace PageTree

/-- An attribute; one without value is merely present. -/
structure Attribute where
  name : String
  value : Option String
  deriving DecidableEq, Repr

/-- Markup to be written. -/
inductive Markup where
  /-- A text, escaped when it is written. -/
  | text (content : String)
  /-- A text that is written as it is. -/
  | verbatim (content : String)
  /-- An element. -/
  | element (tag : String) (attributes : List Attribute) (content : List Markup)
  deriving Inhabited

/-- The tags of elements without content. -/
def voidTags : List String := ["img", "input", "br", "hr", "meta", "link"]

/-- Elements with this tag have no content. -/
def isVoid (tag : String) : Bool := voidTags.contains tag

namespace Attribute

/-- An attribute with a value. -/
def quoted (name value : String) : Attribute := ⟨name, some value⟩

/-- An attribute without value. -/
def bare (name : String) : Attribute := ⟨name, none⟩

/-- A bare attribute if a condition holds. -/
def bareIf (condition : Bool) (name : String) : List Attribute :=
  if condition then [bare name] else []

/-- An attribute of a map, bare when its value is empty. -/
def ofEntry (entry : String × String) : Attribute :=
  if entry.2.isEmpty then bare entry.1 else quoted entry.1 entry.2

/-- An attribute with the blank in front of it. -/
def write (a : Attribute) : List Char :=
  ' ' :: a.name.toList ++
    match a.value with
    | none => []
    | some value => '=' :: '"' :: Markup.escapeChars value.toList ++ ['"']

end Attribute

namespace Markup

/-- The opening tag of an element. -/
def writeOpening (tag : String) (attributes : List Attribute) : List Char :=
  '<' :: tag.toList ++ attributes.flatMap Attribute.write ++ ['>']

mutual

/-- Markup as characters. -/
def write : Markup → List Char
  | .text content => escapeChars content.toList
  | .verbatim content => content.toList
  | .element tag attributes content =>
    writeOpening tag attributes ++
      if isVoid tag then [] else writeAll content ++ '<' :: '/' :: tag.toList ++ ['>']

/-- Markup in sequence. -/
def writeAll : List Markup → List Char
  | [] => []
  | markup :: rest => write markup ++ writeAll rest

end

/-- The text of a line break. -/
def lineBreak : Markup := .verbatim "\n"

/-- Markup with a line break in front of each piece. -/
def lines (pieces : List Markup) : List Markup :=
  pieces.flatMap fun piece => [lineBreak, piece]

end Markup

end PageTree
