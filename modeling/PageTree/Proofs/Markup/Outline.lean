import PageTree.Markup.Token
import PageTree.Markup.Tree
import PageTree.Proofs.Markup.Escaping

/-!
# What markup means

An outline is a tree of elements as a reader of the markup should see it: attribute maps with raw
values, raw texts, no text that is empty and no two texts next to each other. Written markup has an
outline, and an outline has the tokens that a reader should cut the markup into.

## Main definitions

* `Outline`, `Markup.outlines`
* `Outline.tokens`
* `Markup.Legible`: markup that can be read back at all
-/

namespace PageTree

/-- A tree of elements and texts. -/
inductive Outline where
  | text (content : String)
  | element (tag : String) (attributes : OrderedMap String) (content : List Outline)
  deriving Inhabited

namespace Outline

/-- Puts a text in front of outlines, as part of the text that already stands there if one does. -/
def pushText (content : String) : List Outline → List Outline
  | .text more :: rest => .text (content ++ more) :: rest
  | rest => if content.isEmpty then rest else .text content :: rest

/-- The texts among outlines, joined. -/
def ownText : List Outline → String
  | [] => ""
  | .text content :: rest => content ++ ownText rest
  | .element .. :: rest => ownText rest

/-- The tag belongs to elements whose content is not markup. -/
def isRaw (tag : String) : Bool := MarkupReader.rawTags.contains tag

mutual

/-- The tokens of an outline. -/
def tokens : Outline → List Token
  | .text content => [.text content]
  | .element tag attributes content =>
    if isRaw tag then [.raw tag attributes (ownText content)]
    else
      .opening tag attributes false ::
        if isVoid tag then [] else tokensAll content ++ [.closing tag]

/-- The tokens of outlines in sequence. -/
def tokensAll : List Outline → List Token
  | [] => []
  | outline :: rest => tokens outline ++ tokensAll rest

end

end Outline

/-- The attributes as a map; a bare attribute has the empty value. -/
def Attribute.toMap (attributes : List Attribute) : OrderedMap String :=
  attributes.map fun a => (a.name, a.value.getD "")

namespace Markup

mutual

/-- What written markup means. -/
def outlines : Markup → List Outline → List Outline
  | .text content, rest => Outline.pushText content rest
  | .verbatim content, rest => Outline.pushText content rest
  | .element tag attributes content, rest =>
    .element tag (Attribute.toMap attributes) (if isVoid tag then [] else outlinesAll content) ::
      rest

/-- What markup in sequence means. -/
def outlinesAll : List Markup → List Outline
  | [] => []
  | markup :: rest => outlines markup (outlinesAll rest)

end

/-! ## Legible markup -/

/-- A name of a tag: a letter, then letters, digits and hyphens, none of them a capital. -/
def IsTagName (tag : String) : Prop :=
  (∃ c rest, tag.toList = c :: rest ∧ c.isAlpha) ∧
    ∀ c ∈ tag.toList, MarkupReader.isTagChar c ∧ c.toLower = c

/-- A name of an attribute: characters that end no name, none of them a capital. -/
def IsAttributeName (name : String) : Prop :=
  name.toList ≠ [] ∧ ∀ c ∈ name.toList, MarkupReader.endsName c = false ∧ c.toLower = c

/-- Attributes with legible names, none of them repeated. -/
def LegibleAttributes (attributes : List Attribute) : Prop :=
  (∀ a ∈ attributes, IsAttributeName a.name) ∧ (attributes.map (·.name)).Nodup

/-- Raw text for an element: no closing tag of the element begins in it, in letters of either
case. -/
def IsRawBody (tag body : String) : Prop :=
  Text.occursIn ('<' :: '/' :: tag.toList) (Text.lower body.toList) = false

/-- A text that stands for itself outside of raw elements. -/
def IsBareText (content : String) : Prop :=
  ∀ c ∈ content.toList, IsPlain c ∧ c ≠ '&'

mutual

/-- Markup that can be read back. -/
def Legible : Markup → Prop
  | .text _ => True
  | .verbatim content => IsBareText content
  | .element tag attributes content =>
    IsTagName tag ∧ LegibleAttributes attributes ∧
      if Outline.isRaw tag then
        isVoid tag = false ∧
          (content = [] ∧ IsRawBody tag "" ∨ ∃ body, content = [.verbatim body] ∧ IsRawBody tag body)
      else if isVoid tag then True
      else LegibleAll content

/-- Markup in sequence that can be read back. -/
def LegibleAll : List Markup → Prop
  | [] => True
  | markup :: rest => Legible markup ∧ LegibleAll rest

end

theorem legibleAll_iff {markup : List Markup} : LegibleAll markup ↔ ∀ m ∈ markup, Legible m := by
  induction markup with
  | nil => simp [LegibleAll]
  | cons m rest ih => simp [LegibleAll, ih]

end Markup

end PageTree
