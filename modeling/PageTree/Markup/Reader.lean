import PageTree.Markup.Forest
import PageTree.Markup.Token

/-!
# Reading markup

Tokens become elements one by one. An opening tag opens an element inside the innermost open one,
unless it is void or closed at once; a closing tag closes the innermost open element of its name
with all that is open inside it, and is ignored when there is none.

## Main definitions

* `Forest.read`
-/

namespace PageTree

/-- The elements read so far and those still open, from the inside out. -/
structure Growth where
  forest : Forest := .empty
  openElements : List Nat := []

namespace Growth

/-- The element that content goes into. -/
def current (g : Growth) : Nat := g.openElements.headD rootIndex

/-- Adds a text. -/
def addText (content : String) (g : Growth) : Growth :=
  { g with forest := g.forest.addContent g.current (.text content) }

/-- Adds an element of raw text. -/
def addRaw (name : String) (attributes : OrderedMap String) (body : String) (g : Growth) :
    Growth :=
  let forest := g.forest.append g.current name attributes
  { g with
    forest :=
      if body.isEmpty then forest else forest.addContent g.forest.size (.text body) }

/-- Adds an element and opens it. -/
def addElement (name : String) (attributes : OrderedMap String) (opened : Bool) (g : Growth) :
    Growth where
  forest := g.forest.append g.current name attributes
  openElements := if opened then g.forest.size :: g.openElements else g.openElements

/-- Closes the innermost open element of a name. -/
def close (name : String) (g : Growth) : Growth :=
  match g.openElements.dropWhile fun i => (g.forest.get i).tag != name with
  | [] => g
  | _ :: others => { g with openElements := others }

/-- Takes up a token. -/
def take (g : Growth) : Token → Growth
  | .skipped => g
  | .closing name => g.close name
  | .opening name attributes selfClosing =>
    g.addElement name attributes (!selfClosing && !isVoid name)
  | .raw name attributes body => g.addRaw name attributes body
  | .text content => g.addText content

end Growth

/-- The elements that tokens describe. -/
def Forest.ofTokens (tokens : List Token) : Forest :=
  (tokens.foldl Growth.take {}).forest

/-- The elements of markup. -/
def Forest.read (markup : String) : Except MarkupFault Forest :=
  (Token.ofMarkup markup).map Forest.ofTokens

end PageTree
