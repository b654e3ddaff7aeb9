import PageTree.Markup.Forest

/-!
# Selectors

A selector is a sequence of compounds between white space. It matches an element that matches the
last compound and lies inside elements that match the others, in order from the outside in. A
compound is a tag or a star, followed by ids, classes and attributes.

## Main definitions

* `Compound`, `Compound.read?`, `Compound.accepts`
* `Forest.select?`: the first element in the document that a selector matches
-/

namespace PageTree

/-- Conditions on one element. -/
structure Compound where
  /-- The tag. -/
  tag : Option String := none
  /-- The value of the id attribute. -/
  id : Option String := none
  /-- Classes that the element has. -/
  classes : List String := []
  /-- Attributes that are present, with their values where one is asked for. -/
  attributes : List (String × Option String) := []
  deriving DecidableEq, Repr

namespace Compound

/-- Characters of names. -/
def isNameChar (c : Char) : Bool :=
  Text.isAlphanumeric c || c == '-' || c == '_'

/-- The name at the start of a text, and the rest. -/
def splitName (text : List Char) : String × List Char :=
  (String.ofList (text.takeWhile isNameChar), text.dropWhile isNameChar)

/-- Quotes of either kind. -/
def isQuote (c : Char) : Bool := c == '"' || c == '\''

/-- The condition between the brackets of an attribute; its name may not be empty. -/
def attribute? (text : List Char) : Option (String × Option String) :=
  let (name, value) :=
    match Text.cut? ['='] text with
    | some (name, value) =>
      (name, some (String.ofList (Text.trim isQuote (Text.trimBlank value))))
    | none => (text, none)
  let name := String.ofList (Text.lower (Text.trimBlank name))
  if name.isEmpty then none else some (name, value)

/-- Adds the conditions of a text to a compound. Each takes up a character at least, so the length
of the text suffices as fuel. -/
def readParts : Nat → Compound → List Char → Option Compound
  | _, compound, [] => some compound
  | 0, _, _ => none
  | fuel + 1, compound, '#' :: rest =>
    let (name, rest) := splitName rest
    if name.isEmpty then none else readParts fuel { compound with id := some name } rest
  | fuel + 1, compound, '.' :: rest =>
    let (name, rest) := splitName rest
    if name.isEmpty then none
    else readParts fuel { compound with classes := compound.classes ++ [name] } rest
  | fuel + 1, compound, '[' :: rest =>
    match Text.cut? [']'] rest with
    | none => none
    | some (inner, rest) =>
      match attribute? inner with
      | none => none
      | some condition =>
        readParts fuel { compound with attributes := compound.attributes ++ [condition] } rest
  | _, _, _ => none

/-- The compound that a text states. -/
def read? (text : List Char) : Option Compound :=
  match text with
  | '*' :: rest => readParts text.length {} rest
  | _ =>
    let (name, rest) := splitName text
    let tag := if name.isEmpty then none else some (String.ofList (Text.lower name.toList))
    readParts text.length { tag } rest

/-- An element meets all conditions. -/
def accepts (compound : Compound) (e : Element) : Bool :=
  compound.tag.all (· == e.tag) &&
    compound.id.all (fun id => e.attributes.lookup "id" == some id) &&
    compound.classes.all (words ((e.attributes.lookup "class").getD "")).contains &&
    compound.attributes.all fun (name, value) =>
      match e.attributes.lookup name, value with
      | some _, none => true
      | some actual, some expected => actual == expected
      | none, _ => false

/-- Elements from the inside out meet compounds from the inside out, with others between them. -/
def acceptsAround : List Compound → List Element → Bool
  | [], _ => true
  | _ :: _, [] => false
  | compound :: compounds, e :: elements =>
    if compound.accepts e then acceptsAround compounds elements
    else acceptsAround (compound :: compounds) elements

/-- The compounds of a selector from the inside out; a selector has at least one. -/
def selector? (text : String) : Option (Compound × List Compound) :=
  match ((Text.words text.toList).mapM read?).map List.reverse with
  | some (last :: around) => some (last, around)
  | _ => none

end Compound

namespace Forest

/-- An element matches a selector. -/
def matchesSelector (f : Forest) (last : Compound) (around : List Compound) (i : Nat) : Bool :=
  last.accepts (f.get i) && Compound.acceptsAround around ((f.lineage i).tail.map f.get)

/-- The first element in the document that a selector matches. -/
def select? (f : Forest) (selector : String) : Option Nat :=
  match Compound.selector? selector with
  | none => none
  | some (last, around) => f.preorder.find? (f.matchesSelector last around)

end Forest

end PageTree
