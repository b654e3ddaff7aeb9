/-!
# Searching and cutting texts

The reading and printing parts of the library work on texts as lists of characters. This file
holds the operations they share: cutting at a pattern, replacing a pattern, splitting at a
character and trimming.

## Main definitions

* `cut?`: the text before and after the first occurrence of a pattern
* `replace`: every occurrence of a pattern replaced, from left to right
* `split`: the parts between the occurrences of one character
* `wordsBy`: the maximal runs of characters outside a class
-/

namespace PageTree.Text

/-- Whether all characters of a text have a property is decided by going through the text, not
through all characters there are. -/
instance (priority := high) decidableForallMem {p : Char → Prop} [DecidablePred p]
    (text : List Char) : Decidable (∀ c ∈ text, p c) :=
  List.decidableBAll p text

/-- The text before the first occurrence of `pattern` and the text after it. -/
def cut? (pattern : List Char) : List Char → Option (List Char × List Char)
  | [] => if pattern.isEmpty then some ([], []) else none
  | c :: cs =>
    match pattern.isPrefixOf? (c :: cs) with
    | some rest => some ([], rest)
    | none => (cut? pattern cs).map fun (before, after) => (c :: before, after)

/-- `pattern` occurs somewhere in the text. -/
def occursIn (pattern text : List Char) : Bool :=
  (cut? pattern text).isSome

/-- Replaces the occurrences of `pattern` from left to right; the first argument counts the
characters that still belong to the occurrence replaced last. -/
def replaceFrom (pattern replacement : List Char) : Nat → List Char → List Char
  | _, [] => []
  | n + 1, _ :: cs => replaceFrom pattern replacement n cs
  | 0, c :: cs =>
    if pattern.isPrefixOf (c :: cs) then
      replacement ++ replaceFrom pattern replacement (pattern.length - 1) cs
    else c :: replaceFrom pattern replacement 0 cs

/-- Every occurrence of a non-empty `pattern` replaced; occurrences do not overlap, and text that
a replacement brings in is not searched. -/
def replace (pattern replacement text : List Char) : List Char :=
  replaceFrom pattern replacement 0 text

/-- The parts between the characters of the class `gap`: one more part than there are such
characters, and a part is empty where two of them meet. -/
def splitWhere (gap : Char → Bool) : List Char → List (List Char)
  | [] => [[]]
  | c :: cs =>
    if gap c then [] :: splitWhere gap cs
    else
      match splitWhere gap cs with
      | [] => [[c]]
      | part :: parts => (c :: part) :: parts

/-- The parts between the occurrences of `mark`. -/
def split (mark : Char) (text : List Char) : List (List Char) :=
  splitWhere (· == mark) text

/-- The maximal runs of characters outside the class `gap`. -/
def wordsBy (gap : Char → Bool) (text : List Char) : List (List Char) :=
  (splitWhere gap text).filter (!·.isEmpty)

/-- The text without the characters of a class at its start. -/
def trimStart (drop : Char → Bool) (text : List Char) : List Char :=
  text.dropWhile drop

/-- The text without the characters of a class at its end. -/
def trimEnd (drop : Char → Bool) (text : List Char) : List Char :=
  (text.reverse.dropWhile drop).reverse

/-- The text without the characters of a class at either end. -/
def trim (drop : Char → Bool) (text : List Char) : List Char :=
  trimEnd drop (trimStart drop text)

/-- The text with the letters A to Z in lower case. -/
def lower (text : List Char) : List Char :=
  text.map Char.toLower

/-- The text with the letters a to z in upper case. -/
def upper (text : List Char) : List Char :=
  text.map Char.toUpper

end PageTree.Text
