import PageTree.Text.Classes

/-!
# Suspicious scripts

Patterns that point to code made at run time: a call of `eval`, of `new Function`, of `import`.
A pattern begins at a word boundary; white space may stand before the parenthesis. The check is
advice only, since a script can do the same in other words.

## Main definitions

* `ScriptPattern`, `ScriptPattern.all`
* `ScriptPattern.occursIn`
-/

namespace PageTree

/-- A pattern searched for in scripts. -/
structure ScriptPattern where
  /-- The pattern as it is shown to readers. -/
  shown : String
  /-- The words that it consists of, with white space between them. -/
  words : List String

namespace ScriptPattern

/-- The patterns, in the order in which they are reported. -/
def all : List ScriptPattern := [
  ⟨"\\beval\\s*\\(", ["eval"]⟩,
  ⟨"\\bnew\\s+Function\\s*\\(", ["new", "Function"]⟩,
  ⟨"\\bimport\\s*\\(", ["import"]⟩]

/-- The words with white space between them and an opening parenthesis after optional white space
start the text. -/
def startsWith : List String → List Char → Bool
  | [], text =>
    match text.dropWhile Text.isBlank with
    | '(' :: _ => true
    | _ => false
  | [word], text =>
    match word.toList.isPrefixOf? text with
    | some rest => startsWith [] rest
    | none => false
  | word :: words, text =>
    match word.toList.isPrefixOf? text with
    | some (c :: rest) => Text.isBlank c && startsWith words (rest.dropWhile Text.isBlank)
    | _ => false

/-- The pattern occurs after the character `before`, which is missing at the start of a text. -/
def occursFrom (pattern : ScriptPattern) (before : Option Char) : List Char → Bool
  | [] => false
  | c :: cs =>
    startsWith pattern.words (c :: cs) && !before.any Text.isWordChar ||
      occursFrom pattern (some c) cs

/-- The pattern occurs in a script. -/
def occursIn (pattern : ScriptPattern) (source : String) : Bool :=
  pattern.occursFrom none source.toList

end ScriptPattern

end PageTree
