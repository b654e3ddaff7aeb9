import PageTree.Edit.Batch
import PageTree.Text.Classes

/-!
# Completions

What a generator answers. The text from the first opening bracket to the last closing bracket
behind it is taken for a list of edits; a text without such a span is an answer in words.

## Main definitions

* `Completion.ofText`
-/

namespace PageTree

/-- What an answer amounts to. -/
inductive Completion where
  /-- Edits, with warnings for items left out. -/
  | edits (batch : Batch)
  /-- An answer in words. -/
  | reply (text : String)
  /-- Edits that cannot be read. -/
  | failure (reason : String)

namespace Completion

/-- The text from the first opening bracket to the last closing bracket behind it. -/
def span? (text : List Char) : Option (List Char) :=
  let behind := ((text.dropWhile (· != '[')).reverse.dropWhile (· != ']')).reverse
  if behind.isEmpty then none else some behind

/-- The edits that a span holds. -/
def ofSpan (span : String) : Completion :=
  match Json.parse? span with
  | none => .failure "completion is not valid JSON"
  | some (.arr items) =>
    match Batch.readPacked (.arr items) with
    | .ok batch => .edits batch
    | .error cause => .failure cause.message
  | some _ => .failure "completion is not an array"

/-- What the text of an answer amounts to. White space around it is passed over in the search, but
words are given as they are. -/
def ofText (text : String) : Completion :=
  match span? (Text.trimBlank text.toList) with
  | none => .reply text
  | some span => ofSpan (String.ofList span)

end Completion

end PageTree
