import PageTree.Diagnosis.Check
import PageTree.Edit.Apply
import PageTree.Turn.Completion
import PageTree.Turn.Prompt

/-!
# Rounds with a generator

One round asks a generator, applies the edits that it answers and checks the result. An answer in
words leaves the page as it is.

## Main definitions

* `Document.round`: one round
* `Document.applyBatch`: a batch of packed edits under a policy
-/

namespace PageTree

/-- What a round comes to. -/
structure Round where
  /-- The page after it. -/
  document : Document
  /-- How many edits were applied. -/
  changes : Nat
  /-- The answer in words, if it was one. -/
  reply : Option String
  /-- Warnings for items left out, then findings about the page. -/
  findings : List Diagnostic

namespace Document

/-- What an answer makes of a document. -/
def complete (document : Document) : Completion → Except Failure Round
  | .edits batch =>
    let updated := document.apply batch.edits
    .ok {
      document := updated
      changes := batch.edits.length
      reply := none
      findings := batch.skipped ++ updated.diagnostics }
  | .reply text => .ok { document, changes := 0, reply := some text, findings := [] }
  | .failure reason => .error (.builder reason)

/-- One round with a generator that answers a prompt with a text or fails for a reason. -/
def round (document : Document) (message : String) (generator : String → Except String String) :
    Except Failure Round :=
  match generator (BuildRequest.ofDocument document message).prompt with
  | .ok text => document.complete (.ofText text)
  | .error reason => document.complete (.failure reason)

/-- A batch of packed edits applied under a policy. -/
def applyBatch (document : Document) (edits : Json) (policy : Policy) :
    Except Failure Document := do
  let batch ← Batch.readPacked edits
  let updated := document.apply batch.edits
  policy.enforce updated.diagnostics
  return updated

end Document

end PageTree
