import PageTree.Diagnosis.Failure
import PageTree.Edit.Packing

/-!
# Batches of edits

A batch is read item by item. An item that is no edit is left out with a warning, so that the rest
of the batch survives.

## Main definitions

* `Batch.read`: the edits among the items of an array
-/

namespace PageTree

/-- The edits that were read and warnings for the items left out. -/
structure Batch where
  /-- The edits in order. -/
  edits : List Edit
  /-- A warning for each item left out. -/
  skipped : List Diagnostic

namespace Batch

/-- The warning for an item that is no edit. -/
def skipWarning (index : Nat) : Diagnostic where
  severity := .warning
  path := "ops[" ++ toString index ++ "]"
  message := "skipped op"

/-- The batch of the items of an array. -/
def ofItems (items : List Json) : Batch where
  edits := items.filterMap Edit.ofJson?
  skipped := items.zipIdx.filterMap fun (item, index) =>
    if (Edit.ofJson? item).isSome then none else some (skipWarning index)

/-- The batch of a value, which has to be an array. -/
def read : Json → Except Failure Batch
  | .arr items => .ok (ofItems items)
  | _ => .error .editsNotListed

/-- The batch of a value whose edits may be packed. -/
def readPacked : Json → Except Failure Batch
  | .arr items => .ok (ofItems (items.map Json.unpackEdit))
  | _ => .error .editsNotListed

end Batch

end PageTree
