import PageTree.Diagnosis.Basic

/-!
# Failures

Why a batch of edits or a round with a generator fails. Single edits that cannot be read are not
failures; they are reported as warnings beside those that can.
-/

namespace PageTree

/-- Why an edit round fails. -/
inductive Failure where
  /-- The edits are not given as an array. -/
  | editsNotListed
  /-- The document has errors: how many, and the first. -/
  | rejected (count : Nat) (first : Diagnostic)
  /-- The generator gave no edits. -/
  | builder (reason : String)
  deriving DecidableEq, Repr

namespace Failure

/-- The failure in words. -/
def message : Failure → String
  | .editsNotListed => "input outside the IR contract: ops must be a JSON array"
  | .rejected count first =>
    "document rejected with " ++ toString count ++ " validation error(s); first: " ++ first.line
  | .builder reason => "builder failed: " ++ reason

end Failure

end PageTree
