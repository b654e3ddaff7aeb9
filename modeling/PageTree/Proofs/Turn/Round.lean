import Mathlib.Data.List.TakeWhile
import PageTree.Proofs.Turn.Completion
import PageTree.Turn.Round

/-!
# A conversation is a series of batches

A page that is changed turn by turn in a conversation with a generator ends as the page to which
just the lists of edits among the answers are applied, one batch after the other. Words leave it as
it is, and so does a turn that fails.

A turn looks at the text of an answer and a batch at a value. The two meet in the span from the
first opening bracket to the last closing one: there is none in words, and between words it is the
printed list, which is read back as the value that it was printed from.

## Main definitions

* `Answer`, `Answer.Fits`: answers, and the conditions under which their texts are taken as meant
* `Answer.Settles`: what a turn with an answer has to come to
* `Document.converse`: the page after a conversation

## Main results

* `Answer.settles_complete`: one turn
* `Document.converse_eq_foldlM`: a whole conversation
-/

namespace PageTree

/-! ## Answers -/

/-- Some closing bracket stands behind an opening one. -/
def Completion.HasBrackets (text : List Char) : Prop :=
  ∃ before inside after, text = before ++ '[' :: (inside ++ ']' :: after)

/-- What a generator answers. -/
inductive Answer where
  /-- It fails for a reason. -/
  | failure (reason : String)
  /-- Words. -/
  | words (text : String)
  /-- The compact text of a list of packed edits, between words. -/
  | list (before : String) (items : List Json) (after : String)

namespace Answer

/-- What the generator gives. -/
def given : Answer → Except String String
  | .failure reason => .error reason
  | .words text => .ok text
  | .list before items after => .ok (before ++ (Json.arr items).compact ++ after)

/-- The list of an answer, if it is one. -/
def items? : Answer → Option (List Json)
  | .list _ items _ => some items
  | .failure _ | .words _ => none

/-- Words hold no brackets that could be taken for a list. A list is a value that its text is read
back as, and no bracket around it extends it. -/
def Fits : Answer → Prop
  | .failure _ => True
  | .words text => ¬Completion.HasBrackets text.toList
  | .list before items after =>
    '[' ∉ before.toList ∧ ']' ∉ after.toList ∧
      (Json.arr items).Keyed ∧ (Json.arr items).Steady ∧ (Json.arr items).depth ≤ maxDepth

/-- An item of a list is an edit, packed or not. -/
def isEdit (item : Json) : Bool := (Edit.ofJson? item.unpackEdit).isSome

/-- What a turn with an answer comes to: a failure for the reason given; the same page and the words
as they are; or what the batch makes of the page, with the number of edits, and with a warning for
each item that is none before the findings about the new page. -/
def Settles (document : Document) : Answer → Except Failure Round → Prop
  | .failure reason, outcome => outcome = .error (.builder reason)
  | .words text, outcome =>
    outcome = .ok { document, changes := 0, reply := some text, findings := [] }
  | .list _ items _, outcome => ∃ updated,
    document.applyBatch (.arr items) .lenient = .ok updated ∧
      outcome = .ok {
        document := updated
        changes := items.countP isEdit
        reply := none
        findings :=
          (items.zipIdx.filter fun p => !isEdit p.1).map (fun p => Batch.skipWarning p.2) ++
            updated.diagnostics }

end Answer

/-! ## One turn -/

theorem Completion.span?_eq_none {text : List Char} (h : ¬HasBrackets text) :
    span? text = none := by
  have hclose : ∀ c ∈ (text.dropWhile (· != '[')).reverse, (c != ']') = true := by
    refine fun c hc => bne_iff_ne.2 fun heq => ?_
    obtain ⟨opened, after, hopened⟩ := List.append_of_mem (heq ▸ List.mem_reverse.1 hc)
    have hhead := List.head?_dropWhile_not (· != '[') text
    have hwhole := List.takeWhile_append_dropWhile (p := (· != '[')) (l := text)
    rw [hopened] at hhead hwhole
    cases opened with
    | nil => simp at hhead
    | cons first inside =>
      have hfirst : first = '[' := by simpa using hhead
      exact h ⟨_, inside, after, by rw [← hwhole, hfirst, List.cons_append]⟩
  have hnone : (text.dropWhile (· != '[')).reverse.dropWhile (· != ']') = [] :=
    List.dropWhile_eq_nil_iff.2 hclose
  rw [span?, hnone]
  rfl

theorem Batch.length_edits_unpacked (items : List Json) :
    (ofItems (items.map Json.unpackEdit)).edits.length = items.countP Answer.isEdit := by
  rw [ofItems, List.length_filterMap_eq_countP, List.countP_map]
  rfl

theorem Batch.skipped_unpacked (items : List Json) :
    (ofItems (items.map Json.unpackEdit)).skipped =
      (items.zipIdx.filter fun p => !Answer.isEdit p.1).map fun p => skipWarning p.2 := by
  rw [← List.filterMap_eq_map (f := fun p : Json × Nat => skipWarning p.2), List.filterMap_filter]
  simp only [ofItems, List.zipIdx_map, List.filterMap_map]
  refine List.filterMap_congr fun p _ => ?_
  cases hedit : Answer.isEdit p.1 <;> simp_all [Answer.isEdit]

/-- **One turn** settles its answer. -/
theorem Answer.settles_complete {answer : Answer} (hfits : answer.Fits) (document : Document)
    {message : String} {generator : String → Except String String}
    (hgiven : generator (BuildRequest.ofDocument document message).prompt = answer.given) :
    answer.Settles document (document.round message generator) := by
  rw [Document.round, hgiven]
  cases answer with
  | failure reason => rfl
  | words text =>
    change document.complete (.ofText text) = _
    rw [Completion.ofText_of_no_span (Completion.span?_eq_none hfits)]
    rfl
  | list before items after =>
    obtain ⟨hbefore, hafter, hkeyed, hsteady, hdepth⟩ := hfits
    have htext := Completion.ofText_between hbefore hafter
      (Json.parse?_compact hkeyed hsteady hdepth)
    refine ⟨document.apply (Batch.ofItems (items.map Json.unpackEdit)).edits, rfl, ?_⟩
    rw [← Batch.length_edits_unpacked, ← Batch.skipped_unpacked]
    exact congrArg document.complete htext

/-! ## Conversations -/

/-- A request in words, and the generator that is asked. -/
structure Turn where
  message : String
  generator : String → Except String String

namespace Document

/-- The page after a turn; a turn that fails leaves it as it is. -/
def afterTurn (document : Document) (turn : Turn) : Document :=
  match document.round turn.message turn.generator with
  | .ok round => round.document
  | .error _ => document

/-- The page after a conversation. -/
def converse (document : Document) (turns : List Turn) : Document :=
  turns.foldl afterTurn document

/-- The turns of a conversation, each with the page that it starts from. -/
def stages (document : Document) : List Turn → List (Document × Turn)
  | [] => []
  | turn :: turns => (document, turn) :: (document.afterTurn turn).stages turns

theorem afterTurn_of_settles {document : Document} {turn : Turn} {answer : Answer}
    (h : answer.Settles document (document.round turn.message turn.generator)) :
    answer.items?.toList.foldlM (fun document items => document.applyBatch (.arr items) .lenient)
      document = .ok (document.afterTurn turn) := by
  cases answer with
  | failure reason =>
    rw [afterTurn, (h : _ = _)]
    rfl
  | words text =>
    rw [afterTurn, (h : _ = _)]
    rfl
  | list before items after =>
    obtain ⟨updated, hbatch, hround⟩ := h
    rw [afterTurn, hround]
    change (do document.applyBatch (.arr items) .lenient >>= pure) = _
    rw [bind_pure, hbatch]

/-- **A conversation is a series of batches.** When every answer that a generator gives is a
failure, words, or a list between words, the page ends as the page to which just the lists are
applied, one batch after the other, whatever their errors; and every turn settles its answer. -/
theorem converse_eq_foldlM {document : Document} {turns : List Turn} {answers : List Answer}
    (hgiven : List.Forall₂ (fun stage answer => stage.2.generator
      (BuildRequest.ofDocument stage.1 stage.2.message).prompt = answer.given)
      (document.stages turns) answers)
    (hfits : ∀ answer ∈ answers, answer.Fits) :
    (answers.filterMap Answer.items?).foldlM
        (fun document items => document.applyBatch (.arr items) .lenient) document =
        .ok (document.converse turns) ∧
      List.Forall₂ (fun stage answer => answer.Settles stage.1
        (stage.1.round stage.2.message stage.2.generator)) (document.stages turns) answers := by
  induction turns generalizing document answers with
  | nil =>
    cases hgiven
    exact ⟨rfl, .nil⟩
  | cons turn turns ih =>
    obtain ⟨answer, answers, hfirst, hrest, rfl⟩ := List.forall₂_cons_left_iff.1 hgiven
    obtain ⟨hfit, hfits⟩ := List.forall_mem_cons.1 hfits
    have hsettles := Answer.settles_complete hfit document hfirst
    obtain ⟨hfold, hall⟩ := ih hrest hfits
    refine ⟨?_, .cons hsettles hall⟩
    have hitems : (answer :: answers).filterMap Answer.items? =
        answer.items?.toList ++ answers.filterMap Answer.items? := by
      cases answer <;> rfl
    rw [hitems, List.foldlM_append, afterTurn_of_settles hsettles]
    exact hfold

/-- A list with an item that is no edit, words with a stray bracket, a failure, an empty list. -/
def smallTalk : List Answer := [
  .list "Renamed it: "
    [.obj [("op", .str "updateText"), ("nodeId", .str "app"), ("text", .str "Hi")],
      .obj [("op", .str "rename")]] " [sic",
  .words "Anything else?]", .failure "rate limit", .list "" [] ""]

theorem converse_eq_foldlM_smallTalk :
    let turns := smallTalk.map fun answer => ⟨"Go on.", fun _ => answer.given⟩
    (∀ answer ∈ smallTalk, answer.Fits) ∧
      (smallTalk.filterMap Answer.items?).foldlM
        (fun document items => document.applyBatch (.arr items) .lenient) (blank "Talk") =
        .ok ((blank "Talk").converse turns) ∧
      List.Forall₂ (fun stage answer => answer.Settles stage.1
        (stage.1.round stage.2.message stage.2.generator))
        ((blank "Talk").stages turns) smallTalk := by
  have hwords : ¬Completion.HasBrackets "Anything else?]".toList := by
    rintro ⟨before, inside, after, h⟩
    have hmem : '[' ∈ "Anything else?]".toList := by simp [h]
    exact absurd hmem (by decide)
  have hfits : ∀ answer ∈ smallTalk, answer.Fits := by
    refine List.forall_mem_cons.2 ⟨?_, List.forall_mem_cons.2 ⟨hwords, List.forall_mem_cons.2
      ⟨trivial, List.forall_mem_singleton.2 ?_⟩⟩⟩
    · refine ⟨by decide, by decide, ?_, by decide +kernel, by decide⟩
      exact ⟨⟨by decide, trivial, trivial, trivial, trivial⟩, ⟨by decide, trivial, trivial⟩,
        trivial⟩
    · exact ⟨by decide, by decide, trivial, trivial, by decide⟩
  exact ⟨hfits, converse_eq_foldlM (.cons rfl (.cons rfl (.cons rfl (.cons rfl .nil)))) hfits⟩

end Document

end PageTree
