import PageTree.Proofs.Edit.Splicing
import PageTree.Proofs.Edit.Updating

/-!
# Idle edits

An edit is idle in a tree when no node that it could act on has its id, or when it has nothing to do
where it acts. Whether it is depends on the edits before it, so the idle edits of a batch are told
at their turns. Without them the batch comes to the same, since at each turn that is left the tree
is the one that it was.

## Main definitions

* `Edit.scope`, `Edit.HasNoWork`, `Edit.IsIdle`: edits that leave a tree as it is
* `Document.turns`: the edits of a batch, each with the document at its turn

## Main results

* `Edit.applyTo_of_isIdle`: one idle edit
* `Document.apply_turns_filter`: a batch without some of its idle edits
* `Document.apply_of_idle_dropped`: a batch without all of them
-/

namespace PageTree

namespace Edit

/-- The ids that an edit looks through: those of all nodes, or of the nodes below the root for an
edit that never acts on the root. -/
def scope (root : Node) : Edit → List String
  | .delete _ | .insert _ .before _ | .insert _ .after _ => Node.idsAll root.children
  | .updateProps .. | .updateStyle .. | .updateText .. | .replace .. | .insert _ .prepend _
  | .insert _ .append _ | .addEvent .. | .removeEvent .. | .updateAnimation .. => root.ids

/-- Where it acts the edit has nothing to do: nothing to set, or no binding to remove. -/
def HasNoWork (root : Node) : Edit → Prop
  | .updateProps _ props => props = []
  | .updateStyle _ style => style = {}
  | .removeEvent target index => ∀ node ∈ root.find? target, node.events.length ≤ index
  | .updateText .. | .replace .. | .delete _ | .insert .. | .addEvent .. | .updateAnimation .. =>
    False

instance (root : Node) : (edit : Edit) → Decidable (edit.HasNoWork root)
  | .updateProps _ props => decidable_of_iff (props.isEmpty = true) List.isEmpty_iff
  | .updateStyle _ style => inferInstanceAs (Decidable (style = {}))
  | .removeEvent target index =>
    inferInstanceAs (Decidable (∀ node ∈ root.find? target, node.events.length ≤ index))
  | .updateText .. | .replace .. | .delete _ | .insert .. | .addEvent .. | .updateAnimation .. =>
    .isFalse id

/-- The edit finds nothing to act on or has nothing to do there. -/
def IsIdle (root : Node) (edit : Edit) : Prop :=
  edit.target ∉ edit.scope root ∨ edit.HasNoWork root

instance (root : Node) (edit : Edit) : Decidable (edit.IsIdle root) :=
  inferInstanceAs (Decidable (_ ∨ _))

variable {root : Node} {edit : Edit}

theorem applyTo_of_not_mem_scope (h : edit.target ∉ edit.scope root) :
    edit.applyTo root = root := by
  cases edit with
  | updateProps | updateStyle | updateText | addEvent | removeEvent | updateAnimation =>
    exact Node.updateFirst_of_not_mem h
  | replace => exact (Node.updateOutermost_of_not_mem _ h).1
  | delete => exact Node.delete_of_not_mem_inside h
  | insert _ place _ =>
    cases place with
    | prepend | append => exact (Node.updateOutermost_of_not_mem _ h).1
    | before | after => exact Node.insertBeside_of_not_mem_inside h

theorem applyTo_of_hasNoWork (h : edit.HasNoWork root) : edit.applyTo root = root := by
  cases edit with
  | updateProps target props =>
    obtain rfl : props = [] := h
    exact Node.updateFirst_eq_self fun ⟨_, _, _, _, _, _, _, _⟩ _ => rfl
  | updateStyle target style =>
    obtain rfl : style = {} := h
    exact Node.updateFirst_eq_self fun ⟨_, _, _, _, _, _, _, _⟩ _ => rfl
  | removeEvent target index =>
    refine Node.updateFirst_eq_self fun node hnode => ?_
    rw [List.eraseIdx_of_length_le (h node hnode)]
    cases node with
    | mk => rfl
  | updateText | replace | delete | insert | addEvent | updateAnimation => cases h

/-- **An idle edit** leaves the tree as it is. -/
theorem applyTo_of_isIdle (h : edit.IsIdle root) : edit.applyTo root = root :=
  h.elim applyTo_of_not_mem_scope applyTo_of_hasNoWork

end Edit

namespace Document

/-- The edits of a batch, each with the document at its turn. -/
def turns (document : Document) : List Edit → List (Document × Edit)
  | [] => []
  | edit :: edits => (document, edit) :: (document.applyOne edit).turns edits

/-- A batch comes to the same without edits that are idle at their turns. -/
theorem apply_turns_filter {keep : Document × Edit → Bool} (edits : List Edit) :
    ∀ {document : Document},
      (∀ turn ∈ document.turns edits, keep turn = false → turn.2.IsIdle turn.1.app) →
        document.apply (((document.turns edits).filter keep).map Prod.snd) =
          document.apply edits := by
  induction edits with
  | nil => exact fun _ => rfl
  | cons edit edits ih =>
    intro document h
    obtain ⟨hturn, hturns⟩ := List.forall_mem_cons.1 h
    have hrest := ih hturns
    cases hkeep : keep (document, edit) with
    | true =>
      rw [turns, List.filter_cons_of_pos hkeep]
      exact hrest
    | false =>
      -- nothing happens at this turn, so the turns behind it are those of the other batch
      have hsame : document.applyOne edit = document :=
        congrArg (fun app => { document with app }) (Edit.applyTo_of_isIdle (hturn hkeep))
      rw [hsame] at hrest
      rw [turns, List.filter_cons_of_neg (Bool.not_eq_true _ ▸ hkeep), hsame, hrest, apply, apply,
        List.foldl_cons, hsame]

/-- A batch acts on the tree of a document and on nothing else. -/
theorem exists_apply_eq (edits : List Edit) : ∀ document : Document,
    ∃ app, document.apply edits = { document with app } := by
  induction edits with
  | nil => exact fun document => ⟨document.app, rfl⟩
  | cons edit edits ih =>
    intro document
    obtain ⟨app, happ⟩ := ih (document.applyOne edit)
    exact ⟨app, happ⟩

/-- **Idle edits can be dropped** from any batch. Without the edits that are idle at their turns a
batch makes the same document of every document, and no batch changes anything in a document but its
tree. -/
theorem apply_of_idle_dropped (document : Document) (edits : List Edit) :
    document.apply (((document.turns edits).filter fun turn =>
        ¬turn.2.IsIdle turn.1.app).map Prod.snd) = document.apply edits ∧
      (document.apply edits).version = document.version ∧
      (document.apply edits).links = document.links ∧
      (document.apply edits).modules = document.modules := by
  obtain ⟨app, happ⟩ := exists_apply_eq edits document
  refine ⟨apply_turns_filter edits fun turn _ hturn => ?_, ?_⟩
  · simpa using hturn
  · rw [happ]
    exact ⟨rfl, rfl, rfl⟩

example :
    let note : Node := { id := "note", kind := Primitive.text.kind }
    let batch : List Edit := [.insert "app" .append note, .updateText "note" "Hi", .delete "note",
      .updateText "note" "Hello", .delete "app", .removeEvent "app" 0]
    ((blank "Home").turns batch).map (fun turn => decide (turn.2.IsIdle turn.1.app)) =
      [false, false, false, true, true, true] := by
  decide +kernel

end Document

end PageTree
