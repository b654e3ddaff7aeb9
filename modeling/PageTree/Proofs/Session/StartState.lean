import PageTree.Proofs.Json.Respelling
import PageTree.Proofs.Json.Values
import PageTree.Proofs.Render.StateScript
import PageTree.Proofs.Session.Nodes
import PageTree.Proofs.Tree.Node

/-!
# The state that a page starts in

A page starts in the state that its document gives to the app. On the way the state is printed,
its closing tags are taken apart, it stands in a script between an assignment and a semicolon, the
script is found again among the elements of the page, the assignment is cut off, and what is left
is read. None of the texts in the state, and none of the ids that nodes have, comes in between.

## Main definitions

* `Document.startState`: the state that a document gives to its app

## Main results

* `Json.parse?_scriptJson`: a value that stands in a script is read back
* `Session.assignedText_assignment`: what an assignment in a script assigns
* `Session.load_startState`: a page starts in the state of its document
-/

namespace PageTree

/-! ## Values in scripts -/

theorem Literal.read?_scriptJson (value : Json) :
    Literal.read? (scriptJson value) = some (value.reread maxDepth) := by
  rw [Literal.read?, scriptJson, String.toList_ofList]
  exact JsonReader.readText_replace (JsonReader.readText_chars maxDepth value)

/-- **A value that stands in a script is read back** when its keys are distinct, its numbers are
read back and it is not nested too deep. -/
theorem Json.parse?_scriptJson {value : Json} (hkeyed : value.Keyed) (hsteady : value.Steady)
    (hdepth : value.depth ≤ maxDepth) : parse? (scriptJson value) = some value := by
  rw [parse?, Literal.read?_scriptJson, reread_eq_literal hsteady hdepth, Option.bind_some,
    value?_literal hkeyed]

/-- An object in a script begins with its brace. -/
theorem exists_toList_scriptJson (members : List (String × Json)) :
    ∃ inner, (scriptJson (.obj members)).toList = '\x7b' :: inner := by
  obtain ⟨inner, hinner⟩ : ∃ inner, (Json.obj members).chars = '\x7b' :: inner := by
    cases members with
    | nil => exact ⟨_, rfl⟩
    | cons => exact ⟨_, rfl⟩
  rw [scriptJson, String.toList_ofList, hinner]
  exact ⟨_, rfl⟩

namespace Text

theorem dropWhile_of_head {drop : Char → Bool} {c : Char} (hc : drop c = false)
    (text : List Char) : (c :: text).dropWhile drop = c :: text :=
  List.dropWhile_cons_of_neg (by simp [hc])

/-- Trimming leaves a text alone whose ends stay. -/
theorem trim_of_ends {drop : Char → Bool} {first last : Char} {inner : List Char}
    (hfirst : drop first = false) (hlast : drop last = false) :
    trim drop (first :: inner ++ [last]) = first :: inner ++ [last] := by
  rw [trim, trimStart, List.cons_append, dropWhile_of_head hfirst, trimEnd, ← List.cons_append,
    List.reverse_append, List.reverse_singleton, List.singleton_append, dropWhile_of_head hlast,
    List.reverse_cons, List.reverse_reverse]

end Text

namespace Session

theorem dropStart_append (pattern text : List Char) :
    dropStart pattern (pattern ++ text) = text := by
  have hprefix : pattern.isPrefixOf (pattern ++ text) = true :=
    List.isPrefixOf_iff_prefix.2 (List.prefix_append pattern text)
  rw [dropStart, if_pos hprefix, List.drop_left]

/-- **What an assignment of an object assigns** is the object, whatever is in it. -/
theorem assignedText_assignment {object : String} {inner : List Char}
    (h : object.toList = '\x7b' :: inner) :
    assignedText ("window.__irState = " ++ object ++ ";") = object := by
  have hscript : ("window.__irState = " ++ object ++ ";").toList =
      "window.__irState".toList ++ ' ' :: '=' :: ' ' :: (object.toList ++ [';']) := by
    simp [String.toList_append]
  have hsemicolon : Text.isBlank ';' = false := by decide
  have hletter : Text.isBlank 'w' = false := by decide
  have hends : Text.trimBlank ("window.__irState".toList ++ ' ' :: '=' :: ' ' ::
      (object.toList ++ [';'])) = "window.__irState".toList ++ ' ' :: '=' :: ' ' ::
        (object.toList ++ [';']) := by
    change Text.trim Text.isBlank ('w' :: ("indow.__irState = ".toList ++ object.toList) ++ [';']) =
      'w' :: ("indow.__irState = ".toList ++ object.toList) ++ [';']
    exact Text.trim_of_ends hletter hsemicolon
  have hequals : Text.trimStart Text.isBlank (' ' :: '=' :: ' ' :: (object.toList ++ [';'])) =
      '=' :: ' ' :: (object.toList ++ [';']) :=
    rfl
  have hvalue : Text.trimBlank (' ' :: (object.toList ++ [';'])) = object.toList ++ [';'] := by
    have hbrace : Text.isBlank '\x7b' = false := by decide
    rw [h]
    exact Text.trim_of_ends hbrace hsemicolon
  rw [assignedText, hscript, hends, dropStart_append, hequals,
    show '=' :: ' ' :: (object.toList ++ [';']) = ['='] ++ ' ' :: (object.toList ++ [';']) from rfl,
    dropStart_append, hvalue]
  simp only [List.getLast?_concat, if_pos, List.dropLast_concat, String.ofList_toList]

end Session

/-! ## States of documents -/

namespace Document

/-- The state that a document gives to its app: the prop of that name where it is an object, and an
empty object otherwise. -/
def startState (document : Document) : Json :=
  match document.app.props.lookup "state" with
  | some (.obj members) => .obj members
  | _ => .obj []

theorem startState_eq (document : Document) :
    document.startState = .obj (document.initialState?.getD []) := by
  rw [startState, initialState?]
  cases document.app.props.lookup "state" with
  | none => rfl
  | some value => cases value with
    | _ => rfl

/-- The state of a document that was read has distinct keys and is not nested too deep. -/
theorem startState_keyed_and_depth {text : String} {document : Document}
    (h : read? text = some document) :
    document.startState.Keyed ∧ document.startState.depth ≤ maxDepth := by
  have happ : document.app ∈ document.app.preorder := by
    rw [Node.preorder_eq]
    exact List.mem_cons_self
  have hprops := (ownSurvives_of_read? h _ happ).props
  rw [startState]
  split
  · next members hmembers =>
    have hmem := OrderedMap.mem_of_lookup hmembers
    refine ⟨Json.keyedMembers_iff.1 hprops.keyed.2 _ hmem, ?_⟩
    have hdepth := Json.membersDepth_le.1 (Nat.le_of_succ_le_succ hprops.depth) _ hmem
    exact Nat.le_succ_of_le hdepth
  · exact ⟨⟨List.nodup_nil, trivial⟩, by decide⟩

end Document

/-! ## Loading -/

namespace Session

theorem initialState_of_stateless {document : Document}
    (h : document.initialState?.getD [] = []) (theme : Theme) (defaults : PageDefaults) :
    initialState (document.forest theme defaults) = .ok (.obj []) := by
  have hnone := Document.findFirst?_isStateScript_eq_none h theme defaults
  unfold initialState
  split
  · rfl
  · next script hscript => cases hnone.symm.trans hscript

/-- The state that is found in the table of a page is that of the document. -/
theorem initialState_forest {document : Document} (hkeyed : document.startState.Keyed)
    (hsteady : document.startState.Steady) (hdepth : document.startState.depth ≤ maxDepth)
    (theme : Theme) (defaults : PageDefaults) :
    initialState (document.forest theme defaults) = .ok document.startState := by
  rw [document.startState_eq] at hkeyed hsteady hdepth ⊢
  cases hstate : document.initialState? with
  | none => rw [initialState_of_stateless (by rw [hstate]; rfl)]; rfl
  | some state =>
    rw [hstate] at hkeyed hsteady hdepth
    cases state with
    | nil => rw [initialState_of_stateless (by rw [hstate]; rfl)]; rfl
    | cons entry state =>
      obtain ⟨k, hfind, htext⟩ := Document.exists_stateScript hstate theme defaults
      obtain ⟨inner, hinner⟩ := exists_toList_scriptJson (entry :: state)
      have hassigned : assignedText (Document.stateText (entry :: state)) =
          scriptJson (.obj (entry :: state)) :=
        assignedText_assignment hinner
      have hvalue : Json.parse? (scriptJson (.obj (entry :: state))) =
          some (.obj (entry :: state)) :=
        Json.parse?_scriptJson hkeyed hsteady hdepth
      unfold initialState
      split
      · next hnone => cases hfind.symm.trans hnone
      · next script hscript =>
        obtain rfl := Option.some.inj (hfind.symm.trans hscript)
        rw [htext, hassigned, hvalue]
        rfl

/-- **A page starts in the state of its document.** The text of a document that was read is loaded
without a fault as a page in the state that the document gives to its app, whatever texts are in the
state and whatever ids nodes have. -/
theorem load_startState {text : String} {document : Document}
    (hread : Document.read? text = some document) (hreadable : document.IsReadable)
    (hsteady : document.startState.Steady) (theme : Theme) (defaults : PageDefaults) :
    ∃ s, load (document.html theme defaults) = .ok s ∧ s.state = document.startState := by
  obtain ⟨hkeyed, hdepth⟩ := document.startState_keyed_and_depth hread
  refine ⟨fresh (document.forest theme defaults) document.startState, ?_, rfl⟩
  rw [load_html theme defaults hreadable, initialState_forest hkeyed hsteady hdepth]
  rfl

/-- A document whose state looks like the script around it, with a node that has the id of that
script. -/
def disguised : Document where
  version := formatVersion
  app := {
    id := "a"
    kind := Primitive.page.kind
    props := [("state", .obj [("z", .str "</script><!-- \\\" ;"),
      ("window.__irState = ", .arr [.str "= window.__irState;", .obj [("</", .null)]]),
      ("a", .num (.int (-7)))])]
    children := [{
      id := "b"
      kind := Primitive.text.kind
      props := [("id", .str stateScriptId), ("state", .obj [])] }] }

theorem read?_disguised : Document.read? disguised.compact = some disguised := by
  have hliteral := Json.reread_eq_literal (by decide : disguised.json.Steady)
    (by decide : disguised.json.depth ≤ maxDepth)
  rw [Document.read?, Document.compact, Literal.read?_compact, hliteral]
  rfl

/-- The pages of that document start in its state. -/
theorem load_startState_disguised :
    Document.read? disguised.compact = some disguised ∧ disguised.IsReadable ∧
      disguised.startState.Steady ∧
      (∃ s, load (disguised.html .minimal {}) = .ok s ∧ s.state = disguised.startState) ∧
      ∃ s, load (disguised.html (.themed "assets") {}) = .ok s ∧
        s.state = disguised.startState := by
  have hreadable : disguised.IsReadable := ⟨by decide +kernel, by decide +kernel⟩
  have hsteady : disguised.startState.Steady := by decide +kernel
  exact ⟨read?_disguised, hreadable, hsteady,
    load_startState read?_disguised hreadable hsteady .minimal {},
    load_startState read?_disguised hreadable hsteady (.themed "assets") {}⟩

end Session

end PageTree
