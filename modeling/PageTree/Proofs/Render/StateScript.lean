import PageTree.Proofs.Markup.Traversal
import PageTree.Proofs.Render.Elements
import PageTree.Proofs.Render.ReadBack
import PageTree.Session.Basic

/-!
# The script with the initial state

A page has at most one script with the id under which a live page looks for its initial state: no
node becomes a script, and the other scripts of a page have other ids or none, whatever the ids and
the attributes of nodes are. So a search in the table of the page finds that script, and its text
is the text that was written into it.

## Main definitions

* `Markup.IsOther`: an element that is not the script with the initial state

## Main results

* `Node.scriptless_markup`: no node becomes a script
* `Document.findFirst?_isStateScript_eq_none`: without a state there is no such script
* `Document.exists_stateScript`: what the search for the script finds
-/

namespace PageTree

namespace Markup

/-- The element is not the script with the initial state. -/
def IsOther (tag : String) (attributes : List Attribute) : Prop :=
  ¬(tag = "script" ∧ (Attribute.toMap attributes).lookup "id" = some stateScriptId)

/-- No element of markup in sequence is a script. -/
abbrev Scriptless (ms : List Markup) : Prop := EveryAll (fun tag _ => tag ≠ "script") ms

theorem Scriptless.isOther {ms : List Markup} (h : Scriptless ms) : EveryAll IsOther ms :=
  EveryAll.mono (fun _ _ htag hscript => htag hscript.1) h

end Markup

/-- **No node becomes a script.** -/
theorem Node.scriptless_markup (theme : Theme) (node : Node) :
    Markup.Scriptless [node.markup theme] := by
  have hopening : ∀ tag ∈ openingTags, tag ≠ "script" := by decide +kernel
  have hpart : ∀ tag ∈ partTags, tag ≠ "script" := by decide +kernel
  have hgoverns : Governs (fun tag _ => tag ≠ "script") theme :=
    ⟨fun node => hopening _ (theme.opening_tag_mem node.kind node.props),
      fun tag htag _ _ => hpart tag htag⟩
  exact ⟨hgoverns.markup node, trivial⟩

/-! ## Pages -/

namespace Document

open Markup Outline

theorem scriptless_headContent (theme : Theme) (defaults : PageDefaults) (document : Document) :
    Scriptless (document.headContent theme defaults) := by
  have hhead : ∀ tag ∈ headTags, tag ≠ "script" := by decide +kernel
  exact everyAll_headContent (fun tag htag _ _ => hhead tag htag) theme defaults document

/-- The scripts in front of the one with the initial state. -/
def scriptLinks (theme : Theme) (document : Document) : List Markup :=
  (theme.links.scripts ++ (document.links.getD {}).scripts).map scriptLink

/-- The scripts behind the one with the initial state. -/
def laterScripts (document : Document) : List Markup :=
  (if document.isLive then
    [.element "script" [.quoted "id" "ir-runtime"] [.verbatim ("\n" ++ clientScript ++ "\n")]]
  else []) ++ document.modules.map moduleScript

theorem scriptParts_eq (theme : Theme) (document : Document) : document.scriptParts theme =
    document.scriptLinks theme ++ document.stateScript ++ document.laterScripts := by
  rw [scriptParts, scriptLinks, laterScripts, List.append_assoc]

theorem isOther_scriptLinks (theme : Theme) (document : Document) :
    EveryAll IsOther (document.scriptLinks theme) :=
  everyAll_map fun _ _ => ⟨fun h => absurd h.2 nofun, trivial⟩

theorem isOther_laterScripts (document : Document) : EveryAll IsOther document.laterScripts := by
  refine everyAll_append.2 ⟨?_, everyAll_map fun m _ => ⟨?_, trivial, trivial⟩⟩
  · split_ifs
    · refine ⟨⟨?_, trivial, trivial⟩, trivial⟩
      rintro ⟨-, hid⟩
      exact absurd hid (by decide)
    · trivial
  · rintro ⟨-, hid⟩
    have hname : "ir-module-" ++ m.id = stateScriptId := Option.some.inj hid
    have hchars := congrArg String.toList hname
    rw [String.toList_append] at hchars
    have hfourth := congrArg (fun chars => chars[3]?) hchars
    simp [stateScriptId] at hfourth

/-- The text of the script with the initial state. -/
def stateText (state : OrderedMap Json) : String :=
  "window.__irState = " ++ scriptJson (.obj state) ++ ";"

theorem isEmpty_stateText (state : OrderedMap Json) : (stateText state).isEmpty = false := by
  rw [Bool.eq_false_iff]
  intro hempty
  have hchars := congrArg String.toList (String.isEmpty_iff.1 hempty)
  unfold stateText at hchars
  rw [String.toList_append] at hchars
  exact List.append_ne_nil_of_right_ne_nil _ (by decide) hchars

/-- The script with a state that is not empty. -/
def stateElement (state : OrderedMap Json) : Markup :=
  .element "script" [.quoted "id" stateScriptId] [.verbatim (stateText state)]

/-- What stands in the body in front of the script with the initial state. -/
def bodyFront (theme : Theme) (document : Document) : List Markup :=
  [lineBreak, document.app.markup theme] ++ lines (document.scriptLinks theme) ++ [lineBreak]

/-- What stands in the body behind the script with the initial state. -/
def bodyBack (document : Document) : List Markup := lines document.laterScripts ++ [lineBreak]

theorem lines_append (as bs : List Markup) : lines (as ++ bs) = lines as ++ lines bs :=
  List.flatMap_append

theorem bodyParts_of_state {document : Document} {entry : String × Json}
    {state : OrderedMap Json} (h : document.initialState? = some (entry :: state))
    (theme : Theme) : document.bodyParts theme =
      document.bodyFront theme ++ stateElement (entry :: state) :: document.bodyBack := by
  have hscript : document.stateScript = [stateElement (entry :: state)] := by
    rw [stateScript, h]
    rfl
  have hparts : document.scriptParts theme = document.scriptLinks theme ++
      stateElement (entry :: state) :: document.laterScripts := by
    rw [scriptParts_eq, hscript, List.append_assoc]
    rfl
  have hsome : (document.scriptParts theme).isEmpty = false := by
    rw [hparts]
    simp
  have hlines : lines (document.scriptParts theme) = lines (document.scriptLinks theme) ++
      (lineBreak :: stateElement (entry :: state) :: lines document.laterScripts) := by
    rw [hparts, lines_append]
    rfl
  rw [bodyParts]
  simp only [hsome, Bool.false_eq_true, if_false, hlines, bodyFront, bodyBack, List.append_assoc,
    List.cons_append, List.nil_append]

theorem isOther_bodyFront (theme : Theme) (document : Document) :
    EveryAll IsOther (document.bodyFront theme) := by
  have hnode := (document.app.scriptless_markup theme).isOther
  refine everyAll_append.2 ⟨everyAll_append.2 ⟨⟨trivial, hnode⟩, ?_⟩, trivial, trivial⟩
  exact everyAll_lines (document.isOther_scriptLinks theme)

theorem isOther_bodyBack (document : Document) : EveryAll IsOther document.bodyBack :=
  everyAll_append.2 ⟨everyAll_lines document.isOther_laterScripts, trivial, trivial⟩

/-- Without a state no element of the page is the script with the initial state. -/
theorem isOther_page {document : Document} (h : document.initialState?.getD [] = [])
    (theme : Theme) (defaults : PageDefaults) :
    EveryAll IsOther (document.page theme defaults).tail := by
  have hnone : document.stateScript = [] := by
    rw [stateScript]
    split
    · rfl
    · rfl
    · next state hempty hstate =>
      rw [hstate] at h
      exact absurd h hempty
  have hscripts : EveryAll IsOther (document.scriptParts theme) := by
    rw [scriptParts_eq, hnone, List.append_nil]
    exact everyAll_append.2 ⟨document.isOther_scriptLinks theme, document.isOther_laterScripts⟩
  have hbody : EveryAll IsOther (document.bodyParts theme) := by
    rw [bodyParts]
    refine everyAll_append.2 ⟨everyAll_append.2 ⟨⟨trivial, ?_⟩, ?_⟩, trivial, trivial⟩
    · exact (document.app.scriptless_markup theme).isOther
    · split_ifs
      · exact ⟨trivial, trivial⟩
      · exact everyAll_lines hscripts
  have hhead := (scriptless_headContent theme defaults document).isOther
  have hother : ∀ tag ∈ ["html", "head", "body"], ∀ attributes, IsOther tag attributes := by
    rintro tag htag attributes ⟨rfl, -⟩
    exact absurd htag (by decide)
  exact ⟨trivial, ⟨hother _ (by simp) _, trivial, ⟨hother _ (by simp) _, hhead⟩, trivial,
    ⟨hother _ (by simp) _, hbody⟩, trivial, trivial⟩, trivial⟩

end Document

/-! ## Finding the script -/

namespace Forest

open Markup Outline

variable {f : Forest}

/-- What is true of the elements of markup in front is true of the rows in front. -/
theorem comes_of_everyAll_append {P : String → List Attribute → Prop} {front rest : List Markup}
    (h : EveryAll P front) {parent start : Nat}
    (hlaid : f.LaidAll parent start (outlinesAll (front ++ rest))) :
    ∃ size, countAll (outlinesAll (front ++ rest)) = size + countAll (outlinesAll rest) ∧
      f.LaidAll parent (start + size) (outlinesAll rest) ∧
      ∀ i, start ≤ i → i < start + size → f.Comes P i := by
  induction front generalizing start with
  | nil =>
    refine ⟨0, (Nat.zero_add _).symm, hlaid, fun i hlow hhigh => ?_⟩
    omega
  | cons m front ih =>
    obtain ⟨hm, hfront⟩ := h
    rw [List.cons_append, outlinesAll] at hlaid ⊢
    obtain ⟨a, hcount, hrest, hcomes⟩ := comes_of_every hm hlaid
    obtain ⟨b, hcount', hrest', hcomes'⟩ := ih hfront hrest
    refine ⟨a + b, by omega, ?_, fun i hlow hhigh => ?_⟩
    · rwa [← Nat.add_assoc]
    · by_cases hi : i < start + a
      · exact hcomes i hlow hi
      · exact hcomes' i (by omega) (by omega)

/-- The element is the script with the initial state. -/
def isStateScript (e : Element) : Bool :=
  e.tag == "script" && e.attributes.lookup "id" == some stateScriptId

theorem Comes.isStateScript_eq_false {i : Nat} (h : f.Comes IsOther i) :
    isStateScript (f.get i) = false := by
  obtain ⟨tag, attributes, hother, rfl, hrow⟩ := h
  rw [isStateScript, hrow, Bool.eq_false_iff]
  intro htrue
  simp only [Bool.and_eq_true, beq_iff_eq] at htrue
  exact hother htrue

end Forest

namespace Document

open Markup Outline

theorem find?_eq_some_of_unique {p : Nat → Bool} {order : List Nat} {k : Nat} (hk : k ∈ order)
    (hpass : p k = true) (hothers : ∀ i ∈ order, i ≠ k → p i = false) : order.find? p = some k := by
  cases hfind : order.find? p with
  | none => exact absurd hpass (List.find?_eq_none.1 hfind k hk)
  | some i =>
    by_contra hne
    have hfalse := hothers i (List.mem_of_find?_eq_some hfind) fun heq => hne (congrArg some heq)
    exact Bool.false_ne_true (hfalse.symm.trans (List.find?_some hfind))

theorem Frames.isStateScript_eq_false {theme : Theme} {defaults : PageDefaults}
    {document : Document} {f : Forest} (hf : Frames theme defaults document f) {i : Nat}
    (hlow : 1 ≤ i) (hhigh : i ≤ document.bodyIndex theme defaults) :
    Forest.isStateScript (f.get i) = false := by
  obtain ⟨hhead, hheadInside⟩ := hf.head
  have hrow {attributes : OrderedMap String} (hattributes : (f.get i).attributes = attributes)
      (hnone : attributes.lookup "id" = none) : Forest.isStateScript (f.get i) = false := by
    rw [Forest.isStateScript, hattributes, hnone]
    simp
  by_cases hhtml : i = 1
  · exact hrow (by rw [hhtml, hf.html.2]) rfl
  by_cases htwo : i = 2
  · exact hrow (by rw [htwo, hhead]) rfl
  by_cases hbody : i = document.bodyIndex theme defaults
  · exact hrow (by rw [hbody, hf.body.1]) rfl
  · rw [bodyIndex] at hhigh hbody
    exact (Forest.comes_of_everyAll (scriptless_headContent theme defaults document).isOther
      hheadInside i (by omega) (by omega)).isStateScript_eq_false

/-- Without a state a search for the script finds nothing. -/
theorem findFirst?_isStateScript_eq_none {document : Document}
    (h : document.initialState?.getD [] = []) (theme : Theme) (defaults : PageDefaults) :
    (document.forest theme defaults).findFirst? Forest.isStateScript = none := by
  have hlaid := Forest.laidAll_ofOutlines (document.outlines theme defaults)
  rw [Forest.findFirst?, Document.forest, Forest.preorder_ofOutlines, List.find?_eq_none]
  intro i hi
  rw [List.mem_range'_1] at hi
  have hother := Forest.comes_of_everyAll (isOther_page h theme defaults) hlaid i hi.1 hi.2
  rw [hother.isStateScript_eq_false]
  exact Bool.false_ne_true

theorem outlinesAll_stateElement (state : OrderedMap Json) (rest : List Markup) :
    outlinesAll (stateElement state :: rest) =
      .element "script" [("id", stateScriptId)] [.text (stateText state)] :: outlinesAll rest := by
  have hbody : outlinesAll [.verbatim (stateText state)] = [.text (stateText state)] := by
    rw [outlinesAll, outlinesAll, Markup.outlines, pushText, isEmpty_stateText]
    · rfl
    · exact nofun
  rw [← hbody]
  rfl

/-- The script has a row of the table, and no other row is one of such a script. -/
theorem exists_row_stateScript {document : Document} {entry : String × Json}
    {state : OrderedMap Json} (h : document.initialState? = some (entry :: state)) (theme : Theme)
    (defaults : PageDefaults) : ∃ k ∈ (document.forest theme defaults).preorder,
      ((document.forest theme defaults).get k = {
        tag := "script"
        attributes := [("id", stateScriptId)]
        parent := some (document.bodyIndex theme defaults)
        content := Forest.textContents (stateText (entry :: state)) }) ∧
      ∀ i ∈ (document.forest theme defaults).preorder, i ≠ k →
        Forest.isStateScript ((document.forest theme defaults).get i) = false := by
  have hframes := frames_forest theme defaults document
  obtain ⟨-, hlaid⟩ := hframes.body
  have hpreorder := hframes.preorder
  rw [bodyParts_of_state h] at hlaid hpreorder
  obtain ⟨size, hcount, hrest, hfront⟩ :=
    Forest.comes_of_everyAll_append (document.isOther_bodyFront theme) hlaid
  rw [outlinesAll_stateElement] at hcount hrest
  obtain ⟨⟨hrow, -⟩, hback⟩ := hrest
  have hcontent : Forest.textContents (stateText (entry :: state)) =
      [.text (stateText (entry :: state))] := by
    rw [Forest.textContents, isEmpty_stateText]
    rfl
  have hroom : count (.element "script" [("id", stateScriptId)]
      [.text (stateText (entry :: state))]) = 1 := rfl
  rw [hroom] at hback
  rw [countAll, hroom] at hcount
  let k := document.bodyIndex theme defaults + 1 + size
  refine ⟨k, ?_, hrow.trans (by rw [hcontent]; rfl), fun i hi hne => ?_⟩
  · rw [hpreorder, List.mem_range'_1, hcount]
    omega
  · rw [hpreorder, List.mem_range'_1, hcount] at hi
    by_cases hlow : i ≤ document.bodyIndex theme defaults
    · exact hframes.isStateScript_eq_false hi.1 hlow
    by_cases hmiddle : i < k
    · exact (hfront i (by omega) hmiddle).isStateScript_eq_false
    · exact (Forest.comes_of_everyAll document.isOther_bodyBack hback i (by omega)
        (by omega)).isStateScript_eq_false

/-- **A search for the script finds the state that was written into it.** -/
theorem exists_stateScript {document : Document} {entry : String × Json} {state : OrderedMap Json}
    (h : document.initialState? = some (entry :: state)) (theme : Theme) (defaults : PageDefaults) :
    ∃ k, (document.forest theme defaults).findFirst? Forest.isStateScript = some k ∧
      (document.forest theme defaults).textContent k = stateText (entry :: state) := by
  obtain ⟨k, hk, hrow, hothers⟩ := exists_row_stateScript h theme defaults
  have hroom := Forest.lt_size_of_mem_preorder (frames_forest theme defaults document).wellFormed hk
  exact ⟨k, find?_eq_some_of_unique hk (by rw [hrow]; rfl) hothers,
    Forest.textContent_of_content hroom (by rw [hrow])⟩

end Document

end PageTree
