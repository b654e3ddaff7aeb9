import PageTree.Proofs.Render.PageMarkup

/-!
# The elements of a page

A page has elements of nodes, parts inside of them, and the elements around the tree: its frame, the
head and the scripts. What is true of the tags and attributes of each of these kinds is true of
every element of the page.

## Main definitions

* `Markup.HasLook`: which classes attributes may name
* `Node.partLooks`: the classes of parts
* `Node.Governs`: what is true of nodes and of parts
* `Document.frameTags`: the tags around the tree

## Main results

* `Node.Governs.markup`: the elements of a tree
* `Document.everyAll_page`: the elements of a page
-/

namespace PageTree

variable {P Q : String → List Attribute → Prop}

namespace Markup

mutual

theorem Every.mono (h : ∀ tag attributes, P tag attributes → Q tag attributes) :
    ∀ {m : Markup}, m.Every P → m.Every Q
  | .text _, _ => trivial
  | .verbatim _, _ => trivial
  | .element .., ⟨hself, hcontent⟩ => ⟨h _ _ hself, EveryAll.mono h hcontent⟩

theorem EveryAll.mono (h : ∀ tag attributes, P tag attributes → Q tag attributes) :
    ∀ {ms : List Markup}, EveryAll P ms → EveryAll Q ms
  | [], _ => trivial
  | _ :: _, ⟨hm, hms⟩ => ⟨Every.mono h hm, EveryAll.mono h hms⟩

end

theorem everyAll_append {ms ns : List Markup} :
    EveryAll P (ms ++ ns) ↔ EveryAll P ms ∧ EveryAll P ns := by
  simp only [everyAll_iff, List.forall_mem_append]

theorem everyAll_map {α : Type} {make : α → Markup} {items : List α}
    (h : ∀ item ∈ items, (make item).Every P) : EveryAll P (items.map make) := by
  rw [everyAll_iff]
  intro m hm
  obtain ⟨item, hitem, rfl⟩ := List.mem_map.1 hm
  exact h item hitem

theorem everyAll_lines {pieces : List Markup} (h : EveryAll P pieces) :
    EveryAll P (lines pieces) := by
  rw [everyAll_iff] at h ⊢
  intro m hm
  obtain ⟨piece, hpiece, hm⟩ := List.mem_flatMap.1 hm
  rcases List.mem_cons.1 hm with rfl | hm
  · exact trivial
  · exact List.mem_singleton.1 hm ▸ h piece hpiece

/-- The attributes name no class but one of these. -/
def HasLook (looks : List String) (attributes : List Attribute) : Prop :=
  ∀ a ∈ attributes, a.name = "class" → a.value.getD "" ∈ looks

theorem hasLook_append {looks : List String} {as bs : List Attribute} :
    HasLook looks (as ++ bs) ↔ HasLook looks as ∧ HasLook looks bs :=
  List.forall_mem_append

theorem hasLook_of_names {looks names : List String} {attributes : List Attribute}
    (hnames : (attributes.map (·.name)).Sublist names) (h : "class" ∉ names) :
    HasLook looks attributes :=
  fun _ ha hclass => absurd (hclass ▸ hnames.subset (List.mem_map_of_mem ha)) h

end Markup

open Markup

/-! ## Parts of nodes -/

namespace Node

/-- The classes of parts inside of nodes. -/
def partLooks (name : String) : List String :=
  [name ++ "-checkbox-input", name ++ "-checkbox-label", name ++ "-pivot-tabs",
    name ++ "-pivot-tab" ++ "", name ++ "-pivot-tab" ++ (" " ++ name ++ "-pivot-tab--active"),
    name ++ "-dialog-header", name ++ "-dialog-title", name ++ "-dialog-body"]

section

variable {name : String}
  (hpart : ∀ tag ∈ partTags, ∀ attributes, HasLook (partLooks name) attributes → P tag attributes)

include hpart

/-- A part with one class. -/
theorem every_classed {tag look : String} (htag : tag ∈ partTags) (hlook : look ∈ partLooks name)
    {content : List Markup} (hcontent : EveryAll P content) :
    (Markup.element tag [.quoted "class" look] content).Every P :=
  ⟨hpart tag htag _ (by simpa [HasLook, Attribute.quoted] using hlook), hcontent⟩

/-- A part without classes. -/
theorem every_plain {tag : String} (htag : tag ∈ partTags) {attributes : List Attribute}
    (hnames : "class" ∉ attributes.map (·.name)) {content : List Markup}
    (hcontent : EveryAll P content) : (Markup.element tag attributes content).Every P :=
  ⟨hpart tag htag _ (hasLook_of_names (List.Sublist.refl _) hnames), hcontent⟩

theorem everyAll_checkboxParts (node : Node) : EveryAll P (checkboxParts name node) := by
  rw [checkboxParts]
  refine ⟨⟨hpart _ (by decide) _ ?_, trivial⟩, ?_⟩
  · refine hasLook_append.2 ⟨hasLook_append.2 ⟨?_, ?_⟩, ?_⟩
    · simp [HasLook, partLooks, Attribute.quoted]
    · exact hasLook_of_names (names_bareIf_sublist _ _) (by decide)
    · cases Props.shownIf "name" node.props with
      | _ => simp [HasLook, Attribute.quoted]
  · cases node.text with
    | none => trivial
    | some text =>
      dsimp only
      split_ifs
      · trivial
      · exact ⟨every_classed hpart (by decide) (by simp [partLooks]) ⟨trivial, trivial⟩, trivial⟩

theorem every_optionPart (item : Json) : (optionPart item).Every P := by
  refine every_plain hpart (by decide) ?_ ⟨trivial, trivial⟩
  have hnames := (names_bareIf_sublist (Json.truthy (item.member? "selected")) "selected").cons_cons
    "value"
  exact fun hclass => absurd (hnames.subset hclass) (by decide)

theorem everyAll_tableParts (node : Node) : EveryAll P (tableParts node) := by
  have hcells {tag : String} (htag : tag ∈ partTags) (items : List Json) :
      EveryAll P (items.map fun item => part tag [] item.shown) :=
    everyAll_map fun _ _ => every_plain hpart htag List.not_mem_nil ⟨trivial, trivial⟩
  have hrow (row : Json) : (tableRow row).Every P :=
    every_plain hpart (by decide) List.not_mem_nil (hcells (by decide) _)
  rw [tableParts]
  cases node.listProp? "headers" with
  | none => trivial
  | some headers =>
    refine ⟨every_plain hpart (by decide) List.not_mem_nil ⟨?_, trivial⟩, ?_⟩
    · exact every_plain hpart (by decide) List.not_mem_nil (hcells (by decide) headers)
    · cases node.listProp? "rows" with
      | none => trivial
      | some rows =>
        exact ⟨every_plain hpart (by decide) List.not_mem_nil (everyAll_map fun row _ => hrow row),
          trivial⟩

theorem every_tabButton (tab : Json) : (tabButton name tab).Every P := by
  refine ⟨hpart _ (by decide) _ ?_, trivial, trivial⟩
  have hlook : name ++ "-pivot-tab" ++ (if Json.truthy (tab.member? "active") then
      " " ++ name ++ "-pivot-tab--active" else "") ∈ partLooks name := by
    split_ifs
    · simp [partLooks]
    · simp [partLooks]
  simpa [HasLook, Attribute.quoted] using hlook

theorem everyAll_tabParts (node : Node) : EveryAll P (tabParts name node) := by
  rw [tabParts]
  cases node.listProp? "tabs" with
  | none => trivial
  | some tabs =>
    refine ⟨⟨hpart _ (by decide) _ ?_, everyAll_map fun tab _ => every_tabButton hpart tab⟩,
      trivial⟩
    simp [HasLook, partLooks, Attribute.quoted]

theorem everyAll_dialogParts (node : Node) {children : List Markup} (h : EveryAll P children) :
    EveryAll P (dialogParts name node children) := by
  rw [dialogParts]
  cases Props.shownIf "title" node.props with
  | none => exact h
  | some title =>
    have htitle : (part "h2" [.quoted "class" (name ++ "-dialog-title")] title).Every P :=
      every_classed hpart (by decide) (by simp [partLooks]) ⟨trivial, trivial⟩
    exact ⟨every_classed hpart (by decide) (by simp [partLooks]) ⟨htitle, trivial⟩,
      every_classed hpart (by decide) (by simp [partLooks]) h, trivial⟩

/-- What is true of the elements of children and of parts is true inside of a node. -/
theorem everyAll_content (node : Node) {children : List Markup} (h : EveryAll P children) :
    EveryAll P (node.content name children) := by
  have htext (wrap : String → Markup) (hwrap : ∀ text, (wrap text).Every P) (text : Option String) :
      EveryAll P ((text.map wrap).toList ++ children) := by
    refine everyAll_append.2 ⟨?_, h⟩
    cases text with
    | none => trivial
    | some text => exact ⟨hwrap text, trivial⟩
  rw [content]
  cases node.kind.primitive? with
  | none => exact htext .text (fun _ => trivial) _
  | some primitive =>
    cases primitive with
    | checkbox => exact everyAll_append.2 ⟨everyAll_checkboxParts hpart node, h⟩
    | select => exact everyAll_append.2 ⟨everyAll_map fun item _ => every_optionPart hpart item, h⟩
    | table => exact everyAll_append.2 ⟨everyAll_tableParts hpart node, h⟩
    | tabs => exact everyAll_append.2 ⟨everyAll_tabParts hpart node, h⟩
    | disclosure =>
      refine htext (part "summary" []) (fun _ => ?_) _
      exact every_plain hpart (by decide) List.not_mem_nil ⟨trivial, trivial⟩
    | dialog => exact everyAll_dialogParts hpart node h
    | richText => exact htext .verbatim (fun _ => trivial) _
    | _ => exact htext .text (fun _ => trivial) _

end

/-- What is true of the elements of nodes in a theme and of their parts. -/
structure Governs (P : String → List Attribute → Prop) (theme : Theme) : Prop where
  node : ∀ node : Node, P (theme.opening node.kind node.props).tag
    ((node.attributes theme).map Attribute.ofEntry)
  part : ∀ tag ∈ partTags, ∀ attributes, HasLook (partLooks theme.partName) attributes →
    P tag attributes

mutual

/-- **What is true of nodes and of parts is true of the elements of a tree.** -/
theorem Governs.markup {theme : Theme} (h : Governs P theme) : ∀ node : Node,
    (node.markup theme).Every P
  | ⟨_, _, _, _, _, _, children, _⟩ => by
    rw [Node.markup, element]
    refine ⟨h.node _, ?_⟩
    split_ifs
    · trivial
    · exact everyAll_content h.part _ (h.markupAll children)

theorem Governs.markupAll {theme : Theme} (h : Governs P theme) : ∀ nodes : List Node,
    EveryAll P (Node.markupAll theme nodes)
  | [] => trivial
  | node :: nodes => ⟨h.markup node, h.markupAll nodes⟩

end

end Node

/-! ## Around the tree -/

namespace Document

/-- The tags of elements in the head. -/
def headTags : List String := ["meta", "title", "link", "style"]

/-- The tags of elements around the tree. -/
def frameTags : List String := headTags ++ ["html", "head", "body", "script"]

/-- What is true of elements without classes is true in the head. -/
theorem everyAll_headContent
    (hhead : ∀ tag ∈ headTags, ∀ attributes, "class" ∉ attributes.map (·.name) → P tag attributes)
    (theme : Theme) (defaults : PageDefaults) (document : Document) :
    EveryAll P (document.headContent theme defaults) := by
  refine everyAll_append.2 ⟨everyAll_lines ?_, trivial, trivial⟩
  rw [headParts]
  refine everyAll_append.2 ⟨everyAll_append.2 ⟨everyAll_append.2 ⟨⟨?_, ?_, ?_, trivial⟩, ?_⟩,
    ?_⟩, ?_⟩
  · exact ⟨hhead _ (by decide) _ (by decide), trivial⟩
  · exact ⟨hhead _ (by decide) _ (by decide), trivial⟩
  · exact ⟨hhead _ (by decide) _ (by decide), trivial, trivial⟩
  · exact everyAll_map fun _ _ => ⟨hhead _ (by decide) _ (by simp [Attribute.quoted]), trivial⟩
  · split_ifs
    · trivial
    · exact ⟨⟨hhead _ (by decide) _ (by decide), trivial, trivial⟩, trivial⟩
  · split_ifs
    · exact ⟨⟨hhead _ (by decide) _ (by decide), trivial, trivial⟩, trivial⟩
    · trivial

section

variable
  (hframe : ∀ tag ∈ frameTags, ∀ attributes, "class" ∉ attributes.map (·.name) → P tag attributes)

include hframe

theorem everyAll_scriptParts (theme : Theme) (document : Document) :
    EveryAll P (document.scriptParts theme) := by
  have hscript {attributes : List Attribute} (hnames : "class" ∉ attributes.map (·.name))
      {content : List Markup} (hcontent : EveryAll P content) :
      (Markup.element "script" attributes content).Every P :=
    ⟨hframe _ (by decide) _ hnames, hcontent⟩
  rw [scriptParts]
  refine everyAll_append.2 ⟨everyAll_append.2 ⟨everyAll_append.2 ⟨?_, ?_⟩, ?_⟩, ?_⟩
  · exact everyAll_map fun _ _ => hscript (by simp [Attribute.quoted]) trivial
  · rw [stateScript]
    split
    · trivial
    · trivial
    · exact ⟨hscript (by decide) ⟨trivial, trivial⟩, trivial⟩
  · split_ifs
    · exact ⟨hscript (by decide) ⟨trivial, trivial⟩, trivial⟩
    · trivial
  · exact everyAll_map fun _ _ => hscript (by simp [Attribute.quoted]) ⟨trivial, trivial⟩

/-- **What is true of nodes, of parts and around the tree is true of the elements of a page.** -/
theorem everyAll_page {theme : Theme} {document : Document}
    (hnode : (document.app.markup theme).Every P) (defaults : PageDefaults) :
    EveryAll P (document.page theme defaults).tail := by
  have hbody : EveryAll P (document.bodyParts theme) := by
    rw [bodyParts]
    refine everyAll_append.2 ⟨everyAll_append.2 ⟨⟨trivial, hnode, trivial⟩, ?_⟩, trivial, trivial⟩
    split_ifs
    · exact ⟨trivial, trivial⟩
    · exact everyAll_lines (everyAll_scriptParts hframe theme document)
  have hhead := everyAll_headContent
    (fun tag htag => hframe tag (List.mem_append_left _ htag)) theme defaults document
  have hhtml : EveryAll P [.lineBreak, .element "head" [] (document.headContent theme defaults),
      .lineBreak, .element "body" [] (document.bodyParts theme), .lineBreak] :=
    ⟨trivial, ⟨hframe _ (by decide) _ (by decide), hhead⟩, trivial,
      ⟨hframe _ (by decide) _ (by decide), hbody⟩, trivial, trivial⟩
  exact ⟨trivial, ⟨hframe _ (by decide) _ (by simp [Attribute.quoted]), hhtml⟩, trivial⟩

end

end Document

end PageTree
