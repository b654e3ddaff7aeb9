import PageTree.Proofs.Markup.Layout
import PageTree.Proofs.Theme.Opening

/-!
# The markup of nodes

The markup of a node can be read back whatever its texts and properties are. Its element has the
attributes of the node, and inside stand the elements of its children with parts around them that
the script of a page does not see.

## Main definitions

* `Markup.IsPart`: markup that can be read back and that the script of a page does not see
* `Markup.Wraps`: markup with such parts around other markup
* `Node.outline`: the element of a node as it should be read back

## Main results

* `Node.legible_markup`: the markup of a tree can be read back
* `Node.wraps_content`: the children of a node stand inside its element as they are
* `Node.lookup_attributes`: what the script reads is what the node says
-/

namespace PageTree

namespace Markup

open OrderedMap

section

variable (P : String → List Attribute → Prop)

mutual

/-- The tag and the attributes of each element satisfy a condition. -/
def Every : Markup → Prop
  | .text _ => True
  | .verbatim _ => True
  | .element tag attributes content => P tag attributes ∧ EveryAll content

/-- The tag and the attributes of each element of markup in sequence satisfy a condition. -/
def EveryAll : List Markup → Prop
  | [] => True
  | markup :: rest => Every markup ∧ EveryAll rest

end

theorem everyAll_iff {markup : List Markup} : EveryAll P markup ↔ ∀ m ∈ markup, Every P m := by
  induction markup with
  | nil => simp [EveryAll]
  | cons m rest ih => simp [EveryAll, ih]

mutual

/-- Whether each element satisfies a condition can be decided when the condition can. -/
def decidableEvery [∀ tag attributes, Decidable (P tag attributes)] :
    (m : Markup) → Decidable (Every P m)
  | .text _ => isTrue trivial
  | .verbatim _ => isTrue trivial
  | .element _ _ content =>
    have := decidableEveryAll content
    inferInstanceAs (Decidable (_ ∧ _))

/-- Whether each element of markup in sequence satisfies a condition can be decided when the
condition can. -/
def decidableEveryAll [∀ tag attributes, Decidable (P tag attributes)] :
    (ms : List Markup) → Decidable (EveryAll P ms)
  | [] => isTrue trivial
  | m :: ms =>
    have := decidableEvery m
    have := decidableEveryAll ms
    inferInstanceAs (Decidable (_ ∧ _))

end

instance [∀ tag attributes, Decidable (P tag attributes)] (ms : List Markup) :
    Decidable (EveryAll P ms) := decidableEveryAll P ms

end

/-- No element has an attribute that the script of a page reads. -/
def Inert (m : Markup) : Prop :=
  Every (fun _ attributes => ∀ a ∈ attributes, a.name ∉ wireNames) m

/-- Markup that can be read back and that the script of a page does not see. -/
def IsPart (m : Markup) : Prop := m.Legible ∧ m.Inert

theorem isPart_text (content : String) : (Markup.text content).IsPart := ⟨trivial, trivial⟩

theorem isPart_element {tag : String} {attributes : List Attribute} {content : List Markup}
    (htag : IsTagName tag ∧ Outline.isRaw tag = false)
    (hattributes : IsInert (attributes.map (·.name))) (hcontent : ∀ m ∈ content, m.IsPart) :
    (Markup.element tag attributes content).IsPart := by
  have hname : ∀ a ∈ attributes, IsAttributeName a.name ∧ a.name ∉ wireNames := fun a ha =>
    hattributes.1 a.name (List.mem_map_of_mem ha)
  refine ⟨⟨htag.1, ⟨fun a ha => (hname a ha).1, hattributes.2⟩, ?_⟩, fun a ha => (hname a ha).2,
    (everyAll_iff _).2 fun m hm => (hcontent m hm).2⟩
  rw [htag.2, if_neg Bool.false_ne_true]
  split_ifs with hvoid
  exact legibleAll_iff.2 fun m hm => (hcontent m hm).1

/-- Markup with parts around other markup: in front of it, or as elements that hold it. -/
inductive Wraps (inner : List Markup) : List Markup → Prop where
  | refl : Wraps inner inner
  | behind {part : Markup} {outer : List Markup} (hpart : part.IsPart) (h : Wraps inner outer) :
      Wraps inner (part :: outer)
  | inside {tag : String} {attributes : List Attribute} {outer : List Markup}
      (htag : IsTagName tag ∧ Outline.isRaw tag = false ∧ isVoid tag = false)
      (hattributes : IsInert (attributes.map (·.name))) (h : Wraps inner outer) :
      Wraps inner [.element tag attributes outer]

theorem Wraps.append {inner parts : List Markup} (h : ∀ m ∈ parts, m.IsPart) :
    Wraps inner (parts ++ inner) := by
  induction parts with
  | nil => exact .refl
  | cons m parts ih =>
    exact .behind (h m (by simp)) (ih fun m' hm => h m' (by simp [hm]))

theorem Wraps.legible {inner outer : List Markup} (h : Wraps inner outer)
    (hinner : LegibleAll inner) : LegibleAll outer := by
  induction h with
  | refl => exact hinner
  | behind hpart _ ih => exact ⟨hpart.1, ih⟩
  | inside htag hattributes _ ih =>
    refine ⟨⟨htag.1, ⟨fun a ha => (hattributes.1 _ (List.mem_map_of_mem ha)).1, hattributes.2⟩,
      ?_⟩, trivial⟩
    rw [htag.2.1, if_neg Bool.false_ne_true, htag.2.2, if_neg Bool.false_ne_true]
    exact ih

end Markup

namespace Node

open Markup OrderedMap

/-! ## Attributes -/

/-- The names of the attributes that go after those of the theme. -/
def ownNames : List String :=
  wireNames ++ ["aria-label", "aria-describedby", "role", "id"]

theorem names_ownAttributes_sublist (node : Node) :
    (names node.ownAttributes).Sublist ownNames := by
  have hevents : (names (if node.events.isEmpty then []
      else [(eventsAttribute, (Json.arr (node.events.map Binding.json)).compact)])).Sublist
      [eventsAttribute] := by
    split
    · exact List.nil_sublist _
    · exact List.Sublist.refl _
  have hregion : (names (if node.kind = Primitive.toastRegion.kind then [(toastRegionAttribute, "")]
      else [])).Sublist [toastRegionAttribute] := by
    split
    · exact List.Sublist.refl _
    · exact List.nil_sublist _
  have hcopy := fun key name => Props.names_copy_sublist key name node.props
  have hwire := names_append_sublist (names_append_sublist (names_append_sublist
    (names_append_sublist (names_append_sublist (List.Sublist.refl (names [(idAttribute, node.id)]))
      hevents) (names_option_sublist motionAttribute (fun motion : Motion => motion.json.compact)
      node.motion)) (hcopy "bind" bindAttribute)) (hcopy "show" showAttribute)) hregion
  have hall := names_append_sublist (names_append_sublist (names_append_sublist
    (names_append_sublist hwire (hcopy "ariaLabel" "aria-label"))
      (hcopy "ariaDescribedBy" "aria-describedby")) (hcopy "role" "role")) (hcopy "id" "id")
  exact hall

/-- The names of the attributes that go after those of the theme other than bindings and motion. -/
def shortNames : List String :=
  [idAttribute, bindAttribute, showAttribute, toastRegionAttribute, "aria-label",
    "aria-describedby", "role", "id"]

theorem lookup_ownAttributes (node : Node) {name : String} (h : name ∉ shortNames) :
    node.ownAttributes.lookup name =
      ((if node.events.isEmpty then []
        else [(eventsAttribute, (Json.arr (node.events.map Binding.json)).compact)]) ++
        (node.motion.map fun motion => (motionAttribute, motion.json.compact)).toList).lookup
          name := by
  have hcopy (key : String) {other : String} (hother : other ∈ shortNames) :
      (Props.copy key other node.props).lookup name = none :=
    lookup_eq_none_iff.2 fun hin => h <| by
      rwa [List.mem_singleton.1 ((Props.names_copy_sublist key other node.props).subset hin)]
  have hid : List.lookup name [(idAttribute, node.id)] = none :=
    lookup_eq_none_iff.2 fun hin => h (by simp_all [names, shortNames])
  have hregion : List.lookup name
      (if node.kind = Primitive.toastRegion.kind then [(toastRegionAttribute, "")] else []) =
      none := by
    split_ifs
    · exact lookup_eq_none_iff.2 fun hin => h (by simp_all [names, shortNames])
    · rfl
  simp only [ownAttributes, lookup_append, hid, hregion, Option.none_or, Option.or_none,
    hcopy "bind" (by decide : bindAttribute ∈ shortNames),
    hcopy "show" (by decide : showAttribute ∈ shortNames),
    hcopy "ariaLabel" (by decide : "aria-label" ∈ shortNames),
    hcopy "ariaDescribedBy" (by decide : "aria-describedby" ∈ shortNames),
    hcopy "role" (by decide : "role" ∈ shortNames),
    hcopy "id" (by decide : "id" ∈ shortNames)]

/-- A node with bindings says them, and a node without says none. -/
theorem lookup_events (node : Node) :
    node.ownAttributes.lookup eventsAttribute =
      if node.events.isEmpty then none
      else some (Json.arr (node.events.map Binding.json)).compact := by
  rw [lookup_ownAttributes node (by decide)]
  split_ifs
  · cases node.motion with
    | _ => rfl
  · rfl

/-- A node that moves says how, and one that does not says nothing. -/
theorem lookup_motion (node : Node) : node.ownAttributes.lookup motionAttribute =
    node.motion.map fun motion => motion.json.compact := by
  rw [lookup_ownAttributes node (by decide)]
  split_ifs
  · cases node.motion with
    | _ => rfl
  · cases node.motion with
    | _ => rfl

/-- What goes on top of the attributes of the theme. -/
def patch (theme : Theme) (node : Node) : OrderedMap String :=
  let style := styleText theme.scale (theme.opening node.kind node.props) node.style
  (if style.isEmpty then [] else [("style", style)]) ++ node.ownAttributes

theorem attributes_eq (theme : Theme) (node : Node) :
    node.attributes theme =
      overlay (theme.opening node.kind node.props).attributes (node.patch theme) := rfl

theorem names_patch_sublist (theme : Theme) (node : Node) :
    (names (node.patch theme)).Sublist ("style" :: ownNames) := by
  have hstyle : (names (if (styleText theme.scale (theme.opening node.kind node.props)
      node.style).isEmpty then [] else [("style", styleText theme.scale
      (theme.opening node.kind node.props) node.style)])).Sublist ["style"] := by
    split
    · exact List.nil_sublist _
    · exact List.Sublist.refl _
  exact names_append_sublist hstyle node.names_ownAttributes_sublist

theorem nodup_patch (theme : Theme) (node : Node) : (names (node.patch theme)).Nodup := by
  have hall : ("style" :: ownNames).Nodup := by decide +kernel
  exact hall.sublist (node.names_patch_sublist theme)

theorem nodup_attributes (theme : Theme) (node : Node) : (names (node.attributes theme)).Nodup :=
  nodup_overlay _ (theme.isInert_opening node.kind node.props).2

theorem isAttributeName_of_mem {theme : Theme} {node : Node} {name : String}
    (h : name ∈ names (node.attributes theme)) : IsAttributeName name := by
  rw [attributes_eq, mem_names_overlay] at h
  have hall : ∀ name ∈ "style" :: ownNames, IsAttributeName name := by decide +kernel
  exact h.elim (fun h => ((theme.isInert_opening node.kind node.props).1 name h).1) fun h =>
    hall name ((node.names_patch_sublist theme).subset h)

/-- **What the script of a page reads is what the node says**, whatever the theme. -/
theorem lookup_attributes (theme : Theme) (node : Node) {name : String} (h : name ∈ wireNames) :
    (node.attributes theme).lookup name = node.ownAttributes.lookup name := by
  have hstyle : ∀ name ∈ wireNames, name ≠ "style" := by decide +kernel
  have hopening : (theme.opening node.kind node.props).attributes.lookup name = none :=
    lookup_eq_none_iff.2 fun hin => ((theme.isInert_opening node.kind node.props).1 name hin).2 h
  rw [attributes_eq, lookup_overlay name (node.nodup_patch theme), hopening, Option.or_none, patch,
    lookup_append]
  split
  · rfl
  · rw [List.lookup_cons, beq_eq_false_iff_ne.2 (hstyle name h)]
    rfl

theorem legibleAttributes (theme : Theme) (node : Node) :
    LegibleAttributes ((node.attributes theme).map Attribute.ofEntry) := by
  have hname : ∀ entry : String × String, (Attribute.ofEntry entry).name = entry.1 := by
    intro entry
    rw [Attribute.ofEntry]
    split <;> rfl
  have hnames : ((node.attributes theme).map Attribute.ofEntry).map (·.name) =
      names (node.attributes theme) := by
    rw [List.map_map, names]
    exact List.map_congr_left fun entry _ => hname entry
  refine ⟨fun a ha => ?_, hnames ▸ node.nodup_attributes theme⟩
  obtain ⟨entry, hentry, rfl⟩ := List.mem_map.1 ha
  exact hname entry ▸ isAttributeName_of_mem (List.mem_map_of_mem hentry)

/-- Attributes written from a map are read as the map. -/
theorem toMap_ofEntry (map : OrderedMap String) :
    Attribute.toMap (map.map Attribute.ofEntry) = map := by
  have hentry : ∀ entry : String × String,
      ((Attribute.ofEntry entry).name, (Attribute.ofEntry entry).value.getD "") = entry := by
    intro entry
    rw [Attribute.ofEntry]
    split_ifs with h
    · exact Prod.ext rfl (String.isEmpty_iff.1 h).symm
    · rfl
  rw [Attribute.toMap, List.map_map]
  exact (List.map_congr_left fun entry _ => hentry entry).trans (List.map_id map)

/-! ## Parts -/

/-- The tags of parts and of the elements of a page that are not from nodes. -/
def partTags : List String :=
  ["input", "span", "option", "tr", "td", "thead", "th", "tbody", "button", "div", "h2", "summary",
    "html", "head", "meta", "title", "link", "body"]

/-- The names of the attributes of such elements. -/
def partAttributes : List String :=
  ["type", "class", "checked", "name", "content", "value", "selected", "role", "data-panel", "lang",
    "charset", "rel", "href", "src", "id"]

theorem isTagName_of_mem {tag : String} (h : tag ∈ partTags) :
    IsTagName tag ∧ Outline.isRaw tag = false := by
  have hall : ∀ tag ∈ partTags, IsTagName tag ∧ Outline.isRaw tag = false := by decide +kernel
  exact hall tag h

theorem isInert_of_sublist {names : List String} (h : names.Sublist partAttributes) :
    IsInert names := by
  have hall : IsInert partAttributes := by decide +kernel
  exact hall.sublist h

theorem isPart_part {tag content : String} {attributes : List Attribute}
    (htag : IsTagName tag ∧ Outline.isRaw tag = false)
    (hattributes : IsInert (attributes.map (·.name))) : (part tag attributes content).IsPart :=
  isPart_element htag hattributes (by simp [isPart_text])

theorem names_bareIf_sublist (condition : Bool) (name : String) :
    ((Attribute.bareIf condition name).map (·.name)).Sublist [name] := by
  rw [Attribute.bareIf]
  split
  · exact List.Sublist.refl _
  · exact List.nil_sublist _

theorem isPart_checkboxParts (name : String) (node : Node) :
    ∀ m ∈ checkboxParts name node, m.IsPart := by
  have hlabel : ∀ text, (part "span" [.quoted "class" (name ++ "-checkbox-label")] text).IsPart :=
    fun text => isPart_part (isTagName_of_mem (by decide))
      (show IsInert ["class"] from isInert_of_sublist (by decide))
  intro m hm
  rw [checkboxParts] at hm
  rcases List.mem_cons.1 hm with rfl | hm
  · refine isPart_element (isTagName_of_mem (by decide)) ?_ (by simp)
    have hall : IsInert ["type", "class", "checked", "name"] := isInert_of_sublist (by decide)
    refine hall.sublist ?_
    rw [List.map_append, List.map_append]
    have hchecked := (List.Sublist.refl ["type", "class"]).append
      (names_bareIf_sublist (Props.holds "checked" node.props) "checked")
    refine hchecked.append (?_ : List.Sublist _ ["name"])
    cases Props.shownIf "name" node.props with
    | none => exact List.nil_sublist _
    | some value => exact List.Sublist.refl _
  · cases htext : node.text with
    | none => simp [htext] at hm
    | some text =>
      rw [htext] at hm
      dsimp only at hm
      split at hm
      · simp at hm
      · exact List.mem_singleton.1 hm ▸ hlabel text

theorem isPart_optionPart (item : Json) : (optionPart item).IsPart := by
  have hall : IsInert ["value", "selected"] := isInert_of_sublist (by decide)
  exact isPart_part (isTagName_of_mem (by decide))
    (hall.sublist ((names_bareIf_sublist _ "selected").cons_cons "value"))

theorem isPart_tableParts (node : Node) : ∀ m ∈ tableParts node, m.IsPart := by
  have hplain : ∀ {tag} {content : List Markup}, IsTagName tag ∧ Outline.isRaw tag = false →
      (∀ m ∈ content, m.IsPart) → (Markup.element tag [] content).IsPart :=
    fun htag hcontent => isPart_element htag (by decide) hcontent
  have hcells : ∀ {tag} (items : List Json), IsTagName tag ∧ Outline.isRaw tag = false →
      ∀ m ∈ items.map fun item => part tag [] item.shown, m.IsPart := by
    intro tag items htag m hm
    obtain ⟨item, _, rfl⟩ := List.mem_map.1 hm
    exact isPart_part htag (by decide)
  have hrow : ∀ row, (tableRow row).IsPart := fun row =>
    hplain (isTagName_of_mem (by decide)) (hcells _ (isTagName_of_mem (by decide)))
  intro m hm
  rw [tableParts] at hm
  cases hheaders : node.listProp? "headers" with
  | none => simp [hheaders] at hm
  | some headers =>
    rw [hheaders] at hm
    dsimp only at hm
    rcases List.mem_cons.1 hm with rfl | hm
    · refine hplain (isTagName_of_mem (by decide)) fun m hm => ?_
      rw [List.mem_singleton.1 hm]
      exact hplain (isTagName_of_mem (by decide)) (hcells _ (isTagName_of_mem (by decide)))
    · cases hrows : node.listProp? "rows" with
      | none => simp [hrows] at hm
      | some rows =>
        rw [hrows] at hm
        rw [List.mem_singleton.1 hm]
        refine hplain (isTagName_of_mem (by decide)) fun m hm => ?_
        obtain ⟨row, _, rfl⟩ := List.mem_map.1 hm
        exact hrow row

theorem isPart_tabParts (name : String) (node : Node) : ∀ m ∈ tabParts name node, m.IsPart := by
  have htab : ∀ tab, (tabButton name tab).IsPart := fun tab =>
    isPart_part (isTagName_of_mem (by decide))
      (show IsInert ["class", "role", "data-panel"] from isInert_of_sublist (by decide))
  intro m hm
  rw [tabParts] at hm
  cases htabs : node.listProp? "tabs" with
  | none => simp [htabs] at hm
  | some tabs =>
    rw [htabs] at hm
    rw [List.mem_singleton.1 hm]
    refine isPart_element (isTagName_of_mem (by decide))
      (show IsInert ["class", "role"] from isInert_of_sublist (by decide)) fun m hm => ?_
    obtain ⟨tab, _, rfl⟩ := List.mem_map.1 hm
    exact htab tab

theorem wraps_dialogParts (name : String) (node : Node) (children : List Markup) :
    Wraps children (dialogParts name node children) := by
  have hclass : IsInert ["class"] := isInert_of_sublist (by decide)
  have hdiv := isTagName_of_mem (by decide : "div" ∈ partTags)
  rw [dialogParts]
  cases Props.shownIf "title" node.props with
  | none => exact .refl
  | some title =>
    refine .behind (isPart_element hdiv hclass fun m hm => ?_)
      (.inside ⟨hdiv.1, hdiv.2, by decide⟩ hclass .refl)
    rw [List.mem_singleton.1 hm]
    exact isPart_part (isTagName_of_mem (by decide)) hclass

/-- The node is not rich text with a text of its own markup. -/
def IsMarkupFree (node : Node) : Prop :=
  node.kind.primitive? = some .richText → node.text.getD "" = ""

instance (node : Node) : Decidable node.IsMarkupFree := inferInstanceAs (Decidable (_ → _))

/-- **The children of a node stand inside its element as they are**, with parts around them. -/
theorem wraps_content (name : String) {node : Node} (hplain : node.IsMarkupFree)
    (children : List Markup) : Wraps children (node.content name children) := by
  have htext : Wraps children ((node.text.map .text).toList ++ children) := by
    refine .append fun m hm => ?_
    cases htext : node.text with
    | none => simp [htext] at hm
    | some text =>
      rw [htext] at hm
      exact List.mem_singleton.1 hm ▸ isPart_text text
  rw [content]
  cases hkind : node.kind.primitive? with
  | none => exact htext
  | some primitive =>
    cases primitive with
    | checkbox => exact .append (isPart_checkboxParts name node)
    | select =>
      refine .append fun m hm => ?_
      obtain ⟨item, _, rfl⟩ := List.mem_map.1 hm
      exact isPart_optionPart item
    | table => exact .append (isPart_tableParts node)
    | tabs => exact .append (isPart_tabParts name node)
    | disclosure =>
      refine .append fun m hm => ?_
      cases hsummary : Props.shownIf "summary" node.props with
      | none => simp [hsummary] at hm
      | some summary =>
        rw [hsummary] at hm
        exact List.mem_singleton.1 hm ▸ isPart_part (isTagName_of_mem (by decide))
          (by decide)
    | dialog => exact wraps_dialogParts name node children
    | richText =>
      refine .append fun m hm => ?_
      have hempty := hplain hkind
      cases htext : node.text with
      | none => simp [htext] at hm
      | some text =>
        rw [htext] at hm hempty
        obtain rfl : text = "" := hempty
        refine List.mem_singleton.1 hm ▸ ⟨?_, trivial⟩
        intro c hc
        simp at hc
    | _ => exact htext

/-! ## Trees -/

theorem legible_element {theme : Theme} {node : Node} (hplain : node.IsMarkupFree)
    {children : List Markup} (h : LegibleAll children) :
    (node.element theme children).Legible := by
  obtain ⟨htag, hraw⟩ := theme.isTagName_opening node.kind node.props
  refine ⟨htag, node.legibleAttributes theme, ?_⟩
  rw [hraw, if_neg Bool.false_ne_true]
  split_ifs
  exact (wraps_content theme.partName hplain children).legible h

mutual

/-- **The markup of a tree can be read back.** -/
theorem legible_markup (theme : Theme) : ∀ (node : Node), (∀ n ∈ node.preorder, n.IsMarkupFree) →
    (node.markup theme).Legible
  | ⟨_, _, _, _, _, _, children, _⟩, h => by
    refine legible_element (h _ (List.mem_cons_self ..)) ?_
    exact legibleAll_markupAll theme children fun n hn => h n (List.mem_cons_of_mem _ hn)

theorem legibleAll_markupAll (theme : Theme) : ∀ (nodes : List Node),
    (∀ n ∈ preorderAll nodes, n.IsMarkupFree) → LegibleAll (markupAll theme nodes)
  | [], _ => trivial
  | node :: nodes, h => by
    refine ⟨legible_markup theme node fun n hn => h n ?_,
      legibleAll_markupAll theme nodes fun n hn => h n ?_⟩
    · exact List.mem_append_left _ hn
    · exact List.mem_append_right _ hn

end

/-- The element of a node as it should be read back. -/
def outline (theme : Theme) (node : Node) : Outline :=
  let tag := (theme.opening node.kind node.props).tag
  .element tag (node.attributes theme)
    (if isVoid tag then []
      else outlinesAll (node.content theme.partName (markupAll theme node.children)))

/-- The outline of the markup of a node is one element. -/
theorem outlines_markup (theme : Theme) (node : Node) (after : List Outline) :
    (node.markup theme).outlines after = node.outline theme :: after := by
  obtain ⟨id, kind, props, style, events, motion, children, text⟩ := node
  rw [markup, element, Markup.outlines, toMap_ofEntry, outline]
  split_ifs
  · rfl
  · rfl

end Node

end PageTree
