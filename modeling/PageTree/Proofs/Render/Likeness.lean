import PageTree.Proofs.Markup.Planting
import PageTree.Proofs.Render.ReadBack
import PageTree.Proofs.Theme.Display

/-!
# Two themes show one document

The two themes give a node the same tag and attributes that agree on what a page looks at; the
parts inside differ in classes only. The themed page has a few elements more, in the head and behind
the tree, on which there is nothing that a page looks at. So the tables of the two pages match.

## Main definitions

* `Markup.Alike`: markup that agrees on what a page looks at

## Main results

* `Node.alike_attributes`, `Node.alike_markup`: a node in the two themes
* `Document.exists_paired_forest`: the tables of the two pages of a document
-/

namespace PageTree

/-! ## Attributes of a node -/

/-- The themes agree on the attributes that form controls have. -/
theorem Themed.lookup_opening (kind : NodeKind) (props : Props) {name : String}
    (hname : name ∈ controlNames) :
    (opening kind props).attributes.lookup name =
      (Minimal.opening kind props).attributes.lookup name := by
  have hnone : ∀ other ∈ ["class", "style", "role", "aria-modal", "aria-live", "aria-hidden",
      "data-icon", "data-variant"], (name == other) = false := by
    intro other hother
    rw [beq_eq_false_iff_ne]
    rintro rfl
    revert hother name
    decide
  have hclass := hnone "class" (by simp)
  have hstyle := hnone "style" (by simp)
  have hrole := hnone "role" (by simp)
  have hmodal := hnone "aria-modal" (by simp)
  have hlive := hnone "aria-live" (by simp)
  have hhidden := hnone "aria-hidden" (by simp)
  have hicon := beq_eq_false_iff_ne.1 (hnone "data-icon" (by simp))
  have hvariant := beq_eq_false_iff_ne.1 (hnone "data-variant" (by simp))
  rw [opening, Minimal.opening]
  cases kind.primitive? with
  | none => rfl
  | some primitive =>
    cases primitive <;>
      simp [classed, classedWith, List.lookup_cons, OrderedMap.lookup_append, Props.lookup_copy, *]

/-- The texts of the class attributes of the themed theme, but for regions for toasts. -/
def Themed.classTexts : List String :=
  ["", "fluent-app", "fluent-page", "fluent-section", "fluent-box", "fluent-stack", "fluent-grid",
    "fluent-cluster", "fluent-divider", "fluent-richtext", "fluent-button fluent-button--primary",
    "fluent-button fluent-button--subtle", "fluent-button fluent-button--icon", "fluent-button",
    "fluent-form", "fluent-textfield-input", "fluent-dropdown-select", "fluent-checkbox",
    "fluent-card", "fluent-list", "fluent-table", "fluent-badge", "fluent-animate",
    "fluent-disclosure", "fluent-pivot", "fluent-dialog"]

theorem Themed.buttonClass_mem (props : Props) : buttonClass props ∈ classTexts := by
  rw [buttonClass]
  split <;> decide

theorem Themed.classText_opening {kind : NodeKind} (hkind : kind.primitive? ≠ some .toastRegion)
    (props : Props) : (opening kind props).attributes.classText ∈ classTexts := by
  rw [opening, OrderedMap.classText]
  cases hprimitive : kind.primitive? with
  | none => exact List.mem_cons_self ..
  | some primitive =>
    cases primitive with
    | toastRegion => exact absurd hprimitive hkind
    | button => exact buttonClass_mem props
    | _ => simp [classed, classedWith, classTexts, List.lookup_cons, OrderedMap.lookup_append,
        Props.lookup_copy]

theorem Minimal.lookup_class_opening (kind : NodeKind) (props : Props) :
    (opening kind props).attributes.lookup "class" = none := by
  have hinput : (Props.inputAttributes props).lookup "class" = none :=
    OrderedMap.lookup_eq_none_iff.2 fun hin =>
      absurd ((Props.names_inputAttributes_sublist props).subset hin) (by decide)
  rw [opening]
  cases kind.primitive? with
  | none => rfl
  | some primitive =>
    cases primitive <;>
      simp [List.lookup_cons, OrderedMap.lookup_append, Props.lookup_copy, Props.lookup_flag_of_ne,
        hinput]

namespace Node

open OrderedMap

variable (theme : Theme) (node : Node)

theorem lookup_ownAttributes_eq_none {name : String} (hname : name ∉ ownNames) :
    node.ownAttributes.lookup name = none :=
  lookup_eq_none_iff.2 fun hin => hname (node.names_ownAttributes_sublist.subset hin)

theorem lookup_attributes_of_ne {name : String} (hname : name ≠ "style") :
    (node.attributes theme).lookup name = (node.ownAttributes.lookup name).or
      ((theme.opening node.kind node.props).attributes.lookup name) := by
  rw [attributes_eq, lookup_overlay name (node.nodup_patch theme), patch, lookup_append]
  split
  · rfl
  · rw [List.lookup_cons, beq_eq_false_iff_ne.2 hname]
    rfl

theorem classText_attributes :
    (node.attributes theme).classText =
      (theme.opening node.kind node.props).attributes.classText := by
  rw [OrderedMap.classText, node.lookup_attributes_of_ne theme (by decide),
    node.lookup_ownAttributes_eq_none (by decide), Option.none_or]
  rfl

/-- A node without style text has a theme's opening without one. -/
theorem styleText_opening_eq_empty {scale : Scale} {opening : Opening} {style : Style}
    (h : styleText scale opening style = "") : opening.styleText = "" := by
  by_contra hopening
  have hparts (rest : List String) : ";".intercalate (opening.styleText :: rest) ≠ "" := by
    by_cases hrest : rest = []
    · rwa [hrest, String.intercalate_singleton]
    · rw [String.intercalate_cons_of_ne_nil hrest]
      intro hnone
      simp at hnone
  rw [styleText, List.filter_cons_of_pos (by simpa [Opening.styleText] using hopening)] at h
  exact hparts _ h

theorem styleText_attributes :
    (node.attributes theme).styleText =
      styleText theme.scale (theme.opening node.kind node.props) node.style := by
  have hown : node.ownAttributes.lookup "style" = none :=
    node.lookup_ownAttributes_eq_none (by decide)
  rw [OrderedMap.styleText, attributes_eq, lookup_overlay _ (node.nodup_patch theme), patch,
    lookup_append, hown, Option.or_none]
  split_ifs with hempty
  · have hnone := String.isEmpty_iff.1 hempty
    rw [hnone]
    exact styleText_opening_eq_empty hnone
  · rfl

theorem lookup_toastRegion (hkind : node.kind.primitive? = some .toastRegion) :
    node.ownAttributes.lookup toastRegionAttribute = some "" := by
  have hregion : node.kind = Primitive.toastRegion.kind :=
    congrArg NodeKind.mk (Vocabulary.name_of_ofName? hkind).symm
  have hevents : List.lookup toastRegionAttribute (if node.events.isEmpty then []
      else [(eventsAttribute, (Json.arr (node.events.map Binding.json)).compact)]) = none := by
    split_ifs <;> rfl
  have hmotion : List.lookup toastRegionAttribute
      (node.motion.map fun motion => (motionAttribute, motion.json.compact)).toList = none := by
    cases node.motion with
    | _ => rfl
  have hid : List.lookup toastRegionAttribute [(idAttribute, node.id)] = none := rfl
  simp only [ownAttributes, lookup_append, hid, hevents, hmotion, Props.lookup_copy,
    if_neg (by decide : toastRegionAttribute ≠ bindAttribute),
    if_neg (by decide : toastRegionAttribute ≠ showAttribute), if_pos hregion, Option.none_or]
  rfl

/-- **The attributes of a node in the two themes** agree on what a page looks at. -/
theorem alike_attributes (base : String) :
    (node.attributes .minimal).Alike (node.attributes (.themed base)) := by
  refine ⟨fun name hname => ?_, ?_, fun hregion name hname => ?_⟩
  · have hstyle : ∀ name ∈ readNames, name ≠ "style" := by decide
    rcases List.mem_append.1 hname with hwire | hcontrol
    · rw [lookup_attributes _ _ hwire, lookup_attributes _ _ hwire]
    · rw [lookup_attributes_of_ne _ _ (hstyle name hname),
        lookup_attributes_of_ne _ _ (hstyle name hname)]
      exact congrArg _ (Themed.lookup_opening node.kind node.props hcontrol)
  · rw [styleText_attributes, styleText_attributes]
    exact hides_styleText node.kind node.props node.style
  · have hkind : node.kind.primitive? ≠ some .toastRegion := by
      intro hkind
      rw [lookup_attributes _ _ (by decide), node.lookup_toastRegion hkind] at hregion
      cases hregion
    have hnone : ∀ text ∈ Themed.classTexts, ∀ name ∈ watchedClasses, name ∉ words text := by
      decide +kernel
    have hempty : (Theme.minimal.opening node.kind node.props).attributes.classText = "" := by
      rw [OrderedMap.classText]
      exact congrArg (Option.getD · "") (Minimal.lookup_class_opening node.kind node.props)
    rw [classText_attributes, classText_attributes, hempty]
    exact iff_of_false (hnone _ (Themed.classText_opening hkind node.props) name hname)
      List.not_mem_nil

end Node

/-- The element of a node has the classes that the theme gives to the node. -/
theorem Forest.Bears.classes_eq {f : Forest} {theme : Theme} {i : Nat} {node : Node}
    (h : f.Bears theme i node) :
    f.classes i = words (theme.opening node.kind node.props).attributes.classText := by
  rw [classes, attribute?, h.attributes, ← Node.classText_attributes]
  rfl

/-! ## Markup that agrees -/

namespace Markup

mutual

/-- The markup agrees on what a page looks at. -/
def Alike : Markup → Markup → Prop
  | .text content, .text content' => content' = content
  | .verbatim content, .verbatim content' => content' = content
  | .element tag a inside, .element tag' b inside' =>
    tag' = tag ∧ (Attribute.toMap a).Alike (Attribute.toMap b) ∧ AlikeAll inside inside'
  | _, _ => False

/-- The pieces of markup agree, each with its counterpart. -/
def AlikeAll : List Markup → List Markup → Prop
  | [], [] => True
  | m :: ms, m' :: ms' => Alike m m' ∧ AlikeAll ms ms'
  | _, _ => False

end

mutual

theorem Alike.refl : ∀ m : Markup, m.Alike m
  | .text _ => rfl
  | .verbatim _ => rfl
  | .element _ _ inside => ⟨rfl, .refl _, alikeAll_refl inside⟩

theorem alikeAll_refl : ∀ ms : List Markup, AlikeAll ms ms
  | [] => trivial
  | m :: ms => ⟨Alike.refl m, alikeAll_refl ms⟩

end

theorem AlikeAll.append : ∀ {as as' bs bs' : List Markup}, AlikeAll as as' → AlikeAll bs bs' →
    AlikeAll (as ++ bs) (as' ++ bs')
  | [], [], _, _, _, hb => hb
  | _ :: _, _ :: _, _, _, ⟨hfirst, hrest⟩, hb => ⟨hfirst, AlikeAll.append hrest hb⟩

theorem AlikeAll.map {α : Type} {write write' : α → Markup} (h : ∀ a, (write a).Alike (write' a))
    (as : List α) : AlikeAll (as.map write) (as.map write') := by
  induction as with
  | nil => trivial
  | cons a as ih => exact ⟨h a, ih⟩

theorem AlikeAll.pushText {os os' : List Outline} (h : Outline.AlikeAll os os') (content : String) :
    Outline.AlikeAll (Outline.pushText content os) (Outline.pushText content os') := by
  match os, os', h with
  | [], [], _ =>
    rw [Outline.pushText]
    split_ifs
    · trivial
    · exact ⟨rfl, trivial⟩
    · simp
  | .text more :: os, .text more' :: os', ⟨hfirst, hrest⟩ =>
    obtain rfl : more' = more := hfirst
    exact ⟨rfl, hrest⟩
  | .element .. :: os, .element .. :: os', h =>
    rw [Outline.pushText, Outline.pushText]
    split_ifs
    · exact h
    · exact ⟨rfl, h⟩
    all_goals simp

mutual

/-- What agrees when it is written agrees when it is read. -/
theorem Alike.outlines : ∀ {m m' : Markup}, m.Alike m' → ∀ {os os' : List Outline},
    Outline.AlikeAll os os' → Outline.AlikeAll (m.outlines os) (m'.outlines os')
  | .text content, .text content', h, os, os', hrest => by
    obtain rfl : content' = content := h
    exact AlikeAll.pushText hrest content'
  | .verbatim content, .verbatim content', h, os, os', hrest => by
    obtain rfl : content' = content := h
    exact AlikeAll.pushText hrest content'
  | .element tag a inside, .element tag' b inside', ⟨htag, hattributes, hinside⟩, os, os',
      hrest => by
    subst htag
    refine ⟨⟨rfl, hattributes, ?_⟩, hrest⟩
    split_ifs
    · trivial
    · exact AlikeAll.outlinesAll hinside

theorem AlikeAll.outlinesAll : ∀ {ms ms' : List Markup}, AlikeAll ms ms' →
    Outline.AlikeAll (outlinesAll ms) (outlinesAll ms')
  | [], [], _ => trivial
  | _ :: _, _ :: _, ⟨hfirst, hrest⟩ => hfirst.outlines (AlikeAll.outlinesAll hrest)

end

end Markup

/-! ## Trees in the two themes -/

/-- Attributes with another class agree if neither text has a class that a page looks for. -/
theorem OrderedMap.Alike.of_class (before : OrderedMap String) {behind : OrderedMap String}
    (hbefore : before.lookup "class" = none) {text text' : String}
    (htext : ∀ name ∈ watchedClasses, name ∉ words text)
    (htext' : ∀ name ∈ watchedClasses, name ∉ words text') :
    OrderedMap.Alike (before ++ ("class", text) :: behind)
      (before ++ ("class", text') :: behind) := by
  have hother (text : String) {other : String} (h : other ≠ "class") :
      List.lookup other (before ++ ("class", text) :: behind) =
        List.lookup other (before ++ behind) := by
    rw [lookup_append, lookup_append, List.lookup_cons, beq_eq_false_iff_ne.2 h]
  have hclass (text : String) : classText (before ++ ("class", text) :: behind) = text := by
    rw [classText, lookup_append, hbefore, Option.none_or, List.lookup_cons, beq_self_eq_true]
    rfl
  refine (Alike.refl (before ++ behind)).of_classes (fun _ => hother text) (fun _ => hother text')
    fun name hname _ => ?_
  rw [hclass, hclass]
  exact iff_of_false (htext' name hname) (htext name hname)

namespace Node

open Markup

theorem alike_part {tag content : String} {a b : List Attribute}
    (h : (Attribute.toMap a).Alike (Attribute.toMap b)) :
    (part tag a content).Alike (part tag b content) :=
  ⟨rfl, h, rfl, trivial⟩

theorem alike_checkboxParts (node : Node) :
    AlikeAll (checkboxParts "ir" node) (checkboxParts "fluent" node) := by
  refine ⟨⟨rfl, ?_, trivial⟩, ?_⟩
  · exact OrderedMap.Alike.of_class [("type", "checkbox")] rfl (by decide +kernel)
      (by decide +kernel)
  · cases node.text with
    | none => trivial
    | some text =>
      dsimp only
      split_ifs
      · trivial
      · refine ⟨alike_part ?_, trivial⟩
        exact OrderedMap.Alike.of_class [] rfl (by decide +kernel) (by decide +kernel)

theorem alike_tabButton (tab : Json) : (tabButton "ir" tab).Alike (tabButton "fluent" tab) := by
  refine alike_part (OrderedMap.Alike.of_class [] rfl ?_ ?_)
  · split_ifs <;> decide +kernel
  · split_ifs <;> decide +kernel

theorem alike_tabParts (node : Node) :
    AlikeAll (tabParts "ir" node) (tabParts "fluent" node) := by
  rw [tabParts, tabParts]
  cases node.listProp? "tabs" with
  | none => trivial
  | some tabs =>
    refine ⟨⟨rfl, ?_, .map alike_tabButton tabs⟩, trivial⟩
    exact OrderedMap.Alike.of_class [] rfl (by decide +kernel) (by decide +kernel)

theorem alike_dialogParts (node : Node) {children children' : List Markup}
    (h : AlikeAll children children') :
    AlikeAll (dialogParts "ir" node children) (dialogParts "fluent" node children') := by
  rw [dialogParts, dialogParts]
  cases Props.shownIf "title" node.props with
  | none => exact h
  | some title =>
    refine ⟨⟨rfl, ?_, alike_part ?_, trivial⟩, ⟨rfl, ?_, h⟩, trivial⟩
    all_goals
      exact OrderedMap.Alike.of_class [] rfl (by decide +kernel) (by decide +kernel)

theorem alike_content (node : Node) {children children' : List Markup}
    (h : AlikeAll children children') :
    AlikeAll (node.content "ir" children) (node.content "fluent" children') := by
  rw [content, content]
  cases node.kind.primitive? with
  | none => exact (alikeAll_refl _).append h
  | some primitive =>
    cases primitive with
    | checkbox => exact node.alike_checkboxParts.append h
    | tabs => exact node.alike_tabParts.append h
    | dialog => exact node.alike_dialogParts h
    | _ => exact (alikeAll_refl _).append h

theorem alike_element (base : String) (node : Node) {children children' : List Markup}
    (h : AlikeAll children children') :
    (node.element .minimal children).Alike (node.element (.themed base) children') := by
  refine ⟨Themed.opening_tag node.kind node.props, ?_, ?_⟩
  · rw [toMap_ofEntry, toMap_ofEntry]
    exact node.alike_attributes base
  · rw [show (Theme.themed base).opening node.kind node.props =
      Themed.opening node.kind node.props from rfl, Themed.opening_tag]
    change AlikeAll (if isVoid (Minimal.opening node.kind node.props).tag = true then [] else _)
      (if isVoid (Minimal.opening node.kind node.props).tag = true then [] else _)
    split_ifs
    · trivial
    · exact node.alike_content h

mutual

/-- **The trees of a document in the two themes** agree on what a page looks at. -/
theorem alike_markup (base : String) : ∀ node : Node,
    (node.markup .minimal).Alike (node.markup (.themed base))
  | ⟨_, _, _, _, _, _, children, _⟩ => alike_element base _ (alikeAll_markupAll base children)

theorem alikeAll_markupAll (base : String) : ∀ nodes : List Node,
    AlikeAll (markupAll .minimal nodes) (markupAll (.themed base) nodes)
  | [] => trivial
  | node :: nodes => ⟨alike_markup base node, alikeAll_markupAll base nodes⟩

end

end Node

/-! ## Pages in the two themes -/

namespace Outline

theorem Interlaced.of_textLeft {content : String} {os os' : List Outline}
    (h : Interlaced (.text content :: os) os') : Interlaced os os' := by
  generalize hall : Outline.text content :: os = all at h
  induction h generalizing os with
  | nil => cases hall
  | textLeft _ h _ => exact (List.cons.inj hall).2 ▸ h
  | textRight content _ ih => exact .textRight content (ih hall)
  | both => cases hall
  | frame => cases hall
  | extra hplain _ ih => exact .extra hplain (ih hall)

theorem Interlaced.of_textRight {content : String} {os os' : List Outline}
    (h : Interlaced os (.text content :: os')) : Interlaced os os' := by
  generalize hall : Outline.text content :: os' = all at h
  induction h generalizing os' with
  | nil => cases hall
  | textLeft content _ ih => exact .textLeft content (ih hall)
  | textRight _ h _ => exact (List.cons.inj hall).2 ▸ h
  | both => cases hall
  | frame => cases hall
  | extra => cases hall

/-- A text in front joins the text that is there, or is one of its own, or is empty. -/
theorem pushText_cases (content : String) (os : List Outline) :
    (∃ more rest, os = .text more :: rest ∧ pushText content os = .text (content ++ more) :: rest) ∨
      pushText content os = os ∨ pushText content os = .text content :: os := by
  match os with
  | .text more :: rest => exact .inl ⟨more, rest, rfl, rfl⟩
  | [] | .element .. :: _ =>
    rw [pushText]
    · split_ifs
      · exact .inr (.inl rfl)
      · exact .inr (.inr rfl)
    · simp

theorem Interlaced.pushText_left {os os' : List Outline} (h : Interlaced os os')
    (content : String) : Interlaced (pushText content os) os' := by
  rcases pushText_cases content os with ⟨more, rest, rfl, hpush⟩ | hpush | hpush
  · exact hpush ▸ .textLeft _ h.of_textLeft
  · exact hpush.symm ▸ h
  · exact hpush ▸ .textLeft _ h

theorem Interlaced.pushText_right {os os' : List Outline} (h : Interlaced os os')
    (content : String) : Interlaced os (pushText content os') := by
  rcases pushText_cases content os' with ⟨more, rest, rfl, hpush⟩ | hpush | hpush
  · exact hpush ▸ .textRight _ h.of_textRight
  · exact hpush.symm ▸ h
  · exact hpush ▸ .textRight _ h

end Outline

namespace Markup

open Outline

theorem Alike.interlaced {m m' : Markup} (h : m.Alike m') {os os' : List Outline}
    (hrest : Interlaced os os') : Interlaced (m.outlines os) (m'.outlines os') := by
  match m, m', h with
  | .text content, .text content', _ => exact (hrest.pushText_left _).pushText_right _
  | .verbatim content, .verbatim content', _ => exact (hrest.pushText_left _).pushText_right _
  | .element tag a inside, .element tag' b inside', ⟨htag, hattributes, hinside⟩ =>
    subst htag
    refine .both hattributes ?_ hrest
    split_ifs
    · trivial
    · exact hinside.outlinesAll

theorem AlikeAll.interlaced {ms ms' rest rest' : List Markup} (h : AlikeAll ms ms')
    (hrest : Interlaced (Markup.outlinesAll rest) (Markup.outlinesAll rest')) :
    Interlaced (Markup.outlinesAll (ms ++ rest)) (Markup.outlinesAll (ms' ++ rest')) := by
  match ms, ms', h with
  | [], [], _ => exact hrest
  | m :: ms, m' :: ms', ⟨hfirst, hall⟩ => exact hfirst.interlaced (hall.interlaced hrest)

/-- The markup is an element without content and with nothing on it that a page looks at. -/
def IsExtra (m : Markup) : Prop :=
  ∃ tag attributes, m = .element tag attributes [] ∧
    ∀ name ∈ "class" :: readNames, (Attribute.toMap attributes).lookup name = none

/-- Additional elements on lines of their own, in front of the rest. -/
theorem interlaced_extras {extras rest' : List Markup} {os : List Outline}
    (h : ∀ m ∈ extras, m.IsExtra) (hrest : Interlaced os (Markup.outlinesAll rest')) :
    Interlaced os (Markup.outlinesAll (lines extras ++ rest')) := by
  induction extras with
  | nil => exact hrest
  | cons m extras ih =>
    obtain ⟨⟨tag, attributes, rfl, hplain⟩, hextras⟩ := List.forall_mem_cons.1 h
    have hempty : (if isVoid tag then [] else Markup.outlinesAll []) = [] := ite_self _
    have helement : Interlaced os (Markup.outlinesAll
        (.element tag attributes [] :: (lines extras ++ rest'))) := by
      rw [Markup.outlinesAll, Markup.outlines, hempty]
      exact .extra hplain (ih hextras)
    exact helement.pushText_right "\n"

end Markup

namespace Document

open Markup Outline

theorem isExtra_sheetLink (address : String) : (sheetLink address).IsExtra := by
  refine ⟨_, _, rfl, fun name hname => OrderedMap.lookup_eq_none_iff.2 ?_⟩
  have hother : ∀ name ∈ "class" :: readNames, name ∉ ["rel", "href"] := by decide
  exact hother name hname

theorem isExtra_scriptLink (address : String) : (scriptLink address).IsExtra := by
  refine ⟨_, _, rfl, fun name hname => OrderedMap.lookup_eq_none_iff.2 ?_⟩
  have hother : ∀ name ∈ "class" :: readNames, name ∉ ["src"] := by decide
  exact hother name hname

/-- Parts of a page on lines of their own, of which the themed page has more. -/
theorem interlaced_lines {extras : List Markup} (h : ∀ m ∈ extras, m.IsExtra)
    (front back : List Markup) :
    Interlaced (outlinesAll (lines (front ++ back) ++ [lineBreak]))
      (outlinesAll (lines (front ++ extras ++ back) ++ [lineBreak])) := by
  have hlines (a b : List Markup) : lines (a ++ b) = lines a ++ lines b := List.flatMap_append
  rw [hlines, hlines, hlines, List.append_assoc, List.append_assoc, List.append_assoc]
  refine (alikeAll_refl _).interlaced (interlaced_extras h ?_)
  exact (alikeAll_refl _).interlaced (.textLeft _ (.textRight _ .nil))

theorem interlaced_head (base : String) (defaults : PageDefaults) (document : Document) :
    Interlaced (outlinesAll (document.headContent .minimal defaults))
      (outlinesAll (document.headContent (.themed base) defaults)) := by
  have hextras : ∀ m ∈ (Theme.themed base).links.styles.map sheetLink, m.IsExtra := by
    intro m hm
    obtain ⟨address, _, rfl⟩ := List.mem_map.1 hm
    exact isExtra_sheetLink address
  have h := interlaced_lines hextras (document.headParts .minimal defaults |>.take 3)
    (document.headParts .minimal defaults |>.drop 3)
  simp only [headContent, headParts, List.map_append, List.append_assoc] at h ⊢
  exact h

theorem interlaced_body (base : String) (document : Document) :
    Interlaced (outlinesAll (document.bodyParts .minimal))
      (outlinesAll (document.bodyParts (.themed base))) := by
  have hscripts : document.scriptParts (.themed base) =
      scriptLink (base ++ "/fluent.min.js") :: document.scriptParts .minimal := rfl
  have hextras : ∀ m ∈ [scriptLink (base ++ "/fluent.min.js")], m.IsExtra := fun m hm =>
    List.mem_singleton.1 hm ▸ isExtra_scriptLink _
  have hend : Interlaced (outlinesAll (document.bodyEnd .minimal))
      (outlinesAll (document.bodyEnd (.themed base))) := by
    have h := interlaced_lines hextras [] (document.scriptParts .minimal)
    rw [bodyEnd, bodyEnd, hscripts, List.isEmpty_cons, if_neg Bool.false_ne_true]
    split_ifs with hempty
    · rw [List.isEmpty_iff.1 hempty] at h ⊢
      exact h.pushText_left "\n"
    · exact h
  have happ := document.app.alike_markup base
  rw [bodyParts_eq, bodyParts_eq]
  exact ((happ.interlaced hend).pushText_left "\n").pushText_right "\n"

/-- **The outlines of the two pages of a document** are interlaced. -/
theorem interlaced_outlines (base : String) (defaults : PageDefaults) (document : Document) :
    Interlaced (document.outlines .minimal defaults)
      (document.outlines (.themed base) defaults) := by
  have hlang : ∀ name ∈ readNames, name ∉ ["lang"] := by decide
  rw [outlines_eq, outlines_eq]
  refine .textLeft _ (.textRight _ (.frame (.refl _) ?_ ?_ .nil))
  · exact fun name hname => OrderedMap.lookup_eq_none_iff.2 (hlang name hname)
  · refine .textLeft _ (.textRight _ (.frame (.refl _) (fun _ _ => rfl)
      (interlaced_head base defaults document) ?_))
    refine .textLeft _ (.textRight _ (.frame (.refl _) (fun _ _ => rfl)
      (interlaced_body base document) ?_))
    exact .textLeft _ (.textRight _ .nil)

/-- **The tables of the two pages of a document match.** -/
theorem exists_paired_forest (base : String) (defaults : PageDefaults) (document : Document) :
    ∃ σ, Forest.Paired σ (document.forest .minimal defaults)
      (document.forest (.themed base) defaults) :=
  (document.interlaced_outlines base defaults).exists_paired_ofOutlines

end Document

end PageTree
