import Mathlib.Data.List.Nodup
import PageTree.Proofs.Markup.Outline
import PageTree.Proofs.OrderedMap
import PageTree.Render.Node

/-!
# Openings of nodes

What a theme opens a node with can be read back: the tag is a name of a tag, and the attributes
have distinct legible names. None of the attributes is one that the script of a page reads, so a
theme cannot be mistaken for a node.

## Main definitions

* `wireNames`: the attributes that the script of a page reads
* `IsInert`: maps of legible attributes without any of those

## Main results

* `Theme.isInert_opening`
* `Theme.isTagName_opening`
-/

namespace PageTree

/-- The names of the attributes that the script of a page reads. -/
def wireNames : List String :=
  [idAttribute, eventsAttribute, motionAttribute, bindAttribute, showAttribute,
    toastRegionAttribute]

namespace Markup

instance (tag : String) : Decidable (IsTagName tag) :=
  decidable_of_iff
    (tag.toList.head?.any Char.isAlpha ∧
      ∀ c ∈ tag.toList, MarkupReader.isTagChar c ∧ c.toLower = c) <| by
    rw [IsTagName]
    cases tag.toList <;> simp

instance (name : String) : Decidable (IsAttributeName name) :=
  inferInstanceAs (Decidable (_ ∧ _))

end Markup

/-- Attributes with distinct legible names, none of which the script of a page reads. -/
def IsInert (names : List String) : Prop :=
  (∀ name ∈ names, Markup.IsAttributeName name ∧ name ∉ wireNames) ∧ names.Nodup

instance (names : List String) : Decidable (IsInert names) :=
  inferInstanceAs (Decidable (_ ∧ _))

theorem IsInert.sublist {names all : List String} (h : names.Sublist all) (hall : IsInert all) :
    IsInert names :=
  ⟨fun name hname => hall.1 name (h.subset hname), hall.2.sublist h⟩

namespace OrderedMap

variable {α : Type}

theorem names_cons_sublist {m : OrderedMap α} {all : List String} (name : String) (value : α)
    (h : (names m).Sublist all) : (names ((name, value) :: m)).Sublist (name :: all) :=
  h.cons_cons name

theorem names_append_sublist {a b : OrderedMap α} {as bs : List String}
    (ha : (names a).Sublist as) (hb : (names b).Sublist bs) :
    (names (a ++ b)).Sublist (as ++ bs) := by
  rw [names_append]
  exact ha.append hb

theorem names_option_sublist {β : Type} (name : String) (write : β → α) (value : Option β) :
    (names (value.map fun b => (name, write b)).toList).Sublist [name] := by
  cases value with
  | none => exact List.nil_sublist _
  | some b => exact List.Sublist.refl _

end OrderedMap

namespace Props

open OrderedMap

theorem names_copy_sublist (key name : String) (props : Props) :
    (names (copy key name props)).Sublist [name] :=
  names_option_sublist name id _

theorem names_flag_sublist (key : String) (props : Props) :
    (names (flag key props)).Sublist [key] := by
  rw [flag]
  split
  · exact List.Sublist.refl _
  · exact List.nil_sublist _

theorem names_inputAttributes_sublist (props : Props) :
    (names (inputAttributes props)).Sublist
      ["type", "placeholder", "name", "value", "required", "disabled"] :=
  names_cons_sublist _ _ <| names_append_sublist (names_append_sublist (names_append_sublist
    (names_append_sublist (names_copy_sublist _ _ _) (names_copy_sublist _ _ _))
    (names_option_sublist _ _ _)) (names_flag_sublist _ _)) (names_flag_sublist _ _)

end Props

/-! ## The two themes -/

/-- The tags of headings. -/
def headingTags : List String := ["h1", "h2", "h3", "h4", "h5", "h6"]

/-- The tags that themes give to nodes. -/
def openingTags : List String :=
  ["div", "main", "section", "hr", "p", "img", "span", "button", "a", "form", "input", "select",
    "label", "ul", "table", "details", "dialog"] ++ headingTags

theorem Props.headingTag_mem (props : Props) : props.headingTag ∈ headingTags := by
  have hlevel : ∀ n, 1 ≤ n → n ≤ 6 → "h" ++ toString n ∈ headingTags := by
    intro n h1 h6
    interval_cases n <;> decide +kernel
  apply hlevel
  · rw [headingLevel]
    split
    · dsimp only
      split
      · exact Nat.le_refl _
      · omega
    · decide
  · rw [headingLevel]
    split
    · dsimp only
      split
      · decide
      · omega
    · decide

section

open OrderedMap Props

theorem names_copies_sublist (props : Props) (key name key' name' : String) :
    (names (copy key name props ++ copy key' name' props)).Sublist [name, name'] :=
  names_append_sublist (names_copy_sublist _ _ _) (names_copy_sublist _ _ _)

theorem Themed.isInert_opening (kind : NodeKind) (props : Props) :
    IsInert (names (opening kind props).attributes) := by
  have hnone : IsInert [] := by decide
  have hplain : IsInert ["class"] := by decide +kernel
  have hstyle : IsInert ["class", "style"] := by decide +kernel
  rw [opening]
  cases kind.primitive? with
  | none => exact hnone
  | some primitive =>
    cases primitive with
    | heading | text => exact hnone
    | grid | cluster => exact hstyle
    | spacer =>
      have : IsInert ["aria-hidden", "style"] := by decide +kernel
      exact this
    | image => exact .sublist (names_copies_sublist _ _ _ _ _) (by decide +kernel)
    | icon => exact .sublist (names_copy_sublist _ _ _) (by decide +kernel)
    | button =>
      exact .sublist (names_cons_sublist "class" _
        (names_append_sublist (names_flag_sublist _ _) (names_copy_sublist _ _ _)))
        (by decide +kernel)
    | link => exact .sublist (names_copies_sublist _ _ _ _ _) (by decide +kernel)
    | form =>
      exact .sublist (names_cons_sublist "class" _ (names_copies_sublist _ _ _ _ _))
        (by decide +kernel)
    | input =>
      exact .sublist (names_cons_sublist "class" _ (names_inputAttributes_sublist _))
        (by decide +kernel)
    | select =>
      exact .sublist (names_cons_sublist "class" _
        (names_append_sublist (names_copy_sublist _ _ _) (names_flag_sublist _ _)))
        (by decide +kernel)
    | dialog =>
      exact .sublist (names_cons_sublist "class" _ (names_cons_sublist "role" _
        (names_cons_sublist "aria-modal" _ (names_flag_sublist _ _)))) (by decide +kernel)
    | toastRegion =>
      have : IsInert ["class", "aria-live"] := by decide +kernel
      exact this
    | _ => exact hplain

theorem Minimal.isInert_opening (kind : NodeKind) (props : Props) :
    IsInert (names (opening kind props).attributes) := by
  have hnone : IsInert [] := by decide
  have hstyle : IsInert ["style"] := by decide +kernel
  rw [opening]
  cases kind.primitive? with
  | none => exact hnone
  | some primitive =>
    cases primitive with
    | stack | grid | cluster => exact hstyle
    | spacer =>
      have : IsInert ["style", "aria-hidden"] := by decide +kernel
      exact this
    | image => exact .sublist (names_copies_sublist _ _ _ _ _) (by decide +kernel)
    | button =>
      exact .sublist (names_append_sublist (names_flag_sublist _ _) (names_copy_sublist _ _ _))
        (by decide +kernel)
    | link => exact .sublist (names_copies_sublist _ _ _ _ _) (by decide +kernel)
    | form => exact .sublist (names_copies_sublist _ _ _ _ _) (by decide +kernel)
    | input => exact .sublist (names_inputAttributes_sublist _) (by decide +kernel)
    | select =>
      exact .sublist (names_append_sublist (names_copy_sublist _ _ _) (names_flag_sublist _ _))
        (by decide +kernel)
    | dialog => exact .sublist (names_flag_sublist _ _) (by decide +kernel)
    | _ => exact hnone

end

/-- **The attributes of an opening can be read back**, and the script of a page reads none. -/
theorem Theme.isInert_opening (theme : Theme) (kind : NodeKind) (props : Props) :
    IsInert (OrderedMap.names (theme.opening kind props).attributes) := by
  cases theme with
  | themed base => exact Themed.isInert_opening kind props
  | minimal => exact Minimal.isInert_opening kind props

/-- Both themes give a node the same tag. -/
theorem Themed.opening_tag (kind : NodeKind) (props : Props) :
    (opening kind props).tag = (Minimal.opening kind props).tag := by
  rw [opening, Minimal.opening]
  cases kind.primitive? with
  | none => rfl
  | some primitive => cases primitive <;> rfl

/-- **The tag of a node does not depend on the theme.** -/
theorem Theme.opening_tag (theme : Theme) (kind : NodeKind) (props : Props) :
    (theme.opening kind props).tag = (Minimal.opening kind props).tag := by
  cases theme with
  | themed base => exact Themed.opening_tag kind props
  | minimal => rfl

theorem Theme.opening_tag_mem (theme : Theme) (kind : NodeKind) (props : Props) :
    (theme.opening kind props).tag ∈ openingTags := by
  rw [opening_tag, Minimal.opening]
  cases kind.primitive? with
  | none => simp [openingTags]
  | some primitive =>
    cases primitive with
    | heading => exact List.mem_append_right _ (Props.headingTag_mem props)
    | _ => simp [openingTags]

/-- The tag of an opening is a name of a tag, and not one of raw text. -/
theorem Theme.isTagName_opening (theme : Theme) (kind : NodeKind) (props : Props) :
    Markup.IsTagName (theme.opening kind props).tag ∧
      Outline.isRaw (theme.opening kind props).tag = false := by
  have hall : ∀ tag ∈ openingTags, Markup.IsTagName tag ∧ Outline.isRaw tag = false := by
    decide +kernel
  exact hall _ (theme.opening_tag_mem kind props)

end PageTree
