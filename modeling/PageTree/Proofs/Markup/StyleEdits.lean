import Mathlib.Logic.Function.Basic
import PageTree.Proofs.Markup.Likeness

/-!
# Edits of an inline style

An inline style is kept as a text: an edit reads its declarations, changes them and writes them
back, and the next reading goes through the written text. An edit is plain when its property and its
value are spelled as reading spells them. Then the next reading finds the changed declarations and
nothing else, whatever was written in the text before: repeated properties, capitals, blanks and
parts that declare nothing. So for the one who asks for properties the style is a map, and plain
edits are updates of it.

A value with a semicolon in it is not plain. What comes behind the semicolon is read as a
declaration of its own.

## Main definitions

* `InlineStyle.entry?`: what a property has once it is set to a value

## Main results

* `InlineStyle.read_change_of_isPlain`: what was written after an edit reads as the edit made it
* `Forest.attribute?_setStyleProperty_eq_none_iff`: an attribute without declarations is removed
* `Forest.styleProperty?_update`: an edit updates the map of properties
* `Forest.setStyleProperty_lawful`: the laws of one edit
-/

namespace PageTree

namespace InlineStyle

variable {property value : String}

/-! ## Edits of declarations -/

/-- What a property has once it is set to a value: the empty value takes it away. -/
def entry? (value : String) : Option String := if value.isEmpty then none else some value

theorem entry?_of_ne (h : value ≠ "") : entry? value = some value :=
  if_neg fun hempty => h (String.isEmpty_iff.1 hempty)

/-- The value of a property: that of a later declaration, and else that of the first one. -/
theorem get?_cons (property : String) (d : String × String)
    (declarations : List (String × String)) :
    get? property (d :: declarations) =
      (get? property declarations).or (if property = d.1 then some d.2 else none) := by
  have hfirst : get? property [d] = if property = d.1 then some d.2 else none := by
    rw [get?, List.reverse_singleton]
    split_ifs with hproperty
    · rw [hproperty, OrderedMap.lookup_cons_self]
    · rw [OrderedMap.lookup_cons_of_ne hproperty]
      rfl
  rw [← List.singleton_append, get?_append, hfirst]

theorem get?_set (property value other : String) (declarations : List (String × String)) :
    get? other (set property value declarations) =
      if other = property then entry? value else get? other declarations := by
  rw [set, get?_append, get?_filter_ne, entry?]
  by_cases hempty : value.isEmpty = true
  · rw [if_pos hempty, if_pos hempty]
    exact Option.none_or
  · rw [if_neg hempty, if_neg hempty, get?_cons]
    split_ifs <;> rfl

theorem set_empty (property : String) (declarations : List (String × String)) :
    set property "" declarations = declarations.filter fun d => d.1 != property :=
  List.append_nil _

/-- An edit leaves nothing when it takes away the one property of which there were
declarations. -/
theorem set_eq_nil_iff {declarations : List (String × String)} :
    set property value declarations = [] ↔ value = "" ∧ ∀ d ∈ declarations, d.1 = property := by
  have hkept : (declarations.filter fun d => d.1 != property) = [] ↔
      ∀ d ∈ declarations, d.1 = property := by
    simp only [List.filter_eq_nil_iff, bne_iff_ne, ne_eq, not_not]
  have hadded : (if value.isEmpty then [] else [(property, value)]) = [] ↔ value = "" := by
    rw [← String.isEmpty_iff]
    by_cases hempty : value.isEmpty = true
    · rw [if_pos hempty]
      exact iff_of_true rfl hempty
    · rw [if_neg hempty]
      exact iff_of_false (List.cons_ne_nil _ _) hempty
  rw [set, List.append_eq_nil_iff, hkept, hadded, and_comm]

/-! ## Edits of texts -/

/-- **What was written after an edit reads as the edit made it.** -/
theorem read_change_of_isPlain (h : IsPlain property value) (text : String) :
    read (change property value text) = set property value (read text) := by
  rw [read_change, read_eq_singleton_iff.2 h, set]

example : read (change "color" "teal" " Color: RED ;; grid ;MARGIN : 0;color:blue") =
    [("margin", "0"), ("color", "teal")] := by
  decide +kernel

end InlineStyle

namespace Forest

variable {f : Forest} {i : Nat} {property value : String}

/-! ## Edits of the style of an element -/

theorem declarations_setStyleProperty (hi : i < f.size) (property value : String) :
    (f.setStyleProperty i property value).declarations i =
      InlineStyle.read (InlineStyle.change property value (f.get i).attributes.styleText) := by
  rw [setStyleProperty_eq, declarations, attribute?, get_modify_self hi,
    ← OrderedMap.styleText_restyled]
  rfl

/-- A change of one property says nothing new of others that its value does not bring along. -/
theorem styleProperty?_setStyleProperty_of_ne {property value other : String}
    (hproperty : other ≠ property)
    (hvalue : other ∉ OrderedMap.names (InlineStyle.read (property ++ ":" ++ value))) (i j : Nat) :
    (f.setStyleProperty i property value).styleProperty? j other = f.styleProperty? j other := by
  rw [setStyleProperty_eq, styleProperty?, declarations, attribute?, get_modify]
  split_ifs
  · change InlineStyle.get? other (InlineStyle.read (OrderedMap.styleText _)) = _
    rw [Element.mapAttributes, OrderedMap.styleText_restyled,
      InlineStyle.get?_read_change_of_ne hproperty hvalue]
    rfl
  · rfl

theorem styleProperty?_removeAttribute {name : String} (hname : "style" ≠ name) (j : Nat)
    (property : String) :
    (f.removeAttribute i name).styleProperty? j property = f.styleProperty? j property := by
  rw [styleProperty?, styleProperty?, declarations, declarations, attribute?, attribute?,
    removeAttribute, get_modify]
  split_ifs
  · dsimp only
    rw [OrderedMap.lookup_erase, if_neg hname]
  · rfl

/-- What the style attribute of an element says of its style. -/
theorem styleProperty?_congr {g : Forest} {j : Nat}
    (h : g.attribute? j "style" = f.attribute? i "style") (property : String) :
    g.styleProperty? j property = f.styleProperty? i property := by
  rw [styleProperty?, styleProperty?, declarations, declarations, h]

theorem styleProperty?_addClass (j : Nat) (name property : String) :
    (f.addClass i name).styleProperty? j property = f.styleProperty? j property := by
  refine styleProperty?_congr ?_ property
  rw [addClass_eq, attribute?, get_modify]
  split_ifs
  · exact OrderedMap.lookup_classed_of_ne (by decide)
  · rfl

/-- The attribute goes when an edit leaves no declaration, and only then. -/
theorem attribute?_setStyleProperty_eq_none_iff (hi : i < f.size) (property value : String) :
    (f.setStyleProperty i property value).attribute? i "style" = none ↔
      InlineStyle.set property value (f.declarations i) = [] := by
  rw [setStyleProperty]
  split_ifs with hempty
  · rw [removeAttribute, attribute?, get_modify_self hi, OrderedMap.lookup_erase, if_pos rfl]
    exact iff_of_true rfl (List.isEmpty_iff.1 hempty)
  · rw [setAttribute, attribute?, get_modify_self hi, OrderedMap.lookup_set, if_pos rfl]
    exact iff_of_false (Option.some_ne_none _) fun hnil => hempty (List.isEmpty_iff.2 hnil)

/-! ## Plain edits -/

theorem declarations_setStyleProperty_of_isPlain (hi : i < f.size)
    (h : InlineStyle.IsPlain property value) :
    (f.setStyleProperty i property value).declarations i =
      InlineStyle.set property value (f.declarations i) := by
  rw [declarations_setStyleProperty hi, InlineStyle.read_change_of_isPlain h]
  rfl

theorem styleProperty?_setStyleProperty (hi : i < f.size) (h : InlineStyle.IsPlain property value)
    (other : String) :
    (f.setStyleProperty i property value).styleProperty? i other =
      if other = property then InlineStyle.entry? value else f.styleProperty? i other := by
  rw [styleProperty?, declarations_setStyleProperty_of_isPlain hi h, InlineStyle.get?_set]
  rfl

/-- **A plain edit updates the map of properties.** -/
theorem styleProperty?_update (hi : i < f.size) (h : InlineStyle.IsPlain property value) :
    (f.setStyleProperty i property value).styleProperty? i =
      Function.update (f.styleProperty? i) property (InlineStyle.entry? value) := by
  funext other
  rw [styleProperty?_setStyleProperty hi h, Function.update_apply]

/-- **Edits of an inline style behave as edits of a map**, whatever the style attribute was. A
property that is set to a value has this value, one that is set to nothing has no declaration left,
and other properties have what they had. The attribute is removed when no declaration is left, that
is when the property is set to nothing and there were declarations of no other property. -/
theorem setStyleProperty_lawful (hi : i < f.size) (h : InlineStyle.IsPlain property value) :
    (value ≠ "" →
      (f.setStyleProperty i property value).styleProperty? i property = some value) ∧
    (value = "" →
      ∀ d ∈ (f.setStyleProperty i property value).declarations i, d.1 ≠ property) ∧
    (∀ other, other ≠ property →
      (f.setStyleProperty i property value).styleProperty? i other = f.styleProperty? i other) ∧
    ((f.setStyleProperty i property value).attribute? i "style" = none ↔
      (f.setStyleProperty i property value).declarations i = []) ∧
    ((f.setStyleProperty i property value).attribute? i "style" = none ↔
      value = "" ∧ ∀ d ∈ f.declarations i, d.1 = property) := by
  have hstyle := styleProperty?_update hi h
  have hleft := declarations_setStyleProperty_of_isPlain hi h
  have hremoved := attribute?_setStyleProperty_eq_none_iff hi property value
  refine ⟨fun hvalue => ?_, fun hvalue d hd => ?_, fun other hother => ?_, ?_, ?_⟩
  · rw [hstyle, Function.update_self, InlineStyle.entry?_of_ne hvalue]
  · rw [hleft, hvalue, InlineStyle.set_empty] at hd
    exact bne_iff_ne.1 (List.mem_filter.1 hd).2
  · rw [hstyle, Function.update_of_ne hother]
  · rw [hremoved, hleft]
  · rw [hremoved, InlineStyle.set_eq_nil_iff]

/-- A document with one paragraph in it that has a style. -/
def swatch (style : String) : Forest :=
  ⟨#[{ tag := "#document", content := [.element 1] },
    { tag := "p", attributes := [("style", style), ("class", "swatch")],
      parent := some rootIndex }]⟩

/-- A style that repeats a property in capitals, and has blanks in it and parts that declare
nothing. -/
def mixedSwatch : Forest := swatch " Color : RED ;; COLOR:blue; grid ; display : none;Color:"

/-- A style that declares nothing but a color. -/
def colorSwatch : Forest := swatch "COLOR:red; ;grid"

/-- A color is set to a value with a colon in it and to nothing. -/
theorem setStyleProperty_lawful_swatch :
    1 < mixedSwatch.size ∧ 1 < colorSwatch.size ∧
      InlineStyle.IsPlain "color" "a:B c" ∧ InlineStyle.IsPlain "color" "" ∧
      (mixedSwatch.setStyleProperty 1 "color" "a:B c").styleProperty? 1 "color" = some "a:B c" ∧
      mixedSwatch.styleProperty? 1 "display" = some "none" ∧
      (mixedSwatch.setStyleProperty 1 "color" "a:B c").styleProperty? 1 "display" =
        mixedSwatch.styleProperty? 1 "display" ∧
      (∀ d ∈ (mixedSwatch.setStyleProperty 1 "color" "").declarations 1, d.1 ≠ "color") ∧
      (mixedSwatch.setStyleProperty 1 "color" "").attribute? 1 "style" ≠ none ∧
      (colorSwatch.setStyleProperty 1 "color" "").attribute? 1 "style" = none := by
  have hmixed : 1 < mixedSwatch.size := by decide
  have hcolor : 1 < colorSwatch.size := by decide
  have hvalue : InlineStyle.IsPlain "color" "a:B c" := by decide +kernel
  have hempty : InlineStyle.IsPlain "color" "" := by decide +kernel
  have hdisplay : mixedSwatch.styleProperty? 1 "display" = some "none" := by decide +kernel
  have hmore : ¬∀ d ∈ mixedSwatch.declarations 1, d.1 = "color" := by decide +kernel
  have honly : ∀ d ∈ colorSwatch.declarations 1, d.1 = "color" := by decide +kernel
  obtain ⟨hset, -, hothers, -⟩ := setStyleProperty_lawful hmixed hvalue
  obtain ⟨-, htaken, -, -, hstays⟩ := setStyleProperty_lawful hmixed hempty
  obtain ⟨-, -, -, -, hgoes⟩ := setStyleProperty_lawful hcolor hempty
  exact ⟨hmixed, hcolor, hvalue, hempty, hset (by decide), hdisplay, hothers "display" (by decide),
    htaken rfl, fun hnone => hmore (hstays.1 hnone).2, hgoes.2 ⟨rfl, honly⟩⟩

end Forest

end PageTree
