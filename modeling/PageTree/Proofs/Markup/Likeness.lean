import PageTree.Proofs.Markup.Change
import PageTree.Proofs.Markup.InlineStyle
import PageTree.Proofs.Theme.Opening
import PageTree.Session.Effects

/-!
# Elements that a page takes for the same

A page in use looks at few things on an element: its tag, its form value, the attributes that it
reads by name, whether the inline style hides it, and two classes that have to do with toasts.
Elements that agree on these still agree after every change that a page makes.

## Main definitions

* `OrderedMap.Alike`, `Element.Alike`: maps of attributes and elements that agree on these
* `OrderedMap.classed`, `OrderedMap.unclassed`, `OrderedMap.restyled`: the changes of attributes

## Main results

* `OrderedMap.Alike.classed`, `OrderedMap.Alike.unclassed`, `OrderedMap.Alike.restyled`
* `Forest.addClass_eq`, `Forest.removeClass_eq`, `Forest.setStyleProperty_eq`: changes of elements
  are these changes of their attributes
-/

namespace PageTree

/-- The attributes of form controls and the id of a script, which a page reads by name. -/
def controlNames : List String := ["hidden", "value", "selected", "id"]

/-- The attributes that a page reads by name. -/
def readNames : List String := wireNames ++ controlNames

/-- The classes that a page looks for. -/
def watchedClasses : List String := [Session.themedToastRegionClass, Session.shownToastClass]

namespace OrderedMap

/-! ## Changes of attributes -/

/-- The class attribute, empty if there is none. -/
def classText (attributes : OrderedMap String) : String := (attributes.lookup "class").getD ""

/-- The style attribute, empty if there is none. -/
def styleText (attributes : OrderedMap String) : String := (attributes.lookup "style").getD ""

/-- The attributes with a class added unless it is there. -/
def classed (name : String) (attributes : OrderedMap String) : OrderedMap String :=
  if (words attributes.classText).contains name then attributes
  else
    let existing := Text.trimBlank attributes.classText.toList
    set "class" (if existing.isEmpty then name else String.ofList (existing ++ ' ' :: name.toList))
      attributes

/-- The attributes with a class removed. -/
def unclassed (name : String) (attributes : OrderedMap String) : OrderedMap String :=
  if (attributes.lookup "class").isSome then
    set "class" (" ".intercalate ((words attributes.classText).filter (· != name))) attributes
  else attributes

/-- The attributes with a property of the inline style set. -/
def restyled (property value : String) (attributes : OrderedMap String) : OrderedMap String :=
  let declarations := InlineStyle.set property value (InlineStyle.read attributes.styleText)
  if declarations.isEmpty then erase "style" attributes
  else set "style" (InlineStyle.write declarations) attributes

variable {a b : OrderedMap String}

theorem lookup_classed_of_ne {name other : String} (h : other ≠ "class") :
    (a.classed name).lookup other = a.lookup other := by
  rw [classed]
  split_ifs
  · rfl
  · rw [lookup_set, if_neg h]

theorem lookup_unclassed_of_ne {name other : String} (h : other ≠ "class") :
    (a.unclassed name).lookup other = a.lookup other := by
  rw [unclassed]
  split_ifs
  · rw [lookup_set, if_neg h]
  · rfl

theorem lookup_restyled_of_ne {property value other : String} (h : other ≠ "style") :
    (a.restyled property value).lookup other = a.lookup other := by
  rw [restyled]
  split_ifs
  · rw [lookup_erase, if_neg h]
  · rw [lookup_set, if_neg h]

theorem styleText_restyled (property value : String) :
    (a.restyled property value).styleText = InlineStyle.change property value a.styleText := by
  rw [restyled, InlineStyle.change, styleText]
  split_ifs
  · rw [lookup_erase, if_pos rfl]
    rfl
  · rw [lookup_set, if_pos rfl]
    rfl

/-- A class that is added comes behind those that are there. -/
theorem words_classed (a : OrderedMap String) (name : String) :
    words (a.classed name).classText = words a.classText ++
      if (words a.classText).contains name then [] else words name := by
  rw [classed]
  split_ifs
  · rw [List.append_nil]
  · have hset (value : String) : classText (set "class" value a) = value := by
      rw [classText, lookup_set, if_pos rfl, Option.getD_some]
    have htrim := words_trimBlank a.classText
    dsimp only
    rw [hset]
    split_ifs with hempty
    · rw [List.isEmpty_iff.1 hempty] at htrim
      rw [← htrim]
      rfl
    · rw [words_ofList_append, htrim]

/-- A class that is added joins those that are there. -/
theorem mem_words_classed {name other : String} :
    other ∈ words (a.classed name).classText ↔
      other ∈ words a.classText ∨ other ∈ words name := by
  rw [words_classed, List.mem_append]
  split_ifs with hhas
  · have hname : name ∈ words a.classText := List.contains_iff_mem.1 hhas
    have hself : words name = [name] := by
      have : words (" ".intercalate [name]) = [name] := words_intercalate (by simpa using hname)
      rwa [String.intercalate_singleton] at this
    rw [hself, List.mem_singleton]
    exact ⟨fun h => Or.inl (h.resolve_right List.not_mem_nil),
      fun h => Or.inl (h.elim id fun h => h ▸ hname)⟩
  · exact Iff.rfl

theorem mem_words_unclassed {name other : String} :
    other ∈ words (a.unclassed name).classText ↔ other ∈ words a.classText ∧ other ≠ name := by
  rw [unclassed]
  split_ifs with hclass
  · rw [classText, lookup_set, if_pos rfl, Option.getD_some,
      words_intercalate fun _ => List.mem_of_mem_filter, List.mem_filter, bne_iff_ne]
  · have hnone : a.classText = "" := by
      rw [classText, Option.not_isSome_iff_eq_none.1 hclass]
      rfl
    rw [hnone]
    exact ⟨fun h => absurd h List.not_mem_nil, fun h => h.1⟩

/-! ## Attributes that agree -/

/-- The two maps of attributes agree on what a page looks at. A region for toasts is known by its
attribute, whatever its classes. -/
structure Alike (a b : OrderedMap String) : Prop where
  named : ∀ name ∈ readNames, b.lookup name = a.lookup name
  hides : InlineStyle.hides b.styleText = InlineStyle.hides a.styleText
  classes : a.lookup toastRegionAttribute = none →
    ∀ name ∈ watchedClasses, name ∈ words b.classText ↔ name ∈ words a.classText

namespace Alike

theorem refl (a : OrderedMap String) : a.Alike a := ⟨fun _ _ => rfl, rfl, fun _ _ _ => Iff.rfl⟩

/-- Maps that agree still agree when neither what is read by name nor the style changes and their
classes change alike. -/
theorem of_classes {a' b' : OrderedMap String} (h : a.Alike b)
    (ha : ∀ other, other ≠ "class" → a'.lookup other = a.lookup other)
    (hb : ∀ other, other ≠ "class" → b'.lookup other = b.lookup other)
    (hclasses : ∀ other ∈ watchedClasses, (other ∈ words b.classText ↔ other ∈ words a.classText) →
      (other ∈ words b'.classText ↔ other ∈ words a'.classText)) : a'.Alike b' := by
  have hread : ∀ name ∈ readNames, name ≠ "class" := by decide +kernel
  refine ⟨fun name hname => ?_, ?_, fun hregion name hname => ?_⟩
  · rw [ha name (hread name hname), hb name (hread name hname), h.named name hname]
  · rw [styleText, styleText, ha "style" (by decide), hb "style" (by decide)]
    exact h.hides
  · rw [ha _ (by decide)] at hregion
    exact hclasses name hname (h.classes hregion name hname)

theorem classed (h : a.Alike b) (name : String) : (a.classed name).Alike (b.classed name) :=
  h.of_classes (fun _ => lookup_classed_of_ne) (fun _ => lookup_classed_of_ne)
    fun other _ hother => by rw [mem_words_classed, mem_words_classed, hother]

theorem unclassed (h : a.Alike b) (name : String) : (a.unclassed name).Alike (b.unclassed name) :=
  h.of_classes (fun _ => lookup_unclassed_of_ne) (fun _ => lookup_unclassed_of_ne)
    fun other _ hother => by rw [mem_words_unclassed, mem_words_unclassed, hother]

/-- Maps that agree still agree when nothing but the style changes, and in the same way. -/
theorem restyled (h : a.Alike b) (property value : String)
    (hhides : InlineStyle.hides (InlineStyle.change property value b.styleText) =
      InlineStyle.hides (InlineStyle.change property value a.styleText)) :
    (a.restyled property value).Alike (b.restyled property value) := by
  have hread : ∀ name ∈ readNames, name ≠ "style" := by decide +kernel
  refine ⟨fun name hname => ?_, ?_, fun hregion name hname => ?_⟩
  · rw [lookup_restyled_of_ne (hread name hname), lookup_restyled_of_ne (hread name hname),
      h.named name hname]
  · rw [styleText_restyled, styleText_restyled, hhides]
  · rw [lookup_restyled_of_ne (by decide)] at hregion
    rw [classText, classText, lookup_restyled_of_ne (by decide), lookup_restyled_of_ne (by decide)]
    exact h.classes hregion name hname

theorem erase_hidden (h : a.Alike b) : (a.erase "hidden").Alike (b.erase "hidden") := by
  refine ⟨fun name hname => ?_, ?_, fun hregion name hname => ?_⟩
  · rw [lookup_erase, lookup_erase, h.named name hname]
  · rw [styleText, styleText, lookup_erase, lookup_erase, if_neg (by decide)]
    exact h.hides
  · rw [lookup_erase, if_neg (by decide)] at hregion
    rw [classText, classText, lookup_erase, lookup_erase, if_neg (by decide)]
    exact h.classes hregion name hname

end Alike

end OrderedMap

/-! ## Elements that agree -/

namespace Element

/-- The element with its attributes changed. -/
def mapAttributes (change : OrderedMap String → OrderedMap String) (e : Element) : Element :=
  { e with attributes := change e.attributes }

/-- The two elements agree on what a page looks at. -/
structure Alike (a b : Element) : Prop where
  tag : b.tag = a.tag
  value : b.value = a.value
  attributes : a.attributes.Alike b.attributes

variable {a b : Element}

theorem Alike.refl (a : Element) : a.Alike a := ⟨rfl, rfl, .refl _⟩

theorem Alike.mapAttributes (h : a.Alike b) {change : OrderedMap String → OrderedMap String}
    (hchange : (change a.attributes).Alike (change b.attributes)) :
    (a.mapAttributes change).Alike (b.mapAttributes change) :=
  ⟨h.tag, h.value, hchange⟩

theorem Alike.contains (h : a.Alike b) {name : String} (hname : name ∈ readNames) :
    OrderedMap.contains name b.attributes = OrderedMap.contains name a.attributes :=
  congrArg Option.isSome (h.attributes.named name hname)

end Element

namespace Forest

variable (f : Forest)

theorem modify_eq_self {f : Forest} {i : Nat} {change : Element → Element}
    (h : change (f.get i) = f.get i) : f.modify i change = f := by
  refine ext_get (size_modify i change) fun j _ => ?_
  rw [get_modify]
  split_ifs with hj
  · rw [hj.1, h]
  · rfl

theorem modify_congr {f : Forest} {i : Nat} {change change' : Element → Element}
    (h : change (f.get i) = change' (f.get i)) : f.modify i change = f.modify i change' := by
  refine ext_get ((size_modify i change).trans (size_modify i change').symm) fun j _ => ?_
  rw [get_modify, get_modify]
  split_ifs with hj
  · rw [hj.1, h]
  · rfl

theorem addClass_eq (i : Nat) (name : String) :
    f.addClass i name = f.modify i (Element.mapAttributes (OrderedMap.classed name)) := by
  rw [addClass]
  split_ifs with hhas
  · have hkept : OrderedMap.classed name (f.get i).attributes = (f.get i).attributes := if_pos hhas
    exact (modify_eq_self (by rw [Element.mapAttributes, hkept])).symm
  · have hadded : OrderedMap.classed name (f.get i).attributes = _ := if_neg hhas
    exact modify_congr (by rw [Element.mapAttributes, hadded]; rfl)

theorem removeClass_eq (i : Nat) (name : String) :
    f.removeClass i name = f.modify i (Element.mapAttributes (OrderedMap.unclassed name)) := by
  rw [removeClass]
  split_ifs with hhas
  · have hleft : OrderedMap.unclassed name (f.get i).attributes = _ := if_pos hhas
    exact modify_congr (by rw [Element.mapAttributes, hleft]; rfl)
  · have hkept : OrderedMap.unclassed name (f.get i).attributes = (f.get i).attributes :=
      if_neg hhas
    exact (modify_eq_self (by rw [Element.mapAttributes, hkept])).symm

theorem setStyleProperty_eq (i : Nat) (property value : String) :
    f.setStyleProperty i property value =
      f.modify i (Element.mapAttributes (OrderedMap.restyled property value)) := by
  rw [setStyleProperty]
  split_ifs with hempty
  · have herased : OrderedMap.restyled property value (f.get i).attributes = _ := if_pos hempty
    exact modify_congr (by rw [Element.mapAttributes, herased])
  · have hset : OrderedMap.restyled property value (f.get i).attributes = _ := if_neg hempty
    exact modify_congr (by rw [Element.mapAttributes, hset]; rfl)

theorem isHidden_eq (i : Nat) :
    f.isHidden i = (OrderedMap.contains "hidden" (f.get i).attributes ||
      InlineStyle.hides (f.get i).attributes.styleText) := rfl

end Forest

end PageTree
