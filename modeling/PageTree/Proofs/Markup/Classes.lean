import PageTree.Proofs.Markup.Likeness

/-!
# Classes of elements

The class attribute of an element is a text, and the classes are its words. Adding a class adds the
words of its name, of which there is more than one if the name has white space in it. Removing a
class removes the word that is the name, and there is none if the name has white space in it. All
other changes of the table leave the classes as they are.

## Main results

* `Forest.mem_classes_addClass`, `Forest.classes_removeClass`
* `Forest.classes_setStyleProperty`, `Forest.classes_setText`, `Forest.classes_detach`
* `words_eq_singleton`: a name without white space is a word
-/

namespace PageTree

/-- The text has white space in it. -/
def hasBlank (text : String) : Bool := text.toList.any Text.isBlank

/-- A text that is not empty and has no white space in it is its one word. -/
theorem words_eq_singleton {text : String} (hne : text ≠ "") (hblank : hasBlank text = false) :
    words text = [text] := by
  have hchars : ∀ c ∈ text.toList, Text.isBlank c = false := by
    intro c hc
    rw [hasBlank, List.any_eq_false] at hblank
    exact Bool.eq_false_iff.2 (hblank c hc)
  have hlist : text.toList ≠ [] := fun h => hne (String.toList_eq_nil_iff.1 h)
  rw [words, Text.words, Text.wordsBy_eq_singleton hlist hchars, List.map_singleton,
    String.ofList_toList]

namespace OrderedMap

theorem words_unclassed (a : OrderedMap String) (name : String) :
    words (a.unclassed name).classText = (words a.classText).filter (· != name) := by
  rw [unclassed]
  split_ifs with hclass
  · rw [classText, lookup_set, if_pos rfl, Option.getD_some,
      words_intercalate fun _ => List.mem_of_mem_filter]
  · have hnone : a.classText = "" := by
      rw [classText, Option.not_isSome_iff_eq_none.1 hclass]
      rfl
    rw [hnone]
    rfl

end OrderedMap

namespace Forest

variable (f : Forest)

/-! ## Changes of the class -/

theorem classes_of_size_le {f : Forest} {i : Nat} (h : f.size ≤ i) : f.classes i = [] := by
  rw [classes, attribute?, get_of_size_le h]
  rfl

/-- A class that is added to an element of the table joins those that it has. -/
theorem mem_classes_addClass {f : Forest} {i : Nat} (hi : i < f.size) {name c : String} (j : Nat) :
    c ∈ (f.addClass i name).classes j ↔ c ∈ f.classes j ∨ j = i ∧ c ∈ words name := by
  rw [addClass_eq, classes, attribute?, get_modify]
  split_ifs with hj
  · rw [and_iff_right hj.1]
    exact OrderedMap.mem_words_classed
  · exact (or_iff_left fun h => hj ⟨h.1, hi⟩).symm

theorem mem_classes_of_mem_addClass {f : Forest} {i j : Nat} {name c : String}
    (h : c ∈ (f.addClass i name).classes j) : c ∈ f.classes j ∨ j = i ∧ c ∈ words name := by
  by_cases hi : i < f.size
  · exact (mem_classes_addClass hi j).1 h
  · rw [addClass_eq, modify_of_size_le (Nat.not_lt.1 hi)] at h
    exact .inl h

theorem mem_classes_addClass_of_mem {f : Forest} {i j : Nat} {name c : String}
    (h : c ∈ f.classes j) : c ∈ (f.addClass i name).classes j := by
  by_cases hi : i < f.size
  · exact (mem_classes_addClass hi j).2 (.inl h)
  · rwa [addClass_eq, modify_of_size_le (Nat.not_lt.1 hi)]

theorem classes_removeClass (i j : Nat) (name : String) : (f.removeClass i name).classes j =
    if j = i then (f.classes j).filter (· != name) else f.classes j := by
  rw [removeClass_eq, classes, attribute?, get_modify]
  by_cases hi : i < f.size
  · by_cases hj : j = i
    · rw [if_pos ⟨hj, hi⟩, if_pos hj]
      exact OrderedMap.words_unclassed _ name
    · rw [if_neg fun h => hj h.1, if_neg hj]
      rfl
  · rw [if_neg fun h => hi h.2]
    split_ifs with hj
    · rw [hj, classes_of_size_le (Nat.not_lt.1 hi), ← attribute?, ← classes,
        classes_of_size_le (Nat.not_lt.1 hi)]
      rfl
    · rfl

/-- Removing a class changes no other element. -/
theorem attribute?_removeClass_of_ne {i j : Nat} (h : j ≠ i) (name other : String) :
    (f.removeClass i name).attribute? j other = f.attribute? j other := by
  rw [removeClass_eq, attribute?, get_modify, if_neg fun hj => h hj.1, attribute?]

/-! ## Changes of other things -/

theorem classes_modify {i : Nat} {change : Element → Element}
    (h : ∀ e, (change e).attributes.lookup "class" = e.attributes.lookup "class") (j : Nat) :
    (f.modify i change).classes j = f.classes j := by
  rw [classes, attribute?, get_modify]
  split_ifs
  · rw [h]
    rfl
  · rfl

theorem classes_setStyleProperty (i j : Nat) (property value : String) :
    (f.setStyleProperty i property value).classes j = f.classes j := by
  rw [setStyleProperty_eq]
  exact classes_modify f (fun e => OrderedMap.lookup_restyled_of_ne (by decide)) j

theorem classes_removeAttribute {name : String} (h : name ≠ "class") (i j : Nat) :
    (f.removeAttribute i name).classes j = f.classes j := by
  refine classes_modify f (fun e => ?_) j
  rw [OrderedMap.lookup_erase, if_neg h.symm]

theorem classes_setValue (i j : Nat) (value : String) :
    (f.setValue i value).classes j = f.classes j := by
  rw [setValue]
  refine classes_modify f (fun e => ?_) j
  rfl

theorem classes_setText (i j : Nat) (text : String) :
    (f.setText i text).classes j = f.classes j := by
  rw [classes, attribute?, get_setText]
  rfl

theorem classes_detach (i j : Nat) : (f.detach i).classes j = f.classes j := by
  rw [detach]
  split
  · rfl
  · refine (classes_modify _ (fun e => ?_) j).trans (classes_modify _ (fun e => ?_) j)
    · rfl
    · rfl

theorem classes_append {f : Forest} {parent : Nat} (h : parent < f.size) (tag : String)
    (attributes : OrderedMap String) (i : Nat) : (f.append parent tag attributes).classes i =
      if i = f.size then words attributes.classText else f.classes i := by
  rw [classes, attribute?, attributes_append h]
  split_ifs <;> rfl

end Forest

end PageTree
