import Mathlib.Data.List.Nodup
import Mathlib.Tactic.Common
import PageTree.Markup.Forest

/-!
# The table of elements

What each operation on the table of a page does to its size and to its elements, one by one. An
index outside of the table names the default element, and changing it changes nothing.

## Main results

* `Forest.get_modify`, `Forest.get_append_new`: an element after a change of the table
* `Forest.WellFormed`: parents and contents agree, and a parent stands before what is in it
* `Forest.lineage_of_parent`: the elements around an element
-/

namespace PageTree

namespace Forest

variable {f : Forest}

@[ext] theorem ext_get {f g : Forest} (hsize : f.size = g.size)
    (hget : ∀ i < f.size, f.get i = g.get i) : f = g := by
  obtain ⟨a⟩ := f
  obtain ⟨b⟩ := g
  congr 1
  refine Array.ext hsize fun i hi hj => ?_
  have := hget i hi
  simpa [get, size, hi, hj] using this

theorem get_of_size_le {i : Nat} (h : f.size ≤ i) : f.get i = default := by
  simp [get, Array.getElem?_eq_none h]

@[simp] theorem size_modify (i : Nat) (change : Element → Element) :
    (f.modify i change).size = f.size := by
  simp [modify, size]

theorem get_modify_of_ne {i j : Nat} (h : j ≠ i) (change : Element → Element) :
    (f.modify i change).get j = f.get j := by
  simp [modify, get, Array.getElem?_modify, Ne.symm h]

theorem get_modify_self {i : Nat} (h : i < f.size) (change : Element → Element) :
    (f.modify i change).get i = change (f.get i) := by
  have hsize : i < f.elements.size := h
  simp [modify, get, Array.getElem_modify, hsize]

theorem modify_of_size_le {i : Nat} (h : f.size ≤ i) (change : Element → Element) :
    f.modify i change = f := by
  refine ext_get (size_modify i change) fun j hj => ?_
  rw [size_modify] at hj
  exact get_modify_of_ne (by omega) change

/-- An element of a changed table: the changed one, or one as it was. -/
theorem get_modify (i j : Nat) (change : Element → Element) :
    (f.modify i change).get j = if j = i ∧ i < f.size then change (f.get j) else f.get j := by
  split_ifs with h
  · obtain ⟨rfl, hlt⟩ := h
    exact get_modify_self hlt change
  · by_cases hj : j = i
    · rw [modify_of_size_le (by omega)]
    · exact get_modify_of_ne hj change

/-! ## Adding to the table -/

@[simp] theorem size_addContent (i : Nat) (piece : Content) :
    (f.addContent i piece).size = f.size :=
  size_modify i _

theorem get_addContent_self {i : Nat} (h : i < f.size) (piece : Content) :
    (f.addContent i piece).get i = { f.get i with content := (f.get i).content ++ [piece] } :=
  get_modify_self h _

theorem get_addContent_of_ne {i j : Nat} (h : j ≠ i) (piece : Content) :
    (f.addContent i piece).get j = f.get j :=
  get_modify_of_ne h _

theorem get_push {e : Element} (i : Nat) :
    Forest.get ⟨f.elements.push e⟩ i = if i = f.size then e else f.get i := by
  simp only [get, size, Array.getD_eq_getD_getElem?, Array.getElem?_push]
  split_ifs <;> rfl

@[simp] theorem size_append (parent : Nat) (tag : String) (attributes : OrderedMap String) :
    (f.append parent tag attributes).size = f.size + 1 := by
  simp [append, size, addContent, modify]

theorem get_append_new {parent : Nat} (h : parent < f.size) (tag : String)
    (attributes : OrderedMap String) :
    (f.append parent tag attributes).get f.size = { tag, attributes, parent := some parent } := by
  rw [append, get_addContent_of_ne (by omega), get_push, if_pos rfl]

theorem get_append_parent {parent : Nat} (h : parent < f.size) (tag : String)
    (attributes : OrderedMap String) :
    (f.append parent tag attributes).get parent =
      { f.get parent with content := (f.get parent).content ++ [.element f.size] } := by
  have hsize : parent < Forest.size ⟨f.elements.push { tag, attributes, parent := some parent }⟩ := by
    simp only [size, Array.size_push] at h ⊢
    omega
  rw [append, get_addContent_self hsize, get_push, if_neg (by omega)]

theorem get_append_of_ne {parent i : Nat} (hparent : i ≠ parent) (hnew : i ≠ f.size) (tag : String)
    (attributes : OrderedMap String) :
    (f.append parent tag attributes).get i = f.get i := by
  rw [append, get_addContent_of_ne hparent, get_push, if_neg hnew]

/-! ## Well-formed tables -/

theorem parent_of_size_le {i : Nat} (h : f.size ≤ i) : (f.get i).parent = none := by
  rw [get_of_size_le h]
  rfl

theorem children_of_size_le {i : Nat} (h : f.size ≤ i) : f.children i = [] := by
  rw [children, get_of_size_le h]
  rfl

/-- The elements among pieces of content. -/
def elementsOf (content : List Content) : List Nat :=
  content.filterMap fun
    | .element child => some child
    | .text _ => none

theorem children_eq (i : Nat) : f.children i = elementsOf (f.get i).content := rfl

theorem mem_elementsOf {i : Nat} {content : List Content} :
    i ∈ elementsOf content ↔ .element i ∈ content := by
  rw [elementsOf, List.mem_filterMap]
  constructor
  · rintro ⟨piece, hmem, hpiece⟩
    cases piece with
    | element child =>
      obtain rfl := Option.some.inj hpiece
      exact hmem
    | text content => cases hpiece
  · exact fun hmem => ⟨_, hmem, rfl⟩

theorem elementsOf_append (a b : List Content) :
    elementsOf (a ++ b) = elementsOf a ++ elementsOf b :=
  List.filterMap_append

theorem elementsOf_filter (i : Nat) (content : List Content) :
    elementsOf (content.filter (· != .element i)) = (elementsOf content).filter (· != i) := by
  induction content with
  | nil => rfl
  | cons piece content ih =>
    cases piece with
    | text more =>
      rw [List.filter_cons_of_pos rfl]
      exact ih
    | element child =>
      have hcons (rest : List Content) :
          elementsOf (.element child :: rest) = child :: elementsOf rest := rfl
      by_cases hchild : child = i
      · rw [List.filter_cons_of_neg (by simp [hchild]), hcons,
          List.filter_cons_of_neg (by simp [hchild]), ih]
      · rw [List.filter_cons_of_pos (by simp [hchild]), hcons, hcons,
          List.filter_cons_of_pos (by simp [hchild]), ih]

theorem mem_children {i p : Nat} : i ∈ f.children p ↔ .element i ∈ (f.get p).content :=
  mem_elementsOf

/-- Parents and contents agree: what has a parent stands in its content, once, and behind it in the
table. Only ancestors are claimed to end at the document; elements that were taken out have no
parent and keep what is in them. -/
structure WellFormed (f : Forest) : Prop where
  size_pos : 0 < f.size
  root : (f.get rootIndex).parent = none
  parent_lt : ∀ {i p : Nat}, (f.get i).parent = some p → p < i
  parent_iff : ∀ {i p : Nat}, (f.get i).parent = some p ↔ i ∈ f.children p
  nodup : ∀ p, (f.children p).Nodup

namespace WellFormed

theorem lt_size_of_parent {i p : Nat} (h : (f.get i).parent = some p) : i < f.size := by
  by_contra hle
  rw [parent_of_size_le (Nat.not_lt.1 hle)] at h
  cases h

theorem lt_of_mem_children (hf : WellFormed f) {i p : Nat} (h : i ∈ f.children p) : p < i :=
  hf.parent_lt (hf.parent_iff.2 h)

theorem lt_size_of_mem_children (hf : WellFormed f) {i p : Nat} (h : i ∈ f.children p) :
    i < f.size :=
  lt_size_of_parent (hf.parent_iff.2 h)

/-- A change that leaves the parent and the elements inside alone keeps a table well formed. -/
theorem of_same_links {g : Forest} (hf : WellFormed f) (hsize : 0 < g.size)
    (hparent : ∀ i, (g.get i).parent = (f.get i).parent)
    (hchildren : ∀ i, g.children i = f.children i) : WellFormed g where
  size_pos := hsize
  root := (hparent rootIndex).trans hf.root
  parent_lt h := hf.parent_lt ((hparent _).symm.trans h)
  parent_iff := by
    intro i p
    rw [hparent, hchildren]
    exact hf.parent_iff
  nodup p := (hchildren p).symm ▸ hf.nodup p

end WellFormed

theorem children_addContent_text (i j : Nat) (content : String) :
    (f.addContent i (.text content)).children j = f.children j := by
  rw [children, children, addContent, get_modify]
  split_ifs with h
  · simp
  · rfl

theorem WellFormed.addText (hf : WellFormed f) (i : Nat) (content : String) :
    WellFormed (f.addContent i (.text content)) := by
  refine hf.of_same_links (by simpa using hf.size_pos) (fun j => ?_) fun j =>
    children_addContent_text i j content
  rw [addContent, get_modify]
  split_ifs <;> rfl

theorem children_append {parent : Nat} (h : parent < f.size) (tag : String)
    (attributes : OrderedMap String) (j : Nat) :
    (f.append parent tag attributes).children j =
      if j = parent then f.children j ++ [f.size] else f.children j := by
  by_cases hj : j = parent
  · subst hj
    simp [children, get_append_parent h]
  · rw [if_neg hj]
    by_cases hnew : j = f.size
    · rw [hnew, children_of_size_le (Nat.le_refl _)]
      simp [children, get_append_new h]
    · simp [children, get_append_of_ne hj hnew]

theorem parent_append {parent : Nat} (h : parent < f.size) (tag : String)
    (attributes : OrderedMap String) (i : Nat) :
    ((f.append parent tag attributes).get i).parent =
      if i = f.size then some parent else (f.get i).parent := by
  by_cases hnew : i = f.size
  · rw [if_pos hnew, hnew, get_append_new h]
  · rw [if_neg hnew]
    by_cases hi : i = parent
    · rw [hi, get_append_parent h]
    · rw [get_append_of_ne hi hnew]

theorem WellFormed.append (hf : WellFormed f) {parent : Nat} (h : parent < f.size) (tag : String)
    (attributes : OrderedMap String) : WellFormed (f.append parent tag attributes) where
  size_pos := by simp
  root := by rw [parent_append h, if_neg (by have := hf.size_pos; simp [rootIndex]; omega), hf.root]
  parent_lt := by
    intro i p hp
    rw [parent_append h] at hp
    split_ifs at hp with hi
    · obtain rfl := Option.some.inj hp
      omega
    · exact hf.parent_lt hp
  parent_iff := by
    intro i p
    rw [parent_append h, children_append h]
    by_cases hi : i = f.size
    · have hnot : i ∉ f.children p := fun hmem => by
        have := hf.lt_size_of_mem_children hmem
        omega
      by_cases hp : p = parent
      · simp [hi, hp]
      · simp [hi, hp, Ne.symm hp, hi ▸ hnot]
    · by_cases hp : p = parent
      · simp [hi, hp, hf.parent_iff]
      · simp [hi, hp, hf.parent_iff]
  nodup p := by
    rw [children_append h]
    split_ifs with hp
    · refine List.nodup_append.2 ⟨hf.nodup p, List.nodup_singleton _, ?_⟩
      rintro a ha b hb rfl
      have := hf.lt_size_of_mem_children ha
      simp at hb
      omega
    · exact hf.nodup p

/-! ## Lines of descent -/

/-- The fuel of a line of descent does not matter once it exceeds the index. -/
theorem lineageFrom_eq (hf : WellFormed f) {i : Nat} : ∀ {a b : Nat}, i < a → i < b →
    f.lineageFrom a i = f.lineageFrom b i := by
  induction i using Nat.strongRecOn with
  | _ i ih =>
    intro a b ha hb
    obtain ⟨a, rfl⟩ := Nat.exists_eq_add_of_lt ha
    obtain ⟨b, rfl⟩ := Nat.exists_eq_add_of_lt hb
    rw [lineageFrom, lineageFrom]
    cases hp : (f.get i).parent with
    | none => rfl
    | some p =>
      have hlt := hf.parent_lt hp
      exact congrArg (i :: ·) (ih p hlt (by omega) (by omega))

/-- An element and those around it, from the inside out, up to one without a parent. -/
def line (f : Forest) (i : Nat) : List Nat := f.lineageFrom f.size i

theorem line_of_parent (hf : WellFormed f) {i p : Nat} (h : (f.get i).parent = some p) :
    f.line i = i :: f.line p := by
  have hi := WellFormed.lt_size_of_parent h
  have hp := hf.parent_lt h
  obtain ⟨n, hn⟩ := Nat.exists_eq_add_of_lt hi
  rw [line, hn, lineageFrom, h]
  exact congrArg (i :: ·) (lineageFrom_eq hf (by omega) (by omega))

theorem line_of_no_parent (hf : WellFormed f) {i : Nat} (h : (f.get i).parent = none) :
    f.line i = [i] := by
  obtain ⟨n, hn⟩ := Nat.exists_eq_add_of_lt hf.size_pos
  rw [line, hn, lineageFrom, h]

theorem self_mem_line (hf : WellFormed f) (i : Nat) : i ∈ f.line i := by
  obtain ⟨n, hn⟩ := Nat.exists_eq_add_of_lt hf.size_pos
  rw [line, hn, lineageFrom]
  exact List.mem_cons_self ..

theorem lineage_eq (i : Nat) : f.lineage i = (f.line i).filter (· != rootIndex) := rfl

theorem isAttached_iff {i : Nat} : f.isAttached i = true ↔ rootIndex ∈ f.line i := by
  rw [isAttached, List.contains_iff_mem, line]

theorem isAttached_of_parent (hf : WellFormed f) {i p : Nat} (h : (f.get i).parent = some p) :
    f.isAttached i = f.isAttached p := by
  have hi : i ≠ rootIndex := by
    rintro rfl
    simp [hf.root] at h
  rw [Bool.eq_iff_iff, isAttached_iff, isAttached_iff, line_of_parent hf h, List.mem_cons]
  exact ⟨fun hmem => hmem.resolve_left (Ne.symm hi), Or.inr⟩

theorem isAttached_root (hf : WellFormed f) : f.isAttached rootIndex = true := by
  rw [isAttached_iff, line_of_no_parent hf hf.root]
  exact List.mem_singleton_self _

theorem isAttached_of_no_parent (hf : WellFormed f) {i : Nat} (h : (f.get i).parent = none)
    (hi : i ≠ rootIndex) : f.isAttached i = false := by
  rw [← Bool.not_eq_true, isAttached_iff, line_of_no_parent hf h, List.mem_singleton]
  exact Ne.symm hi

/-- Around an element in the document stand the element itself and those around its parent. -/
theorem lineage_of_parent (hf : WellFormed f) {i p : Nat} (h : (f.get i).parent = some p) :
    f.lineage i = i :: f.lineage p := by
  have hi : i ≠ rootIndex := by
    rintro rfl
    simp [hf.root] at h
  rw [lineage_eq, lineage_eq, line_of_parent hf h, List.filter_cons_of_pos (by simpa using hi)]

theorem lineage_root (hf : WellFormed f) : f.lineage rootIndex = [] := by
  rw [lineage_eq, line_of_no_parent hf hf.root]
  rfl

end Forest

end PageTree
