import PageTree.Markup.Control
import PageTree.Markup.InlineStyle
import PageTree.Proofs.Markup.Table
import PageTree.Proofs.OrderedMap

/-!
# Tables that change

A page in use changes classes, styles, form values and texts, adds elements and takes elements out.
Through all of that an element keeps its tag, every attribute that does not style it, and its
parent for as long as it has one. So an element that is still in the document stands where it stood
when the page was loaded.

## Main definitions

* `Forest.Grown`: what a changed table has in common with the table that it came from

## Main results

* `Forest.Grown.setText`, `Forest.Grown.append`, `Forest.Grown.detach`: changes keep it
* `Forest.Grown.lineage`: the elements around an element that is still in the document
-/

namespace PageTree

namespace Forest

variable {f g : Forest}

/-! ## Taking elements out -/

/-- The element outside any other. -/
def orphan (e : Element) : Element := { e with parent := none }

/-- The table without what is directly inside an element, but for the content of that. -/
def orphaned (f : Forest) (children : List Nat) : Forest :=
  children.foldl (fun g child => g.modify child orphan) f

theorem get_orphaned (children : List Nat) (i : Nat) :
    (f.orphaned children).get i = if i ∈ children then orphan (f.get i) else f.get i := by
  induction children generalizing f with
  | nil => rfl
  | cons child children ih =>
    rw [orphaned, List.foldl_cons, ← orphaned, ih, get_modify]
    by_cases hchild : i = child
    · subst hchild
      by_cases hi : i < f.size
      · simp [hi, orphan]
      · have hnone : orphan (f.get i) = f.get i := by
          rw [get_of_size_le (Nat.not_lt.1 hi)]
          rfl
        simp [hi, hnone]
    · simp [hchild]

theorem size_orphaned (children : List Nat) : (f.orphaned children).size = f.size := by
  induction children generalizing f with
  | nil => rfl
  | cons child children ih => rw [orphaned, List.foldl_cons, ← orphaned, ih, size_modify]

/-- The content that a text makes. -/
def textContents (text : String) : List Content :=
  if text.isEmpty then [] else [.text text]

theorem setText_eq (i : Nat) (text : String) :
    f.setText i text =
      (f.orphaned (f.children i)).modify i fun e => { e with content := textContents text } :=
  rfl

@[simp] theorem size_setText (i : Nat) (text : String) : (f.setText i text).size = f.size := by
  rw [setText_eq, size_modify, size_orphaned]

theorem get_setText (i j : Nat) (text : String) :
    (f.setText i text).get j =
      { f.get j with
        parent := if j ∈ f.children i then none else (f.get j).parent
        content := if j = i ∧ i < f.size then textContents text else (f.get j).content } := by
  rw [setText_eq, get_modify, size_orphaned, get_orphaned]
  split_ifs <;> rfl

theorem elementsOf_textContents (text : String) : elementsOf (textContents text) = [] := by
  rw [textContents]
  split_ifs <;> rfl

/-- The text of an element that holds nothing but a text. -/
theorem textContent_of_content {i : Nat} {text : String} (hi : i < f.size)
    (h : (f.get i).content = textContents text) : f.textContent i = text := by
  obtain ⟨depth, hdepth⟩ := Nat.exists_eq_add_of_lt hi
  rw [textContent, hdepth, textFrom, h, textContents]
  split_ifs with hempty
  · rw [List.flatMap_nil]
    exact (String.isEmpty_iff.1 hempty).symm
  · rw [List.flatMap_singleton, String.ofList_toList]

theorem children_setText (i j : Nat) (text : String) :
    (f.setText i text).children j = if j = i then [] else f.children j := by
  rw [children_eq, get_setText]
  dsimp only
  by_cases hj : j = i
  · subst hj
    rw [if_pos rfl]
    by_cases hi : j < f.size
    · rw [if_pos ⟨rfl, hi⟩, elementsOf_textContents]
    · rw [if_neg fun h => hi h.2]
      exact children_of_size_le (Nat.not_lt.1 hi)
  · rw [if_neg hj, if_neg fun h => hj h.1, children_eq]

theorem WellFormed.setText (hf : WellFormed f) (i : Nat) (text : String) :
    WellFormed (f.setText i text) where
  size_pos := by simpa using hf.size_pos
  root := by
    rw [get_setText]
    dsimp only
    split_ifs
    · rfl
    · exact hf.root
  parent_lt := by
    intro j p hp
    rw [get_setText] at hp
    dsimp only at hp
    split_ifs at hp
    exact hf.parent_lt hp
  parent_iff := by
    intro j p
    rw [get_setText, children_setText]
    dsimp only
    by_cases hp : p = i
    · subst hp
      by_cases hj : j ∈ f.children p
      · simp [hj]
      · simp [hj, hf.parent_iff]
    · rw [if_neg hp]
      by_cases hj : j ∈ f.children i
      · have hother : j ∉ f.children p := fun hmem =>
          hp (Option.some.inj ((hf.parent_iff.2 hmem).symm.trans (hf.parent_iff.2 hj)))
        simp [hj, hother]
      · rw [if_neg hj]
        exact hf.parent_iff
  nodup p := by
    rw [children_setText]
    split_ifs
    · exact List.nodup_nil
    · exact hf.nodup p

/-! ## Detaching -/

theorem detach_of_no_parent {i : Nat} (h : (f.get i).parent = none) : f.detach i = f := by
  rw [detach, h]

theorem get_detach (hf : WellFormed f) {i parent : Nat} (h : (f.get i).parent = some parent)
    (j : Nat) : (f.detach i).get j =
      { f.get j with
        parent := if j = i then none else (f.get j).parent
        content := if j = parent then (f.get j).content.filter (· != .element i)
          else (f.get j).content } := by
  have hi := WellFormed.lt_size_of_parent h
  have hlt := hf.parent_lt h
  rw [detach, h]
  dsimp only
  rw [get_modify, size_modify, get_modify]
  by_cases hj : j = i
  · subst hj
    simp [hi, show j ≠ parent by omega]
  · by_cases hp : j = parent
    · subst hp
      simp [hj, show j < f.size by omega]
    · simp [hj, hp]

@[simp] theorem size_detach (i : Nat) : (f.detach i).size = f.size := by
  rw [detach]
  split
  · rfl
  · rw [size_modify, size_modify]

theorem children_detach (hf : WellFormed f) {i parent : Nat} (h : (f.get i).parent = some parent)
    (j : Nat) : (f.detach i).children j = (f.children j).filter (· != i) := by
  rw [children_eq, get_detach hf h]
  dsimp only
  by_cases hj : j = parent
  · rw [if_pos hj, elementsOf_filter, children_eq]
  · have hnot : i ∉ f.children j := fun hmem =>
      hj (Option.some.inj ((hf.parent_iff.2 hmem).symm.trans h))
    have hsame : (f.children j).filter (· != i) = f.children j :=
      List.filter_eq_self.2 fun child hchild =>
        bne_iff_ne.2 fun heq => hnot (heq ▸ hchild)
    rw [if_neg hj, hsame, children_eq]

theorem WellFormed.detach (hf : WellFormed f) (i : Nat) : WellFormed (f.detach i) := by
  cases h : (f.get i).parent with
  | none => exact (detach_of_no_parent h).symm ▸ hf
  | some parent =>
    refine ⟨by simpa using hf.size_pos, ?_, fun {j p} hp => ?_, fun {j p} => ?_, fun p => ?_⟩
    · rw [get_detach hf h]
      dsimp only
      split_ifs
      · rfl
      · exact hf.root
    · rw [get_detach hf h] at hp
      dsimp only at hp
      split_ifs at hp
      exact hf.parent_lt hp
    · rw [get_detach hf h, children_detach hf h, List.mem_filter]
      by_cases hj : j = i
      · simp [hj]
      · simp [hj, hf.parent_iff]
    · rw [children_detach hf h]
      exact (hf.nodup p).filter _

theorem attributes_append {parent : Nat} (h : parent < f.size) (tag : String)
    (attributes : OrderedMap String) (i : Nat) :
    ((f.append parent tag attributes).get i).attributes =
      if i = f.size then attributes else (f.get i).attributes := by
  by_cases hnew : i = f.size
  · rw [if_pos hnew, hnew, get_append_new h]
  · rw [if_neg hnew]
    by_cases hi : i = parent
    · rw [hi, get_append_parent h]
    · rw [get_append_of_ne hi hnew]

theorem size_addClass (f : Forest) (i : Nat) (name : String) :
    (f.addClass i name).size = f.size := by
  rw [addClass]
  split_ifs
  · rfl
  · exact size_modify _ _

theorem size_removeClass (f : Forest) (i : Nat) (name : String) :
    (f.removeClass i name).size = f.size := by
  rw [removeClass]
  split_ifs
  · exact size_modify _ _
  · rfl

theorem parent_addClass (f : Forest) (i j : Nat) (name : String) :
    ((f.addClass i name).get j).parent = (f.get j).parent := by
  rw [addClass]
  split_ifs
  · rfl
  · rw [setAttribute, get_modify]
    split_ifs <;> rfl

theorem parent_removeClass (f : Forest) (i j : Nat) (name : String) :
    ((f.removeClass i name).get j).parent = (f.get j).parent := by
  rw [removeClass]
  split_ifs
  · rw [setAttribute, get_modify]
    split_ifs <;> rfl
  · rfl

theorem parent_detach (hf : WellFormed f) (i j : Nat) :
    ((f.detach i).get j).parent = if j = i then none else (f.get j).parent := by
  cases h : (f.get i).parent with
  | none =>
    rw [detach_of_no_parent h]
    split_ifs with hj
    · rw [hj, h]
    · rfl
  | some parent => rw [get_detach hf h]

/-! ## What lasts -/

/-- The attributes that a page in use changes. -/
def restyled : List String := ["class", "style", "hidden"]

/-- What a changed table has in common with the table that it came from: the elements that were
there keep their tags, all attributes but those that style them, and their parents for as long as
they have one; elements that were added have no other attributes. -/
structure Grown (f g : Forest) : Prop where
  wellFormed : g.WellFormed
  size : f.size ≤ g.size
  tag : ∀ i, i < f.size → (g.get i).tag = (f.get i).tag
  lasting : ∀ i name, name ∉ restyled → g.attribute? i name = f.attribute? i name
  parent : ∀ i p, i < f.size → (g.get i).parent = some p → (f.get i).parent = some p

namespace Grown

theorem refl (hf : WellFormed f) : Grown f f where
  wellFormed := hf
  size := Nat.le_refl _
  tag _ _ := rfl
  lasting _ _ _ := rfl
  parent _ _ _ h := h

/-- A table with the same links, tags and lasting attributes has as much in common. -/
theorem of_same {g' : Forest} (h : Grown f g) (hsize : g'.size = g.size)
    (hrow : ∀ i, (g'.get i).parent = (g.get i).parent ∧ (g'.get i).content = (g.get i).content ∧
      (g'.get i).tag = (g.get i).tag)
    (hlasting : ∀ i name, name ∉ restyled → g'.attribute? i name = g.attribute? i name) :
    Grown f g' where
  wellFormed := h.wellFormed.of_same_links (hsize ▸ h.wellFormed.size_pos) (fun i => (hrow i).1)
    fun i => by rw [children_eq, children_eq, (hrow i).2.1]
  size := hsize ▸ h.size
  tag i hi := (hrow i).2.2.trans (h.tag i hi)
  lasting i name hname := (hlasting i name hname).trans (h.lasting i name hname)
  parent i p hi hp := h.parent i p hi ((hrow i).1 ▸ hp)

theorem setAttribute (h : Grown f g) (i : Nat) {name : String} (hname : name ∈ restyled)
    (value : String) : Grown f (g.setAttribute i name value) := by
  refine h.of_same (size_modify ..) (fun j => ?_) fun j other hother => ?_
  · rw [Forest.setAttribute, get_modify]
    split_ifs <;> exact ⟨rfl, rfl, rfl⟩
  · have hne : other ≠ name := fun heq => hother (heq ▸ hname)
    rw [attribute?, Forest.setAttribute, get_modify]
    split_ifs
    · dsimp only
      rw [OrderedMap.lookup_set, if_neg hne, attribute?]
    · rfl

theorem removeAttribute (h : Grown f g) (i : Nat) {name : String} (hname : name ∈ restyled) :
    Grown f (g.removeAttribute i name) := by
  refine h.of_same (size_modify ..) (fun j => ?_) fun j other hother => ?_
  · rw [Forest.removeAttribute, get_modify]
    split_ifs <;> exact ⟨rfl, rfl, rfl⟩
  · have hne : other ≠ name := fun heq => hother (heq ▸ hname)
    rw [attribute?, Forest.removeAttribute, get_modify]
    split_ifs
    · dsimp only
      rw [OrderedMap.lookup_erase, if_neg hne, attribute?]
    · rfl

theorem setStyleProperty (h : Grown f g) (i : Nat) (property value : String) :
    Grown f (g.setStyleProperty i property value) := by
  rw [Forest.setStyleProperty]
  split_ifs
  · exact h.removeAttribute i (by decide)
  · exact h.setAttribute i (by decide) _

theorem addClass (h : Grown f g) (i : Nat) (name : String) : Grown f (g.addClass i name) := by
  rw [Forest.addClass]
  split_ifs
  · exact h
  · exact h.setAttribute i (by decide) _

theorem removeClass (h : Grown f g) (i : Nat) (name : String) :
    Grown f (g.removeClass i name) := by
  rw [Forest.removeClass]
  split_ifs
  · exact h.setAttribute i (by decide) _
  · exact h

theorem setValue (h : Grown f g) (i : Nat) (value : String) : Grown f (g.setValue i value) := by
  refine h.of_same (size_modify ..) (fun j => ?_) fun j other _ => ?_
  · rw [Forest.setValue, get_modify]
    split_ifs <;> exact ⟨rfl, rfl, rfl⟩
  · rw [attribute?, Forest.setValue, get_modify]
    split_ifs <;> rfl

theorem setText (h : Grown f g) (i : Nat) (text : String) : Grown f (g.setText i text) where
  wellFormed := h.wellFormed.setText i text
  size := (size_setText i text).symm ▸ h.size
  tag j hj := by
    rw [get_setText]
    exact h.tag j hj
  lasting j name hname := by
    rw [attribute?, get_setText]
    exact h.lasting j name hname
  parent j p hj hp := by
    rw [get_setText] at hp
    dsimp only at hp
    split_ifs at hp
    exact h.parent j p hj hp

theorem detach (h : Grown f g) (i : Nat) : Grown f (g.detach i) := by
  cases hparent : (g.get i).parent with
  | none => exact (detach_of_no_parent hparent).symm ▸ h
  | some parent =>
    refine ⟨h.wellFormed.detach i, (size_detach i).symm ▸ h.size, fun j hj => ?_,
      fun j name hname => ?_, fun j p hj hp => ?_⟩
    · rw [get_detach h.wellFormed hparent]
      exact h.tag j hj
    · rw [attribute?, get_detach h.wellFormed hparent]
      exact h.lasting j name hname
    · rw [get_detach h.wellFormed hparent] at hp
      dsimp only at hp
      split_ifs at hp
      exact h.parent j p hj hp

theorem append (h : Grown f g) {parent : Nat} (hparent : parent < g.size) (tag : String)
    {attributes : OrderedMap String}
    (hattributes : ∀ name, name ∉ restyled → attributes.lookup name = none) :
    Grown f (g.append parent tag attributes) where
  wellFormed := h.wellFormed.append hparent tag attributes
  size := by
    rw [size_append]
    exact Nat.le_succ_of_le h.size
  tag i hi := by
    have hold := h.size
    by_cases hp : i = parent
    · rw [hp, get_append_parent hparent, ← hp]
      exact h.tag i hi
    · rw [get_append_of_ne hp (by omega)]
      exact h.tag i hi
  lasting i name hname := by
    rw [attribute?, attributes_append hparent]
    split_ifs with hnew
    · rw [hattributes name hname, attribute?, hnew, get_of_size_le h.size]
      rfl
    · exact h.lasting i name hname
  parent i p hi hp := by
    have hold := h.size
    rw [parent_append hparent, if_neg (by omega)] at hp
    exact h.parent i p hi hp

/-! ## Where elements stand -/

/-- What holds of the document, and of an element when it holds of its parent, holds of the old
elements that are still in the document: their parents are the ones that they had. -/
theorem induction_attached (h : Grown f g) {motive : Nat → Prop} (hroot : motive rootIndex)
    (hparent : ∀ i p, (g.get i).parent = some p → (f.get i).parent = some p → motive p → motive i)
    {i : Nat} (hi : i < f.size) (hattached : g.isAttached i = true) : motive i := by
  induction i using Nat.strongRecOn with
  | _ i ih =>
    by_cases hdocument : i = rootIndex
    · rw [hdocument]
      exact hroot
    · cases hlink : (g.get i).parent with
      | none =>
        rw [isAttached_of_no_parent h.wellFormed hlink hdocument] at hattached
        cases hattached
      | some p =>
        have hlt := h.wellFormed.parent_lt hlink
        rw [isAttached_of_parent h.wellFormed hlink] at hattached
        exact hparent i p hlink (h.parent i p hi hlink) (ih p hlt (by omega) hattached)

/-- **An element that is still in the document stands where it stood.** -/
theorem lineage (hf : WellFormed f) (h : Grown f g) {i : Nat} (hi : i < f.size)
    (hattached : g.isAttached i = true) : g.lineage i = f.lineage i := by
  refine h.induction_attached (motive := fun i => g.lineage i = f.lineage i) ?_ ?_ hi hattached
  · rw [lineage_root h.wellFormed, lineage_root hf]
  · intro i p hlink hold ih
    rw [lineage_of_parent h.wellFormed hlink, lineage_of_parent hf hold, ih]

/-- An element that is in the document was in it from the start. -/
theorem isAttached (hf : WellFormed f) (h : Grown f g) {i : Nat} (hi : i < f.size)
    (hattached : g.isAttached i = true) : f.isAttached i = true := by
  refine h.induction_attached (motive := fun i => f.isAttached i = true) ?_ ?_ hi hattached
  · exact isAttached_root hf
  · intro i p _ hold ih
    rw [isAttached_of_parent hf hold, ih]

end Grown

end Forest

end PageTree
