import PageTree.Proofs.Markup.Likeness

/-!
# A table inside a larger one

Two pages of one document have tables that differ in a few elements of one of them and in how their
elements look. A placement says where the elements of the one table stand in the other. Every change
that a page in use makes to an element here and to its counterpart there keeps the tables together.

## Main definitions

* `Placement`: where the elements of a table stand in one that has more
* `Forest.Matches`: a table and one that has its elements in their places, and plain ones beside

## Main results

* `Forest.Matches.modify`, `Forest.Matches.setText`, `Forest.Matches.append`,
  `Forest.Matches.detach`: changes keep tables together
-/

namespace PageTree

/-- Where the elements of a table stand in one that has more. Some elements form a frame: the
additional elements are directly inside of it. -/
structure Placement where
  place : Nat → Nat
  isExtra : Nat → Bool
  isFrame : Nat → Bool
  place_root : place rootIndex = rootIndex
  injective : Function.Injective place
  isExtra_place : ∀ i, isExtra (place i) = false

namespace Placement

variable (σ : Placement)

theorem ne_comp_place (i : Nat) : (· != σ.place i) ∘ σ.place = (· != i) := by
  funext j
  rw [Function.comp_apply, Bool.eq_iff_iff, bne_iff_ne, bne_iff_ne, σ.injective.ne_iff]

theorem filter_ne_map (i : Nat) (js : List Nat) :
    (js.map σ.place).filter (· != σ.place i) = (js.filter (· != i)).map σ.place := by
  rw [List.filter_map, σ.ne_comp_place]

end Placement

/-- A piece of content with its element in another place. -/
def Content.moved (place : Nat → Nat) : Content → Content
  | .element i => .element (place i)
  | .text content => .text content

namespace Forest

theorem elementsOf_moved (place : Nat → Nat) (content : List Content) :
    elementsOf (content.map (Content.moved place)) = (elementsOf content).map place := by
  induction content with
  | nil => rfl
  | cons piece content ih =>
    cases piece with
    | text more => exact ih
    | element child => exact congrArg (place child :: ·) ih

theorem moved_ne_element (σ : Placement) (i : Nat) :
    (· != Content.element (σ.place i)) ∘ Content.moved σ.place = (· != .element i) := by
  funext piece
  rw [Function.comp_apply, Bool.eq_iff_iff, bne_iff_ne, bne_iff_ne]
  cases piece with
  | text content => simp [Content.moved]
  | element child => simp [Content.moved, σ.injective.eq_iff]

theorem get_addText {f : Forest} (i j : Nat) (content : String) :
    (f.addContent i (.text content)).get j =
      { f.get j with
        content := if j = i ∧ i < f.size then (f.get j).content ++ [.text content]
          else (f.get j).content } := by
  rw [addContent, get_modify]
  split_ifs <;> rfl

theorem moved_textContents (place : Nat → Nat) (text : String) :
    (textContents text).map (Content.moved place) = textContents text := by
  rw [textContents]
  split_ifs <;> rfl

theorem links_modify {f : Forest} (i : Nat) {change : Element → Element}
    (hlinks : ∀ e, (change e).parent = e.parent ∧ (change e).content = e.content) (j : Nat) :
    ((f.modify i change).get j).parent = (f.get j).parent ∧
      ((f.modify i change).get j).content = (f.get j).content := by
  rw [get_modify]
  split_ifs
  · exact hlinks _
  · exact ⟨rfl, rfl⟩

theorem children_modify {f : Forest} (i : Nat) {change : Element → Element}
    (hlinks : ∀ e, (change e).parent = e.parent ∧ (change e).content = e.content) (j : Nat) :
    (f.modify i change).children j = f.children j := by
  rw [children_eq, (links_modify i hlinks j).2, ← children_eq]

/-- The rows of a table before a new one: what is in the parent goes on with the new element. -/
theorem get_append_of_ne_new {f : Forest} {parent i : Nat} (hparent : parent < f.size)
    (hnew : i ≠ f.size) (tag : String) (attributes : OrderedMap String) :
    (f.append parent tag attributes).get i =
      { f.get i with
        content := (f.get i).content ++ if i = parent then [.element f.size] else [] } := by
  split_ifs with hi
  · rw [hi, get_append_parent hparent]
  · rw [get_append_of_ne hi hnew, List.append_nil]

/-- The element has nothing on it that a page looks at, and nothing in it. -/
structure IsPlain (f : Forest) (i : Nat) : Prop where
  named : ∀ name ∈ "class" :: readNames, f.attribute? i name = none
  children : f.children i = []

theorem IsPlain.addText {f : Forest} {j : Nat} (h : f.IsPlain j) (i : Nat) (content : String) :
    (f.addContent i (.text content)).IsPlain j where
  named name hname := by
    rw [attribute?, get_addText]
    exact h.named name hname
  children := by
    rw [children_addContent_text]
    exact h.children

theorem IsPlain.append {f : Forest} {j parent : Nat} (h : f.IsPlain j) (hparent : parent < f.size)
    (hne : j ≠ parent) (hnew : j ≠ f.size) (tag : String) (attributes : OrderedMap String) :
    (f.append parent tag attributes).IsPlain j where
  named name hname := by
    rw [attribute?, attributes_append hparent, if_neg hnew]
    exact h.named name hname
  children := by
    rw [children_append hparent, if_neg hne]
    exact h.children

theorem isPlain_append_new {f : Forest} {parent : Nat} (hparent : parent < f.size) (tag : String)
    {attributes : OrderedMap String}
    (hplain : ∀ name ∈ "class" :: readNames, attributes.lookup name = none) :
    (f.append parent tag attributes).IsPlain f.size where
  named name hname := by
    rw [attribute?, get_append_new hparent]
    exact hplain name hname
  children := by
    rw [children_eq, get_append_new hparent]
    rfl

/-- The elements of a table stand in another in their places, inside and around one another in the
same way, and agree on what a page looks at. Between the elements of the frame there are additional
ones, all plain. New elements go behind all others in both. -/
structure Matches (σ : Placement) (f g : Forest) : Prop where
  size : ∀ n, σ.place (f.size + n) = g.size + n
  alike : ∀ i, (f.get i).Alike (g.get (σ.place i))
  parent : ∀ i, (g.get (σ.place i)).parent = (f.get i).parent.map σ.place
  children : ∀ i, (g.children (σ.place i)).filter (fun j => !σ.isExtra j) =
    (f.children i).map σ.place
  content : ∀ i, σ.isFrame i = false →
    (g.get (σ.place i)).content = (f.get i).content.map (Content.moved σ.place)
  frame : ∀ i, σ.isFrame i = true → i < f.size
  closed : ∀ i, σ.isFrame i = false → ∀ child ∈ f.children i, σ.isFrame child = false
  plain : ∀ j, σ.isExtra j = true → g.IsPlain j

namespace Matches

variable {σ : Placement} {f g : Forest}

theorem place_lt_iff (h : Matches σ f g) {i : Nat} : σ.place i < g.size ↔ i < f.size := by
  constructor
  · intro hi
    by_contra hle
    obtain ⟨n, rfl⟩ := Nat.exists_eq_add_of_le (Nat.not_lt.1 hle)
    rw [h.size] at hi
    omega
  · intro hi
    by_contra hle
    obtain ⟨n, hn⟩ := Nat.exists_eq_add_of_le (Nat.not_lt.1 hle)
    have := σ.injective (hn.trans (h.size n).symm)
    omega

theorem mem_children_iff (h : Matches σ f g) {i j : Nat} :
    σ.place j ∈ g.children (σ.place i) ↔ j ∈ f.children i := by
  have hmem : σ.place j ∈ (g.children (σ.place i)).filter (fun j => !σ.isExtra j) ↔
      σ.place j ∈ g.children (σ.place i) := by
    rw [List.mem_filter, σ.isExtra_place]
    simp
  rw [← hmem, h.children, List.mem_map_of_injective σ.injective]

theorem ne_of_isExtra {i j : Nat} (hj : σ.isExtra j = true) : j ≠ σ.place i := fun heq => by
  rw [heq, σ.isExtra_place] at hj
  cases hj

/-! ## Changing an element -/

/-- **A change of an element** that keeps what is in it keeps tables together. -/
theorem modify (h : Matches σ f g) (i : Nat) {change change' : Element → Element}
    (halike : ∀ a b, a.Alike b → (change a).Alike (change' b))
    (hlinks : ∀ e, (change e).parent = e.parent ∧ (change e).content = e.content)
    (hlinks' : ∀ e, (change' e).parent = e.parent ∧ (change' e).content = e.content) :
    Matches σ (f.modify i change) (g.modify (σ.place i) change') where
  size := by simpa using h.size
  alike j := by
    simp only [get_modify, h.place_lt_iff, σ.injective.eq_iff]
    split_ifs
    · exact halike _ _ (h.alike j)
    · exact h.alike j
  parent j := by rw [(links_modify _ hlinks' _).1, (links_modify _ hlinks _).1, h.parent]
  children j := by rw [children_modify _ hlinks', children_modify _ hlinks, h.children]
  content j hj := by rw [(links_modify _ hlinks' _).2, (links_modify _ hlinks _).2, h.content j hj]
  frame j hj := by simpa using h.frame j hj
  closed j hj := by
    rw [children_modify _ hlinks]
    exact h.closed j hj
  plain j hj := {
    named := fun name hname => by
      rw [attribute?, get_modify_of_ne (ne_of_isExtra hj)]
      exact (h.plain j hj).named name hname
    children := by
      rw [children_modify _ hlinks']
      exact (h.plain j hj).children }

theorem addClass (h : Matches σ f g) (i : Nat) (name : String) :
    Matches σ (f.addClass i name) (g.addClass (σ.place i) name) := by
  rw [addClass_eq, addClass_eq]
  exact h.modify i (fun _ _ hab => hab.mapAttributes (hab.attributes.classed name))
    (fun _ => ⟨rfl, rfl⟩) fun _ => ⟨rfl, rfl⟩

theorem removeClass (h : Matches σ f g) (i : Nat) (name : String) :
    Matches σ (f.removeClass i name) (g.removeClass (σ.place i) name) := by
  rw [removeClass_eq, removeClass_eq]
  exact h.modify i (fun _ _ hab => hab.mapAttributes (hab.attributes.unclassed name))
    (fun _ => ⟨rfl, rfl⟩) fun _ => ⟨rfl, rfl⟩

theorem setValue (h : Matches σ f g) (i : Nat) (value : String) :
    Matches σ (f.setValue i value) (g.setValue (σ.place i) value) :=
  h.modify i (fun _ _ hab => ⟨hab.tag, rfl, hab.attributes⟩) (fun _ => ⟨rfl, rfl⟩)
    fun _ => ⟨rfl, rfl⟩

theorem removeHidden (h : Matches σ f g) (i : Nat) :
    Matches σ (f.removeAttribute i "hidden") (g.removeAttribute (σ.place i) "hidden") :=
  h.modify i (fun _ _ hab => ⟨hab.tag, hab.value, hab.attributes.erase_hidden⟩)
    (fun _ => ⟨rfl, rfl⟩) fun _ => ⟨rfl, rfl⟩

theorem setDisplay (h : Matches σ f g) (i : Nat) (hidden : Bool) :
    Matches σ (f.setStyleProperty i "display" (if hidden then "none" else ""))
      (g.setStyleProperty (σ.place i) "display" (if hidden then "none" else "")) := by
  rw [setStyleProperty_eq, setStyleProperty_eq]
  refine h.modify i (fun _ _ hab => hab.mapAttributes (hab.attributes.restyled _ _ ?_))
    (fun _ => ⟨rfl, rfl⟩) fun _ => ⟨rfl, rfl⟩
  rw [InlineStyle.hides_change_display, InlineStyle.hides_change_display]

theorem setStyleProperty (h : Matches σ f g) (i : Nat) {property : String}
    (hne : "display" ≠ property) (value : String) :
    Matches σ (f.setStyleProperty i property value)
      (g.setStyleProperty (σ.place i) property value) := by
  rw [setStyleProperty_eq, setStyleProperty_eq]
  exact h.modify i (fun _ _ hab => hab.mapAttributes (hab.attributes.restyled _ _
      (InlineStyle.hides_change_congr hne value hab.attributes.hides)))
    (fun _ => ⟨rfl, rfl⟩) fun _ => ⟨rfl, rfl⟩

theorem foldl_setStyleProperty (h : Matches σ f g) (i : Nat) {ds : List (String × String)}
    (hds : ∀ d ∈ ds, "display" ≠ d.1) :
    Matches σ (ds.foldl (fun f d => f.setStyleProperty i d.1 d.2) f)
      (ds.foldl (fun g d => g.setStyleProperty (σ.place i) d.1 d.2) g) := by
  induction ds generalizing f g with
  | nil => exact h
  | cons d ds ih =>
    obtain ⟨hd, hds⟩ := List.forall_mem_cons.1 hds
    exact ih (h.setStyleProperty i hd d.2) hds

/-! ## Changing the structure -/

theorem setText (h : Matches σ f g) (i : Nat) (text : String) :
    Matches σ (f.setText i text) (g.setText (σ.place i) text) where
  size := by simpa using h.size
  alike j := by
    rw [get_setText, get_setText]
    exact ⟨(h.alike j).tag, (h.alike j).value, (h.alike j).attributes⟩
  parent j := by
    simp only [get_setText, h.mem_children_iff, h.parent]
    split_ifs <;> rfl
  children j := by
    simp only [children_setText, σ.injective.eq_iff]
    split_ifs
    · rfl
    · exact h.children j
  content j hj := by
    simp only [get_setText, h.place_lt_iff, σ.injective.eq_iff]
    split_ifs
    · exact (moved_textContents σ.place text).symm
    · exact h.content j hj
  frame j hj := by simpa using h.frame j hj
  closed j hj := by
    rw [children_setText]
    split_ifs
    · simp
    · exact h.closed j hj
  plain j hj := {
    named := fun name hname => by
      rw [attribute?, get_setText]
      exact (h.plain j hj).named name hname
    children := by
      rw [children_setText, if_neg (ne_of_isExtra hj)]
      exact (h.plain j hj).children }

/-- **A new element** keeps tables together, if its attributes agree on what a page looks at. -/
theorem append (h : Matches σ f g) {parent : Nat} (hparent : parent < f.size) (tag : String)
    {a b : OrderedMap String} (hattributes : a.Alike b) :
    Matches σ (f.append parent tag a) (g.append (σ.place parent) tag b) := by
  have hparent' := h.place_lt_iff.2 hparent
  have hnew : σ.place f.size = g.size := h.size 0
  have hnewIff (j : Nat) : σ.place j = g.size ↔ j = f.size := by
    rw [← hnew, σ.injective.eq_iff]
  have hold : σ.isFrame f.size = false := by
    by_contra hframe
    exact absurd (h.frame f.size (by simpa using hframe)) (Nat.lt_irrefl _)
  have hextra {j : Nat} (hj : σ.isExtra j = true) : j ≠ g.size := fun heq =>
    ne_of_isExtra hj (heq.trans hnew.symm)
  exact {
    size := fun n => by
      rw [size_append, size_append, Nat.add_assoc, Nat.add_comm 1 n, h.size, Nat.add_assoc,
        Nat.add_comm 1 n]
    alike := fun j => by
      by_cases hj : j = f.size
      · rw [hj, hnew, get_append_new hparent, get_append_new hparent']
        exact ⟨rfl, rfl, hattributes⟩
      · rw [get_append_of_ne_new hparent hj, get_append_of_ne_new hparent' (mt (hnewIff j).1 hj)]
        exact ⟨(h.alike j).tag, (h.alike j).value, (h.alike j).attributes⟩
    parent := fun j => by
      simp only [parent_append hparent, parent_append hparent', hnewIff, h.parent]
      split_ifs <;> rfl
    children := fun j => by
      simp only [children_append hparent, children_append hparent', σ.injective.eq_iff]
      split_ifs
      · rw [List.filter_append, h.children, List.map_append, List.map_singleton, hnew,
          List.filter_cons_of_pos (by rw [← hnew, σ.isExtra_place]; rfl), List.filter_nil]
      · exact h.children j
    content := fun j hj => by
      by_cases hj' : j = f.size
      · rw [hj', hnew, get_append_new hparent, get_append_new hparent']
        rfl
      · simp only [get_append_of_ne_new hparent hj',
          get_append_of_ne_new hparent' (mt (hnewIff j).1 hj'), σ.injective.eq_iff, h.content j hj]
        split_ifs
        · rw [List.map_append, ← hnew]
          rfl
        · rw [List.append_nil, List.append_nil]
    frame := fun j hj => Nat.lt_of_lt_of_le (h.frame j hj) (by simp)
    closed := fun j hj child hchild => by
      rw [children_append hparent] at hchild
      split_ifs at hchild with hp
      · rcases List.mem_append.1 hchild with hchild | hchild
        · exact h.closed j hj child hchild
        · rw [List.mem_singleton.1 hchild, hold]
      · exact h.closed j hj child hchild
    plain := fun j hj =>
      (h.plain j hj).append hparent' (ne_of_isExtra hj) (hextra hj) tag b }

/-- **A new text** keeps tables together. -/
theorem addText (h : Matches σ f g) (i : Nat) (content : String) :
    Matches σ (f.addContent i (.text content)) (g.addContent (σ.place i) (.text content)) where
  size := by simpa using h.size
  alike j := by
    rw [get_addText, get_addText]
    exact ⟨(h.alike j).tag, (h.alike j).value, (h.alike j).attributes⟩
  parent j := by
    rw [get_addText, get_addText]
    exact h.parent j
  children j := by
    rw [children_addContent_text, children_addContent_text]
    exact h.children j
  content j hj := by
    simp only [get_addText, h.place_lt_iff, σ.injective.eq_iff, h.content j hj]
    split_ifs
    · rw [List.map_append]
      rfl
    · rfl
  frame j hj := by simpa using h.frame j hj
  closed j hj := by
    rw [children_addContent_text]
    exact h.closed j hj
  plain j hj := (h.plain j hj).addText (σ.place i) content

/-- A text in the frame of the table need not be in the other. -/
theorem addText_left (h : Matches σ f g) {i : Nat} (hi : σ.isFrame i = true) (content : String) :
    Matches σ (f.addContent i (.text content)) g where
  size := by simpa using h.size
  alike j := by
    rw [get_addText]
    exact ⟨(h.alike j).tag, (h.alike j).value, (h.alike j).attributes⟩
  parent j := by
    rw [get_addText]
    exact h.parent j
  children j := by
    rw [children_addContent_text]
    exact h.children j
  content j hj := by
    have hne : j ≠ i := fun heq => absurd (heq ▸ hj) (by simp [hi])
    rw [get_addText, if_neg fun hji => hne hji.1]
    exact h.content j hj
  frame j hj := by simpa using h.frame j hj
  closed j hj := by
    rw [children_addContent_text]
    exact h.closed j hj
  plain := h.plain

/-- A text in the frame of the other table need not be in the table. -/
theorem addText_right (h : Matches σ f g) {i : Nat} (hi : σ.isFrame i = true) (content : String) :
    Matches σ f (g.addContent (σ.place i) (.text content)) where
  size := by simpa using h.size
  alike j := by
    rw [get_addText]
    exact ⟨(h.alike j).tag, (h.alike j).value, (h.alike j).attributes⟩
  parent j := by
    rw [get_addText]
    exact h.parent j
  children j := by
    rw [children_addContent_text]
    exact h.children j
  content j hj := by
    have hne : j ≠ i := fun heq => absurd (heq ▸ hj) (by simp [hi])
    rw [get_addText, if_neg fun hji => hne (σ.injective hji.1)]
    exact h.content j hj
  frame := h.frame
  closed := h.closed
  plain j hj := (h.plain j hj).addText (σ.place i) content

/-- **An element that is taken out** keeps tables together. -/
theorem detach (h : Matches σ f g) (hf : f.WellFormed) (hg : g.WellFormed) (i : Nat) :
    Matches σ (f.detach i) (g.detach (σ.place i)) := by
  cases hparent : (f.get i).parent with
  | none =>
    have hparent' : (g.get (σ.place i)).parent = none := by rw [h.parent, hparent]; rfl
    rw [detach_of_no_parent hparent, detach_of_no_parent hparent']
    exact h
  | some parent =>
    have hparent' : (g.get (σ.place i)).parent = some (σ.place parent) := by
      rw [h.parent, hparent]
      rfl
    exact {
      size := by simpa using h.size
      alike := fun j => by
        rw [get_detach hf hparent, get_detach hg hparent']
        exact ⟨(h.alike j).tag, (h.alike j).value, (h.alike j).attributes⟩
      parent := fun j => by
        simp only [get_detach hf hparent, get_detach hg hparent', σ.injective.eq_iff, h.parent]
        split_ifs <;> rfl
      children := fun j => by
        rw [children_detach hf hparent, children_detach hg hparent', List.filter_comm, h.children,
          σ.filter_ne_map]
      content := fun j hj => by
        simp only [get_detach hf hparent, get_detach hg hparent', σ.injective.eq_iff]
        split_ifs
        · rw [h.content j hj, List.filter_map, moved_ne_element]
        · exact h.content j hj
      frame := fun j hj => by simpa using h.frame j hj
      closed := fun j hj child hchild => by
        rw [children_detach hf hparent] at hchild
        exact h.closed j hj child (List.mem_of_mem_filter hchild)
      plain := fun j hj => {
        named := fun name hname => by
          rw [attribute?, get_detach hg hparent']
          exact (h.plain j hj).named name hname
        children := by
          rw [children_detach hg hparent', (h.plain j hj).children, List.filter_nil] } }

end Matches

end Forest

end PageTree
