import PageTree.Proofs.Markup.Likeness
import PageTree.Proofs.Session.Stages

/-!
# What a write of the state refreshes

A write of the state refreshes the page, and there is little that this can change: the text or the
value of an element that shows a value of the state, the display of one that a value shows or
hides, and what the motion on state of an element brings along. Elements that a text has replaced
lose their parent. All else that can be said of the page stays as it is, in its order.

## Main definitions

* `Session.Kept`, `Session.kept`: an element without what a refresh of the page can change
* `Session.Refreshes`: what a page has in common with the one that it came from by writes

## Main results

* `Session.Refreshes.write`: a write refreshes the page and does nothing else
-/

namespace PageTree

namespace Motion

/-- The attributes that playing a motion changes. -/
def playedAttributes : Motion → List String
  | .preset .. => ["class", "style"]
  | .keyframes .. => []

/-- The classes that playing a motion adds. -/
def playedClasses : Motion → List String
  | .preset p _ => words p.motionClass
  | .keyframes .. => []

/-- The properties that playing a motion sets, with those that its timing brings along. -/
def playedProperties : Motion → List String
  | .preset _ timing => (timingDeclarations timing).flatMap fun d =>
      d.1 :: OrderedMap.names (InlineStyle.read (d.1 ++ ":" ++ d.2))
  | .keyframes .. => []

end Motion

namespace Session

section

variable (s : Session) (i : Nat)

/-! ## What a refresh can change -/

/-- The element shows a value of the state as its text. -/
def showsText : Bool := s.forest.hasAttribute i bindAttribute && !s.forest.isControl i

/-- The element is a form control that has a value of the state. -/
def showsValue : Bool := s.forest.hasAttribute i bindAttribute && s.forest.isControl i

/-- The motion of an element, if it is one on state. -/
def stateMotion? : Option Motion := (s.motion? i).filter (·.trigger = .onState)

/-- The properties by which a value of the state shows or hides an element. -/
def displayProperties : List String :=
  if s.forest.hasAttribute i showAttribute then ["display"] else []

/-- The attributes that a refresh can change. -/
def refreshedAttributes : List String :=
  (if s.forest.hasAttribute i showAttribute then ["style"] else []) ++
    (s.stateMotion? i).toList.flatMap Motion.playedAttributes

/-- The classes that a refresh can add. -/
def refreshedClasses : List String := (s.stateMotion? i).toList.flatMap Motion.playedClasses

/-- The properties of the inline style that a refresh can set. -/
def refreshedProperties : List String :=
  s.displayProperties i ++ (s.stateMotion? i).toList.flatMap Motion.playedProperties

/-- The keyframes that playing a motion on an element records. -/
def played (motion : Motion) : List Animation :=
  ({ s with animations := [] }.move i motion).animations

end

/-- What is left of an element without what a refresh of the page can change. -/
structure Kept where
  tag : String
  /-- The attributes other than those that are refreshed. -/
  attributes : OrderedMap String
  /-- The classes other than those that are refreshed. -/
  classes : List String
  /-- The inline style but for properties that are refreshed. -/
  declarations : List (String × String)
  /-- The parent, unless a text takes the place of what is in it. -/
  parent : Option Nat
  /-- The content, unless a text takes its place. -/
  content : List Content
  /-- The value, unless that is from the state. -/
  value : Option String

/-- An element without what a refresh of the page can change. -/
def kept (s : Session) (i : Nat) (e : Element) : Kept where
  tag := e.tag
  attributes := e.attributes.without (s.refreshedAttributes i)
  classes := (words e.attributes.classText).filter fun c => !(s.refreshedClasses i).contains c
  declarations := OrderedMap.without (s.refreshedProperties i)
    (InlineStyle.read e.attributes.styleText)
  parent := e.parent.filter fun p => !s.showsText p
  content := if s.showsText i then [] else e.content
  value := if s.showsValue i then none else e.value

/-- What a page has in common with the one that it came from by writes of the state. -/
structure Refreshes (s t : Session) : Prop where
  descends : Descends s t
  size : t.forest.size = s.forest.size
  kept : ∀ i, s.kept i (t.forest.get i) = s.kept i (s.forest.get i)
  mounted : t.mounted = s.mounted
  clock : t.clock = s.clock
  schedule : t.schedule = s.schedule
  toasts : t.toasts = s.toasts
  signals : t.signals = s.signals
  animationClasses : t.animationClasses = s.animationClasses
  focused : t.focused = s.focused
  awaited : t.awaited = s.awaited
  errands : t.errands = s.errands
  /-- Only motion on state waits for its key. -/
  spent : t.spent.filter (fun i => (s.stateMotion? i).isNone) =
    s.spent.filter fun i => (s.stateMotion? i).isNone
  /-- Only motion on state was played. -/
  animations : ∃ more, t.animations = s.animations ++ more ∧
    ∀ a ∈ more, ∃ i motion, s.stateMotion? i = some motion ∧ a ∈ s.played i motion

variable {s t : Session}

/-! ## One element -/

/-- A change of one element keeps what it keeps of that. -/
theorem kept_modify {f : Forest} {i : Nat} {change : Element → Element}
    (h : ∀ e, s.kept i (change e) = s.kept i e) (j : Nat) :
    s.kept j ((f.modify i change).get j) = s.kept j (f.get j) := by
  rw [Forest.get_modify]
  split_ifs with hj
  · rw [hj.1]
    exact h _
  · rfl

/-- A change of attributes keeps what it keeps of their names, classes and declarations. -/
theorem kept_mapAttributes {i : Nat} {e : Element}
    {change : OrderedMap String → OrderedMap String}
    (hattributes : (change e.attributes).without (s.refreshedAttributes i) =
      e.attributes.without (s.refreshedAttributes i))
    (hclasses : ((words (change e.attributes).classText).filter fun c =>
        !(s.refreshedClasses i).contains c) =
      (words e.attributes.classText).filter fun c => !(s.refreshedClasses i).contains c)
    (hdeclarations : OrderedMap.without (s.refreshedProperties i)
        (InlineStyle.read (change e.attributes).styleText) =
      OrderedMap.without (s.refreshedProperties i) (InlineStyle.read e.attributes.styleText)) :
    s.kept i (e.mapAttributes change) = s.kept i e := by
  rw [Session.kept, Element.mapAttributes]
  dsimp only
  rw [hattributes, hclasses, hdeclarations]
  rfl

theorem kept_classed {i : Nat} {name : String} (hattribute : "class" ∈ s.refreshedAttributes i)
    (hname : words name ⊆ s.refreshedClasses i) (e : Element) :
    s.kept i (e.mapAttributes (OrderedMap.classed name)) = s.kept i e := by
  refine kept_mapAttributes ?_ ?_ ?_
  · rw [OrderedMap.classed]
    split_ifs
    · rfl
    · exact OrderedMap.without_set hattribute _ _
  · have hadded : ((if (words e.attributes.classText).contains name then [] else words name).filter
        fun c => !(s.refreshedClasses i).contains c) = [] := by
      rw [List.filter_eq_nil_iff]
      intro c hc
      split_ifs at hc
      · cases hc
      · simp [hname hc]
    rw [OrderedMap.words_classed, List.filter_append, hadded, List.append_nil]
  · rw [OrderedMap.styleText, OrderedMap.lookup_classed_of_ne (by decide)]
    rfl

theorem kept_restyled {i : Nat} {property value : String}
    (hattribute : "style" ∈ s.refreshedAttributes i)
    (hproperty : property ∈ s.refreshedProperties i)
    (hvalue : OrderedMap.names (InlineStyle.read (property ++ ":" ++ value)) ⊆
      s.refreshedProperties i)
    (e : Element) :
    s.kept i (e.mapAttributes (OrderedMap.restyled property value)) = s.kept i e := by
  refine kept_mapAttributes ?_ ?_ ?_
  · rw [OrderedMap.restyled]
    split_ifs
    · exact OrderedMap.without_erase hattribute _
    · exact OrderedMap.without_set hattribute _ _
  · rw [OrderedMap.classText, OrderedMap.lookup_restyled_of_ne (by decide)]
    rfl
  · -- the declarations of the property go, and those that come are of refreshed properties
    have hadded : OrderedMap.without (s.refreshedProperties i)
        (if value.isEmpty then [] else InlineStyle.read (property ++ ":" ++ value)) = [] := by
      split_ifs
      · rfl
      · exact OrderedMap.without_eq_nil hvalue
    rw [OrderedMap.styleText_restyled, InlineStyle.read_change, OrderedMap.without_append, hadded,
      List.append_nil]
    exact OrderedMap.without_erase hproperty _

/-- The elements that a text replaces lose a parent that does not count. -/
theorem kept_setText {f : Forest} (hf : f.WellFormed) {i : Nat} (h : s.showsText i = true)
    (text : String) (j : Nat) :
    s.kept j ((f.setText i text).get j) = s.kept j (f.get j) := by
  have hparent : (if j ∈ f.children i then none else (f.get j).parent).filter
      (fun p => !s.showsText p) = (f.get j).parent.filter fun p => !s.showsText p := by
    split_ifs with hchild
    · rw [hf.parent_iff.2 hchild, Option.filter_some_neg (by simp [h]), Option.filter_none]
    · rfl
  have hcontent : (if s.showsText j then [] else
      if j = i ∧ i < f.size then Forest.textContents text else (f.get j).content) =
        if s.showsText j then [] else (f.get j).content := by
    split_ifs with hj hself
    · rfl
    · exact absurd (hself.1 ▸ h) hj
    · rfl
  rw [Forest.get_setText, Session.kept, Session.kept]
  dsimp only
  rw [hparent, hcontent]

/-! ## Refreshing -/

namespace Refreshes

theorem refl (hs : s.forest.WellFormed) : Refreshes s s where
  descends := ⟨.refl hs, rfl⟩
  size := rfl
  kept _ := rfl
  mounted := rfl
  clock := rfl
  schedule := rfl
  toasts := rfl
  signals := rfl
  animationClasses := rfl
  focused := rfl
  awaited := rfl
  errands := rfl
  spent := rfl
  animations := ⟨[], (List.append_nil _).symm, fun _ ha => absurd ha List.not_mem_nil⟩

/-- The elements change and keep what counts. -/
theorem withForest (h : Refreshes s t) {f : Forest} (hgrown : s.forest.Grown f)
    (hsize : f.size = t.forest.size)
    (hkept : ∀ i, s.kept i (f.get i) = s.kept i (t.forest.get i)) :
    Refreshes s { t with forest := f } :=
  { h with
    descends := h.descends.of_forest hgrown rfl
    size := hsize.trans h.size
    kept := fun i => (hkept i).trans (h.kept i) }

/-- What an attribute that lasts says is what it said at first. -/
theorem attribute?_eq (h : Refreshes s t) (i : Nat) {name : String}
    (hname : name ∉ Forest.restyled) : t.forest.attribute? i name = s.forest.attribute? i name :=
  h.descends.forest.lasting i name hname

theorem motion?_eq (h : Refreshes s t) (i : Nat) : t.motion? i = s.motion? i := by
  rw [Session.motion?, Session.motion?, h.attribute?_eq i (by decide)]

theorem isControl_eq (h : Refreshes s t) {i : Nat} (hi : i < s.forest.size) :
    t.forest.isControl i = s.forest.isControl i := by
  rw [Forest.isControl, Forest.isControl, h.descends.forest.tag i hi]

theorem refreshValue (h : Refreshes s t) (i : Nat) : Refreshes s (t.refreshValue i) := by
  rw [Session.refreshValue]
  split
  · exact h
  · next value hvalue =>
    obtain ⟨key, hkey, -⟩ := Option.bind_eq_some_iff.1 hvalue
    have hi := Stages.lt_size_of_attribute? h.descends (by decide) hkey
    have hbound : s.forest.hasAttribute i bindAttribute = true := by
      rw [Forest.hasAttribute, ← h.attribute?_eq i (by decide), hkey]
      rfl
    dsimp only [Session.mapForest]
    split_ifs with hcontrol
    · have hshows : s.showsValue i = true := by
        rw [showsValue, hbound, ← h.isControl_eq hi, hcontrol]
        rfl
      refine h.withForest (h.descends.forest.setValue i _) (Forest.size_modify _ _) ?_
      refine kept_modify fun e => ?_
      rw [Session.kept, Session.kept, hshows]
      rfl
    · have hshows : s.showsText i = true := by
        rw [showsText, hbound, ← h.isControl_eq hi, Bool.eq_false_iff.2 hcontrol]
        rfl
      exact h.withForest (h.descends.forest.setText i _) (Forest.size_setText _ _)
        (kept_setText h.descends.forest.wellFormed hshows _)

/-- A property that is refreshed is set. -/
theorem setStyleProperty (h : Refreshes s t) {i : Nat} {property value : String}
    (hattribute : "style" ∈ s.refreshedAttributes i)
    (hproperty : property ∈ s.refreshedProperties i)
    (hvalue : OrderedMap.names (InlineStyle.read (property ++ ":" ++ value)) ⊆
      s.refreshedProperties i) :
    Refreshes s { t with forest := t.forest.setStyleProperty i property value } := by
  refine h.withForest (h.descends.forest.setStyleProperty i _ _) ?_ fun j => ?_
  · rw [Forest.setStyleProperty_eq, Forest.size_modify]
  · rw [Forest.setStyleProperty_eq]
    exact kept_modify (kept_restyled hattribute hproperty hvalue) j

theorem refreshDisplay (h : Refreshes s t) (i : Nat) : Refreshes s (t.refreshDisplay i) := by
  rw [Session.refreshDisplay]
  split
  · exact h
  · next key hkey =>
    have hshown : s.forest.hasAttribute i showAttribute = true := by
      rw [Forest.hasAttribute, ← h.attribute?_eq i (by decide), hkey]
      rfl
    have hdisplay : "display" ∈ s.refreshedProperties i := by
      rw [refreshedProperties, displayProperties, if_pos hshown]
      exact List.mem_cons_self
    have hstyle : "style" ∈ s.refreshedAttributes i := by
      rw [refreshedAttributes, if_pos hshown]
      exact List.mem_cons_self
    refine h.setStyleProperty hstyle hdisplay ?_
    have hnames (value : String) (hv : value = "" ∨ value = "none") :
        OrderedMap.names (InlineStyle.read ("display" ++ ":" ++ value)) = ["display"] := by
      rcases hv with rfl | rfl
      · decide
      · decide
    rw [hnames _ (by split_ifs <;> simp)]
    exact List.cons_subset.2 ⟨hdisplay, List.nil_subset _⟩

/-- A motion on state plays. -/
theorem move (h : Refreshes s t) {i : Nat} {motion : Motion}
    (hmotion : s.stateMotion? i = some motion) : Refreshes s (t.move i motion) := by
  cases motion with
  | preset p timing =>
    have hattributes : ["class", "style"] ⊆ s.refreshedAttributes i := by
      rw [refreshedAttributes, hmotion, Option.toList_some, List.flatMap_singleton]
      exact List.subset_append_right _ _
    have hclasses : words p.motionClass ⊆ s.refreshedClasses i := by
      rw [refreshedClasses, hmotion, Option.toList_some, List.flatMap_singleton]
      exact fun _ h => h
    have hproperties : (Motion.preset p timing).playedProperties ⊆ s.refreshedProperties i := by
      rw [refreshedProperties, hmotion, Option.toList_some, List.flatMap_singleton]
      exact List.subset_append_right _ _
    have hclassed : Refreshes s { t with forest := t.forest.addClass i p.motionClass } := by
      refine h.withForest (h.descends.forest.addClass i _) (Forest.size_addClass _ _ _) fun j => ?_
      rw [Forest.addClass_eq]
      exact kept_modify (kept_classed (hattributes (by simp)) hclasses) j
    refine List.foldlRecOn (motive := fun f => Refreshes s { t with forest := f }) _ _ hclassed
      fun f hf d hd => hf.setStyleProperty (hattributes (by simp)) ?_ ?_
    · exact hproperties (List.mem_flatMap.2 ⟨d, hd, List.mem_cons_self⟩)
    · exact fun name hname => hproperties
        (List.mem_flatMap.2 ⟨d, hd, List.mem_cons_of_mem _ hname⟩)
  | keyframes frames timing iterations fill =>
    obtain ⟨more, hmore, hplayed⟩ := h.animations
    refine { h with
      descends := h.descends.of_forest h.descends.forest rfl
      animations := ⟨more ++ s.played i (.keyframes frames timing iterations fill), ?_, ?_⟩ }
    · have hid : t.idOf? i = s.idOf? i := h.attribute?_eq i (by decide)
      rw [Session.move, hmore, hid, List.append_assoc]
      rfl
    · intro a ha
      rcases List.mem_append.1 ha with ha | ha
      · exact hplayed a ha
      · exact ⟨i, _, hmotion, ha⟩

theorem refreshMotion (h : Refreshes s t) (i : Nat) : Refreshes s (t.refreshMotion i) := by
  rw [Session.refreshMotion]
  split
  · exact h
  · next motion hmotion =>
    have hstate (htrigger : motion.trigger = .onState) : s.stateMotion? i = some motion := by
      rw [stateMotion?, ← h.motion?_eq, hmotion, Option.filter_some_pos (by simpa using htrigger)]
    split_ifs with htrigger
    · exact h
    · have hspent : Refreshes s { t with spent := i :: t.spent } :=
        { h with
          descends := h.descends.of_forest h.descends.forest rfl
          spent := by rw [List.filter_cons_of_neg (by simp [hstate htrigger]), h.spent] }
      exact hspent.move (hstate htrigger)
    · refine { h with
        descends := h.descends.of_forest h.descends.forest rfl
        spent := ?_ }
      rw [← h.spent, List.filter_filter]
      refine List.filter_congr fun j _ => ?_
      by_cases hj : j = i
      · rw [hj, hstate htrigger]
        rfl
      · rw [bne_iff_ne.2 hj, Bool.and_true]
    · exact h

/-- **A refresh refreshes the page** and does nothing else. -/
theorem refresh (h : Refreshes s t) : Refreshes s t.refresh := by
  have hvalues := List.foldlRecOn t.forest.preorder
    (fun t i => (t.refreshValue i).refreshDisplay i) h
    fun t ht i _ => (ht.refreshValue i).refreshDisplay i
  exact List.foldlRecOn _ _ hvalues fun t ht i _ => ht.refreshMotion i

/-- **A write of the state refreshes the page** and does nothing else. -/
theorem write (h : Refreshes s t) (key : String) (value : Json) : Refreshes s (t.write key value) :=
  refresh { h with descends := h.descends.of_forest h.descends.forest rfl }

end Refreshes

end Session

end PageTree
