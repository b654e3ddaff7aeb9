import Mathlib.Data.List.Induction
import PageTree.Proofs.Session.Refreshing

/-!
# Pages that show their state

A refresh goes through the elements that are in the document when it starts, one after the other.
What it does for an element it does to that element alone: another element can lose its parent, but
not its own content, value or style. So no later step spoils an earlier one, and elements that a
text has replaced are out of the document when the refresh is over. Motion on state comes last; the
timing that it puts into the inline style has nothing to do with display, unless an easing smuggles
in another declaration.

## Main definitions

* `Session.ShowsState`: the elements in the document show what the state says
* `Session.HasPlainEasings`: no easing contains a semicolon
* `Element.IsCurrent`: what a refresh brings about at one element

## Main results

* `Session.showsState_refresh`: a page that was refreshed shows its state
-/

namespace PageTree

namespace Motion

/-- The properties by which the timing of a preset is set. -/
def timingProperties : List String :=
  ["animation-duration", "animation-delay", "animation-timing-function"]

/-- Each declaration of a timing is a number of milliseconds or the easing. -/
theorem of_mem_timingDeclarations {timing : Timing} {d : String × String}
    (h : d ∈ timingDeclarations timing) : d.1 ∈ timingProperties ∧
      ((∃ n : Nat, d.2 = toString n ++ "ms") ∨ timing.easing = some d.2) := by
  simp only [timingDeclarations, List.mem_append, Option.mem_toList, Option.map_eq_some_iff] at h
  rcases h with (⟨n, -, rfl⟩ | ⟨n, -, rfl⟩) | ⟨easing, heasing, rfl⟩
  · exact ⟨by simp [timingProperties], .inl ⟨n, rfl⟩⟩
  · exact ⟨by simp [timingProperties], .inl ⟨n, rfl⟩⟩
  · exact ⟨by simp [timingProperties], .inr (Option.filter_eq_some_iff.1 heasing).1⟩

theorem isAlphanum_of_mem_milliseconds (n : Nat) :
    ∀ c ∈ (toString n ++ "ms").toList, c.isAlphanum = true := by
  intro c hc
  rw [String.toList_append, List.mem_append] at hc
  rcases hc with hdigit | hunit
  · have hdigits : c ∈ Nat.toDigits 10 n := by simpa [Nat.toString_eq_repr] using hdigit
    rw [Char.isAlphanum, Nat.isDigit_of_mem_toDigits (by decide) (by decide) hdigits, Bool.or_true]
  · revert c
    decide

/-- A value of a timing has no semicolon in it if the easing has none. -/
theorem semicolon_not_mem_timing {timing : Timing}
    (hplain : ∀ easing, timing.easing = some easing → ';' ∉ easing.toList) {d : String × String}
    (h : d ∈ timingDeclarations timing) : ';' ∉ d.2.toList := by
  rcases (of_mem_timingDeclarations h).2 with ⟨n, hn⟩ | heasing
  · rw [hn]
    exact fun hc => absurd (isAlphanum_of_mem_milliseconds n ';' hc) (by decide)
  · exact hplain _ heasing

/-- A plain timing declares nothing of display. -/
theorem display_not_mem_timing {timing : Timing}
    (hplain : ∀ easing, timing.easing = some easing → ';' ∉ easing.toList) {d : String × String}
    (h : d ∈ timingDeclarations timing) : "display" ≠ d.1 ∧
      "display" ∉ OrderedMap.names (InlineStyle.read (d.1 ++ ":" ++ d.2)) := by
  have hproperties : ∀ property ∈ timingProperties, "display" ≠ property ∧
      ':' ∉ property.toList ∧ ';' ∉ property.toList ∧
        "display" ≠ String.ofList (Text.lower (Text.trimBlank property.toList)) := by
    decide
  obtain ⟨hne, hcolon, hsemicolon, hread⟩ := hproperties d.1 (of_mem_timingDeclarations h).1
  refine ⟨hne, ?_⟩
  rw [InlineStyle.read_declaration hcolon hsemicolon (semicolon_not_mem_timing hplain h)]
  exact fun hmem => hread (List.mem_singleton.1 hmem)

end Motion

/-! ## One element -/

namespace Element

/-- The element has the value of the state that it shows. -/
def HoldsValue (get? : String → Option Json) (e : Element) : Prop :=
  ∀ key value, e.attributes.lookup bindAttribute = some key → get? key = some value →
    Forest.controlTags.contains e.tag = true ∧ e.value = some value.shown ∨
      Forest.controlTags.contains e.tag = false ∧ e.content = Forest.textContents value.shown

/-- The element is hidden if the value that shows it does not count as true, and only then. -/
def HoldsDisplay (get? : String → Option Json) (e : Element) : Prop :=
  ∀ key, e.attributes.lookup showAttribute = some key →
    InlineStyle.hides e.attributes.styleText = !Json.truthy (get? key)

/-- The element is in line with the state. -/
structure IsCurrent (get? : String → Option Json) (e : Element) : Prop where
  value : e.HoldsValue get?
  display : e.HoldsDisplay get?

end Element

namespace Element.IsCurrent

variable {get? : String → Option Json} {e e' : Element}

/-- What is around an element does not count. -/
theorem of_orphan (h : e.IsCurrent get?) (heq : Forest.orphan e' = Forest.orphan e) :
    e'.IsCurrent get? := by
  have horphan : (Forest.orphan e).IsCurrent get? := ⟨h.value, h.display⟩
  rw [← heq] at horphan
  exact ⟨horphan.value, horphan.display⟩

/-- A change of attributes that has to do neither with the state nor with display. -/
theorem mapAttributes (h : e.IsCurrent get?) {change : OrderedMap String → OrderedMap String}
    (hlasting : ∀ name ∈ [bindAttribute, showAttribute],
      (change e.attributes).lookup name = e.attributes.lookup name)
    (hhides : InlineStyle.hides (change e.attributes).styleText =
      InlineStyle.hides e.attributes.styleText) : (e.mapAttributes change).IsCurrent get? where
  value key value hkey hvalue := by
    refine h.value key value ?_ hvalue
    rw [← hlasting _ (by simp)]
    exact hkey
  display key hkey := by
    refine hhides.trans (h.display key ?_)
    rw [← hlasting _ (by simp)]
    exact hkey

theorem classed (h : e.IsCurrent get?) (name : String) :
    (e.mapAttributes (OrderedMap.classed name)).IsCurrent get? := by
  refine h.mapAttributes (fun other hother => OrderedMap.lookup_classed_of_ne ?_) ?_
  · rintro rfl
    exact absurd hother (by decide)
  · rw [OrderedMap.styleText, OrderedMap.lookup_classed_of_ne (by decide)]
    rfl

theorem restyled (h : e.IsCurrent get?) {property value : String} (hproperty : "display" ≠ property)
    (hvalue : "display" ∉ OrderedMap.names (InlineStyle.read (property ++ ":" ++ value))) :
    (e.mapAttributes (OrderedMap.restyled property value)).IsCurrent get? := by
  refine h.mapAttributes (fun other hother => OrderedMap.lookup_restyled_of_ne ?_) ?_
  · rintro rfl
    exact absurd hother (by decide)
  · rw [OrderedMap.styleText_restyled, InlineStyle.hides_change_of_ne hproperty hvalue]

end Element.IsCurrent

/-! ## One step of a refresh -/

namespace Forest

variable {f : Forest}

theorem orphan_setText_of_ne {i j : Nat} (h : j ≠ i) (text : String) :
    orphan ((f.setText i text).get j) = orphan (f.get j) := by
  have hother : ¬(j = i ∧ i < f.size) := fun hself => h hself.1
  rw [get_setText, if_neg hother]
  rfl

end Forest

namespace Session

/-- What can be read off an element: its value if it is a form control, and its text otherwise. -/
def shownText (s : Session) (i : Nat) : String :=
  if s.forest.isControl i then s.forest.formValue i else s.forest.textContent i

/-- The elements in the document show what the state says: those that show a value of the state have
it as their value or text, and of those that a value shows or hides the ones are hidden whose value
does not count as true. -/
def ShowsState (s : Session) : Prop :=
  ∀ i ∈ s.forest.preorder,
    (∀ key value, s.forest.attribute? i bindAttribute = some key → s.get? key = some value →
      s.shownText i = value.shown) ∧
    ∀ key, s.forest.attribute? i showAttribute = some key →
      (s.forest.styleProperty? i "display" = some "none" ↔ Json.truthy (s.get? key) = false)

/-- No easing of a motion contains a semicolon. -/
def HasPlainEasings (s : Session) : Prop :=
  ∀ i motion easing, s.motion? i = some motion → motion.timing.easing = some easing →
    ';' ∉ easing.toList

/-- Elements beyond the table do not move, so whether easings are plain can be found out. -/
theorem hasPlainEasings_iff (s : Session) : s.HasPlainEasings ↔ ∀ i < s.forest.size,
    ∀ easing ∈ (s.motion? i).bind fun motion => motion.timing.easing, ';' ∉ easing.toList := by
  constructor
  · intro h i _ easing heasing
    obtain ⟨motion, hmotion, heasing⟩ := Option.bind_eq_some_iff.1 heasing
    exact h i motion easing hmotion heasing
  · intro h i motion easing hmotion heasing
    by_cases hi : i < s.forest.size
    · exact h i hi easing (Option.bind_eq_some_iff.2 ⟨motion, hmotion, heasing⟩)
    · rw [motion?, Forest.attribute?, Forest.get_of_size_le (Nat.not_lt.1 hi)] at hmotion
      cases hmotion

instance (s : Session) : Decidable s.HasPlainEasings :=
  decidable_of_iff _ s.hasPlainEasings_iff.symm

variable {s t : Session} {i j : Nat}

/-- Bringing one element in line with the state leaves others alone. -/
theorem orphan_refreshValue_of_ne (h : j ≠ i) :
    Forest.orphan ((t.refreshValue i).forest.get j) = Forest.orphan (t.forest.get j) := by
  rw [refreshValue]
  split
  · rfl
  · dsimp only [mapForest]
    split_ifs
    · rw [Forest.setValue, Forest.get_modify_of_ne h]
    · exact Forest.orphan_setText_of_ne h _

theorem get_refreshDisplay_of_ne (h : j ≠ i) :
    (t.refreshDisplay i).forest.get j = t.forest.get j := by
  rw [refreshDisplay]
  split
  · rfl
  · dsimp only [mapForest]
    rw [Forest.setStyleProperty_eq, Forest.get_modify_of_ne h]

theorem attributes_refreshValue (t : Session) (i j : Nat) :
    ((t.refreshValue i).forest.get j).attributes = (t.forest.get j).attributes := by
  rw [refreshValue]
  split
  · rfl
  · dsimp only [mapForest]
    split_ifs
    · rw [Forest.setValue, Forest.get_modify]
      split_ifs <;> rfl
    · rw [Forest.get_setText]

theorem state_refreshValue (t : Session) (i : Nat) : (t.refreshValue i).state = t.state := by
  rw [refreshValue]
  split <;> rfl

theorem state_refreshDisplay (t : Session) (i : Nat) : (t.refreshDisplay i).state = t.state := by
  rw [refreshDisplay]
  split <;> rfl

theorem state_move (t : Session) (i : Nat) (motion : Motion) :
    (t.move i motion).state = t.state := by
  cases motion with
  | _ => rfl

theorem state_refreshMotion (t : Session) (i : Nat) : (t.refreshMotion i).state = t.state := by
  rw [refreshMotion]
  split
  · rfl
  · split_ifs
    · rfl
    · exact state_move _ _ _
    · rfl
    · rfl

/-- An element that was refreshed has its value. -/
theorem holdsValue_refreshValue (hi : i < t.forest.size) :
    ((t.refreshValue i).forest.get i).HoldsValue t.get? := by
  intro key value hkey hvalue
  rw [attributes_refreshValue] at hkey
  have hbound : (t.forest.attribute? i bindAttribute).bind t.get? = some value :=
    Option.bind_eq_some_iff.2 ⟨key, hkey, hvalue⟩
  rw [refreshValue, hbound]
  dsimp only [mapForest]
  split_ifs with hcontrol
  · left
    rw [Forest.setValue, Forest.get_modify_self hi]
    exact ⟨hcontrol, rfl⟩
  · right
    rw [Forest.get_setText, if_pos (⟨rfl, hi⟩ : i = i ∧ i < t.forest.size)]
    exact ⟨Bool.eq_false_iff.2 hcontrol, rfl⟩

/-- An element that was refreshed is shown or hidden, and keeps its value. -/
theorem isCurrent_refreshDisplay (hi : i < t.forest.size)
    (hvalue : (t.forest.get i).HoldsValue t.get?) :
    ((t.refreshDisplay i).forest.get i).IsCurrent t.get? := by
  rw [refreshDisplay]
  split
  · next hshow => exact ⟨hvalue, fun key hkey => by cases hshow.symm.trans hkey⟩
  · next key hshow =>
    dsimp only [mapForest]
    rw [Forest.setStyleProperty_eq, Forest.get_modify_self hi]
    refine ⟨fun other value hother => hvalue other value ?_, fun other hother => ?_⟩
    · rwa [Element.mapAttributes, OrderedMap.lookup_restyled_of_ne (by decide)] at hother
    · rw [Element.mapAttributes, OrderedMap.lookup_restyled_of_ne (by decide)] at hother
      obtain rfl := Option.some.inj (hshow.symm.trans hother)
      rw [Element.mapAttributes, OrderedMap.styleText_restyled]
      cases Json.truthy (t.get? key) with
      | true => exact InlineStyle.hides_change_display false _
      | false => exact InlineStyle.hides_change_display true _

theorem isCurrent_modify {get? : String → Option Json} {f : Forest} {change : Element → Element}
    (hchange : ∀ e : Element, e.IsCurrent get? → (change e).IsCurrent get?)
    (h : (f.get j).IsCurrent get?) : ((f.modify i change).get j).IsCurrent get? := by
  rw [Forest.get_modify]
  split_ifs
  · exact hchange _ h
  · exact h

/-- Motion leaves elements in line with the state. -/
theorem isCurrent_move {get? : String → Option Json} {motion : Motion}
    (hplain : ∀ easing, motion.timing.easing = some easing → ';' ∉ easing.toList)
    (h : (t.forest.get j).IsCurrent get?) :
    ((t.move i motion).forest.get j).IsCurrent get? := by
  cases motion with
  | preset p timing =>
    have hclassed : ((t.forest.addClass i p.motionClass).get j).IsCurrent get? := by
      rw [Forest.addClass_eq]
      exact isCurrent_modify (fun e he => he.classed _) h
    refine List.foldlRecOn (motive := fun f : Forest => (f.get j).IsCurrent get?) _ _ hclassed
      fun f hf d hd => ?_
    obtain ⟨hproperty, hvalue⟩ := Motion.display_not_mem_timing hplain hd
    rw [Forest.setStyleProperty_eq]
    exact isCurrent_modify (fun e he => he.restyled hproperty hvalue) hf
  | keyframes => exact h

theorem isCurrent_refreshMotion {get? : String → Option Json} (hplain : t.HasPlainEasings)
    (h : (t.forest.get j).IsCurrent get?) :
    ((t.refreshMotion i).forest.get j).IsCurrent get? := by
  rw [refreshMotion]
  split
  · exact h
  · next motion hmotion =>
    split_ifs
    · exact h
    · exact isCurrent_move (fun easing => hplain i motion easing hmotion) h
    · exact h
    · exact h

/-! ## A whole refresh -/

theorem shownText_of_holdsValue (hi : i < s.forest.size)
    (h : (s.forest.get i).HoldsValue s.get?) {key : String} {value : Json}
    (hkey : s.forest.attribute? i bindAttribute = some key) (hvalue : s.get? key = some value) :
    s.shownText i = value.shown := by
  rw [shownText]
  rcases h key value hkey hvalue with ⟨hcontrol, hholds⟩ | ⟨hcontrol, hholds⟩
  · have htag : s.forest.isControl i = true := hcontrol
    rw [if_pos htag, Forest.formValue, hholds, Option.getD_some]
  · have htag : s.forest.isControl i = false := hcontrol
    rw [if_neg (by simp [htag]), Forest.textContent_of_content hi hholds]

theorem hasPlainEasings_of_descends (h : s.HasPlainEasings) (hdescends : Descends s t) :
    t.HasPlainEasings := by
  intro i motion easing hmotion
  rw [motion?, hdescends.forest.lasting i _ (by decide)] at hmotion
  exact h i motion easing hmotion

/-- What does not change during a refresh. -/
structure Underway (s t : Session) : Prop where
  refreshes : Refreshes s t
  state : t.state = s.state

namespace Underway

theorem refreshValue (h : Underway s t) (i : Nat) : Underway s (t.refreshValue i) :=
  ⟨h.refreshes.refreshValue i, (state_refreshValue t i).trans h.state⟩

theorem refreshDisplay (h : Underway s t) (i : Nat) : Underway s (t.refreshDisplay i) :=
  ⟨h.refreshes.refreshDisplay i, (state_refreshDisplay t i).trans h.state⟩

theorem refreshMotion (h : Underway s t) (i : Nat) : Underway s (t.refreshMotion i) :=
  ⟨h.refreshes.refreshMotion i, (state_refreshMotion t i).trans h.state⟩

theorem get?_eq (h : Underway s t) : t.get? = s.get? := by
  funext key
  rw [get?, get?, h.state]

/-- The step for an element brings it in line with the state. -/
theorem isCurrent_step (h : Underway s t) (hi : i < s.forest.size) :
    (((t.refreshValue i).refreshDisplay i).forest.get i).IsCurrent s.get? := by
  have hvalue := holdsValue_refreshValue (h.refreshes.size.symm ▸ hi)
  have hstep := h.refreshValue i
  rw [h.get?_eq, ← hstep.get?_eq] at hvalue
  rw [← hstep.get?_eq]
  exact isCurrent_refreshDisplay (hstep.refreshes.size.symm ▸ hi) hvalue

/-- The step for another element leaves it in line. -/
theorem isCurrent_step_of_ne (h : j ≠ i) (hj : (t.forest.get j).IsCurrent s.get?) :
    (((t.refreshValue i).refreshDisplay i).forest.get j).IsCurrent s.get? := by
  rw [get_refreshDisplay_of_ne h]
  exact hj.of_orphan (orphan_refreshValue_of_ne h)

/-- After the steps for some elements these are all in line with the state. -/
theorem isCurrent_steps (h : Underway s t) {order : List Nat}
    (horder : ∀ i ∈ order, i < s.forest.size) :
    Underway s (order.foldl (fun t i => (t.refreshValue i).refreshDisplay i) t) ∧
      ∀ i ∈ order, ((order.foldl (fun t i => (t.refreshValue i).refreshDisplay i) t).forest.get
        i).IsCurrent s.get? := by
  induction order using List.reverseRecOn with
  | nil => exact ⟨h, fun _ hi => absurd hi List.not_mem_nil⟩
  | append_singleton order i ih =>
    have hi := horder i (List.mem_append_right _ (List.mem_singleton_self i))
    obtain ⟨hbefore, hcurrent⟩ := ih fun j hj => horder j (List.mem_append_left _ hj)
    rw [List.foldl_append, List.foldl_cons, List.foldl_nil]
    refine ⟨(hbefore.refreshValue i).refreshDisplay i, fun j hj => ?_⟩
    by_cases heq : j = i
    · rw [heq]
      exact hbefore.isCurrent_step hi
    · have hearlier : j ∈ order := (List.mem_append.1 hj).resolve_right fun hj =>
        heq (List.mem_singleton.1 hj)
      exact isCurrent_step_of_ne heq (hcurrent j hearlier)

/-- Motion on state leaves all elements as they are in line. -/
theorem isCurrent_motions (h : Underway s t) (hplain : s.HasPlainEasings) {elements : List Nat}
    (hcurrent : ∀ i ∈ elements, (t.forest.get i).IsCurrent s.get?) (order : List Nat) :
    Underway s (order.foldl Session.refreshMotion t) ∧
      ∀ i ∈ elements, ((order.foldl Session.refreshMotion t).forest.get i).IsCurrent s.get? := by
  induction order generalizing t with
  | nil => exact ⟨h, hcurrent⟩
  | cons i order ih =>
    have heasings := hasPlainEasings_of_descends hplain h.refreshes.descends
    exact ih (h.refreshMotion i) fun j hj => isCurrent_refreshMotion heasings (hcurrent j hj)

/-- An element that is in the document after steps of a refresh was in it before. -/
theorem mem_preorder (h : Underway s t) (hs : s.forest.WellFormed) (hi : i ∈ t.forest.preorder) :
    i ∈ s.forest.preorder := by
  have ht := h.refreshes.descends.forest.wellFormed
  have hroom := h.refreshes.size ▸ Forest.lt_size_of_mem_preorder ht hi
  have hattached := h.refreshes.descends.forest.isAttached hs hroom
    (Forest.isAttached_of_mem_preorder ht hi)
  exact (Forest.mem_preorder_iff_isAttached hs (Forest.ne_root_of_mem_preorder ht hi)).2 hattached

end Underway

theorem hides_eq_styleProperty? (f : Forest) (i : Nat) :
    InlineStyle.hides (f.get i).attributes.styleText =
      (f.styleProperty? i "display" == some "none") :=
  rfl

theorem underway_refresh (hs : s.forest.WellFormed) : Underway s s.refresh := by
  have hvalues : Underway s (s.forest.preorder.foldl
      (fun t i => (t.refreshValue i).refreshDisplay i) s) :=
    List.foldlRecOn _ _ ⟨.refl hs, rfl⟩ fun t ht i _ => (ht.refreshValue i).refreshDisplay i
  exact List.foldlRecOn _ _ hvalues fun t ht i _ => ht.refreshMotion i

/-- **A page that was refreshed shows its state.** -/
theorem showsState_refresh (hs : s.forest.WellFormed) (hplain : s.HasPlainEasings) :
    s.refresh.ShowsState := by
  have hstart : Underway s s := ⟨.refl hs, rfl⟩
  obtain ⟨hvalues, hcurrent⟩ := hstart.isCurrent_steps fun i =>
    Forest.lt_size_of_mem_preorder hs (i := i)
  have hdone := underway_refresh hs
  obtain ⟨-, hcurrent⟩ := hvalues.isCurrent_motions hplain hcurrent s.forest.preorder
  change ∀ i ∈ s.forest.preorder, (s.refresh.forest.get i).IsCurrent s.get? at hcurrent
  rw [← hdone.get?_eq] at hcurrent
  intro i hi
  have hroom := Forest.lt_size_of_mem_preorder hdone.refreshes.descends.forest.wellFormed hi
  obtain ⟨hvalue, hdisplay⟩ := hcurrent i (hdone.mem_preorder hs hi)
  refine ⟨fun key value => shownText_of_holdsValue hroom hvalue, fun key hkey => ?_⟩
  have hhides := hdisplay key hkey
  rw [hides_eq_styleProperty?] at hhides
  rw [← beq_iff_eq, hhides, Bool.not_eq_true']

end Session

end PageTree
