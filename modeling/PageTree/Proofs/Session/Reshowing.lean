import PageTree.Proofs.Markup.StyleEdits
import PageTree.Proofs.Session.Themes
import PageTree.Proofs.Session.Writes
import PageTree.Proofs.Theme.Display

/-!
# Showing an element again

An element is hidden by a declaration in its inline style, and shown by taking what its style
declares of display out. What was declared before is not kept: once an element was hidden and shown,
or shown by its state key, its style declares nothing of display any more, whatever it was compiled
with. The other declarations stay.

## Main definitions

* `Session.Executes`: an effect runs in some call on a page in use
* `Execution.Toggles`: the effect shows or hides an element
* `Session.MovesPlainly`: the easing of an element contains no semicolon

## Main results

* `Session.styleProperty?_toggle`: what showing and hiding declares
* `Session.styleProperty?_refresh`: a refresh that shows an element leaves it without display
* `Session.drops_display_of_load`: so does every write, and so do effects that hide and show it
-/

namespace PageTree

open Session

/-! ## Effects that show and hide -/

namespace Execution

/-- The effect shows or hides an element. -/
def Toggles (execution : Execution) (i : Nat) : Prop :=
  ∃ target, execution.effect = .toggle target ∧ execution.before.target? target = some i

/-- The page when the effect has run, given how the focus moves. -/
def after (moveFocus : Nat → Session → Session) (execution : Execution) : Session :=
  execution.before.run moveFocus execution.source execution.effect

theorem Toggles.after_eq {execution : Execution} {i : Nat} (h : execution.Toggles i)
    (moveFocus : Nat → Session → Session) :
    execution.after moveFocus = execution.before.toggle i := by
  obtain ⟨target, heffect, htarget⟩ := h
  rw [after, heffect, run, htarget]
  rfl

end Execution

namespace Session

variable {s₀ s t : Session} {i j : Nat}

/-! ## Showing and hiding -/

/-- **What showing and hiding declares**: an element that was hidden has no display declared, and
one that was not is hidden. Other properties stay. -/
theorem styleProperty?_toggle (hi : i < s.forest.size) (property : String) :
    (s.toggle i).forest.styleProperty? i property =
      if property = "display" then (if s.forest.isHidden i then none else some "none")
      else s.forest.styleProperty? i property := by
  have hshows : InlineStyle.IsPlain "display" "" := by decide +kernel
  have hhides : InlineStyle.IsPlain "display" "none" := by decide +kernel
  cases hhidden : s.forest.isHidden i with
  | true =>
    simp only [toggle, mapForest, hhidden, if_true,
      Forest.styleProperty?_removeAttribute (by decide : "style" ≠ "hidden"),
      Forest.styleProperty?_setStyleProperty hi hshows]
    rfl
  | false =>
    simp only [toggle, mapForest, hhidden, Bool.false_eq_true, if_false,
      Forest.styleProperty?_setStyleProperty hi hhides]
    rfl

/-- **Hiding and showing again** leaves no display declared, and other properties as they were. What
happens in between counts only if it changes the style of the element. -/
theorem styleProperty?_toggle_toggle (hs : i < s.forest.size) (ht : i < t.forest.size)
    (hvisible : s.forest.isHidden i = false)
    (hbetween : t.forest.attribute? i "style" = (s.toggle i).forest.attribute? i "style")
    (property : String) :
    (t.toggle i).forest.styleProperty? i property =
      if property = "display" then none else s.forest.styleProperty? i property := by
  have hstyle (property : String) := Forest.styleProperty?_congr hbetween property
  have hdisplay : t.forest.styleProperty? i "display" = some "none" := by
    rw [hstyle, styleProperty?_toggle hs, if_pos rfl, hvisible, if_neg Bool.false_ne_true]
  have hhidden : t.forest.isHidden i = true := by
    rw [Forest.isHidden, hdisplay, beq_self_eq_true, Bool.or_true]
  rw [styleProperty?_toggle ht, hhidden, if_pos rfl, hstyle, styleProperty?_toggle hs]
  split_ifs <;> rfl

/-! ## Refreshing -/

/-- The easing of an element contains no semicolon. -/
def MovesPlainly (s : Session) (i : Nat) : Prop :=
  ∀ motion easing, s.motion? i = some motion → motion.timing.easing = some easing →
    ';' ∉ easing.toList

theorem MovesPlainly.of_descends (h : s.MovesPlainly i) (hdescends : Descends s t) :
    t.MovesPlainly i := by
  intro motion easing hmotion
  rw [motion?, hdescends.forest.lasting i _ (by decide)] at hmotion
  exact h motion easing hmotion

theorem get_move_of_ne (h : j ≠ i) (motion : Motion) :
    (t.move i motion).forest.get j = t.forest.get j := by
  cases motion with
  | preset p timing =>
    have hclassed : (t.forest.addClass i p.motionClass).get j = t.forest.get j := by
      rw [Forest.addClass_eq, Forest.get_modify_of_ne h]
    refine List.foldlRecOn (motive := fun f : Forest => f.get j = t.forest.get j) _ _ hclassed
      fun f hf d _ => ?_
    rw [Forest.setStyleProperty_eq, Forest.get_modify_of_ne h, hf]
  | keyframes => rfl

/-- Plain motion says nothing of display. -/
theorem styleProperty?_move {motion : Motion}
    (hplain : ∀ easing, motion.timing.easing = some easing → ';' ∉ easing.toList) :
    (t.move i motion).forest.styleProperty? i "display" = t.forest.styleProperty? i "display" := by
  cases motion with
  | preset p timing =>
    have hclassed : (t.forest.addClass i p.motionClass).styleProperty? i "display" =
        t.forest.styleProperty? i "display" := Forest.styleProperty?_addClass i _ _
    refine List.foldlRecOn (motive := fun f : Forest => f.styleProperty? i "display" =
      t.forest.styleProperty? i "display") _ _ hclassed fun f hf d hd => ?_
    obtain ⟨hproperty, hvalue⟩ := Motion.display_not_mem_timing hplain hd
    rw [Forest.styleProperty?_setStyleProperty_of_ne hproperty hvalue, hf]
  | keyframes => rfl

theorem styleProperty?_refreshMotion (hplain : t.MovesPlainly i) (j : Nat) :
    (t.refreshMotion j).forest.styleProperty? i "display" =
      t.forest.styleProperty? i "display" := by
  rw [refreshMotion]
  split
  · rfl
  · next motion hmotion =>
    split_ifs
    · rfl
    · by_cases h : i = j
      · subst h
        exact styleProperty?_move (fun easing => hplain motion easing hmotion)
      · rw [Forest.styleProperty?, Forest.declarations, Forest.attribute?, get_move_of_ne h]
        rfl
    · rfl
    · rfl

/-- Of another element a step of a refresh changes no attribute. -/
theorem styleProperty?_step_of_ne (h : i ≠ j) (property : String) :
    ((t.refreshValue j).refreshDisplay j).forest.styleProperty? i property =
      t.forest.styleProperty? i property := by
  rw [Forest.styleProperty?, Forest.declarations, Forest.attribute?, get_refreshDisplay_of_ne h,
    attributes_refreshValue]
  rfl

section

variable {key : String} (hi : i < s.forest.size)
  (hshow : s.forest.attribute? i showAttribute = some key)
  (htruthy : Json.truthy (s.get? key) = true)

include hi hshow htruthy

theorem Underway.styleProperty?_refreshDisplay (h : Underway s t) :
    (t.refreshDisplay i).forest.styleProperty? i "display" = none := by
  rw [Session.refreshDisplay, h.refreshes.descends.forest.lasting i _ (by decide), hshow]
  dsimp only [mapForest]
  have hshows : InlineStyle.IsPlain "display" "" := by decide +kernel
  rw [h.get?_eq, htruthy, if_pos rfl,
    Forest.styleProperty?_setStyleProperty (h.refreshes.size.symm ▸ hi) hshows, if_pos rfl]
  rfl

/-- After the steps for some elements those that are shown have no display declared. -/
theorem Underway.styleProperty?_steps (h : Underway s t) {order : List Nat}
    (horder : ∀ j ∈ order, j < s.forest.size) (hmem : i ∈ order) :
    (order.foldl (fun t j => (t.refreshValue j).refreshDisplay j) t).forest.styleProperty? i
      "display" = none := by
  induction order using List.reverseRecOn with
  | nil => cases hmem
  | append_singleton order j ih =>
    have hbefore := fun j hj => horder j (List.mem_append_left _ hj)
    rw [List.foldl_append, List.foldl_cons, List.foldl_nil]
    by_cases heq : i = j
    · subst heq
      have hsteps := (h.isCurrent_steps hbefore).1
      exact (hsteps.refreshValue i).styleProperty?_refreshDisplay hi hshow htruthy
    · have hearlier : i ∈ order := (List.mem_append.1 hmem).resolve_right fun hj =>
        heq (List.mem_singleton.1 hj)
      rw [styleProperty?_step_of_ne heq, ih hbefore hearlier]

end

/-- **A refresh that shows an element** leaves it without display, unless its easing smuggles in
another declaration. -/
theorem styleProperty?_refresh (hs : s.forest.WellFormed) (hi : i ∈ s.forest.preorder)
    (hplain : s.MovesPlainly i) {key : String}
    (hshow : s.forest.attribute? i showAttribute = some key)
    (htruthy : Json.truthy (s.get? key) = true) :
    s.refresh.forest.styleProperty? i "display" = none := by
  have hroom := Forest.lt_size_of_mem_preorder hs (i := i)
  have hstart : Underway s s := ⟨.refl hs, rfl⟩
  have horder : ∀ j ∈ s.forest.preorder, j < s.forest.size := fun j =>
    Forest.lt_size_of_mem_preorder hs
  have hdone := (hstart.isCurrent_steps horder).1
  have hshown := hstart.styleProperty?_steps (hroom hi) hshow htruthy horder hi
  have hmotions (order : List Nat) {t : Session} (h : Descends s t) :
      (order.foldl refreshMotion t).forest.styleProperty? i "display" =
        t.forest.styleProperty? i "display" := by
    induction order generalizing t with
    | nil => rfl
    | cons j order ih =>
      rw [List.foldl_cons, ih (h.refreshMotion j),
        styleProperty?_refreshMotion (hplain.of_descends h)]
  rw [refresh]
  exact (hmotions _ hdone.refreshes.descends).trans hshown

/-! ## Pages of documents -/

/-- Some call on a page in use runs the effect. -/
def Executes (s₀ : Session) (execution : Execution) : Prop :=
  ∃ s network interaction, Follows s₀ s ∧
    execution ∈ Call.log { before := s, network, interaction }

theorem IsFresh.lt_size_of_executes (h : s₀.IsFresh) (hi : i < s₀.forest.size)
    {execution : Execution} (hexecutes : s₀.Executes execution) :
    i < execution.before.forest.size := by
  obtain ⟨s, network, interaction, hfollows, hrun⟩ := hexecutes
  have hdescends := h.descends hfollows
  obtain ⟨a, hstages⟩ := Finds.log h.lt_size_of_node? hdescends network interaction _ hrun
  exact Nat.lt_of_lt_of_le hi (hstages.descends hdescends).forest.size

/-- A refresh that shows an element in the document leaves it without display. -/
theorem IsRefreshed.styleProperty? (h : IsRefreshed s₀ t) (hi : i ∈ t.forest.preorder)
    (hplain : s₀.MovesPlainly i) {key : String}
    (hshow : s₀.forest.attribute? i showAttribute = some key)
    (htruthy : Json.truthy (t.get? key) = true) :
    t.forest.styleProperty? i "display" = none := by
  obtain ⟨s, hs, rfl⟩ := h
  have hdone := underway_refresh hs.forest.wellFormed
  rw [hdone.get?_eq] at htruthy
  exact styleProperty?_refresh hs.forest.wellFormed
    (hdone.mem_preorder hs.forest.wellFormed hi) (hplain.of_descends hs)
    ((hs.forest.lasting i _ (by decide)).trans hshow) htruthy

end Session

/-- A node says by which key of the state it is shown. -/
theorem Node.lookup_show (node : Node) :
    node.ownAttributes.lookup showAttribute = Props.shownIf "show" node.props := by
  have hid : List.lookup showAttribute [(idAttribute, node.id)] = none := rfl
  have hevents : List.lookup showAttribute (if node.events.isEmpty then []
      else [(eventsAttribute, (Json.arr (node.events.map Binding.json)).compact)]) = none := by
    split_ifs <;> rfl
  have hmotion : List.lookup showAttribute
      (node.motion.map fun motion => (motionAttribute, motion.json.compact)).toList = none := by
    cases node.motion with
    | _ => rfl
  have hregion : List.lookup showAttribute
      (if node.kind = Primitive.toastRegion.kind then [(toastRegionAttribute, "")] else []) =
      none := by
    split_ifs <;> rfl
  have hcopy (key : String) {name : String} (hne : showAttribute ≠ name) :
      (Props.copy key name node.props).lookup showAttribute = none := by
    rw [Props.lookup_copy, if_neg hne]
  simp only [ownAttributes, OrderedMap.lookup_append, hid, hevents, hmotion, hregion,
    Option.none_or, Option.or_none, Props.lookup_copy "show", if_true,
    hcopy "bind" (by decide : showAttribute ≠ bindAttribute),
    hcopy "ariaLabel" (by decide : showAttribute ≠ "aria-label"),
    hcopy "ariaDescribedBy" (by decide : showAttribute ≠ "aria-describedby"),
    hcopy "role" (by decide : showAttribute ≠ "role"),
    hcopy "id" (by decide : showAttribute ≠ "id")]

/-- The style of an element that bears a node is that of the node. -/
theorem Forest.Bears.styleProperty?_eq {f : Forest} {i : Nat} {node : Node}
    {theme : Theme}
    (h : f.Bears theme i node) (property : String) : f.styleProperty? i property =
      InlineStyle.get? property
        (InlineStyle.read (((node.attributes theme).lookup "style").getD "")) := by
  rw [Forest.styleProperty?, Forest.declarations, Forest.attribute?, h.attributes]

namespace Session

variable {s₀ : Session} {theme : Theme} {defaults : PageDefaults} {document : Document}

/-- **Hiding and showing again drops the display that was compiled.** Each node outside of void
elements has an element on the page that is loaded from the text of the document. Whatever is done
with the page: right after it is mounted for the first time, and right after every write of a call,
the style of an element that its state key shows declares no display, if the element is in the
document and its easing is plain. When an effect hides a visible element and another one shows it
again, its style declares no display either, and each other property as before. -/
theorem drops_display_of_load (hreadable : document.IsReadable)
    (hload : load (document.html theme defaults) = .ok s₀) :
    (∀ trail ∈ document.app.trails theme [], ∃ i ∈ s₀.forest.preorder,
      List.Forall₂ (s₀.forest.Bears theme) (s₀.forest.marks i) trail) ∧
    ∀ i ∈ s₀.forest.preorder, ∀ node, s₀.forest.Bears theme i node →
      (s₀.MovesPlainly i → ∀ s, Follows s₀ s → ∀ network interaction,
        ∀ t ∈ Call.writes { before := s, network, interaction }, i ∈ t.forest.preorder →
          ∀ key, Props.shownIf "show" node.props = some key →
            Json.truthy (t.get? key) = true → t.forest.styleProperty? i "display" = none) ∧
      ∀ first second, s₀.Executes first → s₀.Executes second → first.Toggles i →
        second.Toggles i → first.before.forest.isHidden i = false → ∀ moveFocus,
          second.before.forest.attribute? i "style" =
            (first.after moveFocus).forest.attribute? i "style" →
          ∀ property, (second.after moveFocus).forest.styleProperty? i property =
            if property = "display" then none
            else first.before.forest.styleProperty? i property := by
  have hshows := shows_of_load hreadable hload
  have hfresh := isFresh_of_load hload
  refine ⟨fun trail htrail => ?_, fun i hi node hbears => ⟨?_, ?_⟩⟩
  · obtain ⟨i, hi, -, hbears⟩ := hshows.exists_of_mem_trails htrail
    exact ⟨i, hi, hbears⟩
  · intro hplain s hfollows network interaction t ht hmem key hkey htruthy
    have hshow : s₀.forest.attribute? i showAttribute = some key := by
      rw [hbears.attribute?_eq (by decide), Node.lookup_show, hkey]
    exact (hfollows.isRefreshed_writes hload network interaction t ht).styleProperty? hmem hplain
      hshow htruthy
  · intro first second hfirst hsecond hhides hshows hvisible moveFocus hbetween property
    have hroom := Forest.lt_size_of_mem_preorder hfresh.wellFormed hi
    rw [hhides.after_eq] at hbetween
    rw [hshows.after_eq]
    exact styleProperty?_toggle_toggle (hfresh.lt_size_of_executes hroom hfirst)
      (hfresh.lt_size_of_executes hroom hsecond) hvisible hbetween property

/-- Where no element has its text from the state, no element is taken out of the document. -/
theorem Refreshes.mem_preorder {s t : Session} (h : Refreshes s t) (hs : s.forest.WellFormed)
    (hnone : ∀ p, s.showsText p = false) {i : Nat} (hi : i ∈ s.forest.preorder) :
    i ∈ t.forest.preorder := by
  have ht := h.descends.forest.wellFormed
  have hparent (j : Nat) : (t.forest.get j).parent = (s.forest.get j).parent := by
    have hall (p : Option Nat) : p.filter (fun _ => true) = p := by cases p <;> rfl
    have hkept := congrArg Kept.parent (h.kept j)
    simpa [Session.kept, hnone, hall] using hkept
  have hline := Forest.line_eq_of_parents hs ht (i := i) fun j _ => hparent j
  have hattached := Forest.isAttached_iff.1 (Forest.isAttached_of_mem_preorder hs hi)
  rw [Forest.mem_preorder_iff_isAttached ht (Forest.ne_root_of_mem_preorder hs hi),
    Forest.isAttached_iff, hline]
  exact hattached

/-- A stack that a key of the state shows; its element is compiled with a display of its own. -/
def shelf : Node where
  id := "shelf"
  kind := Primitive.stack.kind
  props := [("show", .str "open")]

/-- A cluster, whose element has one too. -/
def tray : Node := { id := "tray", kind := Primitive.cluster.kind }

/-- A button that hides and shows the cluster. -/
def handle : Node where
  id := "handle"
  kind := Primitive.button.kind
  events := [{ event := "click", effects := [.toggle (some "tray"), .toggle (some "tray")] }]

/-- A document with all of them. -/
def cupboard : Document where
  version := formatVersion
  app := { id := "app", kind := Primitive.app.kind, children := [shelf, handle, tray] }

theorem isReadable_cupboard : cupboard.IsReadable := ⟨by decide, by decide⟩

theorem trails_cupboard : [shelf, cupboard.app] ∈ cupboard.app.trails .minimal [] := by
  have happ : isVoid (Theme.minimal.opening Primitive.app.kind []).tag = false := by decide
  simp only [cupboard, Node.trails, Node.trailsAll, happ, Bool.false_eq_true, if_false]
  simp [shelf, Node.trails]

/-- The page of the cupboard, with the element of the stack. -/
theorem load_cupboard : ∃ s, load (cupboard.html .minimal {}) = .ok s ∧ s.state = .obj [] ∧
    (∀ p, s.showsText p = false) ∧ ∃ i ∈ s.forest.preorder, s.forest.Bears .minimal i shelf := by
  have hload : load (cupboard.html .minimal {}) = _ :=
    load_of_stateless isReadable_cupboard (by decide)
  have hshows := shows_of_load isReadable_cupboard hload
  refine ⟨_, hload, rfl, fun p => ?_, ?_⟩
  · have hunbound : ∀ node ∈ cupboard.app.preorder,
        node.ownAttributes.lookup bindAttribute = none := by decide
    have hnone : (cupboard.forest .minimal {}).attribute? p bindAttribute = none := by
      by_cases hp : p ∈ (cupboard.forest .minimal {}).preorder
      · cases hmarked : (cupboard.forest .minimal {}).isMarked p with
        | true =>
          obtain ⟨node, hnode, hbears⟩ := hshows.exists_bears hp hmarked
          exact (hbears.attribute?_eq (by decide)).trans (hunbound node hnode)
        | false => exact hshows.silent p hp hmarked bindAttribute (by decide)
      · exact attribute?_of_not_mem_preorder hp bindAttribute
    rw [showsText, Forest.hasAttribute, hnone]
    rfl
  · obtain ⟨i, hi, hmarked, hbears⟩ := hshows.exists_of_mem_trails trails_cupboard
    obtain ⟨around, haround⟩ := hshows.marks_eq_cons hi hmarked
    rw [haround] at hbears
    cases hbears with
    | cons hself _ => exact ⟨i, hi, hself⟩

/-- What the page of the cupboard is like before the stack is shown, and then. -/
theorem shelf_cupboard {i : Nat} (hbears : s₀.forest.Bears .minimal i shelf) :
    s₀.forest.styleProperty? i "display" = some "flex" ∧ s₀.MovesPlainly i ∧
      s₀.forest.attribute? i showAttribute = some "open" := by
  have hmotion : s₀.motion? i = none := by
    have hnone : shelf.ownAttributes.lookup motionAttribute = none := by decide
    rw [motion?, hbears.attribute?_eq (by decide), hnone]
    rfl
  refine ⟨?_, fun motion _ h => ?_, ?_⟩
  · rw [hbears.styleProperty?_eq]
    decide
  · rw [hmotion] at h
    cases h
  · rw [hbears.attribute?_eq (by decide), Node.lookup_show]
    decide

/-- Once the key is written it counts as true, and the element of the stack is still there. -/
theorem write_cupboard {i : Nat} (hs : s₀.forest.WellFormed) (hstate : s₀.state = .obj [])
    (hunbound : ∀ p, s₀.showsText p = false) (hi : i ∈ s₀.forest.preorder) :
    Json.truthy ((s₀.write "open" (.bool true)).get? "open") = true ∧
      i ∈ (s₀.write "open" (.bool true)).forest.preorder := by
  have hdone : Underway _ (s₀.write "open" (.bool true)) := underway_refresh hs
  have hwrite := (Refreshes.refl hs).write "open" (.bool true)
  refine ⟨?_, hwrite.mem_preorder hs hunbound hi⟩
  rw [hdone.get?_eq, get?]
  dsimp only
  rw [hstate]
  rfl

/-- The stack of the cupboard is compiled with a display, and has none once its key has shown it. -/
theorem drops_display_of_load_cupboard : ∃ s₀ i, load (cupboard.html .minimal {}) = .ok s₀ ∧
    s₀.forest.styleProperty? i "display" = some "flex" ∧
      Json.truthy ((s₀.write "open" (.bool true)).get? "open") = true ∧
        (s₀.write "open" (.bool true)).forest.styleProperty? i "display" = none := by
  obtain ⟨s₀, hload, hstate, hunbound, i, hi, hbears⟩ := load_cupboard
  obtain ⟨hdisplay, hplain, -⟩ := shelf_cupboard hbears
  obtain ⟨htruthy, hmem⟩ := write_cupboard (isFresh_of_load hload).wellFormed hstate hunbound hi
  obtain ⟨hshown, -⟩ := (drops_display_of_load isReadable_cupboard hload).2 i hi shelf hbears
  exact ⟨s₀, i, hload, hdisplay, htruthy, hshown hplain s₀ .start (.ofAnswers [])
    (.write "open" (.bool true)) _ (List.mem_singleton_self _) hmem "open" rfl htruthy⟩

/-- **Not every display is kept**: the stack of the cupboard is compiled with one. -/
theorem not_forall_keeps_display : ¬ ∀ (theme : Theme) (defaults : PageDefaults)
    (document : Document) (s₀ : Session), document.IsReadable →
      load (document.html theme defaults) = .ok s₀ →
    ∀ i ∈ s₀.forest.preorder, ∀ node, s₀.forest.Bears theme i node →
      ∀ display, s₀.forest.styleProperty? i "display" = some display → display ≠ "none" →
        (∀ s, Follows s₀ s → ∀ network interaction,
          ∀ t ∈ Call.writes { before := s, network, interaction },
            ∀ key, Props.shownIf "show" node.props = some key →
              Json.truthy (t.get? key) = true →
                t.forest.styleProperty? i "display" = some display) ∧
        ∀ first second, s₀.Executes first → s₀.Executes second → first.Toggles i →
          second.Toggles i → first.before.forest.isHidden i = false → ∀ moveFocus,
            second.before = first.after moveFocus →
              (second.after moveFocus).forest.styleProperty? i "display" =
                first.before.forest.styleProperty? i "display" := by
  intro h
  obtain ⟨s₀, hload, hstate, hunbound, i, hi, hbears⟩ := load_cupboard
  obtain ⟨hdisplay, hplain, hshow⟩ := shelf_cupboard hbears
  have hs := (isFresh_of_load hload).wellFormed
  obtain ⟨htruthy, hmem⟩ := write_cupboard hs hstate hunbound hi
  have hkept := (h .minimal {} cupboard s₀ isReadable_cupboard hload i hi shelf hbears "flex"
    hdisplay (by decide)).1 s₀ .start (.ofAnswers []) (.write "open" (.bool true)) _
      (List.mem_singleton_self _) "open" rfl htruthy
  have hstart : Descends s₀ s₀ := ⟨.refl hs, rfl⟩
  have hdropped := (hstart.isRefreshed_write "open" (.bool true)).styleProperty? hmem hplain hshow
    htruthy
  rw [hdropped] at hkept
  cases hkept

end Session

end PageTree
