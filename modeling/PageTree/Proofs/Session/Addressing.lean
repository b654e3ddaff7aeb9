import PageTree.Proofs.Markup.Thinning
import PageTree.Proofs.Session.Links

/-!
# What ids lead to

Whoever names a node means the first element in the document that carries its id. A session looks
the element up in the table of nodes, which is as old as the page. For as long as the element that
was the first one at loading is in the document, it is the first one still: elements with ids come
from loading, and of those the document only loses some. Once that element is taken out, everything
that names the node acts on it all the same, whether the document has another element with the id
or none.

## Main definitions

* `Session.live?`: the first element in the document that carries an id
* `Session.ActsOn`: everything that names a node acts on an element
* `Session.Addresses`: what an id leads to

## Main results

* `Session.Follows.thins`: the document only loses elements that it was loaded with
* `Session.Finds.log`: effects find what calls come to in stages
* `Session.Follows.addresses`: what ids lead to, between calls and within them
-/

namespace PageTree

namespace Session

variable {s₀ s s' : Session} {id : String}

/-! ## Addressing a node -/

/-- The first element in the document that carries an id. -/
def live? (s : Session) (id : String) : Option Nat :=
  s.forest.preorder.find? fun i => s.forest.attribute? i idAttribute == some id

/-- A call that acts on an element, or fails for lack of one. -/
def actOn (id : String) (target : Option Nat) (act : Nat → Outcome) :
    Except SessionFault Outcome :=
  match target with
  | some i => .ok (act i)
  | none => .error (.unknownNode id)

/-- Everything that names a node acts on an element; without one, calls fail and effects do
nothing. An effect names no node with an empty id. -/
structure ActsOn (s : Session) (id : String) (target : Option Nat) : Prop where
  /-- An event that pages listen to is fired at the element. -/
  dispatch : ∀ event network, heardEvents.contains event = true →
    s.dispatch id event network = actOn id target fun i =>
      (s.refocus event i).fire event (if event = "click" then some .onPress else none) i network
  /-- A value is entered into the element, which then hears of it. -/
  enter : ∀ value network, s.enter id value network = actOn id target fun i =>
    (s.mapForest (·.setValue i value)).fire "input" none i network
  /-- The pointer moves onto the element. -/
  hover : ∀ network, s.hover id network = actOn id target fun i =>
    s.fire hoverEvent (some .onHover) i network
  /-- An effect shows or hides the element. -/
  toggle : id ≠ "" → ∀ moveFocus source,
    s.run moveFocus source (.toggle (some id)) = (target.map s.toggle).getD s
  /-- An effect plays a named animation on the element. -/
  animate : id ≠ "" → ∀ moveFocus source animation,
    s.run moveFocus source (.animate (some id) animation) =
      ((stated animation).bind fun name => target.map (s.animate name)).getD s
  /-- An effect moves the focus to the element, if it has no selector. -/
  focus : id ≠ "" → ∀ moveFocus source selector, stated selector = none →
    s.run moveFocus source (.focus (some id) selector) = (target.map (moveFocus · s)).getD s

theorem stated_some (h : id ≠ "") : stated (some id) = some id := by
  rw [stated, Option.filter_some, if_pos]
  simpa using h

theorem target?_some (h : id ≠ "") : s.target? (some id) = s.node? id := by
  rw [target?, stated_some h]
  rfl

theorem animationTarget?_some (h : id ≠ "") (source : Nat) :
    s.animationTarget? (some id) source = s.node? id := by
  rw [animationTarget?, stated_some h]

/-- **Everything that names a node acts on the element of the node.** -/
theorem actsOn_node? (s : Session) (id : String) : s.ActsOn id (s.node? id) where
  dispatch event network hheard := by
    rw [dispatch_of_heard hheard, element]
    cases s.node? id with
    | none => rfl
    | some i => rfl
  enter value network := by
    have hheard : heardEvents.contains "input" = true := by decide
    rw [enter, element]
    cases hnode : s.node? id with
    | none => rfl
    | some i =>
      have hstill : (s.mapForest (·.setValue i value)).node? id = some i := hnode
      change (s.mapForest (·.setValue i value)).dispatch id "input" network = _
      rw [dispatch_of_heard hheard, element, hstill]
      rfl
  hover network := by
    rw [hover, element]
    cases s.node? id with
    | none => rfl
    | some i => rfl
  toggle hid _ _ := by rw [run, target?_some hid]
  animate hid _ _ animation := by
    rw [run, animationTarget?_some hid]
    cases s.node? id with
    | none => cases stated animation <;> rfl
    | some i => cases stated animation <;> rfl
  focus hid _ _ selector hselector := by rw [run, focusTarget?, hselector, target?_some hid]

/-! ## The document loses elements -/

theorem thins_addToast (h : Descends s₀ s) (hthins : s₀.forest.Thins s.forest) (message : String)
    (variant : ToastVariant) : s₀.forest.Thins (s.addToast message variant).forest := by
  rw [addToast]
  split
  · exact hthins
  · next region hregion =>
    have hroom := Descends.lt_size_of_toastRegion? h.forest.wellFormed hregion
    exact (hthins.append h.forest.size hroom _ _).setText _ _

theorem Stage.thins (h : Descends s₀ s) (hthins : s₀.forest.Thins s.forest) {a : List Raised}
    (hstage : Stage s₀ s a s') : s₀.forest.Thins s'.forest := by
  cases hstage with
  | setAttribute | removeAttribute | setValue => exact hthins.modify _ fun _ => rfl
  | setText _ _ _ text => exact hthins.setText _ text
  | addToast _ message variant => exact thins_addToast h hthins message variant
  | note hnotes => rwa [hnotes.forest]

theorem Stages.thins (h : Descends s₀ s) (hthins : s₀.forest.Thins s.forest) {a : List Raised}
    (hstages : Stages s₀ s a s') : s₀.forest.Thins s'.forest := by
  induction hstages with
  | refl => exact hthins
  | snoc hbefore hstage ih => exact hstage.thins (hbefore.descends h) ih

theorem thins_tick? (h : Descends s₀ s) (hthins : s₀.forest.Thins s.forest) {moment : Nat}
    (htick : s.tick? moment = some s') : s₀.forest.Thins s'.forest := by
  obtain ⟨timer, rest, -, -, rfl⟩ := tick?_eq_some.1 htick
  rw [happen, changeToast]
  split
  · exact hthins.addClass _ _
  · exact hthins.removeClass _ _
  · exact hthins.detach h.forest.wellFormed _

theorem thins_ticks (h : Descends s₀ s) (hthins : s₀.forest.Thins s.forest) {moment : Nat}
    (hticks : Ticks moment s s') : Descends s₀ s' ∧ s₀.forest.Thins s'.forest := by
  induction hticks with
  | refl => exact ⟨h, hthins⟩
  | tail _ htick ih => exact ⟨ih.1.tick? htick, thins_tick? ih.1 ih.2 htick⟩

/-- **Whatever is done with a page**, of the elements that it was loaded with the document only
loses some. -/
theorem Follows.thins (hfresh : s₀.IsFresh) (h : Follows s₀ s) : s₀.forest.Thins s.forest := by
  induction h with
  | start => exact .refl _
  | call hfollows hperform ih =>
    have hdescends := hfresh.descends hfollows
    rcases hdescends.advance_or_stages hfresh.lt_size_of_node? hperform with
      ⟨milliseconds, -, hv⟩ | ⟨-, hstages⟩
    · rw [hv]
      exact (thins_ticks hdescends ih (ticks_elapse _ _)).2
    · exact hstages.thins hdescends ih

/-! ## The first element with an id -/

theorem IsFresh.node?_eq_live? (h : s₀.IsFresh) (id : String) : s₀.node? id = s₀.live? id := by
  rw [node?, h.nodes, lookup_nodeTable, live?]

/-- Using a page does not change which elements carry an id. -/
theorem live?_eq (h : Descends s₀ s) (id : String) : s.live? id =
    s.forest.preorder.find? fun i => s₀.forest.attribute? i idAttribute == some id := by
  rw [live?]
  exact congrArg (List.find? · _) (funext fun i => by
    rw [h.forest.lasting i idAttribute (by decide)])

/-- **The first element with an id stays the first one** just as long as it is in the document. -/
theorem live?_eq_iff (hfresh : s₀.IsFresh) (h : Descends s₀ s)
    (hthins : s₀.forest.Thins s.forest) (id : String) :
    s.live? id = s₀.live? id ↔ ∀ i, s₀.live? id = some i → s.forest.isAttached i = true := by
  have hold : ∀ i, (s₀.forest.attribute? i idAttribute == some id) = true →
      s₀.forest.isOld i = true := fun i hi =>
    decide_eq_true (Stages.lt_size_of_attribute? ⟨.refl hfresh.wellFormed, rfl⟩ (by decide)
      (beq_iff_eq.1 hi))
  rw [live?_eq h, live?,
    hthins.find?_eq_iff hfresh.wellFormed h.forest.wellFormed h.forest.size hold]
  refine forall₂_congr fun i hi => Forest.mem_preorder_iff_isAttached h.forest.wellFormed ?_
  exact Forest.ne_root_of_mem_preorder hfresh.wellFormed (List.mem_of_find?_eq_some hi)

/-- What an id leads to: everything that names it acts on the first element in the document that
carries it, or else on the one that was the first at loading and is out of the document. -/
def Addresses (s₀ s : Session) (id : String) : Prop :=
  s.ActsOn id (s.live? id) ∨
    ∃ i, s₀.live? id = some i ∧ s.forest.isAttached i = false ∧ s.ActsOn id (some i)

theorem addresses_of_thins (hfresh : s₀.IsFresh) (h : Descends s₀ s)
    (hthins : s₀.forest.Thins s.forest) (id : String) : s₀.Addresses s id := by
  have hnode : s.node? id = s₀.live? id := (node?_eq h id).trans (hfresh.node?_eq_live? id)
  have hacts := s.actsOn_node? id
  -- The table of nodes never changes, so all depends on whether its element is still there.
  by_cases hstays : ∀ i, s₀.live? id = some i → s.forest.isAttached i = true
  · left
    rwa [(live?_eq_iff hfresh h hthins id).2 hstays, ← hnode]
  · right
    obtain ⟨i, hi⟩ := not_forall.1 hstays
    obtain ⟨hlive, hout⟩ := Classical.not_imp.1 hi
    rw [hnode, hlive] at hacts
    exact ⟨i, hlive, Bool.not_eq_true _ ▸ hout, hacts⟩

/-! ## What effects find -/

/-- All effects find sessions that a session comes to in stages. -/
def Finds (s₀ s : Session) (log : List Execution) : Prop :=
  ∀ execution ∈ log, ∃ a, Stages s₀ s a execution.before

namespace Finds

theorem nil (s₀ s : Session) : Finds s₀ s [] := List.forall_mem_nil _

theorem append {log more : List Execution} (h : Finds s₀ s log) {a : List Raised}
    (hstages : Stages s₀ s a s') (hmore : Finds s₀ s' more) : Finds s₀ s (log ++ more) := by
  intro execution hexecution
  rcases List.mem_append.1 hexecution with hexecution | hexecution
  · exact h execution hexecution
  · obtain ⟨b, hb⟩ := hmore execution hexecution
    exact ⟨_, hstages.trans hb⟩

theorem after {log : List Execution} {a : List Raised} (hstages : Stages s₀ s a s')
    (h : Finds s₀ s' log) : Finds s₀ s log :=
  (nil s₀ s).append hstages h

section

variable (hnodes : ∀ id i, s₀.node? id = some i → i < s₀.forest.size)

include hnodes

section

variable {moveFocus : Nat → Session → Session} {focusLog : Nat → Session → List Execution}
  (hfocus : ∀ i s, i < s.forest.size → Descends s₀ s →
    Stages s₀ s (raised (focusLog i s)) (moveFocus i s))
  (hfinds : ∀ i s, i < s.forest.size → Descends s₀ s → Finds s₀ s (focusLog i s))

include hfinds

theorem effectLog (h : Descends s₀ s) (source : Nat) (effect : Effect) :
    Finds s₀ s (Session.effectLog focusLog source effect s) := by
  have hself : ∃ a, Stages s₀ s a s := ⟨_, .refl s⟩
  cases effect with
  | focus target selector =>
    refine List.forall_mem_cons.2 ⟨hself, ?_⟩
    change Finds s₀ s (((s.focusTarget? target selector).map (focusLog · s)).getD [])
    cases htarget : s.focusTarget? target selector with
    | none => exact nil s₀ s
    | some i => exact hfinds i s (Stages.lt_size_of_focusTarget? hnodes h htarget) h
  | _ => exact List.forall_mem_cons.2 ⟨hself, List.forall_mem_nil _⟩

include hfocus

theorem effectsLog (h : Descends s₀ s) {source : Nat} (hsource : source < s₀.forest.size)
    (effects : List Effect) :
    Finds s₀ s (Session.effectsLog moveFocus focusLog source effects s) := by
  induction effects generalizing s with
  | nil => exact nil s₀ s
  | cons effect effects ih =>
    have hfirst := Stages.run hnodes hfocus h hsource effect
    exact (effectLog hnodes hfinds h source effect).append hfirst (ih (hfirst.descends h))

theorem bindingsLog (event : String) {source : Nat} (hsource : source < s₀.forest.size)
    (bindings : List Binding) (h : Descends s₀ s) :
    Finds s₀ s (Session.bindingsLog moveFocus focusLog event source bindings s) := by
  induction bindings generalizing s with
  | nil => exact nil s₀ s
  | cons binding bindings ih =>
    rw [Session.bindingsLog, fst_runBinding]
    split_ifs
    · have hfirst := Stages.effects hnodes hfocus h hsource binding.effects
      exact (effectsLog hnodes hfocus hfinds h hsource binding.effects).append hfirst
        (ih (hfirst.descends h))
    · exact ih h

theorem eventLogWith (h : Descends s₀ s) (event : String) (target : Nat) :
    Finds s₀ s (Session.eventLogWith moveFocus focusLog event target s) := by
  rw [Session.eventLogWith]
  split
  · exact nil s₀ s
  · next source hsource =>
    exact bindingsLog hnodes hfocus hfinds event (Stages.lt_size_of_closest? h (by decide) hsource)
      _ h

end

theorem focusLog (levels : Nat) {i : Nat} (hi : i < s.forest.size) (h : Descends s₀ s) :
    Finds s₀ s (Session.focusLog levels i s) := by
  induction levels generalizing i s with
  | zero =>
    rw [Session.focusLog]
    split_ifs
    · exact nil s₀ s
    · exact nil s₀ s
  | succ levels ih =>
    have hfocus : ∀ i s, i < s.forest.size → Descends s₀ s →
        Stages s₀ s (raised (Session.focusLog levels i s)) (Session.moveFocus levels i s) :=
      fun _ _ hi hs => Stages.moveFocus hnodes levels hi hs
    have hfinds : ∀ i s, i < s.forest.size → Descends s₀ s →
        Finds s₀ s (Session.focusLog levels i s) := fun _ _ hi hs => ih hi hs
    rw [Session.focusLog]
    split_ifs
    · exact nil s₀ s
    · dsimp only
      cases s.focused with
      | none =>
        have hfocused : Stages s₀ s [] { s with focused := some i } :=
          (Stages.blur s).before (Stages.focus hi)
        exact (eventLogWith hnodes hfocus hfinds (hfocused.descends h) "focus" i).after hfocused
      | some previous =>
        have hleft : Stages s₀ s [] { s with focused := none } := Stages.blur s
        have hran := Stages.eventWith hnodes hfocus (hleft.descends h) "blur" previous
        have hblurred := hleft.before hran
        have hroom := Nat.lt_of_lt_of_le hi (hblurred.size_eq ▸ Nat.le_add_right _ _)
        have hfocused := hblurred.after (Stages.focus hroom)
        exact ((eventLogWith hnodes hfocus hfinds (hleft.descends h) "blur" previous).after
          hleft).append hfocused
          (eventLogWith hnodes hfocus hfinds (hfocused.descends h) "focus" i)

theorem eventLog (h : Descends s₀ s) (event : String) (target : Nat) :
    Finds s₀ s (s.eventLog event target) :=
  eventLogWith hnodes (fun _ _ hi hs => Stages.moveFocus hnodes focusLevels hi hs)
    (fun _ _ hi hs => focusLog hnodes focusLevels hi hs) h event target

theorem dispatchLog (h : Descends s₀ s) (id event : String) :
    Finds s₀ s (s.dispatchLog id event) := by
  rw [Session.dispatchLog]
  cases hnode : s.node? id with
  | none => exact nil s₀ s
  | some target =>
    have hlt := hnodes id target ((node?_eq h id).symm.trans hnode)
    have hfocused : Stages s₀ s [] (s.refocus event target) :=
      Stages.refocus (Nat.lt_of_lt_of_le hlt h.forest.size) event
    exact (eventLog hnodes (hfocused.descends h) event target).after hfocused

/-- **The effects that a call runs** find what the call comes to in stages. -/
theorem log (h : Descends s₀ s) (network : Network) (interaction : Interaction) :
    Finds s₀ s (Call.log { before := s, network, interaction }) := by
  cases interaction with
  | dispatch id event => exact dispatchLog hnodes h id event
  | enter id value =>
    change Finds s₀ s (((s.node? id).map _).getD [])
    cases hnode : s.node? id with
    | none => exact nil s₀ s
    | some target =>
      have hlt := hnodes id target ((node?_eq h id).symm.trans hnode)
      have hset : Stages s₀ s [] (s.mapForest (·.setValue target value)) :=
        .single (.setValue hlt value)
      exact (dispatchLog hnodes (hset.descends h) id "input").after hset
  | hover id =>
    change Finds s₀ s (((s.node? id).map _).getD [])
    cases hnode : s.node? id with
    | none => exact nil s₀ s
    | some target => exact eventLog hnodes h hoverEvent target
  | mount | reveal | advance | endAnimation | write => exact nil s₀ s

end

end Finds

/-- **What ids lead to**, whatever is done with a page: between calls, and whenever a call runs an
effect, everything that names an id acts on the first element in the document that carries it.
The exception are ids whose first element at loading was taken out of the document since: then
everything that names the id acts on that. -/
theorem Follows.addresses {html : String} (hload : load html = .ok s₀) (h : Follows s₀ s) :
    (∀ id, s₀.Addresses s id) ∧ ∀ network interaction,
      ∀ execution ∈ Call.log { before := s, network, interaction }, ∀ id,
        s₀.Addresses execution.before id := by
  have hfresh := isFresh_of_load hload
  have hdescends := hfresh.descends h
  have hthins := h.thins hfresh
  refine ⟨addresses_of_thins hfresh hdescends hthins, fun network interaction execution hrun => ?_⟩
  obtain ⟨a, hstages⟩ := Finds.log hfresh.lt_size_of_node? hdescends network interaction _ hrun
  exact addresses_of_thins hfresh (hstages.descends hdescends) (hstages.thins hdescends hthins)

/-- Markup with an element that takes its text from the state, and a node inside it. -/
def curtain : String :=
  "<div data-ir-id=\"outer\" data-ir-bind=\"k\"><p data-ir-id=\"inner\"></p></div>"

/-- Once the state has a text for the element, the node inside it is out of the document. -/
theorem follows_curtain : ∃ s₀ s, load curtain = .ok s₀ ∧ Follows s₀ s ∧
    s₀.live? "inner" = some 2 ∧ s.live? "inner" = none ∧ s.live? "outer" = some 1 ∧
      (s.dispatch "inner" "click" (.ofAnswers [])).toOption.isSome := by
  obtain ⟨s₀, calls, s, hload, hcalls, hsearches⟩ :=
    exists_reaches_of_view (show curtain = .ofList _ from rfl) (.ofAnswers [])
      [.write "k" (.str "x")] (fun s₀ s => (s₀.live? "inner", s.live? "inner", s.live? "outer",
        (s.dispatch "inner" "click" (.ofAnswers [])).toOption.isSome))
      (some 2, none, some 1, true) (by decide)
  simp only [Prod.mk.injEq] at hsearches
  exact ⟨s₀, s, hload, hcalls.follows, hsearches⟩

/-- What ids lead to on the page with the text from the state. -/
theorem Follows.addresses_curtain : ∃ s₀ s, load curtain = .ok s₀ ∧ Follows s₀ s ∧
    (∀ id, s₀.Addresses s id) ∧ ∀ network interaction,
      ∀ execution ∈ Call.log { before := s, network, interaction }, ∀ id,
        s₀.Addresses execution.before id := by
  obtain ⟨s₀, s, hload, hfollows, -⟩ := follows_curtain
  exact ⟨s₀, s, hload, hfollows, Follows.addresses hload hfollows⟩

/-- **Not everything acts on what is in the document**: a click at the node that the text has
replaced does not fail. -/
theorem not_forall_actsOn_live : ¬ ∀ (html : String) (s₀ s : Session), load html = .ok s₀ →
    Follows s₀ s → ∀ id, s.ActsOn id (s.live? id) := by
  intro h
  obtain ⟨s₀, s, hload, hfollows, -, hgone, -, hclick⟩ := follows_curtain
  have hacts := h curtain s₀ s hload hfollows "inner"
  rw [hgone] at hacts
  rw [hacts.dispatch "click" (.ofAnswers []) (by decide)] at hclick
  cases hclick

end Session

end PageTree
