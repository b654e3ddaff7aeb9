import PageTree.Proofs.Session.Log

/-!
# Calls stage by stage

Whatever a call does, it does in stages, and there are few kinds of them. Attributes that style an
element, form values and texts change only at elements that the page was loaded with, and texts
only where a state key is bound; a toast comes into the region for toasts; and notes are taken that
leave the table and the schedule alone. Each toast comes from an effect that the call runs. A call
that moves the clock has ticks in place of stages.

## Main definitions

* `Raised`, `Call.raised`: a toast that an effect raised, and those that a call raised
* `Session.Stage`, `Session.Stages`: one stage, and stages one after the other, with what they
  raise

## Main results

* `Session.Stage.descends`: a stage keeps what lasts
* `Session.Stages.run`, `Session.Stages.moveFocus`: effects run in stages, and so do those that
  they lead to
* `Session.Stages.perform`: a call that does not fail consists of stages
-/

namespace PageTree

/-- A toast that an effect raised. -/
structure Raised where
  /-- Its element. -/
  element : Nat
  /-- The element that it came into. -/
  region : Nat
  /-- What the clock showed. -/
  moment : Nat
  /-- The message of the effect. -/
  message : String
  /-- The variant of the effect. -/
  variant : ToastVariant
  deriving DecidableEq, Repr

/-- The toast that an effect raises: one that says something, if there is a region for it. -/
def Execution.raised? (execution : Execution) : Option Raised :=
  match execution.effect with
  | .toast message variant =>
    (Session.stated message).bind fun message =>
      (Session.toastRegion? execution.before.forest).map fun region =>
        { element := execution.before.forest.size
          region
          moment := execution.before.clock
          message
          variant := variant.getD .info }
  | _ => none

/-- The toasts that effects raise. -/
def raised (log : List Execution) : List Raised := log.filterMap Execution.raised?

theorem raised_append (log more : List Execution) :
    raised (log ++ more) = raised log ++ raised more :=
  List.filterMap_append

/-- The toasts that a call raises. -/
def Call.raised (call : Call) : List Raised := PageTree.raised call.log

/-- Moving the clock raises nothing. -/
theorem Call.raised_advance (before : Session) (network : Network) (milliseconds : Nat) :
    Call.raised { before, network, interaction := .advance milliseconds } = [] := rfl

namespace Session

/-- The elements that a session holds on to, those of nodes and of toasts aside. -/
def held (s : Session) : List Nat :=
  s.animationClasses.map Prod.fst ++ (s.focused.toList ++ (s.awaited ++ s.spent))

/-- A session takes a note: the table, the clock and the toasts stay as they are, and elements that
it holds on to from then on are in the table. -/
structure Notes (s s' : Session) : Prop where
  forest : s'.forest = s.forest
  nodes : s'.nodes = s.nodes
  clock : s'.clock = s.clock
  schedule : s'.schedule = s.schedule
  toasts : s'.toasts = s.toasts
  held : ∀ i ∈ s'.held, i ∈ s.held ∨ i < s.forest.size

/-- One stage of a call on a page, with the toasts that it raises. -/
inductive Stage (s₀ : Session) : Session → List Raised → Session → Prop where
  | setAttribute {s : Session} {i : Nat} {name : String} (hi : i < s₀.forest.size)
      (hname : name ∈ Forest.restyled) (value : String) :
      Stage s₀ s [] (s.mapForest (·.setAttribute i name value))
  | removeAttribute {s : Session} {i : Nat} {name : String} (hi : i < s₀.forest.size)
      (hname : name ∈ Forest.restyled) : Stage s₀ s [] (s.mapForest (·.removeAttribute i name))
  | setValue {s : Session} {i : Nat} (hi : i < s₀.forest.size) (value : String) :
      Stage s₀ s [] (s.mapForest (·.setValue i value))
  | setText {s : Session} {i : Nat} (hi : i < s₀.forest.size) (hroot : i ≠ rootIndex)
      (hbound : s₀.forest.hasAttribute i bindAttribute = true) (text : String) :
      Stage s₀ s [] (s.mapForest (·.setText i text))
  | addToast {s : Session} {region : Nat} (hregion : toastRegion? s.forest = some region)
      (message : String) (variant : ToastVariant) :
      Stage s₀ s
        [{ element := s.forest.size, region, moment := s.clock, message, variant }]
        (s.addToast message variant)
  | note {s s' : Session} (h : Notes s s') : Stage s₀ s [] s'

/-- Stages one after the other, with all the toasts that they raise. -/
inductive Stages (s₀ : Session) : Session → List Raised → Session → Prop where
  | refl (s : Session) : Stages s₀ s [] s
  | snoc {s s' s'' : Session} {a b : List Raised} (h : Stages s₀ s a s')
      (hstage : Stage s₀ s' b s'') : Stages s₀ s (a ++ b) s''

variable {s₀ s s' s'' : Session}

/-- **A stage keeps what lasts.** -/
theorem Stage.descends {a : List Raised} (h : Descends s₀ s) (hstage : Stage s₀ s a s') :
    Descends s₀ s' := by
  cases hstage with
  | setAttribute hi hname value => exact h.of_forest (h.forest.setAttribute _ hname value) rfl
  | removeAttribute hi hname => exact h.of_forest (h.forest.removeAttribute _ hname) rfl
  | setValue hi value => exact h.of_forest (h.forest.setValue _ value) rfl
  | setText hi hroot hbound text => exact h.of_forest (h.forest.setText _ text) rfl
  | addToast hregion message variant => exact h.addToast message variant
  | note hnotes => exact h.of_forest (hnotes.forest ▸ h.forest) hnotes.nodes

theorem Stage.size_eq {a : List Raised} (hstage : Stage s₀ s a s') :
    s'.forest.size = s.forest.size + a.length := by
  cases hstage with
  | setAttribute hi hname value => exact Forest.size_modify _ _
  | removeAttribute hi hname => exact Forest.size_modify _ _
  | setValue hi value => exact Forest.size_modify _ _
  | setText hi hroot hbound text => exact Forest.size_setText _ _
  | addToast hregion message variant =>
    rw [Session.addToast, hregion]
    exact (Forest.size_setText _ _).trans (Forest.size_append _ _ _)
  | note hnotes => exact congrArg Forest.size hnotes.forest

namespace Stages

theorem descends {a : List Raised} (hstages : Stages s₀ s a s') (h : Descends s₀ s) :
    Descends s₀ s' := by
  induction hstages with
  | refl => exact h
  | snoc _ hstage ih => exact hstage.descends ih

/-- **The table grows by the toasts that are raised**, and by nothing else. -/
theorem size_eq {a : List Raised} (hstages : Stages s₀ s a s') :
    s'.forest.size = s.forest.size + a.length := by
  induction hstages with
  | refl => rfl
  | snoc _ hstage ih => rw [hstage.size_eq, ih, List.length_append, Nat.add_assoc]

theorem single {a : List Raised} (h : Stage s₀ s a s') : Stages s₀ s a s' := by
  have := (Stages.refl s).snoc h
  rwa [List.nil_append] at this

theorem trans {a b : List Raised} (h : Stages s₀ s a s') (h' : Stages s₀ s' b s'') :
    Stages s₀ s (a ++ b) s'' := by
  induction h' with
  | refl => rwa [List.append_nil]
  | snoc _ hstage ih =>
    rw [← List.append_assoc]
    exact ih.snoc hstage

/-- Stages that raise nothing come in front of others unnoticed. -/
theorem before {a : List Raised} (h : Stages s₀ s [] s') (h' : Stages s₀ s' a s'') :
    Stages s₀ s a s'' := by
  have := h.trans h'
  rwa [List.nil_append] at this

/-- Stages that raise nothing come behind others unnoticed. -/
theorem after {a : List Raised} (h : Stages s₀ s a s') (h' : Stages s₀ s' [] s'') :
    Stages s₀ s a s'' := by
  have := h.trans h'
  rwa [List.append_nil] at this

/-! ## Changes of elements -/

theorem setStyleProperty {i : Nat} (hi : i < s₀.forest.size) (s : Session)
    (property value : String) :
    Stages s₀ s [] (s.mapForest (·.setStyleProperty i property value)) := by
  rw [mapForest, Forest.setStyleProperty]
  split_ifs
  · exact single (.removeAttribute hi (by decide))
  · exact single (.setAttribute hi (by decide) _)

theorem addClass {i : Nat} (hi : i < s₀.forest.size) (s : Session) (name : String) :
    Stages s₀ s [] (s.mapForest (·.addClass i name)) := by
  rw [mapForest, Forest.addClass]
  split_ifs
  · exact .refl s
  · exact single (.setAttribute hi (by decide) _)

theorem removeClass {i : Nat} (hi : i < s₀.forest.size) (s : Session) (name : String) :
    Stages s₀ s [] (s.mapForest (·.removeClass i name)) := by
  rw [mapForest, Forest.removeClass]
  split_ifs
  · exact single (.setAttribute hi (by decide) _)
  · exact .refl s

/-- Changes of the table one after the other, each of which is made in stages. -/
theorem mapForest_foldl {α : Type} {change : Forest → α → Forest}
    (h : ∀ (s : Session) (a : α), Stages s₀ s [] (s.mapForest (change · a))) (as : List α)
    (s : Session) : Stages s₀ s [] (s.mapForest (as.foldl change)) := by
  induction as generalizing s with
  | nil => exact .refl s
  | cons a as ih => exact (h s a).before (ih (s.mapForest (change · a)))

/-- Changes of the session one after the other, each of which is made in stages. -/
theorem foldl {α : Type} {change : Session → α → Session} {as : List α}
    (hchange : ∀ a ∈ as, ∀ s, Descends s₀ s → Stages s₀ s [] (change s a)) (h : Descends s₀ s) :
    Stages s₀ s [] (as.foldl change s) := by
  induction as generalizing s with
  | nil => exact .refl s
  | cons a as ih =>
    have hfirst := hchange a (List.mem_cons_self ..) s h
    exact hfirst.before
      (ih (fun a ha => hchange a (List.mem_cons_of_mem _ ha)) (hfirst.descends h))

/-! ## Writing the state -/

/-- Elements with an attribute that lasts are those that the page was loaded with. -/
theorem lt_size_of_attribute? (h : Descends s₀ s) {i : Nat} {name value : String}
    (hname : name ∉ Forest.restyled) (hvalue : s.forest.attribute? i name = some value) :
    i < s₀.forest.size := by
  by_contra hi
  rw [h.forest.lasting i name hname, Forest.attribute?, Forest.get_of_size_le (Nat.not_lt.1 hi)]
    at hvalue
  cases hvalue

theorem lt_size_of_motion? (h : Descends s₀ s) {i : Nat} {motion : Motion}
    (hmotion : s.motion? i = some motion) : i < s₀.forest.size := by
  obtain ⟨json, hjson, -⟩ := Option.bind_eq_some_iff.1 hmotion
  obtain ⟨value, hvalue, -⟩ := Option.bind_eq_some_iff.1 hjson
  exact lt_size_of_attribute? h (by decide) hvalue

theorem lt_size_of_closest? (h : Descends s₀ s) {i j : Nat} {name : String}
    (hname : name ∉ Forest.restyled)
    (hfound : s.forest.closest? i (fun e => OrderedMap.contains name e.attributes) = some j) :
    j < s₀.forest.size := by
  rw [Forest.closest?] at hfound
  have hhas := List.find?_some hfound
  obtain ⟨value, hvalue⟩ := Option.isSome_iff_exists.1 hhas
  exact lt_size_of_attribute? h hname hvalue

theorem refreshValue (h : Descends s₀ s) {i : Nat} (hroot : i ≠ rootIndex) :
    Stages s₀ s [] (s.refreshValue i) := by
  rw [Session.refreshValue]
  split
  · exact .refl s
  · next value hbound =>
    obtain ⟨key, hkey, -⟩ := Option.bind_eq_some_iff.1 hbound
    have hi := lt_size_of_attribute? h (by decide) hkey
    rw [h.forest.lasting i bindAttribute (by decide)] at hkey
    dsimp only [mapForest]
    split_ifs
    · exact single (.setValue hi _)
    · exact single (.setText hi hroot (Option.isSome_iff_exists.2 ⟨key, hkey⟩) _)

theorem refreshDisplay (h : Descends s₀ s) (i : Nat) : Stages s₀ s [] (s.refreshDisplay i) := by
  rw [Session.refreshDisplay]
  split
  · exact .refl s
  · next key hkey => exact setStyleProperty (lt_size_of_attribute? h (by decide) hkey) s _ _

/-- A note of nothing but an element. -/
theorem note {s' : Session} {i : Nat} (hi : i < s.forest.size) (hforest : s'.forest = s.forest)
    (hnodes : s'.nodes = s.nodes) (hclock : s'.clock = s.clock)
    (hschedule : s'.schedule = s.schedule) (htoasts : s'.toasts = s.toasts)
    (hheld : ∀ j ∈ s'.held, j ∈ s.held ∨ j = i) : Stages s₀ s [] s' :=
  single (.note ⟨hforest, hnodes, hclock, hschedule, htoasts, fun _ hj =>
    (hheld _ hj).imp_right fun heq => Nat.lt_of_le_of_lt (Nat.le_of_eq heq) hi⟩)

theorem move {i : Nat} (hi : i < s₀.forest.size) (s : Session) (motion : Motion) :
    Stages s₀ s [] (s.move i motion) := by
  cases motion with
  | preset p timing =>
    exact (addClass hi s _).before (mapForest_foldl (fun s d => setStyleProperty hi s d.1 d.2) _ _)
  | keyframes frames timing iterations fill =>
    exact single (.note ⟨rfl, rfl, rfl, rfl, rfl, fun _ hj => .inl hj⟩)

theorem refreshMotion (h : Descends s₀ s) (i : Nat) : Stages s₀ s [] (s.refreshMotion i) := by
  rw [Session.refreshMotion]
  split
  · exact .refl s
  · next motion hmotion =>
    have hi := lt_size_of_motion? h hmotion
    split_ifs
    · exact .refl s
    · have hspent : Stages s₀ s [] { s with spent := i :: s.spent } := by
        refine note (Nat.lt_of_lt_of_le hi h.forest.size) rfl rfl rfl rfl rfl fun j hj => ?_
        simp only [held, List.mem_append, List.mem_cons] at hj ⊢
        tauto
      exact hspent.before (move hi _ motion)
    · refine note (Nat.lt_of_lt_of_le hi h.forest.size) rfl rfl rfl rfl rfl fun j hj => ?_
      simp only [held, List.mem_append, List.mem_filter] at hj ⊢
      tauto
    · exact .refl s

theorem refresh (h : Descends s₀ s) : Stages s₀ s [] s.refresh := by
  have hvalues : Stages s₀ s []
      (s.forest.preorder.foldl (fun s i => (s.refreshValue i).refreshDisplay i) s) :=
    foldl (fun i hi s hs =>
      (refreshValue hs (Forest.ne_root_of_mem_preorder h.forest.wellFormed hi)).before
        (refreshDisplay (hs.refreshValue i) i)) h
  exact hvalues.before (foldl (fun i _ s hs => refreshMotion hs i) (hvalues.descends h))

theorem write (h : Descends s₀ s) (key : String) (value : Json) :
    Stages s₀ s [] (s.write key value) := by
  have hstate : Stages s₀ s [] { s with state := (s.state.withValueAt? key value).getD s.state } :=
    single (.note ⟨rfl, rfl, rfl, rfl, rfl, fun _ hj => .inl hj⟩)
  exact hstate.before (refresh (hstate.descends h))

theorem mountMotion (h : Descends s₀ s) (i : Nat) : Stages s₀ s [] (s.mountMotion i) := by
  rw [Session.mountMotion]
  split
  · exact .refl s
  · next motion hmotion =>
    have hi := lt_size_of_motion? h hmotion
    split
    · exact move hi s motion
    · refine note (Nat.lt_of_lt_of_le hi h.forest.size) rfl rfl rfl rfl rfl fun j hj => ?_
      simp only [held, List.mem_append, List.mem_singleton] at hj ⊢
      tauto
    · exact .refl s

theorem mount (h : Descends s₀ s) : Stages s₀ s [] s.mount := by
  rw [Session.mount]
  split_ifs
  · exact .refl s
  · have hmounted : Stages s₀ s [] { s with mounted := true } :=
      single (.note ⟨rfl, rfl, rfl, rfl, rfl, fun _ hj => .inl hj⟩)
    have hmotions : Stages s₀ { s with mounted := true } []
        (s.forest.preorder.foldl Session.mountMotion { s with mounted := true }) :=
      foldl (fun i _ s hs => mountMotion hs i) (hmounted.descends h)
    exact (hmounted.before hmotions).before (refresh (hmotions.descends (hmounted.descends h)))

/-! ## Effects -/

theorem toggle {i : Nat} (hi : i < s₀.forest.size) (s : Session) :
    Stages s₀ s [] (s.toggle i) := by
  rw [Session.toggle, mapForest]
  split_ifs
  · exact (setStyleProperty hi s _ _).before (single (.removeAttribute hi (by decide)))
  · exact setStyleProperty hi s _ _

theorem animate {i : Nat} (h : Descends s₀ s) (hi : i < s₀.forest.size) (name : String) :
    Stages s₀ s [] (s.animate name i) := by
  refine (addClass hi s (animateClass name)).before
    (note (Nat.lt_of_lt_of_le hi ?_) rfl rfl rfl rfl rfl fun j hj => ?_)
  · exact ((addClass hi s _).descends h).forest.size
  · simp only [held, Session.animate, List.map_append, List.mem_append, List.map_cons, List.map_nil,
      List.mem_singleton] at hj ⊢
    tauto

theorem addToast (s : Session) (source : Nat) (message : Option String)
    (variant : Option ToastVariant) :
    Stages s₀ s (raised [⟨s, source, .toast message variant⟩])
      (((stated message).map fun message => s.addToast message (variant.getD .info)).getD s) := by
  cases hmessage : stated message with
  | none =>
    have hnone : raised [⟨s, source, .toast message variant⟩] = [] := by
      simp [raised, Execution.raised?, hmessage]
    rw [hnone]
    exact .refl s
  | some text =>
    cases hregion : toastRegion? s.forest with
    | none =>
      have hnone : raised [⟨s, source, .toast message variant⟩] = [] := by
        simp [raised, Execution.raised?, hregion]
      rw [hnone, Option.map_some, Option.getD_some, Session.addToast, hregion]
      exact .refl s
    | some region =>
      have hsome : raised [⟨s, source, .toast message variant⟩] =
          [⟨s.forest.size, region, s.clock, text, variant.getD .info⟩] := by
        simp [raised, Execution.raised?, hmessage, hregion]
      rw [hsome]
      exact single (.addToast hregion text _)

/-! ## Around effects -/

theorem moveOn (h : Descends s₀ s) (trigger : Trigger) (i : Nat) :
    Stages s₀ s [] (s.moveOn trigger i) := by
  rw [Session.moveOn]
  split
  · exact .refl s
  · next mover hmover =>
    split
    · split_ifs
      · exact move (lt_size_of_closest? h (by decide) hmover) s _
      · exact .refl s
    · exact .refl s

theorem settleErrand (h : Descends s₀ s) (network : Network) (errand : Errand) :
    Stages s₀ s [] (Session.settleErrand (s, network) errand).1 := by
  rw [Session.settleErrand]
  dsimp only
  split
  · exact write h _ _
  · exact .refl s

theorem settle (h : Descends s₀ s) (network : Network) :
    Stages s₀ s [] (s.settle network).1 := by
  have hfold (errands : List Errand) : ∀ {s : Session} (network : Network), Descends s₀ s →
      Stages s₀ s [] (errands.foldl Session.settleErrand (s, network)).1 := by
    induction errands with
    | nil => exact fun _ _ => .refl _
    | cons errand errands ih =>
      intro s network hs
      have hfirst := settleErrand hs network errand
      exact hfirst.before (ih _ (hfirst.descends hs))
  have htaken : Stages s₀ s [] { s with errands := [] } :=
    single (.note ⟨rfl, rfl, rfl, rfl, rfl, fun _ hj => .inl hj⟩)
  exact htaken.before (hfold s.errands network (htaken.descends h))

/-- An element in the table gets the focus. -/
theorem focus {i : Nat} (hi : i < s.forest.size) : Stages s₀ s [] { s with focused := some i } := by
  refine note hi rfl rfl rfl rfl rfl fun j hj => ?_
  simp only [held, List.mem_append, Option.toList_some, List.mem_singleton] at hj ⊢
  tauto

/-- The focus goes. -/
theorem blur (s : Session) : Stages s₀ s [] { s with focused := none } := by
  refine single (.note ⟨rfl, rfl, rfl, rfl, rfl, fun j hj => .inl ?_⟩)
  simp only [held, List.mem_append, Option.toList_none, List.not_mem_nil] at hj ⊢
  tauto

theorem refocus {target : Nat} (hi : target < s.forest.size) (event : String) :
    Stages s₀ s [] (s.refocus event target) := by
  rw [Session.refocus]
  split_ifs
  · exact focus hi
  · exact blur s
  · exact .refl s

/-! ## What runs -/

section

variable (hnodes : ∀ id i, s₀.node? id = some i → i < s₀.forest.size)

include hnodes

theorem lt_size_of_target? (h : Descends s₀ s) {id : Option String} {i : Nat}
    (htarget : s.target? id = some i) : i < s₀.forest.size := by
  obtain ⟨id, -, hnode⟩ := Option.bind_eq_some_iff.1 htarget
  exact hnodes id i ((node?_eq h id).symm.trans hnode)

theorem lt_size_of_element (h : Descends s₀ s) {id : String} {i : Nat}
    (helement : s.element id = .ok i) : i < s₀.forest.size :=
  hnodes id i ((node?_eq h id).symm.trans (node?_of_element helement))

theorem lt_size_of_focusTarget? (h : Descends s₀ s) {target selector : Option String} {i : Nat}
    (htarget : s.focusTarget? target selector = some i) : i < s.forest.size := by
  rw [focusTarget?] at htarget
  split at htarget
  · rw [Forest.select?] at htarget
    split at htarget
    · cases htarget
    · exact Forest.lt_size_of_mem_preorder h.forest.wellFormed
        (List.mem_of_find?_eq_some htarget)
  · exact Nat.lt_of_lt_of_le (lt_size_of_target? hnodes h htarget) h.forest.size

theorem lt_size_of_animationTarget? (h : Descends s₀ s) {target : Option String} {source i : Nat}
    (hsource : source < s₀.forest.size) (htarget : s.animationTarget? target source = some i) :
    i < s₀.forest.size := by
  rw [animationTarget?] at htarget
  split at htarget
  · next id _ => exact hnodes id i ((node?_eq h id).symm.trans htarget)
  · exact Option.some.inj htarget ▸ hsource

section

variable {moveFocus : Nat → Session → Session} {focusLog : Nat → Session → List Execution}
  (hfocus : ∀ i s, i < s.forest.size → Descends s₀ s →
    Stages s₀ s (raised (focusLog i s)) (moveFocus i s))

include hfocus

/-- **An effect runs in stages**, and raises what its log says. -/
theorem run (h : Descends s₀ s) {source : Nat} (hsource : source < s₀.forest.size)
    (effect : Effect) : Stages s₀ s (raised (effectLog focusLog source effect s))
      (s.run moveFocus source effect) := by
  have hgetD {α : Type} (value : Option α) (act : α → Session)
      (hact : ∀ a, value = some a → Stages s₀ s [] (act a)) :
      Stages s₀ s [] ((value.map act).getD s) := by
    cases value with
    | none => exact .refl s
    | some a => exact hact a rfl
  have hnote {s' : Session} (hforest : s'.forest = s.forest) (hnodes : s'.nodes = s.nodes)
      (hclock : s'.clock = s.clock) (hschedule : s'.schedule = s.schedule)
      (htoasts : s'.toasts = s.toasts) (hheld : s'.held = s.held) : Stages s₀ s [] s' :=
    single (.note ⟨hforest, hnodes, hclock, hschedule, htoasts, fun _ hj => .inl (hheld ▸ hj)⟩)
  cases effect with
  | toggle target => exact hgetD _ _ fun i hi => toggle (lt_size_of_target? hnodes h hi) s
  | setState key value => exact hgetD _ _ fun key _ => write h key value
  | appendState key value => exact hgetD _ _ fun key _ => write h key _
  | fetch url method body resultKey => exact hgetD _ _ fun url _ => hnote rfl rfl rfl rfl rfl rfl
  | emit event => exact hnote rfl rfl rfl rfl rfl rfl
  | animate target animation =>
    rw [Session.run]
    split
    · next i name hi _ => exact animate h (lt_size_of_animationTarget? hnodes h hsource hi) name
    · exact .refl s
  | focus target selector =>
    rw [Session.run, effectLog]
    cases htarget : s.focusTarget? target selector with
    | none => exact .refl s
    | some i => exact hfocus i s (lt_size_of_focusTarget? hnodes h htarget) h
  | toast message variant => exact addToast s source message variant

theorem effects (h : Descends s₀ s) {source : Nat} (hsource : source < s₀.forest.size)
    (effects : List Effect) : Stages s₀ s (raised (effectsLog moveFocus focusLog source effects s))
      (effects.foldl (Session.run moveFocus source) s) := by
  induction effects generalizing s with
  | nil => exact .refl s
  | cons effect effects ih =>
    have hfirst := run hnodes hfocus h hsource effect
    rw [effectsLog, raised_append]
    exact hfirst.trans (ih (hfirst.descends h))

theorem bindings (event : String) {source : Nat} (hsource : source < s₀.forest.size)
    (bindings : List Binding) (count : Nat) (h : Descends s₀ s) :
    Stages s₀ s (raised (bindingsLog moveFocus focusLog event source bindings s))
      (bindings.foldl (runBinding moveFocus event source) (s, count)).1 := by
  induction bindings generalizing s count with
  | nil => exact .refl s
  | cons binding bindings ih =>
    have hfirst : Stages s₀ s
        (raised (if binding.event = event ∧ binding.conditions.all (Condition.holds s.state) then
          effectsLog moveFocus focusLog source binding.effects s else []))
        (runBinding moveFocus event source (s, count) binding).1 := by
      rw [fst_runBinding]
      split_ifs
      · exact effects hnodes hfocus h hsource binding.effects
      · exact .refl s
    have hsame : (runBinding moveFocus event source (s, 0) binding).1 =
        (runBinding moveFocus event source (s, count) binding).1 := by
      rw [fst_runBinding, fst_runBinding]
    rw [bindingsLog, raised_append, hsame]
    exact hfirst.trans (ih _ (hfirst.descends h))

theorem eventWith (h : Descends s₀ s) (event : String) (target : Nat) :
    Stages s₀ s (raised (eventLogWith moveFocus focusLog event target s))
      (runBindingsWith moveFocus event target s).1 := by
  rw [eventLogWith, runBindingsWith]
  cases hsource : s.forest.closest? target
      (fun e => OrderedMap.contains eventsAttribute e.attributes) with
  | none => exact .refl s
  | some source =>
    have hlt := lt_size_of_closest? h (by decide) hsource
    exact bindings hnodes hfocus event hlt _ 0 h

end

/-- **Moving the focus happens in stages**, however many bindings that runs. -/
theorem moveFocus (levels : Nat) {i : Nat} (hi : i < s.forest.size) (h : Descends s₀ s) :
    Stages s₀ s (raised (focusLog levels i s)) (Session.moveFocus levels i s) := by
  induction levels generalizing i s with
  | zero =>
    rw [focusLog, Session.moveFocus]
    split_ifs
    · exact .refl s
    · exact focus hi
  | succ levels ih =>
    have hfocus : ∀ i s, i < s.forest.size → Descends s₀ s →
        Stages s₀ s (raised (focusLog levels i s)) (Session.moveFocus levels i s) :=
      fun i s hi hs => ih hi hs
    rw [focusLog, Session.moveFocus]
    split_ifs
    · exact .refl s
    · dsimp only
      cases s.focused with
      | none =>
        have hfocused : Stages s₀ s [] { s with focused := some i } :=
          (blur s).before (focus hi)
        exact hfocused.before (eventWith hnodes hfocus (hfocused.descends h) "focus" i)
      | some previous =>
        -- the bindings for the blur run while nothing has the focus, and may add toasts
        have hleft : Stages s₀ s [] { s with focused := none } := blur s
        have hblurred := hleft.before
          (eventWith hnodes hfocus (hleft.descends h) "blur" previous)
        have hroom := Nat.lt_of_lt_of_le hi (hblurred.size_eq ▸ Nat.le_add_right _ _)
        have hfocused := hblurred.after (focus hroom)
        rw [raised_append]
        exact hfocused.trans (eventWith hnodes hfocus (hfocused.descends h) "focus" i)

theorem event (h : Descends s₀ s) (event : String) (target : Nat) :
    Stages s₀ s (raised (s.eventLog event target)) (s.runBindings event target).1 :=
  eventWith hnodes (fun _ _ hi hs => moveFocus hnodes focusLevels hi hs) h event target

theorem fire (h : Descends s₀ s) (event : String) (trigger : Option Trigger) (target : Nat)
    (network : Network) :
    Stages s₀ s (raised (s.eventLog event target))
      (s.fire event trigger target network).session := by
  have hran := Stages.event hnodes h event target
  rw [Session.fire]
  dsimp only
  cases trigger with
  | none => exact hran.after (settle (hran.descends h) network)
  | some trigger =>
    have hmoved := hran.after (moveOn (hran.descends h) trigger target)
    exact hmoved.after (settle (hmoved.descends h) network)

theorem dispatch (h : Descends s₀ s) {id event : String} {network : Network} {outcome : Outcome}
    (hdispatch : s.dispatch id event network = .ok outcome) :
    Stages s₀ s (raised (s.dispatchLog id event)) outcome.session := by
  by_cases hheard : heardEvents.contains event = true
  · rw [dispatch_of_heard hheard, element] at hdispatch
    rw [dispatchLog]
    cases hnode : s.node? id with
    | none =>
      rw [hnode] at hdispatch
      cases hdispatch
    | some target =>
      rw [hnode] at hdispatch
      obtain rfl := Except.ok.inj hdispatch
      have hlt := hnodes id target ((node?_eq h id).symm.trans hnode)
      have hfocused : Stages s₀ s [] (s.refocus event target) :=
        refocus (Nat.lt_of_lt_of_le hlt h.forest.size) event
      exact hfocused.before (fire hnodes (hfocused.descends h) event _ target network)
  · rw [dispatch_of_unheard (Bool.not_eq_true _ ▸ hheard)] at hdispatch
    cases hdispatch

theorem reveal (h : Descends s₀ s) {id : String} {awaited : Bool}
    (hreveal : s.reveal id = .ok (awaited, s')) : Stages s₀ s [] s' := by
  obtain ⟨target, htarget, hreveal⟩ := exists_of_bind_eq_ok hreveal
  have hlt : target < s₀.forest.size := lt_size_of_element hnodes h htarget
  split_ifs at hreveal
  · obtain rfl := (Prod.mk.inj (Except.ok.inj hreveal)).2
    have herased : Stages s₀ s [] { s with awaited := s.awaited.erase target } := by
      refine single (.note ⟨rfl, rfl, rfl, rfl, rfl, fun j hj => .inl ?_⟩)
      simp only [held, List.mem_append] at hj ⊢
      have hsub : j ∈ s.awaited.erase target → j ∈ s.awaited := List.mem_of_mem_erase
      tauto
    cases motion? { s with awaited := s.awaited.erase target } target with
    | none => exact herased
    | some motion => exact herased.before (move hlt _ motion)
  · obtain rfl := (Prod.mk.inj (Except.ok.inj hreveal)).2
    exact .refl s

theorem endAnimation (h : Descends s₀ s) {id : String} (hended : s.endAnimation id = .ok s') :
    Stages s₀ s [] s' := by
  obtain ⟨target, htarget, hended⟩ := exists_of_bind_eq_ok hended
  have hlt : target < s₀.forest.size := lt_size_of_element hnodes h htarget
  obtain rfl := Except.ok.inj hended
  have hclass (s : Session) (entry : Nat × String) :
      Stages s₀ s [] (s.mapForest (·.removeClass target entry.2)) := removeClass hlt s entry.2
  have hremoved := mapForest_foldl hclass
    (s.animationClasses.partition fun entry => entry.1 = target).1 s
  have hothers : ∀ entry ∈ (s.animationClasses.partition fun entry => entry.1 = target).2,
      entry ∈ s.animationClasses := by
    rw [List.partition_eq_filter_filter]
    exact fun _ => List.mem_of_mem_filter
  refine hremoved.before (single (.note ⟨rfl, rfl, rfl, rfl, rfl, fun j hj => .inl ?_⟩))
  simp only [held, mapForest, List.mem_append, List.mem_map] at hj ⊢
  rcases hj with ⟨entry, hentry, rfl⟩ | hj
  · exact .inl ⟨entry, hothers entry hentry, rfl⟩
  · exact .inr hj

/-- **A call that does not fail consists of stages**, unless it moves the clock, and raises what its
log says. -/
theorem perform (h : Descends s₀ s) {network : Network} {interaction : Interaction}
    {report : Report} {v : Visit}
    (hperform : Session.perform { session := s, network } interaction = .ok (report, v))
    (hstill : ∀ milliseconds, interaction ≠ .advance milliseconds) :
    Stages s₀ s (Call.raised { before := s, network, interaction }) v.session := by
  cases interaction with
  | mount =>
    obtain rfl := (Prod.mk.inj (Except.ok.inj hperform)).2
    exact mount h
  | dispatch id event =>
    obtain ⟨outcome, houtcome, hv⟩ := exists_of_map_eq_ok hperform
    rw [← (Prod.mk.inj hv).2]
    exact dispatch hnodes h houtcome
  | enter id value =>
    obtain ⟨outcome, houtcome, hv⟩ := exists_of_map_eq_ok hperform
    obtain ⟨target, htarget, houtcome⟩ := exists_of_bind_eq_ok houtcome
    rw [← (Prod.mk.inj hv).2]
    have hset : Stages s₀ s [] (s.mapForest (·.setValue target value)) :=
      single (.setValue (lt_size_of_element hnodes h htarget) value)
    rw [Call.raised, Call.log_enter (node?_of_element htarget)]
    exact hset.before (dispatch hnodes (hset.descends h) houtcome)
  | hover id =>
    obtain ⟨outcome, houtcome, hv⟩ := exists_of_map_eq_ok hperform
    obtain ⟨target, htarget, houtcome⟩ := exists_of_bind_eq_ok houtcome
    rw [← (Prod.mk.inj hv).2, ← Except.ok.inj houtcome]
    rw [Call.raised, Call.log_hover (node?_of_element htarget)]
    exact fire hnodes h hoverEvent _ target network
  | reveal id =>
    obtain ⟨⟨awaited, session⟩, hreveal, hv⟩ := exists_of_map_eq_ok hperform
    rw [← (Prod.mk.inj hv).2]
    exact reveal hnodes h hreveal
  | advance milliseconds => cases hstill milliseconds rfl
  | endAnimation id =>
    obtain ⟨session, hended, hv⟩ := exists_of_map_eq_ok hperform
    rw [← (Prod.mk.inj hv).2]
    exact endAnimation hnodes h hended
  | write key value =>
    obtain rfl := (Prod.mk.inj (Except.ok.inj hperform)).2
    exact write h key value

end

end Stages

end Session

end PageTree
