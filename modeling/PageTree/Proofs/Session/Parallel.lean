import PageTree.Proofs.Markup.Counterpart
import PageTree.Proofs.Session.Descent

/-!
# Two sessions side by side

Two sessions whose tables match stay side by side whatever is done with both of them, as long as no
binding moves the focus by a selector: a call succeeds on both or fails on both, reports the same,
sends the same requests, and leaves sessions that are side by side again.

## Main definitions

* `Session.Parallel`: two sessions side by side
* `Session.IsUnselective`: no binding moves the focus by a selector

## Main results

* `Session.Parallel.run`, `Session.Parallel.moveFocus`: effects on both
* `Session.Parallel.runBindings`: the bindings for an event on both
-/

namespace PageTree

/-- The timer of a toast in another place. -/
def Timer.moved (place : Nat → Nat) (timer : Timer) : Timer :=
  { timer with toast := place timer.toast }

namespace Schedule

variable (place : Nat → Nat)

theorem insert_map (timer : Timer) (schedule : Schedule) :
    insert (timer.moved place) (schedule.map (Timer.moved place)) =
      (insert timer schedule).map (Timer.moved place) := by
  induction schedule with
  | nil => rfl
  | cons other rest ih =>
    rw [List.map_cons, insert, insert, ih]
    change (if other.due ≤ timer.due then _ else _) = _
    split_ifs <;> rfl

theorem add_map (clock toast : Nat) (schedule : Schedule) :
    add clock (place toast) (schedule.map (Timer.moved place)) =
      (add clock toast schedule).map (Timer.moved place) := by
  have hfold (timers : List Timer) : ∀ schedule : Schedule,
      (timers.map (Timer.moved place)).foldl (fun s timer => insert timer s)
          (schedule.map (Timer.moved place)) =
        (timers.foldl (fun s timer => insert timer s) schedule).map (Timer.moved place) := by
    induction timers with
    | nil => exact fun _ => rfl
    | cons timer timers ih =>
      intro schedule
      rw [List.map_cons, List.foldl_cons, List.foldl_cons, insert_map, ih]
  exact hfold (timeline clock toast) schedule

theorem followUp_map (timer : Timer) (schedule : Schedule) :
    followUp (timer.moved place) (schedule.map (Timer.moved place)) =
      (followUp timer schedule).map (Timer.moved place) := by
  obtain ⟨moment, toast, change⟩ := timer
  cases change with
  | hide => exact insert_map place ⟨after moment removeDelay, toast, .remove⟩ schedule
  | «show» | remove => rfl

end Schedule

/-- The effect does not move the focus by a selector. -/
def Effect.IsUnselective : Effect → Prop
  | .focus _ selector => Session.stated selector = none
  | _ => True

instance : (effect : Effect) → Decidable effect.IsUnselective
  | .focus _ selector => inferInstanceAs (Decidable (Session.stated selector = none))
  | .toggle _ | .setState .. | .appendState .. | .fetch .. | .emit _ | .animate .. | .toast .. =>
    .isTrue trivial

/-- No effect of the binding moves the focus by a selector. -/
def Binding.IsUnselective (binding : Binding) : Prop :=
  ∀ effect ∈ binding.effects, effect.IsUnselective

instance (binding : Binding) : Decidable binding.IsUnselective :=
  inferInstanceAs (Decidable (∀ effect ∈ binding.effects, effect.IsUnselective))

namespace Session

open Forest

/-- No binding moves the focus by a selector. -/
def IsUnselective (s : Session) : Prop := ∀ i, ∀ binding ∈ s.bindings i, binding.IsUnselective

/-- Two sessions side by side, each with the one that it came from: their tables match, and what
one of them keeps on elements the other keeps on their counterparts. -/
structure Parallel (σ : Placement) (s₀ t₀ s t : Session) : Prop where
  left : Descends s₀ s
  right : Descends t₀ t
  forest : Matches σ s.forest t.forest
  nodes : ∀ id, t.node? id = (s.node? id).map σ.place
  innerNodes : ∀ id i, s.node? id = some i → σ.isFrame i = false
  state : t.state = s.state
  mounted : t.mounted = s.mounted
  clock : t.clock = s.clock
  schedule : t.schedule = s.schedule.map (Timer.moved σ.place)
  toasts : t.toasts = s.toasts.map (Prod.map σ.place id)
  newToasts : ∀ toast ∈ s.toasts, σ.isFrame toast.1 = false ∧ s₀.forest.size ≤ toast.1
  signals : t.signals = s.signals
  animations : t.animations = s.animations
  animationClasses : t.animationClasses = s.animationClasses.map (Prod.map σ.place id)
  focused : t.focused = s.focused.map σ.place
  awaited : t.awaited = s.awaited.map σ.place
  spent : t.spent = s.spent.map σ.place
  errands : t.errands = s.errands

namespace Parallel

variable {σ : Placement} {s₀ t₀ s t : Session}

/-! ## What both sessions read -/

theorem wellFormed_left (h : Parallel σ s₀ t₀ s t) : s.forest.WellFormed := h.left.forest.wellFormed

theorem wellFormed_right (h : Parallel σ s₀ t₀ s t) : t.forest.WellFormed :=
  h.right.forest.wellFormed

theorem get?_eq (h : Parallel σ s₀ t₀ s t) : t.get? = s.get? := by
  funext key
  rw [get?, get?, h.state]

theorem idOf?_eq (h : Parallel σ s₀ t₀ s t) (i : Nat) : t.idOf? (σ.place i) = s.idOf? i :=
  h.forest.attribute? i (by decide)

theorem target?_eq (h : Parallel σ s₀ t₀ s t) (id : Option String) :
    t.target? id = (s.target? id).map σ.place := by
  rw [target?, target?]
  cases stated id with
  | none => rfl
  | some id => exact h.nodes id

theorem motion?_eq (h : Parallel σ s₀ t₀ s t) (i : Nat) : t.motion? (σ.place i) = s.motion? i := by
  rw [motion?, motion?, h.forest.attribute? i (by decide)]

theorem motion?_extra (h : Parallel σ s₀ t₀ s t) {j : Nat} (hj : σ.isExtra j = true) :
    t.motion? j = none := by
  rw [motion?, (h.forest.plain j hj).named _ (by decide)]
  rfl

theorem bindings_eq (h : Parallel σ s₀ t₀ s t) (i : Nat) :
    t.bindings (σ.place i) = s.bindings i := by
  rw [bindings, bindings, h.forest.attribute? i (by decide)]

theorem unselective (h : Parallel σ s₀ t₀ s t) (hs₀ : s₀.IsUnselective) : s.IsUnselective := by
  intro i
  have hsame : s.bindings i = s₀.bindings i := by
    rw [bindings, bindings, h.left.forest.lasting i eventsAttribute (by decide)]
  rw [hsame]
  exact hs₀ i

/-! ## Steps along the document -/

/-- The same step at all elements in order on both sides, when it does nothing at additional
elements. -/
theorem foldl_order {act : Session → Nat → Session}
    (hact : ∀ {s t : Session} (i : Nat), Parallel σ s₀ t₀ s t →
      Parallel σ s₀ t₀ (act s i) (act t (σ.place i)))
    (hextra : ∀ {s t : Session} {j : Nat}, Parallel σ s₀ t₀ s t → σ.isExtra j = true → act t j = t)
    {own all : List Nat} (hall : all.filter σ.isOwn = own.map σ.place)
    (h : Parallel σ s₀ t₀ s t) : Parallel σ s₀ t₀ (own.foldl act s) (all.foldl act t) := by
  induction all generalizing own s t with
  | nil =>
    obtain rfl : own = [] := List.map_eq_nil_iff.1 hall.symm
    exact h
  | cons j all ih =>
    by_cases hj : σ.isExtra j = true
    · rw [List.filter_cons_of_neg (by simp [Placement.isOwn, hj])] at hall
      rw [List.foldl_cons, hextra h hj]
      exact ih hall h
    · rw [List.filter_cons_of_pos (by simp [Placement.isOwn, hj])] at hall
      obtain ⟨i, rest, rfl, rfl, hrest⟩ := List.map_eq_cons_iff.1 hall.symm
      rw [List.foldl_cons, List.foldl_cons]
      exact ih hrest.symm (hact i h)

theorem order (h : Parallel σ s₀ t₀ s t) :
    t.forest.preorder.filter σ.isOwn = s.forest.preorder.map σ.place :=
  h.forest.preorder h.wellFormed_left h.wellFormed_right

/-! ## Writing the state -/

theorem withForest (h : Parallel σ s₀ t₀ s t) {f g : Forest} (hmatches : Matches σ f g)
    (hleft : Descends s₀ { s with forest := f }) (hright : Descends t₀ { t with forest := g }) :
    Parallel σ s₀ t₀ { s with forest := f } { t with forest := g } :=
  { h with left := hleft, right := hright, forest := hmatches }

/-- Changes of elements along with the classes that go when an animation ends. -/
theorem withClasses (h : Parallel σ s₀ t₀ s t) {f g : Forest} (hmatches : Matches σ f g)
    (hleft : s₀.forest.Grown f) (hright : t₀.forest.Grown g) (classes : List (Nat × String)) :
    Parallel σ s₀ t₀ { s with forest := f, animationClasses := classes }
      { t with forest := g, animationClasses := classes.map (Prod.map σ.place id) } :=
  { h with
    left := h.left.of_forest hleft rfl
    right := h.right.of_forest hright rfl
    forest := hmatches
    animationClasses := rfl }

theorem withSchedule (h : Parallel σ s₀ t₀ s t) (schedule : Schedule) :
    Parallel σ s₀ t₀ { s with schedule }
      { t with schedule := schedule.map (Timer.moved σ.place) } :=
  { h with
    left := h.left.of_forest h.left.forest rfl
    right := h.right.of_forest h.right.forest rfl
    schedule := rfl }

theorem withToasts (h : Parallel σ s₀ t₀ s t) (toasts : List (Nat × ToastVariant))
    (htoasts : ∀ toast ∈ toasts, σ.isFrame toast.1 = false ∧ s₀.forest.size ≤ toast.1) :
    Parallel σ s₀ t₀ { s with toasts } { t with toasts := toasts.map (Prod.map σ.place id) } :=
  { h with
    left := h.left.of_forest h.left.forest rfl
    right := h.right.of_forest h.right.forest rfl
    toasts := rfl
    newToasts := htoasts }

theorem refreshValue (h : Parallel σ s₀ t₀ s t) (i : Nat) :
    Parallel σ s₀ t₀ (s.refreshValue i) (t.refreshValue (σ.place i)) := by
  have hleft := h.left.refreshValue i
  have hright := h.right.refreshValue (σ.place i)
  revert hleft hright
  simp only [Session.refreshValue, h.forest.attribute? i (by decide : bindAttribute ∈ readNames),
    h.get?_eq]
  cases (s.forest.attribute? i bindAttribute).bind s.get? with
  | none => exact fun _ _ => h
  | some value =>
    refine fun hleft hright => h.withForest ?_ hleft hright
    beta_reduce
    rw [h.forest.isControl]
    split_ifs
    · exact h.forest.setValue i _
    · exact h.forest.setText i _

theorem refreshDisplay (h : Parallel σ s₀ t₀ s t) (i : Nat) :
    Parallel σ s₀ t₀ (s.refreshDisplay i) (t.refreshDisplay (σ.place i)) := by
  have hleft := h.left.refreshDisplay i
  have hright := h.right.refreshDisplay (σ.place i)
  revert hleft hright
  simp only [Session.refreshDisplay, h.forest.attribute? i (by decide : showAttribute ∈ readNames),
    h.get?_eq]
  cases s.forest.attribute? i showAttribute with
  | none => exact fun _ _ => h
  | some key =>
    refine fun hleft hright => h.withForest ?_ hleft hright
    cases Json.truthy (s.get? key) with
    | true => exact h.forest.setDisplay i false
    | false => exact h.forest.setDisplay i true

/-- The timing of a preset has nothing to do with display. -/
theorem ne_display_of_timing {timing : Timing} {d : String × String}
    (h : d ∈ Motion.timingDeclarations timing) : "display" ≠ d.1 := by
  simp only [Motion.timingDeclarations, List.mem_append, Option.mem_toList,
    Option.map_eq_some_iff] at h
  rcases h with (⟨_, -, rfl⟩ | ⟨_, -, rfl⟩) | ⟨_, -, rfl⟩ <;> simp

theorem move (h : Parallel σ s₀ t₀ s t) (i : Nat) (motion : Motion) :
    Parallel σ s₀ t₀ (s.move i motion) (t.move (σ.place i) motion) := by
  have hleft := h.left.move i motion
  have hright := h.right.move (σ.place i) motion
  cases motion with
  | preset p timing =>
    refine h.withForest ?_ hleft hright
    exact (h.forest.addClass i p.motionClass).foldl_setStyleProperty i
      fun d => ne_display_of_timing
  | keyframes frames timing iterations fill =>
    refine { h with left := hleft, right := hright, animations := ?_ }
    rw [Session.move, Session.move, h.idOf?_eq, h.animations]

theorem contains_spent (h : Parallel σ s₀ t₀ s t) (i : Nat) :
    t.spent.contains (σ.place i) = s.spent.contains i := by
  rw [Bool.eq_iff_iff, List.contains_iff_mem, List.contains_iff_mem, h.spent,
    List.mem_map_of_injective σ.injective]

theorem refreshMotion (h : Parallel σ s₀ t₀ s t) (i : Nat) :
    Parallel σ s₀ t₀ (s.refreshMotion i) (t.refreshMotion (σ.place i)) := by
  have hleft := h.left.refreshMotion i
  have hright := h.right.refreshMotion (σ.place i)
  revert hleft hright
  simp only [Session.refreshMotion, h.motion?_eq, h.get?_eq, h.contains_spent]
  cases s.motion? i with
  | none => exact fun _ _ => h
  | some motion =>
    dsimp only
    split_ifs
    · exact fun _ _ => h
    · intro _ _
      have hspent : Parallel σ s₀ t₀ { s with spent := i :: s.spent }
          { t with spent := σ.place i :: t.spent } :=
        { h with
          left := h.left.of_forest h.left.forest rfl
          right := h.right.of_forest h.right.forest rfl
          spent := by rw [h.spent, List.map_cons] }
      exact hspent.move i motion
    · intro hleft hright
      refine { h with left := hleft, right := hright, spent := ?_ }
      rw [h.spent, σ.filter_ne_map]
    · exact fun _ _ => h

theorem refresh (h : Parallel σ s₀ t₀ s t) : Parallel σ s₀ t₀ s.refresh t.refresh := by
  have hstep {s t : Session} (i : Nat) (hst : Parallel σ s₀ t₀ s t) :=
    (hst.refreshValue i).refreshDisplay i
  have hskip {s t : Session} {j : Nat} (hst : Parallel σ s₀ t₀ s t) (hj : σ.isExtra j = true) :
      (t.refreshValue j).refreshDisplay j = t := by
    have hplain := (hst.forest.plain j hj).named
    have hvalue : t.refreshValue j = t := by
      rw [Session.refreshValue, hplain bindAttribute (by decide)]
      rfl
    rw [hvalue, Session.refreshDisplay, hplain showAttribute (by decide)]
  have hvalues := h.foldl_order hstep hskip h.order
  refine hvalues.foldl_order (fun i hst => hst.refreshMotion i) (fun {_ t j} hst hj => ?_) h.order
  rw [Session.refreshMotion, hst.motion?_extra hj]

theorem write (h : Parallel σ s₀ t₀ s t) (key : String) (value : Json) :
    Parallel σ s₀ t₀ (s.write key value) (t.write key value) := by
  have hwritten : Parallel σ s₀ t₀
      { s with state := (s.state.withValueAt? key value).getD s.state }
      { t with state := (t.state.withValueAt? key value).getD t.state } :=
    { h with
      left := h.left.of_forest h.left.forest rfl
      right := h.right.of_forest h.right.forest rfl
      state := by rw [h.state] }
  exact hwritten.refresh

theorem mountMotion (h : Parallel σ s₀ t₀ s t) (i : Nat) :
    Parallel σ s₀ t₀ (s.mountMotion i) (t.mountMotion (σ.place i)) := by
  have hleft := h.left.mountMotion i
  have hright := h.right.mountMotion (σ.place i)
  revert hleft hright
  simp only [Session.mountMotion, h.motion?_eq]
  cases s.motion? i with
  | none => exact fun _ _ => h
  | some motion =>
    dsimp only
    cases motion.trigger with
    | onMount => exact fun _ _ => h.move i motion
    | onVisible =>
      refine fun hleft hright => { h with left := hleft, right := hright, awaited := ?_ }
      rw [h.awaited, List.map_append, List.map_singleton]
    | _ => exact fun _ _ => h

theorem mount (h : Parallel σ s₀ t₀ s t) : Parallel σ s₀ t₀ s.mount t.mount := by
  have hmounted : Parallel σ s₀ t₀ { s with mounted := true } { t with mounted := true } :=
    { h with
      left := h.left.of_forest h.left.forest rfl
      right := h.right.of_forest h.right.forest rfl
      mounted := rfl }
  rw [Session.mount, Session.mount, h.mounted]
  split_ifs
  · exact h
  · refine refresh (hmounted.foldl_order (fun i hs => hs.mountMotion i) (fun hs hj => ?_) h.order)
    rw [Session.mountMotion, hs.motion?_extra hj]

/-! ## Effects -/

theorem toggle (h : Parallel σ s₀ t₀ s t) (i : Nat) :
    Parallel σ s₀ t₀ (s.toggle i) (t.toggle (σ.place i)) := by
  refine h.withForest ?_ (h.left.toggle i) (h.right.toggle (σ.place i))
  beta_reduce
  rw [h.forest.isHidden]
  split_ifs
  · exact (h.forest.setDisplay i false).removeHidden i
  · exact h.forest.setDisplay i true

theorem addToast (h : Parallel σ s₀ t₀ s t) (message : String) (variant : ToastVariant) :
    Parallel σ s₀ t₀ (s.addToast message variant) (t.addToast message variant) := by
  have hleft := h.left.addToast message variant
  have hright := h.right.addToast message variant
  have hregion := h.forest.toastRegion? h.wellFormed_left h.wellFormed_right
  have hnew : t.forest.size = σ.place s.forest.size := (h.forest.size 0).symm
  have hall : t.toasts ++ [(σ.place s.forest.size, variant)] =
      (s.toasts ++ [(s.forest.size, variant)]).map (Prod.map σ.place id) := by
    rw [List.map_append, h.toasts]
    rfl
  have hschedule : Schedule.add t.clock (σ.place s.forest.size) t.schedule =
      (Schedule.add s.clock s.forest.size s.schedule).map (Timer.moved σ.place) := by
    rw [h.clock, h.schedule, Schedule.add_map]
  revert hleft hright
  simp only [Session.addToast, hregion, hnew, hall, hschedule]
  cases hfound : toastRegion? s.forest with
  | none => exact fun _ _ => h
  | some region =>
    dsimp only [Option.map_some]
    intro hleft hright
    have hroom := Descends.lt_size_of_toastRegion? h.wellFormed_left hfound
    have hmatches := (h.forest.append hroom "div" (.refl [("class", toastClass ++ " " ++
      toastClass ++ "--" ++ Vocabulary.name variant)])).setText s.forest.size message
    have hadded := h.withForest hmatches (hleft.of_forest hleft.forest rfl)
      (hright.of_forest hright.forest rfl)
    have htoasts : ∀ toast ∈ s.toasts ++ [(s.forest.size, variant)],
        σ.isFrame toast.1 = false ∧ s₀.forest.size ≤ toast.1 := by
      intro toast htoast
      rcases List.mem_append.1 htoast with htoast | htoast
      · exact h.newToasts toast htoast
      · rw [List.mem_singleton.1 htoast, ← Bool.not_eq_true]
        exact ⟨fun hframe => Nat.lt_irrefl _ (h.forest.frame _ hframe), h.left.forest.size⟩
    exact (hadded.withToasts _ htoasts).withSchedule _

theorem getD_map {α : Type} (h : Parallel σ s₀ t₀ s t) (value : Option α)
    {act act' : α → Session} (hact : ∀ a, Parallel σ s₀ t₀ (act a) (act' a)) :
    Parallel σ s₀ t₀ ((value.map act).getD s) ((value.map act').getD t) := by
  cases value with
  | none => exact h
  | some a => exact hact a

/-- The same act at an element and at its counterpart, if there is one. -/
theorem getD_map_place (h : Parallel σ s₀ t₀ s t) (found : Option Nat) {act act' : Nat → Session}
    (hact : ∀ i, Parallel σ s₀ t₀ (act i) (act' (σ.place i))) :
    Parallel σ s₀ t₀ ((found.map act).getD s) (((found.map σ.place).map act').getD t) := by
  rw [Option.map_map]
  exact h.getD_map found hact

theorem animate (h : Parallel σ s₀ t₀ s t) (name : String) (i : Nat) :
    Parallel σ s₀ t₀ (s.animate name i) (t.animate name (σ.place i)) := by
  have hmatches := h.forest.addClass i (animateClass name)
  have hleft := h.left.forest.addClass i (animateClass name)
  have hright := h.right.forest.addClass (σ.place i) (animateClass name)
  have hclasses : t.animationClasses ++ [(σ.place i, animateClass name)] =
      (s.animationClasses ++ [(i, animateClass name)]).map (Prod.map σ.place id) := by
    rw [List.map_append, h.animationClasses]
    rfl
  rw [Session.animate, Session.animate, hclasses]
  exact h.withClasses hmatches hleft hright _

theorem animationTarget?_eq (h : Parallel σ s₀ t₀ s t) (target : Option String) (source : Nat) :
    t.animationTarget? target (σ.place source) =
      (s.animationTarget? target source).map σ.place := by
  rw [animationTarget?, animationTarget?]
  cases stated target with
  | none => rfl
  | some id => exact h.nodes id

section

variable {moveFocus : Nat → Session → Session}
  (hfocus : ∀ {s t : Session} (i : Nat), Parallel σ s₀ t₀ s t →
    Parallel σ s₀ t₀ (moveFocus i s) (moveFocus (σ.place i) t))

include hfocus

/-- **An effect** that does not move the focus by a selector. -/
theorem run (h : Parallel σ s₀ t₀ s t) (source : Nat) {effect : Effect}
    (heffect : effect.IsUnselective) :
    Parallel σ s₀ t₀ (s.run moveFocus source effect) (t.run moveFocus (σ.place source) effect) := by
  cases effect with
  | toggle target =>
    rw [Session.run, Session.run, h.target?_eq]
    exact h.getD_map_place _ h.toggle
  | setState key value => exact h.getD_map _ fun key => h.write key value
  | appendState key value =>
    refine h.getD_map _ fun key => ?_
    rw [appendValue, appendValue, h.get?_eq]
    exact h.write key _
  | fetch url method body resultKey =>
    refine h.getD_map _ fun url => { h with
      left := h.left.of_forest h.left.forest rfl
      right := h.right.of_forest h.right.forest rfl
      errands := ?_ }
    rw [request, request, h.errands]
  | emit event =>
    refine { h with
      left := h.left.of_forest h.left.forest rfl
      right := h.right.of_forest h.right.forest rfl
      signals := ?_ }
    rw [Session.run, Session.run, signal, signal, h.idOf?_eq, h.signals]
  | animate target animation =>
    rw [Session.run, Session.run, h.animationTarget?_eq]
    cases s.animationTarget? target source with
    | none => exact h
    | some i =>
      cases stated animation with
      | none => exact h
      | some name => exact h.animate name i
  | focus target selector =>
    have hselector : stated selector = none := heffect
    rw [Session.run, Session.run, focusTarget?, focusTarget?, hselector]
    dsimp only
    rw [h.target?_eq]
    exact h.getD_map_place _ fun i => hfocus i h
  | toast message variant => exact h.getD_map _ fun message => h.addToast message _

theorem foldl_run (h : Parallel σ s₀ t₀ s t) (source : Nat) {effects : List Effect}
    (heffects : ∀ effect ∈ effects, effect.IsUnselective) :
    Parallel σ s₀ t₀ (effects.foldl (Session.run moveFocus source) s)
      (effects.foldl (Session.run moveFocus (σ.place source)) t) := by
  induction effects generalizing s t with
  | nil => exact h
  | cons effect effects ih =>
    obtain ⟨heffect, heffects⟩ := List.forall_mem_cons.1 heffects
    exact ih (h.run hfocus source heffect) heffects

theorem foldl_runBinding (event : String) (source count : Nat) {bindings : List Binding}
    (hbindings : ∀ binding ∈ bindings, binding.IsUnselective)
    (h : Parallel σ s₀ t₀ s t) :
    Parallel σ s₀ t₀ (bindings.foldl (runBinding moveFocus event source) (s, count)).1
        (bindings.foldl (runBinding moveFocus event (σ.place source)) (t, count)).1 ∧
      (bindings.foldl (runBinding moveFocus event (σ.place source)) (t, count)).2 =
        (bindings.foldl (runBinding moveFocus event source) (s, count)).2 := by
  induction bindings generalizing s t count with
  | nil => exact ⟨h, rfl⟩
  | cons binding bindings ih =>
    obtain ⟨hbinding, hbindings⟩ := List.forall_mem_cons.1 hbindings
    rw [List.foldl_cons, List.foldl_cons, runBinding, runBinding, h.state]
    split_ifs
    · exact ih _ hbindings (h.foldl_run hfocus source hbinding)
    · exact ih _ hbindings h

theorem runBindingsWith (hs₀ : s₀.IsUnselective) (event : String) (target : Nat)
    (h : Parallel σ s₀ t₀ s t) :
    Parallel σ s₀ t₀ (Session.runBindingsWith moveFocus event target s).1
        (Session.runBindingsWith moveFocus event (σ.place target) t).1 ∧
      (Session.runBindingsWith moveFocus event (σ.place target) t).2 =
        (Session.runBindingsWith moveFocus event target s).2 := by
  rw [Session.runBindingsWith, Session.runBindingsWith,
    h.forest.closest? h.wellFormed_left h.wellFormed_right target
      (by decide : eventsAttribute ∈ readNames)]
  cases s.forest.closest? target fun e => OrderedMap.contains eventsAttribute e.attributes with
  | none => exact ⟨h, rfl⟩
  | some source =>
    dsimp only [Option.map_some]
    rw [h.bindings_eq]
    exact foldl_runBinding hfocus event source 0 (h.unselective hs₀ source) h

end

theorem setFocus (h : Parallel σ s₀ t₀ s t) (focused : Option Nat) :
    Parallel σ s₀ t₀ { s with focused } { t with focused := focused.map σ.place } :=
  { h with
    left := h.left.of_forest h.left.forest rfl
    right := h.right.of_forest h.right.forest rfl
    focused := rfl }

theorem focused_iff (h : Parallel σ s₀ t₀ s t) (i : Nat) :
    t.focused = some (σ.place i) ↔ s.focused = some i := by
  rw [h.focused, Option.map_eq_some_iff]
  exact ⟨fun ⟨j, hj, heq⟩ => σ.injective heq ▸ hj, fun hi => ⟨i, hi, rfl⟩⟩

/-- **Moving the focus**, however many bindings that runs. -/
theorem moveFocus (hs₀ : s₀.IsUnselective) (levels i : Nat) (h : Parallel σ s₀ t₀ s t) :
    Parallel σ s₀ t₀ (Session.moveFocus levels i s) (Session.moveFocus levels (σ.place i) t) := by
  induction levels generalizing i s t with
  | zero =>
    rw [Session.moveFocus, Session.moveFocus]
    simp only [h.focused_iff]
    split_ifs
    · exact h
    · exact h.setFocus (some i)
  | succ levels ih =>
    have hfocus {s t : Session} (i : Nat) (hst : Parallel σ s₀ t₀ s t) := ih i hst
    rw [Session.moveFocus, Session.moveFocus]
    simp only [h.focused_iff]
    split_ifs
    · exact h
    · have hleft := h.setFocus none
      rw [h.focused]
      cases s.focused with
      | none =>
        exact ((hleft.setFocus (some i)).runBindingsWith hfocus hs₀ "focus" i).1
      | some previous =>
        have hblurred := (hleft.runBindingsWith hfocus hs₀ "blur" previous).1
        exact ((hblurred.setFocus (some i)).runBindingsWith hfocus hs₀ "focus" i).1

theorem runBindings (hs₀ : s₀.IsUnselective) (event : String) (target : Nat)
    (h : Parallel σ s₀ t₀ s t) :
    Parallel σ s₀ t₀ (s.runBindings event target).1 (t.runBindings event (σ.place target)).1 ∧
      (t.runBindings event (σ.place target)).2 = (s.runBindings event target).2 :=
  h.runBindingsWith (fun i hst => hst.moveFocus hs₀ focusLevels i) hs₀ event target

end Parallel

end Session

end PageTree
