import PageTree.Proofs.Session.Parallel

/-!
# Calls on two sessions side by side

A call on both of two sessions side by side fails on both with the same fault, or reports the same
on both and leaves them side by side, with the same requests sent. What can be seen of the one can
be seen of the other. So the record of a sequence of calls is the same for both.

## Main definitions

* `Together`: two calls that fail alike or succeed alike
* `Look`, `Visit.look`: what can be seen of a page in use
* `Visit.history`: what a sequence of calls reports, and what can be seen after each

## Main results

* `Visit.Parallel.perform`: one call
* `Visit.Parallel.look_eq`: what can be seen
* `Visit.Parallel.history_eq`: every sequence of calls
-/

namespace PageTree

/-- Both calls fail with the same fault, or both succeed with results that agree. -/
inductive Together {ε α β : Type} (agree : α → β → Prop) : Except ε α → Except ε β → Prop
  | failed (fault : ε) : Together agree (.error fault) (.error fault)
  | succeeded {a : α} {b : β} (h : agree a b) : Together agree (.ok a) (.ok b)

namespace Together

variable {ε α β α' β' : Type} {agree : α → β → Prop} {agree' : α' → β' → Prop}
  {x : Except ε α} {y : Except ε β}

theorem map (h : Together agree x y) {f : α → α'} {g : β → β'}
    (hfg : ∀ a b, agree a b → agree' (f a) (g b)) : Together agree' (x.map f) (y.map g) := by
  cases h with
  | failed fault => exact .failed fault
  | succeeded h => exact .succeeded (hfg _ _ h)

theorem bind (h : Together agree x y) {f : α → Except ε α'} {g : β → Except ε β'}
    (hfg : ∀ a b, agree a b → Together agree' (f a) (g b)) :
    Together agree' (x.bind f) (y.bind g) := by
  cases h with
  | failed fault => exact .failed fault
  | succeeded h => exact hfg _ _ h

end Together

/-! ## What can be seen -/

/-- What can be seen of a page in use. -/
structure Look where
  /-- The state. -/
  state : Json
  /-- The node with the focus. -/
  focused : Option String
  /-- The milliseconds since loading. -/
  clock : Nat
  /-- The toasts in the document. -/
  toasts : List ToastView
  /-- The signals so far. -/
  signals : List Signal
  /-- The keyframes played so far. -/
  animations : List Animation
  /-- The requests so far. -/
  sent : List Request
  /-- The text inside each node. -/
  text : String → Option String
  /-- The value of each node as a form control. -/
  value : String → Option String
  /-- Which nodes are displayed. -/
  isVisible : String → Bool

namespace Visit

/-- What can be seen now. -/
def look (v : Visit) : Look where
  state := v.session.state
  focused := v.session.focusedId?
  clock := v.session.clock
  toasts := v.session.toastViews
  signals := v.session.signals
  animations := v.session.animations
  sent := v.network.sent
  text := v.session.text?
  value := v.session.value?
  isVisible := v.session.isVisible

/-- What a call reports, and the visit after it. A call that fails changes nothing. -/
def attempt (v : Visit) (interaction : Interaction) : Except SessionFault Report × Visit :=
  match Session.perform v interaction with
  | .ok (report, after) => (.ok report, after)
  | .error fault => (.error fault, v)

/-- What each call of a sequence reports, and what can be seen after it. -/
def history (v : Visit) : List Interaction → List (Except SessionFault Report × Look)
  | [] => []
  | interaction :: interactions =>
    ((v.attempt interaction).1, (v.attempt interaction).2.look) ::
      (v.attempt interaction).2.history interactions

end Visit

namespace Session

open Forest

namespace Parallel

variable {σ : Placement} {s₀ t₀ s t : Session}

/-! ## Parts of calls -/

theorem refocus (h : Parallel σ s₀ t₀ s t) (event : String) (i : Nat) :
    Parallel σ s₀ t₀ (s.refocus event i) (t.refocus event (σ.place i)) := by
  rw [Session.refocus, Session.refocus]
  simp only [h.focused_iff]
  split_ifs
  · exact h.setFocus (some i)
  · exact h.setFocus none
  · exact h

theorem moveOn (h : Parallel σ s₀ t₀ s t) (trigger : Trigger) (i : Nat) :
    Parallel σ s₀ t₀ (s.moveOn trigger i) (t.moveOn trigger (σ.place i)) := by
  rw [Session.moveOn, Session.moveOn, h.forest.closest? h.wellFormed_left h.wellFormed_right i
    (by decide : motionAttribute ∈ readNames)]
  cases s.forest.closest? i fun e => OrderedMap.contains motionAttribute e.attributes with
  | none => exact h
  | some mover =>
    dsimp only [Option.map_some]
    rw [h.motion?_eq]
    cases s.motion? mover with
    | none => exact h
    | some motion =>
      dsimp only
      split_ifs
      · exact h.move mover motion
      · exact h

theorem settleErrand (h : Parallel σ s₀ t₀ s t) (network : Network) (errand : Errand) :
    Parallel σ s₀ t₀ (Session.settleErrand (s, network) errand).1
        (Session.settleErrand (t, network) errand).1 ∧
      (Session.settleErrand (t, network) errand).2 =
        (Session.settleErrand (s, network) errand).2 := by
  rw [Session.settleErrand, Session.settleErrand]
  dsimp only
  cases (network.fetch errand.request).1 with
  | none => exact ⟨h, rfl⟩
  | some value =>
    cases stated errand.resultKey with
    | none => exact ⟨h, rfl⟩
    | some key => exact ⟨h.write key value, rfl⟩

theorem settle (h : Parallel σ s₀ t₀ s t) (network : Network) :
    Parallel σ s₀ t₀ (s.settle network).1 (t.settle network).1 ∧
      (t.settle network).2 = (s.settle network).2 := by
  have hfold (errands : List Errand) : ∀ {s t : Session} (network : Network),
      Parallel σ s₀ t₀ s t →
      Parallel σ s₀ t₀ (errands.foldl Session.settleErrand (s, network)).1
          (errands.foldl Session.settleErrand (t, network)).1 ∧
        (errands.foldl Session.settleErrand (t, network)).2 =
          (errands.foldl Session.settleErrand (s, network)).2 := by
    induction errands with
    | nil => exact fun _ hst => ⟨hst, rfl⟩
    | cons errand errands ih =>
      intro s t network hst
      obtain ⟨hsettled, hnetwork⟩ := hst.settleErrand network errand
      have hrest := ih (Session.settleErrand (s, network) errand).2 hsettled
      rw [List.foldl_cons, List.foldl_cons]
      rwa [← Prod.mk.eta (p := Session.settleErrand (t, network) errand), hnetwork]
  have hsent : Parallel σ s₀ t₀ { s with errands := [] } { t with errands := [] } :=
    { h with
      left := h.left.of_forest h.left.forest rfl
      right := h.right.of_forest h.right.forest rfl
      errands := rfl }
  rw [Session.settle, Session.settle, h.errands]
  exact hfold s.errands network hsent

/-- The outcomes of a call on both. -/
structure Ends (σ : Placement) (s₀ t₀ : Session) (a b : Outcome) : Prop where
  count : b.count = a.count
  session : Parallel σ s₀ t₀ a.session b.session
  network : b.network = a.network

theorem fire (h : Parallel σ s₀ t₀ s t) (hs₀ : s₀.IsUnselective) (event : String)
    (trigger : Option Trigger) (i : Nat) (network : Network) :
    Ends σ s₀ t₀ (s.fire event trigger i network) (t.fire event trigger (σ.place i) network) := by
  obtain ⟨hran, hcount⟩ := h.runBindings hs₀ event i
  have hmoved := hran.getD_map trigger fun trigger => hran.moveOn trigger i
  obtain ⟨hsettled, hnetwork⟩ := hmoved.settle network
  exact ⟨hcount, hsettled, hnetwork⟩

theorem element (h : Parallel σ s₀ t₀ s t) (id : String) :
    Together (fun i j => j = σ.place i) (s.element id) (t.element id) := by
  rw [Session.element, Session.element, h.nodes]
  cases s.node? id with
  | none => exact .failed _
  | some i => exact .succeeded rfl

/-! ## Calls -/

theorem dispatch (h : Parallel σ s₀ t₀ s t) (hs₀ : s₀.IsUnselective) (id event : String)
    (network : Network) :
    Together (Ends σ s₀ t₀) (s.dispatch id event network) (t.dispatch id event network) := by
  by_cases hheard : heardEvents.contains event = true
  · rw [dispatch_of_heard hheard, dispatch_of_heard hheard]
    refine (h.element id).map fun i j hj => ?_
    subst hj
    exact (h.refocus event i).fire hs₀ event _ i network
  · rw [dispatch_of_unheard (Bool.not_eq_true _ ▸ hheard),
      dispatch_of_unheard (Bool.not_eq_true _ ▸ hheard)]
    exact .failed _

theorem enter (h : Parallel σ s₀ t₀ s t) (hs₀ : s₀.IsUnselective) (id value : String)
    (network : Network) :
    Together (Ends σ s₀ t₀) (s.enter id value network) (t.enter id value network) := by
  refine (h.element id).bind fun i j hj => ?_
  subst hj
  have hset := h.withForest (h.forest.setValue i value)
    (h.left.of_forest (h.left.forest.setValue i value) rfl)
    (h.right.of_forest (h.right.forest.setValue _ value) rfl)
  exact hset.dispatch hs₀ id "input" network

theorem hover (h : Parallel σ s₀ t₀ s t) (hs₀ : s₀.IsUnselective) (id : String)
    (network : Network) :
    Together (Ends σ s₀ t₀) (s.hover id network) (t.hover id network) := by
  refine (h.element id).bind fun i j hj => ?_
  subst hj
  exact .succeeded (h.fire hs₀ hoverEvent _ i network)

theorem reveal (h : Parallel σ s₀ t₀ s t) (id : String) :
    Together (fun a b => b.1 = a.1 ∧ Parallel σ s₀ t₀ a.2 b.2) (s.reveal id) (t.reveal id) := by
  refine (h.element id).bind fun i j hj => ?_
  subst hj
  have hcontains : t.awaited.contains (σ.place i) = s.awaited.contains i := by
    rw [Bool.eq_iff_iff, List.contains_iff_mem, List.contains_iff_mem, h.awaited,
      List.mem_map_of_injective σ.injective]
  have herased : Parallel σ s₀ t₀ { s with awaited := s.awaited.erase i }
      { t with awaited := t.awaited.erase (σ.place i) } :=
    { h with
      left := h.left.of_forest h.left.forest rfl
      right := h.right.of_forest h.right.forest rfl
      awaited := by rw [h.awaited, List.map_erase σ.injective] }
  rw [hcontains]
  split_ifs
  · refine .succeeded ⟨rfl, ?_⟩
    dsimp only
    rw [herased.motion?_eq]
    exact herased.getD_map _ fun motion => herased.move i motion
  · exact .succeeded ⟨rfl, h⟩

theorem changeToast {f g : Forest} (h : Matches σ f g) (hf : f.WellFormed) (hg : g.WellFormed)
    (timer : Timer) :
    Matches σ (Session.changeToast f timer) (Session.changeToast g (timer.moved σ.place)) := by
  obtain ⟨due, toast, change⟩ := timer
  cases change with
  | «show» => exact h.addClass toast shownToastClass
  | hide => exact h.removeClass toast shownToastClass
  | remove => exact h.detach hf hg toast

theorem happen (h : Parallel σ s₀ t₀ s t) (timer : Timer) (rest : Schedule) :
    Parallel σ s₀ t₀ (s.happen timer rest)
      (t.happen (timer.moved σ.place) (rest.map (Timer.moved σ.place))) :=
  { h with
    left := h.left.of_forest (Descends.changeToast h.left.forest timer) rfl
    right := h.right.of_forest (Descends.changeToast h.right.forest _) rfl
    forest := changeToast h.forest h.wellFormed_left h.wellFormed_right timer
    clock := rfl
    schedule := Schedule.followUp_map σ.place timer rest }

/-- The next change of a toast happens on both sides or on neither. -/
theorem tick? (h : Parallel σ s₀ t₀ s t) (moment : Nat) :
    Option.Rel (Parallel σ s₀ t₀) (s.tick? moment) (t.tick? moment) := by
  rw [Session.tick?, Session.tick?, h.schedule]
  cases s.schedule with
  | nil => exact .none
  | cons timer rest =>
    change Option.Rel _ (if timer.due ≤ moment then _ else _) (if timer.due ≤ moment then _ else _)
    split_ifs
    · exact .some (h.happen timer rest)
    · exact .none

theorem elapse (h : Parallel σ s₀ t₀ s t) (moment : Nat) :
    Parallel σ s₀ t₀ (s.elapse moment) (t.elapse moment) := by
  fun_induction Session.elapse moment s generalizing t with
  | case1 s hnone =>
    have hrel := h.tick? moment
    rw [hnone] at hrel
    cases ht : t.tick? moment with
    | none => rwa [elapse_of_none ht]
    | some next =>
      rw [ht] at hrel
      cases hrel
  | case2 s next hsome ih =>
    have hrel := h.tick? moment
    rw [hsome] at hrel
    cases ht : t.tick? moment with
    | none =>
      rw [ht] at hrel
      cases hrel
    | some next' =>
      rw [ht] at hrel
      cases hrel with
      | some hnext =>
        rw [elapse_of_some ht]
        exact ih hnext

theorem advance (h : Parallel σ s₀ t₀ s t) (milliseconds : Nat) :
    Parallel σ s₀ t₀ (s.advance milliseconds) (t.advance milliseconds) := by
  rw [Session.advance, Session.advance, h.clock]
  have helapsed := h.elapse (Schedule.after s.clock milliseconds)
  exact { helapsed with
    left := helapsed.left.of_forest helapsed.left.forest rfl
    right := helapsed.right.of_forest helapsed.right.forest rfl
    clock := rfl }

theorem foldl_removeClass (i : Nat) (entries : List (Nat × String)) {f g : Forest}
    (h : Matches σ f g) :
    Matches σ (entries.foldl (fun f entry => f.removeClass i entry.2) f)
      ((entries.map (Prod.map σ.place id)).foldl (fun g entry => g.removeClass (σ.place i) entry.2)
        g) := by
  induction entries generalizing f g with
  | nil => exact h
  | cons entry entries ih => exact ih (h.removeClass i entry.2)

/-- The classes that go with an animation are in the same positions on both sides. -/
theorem partition_classes (h : Parallel σ s₀ t₀ s t) (i : Nat) :
    t.animationClasses.partition (fun entry => entry.1 = σ.place i) =
      Prod.map (List.map (Prod.map σ.place id)) (List.map (Prod.map σ.place id))
        (s.animationClasses.partition fun entry => entry.1 = i) := by
  have htest : (fun entry : Nat × String => decide (entry.1 = σ.place i)) ∘ Prod.map σ.place id =
      fun entry => decide (entry.1 = i) := by
    funext entry
    simp [σ.injective.eq_iff]
  rw [List.partition_eq_filter_filter, List.partition_eq_filter_filter, h.animationClasses,
    List.filter_map, List.filter_map, Function.comp_assoc, htest]
  rfl

theorem endAnimation (h : Parallel σ s₀ t₀ s t) (node : String) :
    Together (Parallel σ s₀ t₀) (s.endAnimation node) (t.endAnimation node) := by
  refine (h.element node).bind fun i j hj => ?_
  subst hj
  rw [h.partition_classes]
  have hleft (entries : List (Nat × String)) :
      s₀.forest.Grown (entries.foldl (fun f entry => f.removeClass i entry.2) s.forest) :=
    List.foldlRecOn _ _ h.left.forest fun f hf entry _ => hf.removeClass i entry.2
  have hright (entries : List (Nat × String)) :
      t₀.forest.Grown (entries.foldl (fun g entry => g.removeClass (σ.place i) entry.2) t.forest) :=
    List.foldlRecOn _ _ h.right.forest fun f hf entry _ => hf.removeClass _ entry.2
  exact .succeeded (h.withClasses (foldl_removeClass i _ h.forest) (hleft _) (hright _) _)

/-! ## What both show -/

theorem toastViews_eq (h : Parallel σ s₀ t₀ s t) : t.toastViews = s.toastViews := by
  have hattached : (fun toast : Nat × ToastVariant => t.forest.isAttached toast.1) ∘
      Prod.map σ.place id = fun toast => s.forest.isAttached toast.1 := funext fun toast =>
    h.forest.isAttached h.wellFormed_left h.wellFormed_right toast.1
  rw [toastViews, toastViews, h.toasts, List.filter_map, hattached, List.map_map]
  refine List.map_congr_left fun toast htoast => ?_
  obtain ⟨hinner, hnew⟩ := h.newToasts toast (List.mem_of_mem_filter htoast)
  have hregion : s.forest.attribute? toast.1 toastRegionAttribute = none := by
    rw [h.left.forest.lasting _ _ (by decide), Forest.attribute?, get_of_size_le hnew]
    rfl
  have htext := h.forest.textContent h.wellFormed_left h.wellFormed_right hinner
  have hshown := h.forest.hasClass hregion (by decide : shownToastClass ∈ watchedClasses)
  rw [Function.comp_apply, ToastView.mk.injEq]
  exact ⟨htext, rfl, hshown⟩

theorem focusedId?_eq (h : Parallel σ s₀ t₀ s t) : t.focusedId? = s.focusedId? := by
  rw [focusedId?, focusedId?, h.focused, Option.bind_map]
  exact congrArg _ (funext h.idOf?_eq)

theorem text?_eq (h : Parallel σ s₀ t₀ s t) : t.text? = s.text? := by
  funext id
  rw [text?, text?, h.nodes, Option.map_map]
  exact Option.map_congr fun i hi =>
    h.forest.textContent h.wellFormed_left h.wellFormed_right (h.innerNodes id i hi)

theorem value?_eq (h : Parallel σ s₀ t₀ s t) : t.value? = s.value? := by
  funext id
  rw [value?, value?, h.nodes, Option.map_map]
  exact Option.map_congr fun i hi =>
    h.forest.formValue h.wellFormed_left h.wellFormed_right (h.innerNodes id i hi)

theorem isVisible_eq (h : Parallel σ s₀ t₀ s t) : t.isVisible = s.isVisible := by
  funext id
  rw [isVisible, isVisible, h.nodes, Option.any_map]
  exact congrArg (Option.any · _)
    (funext (h.forest.isRendered h.wellFormed_left h.wellFormed_right))

end Parallel

end Session

/-! ## Visits -/

namespace Visit

/-- The sessions are side by side, and the same requests were sent. -/
structure Parallel (σ : Placement) (s₀ t₀ : Session) (v w : Visit) : Prop where
  session : Session.Parallel σ s₀ t₀ v.session w.session
  network : w.network = v.network

namespace Parallel

variable {σ : Placement} {s₀ t₀ : Session} {v w : Visit}

theorem look_eq (h : Parallel σ s₀ t₀ v w) : w.look = v.look := by
  rw [look, look, h.network, h.session.state, h.session.clock, h.session.signals,
    h.session.animations, h.session.focusedId?_eq, h.session.toastViews_eq, h.session.text?_eq,
    h.session.value?_eq, h.session.isVisible_eq]

theorem report (a b : Session.Outcome) (h : Session.Parallel.Ends σ s₀ t₀ a b) :
    b.report.1 = a.report.1 ∧ Parallel σ s₀ t₀ a.report.2 b.report.2 :=
  ⟨congrArg Report.ran h.count, h.session, h.network⟩

/-- **A call** on both reports the same and leaves them side by side. -/
theorem perform (h : Parallel σ s₀ t₀ v w) (hs₀ : s₀.IsUnselective) (interaction : Interaction) :
    Together (fun a b => b.1 = a.1 ∧ Parallel σ s₀ t₀ a.2 b.2) (Session.perform v interaction)
      (Session.perform w interaction) := by
  cases interaction with
  | mount => exact .succeeded ⟨rfl, h.session.mount, h.network⟩
  | dispatch id event =>
    rw [Session.perform, Session.perform, h.network]
    exact (h.session.dispatch hs₀ id event _).map report
  | enter id value =>
    rw [Session.perform, Session.perform, h.network]
    exact (h.session.enter hs₀ id value _).map report
  | hover id =>
    rw [Session.perform, Session.perform, h.network]
    exact (h.session.hover hs₀ id _).map report
  | reveal id =>
    exact (h.session.reveal id).map fun a b hab =>
      ⟨congrArg Report.revealed hab.1, hab.2, h.network⟩
  | advance milliseconds => exact .succeeded ⟨rfl, h.session.advance milliseconds, h.network⟩
  | endAnimation id =>
    exact (h.session.endAnimation id).map fun a b hab => ⟨rfl, hab, h.network⟩
  | write key value => exact .succeeded ⟨rfl, h.session.write key value, h.network⟩

theorem attempt (h : Parallel σ s₀ t₀ v w) (hs₀ : s₀.IsUnselective) (interaction : Interaction) :
    (w.attempt interaction).1 = (v.attempt interaction).1 ∧
      Parallel σ s₀ t₀ (v.attempt interaction).2 (w.attempt interaction).2 := by
  have hboth := h.perform hs₀ interaction
  rw [Visit.attempt, Visit.attempt]
  generalize Session.perform v interaction = x, Session.perform w interaction = y at hboth
  cases hboth with
  | failed fault => exact ⟨rfl, h⟩
  | succeeded hab => exact ⟨congrArg Except.ok hab.1, hab.2⟩

/-- **Every sequence of calls** has the same history on both. -/
theorem history_eq (h : Parallel σ s₀ t₀ v w) (hs₀ : s₀.IsUnselective)
    (interactions : List Interaction) : w.history interactions = v.history interactions := by
  induction interactions generalizing v w with
  | nil => rfl
  | cons interaction interactions ih =>
    obtain ⟨hreport, hafter⟩ := h.attempt hs₀ interaction
    rw [history, history, hreport, hafter.look_eq, ih hafter]

end Parallel

end Visit

end PageTree
