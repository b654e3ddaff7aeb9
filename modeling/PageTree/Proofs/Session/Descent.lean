import PageTree.Proofs.Markup.Traversal
import PageTree.Session.Interaction

/-!
# Sessions that go on

Whatever is done with a page, its table keeps what lasts, and the elements of nodes stay the same.
Between calls no request is due.

## Main definitions

* `Session.Descends`: what a session has in common with the one that it came from
* `Session.Follows`: what can come of a page, call after call

## Main results

* `Session.Descends.run`, `Session.Descends.moveFocus`: effects keep it
* `Session.Follows.rests`: so does every sequence of calls
-/

namespace PageTree

namespace Session

/-- What a session has in common with the one that it came from: its table keeps what lasts, and
nodes have the same elements. -/
structure Descends (s₀ s : Session) : Prop where
  forest : s₀.forest.Grown s.forest
  nodes : s.nodes = s₀.nodes

namespace Descends

variable {s₀ s : Session}

theorem of_forest (h : Descends s₀ s) {s' : Session} (hforest : s₀.forest.Grown s'.forest)
    (hnodes : s'.nodes = s.nodes) : Descends s₀ s' :=
  ⟨hforest, hnodes.trans h.nodes⟩

/-! ## Writing the state -/

theorem refreshValue (h : Descends s₀ s) (i : Nat) : Descends s₀ (s.refreshValue i) := by
  rw [Session.refreshValue]
  split
  · exact h
  · refine h.of_forest ?_ rfl
    dsimp only [mapForest]
    split_ifs
    · exact h.forest.setValue i _
    · exact h.forest.setText i _

theorem refreshDisplay (h : Descends s₀ s) (i : Nat) : Descends s₀ (s.refreshDisplay i) := by
  rw [Session.refreshDisplay]
  split
  · exact h
  · exact h.of_forest (h.forest.setStyleProperty i _ _) rfl

theorem move (h : Descends s₀ s) (i : Nat) (motion : Motion) : Descends s₀ (s.move i motion) := by
  cases motion with
  | preset p timing =>
    refine h.of_forest ?_ rfl
    exact List.foldlRecOn _ _ (h.forest.addClass i _) fun f hf d _ => hf.setStyleProperty i d.1 d.2
  | keyframes frames timing iterations fill => exact h.of_forest h.forest rfl

theorem refreshMotion (h : Descends s₀ s) (i : Nat) : Descends s₀ (s.refreshMotion i) := by
  rw [Session.refreshMotion]
  split
  · exact h
  · split_ifs
    · exact h
    · have hspent : Descends s₀ { s with spent := i :: s.spent } := h.of_forest h.forest rfl
      exact hspent.move i _
    · exact h.of_forest h.forest rfl
    · exact h

theorem refresh (h : Descends s₀ s) : Descends s₀ s.refresh := by
  have hvalues := List.foldlRecOn s.forest.preorder
    (fun s i => (s.refreshValue i).refreshDisplay i) h
    fun s hs i _ => (hs.refreshValue i).refreshDisplay i
  exact List.foldlRecOn _ _ hvalues fun s hs i _ => hs.refreshMotion i

theorem write (h : Descends s₀ s) (key : String) (value : Json) :
    Descends s₀ (s.write key value) :=
  refresh (h.of_forest h.forest rfl)

theorem mountMotion (h : Descends s₀ s) (i : Nat) : Descends s₀ (s.mountMotion i) := by
  rw [Session.mountMotion]
  split
  · exact h
  · split
    · exact h.move i _
    · exact h.of_forest h.forest rfl
    · exact h

theorem mount (h : Descends s₀ s) : Descends s₀ s.mount := by
  rw [Session.mount]
  split_ifs
  · exact h
  · have hmounted : Descends s₀ { s with mounted := true } := h.of_forest h.forest rfl
    exact refresh (List.foldlRecOn _ _ hmounted fun s hs i _ => hs.mountMotion i)

/-! ## Effects -/

theorem toggle (h : Descends s₀ s) (i : Nat) : Descends s₀ (s.toggle i) := by
  refine h.of_forest ?_ rfl
  dsimp only [Session.toggle, mapForest]
  split_ifs
  · exact (h.forest.setStyleProperty i _ _).removeAttribute i (by decide)
  · exact h.forest.setStyleProperty i _ _

theorem lt_size_of_toastRegion? {f : Forest} (hf : f.WellFormed) {region : Nat}
    (h : toastRegion? f = some region) : region < f.size := by
  rcases Option.or_eq_some_iff.1 h with hfirst | ⟨-, hfirst⟩
  · exact Forest.lt_size_of_mem_preorder hf (List.mem_of_find?_eq_some hfirst)
  · exact Forest.lt_size_of_mem_preorder hf (List.mem_of_find?_eq_some hfirst)

theorem addToast (h : Descends s₀ s) (message : String) (variant : ToastVariant) :
    Descends s₀ (s.addToast message variant) := by
  rw [Session.addToast]
  split
  · exact h
  · next region hregion =>
    refine h.of_forest ?_ rfl
    have hroom := lt_size_of_toastRegion? h.forest.wellFormed hregion
    refine (h.forest.append hroom _ fun name hname => ?_).setText _ _
    have hne : name ≠ "class" := fun heq => hname (heq ▸ by decide)
    rw [List.lookup_cons, beq_eq_false_iff_ne.2 hne]
    rfl

section

variable {moveFocus : Nat → Session → Session}

theorem run (hfocus : ∀ i s, Descends s₀ s → Descends s₀ (moveFocus i s)) (h : Descends s₀ s)
    (source : Nat) (effect : Effect) : Descends s₀ (s.run moveFocus source effect) := by
  have hgetD {α : Type} (value : Option α) (act : α → Session) (hact : ∀ a, Descends s₀ (act a)) :
      Descends s₀ ((value.map act).getD s) := by
    cases value with
    | none => exact h
    | some a => exact hact a
  cases effect with
  | toggle target => exact hgetD _ _ h.toggle
  | setState key value => exact hgetD _ _ fun key => h.write key value
  | appendState key value => exact hgetD _ _ fun key => h.write key _
  | fetch url method body resultKey => exact hgetD _ _ fun url => h.of_forest h.forest rfl
  | emit event => exact h.of_forest h.forest rfl
  | animate target animation =>
    rw [Session.run]
    split
    · exact h.of_forest (h.forest.addClass _ _) rfl
    · exact h
  | focus target selector => exact hgetD _ _ fun i => hfocus i s h
  | toast message variant => exact hgetD _ _ fun message => h.addToast message _

theorem runBinding (hfocus : ∀ i s, Descends s₀ s → Descends s₀ (moveFocus i s))
    (h : Descends s₀ s) (event : String) (source count : Nat) (binding : Binding) :
    Descends s₀ (Session.runBinding moveFocus event source (s, count) binding).1 := by
  rw [Session.runBinding]
  split_ifs
  · exact List.foldlRecOn _ _ h fun s hs effect _ => hs.run hfocus source effect
  · exact h

theorem foldl_runBinding (hfocus : ∀ i s, Descends s₀ s → Descends s₀ (moveFocus i s))
    (event : String) (source : Nat) (bindings : List Binding) (count : Nat)
    (h : Descends s₀ s) :
    Descends s₀ (bindings.foldl (Session.runBinding moveFocus event source) (s, count)).1 := by
  induction bindings generalizing s count with
  | nil => exact h
  | cons binding bindings ih => exact ih _ (h.runBinding hfocus event source count binding)

theorem runBindingsWith (hfocus : ∀ i s, Descends s₀ s → Descends s₀ (moveFocus i s))
    (h : Descends s₀ s) (event : String) (target : Nat) :
    Descends s₀ (Session.runBindingsWith moveFocus event target s).1 := by
  rw [Session.runBindingsWith]
  split
  · exact h
  · exact foldl_runBinding hfocus event _ _ 0 h

end

/-- Moving the focus keeps what lasts, however many bindings that runs. -/
theorem moveFocus (levels : Nat) (i : Nat) (h : Descends s₀ s) :
    Descends s₀ (Session.moveFocus levels i s) := by
  induction levels generalizing i s with
  | zero =>
    rw [Session.moveFocus]
    split_ifs
    · exact h
    · exact h.of_forest h.forest rfl
  | succ levels ih =>
    have hfocus : ∀ i s, Descends s₀ s → Descends s₀ (Session.moveFocus levels i s) :=
      fun i _ hs => ih i hs
    have hfocused {s : Session} (focused : Option Nat) (hs : Descends s₀ s) :
        Descends s₀ { s with focused } := hs.of_forest hs.forest rfl
    rw [Session.moveFocus]
    split_ifs
    · exact h
    · dsimp only
      cases s.focused with
      | none => exact (hfocused _ (hfocused _ h)).runBindingsWith hfocus "focus" i
      | some previous =>
        have hleft := (hfocused none h).runBindingsWith hfocus "blur" previous
        exact (hfocused _ hleft).runBindingsWith hfocus "focus" i

theorem runBindings (h : Descends s₀ s) (event : String) (target : Nat) :
    Descends s₀ (s.runBindings event target).1 :=
  h.runBindingsWith (fun i _ hs => hs.moveFocus focusLevels i) event target

/-! ## Calls -/

theorem refocus (h : Descends s₀ s) (event : String) (target : Nat) :
    Descends s₀ (s.refocus event target) := by
  rw [Session.refocus]
  split_ifs
  · exact h.of_forest h.forest rfl
  · exact h.of_forest h.forest rfl
  · exact h

theorem moveOn (h : Descends s₀ s) (trigger : Trigger) (i : Nat) :
    Descends s₀ (s.moveOn trigger i) := by
  rw [Session.moveOn]
  split
  · exact h
  · split
    · split_ifs
      · exact h.move _ _
      · exact h
    · exact h

theorem settleErrand (h : Descends s₀ s) (network : Network) (errand : Errand) :
    Descends s₀ (Session.settleErrand (s, network) errand).1 := by
  rw [Session.settleErrand]
  dsimp only
  split
  · exact h.write _ _
  · exact h

theorem settle (h : Descends s₀ s) (network : Network) : Descends s₀ (s.settle network).1 := by
  have hfold (errands : List Errand) : ∀ {s : Session} (network : Network), Descends s₀ s →
      Descends s₀ (errands.foldl Session.settleErrand (s, network)).1 := by
    induction errands with
    | nil => exact fun _ hs => hs
    | cons errand errands ih => exact fun network hs => ih _ (hs.settleErrand network errand)
  exact hfold s.errands network (h.of_forest h.forest rfl)

theorem fire (h : Descends s₀ s) (event : String) (trigger : Option Trigger) (target : Nat)
    (network : Network) : Descends s₀ (s.fire event trigger target network).session := by
  have hran := h.runBindings event target
  rw [Session.fire]
  dsimp only
  refine settle ?_ network
  cases trigger with
  | none => exact hran
  | some trigger => exact hran.moveOn trigger target

theorem changeToast {f g : Forest} (h : f.Grown g) (timer : Timer) :
    f.Grown (Session.changeToast g timer) := by
  rw [Session.changeToast]
  split
  · exact h.addClass _ _
  · exact h.removeClass _ _
  · exact h.detach _

theorem tick? (h : Descends s₀ s) {moment : Nat} {next : Session}
    (htick : s.tick? moment = some next) : Descends s₀ next := by
  obtain ⟨timer, rest, -, -, rfl⟩ := tick?_eq_some.1 htick
  exact h.of_forest (changeToast h.forest timer) rfl

theorem elapse (h : Descends s₀ s) (moment : Nat) : Descends s₀ (s.elapse moment) := by
  fun_induction Session.elapse moment s with
  | case1 => exact h
  | case2 s next htick ih => exact ih (h.tick? htick)

theorem advance (h : Descends s₀ s) (milliseconds : Nat) :
    Descends s₀ (s.advance milliseconds) :=
  (h.elapse _).of_forest (h.elapse _).forest rfl

end Descends

/-! ## Requests that are due -/

section

variable (s : Session)

theorem errands_refreshValue (i : Nat) : (s.refreshValue i).errands = s.errands := by
  rw [refreshValue]
  split <;> rfl

theorem errands_refreshDisplay (i : Nat) : (s.refreshDisplay i).errands = s.errands := by
  rw [refreshDisplay]
  split <;> rfl

theorem errands_move (i : Nat) (motion : Motion) : (s.move i motion).errands = s.errands := by
  cases motion with
  | _ => rfl

theorem errands_refreshMotion (i : Nat) : (s.refreshMotion i).errands = s.errands := by
  rw [refreshMotion]
  split
  · rfl
  · split_ifs
    · rfl
    · exact errands_move _ _ _
    · rfl
    · rfl

theorem errands_foldl {α : Type} {act : Session → α → Session}
    (h : ∀ s a, (act s a).errands = s.errands) (as : List α) :
    (as.foldl act s).errands = s.errands := by
  induction as generalizing s with
  | nil => rfl
  | cons a as ih => exact (ih (act s a)).trans (h s a)

theorem errands_refresh : s.refresh.errands = s.errands := by
  have hvalue (s : Session) (i : Nat) :
      ((s.refreshValue i).refreshDisplay i).errands = s.errands :=
    (errands_refreshDisplay _ i).trans (errands_refreshValue s i)
  exact (errands_foldl _ errands_refreshMotion _).trans (errands_foldl s hvalue _)

theorem errands_write (key : String) (value : Json) : (s.write key value).errands = s.errands :=
  errands_refresh _

theorem errands_mountMotion (i : Nat) : (s.mountMotion i).errands = s.errands := by
  rw [mountMotion]
  split
  · rfl
  · split
    · exact errands_move _ _ _
    · rfl
    · rfl

theorem errands_mount : s.mount.errands = s.errands := by
  rw [mount]
  split_ifs
  · rfl
  · exact (errands_refresh _).trans (errands_foldl _ errands_mountMotion _)

theorem errands_moveOn (trigger : Trigger) (i : Nat) :
    (s.moveOn trigger i).errands = s.errands := by
  rw [moveOn]
  split
  · rfl
  · split
    · split_ifs
      · exact errands_move _ _ _
      · rfl
    · rfl

theorem errands_tick? {moment : Nat} {next : Session} (h : s.tick? moment = some next) :
    next.errands = s.errands := by
  obtain ⟨timer, rest, -, -, rfl⟩ := tick?_eq_some.1 h
  rfl

theorem errands_advance (milliseconds : Nat) : (s.advance milliseconds).errands = s.errands := by
  rw [advance]
  dsimp only
  generalize Schedule.after s.clock milliseconds = moment
  fun_induction elapse moment s with
  | case1 => rfl
  | case2 s next htick ih => exact ih.trans (errands_tick? s htick)

/-- Once requests were sent none is due. -/
theorem errands_settle (network : Network) : (s.settle network).1.errands = [] := by
  have herrand (progress : Session × Network) (errand : Errand) :
      (settleErrand progress errand).1.errands = progress.1.errands := by
    obtain ⟨s, network⟩ := progress
    rw [settleErrand]
    dsimp only
    split
    · exact errands_write _ _ _
    · rfl
  have hfold (errands : List Errand) : ∀ progress : Session × Network, progress.1.errands = [] →
      (errands.foldl settleErrand progress).1.errands = [] := by
    induction errands with
    | nil => exact fun _ h => h
    | cons errand errands ih => exact fun progress h => ih _ ((herrand progress errand).trans h)
  exact hfold s.errands _ rfl

/-- Without requests that are due nothing is sent. -/
theorem settle_of_no_errands {s : Session} (network : Network) (h : s.errands = []) :
    s.settle network = (s, network) := by
  have hsession : { s with errands := [] } = s := by rw [← h]
  rw [settle, h, List.foldl_nil, hsession]

theorem errands_fire (event : String) (trigger : Option Trigger) (target : Nat)
    (network : Network) : (s.fire event trigger target network).session.errands = [] :=
  errands_settle _ network

end

/-! ## Every sequence of calls -/

theorem dispatch_of_heard {event : String} (h : heardEvents.contains event = true) (id : String)
    (network : Network) (s : Session) :
    s.dispatch id event network = (s.element id).map fun target =>
      (s.refocus event target).fire event (if event = "click" then some .onPress else none) target
        network := by
  rw [dispatch]
  cases s.element id with
  | _ => simp only [h]; rfl

theorem dispatch_of_unheard {event : String} (h : heardEvents.contains event = false) (id : String)
    (network : Network) (s : Session) : s.dispatch id event network = .error (.unheard event) := by
  rw [dispatch, h]
  rfl

/-- What can come of a page by one call after the other, whatever the page talks to. -/
inductive Follows (s₀ : Session) : Session → Prop where
  | start : Follows s₀ s₀
  | call {s : Session} {network : Network} {interaction : Interaction} {report : Report}
      {v : Visit} (h : Follows s₀ s)
      (hperform : perform { session := s, network } interaction = .ok (report, v)) :
      Follows s₀ v.session

theorem exists_of_map_eq_ok {ε α β : Type} {f : α → β} {x : Except ε α} {b : β}
    (h : x.map f = .ok b) : ∃ a, x = .ok a ∧ f a = b := by
  cases x with
  | error fault => cases h
  | ok a => exact ⟨a, rfl, Except.ok.inj h⟩

theorem exists_of_bind_eq_ok {ε α β : Type} {f : α → Except ε β} {x : Except ε α} {b : β}
    (h : x.bind f = .ok b) : ∃ a, x = .ok a ∧ f a = .ok b := by
  cases x with
  | error fault => cases h
  | ok a => exact ⟨a, rfl, h⟩

theorem node?_of_element {s : Session} {id : String} {i : Nat} (h : s.element id = .ok i) :
    s.node? id = some i := by
  rw [element] at h
  split at h
  · next hnode => rwa [← Except.ok.inj h]
  · cases h

theorem element_of_node? {s : Session} {id : String} {i : Nat} (h : s.node? id = some i) :
    s.element id = .ok i := by
  rw [element, h]

/-- What lasts of a page between calls. -/
structure Rests (s₀ s : Session) : Prop where
  descends : Descends s₀ s
  errands : s.errands = []

variable {s₀ s : Session}

theorem node?_eq (h : Descends s₀ s) (id : String) : s.node? id = s₀.node? id := by
  rw [node?, node?, h.nodes]

theorem Rests.dispatch (h : Rests s₀ s) {id event : String} {network : Network}
    {outcome : Outcome} (hdispatch : s.dispatch id event network = .ok outcome) :
    Rests s₀ outcome.session := by
  by_cases hheard : heardEvents.contains event = true
  · rw [dispatch_of_heard hheard] at hdispatch
    obtain ⟨target, -, rfl⟩ := exists_of_map_eq_ok hdispatch
    exact ⟨(h.descends.refocus event target).fire event _ target network, errands_fire ..⟩
  · rw [dispatch_of_unheard (Bool.not_eq_true _ ▸ hheard)] at hdispatch
    cases hdispatch

/-- **Each call keeps what lasts**, and leaves no request due. -/
theorem Rests.perform (h : Rests s₀ s) {network : Network} {interaction : Interaction}
    {report : Report} {v : Visit}
    (hperform : perform { session := s, network } interaction = .ok (report, v)) :
    Rests s₀ v.session := by
  cases interaction with
  | mount =>
    obtain rfl := (Prod.mk.inj (Except.ok.inj hperform)).2
    exact ⟨h.descends.mount, (errands_mount s).trans h.errands⟩
  | dispatch id event =>
    obtain ⟨outcome, houtcome, hv⟩ := exists_of_map_eq_ok hperform
    rw [← (Prod.mk.inj hv).2]
    exact h.dispatch houtcome
  | enter id value =>
    obtain ⟨outcome, houtcome, hv⟩ := exists_of_map_eq_ok hperform
    obtain ⟨target, -, houtcome⟩ := exists_of_bind_eq_ok houtcome
    rw [← (Prod.mk.inj hv).2]
    have hset : Rests s₀ (s.mapForest (·.setValue target value)) :=
      ⟨h.descends.of_forest (h.descends.forest.setValue target value) rfl, h.errands⟩
    exact hset.dispatch houtcome
  | hover id =>
    obtain ⟨outcome, houtcome, hv⟩ := exists_of_map_eq_ok hperform
    obtain ⟨target, -, houtcome⟩ := exists_of_bind_eq_ok houtcome
    rw [← (Prod.mk.inj hv).2, ← Except.ok.inj houtcome]
    exact ⟨h.descends.fire hoverEvent _ target network, errands_fire ..⟩
  | reveal id =>
    obtain ⟨⟨awaited, session⟩, hreveal, hv⟩ := exists_of_map_eq_ok hperform
    obtain ⟨target, -, hreveal⟩ := exists_of_bind_eq_ok hreveal
    rw [← (Prod.mk.inj hv).2]
    split_ifs at hreveal
    · rw [← (Prod.mk.inj (Except.ok.inj hreveal)).2]
      have herased : Rests s₀ { s with awaited := s.awaited.erase target } :=
        ⟨h.descends.of_forest h.descends.forest rfl, h.errands⟩
      dsimp only
      cases motion? { s with awaited := s.awaited.erase target } target with
      | none => exact herased
      | some motion =>
        exact ⟨herased.descends.move target motion, (errands_move _ _ _).trans herased.errands⟩
    · rw [← (Prod.mk.inj (Except.ok.inj hreveal)).2]
      exact h
  | advance milliseconds =>
    obtain rfl := (Prod.mk.inj (Except.ok.inj hperform)).2
    exact ⟨h.descends.advance milliseconds, (errands_advance s milliseconds).trans h.errands⟩
  | endAnimation id =>
    obtain ⟨session, hended, hv⟩ := exists_of_map_eq_ok hperform
    obtain ⟨target, -, hended⟩ := exists_of_bind_eq_ok hended
    rw [← (Prod.mk.inj hv).2, ← Except.ok.inj hended]
    refine ⟨h.descends.of_forest ?_ rfl, h.errands⟩
    exact List.foldlRecOn _ _ h.descends.forest fun f hf entry _ => hf.removeClass target entry.2
  | write key value =>
    obtain rfl := (Prod.mk.inj (Except.ok.inj hperform)).2
    exact ⟨h.descends.write key value, (errands_write s key value).trans h.errands⟩

/-- **Whatever is done with a page keeps what lasts.** -/
theorem Follows.rests (h : Follows s₀ s) (hf : s₀.forest.WellFormed) (herrands : s₀.errands = []) :
    Rests s₀ s := by
  induction h with
  | start => exact ⟨⟨.refl hf, rfl⟩, herrands⟩
  | call _ hperform ih => exact ih.perform hperform

end Session

end PageTree
