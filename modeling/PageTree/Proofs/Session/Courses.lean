import PageTree.Proofs.Session.Cues

/-!
# Courses of a page

All that a call does between its cues is calm: nothing is played, awaited or recorded then, and no
class comes or goes but those of toasts. So what is done with a page is a course, in which each step
is either calm or one of few kinds, told by its cue. What each kind of step keeps, every course
keeps, and so does every sequence of calls.

## Main definitions

* `Session.Calm`, `Session.Beat`, `Session.Course`: steps without and with a cue, and many of them

## Main results

* `Session.Calm.aligned`, `Session.Calm.advance`: bringing values in line plays nothing, and neither
  does the clock
* `Session.Runs.course`: effects that run are a course
* `Session.Reaches.course`: calls are courses with the listed cues
-/

namespace PageTree

theorem Forest.Grown.trans {f g k : Forest} (h : f.Grown g) (h' : g.Grown k) : f.Grown k where
  wellFormed := h'.wellFormed
  size := h.size.trans h'.size
  tag i hi := (h'.tag i (hi.trans_le h.size)).trans (h.tag i hi)
  lasting i name hname := (h'.lasting i name hname).trans (h.lasting i name hname)
  parent i p hi hp := h.parent i p hi (h'.parent i p (hi.trans_le h.size) hp)

namespace Session

theorem Descends.trans {s t u : Session} (h : Descends s t) (h' : Descends t u) : Descends s u :=
  ⟨h.forest.trans h'.forest, h'.nodes.trans h.nodes⟩

/-- The classes of toasts. -/
def toastClasses : List String :=
  [toastClass, shownToastClass] ++
    (Vocabulary.all : List ToastVariant).map fun variant =>
      toastClass ++ "--" ++ Vocabulary.name variant

/-- A page goes on, and nothing happens to what moves on it. -/
structure Calm (s s' : Session) : Prop where
  descends : Descends s s'
  mounted : s'.mounted = s.mounted
  awaited : s'.awaited = s.awaited
  spent : s'.spent = s.spent
  animations : s'.animations = s.animations
  animationClasses : s'.animationClasses = s.animationClasses
  /-- No class comes or goes but those of toasts. -/
  classes : ∀ i, ∀ c ∉ toastClasses, c ∈ s'.forest.classes i ↔ c ∈ s.forest.classes i

/-- One step on a page, with its cue if it has one. -/
inductive Beat : Session → List Cue → Session → Prop where
  | calm {s s' : Session} (h : Calm s s') : Beat s [] s'
  | mount {s : Session} (h : s.mounted = false) : Beat s [.mount] s.opened
  | refresh (s : Session) : Beat s [.refresh s] s.refresh
  | play {s : Session} {i : Nat} {motion : Motion} (h : s.motion? i = some motion)
      (htrigger : motion.trigger ≠ .onState) : Beat s [.play i] (s.play i)
  | reveal {s : Session} {i : Nat} (h : i ∈ s.awaited) : Beat s [.reveal i] (s.revealed i)
  | animate (s : Session) (i : Nat) (name : String) : Beat s [.animate i name] (s.animate name i)
  | endAnimation (s : Session) (i : Nat) : Beat s [.endAnimation i] (s.withoutAnimation i)

/-- Steps on a page, one after the other, with all their cues. -/
inductive Course : Session → List Cue → Session → Prop where
  | refl (s : Session) : Course s [] s
  | snoc {s s' s'' : Session} {cues more : List Cue} (h : Course s cues s')
      (hbeat : Beat s' more s'') : Course s (cues ++ more) s''

variable {s₀ s s' s'' t : Session} {cues more : List Cue}

/-! ## Calm steps -/

namespace Calm

theorem refl (hs : s.forest.WellFormed) : Calm s s :=
  ⟨⟨.refl hs, rfl⟩, rfl, rfl, rfl, rfl, rfl, fun _ _ _ => Iff.rfl⟩

theorem trans (h : Calm s s') (h' : Calm s' s'') : Calm s s'' where
  descends := h.descends.trans h'.descends
  mounted := h'.mounted.trans h.mounted
  awaited := h'.awaited.trans h.awaited
  spent := h'.spent.trans h.spent
  animations := h'.animations.trans h.animations
  animationClasses := h'.animationClasses.trans h.animationClasses
  classes i c hc := (h'.classes i c hc).trans (h.classes i c hc)

/-- The elements change, but not their classes. -/
theorem mapForest {f : Forest} (hgrown : s.forest.Grown f)
    (hclasses : ∀ i, f.classes i = s.forest.classes i) : Calm s { s with forest := f } :=
  ⟨⟨hgrown, rfl⟩, rfl, rfl, rfl, rfl, rfl, fun i c _ => by rw [hclasses]⟩

theorem setValue (hs : s.forest.WellFormed) (i : Nat) (value : String) :
    Calm s (s.mapForest (·.setValue i value)) :=
  mapForest ((Forest.Grown.refl hs).setValue i value) fun j => s.forest.classes_setValue i j value

theorem setStyleProperty (hs : s.forest.WellFormed) (i : Nat) (property value : String) :
    Calm s (s.mapForest (·.setStyleProperty i property value)) :=
  mapForest ((Forest.Grown.refl hs).setStyleProperty i property value) fun j =>
    s.forest.classes_setStyleProperty i j property value

theorem refreshValue (hs : s.forest.WellFormed) (i : Nat) : Calm s (s.refreshValue i) := by
  rw [Session.refreshValue]
  split
  · exact .refl hs
  · next value _ =>
    refine mapForest ?_ fun j => ?_
    · dsimp only
      split_ifs
      · exact (Forest.Grown.refl hs).setValue i _
      · exact (Forest.Grown.refl hs).setText i _
    · dsimp only
      split_ifs
      · exact s.forest.classes_setValue i j _
      · exact s.forest.classes_setText i j _

theorem refreshDisplay (hs : s.forest.WellFormed) (i : Nat) : Calm s (s.refreshDisplay i) := by
  rw [Session.refreshDisplay]
  split
  · exact .refl hs
  · exact setStyleProperty hs i _ _

/-- Bringing values in line with the state plays nothing. -/
theorem aligned (hs : s.forest.WellFormed) : Calm s s.aligned := by
  refine List.foldlRecOn _ _ (.refl hs) fun t ht i _ => ?_
  have hvalue := refreshValue ht.descends.forest.wellFormed i
  exact (ht.trans hvalue).trans (refreshDisplay hvalue.descends.forest.wellFormed i)

theorem toggle (hs : s.forest.WellFormed) (i : Nat) : Calm s (s.toggle i) := by
  refine mapForest ((Descends.toggle ⟨.refl hs, rfl⟩ i).forest) fun j => ?_
  dsimp only
  split_ifs
  · rw [Forest.classes_removeAttribute _ (by decide), Forest.classes_setStyleProperty]
  · exact Forest.classes_setStyleProperty ..

theorem refocus (hs : s.forest.WellFormed) (event : String) (target : Nat) :
    Calm s (s.refocus event target) := by
  rw [Session.refocus]
  split_ifs
  · exact ⟨⟨.refl hs, rfl⟩, rfl, rfl, rfl, rfl, rfl, fun _ _ _ => Iff.rfl⟩
  · exact ⟨⟨.refl hs, rfl⟩, rfl, rfl, rfl, rfl, rfl, fun _ _ _ => Iff.rfl⟩
  · exact .refl hs

/-- A toast comes with classes of toasts. -/
theorem addToast (hs : s.forest.WellFormed) (message : String) (variant : ToastVariant) :
    Calm s (s.addToast message variant) := by
  have hdescends := Descends.addToast ⟨.refl hs, rfl⟩ message variant
  rw [Session.addToast] at hdescends ⊢
  split
  · exact .refl hs
  · next region hregion =>
    rw [hregion] at hdescends
    have hroom := Descends.lt_size_of_toastRegion? hs hregion
    refine ⟨hdescends, rfl, rfl, rfl, rfl, rfl, fun i c hc => ?_⟩
    dsimp only
    rw [Forest.classes_setText, Forest.classes_append hroom]
    split_ifs with hnew
    · rw [hnew, Forest.classes_of_size_le (Nat.le_refl _)]
      refine iff_of_false (fun hmem => hc ?_) List.not_mem_nil
      have hlook : ∀ c ∈ words (toastLook variant false), c ∈ toastClasses := by
        cases variant <;> decide
      exact hlook c hmem
    · exact Iff.rfl

/-- Toasts change in classes of toasts. -/
theorem tick? (hs : s.forest.WellFormed) {moment : Nat} (h : s.tick? moment = some t) :
    Calm s t := by
  have hdescends := Descends.tick? ⟨.refl hs, rfl⟩ h
  obtain ⟨timer, rest, -, -, rfl⟩ := tick?_eq_some.1 h
  refine ⟨hdescends, rfl, rfl, rfl, rfl, rfl, fun i c hc => ?_⟩
  have hwords : words shownToastClass = [shownToastClass] := by decide
  have hne : c ≠ shownToastClass := fun heq => hc (heq ▸ by decide)
  dsimp only [happen]
  rw [changeToast]
  split
  · constructor
    · intro hmem
      rcases Forest.mem_classes_of_mem_addClass hmem with hmem | ⟨-, hmem⟩
      · exact hmem
      · rw [hwords, List.mem_singleton] at hmem
        exact absurd hmem hne
    · exact fun hmem => Forest.mem_classes_addClass_of_mem hmem
  · rw [Forest.classes_removeClass]
    split_ifs
    · rw [List.mem_filter, bne_iff_ne]
      exact and_iff_left hne
    · exact Iff.rfl
  · rw [Forest.classes_detach]

theorem elapse (hs : s.forest.WellFormed) (moment : Nat) : Calm s (s.elapse moment) := by
  fun_induction Session.elapse moment s with
  | case1 => exact .refl hs
  | case2 s next htick ih =>
    have hnext := tick? hs htick
    exact hnext.trans (ih hnext.descends.forest.wellFormed)

/-- **The clock plays nothing.** -/
theorem advance (hs : s.forest.WellFormed) (milliseconds : Nat) :
    Calm s (s.advance milliseconds) :=
  { elapse hs (Schedule.after s.clock milliseconds) with
    descends := Descends.advance ⟨.refl hs, rfl⟩ milliseconds }

end Calm

/-! ## Beats and courses -/

theorem Descends.revealed (h : Descends s₀ s) (i : Nat) : Descends s₀ (s.revealed i) := by
  have herased : Descends s₀ { s with awaited := s.awaited.erase i } := h.of_forest h.forest rfl
  exact herased.play i

theorem Descends.withoutAnimation (h : Descends s₀ s) (i : Nat) :
    Descends s₀ (s.withoutAnimation i) := by
  refine h.of_forest ?_ rfl
  exact List.foldlRecOn _ _ h.forest fun f hf entry _ => hf.removeClass i entry.2

/-- **A step keeps what lasts.** -/
theorem Beat.descends (h : Descends s₀ s) (hbeat : Beat s cues s') : Descends s₀ s' := by
  cases hbeat with
  | calm hcalm => exact h.trans hcalm.descends
  | mount => exact h.of_forest h.forest rfl
  | refresh => exact h.refresh
  | play => exact h.play _
  | reveal => exact h.revealed _
  | animate => exact h.of_forest (h.forest.addClass _ _) rfl
  | endAnimation => exact h.withoutAnimation _

namespace Course

/-- **Every course keeps what lasts.** -/
theorem descends (h : Descends s₀ s) (hcourse : Course s cues s') : Descends s₀ s' := by
  induction hcourse with
  | refl => exact h
  | snoc _ hbeat ih => exact hbeat.descends ih

theorem wellFormed (h : Course s cues s') (hs : s.forest.WellFormed) : s'.forest.WellFormed :=
  (h.descends ⟨.refl hs, rfl⟩).forest.wellFormed

theorem single (h : Beat s cues s') : Course s cues s' := by
  have := (Course.refl s).snoc h
  rwa [List.nil_append] at this

theorem trans (h : Course s cues s') (h' : Course s' more s'') : Course s (cues ++ more) s'' := by
  induction h' with
  | refl => rwa [List.append_nil]
  | snoc _ hbeat ih =>
    rw [← List.append_assoc]
    exact ih.snoc hbeat

/-- Calm steps come in front of others unnoticed. -/
theorem after (h : Calm s s') (h' : Course s' cues s'') : Course s cues s'' := by
  have := (single (.calm h)).trans h'
  rwa [List.nil_append] at this

end Course

/-- Playing the motion of elements, one after the other. -/
theorem course_play {trigger : Trigger} (htrigger : trigger ≠ .onState) (hs : s.forest.WellFormed)
    {order : List Nat} (horder : ∀ i ∈ order, s.moves trigger i = true) :
    Course s (order.map .play) (order.foldl play s) := by
  induction order generalizing s with
  | nil => exact .refl s
  | cons i order ih =>
    obtain ⟨hi, hrest⟩ := List.forall_mem_cons.1 horder
    obtain ⟨motion, hmotion, rfl⟩ := moves_iff.1 hi
    have hplayed : Descends s (s.play i) := Descends.play ⟨.refl hs, rfl⟩ i
    refine (Course.single (.play hmotion htrigger)).trans
      (ih hplayed.forest.wellFormed fun j hj => ?_)
    rw [moves_eq_of_descends hplayed]
    exact hrest j hj

/-- Mounting a page for the first time. -/
theorem course_mount (hs : s.forest.WellFormed) (hmounted : s.mounted = false) :
    Course s s.mountCues s.mount := by
  have hopened : Descends s s.opened := ⟨.refl hs, rfl⟩
  have hplays : Course s.opened ((s.movers .onMount).map .play) s.started :=
    course_play (by decide : Trigger.onMount ≠ .onState) hopened.forest.wellFormed fun i hi => by
      rw [moves_eq_of_descends hopened]
      exact (List.mem_filter.1 hi).2
  rw [mount_eq hs hmounted]
  exact (Course.single (.mount hmounted)).trans (hplays.snoc (.refresh s.started))

/-- Writing a value into the state. -/
theorem course_write (hs : s.forest.WellFormed) (key : String) (value : Json) :
    Course s [.refresh (s.withWritten key value)] (s.write key value) := by
  have hwritten : Calm s (s.withWritten key value) :=
    ⟨⟨.refl hs, rfl⟩, rfl, rfl, rfl, rfl, rfl, fun _ _ _ => Iff.rfl⟩
  exact .after hwritten (.single (.refresh _))

theorem course_writeAll (hs : s.forest.WellFormed) (writes : List (String × Json)) :
    Course s (writeCues writes s) (s.writeAll writes) := by
  induction writes generalizing s with
  | nil => exact .refl s
  | cons entry writes ih =>
    have hfirst := course_write hs entry.1 entry.2
    exact hfirst.trans (ih (hfirst.wellFormed hs))

/-- **One effect**, apart from a move of the focus. -/
theorem course_run (hs : s.forest.WellFormed) {effect : Effect} (h : s.moved? effect = none)
    (moveFocus : Nat → Session → Session) (source : Nat) :
    Course s (Execution.cues ⟨s, source, effect⟩) (s.run moveFocus source effect) := by
  have hgetD {α : Type} (value : Option α) (act : α → Session) (hact : ∀ a, Calm s (act a)) :
      Course s [] ((value.map act).getD s) := by
    cases value with
    | none => exact .refl s
    | some a => exact .single (.calm (hact a))
  have hwrite (key : Option String) (value : Json) :
      Course s ((stated key).toList.map fun key => .refresh (s.withWritten key value))
        (((stated key).map fun key => s.write key value).getD s) := by
    cases stated key with
    | none => exact .refl s
    | some key => exact course_write hs key value
  cases effect with
  | toggle target => exact hgetD _ _ fun i => .toggle hs i
  | setState key value => exact hwrite key value
  | appendState key value =>
    rw [Execution.cues, run]
    dsimp only
    cases stated key with
    | none => exact .refl s
    | some key => exact course_write hs key _
  | fetch url method body resultKey =>
    exact hgetD _ _ fun url =>
      ⟨⟨.refl hs, rfl⟩, rfl, rfl, rfl, rfl, rfl, fun _ _ _ => Iff.rfl⟩
  | emit event =>
    exact .single (.calm ⟨⟨.refl hs, rfl⟩, rfl, rfl, rfl, rfl, rfl, fun _ _ _ => Iff.rfl⟩)
  | animate target animation =>
    rw [Execution.cues, run]
    dsimp only
    cases s.animationTarget? target source with
    | none => exact .refl s
    | some i =>
      cases stated animation with
      | none => exact .refl s
      | some name => exact .single (.animate s i name)
  | focus target selector =>
    rw [moved?] at h
    rw [run, h]
    exact .refl s
  | toast message variant => exact hgetD _ _ fun message => .addToast hs message _

theorem cues_of_moved? {effect : Effect} {i : Nat} (h : s.moved? effect = some i) (source : Nat) :
    Execution.cues ⟨s, source, effect⟩ = [] := by
  cases effect with
  | focus => rfl
  | _ => cases h

theorem calm_focused (hs : s.forest.WellFormed) (focused : Option Nat) :
    Calm s { s with focused } :=
  ⟨⟨.refl hs, rfl⟩, rfl, rfl, rfl, rfl, rfl, fun _ _ _ => Iff.rfl⟩

/-- **Effects that run are a course** with the cues of each of them. -/
theorem Runs.course {task : Task} {n m : Nested} {a : Trace} (h : Runs task n a m)
    (hn : n.session.forest.WellFormed) :
    Course n.session ((a.map Prod.snd).flatMap Execution.cues) m.session := by
  induction h with
  | @act source effect s _ h =>
    rw [List.map_singleton, List.flatMap_singleton]
    exact course_run hn h (fun _ s => s) source
  | @move source _ _ _ _ _ _ h _ ih =>
    rw [List.map_cons, List.flatMap_cons, cues_of_moved? h]
    exact ih hn
  | effectsNil | bindingsNil | eventNone | blurNone | stay => exact .refl _
  | suppress => exact .single (.calm (calm_focused hn _))
  | effectsCons _ _ ihFirst ihRest | bindingsCons _ _ _ ihFirst ihRest =>
    rw [List.map_append, List.flatMap_append]
    exact (ihFirst hn).trans (ihRest ((ihFirst hn).wellFormed hn))
  | bindingsSkip _ _ ih | eventSome _ _ ih | blurSome _ ih => exact ih hn
  | nest _ _ _ _ ihBlur ihFocus =>
    -- the focus is lost, then bindings run, then it is given to the element, and others run
    have hblur := Course.after (calm_focused hn none) (ihBlur hn)
    have hleft := hblur.wellFormed hn
    rw [map_snd_inside, List.map_append, List.flatMap_append]
    exact hblur.trans (.after (calm_focused hleft _) (ihFocus hleft))

/-! ## Calls -/

/-- A call that runs effects: these, then the motion that its event sets off, then the answers. -/
theorem course_start {start : Start} (hs : start.session.forest.WellFormed)
    (htrigger : start.trigger ≠ some .onState) (network : Network) :
    Course start.session (start.cues network) (start.acted.settle network).1 := by
  obtain ⟨trace, hruns, hlog⟩ := settles_event start.event start.target start.session
  have hran := hruns.course hs
  rw [hlog] at hran
  have hplayed : Course (start.session.runBindings start.event start.target).1
      ((start.trigger.bind ((start.session.runBindings start.event start.target).1.mover? ·
        start.target)).toList.map .play) start.acted := by
    have hs := hran.wellFormed hs
    rw [start.acted_eq, Start.moveOn]
    cases hsets : start.trigger with
    | none => exact .refl _
    | some trigger =>
      rw [Option.bind_some, Option.map_some, Option.getD_some, moveOn_eq]
      cases hmover : Session.mover? _ trigger start.target with
      | none => exact .refl _
      | some mover =>
        have hmoves := (Option.filter_eq_some_iff.1 hmover).2
        have hne : trigger ≠ .onState := fun heq => htrigger (heq ▸ hsets)
        exact course_play hne hs (List.forall_mem_singleton.2 hmoves)
  have hacted := hran.trans hplayed
  have hsent : Calm start.acted { start.acted with errands := [] } :=
    ⟨⟨.refl (hacted.wellFormed hs), rfl⟩, rfl, rfl, rfl, rfl, rfl, fun _ _ _ => Iff.rfl⟩
  rw [settle_eq, Start.cues, ← List.append_assoc]
  exact hacted.trans (.after hsent (course_writeAll hsent.descends.forest.wellFormed _))

variable {network : Network} {interaction : Interaction}

/-- Events set off motion on press and on hover. -/
theorem trigger_of_start? {start : Start}
    (h : Call.start? ⟨s, network, interaction⟩ = some start) :
    start.trigger = none ∨ start.trigger = some .onPress ∨ start.trigger = some .onHover := by
  have hdispatch {t : Session} {id event : String} (h : t.dispatchStart? id event = some start) :
      start.trigger = none ∨ start.trigger = some .onPress ∨ start.trigger = some .onHover := by
    obtain ⟨-, hstart⟩ := Option.ite_none_right_eq_some.1 h
    obtain ⟨target, -, rfl⟩ := Option.map_eq_some_iff.1 hstart
    by_cases hclick : event = "click"
    · exact .inr (.inl (if_pos hclick))
    · exact .inl (if_neg hclick)
  cases interaction with
  | dispatch id event => exact hdispatch h
  | enter id value =>
    obtain ⟨target, -, hstart⟩ := Option.bind_eq_some_iff.1 h
    exact hdispatch hstart
  | hover id =>
    obtain ⟨target, -, rfl⟩ := Option.map_eq_some_iff.1 h
    exact .inr (.inr rfl)
  | mount | reveal | advance | endAnimation | write => cases h

/-- What a call begins with is the page with a value entered or the focus moved. -/
theorem calm_start? (hs : s.forest.WellFormed) {start : Start}
    (h : Call.start? ⟨s, network, interaction⟩ = some start) : Calm s start.session :=
  of_start? (fun i value => .setValue hs i value)
    (fun event i _ ht => ht.trans (.refocus ht.descends.forest.wellFormed event i)) (.refl hs) h

/-- A call that runs effects, and does not fail. -/
theorem course_of_start? (hs : s.forest.WellFormed) {start : Start}
    (h : Call.start? ⟨s, network, interaction⟩ = some start) :
    Course s (start.cues network) (start.acted.settle network).1 := by
  have hstart := calm_start? hs h
  have htrigger : start.trigger ≠ some .onState := by
    rcases trigger_of_start? h with hnone | hpress | hhover
    · simp [hnone]
    · simp [hpress]
    · simp [hhover]
  exact .after hstart (course_start hstart.descends.forest.wellFormed htrigger network)

/-- **A call is a course** with the cues that it lists. -/
theorem course_of_perform (hs : s.forest.WellFormed) {report : Report} {v : Visit}
    (h : perform ⟨s, network⟩ interaction = .ok (report, v)) :
    Course s (Call.cues ⟨s, network, interaction⟩) v.session := by
  have hran {count : Nat} (hcount : perform ⟨s, network⟩ interaction = .ok (.ran count, v)) :
      Course s (((Call.start? ⟨s, network, interaction⟩).map fun start =>
        start.cues network).getD []) v.session := by
    obtain ⟨start, hstart⟩ := exists_start?_of_ran hcount
    obtain ⟨_, hperform⟩ := perform_of_start? hstart
    obtain ⟨-, rfl⟩ := Prod.mk.inj (Except.ok.inj (hperform.symm.trans h))
    rw [hstart]
    exact course_of_start? hs hstart
  cases interaction with
  | mount =>
    obtain ⟨-, rfl⟩ := Prod.mk.inj (Except.ok.inj h)
    rw [Call.cues]
    dsimp only
    split_ifs with hmounted
    · rw [mount, if_pos hmounted]
      exact .refl s
    · exact course_mount hs (Bool.eq_false_iff.2 hmounted)
  | dispatch | enter | hover =>
    obtain ⟨outcome, -, hreport⟩ := exists_of_map_eq_ok h
    obtain ⟨rfl, -⟩ := Prod.mk.inj hreport
    exact hran h
  | reveal id =>
    obtain ⟨revealed, hreveal, hv⟩ := exists_of_map_eq_ok h
    obtain ⟨-, rfl⟩ := Prod.mk.inj hv
    rw [reveal_eq] at hreveal
    obtain ⟨i, helement, rfl⟩ := exists_of_map_eq_ok hreveal
    rw [Call.cues]
    dsimp only
    rw [node?_of_element helement]
    split_ifs with hawaited
    · rw [Option.filter_some_pos (List.contains_iff_mem.2 hawaited)]
      exact .single (.reveal hawaited)
    · rw [Option.filter_some_neg (by simpa using hawaited)]
      exact .refl s
  | advance milliseconds =>
    obtain ⟨-, rfl⟩ := Prod.mk.inj (Except.ok.inj h)
    exact .single (.calm (.advance hs milliseconds))
  | endAnimation id =>
    obtain ⟨ended, hended, hv⟩ := exists_of_map_eq_ok h
    obtain ⟨-, rfl⟩ := Prod.mk.inj hv
    rw [endAnimation_eq] at hended
    obtain ⟨i, helement, rfl⟩ := exists_of_map_eq_ok hended
    rw [Call.cues]
    dsimp only
    rw [node?_of_element helement]
    exact .single (.endAnimation s i)
  | write key value =>
    obtain ⟨-, rfl⟩ := Prod.mk.inj (Except.ok.inj h)
    exact course_write hs key value

/-- **Calls are courses** with the cues that they list. -/
theorem Reaches.course {calls : List Call} (h : Reaches s₀ calls s) (hs : s₀.forest.WellFormed) :
    Course s₀ (calls.flatMap Call.cues) s := by
  induction h with
  | start => exact .refl s₀
  | call _ hperform ih =>
    rw [List.flatMap_append, List.flatMap_singleton]
    exact ih.trans (course_of_perform (ih.wellFormed hs) hperform)

end Session

end PageTree
