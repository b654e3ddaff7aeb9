import PageTree.Proofs.Session.Clock
import PageTree.Proofs.Session.ToastRows
import PageTree.Session.View

/-!
# The life of a toast

A toast waits, shows, hides, and is taken out. What is scheduled for it tells where it is in its
life, and the other way round: in each phase exactly what comes next is scheduled, whatever else is.
So at any time between calls the clock alone tells the phase, unless it has come to its end. The
region of a toast can be written to when a state key is bound around it; then the toast can go
early, but it never stays longer.

## Main definitions

* `ToastPhase`: the phases of a toast, with what is scheduled in each
* `Raised.Stands`: a raised toast is in a phase
* `Session.Lists`: all toasts that were raised are in some phase

## Main results

* `Session.Lists.stage`, `Session.Lists.tick?`: stages leave toasts in their phases, and a tick
  takes one toast to its next phase
* `Session.Reaches.listsToasts`: the toasts of a page between calls
-/

namespace PageTree

/-- The phases of a toast. -/
inductive ToastPhase where
  | waiting | shown | hidden | gone
  deriving DecidableEq, Repr

namespace ToastPhase

/-- What is scheduled for a toast in a phase. -/
def timers (r : Raised) : ToastPhase → List Timer
  | .waiting => Schedule.timeline r.moment r.element
  | .shown => [⟨Schedule.after r.moment Schedule.hideDelay, r.element, .hide⟩]
  | .hidden =>
    [⟨Schedule.after (Schedule.after r.moment Schedule.hideDelay) Schedule.removeDelay, r.element,
      .remove⟩]
  | .gone => []

/-- When the phase of a toast began. -/
def since (r : Raised) : ToastPhase → Nat
  | .waiting => r.moment
  | .shown => Schedule.after r.moment Schedule.showDelay
  | .hidden => Schedule.after r.moment Schedule.hideDelay
  | .gone => Schedule.after (Schedule.after r.moment Schedule.hideDelay) Schedule.removeDelay

end ToastPhase

/-- A raised toast came into an element that was in the document when the page was loaded. -/
structure Raised.IsPlaced (s₀ : Session) (r : Raised) : Prop where
  region_lt : r.region < s₀.forest.size
  region_ne : r.region ≠ rootIndex
  attached : s₀.forest.isAttached r.region = true

/-- A raised toast is in a phase: its row and what is scheduled for it are as they are in that
phase, which has begun. While it is not gone it is in its region, unless a state key is bound
there. -/
structure Raised.Stands (s₀ : Session) (r : Raised) (phase : ToastPhase) (s : Session) : Prop where
  placed : r.IsPlaced s₀
  moment_le : r.moment ≤ s.clock
  row : s.forest.HasToast r (phase = .shown)
  timers : Schedule.of r.element s.schedule = phase.timers r
  since : phase.since r ≤ s.clock
  gone : phase = .gone → (s.forest.get r.element).parent = none
  kept : phase ≠ .gone → s₀.forest.hasAttribute r.region bindAttribute = false →
    (s.forest.get r.element).parent = some r.region

namespace Session

/-- The toasts of a session are those that were raised, in order, each in some phase. -/
structure Lists (s₀ s : Session) (rs : List Raised) : Prop where
  descends : Descends s₀ s
  timely : s.Timely
  size : s.forest.size = s₀.forest.size + rs.length
  elements : rs.map Raised.element = List.range' s₀.forest.size rs.length
  toasts : s.toasts = rs.map fun r => (r.element, r.variant)
  scheduled : ∀ timer ∈ s.schedule, timer.toast ∈ rs.map Raised.element
  parents : ∀ i p, (s₀.forest.get i).parent = some p →
    (p = rootIndex ∨ s₀.forest.hasAttribute p bindAttribute = false) →
    (s.forest.get i).parent = some p
  stands : ∀ r ∈ rs, ∃ phase, r.Stands s₀ phase s

variable {s₀ s s' : Session} {rs : List Raised} {r : Raised}

namespace Lists

theorem le_element (h : Lists s₀ s rs) (hr : r ∈ rs) : s₀.forest.size ≤ r.element := by
  have hmem := List.mem_map_of_mem hr (f := Raised.element)
  rw [h.elements, List.mem_range'_1] at hmem
  exact hmem.1

theorem element_lt (h : Lists s₀ s rs) (hr : r ∈ rs) : r.element < s.forest.size := by
  have hmem := List.mem_map_of_mem hr (f := Raised.element)
  rw [h.elements, List.mem_range'_1] at hmem
  exact h.size ▸ hmem.2

/-! ## Stages leave toasts in their phases -/

/-- A change of the table that leaves toasts alone, but takes elements out of those that a state key
is bound to. -/
theorem of_links (h : Lists s₀ s rs) (hdescends : Descends s₀ s') (htimely : s'.Timely)
    (hclock : s'.clock = s.clock) (hschedule : s'.schedule = s.schedule)
    (htoasts : s'.toasts = s.toasts) (hsize : s'.forest.size = s.forest.size)
    (hrow : ∀ i, s₀.forest.size ≤ i →
      (s'.forest.get i).attributes = (s.forest.get i).attributes ∧
        (s'.forest.get i).content = (s.forest.get i).content)
    (hback : ∀ i p, (s'.forest.get i).parent = some p → (s.forest.get i).parent = some p)
    (hparent : ∀ i p, (s.forest.get i).parent = some p →
      (p = rootIndex ∨ s₀.forest.hasAttribute p bindAttribute = false) →
      (s'.forest.get i).parent = some p) : Lists s₀ s' rs where
  descends := hdescends
  timely := htimely
  size := hsize.trans h.size
  elements := h.elements
  toasts := htoasts.trans h.toasts
  scheduled := by
    rw [hschedule]
    exact h.scheduled
  parents i p hp hfree := hparent i p (h.parents i p hp hfree) hfree
  stands r hr := by
    obtain ⟨phase, hphase⟩ := h.stands r hr
    obtain ⟨hattributes, hcontent⟩ := hrow r.element (h.le_element hr)
    refine ⟨phase, hphase.placed, ?_,
      hphase.row.of_row (Nat.le_of_eq hsize.symm) hattributes hcontent (hback _), ?_, ?_,
      fun hgone => ?_, fun hkept hfree => ?_⟩
    · rw [hclock]
      exact hphase.moment_le
    · rw [hschedule]
      exact hphase.timers
    · rw [hclock]
      exact hphase.since
    · have hnone := hphase.gone hgone
      by_contra hsome
      obtain ⟨p, hp⟩ := Option.ne_none_iff_exists'.1 hsome
      rw [hback _ p hp] at hnone
      cases hnone
    · exact hparent _ _ (hphase.kept hkept hfree) (.inr hfree)

/-- A change of one element of those that the page was loaded with, but for its links. -/
theorem of_modify (h : Lists s₀ s rs) {i : Nat} {change : Element → Element}
    (hi : i < s₀.forest.size) (hlinks : ∀ e, (change e).parent = e.parent)
    (hdescends : Descends s₀ { s with forest := s.forest.modify i change })
    (htimely : { s with forest := s.forest.modify i change }.Timely) :
    Lists s₀ { s with forest := s.forest.modify i change } rs := by
  have hparent (j : Nat) : ((s.forest.modify i change).get j).parent = (s.forest.get j).parent := by
    rw [Forest.get_modify]
    split_ifs
    · exact hlinks _
    · rfl
  refine h.of_links hdescends htimely rfl rfl rfl (Forest.size_modify _ _) (fun j hj => ?_)
    (fun j p hp => (hparent j).symm.trans hp) fun j p hp _ => (hparent j).trans hp
  dsimp only
  rw [Forest.get_modify_of_ne (by omega)]
  exact ⟨rfl, rfl⟩

theorem setText (h : Lists s₀ s rs) {i : Nat} (hi : i < s₀.forest.size) (hroot : i ≠ rootIndex)
    (hbound : s₀.forest.hasAttribute i bindAttribute = true) (text : String)
    (hdescends : Descends s₀ (s.mapForest (·.setText i text)))
    (htimely : (s.mapForest (·.setText i text)).Timely) :
    Lists s₀ (s.mapForest (·.setText i text)) rs := by
  refine h.of_links hdescends htimely rfl rfl rfl (Forest.size_setText _ _) (fun j hj => ?_)
    (fun j p hp => ?_) fun j p hp hfree => ?_
  · rw [mapForest, Forest.get_setText]
    dsimp only
    rw [if_neg (by omega)]
    exact ⟨rfl, rfl⟩
  · rw [mapForest, Forest.get_setText] at hp
    dsimp only at hp
    split_ifs at hp
    exact hp
  · rw [mapForest, Forest.get_setText]
    dsimp only
    rw [if_neg]
    · exact hp
    · intro hchild
      obtain rfl := Option.some.inj
        ((h.descends.forest.wellFormed.parent_iff.2 hchild).symm.trans hp)
      rcases hfree with hfree | hfree
      · exact hroot hfree
      · rw [hfree] at hbound
        cases hbound

/-- The region of a new toast is one of the elements that the page was loaded with. -/
theorem region_lt (h : Lists s₀ s rs) {region : Nat}
    (hregion : toastRegion? s.forest = some region) : region < s₀.forest.size := by
  have hroom := Descends.lt_size_of_toastRegion? h.descends.forest.wellFormed hregion
  rcases Option.or_eq_some_iff.1 hregion with hfirst | ⟨-, hfirst⟩
  · have hhas := List.find?_some hfirst
    obtain ⟨value, hvalue⟩ := Option.isSome_iff_exists.1 hhas
    exact Stages.lt_size_of_attribute? h.descends (by decide) hvalue
  · by_contra hle
    have hmem : region ∈ rs.map Raised.element := by
      rw [h.elements, List.mem_range'_1, ← h.size]
      exact ⟨Nat.not_lt.1 hle, hroom⟩
    obtain ⟨r, hr, rfl⟩ := List.mem_map.1 hmem
    obtain ⟨phase, hphase⟩ := h.stands r hr
    have hclass := List.find?_some hfirst
    rw [hphase.row.hasClass_region] at hclass
    cases hclass

theorem addToast_eq {region : Nat} (hregion : toastRegion? s.forest = some region)
    (message : String) (variant : ToastVariant) :
    s.addToast message variant =
      { s with
        forest := s.forest.raise region message variant
        toasts := s.toasts ++ [(s.forest.size, variant)]
        schedule := s.schedule.add s.clock s.forest.size } := by
  rw [Session.addToast, hregion]
  rfl

/-- **A new toast waits.** -/
theorem stands_addToast (h : Lists s₀ s rs) (hf : s₀.forest.WellFormed) {region : Nat}
    (hregion : toastRegion? s.forest = some region) (message : String) (variant : ToastVariant) :
    Raised.Stands s₀ { element := s.forest.size, region, moment := s.clock, message, variant }
      .waiting (s.addToast message variant) := by
  have hlt := h.region_lt hregion
  have hroom := Nat.lt_of_lt_of_le hlt h.descends.forest.size
  have hmem : region ∈ s.forest.preorder := by
    rcases Option.or_eq_some_iff.1 hregion with hfirst | ⟨-, hfirst⟩
    · exact List.mem_of_find?_eq_some hfirst
    · exact List.mem_of_find?_eq_some hfirst
  have hattached := Forest.isAttached_of_mem_preorder h.descends.forest.wellFormed hmem
  have hroot := Forest.ne_root_of_mem_preorder h.descends.forest.wellFormed hmem
  have hnew : Schedule.of s.forest.size s.schedule = [] := by
    refine List.filter_eq_nil_iff.2 fun timer htimer => ?_
    obtain ⟨r, hr, hsame⟩ := List.mem_map.1 (h.scheduled timer htimer)
    have := h.element_lt hr
    simp only [decide_eq_true_eq]
    omega
  rw [addToast_eq hregion]
  refine ⟨⟨hlt, hroot, h.descends.forest.isAttached hf hlt hattached⟩, Nat.le_refl _,
    Forest.hasToast_raise hroom _ message variant, ?_, Nat.le_refl _, nofun, fun _ _ => ?_⟩
  · exact Schedule.of_add_self h.timely.sorted hnew
  · dsimp only
    rw [Forest.get_raise hroom, if_pos rfl]

/-- A new toast leaves the others in their phases. -/
theorem stands_of_addToast (h : Lists s₀ s rs) {region : Nat}
    (hregion : toastRegion? s.forest = some region) (message : String) (variant : ToastVariant)
    (hr : r ∈ rs) {phase : ToastPhase} (hphase : r.Stands s₀ phase s) :
    r.Stands s₀ phase (s.addToast message variant) := by
  have hlt := h.region_lt hregion
  have hroom := Nat.lt_of_lt_of_le hlt h.descends.forest.size
  have hle := h.le_element hr
  have hold := h.element_lt hr
  have hget : (s.forest.raise region message variant).get r.element = s.forest.get r.element := by
    rw [Forest.get_raise hroom, if_neg (by omega), if_neg (by omega)]
  rw [addToast_eq hregion]
  refine ⟨hphase.placed, hphase.moment_le, hphase.row.of_get ?_ hget, ?_, hphase.since,
    fun hgone => ?_, fun hkept hfree => ?_⟩
  · rw [Forest.size_raise]
    exact Nat.le_succ _
  · exact (Schedule.of_add_of_ne (Nat.ne_of_gt hold) _).trans hphase.timers
  · rw [hget]
    exact hphase.gone hgone
  · rw [hget]
    exact hphase.kept hkept hfree

theorem addToast (h : Lists s₀ s rs) (hf : s₀.forest.WellFormed) {region : Nat}
    (hregion : toastRegion? s.forest = some region) (message : String) (variant : ToastVariant) :
    Lists s₀ (s.addToast message variant)
      (rs ++ [{ element := s.forest.size, region, moment := s.clock, message, variant }]) where
  descends := h.descends.addToast message variant
  timely := h.timely.addToast message variant
  size := by
    rw [addToast_eq hregion, Forest.size_raise, h.size, List.length_append, List.length_singleton,
      Nat.add_assoc]
  elements := by
    rw [List.map_append, h.elements, List.length_append, List.length_singleton,
      List.range'_1_concat, List.map_singleton, h.size]
  toasts := by
    rw [addToast_eq hregion, List.map_append, ← h.toasts]
    rfl
  scheduled timer htimer := by
    rw [addToast_eq hregion] at htimer
    rw [List.map_append, List.mem_append]
    rcases Schedule.mem_add.1 htimer with htimer | htimer
    · right
      rcases List.mem_pair.1 htimer with rfl | rfl
      · exact List.mem_singleton_self _
      · exact List.mem_singleton_self _
    · exact .inl (h.scheduled timer htimer)
  parents i p hp hfree := by
    have hroom := Nat.lt_of_lt_of_le (h.region_lt hregion) h.descends.forest.size
    have hi := Nat.lt_of_lt_of_le (Forest.WellFormed.lt_size_of_parent hp) h.descends.forest.size
    rw [addToast_eq hregion]
    exact (Forest.parent_raise hroom message variant (Nat.ne_of_lt hi)).trans
      (h.parents i p hp hfree)
  stands r hr := by
    rcases List.mem_append.1 hr with hr | hr
    · obtain ⟨phase, hphase⟩ := h.stands r hr
      exact ⟨phase, h.stands_of_addToast hregion message variant hr hphase⟩
    · rw [List.mem_singleton.1 hr]
      exact ⟨.waiting, h.stands_addToast hf hregion message variant⟩

/-- **A stage leaves toasts in their phases**, and new ones wait. -/
theorem stage (h : Lists s₀ s rs) (hf : s₀.forest.WellFormed) {a : List Raised}
    (hstage : Stage s₀ s a s') : Lists s₀ s' (rs ++ a) := by
  have hdescends := hstage.descends h.descends
  have htimely := h.timely.stage hstage
  cases hstage with
  | setAttribute hi hname value =>
    rw [List.append_nil]
    exact h.of_modify hi (fun _ => rfl) hdescends htimely
  | removeAttribute hi hname =>
    rw [List.append_nil]
    exact h.of_modify hi (fun _ => rfl) hdescends htimely
  | setValue hi value =>
    rw [List.append_nil]
    exact h.of_modify hi (fun _ => rfl) hdescends htimely
  | setText hi hroot hbound text =>
    rw [List.append_nil]
    exact h.setText hi hroot hbound text hdescends htimely
  | addToast hregion message variant => exact h.addToast hf hregion message variant
  | note hnotes =>
    rw [List.append_nil]
    refine h.of_links hdescends htimely hnotes.clock hnotes.schedule hnotes.toasts ?_ ?_ ?_ ?_
    · rw [hnotes.forest]
    · rw [hnotes.forest]
      exact fun _ _ => ⟨rfl, rfl⟩
    · rw [hnotes.forest]
      exact fun _ _ hp => hp
    · rw [hnotes.forest]
      exact fun _ _ hp _ => hp

/-! ## A tick takes one toast to its next phase -/

/-- **A change of a toast that is due takes it to its next phase.** -/
theorem stands_happen (h : Lists s₀ s rs) {timer : Timer} {rest : Schedule}
    (hschedule : s.schedule = timer :: rest) (hsame : timer.toast = r.element) {phase : ToastPhase}
    (hphase : r.Stands s₀ phase s) : ∃ next, r.Stands s₀ next (s.happen timer rest) := by
  have hf := h.descends.forest.wellFormed
  have hsorted := h.timely.sorted
  have htimers := hphase.timers
  rw [hschedule] at hsorted
  rw [hschedule, Schedule.of_cons_of_eq hsame] at htimers
  have hrest := (List.pairwise_cons.1 hsorted).2
  have hmoment : r.moment ≤ timer.due :=
    Nat.le_trans hphase.moment_le (h.timely.due timer (hschedule ▸ List.mem_cons_self ..))
  -- what happens is the first of what the phase has scheduled, so the phase tells what it is
  cases phase with
  | waiting =>
    obtain ⟨rfl, hother⟩ := List.cons.inj htimers
    exact ⟨.shown, hphase.placed, hmoment, hphase.row.addClass, hother, Nat.le_refl _, nofun,
      fun _ hfree => (Forest.parent_addClass ..).trans (hphase.kept nofun hfree)⟩
  | shown =>
    obtain ⟨rfl, hother⟩ := List.cons.inj htimers
    have hremove := @Schedule.of_insert
      ⟨Schedule.after (Schedule.after r.moment Schedule.hideDelay) Schedule.removeDelay, r.element,
        .remove⟩ r.element rfl rest hrest
    rw [hother] at hremove
    exact ⟨.hidden, hphase.placed, hmoment, hphase.row.removeClass, hremove, Nat.le_refl _, nofun,
      fun _ hfree => (Forest.parent_removeClass ..).trans (hphase.kept nofun hfree)⟩
  | hidden =>
    obtain ⟨rfl, hother⟩ := List.cons.inj htimers
    exact ⟨.gone, hphase.placed, hmoment, hphase.row.detach hf, hother, Nat.le_refl _,
      fun _ => (Forest.parent_detach hf _ _).trans (if_pos rfl), fun hkept => absurd rfl hkept⟩
  | gone => cases htimers

/-- It leaves the other toasts in their phases. -/
theorem stands_of_happen (h : Lists s₀ s rs) {timer : Timer} {rest : Schedule}
    (hschedule : s.schedule = timer :: rest) {q : Raised} (hq : q ∈ rs) (hr : r ∈ rs)
    (hsame : timer.toast = q.element) (hother : r.element ≠ timer.toast) {phase : ToastPhase}
    (hphase : r.Stands s₀ phase s) : r.Stands s₀ phase (s.happen timer rest) := by
  have hf := h.descends.forest.wellFormed
  obtain ⟨_, hstands⟩ := h.stands q hq
  have hget : (changeToast s.forest timer).get r.element = s.forest.get r.element := by
    refine get_changeToast_of_ne hf hother fun p hp => ?_
    rw [hsame] at hp
    have hregion := hstands.row.parent p hp
    have hlt := hstands.placed.region_lt
    have hle := h.le_element hr
    omega
  have hdue := h.timely.due timer (hschedule ▸ List.mem_cons_self ..)
  refine ⟨hphase.placed, Nat.le_trans hphase.moment_le hdue, hphase.row.of_get ?_ hget, ?_,
    Nat.le_trans hphase.since hdue, fun hgone => ?_, fun hkept hfree => ?_⟩
  · exact Nat.le_of_eq (size_changeToast s.forest timer).symm
  · rw [← hphase.timers, hschedule]
    exact Schedule.of_followUp_of_ne (Ne.symm hother) rest
  · exact (congrArg Element.parent hget).trans (hphase.gone hgone)
  · exact (congrArg Element.parent hget).trans (hphase.kept hkept hfree)

/-- **A tick takes one toast to its next phase**, and leaves the others in theirs. -/
theorem tick? (h : Lists s₀ s rs) {moment : Nat} (htick : s.tick? moment = some s') :
    Lists s₀ s' rs := by
  have hdescends := h.descends.tick? htick
  have htimely := h.timely.tick? htick
  obtain ⟨timer, rest, hschedule, -, rfl⟩ := tick?_eq_some.1 htick
  obtain ⟨q, hq, hsame⟩ := List.mem_map.1
    (h.scheduled timer (hschedule ▸ List.mem_cons_self ..))
  refine ⟨hdescends, htimely, ?_, h.elements, h.toasts, fun other hother => ?_,
    fun i p hp hfree => ?_, fun r hr => ?_⟩
  · exact (size_changeToast s.forest timer).trans h.size
  · rcases Schedule.mem_followUp hother with rfl | hother
    · exact List.mem_map.2 ⟨q, hq, hsame⟩
    · exact h.scheduled other (hschedule ▸ List.mem_cons_of_mem _ hother)
  · have hi := Forest.WellFormed.lt_size_of_parent hp
    have hle := h.le_element hq
    exact (parent_changeToast_of_ne h.descends.forest.wellFormed (by omega)).trans
      (h.parents i p hp hfree)
  · obtain ⟨phase, hphase⟩ := h.stands r hr
    by_cases hother : r.element = timer.toast
    · exact h.stands_happen hschedule hother.symm hphase
    · exact ⟨phase, h.stands_of_happen hschedule hq hr hsame.symm hother hphase⟩

theorem ticks (h : Lists s₀ s rs) {moment : Nat} (hticks : Ticks moment s s') :
    Lists s₀ s' rs := by
  induction hticks with
  | refl => exact h
  | tail _ htick ih => exact ih.tick? htick

/-- Moving the clock leaves toasts in the phases that ticks bring them to. -/
theorem advance (h : Lists s₀ s rs) (milliseconds : Nat) :
    Lists s₀ (s.advance milliseconds) rs := by
  have helapsed := h.ticks (ticks_elapse (Schedule.after s.clock milliseconds) s)
  have hclock := (h.timely.clock_ticks (Schedule.le_after h.timely.clock_le milliseconds)
    (ticks_elapse _ s)).2
  refine ⟨h.descends.advance milliseconds, h.timely.advance milliseconds, helapsed.size,
    helapsed.elements, helapsed.toasts, helapsed.scheduled, helapsed.parents, fun r hr => ?_⟩
  obtain ⟨phase, hphase⟩ := helapsed.stands r hr
  exact ⟨phase, hphase.placed, Nat.le_trans hphase.moment_le hclock, hphase.row, hphase.timers,
    Nat.le_trans hphase.since hclock, hphase.gone, hphase.kept⟩

end Lists

/-! ## Between calls -/

/-- What is scheduled for toasts whose end the clock can count to is due later. For the others it can
be due at once: all that is left of their lives happens when the clock comes to its last value. -/
def IsQuiet (s : Session) (rs : List Raised) : Prop :=
  ∀ r ∈ rs, r.moment + 3300 ≤ Schedule.lastMoment →
    ∀ timer ∈ s.schedule, timer.toast = r.element → s.clock < timer.due

theorem Lists.isQuiet_stage (h : Lists s₀ s rs) (hquiet : s.IsQuiet rs) {a : List Raised}
    (hstage : Stage s₀ s a s') : s'.IsQuiet (rs ++ a) := by
  have hsame (hclock : s'.clock = s.clock) (hschedule : s'.schedule = s.schedule) :
      s'.IsQuiet rs := by
    rw [IsQuiet, hclock, hschedule]
    exact hquiet
  cases hstage with
  | setAttribute | removeAttribute | setValue | setText =>
    rw [List.append_nil]
    exact hsame rfl rfl
  | note hnotes =>
    rw [List.append_nil]
    exact hsame hnotes.clock hnotes.schedule
  | addToast hregion message variant =>
    rw [Lists.addToast_eq hregion]
    intro r hr hcounted timer htimer htoast
    rcases List.mem_append.1 hr with hr | hr
    · have hlt := h.element_lt hr
      rcases Schedule.mem_add.1 htimer with htimer | htimer
      · rcases List.mem_pair.1 htimer with rfl | rfl
        · cases Nat.ne_of_gt hlt htoast
        · cases Nat.ne_of_gt hlt htoast
      · exact hquiet r hr hcounted timer htimer htoast
    · obtain rfl := List.mem_singleton.1 hr
      rcases Schedule.mem_add.1 htimer with htimer | htimer
      · exact Schedule.lt_due_of_mem_timeline hcounted htimer
      · obtain ⟨q, hq, hqelement⟩ := List.mem_map.1 (h.scheduled timer htimer)
        have hlt := h.element_lt hq
        cases Nat.ne_of_lt hlt (hqelement.trans htoast)

theorem Lists.stages_and_isQuiet (h : Lists s₀ s rs) (hf : s₀.forest.WellFormed)
    (hquiet : s.IsQuiet rs) {a : List Raised} (hstages : Stages s₀ s a s') :
    Lists s₀ s' (rs ++ a) ∧ s'.IsQuiet (rs ++ a) := by
  induction hstages with
  | refl =>
    rw [List.append_nil]
    exact ⟨h, hquiet⟩
  | snoc _ hstage ih =>
    rw [← List.append_assoc]
    exact ⟨ih.1.stage hf hstage, ih.1.isQuiet_stage ih.2 hstage⟩

/-- **Whatever is done with a page, each toast that was raised is in some phase**, and of those that
the clock can count to the end of nothing is due. -/
theorem Reaches.lists {html : String} {calls : List Call} (hload : load html = .ok s₀)
    (h : Reaches s₀ calls s) :
    Lists s₀ s (calls.flatMap Call.raised) ∧ s.IsQuiet (calls.flatMap Call.raised) := by
  have hfresh := isFresh_of_load hload
  induction h with
  | start =>
    refine ⟨⟨⟨.refl hfresh.wellFormed, rfl⟩, Reaches.timely hload .start, rfl, rfl,
      hfresh.toasts, ?_, fun _ _ hp _ => hp, nofun⟩, nofun⟩
    rw [hfresh.schedule]
    exact nofun
  | call hreaches hperform ih =>
    rw [List.flatMap_append, List.flatMap_singleton]
    rcases (hfresh.descends hreaches.follows).advance_or_stages hfresh.lt_size_of_node?
      hperform with ⟨milliseconds, rfl, hv⟩ | ⟨-, hstages⟩
    -- only moving the clock makes things due, and it does not stop before they have happened
    · rw [Call.raised_advance, List.append_nil, hv]
      exact ⟨ih.1.advance milliseconds, fun _ _ _ timer htimer _ =>
        ih.1.timely.lt_due_advance milliseconds timer htimer⟩
    · exact ih.1.stages_and_isQuiet hfresh.wellFormed ih.2 hstages

/-- A raised toast as it is seen. -/
def viewOf (s : Session) (r : Raised) : ToastView where
  message := r.message
  variant := r.variant
  shown := s.forest.hasClass r.element shownToastClass

/-- A raised toast is among those that are seen. -/
def listsToast (s : Session) (r : Raised) : Bool := s.forest.isAttached r.element

/-- No state key is bound to the region of a toast, nor to an element around it. -/
def IsFree (s₀ : Session) (r : Raised) : Prop :=
  ∀ i ∈ s₀.forest.lineage r.region, s₀.forest.hasAttribute i bindAttribute = false

/-- What can be said of the toasts of a page between calls. -/
structure ListsToasts (s₀ s : Session) (rs : List Raised) : Prop where
  /-- What is seen are some of the toasts that were raised, in the order in which they were raised,
  each with the message and the variant of its effect. -/
  views : s.toastViews = (rs.filter s.listsToast).map s.viewOf
  /-- They are all different. -/
  nodup : (rs.map Raised.element).Nodup
  /-- They were raised before now. -/
  moment_le : ∀ r ∈ rs, r.moment ≤ s.clock
  /-- A toast is seen for 3300 milliseconds at most. -/
  age_lt : ∀ r ∈ rs, r.moment + 3300 < 2 ^ 64 → s.listsToast r = true → s.clock - r.moment < 3300
  /-- It shows from 10 milliseconds on until 3000. -/
  shown_iff : ∀ r ∈ rs, r.moment + 3300 < 2 ^ 64 →
    ((s.viewOf r).shown = true ↔ 10 ≤ s.clock - r.moment ∧ s.clock - r.moment < 3000)
  /-- It is seen for 3300 milliseconds if nothing is bound around it. -/
  listsToast_iff : ∀ r ∈ rs, r.moment + 3300 < 2 ^ 64 → IsFree s₀ r →
    (s.listsToast r = true ↔ s.clock - r.moment < 3300)

namespace Lists

theorem toastViews_eq (h : Lists s₀ s rs) :
    s.toastViews = (rs.filter s.listsToast).map s.viewOf := by
  rw [toastViews, h.toasts, List.filter_map, List.map_map]
  refine List.map_congr_left fun r hr => ?_
  obtain ⟨phase, hphase⟩ := h.stands r (List.mem_of_mem_filter hr)
  simp only [Function.comp_apply, viewOf, hphase.row.textContent_eq]

/-- The region of a toast is in the document as long as nothing is bound around it. -/
theorem isAttached_region (h : Lists s₀ s rs) (hf : s₀.forest.WellFormed) (hfree : IsFree s₀ r)
    (hplaced : r.IsPlaced s₀) : s.forest.isAttached r.region = true := by
  have hline : s.forest.line r.region = s₀.forest.line r.region := by
    -- links only go, and those on this way stay, because no content on it is ever rebuilt
    refine Forest.line_eq_of_parents hf h.descends.forest.wellFormed fun i hi => ?_
    cases hp : (s₀.forest.get i).parent with
    | none =>
      by_contra hsome
      obtain ⟨p, hparent⟩ := Option.ne_none_iff_exists'.1 hsome
      have hold := h.descends.forest.parent i p
        (Forest.lt_size_of_mem_line hf hplaced.region_lt hi) hparent
      cases hp.symm.trans hold
    | some p =>
      have hmem : p ∈ s₀.forest.line r.region :=
        (Forest.mem_line_iff hf).2 (((Forest.mem_line_iff hf).1 hi).tail hp)
      refine h.parents i p hp ?_
      by_cases hroot : p = rootIndex
      · exact .inl hroot
      · exact .inr (hfree p (List.mem_filter.2 ⟨hmem, by simpa using hroot⟩))
  rw [Forest.isAttached_iff, hline, ← Forest.isAttached_iff]
  exact hplaced.attached

/-- **Where a toast is in its life** tells whether it is seen: it is not once it is gone, and as
long as it is not gone it is, if nothing is bound around it. -/
theorem listsToast_of_stands (h : Lists s₀ s rs) (hf : s₀.forest.WellFormed) (hr : r ∈ rs)
    {phase : ToastPhase} (hphase : r.Stands s₀ phase s) :
    (s.listsToast r = true → phase ≠ .gone) ∧
      (IsFree s₀ r → phase ≠ .gone → s.listsToast r = true) := by
  have hwell := h.descends.forest.wellFormed
  refine ⟨?_, fun hfree hkept => ?_⟩
  · rintro hlisted rfl
    have hroot : r.element ≠ rootIndex := by
      have := h.le_element hr
      have := hf.size_pos
      simp only [rootIndex]
      omega
    rw [listsToast, Forest.isAttached_of_no_parent hwell (hphase.gone rfl) hroot] at hlisted
    cases hlisted
  · have hregion := hfree r.region
      (List.mem_filter.2 ⟨Forest.self_mem_line hf _, by simpa using hphase.placed.region_ne⟩)
    rw [listsToast, Forest.isAttached_of_parent hwell (hphase.kept hkept hregion)]
    exact h.isAttached_region hf hfree hphase.placed

end Lists

/-- **The clock tells the phase** of a toast whose end it can count to. -/
theorem age_of_stands {phase : ToastPhase} (hphase : r.Stands s₀ phase s)
    (hcounted : r.moment + 3300 ≤ Schedule.lastMoment)
    (hquiet : ∀ timer ∈ s.schedule, timer.toast = r.element → s.clock < timer.due) :
    (phase = .shown ↔ 10 ≤ s.clock - r.moment ∧ s.clock - r.moment < 3000) ∧
      (phase ≠ .gone ↔ s.clock - r.moment < 3300) := by
  have hdue : ∀ timer ∈ phase.timers r, s.clock < timer.due := by
    intro timer htimer
    rw [← hphase.timers] at htimer
    obtain ⟨hmem, htoast⟩ := List.mem_filter.1 htimer
    exact hquiet timer hmem (by simpa using htoast)
  have hshow : Schedule.after r.moment Schedule.showDelay = r.moment + 10 :=
    Schedule.after_eq (by simp only [Schedule.showDelay]; omega)
  have hhide : Schedule.after r.moment Schedule.hideDelay = r.moment + 3000 :=
    Schedule.after_eq (by simp only [Schedule.hideDelay]; omega)
  have hremove : Schedule.after (r.moment + 3000) Schedule.removeDelay = r.moment + 3300 :=
    Schedule.after_eq (by simp only [Schedule.removeDelay]; omega)
  have hmoment := hphase.moment_le
  have hsince := hphase.since
  cases phase with
  | waiting =>
    have hnext := hdue _ (List.mem_cons_self ..)
    simp only [ToastPhase.since, hshow] at hsince hnext
    simp only [reduceCtorEq, ne_eq, not_false_eq_true, false_iff, true_iff]
    omega
  | shown =>
    have hnext := hdue _ (List.mem_singleton_self _)
    simp only [ToastPhase.since, hshow, hhide] at hsince hnext
    simp only [reduceCtorEq, ne_eq, not_false_eq_true, true_iff]
    omega
  | hidden =>
    have hnext := hdue _ (List.mem_singleton_self _)
    simp only [ToastPhase.since, hhide, hremove] at hsince hnext
    simp only [reduceCtorEq, ne_eq, not_false_eq_true, false_iff, true_iff]
    omega
  | gone =>
    simp only [ToastPhase.since, hhide, hremove] at hsince
    simp only [reduceCtorEq, ne_eq, not_true_eq_false, false_iff]
    omega

/-- **Every toast follows its timeline**, whatever is done with the page. -/
theorem Reaches.listsToasts {html : String} {calls : List Call} (hload : load html = .ok s₀)
    (h : Reaches s₀ calls s) : ListsToasts s₀ s (calls.flatMap Call.raised) := by
  obtain ⟨hlists, hquiet⟩ := h.lists hload
  have hwell := (isFresh_of_load hload).wellFormed
  have hcounted {r : Raised} (hlt : r.moment + 3300 < 2 ^ 64) :
      r.moment + 3300 ≤ Schedule.lastMoment := Nat.le_sub_one_of_lt hlt
  refine ⟨hlists.toastViews_eq, ?_, ?_, ?_, ?_, ?_⟩
  · rw [hlists.elements]
    exact List.nodup_range'
  · intro r hr
    obtain ⟨phase, hphase⟩ := hlists.stands r hr
    exact hphase.moment_le
  · intro r hr hlt hlisted
    obtain ⟨phase, hphase⟩ := hlists.stands r hr
    have hage := age_of_stands hphase (hcounted hlt) (hquiet r hr (hcounted hlt))
    exact hage.2.1 ((hlists.listsToast_of_stands hwell hr hphase).1 hlisted)
  · intro r hr hlt
    obtain ⟨phase, hphase⟩ := hlists.stands r hr
    have hage := age_of_stands hphase (hcounted hlt) (hquiet r hr (hcounted hlt))
    rw [← hage.1, viewOf, hphase.row.hasClass_shown, decide_eq_true_eq]
  · intro r hr hlt hfree
    obtain ⟨phase, hphase⟩ := hlists.stands r hr
    have hage := age_of_stands hphase (hcounted hlt) (hquiet r hr (hcounted hlt))
    obtain ⟨hgone, hkept⟩ := hlists.listsToast_of_stands hwell hr hphase
    rw [← hage.2]
    exact ⟨hgone, hkept hfree⟩

/-- A page in use with one toast, which shows. -/
theorem Reaches.listsToasts_notice : ∃ s₀ calls s, load notice = .ok s₀ ∧ Reaches s₀ calls s ∧
    s.toastViews = [{ message := "Hi", variant := .info, shown := true }] ∧
    ListsToasts s₀ s (calls.flatMap Call.raised) := by
  obtain ⟨s₀, calls, s, hload, hreaches, hviews⟩ := reaches_notice
  exact ⟨s₀, calls, s, hload, hreaches, hviews, Reaches.listsToasts hload hreaches⟩

end Session

end PageTree
