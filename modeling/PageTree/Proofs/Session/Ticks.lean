import Mathlib.Data.List.Basic
import Mathlib.Logic.Relation
import Mathlib.Tactic.Common
import PageTree.Session.Interaction

/-!
# Time that passes

Time passes tick by tick: the first change that is scheduled happens, if it is due, and the clock
shows when it was due. The schedule stays sorted, and no change is ever due before what the clock
shows. Ticks look at nothing but the schedule, so it does not matter in how many pieces the clock
is moved.

## Main definitions

* `Schedule.IsSorted`, `Schedule.of`: order, and what is scheduled for one toast
* `Session.Timely`: the schedule is sorted and in time
* `Session.Ticks`: changes that are due by a moment happen one after the other

## Main results

* `Session.advance_advance`: moving the clock twice is moving it once
* `Session.ticks_elapse`, `Session.tick?_elapse`: it stops where nothing more is due
* `Session.Timely.tick?`, `Session.Timely.advance`: a tick keeps the session timely
-/

namespace PageTree

namespace Schedule

/-- What is due earlier comes first. -/
def IsSorted (schedule : Schedule) : Prop :=
  schedule.Pairwise fun timer other => timer.due ≤ other.due

theorem mem_insert {timer other : Timer} {schedule : Schedule} :
    other ∈ insert timer schedule ↔ other = timer ∨ other ∈ schedule := by
  induction schedule with
  | nil => simp [insert]
  | cons first rest ih =>
    rw [insert]
    split_ifs
    · rw [List.mem_cons, ih, List.mem_cons]
      tauto
    · rw [List.mem_cons]

theorem IsSorted.insert {schedule : Schedule} (h : IsSorted schedule) (timer : Timer) :
    IsSorted (insert timer schedule) := by
  induction schedule with
  | nil => exact List.pairwise_singleton _ _
  | cons first rest ih =>
    obtain ⟨hfirst, hrest⟩ := List.pairwise_cons.1 h
    rw [Schedule.insert]
    split_ifs with hdue
    · refine List.pairwise_cons.2 ⟨fun other hother => ?_, ih hrest⟩
      rcases mem_insert.1 hother with rfl | hother
      · exact hdue
      · exact hfirst other hother
    · refine List.pairwise_cons.2 ⟨fun other hother => ?_, h⟩
      rcases List.mem_cons.1 hother with rfl | hother
      · exact Nat.le_of_not_le hdue
      · exact Nat.le_trans (Nat.le_of_not_le hdue) (hfirst other hother)

theorem mem_foldl_insert {timer : Timer} (timers : List Timer) (schedule : Schedule) :
    timer ∈ timers.foldl (fun schedule timer => insert timer schedule) schedule ↔
      timer ∈ timers ∨ timer ∈ schedule := by
  induction timers generalizing schedule with
  | nil => simp
  | cons first timers ih =>
    rw [List.foldl_cons, ih, mem_insert, List.mem_cons, or_left_comm, or_assoc]

theorem mem_add {clock toast : Nat} {schedule : Schedule} {timer : Timer} :
    timer ∈ add clock toast schedule ↔ timer ∈ timeline clock toast ∨ timer ∈ schedule :=
  mem_foldl_insert _ _

theorem IsSorted.add {schedule : Schedule} (h : IsSorted schedule) (clock toast : Nat) :
    IsSorted (add clock toast schedule) :=
  List.foldlRecOn _ _ h fun _ hs timer _ => hs.insert timer

theorem le_after {clock : Nat} (h : clock ≤ lastMoment) (milliseconds : Nat) :
    clock ≤ after clock milliseconds :=
  Nat.le_min.2 ⟨Nat.le_add_right _ _, h⟩

theorem after_le (clock milliseconds : Nat) : after clock milliseconds ≤ lastMoment :=
  Nat.min_le_right _ _

theorem after_eq {clock milliseconds : Nat} (h : clock + milliseconds ≤ lastMoment) :
    after clock milliseconds = clock + milliseconds :=
  Nat.min_eq_left h

theorem after_after (clock a b : Nat) :
    after (after clock a) b = after clock (min (a + b) lastMoment) := by
  simp only [after]
  omega

/-- What is scheduled after a change: what it leads to, and what was scheduled. -/
theorem mem_followUp {timer other : Timer} {rest : Schedule} (h : other ∈ followUp timer rest) :
    other = ⟨after timer.due removeDelay, timer.toast, .remove⟩ ∨ other ∈ rest := by
  rw [followUp] at h
  split at h
  · exact mem_insert.1 h
  · exact .inr h
  · exact .inr h

theorem IsSorted.followUp {timer : Timer} {rest : Schedule} (h : IsSorted rest) :
    IsSorted (followUp timer rest) := by
  rw [Schedule.followUp]
  split
  · exact h.insert _
  · exact h
  · exact h

/-! ## What is scheduled for one toast -/

/-- What is scheduled for a toast. -/
def of (toast : Nat) (schedule : Schedule) : Schedule :=
  schedule.filter fun timer => timer.toast = toast

theorem of_cons_of_eq {timer : Timer} {toast : Nat} (h : timer.toast = toast) (rest : Schedule) :
    of toast (timer :: rest) = timer :: of toast rest :=
  List.filter_cons_of_pos (by simpa using h)

theorem of_cons_of_ne {timer : Timer} {toast : Nat} (h : timer.toast ≠ toast) (rest : Schedule) :
    of toast (timer :: rest) = of toast rest :=
  List.filter_cons_of_neg (by simpa using h)

theorem insert_of_lt {timer : Timer} : ∀ {schedule : Schedule},
    (∀ other ∈ schedule, timer.due < other.due) → insert timer schedule = timer :: schedule
  | [], _ => rfl
  | first :: _, h => if_neg (Nat.not_le.2 (h first (List.mem_cons_self ..)))

theorem of_insert_of_ne {timer : Timer} {toast : Nat} (h : timer.toast ≠ toast)
    (schedule : Schedule) : of toast (insert timer schedule) = of toast schedule := by
  induction schedule with
  | nil => exact of_cons_of_ne h []
  | cons first rest ih =>
    rw [insert]
    split_ifs
    · by_cases htoast : first.toast = toast
      · rw [of_cons_of_eq htoast, of_cons_of_eq htoast, ih]
      · rw [of_cons_of_ne htoast, of_cons_of_ne htoast, ih]
    · exact of_cons_of_ne h _

theorem of_insert {timer : Timer} {toast : Nat} (h : timer.toast = toast) {schedule : Schedule}
    (hsorted : IsSorted schedule) :
    of toast (insert timer schedule) = insert timer (of toast schedule) := by
  induction schedule with
  | nil => exact of_cons_of_eq h []
  | cons first rest ih =>
    obtain ⟨hfirst, hrest⟩ := List.pairwise_cons.1 hsorted
    rw [insert]
    split_ifs with hdue
    · by_cases htoast : first.toast = toast
      · rw [of_cons_of_eq htoast, of_cons_of_eq htoast, ih hrest, insert, if_pos hdue]
      · rw [of_cons_of_ne htoast, of_cons_of_ne htoast, ih hrest]
    · rw [of_cons_of_eq h, insert_of_lt]
      intro other hother
      rcases List.mem_cons.1 (List.mem_filter.1 hother).1 with rfl | hother
      · exact Nat.not_le.1 hdue
      · exact Nat.lt_of_lt_of_le (Nat.not_le.1 hdue) (hfirst other hother)

theorem of_add_of_ne {clock toast other : Nat} (h : toast ≠ other) (schedule : Schedule) :
    of other (add clock toast schedule) = of other schedule := by
  rw [add, timeline, List.foldl_cons, List.foldl_cons, List.foldl_nil, of_insert_of_ne h,
    of_insert_of_ne h]

/-- What is scheduled for a new toast is what a toast is to do. -/
theorem of_add_self {clock toast : Nat} {schedule : Schedule} (hsorted : IsSorted schedule)
    (hnew : of toast schedule = []) :
    of toast (add clock toast schedule) = timeline clock toast := by
  have horder : after clock showDelay ≤ after clock hideDelay := by
    simp only [after, showDelay, hideDelay]
    omega
  have hshow := @of_insert ⟨after clock showDelay, toast, .show⟩ toast rfl schedule hsorted
  have hhide := @of_insert ⟨after clock hideDelay, toast, .hide⟩ toast rfl _
    (hsorted.insert ⟨after clock showDelay, toast, .show⟩)
  rw [hshow, hnew, insert, insert, if_pos horder] at hhide
  exact hhide

/-- What a new toast is to do is due from now on. -/
theorem due_of_mem_timeline {clock toast : Nat} (hclock : clock ≤ lastMoment) {timer : Timer}
    (h : timer ∈ timeline clock toast) : clock ≤ timer.due ∧ timer.due ≤ lastMoment := by
  rcases List.mem_pair.1 h with rfl | rfl
  · exact ⟨le_after hclock _, after_le _ _⟩
  · exact ⟨le_after hclock _, after_le _ _⟩

/-- A toast that the clock can count to the end of has nothing to do at once. -/
theorem lt_due_of_mem_timeline {clock toast : Nat} (h : clock + 3300 ≤ lastMoment) {timer : Timer}
    (htimer : timer ∈ timeline clock toast) : clock < timer.due := by
  rcases List.mem_pair.1 htimer with rfl | rfl
  · simp only [after, showDelay]
    omega
  · simp only [after, hideDelay]
    omega

theorem of_followUp_of_ne {timer : Timer} {toast : Nat} (h : timer.toast ≠ toast)
    (rest : Schedule) : of toast (followUp timer rest) = of toast (timer :: rest) := by
  rw [of_cons_of_ne h, followUp]
  split
  · exact of_insert_of_ne (by exact h) rest
  · rfl
  · rfl

end Schedule

namespace Session

/-! ## Moving the clock in pieces -/

/-- What happens next does not depend on what the clock shows. -/
theorem tick?_of_clock (moment clock : Nat) (s : Session) :
    { s with clock }.tick? moment = s.tick? moment := rfl

/-- Nor does what happens until a moment. -/
theorem elapse_of_clock (moment clock : Nat) (s : Session) :
    { { s with clock }.elapse moment with clock := moment } =
      { s.elapse moment with clock := moment } := by
  cases htick : s.tick? moment with
  | none => rw [elapse_of_none htick, elapse_of_none ((tick?_of_clock ..).trans htick)]
  | some next => rw [elapse_of_some htick, elapse_of_some ((tick?_of_clock ..).trans htick)]

/-- What is due by a moment is due by a later one, and happens first. -/
theorem elapse_elapse {moment later : Nat} (h : moment ≤ later) (s : Session) :
    (s.elapse moment).elapse later = s.elapse later := by
  -- tick by tick: what is due by the earlier moment is the first thing due by the later one
  fun_induction elapse moment s with
  | case1 => rfl
  | case2 s next htick ih =>
    obtain ⟨timer, rest, hschedule, hdue, hnext⟩ := tick?_eq_some.1 htick
    have hlater : s.tick? later = some next :=
      tick?_eq_some.2 ⟨timer, rest, hschedule, Nat.le_trans hdue h, hnext⟩
    rw [ih, elapse_of_some hlater]

/-- **How the clock is moved does not matter**: moving it twice is moving it once, by as much as
the clock can count. -/
theorem advance_advance (s : Session) (a b : Nat) :
    (s.advance a).advance b = s.advance (min (a + b) Schedule.lastMoment) := by
  simp only [advance]
  rw [elapse_of_clock, Schedule.after_after,
    elapse_elapse (Schedule.after_after s.clock a b ▸ Schedule.le_after (Schedule.after_le _ _) b)]

/-! ## Ticks -/

/-- Changes that are due by a moment happen, one after the other. -/
def Ticks (moment : Nat) : Session → Session → Prop :=
  Relation.ReflTransGen fun s next => s.tick? moment = some next

/-- Until a moment there are ticks. -/
theorem ticks_elapse (moment : Nat) (s : Session) : Ticks moment s (s.elapse moment) := by
  fun_induction elapse moment s with
  | case1 s => exact .refl
  | case2 s next htick ih => exact .head htick ih

/-- There are no more once nothing is due. -/
theorem tick?_elapse (moment : Nat) (s : Session) : (s.elapse moment).tick? moment = none := by
  fun_induction elapse moment s with
  | case1 s htick => exact htick
  | case2 s next htick ih => exact ih

/-! ## Sessions whose schedule is in time -/

/-- The schedule is sorted, and all of it is due between what the clock shows and its last value. -/
structure Timely (s : Session) : Prop where
  clock_le : s.clock ≤ Schedule.lastMoment
  sorted : s.schedule.IsSorted
  due : ∀ timer ∈ s.schedule, s.clock ≤ timer.due
  due_le : ∀ timer ∈ s.schedule, timer.due ≤ Schedule.lastMoment

namespace Timely

variable {s s' : Session} {moment : Nat}

/-- **A tick keeps the session timely.** -/
theorem tick? (h : s.Timely) (htick : s.tick? moment = some s') : s'.Timely := by
  obtain ⟨timer, rest, hschedule, -, rfl⟩ := tick?_eq_some.1 htick
  have hsorted := h.sorted
  rw [hschedule] at hsorted
  obtain ⟨hfirst, hrest⟩ := List.pairwise_cons.1 hsorted
  have hlast : timer.due ≤ Schedule.lastMoment :=
    h.due_le timer (hschedule ▸ List.mem_cons_self ..)
  refine ⟨hlast, Schedule.IsSorted.followUp hrest, fun other hother => ?_, fun other hother => ?_⟩
  · rcases Schedule.mem_followUp hother with rfl | hother
    · exact Schedule.le_after hlast _
    · exact hfirst other hother
  · rcases Schedule.mem_followUp hother with rfl | hother
    · exact Schedule.after_le _ _
    · exact h.due_le other (hschedule ▸ List.mem_cons_of_mem _ hother)

theorem clock_le_of_tick? (h : s.Timely) (htick : s.tick? moment = some s') :
    s.clock ≤ s'.clock ∧ s'.clock ≤ moment := by
  obtain ⟨timer, rest, hschedule, hdue, rfl⟩ := tick?_eq_some.1 htick
  exact ⟨h.due timer (hschedule ▸ List.mem_cons_self ..), hdue⟩

theorem ticks (h : s.Timely) (hticks : Ticks moment s s') : s'.Timely := by
  induction hticks with
  | refl => exact h
  | tail _ htick ih => exact ih.tick? htick

/-- **The clock never goes back** from tick to tick, nor past the moment that it is moved to. -/
theorem clock_ticks (h : s.Timely) (hle : s.clock ≤ moment) (hticks : Ticks moment s s') :
    s.clock ≤ s'.clock ∧ s'.clock ≤ moment := by
  induction hticks with
  | refl => exact ⟨Nat.le_refl _, hle⟩
  | tail hbefore htick ih =>
    have hnext := (h.ticks hbefore).clock_le_of_tick? htick
    exact ⟨Nat.le_trans ih.1 hnext.1, hnext.2⟩

/-- Once nothing is due by a moment all that is scheduled is due after it. -/
theorem lt_due_of_quiet (h : s.Timely) (hquiet : s.tick? moment = none) :
    ∀ timer ∈ s.schedule, moment < timer.due := by
  have hsorted := h.sorted
  rw [tick?_eq_none] at hquiet
  cases hschedule : s.schedule with
  | nil => exact fun _ htimer => nomatch htimer
  | cons first rest =>
    rw [hschedule] at hsorted
    have hfirst := hquiet first rest hschedule
    intro timer htimer
    rcases List.mem_cons.1 htimer with rfl | htimer
    · exact hfirst
    · exact Nat.lt_of_lt_of_le hfirst ((List.pairwise_cons.1 hsorted).1 timer htimer)

/-- Nothing is due when the clock has been moved. -/
theorem lt_due_advance (h : s.Timely) (milliseconds : Nat) :
    ∀ timer ∈ (s.advance milliseconds).schedule, (s.advance milliseconds).clock < timer.due :=
  (h.ticks (ticks_elapse _ s)).lt_due_of_quiet (tick?_elapse _ s)

/-- **Moving the clock keeps the session timely.** -/
theorem advance (h : s.Timely) (milliseconds : Nat) : (s.advance milliseconds).Timely := by
  have helapsed := h.ticks (ticks_elapse (Schedule.after s.clock milliseconds) s)
  exact ⟨Schedule.after_le _ _, helapsed.sorted,
    fun timer htimer => Nat.le_of_lt (h.lt_due_advance milliseconds timer htimer), helapsed.due_le⟩

end Timely

end Session

end PageTree
