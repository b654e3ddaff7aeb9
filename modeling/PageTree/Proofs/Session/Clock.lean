import PageTree.Proofs.Session.Loading
import PageTree.Proofs.Session.Stages
import PageTree.Proofs.Session.Ticks

/-!
# The clock of a page

Nothing but moving the clock changes what it shows, and nothing but a new toast is scheduled without
that. So between calls the schedule of a page is in time, and the clock shows by how much it was
moved in all.

## Main definitions

* `Session.KeepsTime`: what can be said of the clock between calls

## Main results

* `Session.Reaches.timely`: whatever is done with a page, its schedule is in time
* `Session.Reaches.keepsTime`
-/

namespace PageTree

namespace Session

variable {s₀ s s' : Session}

/-! ## Stages take no time -/

theorem Stage.clock_eq {a : List Raised} (hstage : Stage s₀ s a s') : s'.clock = s.clock := by
  cases hstage with
  | setAttribute | removeAttribute | setValue | setText => rfl
  | addToast hregion message variant => rw [Session.addToast, hregion]
  | note hnotes => exact hnotes.clock

theorem Stages.clock_eq {a : List Raised} (hstages : Stages s₀ s a s') : s'.clock = s.clock := by
  induction hstages with
  | refl => rfl
  | snoc _ hstage ih => rw [hstage.clock_eq, ih]

namespace Timely

theorem addToast (h : s.Timely) (message : String) (variant : ToastVariant) :
    (s.addToast message variant).Timely := by
  rw [Session.addToast]
  split
  · exact h
  · refine ⟨h.clock_le, h.sorted.add _ _, fun timer htimer => ?_, fun timer htimer => ?_⟩
    · rcases Schedule.mem_add.1 htimer with htimer | htimer
      · exact (Schedule.due_of_mem_timeline h.clock_le htimer).1
      · exact h.due timer htimer
    · rcases Schedule.mem_add.1 htimer with htimer | htimer
      · exact (Schedule.due_of_mem_timeline h.clock_le htimer).2
      · exact h.due_le timer htimer

theorem of_same (h : s.Timely) (hclock : s'.clock = s.clock)
    (hschedule : s'.schedule = s.schedule) : s'.Timely := by
  obtain ⟨hle, hsorted, hdue, hlast⟩ := h
  refine ⟨?_, ?_, ?_, ?_⟩
  · rwa [hclock]
  · rwa [hschedule]
  · rwa [hclock, hschedule]
  · rwa [hschedule]

/-- **A stage keeps the session timely.** -/
theorem stage (h : s.Timely) {a : List Raised} (hstage : Stage s₀ s a s') : s'.Timely := by
  cases hstage with
  | setAttribute | removeAttribute | setValue | setText => exact h.of_same rfl rfl
  | addToast hregion message variant => exact h.addToast message variant
  | note hnotes => exact h.of_same hnotes.clock hnotes.schedule

theorem stages (h : s.Timely) {a : List Raised} (hstages : Stages s₀ s a s') : s'.Timely := by
  induction hstages with
  | refl => exact h
  | snoc _ hstage ih => exact ih.stage hstage

end Timely

/-! ## Calls -/

/-- A call moves the clock, or it consists of stages. -/
theorem Descends.advance_or_stages (h : Descends s₀ s)
    (hnodes : ∀ id i, s₀.node? id = some i → i < s₀.forest.size) {network : Network}
    {interaction : Interaction} {report : Report} {v : Visit}
    (hperform : perform { session := s, network } interaction = .ok (report, v)) :
    (∃ milliseconds, interaction = .advance milliseconds ∧ v.session = s.advance milliseconds) ∨
      Call.milliseconds { before := s, network, interaction } = 0 ∧
        Stages s₀ s (Call.raised { before := s, network, interaction }) v.session := by
  by_cases hadvance : ∃ milliseconds, interaction = .advance milliseconds
  · obtain ⟨milliseconds, rfl⟩ := hadvance
    obtain rfl := (Prod.mk.inj (Except.ok.inj hperform)).2
    exact .inl ⟨milliseconds, rfl, rfl⟩
  · have hstill := not_exists.1 hadvance
    refine .inr ⟨?_, Stages.perform hnodes h hperform hstill⟩
    cases interaction with
    | advance milliseconds => cases hstill milliseconds rfl
    | _ => rfl

theorem clock_perform (h : Descends s₀ s)
    (hnodes : ∀ id i, s₀.node? id = some i → i < s₀.forest.size)
    (hclock : s.clock ≤ Schedule.lastMoment) {network : Network} {interaction : Interaction}
    {report : Report} {v : Visit}
    (hperform : perform { session := s, network } interaction = .ok (report, v)) :
    v.session.clock =
      Schedule.after s.clock (Call.milliseconds { before := s, network, interaction }) := by
  rcases h.advance_or_stages hnodes hperform with ⟨milliseconds, rfl, hv⟩ | ⟨hzero, hstages⟩
  · rw [hv]
    rfl
  · rw [hzero, hstages.clock_eq]
    exact (Nat.min_eq_left hclock).symm

/-- **Whatever is done with a page, its schedule is in time.** -/
theorem Reaches.timely {html : String} {calls : List Call} (hload : load html = .ok s₀)
    (h : Reaches s₀ calls s) : s.Timely := by
  have hfresh := isFresh_of_load hload
  induction h with
  | start =>
    refine ⟨?_, ?_, ?_, ?_⟩
    · rw [hfresh.clock]
      exact Nat.zero_le _
    · rw [hfresh.schedule]
      exact .nil
    · rw [hfresh.schedule]
      exact nofun
    · rw [hfresh.schedule]
      exact nofun
  | call hreaches hperform ih =>
    rcases (hfresh.descends hreaches.follows).advance_or_stages hfresh.lt_size_of_node?
      hperform with ⟨milliseconds, -, hv⟩ | ⟨-, hstages⟩
    · rw [hv]
      exact ih.advance milliseconds
    · exact ih.stages hstages

/-- **The clock shows by how much it was moved in all**, as far as it can count. -/
theorem Reaches.clock_eq {html : String} {calls : List Call} (hload : load html = .ok s₀)
    (h : Reaches s₀ calls s) :
    s.clock = min (calls.map Call.milliseconds).sum Schedule.lastMoment := by
  have hfresh := isFresh_of_load hload
  induction h with
  | start => rw [hfresh.clock, List.map_nil, List.sum_nil, Nat.zero_min]
  | call hreaches hperform ih =>
    rw [clock_perform (hfresh.descends hreaches.follows) hfresh.lt_size_of_node?
      (hreaches.timely hload).clock_le hperform, ih, List.map_append, List.sum_append,
      List.map_cons, List.map_nil, List.sum_singleton, Schedule.after]
    omega

/-- What can be said of the clock of a page between calls. -/
structure KeepsTime (calls : List Call) (s : Session) : Prop where
  /-- Moving the clock twice leaves what moving it once leaves. -/
  splits : ∀ a b, (s.advance a).advance b = s.advance (min (a + b) Schedule.lastMoment)
  /-- The clock shows by how much it was moved in all, up to its last value. -/
  clock : s.clock = min (calls.map Call.milliseconds).sum Schedule.lastMoment
  /-- Nothing that is scheduled is due before what the clock shows. -/
  due : ∀ timer ∈ s.schedule, s.clock ≤ timer.due
  /-- No call moves the clock back. -/
  forward : ∀ {network : Network} {interaction : Interaction} {report : Report} {v : Visit},
    perform { session := s, network } interaction = .ok (report, v) → s.clock ≤ v.session.clock
  /-- Nor is there a change of a toast, while the clock is moved, that moves it back or past where
  it is moved to, or leaves anything due before what it shows. -/
  midway : ∀ {milliseconds : Nat} {mid later : Session},
    Ticks (Schedule.after s.clock milliseconds) s mid →
    Ticks (Schedule.after s.clock milliseconds) mid later →
      mid.clock ≤ later.clock ∧ later.clock ≤ Schedule.after s.clock milliseconds ∧
        ∀ timer ∈ later.schedule, later.clock ≤ timer.due
  /-- Moving the clock comes to an end, after which nothing more is due. -/
  ends : ∀ milliseconds, ∃ last, Ticks (Schedule.after s.clock milliseconds) s last ∧
    last.tick? (Schedule.after s.clock milliseconds) = none ∧
    s.advance milliseconds = { last with clock := Schedule.after s.clock milliseconds }
  /-- All that is scheduled then is due after what the clock shows. -/
  quiet : ∀ milliseconds, ∀ timer ∈ (s.advance milliseconds).schedule,
    (s.advance milliseconds).clock < timer.due

/-- **How the clock is moved does not matter**, and whatever is done with a page keeps time. -/
theorem Reaches.keepsTime {html : String} {calls : List Call} (hload : load html = .ok s₀)
    (h : Reaches s₀ calls s) : KeepsTime calls s where
  splits := advance_advance s
  clock := h.clock_eq hload
  due := (h.timely hload).due
  forward hperform := by
    have hfresh := isFresh_of_load hload
    have hclock := (h.timely hload).clock_le
    rw [clock_perform (hfresh.descends h.follows) hfresh.lt_size_of_node? hclock hperform]
    exact Schedule.le_after hclock _
  midway hmid hlater := by
    have htimely := h.timely hload
    have hbefore := htimely.clock_ticks (Schedule.le_after htimely.clock_le _) hmid
    have hafter := (htimely.ticks hmid).clock_ticks hbefore.2 hlater
    exact ⟨hafter.1, hafter.2, ((htimely.ticks hmid).ticks hlater).due⟩
  ends milliseconds := ⟨_, ticks_elapse _ s, tick?_elapse _ s, rfl⟩
  quiet := (h.timely hload).lt_due_advance

/-- A page in use that keeps time. -/
theorem Reaches.keepsTime_notice : ∃ s₀ calls s, load notice = .ok s₀ ∧ Reaches s₀ calls s ∧
    KeepsTime calls s := by
  obtain ⟨s₀, calls, s, hload, hreaches, -⟩ := reaches_notice
  exact ⟨s₀, calls, s, hload, hreaches, Reaches.keepsTime hload hreaches⟩

end Session

end PageTree
