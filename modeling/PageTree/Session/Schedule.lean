import PageTree.Number.Power

/-!
# The schedule of toasts

A toast is added hidden, shows after a moment, hides again and is taken out at last; only when it
hides is it scheduled that it will be taken out. What is still to happen is a list in the order of
the moments at which it happens; of two changes at one moment the one that was scheduled first comes
first. The clock counts milliseconds and stops at its last value.

## Main definitions

* `Schedule.add`: the first changes of a new toast join the schedule
* `Schedule.followUp`: what a change that happened leads to joins it
* `Schedule.remaining`: how many changes are still to happen
-/

namespace PageTree

/-- What happens to a toast. -/
inductive ToastChange where
  | show | hide | remove
  deriving DecidableEq, Repr

/-- A change of a toast that is still to happen. -/
structure Timer where
  /-- When it happens. -/
  due : Nat
  /-- The element of the toast. -/
  toast : Nat
  /-- What happens. -/
  change : ToastChange
  deriving DecidableEq, Repr

/-- The changes still to happen, in order. -/
abbrev Schedule := List Timer

namespace Schedule

/-- The last value of the clock. -/
def lastMoment : Nat := twoTo 64 - 1

/-- The clock after a number of milliseconds. -/
def after (clock milliseconds : Nat) : Nat :=
  min (clock + milliseconds) lastMoment

/-- When a toast shows, after it was added. -/
def showDelay : Nat := 10

/-- When a toast hides, after it was added. -/
def hideDelay : Nat := 3000

/-- When a toast is taken out, after it hid. -/
def removeDelay : Nat := 300

/-- The first changes of a toast that is added now. -/
def timeline (clock toast : Nat) : List Timer :=
  [⟨after clock showDelay, toast, .show⟩, ⟨after clock hideDelay, toast, .hide⟩]

/-- A timer in its place: behind all that are due no later. -/
def insert (timer : Timer) : Schedule → Schedule
  | [] => [timer]
  | other :: rest => if other.due ≤ timer.due then other :: insert timer rest
    else timer :: other :: rest

/-- The schedule with the changes of a toast that is added now. -/
def add (clock toast : Nat) (schedule : Schedule) : Schedule :=
  (timeline clock toast).foldl (fun s timer => insert timer s) schedule

/-- The schedule after a change happened, at its moment: a toast that hid is to be taken out. -/
def followUp (timer : Timer) (schedule : Schedule) : Schedule :=
  match timer.change with
  | .hide => insert ⟨after timer.due removeDelay, timer.toast, .remove⟩ schedule
  | .show | .remove => schedule

/-- How many changes are still to happen, those included that are not scheduled yet. -/
def remaining : Schedule → Nat
  | [] => 0
  | timer :: rest => (if timer.change = .hide then 2 else 1) + remaining rest

theorem remaining_cons (timer : Timer) (schedule : Schedule) :
    remaining (timer :: schedule) =
      (if timer.change = .hide then 2 else 1) + remaining schedule :=
  rfl

theorem remaining_insert (timer : Timer) (schedule : Schedule) :
    (insert timer schedule).remaining = remaining (timer :: schedule) := by
  induction schedule with
  | nil => rfl
  | cons other rest ih =>
    rw [insert]
    split
    · rw [remaining_cons, ih]
      simp only [remaining_cons]
      omega
    · rfl

/-- A change that happened is one less. -/
theorem remaining_followUp (timer : Timer) (schedule : Schedule) :
    (followUp timer schedule).remaining + 1 = remaining (timer :: schedule) := by
  rw [followUp, remaining_cons]
  split
  · next h =>
    rw [remaining_insert, remaining_cons, h, if_pos rfl, if_neg ToastChange.noConfusion]
    omega
  · next h => rw [h, if_neg (by decide), Nat.add_comm]
  · next h => rw [h, if_neg (by decide), Nat.add_comm]

end Schedule

end PageTree
