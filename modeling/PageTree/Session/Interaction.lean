import PageTree.Session.Effects

/-!
# Using a page

What can be done with a page in use. A call that runs effects sends the requests that they asked
for once all of them have run; each answer is written into the state under its key. A call that
fails leaves the session as it was.

## Main definitions

* `Interaction`, `Session.perform`
* `Session.dispatch`, `Session.enter`, `Session.hover`, `Session.reveal`, `Session.advance`,
  `Session.endAnimation`
-/

namespace PageTree

/-- The events that pages listen to. -/
def heardEvents : List String := ["click", "submit", "input", "change", "focus", "blur"]

/-- The event of a pointer that enters an element; bindings can be for it but it cannot be
dispatched. -/
def hoverEvent : String := "hover"

namespace Session

/-! ## Requests -/

/-- Sends a request and writes the answer under its key. An answer without key, or none at all,
changes nothing. -/
def settleErrand (progress : Session × Network) (errand : Errand) : Session × Network :=
  let (s, network) := progress
  let (answer, network) := network.fetch errand.request
  match answer, stated errand.resultKey with
  | some value, some key => (s.write key value, network)
  | _, _ => (s, network)

/-- Sends the requests that are due. -/
def settle (network : Network) (s : Session) : Session × Network :=
  s.errands.foldl settleErrand ({ s with errands := [] }, network)

/-! ## Calls -/

/-- What an event does to the focus before its bindings run. -/
def refocus (event : String) (target : Nat) (s : Session) : Session :=
  if event = "focus" then { s with focused := some target }
  else if event = "blur" ∧ s.focused = some target then { s with focused := none }
  else s

/-- The outcome of a call: the number of effects that ran, the session and the network after
it. -/
structure Outcome where
  count : Nat
  session : Session
  network : Network

/-- Runs the bindings for an event at an element, plays motion with a trigger, and sends
requests. -/
def fire (event : String) (trigger : Option Trigger) (target : Nat) (network : Network)
    (s : Session) : Outcome :=
  let (s, count) := s.runBindings event target
  let s := (trigger.map fun trigger => s.moveOn trigger target).getD s
  let (session, network) := s.settle network
  { count, session, network }

/-- Fires an event at a node. -/
def dispatch (id event : String) (network : Network) (s : Session) :
    Except SessionFault Outcome := do
  unless heardEvents.contains event do throw (.unheard event)
  let target ← s.element id
  let trigger := if event = "click" then some Trigger.onPress else none
  return (s.refocus event target).fire event trigger target network

/-- Enters a value into the form control of a node. -/
def enter (id value : String) (network : Network) (s : Session) : Except SessionFault Outcome := do
  let target ← s.element id
  (s.mapForest (·.setValue target value)).dispatch id "input" network

/-- Moves the pointer onto a node. -/
def hover (id : String) (network : Network) (s : Session) : Except SessionFault Outcome := do
  let target ← s.element id
  return s.fire hoverEvent (some .onHover) target network

/-- Brings a node into view, and says whether that was awaited. -/
def reveal (id : String) (s : Session) : Except SessionFault (Bool × Session) := do
  let target ← s.element id
  if s.awaited.contains target then
    let s := { s with awaited := s.awaited.erase target }
    return (true, ((s.motion? target).map (s.move target)).getD s)
  else return (false, s)

/-- Changes the element of a toast. -/
def changeToast (f : Forest) (timer : Timer) : Forest :=
  match timer.change with
  | .show => f.addClass timer.toast shownToastClass
  | .hide => f.removeClass timer.toast shownToastClass
  | .remove => f.detach timer.toast

/-- The session after a change of a toast, the first one that is scheduled. The clock then shows when
it was due. -/
def happen (timer : Timer) (rest : Schedule) (s : Session) : Session :=
  { s with
    clock := timer.due
    schedule := Schedule.followUp timer rest
    forest := changeToast s.forest timer }

/-- The session after the next change of a toast, if there is one that is due by a moment. -/
def tick? (moment : Nat) (s : Session) : Option Session :=
  match s.schedule with
  | [] => none
  | timer :: rest => if timer.due ≤ moment then some (s.happen timer rest) else none

theorem tick?_eq_none {moment : Nat} {s : Session} :
    s.tick? moment = none ↔ ∀ timer rest, s.schedule = timer :: rest → moment < timer.due := by
  rw [tick?]
  split
  · next h => simp [h]
  · next timer rest h =>
    simp only [h, List.cons.injEq, ite_eq_right_iff, reduceCtorEq, imp_false, Nat.not_le, and_imp]
    exact ⟨fun hlt _ _ heq _ => heq ▸ hlt, fun hall => hall timer rest rfl rfl⟩

theorem tick?_eq_some {moment : Nat} {s next : Session} :
    s.tick? moment = some next ↔ ∃ timer rest,
      s.schedule = timer :: rest ∧ timer.due ≤ moment ∧ next = s.happen timer rest := by
  rw [tick?]
  split
  · next h => simp [h]
  · next timer rest h =>
    simp only [h, List.cons.injEq, Option.ite_none_right_eq_some, Option.some.injEq]
    constructor
    · rintro ⟨hdue, rfl⟩
      exact ⟨timer, rest, ⟨rfl, rfl⟩, hdue, rfl⟩
    · rintro ⟨_, _, ⟨rfl, rfl⟩, hdue, rfl⟩
      exact ⟨hdue, rfl⟩

theorem remaining_tick? {moment : Nat} {s next : Session} (h : s.tick? moment = some next) :
    next.schedule.remaining < s.schedule.remaining := by
  obtain ⟨timer, rest, hschedule, -, rfl⟩ := tick?_eq_some.1 h
  rw [hschedule]
  exact Nat.lt_of_succ_le (Nat.le_of_eq (Schedule.remaining_followUp timer rest))

/-- Makes happen, one after the other, what is due by a moment. -/
def elapse (moment : Nat) (s : Session) : Session :=
  match _tick : s.tick? moment with
  | none => s
  | some next => elapse moment next
termination_by s.schedule.remaining
decreasing_by exact remaining_tick? _tick

theorem elapse_of_none {moment : Nat} {s : Session} (h : s.tick? moment = none) :
    s.elapse moment = s := by
  rw [elapse]
  split
  · rfl
  · next heq => cases h.symm.trans heq

theorem elapse_of_some {moment : Nat} {s next : Session} (h : s.tick? moment = some next) :
    s.elapse moment = next.elapse moment := by
  rw [elapse]
  split
  · next heq => cases h.symm.trans heq
  · next heq => rw [Option.some.inj (h.symm.trans heq)]

/-- Moves the clock, and makes happen what is due by then. -/
def advance (milliseconds : Nat) (s : Session) : Session :=
  let moment := Schedule.after s.clock milliseconds
  { s.elapse moment with clock := moment }

/-- Ends the animation of a node: the classes that effects put on its element go. -/
def endAnimation (id : String) (s : Session) : Except SessionFault Session := do
  let target ← s.element id
  let (ended, others) := s.animationClasses.partition fun entry => entry.1 = target
  return { s with
    forest := ended.foldl (fun f entry => f.removeClass target entry.2) s.forest
    animationClasses := others }

end Session

/-- What can be done with a page. -/
inductive Interaction where
  /-- Mounts the page. -/
  | mount
  /-- Fires an event at a node. -/
  | dispatch (id event : String)
  /-- Enters a value into a form control. -/
  | enter (id value : String)
  /-- Moves the pointer onto a node. -/
  | hover (id : String)
  /-- Brings a node into view. -/
  | reveal (id : String)
  /-- Moves the clock. -/
  | advance (milliseconds : Nat)
  /-- Ends the animation of a node. -/
  | endAnimation (id : String)
  /-- Writes a value into the state. -/
  | write (key : String) (value : Json)

/-- What an interaction reports. -/
inductive Report where
  /-- Nothing. -/
  | done
  /-- The number of effects that ran. -/
  | ran (count : Nat)
  /-- Whether a motion was awaited. -/
  | revealed (awaited : Bool)
  deriving DecidableEq, Repr

/-- A session and what it talks to. -/
structure Visit where
  session : Session
  network : Network

namespace Session

/-- A call that runs effects, with its report. -/
def Outcome.report (outcome : Outcome) : Report × Visit :=
  (.ran outcome.count, { session := outcome.session, network := outcome.network })

/-- Does something with a page. -/
def perform (v : Visit) : Interaction → Except SessionFault (Report × Visit)
  | .mount => .ok (.done, { v with session := v.session.mount })
  | .dispatch id event => (v.session.dispatch id event v.network).map Outcome.report
  | .enter id value => (v.session.enter id value v.network).map Outcome.report
  | .hover id => (v.session.hover id v.network).map Outcome.report
  | .reveal id =>
    (v.session.reveal id).map fun (awaited, session) => (.revealed awaited, { v with session })
  | .advance milliseconds => .ok (.done, { v with session := v.session.advance milliseconds })
  | .endAnimation id => (v.session.endAnimation id).map fun session => (.done, { v with session })
  | .write key value => .ok (.done, { v with session := v.session.write key value })

end Session

end PageTree
