import PageTree.Render.Sheet
import PageTree.Session.Basic

/-!
# Motion in a session

An element moves as its motion attribute says; one that cannot be read says nothing. A preset is
played by a class, with its timing in the inline style; keyframes are only recorded.

## Main definitions

* `Session.motion?`, `Session.move`, `Session.moveOn`
-/

namespace PageTree

namespace Motion

/-- The declarations that change the timing of a preset; nothing is said of what is zero or
empty. -/
def timingDeclarations (timing : Timing) : List (String × String) :=
  ((timing.duration.filter (0 < ·)).map fun n =>
      ("animation-duration", toString n ++ "ms")).toList ++
    ((timing.delay.filter (0 < ·)).map fun n => ("animation-delay", toString n ++ "ms")).toList ++
    ((timing.easing.filter (!·.isEmpty)).map fun e => ("animation-timing-function", e)).toList

/-- How often keyframes play: once unless a positive number says otherwise. -/
def playedIterations : Option Iterations → Iterations
  | some (.count (n + 1)) => .count (n + 1)
  | some .infinite => .infinite
  | _ => .count 1

end Motion

namespace Session

variable (s : Session)

/-- The motion of an element. -/
def motion? (i : Nat) : Option Motion :=
  ((s.forest.attribute? i motionAttribute).bind Literal.read?).bind (Motion.read false)

/-- Plays a motion on an element. -/
def move (i : Nat) : Motion → Session
  | .preset p timing =>
    s.mapForest fun forest =>
      (Motion.timingDeclarations timing).foldl (fun f d => f.setStyleProperty i d.1 d.2)
        (forest.addClass i p.motionClass)
  | .keyframes frames timing iterations fill =>
    { s with
      animations := s.animations ++ [{
        node := s.idOf? i
        frames
        duration := (timing.duration.filter (0 < ·)).getD 300
        delay := timing.delay.getD 0
        easing := (stated timing.easing).getD "ease"
        iterations := Motion.playedIterations iterations
        fill := fill.getD .forwards }] }

/-- Plays the motion of the innermost element around one that has a motion attribute, if it has
this trigger. -/
def moveOn (trigger : Trigger) (i : Nat) : Session :=
  match s.forest.closest? i fun e => OrderedMap.contains motionAttribute e.attributes with
  | none => s
  | some mover =>
    match s.motion? mover with
    | some motion => if motion.trigger = trigger then s.move mover motion else s
    | none => s

end Session

end PageTree
