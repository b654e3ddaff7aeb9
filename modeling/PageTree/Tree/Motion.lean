import PageTree.Json.Record

/-!
# Motion

A node moves by a preset animation or by keyframes of its own, at a moment that its trigger names.
Without a trigger it moves when the page is mounted.

## Main definitions

* `Motion`, `Motion.trigger`, `Motion.preset?`
* `Motion.read`, `Motion.json`
-/

namespace PageTree

/-- Animations that every page can play. -/
inductive Preset where
  | fadeIn | fadeOut | slideUp | slideDown | slideLeft | slideRight | scaleIn | scaleOut | bounce
  | shake | pulse | spin
  deriving DecidableEq, Repr

instance : Vocabulary Preset where
  all := [.fadeIn, .fadeOut, .slideUp, .slideDown, .slideLeft, .slideRight, .scaleIn, .scaleOut,
    .bounce, .shake, .pulse, .spin]
  name
    | .fadeIn => "fadeIn"
    | .fadeOut => "fadeOut"
    | .slideUp => "slideUp"
    | .slideDown => "slideDown"
    | .slideLeft => "slideLeft"
    | .slideRight => "slideRight"
    | .scaleIn => "scaleIn"
    | .scaleOut => "scaleOut"
    | .bounce => "bounce"
    | .shake => "shake"
    | .pulse => "pulse"
    | .spin => "spin"
  mem_all a := by cases a <;> decide
  name_injective a b h := by cases a <;> cases b <;> first | rfl | exact absurd h (by decide)

/-- When a motion plays. -/
inductive Trigger where
  | onMount | onVisible | onHover | onPress | onState
  deriving DecidableEq, Repr

instance : Vocabulary Trigger where
  all := [.onMount, .onVisible, .onHover, .onPress, .onState]
  name
    | .onMount => "onMount"
    | .onVisible => "onVisible"
    | .onHover => "onHover"
    | .onPress => "onPress"
    | .onState => "onState"
  mem_all a := by cases a <;> decide
  name_injective a b h := by cases a <;> cases b <;> first | rfl | exact absurd h (by decide)

/-- Which keyframe shows before and after an animation. -/
inductive FillMode where
  | forwards | backwards | both | none
  deriving DecidableEq, Repr

instance : Vocabulary FillMode where
  all := [.forwards, .backwards, .both, .none]
  name
    | .forwards => "forwards"
    | .backwards => "backwards"
    | .both => "both"
    | .none => "none"
  mem_all a := by cases a <;> decide
  name_injective a b h := by cases a <;> cases b <;> first | rfl | exact absurd h (by decide)

/-- Kinds of motion. -/
inductive MotionMode where
  | preset | keyframes
  deriving DecidableEq, Repr

instance : Vocabulary MotionMode where
  all := [.preset, .keyframes]
  name
    | .preset => "preset"
    | .keyframes => "keyframes"
  mem_all a := by cases a <;> decide
  name_injective a b h := by cases a <;> cases b <;> first | rfl | exact absurd h (by decide)

/-- How often an animation plays. -/
inductive Iterations where
  | count (n : Nat)
  | infinite
  deriving DecidableEq, Repr

/-- Timing that both kinds of motion share; durations are in milliseconds. -/
structure Timing where
  /-- How long it lasts. -/
  duration : Option Nat := none
  /-- How long it waits. -/
  delay : Option Nat := none
  /-- The easing, as written in a style sheet. -/
  easing : Option String := none
  /-- When it plays. -/
  trigger : Option Trigger := none
  /-- The state key that sets it off, for motion on state. -/
  stateKey : Option String := none
  deriving DecidableEq, Repr

/-- How a node moves. -/
inductive Motion where
  /-- Plays a preset. -/
  | preset (p : Preset) (timing : Timing)
  /-- Plays keyframes, each a set of style properties. -/
  | keyframes (frames : List (OrderedMap Json)) (timing : Timing)
      (iterations : Option Iterations) (fill : Option FillMode)

namespace Iterations

/-- A number of iterations as a value. -/
def json : Iterations → Json
  | .count n => .natural n
  | .infinite => .str "infinite"

/-- A number of iterations from a literal. -/
def read (literal : Literal) : Option Iterations :=
  match Record.naturalBelow (twoTo 32) literal, literal with
  | some n, _ => some (.count n)
  | none, .str "infinite" => some .infinite
  | none, .obj [("infinite", .null)] => some .infinite
  | _, _ => none

end Iterations

namespace Motion

/-- The motion that plays a preset as it is. -/
def ofPreset (p : Preset) : Motion := .preset p {}

/-- The timing of a motion. -/
def timing : Motion → Timing
  | .preset _ timing => timing
  | .keyframes _ timing _ _ => timing

/-- When a motion plays: on mount unless it says otherwise. -/
def trigger (motion : Motion) : Trigger :=
  motion.timing.trigger.getD .onMount

/-- The preset of a motion that plays one. -/
def preset? : Motion → Option Preset
  | .preset p _ => some p
  | .keyframes .. => none

open Json in
/-- A motion as a value. -/
def json : Motion → Json
  | .preset p timing =>
    .record [field "mode" (.word MotionMode.preset), field "preset" (.word p),
      fieldIf "duration" .natural timing.duration, fieldIf "delay" .natural timing.delay,
      fieldIf "easing" .str timing.easing, fieldIf "trigger" .word timing.trigger,
      fieldIf "stateKey" .str timing.stateKey]
  | .keyframes frames timing iterations fill =>
    .record [field "mode" (.word MotionMode.keyframes),
      field "keyframes" (.arr (frames.map .obj)),
      fieldIf "duration" .natural timing.duration, fieldIf "delay" .natural timing.delay,
      fieldIf "easing" .str timing.easing, fieldIf "iterations" Iterations.json iterations,
      fieldIf "fill" .word fill, fieldIf "trigger" .word timing.trigger,
      fieldIf "stateKey" .str timing.stateKey]

open Record in
/-- Timing from the fields of a record. -/
def readTiming (field : String → Option Literal) : Option Timing := do
  return {
    duration := ← nullable (naturalBelow (twoTo 32)) (field "duration")
    delay := ← nullable (naturalBelow (twoTo 32)) (field "delay")
    easing := ← nullable string (field "easing")
    trigger := ← nullable (word true) (field "trigger")
    stateKey := ← nullable string (field "stateKey") }

open Record in
/-- A motion of a given kind from the literal of its other fields. -/
def readFields (mode : MotionMode) (literal : Literal) : Option Motion :=
  match mode with
  | .preset => do
    let field ←
      fields? ["preset", "duration", "delay", "easing", "trigger", "stateKey"] literal
    return .preset (← required (word true) (field "preset")) (← readTiming field)
  | .keyframes => do
    let field ←
      fields? ["keyframes", "duration", "delay", "easing", "iterations", "fill", "trigger",
        "stateKey"] literal
    return .keyframes (← required (listOf anyMembers) (field "keyframes")) (← readTiming field)
      (← nullable Iterations.read (field "iterations"))
      (← nullable (word true) (field "fill"))

/-- A motion from a literal. -/
def read (inTagged : Bool) (literal : Literal) : Option Motion :=
  (Record.tagged? "mode" inTagged literal).bind fun (mode, rest) => readFields mode rest

end Motion

end PageTree
