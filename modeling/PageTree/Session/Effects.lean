import PageTree.Markup.Selector
import PageTree.Session.Refresh
import PageTree.State.Condition

/-!
# Effects in a session

An event runs the bindings of the innermost element around its target that has bindings. A binding
runs if it is for the event and its conditions hold when its turn comes. An effect that lacks what
it needs does nothing but still counts. Moving the focus runs the bindings of the element that
loses it and of the one that gets it; past a number of focus moves inside one another the focus
still moves but no bindings run.

## Main definitions

* `Session.run`: one effect
* `Session.runBindings`: the bindings for an event
* `Session.moveFocus`
-/

namespace PageTree

namespace Session

variable (s : Session)

/-! ## Effects that do not run bindings -/

/-- Shows an element that is hidden, and hides one that is not. -/
def toggle (i : Nat) : Session :=
  s.mapForest fun f =>
    if f.isHidden i then (f.setStyleProperty i "display" "").removeAttribute i "hidden"
    else f.setStyleProperty i "display" "none"

/-- Appends a value to the array under a key; what is no array is replaced by one. -/
def appendValue (key : String) (value : Json) : Session :=
  s.write key (.arr (((s.get? key).bind Json.items?).getD [] ++ [value]))

/-- Takes note of a request; only requests that may change something send a value, and only one
that counts as true. -/
def request (url : String) (method : HttpMethod) (body : Option Json)
    (resultKey : Option String) : Session :=
  let body := if method = .get || !Json.truthy body then none else body
  { s with
    errands := s.errands ++ [{ request := { method := Vocabulary.name method, url, body },
                               resultKey }] }

/-- The name of signals without one. -/
def defaultSignal : String := "ir:event"

/-- Sends a signal from an element. -/
def signal (name : Option String) (source : Nat) : Session :=
  { s with
    signals := s.signals ++ [{ name := (stated name).getD defaultSignal
                               source := s.idOf? source }] }

/-- Plays a named animation on an element. -/
def animate (name : String) (i : Nat) : Session :=
  { s with
    forest := s.forest.addClass i (animateClass name)
    animationClasses := s.animationClasses ++ [(i, animateClass name)] }

/-- A class of the region for toasts of one theme. -/
def themedToastRegionClass : String := "fluent-toast-region"

/-- The element that toasts go into. -/
def toastRegion? (f : Forest) : Option Nat :=
  (f.findFirst? fun e => OrderedMap.contains toastRegionAttribute e.attributes).or
    (f.preorder.find? fun i => f.hasClass i themedToastRegionClass)

/-- The class of every toast. -/
def toastClass : String := "ir-toast"

/-- The class of toasts that show. -/
def shownToastClass : String := toastClass ++ "--show"

/-- Adds a toast, if there is a region for it. -/
def addToast (message : String) (variant : ToastVariant) : Session :=
  match toastRegion? s.forest with
  | none => s
  | some region =>
    let toast := s.forest.size
    let look := toastClass ++ " " ++ toastClass ++ "--" ++ Vocabulary.name variant
    { s with
      forest := (s.forest.append region "div" [("class", look)]).setText toast message
      toasts := s.toasts ++ [(toast, variant)]
      schedule := s.schedule.add s.clock toast }

/-- The element that an effect moves the focus to: by a selector if there is one, else by id. -/
def focusTarget? (target selector : Option String) : Option Nat :=
  match stated selector with
  | some selector => s.forest.select? selector
  | none => s.target? target

/-- The element that an effect animates: the one it names, or its own. -/
def animationTarget? (target : Option String) (source : Nat) : Option Nat :=
  match stated target with
  | some id => s.node? id
  | none => some source

/-! ## Running -/

/-- Runs an effect of an element's binding, given how the focus moves. -/
def run (moveFocus : Nat → Session → Session) (source : Nat) (s : Session) : Effect → Session
  | .toggle target => ((s.target? target).map s.toggle).getD s
  | .setState key value => ((stated key).map fun key => s.write key value).getD s
  | .appendState key value => ((stated key).map fun key => s.appendValue key value).getD s
  | .fetch url method body resultKey =>
    ((stated url).map fun url => s.request url (method.getD .get) body resultKey).getD s
  | .emit event => s.signal event source
  | .animate target animation =>
    match s.animationTarget? target source, stated animation with
    | some i, some name => s.animate name i
    | _, _ => s
  | .focus target selector => ((s.focusTarget? target selector).map (moveFocus · s)).getD s
  | .toast message variant =>
    ((stated message).map fun message => s.addToast message (variant.getD .info)).getD s

/-- Runs a binding and counts its effects. -/
def runBinding (moveFocus : Nat → Session → Session) (event : String) (source : Nat)
    (progress : Session × Nat) (binding : Binding) : Session × Nat :=
  let (s, count) := progress
  if binding.event = event ∧ binding.conditions.all (Condition.holds s.state) then
    (binding.effects.foldl (run moveFocus source) s, count + binding.effects.length)
  else (s, count)

/-- The bindings of an element; an attribute that cannot be read holds none. -/
def bindings (s : Session) (i : Nat) : List Binding :=
  (((s.forest.attribute? i eventsAttribute).bind Literal.read?).bind
    (Record.listOf (Binding.read false))).getD []

/-- Runs the bindings for an event at an element, and counts their effects. -/
def runBindingsWith (moveFocus : Nat → Session → Session) (event : String) (target : Nat)
    (s : Session) : Session × Nat :=
  match s.forest.closest? target fun e => OrderedMap.contains eventsAttribute e.attributes with
  | none => (s, 0)
  | some source => (s.bindings source).foldl (runBinding moveFocus event source) (s, 0)

/-- Moves the focus to an element; the first argument is the number of moves inside one another
that still run bindings. The element that has the focus loses it first. -/
def moveFocus : Nat → Nat → Session → Session
  | levels, i, s =>
    if s.focused = some i then s
    else
      match levels with
      | 0 => { s with focused := some i }
      | levels + 1 =>
        let left := { s with focused := none }
        let left :=
          match s.focused with
          | none => left
          | some previous => (runBindingsWith (moveFocus levels) "blur" previous left).1
        (runBindingsWith (moveFocus levels) "focus" i { left with focused := some i }).1

/-- The number of focus moves inside one another that run bindings. -/
def focusLevels : Nat := 8

/-- Runs the bindings for an event at an element, and counts their effects, those of bindings that
focus moves run not included. -/
def runBindings (event : String) (target : Nat) (s : Session) : Session × Nat :=
  runBindingsWith (moveFocus focusLevels) event target s

end Session

end PageTree
