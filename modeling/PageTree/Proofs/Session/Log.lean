import PageTree.Proofs.Session.Descent
import PageTree.Session.View

/-!
# What calls run

The effects that a call runs, in order, each with the session that it finds: those of the bindings
for an event, and right behind an effect that moves the focus those of the bindings that this runs.
A sequence of calls is a list of calls, each with the session that it finds.

## Main definitions

* `Execution`: an effect that runs
* `Session.eventLog`, `Call.log`: what an event runs, and what a call runs
* `Session.Reaches`: what comes of a page by a list of calls
* `Session.performAll`: doing one thing after the other

## Main results

* `Session.Reaches.follows`: what comes of a page by a list of calls can come of it
* `Session.Reaches.performAll`, `Session.exists_reaches_of_calls`: so does what doing things leads
  to
-/

namespace PageTree

/-- An effect that runs. -/
structure Execution where
  /-- The session that it finds. -/
  before : Session
  /-- The element whose binding has the effect. -/
  source : Nat
  /-- The effect. -/
  effect : Effect

namespace Session

section

variable (moveFocus : Nat → Session → Session) (focusLog : Nat → Session → List Execution)

/-- What an effect runs, given how the focus moves and what that runs. -/
def effectLog (source : Nat) (effect : Effect) (s : Session) : List Execution :=
  { before := s, source, effect } ::
    match effect with
    | .focus target selector => ((s.focusTarget? target selector).map (focusLog · s)).getD []
    | _ => []

/-- What effects run, one after the other. -/
def effectsLog (source : Nat) : List Effect → Session → List Execution
  | [], _ => []
  | effect :: effects, s =>
    effectLog focusLog source effect s ++ effectsLog source effects (s.run moveFocus source effect)

/-- What bindings run on an event, one after the other. -/
def bindingsLog (event : String) (source : Nat) : List Binding → Session → List Execution
  | [], _ => []
  | binding :: bindings, s =>
    (if binding.event = event ∧ binding.conditions.all (Condition.holds s.state) then
      effectsLog moveFocus focusLog source binding.effects s
    else []) ++
      bindingsLog event source bindings (runBinding moveFocus event source (s, 0) binding).1

theorem fst_runBinding (event : String) (source count : Nat) (binding : Binding) (s : Session) :
    (runBinding moveFocus event source (s, count) binding).1 =
      if binding.event = event ∧ binding.conditions.all (Condition.holds s.state) then
        binding.effects.foldl (run moveFocus source) s
      else s := by
  rw [runBinding]
  split_ifs <;> rfl

/-- What an event at an element runs, given how the focus moves and what that runs. -/
def eventLogWith (event : String) (target : Nat) (s : Session) : List Execution :=
  match s.forest.closest? target fun e => OrderedMap.contains eventsAttribute e.attributes with
  | none => []
  | some source => bindingsLog moveFocus focusLog event source (s.bindings source) s

end

/-- What moving the focus to an element runs. -/
def focusLog : Nat → Nat → Session → List Execution
  | levels, i, s =>
    if s.focused = some i then []
    else
      match levels with
      | 0 => []
      | levels + 1 =>
        let left := { s with focused := none }
        let blurLog :=
          match s.focused with
          | none => []
          | some previous =>
            eventLogWith (moveFocus levels) (focusLog levels) "blur" previous left
        let left :=
          match s.focused with
          | none => left
          | some previous => (runBindingsWith (moveFocus levels) "blur" previous left).1
        blurLog ++ eventLogWith (moveFocus levels) (focusLog levels) "focus" i
          { left with focused := some i }

/-- What an event at an element runs. -/
def eventLog (event : String) (target : Nat) (s : Session) : List Execution :=
  eventLogWith (moveFocus focusLevels) (focusLog focusLevels) event target s

/-- What an event at a node runs. -/
def dispatchLog (id event : String) (s : Session) : List Execution :=
  ((s.node? id).map fun target => (s.refocus event target).eventLog event target).getD []

end Session

/-- A call, with what it finds. -/
structure Call where
  /-- The session before the call. -/
  before : Session
  /-- What the page talks to. -/
  network : Network
  /-- What is done with the page. -/
  interaction : Interaction

namespace Call

variable (call : Call)

/-- The effects that a call runs. -/
def log : List Execution :=
  match call.interaction with
  | .dispatch id event => call.before.dispatchLog id event
  | .enter id value =>
    ((call.before.node? id).map fun target =>
      (call.before.mapForest (·.setValue target value)).dispatchLog id "input").getD []
  | .hover id =>
    ((call.before.node? id).map fun target => call.before.eventLog hoverEvent target).getD []
  | .mount | .reveal _ | .advance _ | .endAnimation _ | .write _ _ => []

theorem log_enter {s : Session} {id : String} {target : Nat} (h : s.node? id = some target)
    (value : String) (network : Network) :
    log { before := s, network, interaction := .enter id value } =
      (s.mapForest (·.setValue target value)).dispatchLog id "input" := by
  change ((s.node? id).map _).getD [] = _
  rw [h]
  rfl

theorem log_hover {s : Session} {id : String} {target : Nat} (h : s.node? id = some target)
    (network : Network) :
    log { before := s, network, interaction := .hover id } = s.eventLog hoverEvent target := by
  change ((s.node? id).map _).getD [] = _
  rw [h]
  rfl

/-- By how much a call moves the clock. -/
def milliseconds : Nat :=
  match call.interaction with
  | .advance milliseconds => milliseconds
  | .mount | .dispatch _ _ | .enter _ _ | .hover _ | .reveal _ | .endAnimation _ | .write _ _ => 0

end Call

namespace Session

/-- What comes of a page by calls that do not fail, one after the other. -/
inductive Reaches (s₀ : Session) : List Call → Session → Prop where
  | start : Reaches s₀ [] s₀
  | call {calls : List Call} {s : Session} {network : Network} {interaction : Interaction}
      {report : Report} {v : Visit} (h : Reaches s₀ calls s)
      (hperform : perform { session := s, network } interaction = .ok (report, v)) :
      Reaches s₀ (calls ++ [{ before := s, network, interaction }]) v.session

variable {s₀ s : Session}

/-- What comes of a page by a list of calls can come of it. -/
theorem Reaches.follows {calls : List Call} (h : Reaches s₀ calls s) : Follows s₀ s := by
  induction h with
  | start => exact .start
  | call _ hperform ih => exact ih.call hperform

/-- The session after doing one thing after the other, if none fails. -/
def performAll (network : Network) : List Interaction → Session → Except SessionFault Session
  | [], s => .ok s
  | interaction :: interactions, s => do
    let (_, v) ← perform { session := s, network } interaction
    performAll v.network interactions v.session

/-- The calls of doing one thing after the other. -/
def callsOf (network : Network) : List Interaction → Session → List Call
  | [], _ => []
  | interaction :: interactions, s =>
    { before := s, network, interaction } ::
      match perform { session := s, network } interaction with
      | .ok (_, v) => callsOf v.network interactions v.session
      | .error _ => []

/-- What doing things leads to comes of a page by the calls of doing them. -/
theorem Reaches.performAll {calls : List Call} {s' : Session} {network : Network}
    {interactions : List Interaction} (h : Reaches s₀ calls s)
    (hperform : performAll network interactions s = .ok s') :
    Reaches s₀ (calls ++ callsOf network interactions s) s' := by
  induction interactions generalizing s calls network with
  | nil =>
    obtain rfl := Except.ok.inj hperform
    rwa [callsOf, List.append_nil]
  | cons interaction interactions ih =>
    obtain ⟨⟨report, v⟩, hfirst, hrest⟩ := exists_of_bind_eq_ok hperform
    rw [callsOf, hfirst, List.append_cons]
    exact ih (h.call hfirst) hrest

/-- Loading the markup that has these characters. -/
def loadChars (chars : List Char) : Except SessionFault Session := do
  let forest ← ((MarkupReader.readFrom chars.length 0 chars).map Forest.ofTokens).mapError .markup
  let state ← initialState forest
  return { forest, state, nodes := nodeTable forest }

theorem load_ofList (chars : List Char) : load (.ofList chars) = loadChars chars := by
  rw [load, loadChars, Forest.read, Token.ofMarkup, String.toList_ofList]

/-- The characters of a text in three parts. -/
theorem ofList_append_append (a b c : List Char) :
    String.ofList a ++ String.ofList b ++ String.ofList c = .ofList (a ++ b ++ c) := by
  rw [String.ofList_append, String.ofList_append]

/-- What is seen of a page and of the calls of doing things is seen of a page that comes of it and
of the calls by which it does. The page is given by its characters, since finding those of a long
text takes its time. -/
theorem exists_reaches_of_calls {html : String} {chars : List Char} (hhtml : html = .ofList chars)
    (network : Network) (interactions : List Interaction) {α : Type}
    (view : Session → List Call → Session → α) (seen : α)
    (h : ((loadChars chars).bind fun s₀ => (performAll network interactions s₀).map
      (view s₀ (callsOf network interactions s₀))).toOption = some seen) :
    ∃ s₀ calls s, load html = .ok s₀ ∧ Reaches s₀ calls s ∧ view s₀ calls s = seen := by
  rw [hhtml, load_ofList]
  cases hload : loadChars chars with
  | error fault =>
    rw [hload] at h
    cases h
  | ok s₀ =>
    rw [hload, Except.bind] at h
    cases hperform : performAll network interactions s₀ with
    | error fault =>
      rw [hperform] at h
      cases h
    | ok s =>
      rw [hperform] at h
      exact ⟨s₀, _, s, rfl, Reaches.start.performAll hperform, Option.some.inj h⟩

/-- What is seen on a page after doing things is seen on a page that comes of it. -/
theorem exists_reaches_of_view {html : String} {chars : List Char} (hhtml : html = .ofList chars)
    (network : Network) (interactions : List Interaction) {α : Type}
    (view : Session → Session → α) (seen : α)
    (h : ((loadChars chars).bind fun s₀ =>
      (performAll network interactions s₀).map (view s₀)).toOption = some seen) :
    ∃ s₀ calls s, load html = .ok s₀ ∧ Reaches s₀ calls s ∧ view s₀ s = seen :=
  exists_reaches_of_calls hhtml network interactions (fun s₀ _ s => view s₀ s) seen h

/-- Markup with a button that says something when it is clicked. -/
def notice : String :=
  "<button data-ir-id=\"bell\" data-ir-events='[\x7b\"event\":\"click\",\"do\":[\x7b" ++
    "\"type\":\"toast\",\"message\":\"Hi\"\x7d]\x7d]'></button><div data-ir-toast-region></div>"

/-- A click on the button, a while ago, shows what it says. -/
theorem reaches_notice : ∃ s₀ calls s, load notice = .ok s₀ ∧ Reaches s₀ calls s ∧
    s.toastViews = [{ message := "Hi", variant := .info, shown := true }] :=
  exists_reaches_of_view (show notice = .ofList _ from String.ofList_append.symm) (.ofAnswers [])
    [.dispatch "bell" "click", .advance 20] (fun _ s => s.toastViews)
    [{ message := "Hi", variant := .info, shown := true }] (by decide +kernel)

end Session

end PageTree
