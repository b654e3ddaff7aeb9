import Mathlib.Algebra.BigOperators.Intervals
import PageTree.Proofs.Session.Writes

/-!
# Moves of the focus inside one another

A binding can move the focus, and the move runs the bindings of the element that loses the focus and
of the one that gets it, which can move the focus again. A counter of the moves around what runs
puts an end to this: past a number of moves the focus still moves, but no bindings run. Here this is
told by rules that hand the counter on, and each page is shown to come to the one end that the
recursion over levels computes. The counter has its old value after each move, so it is zero between
calls.

## Main definitions

* `Session.Runs`: what running bindings comes to, with a counter
* `Session.Serves`, `Session.Counts`: calls on a page that keeps its counter

## Main results

* `Session.Runs.deterministic`, `Session.settles_event`: running bindings has one end
* `Session.Runs.depth_eq`, `Session.counts_iff`: the counter has its old value at the end
* `Session.Runs.level_le`, `Session.Runs.length_le`: how deep moves are, and how much they run
* `Session.focus_settles`
-/

namespace PageTree

/-- A page, with the number of moves of the focus around what runs now. -/
structure Nested where
  session : Session
  depth : Nat

/-- Effects that ran, each with the number of moves of the focus that it ran inside of. -/
abbrev Trace := List (Nat × Execution)

/-- The same trace inside of one more move of the focus. -/
def Trace.inside (trace : Trace) : Trace :=
  trace.map fun entry => (entry.1 + 1, entry.2)

/-- What there is to run. -/
inductive Task where
  /-- An effect of an element's binding. -/
  | effect (source : Nat) (effect : Effect)
  /-- Effects, one after the other. -/
  | effects (source : Nat) (effects : List Effect)
  /-- Those bindings of an element that are for an event. -/
  | bindings (event : String) (source : Nat) (bindings : List Binding)
  /-- The bindings for an event at an element. -/
  | event (event : String) (target : Nat)
  /-- The bindings for the loss of the focus, if an element had it. -/
  | blur (previous : Option Nat)
  /-- A move of the focus. -/
  | focus (i : Nat)

namespace Session

/-- The element that an effect moves the focus to, if it does. -/
def moved? (s : Session) : Effect → Option Nat
  | .focus target selector => s.focusTarget? target selector
  | _ => none

/-- What running something comes to: the effects that ran, and the page and the counter then. -/
inductive Runs : Task → Nested → Trace → Nested → Prop where
  /-- An effect that does not move the focus. -/
  | act {source : Nat} {effect : Effect} {s : Session} {depth : Nat} (h : s.moved? effect = none) :
      Runs (.effect source effect) ⟨s, depth⟩ [(0, ⟨s, source, effect⟩)]
        ⟨s.run (fun _ s => s) source effect, depth⟩
  /-- An effect that moves the focus. -/
  | move {source i : Nat} {effect : Effect} {s : Session} {depth : Nat} {a : Trace} {m : Nested}
      (h : s.moved? effect = some i) (hfocus : Runs (.focus i) ⟨s, depth⟩ a m) :
      Runs (.effect source effect) ⟨s, depth⟩ ((0, ⟨s, source, effect⟩) :: a) m
  | effectsNil {source : Nat} {n : Nested} : Runs (.effects source []) n [] n
  | effectsCons {source : Nat} {effect : Effect} {effects : List Effect} {n m k : Nested}
      {a b : Trace} (hfirst : Runs (.effect source effect) n a m)
      (hrest : Runs (.effects source effects) m b k) :
      Runs (.effects source (effect :: effects)) n (a ++ b) k
  | bindingsNil {event : String} {source : Nat} {n : Nested} :
      Runs (.bindings event source []) n [] n
  /-- A binding that is for another event, or whose conditions do not hold when its turn comes. -/
  | bindingsSkip {event : String} {source : Nat} {binding : Binding} {bindings : List Binding}
      {n k : Nested} {b : Trace} (h : ¬(binding.event = event ∧
        binding.conditions.all (Condition.holds n.session.state)))
      (hrest : Runs (.bindings event source bindings) n b k) :
      Runs (.bindings event source (binding :: bindings)) n b k
  /-- A binding that runs. -/
  | bindingsCons {event : String} {source : Nat} {binding : Binding} {bindings : List Binding}
      {n m k : Nested} {a b : Trace} (h : binding.event = event ∧
        binding.conditions.all (Condition.holds n.session.state))
      (hfirst : Runs (.effects source binding.effects) n a m)
      (hrest : Runs (.bindings event source bindings) m b k) :
      Runs (.bindings event source (binding :: bindings)) n (a ++ b) k
  /-- An event that no element around its target has bindings for. -/
  | eventNone {event : String} {target : Nat} {n : Nested}
      (h : n.session.forest.closest? target
        (fun e => OrderedMap.contains eventsAttribute e.attributes) = none) :
      Runs (.event event target) n [] n
  /-- An event that the innermost element with bindings answers. -/
  | eventSome {event : String} {target source : Nat} {n m : Nested} {a : Trace}
      (h : n.session.forest.closest? target
        (fun e => OrderedMap.contains eventsAttribute e.attributes) = some source)
      (hrun : Runs (.bindings event source (n.session.bindings source)) n a m) :
      Runs (.event event target) n a m
  | blurNone {n : Nested} : Runs (.blur none) n [] n
  | blurSome {previous : Nat} {n m : Nested} {a : Trace}
      (hrun : Runs (.event "blur" previous) n a m) : Runs (.blur (some previous)) n a m
  /-- A move of the focus to where it is. -/
  | stay {i : Nat} {n : Nested} (h : n.session.focused = some i) : Runs (.focus i) n [] n
  /-- A move of the focus inside of too many others. -/
  | suppress {i : Nat} {s : Session} {depth : Nat} (h : s.focused ≠ some i)
      (hdeep : focusLevels ≤ depth) :
      Runs (.focus i) ⟨s, depth⟩ [] ⟨{ s with focused := some i }, depth⟩
  /-- A move of the focus that runs bindings. The counter counts it as long as they run. -/
  | nest {i : Nat} {s : Session} {depth : Nat} {m k : Nested} {a b : Trace}
      (h : s.focused ≠ some i) (hroom : depth < focusLevels)
      (hblur : Runs (.blur s.focused) ⟨{ s with focused := none }, depth + 1⟩ a m)
      (hfocus : Runs (.event "focus" i) ⟨{ m.session with focused := some i }, m.depth⟩ b k) :
      Runs (.focus i) ⟨s, depth⟩ (Trace.inside (a ++ b)) ⟨k.session, k.depth - 1⟩

namespace Runs

variable {task : Task} {n m k : Nested} {a b : Trace}

/-- **The counter has its old value again** when something has run. -/
theorem depth_eq (h : Runs task n a m) : m.depth = n.depth := by
  induction h with
  | act | effectsNil | bindingsNil | eventNone | blurNone | stay | suppress => rfl
  | move _ _ ih => exact ih
  | effectsCons _ _ ihFirst ihRest => exact ihRest.trans ihFirst
  | bindingsSkip _ _ ih => exact ih
  | bindingsCons _ _ _ ihFirst ihRest => exact ihRest.trans ihFirst
  | eventSome _ _ ih => exact ih
  | blurSome _ ih => exact ih
  | nest _ _ _ _ ihBlur ihFocus =>
    dsimp only at ihBlur ihFocus ⊢
    rw [ihFocus, ihBlur, Nat.add_sub_cancel]

/-- **Moves of the focus that run bindings are never more than the counter admits** inside one
another. -/
theorem level_le (h : Runs task n a m) (hdepth : n.depth ≤ focusLevels) :
    ∀ entry ∈ a, n.depth + entry.1 ≤ focusLevels := by
  induction h with
  | act => exact List.forall_mem_singleton.2 hdepth
  | move _ _ ih => exact List.forall_mem_cons.2 ⟨hdepth, ih hdepth⟩
  | effectsNil | bindingsNil | eventNone | blurNone | stay | suppress => exact List.forall_mem_nil _
  | effectsCons hfirst _ ihFirst ihRest =>
    rw [List.forall_mem_append]
    have hrest := ihRest (hfirst.depth_eq ▸ hdepth)
    rw [hfirst.depth_eq] at hrest
    exact ⟨ihFirst hdepth, hrest⟩
  | bindingsSkip _ _ ih => exact ih hdepth
  | bindingsCons _ hfirst _ ihFirst ihRest =>
    rw [List.forall_mem_append]
    have hrest := ihRest (hfirst.depth_eq ▸ hdepth)
    rw [hfirst.depth_eq] at hrest
    exact ⟨ihFirst hdepth, hrest⟩
  | eventSome _ _ ih => exact ih hdepth
  | blurSome _ ih => exact ih hdepth
  | nest _ hroom hblur _ ihBlur ihFocus =>
    have hinner := ihBlur hroom
    have houter := ihFocus (hblur.depth_eq ▸ hroom)
    dsimp only at hinner houter
    rw [hblur.depth_eq] at houter
    intro entry hentry
    obtain ⟨inner, hmem, rfl⟩ := List.mem_map.1 hentry
    have hle := (List.mem_append.1 hmem).elim (hinner inner) (houter inner)
    dsimp only at hle ⊢
    omega

/-- **Running something has one end.** -/
theorem deterministic (h : Runs task n a m) (h' : Runs task n b k) : a = b ∧ m = k := by
  induction h generalizing b k with
  | act h =>
    cases h' with
    | act => exact ⟨rfl, rfl⟩
    | move h' => cases h.symm.trans h'
  | move h _ ih =>
    cases h' with
    | act h' => cases h'.symm.trans h
    | move h' hfocus =>
      obtain rfl := Option.some.inj (h.symm.trans h')
      obtain ⟨rfl, rfl⟩ := ih hfocus
      exact ⟨rfl, rfl⟩
  | effectsNil | bindingsNil | blurNone =>
    cases h'
    exact ⟨rfl, rfl⟩
  | effectsCons _ _ ihFirst ihRest =>
    cases h' with
    | effectsCons hfirst hrest =>
      obtain ⟨rfl, rfl⟩ := ihFirst hfirst
      obtain ⟨rfl, rfl⟩ := ihRest hrest
      exact ⟨rfl, rfl⟩
  | bindingsSkip h _ ih =>
    cases h' with
    | bindingsSkip _ hrest => exact ih hrest
    | bindingsCons h' => exact absurd h' h
  | bindingsCons h _ _ ihFirst ihRest =>
    cases h' with
    | bindingsSkip h' => exact absurd h h'
    | bindingsCons _ hfirst hrest =>
      obtain ⟨rfl, rfl⟩ := ihFirst hfirst
      obtain ⟨rfl, rfl⟩ := ihRest hrest
      exact ⟨rfl, rfl⟩
  | eventNone h =>
    cases h' with
    | eventNone => exact ⟨rfl, rfl⟩
    | eventSome h' => cases h.symm.trans h'
  | eventSome h _ ih =>
    cases h' with
    | eventNone h' => cases h'.symm.trans h
    | eventSome h' hrun =>
      obtain rfl := Option.some.inj (h.symm.trans h')
      exact ih hrun
  | blurSome _ ih =>
    cases h' with
    | blurSome hrun => exact ih hrun
  | stay h =>
    cases h' with
    | stay => exact ⟨rfl, rfl⟩
    | suppress h' => exact absurd h h'
    | nest h' => exact absurd h h'
  | suppress h hdeep =>
    cases h' with
    | stay h' => exact absurd h' h
    | suppress => exact ⟨rfl, rfl⟩
    | nest _ hroom => exact absurd hroom (Nat.not_lt.2 hdeep)
  | nest h hroom _ _ ihBlur ihFocus =>
    cases h' with
    | stay h' => exact absurd h' h
    | suppress _ hdeep => exact absurd hroom (Nat.not_lt.2 hdeep)
    | nest _ _ hblur hfocus =>
      obtain ⟨rfl, rfl⟩ := ihBlur hblur
      obtain ⟨rfl, rfl⟩ := ihFocus hfocus
      exact ⟨rfl, rfl⟩

end Runs

/-! ## Running comes to what the recursion over levels computes -/

variable {s : Session} {depth : Nat}

theorem run_of_moved?_eq_none {effect : Effect} (h : s.moved? effect = none)
    (moveFocus other : Nat → Session → Session) (source : Nat) :
    s.run moveFocus source effect = s.run other source effect := by
  cases effect with
  | focus target selector =>
    rw [moved?] at h
    rw [run, run, h]
    rfl
  | _ => rfl

theorem run_of_moved? {effect : Effect} {i : Nat} (h : s.moved? effect = some i)
    (moveFocus : Nat → Session → Session) (source : Nat) :
    s.run moveFocus source effect = moveFocus i s := by
  cases effect with
  | focus target selector =>
    rw [moved?] at h
    rw [run, h]
    rfl
  | _ => cases h

theorem effectLog_of_moved?_eq_none {effect : Effect} (h : s.moved? effect = none)
    (focusLog : Nat → Session → List Execution) (source : Nat) :
    effectLog focusLog source effect s = [⟨s, source, effect⟩] := by
  cases effect with
  | focus target selector =>
    rw [moved?] at h
    rw [effectLog, h]
    rfl
  | _ => rfl

theorem effectLog_of_moved? {effect : Effect} {i : Nat} (h : s.moved? effect = some i)
    (focusLog : Nat → Session → List Execution) (source : Nat) :
    effectLog focusLog source effect s = ⟨s, source, effect⟩ :: focusLog i s := by
  cases effect with
  | focus target selector =>
    rw [moved?] at h
    rw [effectLog, h]
    rfl
  | _ => cases h

/-- With this value of the counter, running something comes to a page, and runs these effects. -/
def Settles (task : Task) (s : Session) (depth : Nat) (t : Session) (log : List Execution) : Prop :=
  ∃ trace : Trace, Runs task ⟨s, depth⟩ trace ⟨t, depth⟩ ∧ trace.map Prod.snd = log

section

variable {moveFocus : Nat → Session → Session} {focusLog : Nat → Session → List Execution}
  (hfocus : ∀ i s, Settles (.focus i) s depth (moveFocus i s) (focusLog i s))

include hfocus

theorem settles_effect (source : Nat) (effect : Effect) (s : Session) :
    Settles (.effect source effect) s depth (s.run moveFocus source effect)
      (effectLog focusLog source effect s) := by
  cases hmoved : s.moved? effect with
  | none =>
    rw [run_of_moved?_eq_none hmoved moveFocus (fun _ s => s), effectLog_of_moved?_eq_none hmoved]
    exact ⟨_, .act hmoved, rfl⟩
  | some i =>
    obtain ⟨a, hruns, hlog⟩ := hfocus i s
    rw [run_of_moved? hmoved, effectLog_of_moved? hmoved]
    exact ⟨_, .move hmoved hruns, by rw [List.map_cons, hlog]⟩

theorem settles_effects (source : Nat) (effects : List Effect) (s : Session) :
    Settles (.effects source effects) s depth (effects.foldl (run moveFocus source) s)
      (effectsLog moveFocus focusLog source effects s) := by
  induction effects generalizing s with
  | nil => exact ⟨[], .effectsNil, rfl⟩
  | cons effect effects ih =>
    obtain ⟨a, hfirst, hlog⟩ := settles_effect hfocus source effect s
    obtain ⟨b, hrest, hmore⟩ := ih (s.run moveFocus source effect)
    exact ⟨a ++ b, .effectsCons hfirst hrest, by rw [List.map_append, hlog, hmore, effectsLog]⟩

theorem settles_bindings (event : String) (source : Nat) (bindings : List Binding) (count : Nat)
    (s : Session) :
    Settles (.bindings event source bindings) s depth
      (bindings.foldl (runBinding moveFocus event source) (s, count)).1
      (bindingsLog moveFocus focusLog event source bindings s) := by
  induction bindings generalizing s count with
  | nil => exact ⟨[], .bindingsNil, rfl⟩
  | cons binding bindings ih =>
    rw [List.foldl_cons, bindingsLog, fst_runBinding, runBinding]
    split_ifs with hruns
    · obtain ⟨a, hfirst, hlog⟩ := settles_effects hfocus source binding.effects s
      obtain ⟨b, hrest, hmore⟩ := ih (count + binding.effects.length) _
      exact ⟨a ++ b, .bindingsCons hruns hfirst hrest, by rw [List.map_append, hlog, hmore]⟩
    · obtain ⟨b, hrest, hmore⟩ := ih count s
      exact ⟨b, .bindingsSkip hruns hrest, hmore⟩

theorem settles_eventWith (event : String) (target : Nat) (s : Session) :
    Settles (.event event target) s depth (runBindingsWith moveFocus event target s).1
      (eventLogWith moveFocus focusLog event target s) := by
  rw [runBindingsWith, eventLogWith]
  cases hsource : s.forest.closest? target
      (fun e => OrderedMap.contains eventsAttribute e.attributes) with
  | none => exact ⟨[], .eventNone hsource, rfl⟩
  | some source =>
    obtain ⟨a, hruns, hlog⟩ := settles_bindings hfocus event source (s.bindings source) 0 s
    exact ⟨a, .eventSome hsource hruns, hlog⟩

end

theorem map_snd_inside (trace : Trace) : trace.inside.map Prod.snd = trace.map Prod.snd := by
  rw [Trace.inside, List.map_map]
  rfl

/-- **Moving the focus** comes to an end, however the bindings of elements point at each other. -/
theorem settles_focus (levels depth : Nat) (hlevels : focusLevels - depth = levels) (i : Nat)
    (s : Session) : Settles (.focus i) s depth (moveFocus levels i s) (focusLog levels i s) := by
  induction levels generalizing depth i s with
  | zero =>
    rw [moveFocus, focusLog]
    split_ifs with hfocused
    · exact ⟨[], .stay hfocused, rfl⟩
    · exact ⟨[], .suppress hfocused (Nat.le_of_sub_eq_zero hlevels), rfl⟩
  | succ levels ih =>
    have hroom : depth < focusLevels := by omega
    have hfocus := ih (depth + 1) (by omega)
    rw [moveFocus, focusLog]
    split_ifs with hfocused
    · exact ⟨[], .stay hfocused, rfl⟩
    · dsimp only
      cases hprevious : s.focused with
      | none =>
        obtain ⟨b, hentered, hlog⟩ := settles_eventWith hfocus "focus" i
          { s with focused := some i }
        have hleft : Runs (.blur s.focused) ⟨{ s with focused := none }, depth + 1⟩ []
            ⟨{ s with focused := none }, depth + 1⟩ := by
          rw [hprevious]
          exact .blurNone
        have hnest := Runs.nest hfocused hroom hleft hentered
        exact ⟨_, hnest, (map_snd_inside _).trans hlog⟩
      | some previous =>
        obtain ⟨a, hleft, hblurLog⟩ := settles_eventWith hfocus "blur" previous
          { s with focused := none }
        obtain ⟨b, hentered, hfocusLog⟩ := settles_eventWith hfocus "focus" i
          { (runBindingsWith (moveFocus levels) "blur" previous { s with focused := none }).1 with
            focused := some i }
        have hblur := Runs.blurSome hleft
        rw [← hprevious] at hblur
        have hnest := Runs.nest hfocused hroom hblur hentered
        exact ⟨_, hnest, by rw [map_snd_inside, List.map_append, hblurLog, hfocusLog]⟩

/-- **An event comes to an end** when it runs inside of no move of the focus. -/
theorem settles_event (event : String) (target : Nat) (s : Session) :
    Settles (.event event target) s 0 (s.runBindings event target).1 (s.eventLog event target) :=
  settles_eventWith (settles_focus focusLevels 0 rfl) event target s

end Session

/-! ## How much runs -/

/-- The number of effects of some bindings. -/
def effectCount (bindings : List Binding) : Nat :=
  (bindings.map fun binding => binding.effects.length).sum

/-- What a move of the focus runs at most, if no element has more effects than these: the bindings
of two elements, where each effect can move the focus one level further down. -/
def Task.focusMost (most : Nat) : Nat → Nat
  | 0 => 0
  | levels + 1 => 2 * (most * (1 + focusMost most levels))

/-- What running something runs at most. -/
def Task.most (most levels : Nat) : Task → Nat
  | .effect _ _ => 1 + focusMost most levels
  | .effects _ items => items.length * (1 + focusMost most levels)
  | .bindings _ _ items => effectCount items * (1 + focusMost most levels)
  | .event _ _ | .blur _ => most * (1 + focusMost most levels)
  | .focus _ => focusMost most levels

/-- Level by level, an event runs at most as many effects as can be found there. -/
theorem Task.most_mul_focusMost (most levels : Nat) : most * (1 + focusMost most levels) =
    ∑ level ∈ Finset.range (levels + 1), most * (2 * most) ^ level := by
  induction levels with
  | zero => simp [focusMost]
  | succ levels ih =>
    rw [Finset.sum_range_succ', focusMost, ih, Finset.mul_sum, Nat.mul_add, Finset.mul_sum]
    simp only [pow_zero, pow_succ]
    rw [Nat.add_comm]
    congr 1
    exact Finset.sum_congr rfl fun level _ => by ring

namespace Session

variable {s₀ s : Session}

theorem bindings_eq_of_descends (h : Descends s₀ s) (i : Nat) : s.bindings i = s₀.bindings i := by
  rw [bindings, bindings, h.forest.lasting i _ (by decide)]

namespace Runs

variable {task : Task} {n m : Nested} {a : Trace}

/-- What runs keeps what lasts of a page. -/
theorem descends (h : Runs task n a m) (hn : Descends s₀ n.session) : Descends s₀ m.session := by
  induction h with
  | act => exact hn.run (fun _ _ h => h) _ _
  | effectsNil | bindingsNil | eventNone | blurNone | stay => exact hn
  | move _ _ ih => exact ih hn
  | effectsCons _ _ ihFirst ihRest => exact ihRest (ihFirst hn)
  | bindingsSkip _ _ ih => exact ih hn
  | bindingsCons _ _ _ ihFirst ihRest => exact ihRest (ihFirst hn)
  | eventSome _ _ ih => exact ih hn
  | blurSome _ ih => exact ih hn
  | suppress => exact hn.of_forest hn.forest rfl
  | nest _ _ _ _ ihBlur ihFocus =>
    have hleft := ihBlur (hn.of_forest hn.forest rfl)
    exact ihFocus (hleft.of_forest hleft.forest rfl)

/-- **What runs is bounded** by the number of effects that an element has at most and by the levels
that the counter leaves. -/
theorem length_le {most : Nat} (h : Runs task n a m) (hn : Descends s₀ n.session)
    (hmost : ∀ i, effectCount (s₀.bindings i) ≤ most) :
    a.length ≤ task.most most (focusLevels - n.depth) := by
  induction h with
  | act => exact Nat.le_add_right 1 _
  | move _ _ ih =>
    rw [List.length_cons, Nat.add_comm]
    exact Nat.add_le_add_left (ih hn) 1
  | effectsNil | bindingsNil | eventNone | blurNone | stay | suppress => exact Nat.zero_le _
  | effectsCons hfirst _ ihFirst ihRest =>
    have hrest := ihRest (hfirst.descends hn)
    rw [hfirst.depth_eq] at hrest
    rw [List.length_append, Task.most, List.length_cons, Nat.succ_mul, Nat.add_comm]
    exact Nat.add_le_add hrest (ihFirst hn)
  | bindingsSkip _ _ ih =>
    refine (ih hn).trans (Nat.mul_le_mul_right _ ?_)
    rw [effectCount, effectCount, List.map_cons, List.sum_cons]
    exact Nat.le_add_left _ _
  | bindingsCons _ hfirst _ ihFirst ihRest =>
    have hrest := ihRest (hfirst.descends hn)
    rw [hfirst.depth_eq] at hrest
    rw [List.length_append, Task.most, effectCount, List.map_cons, List.sum_cons, Nat.add_mul]
    exact Nat.add_le_add (ihFirst hn) hrest
  | @eventSome _ _ source n _ _ _ _ ih =>
    refine (ih hn).trans (Nat.mul_le_mul_right _ ?_)
    rw [bindings_eq_of_descends hn source]
    exact hmost source
  | blurSome _ ih => exact ih hn
  | @nest _ s depth _ _ _ _ _ hroom hblur _ ihBlur ihFocus =>
    have hstart : Descends s₀ { s with focused := none } := hn.of_forest hn.forest rfl
    have hinner := ihBlur hstart
    have hleft := hblur.descends hstart
    have houter := ihFocus (hleft.of_forest hleft.forest rfl)
    have hlevels : focusLevels - depth = (focusLevels - (depth + 1)) + 1 := by omega
    dsimp only at hinner houter ⊢
    rw [hblur.depth_eq] at houter
    rw [Trace.inside, List.length_map, List.length_append, Task.most, hlevels, Task.focusMost,
      Nat.two_mul]
    exact Nat.add_le_add hinner houter

end Runs

end Session

/-! ## Calls with a counter -/

/-- What a call that runs effects begins with. -/
structure Start where
  /-- The page on which the event is answered. -/
  session : Session
  /-- The event. -/
  event : String
  /-- The element that it is for. -/
  target : Nat
  /-- The motion that it sets off. -/
  trigger : Option Trigger

namespace Start

/-- The page when the motion that the event sets off was played. -/
def moveOn (start : Start) (s : Session) : Session :=
  (start.trigger.map fun trigger => s.moveOn trigger start.target).getD s

/-- The page when all effects have run, and the motion was played. -/
def acted (start : Start) : Session :=
  start.session.acted start.event start.trigger start.target

theorem acted_eq (start : Start) :
    start.acted = start.moveOn (start.session.runBindings start.event start.target).1 :=
  rfl

end Start

namespace Session

/-- What the dispatch of an event begins with, if pages listen to it. -/
def dispatchStart? (id event : String) (s : Session) : Option Start :=
  if heardEvents.contains event then
    (s.node? id).map fun target =>
      { session := s.refocus event target, event, target
        trigger := if event = "click" then some .onPress else none }
  else none

theorem dispatchActed?_eq (id event : String) (s : Session) :
    s.dispatchActed? id event = (s.dispatchStart? id event).map Start.acted := by
  rw [dispatchActed?, dispatchStart?]
  by_cases hheard : heardEvents.contains event = true
  · rw [if_pos hheard, if_pos hheard, Option.map_map]
    rfl
  · rw [if_neg hheard, if_neg hheard]
    rfl

theorem dispatchLog_eq {id event : String} {s : Session} {start : Start}
    (h : s.dispatchStart? id event = some start) :
    s.dispatchLog id event = start.session.eventLog start.event start.target := by
  rw [dispatchStart?] at h
  obtain ⟨-, h⟩ := Option.ite_none_right_eq_some.1 h
  obtain ⟨target, hnode, rfl⟩ := Option.map_eq_some_iff.1 h
  rw [dispatchLog, hnode]
  rfl

end Session

namespace Call

variable {call : Call} {start : Start}

/-- What a call begins with, if it runs effects and does not fail. -/
def start? (call : Call) : Option Start :=
  match call.interaction with
  | .dispatch id event => call.before.dispatchStart? id event
  | .enter id value =>
    (call.before.node? id).bind fun target =>
      (call.before.mapForest (·.setValue target value)).dispatchStart? id "input"
  | .hover id =>
    (call.before.node? id).map fun target =>
      { session := call.before, event := hoverEvent, target, trigger := some .onHover }
  | .mount | .reveal _ | .advance _ | .endAnimation _ | .write _ _ => none

theorem acted?_eq (call : Call) : call.acted? = call.start?.map Start.acted := by
  obtain ⟨s, network, interaction⟩ := call
  cases interaction with
  | dispatch id event => exact s.dispatchActed?_eq id event
  | enter id value =>
    simp only [acted?, start?, Option.map_bind, Session.dispatchActed?_eq]
    rfl
  | hover id =>
    simp only [acted?, start?, Option.map_map]
    rfl
  | mount | reveal | advance | endAnimation | write => rfl

/-- The effects of a call are those that its event runs. -/
theorem log_eq_of_start? (h : call.start? = some start) :
    call.log = start.session.eventLog start.event start.target := by
  obtain ⟨s, network, interaction⟩ := call
  cases interaction with
  | dispatch id event => exact Session.dispatchLog_eq h
  | enter id value =>
    obtain ⟨target, hnode, hstart⟩ := Option.bind_eq_some_iff.1 h
    exact (log_enter hnode value network).trans (Session.dispatchLog_eq hstart)
  | hover id =>
    obtain ⟨target, hnode, rfl⟩ := Option.map_eq_some_iff.1 h
    exact log_hover hnode network
  | mount | reveal | advance | endAnimation | write => cases h

end Call

namespace Session

/-- A call on a page that keeps its counter. -/
inductive Serves : Nested → Network → Interaction → Nested → Prop where
  /-- A call that runs effects. -/
  | event {n m : Nested} {network : Network} {interaction : Interaction} {start : Start}
      {trace : Trace} (h : Call.start? ⟨n.session, network, interaction⟩ = some start)
      (hruns : Runs (.event start.event start.target) ⟨start.session, n.depth⟩ trace m) :
      Serves n network interaction ⟨((start.moveOn m.session).settle network).1, m.depth⟩
  /-- A call that runs none. -/
  | other {n : Nested} {network : Network} {interaction : Interaction} {report : Report} {v : Visit}
      (h : Call.start? ⟨n.session, network, interaction⟩ = none)
      (hperform : perform ⟨n.session, network⟩ interaction = .ok (report, v)) :
      Serves n network interaction ⟨v.session, n.depth⟩

/-- What can come of a page that keeps its counter, call after call. -/
inductive Counts (s₀ : Session) : Nested → Prop where
  | start : Counts s₀ ⟨s₀, 0⟩
  | call {n m : Nested} {network : Network} {interaction : Interaction} (h : Counts s₀ n)
      (hserves : Serves n network interaction m) : Counts s₀ m

variable {s₀ s : Session} {network : Network} {interaction : Interaction}

/-- What a call that runs effects comes to. -/
theorem perform_of_start? {start : Start}
    (h : Call.start? ⟨s, network, interaction⟩ = some start) :
    ∃ count, perform ⟨s, network⟩ interaction = .ok (.ran count,
      ⟨(start.acted.settle network).1, (start.acted.settle network).2⟩) := by
  have hacted := (Call.acted?_eq ⟨s, network, interaction⟩).trans (congrArg _ h)
  exact perform_of_acted? hacted

/-- A call on a page whose counter is zero comes to what the call comes to, and the counter is zero
then. -/
theorem serves_of_perform {report : Report} {v : Visit}
    (hperform : perform ⟨s, network⟩ interaction = .ok (report, v)) :
    Serves ⟨s, 0⟩ network interaction ⟨v.session, 0⟩ := by
  cases hstart : Call.start? ⟨s, network, interaction⟩ with
  | none => exact .other hstart hperform
  | some start =>
    obtain ⟨count, hran⟩ := perform_of_start? hstart
    obtain ⟨-, rfl⟩ := Prod.mk.inj (Except.ok.inj (hran.symm.trans hperform))
    obtain ⟨trace, hruns, -⟩ := settles_event start.event start.target start.session
    have hserves := Serves.event (n := ⟨s, 0⟩) hstart hruns
    rwa [← Start.acted_eq] at hserves

theorem Serves.exists_perform {m : Nested} (h : Serves ⟨s, 0⟩ network interaction m) :
    m.depth = 0 ∧ ∃ report v, perform ⟨s, network⟩ interaction = .ok (report, v) ∧
      v.session = m.session := by
  cases h with
  | @event m _ _ start _ hstart hruns =>
    obtain ⟨trace, hsettles, -⟩ := settles_event start.event start.target start.session
    obtain ⟨-, rfl⟩ := hruns.deterministic hsettles
    obtain ⟨count, hperform⟩ := perform_of_start? hstart
    exact ⟨rfl, _, _, hperform, by rw [Start.acted_eq]⟩
  | other _ hperform => exact ⟨rfl, _, _, hperform, rfl⟩

/-- **Between calls the counter is zero**: what comes of a page that keeps its counter is what comes
of the page. -/
theorem counts_iff {n : Nested} : Counts s₀ n ↔ n.depth = 0 ∧ Follows s₀ n.session := by
  constructor
  · intro h
    induction h with
    | start => exact ⟨rfl, .start⟩
    | @call n m _ _ _ hserves ih =>
      obtain ⟨s, depth⟩ := n
      obtain ⟨hdepth, hfollows⟩ := ih
      dsimp only at hdepth
      rw [hdepth] at hserves
      obtain ⟨hzero, report, v, hperform, hsession⟩ := hserves.exists_perform
      exact ⟨hzero, hsession ▸ hfollows.call hperform⟩
  · obtain ⟨s, depth⟩ := n
    rintro ⟨hdepth, hfollows⟩
    dsimp only at hdepth hfollows
    rw [hdepth]
    induction hfollows with
    | start => exact .start
    | call _ hperform ih => exact ih.call (serves_of_perform hperform)

theorem of_dispatchStart? {motive : Session → Prop}
    (hfocus : ∀ event i t, motive t → motive (t.refocus event i)) (hs : motive s)
    {id event : String} {start : Start} (hstart : s.dispatchStart? id event = some start) :
    motive start.session := by
  obtain ⟨-, hstart⟩ := Option.ite_none_right_eq_some.1 hstart
  obtain ⟨target, -, rfl⟩ := Option.map_eq_some_iff.1 hstart
  exact hfocus event target s hs

/-- What holds of a page, also when a value was entered and an event has moved the focus, holds of
what a call begins with. -/
theorem of_start? {motive : Session → Prop}
    (hset : ∀ i value, motive (s.mapForest (·.setValue i value)))
    (hfocus : ∀ event i t, motive t → motive (t.refocus event i)) (hs : motive s) {start : Start}
    (hstart : Call.start? ⟨s, network, interaction⟩ = some start) : motive start.session := by
  cases interaction with
  | dispatch id event => exact of_dispatchStart? hfocus hs hstart
  | enter id value =>
    obtain ⟨target, -, hstart⟩ := Option.bind_eq_some_iff.1 hstart
    exact of_dispatchStart? hfocus (hset target value) hstart
  | hover id =>
    obtain ⟨target, -, rfl⟩ := Option.map_eq_some_iff.1 hstart
    exact hs
  | mount | reveal | advance | endAnimation | write => cases hstart

/-- What a call begins with keeps what lasts of the page. -/
theorem Descends.start? (h : Descends s₀ s) {start : Start}
    (hstart : Call.start? ⟨s, network, interaction⟩ = some start) : Descends s₀ start.session :=
  of_start? (fun i value => h.of_forest (h.forest.setValue i value) rfl)
    (fun event i _ ht => ht.refocus event i) h hstart

/-- **Focus effects always settle.** A page that keeps a counter of the moves of the focus inside
one another has it at zero between calls, and every move gives it back as it was. Whatever was done
with the page, the effects of a call run to one end. They are the effects of the call, none of them
inside of more than eight moves, and there is a bound on their number if there is one on the number
of effects of each element. -/
theorem focus_settles {html : String} (hload : load html = .ok s₀) :
    (∀ n, Counts s₀ n ↔ n.depth = 0 ∧ Follows s₀ n.session) ∧
    (∀ i n trace m, Runs (.focus i) n trace m → m.depth = n.depth) ∧
    ∀ s, Follows s₀ s → ∀ network interaction start,
      Call.start? ⟨s, network, interaction⟩ = some start →
      ∃ trace m, (∀ other k, Runs (.event start.event start.target) ⟨start.session, 0⟩ other k ↔
          other = trace ∧ k = m) ∧
        m = ⟨(start.session.runBindings start.event start.target).1, 0⟩ ∧
        trace.map Prod.snd = Call.log ⟨s, network, interaction⟩ ∧
        (∀ entry ∈ trace, entry.1 ≤ 8) ∧
        ∀ most, (∀ i, effectCount (s.bindings i) ≤ most) →
          trace.length ≤ ∑ level ∈ Finset.range 9, most * (2 * most) ^ level := by
  refine ⟨fun _ => counts_iff, fun _ _ _ _ h => h.depth_eq,
    fun s hfollows network interaction start hstart => ?_⟩
  obtain ⟨trace, hruns, hlog⟩ := settles_event start.event start.target start.session
  refine ⟨trace, _, fun other k => ⟨fun h => h.deterministic hruns, ?_⟩, rfl,
    hlog.trans (Call.log_eq_of_start? hstart).symm, fun entry hentry => ?_, fun most hmost => ?_⟩
  · rintro ⟨rfl, rfl⟩
    exact hruns
  · have hle := hruns.level_le (Nat.zero_le _) entry hentry
    rwa [Nat.zero_add] at hle
  · have hs : Descends s s :=
      ⟨.refl ((isFresh_of_load hload).descends hfollows).forest.wellFormed, rfl⟩
    exact (hruns.length_le (hs.start? hstart) hmost).trans_eq (Task.most_mul_focusMost most 8)

/-- Markup with two fields that hand the focus to each other, and a button that gives it to one. -/
def pingPong : String :=
  "<button data-ir-id=b data-ir-events='[[\"click\",[],[[\"focus\",\"x\"]]]]'></button>" ++
    "<input data-ir-id=x data-ir-events='[[\"focus\",[],[[\"focus\",\"y\"]]]]'>" ++
    "<input data-ir-id=y data-ir-events='[[\"focus\",[],[[\"focus\",\"x\"]]]]'>"

/-- A click on the button runs nine effects. -/
theorem focus_settles_pingPong : ∃ s₀, load pingPong = .ok s₀ ∧ ∃ start,
    Call.start? ⟨s₀, .ofAnswers [], .dispatch "b" "click"⟩ = some start ∧
      ∃ trace m, Runs (.event start.event start.target) ⟨start.session, 0⟩ trace m ∧
        m.depth = 0 ∧ trace.length = 9 ∧ ∀ entry ∈ trace, entry.1 ≤ 8 := by
  obtain ⟨s₀, calls, s, hload, -, hviews⟩ :=
    exists_reaches_of_view (ofList_append_append _ _ _ : pingPong = _) (.ofAnswers []) []
      (fun s₀ _ => ((Call.start? ⟨s₀, .ofAnswers [], .dispatch "b" "click"⟩).isSome,
        (Call.log ⟨s₀, .ofAnswers [], .dispatch "b" "click"⟩).length)) (true, 9) (by decide +kernel)
  obtain ⟨hstarts, hlength⟩ := Prod.mk.inj hviews
  obtain ⟨start, hstart⟩ := Option.isSome_iff_exists.1 hstarts
  obtain ⟨trace, m, hruns, rfl, hlog, hlevels, -⟩ :=
    (focus_settles hload).2.2 s₀ .start _ _ start hstart
  rw [← hlog, List.length_map] at hlength
  exact ⟨s₀, hload, start, hstart, trace, _, (hruns _ _).2 ⟨rfl, rfl⟩, rfl, hlength, hlevels⟩

end Session

end PageTree
