import PageTree.Proofs.Session.Loading
import PageTree.Proofs.Session.Refreshing

/-!
# Answers to requests

A call sends its requests once all of its effects have run, and an answer can only be written into
the state. So whatever a page talks to has no say in what the call does: with other answers, or with
none, the same requests are sent, and the page that comes of the call is the same but for the state
and for what a write of the state refreshes.

## Main definitions

* `Session.answered`: the writes that answers lead to
* `Session.acted`: a page when the effects of an event have run
* `Session.Unswayed`, `Session.EndAlike`: calls that end alike on two networks

## Main results

* `Session.settle_eq`: sending requests comes down to writing the answers
* `Session.Follows.endAlike`: answers have no say in what a call does
-/

namespace PageTree

namespace Session

/-! ## Sending requests -/

/-- The write that an answer leads to: none without an answer or without a key for it. -/
def wanted (answer : Option Json) (key : Option String) : List (String × Json) :=
  match answer, stated key with
  | some value, some key => [(key, value)]
  | _, _ => []

/-- The writes that the answers to requests lead to, in order. -/
def answered (network : Network) : List Errand → List (String × Json)
  | [] => []
  | errand :: errands =>
    let (answer, network) := network.fetch errand.request
    wanted answer errand.resultKey ++ answered network errands

/-- Writes values into the state, one after the other. -/
def writeAll (writes : List (String × Json)) (s : Session) : Session :=
  writes.foldl (fun s entry => s.write entry.1 entry.2) s

theorem writeAll_append (writes more : List (String × Json)) (s : Session) :
    s.writeAll (writes ++ more) = (s.writeAll writes).writeAll more :=
  List.foldl_append

theorem settleErrand_eq (s : Session) (network : Network) (errand : Errand) :
    settleErrand (s, network) errand =
      (s.writeAll (wanted (network.fetch errand.request).1 errand.resultKey),
        (network.fetch errand.request).2) := by
  unfold settleErrand wanted
  dsimp only [Network.fetch]
  cases network.answer network.sent errand.request with
  | none => rfl
  | some value =>
    cases stated errand.resultKey with
    | none => rfl
    | some key => rfl

theorem foldl_settleErrand (errands : List Errand) (s : Session) (network : Network) :
    errands.foldl settleErrand (s, network) = (s.writeAll (answered network errands),
      { network with sent := network.sent ++ errands.map Errand.request }) := by
  induction errands generalizing s network with
  | nil =>
    rw [List.map_nil, List.append_nil]
    rfl
  | cons errand errands ih =>
    rw [List.foldl_cons, settleErrand_eq, ih, answered, writeAll_append, List.map_cons,
      List.append_cons]
    rfl

/-- **Sending requests** sends all of them, and then the answers are written into the state. -/
theorem settle_eq (network : Network) (s : Session) :
    s.settle network = (writeAll (answered network s.errands) { s with errands := [] },
      { network with sent := network.sent ++ s.errands.map Errand.request }) :=
  foldl_settleErrand ..

/-- The page when the effects of an event have run and the motion that it sets off was played; its
requests are still to be sent. -/
def acted (event : String) (trigger : Option Trigger) (target : Nat) (s : Session) : Session :=
  let ran := (s.runBindings event target).1
  (trigger.map fun trigger => ran.moveOn trigger target).getD ran

theorem fire_eq (event : String) (trigger : Option Trigger) (target : Nat) (network : Network)
    (s : Session) : s.fire event trigger target network =
      { count := (s.runBindings event target).2
        session := ((s.acted event trigger target).settle network).1
        network := ((s.acted event trigger target).settle network).2 } :=
  rfl

variable {s₀ s t : Session}

theorem Descends.acted (h : Descends s₀ s) (event : String) (trigger : Option Trigger)
    (target : Nat) : Descends s₀ (s.acted event trigger target) := by
  rw [Session.acted]
  cases trigger with
  | none => exact h.runBindings event target
  | some trigger => exact (h.runBindings event target).moveOn trigger target

theorem Refreshes.writeAll (h : Refreshes s t) (writes : List (String × Json)) :
    Refreshes s (t.writeAll writes) :=
  List.foldlRecOn _ _ h fun _ ht entry _ => ht.write entry.1 entry.2

/-! ## Two networks -/

/-- What calls on two networks leave is the same but for the state and what a write of it refreshes,
and both send the same requests. -/
structure Unswayed (one other : Network) (v w : Visit) : Prop where
  sent : ∃ requests, v.network.sent = one.sent ++ requests ∧ w.network.sent = other.sent ++ requests
  signals : v.session.signals = w.session.signals
  toasts : v.session.toasts = w.session.toasts
  schedule : v.session.schedule = w.session.schedule
  focused : v.session.focused = w.session.focused
  clock : v.session.clock = w.session.clock
  refreshed : ∃ common : Session, common.Refreshes v.session ∧ common.Refreshes w.session

/-- Calls on two networks both fail with one fault, or both end with one report and leave the
same. -/
def EndAlike (one other : Network) : Except SessionFault (Report × Visit) →
    Except SessionFault (Report × Visit) → Prop
  | .error fault, .error fault' => fault = fault'
  | .ok (report, v), .ok (report', w) => report = report' ∧ Unswayed one other v w
  | _, _ => False

variable {one other : Network}

theorem Unswayed.of_refreshes {v w : Visit} {common : Session} {requests : List Request}
    (hv : common.Refreshes v.session) (hw : common.Refreshes w.session)
    (hone : v.network.sent = one.sent ++ requests)
    (hother : w.network.sent = other.sent ++ requests) : Unswayed one other v w where
  sent := ⟨requests, hone, hother⟩
  signals := hv.signals.trans hw.signals.symm
  toasts := hv.toasts.trans hw.toasts.symm
  schedule := hv.schedule.trans hw.schedule.symm
  focused := hv.focused.trans hw.focused.symm
  clock := hv.clock.trans hw.clock.symm
  refreshed := ⟨common, hv, hw⟩

/-- A call that sends nothing leaves one session whatever the network is. -/
theorem endAlike_of_same (report : Report) (hs : s.forest.WellFormed) (one other : Network) :
    EndAlike one other (.ok (report, { session := s, network := one }))
      (.ok (report, { session := s, network := other })) :=
  ⟨rfl, .of_refreshes (.refl hs) (.refl hs) (List.append_nil _).symm (List.append_nil _).symm⟩

theorem endAlike_fire (hs : s.forest.WellFormed) (event : String) (trigger : Option Trigger)
    (target : Nat) (one other : Network) :
    EndAlike one other (.ok (s.fire event trigger target one).report)
      (.ok (s.fire event trigger target other).report) := by
  have hacted := (Descends.acted ⟨.refl hs, rfl⟩ event trigger target).forest.wellFormed
  have hcommon : Refreshes { s.acted event trigger target with errands := [] }
      { s.acted event trigger target with errands := [] } := .refl hacted
  rw [fire_eq, fire_eq, settle_eq, settle_eq]
  exact ⟨rfl, .of_refreshes (hcommon.writeAll _) (hcommon.writeAll _) rfl rfl⟩

theorem endAlike_dispatch (hs : s.forest.WellFormed) (id event : String) (one other : Network) :
    EndAlike one other ((s.dispatch id event one).map Outcome.report)
      ((s.dispatch id event other).map Outcome.report) := by
  by_cases hheard : heardEvents.contains event = true
  · rw [dispatch_of_heard hheard, dispatch_of_heard hheard]
    cases s.element id with
    | error fault => exact rfl
    | ok target =>
      have hfocused := (Descends.refocus ⟨.refl hs, rfl⟩ event target).forest.wellFormed
      exact endAlike_fire hfocused event _ target one other
  · rw [dispatch_of_unheard (Bool.eq_false_iff.2 hheard),
      dispatch_of_unheard (Bool.eq_false_iff.2 hheard)]
    exact rfl

/-- **Answers have no say in what a call does.** Whatever was done with a page, the next call on
one network ends as it ends on another, be the answers as they may: with the same fault or report,
requests, signals, toasts, timers, focus and clock. What is left differs at most in the state and in
what a write of the state refreshes. -/
theorem Follows.endAlike {html : String} (hload : load html = .ok s₀) (h : Follows s₀ s)
    (interaction : Interaction) (one other : Network) :
    EndAlike one other (perform { session := s, network := one } interaction)
      (perform { session := s, network := other } interaction) := by
  have hfresh := isFresh_of_load hload
  have hs := (hfresh.descends h).forest.wellFormed
  have hends {report : Report} {v : Visit}
      (hperform : perform { session := s, network := one } interaction = .ok (report, v)) :
      v.session.forest.WellFormed :=
    (hfresh.descends (h.call hperform)).forest.wellFormed
  cases interaction with
  | dispatch id event => exact endAlike_dispatch hs id event one other
  | enter id value =>
    rw [perform, perform, enter, enter]
    cases s.element id with
    | error fault => exact rfl
    | ok target =>
      have hset := ((Forest.Grown.refl hs).setValue target value).wellFormed
      exact endAlike_dispatch hset id "input" one other
  | hover id =>
    rw [perform, perform, hover, hover]
    cases s.element id with
    | error fault => exact rfl
    | ok target => exact endAlike_fire hs hoverEvent _ target one other
  | reveal id =>
    rw [perform] at hends
    rw [perform, perform]
    cases hrevealed : s.reveal id with
    | error fault => exact rfl
    | ok revealed => exact endAlike_of_same _ (hends (by rw [hrevealed]; rfl)) one other
  | endAnimation id =>
    rw [perform] at hends
    rw [perform, perform]
    cases hended : s.endAnimation id with
    | error fault => exact rfl
    | ok ended => exact endAlike_of_same _ (hends (by rw [hended]; rfl)) one other
  | mount | advance | write => exact endAlike_of_same _ (hends rfl) one other

/-- Markup with a button that asks for a value, and a text that shows the answer. -/
def inquiry : String :=
  "<button data-ir-id=\"ask\" data-ir-events='[\x7b\"event\":\"click\",\"do\":[\x7b" ++
    "\"type\":\"fetchJson\",\"url\":\"/a\",\"resultKey\":\"k\"\x7d,\x7b" ++
    "\"type\":\"emit\",\"event\":\"asked\"\x7d]\x7d]'></button><p data-ir-bind=\"k\"></p>"

/-- The text that is shown after a click on the button. -/
def shownAnswer (network : Network) (s : Session) : Option String :=
  (perform { session := s, network } (.dispatch "ask" "click")).toOption.map fun outcome =>
    outcome.2.session.forest.textContent 2

/-- A second click on the button ends alike with an answer and without, but for the text. -/
theorem Follows.endAlike_inquiry : ∃ s₀ s, load inquiry = .ok s₀ ∧ Follows s₀ s ∧
    s.shownAnswer (.ofAnswers []) = some "" ∧
    s.shownAnswer (.ofAnswers [("GET", "/a", .str "Hi")]) = some "Hi" ∧
    EndAlike (.ofAnswers []) (.ofAnswers [("GET", "/a", .str "Hi")])
      (perform { session := s, network := .ofAnswers [] } (.dispatch "ask" "click"))
      (perform { session := s, network := .ofAnswers [("GET", "/a", .str "Hi")] }
        (.dispatch "ask" "click")) := by
  obtain ⟨s₀, calls, s, hload, hcalls, hshown⟩ :=
    exists_reaches_of_view (ofList_append_append _ _ _ : inquiry = _) (.ofAnswers [])
      [.dispatch "ask" "click"] (fun _ s => (s.shownAnswer (.ofAnswers []),
        s.shownAnswer (.ofAnswers [("GET", "/a", .str "Hi")]))) (some "", some "Hi")
      (by decide +kernel)
  obtain ⟨hnone, hsome⟩ := Prod.mk.inj hshown
  exact ⟨s₀, s, hload, hcalls.follows, hnone, hsome, Follows.endAlike hload hcalls.follows _ _ _⟩

end Session

end PageTree
