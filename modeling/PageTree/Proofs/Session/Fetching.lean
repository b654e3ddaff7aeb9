import PageTree.Proofs.Session.Dispatch
import PageTree.Proofs.Session.Nesting

/-!
# The requests of a call

An effect that fetches does not send its request at once. The request is due from then on, and all
that are due are sent when the last effect of the call has run, those of effects that moves of the
focus ran included. Here it is shown that each such effect leads to one request, that requests are
sent in the order in which the effects ran, and that writing the answers makes no other request due,
so that the loop which sends what is due has nothing to do in a second pass.

## Main definitions

* `Execution.errand?`: the request that an effect asks for
* `Session.Gathers`: effects that find due what effects before them have asked for
* `Session.Drains`: sending what is due, until nothing is
* `Call.Fetches`: what is due, sent and written in a call that runs effects

## Main results

* `Session.Runs.errands`, `Session.Runs.gathers`: what runs makes its requests due, and sends none
* `Session.answered_eq`: each answer leads to at most one write
* `Session.drains_iff`: all is sent in one pass
* `Session.Follows.fetches`
-/

namespace PageTree

/-- The request that an effect asks for, with the key for the answer: one for a fetch that has an
address. Along goes a value that counts as true, unless the request is one that changes nothing. -/
def Execution.errand? (execution : Execution) : Option Errand :=
  match execution.effect with
  | .fetch url method body resultKey =>
    (Session.stated url).map fun url =>
      { request :=
          { method := Vocabulary.name (method.getD .get)
            url
            body := if method.getD .get ≠ .get ∧ Json.truthy body = true then body else none }
        resultKey }
  | _ => none

namespace Session

variable {s₀ s t : Session}

/-! ## Effects make requests due -/

theorem errands_addToast (s : Session) (message : String) (variant : ToastVariant) :
    (s.addToast message variant).errands = s.errands := by
  rw [addToast]
  split <;> rfl

theorem errands_request (s : Session) (url : String) (method : HttpMethod) (body : Option Json)
    (resultKey : Option String) : (s.request url method body resultKey).errands = s.errands ++
      [{ request :=
          { method := Vocabulary.name method
            url
            body := if method ≠ .get ∧ Json.truthy body = true then body else none }
         resultKey }] := by
  rw [request]
  by_cases hget : method = .get
  · simp [hget]
  · cases htruthy : Json.truthy body <;> simp [hget]

/-- **One effect makes due what it asks for**, and leaves alone what was due before. -/
theorem errands_run {effect : Effect} (h : s.moved? effect = none)
    (moveFocus : Nat → Session → Session) (source : Nat) :
    (s.run moveFocus source effect).errands =
      s.errands ++ (Execution.errand? ⟨s, source, effect⟩).toList := by
  have hgetD {α : Type} (value : Option α) (act : α → Session)
      (hact : ∀ a, (act a).errands = s.errands) :
      ((value.map act).getD s).errands = s.errands ++ [] := by
    rw [List.append_nil]
    cases value with
    | none => rfl
    | some a => exact hact a
  cases effect with
  | toggle target => exact hgetD _ _ fun i => rfl
  | setState key value => exact hgetD _ _ fun key => errands_write s key value
  | appendState key value => exact hgetD _ _ fun key => errands_write s key _
  | fetch url method body resultKey =>
    rw [run, Execution.errand?]
    dsimp only
    cases stated url with
    | none => exact (List.append_nil _).symm
    | some url => exact errands_request s url _ body resultKey
  | emit event => exact (List.append_nil _).symm
  | animate target animation =>
    rw [run]
    split <;> exact (List.append_nil _).symm
  | focus target selector =>
    rw [moved?] at h
    rw [run, h]
    exact (List.append_nil _).symm
  | toast message variant => exact hgetD _ _ fun message => errands_addToast s message _

theorem errand?_of_moved? {effect : Effect} {i : Nat} (h : s.moved? effect = some i)
    (source : Nat) : Execution.errand? ⟨s, source, effect⟩ = none := by
  cases effect with
  | fetch => cases h
  | _ => rfl

/-- Effects that ran one after the other, where each has found due what was due at first and what
those before it have asked for, and nothing else. -/
def Gathers (errands : List Errand) (log : List Execution) : Prop :=
  ∀ ran execution rest, log = ran ++ execution :: rest →
    execution.before.errands = errands ++ ran.filterMap Execution.errand?

theorem gathers_nil (errands : List Errand) : Gathers errands [] := by
  intro ran execution rest h
  cases List.append_ne_nil_of_right_ne_nil ran (List.cons_ne_nil execution rest) h.symm

theorem filterMap_errand?_cons (execution : Execution) (log : List Execution) :
    (execution :: log).filterMap Execution.errand? =
      execution.errand?.toList ++ log.filterMap Execution.errand? := by
  cases herrand : execution.errand? with
  | none => exact List.filterMap_cons_none herrand
  | some errand => exact List.filterMap_cons_some herrand

theorem gathers_cons {errands : List Errand} {execution : Execution} {log : List Execution} :
    Gathers errands (execution :: log) ↔ execution.before.errands = errands ∧
      Gathers (errands ++ execution.errand?.toList) log := by
  constructor
  · intro h
    refine ⟨(h [] execution log rfl).trans (List.append_nil _), fun ran other rest hlog => ?_⟩
    rw [h (execution :: ran) other rest (congrArg _ hlog), filterMap_errand?_cons,
      List.append_assoc]
  · rintro ⟨hfirst, hrest⟩ ran other rest hlog
    cases ran with
    | nil =>
      obtain ⟨rfl, -⟩ := List.cons.inj hlog
      exact hfirst.trans (List.append_nil _).symm
    | cons _ ran =>
      obtain ⟨rfl, htail⟩ := List.cons.inj hlog
      rw [hrest ran other rest htail, filterMap_errand?_cons, List.append_assoc]

theorem gathers_append {errands : List Errand} {log more : List Execution} :
    Gathers errands (log ++ more) ↔ Gathers errands log ∧
      Gathers (errands ++ log.filterMap Execution.errand?) more := by
  induction log generalizing errands with
  | nil =>
    rw [List.nil_append, List.filterMap_nil, List.append_nil]
    exact (and_iff_right (gathers_nil errands)).symm
  | cons execution log ih =>
    rw [List.cons_append, gathers_cons, gathers_cons, ih, filterMap_errand?_cons,
      List.append_assoc, and_assoc]

namespace Runs

variable {task : Task} {n m : Nested} {a : Trace}

/-- **What runs makes its requests due**, one after the other, behind those that were due before. -/
theorem errands (h : Runs task n a m) : m.session.errands =
    n.session.errands ++ (a.map Prod.snd).filterMap Execution.errand? := by
  induction h with
  | act h =>
    rw [List.map_singleton, filterMap_errand?_cons, List.filterMap_nil, List.append_nil]
    exact errands_run h _ _
  | move h _ ih =>
    rw [List.map_cons, filterMap_errand?_cons, errand?_of_moved? h]
    exact ih
  | effectsNil | bindingsNil | eventNone | blurNone | stay | suppress =>
    exact (List.append_nil _).symm
  | effectsCons _ _ ihFirst ihRest | bindingsCons _ _ _ ihFirst ihRest =>
    rw [List.map_append, List.filterMap_append, ihRest, ihFirst, List.append_assoc]
  | bindingsSkip _ _ ih | eventSome _ _ ih | blurSome _ ih => exact ih
  | nest _ _ _ _ ihBlur ihFocus =>
    dsimp only at ihBlur ihFocus ⊢
    rw [map_snd_inside, List.map_append, List.filterMap_append, ihFocus, ihBlur, List.append_assoc]

/-- **Nothing is sent while effects run**: each finds due all that was asked for before it, be it
inside of moves of the focus or not. -/
theorem gathers (h : Runs task n a m) : Gathers n.session.errands (a.map Prod.snd) := by
  induction h with
  | act => exact gathers_cons.2 ⟨rfl, gathers_nil _⟩
  | @move source i effect s _ _ _ h _ ih =>
    have hnone := errand?_of_moved? h source
    refine gathers_cons.2 ⟨rfl, ?_⟩
    rw [hnone, Option.toList_none, List.append_nil]
    exact ih
  | effectsNil | bindingsNil | eventNone | blurNone | stay | suppress => exact gathers_nil _
  | effectsCons hfirst _ ihFirst ihRest | bindingsCons _ hfirst _ ihFirst ihRest =>
    -- what the first part leaves due is what the rest finds
    rw [hfirst.errands] at ihRest
    rw [List.map_append]
    exact gathers_append.2 ⟨ihFirst, ihRest⟩
  | bindingsSkip _ _ ih | eventSome _ _ ih | blurSome _ ih => exact ih
  | nest _ _ hblur _ ihBlur ihFocus =>
    dsimp only at ihFocus
    rw [hblur.errands] at ihFocus
    rw [map_snd_inside, List.map_append]
    exact gathers_append.2 ⟨ihBlur, ihFocus⟩

end Runs

/-- An event makes due what its effects ask for, and sends nothing. -/
theorem errands_acted (event : String) (trigger : Option Trigger) (target : Nat) (s : Session) :
    (s.acted event trigger target).errands =
      s.errands ++ (s.eventLog event target).filterMap Execution.errand? := by
  obtain ⟨trace, hruns, hlog⟩ := settles_event event target s
  rw [← hlog, ← hruns.errands, acted]
  cases trigger with
  | none => rfl
  | some trigger => exact errands_moveOn _ _ _

theorem gathers_eventLog (event : String) (target : Nat) (s : Session) :
    Gathers s.errands (s.eventLog event target) := by
  obtain ⟨trace, hruns, hlog⟩ := settles_event event target s
  exact hlog ▸ hruns.gathers

/-! ## What is due is sent in one pass -/

/-- Each request is answered by what it is and what was sent before, and each answer leads to at
most one write. -/
theorem answered_eq (network : Network) (errands : List Errand) : answered network errands =
    (errands.mapIdx fun k errand => wanted
      (network.answer (network.sent ++ (errands.take k).map Errand.request) errand.request)
      errand.resultKey).flatten := by
  induction errands generalizing network with
  | nil => rfl
  | cons errand errands ih =>
    rw [answered, List.mapIdx_cons, List.flatten_cons]
    dsimp only [Network.fetch]
    rw [ih]
    simp only [List.take_zero, List.map_nil, List.append_nil, List.take_succ_cons, List.map_cons,
      List.append_assoc, List.singleton_append]

/-- Sending what is due, pass by pass, until nothing is due: the number of passes, the page and the
network, and what they come to. -/
inductive Drains : Nat → Session → Network → Session → Network → Prop where
  | rest {s : Session} {network : Network} (h : s.errands = []) : Drains 0 s network s network
  | pass {passes : Nat} {s t : Session} {network other : Network} (h : s.errands ≠ [])
      (hrest : Drains passes (s.settle network).1 (s.settle network).2 t other) :
      Drains (passes + 1) s network t other

/-- **One pass is enough**: writing the answers makes no request due. -/
theorem drains_iff {passes : Nat} {network other : Network} :
    Drains passes s network t other ↔
      passes = min 1 s.errands.length ∧ s.settle network = (t, other) := by
  constructor
  · intro h
    cases h with
    | rest h => exact ⟨by rw [h]; rfl, settle_of_no_errands network h⟩
    | pass h hrest =>
      cases hrest with
      | rest => exact ⟨(Nat.min_eq_left (List.length_pos_iff.2 h)).symm, rfl⟩
      | pass hmore => exact absurd (errands_settle s network) hmore
  · rintro ⟨rfl, hsettle⟩
    by_cases h : s.errands = []
    · rw [settle_of_no_errands network h] at hsettle
      obtain ⟨rfl, rfl⟩ := Prod.mk.inj hsettle
      rw [h]
      exact .rest h
    · rw [Nat.min_eq_left (List.length_pos_iff.2 h)]
      have hrest : Drains 0 (s.settle network).1 (s.settle network).2 t other := by
        rw [hsettle]
        refine .rest ?_
        rw [← congrArg Prod.fst hsettle]
        exact errands_settle s network
      exact .pass h hrest

end Session

/-! ## Calls -/

/-- What is due, sent and written in a call that runs effects, given the page when they have run and
what the call leaves. -/
structure Call.Fetches (call : Call) (acted : Session) (v : Visit) : Prop where
  /-- Each effect finds due what those before it have asked for: nothing is sent before the last. -/
  gathers : Session.Gathers [] call.log
  /-- When all effects have run, what they have asked for is due, in order. -/
  due : acted.errands = call.log.filterMap Execution.errand?
  /-- This is what is sent, in order. -/
  sent : v.network =
    { call.network with sent := call.network.sent ++ acted.errands.map Errand.request }
  /-- The answers are written in the same order, where there is one and a key for it. -/
  written : v.session = Session.writeAll
    ((acted.errands.mapIdx fun k errand => Session.wanted (call.network.answer
      (call.network.sent ++ (acted.errands.take k).map Errand.request) errand.request)
      errand.resultKey).flatten) { acted with errands := [] }
  /-- Sending begins when all effects have run, with a network to which nothing was sent yet in the
  call, and takes one pass if anything is due. -/
  drains : ∀ passes t other, Session.Drains passes acted call.network t other ↔
    passes = min 1 acted.errands.length ∧ (t, other) = (v.session, v.network)
  /-- Nothing is due then. -/
  errands : v.session.errands = []

namespace Session

variable {s₀ s : Session} {network : Network} {interaction : Interaction}

theorem exists_dispatchStart?_of_dispatch {id event : String} {outcome : Outcome}
    (h : s.dispatch id event network = .ok outcome) :
    ∃ start, s.dispatchStart? id event = some start := by
  rw [dispatchStart?]
  by_cases hheard : heardEvents.contains event = true
  · rw [dispatch_of_heard hheard] at h
    obtain ⟨target, helement, -⟩ := exists_of_map_eq_ok h
    rw [if_pos hheard, node?_of_element helement]
    exact ⟨_, rfl⟩
  · rw [dispatch_of_unheard (Bool.eq_false_iff.2 hheard)] at h
    cases h

/-- A call that reports how many effects ran is one that runs effects. -/
theorem exists_start?_of_ran {count : Nat} {v : Visit}
    (h : perform ⟨s, network⟩ interaction = .ok (.ran count, v)) :
    ∃ start, Call.start? ⟨s, network, interaction⟩ = some start := by
  cases interaction with
  | dispatch id event =>
    obtain ⟨outcome, hdispatch, -⟩ := exists_of_map_eq_ok h
    exact exists_dispatchStart?_of_dispatch hdispatch
  | enter id value =>
    obtain ⟨outcome, henter, -⟩ := exists_of_map_eq_ok h
    obtain ⟨target, helement, hdispatch⟩ := exists_of_bind_eq_ok henter
    obtain ⟨start, hstart⟩ := exists_dispatchStart?_of_dispatch hdispatch
    exact ⟨start, Option.bind_eq_some_iff.2 ⟨target, node?_of_element helement, hstart⟩⟩
  | hover id =>
    obtain ⟨outcome, hhover, -⟩ := exists_of_map_eq_ok h
    obtain ⟨target, helement, -⟩ := exists_of_bind_eq_ok hhover
    exact ⟨_, Option.map_eq_some_iff.2 ⟨target, node?_of_element helement, rfl⟩⟩
  | reveal id =>
    obtain ⟨_, -, hrevealed⟩ := exists_of_map_eq_ok h
    cases hrevealed
  | endAnimation id =>
    obtain ⟨_, -, hended⟩ := exists_of_map_eq_ok h
    cases hended
  | mount | advance | write => cases h

/-- Nothing is due in what a call begins with that was not due before. -/
theorem errands_start? {start : Start} (h : Call.start? ⟨s, network, interaction⟩ = some start) :
    start.session.errands = s.errands :=
  of_start? (motive := fun t => t.errands = s.errands) (fun _ _ => rfl)
    (fun event i t ht => (errands_refocus event i t).trans ht) rfl h

theorem fetches_of_start? {start : Start} {count : Nat} {v : Visit} (herrands : s.errands = [])
    (hstart : Call.start? ⟨s, network, interaction⟩ = some start)
    (hperform : perform ⟨s, network⟩ interaction = .ok (.ran count, v)) :
    Call.Fetches ⟨s, network, interaction⟩ start.acted v := by
  obtain ⟨_, hran⟩ := perform_of_start? hstart
  obtain ⟨-, rfl⟩ := Prod.mk.inj (Except.ok.inj (hran.symm.trans hperform))
  have hlog := Call.log_eq_of_start? hstart
  have hnone := (errands_start? hstart).trans herrands
  refine ⟨?_, ?_, ?_, ?_, fun passes t other => ?_, errands_settle _ network⟩
  · rw [hlog, ← hnone]
    exact gathers_eventLog start.event start.target start.session
  · rw [hlog, Start.acted, errands_acted, hnone, List.nil_append]
  · rw [settle_eq]
  · rw [settle_eq, answered_eq]
  · rw [drains_iff, Prod.mk.eta]
    exact and_congr_right fun _ => eq_comm

/-- **No request is lost, repeated or reordered.** Between calls nothing is due, whatever was done
with a page. A call that runs effects, be it for an event at a node, a value that is entered or a
pointer that comes in, sends one request for each of its effects that fetches from an address, in
the order in which they run and not before the last of them has. The answers are written in that
order, each of them once. All of this takes one pass. -/
theorem Follows.fetches {html : String} (hload : load html = .ok s₀) (h : Follows s₀ s) :
    s.errands = [] ∧ ∀ network interaction count v,
      perform ⟨s, network⟩ interaction = .ok (.ran count, v) →
      ∃ acted, Call.acted? ⟨s, network, interaction⟩ = some acted ∧
        Call.Fetches ⟨s, network, interaction⟩ acted v := by
  have hfresh := isFresh_of_load hload
  have herrands := (h.rests hfresh.wellFormed hfresh.errands).errands
  refine ⟨herrands, fun network interaction count v hperform => ?_⟩
  obtain ⟨start, hstart⟩ := exists_start?_of_ran hperform
  exact ⟨start.acted, by rw [Call.acted?_eq, hstart, Option.map_some],
    fetches_of_start? herrands hstart hperform⟩

/-- Markup with a button whose binding fetches, moves the focus to a field whose binding fetches as
well, and fetches once more. -/
def parcels : String :=
  "<button data-ir-id=b data-ir-events='[[\"click\",[],[[\"fetchJson\",\"/a\",\"POST\",1,\"x\"]," ++
    "[\"focus\",\"f\"],[\"fetchJson\",\"/c\",null,2,\"z\"]]]]'></button>" ++
    "<input data-ir-id=f data-ir-events='[[\"focus\",[],[[\"fetchJson\",\"/b\"]]]]'>"

/-- A network that has an answer for two of the requests. -/
def parcelsNetwork : Network := .ofAnswers [("POST", "/a", .str "A"), ("GET", "/b", .str "B")]

/-- A request as a text. -/
def requestLine (request : Request) : String :=
  request.method ++ request.url ++ (request.body.map Json.compact).getD ""

/-- The requests of a second click, and the one answer that there is a key for. -/
theorem Follows.fetches_parcels : ∃ s₀ s, load parcels = .ok s₀ ∧ Follows s₀ s ∧
    ∃ v acted, perform ⟨s, parcelsNetwork⟩ (.dispatch "b" "click") = .ok (.ran 3, v) ∧
      Call.acted? ⟨s, parcelsNetwork, .dispatch "b" "click"⟩ = some acted ∧
      Call.Fetches ⟨s, parcelsNetwork, .dispatch "b" "click"⟩ acted v ∧
      v.network.sent.map requestLine = ["POST/a1", "GET/b", "GET/c"] ∧
      (v.session.get? "x").map Json.compact = some "\"A\"" := by
  obtain ⟨s₀, calls, s, hload, hcalls, hview⟩ :=
    exists_reaches_of_view (ofList_append_append _ _ _ : parcels = _) parcelsNetwork
      [.dispatch "b" "click", .dispatch "f" "blur"] (fun _ s =>
        (perform ⟨s, parcelsNetwork⟩ (.dispatch "b" "click")).toOption.map fun ended =>
          (ended.1, ended.2.network.sent.map requestLine,
            (ended.2.session.get? "x").map Json.compact))
      (some (.ran 3, ["POST/a1", "GET/b", "GET/c"], some "\"A\"")) (by decide +kernel)
  cases hperform : perform ⟨s, parcelsNetwork⟩ (.dispatch "b" "click") with
  | error fault =>
    rw [hperform] at hview
    cases hview
  | ok ended =>
    obtain ⟨report, v⟩ := ended
    rw [hperform] at hview
    obtain ⟨rfl, hseen⟩ := Prod.mk.inj (Option.some.inj hview)
    obtain ⟨hsent, hwritten⟩ := Prod.mk.inj hseen
    obtain ⟨acted, hacted, hfetches⟩ := (Follows.fetches hload hcalls.follows).2 _ _ _ _ hperform
    exact ⟨s₀, s, hload, hcalls.follows, v, acted, hperform, hacted, hfetches, hsent,
      hwritten⟩

end Session

end PageTree
