import PageTree.Proofs.Session.Addressing
import PageTree.Proofs.Session.Settling
import PageTree.Proofs.Session.Showing

/-!
# The writes of a call

A call writes into the state when it is asked to, when an effect of one of its bindings says so, and
when an answer to one of its requests is to be kept; mounting a page refreshes it as a write does.
Right after each of these the page shows its state, whatever was done with it before.

## Main definitions

* `Execution.written?`: the page right after an effect has written into the state
* `Call.acted?`: the page when all effects of a call have run
* `Call.writes`: the pages right after the writes of a call, one after the other
* `Session.IsRefreshed`: a page that was just refreshed

## Main results

* `Session.perform_of_acted?`: a call sends its requests when its effects have run
* `Session.Follows.isRefreshed_writes`: right after every write the page is refreshed
* `Session.Follows.showsState`: after every write the page shows its state
-/

namespace PageTree

open Session

/-- The page right after an effect has written into the state, if it does. -/
def Execution.written? (execution : Execution) : Option Session :=
  match execution.effect with
  | .setState key value => (stated key).map fun key => execution.before.write key value
  | .appendState key value => (stated key).map fun key => execution.before.appendValue key value
  | _ => none

namespace Session

/-- The pages right after some writes, one after the other. -/
def afterWrites : List (String × Json) → Session → List Session
  | [], _ => []
  | entry :: writes, s =>
    s.write entry.1 entry.2 :: afterWrites writes (s.write entry.1 entry.2)

/-- The page when the effects of an event at a node have run, if pages listen to it. -/
def dispatchActed? (id event : String) (s : Session) : Option Session :=
  if heardEvents.contains event then
    (s.node? id).map fun target => (s.refocus event target).acted event
      (if event = "click" then some .onPress else none) target
  else none

end Session

namespace Call

variable (call : Call)

/-- The page when all effects of a call have run and its requests are still to be sent, if the call
does not fail. -/
def acted? : Option Session :=
  match call.interaction with
  | .dispatch id event => call.before.dispatchActed? id event
  | .enter id value =>
    (call.before.node? id).bind fun target =>
      (call.before.mapForest (·.setValue target value)).dispatchActed? id "input"
  | .hover id =>
    (call.before.node? id).map fun target => call.before.acted hoverEvent (some .onHover) target
  | .mount | .reveal _ | .advance _ | .endAnimation _ | .write _ _ => none

/-- The pages right after the writes of a call that runs effects: those of its effects, and then
those of the answers to its requests. -/
def effectWrites : List Session :=
  match call.acted? with
  | none => []
  | some acted => call.log.filterMap Execution.written? ++
      afterWrites (answered call.network acted.errands) { acted with errands := [] }

/-- The pages right after the writes of a call, one after the other; mounting a page for the first
time counts as one. -/
def writes : List Session :=
  match call.interaction with
  | .mount => if call.before.mounted then [] else [call.before.mount]
  | .write key value => [call.before.write key value]
  | .dispatch _ _ | .enter _ _ | .hover _ => call.effectWrites
  | .reveal _ | .advance _ | .endAnimation _ => []

end Call

/-! ## What writes are writes of -/

namespace Session

variable {s₀ s t : Session}

theorem exists_of_dispatchActed? {id event : String} (h : s.dispatchActed? id event = some t) :
    heardEvents.contains event = true ∧ ∃ target, s.node? id = some target ∧
      (s.refocus event target).acted event (if event = "click" then some .onPress else none)
        target = t := by
  rw [dispatchActed?] at h
  by_cases hheard : heardEvents.contains event = true
  · rw [if_pos hheard] at h
    exact ⟨hheard, Option.map_eq_some_iff.1 h⟩
  · rw [if_neg hheard] at h
    cases h

theorem dispatch_of_dispatchActed? {id event : String} (h : s.dispatchActed? id event = some t)
    (network : Network) : ∃ count, s.dispatch id event network =
      .ok { count, session := (t.settle network).1, network := (t.settle network).2 } := by
  obtain ⟨hheard, target, hnode, rfl⟩ := exists_of_dispatchActed? h
  rw [dispatch_of_heard hheard, element_of_node? hnode]
  exact ⟨_, congrArg Except.ok (fire_eq event _ target network _)⟩

/-- **A call that runs effects** does not fail, and sends its requests when they have run. -/
theorem perform_of_acted? {network : Network} {interaction : Interaction}
    (h : Call.acted? { before := s, network, interaction } = some t) :
    ∃ count, perform { session := s, network } interaction =
      .ok (.ran count, { session := (t.settle network).1, network := (t.settle network).2 }) := by
  cases interaction with
  | dispatch id event =>
    obtain ⟨count, hdispatch⟩ := dispatch_of_dispatchActed? h network
    exact ⟨count, by rw [perform, hdispatch]; rfl⟩
  | enter id value =>
    simp only [Call.acted?] at h
    obtain ⟨target, hnode, hacted⟩ := Option.bind_eq_some_iff.1 h
    obtain ⟨count, hdispatch⟩ := dispatch_of_dispatchActed? hacted network
    refine ⟨count, ?_⟩
    rw [perform, enter, element_of_node? hnode]
    exact congrArg (Except.map Outcome.report) hdispatch
  | hover id =>
    simp only [Call.acted?] at h
    obtain ⟨target, hnode, rfl⟩ := Option.map_eq_some_iff.1 h
    refine ⟨(s.runBindings hoverEvent target).2, ?_⟩
    rw [perform, hover, element_of_node? hnode]
    exact congrArg (Except.ok ∘ Outcome.report) (fire_eq hoverEvent _ target network s)
  | mount | reveal | advance | endAnimation | write => cases h

theorem descends_dispatchActed? (h : Descends s₀ s) {id event : String}
    (hacted : s.dispatchActed? id event = some t) : Descends s₀ t := by
  obtain ⟨-, target, -, rfl⟩ := exists_of_dispatchActed? hacted
  exact (h.refocus event target).acted event _ target

theorem descends_acted? (h : Descends s₀ s) {network : Network} {interaction : Interaction}
    (hacted : Call.acted? { before := s, network, interaction } = some t) : Descends s₀ t := by
  cases interaction with
  | dispatch id event => exact descends_dispatchActed? h hacted
  | enter id value =>
    simp only [Call.acted?] at hacted
    obtain ⟨target, -, hacted⟩ := Option.bind_eq_some_iff.1 hacted
    have hset : Descends s₀ (s.mapForest (·.setValue target value)) :=
      h.of_forest (h.forest.setValue target value) rfl
    exact descends_dispatchActed? hset hacted
  | hover id =>
    simp only [Call.acted?] at hacted
    obtain ⟨target, -, rfl⟩ := Option.map_eq_some_iff.1 hacted
    exact h.acted hoverEvent _ target
  | mount | reveal | advance | endAnimation | write => cases hacted

/-! ## After writes -/

/-- A page that was just refreshed, and came from another one before that. -/
def IsRefreshed (s₀ t : Session) : Prop :=
  ∃ s, Descends s₀ s ∧ t = s.refresh

theorem Descends.isRefreshed_write (h : Descends s₀ s) (key : String) (value : Json) :
    IsRefreshed s₀ (s.write key value) :=
  ⟨{ s with state := (s.state.withValueAt? key value).getD s.state }, h.of_forest h.forest rfl, rfl⟩

theorem Descends.isRefreshed_mount (h : Descends s₀ s) (hmounted : s.mounted = false) :
    IsRefreshed s₀ s.mount := by
  have hstart : Descends s₀ { s with mounted := true } := h.of_forest h.forest rfl
  refine ⟨_, List.foldlRecOn s.forest.preorder Session.mountMotion hstart
    fun t ht i _ => ht.mountMotion i, ?_⟩
  rw [Session.mount, if_neg (by simp [hmounted])]

theorem isRefreshed_afterWrites (writes : List (String × Json)) (h : Descends s₀ s) :
    ∀ t ∈ s.afterWrites writes, IsRefreshed s₀ t := by
  induction writes generalizing s with
  | nil => exact List.forall_mem_nil _
  | cons entry writes ih =>
    exact List.forall_mem_cons.2 ⟨h.isRefreshed_write _ _, ih (h.write _ _)⟩

theorem isRefreshed_written? {execution : Execution} (h : Descends s₀ execution.before)
    (hwritten : execution.written? = some t) : IsRefreshed s₀ t := by
  rw [Execution.written?] at hwritten
  split at hwritten
  · obtain ⟨key, -, rfl⟩ := Option.map_eq_some_iff.1 hwritten
    exact h.isRefreshed_write _ _
  · obtain ⟨key, -, rfl⟩ := Option.map_eq_some_iff.1 hwritten
    exact h.isRefreshed_write _ _
  · cases hwritten

theorem isRefreshed_effectWrites (hfresh : s₀.IsFresh) (h : Descends s₀ s) (network : Network)
    (interaction : Interaction) :
    ∀ t ∈ Call.effectWrites { before := s, network, interaction }, IsRefreshed s₀ t := by
  rw [Call.effectWrites]
  split
  · exact List.forall_mem_nil _
  · next acted hacted =>
    intro t ht
    rcases List.mem_append.1 ht with ht | ht
    · obtain ⟨execution, hexecution, hwritten⟩ := List.mem_filterMap.1 ht
      obtain ⟨a, hstages⟩ := Finds.log hfresh.lt_size_of_node? h network interaction _ hexecution
      exact isRefreshed_written? (hstages.descends h) hwritten
    · have hdescends := descends_acted? h hacted
      have hsent : Descends s₀ { acted with errands := [] } :=
        hdescends.of_forest hdescends.forest rfl
      exact isRefreshed_afterWrites _ hsent t ht

/-- **Right after every write the page is refreshed.** -/
theorem Follows.isRefreshed_writes {html : String} (hload : load html = .ok s₀)
    (h : Follows s₀ s) (network : Network) (interaction : Interaction) :
    ∀ t ∈ Call.writes { before := s, network, interaction }, IsRefreshed s₀ t := by
  have hfresh := isFresh_of_load hload
  have hdescends := hfresh.descends h
  have heffects := isRefreshed_effectWrites hfresh hdescends network interaction
  cases interaction with
  | mount =>
    rw [Call.writes]
    dsimp only
    split_ifs with hmounted
    · exact List.forall_mem_nil _
    · exact List.forall_mem_singleton.2
        (hdescends.isRefreshed_mount (Bool.eq_false_iff.2 hmounted))
  | write key value => exact List.forall_mem_singleton.2 (hdescends.isRefreshed_write _ _)
  | dispatch | enter | hover => exact heffects
  | reveal | advance | endAnimation => exact List.forall_mem_nil _

/-- **After every write the page shows its state.** Whatever was done with a page whose easings are
plain: right after it is mounted for the first time, and right after every write of a call, by the
call itself, by an effect or with an answer, done or refused, each element in the document shows the
value under its key, and is hidden just in case the value that shows it does not count as true. -/
theorem Follows.showsState {html : String} (hload : load html = .ok s₀)
    (hplain : s₀.HasPlainEasings) (h : Follows s₀ s) (network : Network)
    (interaction : Interaction) :
    ∀ t ∈ Call.writes { before := s, network, interaction }, t.ShowsState := by
  intro t ht
  obtain ⟨u, hu, rfl⟩ := h.isRefreshed_writes hload network interaction t ht
  exact showsState_refresh hu.forest.wellFormed (hasPlainEasings_of_descends hplain hu)

/-- Markup with a text that a value of the state shows and moves, and a button that writes the value
twice. -/
def board : String :=
  "<p data-ir-bind=k data-ir-show=k data-ir-motion='[\"preset\",\"spin\",null,null,\"linear\"," ++
    "\"onState\",\"k\"]'></p><button data-ir-id=b data-ir-events='[[\"click\",[]," ++
    "[[\"setState\",\"k\",1],[\"fetchJson\",\"/\",null,null,\"k\"]]]]'></button>"

/-- A network that has an answer for the button. -/
def boardNetwork : Network := .ofAnswers [("GET", "/", .str "Hi")]

/-- The click on the button after the page was mounted. -/
def boardClick (s : Session) : Call where
  before := s
  network := boardNetwork
  interaction := .dispatch "b" "click"

/-- The two writes that the click leads to. -/
theorem Follows.showsState_board : ∃ s₀ s, load board = .ok s₀ ∧ s₀.HasPlainEasings ∧
    Follows s₀ s ∧ (s.boardClick.writes.map fun t => t.shownText 1) = ["1", "Hi"] ∧
    ∀ t ∈ s.boardClick.writes, t.ShowsState := by
  obtain ⟨s₀, calls, s, hload, hcalls, hviews⟩ :=
    exists_reaches_of_view (ofList_append_append _ _ _ : board = _) boardNetwork
      [.mount] (fun s₀ s => (decide s₀.HasPlainEasings,
        s.boardClick.writes.map fun t => t.shownText 1)) (true, ["1", "Hi"]) (by decide +kernel)
  obtain ⟨hplain, htexts⟩ := Prod.mk.inj hviews
  have hplain := of_decide_eq_true hplain
  exact ⟨s₀, s, hload, hplain, hcalls.follows, htexts,
    Follows.showsState hload hplain hcalls.follows _ _⟩

end Session

end PageTree
