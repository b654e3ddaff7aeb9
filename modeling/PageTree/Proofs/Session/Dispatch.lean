import PageTree.Proofs.Session.Nodes
import PageTree.Proofs.Tree.Node

/-!
# Events run the bindings of nodes

An event at a node runs the bindings of the innermost node around it that has any, as the document
has them: those for the event whose conditions hold when their turn comes, in order, with all of
their effects. This holds for a page that was just loaded and whatever was done with it since, as
long as the element of the node is in the document.

## Main definitions

* `Session.interpret`: what the bindings of a node do on an event
* `Session.Interprets`: events at a node run the bindings of nodes

## Main results

* `Session.Follows.interprets`
-/

namespace PageTree

/-- The numbers in the bindings of a document are read back from their text. -/
def Document.HasSteadyEvents (document : Document) : Prop :=
  ∀ node ∈ document.app.preorder, ∀ binding ∈ node.events, binding.json.Steady

instance (document : Document) : Decidable document.HasSteadyEvents :=
  inferInstanceAs (Decidable (∀ node ∈ document.app.preorder, ∀ binding ∈ node.events,
    binding.json.Steady))

namespace Session

/-! ## What bindings say -/

/-- An effect of a node with an element. A signal comes from the node. -/
def act (source : Node) (i : Nat) (s : Session) : Effect → Session
  | .emit event =>
    { s with
      signals := s.signals ++ [{ name := (stated event).getD defaultSignal
                                 source := some source.id }] }
  | effect => s.run (moveFocus focusLevels) i effect

/-- The bindings of a node with an element on an event: one after the other those for the event
whose conditions hold by then do all of their effects. The number of these effects is counted. -/
def interpret (event : String) (source : Node) (i : Nat) : List Binding → Session → Session × Nat
  | [], s => (s, 0)
  | binding :: bindings, s =>
    if binding.event = event ∧ ∀ c ∈ binding.conditions, c.holds s.state = true then
      let (s, count) := interpret event source i bindings (binding.effects.foldl (act source i) s)
      (s, binding.effects.length + count)
    else interpret event source i bindings s

/-- What a click does to an element beside running bindings. -/
def press (event : String) (target : Nat) (s : Session) : Session :=
  if event = "click" then s.moveOn .onPress target else s

/-- The end of a call: motion on a click, then the requests. -/
def close (event : String) (target : Nat) (network : Network) (ran : Session × Nat) : Outcome :=
  let (session, network) := (ran.1.press event target).settle network
  { count := ran.2, session, network }

/-- Events at the element of a node, with the nodes around it from the inside out, run the bindings
of these nodes. Without bindings nothing runs and no request is sent. -/
structure Interprets (s : Session) (i : Nat) (node : Node) (above : List Node) : Prop where
  quiet : Node.source? (node :: above) = none → ∀ event ∈ heardEvents, ∀ network,
    s.dispatch node.id event network =
      .ok { count := 0, session := (s.refocus event i).press event i, network }
  answered : ∀ source, Node.source? (node :: above) = some source →
    ∃ j, s.node? source.id = some j ∧ ∀ event ∈ heardEvents, ∀ network,
      s.dispatch node.id event network =
        .ok (close event i network (interpret event source j source.events (s.refocus event i)))

/-! ## What elements do -/

variable {s₀ s : Session} {theme : Theme}

theorem Descends.idOf?_eq (h : Descends s₀ s) (i : Nat) : s.idOf? i = s₀.idOf? i :=
  h.forest.lasting i idAttribute (by decide)

/-- The innermost element with bindings stays the same while the element is in the document. -/
theorem Descends.closest?_events (h : Descends s₀ s) (hf : s₀.forest.WellFormed) {i : Nat}
    (hi : i < s₀.forest.size) (hattached : s.forest.isAttached i = true) :
    s.forest.closest? i (fun e => OrderedMap.contains eventsAttribute e.attributes) =
      s₀.forest.closest? i fun e => OrderedMap.contains eventsAttribute e.attributes := by
  rw [Forest.closest?, Forest.closest?, h.forest.lineage hf hi hattached]
  refine List.find?_congr fun j _ => ?_
  exact congrArg Option.isSome (h.forest.lasting j eventsAttribute (by decide))

theorem run_eq_act {source : Node} {i : Nat} (h : s.idOf? i = some source.id) (effect : Effect) :
    s.run (moveFocus focusLevels) i effect = s.act source i effect := by
  cases effect with
  | emit event => rw [run, signal, h, act]
  | _ => rfl

theorem foldl_run_eq_act {source : Node} {i : Nat} (hid : s₀.idOf? i = some source.id)
    (effects : List Effect) (h : Descends s₀ s) :
    effects.foldl (run (moveFocus focusLevels) i) s = effects.foldl (act source i) s ∧
      Descends s₀ (effects.foldl (run (moveFocus focusLevels) i) s) := by
  induction effects generalizing s with
  | nil => exact ⟨rfl, h⟩
  | cons effect effects ih =>
    rw [List.foldl_cons, List.foldl_cons, ← run_eq_act ((h.idOf?_eq i).trans hid)]
    exact ih (h.run (fun i _ hs => hs.moveFocus focusLevels i) i effect)

/-- **The bindings of an element do what they say.** -/
theorem foldl_runBinding_eq_interpret {source : Node} {i : Nat} (hid : s₀.idOf? i = some source.id)
    (event : String) (bindings : List Binding) (count : Nat) (h : Descends s₀ s) :
    bindings.foldl (runBinding (moveFocus focusLevels) event i) (s, count) =
      ((interpret event source i bindings s).1,
        count + (interpret event source i bindings s).2) := by
  induction bindings generalizing s count with
  | nil => rfl
  | cons binding bindings ih =>
    rw [List.foldl_cons, runBinding, interpret]
    dsimp only
    have hiff : (binding.event = event ∧ binding.conditions.all (Condition.holds s.state) = true) ↔
        binding.event = event ∧ ∀ c ∈ binding.conditions, c.holds s.state = true := by
      rw [List.all_eq_true]
    by_cases hruns : binding.event = event ∧ ∀ c ∈ binding.conditions, c.holds s.state = true
    · obtain ⟨heffects, hdescends⟩ := foldl_run_eq_act hid binding.effects h
      rw [if_pos (hiff.2 hruns), if_pos hruns, ih _ hdescends, heffects, Nat.add_assoc]
    · rw [if_neg (mt hiff.1 hruns), if_neg hruns, ih _ h]

/-- **The bindings of an element are those of its node**, however they were written and read. -/
theorem bindings_eq {node : Node} {i : Nat} (hbears : s₀.forest.Bears theme i node)
    (hown : node.OwnSurvives false) (hsteady : ∀ binding ∈ node.events, binding.json.Steady)
    (h : Descends s₀ s) : s.bindings i = node.events := by
  rw [bindings, h.forest.lasting i eventsAttribute (by decide), hbears.attribute?_eq (by decide),
    Node.lookup_events]
  split_ifs with hempty
  · exact (List.isEmpty_iff.1 hempty).symm
  · have hlist := Survives.listOf hown.events
    have hall : (Json.arr (node.events.map Binding.json)).Steady :=
      Json.steadyItems_iff.2 fun json hjson => by
        obtain ⟨binding, hbinding, rfl⟩ := List.mem_map.1 hjson
        exact hsteady binding hbinding
    have hread : Literal.read? (Json.arr (node.events.map Binding.json)).compact =
        some (Json.arr (node.events.map Binding.json)).literal := by
      rw [Literal.read?_compact]
      exact congrArg some (Json.reread_eq_literal hall hlist.depth)
    rw [Option.bind_some, hread, Option.bind_some, hlist.back, Option.getD_some]

/-- What a call does at the element of a node. -/
theorem dispatch_eq_close {id event : String} {i : Nat} (hevent : event ∈ heardEvents)
    (hnode : s.node? id = some i) (network : Network) :
    s.dispatch id event network =
      .ok (close event i network ((s.refocus event i).runBindings event i)) := by
  rw [dispatch_of_heard (List.contains_iff_mem.2 hevent), element, hnode, Except.map, fire, close,
    press]
  split_ifs <;> rfl

theorem errands_refocus (event : String) (i : Nat) (s : Session) :
    (s.refocus event i).errands = s.errands := by
  rw [refocus]
  split_ifs <;> rfl

/-- Without requests that are due a call ends with the motion on a click. -/
theorem close_of_no_errands (event : String) (i : Nat) (network : Network)
    (h : s.errands = []) (count : Nat) :
    close event i network (s, count) = { count, session := s.press event i, network } := by
  have hpress : (s.press event i).errands = [] := by
    rw [press]
    split_ifs
    · exact (errands_moveOn ..).trans h
    · exact h
  rw [close, settle_of_no_errands network hpress]

/-! ## Pages in use -/

theorem Shows.interprets_dispatch {document : Document} (h : s₀.Shows theme document)
    (hids : document.ids.Nodup) (hown : ∀ n ∈ document.app.preorder, n.OwnSurvives false)
    (hsteady : document.HasSteadyEvents) (hrests : Rests s₀ s) {node : Node} {above : List Node}
    (htrail : node :: above ∈ document.app.trails theme []) :
    ∃ i, s.node? node.id = some i ∧
      (s.forest.isAttached i = true → s.Interprets i node above) := by
  obtain ⟨i, hi, hmarked, hbears⟩ := h.exists_of_mem_trails htrail
  obtain ⟨around, haround⟩ := h.marks_eq_cons hi hmarked
  have hself := hbears
  rw [haround, List.forall₂_cons] at hself
  have hnode := (Session.node?_eq hrests.descends node.id).trans
    (h.node?_eq hids hi hself.1.id_eq)
  refine ⟨i, hnode, fun hattached => ?_⟩
  have hlt := Forest.lt_size_of_mem_preorder h.wellFormed hi
  have hrefocused (event : String) := hrests.descends.refocus event i
  have hsame (event : String) : (s.refocus event i).forest.closest? i
      (fun e => OrderedMap.contains eventsAttribute e.attributes) =
      s₀.forest.closest? i fun e => OrderedMap.contains eventsAttribute e.attributes := by
    refine (hrefocused event).closest?_events h.wellFormed hlt ?_
    rw [refocus]
    split_ifs <;> exact hattached
  rcases h.closest?_events hi hbears with ⟨hfound, hnone⟩ | ⟨j, source, hfound, hsome, hsource⟩
  · refine ⟨fun _ event hevent network => ?_, fun source hsome => ?_⟩
    · have hran : (s.refocus event i).runBindings event i = (s.refocus event i, 0) := by
        rw [runBindings, runBindingsWith, hsame, hfound]
      rw [dispatch_eq_close hevent hnode, hran,
        close_of_no_errands event i network ((errands_refocus event i s).trans hrests.errands)]
    · rw [hnone] at hsome
      cases hsome
  · refine ⟨fun hnone => ?_, fun source' hsome' => ?_⟩
    · rw [hsome] at hnone
      cases hnone
    · obtain rfl : source = source' := Option.some.inj (hsome.symm.trans hsome')
      have hmem : j ∈ s₀.forest.lineage i := List.mem_of_find?_eq_some hfound
      have hin : source ∈ document.app.preorder :=
        (Node.mem_of_mem_trails htrail source (List.mem_of_find?_eq_some hsome)).resolve_left
          List.not_mem_nil
      have hid := h.node?_eq hids (h.mem_preorder_of_mem_lineage hi hmem) hsource.id_eq
      refine ⟨j, (Session.node?_eq hrests.descends source.id).trans hid, ?_⟩
      intro event hevent network
      have hran : (s.refocus event i).runBindings event i =
          interpret event source j source.events (s.refocus event i) := by
        rw [runBindings, runBindingsWith, hsame, hfound]
        dsimp only
        rw [bindings_eq hsource (hown source hin) (hsteady source hin) (hrefocused event),
          foldl_runBinding_eq_interpret hsource.id_eq event source.events 0 (hrefocused event),
          Nat.zero_add]
      rw [dispatch_eq_close hevent hnode, hran]

/-- **Events run the bindings of nodes**: in a page that was loaded from the text of a document with
distinct ids, after any calls, each node whose element is in the document answers each event that
pages listen to by what the bindings of the innermost node around it that has any say, as they
stand in the document. -/
theorem Follows.interprets {defaults : PageDefaults} {text : String} {document : Document}
    (hread : Document.read? text = some document) (hids : document.ids.Nodup)
    (hreadable : document.IsReadable) (hsteady : document.HasSteadyEvents)
    (hload : load (document.html theme defaults) = .ok s₀) (hfollows : Follows s₀ s) {node : Node}
    {above : List Node} (htrail : node :: above ∈ document.app.trails theme []) :
    ∃ i, s.node? node.id = some i ∧
      (s.forest.isAttached i = true → s.Interprets i node above) := by
  have hshows := shows_of_load hreadable hload
  exact hshows.interprets_dispatch hids (Document.ownSurvives_of_read? hread) hsteady
    (hfollows.rests hshows.wellFormed hshows.errands) htrail

/-- A node without bindings. -/
def bulb : Node := { id := "bulb", kind := Primitive.text.kind, text := some "o" }

/-- A node whose bindings answer the events at the node inside. -/
def socket : Node where
  id := "socket"
  kind := Primitive.stack.kind
  events := [{ event := "click", effects := [.emit (some "lit")] }]
  children := [bulb]

/-- A document with both. -/
def lamp : Document where
  version := formatVersion
  app := { id := "app", kind := Primitive.app.kind, children := [socket] }

theorem read?_lamp : Document.read? lamp.compact = some lamp := by
  have hread : Document.read lamp.json.literal = some lamp := rfl
  have hliteral := Json.reread_eq_literal (by decide : lamp.json.Steady)
    (by decide : lamp.json.depth ≤ maxDepth)
  rw [Document.read?, Document.compact, Literal.read?_compact, hliteral]
  exact hread

theorem trails_lamp : [bulb, socket, lamp.app] ∈ lamp.app.trails .minimal [] := by
  have htag : ∀ kind ∈ [Primitive.app.kind, Primitive.stack.kind],
      isVoid (Theme.minimal.opening kind []).tag = false := by decide
  have happ := htag _ (List.mem_cons_self ..)
  have hsocket := htag Primitive.stack.kind (by simp)
  simp only [lamp, socket, Node.trails, Node.trailsAll, happ, hsocket, Bool.false_eq_true, if_false]
  simp [bulb, Node.trails]

/-- The page of the lamp answers the events at the bulb by the bindings of the socket. -/
theorem Follows.interprets_lamp : ∃ s, load (lamp.html .minimal {}) = .ok s ∧
    ∃ i, s.node? bulb.id = some i ∧ s.Interprets i bulb [socket, lamp.app] := by
  have hreadable : lamp.IsReadable := ⟨by decide +kernel, by decide +kernel⟩
  obtain ⟨s, hload⟩ : ∃ s, load (lamp.html .minimal {}) = .ok s :=
    ⟨_, load_of_stateless hreadable (by decide +kernel)⟩
  have hshows := shows_of_load hreadable hload
  obtain ⟨i, hnode, hinterprets⟩ := Follows.interprets read?_lamp (by decide) hreadable
    (by decide +kernel) hload .start trails_lamp
  have hattached := Forest.isAttached_of_mem_preorder hshows.wellFormed
    (hshows.mem_preorder_of_node? hnode)
  exact ⟨s, hload, i, hnode, hinterprets hattached⟩

end Session

end PageTree
