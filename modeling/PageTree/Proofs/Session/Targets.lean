import PageTree.Proofs.Diagnosis.Check
import PageTree.Proofs.Session.Nodes
import PageTree.Proofs.Tree.Paths

/-!
# What checked targets lead to

The check lets an effect point at any node of the tree, and the page has elements for the nodes
outside of void elements. So a target that the check accepts names one node, and it leads to the
element of that node just when no node around it has a void element.

## Main definitions

* `Node.isVoid`: a node whose element is void

## Main results

* `Node.mem_trails_iff`: the nodes that have elements are those with no void element around them
* `Session.Shows.node?_of_path`: the id of a node leads to its element or, inside a void element,
  to none
* `Session.resolves_target`: what a target leads to that the check accepts
-/

namespace PageTree

namespace Node

/-- The element of the node is void: whatever is inside the node has no elements. -/
def isVoid (theme : Theme) (node : Node) : Bool :=
  PageTree.isVoid (theme.opening node.kind node.props).tag

variable {theme : Theme}

mutual

/-- **The nodes that have elements** are those with no void element around them. -/
theorem mem_trails_iff : ∀ {node : Node} {above trail : List Node},
    (∀ n ∈ above, n.isVoid theme = false) →
      (trail ∈ node.trails theme above ↔
        trail ∈ node.paths above ∧ ∀ n ∈ trail.tail, n.isVoid theme = false)
  | ⟨id, kind, props, style, events, motion, children, text⟩, above, trail, habove => by
    rw [trails, paths, List.mem_cons, List.mem_cons, or_and_right]
    refine or_congr (iff_self_and.2 ?_) ?_
    · rintro rfl
      exact habove
    · cases hvoid : PageTree.isVoid (theme.opening kind props).tag with
      | true =>
        rw [if_pos rfl]
        refine iff_of_false List.not_mem_nil fun ⟨hpath, hnone⟩ => ?_
        obtain ⟨head, inside, rfl⟩ := exists_of_mem_pathsAll hpath
        have hself := hnone _ (List.mem_append_right inside (List.mem_cons_self ..))
        exact Bool.false_ne_true (hself.symm.trans hvoid)
      | false =>
        rw [if_neg Bool.false_ne_true]
        exact mem_trailsAll_iff (List.forall_mem_cons.2 ⟨hvoid, habove⟩)

theorem mem_trailsAll_iff : ∀ {nodes : List Node} {above trail : List Node},
    (∀ n ∈ above, n.isVoid theme = false) →
      (trail ∈ trailsAll theme above nodes ↔
        trail ∈ pathsAll above nodes ∧ ∀ n ∈ trail.tail, n.isVoid theme = false)
  | [], _, _, _ => by
    rw [trailsAll, pathsAll]
    simp
  | node :: nodes, above, trail, habove => by
    rw [trailsAll, pathsAll, List.mem_append, List.mem_append, mem_trails_iff habove,
      mem_trailsAll_iff habove, or_and_right]

end

end Node

namespace Session

variable {theme : Theme} {document : Document} {s : Session}

/-- **The id of a node** outside of void elements leads to its element. -/
theorem Shows.node?_of_path (h : s.Shows theme document) (hids : document.ids.Nodup) {aim : Node}
    {around : List Node} (hpath : aim :: around ∈ document.app.paths [])
    (hcontent : ∀ n ∈ around, n.isVoid theme = false) :
    ∃ i ∈ s.forest.preorder, s.node? aim.id = some i ∧
      List.Forall₂ (s.forest.Bears theme) (s.forest.marks i) (aim :: around) := by
  have htrail : aim :: around ∈ document.app.trails theme [] :=
    (Node.mem_trails_iff (List.forall_mem_nil _)).2 ⟨hpath, hcontent⟩
  obtain ⟨i, hi, hmarked, hbears⟩ := h.exists_of_mem_trails htrail
  obtain ⟨marks, hmarks⟩ := h.marks_eq_cons hi hmarked
  have hself : s.forest.Bears theme i aim := by
    rw [hmarks] at hbears
    cases hbears with
    | cons hself _ => exact hself
  exact ⟨i, hi, h.node?_eq hids hi hself.id_eq, hbears⟩

/-- **The id of a node inside a void element** leads nowhere. -/
theorem Shows.node?_eq_none (h : s.Shows theme document) (hids : document.ids.Nodup) {aim : Node}
    {around : List Node} (hpath : aim :: around ∈ document.app.paths [])
    (hvoid : ∃ n ∈ around, n.isVoid theme = true) : s.node? aim.id = none := by
  rw [Option.eq_none_iff_forall_ne_some]
  intro i hnode
  have hi := h.mem_preorder_of_node? hnode
  rw [node?, h.nodes, lookup_nodeTable] at hnode
  have hid : s.forest.attribute? i idAttribute = some aim.id := by
    simpa using List.find?_some hnode
  have hmarked : s.forest.isMarked i = true := by
    rw [Forest.isMarked, Forest.hasAttribute, hid]
    rfl
  obtain ⟨marks, hmarks⟩ := h.marks_eq_cons hi hmarked
  obtain ⟨trail, htrail, -, hbears⟩ :=
    exists_of_forall₂ h.marked_and (List.mem_filter.2 ⟨hi, hmarked⟩)
  rw [hmarks] at hbears
  -- The element bears a node with the id, which is the one of the path, so nothing around is void.
  cases hbears with
  | cons hself _ =>
    obtain ⟨htrail, hcontent⟩ := (Node.mem_trails_iff (List.forall_mem_nil _)).1 htrail
    have hsame := Node.eq_of_mem_paths hids htrail hpath (hself.id_eq.symm.trans hid)
    obtain ⟨n, hn, hvoid⟩ := hvoid
    rw [hsame] at hcontent
    exact Bool.false_ne_true ((hcontent n hn).symm.trans hvoid)

/-- **What a checked target leads to.** In a document that the check finds no error in, a target
names one node of the tree. On the page that is loaded from its text the target leads to the
element of that node, unless there is a void element around the node. Then the node has no element,
and the target leads nowhere. -/
theorem resolves_target {defaults : PageDefaults} (hreadable : document.IsReadable)
    (hsound : hasErrors document.diagnostics = false)
    (hload : load (document.html theme defaults) = .ok s) {node : Node}
    (hnode : node ∈ document.app.preorder) {binding : Binding} (hbinding : binding ∈ node.events)
    {effect : Effect} (heffect : effect ∈ binding.effects) {target : String}
    (htarget : effect.PointsAt target) (hnamed : target ≠ "") :
    ∃ aim around, aim :: around ∈ document.app.paths [] ∧ aim.id = target ∧
      (∀ path ∈ document.app.paths [], path.head?.map Node.id = some target →
        path = aim :: around) ∧
      ((∀ n ∈ around, n.isVoid theme = false) → ∃ i ∈ s.forest.preorder,
        s.node? target = some i ∧
          List.Forall₂ (s.forest.Bears theme) (s.forest.marks i) (aim :: around)) ∧
      ((∃ n ∈ around, n.isVoid theme = true) → s.node? target = none) := by
  have hsound := Document.hasErrors_diagnostics_eq_false_iff.1 hsound
  have hshows := shows_of_load hreadable hload
  have hmem : target ∈ document.ids :=
    hsound.targets node hnode binding hbinding effect heffect target htarget hnamed
  obtain ⟨aim, haim, rfl⟩ := List.mem_map.1 hmem
  obtain ⟨around, hpath⟩ := Node.exists_path haim []
  exact ⟨aim, around, hpath, rfl,
    fun path hmem hid => Node.eq_of_mem_paths hsound.ids hmem hpath hid,
    hshows.node?_of_path hsound.ids hpath, hshows.node?_eq_none hsound.ids hpath⟩

/-- A text behind a rule: the element of the rule is void. -/
def note : Node := { id := "note", kind := Primitive.text.kind, text := some "Terms apply." }

/-- The rule. -/
def rule : Node := { id := "rule", kind := Primitive.divider.kind, children := [note] }

/-- A text that stands free. -/
def hint : Node := { id := "hint", kind := Primitive.text.kind, text := some "Press for terms." }

/-- A button that switches both texts. -/
def switch : Node where
  id := "switch"
  kind := Primitive.button.kind
  events := [{ event := "click", effects := [.toggle (some "hint"), .toggle (some "note")] }]

/-- A document with all of them. -/
def terms : Document where
  version := formatVersion
  app := { id := "app", kind := Primitive.app.kind, children := [switch, hint, rule] }

theorem load_terms : terms.IsReadable ∧ hasErrors terms.diagnostics = false ∧
    ∃ s, load (terms.html .minimal {}) = .ok s := by
  have hreadable : terms.IsReadable := ⟨by decide, by decide⟩
  exact ⟨hreadable, by decide, _, load_of_stateless hreadable (by decide)⟩

theorem paths_terms : terms.app.paths [] = [[terms.app], [switch, terms.app], [hint, terms.app],
    [rule, terms.app], [note, rule, terms.app]] := rfl

/-- The button of the terms switches the text that stands free. -/
theorem resolves_target_hint : ∃ s, load (terms.html .minimal {}) = .ok s ∧
    ∃ i ∈ s.forest.preorder, s.node? "hint" = some i := by
  obtain ⟨hreadable, hsound, s, hload⟩ := load_terms
  have hswitch : switch ∈ terms.app.preorder := .tail _ (.head _)
  obtain ⟨aim, around, hpath, hid, hunique, hresolves, -⟩ :=
    resolves_target hreadable hsound hload hswitch (.head _) (.head _) (.toggle "hint") (by decide)
  have hhint : [hint, terms.app] ∈ terms.app.paths [] := by
    rw [paths_terms]
    exact .tail _ (.tail _ (.head _))
  obtain ⟨-, rfl⟩ := List.cons.inj (hunique _ hhint rfl)
  obtain ⟨i, hi, hnode, -⟩ := hresolves (by decide +kernel)
  exact ⟨s, hload, i, hi, hnode⟩

/-- **Not every checked target leads to an element**: the button of the terms points at a text
inside a void element. -/
theorem not_forall_resolves : ¬ ∀ (theme : Theme) (defaults : PageDefaults) (document : Document)
    (s : Session), document.IsReadable → hasErrors document.diagnostics = false →
      load (document.html theme defaults) = .ok s → ∀ node ∈ document.app.preorder,
        ∀ binding ∈ node.events, ∀ effect ∈ binding.effects, ∀ target, effect.PointsAt target →
          target ≠ "" → ∃ i, s.node? target = some i := by
  intro h
  obtain ⟨hreadable, hsound, s, hload⟩ := load_terms
  have hswitch : switch ∈ terms.app.preorder := .tail _ (.head _)
  obtain ⟨i, hnode⟩ := h .minimal {} terms s hreadable hsound hload switch hswitch _ (.head _) _
    (.tail _ (.head _)) "note" (.toggle "note") (by decide)
  have hpath : [note, rule, terms.app] ∈ terms.app.paths [] := by
    rw [paths_terms]
    exact .tail _ (.tail _ (.tail _ (.tail _ (.head _))))
  have hvoid : rule.isVoid .minimal = true := by decide +kernel
  have hnone : s.node? "note" = none :=
    (shows_of_load hreadable hload).node?_eq_none (by decide) hpath ⟨rule, .head _, hvoid⟩
  cases hnone.symm.trans hnode

end Session

end PageTree
