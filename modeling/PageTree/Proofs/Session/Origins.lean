import PageTree.Proofs.Session.Nodes
import PageTree.Proofs.Tree.Reread

/-!
# Where bindings and motion come from

What the elements of a page say to the script of the page is what the nodes of its document say:
elements of nodes have the attributes of their nodes, and other elements have none that the script
reads. So the bindings and the motion of a page that was just loaded are read from the texts of
bindings and motions of nodes.

## Main results

* `Session.exists_node_of_attribute?`: what an element says, a node says
* `Session.exists_effect_of_load`, `Session.exists_motion_of_load`: effects and motions are read
  from those of nodes
-/

namespace PageTree

namespace Session

open Forest Record

variable {theme : Theme} {defaults : PageDefaults} {document : Document} {s : Session} {i : Nat}

/-- Outside of the document no element has attributes. -/
theorem attribute?_of_not_mem_preorder (hi : i ∉ (document.forest theme defaults).preorder)
    (name : String) : (document.forest theme defaults).attribute? i name = none := by
  rw [Document.forest, preorder_ofOutlines, List.mem_range'_1] at hi
  by_cases hroot : i = rootIndex
  · rw [hroot, Forest.attribute?, Document.forest, get_root_ofOutlines]
    rfl
  · have hout : (document.forest theme defaults).size ≤ i := by
      rw [Document.forest, size_ofOutlines]
      rw [rootIndex] at hroot
      omega
    rw [Forest.attribute?, get_of_size_le hout]
    rfl

theorem forest_of_load (h : document.IsReadable)
    (hload : load (document.html theme defaults) = .ok s) :
    s.forest = document.forest theme defaults := by
  rw [load_html theme defaults h] at hload
  obtain ⟨state, -, rfl⟩ := exists_of_map_eq_ok hload
  rfl

/-- **What an element says to the script of its page, a node of the document says.** -/
theorem exists_node_of_attribute? (h : document.IsReadable)
    (hload : load (document.html theme defaults) = .ok s) {name value : String}
    (hname : name ∈ wireNames) (hvalue : s.forest.attribute? i name = some value) :
    ∃ node ∈ document.app.preorder, node.ownAttributes.lookup name = some value := by
  have hshows := shows_of_load h hload
  by_cases hi : i ∈ s.forest.preorder
  · cases hmarked : s.forest.isMarked i with
    | true =>
      obtain ⟨node, hnode, hbears⟩ := hshows.exists_bears hi hmarked
      exact ⟨node, hnode, (hbears.attribute?_eq hname).symm.trans hvalue⟩
    | false =>
      rw [hshows.silent i hi hmarked name hname] at hvalue
      cases hvalue
  · rw [forest_of_load h hload] at hi hvalue
    rw [attribute?_of_not_mem_preorder hi] at hvalue
    cases hvalue

/-- **The effects of a page** are read from the texts of the effects of its document. -/
theorem exists_effect_of_load (h : document.IsReadable)
    (hload : load (document.html theme defaults) = .ok s) {binding' : Binding}
    (hbinding : binding' ∈ s.bindings i) {effect' : Effect} (heffect : effect' ∈ binding'.effects) :
    ∃ node ∈ document.app.preorder, ∃ binding ∈ node.events, ∃ effect ∈ binding.effects, ∃ d,
      Effect.read false (effect.json.reread d) = some effect' := by
  rw [bindings] at hbinding
  cases hvalue : s.forest.attribute? i eventsAttribute with
  | none =>
    rw [hvalue] at hbinding
    cases hbinding
  | some value =>
    obtain ⟨node, hnode, hown⟩ := exists_node_of_attribute? h hload (by decide) hvalue
    rw [Node.lookup_events] at hown
    split_ifs at hown
    obtain rfl := Option.some.inj hown
    rw [hvalue, Option.bind_some, Literal.read?_compact, Option.bind_some] at hbinding
    cases hread : listOf (Binding.read false)
        ((Json.arr (node.events.map Binding.json)).reread maxDepth) with
    | none =>
      rw [hread] at hbinding
      cases hbinding
    | some bindings =>
      rw [hread] at hbinding
      obtain ⟨binding, hmem, hread⟩ := exists_of_listOf_reread hread binding' hbinding
      obtain ⟨effect, hin, d, hread⟩ := Binding.exists_effect_of_reread hread effect' heffect
      exact ⟨node, hnode, binding, hmem, effect, hin, d, hread⟩

/-- **The motion of an element** plays the preset of a node. -/
theorem exists_motion_of_load (h : document.IsReadable)
    (hload : load (document.html theme defaults) = .ok s) {motion' : Motion}
    (hmotion : s.motion? i = some motion') :
    ∃ node ∈ document.app.preorder, ∃ motion, node.motion = some motion ∧
      motion'.preset? = motion.preset? := by
  rw [motion?] at hmotion
  obtain ⟨literal, hliteral, hread⟩ := Option.bind_eq_some_iff.1 hmotion
  obtain ⟨value, hvalue, hliteral⟩ := Option.bind_eq_some_iff.1 hliteral
  obtain ⟨node, hnode, hown⟩ := exists_node_of_attribute? h hload (by decide) hvalue
  rw [Node.lookup_motion] at hown
  obtain ⟨motion, hnodeMotion, rfl⟩ := Option.map_eq_some_iff.1 hown
  rw [Literal.read?_compact] at hliteral
  obtain rfl := Option.some.inj hliteral
  exact ⟨node, hnode, motion, hnodeMotion, Motion.preset?_of_reread hread⟩

end Session

end PageTree
