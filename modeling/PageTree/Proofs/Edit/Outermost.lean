import Mathlib.Algebra.BigOperators.Group.List.Basic
import PageTree.Edit.Apply
import PageTree.Proofs.Tree.Paths

/-!
# Edits of outermost matches

Replacements and insertions act on every match that they come to, and do not go on below it. So with
repeated ids they act at the outermost matches: a replacement and an insertion into a parent at the
nodes with the id that have no such node around them, an insertion beside a sibling at the nodes
that have such a child and lie in no node that has one. The path of a node in the tree as it was
decides which it is. So the tree after the edit is the old one rebuilt by a rule that sees paths and
goes everywhere, and what an edit brings in is never searched.

## Main definitions

* `Node.rebuild`: a tree rebuilt from its nodes by a rule that sees the path of each
* `Node.outermost`: the paths of the nodes where edits act
* `Node.places`: the nodes of a tree whose paths pass a test
* `Node.StopsAt`: an edit that does not go on inside what it seeks
* `Anchor.putInto`: a node with another child in a place

## Main results

* `Node.StopsAt.eq_rebuild`: an edit that stops changes the outermost places
* `Edit.applyTo_replace`, `Edit.applyTo_insert`: replacements and insertions by their places
* `Node.size_rebuild`: how many nodes a tree has after a change at its outermost places
* `Document.acts_at_outermost`: where a replacement or an insertion acts, and how many nodes there
  are afterwards
-/

namespace PageTree

namespace Node

/-! ## Rebuilding a tree -/

mutual

/-- A tree rebuilt from the inside out. The rule is given the path of a node in the tree as it was,
and the node with what is inside it rebuilt. -/
def rebuild (rule : List Node → Node → Node) (above : List Node) : Node → Node
  | node@⟨_, _, _, _, _, _, children, _⟩ =>
    rule (node :: above) { node with children := rebuildAll rule (node :: above) children }

/-- The same for several trees. -/
def rebuildAll (rule : List Node → Node → Node) (above : List Node) : List Node → List Node
  | [] => []
  | node :: nodes => rebuild rule above node :: rebuildAll rule above nodes

end

/-- The rule that changes the nodes whose paths pass a test. -/
def changeWhere (test : List Node → Bool) (change : Node → Node) (path : List Node) (node : Node) :
    Node :=
  if test path then change node else node

/-- What is sought is true of the node of the path, and of no node around it. -/
def outermost (sought : Node → Bool) : List Node → Bool
  | [] => false
  | node :: around => sought node && !around.any sought

/-- The nodes of a tree whose paths pass a test, in order. -/
def places (test : List Node → Bool) (above : List Node) (root : Node) : List Node :=
  ((root.paths above).filter test).filterMap List.head?

/-- The same for several trees, one tree after the other. -/
def placesAll (test : List Node → Bool) (above nodes : List Node) : List Node :=
  ((pathsAll above nodes).filter test).filterMap List.head?

variable {test : List Node → Bool} {change : Node → Node}

theorem rebuild_eq (rule : List Node → Node → Node) (above : List Node) (node : Node) :
    node.rebuild rule above =
      rule (node :: above)
        { node with children := rebuildAll rule (node :: above) node.children } := by
  cases node with
  | mk => rw [rebuild]

theorem placesAll_cons (above : List Node) (node : Node) (nodes : List Node) :
    placesAll test above (node :: nodes) =
      node.places test above ++ placesAll test above nodes := by
  rw [placesAll, pathsAll_cons, List.filter_append, List.filterMap_append, places, placesAll]

theorem places_of_not {node : Node} {above : List Node} (hnode : test (node :: above) = false) :
    node.places test above = placesAll test (node :: above) node.children := by
  rw [places, paths_eq, List.filter_cons_of_neg (Bool.eq_false_iff.1 hnode), placesAll]

/-- Where no path passes the test nothing changes. -/
theorem rebuildAll_of_none (nodes : List Node) : ∀ {above : List Node},
    (∀ path ∈ pathsAll above nodes, test path = false) →
      rebuildAll (changeWhere test change) above nodes = nodes := by
  induction nodes using forest_induction with
  | nil => exact fun _ => by rw [rebuildAll]
  | cons node nodes ihInside ihRest =>
    intro above h
    rw [pathsAll_cons, List.forall_mem_append, paths_eq, List.forall_mem_cons] at h
    obtain ⟨⟨hnode, hinside⟩, hrest⟩ := h
    rw [rebuildAll, rebuild_eq, changeWhere, hnode, ihRest hrest,
      withChildren_eq (ihInside hinside)]
    rfl

theorem outermost_cons {sought : Node → Bool} {above : List Node}
    (habove : above.any sought = false) (node : Node) :
    outermost sought (node :: above) = sought node := by
  rw [outermost, habove, Bool.not_false, Bool.and_true]

/-- Inside an outermost place there is no other. -/
theorem outermost_inside {sought : Node → Bool} {node : Node} {above : List Node}
    (hnode : outermost sought (node :: above) = true) (nodes : List Node) :
    ∀ path ∈ pathsAll (node :: above) nodes, outermost sought path = false := by
  intro path hpath
  obtain ⟨head, inside, rfl⟩ := exists_of_mem_pathsAll hpath
  have hsought : sought node = true := (Bool.and_eq_true_iff.1 hnode).1
  simp [outermost, hsought]

/-- An outermost place is changed as it was. -/
theorem rebuild_eq_of_outermost {sought : Node → Bool} {node : Node} {above : List Node}
    (hnode : outermost sought (node :: above) = true) :
    node.rebuild (changeWhere (outermost sought) change) above = change node := by
  rw [rebuild_eq, changeWhere, if_pos hnode,
    withChildren_eq (rebuildAll_of_none _ (outermost_inside hnode _))]

theorem places_of_outermost {sought : Node → Bool} {node : Node} {above : List Node}
    (hnode : outermost sought (node :: above) = true) :
    node.places (outermost sought) above = [node] := by
  have hinside : (pathsAll (node :: above) node.children).filter (outermost sought) = [] :=
    List.filter_eq_nil_iff.2 fun path hpath =>
      Bool.eq_false_iff.1 (outermost_inside hnode _ path hpath)
  rw [places, paths_eq, List.filter_cons_of_pos hnode, hinside]
  rfl

theorem rebuild_eq_of_not {node : Node} {above : List Node} (hnode : test (node :: above) = false) :
    node.rebuild (changeWhere test change) above =
      { node with
        children := rebuildAll (changeWhere test change) (node :: above) node.children } := by
  rw [rebuild_eq, changeWhere, hnode]
  rfl

/-! ## Edits that stop -/

/-- How an edit goes down trees: where it finds what it seeks it changes the node and does not go on
inside. -/
structure StopsAt (sought : Node → Bool) (change edit : Node → Node)
    (editAll : List Node → List Node) : Prop where
  node (node : Node) :
    edit node =
      if sought node then change node else { node with children := editAll node.children }
  nil : editAll [] = []
  cons (node : Node) (nodes : List Node) : editAll (node :: nodes) = edit node :: editAll nodes

variable {sought : Node → Bool} {edit : Node → Node} {editAll : List Node → List Node}

/-- An edit that stops changes the outermost places of a tree when it does so inside it. -/
theorem StopsAt.eq_rebuild_of_inside (h : StopsAt sought change edit editAll) {node : Node}
    {above : List Node} (habove : above.any sought = false)
    (hinside : (node :: above).any sought = false →
      editAll node.children =
        rebuildAll (changeWhere (outermost sought) change) (node :: above) node.children) :
    edit node = node.rebuild (changeWhere (outermost sought) change) above := by
  have hplace := outermost_cons habove node
  rw [h.node]
  split_ifs with hnode
  · rw [rebuild_eq_of_outermost (hplace.trans hnode)]
  · have hnot : sought node = false := Bool.eq_false_iff.2 hnode
    rw [rebuild_eq_of_not (hplace.trans hnot), hinside]
    rw [List.any_cons, hnot, habove, Bool.or_false]

theorem StopsAt.eq_rebuildAll (h : StopsAt sought change edit editAll) (nodes : List Node) :
    ∀ {above : List Node}, above.any sought = false →
      editAll nodes = rebuildAll (changeWhere (outermost sought) change) above nodes := by
  induction nodes using forest_induction with
  | nil =>
    intro above _
    rw [h.nil, rebuildAll]
  | cons node nodes ihInside ihRest =>
    intro above habove
    rw [h.cons, rebuildAll, ihRest habove, h.eq_rebuild_of_inside habove ihInside]

/-- **An edit that stops** where it finds what it seeks changes the outermost places. -/
theorem StopsAt.eq_rebuild (h : StopsAt sought change edit editAll) (root : Node) :
    edit root = root.rebuild (changeWhere (outermost sought) change) [] :=
  h.eq_rebuild_of_inside rfl (h.eq_rebuildAll root.children)

/-- The node has the id. -/
def named (id : String) (node : Node) : Bool := node.id == id

/-- The node has a child with the id. -/
def holds (id : String) (node : Node) : Bool := node.children.any (named id)

theorem updateOutermost_eq (id : String) (change : Node → Node) (node : Node) :
    node.updateOutermost id change =
      if node.id = id then change node
      else { node with children := updateOutermostAmong id change node.children } := by
  cases node with
  | mk => rw [updateOutermost]

theorem stopsAt_updateOutermost (id : String) (change : Node → Node) :
    StopsAt (named id) change (updateOutermost id change) (updateOutermostAmong id change) where
  node node := by
    rw [updateOutermost_eq]
    exact if_congr beq_iff_eq.symm rfl rfl
  nil := by rw [updateOutermostAmong]
  cons node nodes := by rw [updateOutermostAmong]

end Node

/-! ## Insertions -/

namespace Anchor

/-- Where an added node comes to stand among children. A sibling is the first child with the id. -/
def index (id : String) (children : List Node) : Anchor → Nat
  | .inside .first => 0
  | .inside .last => children.length
  | .beside .before => children.findIdx (Node.named id)
  | .beside .after => children.findIdx (Node.named id) + 1

/-- A node with another child. -/
def putInto (anchor : Anchor) (id : String) (added node : Node) : Node :=
  { node with children := node.children.insertIdx (anchor.index id node.children) added }

/-- The nodes to which an insertion gives another child: the named ones, or those with a named
child. -/
def sought (id : String) : Anchor → Node → Bool
  | .inside _ => Node.named id
  | .beside _ => Node.holds id

end Anchor

namespace Node

theorem insertInside_eq (id : String) (edge : Edge) (added : Node) :
    insertInside edge added = (Anchor.inside edge).putInto id added := by
  cases edge with
  | first => rfl
  | last =>
    funext node
    rw [Anchor.putInto, Anchor.index, List.insertIdx_length_self]
    rfl

theorem insertNextTo_eq {id : String} {side : Side} {added : Node} {nodes : List Node}
    (h : nodes.any (named id) = true) :
    insertNextTo id side added nodes =
      nodes.insertIdx ((Anchor.beside side).index id nodes) added := by
  induction nodes with
  | nil => cases h
  | cons node nodes ih =>
    simp only [insertNextTo]
    split_ifs with hid
    · have hnamed : named id node = true := beq_iff_eq.2 hid
      cases side with
      | before => rw [Anchor.index, List.findIdx_cons, hnamed]; rfl
      | after => rw [Anchor.index, List.findIdx_cons, hnamed]; rfl
    · have hnot : named id node = false := beq_eq_false_iff_ne.2 hid
      rw [List.any_cons, hnot, Bool.false_or] at h
      rw [ih h]
      cases side with
      | before => rw [Anchor.index, Anchor.index, List.findIdx_cons, hnot]; rfl
      | after => rw [Anchor.index, Anchor.index, List.findIdx_cons, hnot]; rfl

theorem stopsAt_insertBeside (id : String) (side : Side) (added : Node) :
    StopsAt (holds id) ((Anchor.beside side).putInto id added) (insertBeside id side added)
      (insertBesideAmong id side added) where
  node node := by
    rw [holds, Anchor.putInto]
    cases node with
    | mk =>
      rw [insertBeside]
      refine ite_congr rfl (fun hany => ?_) fun _ => rfl
      rw [insertNextTo_eq hany]
  nil := by rw [insertBesideAmong]
  cons node nodes := by rw [insertBesideAmong]

end Node

namespace Edit

/-- **A replacement** acts at the outermost nodes with the id. -/
theorem applyTo_replace (root : Node) (id : String) (added : Node) :
    (Edit.replace id added).applyTo root =
      root.rebuild (Node.changeWhere (Node.outermost (Node.named id)) fun _ => added) [] :=
  (Node.stopsAt_updateOutermost id _).eq_rebuild root

/-- **An insertion** acts at the outermost places that it seeks. -/
theorem applyTo_insert (root : Node) (id : String) (place : Place) (added : Node) :
    (Edit.insert id place added).applyTo root =
      root.rebuild (Node.changeWhere (Node.outermost (place.anchor.sought id))
        (place.anchor.putInto id added)) [] := by
  rw [applyTo]
  cases place.anchor with
  | inside edge =>
    have hchange := Node.insertInside_eq id edge added
    exact hchange ▸ (Node.stopsAt_updateOutermost id _).eq_rebuild root
  | beside side => exact (Node.stopsAt_insertBeside id side added).eq_rebuild root

end Edit

/-! ## How many nodes there are -/

namespace Node

variable {sought : Node → Bool} {change : Node → Node}

/-- How many nodes a tree has. -/
def size (node : Node) : Nat := node.preorder.length

/-- How many nodes several trees have. -/
def sizeAll (nodes : List Node) : Nat := (preorderAll nodes).length

theorem size_eq (node : Node) : node.size = sizeAll node.children + 1 := by
  rw [size, preorder_eq, List.length_cons, sizeAll]

theorem sizeAll_cons (node : Node) (nodes : List Node) :
    sizeAll (node :: nodes) = node.size + sizeAll nodes := by
  rw [sizeAll, preorderAll, List.length_append, size, sizeAll]

theorem sizeAll_eq_sum (nodes : List Node) : sizeAll nodes = (nodes.map size).sum := by
  induction nodes with
  | nil => rfl
  | cons node nodes ih => rw [sizeAll_cons, ih, List.map_cons, List.sum_cons]

/-- **A change at outermost places** takes out what was there and puts in what it makes of it. -/
theorem size_rebuild_of_inside {node : Node} {above : List Node}
    (hinside : sizeAll (rebuildAll (changeWhere (outermost sought) change) (node :: above)
          node.children) +
        ((placesAll (outermost sought) (node :: above) node.children).map size).sum =
      sizeAll node.children +
        ((placesAll (outermost sought) (node :: above) node.children).map fun place =>
          (change place).size).sum) :
    (node.rebuild (changeWhere (outermost sought) change) above).size +
        ((node.places (outermost sought) above).map size).sum =
      node.size +
        ((node.places (outermost sought) above).map fun place => (change place).size).sum := by
  cases hnode : outermost sought (node :: above) with
  | true =>
    rw [rebuild_eq_of_outermost hnode, places_of_outermost hnode]
    simp only [List.map_cons, List.map_nil, List.sum_singleton]
    exact Nat.add_comm _ _
  | false =>
    rw [rebuild_eq_of_not hnode, places_of_not hnode, size_eq, size_eq node, Nat.add_right_comm,
      hinside, Nat.add_right_comm]

theorem sizeAll_rebuildAll (nodes : List Node) : ∀ {above : List Node},
    sizeAll (rebuildAll (changeWhere (outermost sought) change) above nodes) +
        ((placesAll (outermost sought) above nodes).map size).sum =
      sizeAll nodes +
        ((placesAll (outermost sought) above nodes).map fun place => (change place).size).sum := by
  induction nodes using forest_induction with
  | nil =>
    intro above
    rfl
  | cons node nodes ihInside ihRest =>
    intro above
    have hnode := size_rebuild_of_inside (@ihInside (node :: above))
    have hrest := @ihRest above
    rw [rebuildAll, placesAll_cons, sizeAll_cons, sizeAll_cons]
    simp only [List.map_append, List.sum_append]
    omega

/-- **A change at the outermost places of a tree**, by how many nodes there are. -/
theorem size_rebuild (sought : Node → Bool) (change : Node → Node) (root : Node) :
    (root.rebuild (changeWhere (outermost sought) change) []).size +
        ((root.places (outermost sought) []).map size).sum =
      root.size +
        ((root.places (outermost sought) []).map fun place => (change place).size).sum :=
  size_rebuild_of_inside (sizeAll_rebuildAll root.children)

theorem sought_of_mem_places {above : List Node} {root place : Node}
    (h : place ∈ root.places (outermost sought) above) : sought place = true := by
  obtain ⟨path, hpath, hhead⟩ := List.mem_filterMap.1 h
  obtain ⟨around, rfl⟩ := List.head?_eq_some_iff.1 hhead
  exact (Bool.and_eq_true_iff.1 (List.mem_filter.1 hpath).2).1

end Node

namespace Anchor

variable {anchor : Anchor} {id : String} {added node : Node}

theorem index_le_length (h : anchor.sought id node = true) :
    anchor.index id node.children ≤ node.children.length := by
  match anchor with
  | .inside .first => exact Nat.zero_le _
  | .inside .last => exact Nat.le_refl _
  | .beside .before => exact List.findIdx_le_length
  | .beside .after => exact List.findIdx_lt_length.2 (List.any_eq_true.1 h)

theorem size_putInto (h : anchor.sought id node = true) :
    (anchor.putInto id added node).size = node.size + added.size := by
  have hperm := (List.perm_insertIdx added node.children (index_le_length h)).map Node.size
  rw [Node.size_eq, Node.size_eq node, putInto, Node.sizeAll_eq_sum, Node.sizeAll_eq_sum,
    hperm.sum_eq, List.map_cons, List.sum_cons]
  omega

end Anchor

namespace Edit

/-- **A replacement** takes out what was at its places and puts the carried node at each. -/
theorem size_applyTo_replace (root : Node) (id : String) (added : Node) :
    ((Edit.replace id added).applyTo root).size +
        ((root.places (Node.outermost (Node.named id)) []).map Node.size).sum =
      root.size + (root.places (Node.outermost (Node.named id)) []).length * added.size := by
  rw [applyTo_replace, Node.size_rebuild, List.map_const', List.sum_replicate, nsmul_eq_mul,
    Nat.cast_id]

/-- **An insertion** adds the carried node once at each of its places. -/
theorem size_applyTo_insert (root : Node) (id : String) (place : Place) (added : Node) :
    ((Edit.insert id place added).applyTo root).size =
      root.size +
        (root.places (Node.outermost (place.anchor.sought id)) []).length * added.size := by
  have hsize := Node.size_rebuild (place.anchor.sought id) (place.anchor.putInto id added) root
  have hplaces : (root.places (Node.outermost (place.anchor.sought id)) []).map
      (fun node => (place.anchor.putInto id added node).size) =
        (root.places (Node.outermost (place.anchor.sought id)) []).map
          fun node => node.size + added.size :=
    List.map_congr_left fun node hnode => Anchor.size_putInto (Node.sought_of_mem_places hnode)
  rw [hplaces, List.sum_map_add, List.map_const', List.sum_replicate, nsmul_eq_mul, Nat.cast_id,
    ← applyTo_insert] at hsize
  omega

end Edit

namespace Document

/-- **Edits act at the outermost matches**, whatever ids a document and the carried node have. A
replacement puts the carried node in the place of each node with the id that has no such node around
it. An insertion at an end gives each of these nodes another child there; an insertion beside a
sibling does so, next to the first child with the id, at each node that has such a child and lies
in no node that has one. All other nodes stay as they are around what is inside them. -/
theorem acts_at_outermost (document : Document) (id : String) (added : Node) :
    document.apply [.replace id added] =
        { document with
          app := document.app.rebuild
            (Node.changeWhere (Node.outermost (Node.named id)) fun _ => added) [] } ∧
      (document.apply [.replace id added]).app.size +
          ((document.app.places (Node.outermost (Node.named id)) []).map Node.size).sum =
        document.app.size +
          (document.app.places (Node.outermost (Node.named id)) []).length * added.size ∧
      ∀ place : Place,
        document.apply [.insert id place added] =
            { document with
              app := document.app.rebuild
                (Node.changeWhere (Node.outermost (place.anchor.sought id))
                  (place.anchor.putInto id added)) [] } ∧
          (document.apply [.insert id place added]).app.size =
            document.app.size +
              (document.app.places (Node.outermost (place.anchor.sought id)) []).length *
                added.size := by
  refine ⟨congrArg (fun app => { document with app }) (Edit.applyTo_replace document.app id added),
    Edit.size_applyTo_replace document.app id added, fun place =>
      ⟨congrArg (fun app => { document with app })
        (Edit.applyTo_insert document.app id place added),
        Edit.size_applyTo_insert document.app id place added⟩⟩

/-- One of these matches is among the children of the root, so only there one is inserted. -/
example :
    let box (id : String) (children : List Node) : Node :=
      { id, kind := Primitive.box.kind, children }
    ((Edit.insert "a" .before (box "new" [])).applyTo
      (box "root" [box "b" [box "a" []], box "a" [box "a" []], box "a" []])).ids =
        ["root", "b", "a", "new", "a", "a", "a"] := by decide +kernel

end Document

end PageTree
