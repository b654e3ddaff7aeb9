import PageTree.Proofs.Edit.Deleting
import PageTree.Proofs.Edit.Ids
import PageTree.Proofs.Edit.Outermost

/-!
# Edits splice

In pre-order a node and its descendants are one block. With distinct ids a deletion, a replacement
or an insertion puts other lines in the place of the block of the node that it names, or beside it,
and keeps what is in front and behind. The block depends on the tree and the id alone, so one
induction finds it, for all edits that find a node the same way.

## Main definitions

* `Node.ActsAt`: a change of trees that finds the node with an id where it is
* `Node.IsBlock`: the place of a node and its descendants in pre-order
* `Document.Splices`: what each edit makes of the block of a node

## Main results

* `Node.exists_isBlock`: the block of the node with an id
* `Document.exists_splices`: deletions, replacements and insertions splice
-/

namespace PageTree

namespace Node

/-! ## Finding a node -/

/-- How a change of trees with distinct ids finds the node with an id: it puts trees in the place of
the node, goes inside the tree that has the node, and passes the trees in front. -/
structure ActsAt (id : String) (put : Node → List Node) (change : List Node → List Node) :
    Prop where
  here {node : Node} {nodes : List Node} : node.id = id → id ∉ idsAll nodes →
    change (node :: nodes) = put node ++ nodes
  inside {node : Node} {nodes : List Node} : node.id ≠ id → id ∉ idsAll nodes →
    change (node :: nodes) = { node with children := change node.children } :: nodes
  behind {node : Node} {nodes : List Node} : id ∉ node.ids →
    change (node :: nodes) = node :: change nodes

/-- A node and its descendants are one block of what several trees list, and a change that finds the
node leaves what is in front and behind. -/
def IsBlock (above nodes : List Node) (node : Node) (around : List Node)
    (front back : List (List Node)) : Prop :=
  ∀ put change, ActsAt node.id put change →
    lineagesAll above (change nodes) = front ++ lineagesAll around (put node) ++ back

/-- **The block of a node.** Among trees with distinct ids an id that is there names one. -/
theorem exists_isBlock {id : String} (nodes : List Node) : ∀ {above : List Node},
    (idsAll nodes).Nodup → id ∈ idsAll nodes →
      ∃ node around front back, node.id = id ∧ node :: around ∈ pathsAll above nodes ∧
        IsBlock above nodes node around front back := by
  induction nodes using forest_induction with
  | nil => exact nofun
  | cons node nodes ihInside ihRest =>
    intro above hnodup hmem
    rw [idsAll_cons] at hnodup hmem
    obtain ⟨hnode, hnodes, hapart⟩ := List.nodup_append.1 hnodup
    rw [pathsAll_cons, paths_eq]
    by_cases hrest : id ∈ idsAll nodes
    · have hfirst : id ∉ node.ids := fun h => hapart id h id hrest rfl
      obtain ⟨found, around, front, back, rfl, hpath, hblock⟩ := @ihRest above hnodes hrest
      refine ⟨found, around, node.lineages above ++ front, back, rfl,
        List.mem_append_right _ hpath, fun put change h => ?_⟩
      rw [h.behind hfirst, lineagesAll_cons, hblock put change h]
      simp only [List.append_assoc]
    by_cases hid : node.id = id
    · refine ⟨node, above, [], lineagesAll above nodes, hid,
        List.mem_append_left _ (List.mem_cons_self ..), fun put change h => ?_⟩
      rw [h.here rfl (hid ▸ hrest), lineagesAll_append, List.nil_append]
    · rw [ids_eq] at hnode hmem
      have hinside : id ∈ idsAll node.children :=
        (List.mem_cons.1 ((List.mem_append.1 hmem).resolve_right hrest)).resolve_left (Ne.symm hid)
      obtain ⟨found, around, front, back, rfl, hpath, hblock⟩ :=
        @ihInside (node :: above) (List.nodup_cons.1 hnode).2 hinside
      refine ⟨found, around, (node :: above).map own :: front, back ++ lineagesAll above nodes, rfl,
        List.mem_append_left _ (List.mem_cons_of_mem _ hpath), fun put change h => ?_⟩
      rw [h.inside hid hrest, lineagesAll_cons, lineages_withChildren, hblock put change h]
      simp only [List.cons_append, List.append_assoc]

/-! ## Edits find a node -/

variable {id : String}

theorem id_ne_of_not_mem {node : Node} (h : id ∉ node.ids) : node.id ≠ id := by
  rintro rfl
  exact h (by rw [ids_eq]; exact List.mem_cons_self ..)

/-- Changing nothing. -/
theorem actsAt_self : ActsAt id (fun node => [node]) fun nodes => nodes where
  here _ _ := rfl
  inside _ _ := congrArg (· :: _) (withChildren_eq rfl).symm
  behind _ := rfl

theorem deleteAmong_of_not_mem (nodes : List Node) :
    id ∉ idsAll nodes → deleteAmong id nodes = nodes := by
  induction nodes using forest_induction with
  | nil => exact fun _ => by rw [deleteAmong]
  | cons node nodes ihInside ihRest =>
    intro h
    rw [idsAll_cons, List.mem_append, not_or, ids_eq, List.mem_cons, not_or] at h
    obtain ⟨⟨hid, hinside⟩, hrest⟩ := h
    rw [deleteAmong, if_neg (Ne.symm hid), delete_eq, ihRest hrest,
      withChildren_eq (ihInside hinside)]

/-- A deletion does nothing when no node below the root has the id. -/
theorem delete_of_not_mem_inside {node : Node} (h : id ∉ idsAll node.children) :
    node.delete id = node := by
  rw [delete_eq, withChildren_eq (deleteAmong_of_not_mem _ h)]

theorem not_mem_inside {node : Node} (h : id ∉ node.ids) : id ∉ idsAll node.children := by
  rw [ids_eq] at h
  exact mt (List.mem_cons_of_mem _) h

theorem actsAt_deleteAmong : ActsAt id (fun _ => []) (deleteAmong id) where
  here hid hrest := by
    rw [deleteAmong, if_pos hid, deleteAmong_of_not_mem _ hrest, List.nil_append]
  inside hid hrest := by
    rw [deleteAmong, if_neg hid, delete_eq, deleteAmong_of_not_mem _ hrest]
  behind h := by
    rw [deleteAmong, if_neg (id_ne_of_not_mem h), delete_of_not_mem_inside (not_mem_inside h)]

theorem actsAt_updateOutermostAmong (change : Node → Node) :
    ActsAt id (fun node => [change node]) (updateOutermostAmong id change) where
  here hid hrest := by
    rw [updateOutermostAmong, updateOutermost_eq, if_pos hid,
      (updateOutermostAmong_of_not_mem change hrest).1]
    rfl
  inside hid hrest := by
    rw [updateOutermostAmong, updateOutermost_eq, if_neg hid,
      (updateOutermostAmong_of_not_mem change hrest).1]
  behind h := by
    rw [updateOutermostAmong, (updateOutermost_of_not_mem change h).1]

/-- Two siblings in the order that a side says. -/
def pairUp (side : Side) (added node : Node) : List Node :=
  match side with
  | .before => [added, node]
  | .after => [node, added]

/-- The children of a node after an insertion beside one of its descendants. -/
def insertAmong (id : String) (side : Side) (added : Node) (nodes : List Node) : List Node :=
  if nodes.any (·.id == id) then insertNextTo id side added nodes
  else insertBesideAmong id side added nodes

theorem insertBeside_eq_withChildren (side : Side) (added node : Node) :
    insertBeside id side added node =
      { node with children := insertAmong id side added node.children } := by
  rw [insertAmong]
  cases node with
  | mk =>
    rw [insertBeside]
    split_ifs <;> rfl

theorem insertAmong_of_not_any {side : Side} {added : Node} {nodes : List Node}
    (h : nodes.any (·.id == id) = false) :
    insertAmong id side added nodes = insertBesideAmong id side added nodes := by
  rw [insertAmong, h]
  rfl

/-- Nothing is inserted beside a sibling when no node below the root has its id. -/
theorem insertBeside_of_not_mem_inside {side : Side} {added node : Node}
    (h : id ∉ idsAll node.children) : insertBeside id side added node = node := by
  rw [insertBeside_eq_withChildren, insertAmong_of_not_any (any_eq_false_of_not_mem h),
    withChildren_eq (insertBesideAmong_of_not_mem h)]

theorem actsAt_insertAmong (side : Side) (added : Node) :
    ActsAt id (pairUp side added) (insertAmong id side added) where
  here {node nodes} hid _ := by
    rw [insertAmong, List.any_cons, beq_iff_eq.2 hid]
    simp only [insertNextTo, if_pos hid]
    cases side with
    | before => rfl
    | after => rfl
  inside {node nodes} hid hrest := by
    have hany : (node :: nodes).any (·.id == id) = false := by
      rw [List.any_cons, beq_eq_false_iff_ne.2 hid, any_eq_false_of_not_mem hrest, Bool.or_false]
    rw [insertAmong_of_not_any hany, insertBesideAmong, insertBesideAmong_of_not_mem hrest,
      insertBeside_eq_withChildren]
  behind {node nodes} h := by
    have hid := id_ne_of_not_mem h
    rw [insertAmong, List.any_cons, beq_eq_false_iff_ne.2 hid, Bool.false_or, insertAmong,
      insertBesideAmong, insertBeside_of_not_mem h]
    simp only [insertNextTo, if_neg hid]
    split_ifs <;> rfl

/-! ## The lines of a node after an insertion into it -/

theorem lineages_insertInside_first (above : List Node) (added node : Node) :
    (insertInside .first added node).lineages above =
      (node :: above).map own ::
        (added.lineages (node :: above) ++ lineagesAll (node :: above) node.children) := by
  rw [insertInside, lineages_withChildren, lineagesAll_cons]

theorem lineages_insertInside_last (above : List Node) (added node : Node) :
    (insertInside .last added node).lineages above =
      node.lineages above ++ added.lineages (node :: above) := by
  rw [insertInside, lineages_withChildren, lineagesAll_append, lineagesAll_singleton,
    lineages_eq above, List.cons_append]

end Node

namespace Document

/-- The edit changes the tree and nothing else, and these are the lineages of the tree then. -/
def Lists (document : Document) (edit : Edit) (lines : List (List Node)) : Prop :=
  ∃ app, document.apply [edit] = { document with app } ∧ app.lineages [] = lines

/-- The lines of a tree are those of a node and its descendants between others, and what each edit
that names the node puts in their place. -/
structure Splices (document : Document) (node : Node) (around : List Node)
    (front back : List (List Node)) : Prop where
  block : document.app.lineages [] = front ++ node.lineages around ++ back
  delete : node.id ≠ document.app.id → document.Lists (.delete node.id) (front ++ back)
  replace (replacement : Node) : document.Lists (.replace node.id replacement)
    (front ++ replacement.lineages around ++ back)
  /-- An added first child comes right behind its parent. -/
  prepend (added : Node) : document.Lists (.insert node.id .prepend added)
    (front ++ (node :: around).map Node.own :: (added.lineages (node :: around) ++
      Node.lineagesAll (node :: around) node.children) ++ back)
  /-- An added last child comes right behind the descendants of its parent. -/
  append (added : Node) : document.Lists (.insert node.id .append added)
    (front ++ (node.lineages around ++ added.lineages (node :: around)) ++ back)
  before (added : Node) : node.id ≠ document.app.id →
    document.Lists (.insert node.id .before added)
      (front ++ (added.lineages around ++ node.lineages around) ++ back)
  after (added : Node) : node.id ≠ document.app.id →
    document.Lists (.insert node.id .after added)
      (front ++ (node.lineages around ++ added.lineages around) ++ back)
  /-- Nothing stands beside the root. -/
  beside_root (added : Node) : node.id = document.app.id →
    document.apply [.insert node.id .before added] = document ∧
      document.apply [.insert node.id .after added] = document

variable {document : Document} {node : Node} {around : List Node} {front back : List (List Node)}

theorem lists_of_isBlock (hblock : Node.IsBlock [] [document.app] node around front back)
    {put : Node → List Node} {change : List Node → List Node}
    (hacts : Node.ActsAt node.id put change) (edit : Edit)
    (hroot : change [document.app] = [edit.applyTo document.app]) :
    document.Lists edit (front ++ Node.lineagesAll around (put node) ++ back) := by
  refine ⟨_, rfl, ?_⟩
  rw [← Node.lineagesAll_singleton, ← hroot, hblock put change hacts]

theorem lists_delete (hblock : Node.IsBlock [] [document.app] node around front back)
    (hnode : node.id ≠ document.app.id) :
    document.Lists (.delete node.id) (front ++ back) := by
  have hroot : Node.deleteAmong node.id [document.app] = [document.app.delete node.id] := by
    rw [Node.deleteAmong, if_neg hnode.symm, Node.deleteAmong]
  have hcut := lists_of_isBlock hblock Node.actsAt_deleteAmong (.delete node.id) hroot
  rwa [Node.lineagesAll_nil, List.append_nil] at hcut

theorem lists_update (hblock : Node.IsBlock [] [document.app] node around front back)
    (change : Node → Node) {edit : Edit}
    (hedit : edit.applyTo document.app = document.app.updateOutermost node.id change) :
    document.Lists edit (front ++ (change node).lineages around ++ back) := by
  rw [← Node.lineagesAll_singleton]
  refine lists_of_isBlock hblock (Node.actsAt_updateOutermostAmong change) edit ?_
  rw [hedit, Node.updateOutermostAmong, Node.updateOutermostAmong]

theorem lists_insertBeside (hblock : Node.IsBlock [] [document.app] node around front back)
    (hnode : node.id ≠ document.app.id) (side : Side) (added : Node) {edit : Edit}
    (hedit : edit.applyTo document.app = Node.insertBeside node.id side added document.app) :
    document.Lists edit
      (front ++ Node.lineagesAll around (Node.pairUp side added node) ++ back) := by
  have hany : [document.app].any (·.id == node.id) = false := by
    rw [List.any_cons, beq_eq_false_iff_ne.2 hnode.symm, List.any_nil, Bool.or_false]
  refine lists_of_isBlock hblock (Node.actsAt_insertAmong side added) edit ?_
  rw [hedit, Node.insertAmong_of_not_any hany, Node.insertBesideAmong, Node.insertBesideAmong]

theorem insertBeside_root (hids : document.ids.Nodup) (side : Side) (added : Node) :
    Node.insertBeside document.app.id side added document.app = document.app := by
  have hinside : document.app.id ∉ Node.idsAll document.app.children := by
    rw [ids, Node.ids_eq] at hids
    exact (List.nodup_cons.1 hids).1
  exact Node.insertBeside_of_not_mem_inside hinside

theorem splices_of_isBlock (hids : document.ids.Nodup)
    (hblock : Node.IsBlock [] [document.app] node around front back) :
    document.Splices node around front back where
  block := by
    have hself := hblock _ _ Node.actsAt_self
    rwa [Node.lineagesAll_singleton, Node.lineagesAll_singleton] at hself
  delete := lists_delete hblock
  replace replacement := lists_update hblock (fun _ => replacement) rfl
  prepend added := by
    rw [← Node.lineages_insertInside_first]
    exact lists_update hblock _ rfl
  append added := by
    rw [← Node.lineages_insertInside_last]
    exact lists_update hblock _ rfl
  before added hnode := by
    rw [← Node.lineagesAll_singleton _ node, ← Node.lineagesAll_cons]
    exact lists_insertBeside hblock hnode .before added rfl
  after added hnode := by
    rw [← Node.lineagesAll_singleton _ added, ← Node.lineagesAll_cons]
    exact lists_insertBeside hblock hnode .after added rfl
  beside_root added hnode := by
    rw [hnode]
    exact ⟨congrArg (fun app => { document with app }) (insertBeside_root hids .before added),
      congrArg (fun app => { document with app }) (insertBeside_root hids .after added)⟩

/-- **Edits splice.** In a document with distinct ids each id that is there names one node. The node
and its descendants are one block in pre-order, and deletions, replacements and insertions that name
the node keep what is listed in front of the block and behind it, each node with all its fields and
with the nodes around it, whatever ids the node has that they bring in. -/
theorem exists_splices {id : String} (hids : document.ids.Nodup) (hmem : id ∈ document.ids) :
    ∃ node around front back, node.id = id ∧ node :: around ∈ document.app.paths [] ∧
      document.Splices node around front back := by
  have hall : Node.idsAll [document.app] = document.ids := by
    rw [Node.idsAll_cons, Node.idsAll_nil, List.append_nil, ids]
  -- the root too is a tree among others, so that it needs no case of its own
  obtain ⟨node, around, front, back, hid, hpath, hblock⟩ :=
    @Node.exists_isBlock id [document.app] [] (hall ▸ hids) (hall ▸ hmem)
  rw [Node.pathsAll_cons, Node.pathsAll_nil, List.append_nil] at hpath
  exact ⟨node, around, front, back, hid, hpath, splices_of_isBlock hids hblock⟩

/-- A document with distinct ids. -/
def orchard : Document where
  version := formatVersion
  app := {
    id := "app"
    kind := Primitive.app.kind
    children := [
      { id := "card"
        kind := Primitive.card.kind
        children := [{ id := "note", kind := Primitive.text.kind }] },
      { id := "box", kind := Primitive.box.kind }] }

theorem exists_splices_orchard :
    (orchard.ids.Nodup ∧ "card" ∈ orchard.ids) ∧
      ∃ node around front back, node.id = "card" ∧ node :: around ∈ orchard.app.paths [] ∧
        orchard.Splices node around front back := by
  have hids : orchard.ids.Nodup := by decide +kernel
  have hmem : "card" ∈ orchard.ids := by decide +kernel
  exact ⟨⟨hids, hmem⟩, exists_splices hids hmem⟩

/-- What is brought in is not searched, though it has the id that the edit names. -/
example : (orchard.apply [.insert "card" .after
      { id := "row"
        kind := Primitive.box.kind
        children := [{ id := "card", kind := Primitive.card.kind }] }]).ids =
    ["app", "card", "note", "row", "card", "box"] := by decide +kernel

end Document

end PageTree
