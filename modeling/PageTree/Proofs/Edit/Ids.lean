import PageTree.Proofs.Diagnosis.Check
import PageTree.Proofs.Edit.FirstMatch

/-!
# Edits that keep ids distinct

Replacing and inserting act on every match, so a batch can repeat ids. It does not when the ids are
distinct before and each tree that comes in has distinct ids that are new at its turn: new to the
whole tree for an insertion, and to what stays for a replacement. With distinct ids an edit meets at
most one node, and what it leaves is, up to order, the ids that came in and the ids that stayed.

## Main definitions

* `Node.idsOutside`: the ids of a tree outside of what a replacement takes out
* `Edit.IsFresh`: what an edit brings into a tree is new to it

## Main results

* `Node.perm_updateOutermost`, `Node.perm_insertBeside`: the ids after an edit of one place
* `Edit.nodup_ids_applyTo`: one edit keeps ids distinct
* `Document.nodup_ids_apply`: so does a batch, and the check reports no repeated id
-/

namespace PageTree

namespace Node

/-! ## Ids outside -/

mutual

/-- The ids of a tree outside of the trees under nodes with an id, in pre-order. -/
def idsOutside (id : String) : Node → List String
  | node@⟨_, _, _, _, _, _, children, _⟩ =>
    if node.id = id then [] else node.id :: idsOutsideAll id children

/-- The same for several trees. -/
def idsOutsideAll (id : String) : List Node → List String
  | [] => []
  | node :: nodes => idsOutside id node ++ idsOutsideAll id nodes

end

/-! ## Updates -/

/-- A change of a node that leaves its ids alone leaves those of a tree alone. -/
theorem ids_updateFirst {id : String} {change : Node → Node}
    (hchange : ∀ node, (change node).ids = node.ids) (node : Node) :
    (node.updateFirst id change).ids = node.ids := by
  have hall {nodes updated : List Node} (h : UpdatesFirst id change nodes updated) :
      idsAll updated = idsAll nodes := by
    induction h with
    | here hid => rw [idsAll_cons, idsAll_cons, hchange]
    | inside hid hinside ih => rw [idsAll_cons, idsAll_cons, ids_eq, ids_eq, ih]
    | behind hid hrest ih => rw [idsAll_cons, idsAll_cons, ih]
  obtain ⟨-, hsame⟩ | hupdates := updateFirst_cases id change node
  · rw [hsame]
  · have h := hall hupdates
    rwa [idsAll_cons, idsAll_cons, idsAll_nil, List.append_nil, List.append_nil] at h

/-! ## Replacing and inserting inside -/

mutual

theorem updateOutermost_of_not_mem {id : String} (change : Node → Node) : ∀ {node : Node},
    id ∉ node.ids → node.updateOutermost id change = node ∧ node.idsOutside id = node.ids
  | ⟨_, _, _, _, _, _, children, _⟩, h => by
    rw [ids_eq, List.mem_cons, not_or] at h
    obtain ⟨hinside, houtside⟩ := updateOutermostAmong_of_not_mem change h.2
    rw [updateOutermost, if_neg (Ne.symm h.1), idsOutside, if_neg (Ne.symm h.1), ids_eq, hinside,
      houtside]
    exact ⟨rfl, rfl⟩

theorem updateOutermostAmong_of_not_mem {id : String} (change : Node → Node) :
    ∀ {nodes : List Node}, id ∉ idsAll nodes →
      updateOutermostAmong id change nodes = nodes ∧ idsOutsideAll id nodes = idsAll nodes
  | [], _ => ⟨rfl, rfl⟩
  | node :: nodes, h => by
    rw [idsAll_cons, List.mem_append, not_or] at h
    obtain ⟨hnode, hnodeOut⟩ := updateOutermost_of_not_mem change h.1
    obtain ⟨hnodes, hnodesOut⟩ := updateOutermostAmong_of_not_mem change h.2
    rw [updateOutermostAmong, idsOutsideAll, hnode, hnodes, hnodeOut, hnodesOut, idsAll_cons]
    exact ⟨rfl, rfl⟩

end

/-- A tree with distinct ids is, up to order, the tree under the node with an id and the rest; a
change there leaves the rest alone. -/
def ChangesOne (id : String) (change : Node → Node) (ids changed outside : List String) : Prop :=
  ∃ inner : Node, inner.id = id ∧ ids.Perm (inner.ids ++ outside) ∧
    changed.Perm ((change inner).ids ++ outside)

mutual

theorem perm_updateOutermost {id : String} (change : Node → Node) : ∀ {node : Node},
    node.ids.Nodup → id ∈ node.ids →
      ChangesOne id change node.ids (node.updateOutermost id change).ids (node.idsOutside id)
  | ⟨id', kind, props, style, events, motion, children, text⟩, hnodup, hmem => by
    rw [updateOutermost, idsOutside]
    split_ifs with hid
    · exact ⟨_, hid, by rw [List.append_nil], by rw [List.append_nil]⟩
    · rw [ids_eq] at hnodup hmem
      have hinside := (List.mem_cons.1 hmem).resolve_left (Ne.symm hid)
      obtain ⟨inner, hinner, hold, hnew⟩ := perm_updateOutermostAmong change
        (List.nodup_cons.1 hnodup).2 hinside
      rw [ids_eq, ids_eq]
      exact ⟨inner, hinner, (hold.cons _).trans List.perm_middle.symm,
        (hnew.cons _).trans List.perm_middle.symm⟩

theorem perm_updateOutermostAmong {id : String} (change : Node → Node) : ∀ {nodes : List Node},
    (idsAll nodes).Nodup → id ∈ idsAll nodes →
      ChangesOne id change (idsAll nodes) (idsAll (updateOutermostAmong id change nodes))
        (idsOutsideAll id nodes)
  | [], _, hmem => by cases hmem
  | node :: nodes, hnodup, hmem => by
    rw [idsAll_cons] at hnodup hmem
    obtain ⟨hnode, hnodes, hapart⟩ := List.nodup_append.1 hnodup
    rw [updateOutermostAmong, idsOutsideAll, idsAll_cons, idsAll_cons]
    -- ids are distinct, so the node is in the first tree or behind it, and the other part stays
    by_cases hfirst : id ∈ node.ids
    · have hrest : id ∉ idsAll nodes := fun h => hapart id hfirst id h rfl
      obtain ⟨hsame, houtside⟩ := updateOutermostAmong_of_not_mem change hrest
      obtain ⟨inner, hinner, hold, hnew⟩ := perm_updateOutermost change hnode hfirst
      rw [hsame, houtside]
      refine ⟨inner, hinner, ?_, ?_⟩
      · rw [← List.append_assoc]
        exact hold.append_right _
      · rw [← List.append_assoc]
        exact hnew.append_right _
    · obtain ⟨hsame, houtside⟩ := updateOutermost_of_not_mem change hfirst
      obtain ⟨inner, hinner, hold, hnew⟩ := perm_updateOutermostAmong change hnodes
        ((List.mem_append.1 hmem).resolve_left hfirst)
      rw [hsame, houtside]
      exact ⟨inner, hinner, (hold.append_left _).trans (List.perm_append_comm_assoc ..),
        (hnew.append_left _).trans (List.perm_append_comm_assoc ..)⟩

end

theorem perm_insertInside (edge : Edge) (added node : Node) :
    (insertInside edge added node).ids.Perm (added.ids ++ node.ids) := by
  cases edge with
  | first =>
    rw [insertInside, ids_eq, idsAll_cons, ids_eq node]
    exact List.perm_middle.symm
  | last =>
    rw [insertInside, ids_eq, idsAll_append, idsAll_cons, idsAll_nil, List.append_nil, ids_eq node]
    exact (List.perm_append_comm.cons _).trans List.perm_middle.symm

/-! ## Deleting -/

mutual

theorem ids_delete_sublist {id : String} : ∀ {node : Node}, (node.delete id).ids.Sublist node.ids
  | ⟨_, _, _, _, _, _, children, _⟩ => by
    rw [delete, ids_eq, ids_eq]
    exact idsAll_deleteAmong_sublist.cons_cons _

theorem idsAll_deleteAmong_sublist {id : String} : ∀ {nodes : List Node},
    (idsAll (deleteAmong id nodes)).Sublist (idsAll nodes)
  | [] => .slnil
  | node :: nodes => by
    rw [deleteAmong, idsAll_cons]
    split_ifs
    · exact idsAll_deleteAmong_sublist.trans (List.sublist_append_right ..)
    · rw [idsAll_cons]
      exact ids_delete_sublist.append idsAll_deleteAmong_sublist

end

/-! ## Inserting beside -/

theorem perm_insertNextTo {id : String} {side : Side} {added : Node} {nodes : List Node}
    (h : nodes.any (·.id == id) = true) :
    (idsAll (insertNextTo id side added nodes)).Perm (added.ids ++ idsAll nodes) := by
  induction nodes with
  | nil => cases h
  | cons node nodes ih =>
    simp only [insertNextTo]
    rw [idsAll_cons]
    split_ifs with hid
    · cases side with
      | before => rw [idsAll_cons, idsAll_cons]
      | after =>
        rw [idsAll_cons, idsAll_cons]
        exact List.perm_append_comm_assoc ..
    · have hrest : nodes.any (·.id == id) = true := by simpa [hid] using h
      rw [idsAll_cons]
      exact ((ih hrest).append_left _).trans (List.perm_append_comm_assoc ..)

theorem any_eq_false_of_not_mem {id : String} {nodes : List Node} (h : id ∉ idsAll nodes) :
    nodes.any (·.id == id) = false := by
  rw [List.any_eq_false]
  intro node hnode hid
  refine h (List.mem_map.2 ⟨node, mem_preorderAll.2 ⟨node, hnode, ?_⟩, by simpa using hid⟩)
  rw [preorder_eq]
  exact List.mem_cons_self ..

mutual

theorem insertBeside_of_not_mem {id : String} {side : Side} {added : Node} : ∀ {node : Node},
    id ∉ node.ids → insertBeside id side added node = node
  | ⟨_, _, _, _, _, _, children, _⟩, h => by
    rw [ids_eq, List.mem_cons, not_or] at h
    rw [insertBeside, any_eq_false_of_not_mem h.2, insertBesideAmong_of_not_mem h.2]
    rfl

theorem insertBesideAmong_of_not_mem {id : String} {side : Side} {added : Node} :
    ∀ {nodes : List Node}, id ∉ idsAll nodes → insertBesideAmong id side added nodes = nodes
  | [], _ => rfl
  | node :: nodes, h => by
    rw [idsAll_cons, List.mem_append, not_or] at h
    rw [insertBesideAmong, insertBeside_of_not_mem h.1, insertBesideAmong_of_not_mem h.2]

end

mutual

/-- With distinct ids a node is inserted beside one sibling or none. -/
theorem perm_insertBeside (id : String) (side : Side) (added : Node) : ∀ {node : Node},
    node.ids.Nodup → insertBeside id side added node = node ∨
      (insertBeside id side added node).ids.Perm (added.ids ++ node.ids)
  | ⟨id', kind, props, style, events, motion, children, text⟩, hnodup => by
    rw [ids_eq] at hnodup
    rw [insertBeside]
    split_ifs with hany
    · refine .inr ?_
      rw [ids_eq, ids_eq ⟨id', _, _, _, _, _, _, _⟩]
      exact ((perm_insertNextTo hany).cons _).trans List.perm_middle.symm
    · rcases perm_insertBesideAmong id side added (List.nodup_cons.1 hnodup).2 with
        hsame | hperm
      · rw [hsame]
        exact .inl rfl
      · refine .inr ?_
        rw [ids_eq, ids_eq ⟨id', _, _, _, _, _, _, _⟩]
        exact (hperm.cons _).trans List.perm_middle.symm

theorem perm_insertBesideAmong (id : String) (side : Side) (added : Node) : ∀ {nodes : List Node},
    (idsAll nodes).Nodup → insertBesideAmong id side added nodes = nodes ∨
      (idsAll (insertBesideAmong id side added nodes)).Perm (added.ids ++ idsAll nodes)
  | [], _ => .inl rfl
  | node :: nodes, hnodup => by
    rw [idsAll_cons] at hnodup
    obtain ⟨hnode, hnodes, hapart⟩ := List.nodup_append.1 hnodup
    rw [insertBesideAmong, idsAll_cons, idsAll_cons]
    -- as for an update: one part has the node, if any has
    by_cases hfirst : id ∈ node.ids
    · have hrest : id ∉ idsAll nodes := fun h => hapart id hfirst id h rfl
      rw [insertBesideAmong_of_not_mem hrest]
      refine (perm_insertBeside id side added hnode).imp (fun hsame => by rw [hsame])
        fun hperm => ?_
      rw [← List.append_assoc]
      exact hperm.append_right _
    · rw [insertBeside_of_not_mem hfirst]
      exact (perm_insertBesideAmong id side added hnodes).imp (fun hsame => by rw [hsame])
        fun hperm => (hperm.append_left _).trans (List.perm_append_comm_assoc ..)

end

end Node

/-! ## Edits -/

namespace Edit

/-- What an edit brings into a tree has distinct ids that are new: to the whole tree for an
insertion, to what stays of it for a replacement. Other edits bring no nodes. -/
def IsFresh (root : Node) : Edit → Prop
  | .insert _ _ node => node.ids.Nodup ∧ ∀ id ∈ node.ids, id ∉ root.ids
  | .replace target node => node.ids.Nodup ∧ ∀ id ∈ node.ids, id ∉ root.idsOutside target
  | .updateProps .. | .updateStyle .. | .updateText .. | .delete _ | .addEvent .. | .removeEvent ..
  | .updateAnimation .. => True

instance (root : Node) : (edit : Edit) → Decidable (edit.IsFresh root)
  | .insert _ _ node =>
    inferInstanceAs (Decidable (node.ids.Nodup ∧ ∀ id ∈ node.ids, id ∉ root.ids))
  | .replace target node =>
    inferInstanceAs (Decidable (node.ids.Nodup ∧ ∀ id ∈ node.ids, id ∉ root.idsOutside target))
  | .updateProps .. | .updateStyle .. | .updateText .. | .delete _ | .addEvent .. | .removeEvent ..
  | .updateAnimation .. => .isTrue trivial

/-- Distinct ids that are new to others make distinct ids with them. -/
theorem nodup_of_perm {ids added kept : List String} (hperm : ids.Perm (added ++ kept))
    (hadded : added.Nodup) (hkept : kept.Nodup) (hnew : ∀ id ∈ added, id ∉ kept) : ids.Nodup :=
  hperm.nodup_iff.2 (List.nodup_append.2
    ⟨hadded, hkept, fun id hid _ hother heq => hnew id hid (heq ▸ hother)⟩)

theorem nodup_ids_replace {target : String} {root node : Node} (h : root.ids.Nodup)
    (hnode : node.ids.Nodup) (hnew : ∀ id ∈ node.ids, id ∉ root.idsOutside target) :
    (root.updateOutermost target fun _ => node).ids.Nodup := by
  by_cases hmem : target ∈ root.ids
  · obtain ⟨inner, -, hold, hreplaced⟩ := Node.perm_updateOutermost (fun _ => node) h hmem
    have hkept : (root.idsOutside target).Nodup :=
      (List.nodup_append.1 (hold.nodup_iff.1 h)).2.1
    exact nodup_of_perm hreplaced hnode hkept hnew
  · rw [(Node.updateOutermost_of_not_mem _ hmem).1]
    exact h

theorem nodup_ids_insertInside {target : String} {edge : Edge} {root node : Node}
    (h : root.ids.Nodup) (hnode : node.ids.Nodup) (hnew : ∀ id ∈ node.ids, id ∉ root.ids) :
    (root.updateOutermost target (Node.insertInside edge node)).ids.Nodup := by
  by_cases hmem : target ∈ root.ids
  · obtain ⟨inner, -, hold, hinserted⟩ :=
      Node.perm_updateOutermost (Node.insertInside edge node) h hmem
    have hperm := hinserted.trans ((Node.perm_insertInside edge node inner).append_right _)
    rw [List.append_assoc] at hperm
    exact nodup_of_perm (hperm.trans (hold.symm.append_left _)) hnode h hnew
  · rw [(Node.updateOutermost_of_not_mem _ hmem).1]
    exact h

theorem nodup_ids_insertBeside {target : String} {side : Side} {root node : Node}
    (h : root.ids.Nodup) (hnode : node.ids.Nodup) (hnew : ∀ id ∈ node.ids, id ∉ root.ids) :
    (Node.insertBeside target side node root).ids.Nodup := by
  rcases Node.perm_insertBeside target side node h with hsame | hperm
  · rw [hsame]
    exact h
  · exact nodup_of_perm hperm hnode h hnew

/-- **An edit keeps ids distinct** when what it brings in is fresh. -/
theorem nodup_ids_applyTo {edit : Edit} {root : Node} (h : root.ids.Nodup)
    (hfresh : edit.IsFresh root) : (edit.applyTo root).ids.Nodup := by
  have hupdated {target : String} {change : Node → Node}
      (hchange : ∀ node, (change node).ids = node.ids) :
      (root.updateFirst target change).ids.Nodup := by
    rw [Node.ids_updateFirst hchange]
    exact h
  have hsame {node changed : Node} (hid : changed.id = node.id)
      (hchildren : changed.children = node.children) : changed.ids = node.ids := by
    rw [Node.ids_eq, Node.ids_eq, hid, hchildren]
  cases edit with
  | updateProps | updateStyle | updateText | addEvent | removeEvent | updateAnimation =>
    exact hupdated fun node => hsame rfl rfl
  | replace target node => exact nodup_ids_replace h hfresh.1 hfresh.2
  | delete target => exact h.sublist Node.ids_delete_sublist
  | insert target place node =>
    rw [applyTo]
    cases place.anchor with
    | inside edge => exact nodup_ids_insertInside h hfresh.1 hfresh.2
    | beside side => exact nodup_ids_insertBeside h hfresh.1 hfresh.2

end Edit

/-! ## Repeated ids among findings -/

/-- How the check begins to report a repeated id. -/
def repeatedIdStart : String := "Duplicate node ID: \""

/-- What the check says of a repeated id. -/
def repeatedIdMessage (id : String) : String := repeatedIdStart ++ id ++ "\""

theorem ne_repeatedIdMessage {text : String} (h : ¬repeatedIdStart.toList <+: text.toList)
    (id : String) : text ≠ repeatedIdMessage id := by
  rintro rfl
  refine h ?_
  rw [repeatedIdMessage, String.append_assoc, String.toList_append]
  exact List.prefix_append ..

/-- A text that starts differently does not report a repeated id. -/
theorem append_ne_repeatedIdMessage {start : String}
    (h : ¬start.toList <+: repeatedIdStart.toList ∧ ¬repeatedIdStart.toList <+: start.toList)
    (rest id : String) : start ++ rest ≠ repeatedIdMessage id := by
  refine ne_repeatedIdMessage (fun hprefix => ?_) id
  rw [String.toList_append] at hprefix
  exact (List.prefix_or_prefix_of_prefix hprefix (List.prefix_append ..)).elim h.2 h.1

theorem mem_findingIf {condition : Bool} {finding d : Diagnostic} :
    d ∈ findingIf condition finding ↔ condition = true ∧ d = finding := by
  cases condition <;> simp [findingIf]

theorem message_bindingFindings {path : String} {binding : Binding} :
    ∀ d ∈ bindingFindings path binding, ∀ id, d.message ≠ repeatedIdMessage id := by
  intro d hd id
  rw [bindingFindings, List.mem_append, mem_findingIf, mem_findingIf] at hd
  rcases hd with ⟨-, rfl⟩ | ⟨-, rfl⟩
  · exact ne_repeatedIdMessage (by dsimp only [errorAt]; decide) id
  · exact ne_repeatedIdMessage (by dsimp only [warningAt]; decide) id

theorem message_nodeFindings {earlier : List String} {node : Node} {path : String}
    (hnew : node.id ∉ earlier) :
    ∀ d ∈ nodeFindings earlier node path, ∀ id, d.message ≠ repeatedIdMessage id := by
  intro d hd id
  have hcount : earlier.count node.id ≠ 1 := by
    rw [List.count_eq_zero_of_not_mem hnew]
    decide
  simp only [nodeFindings, List.mem_append, mem_findingIf, List.mem_flatMap, decide_eq_true_eq,
    hcount, false_and, false_or] at hd
  rcases hd with ⟨-, rfl⟩ | ⟨binding, -, hbinding⟩
  · rw [errorAt, String.append_assoc]
    exact append_ne_repeatedIdMessage (by decide) _ id
  · exact message_bindingFindings d hbinding id

/-- The walk over a tree with distinct ids reports no repeated id. -/
theorem message_treeFindings {earlier : List String} {nodes : List (Node × String)}
    (h : ((nodes.map fun p => p.1.id).reverse ++ earlier).Nodup) :
    ∀ d ∈ treeFindings earlier nodes, ∀ id, d.message ≠ repeatedIdMessage id := by
  -- the walk puts each id in front of those it saw earlier, so the hypothesis carries the induction
  induction nodes generalizing earlier with
  | nil => nofun
  | cons p nodes ih =>
    obtain ⟨node, path⟩ := p
    rw [List.map_cons, List.reverse_cons, List.append_assoc, List.singleton_append] at h
    have hnew := (List.nodup_cons.1 (List.nodup_append.1 h).2.1).1
    intro d hd
    rw [treeFindings, List.mem_append] at hd
    exact hd.elim (message_nodeFindings hnew d) (ih h d)

theorem message_targetFindings {ids : List String} {path : String} {effect : Effect} :
    ∀ d ∈ targetFindings ids path effect, ∀ id, d.message ≠ repeatedIdMessage id := by
  intro d hd id
  rw [targetFindings] at hd
  split at hd
  · cases hd
  · obtain ⟨-, rfl⟩ := mem_findingIf.1 hd
    rw [errorAt, String.append_assoc]
    exact append_ne_repeatedIdMessage (by decide) _ id

theorem message_nodeTargetFindings {ids : List String} {node : Node} {path : String} :
    ∀ d ∈ nodeTargetFindings ids node path, ∀ id, d.message ≠ repeatedIdMessage id := by
  intro d hd
  obtain ⟨binding, -, hd⟩ := List.mem_flatMap.1 hd
  obtain ⟨effect, -, hd⟩ := List.mem_flatMap.1 hd
  exact message_targetFindings d hd

theorem message_moduleFindings {earlier : List String} {m : Module} {path : String} :
    ∀ d ∈ moduleFindings earlier m path, ∀ id, d.message ≠ repeatedIdMessage id := by
  intro d hd id
  rw [moduleFindings, List.mem_append, mem_findingIf, List.mem_flatMap] at hd
  rcases hd with ⟨-, rfl⟩ | ⟨pattern, -, hpattern⟩
  · rw [errorAt, String.append_assoc]
    exact append_ne_repeatedIdMessage (by decide) _ id
  · obtain ⟨-, rfl⟩ := mem_findingIf.1 hpattern
    rw [warningAt, String.append_assoc, String.append_assoc]
    exact append_ne_repeatedIdMessage (by decide) _ id

theorem message_modulesFindings {earlier : List String} {index : Nat} {modules : List Module} :
    ∀ d ∈ modulesFindings earlier index modules, ∀ id, d.message ≠ repeatedIdMessage id := by
  induction modules generalizing earlier index with
  | nil => nofun
  | cons m modules ih =>
    intro d hd
    rw [modulesFindings, List.mem_append] at hd
    exact hd.elim (message_moduleFindings d) (ih d)

namespace Document

/-- **The check reports no repeated id** where ids are distinct. -/
theorem message_diagnostics {document : Document} (h : document.ids.Nodup) :
    ∀ d ∈ document.diagnostics, ∀ id, d.message ≠ repeatedIdMessage id := by
  have hids : (document.app.located "app").map (fun p => p.1.id) = document.ids := by
    rw [ids, Node.ids, ← Node.map_fst_located "app", List.map_map]
    rfl
  intro d hd
  simp only [diagnostics, List.mem_append, List.mem_flatMap] at hd
  rcases hd with (hd | ⟨p, -, hd⟩) | hd
  · refine message_treeFindings ?_ d hd
    rw [hids, List.append_nil, List.nodup_reverse]
    exact h
  · exact message_nodeTargetFindings d hd
  · exact message_modulesFindings d hd

/-! ## Batches -/

theorem apply_append (document : Document) (edits others : List Edit) :
    document.apply (edits ++ others) = (document.apply edits).apply others :=
  List.foldl_append

/-- Distinct ids stay distinct at every turn of a batch whose edits are fresh at their turns. -/
theorem nodup_ids_take {document : Document} {edits : List Edit} (h : document.ids.Nodup)
    (hfresh : ∀ i (_ : i < edits.length),
      edits[i].IsFresh (document.apply (edits.take i)).app) :
    ∀ n ≤ edits.length, (document.apply (edits.take n)).ids.Nodup := by
  intro n
  induction n with
  | zero => exact fun _ => h
  | succ n ih =>
    intro hn
    have hturn := Edit.nodup_ids_applyTo (ih (Nat.le_of_succ_le hn)) (hfresh n hn)
    rw [List.take_succ_eq_append_getElem hn, apply_append]
    exact hturn

/-- **Edits with fresh ids keep ids distinct.** In a document with distinct ids, whatever edits a
batch has and whether or not they find their targets: if what each edit brings in is fresh at its
turn, then the ids are distinct afterwards, and the check reports no repeated id. -/
theorem nodup_ids_apply {document : Document} {edits : List Edit} (h : document.ids.Nodup)
    (hfresh : ∀ i (_ : i < edits.length),
      edits[i].IsFresh (document.apply (edits.take i)).app) :
    (document.apply edits).ids.Nodup ∧
      ∀ d ∈ (document.apply edits).diagnostics, ∀ id, d.message ≠ repeatedIdMessage id := by
  have hids := nodup_ids_take h hfresh edits.length (Nat.le_refl _)
  rw [List.take_length] at hids
  exact ⟨hids, message_diagnostics hids⟩

/-- A document with a card in a grid and a footer. -/
def gallery : Document where
  version := formatVersion
  app := {
    id := "app"
    kind := Primitive.app.kind
    children := [
      { id := "grid"
        kind := Primitive.grid.kind
        children := [{ id := "card", kind := Primitive.card.kind }] },
      { id := "footer", kind := Primitive.text.kind }] }

/-- Edits of all kinds. A replacement brings back ids of what it replaces, an insertion an id that
was deleted before, and two edits find nothing. -/
def rearrangement : List Edit := [
  .replace "grid" {
    id := "card"
    kind := Primitive.stack.kind
    children := [{ id := "grid", kind := Primitive.box.kind }] },
  .insert "footer" .before { id := "note", kind := Primitive.text.kind },
  .insert "card" .append { id := "icon", kind := Primitive.icon.kind },
  .delete "note",
  .insert "nowhere" .after { id := "note", kind := Primitive.text.kind },
  .insert "grid" .prepend { id := "note", kind := Primitive.text.kind },
  .updateProps "footer" [("size", .str "sm")], .updateStyle "icon" {}, .updateText "gone" "x",
  .addEvent "icon" { event := "click" }, .removeEvent "icon" 3,
  .updateAnimation "icon" (.ofPreset .spin)]

theorem nodup_ids_apply_rearrangement :
    gallery.ids.Nodup ∧
      (∀ i (_ : i < rearrangement.length),
        rearrangement[i].IsFresh (gallery.apply (rearrangement.take i)).app) ∧
      (gallery.apply rearrangement).ids = ["app", "card", "grid", "note", "icon", "footer"] ∧
      (gallery.apply rearrangement).ids.Nodup ∧
      ∀ d ∈ (gallery.apply rearrangement).diagnostics, ∀ id, d.message ≠ repeatedIdMessage id := by
  have hnodup : gallery.ids.Nodup := by decide
  have hfresh : ∀ i (_ : i < rearrangement.length),
      rearrangement[i].IsFresh (gallery.apply (rearrangement.take i)).app := by decide +kernel
  exact ⟨hnodup, hfresh, by decide +kernel, nodup_ids_apply hnodup hfresh⟩

end Document

end PageTree
