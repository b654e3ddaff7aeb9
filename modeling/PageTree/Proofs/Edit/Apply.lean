import PageTree.Proofs.Edit.Basic
import PageTree.Proofs.Edit.FirstMatch
import PageTree.Proofs.Tree.Document

/-!
# What edits keep

A property of the fields of a node other than its children holds everywhere in a tree after an
edit when it held everywhere before and holds of what the edit brings in: every edit puts the tree
together again from its nodes. In this way nodes stay such that their fields are read back.

## Main definitions

* `Node.Everywhere`: all nodes of a tree have a property

## Main results

* `Node.everywhere_updateFirst`, `Node.everywhere_updateOutermost`, `Node.everywhere_delete`,
  `Node.everywhere_insertBeside`: one lemma for each way to change a tree
* `Edit.everywhere_applyTo`: fields that are read back stay so under an edit
* `Document.everywhere_apply`: and under a batch
-/

namespace PageTree

namespace Node

/-- All nodes of a tree have a property. -/
def Everywhere (P : Node → Prop) (node : Node) : Prop := ∀ n ∈ node.preorder, P n

variable {P : Node → Prop}

theorem everywhere_iff {node : Node} :
    node.Everywhere P ↔ P node ∧ ∀ child ∈ node.children, child.Everywhere P := by
  rw [Everywhere, preorder_eq, List.forall_mem_cons]
  refine and_congr_right fun _ => ⟨fun h child hchild n hn => ?_, fun h n hn => ?_⟩
  · exact h n (mem_preorderAll.2 ⟨child, hchild, hn⟩)
  · obtain ⟨child, hchild, hn⟩ := mem_preorderAll.1 hn
    exact h child hchild n hn

/-- A node may change as long as its children stay and it keeps the property. -/
theorem Everywhere.change {node changed : Node} (h : node.Everywhere P)
    (hself : P node → P changed) (hchildren : changed.children = node.children) :
    changed.Everywhere P := by
  obtain ⟨hnode, hinside⟩ := everywhere_iff.1 h
  exact everywhere_iff.2 ⟨hself hnode, hchildren ▸ hinside⟩

/-- A property that does not depend on the children of a node. -/
def IgnoresChildren (P : Node → Prop) : Prop :=
  ∀ (node : Node) (children : List Node), P node → P { node with children }

theorem Everywhere.withChildren {node : Node} {children : List Node} (h : node.Everywhere P)
    (hown : IgnoresChildren P) (hchildren : ∀ child ∈ children, child.Everywhere P) :
    ({ node with children } : Node).Everywhere P :=
  everywhere_iff.2 ⟨hown node children (everywhere_iff.1 h).1, hchildren⟩

theorem everywhere_updateFirst (hown : IgnoresChildren P) {id : String} {change : Node → Node}
    {node : Node} (hchange : ∀ node, node.Everywhere P → (change node).Everywhere P)
    (h : node.Everywhere P) : (node.updateFirst id change).Everywhere P := by
  have hall {nodes updated : List Node} (hupdates : UpdatesFirst id change nodes updated)
      (h : ∀ node ∈ nodes, node.Everywhere P) : ∀ node ∈ updated, node.Everywhere P := by
    induction hupdates with
    | here hid =>
      obtain ⟨hnode, hnodes⟩ := List.forall_mem_cons.1 h
      exact List.forall_mem_cons.2 ⟨hchange _ hnode, hnodes⟩
    | inside hid hinside ih =>
      obtain ⟨hnode, hnodes⟩ := List.forall_mem_cons.1 h
      exact List.forall_mem_cons.2
        ⟨hnode.withChildren hown (ih (everywhere_iff.1 hnode).2), hnodes⟩
    | behind hid hrest ih =>
      obtain ⟨hnode, hnodes⟩ := List.forall_mem_cons.1 h
      exact List.forall_mem_cons.2 ⟨hnode, ih hnodes⟩
  obtain ⟨-, hsame⟩ | hupdates := updateFirst_cases id change node
  · rwa [hsame]
  · exact List.forall_mem_singleton.1 (hall hupdates (List.forall_mem_singleton.2 h))

mutual

theorem everywhere_updateOutermost (hown : IgnoresChildren P) {id : String} {change : Node → Node}
    (hchange : ∀ node, node.Everywhere P → (change node).Everywhere P) : ∀ {node : Node},
    node.Everywhere P → (node.updateOutermost id change).Everywhere P
  | ⟨_, _, _, _, _, _, children, _⟩, h => by
    rw [updateOutermost]
    split_ifs
    · exact hchange _ h
    · exact h.withChildren hown
        (everywhere_updateOutermostAmong hown hchange (everywhere_iff.1 h).2)

theorem everywhere_updateOutermostAmong (hown : IgnoresChildren P) {id : String}
    {change : Node → Node} (hchange : ∀ node, node.Everywhere P → (change node).Everywhere P) :
    ∀ {nodes : List Node}, (∀ node ∈ nodes, node.Everywhere P) →
      ∀ node ∈ updateOutermostAmong id change nodes, node.Everywhere P
  | [], _ => nofun
  | node :: nodes, h => by
    obtain ⟨hnode, hnodes⟩ := List.forall_mem_cons.1 h
    exact List.forall_mem_cons.2 ⟨everywhere_updateOutermost hown hchange hnode,
      everywhere_updateOutermostAmong hown hchange hnodes⟩

end

mutual

theorem everywhere_delete (hown : IgnoresChildren P) {id : String} :
    ∀ {node : Node}, node.Everywhere P → (node.delete id).Everywhere P
  | ⟨_, _, _, _, _, _, children, _⟩, h => by
    rw [delete]
    exact h.withChildren hown (everywhere_deleteAmong hown (everywhere_iff.1 h).2)

theorem everywhere_deleteAmong (hown : IgnoresChildren P) {id : String} : ∀ {nodes : List Node},
    (∀ node ∈ nodes, node.Everywhere P) → ∀ node ∈ deleteAmong id nodes, node.Everywhere P
  | [], _ => nofun
  | node :: nodes, h => by
    obtain ⟨hnode, hnodes⟩ := List.forall_mem_cons.1 h
    rw [deleteAmong]
    split_ifs
    · exact everywhere_deleteAmong hown hnodes
    · exact List.forall_mem_cons.2
        ⟨everywhere_delete hown hnode, everywhere_deleteAmong hown hnodes⟩

end

theorem mem_insertNextTo {id : String} {side : Side} {added node : Node} {nodes : List Node}
    (h : node ∈ insertNextTo id side added nodes) : node = added ∨ node ∈ nodes := by
  induction nodes with
  | nil => cases h
  | cons first nodes ih =>
    simp only [insertNextTo] at h
    split_ifs at h
    · cases side <;> simp only [List.mem_cons] at h ⊢ <;> tauto
    · rcases List.mem_cons.1 h with rfl | h
      · exact .inr (List.mem_cons_self ..)
      · exact (ih h).imp_right (List.mem_cons_of_mem _)

mutual

theorem everywhere_insertBeside (hown : IgnoresChildren P) {id : String} {side : Side}
    {added : Node} (hadded : added.Everywhere P) : ∀ {node : Node}, node.Everywhere P →
      (insertBeside id side added node).Everywhere P
  | ⟨_, _, _, _, _, _, children, _⟩, h => by
    have hinside := (everywhere_iff.1 h).2
    rw [insertBeside]
    split_ifs
    · refine h.withChildren hown fun child hchild => ?_
      rcases mem_insertNextTo hchild with rfl | hold
      · exact hadded
      · exact hinside child hold
    · exact h.withChildren hown (everywhere_insertBesideAmong hown hadded hinside)

theorem everywhere_insertBesideAmong (hown : IgnoresChildren P) {id : String} {side : Side}
    {added : Node} (hadded : added.Everywhere P) : ∀ {nodes : List Node},
      (∀ node ∈ nodes, node.Everywhere P) →
        ∀ node ∈ insertBesideAmong id side added nodes, node.Everywhere P
  | [], _ => nofun
  | node :: nodes, h => by
    obtain ⟨hnode, hnodes⟩ := List.forall_mem_cons.1 h
    exact List.forall_mem_cons.2 ⟨everywhere_insertBeside hown hadded hnode,
      everywhere_insertBesideAmong hown hadded hnodes⟩

end

theorem everywhere_insertInside (hown : IgnoresChildren P) {edge : Edge} {added node : Node}
    (hadded : added.Everywhere P) (h : node.Everywhere P) :
    (insertInside edge added node).Everywhere P := by
  have hinside := (everywhere_iff.1 h).2
  cases edge with
  | first => exact h.withChildren hown (List.forall_mem_cons.2 ⟨hadded, hinside⟩)
  | last =>
    exact h.withChildren hown
      (List.forall_mem_append.2 ⟨hinside, List.forall_mem_singleton.2 hadded⟩)

theorem OwnFits.ignoresChildren {inTagged : Bool} {d : Nat} :
    IgnoresChildren (OwnFits inTagged d) :=
  fun _ _ h => ⟨h.props, h.style, h.events, h.motion⟩

end Node

/-! ## Edits -/

open Record in
/-- Properties that are read back stay so when others are set over them. -/
theorem Survives.overlay {d : Nat} {props patch : OrderedMap Json}
    (h : Survives anyMembers .obj d props) (hpatch : Survives anyMembers .obj d patch) :
    Survives anyMembers .obj d (OrderedMap.overlay props patch) := by
  have hmem {m : String × Json} (hm : m ∈ OrderedMap.overlay props patch) :
      m.2.Keyed ∧ m.2.depth + 1 ≤ d := by
    have hpart {members : OrderedMap Json} (h : Survives anyMembers .obj d members)
        (hm : m ∈ members) : m.2.Keyed ∧ m.2.depth + 1 ≤ d :=
      ⟨Json.keyedMembers_iff.1 h.keyed.2 m hm,
        Nat.le_trans (Nat.succ_le_succ (Json.membersDepth_le.1 (Nat.le_refl _) m hm)) h.depth⟩
    exact (OrderedMap.mem_of_mem_overlay hm).elim (hpart h) (hpart hpatch)
  have hkeyed : (Json.obj (OrderedMap.overlay props patch)).Keyed :=
    ⟨OrderedMap.nodup_overlay patch h.keyed.1, Json.keyedMembers_iff.2 fun m hm => (hmem hm).1⟩
  refine ⟨Codec.anyMembers_literal hkeyed, hkeyed, ?_⟩
  obtain ⟨e, rfl⟩ : ∃ e, d = e + 1 := ⟨d - 1, by have := h.depth; rw [Json.depth] at this; omega⟩
  exact Nat.succ_le_succ (Json.membersDepth_le.2 fun m hm => Nat.le_of_succ_le_succ (hmem hm).2)

/-- **Fields that are read back stay so under an edit** whose parts are read back. -/
theorem Edit.everywhere_applyTo {edit : Edit} {root : Node}
    (h : root.Everywhere (Node.OwnFits false maxDepth)) (hparts : edit.PartsSurvive false) :
    (edit.applyTo root).Everywhere (Node.OwnFits false maxDepth) := by
  have hroom {node : Node} (h : CarriesTree node false) :
      node.Everywhere (Node.OwnFits false maxDepth) :=
    fun n hn => (h.nodes n hn).mono (Nat.sub_le ..)
  have hfirst {target : String} {change : Node → Node}
      (hself : ∀ node, node.OwnFits false maxDepth → (change node).OwnFits false maxDepth)
      (hchildren : ∀ node, (change node).children = node.children) :
      (root.updateFirst target change).Everywhere (Node.OwnFits false maxDepth) :=
    Node.everywhere_updateFirst Node.OwnFits.ignoresChildren
      (fun node hnode => hnode.change (hself node) (hchildren node)) h
  cases edit with
  | updateProps target props =>
    have hprops := Survives.mono hparts (Nat.le_succ maxDepth)
    exact hfirst (fun node hnode => ⟨hnode.props.overlay hprops, hnode.style, hnode.events,
      hnode.motion⟩) fun _ => rfl
  | updateStyle target style =>
    exact hfirst (fun node hnode => ⟨hnode.props, (Style.survives false _).mono (by decide),
      hnode.events, hnode.motion⟩) fun _ => rfl
  | updateText target text =>
    exact hfirst (fun node hnode => ⟨hnode.props, hnode.style, hnode.events, hnode.motion⟩)
      fun _ => rfl
  | addEvent target binding =>
    refine hfirst (fun node hnode => ⟨hnode.props, hnode.style, ?_, hnode.motion⟩) fun _ => rfl
    exact List.forall_mem_append.2 ⟨hnode.events, List.forall_mem_singleton.2 hparts⟩
  | removeEvent target index =>
    exact hfirst (fun node hnode => ⟨hnode.props, hnode.style,
      fun binding hbinding => hnode.events binding (List.mem_of_mem_eraseIdx hbinding),
      hnode.motion⟩) fun _ => rfl
  | updateAnimation target motion =>
    refine hfirst (fun node hnode => ⟨hnode.props, hnode.style, hnode.events, ?_⟩) fun _ => rfl
    intro other hother
    obtain rfl := Option.some.inj hother
    exact Survives.mono hparts (Nat.le_succ maxDepth)
  | replace target node =>
    exact Node.everywhere_updateOutermost Node.OwnFits.ignoresChildren (fun _ _ => hroom hparts) h
  | delete target => exact Node.everywhere_delete Node.OwnFits.ignoresChildren h
  | insert target place node =>
    rw [applyTo]
    cases place.anchor with
    | inside edge =>
      exact Node.everywhere_updateOutermost Node.OwnFits.ignoresChildren (fun _ hnode =>
        Node.everywhere_insertInside Node.OwnFits.ignoresChildren (hroom hparts) hnode) h
    | beside side =>
      exact Node.everywhere_insertBeside Node.OwnFits.ignoresChildren (hroom hparts) h

/-- **Fields that are read back stay so under a batch** of edits whose parts are read back. -/
theorem Document.everywhere_apply {document : Document} {edits : List Edit}
    (h : document.app.Everywhere (Node.OwnFits false maxDepth))
    (hparts : ∀ edit ∈ edits, edit.PartsSurvive false) :
    (document.apply edits).app.Everywhere (Node.OwnFits false maxDepth) := by
  induction edits generalizing document with
  | nil => exact h
  | cons edit edits ih =>
    obtain ⟨hedit, hedits⟩ := List.forall_mem_cons.1 hparts
    exact ih (Edit.everywhere_applyTo h hedit) hedits

end PageTree
