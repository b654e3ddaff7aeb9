import PageTree.Edit.Apply
import PageTree.Proofs.Tree.Paths

/-!
# Deletions

A deletion goes down the whole tree and takes out every match below the root with all that is inside
it. Of several deletions the earlier ones may take out matches of the later ones, but a node is gone
in the end just when it or a node around it has one of the ids, the root apart. So neither order nor
repetition matters.

## Main definitions

* `Node.survives`: a line in which no node has one of the ids, the root apart

## Main results

* `Node.lineages_delete`: what a deletion leaves of the lineages of a tree
* `Document.apply_deletions`: what several deletions leave, in whatever order
-/

namespace PageTree

namespace Node

theorem delete_eq (id : String) (node : Node) :
    node.delete id = { node with children := deleteAmong id node.children } := by
  cases node with
  | mk => rw [delete]

/-- No node of a line has one of the ids, the root at its end apart. -/
def survives (ids : List String) (line : List Node) : Bool :=
  line.dropLast.all fun node => !ids.contains node.id

theorem survives_iff {ids : List String} {line : List Node} :
    survives ids line = true ↔ ∀ node ∈ line.dropLast, node.id ∉ ids := by
  simp [survives]

theorem survives_root (ids : List String) (root : Node) : survives ids ([root].map own) = true :=
  survives_iff.2 nofun

theorem survives_cons {ids : List String} {node : Node} {above : List Node} (habove : above ≠ []) :
    survives ids ((node :: above).map own) = true ↔
      node.id ∉ ids ∧ survives ids (above.map own) = true := by
  have hmap : above.map own ≠ [] := mt List.map_eq_nil_iff.1 habove
  rw [survives_iff, survives_iff, List.map_cons, List.dropLast_cons_of_ne_nil hmap,
    List.forall_mem_cons]
  rfl

/-- Two sets of ids cut what either of them cuts. -/
theorem survives_append (ids others : List String) (line : List Node) :
    survives (ids ++ others) line = (survives others line && survives ids line) := by
  rw [Bool.eq_iff_iff, Bool.and_eq_true, survives_iff, survives_iff, survives_iff]
  simp only [List.mem_append, not_or]
  exact ⟨fun h => ⟨fun n hn => (h n hn).2, fun n hn => (h n hn).1⟩,
    fun h n hn => ⟨h.2 n hn, h.1 n hn⟩⟩

theorem survives_congr {ids others : List String} (h : ∀ id, id ∈ others ↔ id ∈ ids)
    (line : List Node) : survives others line = survives ids line := by
  rw [Bool.eq_iff_iff, survives_iff, survives_iff]
  simp only [h]

/-- A match below the root is cut off with all that is inside it. -/
theorem filter_survives_lineages {id : String} {node : Node} {above : List Node}
    (hid : node.id = id) (habove : above ≠ []) :
    (node.lineages above).filter (survives [id]) = [] := by
  refine List.filter_eq_nil_iff.2 fun line hline => ?_
  obtain ⟨path, hpath, rfl⟩ := List.mem_map.1 hline
  obtain ⟨inside, rfl⟩ : ∃ inside, path = inside ++ node :: above := by
    rw [paths_eq] at hpath
    rcases List.mem_cons.1 hpath with rfl | hpath
    · exact ⟨[], rfl⟩
    · obtain ⟨head, inside, rfl⟩ := exists_of_mem_pathsAll hpath
      exact ⟨head :: inside, rfl⟩
  have hmem : node ∈ (inside ++ node :: above).dropLast := by
    rw [List.dropLast_append_cons, List.dropLast_cons_of_ne_nil habove]
    exact List.mem_append_right _ (List.mem_cons_self ..)
  intro hsurvives
  rw [survives_iff, ← List.map_dropLast] at hsurvives
  exact hsurvives _ (List.mem_map_of_mem hmem) (List.mem_singleton.2 hid)

/-- **A deletion below a tree** leaves the lines that it does not cut. -/
theorem lineagesAll_deleteAmong {id : String} (nodes : List Node) : ∀ {above : List Node},
    above ≠ [] → survives [id] (above.map own) = true →
      lineagesAll above (deleteAmong id nodes) =
        (lineagesAll above nodes).filter (survives [id]) := by
  induction nodes using forest_induction with
  | nil =>
    intro above _ _
    rw [deleteAmong, lineagesAll_nil, List.filter_nil]
  | cons node nodes ihInside ihRest =>
    intro above hne habove
    rw [deleteAmong, lineagesAll_cons, List.filter_append]
    split_ifs with hid
    · rw [ihRest hne habove, filter_survives_lineages hid hne, List.nil_append]
    · have hhere : survives [id] ((node :: above).map own) = true :=
        (survives_cons hne).2 ⟨mt List.mem_singleton.1 hid, habove⟩
      rw [lineagesAll_cons, delete_eq, lineages_withChildren, lineages_eq,
        List.filter_cons_of_pos hhere, ihInside (List.cons_ne_nil _ _) hhere, ihRest hne habove]

/-- **A deletion** leaves the lines that it does not cut. -/
theorem lineages_delete (id : String) (root : Node) :
    (root.delete id).lineages [] = (root.lineages []).filter (survives [id]) := by
  have hroot := survives_root [id] root
  rw [delete_eq, lineages_withChildren, lineages_eq, List.filter_cons_of_pos hroot,
    lineagesAll_deleteAmong root.children (List.cons_ne_nil _ _) hroot]

/-- A tree after deletions, in order. -/
def deleteEach (ids : List String) (root : Node) : Node :=
  ids.foldl (fun node id => node.delete id) root

theorem lineages_deleteEach (ids : List String) (root : Node) :
    (root.deleteEach ids).lineages [] = (root.lineages []).filter (survives ids) := by
  induction ids generalizing root with
  | nil =>
    exact (List.filter_eq_self.2 fun _ _ => survives_iff.2 fun _ _ => List.not_mem_nil).symm
  | cons id ids ih =>
    rw [deleteEach, List.foldl_cons, ← deleteEach, ih, lineages_delete, List.filter_filter]
    exact List.filter_congr fun line _ => (survives_append [id] ids line).symm

theorem own_deleteEach (ids : List String) (root : Node) :
    (root.deleteEach ids).own = root.own := by
  induction ids generalizing root with
  | nil => rfl
  | cons id ids ih =>
    rw [deleteEach, List.foldl_cons, ← deleteEach, ih, delete_eq]
    rfl

end Node

namespace Document

theorem apply_deletes (document : Document) (ids : List String) :
    document.apply (ids.map .delete) = { document with app := document.app.deleteEach ids } := by
  induction ids generalizing document with
  | nil => rfl
  | cons id ids ih => exact ih _

/-- **Deletions commute and are idempotent.** Whatever ids a document has and whatever list of ids
is deleted from it: only the tree changes, and of its lineages those stay, in their order and as
they were, in which no node has one of the ids, the root apart. The root stays. Any other list with
the same ids, in whatever order and with whatever repetitions, gives the same document. -/
theorem apply_deletions (document : Document) (ids : List String) :
    ∃ app, document.apply (ids.map .delete) = { document with app } ∧
      app.lineages [] = (document.app.lineages []).filter (Node.survives ids) ∧
      app.own = document.app.own ∧
      ∀ others : List String, (∀ id, id ∈ others ↔ id ∈ ids) →
        document.apply (others.map .delete) = document.apply (ids.map .delete) := by
  refine ⟨_, apply_deletes document ids, Node.lineages_deleteEach ids _, Node.own_deleteEach ids _,
    fun others hsame => ?_⟩
  have hlineages : (document.app.deleteEach others).lineages [] =
      (document.app.deleteEach ids).lineages [] := by
    rw [Node.lineages_deleteEach, Node.lineages_deleteEach]
    exact List.filter_congr fun line _ => Node.survives_congr hsame line
  rw [apply_deletes, apply_deletes, Node.lineages_injective [] hlineages]

/-- A document in which ids are repeated, that of the root too. -/
def thicket : Document where
  version := formatVersion
  app := {
    id := "app"
    kind := Primitive.app.kind
    children := [
      { id := "card"
        kind := Primitive.card.kind
        children := [{ id := "note", kind := Primitive.text.kind }] },
      { id := "box"
        kind := Primitive.box.kind
        children := [
          { id := "app", kind := Primitive.text.kind },
          { id := "note"
            kind := Primitive.box.kind
            children := [{ id := "card", kind := Primitive.card.kind }] },
          { id := "card", kind := Primitive.card.kind }] }] }

theorem apply_deletions_thicket :
    (∀ id, id ∈ ["note", "app", "note"] ↔ id ∈ ["app", "note"]) ∧
      thicket.apply (["note", "app", "note"].map .delete) =
        thicket.apply (["app", "note"].map .delete) ∧
      (thicket.apply (["app", "note"].map .delete)).ids = ["app", "card", "box", "card"] := by
  have hsame : ∀ id, id ∈ ["note", "app", "note"] ↔ id ∈ ["app", "note"] := by
    intro id
    simp only [List.mem_cons, List.not_mem_nil, or_false]
    tauto
  obtain ⟨-, -, -, -, hothers⟩ := apply_deletions thicket ["app", "note"]
  exact ⟨hsame, hothers _ hsame, by decide +kernel⟩

end Document

end PageTree
