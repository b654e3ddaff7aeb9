import Mathlib.Data.List.Nodup
import PageTree.Proofs.Tree.Node

/-!
# Nodes with their surroundings

The nodes of a tree in pre-order, each with the nodes around it. With whole nodes such a line is the
path to a node. With the fields of each node alone it is the lineage of the node, which says where
the node stands and does not change when something changes elsewhere. The table of contents of a
tree keeps of the nodes around a node only how many there are. That is all there is to say about the
tree.

## Main definitions

* `Node.paths`: the nodes of a tree, each with the nodes around it
* `Node.own`: a node by its own fields
* `Node.lineages`: the nodes of a tree, each with the nodes around it, all by their own fields
* `Node.contents`: the nodes of a tree by their own fields, each with how deep it stands

## Main results

* `Node.forest_induction`: induction on several trees
* `Node.lineages_withChildren`: the lineages of a node with these children
* `Node.contents_injective`, `Node.lineages_injective`: a tree is told by its table of contents, and
  so by its lineages
-/

namespace PageTree

namespace Node

/-- What holds of several trees when it holds of what is inside the first one and of the others
holds of all lists of trees. -/
@[elab_as_elim]
theorem forest_induction {motive : List Node → Prop} (nil : motive [])
    (cons : ∀ node nodes, motive node.children → motive nodes → motive (node :: nodes)) :
    ∀ nodes, motive nodes
  | [] => nil
  | ⟨_, _, _, _, _, _, children, _⟩ :: nodes =>
    cons _ _ (forest_induction nil cons children) (forest_induction nil cons nodes)

/-! ## Ids -/

/-- The ids of several trees, one tree after the other. -/
def idsAll (nodes : List Node) : List String := (preorderAll nodes).map (·.id)

theorem ids_eq (node : Node) : node.ids = node.id :: idsAll node.children := by
  rw [ids, preorder_eq, List.map_cons, idsAll]

@[simp] theorem idsAll_nil : idsAll [] = [] := rfl

@[simp] theorem idsAll_cons (node : Node) (nodes : List Node) :
    idsAll (node :: nodes) = node.ids ++ idsAll nodes := by
  rw [idsAll, preorderAll, List.map_append, ids, idsAll]

theorem idsAll_append (nodes others : List Node) :
    idsAll (nodes ++ others) = idsAll nodes ++ idsAll others := by
  induction nodes with
  | nil => rfl
  | cons node nodes ih => rw [List.cons_append, idsAll_cons, ih, idsAll_cons, List.append_assoc]

/-! ## Paths -/

mutual

/-- The nodes of a tree, in order, each with the nodes around it from the inside out. -/
def paths (above : List Node) : Node → List (List Node)
  | node@⟨_, _, _, _, _, _, children, _⟩ => (node :: above) :: pathsAll (node :: above) children

/-- The nodes of several trees, one tree after the other. -/
def pathsAll (above : List Node) : List Node → List (List Node)
  | [] => []
  | node :: nodes => paths above node ++ pathsAll above nodes

end

theorem paths_eq (above : List Node) (node : Node) :
    node.paths above = (node :: above) :: pathsAll (node :: above) node.children := by
  cases node with
  | mk => rw [paths]

@[simp] theorem pathsAll_nil (above : List Node) : pathsAll above [] = [] := by rw [pathsAll]

theorem pathsAll_cons (above : List Node) (node : Node) (nodes : List Node) :
    pathsAll above (node :: nodes) = node.paths above ++ pathsAll above nodes := by
  rw [pathsAll]

mutual

/-- Every node is met once, in order. -/
theorem map_head?_paths : ∀ (node : Node) (above : List Node),
    (node.paths above).map List.head? = node.preorder.map some
  | ⟨id, kind, props, style, events, motion, children, text⟩, above => by
    rw [paths, preorder, List.map_cons, List.map_cons, List.head?_cons, map_head?_pathsAll]

theorem map_head?_pathsAll : ∀ (nodes : List Node) (above : List Node),
    (pathsAll above nodes).map List.head? = (preorderAll nodes).map some
  | [], _ => by rw [pathsAll, preorderAll, List.map_nil, List.map_nil]
  | node :: nodes, above => by
    rw [pathsAll, preorderAll, List.map_append, List.map_append, map_head?_paths,
      map_head?_pathsAll]

end

mutual

/-- The nodes above a tree are around each of its nodes. -/
theorem exists_of_mem_paths : ∀ {node : Node} {above path : List Node},
    path ∈ node.paths above → ∃ head inside, path = head :: (inside ++ above)
  | ⟨id, kind, props, style, events, motion, children, text⟩, above, path, h => by
    rw [paths] at h
    rcases List.mem_cons.1 h with rfl | h
    · exact ⟨_, [], rfl⟩
    · obtain ⟨head, inside, rfl⟩ := exists_of_mem_pathsAll h
      exact ⟨head, inside ++ [_], by rw [List.append_assoc]; rfl⟩

theorem exists_of_mem_pathsAll : ∀ {nodes : List Node} {above path : List Node},
    path ∈ pathsAll above nodes → ∃ head inside, path = head :: (inside ++ above)
  | [], _, _, h => by
    rw [pathsAll] at h
    cases h
  | node :: nodes, above, path, h => by
    rw [pathsAll] at h
    rcases List.mem_append.1 h with h | h
    · exact exists_of_mem_paths h
    · exact exists_of_mem_pathsAll h

end

/-- The nodes of a tree with distinct ids are told apart by their ids. -/
theorem eq_of_mem_paths {node : Node} (hids : node.ids.Nodup) {above path other : List Node}
    {aim : Node} (hpath : path ∈ node.paths above) (hother : aim :: other ∈ node.paths above)
    (hid : path.head?.map Node.id = some aim.id) : path = aim :: other := by
  have hheads : (node.paths above).map (fun path => path.head?.map Node.id) =
      node.ids.map some := by
    have := congrArg (List.map (Option.map Node.id)) (map_head?_paths node above)
    rw [List.map_map, List.map_map] at this
    rw [ids, List.map_map]
    exact this
  have hnodup : ((node.paths above).map fun path => path.head?.map Node.id).Nodup := by
    rw [hheads]
    exact hids.map (Option.some_injective String)
  exact List.inj_on_of_nodup_map hnodup hpath hother hid

/-- Each node of a tree has a path. -/
theorem exists_path {root node : Node} (h : node ∈ root.preorder) (above : List Node) :
    ∃ around, node :: around ∈ root.paths above := by
  have hmem : some node ∈ (root.paths above).map List.head? := by
    rw [map_head?_paths]
    exact List.mem_map_of_mem h
  obtain ⟨path, hpath, hhead⟩ := List.mem_map.1 hmem
  obtain ⟨around, rfl⟩ := List.head?_eq_some_iff.1 hhead
  exact ⟨around, hpath⟩

/-! ## Lineages -/

/-- A node by its own fields, without what is inside it. -/
def own (node : Node) : Node := { node with children := [] }

theorem eq_of_own_eq {node other : Node} (hown : node.own = other.own)
    (hchildren : node.children = other.children) : node = other := by
  have hback (node : Node) : ({ node.own with children := node.children } : Node) = node := by
    cases node
    rfl
  rw [← hback node, hown, hchildren, hback]

theorem withChildren_eq {node : Node} {children : List Node} (h : children = node.children) :
    ({ node with children } : Node) = node :=
  eq_of_own_eq rfl h

/-- The nodes of a tree, in order, each with the nodes around it, all by their own fields. -/
def lineages (above : List Node) (node : Node) : List (List Node) :=
  (node.paths above).map (List.map own)

/-- The same for several trees, one tree after the other. -/
def lineagesAll (above nodes : List Node) : List (List Node) :=
  (pathsAll above nodes).map (List.map own)

@[simp] theorem lineagesAll_nil (above : List Node) : lineagesAll above [] = [] := by
  rw [lineagesAll, pathsAll_nil, List.map_nil]

@[simp] theorem lineagesAll_cons (above : List Node) (node : Node) (nodes : List Node) :
    lineagesAll above (node :: nodes) = node.lineages above ++ lineagesAll above nodes := by
  rw [lineagesAll, pathsAll_cons, List.map_append, lineages, lineagesAll]

theorem lineagesAll_singleton (above : List Node) (node : Node) :
    lineagesAll above [node] = node.lineages above := by
  rw [lineagesAll_cons, lineagesAll_nil, List.append_nil]

theorem lineagesAll_append (above nodes others : List Node) :
    lineagesAll above (nodes ++ others) = lineagesAll above nodes ++ lineagesAll above others := by
  induction nodes with
  | nil => rw [List.nil_append, lineagesAll_nil, List.nil_append]
  | cons node nodes ih =>
    rw [List.cons_append, lineagesAll_cons, ih, lineagesAll_cons, List.append_assoc]

theorem lineages_eq (above : List Node) (node : Node) :
    node.lineages above = (node :: above).map own :: lineagesAll (node :: above) node.children := by
  rw [lineages, paths_eq, List.map_cons, lineagesAll]

/-- Of the nodes above, only their own fields are in the lineages. -/
theorem lineagesAll_congr (nodes : List Node) : ∀ {above others : List Node},
    above.map own = others.map own → lineagesAll above nodes = lineagesAll others nodes := by
  induction nodes using forest_induction with
  | nil => exact fun _ => (lineagesAll_nil _).trans (lineagesAll_nil _).symm
  | cons node nodes ihInside ihRest =>
    intro above others h
    have hhere : (node :: above).map own = (node :: others).map own := by
      rw [List.map_cons, h, ← List.map_cons]
    rw [lineagesAll_cons, lineagesAll_cons, lineages_eq, lineages_eq, hhere, ihInside hhere,
      ihRest h]

/-- **What changes inside a node** changes what is listed behind it, and nothing else. -/
theorem lineages_withChildren (above : List Node) (node : Node) (children : List Node) :
    ({ node with children } : Node).lineages above =
      (node :: above).map own :: lineagesAll (node :: above) children := by
  rw [lineages_eq]
  exact congrArg _ (lineagesAll_congr children rfl)

/-! ## Tables of contents -/

mutual

/-- The nodes of a tree, in order, by their own fields, each with how deep it stands. -/
def contents (depth : Nat) : Node → List (Nat × Node)
  | node@⟨_, _, _, _, _, _, children, _⟩ => (depth, node.own) :: contentsAll (depth + 1) children

/-- The same for several trees, one tree after the other. -/
def contentsAll (depth : Nat) : List Node → List (Nat × Node)
  | [] => []
  | node :: nodes => contents depth node ++ contentsAll depth nodes

end

theorem contents_eq (depth : Nat) (node : Node) :
    node.contents depth = (depth, node.own) :: contentsAll (depth + 1) node.children := by
  cases node with
  | mk => rw [contents]

@[simp] theorem contentsAll_nil (depth : Nat) : contentsAll depth [] = [] := by rw [contentsAll]

theorem contentsAll_cons (depth : Nat) (node : Node) (nodes : List Node) :
    contentsAll depth (node :: nodes) = node.contents depth ++ contentsAll depth nodes := by
  rw [contentsAll]

theorem map_snd_contentsAll (nodes : List Node) : ∀ (depth : Nat),
    (contentsAll depth nodes).map Prod.snd = (preorderAll nodes).map own := by
  induction nodes using forest_induction with
  | nil =>
    intro depth
    rw [contentsAll_nil]
    rfl
  | cons node nodes ihInside ihRest =>
    intro depth
    rw [contentsAll_cons, contents_eq, preorderAll, preorder_eq, List.map_append, List.map_append,
      List.map_cons, List.map_cons, ihInside, ihRest]

/-- Every node is met once, in order. -/
theorem map_snd_contents (depth : Nat) (node : Node) :
    (node.contents depth).map Prod.snd = node.preorder.map own := by
  rw [contents_eq, preorder_eq, List.map_cons, List.map_cons, map_snd_contentsAll]

/-- The lineages of a tree say what its table of contents says. -/
theorem contentsAll_eq_map (nodes : List Node) : ∀ (above : List Node),
    contentsAll (above.length + 1) nodes =
      (lineagesAll above nodes).map fun line => (line.length, line.headI) := by
  induction nodes using forest_induction with
  | nil =>
    intro above
    rw [contentsAll_nil, lineagesAll_nil, List.map_nil]
  | cons node nodes ihInside ihRest =>
    intro above
    have hinside := ihInside (node :: above)
    rw [List.length_cons] at hinside
    rw [contentsAll_cons, contents_eq, lineagesAll_cons, lineages_eq, List.map_append,
      List.map_cons, ihRest, hinside, List.length_map]
    rfl

/-- What stands behind some trees stands no deeper than they do. -/
theorem depth_le_of_head?_append {depth : Nat} {nodes : List Node} {rest : List (Nat × Node)}
    (h : ∀ entry ∈ rest.head?, entry.1 < depth) :
    ∀ entry ∈ (contentsAll depth nodes ++ rest).head?, entry.1 < depth + 1 := by
  cases nodes with
  | nil =>
    rw [contentsAll_nil, List.nil_append]
    exact fun entry hentry => Nat.lt_succ_of_lt (h entry hentry)
  | cons node nodes =>
    rw [contentsAll_cons, contents_eq, List.cons_append, List.cons_append, List.head?_cons]
    intro entry hentry
    obtain rfl := Option.mem_some_iff.1 hentry
    exact Nat.lt_succ_self depth

/-- No node of a tree stands less deep than the tree. -/
theorem contentsAll_cons_append_ne {depth : Nat} {nodes : List Node} {node : Node}
    {rest more : List (Nat × Node)} (h : ∀ entry ∈ rest.head?, entry.1 < depth) :
    contentsAll depth (node :: nodes) ++ more ≠ rest := by
  rintro rfl
  have hdeep := h (depth, node.own) (by rw [contentsAll_cons, contents_eq]; rfl)
  exact Nat.lt_irrefl depth hdeep

/-- Trees are told by their tables of contents, also when something less deep follows. -/
theorem eq_of_contentsAll_append (nodes : List Node) : ∀ {depth : Nat} {others : List Node}
    {rest more : List (Nat × Node)},
    contentsAll depth nodes ++ rest = contentsAll depth others ++ more →
      (∀ entry ∈ rest.head?, entry.1 < depth) →
      (∀ entry ∈ more.head?, entry.1 < depth) → nodes = others ∧ rest = more := by
  induction nodes using forest_induction with
  | nil =>
    intro depth others rest more h hrest hmore
    cases others with
    | nil =>
      rw [contentsAll_nil, List.nil_append, List.nil_append] at h
      exact ⟨rfl, h⟩
    | cons other others => exact absurd h.symm (contentsAll_cons_append_ne hrest)
  | cons node nodes ihInside ihRest =>
    intro depth others rest more h hrest hmore
    cases others with
    | nil => exact absurd h (contentsAll_cons_append_ne hmore)
    | cons other others =>
      rw [contentsAll_cons, contentsAll_cons, List.append_assoc, List.append_assoc, contents_eq,
        contents_eq] at h
      obtain ⟨hhere, hbehind⟩ := List.cons.inj h
      -- what is inside the first trees ends where the others begin, which stand less deep
      obtain ⟨hchildren, hothers⟩ := ihInside hbehind (depth_le_of_head?_append hrest)
        (depth_le_of_head?_append hmore)
      obtain ⟨hnodes, hmore⟩ := ihRest hothers hrest hmore
      rw [eq_of_own_eq (Prod.mk.inj hhere).2 hchildren, hnodes]
      exact ⟨rfl, hmore⟩

/-- **A tree is told by its table of contents.** -/
theorem contents_injective (depth : Nat) : Function.Injective (contents depth) := by
  intro node other h
  have hall : contentsAll depth [node] ++ [] = contentsAll depth [other] ++ [] := by
    rw [contentsAll_cons, contentsAll_cons, contentsAll_nil, h]
  exact List.singleton_injective (eq_of_contentsAll_append [node] hall nofun nofun).1

/-- **A tree is told by its lineages.** -/
theorem lineages_injective (above : List Node) : Function.Injective (lineages above) := by
  intro node other h
  have hall : lineagesAll above [node] = lineagesAll above [other] := by
    rw [lineagesAll_singleton, lineagesAll_singleton, h]
  refine contents_injective (above.length + 1) ?_
  have hcontents := congrArg (List.map fun line => (line.length, line.headI)) hall
  rwa [← contentsAll_eq_map, ← contentsAll_eq_map, contentsAll_cons, contentsAll_cons,
    contentsAll_nil, List.append_nil, List.append_nil] at hcontents

end Node

end PageTree
