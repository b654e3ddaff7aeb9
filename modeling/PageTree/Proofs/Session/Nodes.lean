import PageTree.Proofs.Render.ReadBack
import PageTree.Proofs.Session.Loading

/-!
# Nodes of a page in use

The page that is loaded from the text of a document has an element for each node outside of void
elements. When the ids of the document are distinct, the id of a node leads to its element, and the
elements with bindings around it are those of the nodes with bindings around the node.

## Main definitions

* `Node.source?`: the node whose bindings answer the events at a node
* `Session.fresh`: a page that was just loaded
* `Session.Shows`: a page as it is loaded from the text of a document

## Main results

* `Session.shows_of_load`
* `Session.Shows.node?_eq`: ids lead to elements
* `Session.Shows.closest?_events`: the innermost node with bindings has the innermost such element
-/

namespace PageTree

/-! ## Nodes that have elements -/

namespace Node

variable {theme : Theme}

mutual

/-- The nodes that have elements are nodes of the tree, each met once. -/
theorem heads_trails_sublist : ∀ (node : Node) (above : List Node),
    ((node.trails theme above).map List.head?).Sublist (node.preorder.map some)
  | ⟨id, kind, props, style, events, motion, children, text⟩, above => by
    rw [trails, preorder, List.map_cons, List.map_cons, List.head?_cons]
    refine .cons_cons _ ?_
    split_ifs
    · exact List.nil_sublist _
    · exact heads_trailsAll_sublist children _

theorem heads_trailsAll_sublist : ∀ (nodes : List Node) (above : List Node),
    ((trailsAll theme above nodes).map List.head?).Sublist ((preorderAll nodes).map some)
  | [], _ => by rw [trailsAll, preorderAll]; exact .slnil
  | node :: nodes, above => by
    rw [trailsAll, preorderAll, List.map_append, List.map_append]
    exact (heads_trails_sublist node above).append (heads_trailsAll_sublist nodes above)

end

mutual

theorem mem_of_mem_trails : ∀ {node : Node} {above trail : List Node},
    trail ∈ node.trails theme above → ∀ n ∈ trail, n ∈ above ∨ n ∈ node.preorder
  | ⟨id, kind, props, style, events, motion, children, text⟩, above, trail, h, n, hn => by
    rw [trails] at h
    rw [preorder]
    have hself : n ∈ ⟨id, kind, props, style, events, motion, children, text⟩ :: above →
        n ∈ above ∨ n ∈ ⟨id, kind, props, style, events, motion, children, text⟩ ::
          preorderAll children := by
      rintro (_ | ⟨_, hn⟩)
      · exact .inr (List.mem_cons_self ..)
      · exact .inl hn
    rcases List.mem_cons.1 h with rfl | h
    · exact hself hn
    · split_ifs at h
      · cases h
      · exact (mem_of_mem_trailsAll h n hn).elim hself fun hn => .inr (List.mem_cons_of_mem _ hn)

theorem mem_of_mem_trailsAll : ∀ {nodes : List Node} {above trail : List Node},
    trail ∈ trailsAll theme above nodes → ∀ n ∈ trail, n ∈ above ∨ n ∈ preorderAll nodes
  | [], _, _, h, _, _ => by
    rw [trailsAll] at h
    cases h
  | node :: nodes, above, trail, h, n, hn => by
    rw [trailsAll] at h
    rw [preorderAll]
    rcases List.mem_append.1 h with h | h
    · exact (mem_of_mem_trails h n hn).imp_right (List.mem_append_left _)
    · exact (mem_of_mem_trailsAll h n hn).imp_right (List.mem_append_right _)

end

/-- The innermost of some nodes, listed from the inside out, that has bindings. -/
def source? (trail : List Node) : Option Node :=
  trail.find? fun node => !node.events.isEmpty

end Node

/-! ## Elements that bear nodes -/

namespace Forest

variable {f : Forest} {theme : Theme}

theorem WellFormed.le_of_mem_line (hf : f.WellFormed) {i j : Nat} (h : j ∈ f.line i) : j ≤ i := by
  induction i using Nat.strongRecOn with
  | _ i ih =>
    cases hparent : (f.get i).parent with
    | none =>
      rw [line_of_no_parent hf hparent] at h
      exact Nat.le_of_eq (List.mem_singleton.1 h)
    | some p =>
      have hlt := hf.parent_lt hparent
      rw [line_of_parent hf hparent] at h
      rcases List.mem_cons.1 h with rfl | h
      · exact Nat.le_refl _
      · exact Nat.le_of_lt (Nat.lt_of_le_of_lt (ih p hlt h) hlt)

theorem WellFormed.lineage_eq_cons (hf : f.WellFormed) {i : Nat} (hi : i ≠ rootIndex) :
    ∃ around, f.lineage i = i :: around := by
  cases hparent : (f.get i).parent with
  | none =>
    refine ⟨[], ?_⟩
    rw [lineage_eq, line_of_no_parent hf hparent, List.filter_cons_of_pos (by simpa using hi),
      List.filter_nil]
  | some p => exact ⟨_, lineage_of_parent hf hparent⟩

/-- An element has the wire attributes of the node that it bears. -/
theorem Bears.attribute?_eq {i : Nat} {node : Node} (h : f.Bears theme i node) {name : String}
    (hname : name ∈ wireNames) : f.attribute? i name = node.ownAttributes.lookup name := by
  rw [attribute?, h.attributes, Node.lookup_attributes theme node hname]

theorem Bears.id_eq {i : Nat} {node : Node} (h : f.Bears theme i node) :
    f.attribute? i idAttribute = some node.id := by
  rw [h.attribute?_eq (by decide)]
  rfl

theorem Bears.hasAttribute_events {i : Nat} {node : Node} (h : f.Bears theme i node) :
    f.hasAttribute i eventsAttribute = !node.events.isEmpty := by
  rw [hasAttribute, h.attribute?_eq (by decide), Node.lookup_events]
  cases node.events.isEmpty with
  | _ => rfl

end Forest

/-! ## Pages as they are loaded -/

namespace Session

/-- Each member of one of two lists that are related goes with a member of the other. -/
theorem exists_of_forall₂ {α β : Type} {R : α → β → Prop} {as : List α} {bs : List β}
    (h : List.Forall₂ R as bs) {a : α} (ha : a ∈ as) : ∃ b ∈ bs, R a b := by
  induction h with
  | nil => cases ha
  | cons hab _ ih =>
    rcases List.mem_cons.1 ha with rfl | ha
    · exact ⟨_, List.mem_cons_self .., hab⟩
    · obtain ⟨b, hb, hab⟩ := ih ha
      exact ⟨b, List.mem_cons_of_mem _ hb, hab⟩

/-- The page is as it is loaded from the text of a document. -/
structure Shows (theme : Theme) (document : Document) (s : Session) : Prop where
  wellFormed : s.forest.WellFormed
  marked : List.Forall₂ (fun i trail => List.Forall₂ (s.forest.Bears theme) (s.forest.marks i) trail)
    (s.forest.preorder.filter s.forest.isMarked) (document.app.trails theme [])
  order : ∃ size, s.forest.preorder = List.range' 1 size
  silent : ∀ i ∈ s.forest.preorder, s.forest.isMarked i = false → s.forest.IsSilent i
  nodes : s.nodes = nodeTable s.forest
  errands : s.errands = []

/-- The session of a page with this table and state that was just loaded. -/
def fresh (forest : Forest) (state : Json) : Session :=
  { forest, state, nodes := nodeTable forest }

/-- Loading the text of a document. -/
theorem load_html (theme : Theme) (defaults : PageDefaults) {document : Document}
    (h : document.IsReadable) :
    load (document.html theme defaults) =
      (initialState (document.forest theme defaults)).map
        (fresh (document.forest theme defaults)) := by
  rw [load, Document.read_html theme defaults h]
  rfl

/-- **What is loaded from the text of a document** is a page with the nodes of the document. -/
theorem shows_of_load {theme : Theme} {defaults : PageDefaults} {document : Document} {s : Session}
    (h : document.IsReadable) (hload : load (document.html theme defaults) = .ok s) :
    s.Shows theme document := by
  rw [load_html theme defaults h] at hload
  obtain ⟨state, -, rfl⟩ := exists_of_map_eq_ok hload
  have hframes := Document.frames_forest theme defaults document
  have hcarries := hframes.carries h
  refine ⟨hframes.wellFormed, ?_, ⟨_, hframes.preorder⟩, fun i hi => ?_, rfl, rfl⟩
  · rw [fresh, hframes.preorder]
    exact hcarries.marked
  · rw [fresh, hframes.preorder, List.mem_range'_1] at hi
    exact hcarries.silent i hi.1 hi.2

/-- **Without a script with the initial state** the text of a document is loaded as a page whose
state is empty. -/
theorem load_of_stateless {theme : Theme} {defaults : PageDefaults} {document : Document}
    (h : document.IsReadable)
    (hstateless : Markup.EveryAll (fun tag attributes => ¬(tag = "script" ∧
      (Attribute.toMap attributes).lookup "id" = some stateScriptId))
      (document.page theme defaults).tail) :
    load (document.html theme defaults) =
      .ok { forest := document.forest theme defaults
            nodes := nodeTable (document.forest theme defaults) } := by
  have hlaid := Forest.laidAll_ofOutlines (document.outlines theme defaults)
  have hnone : (document.forest theme defaults).findFirst? (fun e =>
      e.tag == "script" && e.attributes.lookup "id" == some stateScriptId) = none := by
    rw [Forest.findFirst?, Document.forest, Forest.preorder_ofOutlines, List.find?_eq_none]
    intro i hi
    rw [List.mem_range'_1] at hi
    obtain ⟨tag, attributes, hother, htag, hrow⟩ :=
      Forest.comes_of_everyAll hstateless hlaid i hi.1 hi.2
    simpa [htag, hrow] using hother
  have hstate : initialState (document.forest theme defaults) = .ok (.obj []) := by
    rw [initialState, hnone]
  rw [load_html theme defaults h, hstate]
  rfl

namespace Shows

variable {theme : Theme} {document : Document} {s : Session}

/-- Elements of nodes stand at the head of the elements of nodes around them. -/
theorem marked_and (h : s.Shows theme document) :
    List.Forall₂ (fun i trail => (i ∈ s.forest.preorder ∧ s.forest.isMarked i = true) ∧
      List.Forall₂ (s.forest.Bears theme) (s.forest.marks i) trail)
      (s.forest.preorder.filter s.forest.isMarked) (document.app.trails theme []) :=
  (List.forall₂_and_left _ _).2 ⟨fun _ hi => List.mem_filter.1 hi, h.marked⟩

/-- Each node that has an element, with the nodes around it, has the elements around the element. -/
theorem exists_of_mem_trails (h : s.Shows theme document) {trail : List Node}
    (htrail : trail ∈ document.app.trails theme []) :
    ∃ i ∈ s.forest.preorder, s.forest.isMarked i = true ∧
      List.Forall₂ (s.forest.Bears theme) (s.forest.marks i) trail := by
  obtain ⟨i, -, hmarked, hbears⟩ := exists_of_forall₂ h.marked_and.flip htrail
  exact ⟨i, hmarked.1, hmarked.2, hbears⟩

theorem mem_preorder_of_node? (h : s.Shows theme document) {id : String} {i : Nat}
    (hnode : s.node? id = some i) : i ∈ s.forest.preorder := by
  rw [node?, h.nodes, lookup_nodeTable] at hnode
  exact List.mem_of_find?_eq_some hnode

theorem mem_preorder_of_mem_lineage (h : s.Shows theme document) {i j : Nat}
    (hi : i ∈ s.forest.preorder) (hj : j ∈ s.forest.lineage i) : j ∈ s.forest.preorder := by
  obtain ⟨size, hsize⟩ := h.order
  rw [Forest.lineage_eq, List.mem_filter] at hj
  have hle := h.wellFormed.le_of_mem_line hj.1
  have hpos : j ≠ 0 := by simpa [rootIndex] using hj.2
  rw [hsize, List.mem_range'_1] at hi ⊢
  omega

theorem marks_eq_cons (h : s.Shows theme document) {i : Nat} (hi : i ∈ s.forest.preorder)
    (hmarked : s.forest.isMarked i = true) : ∃ around, s.forest.marks i = i :: around := by
  obtain ⟨size, hsize⟩ := h.order
  have hroot : i ≠ rootIndex := by
    rw [hsize, List.mem_range'_1] at hi
    exact Nat.ne_of_gt hi.1
  obtain ⟨around, haround⟩ := h.wellFormed.lineage_eq_cons hroot
  exact ⟨_, by rw [Forest.marks, haround, List.filter_cons_of_pos hmarked]⟩

/-- Each element that has an id bears a node of the document. -/
theorem exists_bears (h : s.Shows theme document) {i : Nat} (hi : i ∈ s.forest.preorder)
    (hmarked : s.forest.isMarked i = true) :
    ∃ node ∈ document.app.preorder, s.forest.Bears theme i node := by
  obtain ⟨trail, htrail, -, hbears⟩ := exists_of_forall₂ h.marked_and
    (List.mem_filter.2 ⟨hi, hmarked⟩)
  obtain ⟨around, haround⟩ := h.marks_eq_cons hi hmarked
  rw [haround] at hbears
  cases hbears with
  | cons hself _ =>
    exact ⟨_, (Node.mem_of_mem_trails htrail _ (List.mem_cons_self ..)).resolve_left
      List.not_mem_nil, hself⟩

/-- The ids of elements are those of the nodes that have elements. -/
theorem ids_eq (h : s.Shows theme document) :
    (s.forest.preorder.filter s.forest.isMarked).map (s.forest.attribute? · idAttribute) =
      (document.app.trails theme []).map fun trail => trail.head?.map Node.id := by
  rw [← List.forall₂_eq_eq_eq, List.forall₂_map_left_iff, List.forall₂_map_right_iff]
  refine h.marked_and.imp fun i trail hrel => ?_
  obtain ⟨around, haround⟩ := h.marks_eq_cons hrel.1.1 hrel.1.2
  have htrail := hrel.2
  rw [haround] at htrail
  cases htrail with
  | cons hbears _ => exact hbears.id_eq

/-- **Distinct ids lead to their elements.** -/
theorem node?_eq (h : s.Shows theme document) (hids : document.ids.Nodup) {i : Nat}
    (hi : i ∈ s.forest.preorder) {id : String} (hid : s.forest.attribute? i idAttribute = some id) :
    s.node? id = some i := by
  have hnodup : ((s.forest.preorder.filter s.forest.isMarked).map
      (s.forest.attribute? · idAttribute)).Nodup := by
    have hheads : ((document.app.trails theme []).map List.head?).Sublist
        (document.app.preorder.map some) := Node.heads_trails_sublist document.app []
    have hsub := hheads.map (Option.map Node.id)
    rw [List.map_map, List.map_map] at hsub
    rw [h.ids_eq]
    refine List.Nodup.sublist hsub ?_
    have := hids.map (Option.some_injective String)
    rw [Document.ids, Node.ids, List.map_map] at this
    exact this
  have hmarked {j : Nat} (hj : s.forest.attribute? j idAttribute = some id) :
      s.forest.isMarked j = true := by
    rw [Forest.isMarked, Forest.hasAttribute, hj]
    rfl
  rw [node?, h.nodes, lookup_nodeTable]
  cases hfind : s.forest.preorder.find? fun i => s.forest.attribute? i idAttribute == some id with
  | none =>
    have := List.find?_eq_none.1 hfind i hi
    simp [hid] at this
  | some j =>
    have hj : s.forest.attribute? j idAttribute = some id := by
      simpa using List.find?_some hfind
    have hmem := List.mem_of_find?_eq_some hfind
    rw [List.inj_on_of_nodup_map hnodup (List.mem_filter.2 ⟨hmem, hmarked hj⟩)
      (List.mem_filter.2 ⟨hi, hmarked hid⟩) (hj.trans hid.symm)]

/-- **The innermost element with bindings** around the element of a node is that of the innermost
node with bindings around the node. -/
theorem closest?_events (h : s.Shows theme document) {i : Nat} (hi : i ∈ s.forest.preorder)
    {trail : List Node} (htrail : List.Forall₂ (s.forest.Bears theme) (s.forest.marks i) trail) :
    (s.forest.closest? i (fun e => OrderedMap.contains eventsAttribute e.attributes) = none ∧
        Node.source? trail = none) ∨
      ∃ j source, s.forest.closest? i
          (fun e => OrderedMap.contains eventsAttribute e.attributes) = some j ∧
        Node.source? trail = some source ∧ s.forest.Bears theme j source := by
  have hclosest : s.forest.closest? i (fun e => OrderedMap.contains eventsAttribute e.attributes) =
      (s.forest.marks i).find? fun j => s.forest.hasAttribute j eventsAttribute := by
    rw [Forest.closest?, Forest.marks, List.find?_filter]
    refine List.find?_congr fun j hj => ?_
    change s.forest.hasAttribute j eventsAttribute = _
    cases hmarked : s.forest.isMarked j with
    | true => simp
    | false =>
      have hsilent := h.silent j (h.mem_preorder_of_mem_lineage hi hj) hmarked
      rw [Forest.hasAttribute, hsilent eventsAttribute (by decide)]
      simp
  rw [hclosest]
  generalize s.forest.marks i = marks at htrail
  induction htrail with
  | nil => exact .inl ⟨rfl, rfl⟩
  | cons hbears _ ih =>
    rw [Node.source?, List.find?_cons, List.find?_cons, hbears.hasAttribute_events]
    split
    · exact .inr ⟨_, _, rfl, rfl, hbears⟩
    · exact ih

end Shows

end Session

end PageTree
