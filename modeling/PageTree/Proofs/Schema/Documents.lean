import PageTree.Proofs.Diagnosis.Check
import PageTree.Proofs.Schema.Validity
import PageTree.Proofs.Tree.Node

/-!
# Documents and their schema

The schema of documents accepts what is written of a document exactly when the kinds of its nodes
are known and its opacities lie between zero and one. Everything else about a document is of the
form that the schema asks for by construction: every field that is written is declared, with the
schema of what is written under it, and of exclusive alternatives one refuses what the other
accepts, by the word of a kind of motion, or by the type of a padding or a number of iterations.

## Main results

* `Schema.accepts_style`, `Schema.accepts_binding`, `Schema.accepts_motion`: the parts of a node
* `Document.accepts_json_iff`: what the schema accepts
-/

namespace PageTree

/-- The opacity, if there is one, lies between zero and one. -/
def Style.InRange (style : Style) : Prop :=
  ∀ x, style.opacity = some x → 0 ≤ x.toRat ∧ x.toRat ≤ 1

namespace Schema

variable {root : Json}

/-! ## Styles -/

theorem accepts_spacing (spacing : Spacing) :
    (oneOf [wordOf SpaceStep,
      .object (EdgeSpacing.fieldNames.map fun name => (name, wordOf SpaceStep)) [] true]).Accepts
      root spacing.json := by
  cases spacing with
  | uniform step =>
    refine accepts_oneOf_left (accepts_wordOf step) (refuses_of_forall fun bound h => ?_)
    obtain ⟨_, hvalue, -⟩ := admits_object.1 h
    cases hvalue
  | byEdge edges =>
    refine accepts_oneOf_right (refuses_of_forall fun bound h => ?_)
      (accepts_record ?_ (List.forall_mem_nil _))
    · obtain ⟨_, -, hvalue⟩ := admits_words.1 h
      cases hvalue
    · simp only [List.forall_mem_cons]
      exact ⟨writes_word rfl, writes_word rfl, writes_word rfl, writes_word rfl, writes_word rfl,
        writes_word rfl, List.forall_mem_nil _⟩

theorem accepts_border (border : Border) :
    (Schema.object [("width", .number), ("style", wordOf BorderLine),
      ("color", wordOf ColorRole)] [] true).Accepts root border.json := by
  refine accepts_record ?_ (List.forall_mem_nil _)
  simp only [List.forall_mem_cons]
  exact ⟨writes_fieldIf rfl fun _ _ => accepts_number, writes_word rfl, writes_word rfl,
    List.forall_mem_nil _⟩

theorem accepts_opacity {x : Binary64} (h : 0 ≤ x.toRat ∧ x.toRat ≤ 1) :
    (numberBetween 0 1).Accepts root (.float x) := by
  refine accepts_of_forall fun bound => admits_numberBetween.2 ⟨.float x, rfl, ?_, ?_⟩
  · rw [Nat.cast_zero]
    exact h.1
  · rw [Nat.cast_one]
    exact h.2

/-- **A style is accepted** when its opacity is in range. -/
theorem accepts_style {style : Style} (h : style.InRange) :
    Schema.style.Accepts root style.json := by
  refine accepts_record ?_ (List.forall_mem_nil _)
  simp only [List.forall_mem_cons]
  exact ⟨writes_fieldIf rfl fun _ _ => accepts_spacing _, writes_word rfl,
    writes_fieldIf rfl fun _ _ => accepts_border _, writes_word rfl, writes_word rfl,
    writes_word rfl, writes_word rfl, writes_word rfl, writes_word rfl, writes_word rfl,
    writes_word rfl, writes_text rfl, writes_text rfl, writes_text rfl, writes_text rfl,
    writes_text rfl, writes_text rfl, writes_word rfl,
    writes_fieldIf rfl fun x hx => accepts_opacity (h x hx),
    writes_word rfl, writes_text rfl, writes_word rfl, writes_text rfl, writes_word rfl,
    List.forall_mem_nil _⟩

theorem inRange_of_admits {style : Style} {bound : Nat}
    (h : Schema.style.Admits root bound style.json) : style.InRange := by
  intro x hx
  obtain ⟨inside, -, hopacity⟩ :
      ∃ inside < bound, (numberBetween 0 1).Admits root inside (.float x) := by
    refine h.property (show ("opacity", Json.float x) ∈ _ from List.mem_filterMap.2
      ⟨Json.fieldIf "opacity" .float style.opacity, ?_, ?_⟩) rfl
    · simp only [List.mem_cons, true_or, or_true]
    · rw [hx]
      rfl
  obtain ⟨inside, rfl⟩ := hopacity.exists_succ
  obtain ⟨_, hvalue, hleast, hgreatest⟩ := admits_numberBetween.1 hopacity
  obtain rfl := Json.num.inj hvalue
  rw [Nat.cast_zero] at hleast
  rw [Nat.cast_one] at hgreatest
  exact ⟨hleast, hgreatest⟩

/-! ## Bindings -/

theorem accepts_condition (condition : Condition) :
    Schema.condition.Accepts root condition.json := by
  refine accepts_record ?_ ?_
  · simp only [List.forall_mem_cons]
    exact ⟨writes_field rfl accepts_text, writes_field rfl (accepts_wordOf _),
      writes_fieldIf rfl fun _ _ => accepts_anything, List.forall_mem_nil _⟩
  · simp only [List.forall_mem_cons]
    exact ⟨⟨_, .head _⟩, ⟨_, .tail _ (.head _)⟩, List.forall_mem_nil _⟩

/-- Every kind of effect writes fields that the one schema of effects declares. -/
theorem accepts_effect (effect : Effect) : Schema.effect.Accepts root effect.json := by
  refine accepts_record (List.forall_mem_cons.2 ⟨writes_field rfl (accepts_wordOf _), ?_⟩)
    (List.forall_mem_singleton.2 ⟨_, .head _⟩)
  cases effect with
  | toggle target => exact List.forall_mem_singleton.2 (writes_text rfl)
  | setState key value | appendState key value =>
    simp only [Effect.jsonFields, List.forall_mem_cons]
    exact ⟨writes_text rfl, writes_field rfl accepts_anything, List.forall_mem_nil _⟩
  | fetch url method body resultKey =>
    simp only [Effect.jsonFields, List.forall_mem_cons]
    exact ⟨writes_text rfl, writes_word rfl, writes_fieldIf rfl fun _ _ => accepts_anything,
      writes_text rfl, List.forall_mem_nil _⟩
  | emit event => exact List.forall_mem_singleton.2 (writes_text rfl)
  | animate target name | focus target name =>
    simp only [Effect.jsonFields, List.forall_mem_cons]
    exact ⟨writes_text rfl, writes_text rfl, List.forall_mem_nil _⟩
  | toast message variant =>
    simp only [Effect.jsonFields, List.forall_mem_cons]
    exact ⟨writes_text rfl, writes_word rfl, List.forall_mem_nil _⟩

/-- **A binding is accepted.** -/
theorem accepts_binding (binding : Binding) : Schema.binding.Accepts root binding.json := by
  refine accepts_record ?_ ?_
  · simp only [List.forall_mem_cons]
    refine ⟨writes_field rfl accepts_text,
      writes_fieldUnlessEmpty rfl fun condition _ => accepts_condition condition,
      writes_field rfl (accepts_listOf (List.forall_mem_map.2 ?_)), List.forall_mem_nil _⟩
    exact fun effect _ => accepts_effect effect
  · simp only [List.forall_mem_cons]
    exact ⟨⟨_, .head _⟩, ⟨_, .tail _ (.tail _ (.head _))⟩, List.forall_mem_nil _⟩

/-! ## Motion -/

theorem accepts_iterations (iterations : Iterations) :
    (oneOf [.number, .constant "infinite"]).Accepts root iterations.json := by
  cases iterations with
  | count n =>
    refine accepts_oneOf_left accepts_number (refuses_of_forall fun bound h => ?_)
    cases admits_constant.1 h
  | infinite =>
    refine accepts_oneOf_right (refuses_of_forall fun bound h => ?_)
      (accepts_of_forall fun _ => admits_constant.2 rfl)
    obtain ⟨_, hvalue⟩ := admits_number.1 h
    cases hvalue

/-- A schema of objects refuses an object whose word under a name is not the constant that it
asks for. -/
theorem refuses_of_constant {properties : List (String × Schema)} {required : List String}
    {closed : Bool} {members : OrderedMap Json} {name word other : String}
    (hmem : (name, .str word) ∈ members)
    (property : properties.lookup name = some (.constant other)) (hne : word ≠ other) :
    (object properties required closed).Refuses root (.obj members) := by
  refine .of_forall fun bound h => ?_
  obtain ⟨inside, -, hword⟩ := h.property hmem property
  obtain ⟨inside, rfl⟩ := hword.exists_succ
  exact hne (Json.str.inj (admits_constant.1 hword))

/-- **A motion is accepted** by the alternative of its kind, and the other one refuses it. -/
theorem accepts_motion (motion : Motion) : Schema.motion.Accepts root motion.json := by
  cases motion with
  | preset p timing =>
    refine accepts_oneOf_left (accepts_record ?_ ?_)
      (refuses_of_constant (.head _) rfl (by decide))
    · simp only [List.forall_mem_cons]
      exact ⟨writes_field rfl (accepts_of_forall fun _ => admits_constant.2 rfl),
        writes_field rfl (accepts_wordOf p), writes_fieldIf rfl fun _ _ => accepts_number,
        writes_fieldIf rfl fun _ _ => accepts_number, writes_text rfl, writes_word rfl,
        writes_text rfl, List.forall_mem_nil _⟩
    · simp only [List.forall_mem_cons]
      exact ⟨⟨_, .head _⟩, ⟨_, .tail _ (.head _)⟩, List.forall_mem_nil _⟩
  | keyframes frames timing iterations fill =>
    refine accepts_oneOf_right (refuses_of_constant (.head _) rfl (by decide))
      (accepts_record ?_ ?_)
    · simp only [List.forall_mem_cons]
      refine ⟨writes_field rfl (accepts_of_forall fun _ => admits_constant.2 rfl),
        writes_field rfl (accepts_listOf (List.forall_mem_map.2 ?_)),
        writes_fieldIf rfl fun _ _ => accepts_number, writes_fieldIf rfl fun _ _ => accepts_number,
        writes_text rfl, writes_fieldIf rfl fun _ _ => accepts_iterations _, writes_word rfl,
        writes_word rfl, writes_text rfl, List.forall_mem_nil _⟩
      exact fun frame _ => accepts_anyObject
    · simp only [List.forall_mem_cons]
      exact ⟨⟨_, .head _⟩, ⟨_, .tail _ (.head _)⟩, List.forall_mem_nil _⟩

/-! ## Nodes -/

theorem definition?_node : documentSchema.json.definition? ("#/$defs/" ++ "Node") =
    some (.obj Schema.node.members) := rfl

theorem definition?_style : documentSchema.json.definition? ("#/$defs/" ++ "StyleTokens") =
    some (.obj Schema.style.members) := rfl

theorem definition?_binding : documentSchema.json.definition? ("#/$defs/" ++ "EventBinding") =
    some (.obj Schema.binding.members) := rfl

theorem definition?_motion : documentSchema.json.definition? ("#/$defs/" ++ "MotionSpec") =
    some (.obj Schema.motion.members) := rfl

/-- The kinds of nodes that are known are the words of the schema. -/
theorem mem_names_primitive {kind : NodeKind} :
    kind.name ∈ Vocabulary.names Primitive ↔ kind.isKnown = true := by
  rw [NodeKind.isKnown_iff]
  constructor
  · intro h
    obtain ⟨primitive, -, hname⟩ := List.mem_map.1 h
    exact ⟨primitive, congrArg NodeKind.mk hname.symm⟩
  · rintro ⟨primitive, rfl⟩
    exact List.mem_map_of_mem (Vocabulary.mem_all primitive)

/-- A node is accepted when its kind is known, its opacity is in range and its children are
accepted. -/
theorem accepts_node_of_children {node : Node}
    (h : node.kind.isKnown = true ∧ node.style.InRange)
    (hchildren : ∀ child ∈ node.children,
      (definition "Node").Accepts documentSchema.json child.json) :
    (definition "Node").Accepts documentSchema.json node.json := by
  rw [accepts_definition definition?_node, Node.json_eq_record]
  refine accepts_record ?_ ?_
  · simp only [Node.entries, List.forall_mem_cons]
    exact ⟨writes_field rfl accepts_text,
      writes_field rfl (accepts_words (mem_names_primitive.2 h.1)),
      writes_ite rfl accepts_anyObject,
      writes_ite rfl ((accepts_definition definition?_style).2 (accepts_style h.2)),
      writes_fieldUnlessEmpty rfl fun binding _ =>
        (accepts_definition definition?_binding).2 (accepts_binding binding),
      writes_fieldIf rfl fun motion _ =>
        (accepts_definition definition?_motion).2 (accepts_motion motion),
      writes_fieldUnlessEmpty rfl hchildren, writes_text rfl, List.forall_mem_nil _⟩
  · simp only [List.forall_mem_cons]
    exact ⟨⟨_, .head _⟩, ⟨_, .tail _ (.head _)⟩, List.forall_mem_nil _⟩

/-- What is written of a field of a node is admitted by the schema of the field when the node is
admitted. -/
theorem admits_entry {node : Node} {bound : Nat} {name : String} {value : Json} {schema : Schema}
    (h : (definition "Node").Admits documentSchema.json bound node.json)
    (hentry : Json.field name value ∈ node.entries)
    (property : Schema.node.properties.lookup name = some schema) :
    ∃ inside, schema.Admits documentSchema.json inside value := by
  obtain ⟨inside, -, hnode⟩ := h.definition definition?_node
  rw [Node.json_eq_record] at hnode
  obtain ⟨inside, -, hvalue⟩ := hnode.property (List.mem_filterMap.2 ⟨_, hentry, rfl⟩) property
  exact ⟨inside, hvalue⟩

theorem isKnown_of_admits {node : Node} {bound : Nat}
    (h : (definition "Node").Admits documentSchema.json bound node.json) :
    node.kind.isKnown = true := by
  have hentry : Json.field "type" (.str node.kind.name) ∈ node.entries := .tail _ (.head _)
  obtain ⟨inside, hkind⟩ := admits_entry h hentry rfl
  obtain ⟨inside, rfl⟩ := hkind.exists_succ
  obtain ⟨word, hword, hvalue⟩ := admits_words.1 hkind
  obtain rfl := Json.str.inj hvalue
  exact mem_names_primitive.1 hword

theorem style_inRange_of_admits {node : Node} {bound : Nat}
    (h : (definition "Node").Admits documentSchema.json bound node.json) :
    node.style.InRange := by
  by_cases hempty : node.style.isEmpty
  · intro x hx
    rw [of_decide_eq_true hempty] at hx
    cases hx
  · have hentry : Json.field "style" node.style.json ∈ node.entries := by
      simp [Node.entries, hempty]
    obtain ⟨inside, hstyle⟩ := admits_entry h hentry rfl
    obtain ⟨inside, -, hstyle⟩ := hstyle.definition definition?_style
    exact inRange_of_admits hstyle

theorem admits_child {node : Node} {bound : Nat}
    (h : (definition "Node").Admits documentSchema.json bound node.json) :
    ∃ inside, ∀ child ∈ node.children,
      (definition "Node").Admits documentSchema.json inside child.json := by
  cases hchildren : node.children with
  | nil => exact ⟨0, List.forall_mem_nil _⟩
  | cons child children =>
    have hentry : Json.field "children" (.arr ((child :: children).map Node.json)) ∈
        node.entries := by
      simp [Node.entries, hchildren, Json.fieldUnlessEmpty, Json.field]
    obtain ⟨inside, hlist⟩ := admits_entry h hentry rfl
    obtain ⟨inside, -, hitems⟩ := hlist.item
    exact ⟨inside, List.forall_mem_map.1 hitems⟩

/-- **A tree is accepted** when the kinds of its nodes are known and their opacities are in
range. -/
theorem accepts_node {node : Node}
    (h : ∀ n ∈ node.preorder, n.kind.isKnown = true ∧ n.style.InRange) :
    (definition "Node").Accepts documentSchema.json node.json :=
  Node.of_forall_preorder (fun _ => accepts_node_of_children) h

/-- A tree that is admitted within some bound has only nodes of that kind. -/
theorem forall_preorder_of_admits {node : Node} {bound : Nat}
    (h : (definition "Node").Admits documentSchema.json bound node.json) :
    ∀ n ∈ node.preorder, n.kind.isKnown = true ∧ n.style.InRange := by
  have hstep (node : Node) (_ : True)
      (hchildren : ∀ child ∈ node.children, ∀ bound,
        (definition "Node").Admits documentSchema.json bound child.json →
          ∀ n ∈ child.preorder, n.kind.isKnown = true ∧ n.style.InRange)
      (bound : Nat) (h : (definition "Node").Admits documentSchema.json bound node.json) :
      ∀ n ∈ node.preorder, n.kind.isKnown = true ∧ n.style.InRange := by
    rw [Node.preorder_eq, List.forall_mem_cons]
    refine ⟨⟨isKnown_of_admits h, style_inRange_of_admits h⟩, fun n hn => ?_⟩
    obtain ⟨child, hchild, hn⟩ := Node.mem_preorderAll.1 hn
    obtain ⟨inside, hinside⟩ := admits_child h
    exact hchildren child hchild inside (hinside child hchild) n hn
  exact Node.of_forall_preorder hstep (fun _ _ => trivial) bound h

/-! ## Documents -/

theorem accepts_links (links : Links) :
    (Schema.object [("styles", .listOf .text), ("scripts", .listOf .text)] [] true).Accepts root
      links.json := by
  refine accepts_record ?_ (List.forall_mem_nil _)
  simp only [List.forall_mem_cons]
  exact ⟨writes_fieldUnlessEmpty rfl fun _ _ => accepts_text,
    writes_fieldUnlessEmpty rfl fun _ _ => accepts_text, List.forall_mem_nil _⟩

theorem accepts_module (module : Module) :
    (Schema.object [("id", .text), ("source", .text)] ["id", "source"] true).Accepts root
      module.json := by
  refine accepts_record ?_ ?_
  · simp only [List.forall_mem_cons]
    exact ⟨writes_field rfl accepts_text, writes_field rfl accepts_text, List.forall_mem_nil _⟩
  · simp only [List.forall_mem_cons]
    exact ⟨⟨_, .head _⟩, ⟨_, .tail _ (.head _)⟩, List.forall_mem_nil _⟩

/-- A document is accepted when its tree is. -/
theorem accepts_document {document : Document}
    (h : (definition "Node").Accepts root document.app.json) :
    Schema.document.Accepts root document.json := by
  refine accepts_record ?_ ?_
  · simp only [List.forall_mem_cons]
    exact ⟨writes_field rfl accepts_text, writes_field rfl h,
      writes_fieldIf rfl fun links _ => accepts_links links,
      writes_fieldUnlessEmpty rfl fun module _ => accepts_module module, List.forall_mem_nil _⟩
  · simp only [List.forall_mem_cons]
    exact ⟨⟨_, .head _⟩, ⟨_, .tail _ (.head _)⟩, List.forall_mem_nil _⟩

end Schema

/-- **The schema of documents accepts a document** just when the kinds of its nodes are known and
their opacities lie between zero and one, whatever the shape of the tree and whichever fields are
present. -/
theorem Document.accepts_json_iff (document : Document) :
    documentSchema.Accepts document.json ↔ ∀ node ∈ document.app.preorder,
      node.kind.isKnown = true ∧
        ∀ x, node.style.opacity = some x → 0 ≤ x.toRat ∧ x.toRat ≤ 1 := by
  rw [SchemaFile.accepts_iff (by decide)]
  constructor
  · intro h
    obtain ⟨bound, hbound⟩ := h.exists
    obtain ⟨inside, -, happ⟩ := hbound.property
      (show ("app", document.app.json) ∈ _ from .tail _ (.head _)) rfl
    exact Schema.forall_preorder_of_admits happ
  · intro h
    exact Schema.accepts_document (Schema.accepts_node h)

end PageTree
