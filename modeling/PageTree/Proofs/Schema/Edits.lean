import PageTree.Proofs.Edit.Basic
import PageTree.Proofs.Schema.Documents

/-!
# Packed edits and their schema

The schema of edits is closed everywhere, and the members that may be packed are texts in it. So
what it accepts has no members that it does not declare, at any depth of the nodes that edits carry.
Packed edits are accepted, each by the one form of edit that has its kind, when the nodes that they
carry are of known kinds.

## Main definitions

* `Json.IsPackedNode`, `Json.IsPackedEdit`: no member is undeclared, and what is packed is a text
* `Schema.op?`: the kind of edit that a schema of edits is for

## Main results

* `Schema.isPackedNode_of_admits`, `Schema.isPackedEdit_of_admits`: what the closed schemas admit
* `Schema.exists_accepts_packed`: a packed edit is accepted by the schema of its kind
* `editSchema_accepts_packed`: packed edits are accepted
-/

namespace PageTree

/-! ## Packed form -/

/-- A node in packed form: its members are those of nodes, what may be packed is a text, and its
children are nodes in packed form. -/
inductive Json.IsPackedNode : Json → Prop where
  | intro (members : OrderedMap Json) (declared : ∀ m ∈ members, m.1 ∈ Node.fieldNames)
    (packed : ∀ m ∈ members, m.1 ∈ packedOfNode → ∃ text, m.2 = .str text)
    (lists : ∀ m ∈ members, m.1 = "children" → ∃ items, m.2 = .arr items)
    (children : ∀ items, ("children", .arr items) ∈ members → ∀ item ∈ items, IsPackedNode item) :
    IsPackedNode (.obj members)

/-- An edit in packed form with members of these names: what may be packed is a text, and a node is
in packed form. -/
inductive Json.IsPackedEdit (names : List String) : Json → Prop where
  | intro (members : OrderedMap Json) (declared : ∀ m ∈ members, m.1 ∈ names)
    (packed : ∀ m ∈ members, m.1 ∈ packedOfEdit → ∃ text, m.2 = .str text)
    (node : ∀ m ∈ members, m.1 = "node" → m.2.IsPackedNode) : IsPackedEdit names (.obj members)

/-- The node that an edit carries, if it carries one. -/
def Edit.node? : Edit → Option Node
  | .replace _ node | .insert _ _ node => some node
  | _ => none

namespace Schema

variable {root : Json} {bound : Nat} {value : Json}

/-- The word that a schema of edits asks for under `op`. -/
def op? (schema : Schema) : Option String :=
  match schema.properties.lookup "op" with
  | some (.tag word) => some word
  | _ => none

/-! ## What the closed schemas admit -/

/-- The schema is one of texts that hold JSON. -/
def isPacked : Schema → Bool
  | .packed _ => true
  | _ => false

theorem exists_text_of_isPacked {schema : Schema} (hpacked : schema.isPacked = true)
    (h : schema.Admits root bound value) : ∃ text, value = .str text := by
  obtain ⟨inside, rfl⟩ := h.exists_succ
  cases schema with
  | packed description => exact admits_packed.1 h
  | _ => cases hpacked

/-- The members of nodes that are packed are those that the schema of packed nodes says so of. -/
theorem isPacked_packedNode : ∀ property ∈ packedNode.properties,
    packedOfNode.contains property.1 = property.2.isPacked := by
  decide

/-- The members of edits that are packed are those that the schemas of edits say so of. -/
theorem isPacked_edits : ∀ variant ∈ edits, ∀ property ∈ variant.properties,
    packedOfEdit.contains property.1 = property.2.isPacked := by
  decide

theorem definition?_packedNode : editSchema.json.definition? ("#/$defs/" ++ "Node") =
    some (.obj packedNode.members) := rfl

theorem exists_members_of_admits {properties : List (String × Schema)} {required : List String}
    {closed : Bool} (h : (object properties required closed).Admits root bound value) :
    ∃ members, value = .obj members := by
  obtain ⟨inside, rfl⟩ := h.exists_succ
  obtain ⟨members, hvalue, -⟩ := admits_object.1 h
  exact ⟨members, hvalue⟩

/-- A closed object has declared members only, each admitted by the schema of its property. -/
theorem declared_of_admits {properties : List (String × Schema)} {required : List String}
    {members : OrderedMap Json}
    (h : (object properties required true).Admits root bound (.obj members)) {m : String × Json}
    (hm : m ∈ members) : ∃ schema, (m.1, schema) ∈ properties ∧
      properties.lookup m.1 = some schema ∧ ∃ inside < bound, schema.Admits root inside m.2 := by
  obtain ⟨inside, hinside, hsuits⟩ := h.members
  obtain ⟨schema, hproperty, hvalid⟩ | ⟨-, hopen⟩ := hsuits m hm
  · exact ⟨schema, OrderedMap.mem_of_lookup hproperty, hproperty, inside, hinside, hvalid⟩
  · cases hopen

/-- **The schema of packed nodes is closed** all the way down. -/
theorem isPackedNode_of_admits
    (h : (definition "Node").Admits editSchema.json bound value) : value.IsPackedNode := by
  induction bound using Nat.strong_induction_on generalizing value with
  | _ bound ih =>
    obtain ⟨_, hnode, h⟩ := h.definition definition?_packedNode
    obtain ⟨members, rfl⟩ := exists_members_of_admits h
    refine .intro members (fun m hm => ?_) (fun m hm hpacked => ?_) (fun m hm hname => ?_)
      fun items hmem item hitem => ?_
    · obtain ⟨schema, hmem, -⟩ := declared_of_admits h hm
      have hname : m.1 ∈ packedNode.properties.map (·.1) := List.mem_map_of_mem hmem
      exact hname
    · obtain ⟨schema, hmem, -, inside, -, hvalid⟩ := declared_of_admits h hm
      refine exists_text_of_isPacked ?_ hvalid
      rw [← isPacked_packedNode _ hmem]
      exact List.contains_iff_mem.2 hpacked
    · obtain ⟨schema, -, hproperty, inside, -, hvalid⟩ := declared_of_admits h hm
      rw [hname] at hproperty
      obtain rfl := Option.some.inj hproperty
      obtain ⟨inside, rfl⟩ := hvalid.exists_succ
      obtain ⟨items, hvalue, -⟩ := admits_listOf.1 hvalid
      exact ⟨items, hvalue⟩
    · obtain ⟨_, hlist, hvalid⟩ := h.property hmem rfl
      obtain ⟨inside, hinside, hitems⟩ := hvalid.item
      exact ih inside (by omega) (hitems item hitem)

theorem exists_eq_edit {variant : Schema} (h : variant ∈ edits) :
    ∃ kind fields, variant = edit kind fields ∧
      ∀ property ∈ fields, property.1 = "node" → property.2 = .definition "Node" := by
  simp only [edits, List.mem_cons, List.not_mem_nil, or_false] at h
  rcases h with rfl | rfl | rfl | rfl | rfl | rfl | rfl | rfl | rfl
  all_goals exact ⟨_, _, rfl, by simp⟩

/-- **The schemas of edits are closed.** -/
theorem isPackedEdit_of_admits {variant : Schema} (hvariant : variant ∈ edits)
    (h : variant.Admits editSchema.json bound value) :
    value.IsPackedEdit (variant.properties.map (·.1)) := by
  have hpacked := isPacked_edits variant hvariant
  obtain ⟨kind, fields, rfl, hnode⟩ := exists_eq_edit hvariant
  obtain ⟨members, rfl⟩ := exists_members_of_admits h
  refine .intro members (fun m hm => ?_) (fun m hm hname => ?_) fun m hm hname => ?_
  · obtain ⟨schema, hmem, -⟩ := declared_of_admits h hm
    exact List.mem_map_of_mem hmem
  · obtain ⟨schema, hmem, -, inside, -, hvalid⟩ := declared_of_admits h hm
    refine exists_text_of_isPacked ?_ hvalid
    rw [← hpacked _ hmem]
    exact List.contains_iff_mem.2 hname
  · obtain ⟨schema, hmem, -, inside, -, hvalid⟩ := declared_of_admits h hm
    rcases List.mem_cons.1 hmem with heq | hmem
    · have hop : m.1 = "op" := congrArg Prod.fst heq
      rw [hname] at hop
      exact absurd hop (by decide)
    · obtain rfl : schema = .definition "Node" := hnode _ hmem hname
      exact isPackedNode_of_admits hvalid

/-! ## Packed nodes -/

theorem accepts_pack {description : String} :
    (packed description).Accepts root value.pack := by
  cases value with
  | _ => exact accepts_packed

end Schema

namespace Node

open Json

/-- What is written of the fields of a node in packed form, in order. -/
def packedEntries (node : Node) : List (Option (String × Json)) :=
  [field "id" (.str node.id), field "type" (.str node.kind.name),
    if node.props.isEmpty then none else field "props" (pack (.obj node.props)),
    if node.style.isEmpty then none else field "style" (pack node.style.json),
    if node.events.isEmpty then none
    else field "events" (pack (.arr (node.events.map Binding.json))),
    fieldIf "motion" (fun motion => pack motion.json) node.motion,
    fieldUnlessEmpty "children" (fun child => packNode child.json) node.children,
    fieldIf "text" .str node.text]

/-- A member of a node in packed form. -/
def packMember (m : String × Json) : String × Json := (m.1, mapMember pack m.1 m.2)

theorem map_entries (node : Node) : node.entries.map (Option.map packMember) =
    node.packedEntries := by
  have hprops : (if node.props.isEmpty then none else field "props" (.obj node.props)).map
      packMember = if node.props.isEmpty then none else field "props" (pack (.obj node.props)) := by
    split
    · rfl
    · rfl
  have hstyle : (if node.style.isEmpty then none else field "style" node.style.json).map
      packMember = if node.style.isEmpty then none else field "style" (pack node.style.json) := by
    split
    · rfl
    · rfl
  have hevents : (fieldUnlessEmpty "events" Binding.json node.events).map packMember =
      if node.events.isEmpty then none
      else field "events" (pack (.arr (node.events.map Binding.json))) := by
    cases node.events with
    | nil => rfl
    | cons => rfl
  have hmotion : (fieldIf "motion" Motion.json node.motion).map packMember =
      fieldIf "motion" (fun motion => pack motion.json) node.motion := by
    cases node.motion with
    | none => rfl
    | some => rfl
  have hchildren : (fieldUnlessEmpty "children" json node.children).map packMember =
      fieldUnlessEmpty "children" (fun child => packNode child.json) node.children := by
    cases node.children with
    | nil => rfl
    | cons child children =>
      show some ("children", mapMember pack "children" (.arr ((child :: children).map json))) = _
      rw [mapMember_children, List.map_map]
      rfl
  have htext : (fieldIf "text" .str node.text).map packMember =
      fieldIf "text" .str node.text := by
    cases node.text with
    | none => rfl
    | some => rfl
  simp only [entries, packedEntries, List.map_cons, List.map_nil, hprops, hstyle, hevents, hmotion,
    hchildren, htext]
  rfl

theorem packNode_json (node : Node) : packNode node.json = .record node.packedEntries := by
  rw [json_eq_record, record, packNode, mapPacked_obj, record, ← map_entries, List.map_filterMap,
    List.filterMap_map]
  rfl

end Node

namespace Schema

/-- A packed node is accepted when its kind is known and its packed children are accepted. -/
theorem accepts_packNode_of_children {node : Node} (h : node.kind.isKnown = true)
    (hchildren : ∀ child ∈ node.children,
      (definition "Node").Accepts editSchema.json child.json.packNode) :
    (definition "Node").Accepts editSchema.json node.json.packNode := by
  rw [accepts_definition definition?_packedNode, Node.packNode_json]
  refine accepts_record ?_ ?_
  · simp only [Node.packedEntries, List.forall_mem_cons]
    exact ⟨writes_field rfl accepts_text,
      writes_field rfl (accepts_words (mem_names_primitive.2 h)), writes_ite rfl accepts_pack,
      writes_ite rfl accepts_pack, writes_ite rfl accepts_pack,
      writes_fieldIf rfl fun motion _ => accepts_pack, writes_fieldUnlessEmpty rfl hchildren,
      writes_text rfl, List.forall_mem_nil _⟩
  · simp only [List.forall_mem_cons]
    exact ⟨⟨_, .head _⟩, ⟨_, .tail _ (.head _)⟩, List.forall_mem_nil _⟩

/-- **A packed tree is accepted** when the kinds of its nodes are known. -/
theorem accepts_packNode {node : Node} (h : ∀ n ∈ node.preorder, n.kind.isKnown = true) :
    (definition "Node").Accepts editSchema.json node.json.packNode :=
  Node.of_forall_preorder (fun _ => accepts_packNode_of_children) h

end Schema

/-! ## Packed edits -/

namespace Edit

open Json

/-- The fields of an edit in packed form, beside its kind. -/
def packedFields : Edit → List (String × Json)
  | .updateProps target props => [("nodeId", .str target), ("props", pack (.obj props))]
  | .updateStyle target style => [("nodeId", .str target), ("style", pack style.json)]
  | .updateText target text => [("nodeId", .str target), ("text", .str text)]
  | .replace target node => [("nodeId", .str target), ("node", packNode node.json)]
  | .delete target => [("nodeId", .str target)]
  | .insert target place node =>
    [("parentId", .str target), ("position", .word place), ("node", packNode node.json)]
  | .addEvent target binding => [("nodeId", .str target), ("event", pack binding.json)]
  | .removeEvent target index => [("nodeId", .str target), ("eventIndex", .natural index)]
  | .updateAnimation target motion => [("nodeId", .str target), ("motion", pack motion.json)]

theorem packed_eq (edit : Edit) :
    edit.packed = .obj (("op", .word edit.kind) :: edit.packedFields) := by
  cases edit with
  | _ => rfl

end Edit

namespace Schema

/-- A member has the name of a property and a value that the property's schema accepts. -/
structure Agrees (root : Json) (property : String × Schema) (m : String × Json) : Prop where
  name : m.1 = property.1
  valid : property.2.Accepts root m.2

theorem agrees {root : Json} {name : String} {schema : Schema} {value : Json}
    (h : schema.Accepts root value) : Agrees root (name, schema) (name, value) :=
  ⟨rfl, h⟩

/-- A schema of edits accepts its kind with the fields that it declares, in order. -/
theorem accepts_edit {root : Json} {kind : EditKind} {fields : List (String × Schema)}
    {members : OrderedMap Json} (h : List.Forall₂ (Agrees root) fields members)
    (hnames : ("op" :: OrderedMap.names fields).Nodup) :
    (edit kind fields).Accepts root (.obj (("op", .word kind) :: members)) := by
  have hall : List.Forall₂ (Agrees root) (("op", .tag (Vocabulary.name kind)) :: fields)
      (("op", .word kind) :: members) :=
    .cons (agrees (accepts_of_forall fun _ => admits_tag.2 rfl)) h
  have hproperties :
      (OrderedMap.names (("op", Schema.tag (Vocabulary.name kind)) :: fields)).Nodup := hnames
  have hsame : OrderedMap.names members = OrderedMap.names fields := by
    have heq : List.Forall₂ (· = ·) (OrderedMap.names members) (OrderedMap.names fields) := by
      rw [OrderedMap.names, OrderedMap.names, List.forall₂_map_left_iff,
        List.forall₂_map_right_iff]
      exact h.flip.imp fun _ _ hagrees => hagrees.name
    rwa [List.forall₂_eq_eq_eq] at heq
  refine accepts_object (fun m hm => ?_) fun name hname => ?_
  · obtain ⟨hlength, hget⟩ := List.forall₂_iff_get.1 hall
    obtain ⟨i, rfl⟩ := List.mem_iff_get.1 hm
    have hagrees := hget i.1 (by omega) i.2
    refine ⟨_, ?_, hagrees.valid⟩
    rw [hagrees.name]
    exact OrderedMap.lookup_of_mem hproperties (List.get_mem _ _)
  · rw [OrderedMap.names_cons, hsame]
    exact hname

/-- A kind with the fields that one of the schemas of edits declares is accepted by that one. -/
theorem exists_accepts_edit {root : Json} {kind : EditKind} {fields : List (String × Schema)}
    {members : OrderedMap Json} (i : Nat) (hi : edits[i]? = some (edit kind fields))
    (h : List.Forall₂ (Agrees root) fields members)
    (hnames : ("op" :: OrderedMap.names fields).Nodup) :
    ∃ variant ∈ edits, variant.op? = some (Vocabulary.name kind) ∧
      variant.Accepts root (.obj (("op", .word kind) :: members)) :=
  ⟨edit kind fields, List.mem_of_getElem? hi, rfl, accepts_edit h hnames⟩

/-- **A packed edit is accepted** by a schema of edits that asks for its kind. -/
theorem exists_accepts_packed {edit : Edit}
    (h : ∀ node, edit.node? = some node → ∀ n ∈ node.preorder, n.kind.isKnown = true) :
    ∃ variant ∈ edits, variant.op? = some (Vocabulary.name edit.kind) ∧
      variant.Accepts editSchema.json edit.packed := by
  rw [Edit.packed_eq]
  have htarget {target : String} :
      Agrees editSchema.json ("nodeId", .text) ("nodeId", .str target) := agrees accepts_text
  cases edit with
  | updateProps target props =>
    exact exists_accepts_edit 0 rfl (.cons htarget (.cons (agrees accepts_pack) .nil)) (by decide)
  | updateStyle target style =>
    exact exists_accepts_edit 1 rfl (.cons htarget (.cons (agrees accepts_pack) .nil)) (by decide)
  | updateText target text =>
    exact exists_accepts_edit 2 rfl (.cons htarget (.cons (agrees accepts_text) .nil)) (by decide)
  | replace target node =>
    have hnode := accepts_packNode (h node rfl)
    exact exists_accepts_edit 3 rfl (.cons htarget (.cons (agrees hnode) .nil)) (by decide)
  | delete target => exact exists_accepts_edit 4 rfl (.cons htarget .nil) (by decide)
  | insert target place node =>
    have hnode := accepts_packNode (h node rfl)
    exact exists_accepts_edit 5 rfl (.cons (agrees accepts_text)
      (.cons (agrees (accepts_wordOf place)) (.cons (agrees hnode) .nil))) (by decide)
  | addEvent target binding =>
    exact exists_accepts_edit 6 rfl (.cons htarget (.cons (agrees accepts_pack) .nil)) (by decide)
  | removeEvent target index =>
    exact exists_accepts_edit 7 rfl (.cons htarget (.cons (agrees accepts_number) .nil))
      (by decide)
  | updateAnimation target motion =>
    exact exists_accepts_edit 8 rfl (.cons htarget (.cons (agrees accepts_pack) .nil)) (by decide)

/-- The schemas of edits ask for distinct kinds. -/
theorem eq_of_op?_eq {a b : Schema} (ha : a ∈ edits) (hb : b ∈ edits) (h : a.op? = b.op?) :
    a = b := by
  have hnodup : (edits.map op?).Nodup := by decide
  exact List.inj_on_of_nodup_map hnodup ha hb h

/-- A packed edit is admitted only by a schema that asks for its kind. -/
theorem op?_of_admits_packed {variant : Schema} {edit : Edit} {root : Json} {bound : Nat}
    (hvariant : variant ∈ edits) (h : variant.Admits root bound edit.packed) :
    variant.op? = some (Vocabulary.name edit.kind) := by
  obtain ⟨kind, fields, rfl, -⟩ := exists_eq_edit hvariant
  rw [Edit.packed_eq] at h
  obtain ⟨inside, -, hop⟩ := h.property (.head _) rfl
  obtain ⟨inside, rfl⟩ := hop.exists_succ
  have hname := Json.str.inj (admits_tag.1 hop)
  exact congrArg some hname.symm

end Schema

/-- **The schema of edits accepts packed edits** in which every node, at any depth, has a known
kind. Of the alternatives just the one of the edit's own kind accepts it, and in the packed form no
object has a member that the schema does not declare and everything that may be packed is a text. -/
theorem editSchema_accepts_packed {edits : List Edit}
    (h : ∀ edit ∈ edits, ∀ node, edit.node? = some node →
      ∀ n ∈ node.preorder, n.kind.isKnown = true) :
    editSchema.Accepts (.arr (edits.map Edit.packed)) ∧
      ∀ edit ∈ edits, ∃ variant ∈ Schema.edits,
        variant.op? = some (Vocabulary.name edit.kind) ∧
        (∀ other ∈ Schema.edits, other.Accepts editSchema.json edit.packed ↔ other = variant) ∧
        edit.packed.IsPackedEdit (variant.properties.map (·.1)) := by
  constructor
  · rw [SchemaFile.accepts_iff (by decide)]
    refine Schema.accepts_listOf (List.forall_mem_map.2 fun edit hedit => ?_)
    obtain ⟨variant, hvariant, -, haccepts⟩ := Schema.exists_accepts_packed (h edit hedit)
    exact Schema.accepts_anyOf hvariant haccepts
  · intro edit hedit
    obtain ⟨variant, hvariant, hop, haccepts⟩ := Schema.exists_accepts_packed (h edit hedit)
    refine ⟨variant, hvariant, hop, fun other hother => ⟨fun hacc => ?_, ?_⟩, ?_⟩
    · obtain ⟨bound, hbound⟩ := hacc.exists
      exact Schema.eq_of_op?_eq hother hvariant
        ((Schema.op?_of_admits_packed hother hbound).trans hop.symm)
    · rintro rfl
      exact haccepts
    · obtain ⟨bound, hbound⟩ := haccepts.exists
      exact Schema.isPackedEdit_of_admits hvariant hbound

/-- A card with a button in it. -/
def cardWithButton : Node where
  id := "card"
  kind := Primitive.card.kind
  props := [("title", .str "Offer")]
  children := [{ id := "buy", kind := Primitive.button.kind, text := some "Buy" }]

/-- The card is put into the app, and a button loses its first binding. -/
theorem editSchema_accepts_packed_card :
    editSchema.Accepts (.arr
      ([Edit.insert "app" .append cardWithButton, .removeEvent "close" 0].map Edit.packed)) := by
  refine (editSchema_accepts_packed fun edit hedit node hnode => ?_).1
  rcases List.mem_cons.1 hedit with rfl | hedit
  · obtain rfl := Option.some.inj hnode
    show ∀ n ∈ cardWithButton.preorder, n.kind.isKnown = true
    decide
  · obtain rfl := List.mem_singleton.1 hedit
    cases hnode

end PageTree
