import PageTree.Proofs.Style.Basic
import PageTree.Proofs.Tree.Event
import PageTree.Proofs.Tree.Motion
import PageTree.Tree.Document

/-!
# Trees survive printing

Every node of a tree that was read has fields that are read back from what is written of them.
From there a tree is read back node by node.

The fields of a node are nested less deep than the node, and each generation of children costs two
containers. That bounds the height of a tree that was read, and it keeps every field short enough
for a text of its own.

## Main definitions

* `Node.OwnSurvives`: the fields of a node other than its children survive
* `Node.height`: how many generations a tree has
* `Node.Shallow`: the nodes in a literal have fields that are not nested too deep

## Main results

* `Node.of_read`: the nodes of a tree that was read have fields that survive
* `Node.survives_json`: a tree of such nodes is read back
* `Document.ownSurvives_of_read?`: so does every node of a document that was read
-/

namespace PageTree

open Record

namespace Node

variable {inTagged again : Bool}

/-! ## Nodes of a tree -/

theorem preorder_eq (node : Node) : node.preorder = node :: preorderAll node.children := by
  cases node with
  | mk => rw [preorder]

theorem mem_preorderAll {node : Node} {nodes : List Node} :
    node ∈ preorderAll nodes ↔ ∃ root ∈ nodes, node ∈ root.preorder := by
  induction nodes with
  | nil => simp [preorderAll]
  | cons root nodes ih => simp [preorderAll, ih]

mutual

/-- What holds of a node when it holds of its children holds of a tree. -/
theorem of_forall_preorder {P Q : Node → Prop}
    (step : ∀ node, Q node → (∀ child ∈ node.children, P child) → P node) :
    ∀ {node : Node}, (∀ n ∈ node.preorder, Q n) → P node
  | ⟨id, kind, props, style, events, motion, children, text⟩, h => by
    rw [preorder] at h
    obtain ⟨hnode, hinside⟩ := List.forall_mem_cons.1 h
    exact step _ hnode (of_forall_preorderAll step hinside)

theorem of_forall_preorderAll {P Q : Node → Prop}
    (step : ∀ node, Q node → (∀ child ∈ node.children, P child) → P node) :
    ∀ {nodes : List Node}, (∀ n ∈ preorderAll nodes, Q n) → ∀ node ∈ nodes, P node
  | [], _ => nofun
  | node :: nodes, h => by
    rw [preorderAll, List.forall_mem_append] at h
    exact List.forall_mem_cons.2
      ⟨of_forall_preorder step h.1, of_forall_preorderAll step h.2⟩

end

/-- What holds of a node when it holds of its children holds of every tree. -/
@[elab_as_elim]
theorem tree_induction {motive : Node → Prop}
    (node : ∀ node, (∀ child ∈ node.children, motive child) → motive node) (root : Node) :
    motive root :=
  of_forall_preorder (Q := fun _ => True) (fun n _ => node n) fun _ _ => trivial

mutual

/-- How many generations a tree has. -/
def height : Node → Nat
  | ⟨_, _, _, _, _, _, children, _⟩ => heightAll children + 1

/-- How many generations the highest of several trees has. -/
def heightAll : List Node → Nat
  | [] => 0
  | node :: nodes => max node.height (heightAll nodes)

end

theorem height_eq (node : Node) : node.height = heightAll node.children + 1 := by
  cases node with
  | mk => rw [height]

theorem heightAll_le {nodes : List Node} {h : Nat} :
    heightAll nodes ≤ h ↔ ∀ node ∈ nodes, node.height ≤ h := by
  induction nodes with
  | nil => simp [heightAll]
  | cons node nodes ih => simp [heightAll, ih]

theorem jsonAll_eq_map (nodes : List Node) : jsonAll nodes = nodes.map json := by
  induction nodes with
  | nil => rfl
  | cons node nodes ih => rw [jsonAll, ih, List.map_cons]

open Json in
/-- What is written of the fields of a node, in order. -/
def entries (node : Node) : List (Option (String × Json)) :=
  [field "id" (.str node.id), field "type" (.str node.kind.name),
    if node.props.isEmpty then none else field "props" (.obj node.props),
    if node.style.isEmpty then none else field "style" node.style.json,
    fieldUnlessEmpty "events" Binding.json node.events, fieldIf "motion" Motion.json node.motion,
    fieldUnlessEmpty "children" json node.children, fieldIf "text" .str node.text]

theorem json_eq_record (node : Node) : node.json = .record node.entries := by
  have hchildren : Json.fieldUnlessEmpty "children" (fun child => child) (jsonAll node.children) =
      Json.fieldUnlessEmpty "children" json node.children := by
    rw [jsonAll_eq_map]
    cases node.children with
    | nil => rfl
    | cons child children =>
      have hmap : ((child :: children).map json).map (fun child => child) =
          (child :: children).map json := List.map_id' _
      exact congrArg (fun items => some ("children", Json.arr items)) hmap
  rw [entries, ← hchildren]
  cases node with
  | mk => rw [json, jsonWith]

/-! ## How a tree is read -/

theorem readAll_eq_mapM (literals : List Literal) :
    readAll inTagged literals = literals.mapM (read inTagged) := by
  induction literals with
  | nil => rfl
  | cons literal literals ih =>
    rw [readAll, ih, List.mapM_cons]
    cases read inTagged literal with
    | none => rfl
    | some node =>
      cases literals.mapM (read inTagged) with
      | none => rfl
      | some nodes => rfl

theorem readList_eq_listOf : readList inTagged = listOf (read inTagged) := by
  funext literal
  cases literal with
  | arr items => exact readAll_eq_mapM items
  | _ => rfl

theorem readChildrenOf_eq (members : List (String × Literal)) :
    readChildrenOf inTagged members =
      withDefault [] (readList inTagged) (members.lookup "children") := by
  induction members with
  | nil => rfl
  | cons m members ih =>
    rw [readChildrenOf, List.lookup_cons]
    by_cases hname : m.1 = "children"
    · rw [if_pos hname, hname]
      rfl
    · rw [if_neg hname, ih, beq_eq_false_iff_ne.2 fun heq => hname heq.symm]

theorem readChildrenAt_eq (place : Nat) (items : List Literal) :
    readChildrenAt inTagged place items = withDefault [] (readList inTagged) items[place]? := by
  induction place generalizing items with
  | zero =>
    cases items with
    | nil => rfl
    | cons literal items => rfl
  | succ place ih =>
    cases items with
    | nil => rfl
    | cons literal items => exact ih items

/-- A node is its own fields with the trees in the field of its children. -/
theorem read_eq (literal : Literal) :
    read inTagged literal = (fields? fieldNames literal).bind fun field =>
      (withDefault [] (listOf (read inTagged)) (field "children")).bind fun children =>
        readOwn inTagged children field := by
  rw [← readList_eq_listOf]
  cases literal with
  | obj members =>
    rw [read]
    cases hfields : fields? fieldNames (.obj members) with
    | none => rfl
    | some field =>
      have hplace : field "children" = members.lookup "children" := by
        rw [fields?] at hfields
        split_ifs at hfields
        exact congrFun (Option.some.inj hfields).symm _
      rw [readChildrenOf_eq, Option.bind_some, ← hplace]
      cases withDefault [] (readList inTagged) (field "children") with
      | none => rfl
      | some children => rfl
  | arr items =>
    rw [read]
    cases hfields : fields? fieldNames (.arr items) with
    | none => rfl
    | some field =>
      have hplace : field "children" = items[6]? := by
        rw [fields?] at hfields
        split_ifs at hfields
        rw [← Option.some.inj hfields]
        exact lookup_zip (by decide) rfl
      rw [readChildrenAt_eq, Option.bind_some, ← hplace]
      cases withDefault [] (readList inTagged) (field "children") with
      | none => rfl
      | some children => rfl
  | _ => rfl

/-! ## What is read -/

/-- The fields of a node other than its children are read back from what is written of them, which
takes at most `d + 1` containers. -/
structure OwnFits (inTagged : Bool) (d : Nat) (node : Node) : Prop where
  props : Survives anyMembers .obj (d + 1) node.props
  style : Survives (Style.read inTagged) Style.json (d + 1) node.style
  events : ∀ binding ∈ node.events, Survives (Binding.read inTagged) Binding.json d binding
  motion : ∀ motion, node.motion = some motion →
    Survives (Motion.read inTagged) Motion.json (d + 1) motion

/-- The fields of a node other than its children are read back from what is written of them, and
each could be written as a text of its own. -/
abbrev OwnSurvives (inTagged : Bool) (node : Node) : Prop :=
  node.OwnFits inTagged (maxDepth - 1)

theorem OwnFits.mono {d e : Nat} {node : Node} (h : node.OwnFits inTagged d) (hle : d ≤ e) :
    node.OwnFits inTagged e where
  props := h.props.mono (Nat.succ_le_succ hle)
  style := h.style.mono (Nat.succ_le_succ hle)
  events binding hbinding := (h.events binding hbinding).mono hle
  motion motion hmotion := (h.motion motion hmotion).mono (Nat.succ_le_succ hle)

theorem of_readOwn {children : List Node} {field : String → Option Literal} {node : Node}
    {d : Nat} (h : readOwn inTagged children field = some node)
    (hdepth : ∀ name l, name ≠ "children" → field name = some l → l.depth ≤ d + 1)
    (hroom : d ≠ 1) : node.OwnFits again d ∧ node.children = children := by
  obtain ⟨id, hid, h⟩ := Option.bind_eq_some_iff.1 h
  obtain ⟨kind, hkind, h⟩ := Option.bind_eq_some_iff.1 h
  obtain ⟨props, hprops, h⟩ := Option.bind_eq_some_iff.1 h
  obtain ⟨style, hstyle, h⟩ := Option.bind_eq_some_iff.1 h
  obtain ⟨events, hevents, h⟩ := Option.bind_eq_some_iff.1 h
  obtain ⟨motion, hmotion, h⟩ := Option.bind_eq_some_iff.1 h
  obtain ⟨text, htext, h⟩ := Option.bind_eq_some_iff.1 h
  obtain rfl := Option.some.inj h
  have hnoProps : Survives anyMembers .obj (d + 1) [] :=
    ⟨rfl, ⟨.nil, trivial⟩, Nat.succ_le_succ (Nat.zero_le d)⟩
  have hnoStyle : Survives (Style.read again) Style.json (d + 1) {} :=
    ⟨rfl, ⟨.nil, trivial⟩, Nat.succ_le_succ (Nat.zero_le d)⟩
  refine ⟨⟨?_, ?_, ?_, fun m hm => ?_⟩, rfl⟩
  · exact Codec.anyMembers.of_withDefault hprops hnoProps (hdepth _ · (by decide)) (Nat.zero_le _)
  · exact (Style.codec inTagged again).of_withDefault hstyle hnoStyle (hdepth _ · (by decide))
      (Nat.zero_le _)
  · exact Binding.survives_list again hevents (hdepth _ · (by decide)) hroom
  · have hmotion : nullable (Motion.read inTagged) (field "motion") = some (some m) :=
      hmotion.trans (congrArg some hm)
    exact ((Motion.codec inTagged again).of_nullable hmotion (hdepth _ · (by decide))
      (Nat.zero_le _)).1

/-- In each node of a literal that is a tree of at most so many generations, the fields other than
the children are not nested deeper than a text may be. -/
def Shallow : Nat → Literal → Prop
  | 0, literal => fields? fieldNames literal = none
  | generations + 1, literal => ∀ field, fields? fieldNames literal = some field →
    (∀ name l, name ≠ "children" → field name = some l → l.depth ≤ maxDepth) ∧
    ∀ items, field "children" = some (.arr items) → ∀ item ∈ items, Shallow generations item

/-- Each generation costs two containers. -/
theorem shallow_of_depth_le {generations : Nat} {literal : Literal}
    (hgenerations : literal.depth ≤ 2 * generations) (hmax : literal.depth ≤ maxDepth) :
    Shallow generations literal := by
  induction generations generalizing literal with
  | zero =>
    cases literal with
    | arr items => exact absurd hgenerations (Nat.not_succ_le_zero _)
    | obj members => exact absurd hgenerations (Nat.not_succ_le_zero _)
    | _ => rfl
  | succ generations ih =>
    intro field hfields
    obtain ⟨d, hd⟩ : ∃ d, literal.depth ≤ d + 1 ∧ d + 1 ≤ 2 * (generations + 1) ∧ d ≤ maxDepth :=
      ⟨literal.depth - 1, by omega, by omega, by omega⟩
    have hwithin := within_of_fields? hfields hd.1
    refine ⟨fun name l _ hl => Nat.le_trans (hwithin name l hl) hd.2.2,
      fun items hitems item hitem => ?_⟩
    have hitems := hwithin _ _ hitems
    have := Literal.depth_of_mem_arr hitem
    exact ih (by omega) (by omega)

/-- **The nodes of a tree that was read have fields that survive**, and the tree has no more
generations than the literal has. -/
theorem of_read {generations : Nat} {literal : Literal} {node : Node}
    (hshallow : Shallow generations literal) (h : read inTagged literal = some node) :
    (∀ n ∈ node.preorder, n.OwnSurvives again) ∧ node.height ≤ generations := by
  induction generations generalizing literal node with
  | zero =>
    rw [Shallow] at hshallow
    rw [read_eq, hshallow] at h
    cases h
  | succ generations ih =>
    rw [read_eq] at h
    obtain ⟨field, hfields, h⟩ := Option.bind_eq_some_iff.1 h
    obtain ⟨children, hchildren, hown⟩ := Option.bind_eq_some_iff.1 h
    obtain ⟨hfield, hinside⟩ := hshallow field hfields
    obtain ⟨hnode, rfl⟩ : node.OwnSurvives again ∧ node.children = children :=
      of_readOwn hown hfield (by decide)
    have hchild : ∀ child ∈ node.children,
        (∀ n ∈ child.preorder, n.OwnSurvives again) ∧ child.height ≤ generations := by
      intro child hmem
      cases hliteral : field "children" with
      | none =>
        rw [hliteral] at hchildren
        rw [← Option.some.inj hchildren] at hmem
        cases hmem
      | some literal =>
        rw [hliteral] at hchildren
        cases literal with
        | arr items =>
          obtain ⟨item, hitem, hread⟩ := Codec.mem_of_mapM hchildren hmem
          exact ih (hinside items hliteral item hitem) hread
        | _ => cases hchildren
    refine ⟨fun n hn => ?_, ?_⟩
    · rw [preorder_eq] at hn
      rcases List.mem_cons.1 hn with rfl | hn
      · exact hnode
      · obtain ⟨child, hmem, hn⟩ := mem_preorderAll.1 hn
        exact (hchild child hmem).1 n hn
    · rw [height_eq]
      exact Nat.succ_le_succ (heightAll_le.2 fun child hmem => (hchild child hmem).2)

/-! ## What is written -/

/-- A node is read back when its fields and its children are. -/
theorem survives_of_parts {node : Node} {d : Nat} (hown : node.OwnFits inTagged d)
    (hchildren : ∀ child ∈ node.children, Survives (read inTagged) json d child) :
    Survives (read inTagged) json (d + 2) node := by
  have htext (text : String) : Survives string .str (d + 1) text :=
    ⟨rfl, trivial, Nat.zero_le _⟩
  have hkind : Survives (fun literal => (string literal).map NodeKind.mk)
      (fun kind => .str kind.name) (d + 1) node.kind := ⟨rfl, trivial, Nat.zero_le _⟩
  have hempty : node.style.isEmpty = true → node.style = {} := of_decide_eq_true
  have sid := (htext node.id).required "id"
  have skind := hkind.required "type"
  have sprops := hown.props.unless "props" List.isEmpty_iff.1
  have sstyle := hown.style.unless "style" hempty
  have sevents := Stores.list hown.events "events"
  have smotion := Stores.nullable (fun m hm => ⟨hown.motion m hm, m.json_eq ▸ nofun⟩) "motion"
  have schildren := Stores.list hchildren "children"
  have stext : Stores (d + 1) "text" (nullable string) (Json.fieldIf "text" .str node.text)
      node.text := Stores.nullable (fun text _ => ⟨htext text, nofun⟩) "text"
  have hfits : List.Forall₂ (Fits (d + 1)) fieldNames node.entries := .cons sid.fits
    (.cons skind.fits
    (.cons sprops.fits (.cons sstyle.fits (.cons sevents.fits (.cons smotion.fits
      (.cons schildren.fits (.cons stext.fits .nil)))))))
  obtain ⟨field, hfields, hfinds⟩ := Json.fields?_record hfits (by decide) fieldNames
  rcases hfinds with _ | ⟨fid, _ | ⟨fkind, _ | ⟨fprops, _ | ⟨fstyle, _ | ⟨fevents,
    _ | ⟨fmotion, _ | ⟨fchildren, _ | ⟨ftext, _⟩⟩⟩⟩⟩⟩⟩⟩
  refine ⟨?_, ?_, ?_⟩
  · rw [read_eq, json_eq_record, hfields, Option.bind_some, fchildren, schildren.back,
      Option.bind_some]
    simp only [readOwn, fid, fkind, fprops, fstyle, fevents, fmotion, ftext, sid.back, skind.back,
      sprops.back, sstyle.back, sevents.back, smotion.back, stext.back, bind, pure,
      Option.bind_some]
    cases node with
    | mk => rfl
  · rw [json_eq_record]
    exact Json.keyed_record hfits (by decide)
  · rw [json_eq_record]
    exact Json.depth_record hfits

/-- A node is read back when its fields and its children, however deep, are read back. -/
theorem survives_of_children {node : Node} {e : Nat} (hown : node.OwnFits inTagged e)
    (hchildren : ∀ child ∈ node.children, Survives (read inTagged) json child.json.depth child) :
    Survives (read inTagged) json node.json.depth node := by
  obtain ⟨d, hmax, hitems⟩ : ∃ d, e ≤ d ∧ ∀ child ∈ node.children, child.json.depth ≤ d := by
    refine ⟨max e (Json.itemsDepth (node.children.map json)),
      Nat.le_max_left _ _, fun child hchild => ?_⟩
    exact Nat.le_trans (Json.itemsDepth_le.1 (Nat.le_refl _) _ (List.mem_map_of_mem hchild))
      (Nat.le_max_right _ _)
  have hs := survives_of_parts (hown.mono hmax) fun child hchild =>
    (hchildren child hchild).mono (hitems child hchild)
  exact ⟨hs.back, hs.keyed, Nat.le_refl _⟩

/-- **A tree is read back** when the fields of its nodes are. -/
theorem survives_json {node : Node} {d : Nat} (h : ∀ n ∈ node.preorder, n.OwnFits inTagged d) :
    Survives (read inTagged) json node.json.depth node :=
  of_forall_preorder (fun _ => survives_of_children) h

end Node

/-- **A tree that was read is read back** and is not nested deeper than what was read, each
generation of which has room for two containers. -/
theorem Node.survives_of_read {inTagged again : Bool} {generations : Nat} {literal : Literal}
    {node : Node} (h : read inTagged literal = some node)
    (hdepth : literal.depth ≤ 2 * generations) :
    Survives (read again) json (2 * generations) node := by
  induction generations generalizing literal node with
  | zero =>
    rw [read_eq] at h
    obtain ⟨field, hfields, -⟩ := Option.bind_eq_some_iff.1 h
    exact absurd hdepth (Nat.not_le_of_lt (depth_pos_of_fields? hfields))
  | succ generations ih =>
    rw [read_eq] at h
    obtain ⟨field, hfields, h⟩ := Option.bind_eq_some_iff.1 h
    obtain ⟨children, hchildren, hown⟩ := Option.bind_eq_some_iff.1 h
    have hwithin : Within (2 * generations + 1) field := within_of_fields? hfields hdepth
    obtain ⟨hfits, rfl⟩ : node.OwnFits again (2 * generations) ∧ node.children = children :=
      of_readOwn hown (fun name l _ => hwithin name l) (by omega)
    refine survives_of_parts hfits fun child hchild => ?_
    cases hliteral : field "children" with
    | none =>
      rw [hliteral] at hchildren
      rw [← Option.some.inj hchildren] at hchild
      cases hchild
    | some literal =>
      rw [hliteral] at hchildren
      cases literal with
      | arr items =>
        obtain ⟨item, hitem, hread⟩ := Codec.mem_of_mapM hchildren hchild
        have := Literal.depth_of_mem_arr hitem
        have := hwithin _ _ hliteral
        exact ih hread (by omega)
      | _ => cases hchildren

/-- Every node of a document that was read has fields that survive. -/
theorem Document.ownSurvives_of_read? {text : String} {document : Document}
    (h : read? text = some document) : ∀ n ∈ document.app.preorder, n.OwnSurvives false := by
  obtain ⟨literal, hliteral, h⟩ := Option.bind_eq_some_iff.1 h
  have hmax := JsonReader.depth_of_readText hliteral
  obtain ⟨field, hfields, h⟩ := Option.bind_eq_some_iff.1 h
  obtain ⟨version, -, h⟩ := Option.bind_eq_some_iff.1 h
  obtain ⟨app, happ, h⟩ := Option.bind_eq_some_iff.1 h
  obtain ⟨links, -, h⟩ := Option.bind_eq_some_iff.1 h
  obtain ⟨modules, -, h⟩ := Option.bind_eq_some_iff.1 h
  obtain rfl := Option.some.inj h
  obtain ⟨l, hl, hread⟩ := Option.bind_eq_some_iff.1 happ
  have hdepth : l.depth ≤ maxDepth :=
    within_of_fields? hfields (Nat.le_succ_of_le hmax) "app" l hl
  exact (Node.of_read (Node.shallow_of_depth_le (Nat.le_trans hdepth (by decide : 127 ≤ 2 * 64))
    hdepth) hread).1

end PageTree
