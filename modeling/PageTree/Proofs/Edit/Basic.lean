import PageTree.Edit.Batch
import PageTree.Proofs.Edit.Packing

/-!
# Edits survive printing and packing

An edit that was read is read back from what is written of it. When it comes from an item of a
list that was read, its parts fit into texts of their own and the tree that it may carry has no
more generations than a list of packed edits has room for.

## Main definitions

* `Edit.PartsSurvive`, `Edit.PartsFit`: the parts of an edit are read back from what is written of
  them
* `Edit.IsHeldBy`: the parts of an edit are what is read in its fields
* `Edit.Portable`: the parts of a literal are not nested too deep

## Main results

* `Edit.readFields_eq_some_iff`: how an edit is read
* `Edit.partsSurvive_of_read`: the parts of an edit that was read survive
* `Edit.ofJson?_json`, `Edit.exists_survives_of_read`: an edit is read back
* `Edit.unpackEdit_packed`, `Edit.depth_packed`: a packed edit is unpacked again
-/

namespace PageTree

open Record

namespace Edit

/-- Generations of a tree that an item of a list has room for. -/
def generations : Nat := 63

/-- A tree that an edit may carry. Its nodes are read back as parts of an edit or, when words
inside tagged records are spelled as elsewhere, as parts of a document. -/
structure CarriesTree (node : Node) (inTagged : Bool := true) : Prop where
  nodes : ∀ n ∈ node.preorder, n.OwnSurvives inTagged
  height : node.height ≤ generations

/-- The parts of an edit are read back from what is written of them. -/
def PartsSurvive (edit : Edit) (inTagged : Bool := true) : Prop :=
  match edit with
  | .updateProps _ props => Survives anyMembers .obj maxDepth props
  | .updateStyle _ style => Survives (Style.read inTagged) Style.json maxDepth style
  | .updateText .. | .delete .. => True
  | .replace _ node | .insert _ _ node => CarriesTree node inTagged
  | .addEvent _ binding => Survives (Binding.read inTagged) Binding.json maxDepth binding
  | .removeEvent _ index => Survives (naturalBelow (twoTo 64)) Json.natural maxDepth index
  | .updateAnimation _ motion => Survives (Motion.read inTagged) Motion.json maxDepth motion

/-- The same, with at most so many containers in what is written of each part. -/
def PartsFit (edit : Edit) (d : Nat) : Prop :=
  match edit with
  | .updateProps _ props => Survives anyMembers .obj d props
  | .updateStyle _ style => Survives (Style.read true) Style.json d style
  | .updateText .. | .delete .. => True
  | .replace _ node | .insert _ _ node => Survives (Node.read true) Node.json d node
  | .addEvent _ binding => Survives (Binding.read true) Binding.json d binding
  | .removeEvent _ index => Survives (naturalBelow (twoTo 64)) Json.natural d index
  | .updateAnimation _ motion => Survives (Motion.read true) Motion.json d motion

theorem PartsSurvive.exists_partsFit {edit : Edit} (h : edit.PartsSurvive) :
    ∃ d, edit.PartsFit d := by
  cases edit with
  | updateText | delete => exact ⟨0, trivial⟩
  | replace | insert => exact ⟨_, Node.survives_json h.nodes⟩
  | updateProps | updateStyle | addEvent | removeEvent | updateAnimation => exact ⟨maxDepth, h⟩

/-! ## What is read -/

/-- The names of the fields of an edit beside its kind. -/
def fieldNames : EditKind → List String
  | .updateProps => ["nodeId", "props"]
  | .updateStyle => ["nodeId", "style"]
  | .updateText => ["nodeId", "text"]
  | .replace => ["nodeId", "node"]
  | .delete => ["nodeId"]
  | .insert => ["parentId", "position", "node"]
  | .addEvent => ["nodeId", "event"]
  | .removeEvent => ["nodeId", "eventIndex"]
  | .updateAnimation => ["nodeId", "motion"]

/-- The parts of an edit are what is read in its fields. -/
def IsHeldBy (field : String → Option Literal) : Edit → Prop
  | .updateProps target props =>
    required string (field "nodeId") = some target ∧
      required anyMembers (field "props") = some props
  | .updateStyle target style =>
    required string (field "nodeId") = some target ∧
      required (Style.read true) (field "style") = some style
  | .updateText target text =>
    required string (field "nodeId") = some target ∧ required string (field "text") = some text
  | .replace target node =>
    required string (field "nodeId") = some target ∧
      required (Node.read true) (field "node") = some node
  | .delete target => required string (field "nodeId") = some target
  | .insert target place node =>
    required string (field "parentId") = some target ∧
      required (word true) (field "position") = some place ∧
      required (Node.read true) (field "node") = some node
  | .addEvent target binding =>
    required string (field "nodeId") = some target ∧
      required (Binding.read true) (field "event") = some binding
  | .removeEvent target index =>
    required string (field "nodeId") = some target ∧
      required (naturalBelow (twoTo 64)) (field "eventIndex") = some index
  | .updateAnimation target motion =>
    required string (field "nodeId") = some target ∧
      required (Motion.read true) (field "motion") = some motion

/-- **An edit is read** where its kind and its parts are. -/
theorem readFields_eq_some_iff {kind : EditKind} {literal : Literal} {edit : Edit} :
    readFields kind literal = some edit ↔
      edit.kind = kind ∧ ∃ field, fields? (fieldNames kind) literal = some field ∧
        edit.IsHeldBy field := by
  constructor
  · intro h
    cases kind with
    | delete =>
      obtain ⟨field, hfields, h⟩ := Option.bind_eq_some_iff.1 h
      obtain ⟨target, htarget, h⟩ := Option.bind_eq_some_iff.1 h
      obtain rfl := Option.some.inj h
      exact ⟨rfl, field, hfields, htarget⟩
    | insert =>
      obtain ⟨field, hfields, h⟩ := Option.bind_eq_some_iff.1 h
      obtain ⟨target, htarget, h⟩ := Option.bind_eq_some_iff.1 h
      obtain ⟨place, hplace, h⟩ := Option.bind_eq_some_iff.1 h
      obtain ⟨node, hnode, h⟩ := Option.bind_eq_some_iff.1 h
      obtain rfl := Option.some.inj h
      exact ⟨rfl, field, hfields, htarget, hplace, hnode⟩
    | updateProps | updateStyle | updateText | replace | addEvent | removeEvent
    | updateAnimation =>
      obtain ⟨field, hfields, h⟩ := Option.bind_eq_some_iff.1 h
      obtain ⟨target, htarget, h⟩ := Option.bind_eq_some_iff.1 h
      obtain ⟨part, hpart, h⟩ := Option.bind_eq_some_iff.1 h
      obtain rfl := Option.some.inj h
      exact ⟨rfl, field, hfields, htarget, hpart⟩
  · rintro ⟨rfl, field, hfields, hheld⟩
    cases edit with
    | delete target =>
      exact Option.bind_eq_some_iff.2 ⟨field, hfields, Option.bind_eq_some_iff.2
        ⟨target, hheld, rfl⟩⟩
    | insert target place node =>
      exact Option.bind_eq_some_iff.2 ⟨field, hfields, Option.bind_eq_some_iff.2
        ⟨target, hheld.1, Option.bind_eq_some_iff.2 ⟨place, hheld.2.1,
          Option.bind_eq_some_iff.2 ⟨node, hheld.2.2, rfl⟩⟩⟩⟩
    | updateProps target part | updateStyle target part | updateText target part
    | replace target part | addEvent target part | removeEvent target part
    | updateAnimation target part =>
      exact Option.bind_eq_some_iff.2 ⟨field, hfields, Option.bind_eq_some_iff.2
        ⟨target, hheld.1, Option.bind_eq_some_iff.2 ⟨part, hheld.2, rfl⟩⟩⟩

/-- The parts of an edit that was read are members of what was read. -/
theorem exists_isHeldBy_of_read {literal : Literal} {edit : Edit} (h : read literal = some edit) :
    ∃ field, (∀ name l, field name = some l → Has name l literal) ∧ edit.IsHeldBy field := by
  obtain ⟨⟨kind, rest⟩, htagged, h⟩ := Option.bind_eq_some_iff.1 h
  obtain ⟨-, field, hfields, hheld⟩ := readFields_eq_some_iff.1 h
  exact ⟨field, fun name l hl => has_of_tagged? htagged (has_of_fields? hfields hl), hheld⟩

/-- The parts of a literal fit into texts of their own, a tree into an item of a list. -/
def Portable (literal : Literal) : Prop :=
  ∀ name l, Has name l literal →
    (name ≠ "node" → l.depth ≤ maxDepth) ∧ (name = "node" → Node.Shallow generations l)

theorem carriesTree_of_read {inTagged : Bool} {field : String → Option Literal}
    {literal : Literal} {node : Node} (h : required (Node.read true) (field "node") = some node)
    (hhas : ∀ name l, field name = some l → Has name l literal) (hportable : Portable literal) :
    CarriesTree node inTagged := by
  obtain ⟨l, hl, hread⟩ := Option.bind_eq_some_iff.1 h
  obtain ⟨hnodes, hheight⟩ := Node.of_read ((hportable _ l (hhas _ l hl)).2 rfl) hread
  exact ⟨hnodes, hheight⟩

theorem survives_of_read {α : Type} {bound : Nat} {read back : Literal → Option α}
    {write : α → Json} (hc : Codec bound read back write) {field : String → Option Literal}
    {literal : Literal} {name : String} {a : α} (h : required read (field name) = some a)
    (hhas : ∀ name l, field name = some l → Has name l literal) (hportable : Portable literal)
    (hname : name ≠ "node") (hbound : bound ≤ maxDepth) : Survives back write maxDepth a := by
  obtain ⟨l, hl, hread⟩ := Option.bind_eq_some_iff.1 h
  exact hc.survives hread ((hportable _ l (hhas _ l hl)).1 hname) hbound

/-- **The parts of an edit that was read survive.** -/
theorem partsSurvive_of_read {inTagged : Bool} {literal : Literal} {edit : Edit}
    (hportable : Portable literal) (h : read literal = some edit) :
    edit.PartsSurvive inTagged := by
  obtain ⟨field, hhas, hheld⟩ := exists_isHeldBy_of_read h
  cases edit with
  | updateProps =>
    exact survives_of_read Codec.anyMembers hheld.2 hhas hportable (by decide) (by decide)
  | updateStyle =>
    exact survives_of_read (Style.codec true inTagged) hheld.2 hhas hportable (by decide)
      (by decide)
  | updateText | delete => exact trivial
  | replace => exact carriesTree_of_read hheld.2 hhas hportable
  | insert => exact carriesTree_of_read hheld.2.2 hhas hportable
  | addEvent =>
    exact survives_of_read (Binding.codec true inTagged) hheld.2 hhas hportable (by decide)
      (by decide)
  | removeEvent =>
    exact survives_of_read (Codec.naturalBelow (twoTo 64)) hheld.2 hhas hportable (by decide)
      (by decide)
  | updateAnimation =>
    exact survives_of_read (Motion.codec true inTagged) hheld.2 hhas hportable (by decide)
      (by decide)

/-- However deep an edit that was read was nested, its parts survive. -/
theorem exists_partsFit_of_read {literal : Literal} {edit : Edit} (h : read literal = some edit) :
    ∃ d, edit.PartsFit d := by
  obtain ⟨field, hhas, hheld⟩ := exists_isHeldBy_of_read h
  -- room for what was read and for the bounds of the parts
  have hroom {name : String} {l : Literal} (hl : field name = some l) :
      l.depth ≤ 2 * (literal.depth + maxDepth) := by
    have := (hhas name l hl).depth_lt
    omega
  have hpart {α : Type} {bound : Nat} {read back : Literal → Option α} {write : α → Json}
      (hc : Codec bound read back write) {name : String} {a : α}
      (h : required read (field name) = some a) (hbound : bound ≤ maxDepth) :
      Survives back write (2 * (literal.depth + maxDepth)) a := by
    obtain ⟨l, hl, hread⟩ := Option.bind_eq_some_iff.1 h
    exact hc.survives hread (hroom hl) (by omega)
  have hnode {node : Node} (h : required (Node.read true) (field "node") = some node) :
      Survives (Node.read true) Node.json (2 * (literal.depth + maxDepth)) node := by
    obtain ⟨l, hl, hread⟩ := Option.bind_eq_some_iff.1 h
    exact Node.survives_of_read hread (hroom hl)
  refine ⟨2 * (literal.depth + maxDepth), ?_⟩
  cases edit with
  | updateProps => exact hpart Codec.anyMembers hheld.2 (by decide)
  | updateStyle => exact hpart (Style.codec true true) hheld.2 (by decide)
  | updateText | delete => exact trivial
  | replace => exact hnode hheld.2
  | insert => exact hnode hheld.2.2
  | addEvent => exact hpart (Binding.codec true true) hheld.2 (by decide)
  | removeEvent => exact hpart (Codec.naturalBelow (twoTo 64)) hheld.2 (by decide)
  | updateAnimation => exact hpart (Motion.codec true true) hheld.2 (by decide)

/-! ## What is written -/

/-- **An edit is read back** when its parts are. -/
theorem survives_of_partsFit {edit : Edit} {d : Nat} (h : edit.PartsFit d) :
    Survives read json (d + 1) edit := by
  have htext (text : String) : Survives string .str d text := ⟨rfl, trivial, Nat.zero_le d⟩
  have hrecord {names : List String} {entries : List (Option (String × Json))}
      {take : (String → Option Literal) → Option Edit} (hkeeps : Keeps d names entries take edit)
      (hnames : ("op" :: names).Nodup)
      (hfields : ∀ literal, readFields edit.kind literal = (fields? names literal).bind take)
      (hwrite : edit.json = .record (Json.field "op" (.word edit.kind) :: entries)) :
      Survives read json (d + 1) edit :=
    hkeeps.tagged hnames (fun _ => rfl) hfields hwrite
  cases edit with
  | delete target =>
    exact hrecord (.cons ((htext target).required _) .done) (by decide) (fun _ => rfl) rfl
  | updateText target text =>
    exact hrecord (.cons ((htext target).required _) (.cons ((htext text).required _) .done))
      (by decide) (fun _ => rfl) rfl
  | insert target place node =>
    have hplace : Survives (word true) Json.word d place :=
      ⟨Vocabulary.ofName?_name place, trivial, Nat.zero_le _⟩
    exact hrecord (.cons ((htext target).required _) (.cons (hplace.required _)
      (.cons (Survives.required h _) .done))) (by decide) (fun _ => rfl) rfl
  | updateProps target _ | updateStyle target _ | replace target _ | addEvent target _
  | removeEvent target _ | updateAnimation target _ =>
    exact hrecord (.cons ((htext target).required _) (.cons (Survives.required h _) .done))
      (by decide) (fun _ => rfl) rfl

theorem survives_json {edit : Edit} (h : edit.PartsSurvive) : ∃ d, Survives read json d edit := by
  obtain ⟨d, hfit⟩ := h.exists_partsFit
  exact ⟨d + 1, survives_of_partsFit hfit⟩

/-- **An edit that was read is read back**, however deep it was nested. -/
theorem exists_survives_of_read {literal : Literal} {edit : Edit} (h : read literal = some edit) :
    ∃ d, Survives read json d edit := by
  obtain ⟨d, hfit⟩ := exists_partsFit_of_read h
  exact ⟨d + 1, survives_of_partsFit hfit⟩

theorem ofJson?_json {edit : Edit} (h : edit.PartsSurvive) : ofJson? edit.json = some edit := by
  obtain ⟨d, hsurvives⟩ := survives_json h
  exact hsurvives.back

end Edit

/-- Edits that are read back one by one are read back from a list of them. -/
theorem Batch.ofItems_json {edits : List Edit}
    (h : ∀ edit ∈ edits, Edit.ofJson? edit.json = some edit) :
    ofItems (edits.map Edit.json) = ⟨edits, []⟩ := by
  have hread : (edits.map Edit.json).filterMap Edit.ofJson? = edits := by
    have hsome : edits.filterMap (Edit.ofJson? ∘ Edit.json) = edits.filterMap some :=
      List.filterMap_congr h
    rw [List.filterMap_map, hsome, List.filterMap_some]
  have hskipped : ∀ p ∈ (edits.map Edit.json).zipIdx, (Edit.ofJson? p.1).isSome := by
    intro p hp
    obtain ⟨edit, hedit, heq⟩ := List.mem_map.1 (List.fst_mem_of_mem_zipIdx hp)
    rw [← heq, h edit hedit]
    rfl
  rw [ofItems, hread]
  refine congrArg (Batch.mk edits) (List.filterMap_eq_nil_iff.2 fun p hp => ?_)
  exact if_pos (hskipped p hp)

namespace Edit

/-! ## Packing -/

open Json

/-- The value of a member of an edit with the packed parts of it changed. -/
def mapPart (change : Json → Json) (key : String) (value : Json) : Json :=
  if packedOfEdit.contains key then change value
  else if key = "node" then mapPacked change value
  else value

theorem mapPackedEdit_obj (change : Json → Json) (members : List (String × Json)) :
    mapPackedEdit change (.obj members) =
      .obj (members.map fun m => (m.1, mapPart change m.1 m.2)) :=
  rfl

theorem mapPart_node (change : Json → Json) (value : Json) :
    mapPart change "node" value = mapPacked change value := by
  rw [mapPart, if_neg (by decide), if_pos rfl]

theorem mapPart_of_packed {change : Json → Json} {key : String} {value : Json}
    (h : packedOfEdit.contains key = true) : mapPart change key value = change value := by
  rw [mapPart, if_pos h]

/-- What is written of an edit, its kind first. -/
def entries (edit : Edit) : List (Option (String × Json)) :=
  field "op" (.word edit.kind) :: edit.jsonFields

/-- The members that an edit is written with: those that can be packed are no texts, and fit into a
text of their own when the parts of the edit survive; the others are a tree, texts or numbers. -/
theorem cases_entries {edit : Edit} {m : String × Json} (hentry : some m ∈ edit.entries) :
    (packedOfEdit.contains m.1 = true ∧ (∀ text, m.2 ≠ .str text) ∧
      (edit.PartsSurvive → m.2.depth ≤ maxDepth)) ∨
    (∃ node, (edit.PartsSurvive → CarriesTree node) ∧ m = ("node", node.json)) ∨
    (∀ change, mapPart change m.1 m.2 = m.2) ∧ m.2.depth = 0 := by
  have hplain (key : String) (value : Json) (hkey : ∀ change, mapPart change key value = value)
      (hvalue : value.depth = 0) (heq : some m = field key value) :
      (∀ change, mapPart change m.1 m.2 = m.2) ∧ m.2.depth = 0 := by
    obtain rfl := Option.some.inj heq
    exact ⟨hkey, hvalue⟩
  have hpacked (key : String) (value : Json) (hkey : packedOfEdit.contains key = true)
      (htext : ∀ text, value ≠ .str text) (hdepth : edit.PartsSurvive → value.depth ≤ maxDepth)
      (heq : some m = field key value) :
      packedOfEdit.contains m.1 = true ∧ (∀ text, m.2 ≠ .str text) ∧
        (edit.PartsSurvive → m.2.depth ≤ maxDepth) := by
    obtain rfl := Option.some.inj heq
    exact ⟨hkey, htext, hdepth⟩
  rcases List.mem_cons.1 hentry with hop | hentry
  · exact .inr (.inr (hplain _ _ (fun _ => rfl) rfl hop))
  cases edit with
  | updateProps target props =>
    rcases List.mem_pair.1 hentry with hpart | hpart
    · exact .inr (.inr (hplain _ _ (fun _ => rfl) rfl hpart))
    · exact .inl (hpacked "props" (.obj props) rfl nofun Survives.depth hpart)
  | updateStyle target style =>
    rcases List.mem_pair.1 hentry with hpart | hpart
    · exact .inr (.inr (hplain _ _ (fun _ => rfl) rfl hpart))
    · exact .inl (hpacked "style" style.json rfl nofun Survives.depth hpart)
  | updateText target text =>
    rcases List.mem_pair.1 hentry with hpart | hpart
    · exact .inr (.inr (hplain _ _ (fun _ => rfl) rfl hpart))
    · exact .inr (.inr (hplain _ _ (fun _ => rfl) rfl hpart))
  | replace target node =>
    rcases List.mem_pair.1 hentry with hpart | hpart
    · exact .inr (.inr (hplain _ _ (fun _ => rfl) rfl hpart))
    · exact .inr (.inl ⟨node, fun h => h, Option.some.inj hpart⟩)
  | delete target =>
    exact .inr (.inr (hplain _ _ (fun _ => rfl) rfl (List.mem_singleton.1 hentry)))
  | insert target place node =>
    rcases List.mem_cons.1 hentry with hpart | hentry
    · exact .inr (.inr (hplain _ _ (fun _ => rfl) rfl hpart))
    rcases List.mem_pair.1 hentry with hpart | hpart
    · exact .inr (.inr (hplain _ _ (fun _ => rfl) rfl hpart))
    · exact .inr (.inl ⟨node, fun h => h, Option.some.inj hpart⟩)
  | addEvent target binding =>
    rcases List.mem_pair.1 hentry with hpart | hpart
    · exact .inr (.inr (hplain _ _ (fun _ => rfl) rfl hpart))
    · exact .inl (hpacked "event" binding.json rfl nofun Survives.depth hpart)
  | removeEvent target index =>
    rcases List.mem_pair.1 hentry with hpart | hpart
    · exact .inr (.inr (hplain _ _ (fun _ => rfl) rfl hpart))
    · exact .inr (.inr (hplain _ _ (fun _ => rfl) rfl hpart))
  | updateAnimation target motion =>
    rcases List.mem_pair.1 hentry with hpart | hpart
    · exact .inr (.inr (hplain _ _ (fun _ => rfl) rfl hpart))
    · exact .inl (hpacked _ _ rfl (motion.json_eq ▸ nofun) Survives.depth hpart)

/-- A member that an edit is written with has nothing to unpack. -/
theorem mapPart_unpack {edit : Edit} {m : String × Json} (hentry : some m ∈ edit.entries) :
    mapPart unpack m.1 m.2 = m.2 := by
  rcases cases_entries hentry with ⟨hpacked, htext, -⟩ | ⟨node, -, rfl⟩ | ⟨hsame, -⟩
  · rw [mapPart_of_packed hpacked, unpack_of_not_text htext]
  · rw [mapPart_node]
    exact node.unpackNode_json
  · exact hsame unpack

/-- **A packed edit is unpacked again.** -/
theorem unpackEdit_packed {edit : Edit} (h : edit.PartsSurvive) (hsturdy : edit.json.Sturdy) :
    unpackEdit edit.packed = edit.json := by
  have hmembers := (sturdy_obj.1 hsturdy).2
  change mapPackedEdit unpack (mapPackedEdit pack (record edit.entries)) = record edit.entries
  rw [record, mapPackedEdit_obj, mapPackedEdit_obj, List.map_map]
  refine congrArg Json.obj ((List.map_congr_left fun m hm => ?_).trans (List.map_id _))
  obtain ⟨entry, hentry, rfl⟩ := List.mem_filterMap.1 hm
  have hvalue : mapPart unpack m.1 (mapPart pack m.1 m.2) = m.2 := by
    rcases cases_entries hentry with ⟨hpacked, htext, hdepth⟩ | ⟨node, hnode, rfl⟩ | ⟨hsame, -⟩
    · rw [mapPart_of_packed hpacked, mapPart_of_packed hpacked,
        unpack_pack htext (hmembers m hm) (hdepth h)]
    · rw [mapPart_node, mapPart_node]
      exact Node.unpackNode_packNode (hnode h).nodes (hmembers _ hm)
    · rw [hsame, hsame]
  exact congrArg (Prod.mk m.1) hvalue

/-- A packed edit is not nested too deep for an item of a list. -/
theorem depth_packed {edit : Edit} (h : edit.PartsSurvive) :
    edit.packed.depth ≤ 2 * generations := by
  change (mapPackedEdit pack (record edit.entries)).depth ≤ _
  rw [record, mapPackedEdit_obj]
  have hparts : ∀ m : String × Json, some m ∈ edit.entries →
      (mapPart pack m.1 m.2).depth < 2 * generations := by
    intro m hentry
    rcases cases_entries hentry with ⟨hpacked, -, -⟩ | ⟨node, hnode, rfl⟩ | ⟨hsame, hdepth⟩
    · rw [mapPart_of_packed hpacked, depth_pack]
      decide
    · rw [mapPart_node]
      exact Nat.lt_of_lt_of_le (Node.depth_packNode node) (Nat.mul_le_mul_left 2 (hnode h).height)
    · rw [hsame, hdepth]
      decide
  refine Nat.succ_le_of_lt (Nat.lt_of_le_pred (by decide) (membersDepth_le.2 fun m hm => ?_))
  obtain ⟨written, hwritten, rfl⟩ := List.mem_map.1 hm
  obtain ⟨entry, hentry, rfl⟩ := List.mem_filterMap.1 hwritten
  exact Nat.le_pred_of_lt (hparts written hentry)

theorem sturdy_packed {edit : Edit} (h : edit.json.Sturdy) : edit.packed.Sturdy := by
  obtain ⟨hnames, hmembers⟩ := sturdy_obj.1 h
  refine sturdy_obj.2 ⟨?_, fun m hm => ?_⟩
  · rw [OrderedMap.names, List.map_map]
    exact hnames
  · obtain ⟨written, hwritten, rfl⟩ := List.mem_map.1 hm
    have hvalue := hmembers written hwritten
    change (mapPart pack written.1 written.2).Sturdy
    rw [mapPart]
    split_ifs
    · exact sturdy_pack _
    · exact sturdy_mapPacked hvalue
    · exact hvalue

/-! ## Items of a list -/

theorem depth_unpack {value : Json} (h : value.depth ≤ maxDepth) :
    (unpack value).depth ≤ maxDepth := by
  cases value with
  | str text =>
    rw [unpack]
    cases hparse : parse? text with
    | none => exact Nat.zero_le _
    | some inside => exact (of_parse? hparse).2
  | _ => exact h

/-- An item of a list that was read has parts that fit, once it is unpacked. -/
theorem portable_unpackEdit {item : Json} (h : item.depth < maxDepth) :
    Portable (unpackEdit item).literal := by
  intro name l hl
  cases item with
  | obj members =>
    rw [unpackEdit, mapPackedEdit_obj] at hl
    obtain ⟨written, hwritten, hm⟩ := exists_of_mem_memberLiterals hl
    obtain ⟨m, hm', rfl⟩ := List.mem_map.1 hwritten
    obtain ⟨rfl, rfl⟩ := Prod.mk.inj hm
    have hinside : m.2.depth + 1 ≤ (obj members).depth :=
      Nat.succ_le_succ (membersDepth_le.1 (Nat.le_refl _) m hm')
    refine ⟨fun hname => ?_, fun hname => ?_⟩
    · have hother : ¬m.1 = "node" := hname
      change (mapPart unpack m.1 m.2).literal.depth ≤ maxDepth
      rw [depth_literal, mapPart, if_neg hother]
      split_ifs
      · exact depth_unpack (by omega)
      · omega
    · have hroom : maxDepth ≤ 2 * generations + 1 := by decide
      change Node.Shallow generations (mapPart unpack m.1 m.2).literal
      rw [show m.1 = "node" from hname, mapPart_node]
      exact Node.shallow_mapPacked (fun _ => depth_unpack) (by omega) (by omega)
  | arr items =>
    obtain ⟨inside, hinside, rfl⟩ := exists_of_mem_itemLiterals hl
    have hdepth : inside.depth + 1 ≤ (arr items).depth :=
      Nat.succ_le_succ (itemsDepth_le.1 (Nat.le_refl _) inside hinside)
    have hroom : maxDepth ≤ 2 * generations + 1 := by decide
    rw [← depth_literal inside] at hdepth
    exact ⟨fun _ => by omega, fun _ => Node.shallow_of_depth_le (by omega) (by omega)⟩
  | _ => cases hl

end Edit

end PageTree
