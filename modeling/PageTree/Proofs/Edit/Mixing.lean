import PageTree.Proofs.Edit.Basic
import PageTree.Proofs.Json.Members

/-!
# Mixed edits

A generator need not pack all members of an edit that may be packed. Whichever of them it writes as
texts, in the edit and in each node of the tree that it carries, unpacking gives the value that the
edit is written as: what may be packed is never a text itself, so unpacking leaves alone what was
not packed.

Unpacking a value twice may change it, as a text may hold a text. That never concerns an edit that
is read after the first time, since it reads no text where a member may be packed.

## Main definitions

* `Json.MixedNode`: a node with some of its members packed, all the way down
* `Edit.Mixed`: an edit with some of its members packed

## Main results

* `Edit.unpackEdit_of_mixed`: a mixed edit is unpacked
* `Edit.ofJson?_unpackEdit`: an edit that is read is read from the unpacked value as well
* `Batch.reads_mixed`: a list of mixed edits is read back
-/

namespace PageTree

open Record

namespace Json

/-- A value that a text of its own holds: its numbers are read back from what is printed of them,
and it is not nested too deep. -/
structure FitsText (value : Json) : Prop where
  steady : value.Steady
  depth : value.depth ≤ maxDepth

mutual

/-- A node and the same node with some of its members packed, at any depth. -/
inductive MixedNode : Json → Json → Prop
  | node {members forms : List (String × Json)} (hmembers : MixedMembers members forms) :
    MixedNode (.obj members) (.obj forms)

/-- The members of a node and the same with some of them packed. -/
inductive MixedMembers : List (String × Json) → List (String × Json) → Prop
  | done : MixedMembers [] []
  | structured {member : String × Json} {members forms : List (String × Json)}
    (hrest : MixedMembers members forms) : MixedMembers (member :: members) (member :: forms)
  | packed {key : String} {value : Json} {members forms : List (String × Json)}
    (hkey : packedOfNode.contains key = true) (hfits : value.FitsText)
    (hrest : MixedMembers members forms) :
    MixedMembers ((key, value) :: members) ((key, value.pack) :: forms)
  | children {items nodes : List Json} {members forms : List (String × Json)}
    (hitems : MixedNodes items nodes) (hrest : MixedMembers members forms) :
    MixedMembers (("children", .arr items) :: members) (("children", .arr nodes) :: forms)

/-- Several nodes and the same with some of their members packed. -/
inductive MixedNodes : List Json → List Json → Prop
  | done : MixedNodes [] []
  | cons {item node : Json} {items nodes : List Json} (hitem : MixedNode item node)
    (hrest : MixedNodes items nodes) : MixedNodes (item :: items) (node :: nodes)

end

/-- A member of an edit and the same with a value in either form. -/
inductive MixedPart : String × Json → String × Json → Prop
  | structured {member : String × Json} : MixedPart member member
  | packed {key : String} {value : Json} (hkey : packedOfEdit.contains key = true)
    (hfits : value.FitsText) : MixedPart (key, value) (key, value.pack)
  | node {value form : Json} (hnode : MixedNode value form) :
    MixedPart ("node", value) ("node", form)

theorem unpack_pack_of_fitsText {value : Json} (hkeyed : value.Keyed) (hfits : value.FitsText)
    (hsame : unpack value = value) : unpack (pack value) = value := by
  cases value with
  | str text => exact hsame
  | _ => exact unpack_pack nofun ⟨hkeyed, hfits.steady⟩ hfits.depth

theorem mapPackedMembers_cons (change : Json → Json) (m : String × Json)
    (members : List (String × Json)) :
    mapPackedMembers change (m :: members) =
      (m.1, mapMember change m.1 m.2) :: mapPackedMembers change members := rfl

mutual

/-- **A mixed node is unpacked**, if the node itself has nothing to unpack. -/
theorem unpackNode_of_mixed : ∀ {value form : Json}, MixedNode value form → value.Keyed →
    unpackNode value = value → unpackNode form = value
  | _, _, .node hmembers, hkeyed, hsame =>
    congrArg obj (unpackMembers_of_mixed hmembers hkeyed.2 (obj.inj hsame))

theorem unpackMembers_of_mixed : ∀ {members forms : List (String × Json)},
    MixedMembers members forms → KeyedMembers members →
      mapPackedMembers unpack members = members → mapPackedMembers unpack forms = members
  | _, _, .done, _, _ => rfl
  | _, _, .structured hrest, hkeyed, hsame => by
    rw [mapPackedMembers_cons] at hsame ⊢
    obtain ⟨hfirst, hothers⟩ := List.cons.inj hsame
    rw [hfirst, unpackMembers_of_mixed hrest hkeyed.2 hothers]
  | _, _, .packed hkey hfits hrest, hkeyed, hsame => by
    rw [mapPackedMembers_cons] at hsame ⊢
    obtain ⟨hfirst, hothers⟩ := List.cons.inj hsame
    have hvalue := (Prod.mk.inj hfirst).2
    rw [mapMember_of_packed hkey] at hvalue ⊢
    rw [unpack_pack_of_fitsText hkeyed.1 hfits hvalue,
      unpackMembers_of_mixed hrest hkeyed.2 hothers]
  | _, _, .children hitems hrest, hkeyed, hsame => by
    rw [mapPackedMembers_cons] at hsame ⊢
    obtain ⟨hfirst, hothers⟩ := List.cons.inj hsame
    have hvalue := (Prod.mk.inj hfirst).2
    rw [mapMember_children] at hvalue ⊢
    rw [unpackNodes_of_mixed hitems hkeyed.1 (arr.inj hvalue),
      unpackMembers_of_mixed hrest hkeyed.2 hothers]

theorem unpackNodes_of_mixed : ∀ {items nodes : List Json}, MixedNodes items nodes →
    KeyedItems items → items.map (mapPacked unpack) = items → nodes.map (mapPacked unpack) = items
  | _, _, .done, _, _ => rfl
  | _, _, .cons hitem hrest, hkeyed, hsame => by
    rw [List.map_cons] at hsame ⊢
    obtain ⟨hfirst, hothers⟩ := List.cons.inj hsame
    have hnode : mapPacked unpack _ = _ := unpackNode_of_mixed hitem hkeyed.1 hfirst
    rw [hnode, unpackNodes_of_mixed hrest hkeyed.2 hothers]

end

end Json

/-! ## Mixed edits -/

namespace Edit

open Json

/-- An edit and what is written of it with some of the members packed. -/
def Mixed (edit : Edit) (form : Json) : Prop :=
  ∃ members, form = .obj members ∧ List.Forall₂ MixedPart (edit.entries.filterMap id) members

theorem unpack_of_mixedPart {m form : String × Json} (h : MixedPart m form) (hkeyed : m.2.Keyed)
    (hsame : mapPart unpack m.1 m.2 = m.2) : (form.1, mapPart unpack form.1 form.2) = m := by
  cases h with
  | structured => exact congrArg (Prod.mk m.1) hsame
  | packed hkey hfits =>
    rw [mapPart_of_packed hkey] at hsame ⊢
    rw [unpack_pack_of_fitsText hkeyed hfits hsame]
  | node hnode =>
    rw [mapPart_node] at hsame ⊢
    exact congrArg (Prod.mk "node") (unpackNode_of_mixed hnode hkeyed hsame)

/-- **A mixed edit is unpacked.** -/
theorem unpackEdit_of_mixed {edit : Edit} {form : Json} (h : edit.Mixed form)
    (hkeyed : edit.json.Keyed) : unpackEdit form = edit.json := by
  obtain ⟨forms, rfl, hforms⟩ := h
  have hmember : ∀ m ∈ edit.entries.filterMap id, m.2.Keyed ∧ mapPart unpack m.1 m.2 = m.2 := by
    intro m hm
    obtain ⟨entry, hentry, rfl⟩ := List.mem_filterMap.1 hm
    exact ⟨keyedMembers_iff.1 hkeyed.2 m hm, mapPart_unpack hentry⟩
  change unpackEdit (.obj forms) = .obj (edit.entries.filterMap id)
  rw [unpackEdit, mapPackedEdit_obj]
  generalize edit.entries.filterMap id = members at hforms hmember
  refine congrArg obj ?_
  induction hforms with
  | nil => rfl
  | cons hfirst _ ih =>
    obtain ⟨⟨hkeyed, hsame⟩, hmember⟩ := List.forall_mem_cons.1 hmember
    rw [List.map_cons, unpack_of_mixedPart hfirst hkeyed hsame, ih hmember]

end Edit

/-! ## Unpacking again -/

namespace Node

variable {inTagged : Bool} {children : List Node} {field : String → Option Literal} {node : Node}

theorem readOwn_congr {other : String → Option Literal}
    (h : ∀ name, name ≠ "children" → other name = field name) :
    readOwn inTagged children other = readOwn inTagged children field := by
  simp only [readOwn, h "id" (by decide), h "type" (by decide), h "props" (by decide),
    h "style" (by decide), h "events" (by decide), h "motion" (by decide), h "text" (by decide)]

/-- Where a member may be packed a node reads no text. -/
theorem ne_str_of_readOwn (h : readOwn inTagged children field = some node) {name : String}
    (hname : packedOfNode.contains name = true) (text : String) :
    field name ≠ some (.str text) := by
  obtain ⟨id, -, h⟩ := Option.bind_eq_some_iff.1 h
  obtain ⟨kind, -, h⟩ := Option.bind_eq_some_iff.1 h
  obtain ⟨props, hprops, h⟩ := Option.bind_eq_some_iff.1 h
  obtain ⟨style, hstyle, h⟩ := Option.bind_eq_some_iff.1 h
  obtain ⟨events, hevents, h⟩ := Option.bind_eq_some_iff.1 h
  obtain ⟨motion, hmotion, -⟩ := Option.bind_eq_some_iff.1 h
  intro htext
  have hcases : name = "props" ∨ name = "style" ∨ name = "events" ∨ name = "motion" := by
    simpa [packedOfNode] using hname
  rcases hcases with rfl | rfl | rfl | rfl
  · rw [htext] at hprops
    cases hprops
  · rw [htext] at hstyle
    cases hstyle
  · rw [htext] at hevents
    cases hevents
  · rw [htext] at hmotion
    cases hmotion

open Json

/-- Where a node was read, unpacking its members leaves the fields other than the children. -/
theorem unpacked_eq_of_readOwn {members : List (String × Json)}
    (h : readOwn inTagged children (fun name => (members.lookup name).map literal) = some node)
    {name : String} (hname : name ≠ "children") :
    ((members.lookup name).map (mapMember unpack name)).map literal =
      (members.lookup name).map literal := by
  cases hlookup : members.lookup name with
  | none => rfl
  | some value =>
    rw [Option.map_some, mapMember, if_neg hname]
    split_ifs with hpacked
    · have htext (text : String) : value ≠ .str text := by
        rintro rfl
        refine ne_str_of_readOwn h hpacked text ?_
        rw [hlookup]
        rfl
      rw [unpack_of_not_text htext]
    · rfl

/-- The children are read again when each of them is. -/
theorem unpacked_children {members : List (String × Json)}
    (h : withDefault [] (listOf (read inTagged)) ((members.lookup "children").map literal) =
      some children)
    (hread : ∀ items, members.lookup "children" = some (.arr items) → ∀ item ∈ items,
      ∀ child, read inTagged item.literal = some child →
        read inTagged (unpackNode item).literal = some child) :
    withDefault [] (listOf (read inTagged))
      (((members.lookup "children").map (mapMember unpack "children")).map literal) =
        some children := by
  cases hlookup : members.lookup "children" with
  | none =>
    rw [hlookup] at h
    exact h
  | some value =>
    rw [hlookup] at h
    cases value with
    | arr items =>
      rw [Option.map_some, mapMember_children]
      exact mapM_itemLiterals h (hread items hlookup)
    | _ => cases h

/-- The induction is on a bound for the depth: a child is two containers inside its parent. -/
theorem read_unpackNode_of_depth {d : Nat} : ∀ {value : Json} {node : Node}, value.depth < d →
    read inTagged value.literal = some node →
      read inTagged (unpackNode value).literal = some node := by
  induction d with
  | zero => exact fun h => absurd h (Nat.not_lt_zero _)
  | succ d ih =>
    intro value node hd h
    cases value with
    | obj members =>
      rw [read_eq] at h
      obtain ⟨field, hfields, h⟩ := Option.bind_eq_some_iff.1 h
      obtain ⟨children, hchildren, hown⟩ := Option.bind_eq_some_iff.1 h
      obtain ⟨hfield, hagain⟩ := fields?_map (mapMember unpack) hfields
      obtain rfl := funext hfield
      have hinside := unpacked_children hchildren fun items hitems item hitem child => by
        have hlist : itemsDepth items + 1 ≤ membersDepth members :=
          membersDepth_le.1 (Nat.le_refl _) _ (OrderedMap.mem_of_lookup hitems)
        have hdepth := itemsDepth_le.1 (Nat.le_refl _) item hitem
        have hroom : membersDepth members + 1 < d + 1 := hd
        exact ih (by omega)
      rw [unpackNode, mapPacked_obj, read_eq, hagain, Option.bind_some, hinside, Option.bind_some,
        readOwn_congr fun name => unpacked_eq_of_readOwn hown, hown]
    | _ => exact h

/-- **A node that is read** is read from the unpacked value as well. -/
theorem read_unpackNode {value : Json} (h : read inTagged value.literal = some node) :
    read inTagged value.unpackNode.literal = some node :=
  read_unpackNode_of_depth (Nat.lt_succ_self _) h

end Node

namespace Edit

open Json

/-- The parts of an edit are what is read in its fields when these are unpacked. -/
theorem IsHeldBy.unpacked {members : List (String × Json)} {edit : Edit}
    (h : edit.IsHeldBy fun name => (members.lookup name).map literal) :
    edit.IsHeldBy fun name =>
      ((members.lookup name).map (mapPart unpack name)).map literal := by
  have hfield {α : Type} {read : Literal → Option α} {name : String} {a : α}
      (hkeep : ∀ value : Json, read value.literal = some a →
        read (mapPart unpack name value).literal = some a)
      (h : required read ((members.lookup name).map literal) = some a) :
      required read (((members.lookup name).map (mapPart unpack name)).map literal) = some a := by
    cases hlookup : members.lookup name with
    | none =>
      rw [hlookup] at h
      cases h
    | some value =>
      rw [hlookup] at h
      exact hkeep value h
  have hpacked {α : Type} {read : Literal → Option α} {name : String} {a : α}
      (hname : packedOfEdit.contains name = true) (htext : ∀ text, read (.str text) = none) :
      ∀ value : Json, read value.literal = some a →
        read (mapPart unpack name value).literal = some a := by
    intro value hread
    have hvalue (text : String) : value ≠ .str text := by
      rintro rfl
      exact nomatch (htext text).symm.trans hread
    rwa [mapPart_of_packed hname, unpack_of_not_text hvalue]
  have hnode {node : Node} : ∀ value : Json, Node.read true value.literal = some node →
      Node.read true (mapPart unpack "node" value).literal = some node := by
    intro value hread
    rw [mapPart_node]
    exact Node.read_unpackNode hread
  cases edit with
  | updateProps | updateStyle | addEvent | updateAnimation =>
    exact ⟨hfield (fun _ h => h) h.1, hfield (hpacked rfl fun _ => rfl) h.2⟩
  | updateText | removeEvent => exact ⟨hfield (fun _ h => h) h.1, hfield (fun _ h => h) h.2⟩
  | delete => exact hfield (fun _ h => h) h
  | replace => exact ⟨hfield (fun _ h => h) h.1, hfield hnode h.2⟩
  | insert =>
    exact ⟨hfield (fun _ h => h) h.1, hfield (fun _ h => h) h.2.1, hfield hnode h.2.2⟩

/-- **An edit that is read** is read from the unpacked value as well. -/
theorem ofJson?_unpackEdit {value : Json} {edit : Edit} (h : ofJson? value = some edit) :
    ofJson? value.unpackEdit = some edit := by
  cases value with
  | obj members =>
    obtain ⟨⟨kind, rest⟩, htagged, hread⟩ := Option.bind_eq_some_iff.1 h
    obtain ⟨others, rfl, hagain⟩ := tagged?_map (mapPart unpack) (fun _ => rfl) htagged
    obtain ⟨rfl, field, hfields, hheld⟩ := readFields_eq_some_iff.1 hread
    obtain ⟨hfield, hfieldsAgain⟩ := fields?_map (mapPart unpack) hfields
    obtain rfl := funext hfield
    exact Option.bind_eq_some_iff.2 ⟨_, hagain,
      readFields_eq_some_iff.2 ⟨rfl, _, hfieldsAgain, hheld.unpacked⟩⟩
  | _ => exact h

end Edit

/-! ## Batches -/

namespace Batch

/-- **Mixed edits are read back.** Take the edits of any list, and of each edit, and of each node in
it at any depth, choose which of the members that may be packed are written as texts. The edits are
read from the forms that this gives, in order, and nothing is left out. And an item that is an edit
once it is unpacked is the same edit when it is unpacked again. -/
theorem reads_mixed (items : List Json) :
    (∀ forms, List.Forall₂ Edit.Mixed (ofItems items).edits forms →
      readPacked (.arr forms) = .ok ⟨(ofItems items).edits, []⟩) ∧
    ∀ (item : Json) (edit : Edit), Edit.ofJson? item.unpackEdit = some edit →
      Edit.ofJson? item.unpackEdit.unpackEdit = some edit := by
  refine ⟨fun forms hforms => ?_, fun _ _ => Edit.ofJson?_unpackEdit⟩
  have hback : ∀ edit ∈ (ofItems items).edits,
      edit.json.Keyed ∧ Edit.ofJson? edit.json = some edit := by
    intro edit hedit
    obtain ⟨item, -, hread⟩ := List.mem_filterMap.1 hedit
    obtain ⟨d, hsurvives⟩ := Edit.exists_survives_of_read hread
    exact ⟨hsurvives.keyed, hsurvives.back⟩
  have hunpacked : forms.map Json.unpackEdit = (ofItems items).edits.map Edit.json := by
    generalize (ofItems items).edits = edits at hforms hback
    induction hforms with
    | nil => rfl
    | cons hfirst _ ih =>
      obtain ⟨⟨hkeyed, -⟩, hback⟩ := List.forall_mem_cons.1 hback
      rw [List.map_cons, List.map_cons, Edit.unpackEdit_of_mixed hfirst hkeyed, ih hback]
  rw [readPacked, hunpacked, ofItems_json fun edit hedit => (hback edit hedit).2]

/-- A replacement by a card with a note, of which the text looks like a packed member. -/
def replacement : Edit := .replace "card" {
  id := "card"
  kind := Primitive.card.kind
  props := [("wide", .bool true)]
  children := [{
    id := "note"
    kind := Primitive.text.kind
    props := [("size", .str "sm")]
    style := { width := some "4em" }
    text := some "\x7b\x7d" }] }

open Json in
theorem reads_mixed_replacement :
    let note : Json := .obj [("id", .str "note"), ("type", .str "Text"),
      ("props", .obj [("size", .str "sm")]), ("style", pack (.obj [("width", .str "4em")])),
      ("text", .str "\x7b\x7d")]
    let card : Json := .obj [("id", .str "card"), ("type", .str "Card"),
      ("props", pack (.obj [("wide", .bool true)])), ("children", .arr [note])]
    let form : Json := .obj [("op", .str "replace"), ("nodeId", .str "card"), ("node", card)]
    List.Forall₂ Edit.Mixed (ofItems [replacement.json]).edits [form] ∧
      readPacked (.arr [form]) = .ok ⟨[replacement], []⟩ ∧
      Edit.ofJson? form.unpackEdit = some replacement ∧
      Edit.ofJson? form.unpackEdit.unpackEdit = some replacement := by
  intro note card form
  have hedits : (ofItems [replacement.json]).edits = [replacement] := rfl
  have hwide : FitsText (.obj [("wide", .bool true)]) := ⟨by decide, by decide⟩
  have hwidth : FitsText (.obj [("width", .str "4em")]) := ⟨by decide, by decide⟩
  have hnote : MixedNode (.obj [("id", .str "note"), ("type", .str "Text"),
      ("props", .obj [("size", .str "sm")]), ("style", .obj [("width", .str "4em")]),
      ("text", .str "\x7b\x7d")]) note :=
    .node (.structured (.structured (.structured (.packed rfl hwidth (.structured .done)))))
  have hcard : MixedNode _ card :=
    .node (.structured (.structured (.packed rfl hwide (.children (.cons hnote .done) .done))))
  have hform : replacement.Mixed form :=
    ⟨_, rfl, .cons .structured (.cons .structured (.cons (.node hcard) .nil))⟩
  have hforms : List.Forall₂ Edit.Mixed (ofItems [replacement.json]).edits [form] :=
    hedits ▸ .cons hform .nil
  have hback : Edit.ofJson? replacement.json = some replacement := rfl
  obtain ⟨d, hsurvives⟩ := Edit.exists_survives_of_read hback
  have honce : Edit.ofJson? form.unpackEdit = some replacement := by
    rw [Edit.unpackEdit_of_mixed hform hsurvives.keyed, hback]
  obtain ⟨hmixed, htwice⟩ := reads_mixed [replacement.json]
  exact ⟨hforms, hmixed [form] hforms, honce, htwice form replacement honce⟩

end Batch

end PageTree
