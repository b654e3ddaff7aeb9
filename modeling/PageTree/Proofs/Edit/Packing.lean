import PageTree.Edit.Packing
import PageTree.Proofs.Tree.Node

/-!
# Packed trees

Packing a tree of which the fields survive loses nothing: unpacking brings the tree back. What is
packed holds nothing but texts and lists of children, so it is nested no deeper than the tree has
generations, two containers for each.

## Main results

* `Json.unpack_pack`: a packed value is unpacked again
* `Node.unpackNode_json`: there is nothing to unpack in what is written of a tree
* `Node.unpackNode_packNode`: a packed tree is unpacked again
* `Node.depth_packNode`: how deep a packed tree is nested
* `Json.sturdy_mapPacked`: a packed value has distinct keys and steady numbers when the value has
-/

namespace PageTree

namespace Json

/-! ## Members of nodes -/

/-- The value of a member of a node with the packed parts of it changed. -/
def mapMember (change : Json → Json) (key : String) (value : Json) : Json :=
  if packedOfNode.contains key then change value
  else if key = "children" then mapPackedChildren change value
  else value

theorem mapPackedMembers_eq_map (change : Json → Json) (members : List (String × Json)) :
    mapPackedMembers change members = members.map fun m => (m.1, mapMember change m.1 m.2) := by
  induction members with
  | nil => rfl
  | cons m members ih => rw [mapPackedMembers, ih, List.map_cons, mapMember]

theorem mapPacked_obj (change : Json → Json) (members : List (String × Json)) :
    mapPacked change (.obj members) =
      .obj (members.map fun m => (m.1, mapMember change m.1 m.2)) := by
  rw [mapPacked, mapPackedMembers_eq_map]

theorem mapPackedAll_eq_map (change : Json → Json) (items : List Json) :
    mapPackedAll change items = items.map (mapPacked change) := by
  induction items with
  | nil => rfl
  | cons item items ih => rw [mapPackedAll, ih, List.map_cons]

theorem mapMember_of_packed {change : Json → Json} {key : String} {value : Json}
    (h : packedOfNode.contains key = true) : mapMember change key value = change value := by
  rw [mapMember, if_pos h]

theorem mapMember_children (change : Json → Json) (items : List Json) :
    mapMember change "children" (.arr items) = .arr (items.map (mapPacked change)) := by
  rw [mapMember, if_neg (by decide), if_pos rfl, mapPackedChildren, mapPackedAll_eq_map]

/-! ## Packing a value -/

/-- The keys of a value are distinct and its numbers are read back. -/
structure Sturdy (value : Json) : Prop where
  keyed : value.Keyed
  steady : value.Steady

theorem depth_pack (value : Json) : (pack value).depth = 0 := by
  cases value with
  | _ => rfl

theorem unpack_of_not_text {value : Json} (htext : ∀ text, value ≠ .str text) :
    unpack value = value := by
  cases value with
  | str text => exact absurd rfl (htext text)
  | _ => rfl

/-- **A packed value is unpacked again**, unless it is a text. -/
theorem unpack_pack {value : Json} (htext : ∀ text, value ≠ .str text) (h : value.Sturdy)
    (hdepth : value.depth ≤ maxDepth) : unpack (pack value) = value := by
  have hpack : pack value = .str value.compact := by
    cases value with
    | str text => exact absurd rfl (htext text)
    | _ => rfl
  rw [hpack, unpack, parse?_compact h.keyed h.steady hdepth, Option.getD_some]

theorem sturdy_pack (value : Json) : (pack value).Sturdy := by
  cases value with
  | _ => exact ⟨trivial, trivial⟩

theorem sturdy_arr {items : List Json} :
    (Json.arr items).Sturdy ↔ ∀ item ∈ items, item.Sturdy :=
  ⟨fun h item hitem => ⟨keyedItems_iff.1 h.keyed item hitem, steadyItems_iff.1 h.steady item hitem⟩,
    fun h => ⟨keyedItems_iff.2 fun item hitem => (h item hitem).keyed,
      steadyItems_iff.2 fun item hitem => (h item hitem).steady⟩⟩

theorem sturdy_obj {members : List (String × Json)} :
    (Json.obj members).Sturdy ↔ (OrderedMap.names members).Nodup ∧ ∀ m ∈ members, m.2.Sturdy :=
  ⟨fun h => ⟨h.keyed.1, fun m hm =>
      ⟨keyedMembers_iff.1 h.keyed.2 m hm, steadyMembers_iff.1 h.steady m hm⟩⟩,
    fun h => ⟨⟨h.1, keyedMembers_iff.2 fun m hm => (h.2 m hm).keyed⟩,
      steadyMembers_iff.2 fun m hm => (h.2 m hm).steady⟩⟩

theorem names_mapPackedMembers (change : Json → Json) (members : List (String × Json)) :
    OrderedMap.names (mapPackedMembers change members) = OrderedMap.names members := by
  rw [mapPackedMembers_eq_map, OrderedMap.names, OrderedMap.names, List.map_map]
  rfl

mutual

/-- A packed tree is no less sturdy. -/
theorem sturdy_mapPacked : ∀ {value : Json}, value.Sturdy → (mapPacked pack value).Sturdy
  | .obj members, h => by
    obtain ⟨hnames, hmembers⟩ := sturdy_obj.1 h
    refine sturdy_obj.2 ⟨?_, sturdy_mapPackedMembers hmembers⟩
    rw [names_mapPackedMembers]
    exact hnames
  | .null, h | .bool _, h | .num _, h | .str _, h | .arr _, h => h

theorem sturdy_mapPackedMembers : ∀ {members : List (String × Json)},
    (∀ m ∈ members, m.2.Sturdy) → ∀ m ∈ mapPackedMembers pack members, m.2.Sturdy
  | [], _ => nofun
  | (key, value) :: members, h => by
    obtain ⟨hvalue, hmembers⟩ := List.forall_mem_cons.1 h
    rw [mapPackedMembers]
    refine List.forall_mem_cons.2 ⟨?_, sturdy_mapPackedMembers hmembers⟩
    split_ifs
    · exact sturdy_pack value
    · exact sturdy_mapPackedChildren hvalue
    · exact hvalue

theorem sturdy_mapPackedChildren : ∀ {value : Json}, value.Sturdy →
    (mapPackedChildren pack value).Sturdy
  | .arr _, h => sturdy_arr.2 (sturdy_mapPackedAll (sturdy_arr.1 h))
  | .null, h | .bool _, h | .num _, h | .str _, h | .obj _, h => h

theorem sturdy_mapPackedAll : ∀ {items : List Json}, (∀ item ∈ items, item.Sturdy) →
    ∀ item ∈ mapPackedAll pack items, item.Sturdy
  | [], _ => nofun
  | item :: items, h => by
    obtain ⟨hitem, hitems⟩ := List.forall_mem_cons.1 h
    exact List.forall_mem_cons.2 ⟨sturdy_mapPacked hitem, sturdy_mapPackedAll hitems⟩

end

end Json

/-! ## Packing a tree -/

namespace Node

open Json

variable {inTagged : Bool}

/-- The members that a node is written with: those that can be packed are no texts, and fit into a
text of their own when the fields of the node survive; the others are texts or the children. -/
theorem cases_entries {node : Node} {m : String × Json} (hentry : some m ∈ node.entries) :
    (packedOfNode.contains m.1 = true ∧ (∀ text, m.2 ≠ .str text) ∧
      ∀ {inTagged}, node.OwnSurvives inTagged → m.2.depth ≤ maxDepth) ∨
    (node.children ≠ [] ∧ m = ("children", .arr (node.children.map json))) ∨
    (∀ change, mapMember change m.1 m.2 = m.2) ∧ m.2.depth = 0 := by
  simp only [entries, List.mem_cons, List.not_mem_nil, or_false] at hentry
  rcases hentry with he | he | he | he | he | he | he | he
  · obtain rfl := Option.some.inj he
    exact .inr (.inr ⟨fun _ => rfl, rfl⟩)
  · obtain rfl := Option.some.inj he
    exact .inr (.inr ⟨fun _ => rfl, rfl⟩)
  · split_ifs at he
    obtain rfl := Option.some.inj he
    exact .inl ⟨rfl, fun _ => by simp, fun h => h.props.depth⟩
  · split_ifs at he
    obtain rfl := Option.some.inj he
    exact .inl ⟨rfl, fun _ => by simp [Style.json, record], fun h => h.style.depth⟩
  · cases hevents : node.events with
    | nil =>
      rw [hevents] at he
      cases he
    | cons binding events =>
      rw [hevents] at he
      obtain rfl := Option.some.inj he
      refine .inl ⟨rfl, fun _ => by simp, fun h => ?_⟩
      have hdepth := (Survives.listOf h.events).depth
      rwa [hevents] at hdepth
  · obtain ⟨motion, hmotion, rfl⟩ := Option.map_eq_some_iff.1 he.symm
    refine .inl ⟨rfl, fun text => ?_, fun h => (h.motion motion hmotion).depth⟩
    rw [motion.json_eq]
    simp [record]
  · cases hchildren : node.children with
    | nil =>
      rw [hchildren] at he
      cases he
    | cons child children =>
      rw [hchildren] at he
      exact .inr (.inl ⟨List.cons_ne_nil _ _, Option.some.inj he⟩)
  · obtain ⟨text, -, rfl⟩ := Option.map_eq_some_iff.1 he.symm
    exact .inr (.inr ⟨fun _ => rfl, rfl⟩)

/-- **A tree that is written has nothing to unpack.** -/
theorem unpackNode_json (node : Node) : unpackNode node.json = node.json := by
  induction node using tree_induction with
  | node node ih =>
    rw [json_eq_record, record, unpackNode, mapPacked_obj]
    refine congrArg Json.obj ((List.map_congr_left fun m hm => ?_).trans (List.map_id _))
    obtain ⟨entry, hentry, rfl⟩ := List.mem_filterMap.1 hm
    have hvalue : mapMember unpack m.1 m.2 = m.2 := by
      rcases cases_entries hentry with ⟨hpacked, htext, -⟩ | ⟨-, rfl⟩ | ⟨hsame, -⟩
      · rw [mapMember_of_packed hpacked, unpack_of_not_text htext]
      · rw [mapMember_children, List.map_map]
        exact congrArg Json.arr (List.map_congr_left ih)
      · exact hsame unpack
    exact congrArg (Prod.mk m.1) hvalue

theorem unpackNode_of_children {node : Node} (hown : node.OwnSurvives inTagged)
    (hsturdy : node.json.Sturdy)
    (hchildren : ∀ child ∈ node.children, unpackNode (packNode child.json) = child.json) :
    unpackNode (packNode node.json) = node.json := by
  rw [json_eq_record, record, sturdy_obj] at hsturdy
  rw [json_eq_record, record, packNode, unpackNode, mapPacked_obj, mapPacked_obj, List.map_map]
  refine congrArg Json.obj ((List.map_congr_left fun m hm => ?_).trans (List.map_id _))
  obtain ⟨entry, hentry, rfl⟩ := List.mem_filterMap.1 hm
  have hvalue : mapMember unpack m.1 (mapMember pack m.1 m.2) = m.2 := by
    rcases cases_entries hentry with ⟨hpacked, htext, hdepth⟩ | ⟨-, rfl⟩ | ⟨hsame, -⟩
    · rw [mapMember_of_packed hpacked, mapMember_of_packed hpacked,
        unpack_pack htext (hsturdy.2 m hm) (hdepth hown)]
    · rw [mapMember_children, mapMember_children, List.map_map, List.map_map]
      exact congrArg Json.arr (List.map_congr_left hchildren)
    · rw [hsame, hsame]
  exact congrArg (Prod.mk m.1) hvalue

theorem sturdy_child {node : Node} (h : node.json.Sturdy) :
    ∀ child ∈ node.children, child.json.Sturdy := by
  intro child hchild
  have hentry : some ("children", .arr (node.children.map json)) ∈ node.entries := by
    obtain ⟨first, children, hchildren⟩ := List.exists_cons_of_ne_nil (List.ne_nil_of_mem hchild)
    simp [entries, fieldUnlessEmpty, hchildren]
  rw [json_eq_record, record, sturdy_obj] at h
  have hlist := h.2 _ (List.mem_filterMap.2 ⟨_, hentry, rfl⟩)
  exact sturdy_arr.1 hlist _ (List.mem_map_of_mem hchild)

/-- **A packed tree is unpacked again.** -/
theorem unpackNode_packNode {node : Node} (h : ∀ n ∈ node.preorder, n.OwnSurvives inTagged)
    (hsturdy : node.json.Sturdy) : unpackNode (packNode node.json) = node.json := by
  have hstep (node : Node) (hown : node.OwnSurvives inTagged)
      (hchildren : ∀ child ∈ node.children, child.json.Sturdy →
        unpackNode (packNode child.json) = child.json) (hsturdy : node.json.Sturdy) :
      unpackNode (packNode node.json) = node.json :=
    unpackNode_of_children hown hsturdy fun child hchild =>
      hchildren child hchild (sturdy_child hsturdy child hchild)
  exact of_forall_preorder hstep h hsturdy

theorem depth_of_children {node : Node}
    (hchildren : ∀ child ∈ node.children, (packNode child.json).depth < 2 * child.height) :
    (packNode node.json).depth < 2 * node.height := by
  have hmembers : ∀ m : String × Json, some m ∈ node.entries →
      (mapMember pack m.1 m.2).depth ≤ 2 * heightAll node.children := by
    intro m hentry
    rcases cases_entries hentry with ⟨hpacked, -, -⟩ | ⟨hsome, rfl⟩ | ⟨hsame, hdepth⟩
    · rw [mapMember_of_packed hpacked, depth_pack]
      exact Nat.zero_le _
    · rw [mapMember_children, List.map_map, depth]
      obtain ⟨first, children, hlist⟩ := List.exists_cons_of_ne_nil hsome
      have hitems : ∀ item ∈ node.children.map (mapPacked pack ∘ json),
          item.depth ≤ 2 * heightAll node.children - 1 := by
        intro item hitem
        obtain ⟨child, hchild, rfl⟩ := List.mem_map.1 hitem
        have hdepth : (mapPacked pack child.json).depth < 2 * child.height := hchildren child hchild
        have hheight := heightAll_le.1 (Nat.le_refl _) child hchild
        rw [Function.comp_apply]
        omega
      have := itemsDepth_le.2 hitems
      have hfirst := heightAll_le.1 (Nat.le_refl (heightAll node.children)) first (by simp [hlist])
      have := height_eq first
      omega
    · rw [hsame, hdepth]
      exact Nat.zero_le _
  rw [height_eq, json_eq_record, record, packNode, mapPacked_obj, depth]
  refine Nat.lt_of_lt_of_le (Nat.succ_lt_succ (Nat.lt_succ_of_le (membersDepth_le.2 ?_)))
    (Nat.le_of_eq (Nat.mul_succ 2 _).symm)
  intro m hm
  obtain ⟨written, hwritten, rfl⟩ := List.mem_map.1 hm
  obtain ⟨entry, hentry, rfl⟩ := List.mem_filterMap.1 hwritten
  exact hmembers written hentry

/-- **A packed tree is nested two containers deep for each generation**, less the one for children
that the last generation does not have. -/
theorem depth_packNode (node : Node) : (packNode node.json).depth < 2 * node.height := by
  induction node using tree_induction with
  | node node ih => exact depth_of_children ih

/-! ## Unpacking a tree -/

/-- Changing the packed members of a tree keeps its generations, and keeps its fields from being
nested too deep when the change does. -/
theorem shallow_mapPacked {change : Json → Json}
    (hchange : ∀ value : Json, value.depth ≤ maxDepth → (change value).depth ≤ maxDepth)
    {generations : Nat} {value : Json} (hgenerations : value.depth ≤ 2 * generations)
    (hmax : value.depth ≤ maxDepth) : Shallow generations (mapPacked change value).literal := by
  induction generations generalizing value with
  | zero =>
    cases value with
    | arr items => exact absurd hgenerations (Nat.not_succ_le_zero _)
    | obj members => exact absurd hgenerations (Nat.not_succ_le_zero _)
    | _ => rfl
  | succ generations ih =>
    cases value with
    | obj members =>
      rw [mapPacked_obj]
      intro field hfields
      have hmember : ∀ {name l}, field name = some l → ∃ inside : Json,
          l = (mapMember change name inside).literal ∧ inside.depth + 1 ≤ (obj members).depth := by
        intro name l hl
        obtain ⟨written, hwritten, hm⟩ :=
          exists_of_mem_memberLiterals (Record.has_of_fields? hfields hl)
        obtain ⟨m, hm', rfl⟩ := List.mem_map.1 hwritten
        obtain ⟨rfl, rfl⟩ := Prod.mk.inj hm
        exact ⟨m.2, rfl, Nat.succ_le_succ (membersDepth_le.1 (Nat.le_refl _) m hm')⟩
      refine ⟨fun name l hname hl => ?_, fun items hitems item hitem => ?_⟩
      · obtain ⟨inside, rfl, hinside⟩ := hmember hl
        rw [depth_literal, mapMember]
        split_ifs
        · exact hchange inside (by omega)
        · omega
      · obtain ⟨inside, heq, hinside⟩ := hmember hitems
        cases inside with
        | arr values =>
          rw [mapMember_children] at heq
          obtain rfl := Literal.arr.inj heq
          obtain ⟨value, hvalue, rfl⟩ := exists_of_mem_itemLiterals hitem
          obtain ⟨child, hchild, rfl⟩ := List.mem_map.1 hvalue
          have hdepth : child.depth + 1 ≤ (arr values).depth :=
            Nat.succ_le_succ (itemsDepth_le.1 (Nat.le_refl _) child hchild)
          exact ih (by omega) (by omega)
        | _ => cases heq
    | _ =>
      rw [← depth_literal] at hgenerations hmax
      exact shallow_of_depth_le hgenerations hmax

end Node

end PageTree
