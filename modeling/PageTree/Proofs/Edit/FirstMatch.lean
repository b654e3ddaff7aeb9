import PageTree.Proofs.Edit.Outermost

/-!
# Updates of the first match

An update searches a tree in pre-order and changes the first node that has the id. When the change
leaves the id of the node and what is inside it alone, all that the update does shows in the table
of contents: the first match there is changed, and no node moves. So two updates are a matter of
lists. Updates of one node come to one update, and updates of different nodes do not see each other.

## Main definitions

* `changeFirst`: a list with its first element that passes a test changed
* `Node.UpdatesFirst`: how a search for the first match goes through trees
* `Node.IsInPlace`: a change of a node that leaves its id and what is inside it alone

## Main results

* `Node.updateFirst_cases`: an update finds nothing or goes through the tree as the search does
* `Node.contents_updateFirst`: an update as a change of the table of contents
* `Node.find?_updateFirst`: the node that is found is changed
* `Node.updateFirst_updateFirst`, `Node.updateFirst_comm`: two updates
-/

namespace PageTree

/-! ## The first match in a list -/

section ChangeFirst

variable {α : Type} {test other : α → Bool} {change edit : α → α}

/-- The list with its first element that passes a test changed. -/
def changeFirst (test : α → Bool) (change : α → α) (list : List α) : List α :=
  list.modify (list.findIdx test) change

theorem changeFirst_cons_of_pos {a : α} (h : test a = true) (list : List α) :
    changeFirst test change (a :: list) = change a :: list := by
  rw [changeFirst, List.findIdx_cons, h, cond_true, List.modify_zero_cons]

theorem changeFirst_cons_of_neg {a : α} (h : test a = false) (list : List α) :
    changeFirst test change (a :: list) = a :: changeFirst test change list := by
  rw [changeFirst, List.findIdx_cons, h, cond_false, List.modify_succ_cons, changeFirst]

theorem changeFirst_of_none {list : List α} (h : list.any test = false) :
    changeFirst test change list = list := by
  rw [changeFirst, List.findIdx_eq_length.2 (by simpa using h),
    List.modify_eq_self (Nat.le_refl _)]

theorem changeFirst_append_of_any {front : List α} (h : front.any test = true) (back : List α) :
    changeFirst test change (front ++ back) = changeFirst test change front ++ back := by
  induction front with
  | nil => cases h
  | cons a front ih =>
    rw [List.cons_append]
    cases ha : test a with
    | true => rw [changeFirst_cons_of_pos ha, changeFirst_cons_of_pos ha, List.cons_append]
    | false =>
      rw [List.any_cons, ha, Bool.false_or] at h
      rw [changeFirst_cons_of_neg ha, changeFirst_cons_of_neg ha, ih h, List.cons_append]

theorem changeFirst_append_of_none {front : List α} (h : front.any test = false) (back : List α) :
    changeFirst test change (front ++ back) = front ++ changeFirst test change back := by
  induction front with
  | nil => rfl
  | cons a front ih =>
    rw [List.any_cons, Bool.or_eq_false_iff] at h
    rw [List.cons_append, changeFirst_cons_of_neg h.1, ih h.2, List.cons_append]

/-- Two changes of the first match are one change when the first one leaves it a match. -/
theorem changeFirst_changeFirst (h : ∀ a, test (change a) = test a) (list : List α) :
    changeFirst test edit (changeFirst test change list) =
      changeFirst test (fun a => edit (change a)) list := by
  induction list with
  | nil => rfl
  | cons a list ih =>
    cases ha : test a with
    | true =>
      rw [changeFirst_cons_of_pos ha, changeFirst_cons_of_pos ((h a).trans ha),
        changeFirst_cons_of_pos ha]
    | false =>
      rw [changeFirst_cons_of_neg ha, changeFirst_cons_of_neg ha, ih, changeFirst_cons_of_neg ha]

/-- Changes of the first matches of two tests that nothing passes both commute when neither makes or
unmakes a match of the other test. -/
theorem changeFirst_comm (hchange : ∀ a, other (change a) = other a)
    (hedit : ∀ a, test (edit a) = test a) (hapart : ∀ a, test a = true → other a = false)
    (list : List α) :
    changeFirst test change (changeFirst other edit list) =
      changeFirst other edit (changeFirst test change list) := by
  induction list with
  | nil => rfl
  | cons a list ih =>
    cases ha : test a with
    | true =>
      have hother := hapart a ha
      rw [changeFirst_cons_of_neg hother, changeFirst_cons_of_pos ha, changeFirst_cons_of_pos ha,
        changeFirst_cons_of_neg ((hchange a).trans hother)]
    | false =>
      rw [changeFirst_cons_of_neg ha]
      cases hother : other a with
      | true =>
        rw [changeFirst_cons_of_pos hother, changeFirst_cons_of_pos hother,
          changeFirst_cons_of_neg ((hedit a).trans ha)]
      | false =>
        rw [changeFirst_cons_of_neg hother, changeFirst_cons_of_neg hother,
          changeFirst_cons_of_neg ha, ih]

end ChangeFirst

namespace Node

/-! ## The first match in a tree -/

/-- How an update goes through several trees: it changes a root that has the id, goes inside the
tree of another root, or passes a tree in which no node has the id. -/
inductive UpdatesFirst (id : String) (change : Node → Node) : List Node → List Node → Prop
  | here {node : Node} {nodes : List Node} (hid : node.id = id) :
    UpdatesFirst id change (node :: nodes) (change node :: nodes)
  | inside {node : Node} {children nodes : List Node} (hid : node.id ≠ id)
    (hinside : UpdatesFirst id change node.children children) :
    UpdatesFirst id change (node :: nodes) ({ node with children } :: nodes)
  | behind {node : Node} {nodes rest : List Node} (hid : id ∉ node.ids)
    (hrest : UpdatesFirst id change nodes rest) :
    UpdatesFirst id change (node :: nodes) (node :: rest)

variable {id other : String} {change edit : Node → Node}

theorem UpdatesFirst.mem {nodes updated : List Node} (h : UpdatesFirst id change nodes updated) :
    id ∈ idsAll nodes := by
  induction h with
  | here hid =>
    rw [idsAll_cons, ids_eq, hid]
    exact List.mem_append_left _ (List.mem_cons_self ..)
  | inside hid hinside ih =>
    rw [idsAll_cons, ids_eq]
    exact List.mem_append_left _ (List.mem_cons_of_mem _ ih)
  | behind hid hrest ih =>
    rw [idsAll_cons]
    exact List.mem_append_right _ ih

theorem updateFirst?_eq (id : String) (change : Node → Node) (node : Node) :
    node.updateFirst? id change =
      if node.id = id then some (change node)
      else (updateFirstAmong? id change node.children).map fun children =>
        { node with children } := by
  cases node with
  | mk => rw [updateFirst?]

/-- A search among several trees finds nothing or goes through them as it should. -/
theorem updateFirstAmong?_cases (id : String) (change : Node → Node) (nodes : List Node) :
    (updateFirstAmong? id change nodes = none ∧ id ∉ idsAll nodes) ∨
      ∃ updated, updateFirstAmong? id change nodes = some updated ∧
        UpdatesFirst id change nodes updated := by
  induction nodes using forest_induction with
  | nil => exact .inl ⟨by rw [updateFirstAmong?], List.not_mem_nil⟩
  | cons node nodes ihInside ihRest =>
    rw [updateFirstAmong?, updateFirst?_eq, idsAll_cons, ids_eq]
    by_cases hid : node.id = id
    · rw [if_pos hid]
      exact .inr ⟨_, rfl, .here hid⟩
    rw [if_neg hid]
    obtain ⟨hnone, hinside⟩ | ⟨children, hchildren, hinside⟩ := ihInside
    · have hnode : id ∉ node.id :: idsAll node.children :=
        List.not_mem_cons_of_ne_of_not_mem (Ne.symm hid) hinside
      rw [hnone]
      obtain ⟨hnone, hbehind⟩ | ⟨rest, hrest, hbehind⟩ := ihRest
      · exact .inl ⟨by rw [hnone]; rfl, List.not_mem_append hnode hbehind⟩
      · exact .inr ⟨node :: rest, by rw [hrest]; rfl, .behind (ids_eq node ▸ hnode) hbehind⟩
    · rw [hchildren]
      exact .inr ⟨_, rfl, .inside hid hinside⟩

/-- **An update** finds nothing and changes nothing, or goes through the tree to the first match. -/
theorem updateFirst_cases (id : String) (change : Node → Node) (root : Node) :
    (id ∉ root.ids ∧ root.updateFirst id change = root) ∨
      UpdatesFirst id change [root] [root.updateFirst id change] := by
  have hcases := updateFirstAmong?_cases id change [root]
  rw [updateFirstAmong?, updateFirstAmong?, idsAll_cons, idsAll_nil, List.append_nil] at hcases
  rw [updateFirst]
  cases hroot : root.updateFirst? id change with
  | none =>
    rw [hroot] at hcases
    obtain ⟨-, hnone⟩ | ⟨updated, hsome, -⟩ := hcases
    · exact .inl ⟨hnone, rfl⟩
    · cases hsome
  | some updated =>
    rw [hroot] at hcases
    obtain ⟨hnone, -⟩ | ⟨updated, hsome, hupdates⟩ := hcases
    · cases hnone
    · obtain rfl := Option.some.inj hsome
      exact .inr hupdates

theorem updateFirst_of_not_mem {root : Node} (h : id ∉ root.ids) :
    root.updateFirst id change = root := by
  obtain ⟨-, hsame⟩ | hupdates := updateFirst_cases id change root
  · exact hsame
  · have hmem := hupdates.mem
    rw [idsAll_cons, idsAll_nil, List.append_nil] at hmem
    exact absurd hmem h

/-! ## Changes in place -/

/-- A change of a node that leaves its id and what is inside it alone, and does not look inside. -/
structure IsInPlace (change : Node → Node) : Prop where
  id (node : Node) : (change node).id = node.id
  withChildren (node : Node) (children : List Node) :
    change { node with children } = { change node with children }

namespace IsInPlace

theorem own (h : IsInPlace change) (node : Node) : (change node).own = change node.own :=
  (h.withChildren node []).symm

theorem children (h : IsInPlace change) (node : Node) : (change node).children = node.children := by
  have hsame := h.withChildren node node.children
  rw [withChildren_eq rfl] at hsame
  rw [hsame]

theorem named (h : IsInPlace change) (id : String) (node : Node) :
    (change node).named id = node.named id := by
  rw [Node.named, h.id, Node.named]

end IsInPlace

/-- The node of an entry has the id. -/
def entryNamed (id : String) (entry : Nat × Node) : Bool := named id entry.2

/-- An entry with its node changed. -/
def changeEntry (change : Node → Node) (entry : Nat × Node) : Nat × Node :=
  (entry.1, change entry.2)

theorem any_named {nodes : List Node} :
    nodes.any (named id) = true ↔ id ∈ nodes.map (·.id) := by
  rw [List.any_eq_true, List.mem_map]
  simp only [named, beq_iff_eq]

theorem any_entryNamed {entries : List (Nat × Node)} {nodes : List Node}
    (h : entries.map Prod.snd = nodes.map own) :
    entries.any (entryNamed id) = true ↔ id ∈ nodes.map (·.id) := by
  have hany := congrArg (List.any · (named id)) h
  rw [List.any_map, List.any_map] at hany
  rw [← any_named]
  exact Bool.eq_iff_iff.1 hany

theorem any_entryNamed_contentsAll {depth : Nat} {nodes : List Node} :
    (contentsAll depth nodes).any (entryNamed id) = true ↔ id ∈ idsAll nodes :=
  any_entryNamed (map_snd_contentsAll nodes depth)

theorem any_entryNamed_contents {depth : Nat} {node : Node} :
    (node.contents depth).any (entryNamed id) = true ↔ id ∈ node.ids :=
  any_entryNamed (map_snd_contents depth node)

theorem contentsAll_of_updatesFirst (h : IsInPlace change) {nodes updated : List Node}
    (hupdates : UpdatesFirst id change nodes updated) : ∀ depth,
      contentsAll depth updated =
        changeFirst (entryNamed id) (changeEntry change) (contentsAll depth nodes) := by
  induction hupdates with
  | @here node nodes hid =>
    intro depth
    have hhere : entryNamed id (depth, node.own) = true := beq_iff_eq.2 hid
    rw [contentsAll_cons, contentsAll_cons, contents_eq, contents_eq, h.own, h.children,
      List.cons_append, List.cons_append, changeFirst_cons_of_pos hhere]
    rfl
  | @inside node children nodes hid hinside ih =>
    intro depth
    have hnot : entryNamed id (depth, node.own) = false := beq_eq_false_iff_ne.2 hid
    rw [contentsAll_cons, contentsAll_cons, contents_eq, contents_eq, List.cons_append,
      List.cons_append, changeFirst_cons_of_neg hnot,
      changeFirst_append_of_any (any_entryNamed_contentsAll.2 hinside.mem), ← ih]
    rfl
  | @behind node nodes rest hid hrest ih =>
    intro depth
    have hnode : (node.contents depth).any (entryNamed id) = false :=
      Bool.eq_false_iff.2 (mt any_entryNamed_contents.1 hid)
    rw [contentsAll_cons, contentsAll_cons, changeFirst_append_of_none hnode, ih]

/-- **An update changes the first match of the table of contents**, if there is one. -/
theorem contents_updateFirst (h : IsInPlace change) (id : String) (root : Node) (depth : Nat) :
    (root.updateFirst id change).contents depth =
      changeFirst (entryNamed id) (changeEntry change) (root.contents depth) := by
  obtain ⟨hnone, hsame⟩ | hupdates := updateFirst_cases id change root
  · rw [hsame, changeFirst_of_none (Bool.eq_false_iff.2 (mt any_entryNamed_contents.1 hnone))]
  · have hall := contentsAll_of_updatesFirst h hupdates depth
    rwa [contentsAll_cons, contentsAll_cons, contentsAll_nil, List.append_nil,
      List.append_nil] at hall

/-! ## The node that is found -/

theorem find?_preorder_of_not_mem {node : Node} (h : id ∉ node.ids) :
    node.preorder.find? (named id) = none :=
  List.find?_eq_none.2 fun n hn heq => h (List.mem_map.2 ⟨n, hn, beq_iff_eq.1 heq⟩)

/-- An update changes the node that is found, and nothing when the change leaves that node alone. -/
theorem UpdatesFirst.exists_found {nodes updated : List Node}
    (h : UpdatesFirst id change nodes updated) :
    ∃ found, (preorderAll nodes).find? (named id) = some found ∧
      (change found = found → updated = nodes) ∧
      (IsInPlace change → (preorderAll updated).find? (named id) = some (change found)) := by
  induction h with
  | @here node nodes hid =>
    have hhere : named id node = true := beq_iff_eq.2 hid
    refine ⟨node, ?_, fun heq => by rw [heq], fun hplace => ?_⟩
    · rw [preorderAll, preorder_eq, List.cons_append, List.find?_cons_of_pos hhere]
    · rw [preorderAll, preorder_eq, List.cons_append,
        List.find?_cons_of_pos ((hplace.named id node).trans hhere)]
  | @inside node children nodes hid hinside ih =>
    obtain ⟨found, hfound, hsame, hchanged⟩ := ih
    have hnot : ¬named id node = true := mt beq_iff_eq.1 hid
    have hnotThere : ¬named id { node with children } = true := hnot
    refine ⟨found, ?_, fun heq => by rw [withChildren_eq (hsame heq)], fun hplace => ?_⟩
    · rw [preorderAll, preorder_eq, List.cons_append, List.find?_cons_of_neg hnot,
        List.find?_append, hfound, Option.some_or]
    · rw [preorderAll, preorder_eq, List.cons_append, List.find?_cons_of_neg hnotThere,
        List.find?_append, hchanged hplace, Option.some_or]
  | @behind node nodes rest hid hrest ih =>
    obtain ⟨found, hfound, hsame, hchanged⟩ := ih
    have hnone := find?_preorder_of_not_mem hid
    refine ⟨found, ?_, fun heq => by rw [hsame heq], fun hplace => ?_⟩
    · rw [preorderAll, List.find?_append, hnone, Option.none_or, hfound]
    · rw [preorderAll, List.find?_append, hnone, Option.none_or, hchanged hplace]

/-- The same for a whole tree, in which nothing may be found. -/
theorem updateFirst_found (id : String) (change : Node → Node) (root : Node) :
    (root.find? id = none ∧ root.updateFirst id change = root) ∨
      ∃ found, root.find? id = some found ∧
        (change found = found → root.updateFirst id change = root) ∧
        (IsInPlace change → (root.updateFirst id change).find? id = some (change found)) := by
  obtain ⟨hnone, hsame⟩ | hupdates := updateFirst_cases id change root
  · exact .inl ⟨find?_preorder_of_not_mem hnone, hsame⟩
  · obtain ⟨found, hfound, hsame, hchanged⟩ := hupdates.exists_found
    rw [preorderAll, preorderAll, List.append_nil] at hfound hchanged
    exact .inr ⟨found, hfound, fun heq => (List.cons.inj (hsame heq)).1, hchanged⟩

/-- **The node that is found is changed.** -/
theorem find?_updateFirst (h : IsInPlace change) (id : String) (root : Node) :
    (root.updateFirst id change).find? id = (root.find? id).map change := by
  obtain ⟨hnone, hsame⟩ | ⟨found, hfound, -, hchanged⟩ := updateFirst_found id change root
  · rw [hsame, hnone, Option.map_none]
  · rw [hchanged h, hfound, Option.map_some]

/-- An update that makes nothing else of the node that is found changes nothing. -/
theorem updateFirst_eq_self {root : Node} (h : ∀ node ∈ root.find? id, change node = node) :
    root.updateFirst id change = root := by
  obtain ⟨-, hsame⟩ | ⟨found, hfound, hsame, -⟩ := updateFirst_found id change root
  · exact hsame
  · exact hsame (h found hfound)

/-! ## Two updates -/

/-- **Two updates of one node are one update.** -/
theorem updateFirst_updateFirst (hchange : IsInPlace change) (hedit : IsInPlace edit)
    (id : String) (root : Node) :
    (root.updateFirst id change).updateFirst id edit =
      root.updateFirst id fun node => edit (change node) := by
  have hboth : IsInPlace fun node => edit (change node) :=
    ⟨fun node => (hedit.id _).trans (hchange.id node), fun node children => by
      rw [hchange.withChildren, hedit.withChildren]⟩
  have hkeeps (entry : Nat × Node) :
      entryNamed id (changeEntry change entry) = entryNamed id entry :=
    hchange.named id entry.2
  refine contents_injective 0 ?_
  rw [contents_updateFirst hedit, contents_updateFirst hchange, contents_updateFirst hboth,
    changeFirst_changeFirst hkeeps]
  rfl

/-- **Updates of different nodes commute.** -/
theorem updateFirst_comm (hchange : IsInPlace change) (hedit : IsInPlace edit) (hne : id ≠ other)
    (root : Node) :
    (root.updateFirst other edit).updateFirst id change =
      (root.updateFirst id change).updateFirst other edit := by
  have hapart (entry : Nat × Node) (h : entryNamed id entry = true) :
      entryNamed other entry = false :=
    beq_eq_false_iff_ne.2 fun heq => hne ((beq_iff_eq.1 h).symm.trans heq)
  refine contents_injective 0 ?_
  rw [contents_updateFirst hchange, contents_updateFirst hedit, contents_updateFirst hedit,
    contents_updateFirst hchange]
  exact changeFirst_comm (fun entry => hchange.named other entry.2)
    (fun entry => hedit.named id entry.2) hapart _

end Node

end PageTree
