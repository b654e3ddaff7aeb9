import PageTree.Proofs.Session.Descent

/-!
# Pages that were just loaded

A page is loaded with a well-formed table, whatever its markup is. The elements of its nodes are in
the document, its clock has not moved, and nothing is scheduled.

## Main definitions

* `Session.IsFresh`: what can be said of a page that was just loaded

## Main results

* `Session.lookup_nodeTable`: the element of a node
* `Session.isFresh_of_load`
-/

namespace PageTree

namespace Session

/-- For each id the table of a page has the first element in the document that carries it. -/
theorem lookup_nodeTable (f : Forest) (id : String) :
    (nodeTable f).lookup id = f.preorder.find? fun i => f.attribute? i idAttribute == some id := by
  have hfold {step : OrderedMap Nat → Nat → OrderedMap Nat}
      (hnone : ∀ table i, f.attribute? i idAttribute = none → step table i = table)
      (hsome : ∀ table i id, f.attribute? i idAttribute = some id →
        step table i = OrderedMap.setNew id i table) (order : List Nat) : ∀ table,
      (order.foldl step table).lookup id =
        (table.lookup id).or (order.find? fun i => f.attribute? i idAttribute == some id) := by
    induction order with
    | nil => simp
    | cons i order ih =>
      intro table
      rw [List.foldl_cons, ih]
      cases hid : f.attribute? i idAttribute with
      | none => rw [hnone table i hid, List.find?_cons_of_neg (by simp [hid])]
      | some other =>
        rw [hsome table i other hid, OrderedMap.lookup_setNew, Option.or_assoc]
        by_cases hsame : id = other
        · rw [if_pos hsame, List.find?_cons_of_pos (by simp [hid, hsame]), Option.some_or]
        · rw [if_neg hsame, List.find?_cons_of_neg (by simpa [hid] using Ne.symm hsame),
            Option.none_or]
  rw [nodeTable, hfold (fun _ _ h => by rw [h]) (fun _ _ _ h => by rw [h])]
  exact Option.none_or

/-- The session is as it was loaded. -/
structure IsFresh (s : Session) : Prop where
  wellFormed : s.forest.WellFormed
  nodes : s.nodes = nodeTable s.forest
  clock : s.clock = 0
  schedule : s.schedule = []
  toasts : s.toasts = []
  animationClasses : s.animationClasses = []
  focused : s.focused = none
  awaited : s.awaited = []
  spent : s.spent = []
  errands : s.errands = []

/-- **What is loaded is well formed**, and nothing was done with it yet. -/
theorem isFresh_of_load {html : String} {s : Session} (hload : load html = .ok s) : s.IsFresh := by
  obtain ⟨forest, hread, hload⟩ := exists_of_bind_eq_ok hload
  obtain ⟨state, -, hload⟩ := exists_of_bind_eq_ok hload
  obtain rfl := Except.ok.inj hload
  have hforest : Forest.read html = .ok forest := by
    cases hmarkup : Forest.read html with
    | error fault =>
      rw [hmarkup] at hread
      cases hread
    | ok other =>
      rw [hmarkup] at hread
      exact congrArg _ (Except.ok.inj hread)
  exact ⟨Forest.wellFormed_of_read hforest, rfl, rfl, rfl, rfl, rfl, rfl, rfl, rfl, rfl⟩

namespace IsFresh

variable {s₀ s : Session}

theorem mem_preorder_of_node? (h : s₀.IsFresh) {id : String} {i : Nat}
    (hnode : s₀.node? id = some i) : i ∈ s₀.forest.preorder := by
  rw [node?, h.nodes, lookup_nodeTable] at hnode
  exact List.mem_of_find?_eq_some hnode

theorem lt_size_of_node? (h : s₀.IsFresh) (id : String) (i : Nat) (hnode : s₀.node? id = some i) :
    i < s₀.forest.size :=
  Forest.lt_size_of_mem_preorder h.wellFormed (h.mem_preorder_of_node? hnode)

/-- What can come of a page that was loaded has what lasts of it. -/
theorem descends (h : s₀.IsFresh) (hfollows : Follows s₀ s) : Descends s₀ s :=
  (hfollows.rests h.wellFormed h.errands).descends

end IsFresh

end Session

end PageTree
