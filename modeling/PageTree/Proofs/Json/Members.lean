import PageTree.Proofs.Json.Records

/-!
# Records with changed members

A reader of records looks for members by their names. When the values of members are changed and
their names stay, it finds the same fields with the changed values in them, and the same kind if
nothing is changed under the tag.

## Main results

* `Record.fields?_map`: the fields of a record with changed members
* `Record.tagged?_map`: the kind and the other fields of a tagged record with changed members
-/

namespace PageTree

open OrderedMap

theorem OrderedMap.lookup_map {α β : Type} (change : String → α → β) (map : OrderedMap α)
    (name : String) :
    List.lookup name (map.map fun m => (m.1, change m.1 m.2)) =
      (map.lookup name).map (change name) := by
  induction map with
  | nil => rfl
  | cons entry map ih =>
    rw [List.map_cons]
    by_cases h : name = entry.1
    · rw [h, lookup_cons_self, lookup_cons_self, Option.map_some]
    · have hne : name ≠ ((entry.1, change entry.1 entry.2) : String × β).1 := h
      rw [lookup_cons_of_ne h, lookup_cons_of_ne hne, ih]

theorem memberLiterals_eq_map (members : List (String × Json)) :
    memberLiterals members = members.map fun m => (m.1, m.2.literal) := by
  induction members with
  | nil => rfl
  | cons m members ih => rw [memberLiterals, ih, List.map_cons]

/-- A list is read again when each of its items is. -/
theorem mapM_itemLiterals {α : Type} {read : Literal → Option α} {change : Json → Json} :
    ∀ {items : List Json} {as : List α}, (itemLiterals items).mapM read = some as →
      (∀ item ∈ items, ∀ a, read item.literal = some a → read (change item).literal = some a) →
        (itemLiterals (items.map change)).mapM read = some as
  | [], _, h, _ => h
  | item :: items, as, h, hread => by
    rw [itemLiterals, List.mapM_cons] at h
    obtain ⟨a, ha, h⟩ := Option.bind_eq_some_iff.1 h
    obtain ⟨rest, hrest, h⟩ := Option.bind_eq_some_iff.1 h
    obtain rfl := Option.some.inj h
    obtain ⟨hitem, hitems⟩ := List.forall_mem_cons.1 hread
    rw [List.map_cons, itemLiterals, List.mapM_cons, hitem a ha, mapM_itemLiterals hrest hitems]
    rfl

/-! ## Values -/

mutual

/-- Every part of the literal of a value has a value. -/
theorem Json.isSome_value?_literal : ∀ value : Json, value.literal.value?.isSome
  | .null | .bool _ | .num _ | .str _ => rfl
  | .arr items => by
    rw [Json.literal, Literal.value?, Option.isSome_map]
    exact isSome_itemValues? items
  | .obj members => by
    rw [Json.literal, Literal.value?, Option.isSome_map]
    exact isSome_memberValues? members

theorem isSome_itemValues? : ∀ items : List Json, (itemValues? (itemLiterals items)).isSome
  | [] => rfl
  | item :: items => by
    obtain ⟨value, hvalue⟩ := Option.isSome_iff_exists.1 (Json.isSome_value?_literal item)
    obtain ⟨values, hvalues⟩ := Option.isSome_iff_exists.1 (isSome_itemValues? items)
    rw [itemLiterals, itemValues?, hvalue, hvalues]
    rfl

theorem isSome_memberValues? : ∀ members : List (String × Json),
    (memberValues? (memberLiterals members)).isSome
  | [] => rfl
  | (key, member) :: members => by
    obtain ⟨value, hvalue⟩ := Option.isSome_iff_exists.1 (Json.isSome_value?_literal member)
    obtain ⟨values, hvalues⟩ := Option.isSome_iff_exists.1 (isSome_memberValues? members)
    rw [memberLiterals, memberValues?, hvalue, hvalues]
    rfl

end

namespace Record

/-! ## Fields -/

theorem fields?_obj_eq_some_iff {known : List String} {members : List (String × Json)}
    {field : String → Option Literal} :
    fields? known (Json.obj members).literal = some field ↔
      (∀ name ∈ known, (names members).count name ≤ 1) ∧
        field = fun name => (members.lookup name).map Json.literal := by
  have hcount (name : String) :
      ((memberLiterals members).filter fun m => m.1 == name).length =
        (names members).count name := by
    rw [length_filter_eq_count, names_memberLiterals]
  rw [Json.literal, fields?]
  simp only [hcount, lookup_memberLiterals]
  split_ifs with hany
  · simp only [List.any_eq_true, decide_eq_true_eq] at hany
    obtain ⟨name, hname, htwice⟩ := hany
    constructor
    · intro h
      cases h
    · exact fun h => absurd (h.1 name hname) (Nat.not_le_of_lt htwice)
  · simp only [List.any_eq_true, decide_eq_true_eq, not_exists, not_and, not_lt] at hany
    exact ⟨fun h => ⟨hany, (Option.some.inj h).symm⟩, fun h => congrArg some h.2.symm⟩

variable {members : List (String × Json)} (change : String → Json → Json)

/-- **Changed members are found** where the members were. -/
theorem fields?_map {known : List String} {field : String → Option Literal}
    (h : fields? known (Json.obj members).literal = some field) :
    (∀ name, field name = (members.lookup name).map Json.literal) ∧
      fields? known (Json.obj (members.map fun m => (m.1, change m.1 m.2))).literal =
        some fun name => ((members.lookup name).map (change name)).map Json.literal := by
  obtain ⟨honce, rfl⟩ := fields?_obj_eq_some_iff.1 h
  have hnames : names (members.map fun m => (m.1, change m.1 m.2)) = names members := by
    rw [names, names, List.map_map]
    rfl
  refine ⟨fun _ => rfl, fields?_obj_eq_some_iff.2 ⟨hnames ▸ honce, ?_⟩⟩
  simp only [lookup_map]

/-! ## Tagged records -/

variable {κ : Type} [Vocabulary κ] {tag : String} {inTagged : Bool} {kind : κ} {rest : Literal}

theorem tagged?_obj_eq_some_iff :
    tagged? tag inTagged (Json.obj members).literal = some (kind, rest) ↔
      ∃ value, members.filter (·.1 == tag) = [(tag, value)] ∧
        kind? inTagged value.literal = some kind ∧
          rest = (Json.obj (members.filter (·.1 != tag))).literal := by
  have hfilter (test : String → Bool) : (memberLiterals members).filter (fun m => test m.1) =
      memberLiterals (members.filter fun m => test m.1) := by
    rw [memberLiterals_eq_map, memberLiterals_eq_map, List.filter_map]
    rfl
  have hunder : (memberLiterals members).filter (·.1 == tag) =
      memberLiterals (members.filter (·.1 == tag)) := hfilter (· == tag)
  have hothers : (memberLiterals members).filter (·.1 != tag) =
      memberLiterals (members.filter (·.1 != tag)) := hfilter (· != tag)
  rw [tagged?, whole, if_pos (Json.isSome_value?_literal _), Json.literal, untag?, hunder, hothers]
  have htag : ∀ m ∈ members.filter (·.1 == tag), m.1 = tag :=
    fun m hm => beq_iff_eq.1 (List.mem_filter.1 hm).2
  generalize members.filter (·.1 == tag) = found at htag ⊢
  rcases found with _ | ⟨⟨name, value⟩, _ | ⟨second, others⟩⟩
  · constructor
    · intro h
      cases h
    · rintro ⟨value, heq, -⟩
      cases heq
  · obtain rfl : name = tag := htag _ (List.mem_singleton_self _)
    change (kind? inTagged value.literal).map _ = _ ↔ _
    rw [Option.map_eq_some_iff]
    constructor
    · rintro ⟨found, hfound, heq⟩
      obtain ⟨rfl, rfl⟩ := Prod.mk.inj heq
      exact ⟨value, rfl, hfound, rfl⟩
    · rintro ⟨other, heq, hkind, rfl⟩
      obtain rfl : value = other := by simpa using heq
      exact ⟨kind, hkind, rfl⟩
  · constructor
    · intro h
      cases h
    · rintro ⟨value, heq, -⟩
      cases heq

/-- **The kind stays** when no member is changed under the tag, and so do the other members, up to
their changes. -/
theorem tagged?_map (htag : ∀ value, change tag value = value)
    (h : tagged? tag inTagged (Json.obj members).literal = some (kind, rest)) :
    ∃ others, rest = (Json.obj others).literal ∧
      tagged? tag inTagged (Json.obj (members.map fun m => (m.1, change m.1 m.2))).literal =
        some (kind, (Json.obj (others.map fun m => (m.1, change m.1 m.2))).literal) := by
  obtain ⟨value, hvalue, hkind, rfl⟩ := tagged?_obj_eq_some_iff.1 h
  refine ⟨_, rfl, tagged?_obj_eq_some_iff.2 ⟨value, ?_, hkind, ?_⟩⟩
  · rw [List.filter_map]
    change (members.filter (·.1 == tag)).map _ = _
    rw [hvalue, List.map_singleton, htag]
  · rw [List.filter_map]
    rfl

end Record

end PageTree
