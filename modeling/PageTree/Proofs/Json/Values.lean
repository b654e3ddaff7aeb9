import PageTree.Proofs.Json.Rereading
import PageTree.Proofs.OrderedMap

/-!
# Values that survive printing

A value is read back from its compact text when its objects have distinct keys, its numbers are
read back and it is not nested too deep. What is read from any text has distinct keys and is not
nested too deep, so only the numbers are in question.

## Main definitions

* `Json.depth`, `Literal.depth`: how deep containers are nested
* `Json.Keyed`: the keys of each object are distinct
* `Json.Steady`: each number is read back from its text

## Main results

* `Json.parse?_compact`: a value that survives is read back
* `Literal.keyed_of_value?`: a value that was read has distinct keys
* `JsonReader.depth_of_readText`: what was read is not nested too deep
-/

namespace PageTree

open OrderedMap

/-! ## Depth -/

namespace Json

mutual

/-- How deep containers are nested in a value. -/
def depth : Json → Nat
  | .arr items => itemsDepth items + 1
  | .obj members => membersDepth members + 1
  | _ => 0

/-- The depth of the deepest item. -/
def itemsDepth : List Json → Nat
  | [] => 0
  | item :: items => max item.depth (itemsDepth items)

/-- The depth of the deepest member. -/
def membersDepth : List (String × Json) → Nat
  | [] => 0
  | (_, member) :: members => max member.depth (membersDepth members)

end

theorem itemsDepth_le {items : List Json} {d : Nat} :
    itemsDepth items ≤ d ↔ ∀ item ∈ items, item.depth ≤ d := by
  induction items with
  | nil => simp [itemsDepth]
  | cons item items ih => simp [itemsDepth, ih]

theorem membersDepth_le {members : List (String × Json)} {d : Nat} :
    membersDepth members ≤ d ↔ ∀ m ∈ members, m.2.depth ≤ d := by
  induction members with
  | nil => simp [membersDepth]
  | cons m members ih => simp [membersDepth, ih]

end Json

namespace Literal

mutual

/-- How deep containers are nested in a literal. -/
def depth : Literal → Nat
  | .arr items => itemsDepth items + 1
  | .obj members => membersDepth members + 1
  | _ => 0

/-- The depth of the deepest item. -/
def itemsDepth : List Literal → Nat
  | [] => 0
  | item :: items => max item.depth (itemsDepth items)

/-- The depth of the deepest member. -/
def membersDepth : List (String × Literal) → Nat
  | [] => 0
  | (_, member) :: members => max member.depth (membersDepth members)

end

theorem itemsDepth_le {items : List Literal} {d : Nat} :
    itemsDepth items ≤ d ↔ ∀ item ∈ items, item.depth ≤ d := by
  induction items with
  | nil => simp [itemsDepth]
  | cons item items ih => simp [itemsDepth, ih]

theorem membersDepth_le {members : List (String × Literal)} {d : Nat} :
    membersDepth members ≤ d ↔ ∀ m ∈ members, m.2.depth ≤ d := by
  induction members with
  | nil => simp [membersDepth]
  | cons m members ih => simp [membersDepth, ih]

theorem depth_of_mem_arr {items : List Literal} {item : Literal} (h : item ∈ items) :
    item.depth + 1 ≤ (Literal.arr items).depth :=
  Nat.succ_le_succ (itemsDepth_le.1 (Nat.le_refl _) item h)

theorem depth_of_mem_obj {members : List (String × Literal)} {m : String × Literal}
    (h : m ∈ members) : m.2.depth + 1 ≤ (Literal.obj members).depth :=
  Nat.succ_le_succ (membersDepth_le.1 (Nat.le_refl _) m h)

end Literal

/-! ## Keys and numbers -/

namespace Json

mutual

/-- The keys of each object are distinct. -/
def Keyed : Json → Prop
  | .arr items => KeyedItems items
  | .obj members => (names members).Nodup ∧ KeyedMembers members
  | _ => True

/-- The keys of each object in items are distinct. -/
def KeyedItems : List Json → Prop
  | [] => True
  | item :: items => item.Keyed ∧ KeyedItems items

/-- The keys of each object in members are distinct. -/
def KeyedMembers : List (String × Json) → Prop
  | [] => True
  | (_, member) :: members => member.Keyed ∧ KeyedMembers members

end

theorem keyedItems_iff {items : List Json} : KeyedItems items ↔ ∀ item ∈ items, item.Keyed := by
  induction items with
  | nil => simp [KeyedItems]
  | cons item items ih => simp [KeyedItems, ih]

theorem keyedMembers_iff {members : List (String × Json)} :
    KeyedMembers members ↔ ∀ m ∈ members, m.2.Keyed := by
  induction members with
  | nil => simp [KeyedMembers]
  | cons m members ih => simp [KeyedMembers, ih]

mutual

/-- Each number is read back from its text. -/
def Steady : Json → Prop
  | .num value => value.Rereads
  | .arr items => SteadyItems items
  | .obj members => SteadyMembers members
  | _ => True

/-- Each number in items is read back from its text. -/
def SteadyItems : List Json → Prop
  | [] => True
  | item :: items => item.Steady ∧ SteadyItems items

/-- Each number in members is read back from its text. -/
def SteadyMembers : List (String × Json) → Prop
  | [] => True
  | (_, member) :: members => member.Steady ∧ SteadyMembers members

end

theorem steadyItems_iff {items : List Json} :
    SteadyItems items ↔ ∀ item ∈ items, item.Steady := by
  induction items with
  | nil => simp [SteadyItems]
  | cons item items ih => simp [SteadyItems, ih]

theorem steadyMembers_iff {members : List (String × Json)} :
    SteadyMembers members ↔ ∀ m ∈ members, m.2.Steady := by
  induction members with
  | nil => simp [SteadyMembers]
  | cons m members ih => simp [SteadyMembers, ih]

mutual

/-- Whether each number is read back can be found out by reading. -/
def decidableSteady : (value : Json) → Decidable value.Steady
  | .null => isTrue trivial
  | .bool _ => isTrue trivial
  | .num value => inferInstanceAs (Decidable value.Rereads)
  | .str _ => isTrue trivial
  | .arr items => decidableSteadyItems items
  | .obj members => decidableSteadyMembers members

/-- Whether each number in items is read back can be found out by reading. -/
def decidableSteadyItems : (items : List Json) → Decidable (SteadyItems items)
  | [] => isTrue trivial
  | item :: items =>
    have := decidableSteady item
    have := decidableSteadyItems items
    inferInstanceAs (Decidable (_ ∧ _))

/-- Whether each number in members is read back can be found out by reading. -/
def decidableSteadyMembers : (members : List (String × Json)) → Decidable (SteadyMembers members)
  | [] => isTrue trivial
  | (_, member) :: members =>
    have := decidableSteady member
    have := decidableSteadyMembers members
    inferInstanceAs (Decidable (_ ∧ _))

end

instance (value : Json) : Decidable value.Steady := decidableSteady value

/-! ## Values as literals -/

mutual

/-- What the text of a value says is the value, when its numbers are read back and it is not nested
too deep. -/
theorem reread_eq_literal : ∀ {value : Json} {d : Nat}, value.Steady → value.depth ≤ d →
    value.reread d = value.literal
  | .null, _, _, _ => rfl
  | .bool _, _, _, _ => rfl
  | .num _, _, h, _ => h
  | .str _, _, _, _ => rfl
  | .arr items, d, h, hd => by
    rw [depth] at hd
    rw [reread, literal, if_neg (by omega), rereadItems_eq_literals h (by omega)]
  | .obj members, d, h, hd => by
    rw [depth] at hd
    rw [reread, literal, if_neg (by omega), rereadMembers_eq_literals h (by omega)]

theorem rereadItems_eq_literals : ∀ {items : List Json} {d : Nat}, SteadyItems items →
    itemsDepth items ≤ d → rereadItems d items = itemLiterals items
  | [], _, _, _ => rfl
  | item :: items, d, ⟨hitem, hitems⟩, hd => by
    rw [itemsDepth, Nat.max_le] at hd
    rw [rereadItems, itemLiterals, reread_eq_literal hitem hd.1,
      rereadItems_eq_literals hitems hd.2]

theorem rereadMembers_eq_literals : ∀ {members : List (String × Json)} {d : Nat},
    SteadyMembers members → membersDepth members ≤ d →
    rereadMembers d members = memberLiterals members
  | [], _, _, _ => rfl
  | (key, member) :: members, d, ⟨hmember, hmembers⟩, hd => by
    rw [membersDepth, Nat.max_le] at hd
    rw [rereadMembers, memberLiterals, reread_eq_literal hmember hd.1,
      rereadMembers_eq_literals hmembers hd.2]

end

mutual

/-- A value with distinct keys is the value of its literal. -/
theorem value?_literal : ∀ {value : Json}, value.Keyed → value.literal.value? = some value
  | .null, _ => rfl
  | .bool _, _ => rfl
  | .num _, _ => rfl
  | .str _, _ => rfl
  | .arr items, h => by
    rw [literal, Literal.value?, itemValues?_literals h, Option.map_some]
  | .obj members, ⟨hnames, h⟩ => by
    rw [literal, Literal.value?, memberValues?_literals h, Option.map_some,
      ofEntries_eq_self hnames]

theorem itemValues?_literals : ∀ {items : List Json}, KeyedItems items →
    itemValues? (itemLiterals items) = some items
  | [], _ => rfl
  | item :: items, ⟨hitem, hitems⟩ => by
    rw [itemLiterals, itemValues?, value?_literal hitem, itemValues?_literals hitems]

theorem memberValues?_literals : ∀ {members : List (String × Json)}, KeyedMembers members →
    memberValues? (memberLiterals members) = some members
  | [], _ => rfl
  | (key, member) :: members, ⟨hmember, hmembers⟩ => by
    rw [memberLiterals, memberValues?, value?_literal hmember, memberValues?_literals hmembers]

end

mutual

/-- A value as a literal is nested as deep as the value. -/
theorem depth_literal : ∀ value : Json, value.literal.depth = value.depth
  | .null | .bool _ | .num _ | .str _ => rfl
  | .arr items => congrArg (· + 1) (depth_itemLiterals items)
  | .obj members => congrArg (· + 1) (depth_memberLiterals members)

theorem depth_itemLiterals : ∀ items : List Json,
    Literal.itemsDepth (itemLiterals items) = itemsDepth items
  | [] => rfl
  | item :: items => congrArg₂ max (depth_literal item) (depth_itemLiterals items)

theorem depth_memberLiterals : ∀ members : List (String × Json),
    Literal.membersDepth (memberLiterals members) = membersDepth members
  | [] => rfl
  | (_, member) :: members => congrArg₂ max (depth_literal member) (depth_memberLiterals members)

end

/-- **A value is read back from its compact text** when its keys are distinct, its numbers are read
back and it is not nested too deep. -/
theorem parse?_compact {value : Json} (hkeyed : value.Keyed) (hsteady : value.Steady)
    (hdepth : value.depth ≤ maxDepth) : parse? value.compact = some value := by
  rw [parse?, Literal.read?_compact, reread_eq_literal hsteady hdepth, Option.bind_some,
    value?_literal hkeyed]

end Json

/-! ## Values of literals -/

namespace Literal

mutual

/-- **The value of a literal has distinct keys.** -/
theorem keyed_of_value? : ∀ {literal : Literal} {value : Json}, literal.value? = some value →
    value.Keyed
  | .null, _, h | .bool _, _, h | .num _, _, h | .str _, _, h => by
    obtain rfl := Option.some.inj h
    trivial
  | .arr items, value, h => by
    obtain ⟨values, hvalues, rfl⟩ := Option.map_eq_some_iff.1 h
    exact Json.keyedItems_iff.2 (keyed_of_itemValues? hvalues)
  | .obj members, value, h => by
    obtain ⟨entries, hentries, rfl⟩ := Option.map_eq_some_iff.1 h
    refine ⟨nodup_ofEntries entries, Json.keyedMembers_iff.2 fun m hm => ?_⟩
    exact keyed_of_memberValues? hentries m (mem_of_mem_ofEntries hm)
  | .unusable, _, h => by cases h

theorem keyed_of_itemValues? : ∀ {items : List Literal} {values : List Json},
    itemValues? items = some values → ∀ value ∈ values, value.Keyed
  | [], _, h => by
    obtain rfl := Option.some.inj h
    simp
  | item :: items, values, h => by
    rw [itemValues?] at h
    split at h
    · next value rest hvalue hrest =>
      obtain rfl := Option.some.inj h
      exact List.forall_mem_cons.2 ⟨keyed_of_value? hvalue, keyed_of_itemValues? hrest⟩
    · cases h

theorem keyed_of_memberValues? : ∀ {members : List (String × Literal)}
    {entries : List (String × Json)}, memberValues? members = some entries →
    ∀ entry ∈ entries, entry.2.Keyed
  | [], _, h => by
    obtain rfl := Option.some.inj h
    simp
  | (key, member) :: members, entries, h => by
    rw [memberValues?] at h
    split at h
    · next value rest hvalue hrest =>
      obtain rfl := Option.some.inj h
      exact List.forall_mem_cons.2 ⟨keyed_of_value? hvalue, keyed_of_memberValues? hrest⟩
    · cases h

end

mutual

/-- The value of a literal is not nested deeper than the literal. -/
theorem depth_of_value? : ∀ {literal : Literal} {value : Json}, literal.value? = some value →
    value.depth ≤ literal.depth
  | .null, _, h | .bool _, _, h | .num _, _, h | .str _, _, h => by
    obtain rfl := Option.some.inj h
    exact Nat.le_refl _
  | .arr items, value, h => by
    obtain ⟨values, hvalues, rfl⟩ := Option.map_eq_some_iff.1 h
    exact Nat.succ_le_succ (depth_of_itemValues? hvalues)
  | .obj members, value, h => by
    obtain ⟨entries, hentries, rfl⟩ := Option.map_eq_some_iff.1 h
    refine Nat.succ_le_succ (Json.membersDepth_le.2 fun m hm => ?_)
    exact depth_of_memberValues? hentries m (mem_of_mem_ofEntries hm)
  | .unusable, _, h => by cases h

theorem depth_of_itemValues? : ∀ {items : List Literal} {values : List Json},
    itemValues? items = some values → Json.itemsDepth values ≤ itemsDepth items
  | [], _, h => by
    obtain rfl := Option.some.inj h
    exact Nat.le_refl _
  | item :: items, values, h => by
    rw [itemValues?] at h
    split at h
    · next value rest hvalue hrest =>
      obtain rfl := Option.some.inj h
      have hitem := depth_of_value? hvalue
      have hitems := depth_of_itemValues? hrest
      rw [Json.itemsDepth, itemsDepth]
      omega
    · cases h

theorem depth_of_memberValues? : ∀ {members : List (String × Literal)}
    {entries : List (String × Json)}, memberValues? members = some entries →
    ∀ entry ∈ entries, entry.2.depth ≤ membersDepth members
  | [], _, h => by
    obtain rfl := Option.some.inj h
    simp
  | (key, member) :: members, entries, h => by
    rw [memberValues?] at h
    split at h
    · next value rest hvalue hrest =>
      obtain rfl := Option.some.inj h
      have hmember := depth_of_value? hvalue
      have hmembers := depth_of_memberValues? hrest
      rw [membersDepth]
      refine List.forall_mem_cons.2 ⟨Nat.le_trans hmember (Nat.le_max_left _ _), fun entry he => ?_⟩
      exact Nat.le_trans (hmembers entry he) (Nat.le_max_right _ _)
    · cases h

end

end Literal

/-! ## Depth of what was read -/

namespace JsonReader

theorem depth_usable {α : Type} {make : α → Literal} {d : Nat} (h : ∀ a, (make a).depth ≤ d)
    (value : Option α) : (usable make value).depth ≤ d := by
  cases value with
  | none => exact Nat.zero_le d
  | some a => exact h a

theorem depth_of_readValue_succ {fuel depth : Nat}
    (hitems : ∀ text items rest, readItems fuel (depth - 1) text = some (items, rest) →
      Literal.itemsDepth items ≤ depth - 1)
    (hmembers : ∀ text members rest,
      readMembers fuel (depth - 1) text = some (some members, rest) →
      Literal.membersDepth members ≤ depth - 1)
    {text rest : List Char} {literal : Literal}
    (h : readValue (fuel + 1) depth text = some (literal, rest)) : literal.depth ≤ depth := by
  rw [readValue] at h
  split at h
  · rw [← (Prod.mk.inj (Option.some.inj h)).1]
    exact Nat.zero_le _
  · rw [← (Prod.mk.inj (Option.some.inj h)).1]
    exact Nat.zero_le _
  · rw [← (Prod.mk.inj (Option.some.inj h)).1]
    exact Nat.zero_le _
  · obtain ⟨p, -, hp⟩ := Option.map_eq_some_iff.1 h
    rw [← (Prod.mk.inj hp).1]
    exact depth_usable (fun _ => Nat.zero_le _) _
  · obtain ⟨p, hp, heq⟩ := Option.map_eq_some_iff.1 h
    rw [← (Prod.mk.inj heq).1]
    split_ifs with hzero
    · exact Nat.zero_le _
    · have hinside : Literal.itemsDepth p.1 ≤ depth - 1 := by
        split at hp
        · rw [← Option.some.inj hp]
          exact Nat.zero_le _
        · exact hitems _ p.1 p.2 hp
      rw [Literal.depth]
      omega
  · obtain ⟨p, hp, heq⟩ := Option.map_eq_some_iff.1 h
    rw [← (Prod.mk.inj heq).1]
    split_ifs with hzero
    · exact Nat.zero_le _
    · obtain ⟨members, behind⟩ := p
      cases members with
      | none => exact Nat.zero_le _
      | some members =>
        have hinside : Literal.membersDepth members ≤ depth - 1 := by
          split at hp
          · obtain rfl := Option.some.inj (Prod.mk.inj (Option.some.inj hp)).1
            exact Nat.zero_le _
          · exact hmembers _ members behind hp
        rw [usable, Literal.depth]
        omega
  · obtain ⟨p, -, hp⟩ := Option.map_eq_some_iff.1 h
    rw [← (Prod.mk.inj hp).1]
    exact depth_usable (fun _ => Nat.zero_le _) _

theorem addMember_eq_some {key : Option String} {member : Literal}
    {members : Option (List (String × Literal))} {all : List (String × Literal)}
    (h : addMember key member members = some all) :
    ∃ name rest, members = some rest ∧ all = (name, member) :: rest := by
  cases members with
  | none => cases h
  | some rest =>
    obtain ⟨name, -, rfl⟩ := Option.map_eq_some_iff.1 h
    exact ⟨name, rest, rfl, rfl⟩

/-- What is read where `depth` more containers may be opened is not nested deeper than that; nor
are the items and members that are read there. -/
theorem depth_of_read (fuel : Nat) : ∀ depth,
    (∀ text literal rest, readValue fuel depth text = some (literal, rest) →
      literal.depth ≤ depth) ∧
    (∀ text items rest, readItems fuel depth text = some (items, rest) →
      Literal.itemsDepth items ≤ depth) ∧
    (∀ text members rest, readMembers fuel depth text = some (some members, rest) →
      Literal.membersDepth members ≤ depth) := by
  induction fuel with
  | zero =>
    refine fun depth => ⟨fun _ _ _ h => ?_, fun _ _ _ h => ?_, fun _ _ _ h => ?_⟩ <;> cases h
  | succ fuel ih =>
    intro depth
    obtain ⟨hvalue, hitems, hmembers⟩ := ih depth
    refine ⟨fun text literal rest h => ?_, fun text items rest h => ?_,
      fun text members rest h => ?_⟩
    · exact depth_of_readValue_succ (ih (depth - 1)).2.1 (ih (depth - 1)).2.2 h
    · rw [readItems] at h
      split at h
      · cases h
      · next item behind hitem =>
        have hfirst := hvalue _ _ _ hitem
        split at h
        · obtain rfl := (Prod.mk.inj (Option.some.inj h)).1
          simpa [Literal.itemsDepth] using hfirst
        · obtain ⟨p, hp, heq⟩ := Option.map_eq_some_iff.1 h
          rw [← (Prod.mk.inj heq).1, Literal.itemsDepth]
          exact Nat.max_le.2 ⟨hfirst, hitems _ p.1 p.2 hp⟩
        · cases h
    · rw [readMembers] at h
      split at h
      · cases h
      · split at h
        · cases h
        · next member behind hmember =>
          have hfirst := hvalue _ _ _ hmember
          split at h
          · obtain ⟨name, rest', hrest, rfl⟩ :=
              addMember_eq_some (Prod.mk.inj (Option.some.inj h)).1
            obtain rfl := Option.some.inj hrest
            simpa [Literal.membersDepth] using hfirst
          · obtain ⟨p, hp, heq⟩ := Option.map_eq_some_iff.1 h
            obtain ⟨name, rest', hrest, rfl⟩ := addMember_eq_some (Prod.mk.inj heq).1
            rw [Literal.membersDepth]
            exact Nat.max_le.2 ⟨hfirst, hmembers _ rest' p.2 (by rw [hp, ← hrest])⟩
          · cases h

/-- **What a text says is not nested too deep.** -/
theorem depth_of_readText {depth : Nat} {text : List Char} {literal : Literal}
    (h : readText depth text = some literal) : literal.depth ≤ depth := by
  rw [readText] at h
  split at h
  · next literal' rest hread =>
    split_ifs at h
    obtain rfl := Option.some.inj h
    exact (depth_of_read _ depth).1 _ _ _ hread
  · cases h

end JsonReader

/-- What is parsed has distinct keys and is not nested too deep. -/
theorem Json.of_parse? {text : String} {value : Json} (h : parse? text = some value) :
    value.Keyed ∧ value.depth ≤ maxDepth := by
  obtain ⟨literal, hread, hvalue⟩ := Option.bind_eq_some_iff.1 h
  exact ⟨Literal.keyed_of_value? hvalue,
    Nat.le_trans (Literal.depth_of_value? hvalue) (JsonReader.depth_of_readText hread)⟩

end PageTree
