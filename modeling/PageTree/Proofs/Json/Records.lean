import Mathlib.Data.List.Forall2
import PageTree.Json.Record
import PageTree.Proofs.Json.Values

/-!
# Records that survive printing

How a record is read back from what is written of it. A field of a written record knows its name,
so its value is found where the reader looks for it; from there on each reader of fields is a
matter of the values in the fields.

## Main definitions

* `Survives`: a thing is read back from the value that is written of it
* `Stores`: a field is read back from the entry that is written of it

## Main results

* `Json.fields?_record`: the fields of a written record are found under their names
* `Record.tagged?_record`: the kind of a written tagged record is found
-/

namespace PageTree

open OrderedMap

variable {α β : Type}

/-- A thing is read back from the value that is written of it, and that value has distinct keys and
is at most so deep. -/
structure Survives (read : Literal → Option α) (write : α → Json) (d : Nat) (a : α) : Prop where
  back : read (write a).literal = some a
  keyed : (write a).Keyed
  depth : (write a).depth ≤ d

theorem Survives.mono {read : Literal → Option α} {write : α → Json} {d e : Nat} {a : α}
    (h : Survives read write d a) (hle : d ≤ e) : Survives read write e a :=
  ⟨h.back, h.keyed, Nat.le_trans h.depth hle⟩

/-- The entry of a field has the name, distinct keys and at most this depth. -/
def Fits (d : Nat) (name : String) (entry : Option (String × Json)) : Prop :=
  ∀ e, entry = some e → e.1 = name ∧ e.2.Keyed ∧ e.2.depth ≤ d

/-- What is in the field of an entry. -/
def fieldLiteral (entry : Option (String × Json)) : Option Literal :=
  entry.map fun e => e.2.literal

/-- A field is read back from its entry. -/
structure Stores (d : Nat) (name : String) (take : Option Literal → Option β)
    (entry : Option (String × Json)) (b : β) : Prop where
  fits : Fits d name entry
  back : take (fieldLiteral entry) = some b

/-! ## Values in fields -/

theorem Survives.required {read : Literal → Option α} {write : α → Json} {d : Nat} {a : α}
    (h : Survives read write d a) (name : String) :
    Stores d name (Record.required read) (Json.field name (write a)) a where
  fits e he := by
    obtain rfl := Option.some.inj he
    exact ⟨rfl, h.keyed, h.depth⟩
  back := h.back

theorem Survives.withDefault {read : Literal → Option α} {write : α → Json} {d : Nat} {a : α}
    (h : Survives read write d a) (name : String) (default : α) :
    Stores d name (Record.withDefault default read) (Json.field name (write a)) a where
  fits := (h.required name).fits
  back := h.back

/-- A field that is left out when it has its default is read back. -/
theorem Survives.unless {read : Literal → Option α} {write : α → Json} {d : Nat} {a default : α}
    (h : Survives read write d a) (name : String) {absent : Bool}
    (hdefault : absent = true → a = default) :
    Stores d name (Record.withDefault default read)
      (if absent then none else Json.field name (write a)) a := by
  cases absent with
  | true => exact ⟨fun _ he => (nomatch he), congrArg some (hdefault rfl).symm⟩
  | false => exact h.withDefault name default

theorem Stores.nullable {read : Literal → Option α} {write : α → Json} {d : Nat}
    {value : Option α}
    (h : ∀ a, value = some a → Survives read write d a ∧ (write a).literal ≠ .null)
    (name : String) :
    Stores d name (Record.nullable read) (Json.fieldIf name write value) value := by
  cases value with
  | none => exact ⟨fun _ he => (nomatch he), rfl⟩
  | some a =>
    obtain ⟨hs, hnull⟩ := h a rfl
    refine ⟨(hs.required name).fits, ?_⟩
    change Record.nullable read (some (write a).literal) = some (some a)
    rw [Record.nullable.eq_3 read _ fun heq => hnull heq, hs.back]
    rfl

theorem Stores.word [Vocabulary α] {d : Nat} {again : Bool} (name : String) (value : Option α) :
    Stores d name (Record.nullable (Record.word again)) (Json.fieldIf name .word value) value :=
  Stores.nullable (fun a _ => by exact ⟨⟨Vocabulary.ofName?_name a, trivial, Nat.zero_le d⟩, nofun⟩)
    name

theorem Stores.string {d : Nat} (name : String) (value : Option String) :
    Stores d name (Record.nullable Record.string) (Json.fieldIf name .str value) value :=
  Stores.nullable (fun _ _ => by exact ⟨⟨rfl, trivial, Nat.zero_le d⟩, nofun⟩) name

theorem Stores.float {d : Nat} (name : String) (value : Option Binary64) :
    Stores d name (Record.nullable Record.float) (Json.fieldIf name .float value) value :=
  Stores.nullable (fun _ _ => by exact ⟨⟨rfl, trivial, Nat.zero_le d⟩, nofun⟩) name

theorem mapM_literals {read : Literal → Option α} {write : α → Json} {d : Nat} {as : List α}
    (h : ∀ a ∈ as, Survives read write d a) :
    (itemLiterals (as.map write)).mapM read = some as := by
  induction as with
  | nil => rfl
  | cons a as ih =>
    rw [List.map_cons, itemLiterals, List.mapM_cons, (h a (by simp)).back,
      ih fun b hb => h b (by simp [hb])]
    rfl

/-- A list is read back when its items are. -/
theorem Survives.listOf {read : Literal → Option α} {write : α → Json} {d : Nat} {as : List α}
    (h : ∀ a ∈ as, Survives read write d a) :
    Survives (Record.listOf read) (fun as => .arr (as.map write)) (d + 1) as where
  back := mapM_literals h
  keyed := Json.keyedItems_iff.2 fun item hitem => by
    obtain ⟨a, ha, rfl⟩ := List.mem_map.1 hitem
    exact (h a ha).keyed
  depth := Nat.succ_le_succ <| Json.itemsDepth_le.2 fun item hitem => by
    obtain ⟨a, ha, rfl⟩ := List.mem_map.1 hitem
    exact (h a ha).depth

theorem Stores.list {read : Literal → Option α} {write : α → Json} {d : Nat} {as : List α}
    (h : ∀ a ∈ as, Survives read write d a) (name : String) :
    Stores (d + 1) name (Record.withDefault [] (Record.listOf read))
      (Json.fieldUnlessEmpty name write as) as := by
  cases as with
  | nil => exact ⟨fun _ he => (nomatch he), rfl⟩
  | cons a as => exact (Survives.listOf h).withDefault name []

/-! ## Records -/

theorem names_record_sublist {d : Nat} {names : List String}
    {entries : List (Option (String × Json))} (h : List.Forall₂ (Fits d) names entries) :
    (OrderedMap.names (entries.filterMap id)).Sublist names := by
  induction h with
  | nil => exact List.Sublist.refl _
  | @cons name entry names entries hfirst _ ih =>
    cases entry with
    | none => exact ih.cons name
    | some e =>
      obtain ⟨rfl, -⟩ := hfirst e rfl
      exact ih.cons_cons e.1

/-- A look-up finds what is in the entries under their names. -/
def Finds (field : String → Option Literal) (names : List String)
    (entries : List (Option (String × Json))) : Prop :=
  List.Forall₂ (fun name entry => field name = fieldLiteral entry) names entries

theorem finds_of_forall_ne {field other : String → Option Literal} {names : List String}
    {entries : List (Option (String × Json))} (h : Finds field names entries)
    (hsame : ∀ name ∈ names, other name = field name) : Finds other names entries := by
  induction h with
  | nil => exact .nil
  | cons hfirst _ ih =>
    obtain ⟨hname, hnames⟩ := List.forall_mem_cons.1 hsame
    exact .cons (hname.trans hfirst) (ih hnames)

theorem finds_record {d : Nat} {names : List String} {entries : List (Option (String × Json))}
    (h : List.Forall₂ (Fits d) names entries) (hnames : names.Nodup) :
    Finds (fun name => ((entries.filterMap id).lookup name).map Json.literal) names entries := by
  induction h with
  | nil => exact .nil
  | @cons name entry names entries hfirst hrest ih =>
    obtain ⟨hnot, hnodup⟩ := List.nodup_cons.1 hnames
    cases entry with
    | none =>
      have habsent : (entries.filterMap id).lookup name = none :=
        lookup_eq_none_iff.2 fun hin => hnot ((names_record_sublist hrest).subset hin)
      exact .cons (congrArg _ habsent) (ih hnodup)
    | some e =>
      obtain ⟨rfl, -⟩ := hfirst e rfl
      have hlookup : ((some e :: entries).filterMap id).lookup e.1 = some e.2 :=
        List.lookup_cons_self
      refine .cons (congrArg _ hlookup) (finds_of_forall_ne (ih hnodup) fun other hother => ?_)
      have hne : other ≠ e.1 := fun heq => hnot (heq ▸ hother)
      change ((e :: entries.filterMap id).lookup other).map _ = _
      rw [List.lookup_cons, beq_eq_false_iff_ne.2 hne]

theorem lookup_memberLiterals (members : List (String × Json)) (name : String) :
    (memberLiterals members).lookup name = (members.lookup name).map Json.literal := by
  induction members with
  | nil => rfl
  | cons m members ih =>
    rw [memberLiterals, List.lookup_cons, List.lookup_cons]
    cases name == m.1 with
    | true => rfl
    | false => exact ih

theorem names_memberLiterals (members : List (String × Json)) :
    OrderedMap.names (memberLiterals members) = OrderedMap.names members := by
  induction members with
  | nil => rfl
  | cons m members ih => rw [memberLiterals, names_cons, names_cons, ih]

theorem exists_of_mem_itemLiterals {items : List Json} {l : Literal} (h : l ∈ itemLiterals items) :
    ∃ item ∈ items, l = item.literal := by
  induction items with
  | nil => exact absurd h List.not_mem_nil
  | cons item items ih =>
    rcases List.mem_cons.1 h with rfl | h
    · exact ⟨item, List.mem_cons_self .., rfl⟩
    · obtain ⟨found, hfound, rfl⟩ := ih h
      exact ⟨found, List.mem_cons_of_mem _ hfound, rfl⟩

theorem exists_of_mem_memberLiterals {members : List (String × Json)} {m : String × Literal}
    (h : m ∈ memberLiterals members) : ∃ entry ∈ members, m = (entry.1, entry.2.literal) := by
  induction members with
  | nil => exact absurd h List.not_mem_nil
  | cons entry members ih =>
    rcases List.mem_cons.1 h with rfl | h
    · exact ⟨entry, List.mem_cons_self .., rfl⟩
    · obtain ⟨found, hfound, rfl⟩ := ih h
      exact ⟨found, List.mem_cons_of_mem _ hfound, rfl⟩

/-- The field in a place of an array. -/
theorem lookup_zip {names : List String} {items : List Literal} (hnames : names.Nodup) :
    ∀ {place : Nat} {name : String}, names[place]? = some name →
      (names.zip items).lookup name = items[place]? := by
  induction names generalizing items with
  | nil => intro place name hname; simp at hname
  | cons first names ih =>
    obtain ⟨hnot, hnodup⟩ := List.nodup_cons.1 hnames
    intro place name hname
    cases items with
    | nil => simp
    | cons item items =>
      cases place with
      | zero =>
        obtain rfl := Option.some.inj hname
        exact List.lookup_cons_self
      | succ place =>
        have hne : name ≠ first := fun heq => hnot (heq ▸ List.mem_of_getElem? hname)
        rw [List.zip_cons_cons, List.lookup_cons, beq_eq_false_iff_ne.2 hne]
        exact ih hnodup hname

/-- Members with distinct names are the fields of a record. -/
theorem fields?_obj {members : List (String × Literal)} (h : (OrderedMap.names members).Nodup)
    (known : List String) :
    Record.fields? known (.obj members) = some fun name => members.lookup name := by
  have honce : ∀ name, (members.filter fun m => m.1 == name).length ≤ 1 := by
    intro name
    rw [length_filter_eq_count]
    exact List.nodup_iff_count_le_one.1 h name
  have hany : ¬(known.any fun name => decide
      (1 < (members.filter fun member => member.1 == name).length)) = true := by
    simp only [List.any_eq_true, decide_eq_true_eq, not_exists, not_and, not_lt]
    exact fun name _ => honce name
  rw [Record.fields?, if_neg hany]

theorem fits_of_mem {d : Nat} {names : List String} {entries : List (Option (String × Json))}
    (h : List.Forall₂ (Fits d) names entries) {m : String × Json} (hm : m ∈ entries.filterMap id) :
    m.2.Keyed ∧ m.2.depth ≤ d := by
  induction h with
  | nil => simp at hm
  | @cons name entry names entries hfirst _ ih =>
    obtain ⟨found, hfound, rfl⟩ := List.mem_filterMap.1 hm
    rcases List.mem_cons.1 hfound with heq | hrest
    · exact (hfirst m heq.symm).2
    · exact ih (List.mem_filterMap.2 ⟨_, hrest, rfl⟩)

namespace Json

variable {d : Nat} {names : List String} {entries : List (Option (String × Json))}

theorem keyed_record (h : List.Forall₂ (Fits d) names entries) (hnames : names.Nodup) :
    (record entries).Keyed :=
  ⟨hnames.sublist (names_record_sublist h), keyedMembers_iff.2 fun _ hm => (fits_of_mem h hm).1⟩

theorem depth_record (h : List.Forall₂ (Fits d) names entries) : (record entries).depth ≤ d + 1 :=
  Nat.succ_le_succ (membersDepth_le.2 fun _ hm => (fits_of_mem h hm).2)

/-- **The fields of a written record are found under their names.** -/
theorem fields?_record (h : List.Forall₂ (Fits d) names entries) (hnames : names.Nodup)
    (known : List String) : ∃ field, Record.fields? known (record entries).literal = some field ∧
      Finds field names entries := by
  have hdistinct : (OrderedMap.names (memberLiterals (entries.filterMap id))).Nodup := by
    rw [names_memberLiterals]
    exact hnames.sublist (names_record_sublist h)
  exact ⟨_, fields?_obj hdistinct known, finds_of_forall_ne (finds_record h hnames)
    fun name _ => lookup_memberLiterals _ name⟩

end Json

/-! ## Tagged records -/

namespace Record

variable {κ : Type} [Vocabulary κ]

/-- **The kind of a written tagged record is found**, and its other fields are left. -/
theorem tagged?_record {d : Nat} {names : List String} {entries : List (Option (String × Json))}
    (tag : String) (inTagged : Bool) (kind : κ) (h : List.Forall₂ (Fits d) names entries)
    (hnames : (tag :: names).Nodup) :
    tagged? tag inTagged (Json.record (Json.field tag (.word kind) :: entries)).literal =
      some (kind, (Json.record entries).literal) := by
  obtain ⟨hnot, hnodup⟩ := List.nodup_cons.1 hnames
  have hkind : Fits d tag (Json.field tag (.word kind)) := by
    intro e he
    obtain rfl := Option.some.inj he
    exact ⟨rfl, trivial, Nat.zero_le d⟩
  have hkeyed := Json.keyed_record (.cons hkind h) hnames
  have hother : ∀ m ∈ memberLiterals (entries.filterMap id), m.1 ≠ tag := by
    intro m hm heq
    have hin : m.1 ∈ OrderedMap.names (memberLiterals (entries.filterMap id)) :=
      List.mem_map_of_mem hm
    rw [names_memberLiterals] at hin
    exact hnot (heq ▸ (names_record_sublist h).subset hin)
  have htag : (memberLiterals (entries.filterMap id)).filter (·.1 == tag) = [] :=
    List.filter_eq_nil_iff.2 fun m hm => by simp [hother m hm]
  have hrest : (memberLiterals (entries.filterMap id)).filter (·.1 != tag) =
      memberLiterals (entries.filterMap id) :=
    List.filter_eq_self.2 fun m hm => by simp [hother m hm]
  rw [tagged?, whole, Json.value?_literal hkeyed]
  change untag? tag inTagged (.obj ((tag, .str (Vocabulary.name kind)) ::
    memberLiterals (entries.filterMap id))) = _
  rw [untag?, List.filter_cons_of_pos (by simp), htag, List.filter_cons_of_neg (by simp), hrest]
  change (kind? inTagged (.str (Vocabulary.name kind))).map _ = _
  rw [kind?, Vocabulary.ofName?_name]
  rfl

/-- A literal is the object with such a member or an array with such an item. -/
def Has (name : String) (l : Literal) : Literal → Prop
  | .obj members => (name, l) ∈ members
  | .arr items => l ∈ items
  | _ => False

theorem Has.depth_lt {name : String} {l literal : Literal} (h : Has name l literal) :
    l.depth + 1 ≤ literal.depth := by
  cases literal with
  | obj members => exact Literal.depth_of_mem_obj h
  | arr items => exact Literal.depth_of_mem_arr h
  | _ => cases h

/-- A field of a record is one of its parts. -/
theorem has_of_fields? {known : List String} {literal : Literal}
    {field : String → Option Literal} (h : fields? known literal = some field) {name : String}
    {l : Literal} (hl : field name = some l) : Has name l literal := by
  cases literal with
  | obj members =>
    rw [fields?] at h
    split_ifs at h
    obtain rfl := Option.some.inj h
    exact mem_of_lookup hl
  | arr items =>
    rw [fields?] at h
    split_ifs at h
    obtain rfl := Option.some.inj h
    exact (List.of_mem_zip (mem_of_lookup hl)).2
  | _ => cases h

/-- What is left of a tagged record has no other parts. -/
theorem has_of_tagged? {tag : String} {inTagged : Bool} {literal rest : Literal} {kind : κ}
    (h : tagged? tag inTagged literal = some (kind, rest)) {name : String} {l : Literal}
    (hl : Has name l rest) : Has name l literal := by
  rw [tagged?, whole] at h
  split_ifs at h
  cases literal with
  | obj members =>
    rw [untag?] at h
    split at h
    · obtain ⟨k, -, heq⟩ := Option.map_eq_some_iff.1 h
      rw [← (Prod.mk.inj heq).2] at hl
      exact List.mem_of_mem_filter hl
    · cases h
  | arr items =>
    cases items with
    | nil => cases h
    | cons first items =>
      obtain ⟨k, -, heq⟩ := Option.map_eq_some_iff.1 h
      rw [← (Prod.mk.inj heq).2] at hl
      exact List.mem_cons_of_mem _ hl
  | _ => cases h

/-- What has fields is a container. -/
theorem depth_pos_of_fields? {known : List String} {literal : Literal}
    {field : String → Option Literal} (h : fields? known literal = some field) :
    0 < literal.depth := by
  cases literal with
  | obj | arr => exact Nat.succ_pos _
  | _ => cases h

theorem depth_pos_of_tagged? {tag : String} {inTagged : Bool} {literal rest : Literal} {kind : κ}
    (h : tagged? tag inTagged literal = some (kind, rest)) : 0 < literal.depth := by
  rw [tagged?, whole] at h
  split_ifs at h
  cases literal with
  | obj | arr => exact Nat.succ_pos _
  | _ => cases h

/-- The fields that a look-up finds are at most this deep. -/
def Within (d : Nat) (field : String → Option Literal) : Prop :=
  ∀ name l, field name = some l → l.depth ≤ d

/-- A field is nested less deep than its record. -/
theorem within_of_fields? {d : Nat} {known : List String} {literal : Literal}
    {field : String → Option Literal} (h : fields? known literal = some field)
    (hd : literal.depth ≤ d + 1) : Within d field := by
  intro name l hl
  have := (has_of_fields? h hl).depth_lt
  omega

end Record

/-! ## What was read survives -/

/-- Whatever the first reader reads, the second reads back from what is written of it; that is not
nested deeper than what was read, or than a bound of its own. -/
structure Codec (bound : Nat) (read back : Literal → Option α) (write : α → Json) : Prop where
  survives : ∀ {literal a d}, read literal = some a → literal.depth ≤ d → bound ≤ d →
    Survives back write d a
  solid : ∀ {literal a}, read literal = some a → literal ≠ .null → (write a).literal ≠ .null

namespace Codec

variable {bound d : Nat} {read back : Literal → Option α} {write : α → Json}

theorem string : Codec 0 Record.string Record.string .str where
  survives _ _ _ := ⟨rfl, trivial, Nat.zero_le _⟩
  solid _ _ := nofun

theorem word [Vocabulary α] (inTagged again : Bool) :
    Codec 0 (Record.word inTagged : Literal → Option α) (Record.word again) Json.word where
  survives _ _ _ := ⟨Vocabulary.ofName?_name _, trivial, Nat.zero_le _⟩
  solid _ _ := nofun

theorem naturalBelow (limit : Nat) :
    Codec 0 (Record.naturalBelow limit) (Record.naturalBelow limit) Json.natural where
  survives {literal n d} h _ _ := by
    have hlt : n < limit := by
      cases literal with
      | num value =>
        cases value with
        | int value =>
          rw [Record.naturalBelow] at h
          split_ifs at h with hvalue
          obtain rfl := Option.some.inj h
          omega
        | float => cases h
      | _ => cases h
    refine ⟨?_, trivial, Nat.zero_le _⟩
    change (if 0 ≤ (n : Int) ∧ (n : Int) < limit then some (n : Int).toNat else none) = some n
    rw [if_pos ⟨by omega, by omega⟩, Int.toNat_natCast]
  solid _ _ := nofun

theorem anyValue : Codec 0 Record.anyValue Record.anyValue id where
  survives h hd _ := by
    have hkeyed := Literal.keyed_of_value? h
    exact ⟨Json.value?_literal hkeyed, hkeyed, Nat.le_trans (Literal.depth_of_value? h) hd⟩
  solid {literal a} h hnull hwritten := by
    have ha : a = .null := by
      cases a with
      | null => rfl
      | _ => cases hwritten
    subst ha
    cases literal with
    | null => exact hnull rfl
    | arr items =>
      obtain ⟨_, -, heq⟩ := Option.map_eq_some_iff.1 h
      cases heq
    | obj members =>
      obtain ⟨_, -, heq⟩ := Option.map_eq_some_iff.1 h
      cases heq
    | _ => cases h

theorem anyMembers_literal {members : OrderedMap Json} (h : (Json.obj members).Keyed) :
    Record.anyMembers (Json.obj members).literal = some members := by
  change (Json.obj members).literal.value?.bind Json.members? = some members
  rw [Json.value?_literal h]
  rfl

theorem anyMembers : Codec 0 Record.anyMembers Record.anyMembers Json.obj where
  survives {literal a d} h hd _ := by
    cases literal with
    | obj members =>
      obtain ⟨value, hvalue, hmembers⟩ := Option.bind_eq_some_iff.1 h
      have hobj : value = .obj a := by
        cases value with
        | obj entries => exact congrArg Json.obj (Option.some.inj hmembers)
        | _ => cases hmembers
      subst hobj
      have hkeyed := Literal.keyed_of_value? hvalue
      exact ⟨anyMembers_literal hkeyed, hkeyed, Nat.le_trans (Literal.depth_of_value? hvalue) hd⟩
    | _ => cases h
  solid _ _ := nofun

theorem mem_of_mapM {items : List Literal} {as : List α} (h : items.mapM read = some as) {a : α}
    (ha : a ∈ as) : ∃ item ∈ items, read item = some a := by
  induction items generalizing as with
  | nil =>
    obtain rfl := Option.some.inj h
    simp at ha
  | cons item items ih =>
    rw [List.mapM_cons] at h
    obtain ⟨b, hb, h⟩ := Option.bind_eq_some_iff.1 h
    obtain ⟨bs, hbs, h⟩ := Option.bind_eq_some_iff.1 h
    obtain rfl := Option.some.inj h
    rcases List.mem_cons.1 ha with rfl | ha
    · exact ⟨item, List.mem_cons_self .., hb⟩
    · obtain ⟨item', hitem, hread⟩ := ih hbs ha
      exact ⟨item', List.mem_cons_of_mem _ hitem, hread⟩

/-- The items of a list that was read survive. -/
theorem survives_items (hc : Codec bound read back write) {literal : Literal} {as : List α}
    (h : Record.listOf read literal = some as) (hd : literal.depth ≤ d + 1) (hbound : bound ≤ d) :
    ∀ a ∈ as, Survives back write d a := by
  cases literal with
  | arr items =>
    intro a ha
    obtain ⟨item, hitem, hread⟩ := mem_of_mapM h ha
    have := Literal.depth_of_mem_arr hitem
    exact hc.survives hread (by omega) hbound
  | _ => cases h

theorem listOf (hc : Codec bound read back write) {limit : Nat} (hlimit : bound ≤ limit - 1) :
    Codec limit (Record.listOf read) (Record.listOf back) fun as => .arr (as.map write) where
  survives {literal as d} h hd hbound := by
    obtain ⟨d, rfl⟩ : ∃ e, d = e + 1 := by
      cases literal with
      | arr items => exact ⟨d - 1, by rw [Literal.depth] at hd; omega⟩
      | _ => cases h
    exact Survives.listOf (hc.survives_items h hd (by omega))
  solid _ _ := nofun

/-! ### Fields -/

variable {field : Option Literal}

theorem required (hc : Codec bound read back write) {a : α} (h : Record.required read field = some a)
    (hd : ∀ l, field = some l → l.depth ≤ d) (hbound : bound ≤ d) (name : String) :
    Stores d name (Record.required back) (Json.field name (write a)) a := by
  obtain ⟨literal, rfl, hread⟩ := Option.bind_eq_some_iff.1 h
  exact (hc.survives hread (hd literal rfl) hbound).required name

/-- What was taken from a field that may be missing or `null` survives. -/
theorem of_nullable (hc : Codec bound read back write) {a : α}
    (h : Record.nullable read field = some (some a)) (hd : ∀ l, field = some l → l.depth ≤ d)
    (hbound : bound ≤ d) : Survives back write d a ∧ (write a).literal ≠ .null := by
  cases field with
  | none => cases h
  | some literal =>
    by_cases hnull : literal = .null
    · rw [hnull] at h
      cases h
    · rw [Record.nullable.eq_3 read literal hnull] at h
      obtain ⟨b, hb, heq⟩ := Option.map_eq_some_iff.1 h
      obtain rfl := Option.some.inj heq
      exact ⟨hc.survives hb (hd literal rfl) hbound, hc.solid hb hnull⟩

theorem nullable (hc : Codec bound read back write) {value : Option α}
    (h : Record.nullable read field = some value) (hd : ∀ l, field = some l → l.depth ≤ d)
    (hbound : bound ≤ d) (name : String) :
    Stores d name (Record.nullable back) (Json.fieldIf name write value) value :=
  Stores.nullable (fun _ ha => hc.of_nullable (ha ▸ h) hd hbound) name

/-- What was taken from a field with a default survives when the default does. -/
theorem of_withDefault (hc : Codec bound read back write) {default a : α}
    (h : Record.withDefault default read field = some a)
    (hdefault : Survives back write d default) (hd : ∀ l, field = some l → l.depth ≤ d)
    (hbound : bound ≤ d) : Survives back write d a := by
  cases field with
  | none =>
    obtain rfl := Option.some.inj h
    exact hdefault
  | some literal => exact hc.survives h (hd literal rfl) hbound

theorem withDefault (hc : Codec bound read back write) {default a : α}
    (h : Record.withDefault default read field = some a)
    (hdefault : Survives back write d default) (hd : ∀ l, field = some l → l.depth ≤ d)
    (hbound : bound ≤ d) (name : String) :
    Stores d name (Record.withDefault default back) (Json.field name (write a)) a :=
  (hc.of_withDefault h hdefault hd hbound).withDefault name default

/-- The items of a list that may be missing survive. -/
theorem of_list (hc : Codec bound read back write) {as : List α}
    (h : Record.withDefault [] (Record.listOf read) field = some as)
    (hd : ∀ l, field = some l → l.depth ≤ d + 1) (hbound : bound ≤ d) :
    ∀ a ∈ as, Survives back write d a := by
  cases field with
  | none =>
    obtain rfl := Option.some.inj h
    simp
  | some literal => exact hc.survives_items h (hd literal rfl) hbound

theorem list (hc : Codec bound read back write) {as : List α}
    (h : Record.withDefault [] (Record.listOf read) field = some as)
    (hd : ∀ l, field = some l → l.depth ≤ d + 1) (hbound : bound ≤ d) (name : String) :
    Stores (d + 1) name (Record.withDefault [] (Record.listOf back))
      (Json.fieldUnlessEmpty name write as) as :=
  Stores.list (hc.of_list h hd hbound) name

end Codec

/-! ### Fields that are taken together -/

/-- A reader of several fields reads them back from their entries. -/
structure Keeps (d : Nat) (names : List String) (entries : List (Option (String × Json)))
    (take : (String → Option Literal) → Option α) (a : α) : Prop where
  fits : List.Forall₂ (Fits d) names entries
  back : ∀ {field}, Finds field names entries → take field = some a

namespace Keeps

variable {d : Nat} {names : List String} {entries : List (Option (String × Json))} {a : α}

theorem done : Keeps d [] [] (fun _ => some a) a where
  fits := .nil
  back _ := rfl

theorem cons {name : String} {entry : Option (String × Json)} {take : Option Literal → Option β}
    {b : β} {rest : β → (String → Option Literal) → Option α} (h : Stores d name take entry b)
    (hrest : Keeps d names entries (rest b) a) :
    Keeps d (name :: names) (entry :: entries)
      (fun field => (take (field name)).bind fun b => rest b field) a where
  fits := .cons h.fits hrest.fits
  back hfinds := by
    cases hfinds with
    | cons hfirst hothers => rw [hfirst, h.back, Option.bind_some, hrest.back hothers]

/-- **A record is read back** when its fields are. -/
theorem record {read : Literal → Option α} {write : α → Json}
    {take : (String → Option Literal) → Option α} (hkeeps : Keeps d names entries take a)
    (hnames : names.Nodup)
    (hread : ∀ literal, read literal = (Record.fields? names literal).bind take)
    (hwrite : write a = .record entries) : Survives read write (d + 1) a := by
  obtain ⟨field, hfield, hfinds⟩ := Json.fields?_record hkeeps.fits hnames names
  refine ⟨?_, ?_, ?_⟩
  · rw [hread, hwrite, hfield, Option.bind_some, hkeeps.back hfinds]
  · exact hwrite ▸ Json.keyed_record hkeeps.fits hnames
  · exact hwrite ▸ Json.depth_record hkeeps.fits

/-- **A tagged record is read back** when the fields of its kind are. -/
theorem tagged {κ : Type} [Vocabulary κ] {tag : String} {inTagged : Bool} {kind : κ}
    {read : Literal → Option α} {write : α → Json} {readFields : κ → Literal → Option α}
    {take : (String → Option Literal) → Option α} (hkeeps : Keeps d names entries take a)
    (hnames : (tag :: names).Nodup)
    (hread : ∀ literal, read literal = (Record.tagged? tag inTagged literal).bind fun (k, rest) =>
      readFields k rest)
    (hfields : ∀ literal, readFields kind literal = (Record.fields? names literal).bind take)
    (hwrite : write a = .record (Json.field tag (.word kind) :: entries)) :
    Survives read write (d + 1) a := by
  obtain ⟨field, hfield, hfinds⟩ :=
    Json.fields?_record hkeeps.fits (List.nodup_cons.1 hnames).2 names
  have htag : Fits d tag (Json.field tag (.word kind)) := by
    intro e he
    obtain rfl := Option.some.inj he
    exact ⟨rfl, trivial, Nat.zero_le d⟩
  refine ⟨?_, ?_, ?_⟩
  · rw [hread, hwrite, Record.tagged?_record tag inTagged kind hkeeps.fits hnames,
      Option.bind_some]
    change readFields kind _ = _
    rw [hfields, hfield, Option.bind_some, hkeeps.back hfinds]
  · exact hwrite ▸ Json.keyed_record (.cons htag hkeeps.fits) hnames
  · exact hwrite ▸ Json.depth_record (.cons htag hkeeps.fits)

end Keeps

namespace Codec

variable {limit : Nat} {read back : Literal → Option α} {write : α → Json}

/-- **Records are read back** when their fields are. -/
theorem record {names : List String} {take takeBack : (String → Option Literal) → Option α}
    {entries : α → List (Option (String × Json))} (hnames : names.Nodup)
    (hread : ∀ literal, read literal = (Record.fields? names literal).bind take)
    (hback : ∀ literal, back literal = (Record.fields? names literal).bind takeBack)
    (hwrite : ∀ a, write a = .record (entries a))
    (h : ∀ {field a d}, take field = some a → Record.Within d field → limit ≤ d + 1 →
      Keeps d names (entries a) takeBack a) : Codec limit read back write where
  survives {literal a d} hsome hd hbound := by
    rw [hread] at hsome
    obtain ⟨field, hfields, htake⟩ := Option.bind_eq_some_iff.1 hsome
    obtain ⟨d, rfl⟩ : ∃ e, d = e + 1 :=
      ⟨d - 1, by have := Record.depth_pos_of_fields? hfields; omega⟩
    have hkeeps := h htake (Record.within_of_fields? hfields hd) hbound
    exact hkeeps.record hnames hback (hwrite a)
  solid {_ a} _ _ := by
    rw [hwrite]
    exact nofun

/-- **Tagged records are read back** when the fields of each kind are. -/
theorem tagged {κ : Type} [Vocabulary κ] {tag : String} {inTagged again : Bool} {kind : α → κ}
    {entries : α → List (Option (String × Json))} {readFields : κ → Literal → Option α}
    (hread : ∀ literal, read literal = (Record.tagged? tag inTagged literal).bind fun (k, rest) =>
      readFields k rest)
    (hback : ∀ literal, back literal = (Record.tagged? tag again literal).bind fun (k, rest) =>
      readFields k rest)
    (hwrite : ∀ a, write a = .record (Json.field tag (.word (kind a)) :: entries a))
    (h : ∀ k, ∃ names take, (tag :: names).Nodup ∧
      (∀ literal, readFields k literal = (Record.fields? names literal).bind take) ∧
      ∀ {field a d}, take field = some a → Record.Within d field → limit ≤ d + 1 →
        kind a = k ∧ Keeps d names (entries a) take a) : Codec limit read back write where
  survives {literal a d} hsome hd hbound := by
    rw [hread] at hsome
    obtain ⟨⟨k, rest⟩, htagged, hsome⟩ := Option.bind_eq_some_iff.1 hsome
    obtain ⟨d, rfl⟩ : ∃ e, d = e + 1 :=
      ⟨d - 1, by have := Record.depth_pos_of_tagged? htagged; omega⟩
    obtain ⟨names, take, hnames, hfieldsOf, hkeep⟩ := h k
    change readFields k rest = some a at hsome
    rw [hfieldsOf] at hsome
    obtain ⟨field, hfields, htake⟩ := Option.bind_eq_some_iff.1 hsome
    have hwithin : Record.Within d field := by
      intro name l hl
      have := (Record.has_of_tagged? htagged (Record.has_of_fields? hfields hl)).depth_lt
      omega
    obtain ⟨rfl, hkeeps⟩ := hkeep htake hwithin hbound
    exact hkeeps.tagged hnames hback hfieldsOf (hwrite a)
  solid {_ a} _ _ := by
    rw [hwrite]
    exact nofun

end Codec

end PageTree
