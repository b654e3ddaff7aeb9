import Mathlib.Data.Rat.Lemmas
import Mathlib.Order.Filter.AtTopBot.Basic
import Mathlib.Order.Filter.Finite
import PageTree.Json.Record
import PageTree.Proofs.OrderedMap
import PageTree.Schema.Pages

/-!
# What a schema accepts

The meaning of the values that schemas are written as, in the sense of JSON Schema: a schema is an
object, each member of which is a keyword with an argument, and a value is valid when it passes
every keyword. A few members are remarks that say nothing about values. A member that is neither a
remark nor one of the keywords here lets nothing pass.

A reference may lead back to the schema that it stands in, so validity is computed with a bound on
how many schemas may be entered one inside the other. A value is accepted when it is valid for
every bound from some bound on. Bounds are not compared with each other: `oneOf` counts schemas that
refuse, so a greater bound may refuse what a smaller one lets pass.

## Main definitions

* `Json.admits`: a value passes a schema that is given as a value, for a bound
* `Schema.Admits`, `Schema.Accepts`: the same for schemas, for a bound and from some bound on
* `SchemaFile.Accepts`: a value is a valid instance of a schema with its definitions

## Main results

* `Schema.admits_object`, `Schema.admits_listOf` and their like: what each form of schema admits
* `Schema.accepts_record`: a record is accepted when what is written of each field is
* `SchemaFile.accepts_iff`: a file accepts what its schema does
-/

namespace PageTree

/-! ## Values of numbers -/

/-- A finite number as a ratio. What is not finite has a ratio too, beyond all finite numbers. -/
def Binary64.toRat (x : Binary64) : ℚ :=
  (if x.isNegative then -1 else 1) * x.significand * 2 ^ x.exponent

/-- A number as a ratio. -/
def Number.toRat : Number → ℚ
  | .int value => value
  | .float value => value.toRat

/-! ## Schemas as values -/

/-- The keywords that schemas are written with. -/
inductive Keyword where
  | type | const | enum | minimum | maximum | items | properties | required
  | additionalProperties | oneOf | anyOf | ref
  deriving DecidableEq, Repr

instance : Vocabulary Keyword where
  all := [.type, .const, .enum, .minimum, .maximum, .items, .properties, .required,
    .additionalProperties, .oneOf, .anyOf, .ref]
  name
    | .type => "type"
    | .const => "const"
    | .enum => "enum"
    | .minimum => "minimum"
    | .maximum => "maximum"
    | .items => "items"
    | .properties => "properties"
    | .required => "required"
    | .additionalProperties => "additionalProperties"
    | .oneOf => "oneOf"
    | .anyOf => "anyOf"
    | .ref => "$ref"
  mem_all a := by cases a <;> decide
  name_injective a b h := by cases a <;> cases b <;> first | rfl | exact absurd h (by decide)

/-- The members of a schema that say nothing about values. -/
def remarks : List String := ["$schema", "title", "description", "$defs"]

namespace Json

/-- The number of a numeric value. -/
def number? : Json → Option Number
  | .num value => some value
  | _ => none

/-- The value has the type with this name. -/
def hasType : String → Json → Bool
  | "null", .null | "boolean", .bool _ | "number", .num _ | "string", .str _ | "array", .arr _
  | "object", .obj _ => true
  | _, _ => false

/-- The definition in a schema that a reference points at. -/
def definition? (root : Json) (pointer : String) : Option Json :=
  ((root.member? "$defs").bind members?).bind fun definitions =>
    (definitions.find? fun definition => "#/$defs/" ++ definition.1 == pointer).map (·.2)

/-- The members of a schema declare a property. -/
def declares (siblings : OrderedMap Json) (property : String) : Bool :=
  ((siblings.lookup "properties").bind members?).any (OrderedMap.contains property)

/-- A value passes a keyword with its argument, given which values pass which schemas inside. A
keyword about values of one type lets all others pass. -/
def passes (check : Json → Json → Bool) (root : Json) (siblings : OrderedMap Json) :
    Keyword → Json → Json → Bool
  | .type, argument, value => argument.string?.any fun name => value.hasType name
  | .const, argument, value => argument.same value
  | .enum, argument, value => argument.items?.any fun choices => choices.any (·.same value)
  | .minimum, argument, value => argument.number?.any fun least =>
      value.number?.all fun x => least.toRat ≤ x.toRat
  | .maximum, argument, value => argument.number?.any fun greatest =>
      value.number?.all fun x => x.toRat ≤ greatest.toRat
  | .items, argument, value => value.items?.all fun items => items.all (check argument)
  | .properties, argument, value => argument.members?.any fun schemas =>
      value.members?.all fun members =>
        members.all fun m => (schemas.lookup m.1).all fun schema => check schema m.2
  | .required, argument, value => argument.items?.any fun names =>
      value.members?.all fun members =>
        names.all fun name => name.string?.any fun name => OrderedMap.contains name members
  | .additionalProperties, argument, value => value.members?.all fun members =>
      members.all fun m => declares siblings m.1 || check argument m.2
  | .oneOf, argument, value => argument.items?.any fun schemas =>
      schemas.countP (fun schema => check schema value) == 1
  | .anyOf, argument, value => argument.items?.any fun schemas =>
      schemas.any fun schema => check schema value
  | .ref, argument, value => argument.string?.any fun pointer =>
      (root.definition? pointer).any fun schema => check schema value

/-- The value passes the schema, with its references looked up in `root`, when at most so many
schemas are entered one inside the other. -/
def admits (root : Json) : Nat → Json → Json → Bool
  | 0, _, _ => false
  | bound + 1, schema, value =>
    match schema with
    | .bool all => all
    | .obj members => members.all fun m => remarks.contains m.1 ||
        (Vocabulary.ofName? m.1).any fun keyword =>
          passes (admits root bound) root members keyword m.2 value
    | _ => false

end Json

/-- The value is a valid instance of the schema of the file. -/
def SchemaFile.Accepts (file : SchemaFile) (value : Json) : Prop :=
  ∀ᶠ bound in Filter.atTop, file.json.admits bound file.json value = true

namespace Schema

/-- The properties that a schema of objects declares. -/
def properties : Schema → List (String × Schema)
  | .object properties _ _ => properties
  | _ => []

/-- The value passes the schema within a bound. -/
def Admits (root : Json) (bound : Nat) (schema : Schema) (value : Json) : Prop :=
  root.admits bound (.obj schema.members) value = true

/-- The value passes the schema from some bound on. -/
def Accepts (root : Json) (schema : Schema) (value : Json) : Prop :=
  ∀ᶠ bound in Filter.atTop, schema.Admits root bound value

/-- The value fails the schema from some bound on. -/
def Refuses (root : Json) (schema : Schema) (value : Json) : Prop :=
  ∀ᶠ bound in Filter.atTop, ¬ schema.Admits root bound value

variable {root : Json} {bound : Nat} {value : Json}

/-! ## What a form of schema admits -/

/-- The value passes a member of a schema with these members, or the member is a remark. -/
def Obeys (root : Json) (bound : Nat) (siblings : OrderedMap Json) (value : Json)
    (member : String × Json) : Prop :=
  member.1 ∈ remarks ∨ ∃ keyword, member.1 = Vocabulary.name keyword ∧
    Json.passes (root.admits bound) root siblings keyword member.2 value = true

variable {siblings : OrderedMap Json}

/-- Nothing is admitted where no schema may be entered. -/
theorem Admits.exists_succ {schema : Schema} (h : schema.Admits root bound value) :
    ∃ inside, bound = inside + 1 := by
  cases bound with
  | zero => exact absurd h Bool.false_ne_true
  | succ inside => exact ⟨inside, rfl⟩

theorem admits_members {members : OrderedMap Json} :
    root.admits (bound + 1) (.obj members) value = true ↔
      ∀ m ∈ members, Obeys root bound members value m := by
  rw [Json.admits, List.all_eq_true]
  refine forall₂_congr fun m _ => ?_
  rw [Bool.or_eq_true, List.contains_iff_mem, Option.any_eq_true]
  refine or_congr_right ⟨?_, ?_⟩
  · rintro ⟨keyword, hname, hpass⟩
    exact ⟨keyword, (Vocabulary.name_of_ofName? hname).symm, hpass⟩
  · rintro ⟨keyword, hname, hpass⟩
    exact ⟨keyword, hname ▸ Vocabulary.ofName?_name keyword, hpass⟩

theorem admits_succ {schema : Schema} : schema.Admits root (bound + 1) value ↔
    ∀ m ∈ schema.members, Obeys root bound schema.members value m :=
  admits_members

/-- A member whose name is a keyword is no remark and means that keyword. -/
theorem obeys_keyword (name : String) (keyword : Keyword) (hname : Vocabulary.name keyword = name)
    {argument : Json} : Obeys root bound siblings value (name, argument) ↔
      Json.passes (root.admits bound) root siblings keyword argument value = true := by
  have hname' : name ∉ remarks := by
    subst hname
    cases keyword <;> decide
  subst hname
  constructor
  · rintro (hremark | ⟨k, hk, hpass⟩)
    · exact absurd hremark hname'
    · exact Vocabulary.name_injective _ _ hk ▸ hpass
  · exact fun hpass => .inr ⟨keyword, rfl, hpass⟩

theorem obeys_type {name : String} :
    Obeys root bound siblings value (typeMember name) ↔ value.hasType name = true :=
  obeys_keyword "type" .type rfl

theorem hasType_string : value.hasType "string" = true ↔ ∃ text, value = .str text := by
  cases value with
  | str text => exact iff_of_true rfl ⟨text, rfl⟩
  | _ => exact iff_of_false Bool.false_ne_true nofun

theorem hasType_number : value.hasType "number" = true ↔ ∃ x, value = .num x := by
  cases value with
  | num x => exact iff_of_true rfl ⟨x, rfl⟩
  | _ => exact iff_of_false Bool.false_ne_true nofun

theorem hasType_array : value.hasType "array" = true ↔ ∃ items, value = .arr items := by
  cases value with
  | arr items => exact iff_of_true rfl ⟨items, rfl⟩
  | _ => exact iff_of_false Bool.false_ne_true nofun

theorem hasType_object : value.hasType "object" = true ↔ ∃ members, value = .obj members := by
  cases value with
  | obj members => exact iff_of_true rfl ⟨members, rfl⟩
  | _ => exact iff_of_false Bool.false_ne_true nofun

theorem same_str {word : String} : (Json.str word).same value = true ↔ value = .str word := by
  cases value with
  | str text => rw [Json.same, beq_iff_eq, Json.str.injEq, eq_comm]
  | _ => exact iff_of_false Bool.false_ne_true nofun

theorem admits_anything : anything.Admits root (bound + 1) value :=
  admits_succ.2 nofun

theorem admits_text : text.Admits root (bound + 1) value ↔ ∃ text, value = .str text := by
  rw [admits_succ, members, List.forall_mem_singleton, obeys_type, hasType_string]

theorem admits_packed {description : String} :
    (packed description).Admits root (bound + 1) value ↔ ∃ text, value = .str text := by
  rw [admits_succ, members, List.forall_mem_cons, List.forall_mem_singleton, obeys_type,
    hasType_string]
  have hremark : "description" ∈ remarks := by decide
  exact and_iff_left (.inl hremark)

theorem admits_constant {word : String} :
    (constant word).Admits root (bound + 1) value ↔ value = .str word := by
  rw [admits_succ, members, List.forall_mem_singleton, obeys_keyword "const" .const rfl]
  exact same_str

theorem admits_tag {word : String} :
    (tag word).Admits root (bound + 1) value ↔ value = .str word := by
  rw [admits_succ, members, List.forall_mem_cons, List.forall_mem_singleton, obeys_type,
    hasType_string, obeys_keyword "const" .const rfl]
  exact (and_congr_right fun _ => same_str).trans (and_iff_right_of_imp fun h => ⟨word, h⟩)

theorem admits_words {choices : List String} :
    (words choices).Admits root (bound + 1) value ↔ ∃ word ∈ choices, value = .str word := by
  rw [admits_succ, members, List.forall_mem_cons, List.forall_mem_singleton, obeys_type,
    hasType_string, obeys_keyword "enum" .enum rfl, Json.passes, Json.items?, Option.any_some,
    List.any_map, List.any_eq_true]
  simp only [Function.comp_apply, same_str]
  refine and_iff_right_of_imp ?_
  rintro ⟨word, -, h⟩
  exact ⟨word, h⟩

theorem admits_number : number.Admits root (bound + 1) value ↔ ∃ x, value = .num x := by
  rw [admits_succ, members, List.forall_mem_singleton, obeys_type, hasType_number]

theorem admits_numberBetween {least greatest : Nat} :
    (numberBetween least greatest).Admits root (bound + 1) value ↔
      ∃ x, value = .num x ∧ (least : ℚ) ≤ x.toRat ∧ x.toRat ≤ greatest := by
  rw [admits_succ, members, List.forall_mem_cons, List.forall_mem_cons, List.forall_mem_singleton,
    obeys_type, hasType_number, obeys_keyword "minimum" .minimum rfl,
    obeys_keyword "maximum" .maximum rfl]
  constructor
  · rintro ⟨⟨x, rfl⟩, hleast, hgreatest⟩
    exact ⟨x, rfl, of_decide_eq_true hleast, of_decide_eq_true hgreatest⟩
  · rintro ⟨x, rfl, hleast, hgreatest⟩
    exact ⟨⟨x, rfl⟩, decide_eq_true hleast, decide_eq_true hgreatest⟩

theorem admits_listOf {items : Schema} : (listOf items).Admits root (bound + 1) value ↔
    ∃ values, value = .arr values ∧ ∀ v ∈ values, items.Admits root bound v := by
  rw [admits_succ, members, List.forall_mem_cons, List.forall_mem_singleton, obeys_type,
    hasType_array, obeys_keyword "items" .items rfl]
  constructor
  · rintro ⟨⟨values, rfl⟩, hitems⟩
    exact ⟨values, rfl, List.all_eq_true.1 hitems⟩
  · rintro ⟨values, rfl, hitems⟩
    exact ⟨⟨values, rfl⟩, List.all_eq_true.2 hitems⟩

theorem admits_anyObject :
    anyObject.Admits root (bound + 1) value ↔ ∃ members, value = .obj members := by
  rw [admits_succ, members, List.forall_mem_singleton, obeys_type, hasType_object]

theorem admits_definition {name : String} {schema : Schema}
    (hroot : root.definition? ("#/$defs/" ++ name) = some (.obj schema.members)) :
    (definition name).Admits root (bound + 1) value ↔ schema.Admits root bound value := by
  rw [admits_succ, members, List.forall_mem_singleton, obeys_keyword "$ref" .ref rfl, Json.passes,
    Json.string?, Option.any_some, hroot, Option.any_some, Admits]

theorem admits_anyOf {alternatives : List Schema} :
    (anyOf alternatives).Admits root (bound + 1) value ↔
      ∃ schema ∈ alternatives, schema.Admits root bound value := by
  rw [admits_succ, members, List.forall_mem_singleton, obeys_keyword "anyOf" .anyOf rfl,
    Json.passes, Json.items?, Option.any_some, alternativeValues_eq, List.any_map,
    List.any_eq_true]
  rfl

/-- Of two alternatives one has to admit the value and the other must not. -/
theorem admits_oneOf_pair {a b : Schema} : (oneOf [a, b]).Admits root (bound + 1) value ↔
    (a.Admits root bound value ∧ ¬ b.Admits root bound value) ∨
      (¬ a.Admits root bound value ∧ b.Admits root bound value) := by
  rw [admits_succ, members, List.forall_mem_singleton, obeys_keyword "oneOf" .oneOf rfl,
    Json.passes, Json.items?, Option.any_some, beq_iff_eq]
  simp only [alternativeValues, List.countP_cons, List.countP_nil, Admits]
  cases root.admits bound (.obj a.members) value with
  | _ => cases root.admits bound (.obj b.members) value with
    | _ => decide

/-! ### Objects -/

/-- What an object's schema asks of a member: its property's schema admits its value, or the
property is not named and the object is open. -/
inductive Suits (root : Json) (bound : Nat) (properties : List (String × Schema)) (closed : Bool) :
    String × Json → Prop where
  | named {name : String} {value : Json} (schema : Schema)
    (property : properties.lookup name = some schema) (valid : schema.Admits root bound value) :
    Suits root bound properties closed (name, value)
  | other {name : String} {value : Json} (property : properties.lookup name = none)
    (openObject : closed = false) : Suits root bound properties closed (name, value)

theorem suits_iff {properties : List (String × Schema)} {closed : Bool} {m : String × Json} :
    Suits root bound properties closed m ↔
      (∀ schema, properties.lookup m.1 = some schema → schema.Admits root bound m.2) ∧
        (closed = true → (properties.lookup m.1).isSome) := by
  constructor
  · rintro (⟨schema, hproperty, hvalid⟩ | ⟨hproperty, hopen⟩)
    · exact ⟨fun other hother => Option.some.inj (hproperty.symm.trans hother) ▸ hvalid,
        fun _ => Option.isSome_of_eq_some hproperty⟩
    · refine ⟨fun other hother => ?_, fun hclosed => ?_⟩
      · cases hproperty.symm.trans hother
      · cases hclosed.symm.trans hopen
  · rintro ⟨hvalid, hclosed⟩
    cases hproperty : properties.lookup m.1 with
    | some schema => exact .named schema hproperty (hvalid schema hproperty)
    | none =>
      refine .other hproperty (Bool.eq_false_iff.2 fun h => ?_)
      rw [hproperty] at hclosed
      exact Bool.false_ne_true (hclosed h)

theorem lookup_propertyMembers (name : String) (properties : List (String × Schema)) :
    (propertyMembers properties).lookup name =
      (properties.lookup name).map fun schema => .obj schema.members := by
  induction properties with
  | nil => rfl
  | cons p rest ih =>
    rw [propertyMembers, List.lookup_cons, List.lookup_cons, ih]
    cases name == p.1 with
    | _ => rfl

theorem passes_properties {check : Json → Json → Bool} {properties : List (String × Schema)}
    {members : OrderedMap Json} :
    Json.passes check root siblings .properties (.obj (propertyMembers properties))
        (.obj members) = true ↔
      ∀ m ∈ members, ∀ schema, properties.lookup m.1 = some schema →
        check (.obj schema.members) m.2 = true := by
  simp only [Json.passes, Json.members?, Option.any_some, Option.all_some, List.all_eq_true,
    lookup_propertyMembers, Option.all_eq_true, Option.map_eq_some_iff, forall_exists_index,
    and_imp, forall_apply_eq_imp_iff₂]

theorem passes_required {check : Json → Json → Bool} {required : List String}
    {members : OrderedMap Json} :
    Json.passes check root siblings .required (.arr (required.map .str)) (.obj members) = true ↔
      ∀ name ∈ required, OrderedMap.contains name members = true := by
  rw [Json.passes, Json.items?, Option.any_some, Json.members?, Option.all_some,
    List.all_eq_true, List.forall_mem_map]
  rfl

theorem passes_additionalProperties {properties : List (String × Schema)} {required : List String}
    {closed : Bool} {members : OrderedMap Json} :
    Json.passes (root.admits bound) root (object properties required closed).members
        .additionalProperties (.bool false) (.obj members) = true ↔
      ∀ m ∈ members, (properties.lookup m.1).isSome := by
  have hlookup : (object properties required closed).members.lookup "properties" =
      some (.obj (propertyMembers properties)) := rfl
  have hfalse (v : Json) : root.admits bound (.bool false) v = false := by
    cases bound with
    | _ => rfl
  rw [Json.passes, Json.members?, Option.all_some, List.all_eq_true]
  refine forall₂_congr fun m _ => ?_
  rw [hfalse, Bool.or_false, Json.declares, hlookup, Option.bind_some, Json.members?,
    Option.any_some, OrderedMap.contains, lookup_propertyMembers, Option.isSome_map]

/-- **A schema of objects** admits the objects whose members suit it and that have the members it
requires. -/
theorem admits_object {properties : List (String × Schema)} {required : List String}
    {closed : Bool} : (object properties required closed).Admits root (bound + 1) value ↔
      ∃ members, value = .obj members ∧ (∀ m ∈ members, Suits root bound properties closed m) ∧
        ∀ name ∈ required, OrderedMap.contains name members = true := by
  rw [admits_succ]
  constructor
  · intro h
    obtain ⟨members, rfl⟩ :=
      hasType_object.1 (obeys_type.1 (h _ (mem_members_object.2 (.inl rfl))))
    have hmember := h _ (mem_members_object.2 (.inr (.inl rfl)))
    have hproperties :=
      passes_properties.1 ((obeys_keyword "properties" .properties rfl).1 hmember)
    refine ⟨members, rfl, fun m hm => suits_iff.2 ⟨hproperties m hm, fun hclosed => ?_⟩,
      fun name hname => ?_⟩
    · have hmember := h _ (mem_members_object.2 (.inr (.inr (.inr ⟨hclosed, rfl⟩))))
      exact passes_additionalProperties.1
        ((obeys_keyword "additionalProperties" .additionalProperties rfl).1 hmember) m hm
    · have hrequired : required ≠ [] := List.ne_nil_of_mem hname
      have hmember := h _ (mem_members_object.2 (.inr (.inr (.inl ⟨hrequired, rfl⟩))))
      exact passes_required.1 ((obeys_keyword "required" .required rfl).1 hmember) name hname
  · rintro ⟨members, rfl, hsuits, hrequired⟩ m hm
    rcases mem_members_object.1 hm with rfl | rfl | ⟨-, rfl⟩ | ⟨hclosed, rfl⟩
    · exact obeys_type.2 rfl
    · exact (obeys_keyword "properties" .properties rfl).2
        (passes_properties.2 fun m hm => (suits_iff.1 (hsuits m hm)).1)
    · exact (obeys_keyword "required" .required rfl).2 (passes_required.2 hrequired)
    · exact (obeys_keyword "additionalProperties" .additionalProperties rfl).2
        (passes_additionalProperties.2 fun m hm => (suits_iff.1 (hsuits m hm)).2 hclosed)

/-! ## What follows from being admitted -/

theorem Admits.members {properties : List (String × Schema)} {required : List String}
    {closed : Bool} {members : OrderedMap Json}
    (h : (object properties required closed).Admits root bound (.obj members)) :
    ∃ inside < bound, ∀ m ∈ members, Suits root inside properties closed m := by
  obtain ⟨inside, rfl⟩ := h.exists_succ
  obtain ⟨_, hvalue, hsuits, -⟩ := admits_object.1 h
  obtain rfl := Json.obj.inj hvalue
  exact ⟨inside, Nat.lt_succ_self inside, hsuits⟩

/-- The value of a declared property is admitted by the property's schema. -/
theorem Admits.property {properties : List (String × Schema)} {required : List String}
    {closed : Bool} {members : OrderedMap Json} {name : String} {schema : Schema}
    (h : (object properties required closed).Admits root bound (.obj members))
    (hmem : (name, value) ∈ members) (property : properties.lookup name = some schema) :
    ∃ inside < bound, schema.Admits root inside value := by
  obtain ⟨inside, hinside, hsuits⟩ := h.members
  exact ⟨inside, hinside, (suits_iff.1 (hsuits _ hmem)).1 schema property⟩

theorem Admits.item {items : Schema} {values : List Json}
    (h : (listOf items).Admits root bound (.arr values)) :
    ∃ inside < bound, ∀ v ∈ values, items.Admits root inside v := by
  obtain ⟨inside, rfl⟩ := h.exists_succ
  obtain ⟨_, hvalue, hitems⟩ := admits_listOf.1 h
  obtain rfl := Json.arr.inj hvalue
  exact ⟨inside, Nat.lt_succ_self inside, hitems⟩

theorem Admits.definition {name : String} {schema : Schema}
    (h : (definition name).Admits root bound value)
    (hroot : root.definition? ("#/$defs/" ++ name) = some (.obj schema.members)) :
    ∃ inside < bound, schema.Admits root inside value := by
  obtain ⟨inside, rfl⟩ := h.exists_succ
  exact ⟨inside, Nat.lt_succ_self inside, (admits_definition hroot).1 h⟩

/-! ## What a form of schema accepts -/

theorem accepts_iff_succ {schema : Schema} :
    schema.Accepts root value ↔ ∀ᶠ bound in Filter.atTop, schema.Admits root (bound + 1) value := by
  rw [Accepts, ← Filter.map_add_atTop_eq_nat 1, Filter.eventually_map,
    Filter.map_add_atTop_eq_nat 1]

theorem refuses_iff_succ {schema : Schema} : schema.Refuses root value ↔
    ∀ᶠ bound in Filter.atTop, ¬ schema.Admits root (bound + 1) value := by
  rw [Refuses, ← Filter.map_add_atTop_eq_nat 1, Filter.eventually_map,
    Filter.map_add_atTop_eq_nat 1]

/-- What holds for every bound but zero holds from some bound on. -/
theorem accepts_of_forall {schema : Schema} (h : ∀ bound, schema.Admits root (bound + 1) value) :
    schema.Accepts root value :=
  accepts_iff_succ.2 (.of_forall h)

theorem refuses_of_forall {schema : Schema} (h : ∀ bound, ¬ schema.Admits root (bound + 1) value) :
    schema.Refuses root value :=
  refuses_iff_succ.2 (.of_forall h)

theorem accepts_anything : anything.Accepts root value :=
  accepts_of_forall fun _ => admits_anything

theorem accepts_text {text : String} : Schema.text.Accepts root (.str text) :=
  accepts_of_forall fun _ => admits_text.2 ⟨text, rfl⟩

theorem accepts_packed {description text : String} :
    (packed description).Accepts root (.str text) :=
  accepts_of_forall fun _ => admits_packed.2 ⟨text, rfl⟩

theorem accepts_number {x : Number} : number.Accepts root (.num x) :=
  accepts_of_forall fun _ => admits_number.2 ⟨x, rfl⟩

theorem accepts_anyObject {members : OrderedMap Json} : anyObject.Accepts root (.obj members) :=
  accepts_of_forall fun _ => admits_anyObject.2 ⟨members, rfl⟩

theorem accepts_words {choices : List String} {word : String} (h : word ∈ choices) :
    (words choices).Accepts root (.str word) :=
  accepts_of_forall fun _ => admits_words.2 ⟨word, h, rfl⟩

theorem accepts_listOf {items : Schema} {values : List Json}
    (h : ∀ v ∈ values, items.Accepts root v) : (listOf items).Accepts root (.arr values) := by
  have hall : ∀ᶠ bound in Filter.atTop, ∀ v ∈ values, items.Admits root bound v :=
    (Filter.eventually_all_finite (List.finite_toSet values)).2 h
  exact accepts_iff_succ.2 (hall.mono fun bound h => admits_listOf.2 ⟨values, rfl, h⟩)

theorem accepts_definition {name : String} {schema : Schema}
    (hroot : root.definition? ("#/$defs/" ++ name) = some (.obj schema.members)) :
    (definition name).Accepts root value ↔ schema.Accepts root value := by
  rw [accepts_iff_succ, Accepts]
  simp only [admits_definition hroot]

theorem accepts_anyOf {alternatives : List Schema} {schema : Schema} (hmem : schema ∈ alternatives)
    (h : schema.Accepts root value) : (anyOf alternatives).Accepts root value :=
  accepts_iff_succ.2 (h.mono fun _ h => admits_anyOf.2 ⟨schema, hmem, h⟩)

theorem accepts_oneOf_left {a b : Schema} (ha : a.Accepts root value) (hb : b.Refuses root value) :
    (oneOf [a, b]).Accepts root value :=
  accepts_iff_succ.2 ((ha.and hb).mono fun _ h => admits_oneOf_pair.2 (.inl h))

theorem accepts_oneOf_right {a b : Schema} (ha : a.Refuses root value) (hb : b.Accepts root value) :
    (oneOf [a, b]).Accepts root value :=
  accepts_iff_succ.2 ((ha.and hb).mono fun _ h => admits_oneOf_pair.2 (.inr h))

/-! ### Records -/

/-- What is written of a field, if anything, is accepted by the schema of a property of its
name. -/
def Writes (root : Json) (properties : List (String × Schema)) (entry : Option (String × Json)) :
    Prop :=
  ∀ m, entry = some m → ∃ schema, properties.lookup m.1 = some schema ∧ schema.Accepts root m.2

section Writes

open Json

variable {properties : List (String × Schema)} {name : String} {schema : Schema}

theorem writes_field (property : properties.lookup name = some schema)
    (h : schema.Accepts root value) : Writes root properties (field name value) := by
  rintro m hm
  obtain rfl := Option.some.inj hm
  exact ⟨schema, property, h⟩

theorem writes_fieldIf {α : Type} {write : α → Json} {value : Option α}
    (property : properties.lookup name = some schema)
    (h : ∀ a, value = some a → schema.Accepts root (write a)) :
    Writes root properties (fieldIf name write value) := by
  rintro m hm
  obtain ⟨a, ha, rfl⟩ := Option.map_eq_some_iff.1 hm
  exact ⟨schema, property, h a ha⟩

theorem writes_ite {c : Prop} [Decidable c] (property : properties.lookup name = some schema)
    (h : schema.Accepts root value) :
    Writes root properties (if c then none else field name value) := by
  split
  · exact nofun
  · exact writes_field property h

theorem writes_fieldUnlessEmpty {α : Type} {write : α → Json} {items : List α}
    (property : properties.lookup name = some (.listOf schema))
    (h : ∀ a ∈ items, schema.Accepts root (write a)) :
    Writes root properties (fieldUnlessEmpty name write items) := by
  cases items with
  | nil => exact nofun
  | cons a items =>
    exact writes_field property (accepts_listOf (List.forall_mem_map.2 h))

theorem writes_text {value : Option String} (property : properties.lookup name = some .text) :
    Writes root properties (fieldIf name .str value) :=
  writes_fieldIf property fun _ _ => accepts_text

theorem accepts_wordOf {α : Type} [Vocabulary α] (a : α) : (wordOf α).Accepts root (.word a) :=
  accepts_words (List.mem_map_of_mem (Vocabulary.mem_all a))

theorem writes_word {α : Type} [Vocabulary α] {value : Option α}
    (property : properties.lookup name = some (wordOf α)) :
    Writes root properties (fieldIf name .word value) :=
  writes_fieldIf property fun a _ => accepts_wordOf a

/-- **An object is accepted** when each member is declared and accepted by its property's schema,
and what is required is there. -/
theorem accepts_object {required : List String} {closed : Bool} {members : OrderedMap Json}
    (h : ∀ m ∈ members, ∃ schema, properties.lookup m.1 = some schema ∧ schema.Accepts root m.2)
    (hrequired : ∀ name ∈ required, name ∈ OrderedMap.names members) :
    (object properties required closed).Accepts root (.obj members) := by
  have hall : ∀ᶠ bound in Filter.atTop, ∀ m ∈ members, Suits root bound properties closed m := by
    refine (Filter.eventually_all_finite (List.finite_toSet members)).2 fun m hm => ?_
    obtain ⟨schema, hproperty, haccepts⟩ := h m hm
    exact haccepts.mono fun bound hvalid => .named schema hproperty hvalid
  exact accepts_iff_succ.2 (hall.mono fun bound hsuits => admits_object.2
    ⟨members, rfl, hsuits, fun name hname => OrderedMap.contains_iff.2 (hrequired name hname)⟩)

/-- **A record is accepted** when what is written of each field is, and what is required is
written. -/
theorem accepts_record {required : List String} {closed : Bool}
    {entries : List (Option (String × Json))} (h : ∀ entry ∈ entries, Writes root properties entry)
    (hrequired : ∀ name ∈ required, ∃ value, field name value ∈ entries) :
    (object properties required closed).Accepts root (.record entries) := by
  refine accepts_object (fun m hm => ?_) fun name hname => ?_
  · obtain ⟨entry, hentry, rfl⟩ := List.mem_filterMap.1 hm
    exact h _ hentry m rfl
  · obtain ⟨value, hentry⟩ := hrequired name hname
    have hmem : (name, value) ∈ entries.filterMap id := List.mem_filterMap.2 ⟨_, hentry, rfl⟩
    exact List.mem_map_of_mem hmem

end Writes

end Schema

/-! ## Files -/

/-- What a member says depends on the members beside it only by the properties they declare. -/
theorem Schema.obeys_congr {root value : Json} {bound : Nat} {a b : OrderedMap Json}
    (h : a.lookup "properties" = b.lookup "properties") (m : String × Json) :
    Obeys root bound a value m ↔ Obeys root bound b value m := by
  have hdeclares : Json.declares a = Json.declares b := by
    funext property
    rw [Json.declares, Json.declares, h]
  have hpasses (keyword : Keyword) :
      Json.passes (root.admits bound) root a keyword m.2 value =
        Json.passes (root.admits bound) root b keyword m.2 value := by
    cases keyword with
    | additionalProperties => rw [Json.passes, Json.passes, hdeclares]
    | _ => rfl
  simp only [Obeys, hpasses]

namespace SchemaFile

variable {file : SchemaFile} {value : Json}

/-- A file whose heading consists of remarks admits what its schema does. -/
theorem admits_json_iff {root : Json} {bound : Nat} (hheading : ∀ m ∈ file.heading, m.1 ∈ remarks) :
    root.admits bound file.json value = true ↔ file.schema.Admits root bound value := by
  cases bound with
  | zero => exact Iff.rfl
  | succ bound =>
    have hremark : "$defs" ∈ remarks := by decide
    have hdefs : "properties" ≠ "$defs" := by decide
    have hnone : file.heading.lookup "properties" = none := by
      rw [OrderedMap.lookup_eq_none_iff]
      intro hname
      obtain ⟨m, hm, hproperties⟩ := List.mem_map.1 hname
      exact absurd (hheading m hm) (hproperties ▸ by decide)
    have hlookup : (file.heading ++ file.schema.members ++
        [("$defs", Json.obj (Schema.propertyMembers file.definitions))]).lookup "properties" =
          file.schema.members.lookup "properties" := by
      rw [OrderedMap.lookup_append, OrderedMap.lookup_append, hnone, Option.none_or,
        OrderedMap.lookup_cons_of_ne hdefs, List.lookup_nil, Option.or_none]
    rw [SchemaFile.json, Schema.admits_members, List.forall_mem_append, List.forall_mem_append,
      List.forall_mem_singleton]
    simp only [Schema.obeys_congr hlookup]
    constructor
    · exact fun h => Schema.admits_succ.2 h.1.2
    · exact fun h => ⟨⟨fun m hm => .inl (hheading m hm), Schema.admits_succ.1 h⟩, .inl hremark⟩

/-- **A file accepts what its schema does.** -/
theorem accepts_iff (hheading : ∀ m ∈ file.heading, m.1 ∈ remarks) :
    file.Accepts value ↔ file.schema.Accepts file.json value := by
  simp only [Accepts, Schema.Accepts, admits_json_iff hheading]

end SchemaFile

end PageTree
