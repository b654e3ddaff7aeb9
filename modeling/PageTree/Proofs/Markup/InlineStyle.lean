import PageTree.Markup.InlineStyle
import PageTree.Proofs.OrderedMap
import PageTree.Proofs.Text.Cutting
import PageTree.Proofs.Text.Splitting

/-!
# Inline style that is changed

A style text that was put together reads as its parts one after the other, and what was read and
is written reads as before. So a change of one property leaves the declarations of all others, and
whether a style hides its element depends on what the change says of that alone.

## Main definitions

* `InlineStyle.IsPlain`: a property and a value as reading gives them
* `InlineStyle.hides`: the last word on display is that there is none

## Main results

* `InlineStyle.read_eq_singleton_iff`: what reads as itself when it is written
* `InlineStyle.read_write_set`: what a changed style declares
* `InlineStyle.get?_read_change`: what it says of a property
* `InlineStyle.hides_change_display`: a change that hides or shows does so
-/

namespace PageTree

namespace InlineStyle

/-! ## Joined texts -/

theorem read_empty : read "" = [] := rfl

theorem read_append (a b : String) : read (a ++ ";" ++ b) = read a ++ read b := by
  rw [read, String.toList_append, String.toList_append]
  change (Text.split ';' (a.toList ++ [';'] ++ b.toList)).filterMap declaration? = _
  rw [List.append_assoc, List.singleton_append, Text.split_append, List.filterMap_append]
  rfl

/-- A text that was joined declares what its parts declare, one part after the other. -/
theorem read_intercalate (parts : List String) :
    read (";".intercalate parts) = parts.flatMap read := by
  induction parts with
  | nil => rw [String.intercalate_nil, read_empty, List.flatMap_nil]
  | cons part parts ih =>
    by_cases hlast : parts = []
    · rw [hlast, String.intercalate_singleton, List.flatMap_singleton]
    · rw [String.intercalate_cons_of_ne_nil hlast, read_append, ih, List.flatMap_cons]

theorem read_write (declarations : List (String × String)) :
    read (write declarations) = declarations.flatMap fun d => read (d.1 ++ ":" ++ d.2) := by
  rw [write, read_intercalate, List.flatMap_map]

/-! ## Declarations -/

theorem toList_declaration (property value : String) :
    (property ++ ":" ++ value).toList = property.toList ++ ':' :: value.toList := by
  rw [String.toList_append, String.toList_append, List.append_assoc]
  rfl

/-- A declaration without semicolons in its parts is one declaration. -/
theorem read_declaration {property value : String} (hcolon : ':' ∉ property.toList)
    (hproperty : ';' ∉ property.toList) (hvalue : ';' ∉ value.toList) :
    read (property ++ ":" ++ value) =
      [(String.ofList (Text.lower (Text.trimBlank property.toList)),
        String.ofList (Text.trimBlank value.toList))] := by
  have hwhole : ∀ c ∈ property.toList ++ ':' :: value.toList, (c == ';') = false := by
    intro c hc
    rw [beq_eq_false_iff_ne]
    rintro rfl
    rcases List.mem_append.1 hc with hc | hc
    · exact hproperty hc
    · exact (List.mem_cons.1 hc).elim (by decide) hvalue
  rw [read, toList_declaration, Text.split, Text.splitWhere_eq_singleton hwhole,
    List.filterMap_cons, declaration?, Text.cut?_singleton_append value.toList hcolon]
  rfl

/-- A property and a value as reading gives them: the property is in lower case and has no colon in
it, and neither has a semicolon in it or white space around it. -/
structure IsPlain (property value : String) : Prop where
  lower : Text.lower property.toList = property.toList
  trimmed : Text.trimBlank property.toList = property.toList
  colon : ':' ∉ property.toList
  semicolon : ';' ∉ property.toList
  value_trimmed : Text.trimBlank value.toList = value.toList
  value_semicolon : ';' ∉ value.toList

instance (property value : String) : Decidable (IsPlain property value) :=
  decidable_of_iff (Text.lower property.toList = property.toList ∧
      Text.trimBlank property.toList = property.toList ∧ ':' ∉ property.toList ∧
      ';' ∉ property.toList ∧ Text.trimBlank value.toList = value.toList ∧ ';' ∉ value.toList)
    ⟨fun ⟨a, b, c, d, e, f⟩ => ⟨a, b, c, d, e, f⟩, fun ⟨a, b, c, d, e, f⟩ => ⟨a, b, c, d, e, f⟩⟩

/-- Whatever a text is, what is read from it is plain. -/
theorem isPlain_of_mem_read {text : String} {d : String × String} (h : d ∈ read text) :
    IsPlain d.1 d.2 := by
  obtain ⟨part, hpart, hd⟩ := List.mem_filterMap.1 h
  obtain ⟨⟨property, value⟩, hcut, rfl⟩ := Option.map_eq_some_iff.1 hd
  obtain ⟨hcolon, rfl⟩ := Text.cut?_singleton_eq_some hcut
  have hgap : ∀ c ∈ property ++ ':' :: value, c ≠ ';' := fun c hc =>
    beq_eq_false_iff_ne.1 (Text.gap_eq_false_of_mem_splitWhere hpart c hc)
  have hproperty : ';' ∉ property := fun hc => hgap ';' (List.mem_append_left _ hc) rfl
  have hvalue : ';' ∉ value := fun hc =>
    hgap ';' (List.mem_append_right _ (List.mem_cons_of_mem _ hc)) rfl
  change IsPlain (String.ofList _) (String.ofList _)
  exact {
    lower := by rw [String.toList_ofList, Text.lower_lower]
    trimmed := by rw [String.toList_ofList, Text.trimBlank_lower, Text.trimBlank_trimBlank]
    colon := by
      rw [String.toList_ofList]
      exact Text.not_mem_lower (by decide) (Text.not_mem_trimBlank hcolon)
    semicolon := by
      rw [String.toList_ofList]
      exact Text.not_mem_lower (by decide) (Text.not_mem_trimBlank hproperty)
    value_trimmed := by rw [String.toList_ofList, Text.trimBlank_trimBlank]
    value_semicolon := by
      rw [String.toList_ofList]
      exact Text.not_mem_trimBlank hvalue }

/-- **What is plain, and nothing else, reads as itself when it is written.** -/
theorem read_eq_singleton_iff {property value : String} :
    read (property ++ ":" ++ value) = [(property, value)] ↔ IsPlain property value := by
  constructor
  · intro h
    exact isPlain_of_mem_read (d := (property, value)) (h ▸ List.mem_singleton_self _)
  · intro h
    rw [read_declaration h.colon h.semicolon h.value_semicolon, h.trimmed, h.lower,
      h.value_trimmed, String.ofList_toList, String.ofList_toList]

/-- A declaration that was read and is written reads as itself. -/
theorem read_of_mem_read {text : String} {d : String × String} (h : d ∈ read text) :
    read (d.1 ++ ":" ++ d.2) = [d] :=
  read_eq_singleton_iff.2 (isPlain_of_mem_read h)

/-- **What a changed style declares**: what it declared of other properties, then what the change
says. -/
theorem read_write_set (property value text : String) :
    read (write (set property value (read text))) =
      ((read text).filter fun d => d.1 != property) ++
        if value.isEmpty then [] else read (property ++ ":" ++ value) := by
  have hkept : ((read text).filter fun d => d.1 != property).flatMap
      (fun d => read (d.1 ++ ":" ++ d.2)) = (read text).filter fun d => d.1 != property := by
    have hself : ∀ d ∈ (read text).filter fun d => d.1 != property,
        read (d.1 ++ ":" ++ d.2) = [d] := fun d hd => read_of_mem_read (List.mem_of_mem_filter hd)
    rw [List.flatMap_congr hself, List.flatMap_singleton']
  rw [read_write, set, List.flatMap_append, hkept]
  split_ifs
  · rfl
  · rw [List.flatMap_singleton]

/-! ## What hides an element -/

theorem get?_append (property : String) (a b : List (String × String)) :
    get? property (a ++ b) = (get? property b).or (get? property a) := by
  rw [get?, List.reverse_append, OrderedMap.lookup_append]
  rfl

theorem lookup_filter_ne {property other : String} (declarations : List (String × String)) :
    List.lookup property (declarations.filter fun d => d.1 != other) =
      if property = other then none else declarations.lookup property :=
  OrderedMap.lookup_erase other property declarations

theorem get?_filter_ne (property other : String) (declarations : List (String × String)) :
    get? property (declarations.filter fun d => d.1 != other) =
      if property = other then none else get? property declarations := by
  rw [get?, ← List.filter_reverse, lookup_filter_ne]
  rfl

/-- The style hides its element. -/
def hides (text : String) : Bool := get? "display" (read text) == some "none"

/-- The text of a style with a property set; without declarations it is empty. -/
def change (property value text : String) : String :=
  if (set property value (read text)).isEmpty then "" else write (set property value (read text))

theorem read_change (property value text : String) :
    read (change property value text) =
      ((read text).filter fun d => d.1 != property) ++
        if value.isEmpty then [] else read (property ++ ":" ++ value) := by
  rw [← read_write_set, change]
  split_ifs with hempty
  · rw [List.isEmpty_iff.1 hempty]
    rfl
  · rfl

/-- What a changed style says of a property: what the change says of it, and else, of a property
that is not the changed one, what the style said. -/
theorem get?_read_change (property value text other : String) :
    get? other (read (change property value text)) =
      (get? other (if value.isEmpty then [] else read (property ++ ":" ++ value))).or
        (if other = property then none else get? other (read text)) := by
  rw [read_change, get?_append, get?_filter_ne]

/-- A change of one property says nothing new of others that its value does not bring along. -/
theorem get?_read_change_of_ne {property value other : String} (hproperty : other ≠ property)
    (hvalue : other ∉ OrderedMap.names (read (property ++ ":" ++ value))) (text : String) :
    get? other (read (change property value text)) = get? other (read text) := by
  have hnone : get? other (if value.isEmpty then [] else read (property ++ ":" ++ value)) =
      none := by
    split_ifs
    · rfl
    · rw [get?, OrderedMap.lookup_eq_none_iff, OrderedMap.names, List.map_reverse,
        List.mem_reverse]
      exact hvalue
  rw [get?_read_change, if_neg hproperty, hnone, Option.none_or]

/-- **A change that hides or shows** does so whatever the style was. -/
theorem hides_change_display (hidden : Bool) (text : String) :
    hides (change "display" (if hidden then "none" else "") text) = hidden := by
  rw [hides, get?_read_change, if_pos rfl, Option.or_none]
  cases hidden with
  | true => decide +kernel
  | false => rfl

/-- **Another change** hides or shows both of two styles, or leaves both as they are. -/
theorem hides_change_congr {property : String} (hne : "display" ≠ property) (value : String)
    {a b : String} (h : hides a = hides b) :
    hides (change property value a) = hides (change property value b) := by
  rw [hides, hides, get?_read_change, get?_read_change, if_neg hne, if_neg hne]
  cases get? "display" (if value.isEmpty then [] else read (property ++ ":" ++ value)) with
  | none => exact h
  | some shown => rfl

/-- A change hides or shows as the style did before, unless what it declares has to do with
display. -/
theorem hides_change_of_ne {property value : String} (hproperty : "display" ≠ property)
    (hvalue : "display" ∉ OrderedMap.names (read (property ++ ":" ++ value))) (text : String) :
    hides (change property value text) = hides text := by
  rw [hides, hides, get?_read_change_of_ne hproperty hvalue]

end InlineStyle

end PageTree
