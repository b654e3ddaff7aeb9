import PageTree.Proofs.Edit.Basic
import PageTree.Proofs.Text.Splitting
import PageTree.Turn.Completion

/-!
# Edits survive a completion

Edits that came out of a list are packed, printed and put between words. The span from the first
opening bracket to the last closing one is the printed list again, it is not nested too deep, and
each of its items is unpacked to the value that the edit is written as.

## Main results

* `Completion.span?_between`, `Completion.span?_trimBlank`: which span is found
* `Completion.ofText_packed`: the edits are read back
-/

namespace PageTree

theorem Json.exists_itemChars (items : List Json) :
    ∃ inside, itemChars items = inside ++ [']'] := by
  induction items with
  | nil => exact ⟨[], rfl⟩
  | cons item items ih =>
    obtain ⟨inside, hinside⟩ := ih
    exact ⟨',' :: chars item ++ inside, by rw [itemChars, hinside, List.append_assoc]⟩

theorem Json.exists_chars_arr (items : List Json) :
    ∃ inside, (Json.arr items).chars = '[' :: (inside ++ [']']) := by
  cases items with
  | nil => exact ⟨[], rfl⟩
  | cons item items =>
    obtain ⟨inside, hinside⟩ := exists_itemChars items
    exact ⟨chars item ++ inside, by
      rw [chars, hinside, List.cons_append, List.append_assoc]⟩

namespace Completion

/-! ## Spans -/

/-- A bracketed text is found between words without an opening bracket before it and without a
closing one behind it. -/
theorem span?_between {before inside after : List Char} (hbefore : '[' ∉ before)
    (hafter : ']' ∉ after) :
    span? (before ++ '[' :: (inside ++ [']']) ++ after) = some ('[' :: (inside ++ [']'])) := by
  have hopen : (before ++ '[' :: (inside ++ [']']) ++ after).dropWhile (· != '[') =
      '[' :: (inside ++ [']']) ++ after := by
    rw [List.append_assoc, List.dropWhile_append_of_pos fun c hc => ?_]
    · rfl
    · exact bne_iff_ne.2 fun heq => hbefore (heq ▸ hc)
  have hclose : ('[' :: (inside ++ [']']) ++ after).reverse.dropWhile (· != ']') =
      ('[' :: (inside ++ [']'])).reverse := by
    rw [List.reverse_append, List.dropWhile_append_of_pos fun c hc => ?_]
    · rw [← List.cons_append, List.reverse_append]
      rfl
    · exact bne_iff_ne.2 fun heq => hafter (heq ▸ List.mem_reverse.1 hc)
  rw [span?, hopen, hclose, List.reverse_reverse]
  rfl

/-- Characters around a text make no difference unless an opening bracket stands before it or a
closing one behind it. -/
theorem span?_append {before text after : List Char} (hbefore : '[' ∉ before)
    (hafter : ']' ∉ after) : span? (before ++ text ++ after) = span? text := by
  have hopen : ∀ c ∈ before, (c != '[') = true :=
    fun c hc => bne_iff_ne.2 fun heq => hbefore (heq ▸ hc)
  have hclose : ∀ c ∈ after.reverse, (c != ']') = true :=
    fun c hc => bne_iff_ne.2 fun heq => hafter (heq ▸ List.mem_reverse.1 hc)
  rw [span?, span?, List.append_assoc, List.dropWhile_append_of_pos hopen, List.dropWhile_append]
  split
  · next hnone =>
    have hrest : (after.dropWhile (· != '[')).reverse.dropWhile (· != ']') = [] :=
      List.dropWhile_eq_nil_iff.2 fun c hc => hclose c
        (List.mem_reverse.2 ((List.dropWhile_sublist _).subset (List.mem_reverse.1 hc)))
    rw [hrest, List.isEmpty_iff.1 hnone]
    rfl
  · rw [List.reverse_append, List.dropWhile_append_of_pos hclose]

/-- White space around a text makes no difference. -/
theorem span?_trimBlank (text : List Char) : span? (Text.trimBlank text) = span? text := by
  obtain ⟨tail, htail, hback⟩ := Text.exists_trimStart_eq Text.isBlank text
  have hfront := List.takeWhile_append_dropWhile (p := Text.isBlank) (l := text)
  rw [← Text.trimStart, hback, ← List.append_assoc] at hfront
  conv_rhs => rw [← hfront]
  refine (span?_append (fun hc => ?_) fun hc => ?_).symm
  · exact absurd (List.mem_takeWhile_imp hc) (by decide)
  · exact absurd (htail _ hc) (by decide)

theorem ofText_of_no_span {text : String} (h : span? text.toList = none) :
    ofText text = .reply text := by
  rw [ofText, span?_trimBlank, h]

theorem ofText_of_span {text : String} {span : List Char} (h : span? text.toList = some span) :
    ofText text = ofSpan (String.ofList span) := by
  rw [ofText, span?_trimBlank, h]

/-- A list that is read from its compact text is read between words. -/
theorem ofText_between {before after : String} {items : List Json}
    (hbefore : '[' ∉ before.toList) (hafter : ']' ∉ after.toList)
    (hparse : Json.parse? (Json.arr items).compact = some (.arr items)) :
    ofText (before ++ (Json.arr items).compact ++ after) =
      .edits (Batch.ofItems (items.map Json.unpackEdit)) := by
  obtain ⟨inside, hinside⟩ := Json.exists_chars_arr items
  have hspan : span? (before ++ (Json.arr items).compact ++ after).toList =
      some (Json.arr items).chars := by
    rw [String.toList_append, String.toList_append, Json.compact, String.toList_ofList, hinside]
    exact span?_between hbefore hafter
  rw [Json.compact] at hparse
  rw [ofText_of_span hspan, ofSpan, hparse]
  rfl

/-! ## Packed edits -/

theorem ofItems_json {edits : List Edit} (h : ∀ edit ∈ edits, edit.PartsSurvive) :
    Batch.ofItems (edits.map Edit.json) = ⟨edits, []⟩ :=
  Batch.ofItems_json fun edit hedit => Edit.ofJson?_json (h edit hedit)

/-- What is unpacked and read from the items of a list has parts that survive. -/
theorem partsSurvive_of_parse? {inTagged : Bool} {text : String} {items : List Json}
    (hitems : Json.parse? text = some (.arr items)) :
    ∀ edit ∈ (Batch.ofItems (items.map Json.unpackEdit)).edits, edit.PartsSurvive inTagged := by
  intro edit hedit
  obtain ⟨value, hvalue, hread⟩ := List.mem_filterMap.1 hedit
  obtain ⟨item, hitem, rfl⟩ := List.mem_map.1 hvalue
  have hdepth : Json.itemsDepth items < maxDepth := (Json.of_parse? hitems).2
  have hroom := Nat.lt_of_le_of_lt (Json.itemsDepth_le.1 (Nat.le_refl _) item hitem) hdepth
  exact Edit.partsSurvive_of_read (Edit.portable_unpackEdit hroom) hread

theorem unpackEdit_packedAll {edits : List Edit} (hparts : ∀ edit ∈ edits, edit.PartsSurvive)
    (hsturdy : ∀ edit ∈ edits, edit.json.Sturdy) :
    (edits.map Edit.packed).map Json.unpackEdit = edits.map Edit.json := by
  rw [List.map_map]
  exact List.map_congr_left fun edit hedit =>
    Edit.unpackEdit_packed (hparts edit hedit) (hsturdy edit hedit)

/-- A list of packed edits is read back from its compact text. -/
theorem parse?_packed {edits : List Edit} (hparts : ∀ edit ∈ edits, edit.PartsSurvive)
    (hsturdy : ∀ edit ∈ edits, edit.json.Sturdy) :
    Json.parse? (Json.arr (edits.map Edit.packed)).compact =
      some (.arr (edits.map Edit.packed)) := by
  have hlist : (Json.arr (edits.map Edit.packed)).Sturdy := by
    refine Json.sturdy_arr.2 fun item hitem => ?_
    obtain ⟨edit, hedit, rfl⟩ := List.mem_map.1 hitem
    exact Edit.sturdy_packed (hsturdy edit hedit)
  have hdepth : Json.itemsDepth (edits.map Edit.packed) ≤ 2 * Edit.generations := by
    refine Json.itemsDepth_le.2 fun item hitem => ?_
    obtain ⟨edit, hedit, rfl⟩ := List.mem_map.1 hitem
    exact Edit.depth_packed (hparts edit hedit)
  exact Json.parse?_compact hlist.keyed hlist.steady
    (Nat.le_trans (Nat.succ_le_succ hdepth) (by decide))

/-- **Edits survive a completion.** The edits among the items of a list that was read are packed,
printed and put between words; they are read back in order and nothing is left out. -/
theorem ofText_packed {text : String} {items : List Json} {edits : List Edit}
    {before after : String} (hitems : Json.parse? text = some (.arr items))
    (hedits : edits = (Batch.ofItems (items.map Json.unpackEdit)).edits)
    (hsteady : ∀ edit ∈ edits, edit.json.Steady) (hbefore : '[' ∉ before.toList)
    (hafter : ']' ∉ after.toList) :
    ofText (before ++ (Json.arr (edits.map Edit.packed)).compact ++ after) =
      .edits ⟨edits, []⟩ := by
  have hparts : ∀ edit ∈ edits, edit.PartsSurvive := hedits ▸ partsSurvive_of_parse? hitems
  have hsturdy : ∀ edit ∈ edits, edit.json.Sturdy := by
    intro edit hedit
    obtain ⟨d, hsurvives⟩ := Edit.survives_json (hparts edit hedit)
    exact ⟨hsurvives.keyed, hsteady edit hedit⟩
  rw [ofText_between hbefore hafter (parse?_packed hparts hsturdy),
    unpackEdit_packedAll hparts hsturdy, ofItems_json hparts]

/-- Two edits, one with properties that go into a text. -/
def removalAndProps : List Edit :=
  [.delete "a", .updateProps "b" [("n", .num (.int 1)), ("note", .str "[")]]

theorem ofText_packed_removalAndProps :
    ofText ("Two edits: " ++ (Json.arr (removalAndProps.map Edit.packed)).compact ++ " [sic") =
      .edits ⟨removalAndProps, []⟩ := by
  have hparts : ∀ edit ∈ removalAndProps, edit.PartsSurvive := by
    refine List.forall_mem_cons.2 ⟨trivial, List.forall_mem_singleton.2 ⟨rfl, ?_, by decide⟩⟩
    exact ⟨by decide, trivial, trivial, trivial⟩
  have hsturdy : ∀ edit ∈ removalAndProps, edit.json.Sturdy := by
    refine List.forall_mem_cons.2 ⟨⟨?_, trivial, trivial, trivial⟩,
      List.forall_mem_singleton.2 ⟨?_, trivial, trivial, ⟨rfl, trivial, trivial⟩, trivial⟩⟩
    · exact ⟨by decide, trivial, trivial, trivial⟩
    · exact ⟨by decide, trivial, trivial, ⟨by decide, trivial, trivial, trivial⟩, trivial⟩
  have hedits : removalAndProps =
      (Batch.ofItems ((removalAndProps.map Edit.packed).map Json.unpackEdit)).edits := by
    rw [unpackEdit_packedAll hparts hsturdy, ofItems_json hparts]
  exact ofText_packed (parse?_packed hparts hsturdy) hedits
    (fun edit hedit => (hsturdy edit hedit).steady) (by decide) (by decide)

end Completion

end PageTree
