import Mathlib.Data.List.Sigma
import PageTree.Proofs.Diagnosis.Reports
import PageTree.Proofs.Json.Grammar
import PageTree.Proofs.Turn.Round

/-!
# Every answer is classified

An answer is words, edits, or edits that cannot be read, and nothing but its brackets and the
grammar of JSON texts decides which. Without an opening bracket before a closing one it is words,
as they are. Otherwise the span from the first opening bracket to the last closing one has to say
something that has a value. What begins with a bracket says an array, so that a value can be no
other than a list, and neither complaint about a value that is no list is ever made.

The grammar alone would not decide it. A numeral that overflows when it is converted, and half of a
surrogate pair, are within the grammar, and a span with one of them is not taken for a list. A
numeral whose digits fit into 64 bits is that integer. Any other is scaled: its leading digits are
rounded to a float and multiplied by a power of ten, which can overflow although the numeral stands
for a number below the largest float.

## Main definitions

* `Completion.Spans`: the span that a text holds between its outermost brackets
* `Batch.Sorts`: a batch keeps the edits of a list and warns of everything else in it
* `Completion.AgreesWithGrammar`: what would be so if the grammar alone decided

## Main results

* `Completion.ofText_classified`: what the text of an answer amounts to
* `Completion.ofText_of_value?_eq_none`: what is grammatical and has no value is refused
-/

namespace PageTree

open JsonReader JsonGrammar

/-! ## Batches of a list -/

/-- A batch keeps the items of a list that are edits, in order, and warns once of every other item
at its index. What becomes of an item is up to the item alone. -/
structure Batch.Sorts (batch : Batch) (items : List Json) : Prop where
  edits : batch.edits = items.filterMap fun item => Edit.ofJson? item.unpackEdit
  skipped : batch.skipped =
    (items.zipIdx.filter fun p => !Answer.isEdit p.1).map fun p => skipWarning p.2
  once : ∀ (index : Nat) (item : Json), items[index]? = some item →
    batch.skipped.countP (fun warning => warning.path == "ops[" ++ toString index ++ "]") =
      if Answer.isEdit item then 0 else 1

namespace Batch

theorem path_skipWarning_injective : Function.Injective fun index => (skipWarning index).path := by
  intro index other h
  have hparts (index : Nat) : (skipWarning index).path.toList = itemPart "ops" index := by
    simp [skipWarning, itemPart]
  refine itemPart_injective "ops" ?_
  rw [← hparts, ← hparts]
  exact congrArg String.toList h

/-- The indices of the items that are no edits. -/
theorem mem_indices_iff {items : List Json} {index : Nat} {item : Json}
    (hitem : items[index]? = some item) :
    index ∈ (items.zipIdx.filter fun p => !Answer.isEdit p.1).map Prod.snd ↔
      Answer.isEdit item = false := by
  simp only [List.mem_map, List.mem_filter, Bool.not_eq_true']
  constructor
  · rintro ⟨⟨other, _⟩, ⟨hmem, hother⟩, rfl⟩
    obtain rfl := Option.some.inj (hitem.symm.trans (List.mk_mem_zipIdx_iff_getElem?.1 hmem))
    exact hother
  · intro hedit
    exact ⟨(item, index), ⟨List.mk_mem_zipIdx_iff_getElem?.2 hitem, hedit⟩, rfl⟩

theorem sorts_ofItems (items : List Json) : (ofItems (items.map Json.unpackEdit)).Sorts items where
  edits := by
    rw [ofItems, List.filterMap_map]
    rfl
  skipped := skipped_unpacked items
  once index item hitem := by
    let indices := (items.zipIdx.filter fun p => !Answer.isEdit p.1).map Prod.snd
    have hnodup : indices.Nodup :=
      (List.nodup_zipIdx_map_snd items).sublist (List.filter_sublist.map Prod.snd)
    -- Paths tell indices, and no index is there twice.
    have hcount : (ofItems (items.map Json.unpackEdit)).skipped.countP
        (fun warning => warning.path == (skipWarning index).path) = indices.count index := by
      rw [skipped_unpacked, List.countP_map, List.count, List.countP_map]
      refine List.countP_congr fun p _ => ?_
      simp only [Function.comp_apply, beq_iff_eq]
      exact path_skipWarning_injective.eq_iff
    refine hcount.trans ?_
    rw [hnodup.count]
    cases hedit : Answer.isEdit item with
    | false =>
      rw [if_pos ((mem_indices_iff hitem).2 hedit)]
      rfl
    | true =>
      have hmem : index ∉ indices := fun h =>
        absurd (hedit.symm.trans ((mem_indices_iff hitem).1 h)) (by decide)
      rw [if_neg hmem]
      rfl

end Batch

namespace Completion

/-! ## Spans -/

/-- The text holds the span from its first opening bracket to its last closing one. -/
def Spans (text span : List Char) : Prop :=
  ∃ before inside after, text = before ++ span ++ after ∧ span = '[' :: (inside ++ [']']) ∧
    '[' ∉ before ∧ ']' ∉ after

theorem Spans.span?_eq {text span : List Char} (h : Spans text span) : span? text = some span := by
  obtain ⟨before, inside, after, rfl, rfl, hbefore, hafter⟩ := h
  exact span?_between hbefore hafter

theorem exists_spans_cons {text : List Char} (h : ']' ∈ text) :
    ∃ span, Spans ('[' :: text) span := by
  obtain ⟨after, inside, htext, hafter⟩ := List.eq_append_cons_of_mem (List.mem_reverse.2 h)
  have hsplit : text = inside.reverse ++ [']'] ++ after.reverse := by
    rw [← List.reverse_reverse text, htext, List.reverse_append, List.reverse_cons]
  refine ⟨'[' :: (inside.reverse ++ [']']), [], inside.reverse, after.reverse, ?_, rfl,
    List.not_mem_nil, mt List.mem_reverse.1 hafter⟩
  rw [hsplit]
  rfl

/-- A text with an opening bracket before a closing one holds a span. -/
theorem HasBrackets.exists_spans {text : List Char} (h : HasBrackets text) :
    ∃ span, Spans text span := by
  obtain ⟨before, inside, after, rfl⟩ := h
  induction before with
  | nil => exact exists_spans_cons (List.mem_append_right _ List.mem_cons_self)
  | cons c before ih =>
    by_cases hc : c = '['
    · subst hc
      exact exists_spans_cons (by simp)
    · obtain ⟨span, front, inner, back, htext, hspan, hfront, hback⟩ := ih
      refine ⟨span, c :: front, inner, back, ?_, hspan, ?_, hback⟩
      · rw [List.cons_append, htext]
        rfl
      · exact List.not_mem_cons_of_ne_of_not_mem (Ne.symm hc) hfront

theorem hasBrackets_iff {text : List Char} : HasBrackets text ↔ ∃ span, Spans text span := by
  refine ⟨HasBrackets.exists_spans, ?_⟩
  rintro ⟨_, before, inside, after, rfl, rfl, -, -⟩
  exact ⟨before, inside, after, by simp⟩

/-! ## Answers -/

theorem ofText_of_words {text : String} (h : ¬HasBrackets text.toList) :
    ofText text = .reply text :=
  ofText_of_no_span (span?_eq_none h)

variable {text : String} {span : List Char}

theorem ofText_of_spans (h : Spans text.toList span) :
    ofText text = ofSpan (String.ofList span) :=
  ofText_of_span h.span?_eq

/-- A span that says something is a list, and its batch is made of the items. -/
theorem ofText_of_value {value : Json} (hspan : Spans text.toList span)
    (h : Says maxDepth span value) : ∃ items, value = .arr items ∧
      ofText text = .edits (Batch.ofItems (items.map Json.unpackEdit)) := by
  have hparse : Json.parse? (String.ofList span) = some value := by
    rw [Json.parse?_eq_some_iff, String.toList_ofList]
    exact h
  rw [ofText_of_spans hspan]
  obtain ⟨before, inside, after, -, rfl, -, -⟩ := hspan
  obtain ⟨items, rfl⟩ := h.exists_items
  refine ⟨items, rfl, ?_⟩
  rw [ofSpan, hparse]
  rfl

theorem ofText_of_no_value (hspan : Spans text.toList span)
    (h : ¬∃ value, Says maxDepth span value) :
    ofText text = .failure "completion is not valid JSON" := by
  have hparse : Json.parse? (String.ofList span) = none := by
    rw [Option.eq_none_iff_forall_ne_some]
    intro value hvalue
    rw [Json.parse?_eq_some_iff, String.toList_ofList] at hvalue
    exact h ⟨value, hvalue⟩
  rw [ofText_of_spans hspan, ofSpan, hparse]

theorem ofText_cases (text : String) :
    ¬HasBrackets text.toList ∧ ofText text = .reply text ∨
      (∃ batch, ofText text = .edits batch) ∨
      ofText text = .failure "completion is not valid JSON" := by
  by_cases hbrackets : HasBrackets text.toList
  · obtain ⟨span, hspan⟩ := hbrackets.exists_spans
    by_cases hvalue : ∃ value, Says maxDepth span value
    · obtain ⟨value, hvalue⟩ := hvalue
      obtain ⟨items, -, hbatch⟩ := ofText_of_value hspan hvalue
      exact .inr (.inl ⟨_, hbatch⟩)
    · exact .inr (.inr (ofText_of_no_value hspan hvalue))
  · exact .inl ⟨hbrackets, ofText_of_words hbrackets⟩

/-- **Every answer is classified.** It is words, and these are the text as it is, just when no
opening bracket stands before a closing one. Otherwise the span between the outermost brackets
decides. If it says something that has a value, then this is a list, and the answer is the batch
that keeps its edits and warns of everything else; and if not, the answer is not valid JSON. No
answer is refused for another reason. -/
theorem ofText_classified (text : String) :
    (HasBrackets text.toList ↔ ∃ span, Spans text.toList span) ∧
      (∀ reply, ofText text = .reply reply ↔ reply = text ∧ ¬HasBrackets text.toList) ∧
      (∀ span, Spans text.toList span →
        ((∃ batch, ofText text = .edits batch) ↔ ∃ value, Says maxDepth span value) ∧
          (∀ value, Says maxDepth span value → ∃ items batch, value = .arr items ∧
            ofText text = .edits batch ∧ batch.Sorts items) ∧
          ((¬∃ value, Says maxDepth span value) →
            ofText text = .failure "completion is not valid JSON")) ∧
      ∀ reason, ofText text = .failure reason →
        reason ≠ "completion is not an array" ∧ reason ≠ Failure.editsNotListed.message := by
  refine ⟨hasBrackets_iff, fun reply => ⟨fun h => ?_, ?_⟩, fun span hspan => ⟨⟨?_, ?_⟩, ?_,
    ofText_of_no_value hspan⟩, fun reason h => ?_⟩
  · obtain ⟨hwords, hreply⟩ | ⟨batch, hbatch⟩ | hfailure := ofText_cases text
    · cases h.symm.trans hreply
      exact ⟨rfl, hwords⟩
    · cases h.symm.trans hbatch
    · cases h.symm.trans hfailure
  · rintro ⟨rfl, hwords⟩
    exact ofText_of_words hwords
  · rintro ⟨batch, hbatch⟩
    by_contra hvalue
    cases hbatch.symm.trans (ofText_of_no_value hspan hvalue)
  · rintro ⟨value, hvalue⟩
    obtain ⟨items, -, hbatch⟩ := ofText_of_value hspan hvalue
    exact ⟨_, hbatch⟩
  · intro value hvalue
    obtain ⟨items, rfl, hbatch⟩ := ofText_of_value hspan hvalue
    exact ⟨items, _, rfl, hbatch, Batch.sorts_ofItems items⟩
  · obtain ⟨-, hreply⟩ | ⟨batch, hbatch⟩ | hfailure := ofText_cases text
    · cases h.symm.trans hreply
    · cases h.symm.trans hbatch
    · cases h.symm.trans hfailure
      exact ⟨by decide, by decide⟩

/-- An edit and something else. -/
def deletionAndRename : List Json :=
  [.obj [("op", .str "delete"), ("nodeId", .str "a")], .obj [("op", .str "rename")]]

theorem ofText_classified_deletionAndRename :
    let text := "Gone: " ++ (Json.arr deletionAndRename).compact ++ " (sic)"
    let span := (Json.arr deletionAndRename).compact.toList
    Spans text.toList span ∧ Says maxDepth span (.arr deletionAndRename) ∧
      ∃ batch, ofText text = .edits batch ∧ batch.Sorts deletionAndRename := by
  intro text span
  have hspan : Spans text.toList span := by
    obtain ⟨inside, hinside⟩ := Json.exists_chars_arr deletionAndRename
    refine ⟨"Gone: ".toList, inside, " (sic)".toList, ?_, ?_, by decide, by decide⟩
    · simp only [text, span, String.toList_append]
    · rw [← hinside, ← String.toList_ofList (l := Json.chars _)]
      rfl
  have hlist : Says maxDepth span (.arr deletionAndRename) := by
    refine Json.parse?_eq_some_iff.1 (Json.parse?_compact ?_ (by decide +kernel) (by decide))
    exact ⟨⟨by decide, trivial, trivial, trivial⟩, ⟨by decide, trivial, trivial⟩, trivial⟩
  obtain ⟨items, batch, heq, hbatch, hsorts⟩ :=
    ((ofText_classified text).2.2.1 span hspan).2.1 _ hlist
  cases heq
  exact ⟨hspan, hlist, batch, hbatch, hsorts⟩

/-! ## What the grammar alone does not decide -/

/-- An answer is edits just when its span is within the grammar. -/
def AgreesWithGrammar (text : String) : Prop :=
  ∀ span, Spans text.toList span →
    ((∃ batch, ofText text = .edits batch) ↔ ∃ literal, SpellsText maxDepth span literal)

/-- A span that says something without a value is refused, though it is within the grammar. -/
theorem ofText_of_value?_eq_none {literal : Literal} (hspan : Spans text.toList span)
    (h : SpellsText maxDepth span literal) (hvalue : literal.value? = none) :
    ofText text = .failure "completion is not valid JSON" := by
  refine ofText_of_no_value hspan ?_
  rintro ⟨value, other, hother, hsome⟩
  obtain rfl : literal = other := Option.some.inj (h.read.symm.trans hother.read)
  rw [hvalue] at hsome
  cases hsome

/-- A numeral beyond the range of floats. -/
theorem spellsText_beyondRange : SpellsText maxDepth "[1e999]".toList (.arr [.unusable]) := by
  have hwhole : IsWhole ['1'] := ⟨⟨List.cons_ne_nil _ _, by decide⟩, by decide⟩
  have hdigits : IsDigits ['9', '9', '9'] := ⟨List.cons_ne_nil _ _, by decide⟩
  have hnumeral : SpellsNumeral "1e999]".toList ⟨false, [1], none, some 999⟩ [']'] :=
    .positive (.mk hwhole .absent (.mark (Or.inl rfl) .absent hdigits))
  have hnumber : (⟨false, [1], none, some 999⟩ : Numeral).number? = none := by decide +kernel
  have hitem : Spells 126 "1e999]".toList (usable .num none) [']'] := hnumber ▸ .num hnumeral
  exact ⟨_, [], .refl _, .arr (.last (.refl _) hitem (.refl _)), .refl _⟩

/-- A numeral that is less than the largest float. -/
example : (⟨false, [1], some [7, 9, 7, 6, 9, 3, 1, 3, 4, 8, 6, 2, 3, 1, 5, 7, 0, 8], some 308⟩ :
    Numeral).number? = none := by
  decide +kernel

/-- Half of a surrogate pair. -/
theorem spellsText_unpaired :
    SpellsText maxDepth "[\"\\ud800\"]".toList (.arr [.unusable]) := by
  have hstring : SpellsString "\\ud800\"]".toList none [']'] :=
    ⟨[0xd800], .code (by decide) .close, by decide⟩
  exact ⟨_, [], .refl _, .arr (.last (.refl _) (.str hstring) (.refl _)), .refl _⟩

theorem not_agreesWithGrammar {literal : Literal} (hspan : Spans text.toList span)
    (h : SpellsText maxDepth span literal) (hvalue : literal.value? = none) :
    ¬AgreesWithGrammar text := by
  intro hall
  obtain ⟨batch, hbatch⟩ := (hall span hspan).2 ⟨literal, h⟩
  cases hbatch.symm.trans (ofText_of_value?_eq_none hspan h hvalue)

/-- Being within the grammar and the bound is not enough for a list to be taken up. -/
theorem not_agreesWithGrammar_unusable :
    ¬AgreesWithGrammar "[1e999]" ∧ ¬AgreesWithGrammar "[\"\\ud800\"]" := by
  constructor
  · have hspan : Spans "[1e999]".toList "[1e999]".toList :=
      ⟨[], "1e999".toList, [], rfl, rfl, by decide, by decide⟩
    exact not_agreesWithGrammar hspan spellsText_beyondRange rfl
  · have hspan : Spans "[\"\\ud800\"]".toList "[\"\\ud800\"]".toList :=
      ⟨[], "\"\\ud800\"".toList, [], rfl, rfl, by decide, by decide⟩
    exact not_agreesWithGrammar hspan spellsText_unpaired rfl

end Completion

end PageTree
