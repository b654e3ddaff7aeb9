import Mathlib.Data.List.TakeWhile
import Mathlib.Tactic.Common
import PageTree.Text.Classes

/-!
# Splitting texts

The parts of a text between separators, and its words, when the text was put together from parts.

## Main results

* `Text.splitWhere_append`: a separator cuts a text in two
* `Text.wordsBy_append`, `Text.wordsBy_trim`: the words of a longer and of a trimmed text
* `PageTree.words_intercalate`: words that are joined by a blank stay words
-/

namespace PageTree

namespace Text

variable {gap : Char → Bool}

/-! ## Parts -/

theorem splitWhere_ne_nil (text : List Char) : splitWhere gap text ≠ [] := by
  cases text with
  | nil => exact List.cons_ne_nil _ _
  | cons c text =>
    rw [splitWhere]
    split
    · exact List.cons_ne_nil _ _
    · split
      · exact List.cons_ne_nil _ _
      · exact List.cons_ne_nil _ _

theorem splitWhere_eq_singleton {text : List Char} (h : ∀ c ∈ text, gap c = false) :
    splitWhere gap text = [text] := by
  induction text with
  | nil => rfl
  | cons c text ih =>
    obtain ⟨hc, htext⟩ := List.forall_mem_cons.1 h
    rw [splitWhere, hc, if_neg Bool.false_ne_true, ih htext]

/-- A separator cuts a text in two. -/
theorem splitWhere_append (a b : List Char) {c : Char} (hc : gap c = true) :
    splitWhere gap (a ++ c :: b) = splitWhere gap a ++ splitWhere gap b := by
  induction a with
  | nil => simp only [List.nil_append, splitWhere, if_pos hc, List.singleton_append]
  | cons d a ih =>
    rw [List.cons_append, splitWhere, splitWhere, ih]
    split_ifs
    · rfl
    · cases hparts : splitWhere gap a with
      | nil => exact absurd hparts (splitWhere_ne_nil a)
      | cons part parts => rfl

/-- No part has a separator in it. -/
theorem gap_eq_false_of_mem_splitWhere {text part : List Char} (h : part ∈ splitWhere gap text) :
    ∀ c ∈ part, gap c = false := by
  induction text generalizing part with
  | nil =>
    rw [splitWhere, List.mem_singleton] at h
    simp [h]
  | cons c text ih =>
    rw [splitWhere] at h
    split_ifs at h with hc
    · rcases List.mem_cons.1 h with rfl | h
      · simp
      · exact ih h
    · cases hparts : splitWhere gap text with
      | nil => exact absurd hparts (splitWhere_ne_nil text)
      | cons first parts =>
        rw [hparts] at h ih
        rcases List.mem_cons.1 h with rfl | h
        · exact List.forall_mem_cons.2 ⟨Bool.not_eq_true _ ▸ hc, ih (List.mem_cons_self ..)⟩
        · exact ih (List.mem_cons_of_mem _ h)

/-- The first part begins the text, and the others stand in it. -/
theorem exists_splitWhere_eq (text : List Char) : ∃ first parts,
    splitWhere gap text = first :: parts ∧ first <+: text ∧ ∀ part ∈ parts, part <:+: text := by
  induction text with
  | nil => exact ⟨[], [], rfl, List.prefix_rfl, List.forall_mem_nil _⟩
  | cons c text ih =>
    obtain ⟨first, parts, hparts, hfirst, hrest⟩ := ih
    have hlater {part : List Char} (h : part <:+: text) : part <:+: c :: text :=
      h.trans (List.suffix_cons c text).isInfix
    rw [splitWhere, hparts]
    split_ifs
    · exact ⟨[], first :: parts, rfl, List.nil_prefix, List.forall_mem_cons.2
        ⟨hlater hfirst.isInfix, fun part hpart => hlater (hrest part hpart)⟩⟩
    · exact ⟨c :: first, parts, rfl, List.cons_prefix_cons.2 ⟨rfl, hfirst⟩,
        fun part hpart => hlater (hrest part hpart)⟩

theorem split_append (mark : Char) (a b : List Char) :
    split mark (a ++ mark :: b) = split mark a ++ split mark b :=
  splitWhere_append a b (beq_self_eq_true mark)

/-! ## Words -/

theorem wordsBy_append (a b : List Char) {c : Char} (hc : gap c = true) :
    wordsBy gap (a ++ c :: b) = wordsBy gap a ++ wordsBy gap b := by
  rw [wordsBy, splitWhere_append a b hc, List.filter_append]
  rfl

theorem wordsBy_cons_gap (text : List Char) {c : Char} (hc : gap c = true) :
    wordsBy gap (c :: text) = wordsBy gap text :=
  wordsBy_append [] text hc

theorem wordsBy_dropWhile (text : List Char) :
    wordsBy gap (text.dropWhile gap) = wordsBy gap text := by
  induction text with
  | nil => rfl
  | cons c text ih =>
    by_cases hc : gap c = true
    · rw [List.dropWhile_cons_of_pos hc, ih, wordsBy_cons_gap text hc]
    · rw [List.dropWhile_cons_of_neg hc]

theorem wordsBy_append_gaps (text : List Char) {gaps : List Char} (h : ∀ c ∈ gaps, gap c = true) :
    wordsBy gap (text ++ gaps) = wordsBy gap text := by
  induction gaps generalizing text with
  | nil => rw [List.append_nil]
  | cons c gaps ih =>
    obtain ⟨hc, hgaps⟩ := List.forall_mem_cons.1 h
    rw [wordsBy_append _ _ hc, ← List.nil_append gaps, ih [] hgaps]
    exact List.append_nil _

/-- What trimming drops at the end is of the class. -/
theorem exists_trimStart_eq (drop : Char → Bool) (text : List Char) :
    ∃ tail, (∀ c ∈ tail, drop c = true) ∧ trimStart drop text = trim drop text ++ tail := by
  have hsplit := List.takeWhile_append_dropWhile (p := drop) (l := (trimStart drop text).reverse)
  refine ⟨((trimStart drop text).reverse.takeWhile drop).reverse,
    fun c hc => List.mem_takeWhile_imp (List.mem_reverse.1 hc), ?_⟩
  rw [trim, trimEnd, ← List.reverse_append, hsplit, List.reverse_reverse]

/-- Trimming a text keeps its words. -/
theorem wordsBy_trim (text : List Char) : wordsBy gap (trim gap text) = wordsBy gap text := by
  obtain ⟨gaps, hgaps, hback⟩ := exists_trimStart_eq gap text
  rw [← wordsBy_append_gaps (trim gap text) hgaps, ← hback, trimStart, wordsBy_dropWhile]

theorem mem_wordsBy {text word : List Char} (h : word ∈ wordsBy gap text) :
    word ≠ [] ∧ ∀ c ∈ word, gap c = false := by
  rw [wordsBy, List.mem_filter] at h
  exact ⟨by simpa using h.2, gap_eq_false_of_mem_splitWhere h.1⟩

/-- Words stand in their text. -/
theorem infix_of_mem_wordsBy {text word : List Char} (h : word ∈ wordsBy gap text) :
    word <:+: text := by
  have hpart := (List.mem_filter.1 h).1
  obtain ⟨first, parts, hparts, hfirst, hrest⟩ := @exists_splitWhere_eq gap text
  rw [hparts] at hpart
  rcases List.mem_cons.1 hpart with rfl | hlater
  · exact hfirst.isInfix
  · exact hrest word hlater

theorem wordsBy_eq_singleton {word : List Char} (hne : word ≠ []) (h : ∀ c ∈ word, gap c = false) :
    wordsBy gap word = [word] := by
  rw [wordsBy, splitWhere_eq_singleton h, List.filter_cons_of_pos (by simpa using hne),
    List.filter_nil]

theorem wordsBy_intercalate {c : Char} (hc : gap c = true) {words : List (List Char)}
    (h : ∀ word ∈ words, word ≠ [] ∧ ∀ c ∈ word, gap c = false) :
    wordsBy gap ([c].intercalate words) = words := by
  induction words with
  | nil => rfl
  | cons word words ih =>
    obtain ⟨hword, hwords⟩ := List.forall_mem_cons.1 h
    have hself := wordsBy_eq_singleton hword.1 hword.2
    by_cases hlast : words = []
    · rw [hlast, List.intercalate_singleton, hself]
    · rw [List.intercalate_cons_of_ne_nil hlast, List.append_assoc, List.singleton_append,
        wordsBy_append _ _ hc, hself, ih hwords, List.singleton_append]

end Text

/-! ## Words of a text -/

theorem words_ofList_append (a : List Char) (name : String) :
    words (String.ofList (a ++ ' ' :: name.toList)) = words (String.ofList a) ++ words name := by
  have hblank : Text.isBlank ' ' = true := by decide
  rw [words, String.toList_ofList, Text.words, Text.wordsBy_append _ _ hblank, List.map_append,
    words, String.toList_ofList]
  rfl

theorem words_trimBlank (text : String) :
    words (String.ofList (Text.trimBlank text.toList)) = words text := by
  rw [words, String.toList_ofList, Text.words, Text.trimBlank, Text.wordsBy_trim]
  rfl

/-- Some of the words of a text, joined by a blank, are the words of what that makes. -/
theorem words_intercalate {text : String} {names : List String} (h : names ⊆ words text) :
    words (" ".intercalate names) = names := by
  have hblank : Text.isBlank ' ' = true := by decide
  have hwords : ∀ word ∈ names.map String.toList,
      word ≠ [] ∧ ∀ c ∈ word, Text.isBlank c = false := by
    intro word hword
    obtain ⟨name, hname, rfl⟩ := List.mem_map.1 hword
    obtain ⟨chars, hchars, rfl⟩ := List.mem_map.1 (h hname)
    rw [String.toList_ofList]
    exact Text.mem_wordsBy hchars
  rw [words, String.toList_intercalate]
  change (Text.wordsBy Text.isBlank ([' '].intercalate _)).map String.ofList = names
  rw [Text.wordsBy_intercalate hblank hwords, List.map_map]
  simp [Function.comp_def]

end PageTree
