import PageTree.Proofs.Markup.Escaping
import PageTree.Proofs.Text.Replacing

/-!
# Entities, one after the other

Escaping can be read as four replacements in the whole text, ampersands first, and unescaping as
five, ampersands last. In both orders every entity stands apart from those replaced before it, so
nothing that a replacement brings in is replaced again, and the replacements in turn come to the
single pass over the text. That a text comes back when it is escaped and unescaped, and what an
escaped text looks like, can then be seen character by character, also for a text that holds
entities already.

## Main definitions

* `Markup.escapeReplacements`, `Markup.unescapeReplacements`
* `Markup.writtenEntities`: the entities that an escaped text may have

## Main results

* `Markup.escapeChars_eq_replaceInTurn`, `Markup.unescapeChars_eq_replaceInTurn`
* `Markup.escape_reversible`
-/

namespace PageTree

namespace Markup

open Text

/-- Ampersands first, so that those of the other entities are not escaped again. -/
def escapeReplacements : List Replacement :=
  [⟨['&'], ['&', 'a', 'm', 'p', ';']⟩, ⟨['<'], ['&', 'l', 't', ';']⟩,
    ⟨['>'], ['&', 'g', 't', ';']⟩, ⟨['"'], ['&', 'q', 'u', 'o', 't', ';']⟩]

/-- Ampersands last, so that they do not make entities of what stands behind them. -/
def unescapeReplacements : List Replacement :=
  [⟨['&', 'l', 't', ';'], ['<']⟩, ⟨['&', 'g', 't', ';'], ['>']⟩,
    ⟨['&', 'q', 'u', 'o', 't', ';'], ['"']⟩, ⟨['&', '#', '3', '9', ';'], ['\'']⟩,
    ⟨['&', 'a', 'm', 'p', ';'], ['&']⟩]

/-- The entities that escaping writes. -/
def writtenEntities : List (List Char) := escapeReplacements.map Replacement.substitute

/-! ## Replacements in turn -/

theorem escapeChars_eq_replaceAtOnce (text : List Char) :
    escapeChars text = replaceAtOnce escapeReplacements text := by
  induction text with
  | nil => simp
  | cons c text ih =>
    rw [escapeChars_cons, ih, escapeChar]
    split_ifs with hamp hlt hgt hquote
    · rw [hamp, replaceAtOnce_of_find? rfl]
      rfl
    · rw [hlt, replaceAtOnce_of_find? rfl]
      rfl
    · rw [hgt, replaceAtOnce_of_find? rfl]
      rfl
    · rw [hquote, replaceAtOnce_of_find? rfl]
      rfl
    · rw [replaceAtOnce_cons_of_none]
      · rfl
      · simp [escapeReplacements, List.cons_prefix_cons, Ne.symm hamp, Ne.symm hlt, Ne.symm hgt,
          Ne.symm hquote]

/-- **Escaping is replacing in turn**, ampersands first. -/
theorem escapeChars_eq_replaceInTurn (text : List Char) :
    escapeChars text = replaceInTurn escapeReplacements text := by
  rw [replaceInTurn_eq_replaceAtOnce (by decide) (by decide), escapeChars_eq_replaceAtOnce]

theorem unescapeChars_eq_replaceAtOnce (text : List Char) :
    unescapeChars text = replaceAtOnce unescapeReplacements text := by
  fun_induction unescapeChars text with
  | case1 => simp
  | case2 rest ih => rw [ih, replaceAtOnce_of_find? rfl]; rfl
  | case3 rest ih => rw [ih, replaceAtOnce_of_find? rfl]; rfl
  | case4 rest ih => rw [ih, replaceAtOnce_of_find? rfl]; rfl
  | case5 rest ih => rw [ih, replaceAtOnce_of_find? rfl]; rfl
  | case6 rest ih => rw [ih, replaceAtOnce_of_find? rfl]; rfl
  | case7 c rest hlt hgt hquot hapos hamp ih =>
    rw [ih, replaceAtOnce_cons_of_none]
    simp only [unescapeReplacements, List.forall_mem_cons, List.cons_prefix_cons]
    refine ⟨?_, ?_, ?_, ?_, ?_, by simp⟩
    · rintro ⟨rfl, behind, rfl⟩
      exact hlt behind rfl rfl
    · rintro ⟨rfl, behind, rfl⟩
      exact hgt behind rfl rfl
    · rintro ⟨rfl, behind, rfl⟩
      exact hquot behind rfl rfl
    · rintro ⟨rfl, behind, rfl⟩
      exact hapos behind rfl rfl
    · rintro ⟨rfl, behind, rfl⟩
      exact hamp behind rfl rfl

/-- **Unescaping is replacing in turn**, ampersands last. -/
theorem unescapeChars_eq_replaceInTurn (text : List Char) :
    unescapeChars text = replaceInTurn unescapeReplacements text := by
  rw [replaceInTurn_eq_replaceAtOnce (by decide) (by decide), unescapeChars_eq_replaceAtOnce]

/-! ## Ampersands in escaped texts -/

/-- An ampersand begins an entity and stands nowhere else in it. -/
theorem not_mem_tail_of_mem_writtenEntities :
    ∀ entity ∈ writtenEntities, '&' ∉ entity.tail := by
  decide

theorem escapeChar_cases (c : Char) :
    escapeChar c ∈ writtenEntities ∨ c ≠ '&' ∧ escapeChar c = [c] := by
  unfold escapeChar
  split_ifs with hamp hlt hgt hquote
  · exact .inl (by decide)
  · exact .inl (by decide)
  · exact .inl (by decide)
  · exact .inl (by decide)
  · exact .inr ⟨hamp, rfl⟩

/-- Where an escaped character has an ampersand, that is the first of an entity. -/
theorem of_escapeChar_eq_append {c : Char} {before after : List Char}
    (h : escapeChar c = before ++ '&' :: after) : '&' :: after ∈ writtenEntities := by
  rcases escapeChar_cases c with hentity | ⟨hc, hself⟩
  · cases before with
    | nil => rwa [h] at hentity
    | cons d before =>
      refine absurd ?_ (not_mem_tail_of_mem_writtenEntities _ hentity)
      simp [h]
  · rw [hself] at h
    cases before with
    | nil => exact absurd (List.cons.inj h).1 hc
    | cons d before => simp at h

/-- **Every ampersand of an escaped text begins an entity.** -/
theorem entity_of_escapeChars_eq {text before after : List Char}
    (h : escapeChars text = before ++ '&' :: after) :
    ∃ entity ∈ writtenEntities, entity <+: '&' :: after := by
  induction text generalizing before with
  | nil => simp at h
  | cons c text ih =>
    rw [escapeChars_cons] at h
    -- the ampersand stands behind what the first character is written as, or in it
    rcases List.append_eq_append_iff.1 h with ⟨rest, -, hrest⟩ | ⟨inside, hinside, hrest⟩
    · exact ih hrest
    · cases inside with
      | nil =>
        have htext : escapeChars text = [] ++ '&' :: after := hrest.symm
        exact ih htext
      | cons d inside =>
        obtain ⟨rfl, rfl⟩ := List.cons.inj hrest
        exact ⟨_, of_escapeChar_eq_append hinside, List.prefix_append ('&' :: inside) _⟩

/-! ## Escaping as a whole -/

/-- **Escaping is undone by unescaping**, whatever the text is: both are replacements in the whole
text, one after the other, and the second ones in their order give back what the first ones took.
An escaped text has no angle bracket and no quote, each of its ampersands begins an entity that
escaping writes, and texts can be escaped part by part. -/
theorem escape_reversible (text other : String) :
    escape text = String.ofList (replaceInTurn escapeReplacements text.toList) ∧
      unescape text = String.ofList (replaceInTurn unescapeReplacements text.toList) ∧
      unescape (escape text) = text ∧
      (∀ c ∈ (escape text).toList, c ≠ '<' ∧ c ≠ '>' ∧ c ≠ '"') ∧
      (∀ before after, (escape text).toList = before ++ '&' :: after →
        ∃ entity ∈ writtenEntities, entity <+: '&' :: after) ∧
      escape (text ++ other) = escape text ++ escape other := by
  have hchars : (escape text).toList = escapeChars text.toList := String.toList_ofList
  refine ⟨?_, ?_, ?_, ?_, ?_, ?_⟩
  · rw [escape, escapeChars_eq_replaceInTurn]
  · rw [unescape, unescapeChars_eq_replaceInTurn]
  · rw [unescape, hchars, unescapeChars_escapeChars, String.ofList_toList]
  · intro c hc
    rw [hchars] at hc
    exact escapeChars_plain hc
  · intro before after h
    rw [hchars] at h
    exact entity_of_escapeChars_eq h
  · rw [escape, String.toList_append, escapeChars_append, String.ofList_append]
    rfl

/-- A text that holds entities already: their ampersands are escaped like any other. -/
theorem escape_reversible_entities :
    escape "&amp;lt; &#39; <b>" = "&amp;amp;lt; &amp;#39; &lt;b&gt;" ∧
      unescape "&amp;amp;lt; &amp;#39; &lt;b&gt;" = "&amp;lt; &#39; <b>" ∧
      ∃ entity ∈ writtenEntities, entity <+: "&amp;#39; &lt;b&gt;".toList := by
  have hescaped : escape "&amp;lt; &#39; <b>" = "&amp;amp;lt; &amp;#39; &lt;b&gt;" := by decide
  obtain ⟨-, -, hback, -, hentity, -⟩ := escape_reversible "&amp;lt; &#39; <b>" ""
  rw [hescaped] at hback hentity
  exact ⟨hescaped, hback, hentity "&amp;amp;lt; ".toList "amp;#39; &lt;b&gt;".toList (by decide)⟩

end Markup

end PageTree
