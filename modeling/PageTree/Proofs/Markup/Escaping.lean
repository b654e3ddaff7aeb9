import Mathlib.Tactic
import PageTree.Markup.Escape

/-!
# Escaped text

Escaping is undone by unescaping, also when more text follows, and no character that opens, closes
or quotes markup is left in an escaped text.

## Main results

* `Markup.unescapeChars_escapeChars`
* `Markup.escapeChars_plain`
-/

namespace PageTree

namespace Markup

@[simp] theorem escapeChars_nil : escapeChars [] = [] := rfl

@[simp] theorem escapeChars_cons (c : Char) (text : List Char) :
    escapeChars (c :: text) = escapeChar c ++ escapeChars text := rfl

theorem escapeChars_append (a b : List Char) :
    escapeChars (a ++ b) = escapeChars a ++ escapeChars b := by
  simp [escapeChars]

/-- One escaped character is read back, whatever stands behind it. An ampersand is the case that
matters: what follows it may look like the rest of an entity. -/
theorem unescapeChars_escapeChar (c : Char) (rest : List Char) :
    unescapeChars (escapeChar c ++ rest) = c :: unescapeChars rest := by
  by_cases hamp : c = '&'
  · subst hamp
    simp [escapeChar, unescapeChars]
  by_cases hlt : c = '<'
  · subst hlt
    simp [escapeChar, unescapeChars]
  by_cases hgt : c = '>'
  · subst hgt
    simp [escapeChar, unescapeChars]
  by_cases hquote : c = '"'
  · subst hquote
    simp [escapeChar, unescapeChars]
  simp [escapeChar, hamp, hlt, hgt, hquote, unescapeChars]

theorem unescapeChars_escapeChars_append (text rest : List Char) :
    unescapeChars (escapeChars text ++ rest) = text ++ unescapeChars rest := by
  induction text with
  | nil => rfl
  | cons c text ih =>
    rw [escapeChars_cons, List.append_assoc, unescapeChars_escapeChar, ih, List.cons_append]

/-- **Unescaping undoes escaping.** -/
theorem unescapeChars_escapeChars (text : List Char) :
    unescapeChars (escapeChars text) = text := by
  have h := unescapeChars_escapeChars_append text []
  simpa [unescapeChars] using h

/-- A character that no reader of markup takes for anything but itself. -/
def IsPlain (c : Char) : Prop := c ≠ '<' ∧ c ≠ '>' ∧ c ≠ '"'

theorem escapeChar_plain {c d : Char} (h : d ∈ escapeChar c) : IsPlain d := by
  unfold escapeChar at h
  split_ifs at h with hamp hlt hgt hquote
  · fin_cases h <;> exact ⟨by decide, by decide, by decide⟩
  · fin_cases h <;> exact ⟨by decide, by decide, by decide⟩
  · fin_cases h <;> exact ⟨by decide, by decide, by decide⟩
  · fin_cases h <;> exact ⟨by decide, by decide, by decide⟩
  · obtain rfl := List.mem_singleton.1 h
    exact ⟨hlt, hgt, hquote⟩

/-- **An escaped text holds no character of markup.** -/
theorem escapeChars_plain {text : List Char} {c : Char} (h : c ∈ escapeChars text) :
    IsPlain c := by
  obtain ⟨d, -, hd⟩ := List.mem_flatMap.1 h
  exact escapeChar_plain hd

theorem escapeChar_ne_nil (c : Char) : escapeChar c ≠ [] := by
  unfold escapeChar
  split_ifs <;> simp

theorem escapeChars_eq_nil {text : List Char} : escapeChars text = [] ↔ text = [] := by
  cases text with
  | nil => simp
  | cons c text => simp [escapeChar_ne_nil]

/-- A text without any of the four characters that escaping changes is its own escaped form. -/
theorem escapeChars_of_plain {text : List Char} (h : ∀ c ∈ text, IsPlain c ∧ c ≠ '&') :
    escapeChars text = text := by
  induction text with
  | nil => rfl
  | cons c text ih =>
    obtain ⟨⟨hlt, hgt, hquote⟩, hamp⟩ := h c List.mem_cons_self
    rw [escapeChars_cons, ih fun d hd => h d (List.mem_cons_of_mem c hd)]
    simp [escapeChar, hlt, hgt, hquote, hamp]

end Markup

end PageTree
