import Mathlib.Data.List.DropRight
import Mathlib.Tactic.Common
import PageTree.Text.Classes

/-!
# Cutting texts

What the operations on texts do to a text of which it is known where the pattern stands.

## Main results

* `Text.cut?_singleton_append`: cutting at a mark that does not occur before
* `Text.eq_of_cut?`: a cut takes the pattern out and leaves the rest in place
* `Text.occursIn_iff`: a pattern occurs when the text has it as an infix
* `Text.trimBlank_eq_self`: trimming leaves a text without blanks alone
-/

namespace PageTree.Text

/-! ## Cutting at a pattern -/

theorem isPrefixOf?_singleton (mark c : Char) (text : List Char) :
    [mark].isPrefixOf? (c :: text) = if mark = c then some text else none := by
  by_cases h : mark = c
  · simp [List.isPrefixOf?, h]
  · simp [List.isPrefixOf?, h]

theorem cut?_singleton_append {mark : Char} {before : List Char} (after : List Char)
    (h : mark ∉ before) : cut? [mark] (before ++ mark :: after) = some (before, after) := by
  induction before with
  | nil => simp [cut?, isPrefixOf?_singleton]
  | cons c before ih =>
    obtain ⟨hc, hrest⟩ := not_or.1 (mt List.mem_cons.2 h)
    rw [List.cons_append, cut?, isPrefixOf?_singleton, if_neg hc, ih hrest]
    rfl

theorem cut?_singleton_eq_none {mark : Char} {text : List Char} (h : mark ∉ text) :
    cut? [mark] text = none := by
  induction text with
  | nil => rfl
  | cons c text ih =>
    obtain ⟨hc, hrest⟩ := not_or.1 (mt List.mem_cons.2 h)
    rw [cut?, isPrefixOf?_singleton, if_neg hc, ih hrest]
    rfl

theorem cut?_singleton_eq_some {mark : Char} {text before after : List Char}
    (h : cut? [mark] text = some (before, after)) :
    mark ∉ before ∧ text = before ++ mark :: after := by
  by_cases hin : mark ∈ text
  · obtain ⟨front, back, rfl, hfront⟩ := List.eq_append_cons_of_mem hin
    rw [cut?_singleton_append back hfront] at h
    obtain ⟨rfl, rfl⟩ := Prod.mk.inj (Option.some.inj h)
    exact ⟨hfront, rfl⟩
  · rw [cut?_singleton_eq_none hin] at h
    cases h

theorem isPrefixOf?_eq_none_iff {pattern text : List Char} :
    pattern.isPrefixOf? text = none ↔ ¬pattern <+: text := by
  induction pattern generalizing text with
  | nil => simp [List.isPrefixOf?]
  | cons p pattern ih =>
    cases text with
    | nil => simp [List.isPrefixOf?]
    | cons c text =>
      by_cases hpc : p = c
      · simp [List.isPrefixOf?, hpc, ih, List.cons_prefix_cons]
      · simp [List.isPrefixOf?, hpc, List.cons_prefix_cons]

theorem cut?_eq_none_iff {pattern text : List Char} :
    cut? pattern text = none ↔ ¬pattern <:+: text := by
  induction text with
  | nil => cases pattern <;> simp [cut?]
  | cons c text ih =>
    rw [List.infix_cons_iff, not_or, ← isPrefixOf?_eq_none_iff, ← ih, cut?]
    cases pattern.isPrefixOf? (c :: text) with
    | none => simp
    | some rest => simp

/-- **A pattern occurs in a text when it is an infix of it.** -/
theorem occursIn_iff {pattern text : List Char} :
    occursIn pattern text = true ↔ pattern <:+: text := by
  rw [occursIn, Option.isSome_iff_ne_none, ne_eq, cut?_eq_none_iff, not_not]

theorem occursIn_eq_false_iff {pattern text : List Char} :
    occursIn pattern text = false ↔ ¬pattern <:+: text := by
  rw [← occursIn_iff, Bool.not_eq_true]

/-- A cut takes the pattern out. -/
theorem eq_of_cut? {pattern text before after : List Char}
    (h : cut? pattern text = some (before, after)) : text = before ++ pattern ++ after := by
  induction text generalizing before after with
  | nil =>
    rw [cut?] at h
    split at h
    · next hempty =>
      cases h
      rw [List.isEmpty_iff.1 hempty]
      rfl
    · cases h
  | cons c text ih =>
    rw [cut?] at h
    split at h
    · next rest hstart =>
      cases h
      exact (List.isPrefixOf?_eq_some_iff_append_eq.1 hstart).symm
    · obtain ⟨⟨before', after'⟩, hcut, heq⟩ := Option.map_eq_some_iff.1 h
      cases heq
      rw [ih hcut]
      rfl

theorem suffix_of_cut? {pattern text before after : List Char}
    (h : cut? pattern text = some (before, after)) : after <:+ text := by
  rw [eq_of_cut? h]
  exact List.suffix_append _ _

theorem not_mem_of_cut? {mark : Char} {text : List Char} (h : cut? [mark] text = none) :
    mark ∉ text := by
  intro hmem
  obtain ⟨before, after, rfl⟩ := List.append_of_mem hmem
  exact cut?_eq_none_iff.1 h ⟨before, after, by simp⟩

theorem cut?_cons_ne {mark c : Char} (h : mark ≠ c) (text : List Char) :
    cut? [mark] (c :: text) = (cut? [mark] text).map fun p => (c :: p.1, p.2) := by
  rw [cut?, isPrefixOf?_singleton, if_neg h]

theorem cut?_singleton (mark : Char) (text : List Char) :
    cut? [mark] text =
      match text.dropWhile (· != mark) with
      | [] => none
      | _ :: after => some (text.takeWhile (· != mark), after) := by
  induction text with
  | nil => rfl
  | cons c text ih =>
    rw [cut?, isPrefixOf?_singleton]
    by_cases hc : mark = c
    · rw [if_pos hc, List.dropWhile_cons_of_neg (by simp [hc]),
        List.takeWhile_cons_of_neg (by simp [hc])]
    · rw [if_neg hc, List.dropWhile_cons_of_pos (by simp [Ne.symm hc]),
        List.takeWhile_cons_of_pos (by simp [Ne.symm hc])]
      show (cut? [mark] text).map _ = _
      rw [ih]
      cases text.dropWhile (· != mark) <;> rfl

theorem prefix_of_prefix_append {pattern a b : List Char} {c : Char} (hc : c ∉ pattern)
    (h : pattern <+: a ++ c :: b) : pattern <+: a := by
  rcases List.prefix_or_prefix_of_prefix h (List.prefix_append a (c :: b)) with h' | ⟨rest, rfl⟩
  · exact h'
  · cases rest with
    | nil => exact (List.append_nil a).symm ▸ List.prefix_refl a
    | cons d rest =>
      rw [List.prefix_append_right_inj, List.cons_prefix_cons] at h
      exact absurd (h.1 ▸ List.mem_append_right a (List.mem_cons_self ..)) hc

/-- A pattern does not reach across a character that it does not have. -/
theorem infix_append_cons {pattern a b : List Char} {c : Char} (hc : c ∉ pattern)
    (h : pattern <:+: a ++ c :: b) : pattern <:+: a ∨ pattern <:+: b := by
  induction a with
  | nil =>
    rcases List.infix_cons_iff.1 h with h | h
    · exact Or.inl (prefix_of_prefix_append (a := []) hc h).isInfix
    · exact Or.inr h
  | cons d a ih =>
    rcases List.infix_cons_iff.1 h with h | h
    · exact Or.inl (prefix_of_prefix_append (a := d :: a) hc h).isInfix
    · exact (ih h).imp_left fun h => List.infix_cons_iff.2 (Or.inr h)

/-! ## Letters in lower case -/

@[simp] theorem lower_append (a b : List Char) : lower (a ++ b) = lower a ++ lower b :=
  List.map_append

theorem lower_eq_self {text : List Char} (h : ∀ c ∈ text, c.toLower = c) : lower text = text :=
  (List.map_congr_left h).trans (List.map_id text)

/-! ## Trimming -/

/-- A character is in lower case already, or it is a capital and its small letter stands 32
places behind it. -/
theorem toLower_cases (c : Char) : c.toLower = c ∨
    (65 ≤ c.toNat ∧ c.toNat ≤ 90 ∧ c.toLower.toNat = c.toNat + 32) := by
  by_cases hupper : c.val ≥ 'A'.val ∧ c.val ≤ 'Z'.val
  · right
    have hlow : 65 ≤ c.val.toNat := UInt32.le_iff_toNat_le.1 hupper.1
    have hhigh : c.val.toNat ≤ 90 := UInt32.le_iff_toNat_le.1 hupper.2
    have hshift : ('a'.val - 'A'.val).toNat = 32 := by decide
    have hval : (c.val + ('a'.val - 'A'.val)).toNat = c.val.toNat + 32 := by
      rw [UInt32.toNat_add, hshift]
      omega
    have hlower : c.toLower.toNat = (c.val + ('a'.val - 'A'.val)).toNat :=
      congrArg Char.toNat (dif_pos hupper)
    exact ⟨hlow, hhigh, hlower.trans hval⟩
  · exact .inl (dif_neg hupper)

/-- Characters below the small letters come from themselves only. -/
theorem eq_of_toLower_eq {c d : Char} (hd : d.toNat < 0x61) (h : c.toLower = d) : c = d := by
  rcases toLower_cases c with hsame | ⟨hlow, -, hval⟩
  · exact hsame.symm.trans h
  · rw [h] at hval
    omega

/-- Lower case letters do not make a pattern of other characters. -/
theorem infix_of_infix_lower {pattern text : List Char} (hp : ∀ d ∈ pattern, d.toNat < 0x61)
    (h : pattern <:+: lower text) : pattern <:+: text := by
  obtain ⟨before, after, hsplit⟩ := h
  obtain ⟨front, back, rfl, hfront, -⟩ := List.map_eq_append_iff.1 hsplit.symm
  obtain ⟨a, middle, rfl, -, hmiddle⟩ := List.map_eq_append_iff.1 hfront
  have hself : middle.map Char.toLower = middle.map id := List.map_congr_left fun c hc =>
    (eq_of_toLower_eq (hp _ (hmiddle ▸ List.mem_map_of_mem hc)) rfl).symm
  rw [← hmiddle, hself, List.map_id]
  exact List.infix_append a middle back

theorem trim_eq_self {drop : Char → Bool} {text : List Char} (h : ∀ c ∈ text, drop c = false) :
    trim drop text = text := by
  have hstart : ∀ t : List Char, (∀ c ∈ t, drop c = false) → t.dropWhile drop = t := by
    intro t ht
    cases t with
    | nil => rfl
    | cons c t => exact List.dropWhile_cons_of_neg (by simp [ht c List.mem_cons_self])
  rw [trim, trimEnd, trimStart, hstart text h, hstart _ fun c hc => h c (List.mem_reverse.1 hc),
    List.reverse_reverse]

theorem trimBlank_eq_self {text : List Char} (h : ∀ c ∈ text, isBlank c = false) :
    trimBlank text = text :=
  trim_eq_self h

/-- Trimming twice is trimming once. -/
theorem trim_trim (drop : Char → Bool) (text : List Char) :
    trim drop (trim drop text) = trim drop text := by
  have hprefix : trim drop text <+: trimStart drop text := List.rdropWhile_prefix drop _
  have hstart : trimStart drop (trim drop text) = trim drop text := by
    obtain ⟨rest, hrest⟩ := hprefix
    cases hhead : trim drop text with
    | nil => rfl
    | cons c chars =>
      rw [hhead, List.cons_append] at hrest
      have hc : ¬drop c = true := fun hc => by
        have hagain := List.dropWhile_idempotent (p := drop) text
        rw [← trimStart, ← trimStart, ← hrest, trimStart, List.dropWhile_cons_of_pos hc] at hagain
        have hlength : ((chars ++ rest).dropWhile drop).length ≤ (chars ++ rest).length :=
          (List.dropWhile_sublist drop).length_le
        rw [hagain, List.length_cons] at hlength
        omega
      rw [trimStart, List.dropWhile_cons_of_neg hc]
  calc trim drop (trim drop text) = trimEnd drop (trimStart drop (trim drop text)) := rfl
    _ = trimEnd drop (trim drop text) := by rw [hstart]
    _ = trim drop text := List.rdropWhile_idempotent drop _

theorem trimBlank_trimBlank (text : List Char) : trimBlank (trimBlank text) = trimBlank text :=
  trim_trim isBlank text

/-- Visible characters of ASCII are no blanks. -/
theorem isBlank_eq_false {c : Char} (hlow : 0x21 ≤ c.toNat) (hhigh : c.toNat ≤ 0x7e) :
    isBlank c = false := by
  simp only [isBlank, inRanges, blankRanges, List.any_cons, List.any_nil, Bool.or_false,
    Bool.or_eq_false_iff, Bool.and_eq_false_iff, decide_eq_false_iff_not]
  omega

/-- Capitals, small letters and digits are visible characters of ASCII. -/
theorem toNat_of_isAlphanum {c : Char} (h : c.isAlphanum = true) :
    0x21 ≤ c.toNat ∧ c.toNat ≤ 0x7e := by
  have hrange (low high : UInt32) (hlow : 0x21 ≤ low.toNat) (hhigh : high.toNat ≤ 0x7e)
      (h : c.val ≥ low ∧ c.val ≤ high) : 0x21 ≤ c.toNat ∧ c.toNat ≤ 0x7e :=
    ⟨hlow.trans (UInt32.le_iff_toNat_le.1 h.1), le_trans (UInt32.le_iff_toNat_le.1 h.2) hhigh⟩
  have hboth {p q : Prop} [Decidable p] [Decidable q] (h : (decide p && decide q) = true) :
      p ∧ q := by simpa using h
  rcases Bool.or_eq_true_iff.1 h with h | h
  · rcases Bool.or_eq_true_iff.1 h with h | h
    · exact hrange 'A'.val 'Z'.val (by decide) (by decide) (of_decide_eq_true h)
    · exact hrange 'a'.val 'z'.val (by decide) (by decide) (hboth h)
  · exact hrange '0'.val '9'.val (by decide) (by decide) (hboth h)

/-- A letter in lower case is a blank when the letter is. -/
theorem isBlank_toLower (c : Char) : isBlank c.toLower = isBlank c := by
  rcases toLower_cases c with h | ⟨hlow, hhigh, hval⟩
  · rw [h]
  · rw [isBlank_eq_false (Nat.le_trans (by decide) hlow) (Nat.le_trans hhigh (by decide)),
      isBlank_eq_false (by omega) (by omega)]

theorem toLower_toLower (c : Char) : c.toLower.toLower = c.toLower := by
  rcases toLower_cases c with h | ⟨hlow, hhigh, hval⟩
  · rw [h, h]
  · rcases toLower_cases c.toLower with h | ⟨-, hhigh', -⟩
    · exact h
    · omega

theorem dropWhile_lower (text : List Char) :
    (lower text).dropWhile isBlank = lower (text.dropWhile isBlank) := by
  have hsame : isBlank ∘ Char.toLower = isBlank := funext isBlank_toLower
  rw [lower, List.dropWhile_map, hsame]
  rfl

/-- Trimming and lower case do not get into each other's way. -/
theorem trimBlank_lower (text : List Char) : trimBlank (lower text) = lower (trimBlank text) := by
  have hreverse (t : List Char) : (lower t).reverse = lower t.reverse := List.map_reverse.symm
  rw [trimBlank, trim, trimEnd, trimStart, dropWhile_lower, hreverse, dropWhile_lower, hreverse]
  rfl

theorem lower_lower (text : List Char) : lower (lower text) = lower text := by
  rw [lower, lower, List.map_map]
  exact List.map_congr_left fun c _ => toLower_toLower c

theorem not_mem_trimBlank {c : Char} {text : List Char} (h : c ∉ text) :
    c ∉ trimBlank text := by
  intro hc
  have hend : c ∈ trimStart isBlank text :=
    List.mem_reverse.1 ((List.dropWhile_sublist _).subset (List.mem_reverse.1 hc))
  exact h ((List.dropWhile_sublist _).subset hend)

theorem not_mem_lower {c : Char} (hlow : c.toNat < 0x61) {text : List Char} (h : c ∉ text) :
    c ∉ lower text := by
  intro hc
  obtain ⟨d, hd, hlower⟩ := List.mem_map.1 hc
  exact h (eq_of_toLower_eq hlow hlower ▸ hd)

end PageTree.Text
