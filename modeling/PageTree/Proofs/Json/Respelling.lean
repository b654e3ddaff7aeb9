import PageTree.Proofs.Json.Rereading

/-!
# Slashes spelled as escapes

In a JSON text an opening angle bracket can only stand inside a string, and there a slash may be
spelled with a backslash in front of it. So a text in which closing tags are taken apart says what
it said before. The reader is followed part by part: whatever it makes of a text, it makes of the
text respelled, and what it leaves over is the rest respelled.

## Main definitions

* `JsonReader.Respelled`: one text is another one with such slashes escaped
* `JsonReader.Respects`: two readers get the same out of two such texts

## Main results

* `JsonReader.respects_readValue`: the reader of values takes no notice of the spelling
* `JsonReader.readText_replace`: a text with its closing tags taken apart says the same
-/

namespace PageTree

namespace JsonReader

/-- The other text is the text with a backslash in front of slashes that stand behind an opening
angle bracket, some of them or all. -/
inductive Respelled : List Char → List Char → Prop
  | nil : Respelled [] []
  | cons (c : Char) {text other : List Char} (h : Respelled text other) :
      Respelled (c :: text) (c :: other)
  | slash {text other : List Char} (h : Respelled text other) :
      Respelled ('<' :: '/' :: text) ('<' :: '\\' :: '/' :: other)

/-- Whatever one reader makes of a text, another one makes of the text respelled. -/
def Respects {α : Type} (read again : List Char → Option (α × List Char)) : Prop :=
  ∀ {text other rest : List Char} {a : α}, Respelled text other → read text = some (a, rest) →
    ∃ behind, again other = some (a, behind) ∧ Respelled rest behind

namespace Respelled

variable {text other : List Char}

theorem of_cons {c : Char} (h : Respelled (c :: text) other) (hc : c ≠ '<') :
    ∃ behind, other = c :: behind ∧ Respelled text behind := by
  cases h with
  | cons _ h => exact ⟨_, rfl, h⟩
  | slash => exact absurd rfl hc

theorem of_append (word : List Char) {rest : List Char} (h : Respelled (word ++ rest) other)
    (hword : '<' ∉ word) : ∃ behind, other = word ++ behind ∧ Respelled rest behind := by
  induction word generalizing other with
  | nil => exact ⟨other, rfl, h⟩
  | cons c word ih =>
    obtain ⟨hc, hrest⟩ := not_or.1 (mt List.mem_cons.2 hword)
    obtain ⟨inner, rfl, hinner⟩ := h.of_cons (Ne.symm hc)
    obtain ⟨behind, rfl, hbehind⟩ := ih hinner hrest
    exact ⟨behind, rfl, hbehind⟩

theorem of_cons_right {c : Char} (h : Respelled text (c :: other)) (hc : c ≠ '<') :
    ∃ rest, text = c :: rest ∧ Respelled rest other := by
  cases h with
  | cons _ h => exact ⟨_, rfl, h⟩
  | slash => exact absurd rfl hc

theorem length_le (h : Respelled text other) : text.length ≤ other.length := by
  induction h with
  | nil => exact Nat.le_refl _
  | cons _ _ ih => exact Nat.succ_le_succ ih
  | slash _ ih =>
    simp only [List.length_cons]
    omega

/-- Characters of a class without angle brackets are passed over alike. -/
theorem dropWhile {p : Char → Bool} (hp : p '<' = false) (h : Respelled text other) :
    Respelled (text.dropWhile p) (other.dropWhile p) ∧ text.takeWhile p = other.takeWhile p := by
  induction h with
  | nil => exact ⟨.nil, rfl⟩
  | cons c h ih =>
    cases hc : p c with
    | true => simpa [List.dropWhile_cons, List.takeWhile_cons, hc] using ih
    | false => simpa [List.dropWhile_cons, List.takeWhile_cons, hc] using h.cons c
  | slash h => simpa [List.dropWhile_cons, List.takeWhile_cons, hp] using h.slash

theorem skipGap (h : Respelled text other) : Respelled (skipGap text) (skipGap other) :=
  (h.dropWhile (by decide)).1

/-- A closing bracket or brace stands behind both texts or behind none. -/
theorem closes_or_not (h : Respelled text other) {close : Char} (hclose : close ≠ '<') :
    (∃ rest behind, JsonReader.skipGap text = close :: rest ∧
      JsonReader.skipGap other = close :: behind ∧ Respelled rest behind) ∨
    (∀ rest, JsonReader.skipGap text ≠ close :: rest) ∧
      ∀ behind, JsonReader.skipGap other ≠ close :: behind := by
  have hgap := h.skipGap
  by_cases hcloses : ∃ rest, JsonReader.skipGap text = close :: rest
  · obtain ⟨rest, hrest⟩ := hcloses
    rw [hrest] at hgap
    obtain ⟨behind, hbehind, hinner⟩ := hgap.of_cons hclose
    exact .inl ⟨rest, behind, hrest, hbehind, hinner⟩
  · have hnone := not_exists.1 hcloses
    refine .inr ⟨hnone, fun behind hbehind => ?_⟩
    rw [hbehind] at hgap
    obtain ⟨rest, hrest, -⟩ := hgap.of_cons_right hclose
    exact hnone rest hrest

theorem splitDigits {digits : List Nat} {rest : List Char} (h : Respelled text other)
    (hsplit : splitDigits text = (digits, rest)) :
    ∃ behind, PageTree.splitDigits other = (digits, behind) ∧ Respelled rest behind := by
  obtain ⟨hrest, hdigits⟩ := h.dropWhile (p := Char.isDigit) (by decide)
  cases hsplit
  exact ⟨_, by rw [PageTree.splitDigits, hdigits], hrest⟩

theorem splitSign {negative : Bool} {rest : List Char} (h : Respelled text other)
    (hsplit : splitSign text = (negative, rest)) :
    ∃ behind, PageTree.splitSign other = (negative, behind) ∧ Respelled rest behind := by
  cases h with
  | nil =>
    cases hsplit
    exact ⟨_, rfl, .nil⟩
  | slash h =>
    cases hsplit
    exact ⟨_, rfl, h.slash⟩
  | cons c h =>
    by_cases hminus : c = '-'
    · subst hminus
      cases hsplit
      exact ⟨_, rfl, h⟩
    by_cases hplus : c = '+'
    · subst hplus
      cases hsplit
      exact ⟨_, rfl, h⟩
    have hother : ∀ text, PageTree.splitSign (c :: text) = (false, c :: text) := by
      intro text
      rw [PageTree.splitSign]
      · exact fun _ heq => hminus (List.cons.inj heq).1
      · exact fun _ heq => hplus (List.cons.inj heq).1
    rw [hother] at hsplit
    cases hsplit
    exact ⟨_, hother _, h.cons c⟩

/-- Taking closing tags apart respells a text. -/
theorem replaceFrom : ∀ text : List Char,
    Respelled text (Text.replaceFrom ['<', '/'] ['<', '\\', '/'] 0 text)
  | [] => .nil
  | [c] => by
    have hsingle : ['<', '/'].isPrefixOf [c] = false := by simp [List.isPrefixOf]
    rw [Text.replaceFrom, hsingle]
    exact .cons c .nil
  | c :: d :: text => by
    by_cases htag : c = '<' ∧ d = '/'
    · obtain ⟨rfl, rfl⟩ := htag
      exact .slash (replaceFrom text)
    · have hprefix : ['<', '/'].isPrefixOf (c :: d :: text) = false := by
        rw [Bool.eq_false_iff]
        intro hpair
        simp only [List.isPrefixOf, Bool.and_eq_true, beq_iff_eq, and_true] at hpair
        exact htag ⟨hpair.1.symm, hpair.2.symm⟩
      rw [Text.replaceFrom, hprefix]
      exact .cons c (replaceFrom (d :: text))

end Respelled

/-! ## Strings -/

theorem ne_of_hexValue? {c : Char} {n : Nat} (h : hexValue? c = some n) : c ≠ '<' := by
  rintro rfl
  cases h

theorem hexValues_of_hexCode? {a b c d : Char} {code : Nat} (h : hexCode? a b c d = some code) :
    a ≠ '<' ∧ b ≠ '<' ∧ c ≠ '<' ∧ d ≠ '<' := by
  rw [hexCode?] at h
  split at h
  · next ha hb hc hd =>
    exact ⟨ne_of_hexValue? ha, ne_of_hexValue? hb, ne_of_hexValue? hc, ne_of_hexValue? hd⟩
  · cases h

/-- A slash is read the same with and without a backslash. -/
theorem readCodes_slash (text : List Char) :
    readCodes ('\\' :: '/' :: text) = readCodes ('/' :: text) := by
  rw [readCodes_letter (l := '/') (c := '/') (by decide) (by decide),
    readCodes_plain (by decide) (by decide) (by decide)]

theorem respects_readCodes : Respects readCodes readCodes := by
  intro text other rest codes h hread
  fun_induction readCodes text generalizing other rest codes with
  | case2 text =>
    obtain ⟨behind, rfl, hbehind⟩ := h.of_cons (by decide)
    cases hread
    exact ⟨behind, rfl, hbehind⟩
  | case3 a b c d text code inner tail htail hcode ih =>
    obtain ⟨ha, hb, hc, hd⟩ := hexValues_of_hexCode? hcode
    obtain ⟨_, rfl, hescape⟩ := h.of_cons (by decide)
    obtain ⟨_, rfl, hfirst⟩ := hescape.of_cons (by decide)
    obtain ⟨_, rfl, hsecond⟩ := hfirst.of_cons ha
    obtain ⟨_, rfl, hthird⟩ := hsecond.of_cons hb
    obtain ⟨_, rfl, hfourth⟩ := hthird.of_cons hc
    obtain ⟨_, rfl, htext⟩ := hfourth.of_cons hd
    cases hread
    obtain ⟨behind, hbehind, hrest⟩ := ih htext htail
    exact ⟨behind, by rw [readCodes_code hcode, hbehind]; rfl, hrest⟩
  | case5 letter text _ c inner tail htail hletter ih =>
    have hne : letter ≠ '<' ∧ letter ≠ 'u' := by
      constructor
      · rintro rfl
        cases hletter
      · rintro rfl
        cases hletter
    obtain ⟨_, rfl, hescape⟩ := h.of_cons (by decide)
    obtain ⟨_, rfl, htext⟩ := hescape.of_cons hne.1
    cases hread
    obtain ⟨behind, hbehind, hrest⟩ := ih htext htail
    exact ⟨behind, by rw [readCodes_letter hne.2 hletter, hbehind]; rfl, hrest⟩
  | case8 c text hquote _ _ hplain ih =>
    obtain ⟨hslash, hlow⟩ := not_or.1 hplain
    obtain ⟨⟨inner, tail⟩, htail, hsome⟩ := Option.map_eq_some_iff.1 hread
    cases hsome
    cases h with
    | cons _ h =>
      obtain ⟨behind, hbehind, hrest⟩ := ih h htail
      exact ⟨behind, by rw [readCodes_plain hquote hslash hlow, hbehind]; rfl, hrest⟩
    | slash h =>
      obtain ⟨behind, hbehind, hrest⟩ := ih (h.cons '/') htail
      refine ⟨behind, ?_, hrest⟩
      rw [readCodes_plain hquote hslash hlow, readCodes_slash, hbehind]
      rfl
  | _ => cases hread

theorem respects_readString : Respects readString readString := by
  intro text other rest value h hread
  obtain ⟨⟨codes, tail⟩, hcodes, hsome⟩ := Option.map_eq_some_iff.1 hread
  cases hsome
  obtain ⟨behind, hbehind, hrest⟩ := respects_readCodes h hcodes
  exact ⟨behind, by rw [readString, hbehind]; rfl, hrest⟩

/-- A key is a string between white space with a colon behind it. -/
theorem readKey_eq_some_iff {text rest : List Char} {key : Option String} :
    readKey text = some (key, rest) ↔ ∃ inner after, skipGap text = '"' :: inner ∧
      readString inner = some (key, after) ∧ skipGap after = ':' :: rest := by
  rw [readKey]
  constructor
  · intro h
    split at h
    · next inner htext =>
      cases hstring : readString inner with
      | none => rw [hstring] at h; cases h
      | some value =>
        obtain ⟨found, after⟩ := value
        rw [hstring] at h
        dsimp only at h
        split at h
        · next hcolon =>
          cases h
          exact ⟨inner, after, htext, hstring, hcolon⟩
        · cases h
    · cases h
  · rintro ⟨inner, after, htext, hstring, hcolon⟩
    simp only [htext, hstring, hcolon]

theorem respects_readKey : Respects readKey readKey := by
  intro text other rest key h hread
  obtain ⟨inner, after, htext, hstring, hcolon⟩ := readKey_eq_some_iff.1 hread
  have hquote := h.skipGap
  rw [htext] at hquote
  obtain ⟨inside, hinside, hinner⟩ := hquote.of_cons (by decide)
  obtain ⟨tail, htail, hafter⟩ := respects_readString hinner hstring
  have hmark := hafter.skipGap
  rw [hcolon] at hmark
  obtain ⟨behind, hbehind, hrest⟩ := hmark.of_cons (by decide)
  exact ⟨behind, readKey_eq_some_iff.2 ⟨inside, tail, hinside, htail, hbehind⟩, hrest⟩

/-! ## Numerals -/

theorem respects_readFraction : Respects readFraction readFraction := by
  intro text other rest digits h hread
  have hother {c : Char} (hpoint : c ≠ '.') (text : List Char) :
      readFraction (c :: text) = some (none, c :: text) := by
    rw [readFraction]
    exact fun _ heq => hpoint (List.cons.inj heq).1
  cases h with
  | nil =>
    cases hread
    exact ⟨[], rfl, .nil⟩
  | slash h =>
    cases hread
    exact ⟨_, rfl, h.slash⟩
  | @cons c text other h =>
    by_cases hpoint : c = '.'
    · subst hpoint
      cases hsplit : splitDigits text with
      | mk found tail =>
        obtain ⟨behind, hbehind, hrest⟩ := h.splitDigits hsplit
        rw [readFraction, hsplit] at hread
        rw [readFraction, hbehind]
        cases found with
        | nil => cases hread
        | cons =>
          cases hread
          exact ⟨behind, rfl, hrest⟩
    · rw [hother hpoint] at hread ⊢
      cases hread
      exact ⟨_, rfl, h.cons c⟩

theorem respects_readExponent : Respects readExponent readExponent := by
  intro text other rest exponent h hread
  cases h with
  | nil =>
    cases hread
    exact ⟨[], rfl, .nil⟩
  | slash h =>
    cases hread
    exact ⟨_, rfl, h.slash⟩
  | @cons c text other h =>
    rw [readExponent] at hread ⊢
    split_ifs at hread ⊢ with hmark
    · cases hsign : splitSign text with
      | mk negative unsigned =>
        obtain ⟨again, hagain, hunsigned⟩ := h.splitSign hsign
        cases hsplit : splitDigits unsigned with
        | mk found tail =>
          obtain ⟨behind, hbehind, hrest⟩ := hunsigned.splitDigits hsplit
          simp only [hsign, hsplit] at hread
          simp only [hagain, hbehind]
          cases found with
          | nil => cases hread
          | cons =>
            cases hread
            exact ⟨behind, rfl, hrest⟩
    · cases hread
      exact ⟨_, rfl, h.cons c⟩

theorem readUnsigned_eq_some_iff {negative : Bool} {text rest : List Char} {numeral : Numeral} :
    readUnsigned negative text = some (numeral, rest) ↔ ∃ whole tail fraction after exponent,
      splitDigits text = (whole, tail) ∧ whole ≠ [] ∧ (∀ d ds, whole ≠ 0 :: d :: ds) ∧
      readFraction tail = some (fraction, after) ∧ readExponent after = some (exponent, rest) ∧
      numeral = { negative, whole, fraction, exponent } := by
  rw [readUnsigned]
  constructor
  · intro h
    split at h
    · cases h
    · cases h
    · next whole tail hempty hzero hsplit =>
      cases hfraction : readFraction tail with
      | none => rw [hfraction] at h; cases h
      | some value =>
        obtain ⟨fraction, after⟩ := value
        rw [hfraction] at h
        obtain ⟨⟨exponent, behind⟩, hexponent, hsome⟩ := Option.map_eq_some_iff.1 h
        cases hsome
        exact ⟨whole, tail, fraction, after, exponent, hsplit, hempty,
          fun d ds heq => hzero d ds heq, hfraction, hexponent, rfl⟩
  · rintro ⟨whole, tail, fraction, after, exponent, hsplit, hempty, hzero, hfraction, hexponent,
      rfl⟩
    rw [hsplit]
    split
    · next heq => exact absurd (congrArg Prod.fst heq) hempty
    · next heq => exact absurd (congrArg Prod.fst heq) (hzero _ _)
    · next heq =>
      cases heq
      simp only [hfraction, hexponent, Option.map_some]

theorem respects_readUnsigned (negative : Bool) :
    Respects (readUnsigned negative) (readUnsigned negative) := by
  intro text other rest numeral h hread
  obtain ⟨whole, tail, fraction, after, exponent, hsplit, hempty, hzero, hfraction, hexponent,
    hnumeral⟩ := readUnsigned_eq_some_iff.1 hread
  obtain ⟨tail', hsplit', htail⟩ := h.splitDigits hsplit
  obtain ⟨after', hfraction', hafter⟩ := respects_readFraction htail hfraction
  obtain ⟨behind, hexponent', hrest⟩ := respects_readExponent hafter hexponent
  exact ⟨behind, readUnsigned_eq_some_iff.2 ⟨whole, tail', fraction, after', exponent, hsplit',
    hempty, hzero, hfraction', hexponent', hnumeral⟩, hrest⟩

/-- A numeral begins with a sign or a digit. -/
theorem exists_of_readNumeral {text rest : List Char} {numeral : Numeral}
    (h : readNumeral text = some (numeral, rest)) :
    ∃ c inner, text = c :: inner ∧ (c = '-' ∨ c.isDigit = true) := by
  cases text with
  | nil => cases h
  | cons c inner =>
    by_cases hminus : c = '-'
    · exact ⟨c, inner, rfl, .inl hminus⟩
    · have hread : readUnsigned false (c :: inner) = some (numeral, rest) := by
        rw [readNumeral] at h
        · exact h
        · exact fun _ heq => hminus (List.cons.inj heq).1
      obtain ⟨whole, tail, -, -, -, hsplit, hempty, -⟩ := readUnsigned_eq_some_iff.1 hread
      refine ⟨c, inner, rfl, .inr ?_⟩
      by_contra hdigit
      have hnone : (c :: inner).takeWhile Char.isDigit = [] :=
        List.takeWhile_cons_of_neg hdigit
      rw [splitDigits, hnone] at hsplit
      exact hempty (congrArg Prod.fst hsplit).symm

theorem respects_readNumeral : Respects readNumeral readNumeral := by
  intro text other rest numeral h hread
  obtain ⟨c, inner, rfl, hc⟩ := exists_of_readNumeral hread
  have hne : c ≠ '<' := by
    rintro rfl
    exact absurd hc (by decide)
  obtain ⟨tail, rfl, htail⟩ := h.of_cons hne
  by_cases hminus : c = '-'
  · subst hminus
    exact respects_readUnsigned true htail hread
  · have hpositive : ∀ text, readNumeral (c :: text) = readUnsigned false (c :: text) := by
      intro text
      rw [readNumeral]
      exact fun _ heq => hminus (List.cons.inj heq).1
    rw [hpositive] at hread ⊢
    exact respects_readUnsigned false h hread

/-! ## Values -/

section

variable {fuel more depth : Nat} (hvalue : Respects (readValue fuel depth) (readValue more depth))

include hvalue in
theorem respects_readItems_succ (hitems : Respects (readItems fuel depth) (readItems more depth)) :
    Respects (readItems (fuel + 1) depth) (readItems (more + 1) depth) := by
  intro text other rest items h hread
  rw [readItems] at hread ⊢
  cases hfirst : readValue fuel depth text with
  | none => rw [hfirst] at hread; cases hread
  | some value =>
    obtain ⟨item, after⟩ := value
    obtain ⟨again, hagain, hafter⟩ := hvalue h hfirst
    rw [hfirst] at hread
    rw [hagain]
    dsimp only at hread ⊢
    have hgap := hafter.skipGap
    split at hread
    · next inner hclose =>
      cases hread
      rw [hclose] at hgap
      obtain ⟨behind, hbehind, hrest⟩ := hgap.of_cons (by decide)
      exact ⟨behind, by rw [hbehind]; rfl, hrest⟩
    · next inner hcomma =>
      obtain ⟨⟨found, tail⟩, hfound, hsome⟩ := Option.map_eq_some_iff.1 hread
      cases hsome
      rw [hcomma] at hgap
      obtain ⟨next, hnext, hinner⟩ := hgap.of_cons (by decide)
      obtain ⟨behind, hbehind, hrest⟩ := hitems hinner hfound
      exact ⟨behind, by simp only [hnext, hbehind, Option.map_some], hrest⟩
    · cases hread

include hvalue in
theorem respects_readMembers_succ
    (hmembers : Respects (readMembers fuel depth) (readMembers more depth)) :
    Respects (readMembers (fuel + 1) depth) (readMembers (more + 1) depth) := by
  intro text other rest members h hread
  rw [readMembers] at hread ⊢
  cases hkey : readKey text with
  | none => rw [hkey] at hread; cases hread
  | some pair =>
    obtain ⟨key, colon⟩ := pair
    obtain ⟨inside, hinside, hcolon⟩ := respects_readKey h hkey
    rw [hkey] at hread
    rw [hinside]
    dsimp only at hread ⊢
    cases hfirst : readValue fuel depth colon with
    | none => rw [hfirst] at hread; cases hread
    | some value =>
      obtain ⟨member, after⟩ := value
      obtain ⟨again, hagain, hafter⟩ := hvalue hcolon hfirst
      rw [hfirst] at hread
      rw [hagain]
      dsimp only at hread ⊢
      have hgap := hafter.skipGap
      split at hread
      · next inner hclose =>
        cases hread
        rw [hclose] at hgap
        obtain ⟨behind, hbehind, hrest⟩ := hgap.of_cons (by decide)
        exact ⟨behind, by rw [hbehind]; rfl, hrest⟩
      · next inner hcomma =>
        obtain ⟨⟨found, tail⟩, hfound, hsome⟩ := Option.map_eq_some_iff.1 hread
        cases hsome
        rw [hcomma] at hgap
        obtain ⟨next, hnext, hinner⟩ := hgap.of_cons (by decide)
        obtain ⟨behind, hbehind, hrest⟩ := hmembers hinner hfound
        exact ⟨behind, by simp only [hnext, hbehind, Option.map_some], hrest⟩
      · cases hread

end

section

variable {fuel depth : Nat} {text inner rest : List Char}

theorem readValue_quote (htext : skipGap text = '"' :: inner) :
    readValue (fuel + 1) depth text =
      (readString inner).map fun p => (usable .str p.1, p.2) := by
  rw [readValue, htext]
  rfl

theorem readValue_emptyArray (htext : skipGap text = '[' :: inner)
    (hclose : skipGap inner = ']' :: rest) : readValue (fuel + 1) depth text =
      some (if depth = 0 then .unusable else .arr [], rest) := by
  rw [readValue, htext]
  simp only [hclose]
  rfl

theorem readValue_items (htext : skipGap text = '[' :: inner)
    (hopen : ∀ rest, skipGap inner ≠ ']' :: rest) : readValue (fuel + 1) depth text =
      (readItems fuel (depth - 1) (skipGap inner)).map fun p =>
        (if depth = 0 then .unusable else .arr p.1, p.2) := by
  rw [readValue, htext]
  refine congrArg (Option.map _) ?_
  split
  · next rest heq => exact absurd heq (hopen rest)
  · rfl

theorem readValue_emptyObject (htext : skipGap text = '\x7b' :: inner)
    (hclose : skipGap inner = '\x7d' :: rest) : readValue (fuel + 1) depth text =
      some (if depth = 0 then .unusable else .obj [], rest) := by
  rw [readValue, htext]
  simp only [hclose]
  rfl

theorem readValue_members (htext : skipGap text = '\x7b' :: inner)
    (hopen : ∀ rest, skipGap inner ≠ '\x7d' :: rest) : readValue (fuel + 1) depth text =
      (readMembers fuel (depth - 1) (skipGap inner)).map fun p =>
        (if depth = 0 then .unusable else usable .obj p.1, p.2) := by
  rw [readValue, htext]
  refine congrArg (Option.map _) ?_
  split
  · next rest heq => exact absurd heq (hopen rest)
  · rfl

end

theorem Respects.map {α β : Type} {read again : List Char → Option (α × List Char)}
    (h : Respects read again) (f : α → β) :
    Respects (fun text => (read text).map fun p => (f p.1, p.2))
      (fun text => (again text).map fun p => (f p.1, p.2)) := by
  intro text other rest b htext hread
  obtain ⟨⟨a, tail⟩, ha, hsome⟩ := Option.map_eq_some_iff.1 hread
  cases hsome
  obtain ⟨behind, hbehind, hrest⟩ := h htext ha
  exact ⟨behind, by dsimp only; rw [hbehind]; rfl, hrest⟩

theorem readValue_skipGap (fuel depth : Nat) (text : List Char) :
    readValue fuel depth (skipGap text) = readValue fuel depth text := by
  have hgap : ∀ c ∈ text.takeWhile isGap, isGap c = true :=
    List.all_eq_true.1 List.all_takeWhile
  have htext := readValue_append hgap fuel depth (skipGap text)
  rw [skipGap, List.takeWhile_append_dropWhile] at htext
  exact htext.symm

theorem respects_readValue_succ {fuel more : Nat} (depth : Nat)
    (hitems : Respects (readItems fuel (depth - 1)) (readItems more (depth - 1)))
    (hmembers : Respects (readMembers fuel (depth - 1)) (readMembers more (depth - 1))) :
    Respects (readValue (fuel + 1) depth) (readValue (more + 1) depth) := by
  intro text other rest literal h hread
  have hgap := h.skipGap
  have hcases := hread
  rw [readValue] at hcases
  split at hcases
  · next inner htext =>
    cases hcases
    rw [htext] at hgap
    obtain ⟨behind, hword, hrest⟩ := hgap.of_append ['n', 'u', 'l', 'l'] (by decide)
    exact ⟨behind, by rw [readValue, hword]; rfl, hrest⟩
  · next inner htext =>
    cases hcases
    rw [htext] at hgap
    obtain ⟨behind, hword, hrest⟩ := hgap.of_append ['t', 'r', 'u', 'e'] (by decide)
    exact ⟨behind, by rw [readValue, hword]; rfl, hrest⟩
  · next inner htext =>
    cases hcases
    rw [htext] at hgap
    obtain ⟨behind, hword, hrest⟩ := hgap.of_append ['f', 'a', 'l', 's', 'e'] (by decide)
    exact ⟨behind, by rw [readValue, hword]; rfl, hrest⟩
  · next inner htext =>
    rw [htext] at hgap
    obtain ⟨inside, hquote, hinner⟩ := hgap.of_cons (by decide)
    rw [readValue_quote hquote]
    exact respects_readString.map (usable .str) hinner hcases
  · next inner htext =>
    rw [htext] at hgap
    obtain ⟨inside, hbracket, hinner⟩ := hgap.of_cons (by decide)
    obtain ⟨tail, behind, hempty, hbehind, hrest⟩ | ⟨hitem, hsame⟩ :=
      hinner.closes_or_not (by decide : ']' ≠ '<')
    · rw [readValue_emptyArray htext hempty] at hread
      cases hread
      exact ⟨behind, readValue_emptyArray hbracket hbehind, hrest⟩
    · rw [readValue_items htext hitem] at hread
      rw [readValue_items hbracket hsame]
      exact hitems.map (fun items => if depth = 0 then Literal.unusable else .arr items)
        hinner.skipGap hread
  · next inner htext =>
    rw [htext] at hgap
    obtain ⟨inside, hbrace, hinner⟩ := hgap.of_cons (by decide)
    obtain ⟨tail, behind, hempty, hbehind, hrest⟩ | ⟨hmember, hsame⟩ :=
      hinner.closes_or_not (by decide : '\x7d' ≠ '<')
    · rw [readValue_emptyObject htext hempty] at hread
      cases hread
      exact ⟨behind, readValue_emptyObject hbrace hbehind, hrest⟩
    · rw [readValue_members htext hmember] at hread
      rw [readValue_members hbrace hsame]
      exact hmembers.map
        (fun members => if depth = 0 then Literal.unusable else usable .obj members)
        hinner.skipGap hread
  · obtain ⟨⟨numeral, tail⟩, hnumeral, hsome⟩ := Option.map_eq_some_iff.1 hcases
    cases hsome
    obtain ⟨behind, hbehind, hrest⟩ := respects_readNumeral hgap hnumeral
    obtain ⟨c, inner, hother, hc⟩ := exists_of_readNumeral hbehind
    refine ⟨behind, ?_, hrest⟩
    rw [← readValue_skipGap, hother, readValue_numeral hc, ← hother, hbehind]
    rfl

/-- **The reader takes no notice of the spelling**, also when it has more fuel for the text that is
longer. -/
theorem respects_readValue {fuel more : Nat} (depth : Nat) (hmore : fuel ≤ more) :
    Respects (readValue fuel depth) (readValue more depth) ∧
    Respects (readItems fuel depth) (readItems more depth) ∧
    Respects (readMembers fuel depth) (readMembers more depth) := by
  induction fuel generalizing more depth with
  | zero =>
    refine ⟨fun _ hread => ?_, fun _ hread => ?_, fun _ hread => ?_⟩
    · rw [readValue] at hread; cases hread
    · rw [readItems] at hread; cases hread
    · rw [readMembers] at hread; cases hread
  | succ fuel ih =>
    obtain ⟨more, rfl⟩ : ∃ inner, more = inner + 1 := ⟨more - 1, by omega⟩
    have hle : fuel ≤ more := by omega
    obtain ⟨hvalue, hitems, hmembers⟩ := ih depth hle
    obtain ⟨-, hinnerItems, hinnerMembers⟩ := ih (depth - 1) hle
    exact ⟨respects_readValue_succ depth hinnerItems hinnerMembers,
      respects_readItems_succ hvalue hitems, respects_readMembers_succ hvalue hmembers⟩

/-- A text that is respelled says the same. -/
theorem readText_of_respelled {depth : Nat} {text other : List Char} {literal : Literal}
    (hrespelled : Respelled text other) (h : readText depth text = some literal) :
    readText depth other = some literal := by
  rw [readText] at h ⊢
  cases hread : readValue (2 * text.length + 2) depth text with
  | none => rw [hread] at h; cases h
  | some value =>
    obtain ⟨found, rest⟩ := value
    have hlength := hrespelled.length_le
    have hfuel : 2 * text.length + 2 ≤ 2 * other.length + 2 := by omega
    obtain ⟨behind, hbehind, hrest⟩ := (respects_readValue depth hfuel).1 hrespelled hread
    have hend := hrest.skipGap
    rw [hread] at h
    rw [hbehind]
    dsimp only at h ⊢
    split_ifs at h with hempty
    rw [List.isEmpty_iff.1 hempty] at hend
    have hnil : skipGap behind = [] := by
      generalize skipGap behind = last at hend
      cases hend
      rfl
    rw [hnil, List.isEmpty_nil, if_pos rfl]
    exact h

/-- **A text with its closing tags taken apart says the same.** -/
theorem readText_replace {depth : Nat} {text : List Char} {literal : Literal}
    (h : readText depth text = some literal) :
    readText depth (Text.replace ['<', '/'] ['<', '\\', '/'] text) = some literal :=
  readText_of_respelled (.replaceFrom text) h

end JsonReader

end PageTree
