import PageTree.Proofs.Number.Written

/-!
# Printed values read again

The text of a value is well formed, so reading it never fails. What it says is the value, part by
part, save that a container nested too deep has no value and that a number is what its text says.
The compact and the pretty text differ in white space between their parts only, which is passed
over, so both are instances of one printed form.

## Main definitions

* `Json.Gaps`, `Json.spaced`: where a printed value has white space, and its text then
* `Json.reread`: what the text of a value says

## Main results

* `Json.spaced_none`, `Json.spaced_lines`: the compact and the pretty text are of that form
* `Literal.read?_compact`, `Literal.read?_pretty`: what they say
-/

namespace PageTree

/-! ## Strings -/

namespace JsonReader

theorem hexValue?_digitChar {n : Nat} (h : n < 16) : hexValue? (Nat.digitChar n) = some n := by
  interval_cases n <;> decide

/-- A one letter escape is read as the character it stands for. -/
theorem readCodes_letter {l c : Char} (hu : l ≠ 'u') (h : escapeValue? l = some c)
    (text : List Char) :
    readCodes ('\\' :: l :: text) = (readCodes text).map fun p => (c.toNat :: p.1, p.2) := by
  rw [readCodes.eq_4 l text, h]
  · cases readCodes text <;> rfl
  · rintro _ _ _ _ _ rfl
    exact absurd rfl hu

theorem readCodes_code {a b c d : Char} {code : Nat} (h : hexCode? a b c d = some code)
    (text : List Char) :
    readCodes ('\\' :: 'u' :: a :: b :: c :: d :: text) =
      (readCodes text).map fun p => (code :: p.1, p.2) := by
  rw [readCodes, h]
  cases readCodes text <;> rfl

theorem readCodes_plain {c : Char} (hquote : c ≠ '"') (hslash : c ≠ '\\') (h : ¬c.toNat < 0x20)
    (text : List Char) :
    readCodes (c :: text) = (readCodes text).map fun p => (c.toNat :: p.1, p.2) := by
  rw [readCodes.eq_5 c text, if_neg (not_or.2 ⟨hslash, h⟩)]
  · exact hquote
  · exact fun _ _ _ _ _ heq => absurd heq hslash
  · exact fun _ _ heq => absurd heq hslash

/-- The escape of a character is read as its code. -/
theorem readCodes_charEscape (c : Char) (text : List Char) :
    readCodes (Json.charEscape c ++ text) =
      (readCodes text).map fun p => (c.toNat :: p.1, p.2) := by
  rw [Json.charEscape]
  by_cases hquote : c = '"'
  · subst hquote
    exact readCodes_letter (by decide) (by decide) text
  by_cases hslash : c = '\\'
  · subst hslash
    exact readCodes_letter (by decide) (by decide) text
  by_cases hb : c = '\x08'
  · subst hb
    exact readCodes_letter (l := 'b') (by decide) (by decide) text
  by_cases hf : c = '\x0c'
  · subst hf
    exact readCodes_letter (l := 'f') (by decide) (by decide) text
  by_cases hn : c = '\n'
  · subst hn
    exact readCodes_letter (l := 'n') (by decide) (by decide) text
  by_cases hr : c = '\r'
  · subst hr
    exact readCodes_letter (l := 'r') (by decide) (by decide) text
  by_cases ht : c = '\t'
  · subst ht
    exact readCodes_letter (l := 't') (by decide) (by decide) text
  rw [if_neg hquote, if_neg hslash, if_neg hb, if_neg hf, if_neg hn, if_neg hr, if_neg ht]
  by_cases hlow : c.toNat < 0x20
  · rw [if_pos hlow]
    refine readCodes_code ?_ text
    have hzero : hexValue? '0' = some 0 := by decide
    rw [hexCode?, hzero, hexValue?_digitChar (by omega : c.toNat / 16 < 16),
      hexValue?_digitChar (by omega : c.toNat % 16 < 16)]
    exact congrArg some (by omega)
  · rw [if_neg hlow]
    exact readCodes_plain hquote hslash hlow text

/-- A printed string is read as its codes. -/
theorem readCodes_chars (chars rest : List Char) :
    readCodes (chars.flatMap Json.charEscape ++ '"' :: rest) =
      some (chars.map Char.toNat, rest) := by
  induction chars with
  | nil => simp [readCodes]
  | cons c chars ih =>
    rw [List.flatMap_cons, List.append_assoc, readCodes_charEscape, ih]
    rfl

/-- A character is not half of a surrogate pair. -/
theorem isHalf_toNat (c : Char) : isHighHalf c.toNat = false ∧ isLowHalf c.toNat = false := by
  have hvalid : c.toNat < 0xd800 ∨ 0xdfff < c.toNat := by
    rcases c.valid with h | h
    · exact Or.inl h
    · exact Or.inr h.1
  simp only [isHighHalf, isLowHalf, Bool.and_eq_false_iff, decide_eq_false_iff_not]
  omega

theorem charsOfCodes?_map (chars : List Char) :
    charsOfCodes? (chars.map Char.toNat) = some chars := by
  induction chars with
  | nil => rfl
  | cons c chars ih =>
    obtain ⟨hhigh, hlow⟩ := isHalf_toNat c
    cases chars with
    | nil => simp [charsOfCodes?, hhigh, hlow]
    | cons d chars =>
      rw [List.map_cons] at ih
      simp [charsOfCodes?, hhigh, hlow, ih]

/-- **A printed string is read back.** -/
theorem readString_stringChars (text : String) (rest : List Char) :
    readString (text.toList.flatMap Json.charEscape ++ '"' :: rest) =
      some (some text, rest) := by
  have hchars := charsOfCodes?_map text.toList
  rw [readString, readCodes_chars, Option.map_some]
  dsimp only
  rw [hchars, Option.map_some, String.ofList_toList]

end JsonReader

/-! ## Values -/

namespace Json

/-- Where a printed value has white space: in front of each item, member and closing bracket, by
the number of containers that are open there, and behind each colon. -/
structure Gaps where
  line : Nat → List Char
  colon : List Char
  isGap_line : ∀ depth, ∀ c ∈ line depth, JsonReader.isGap c = true
  isGap_colon : ∀ c ∈ colon, JsonReader.isGap c = true

/-- The gaps of the compact text. -/
def Gaps.none : Gaps where
  line _ := []
  colon := []
  isGap_line _ := nofun
  isGap_colon := nofun

/-- The gaps of the pretty text. -/
def Gaps.lines : Gaps where
  line := newline
  colon := [' ']
  isGap_line depth c hc := by
    rcases List.mem_cons.1 hc with rfl | hc
    · decide
    · rw [List.eq_of_mem_replicate hc]
      decide
  isGap_colon := by decide

mutual

/-- The text of a value with gaps, inside `depth` open containers. -/
def spaced (gaps : Gaps) (depth : Nat) : Json → List Char
  | .arr [] => ['[', ']']
  | .arr (item :: items) =>
    '[' :: gaps.line (depth + 1) ++ spaced gaps (depth + 1) item ++ spacedItems gaps depth items
  | .obj [] => ['\x7b', '\x7d']
  | .obj ((key, value) :: members) =>
    '\x7b' :: gaps.line (depth + 1) ++ stringChars key ++ ':' :: gaps.colon ++
      spaced gaps (depth + 1) value ++ spacedMembers gaps depth members
  | value => value.chars

/-- The text of the items of an array after the first, and its end. -/
def spacedItems (gaps : Gaps) (depth : Nat) : List Json → List Char
  | [] => gaps.line depth ++ [']']
  | item :: items =>
    ',' :: gaps.line (depth + 1) ++ spaced gaps (depth + 1) item ++ spacedItems gaps depth items

/-- The text of the members of an object after the first, and its end. -/
def spacedMembers (gaps : Gaps) (depth : Nat) : List (String × Json) → List Char
  | [] => gaps.line depth ++ ['\x7d']
  | (key, value) :: members =>
    ',' :: gaps.line (depth + 1) ++ stringChars key ++ ':' :: gaps.colon ++
      spaced gaps (depth + 1) value ++ spacedMembers gaps depth members

end

mutual

/-- The compact text has no gaps. -/
theorem spaced_none : ∀ (depth : Nat) (value : Json), spaced .none depth value = value.chars
  | _, .null | _, .bool _ | _, .num _ | _, .str _ | _, .arr [] | _, .obj [] => rfl
  | depth, .arr (item :: items) => by
    rw [spaced, chars, spaced_none, spacedItems_none]
    rfl
  | depth, .obj ((key, value) :: members) => by
    rw [spaced, chars, spaced_none, spacedMembers_none]
    simp only [Gaps.none, List.append_assoc, List.cons_append, List.nil_append]

theorem spacedItems_none : ∀ (depth : Nat) (items : List Json),
    spacedItems .none depth items = itemChars items
  | _, [] => rfl
  | depth, item :: items => by
    rw [spacedItems, itemChars, spaced_none, spacedItems_none]
    rfl

theorem spacedMembers_none : ∀ (depth : Nat) (members : List (String × Json)),
    spacedMembers .none depth members = memberChars members
  | _, [] => rfl
  | depth, (key, value) :: members => by
    rw [spacedMembers, memberChars, spaced_none, spacedMembers_none]
    simp only [Gaps.none, List.append_assoc, List.cons_append, List.nil_append]

end

mutual

/-- The pretty text has its items and members on lines of their own. -/
theorem spaced_lines : ∀ (depth : Nat) (value : Json),
    spaced .lines depth value = value.prettyChars depth
  | _, .null | _, .bool _ | _, .num _ | _, .str _ | _, .arr [] | _, .obj [] => rfl
  | depth, .arr (item :: items) => by
    rw [spaced, prettyChars, spaced_lines, spacedItems_lines]
    rfl
  | depth, .obj ((key, value) :: members) => by
    rw [spaced, prettyChars, spaced_lines, spacedMembers_lines]
    simp only [Gaps.lines, List.append_assoc, List.cons_append, List.nil_append]

theorem spacedItems_lines : ∀ (depth : Nat) (items : List Json),
    spacedItems .lines depth items = prettyItems depth items
  | _, [] => rfl
  | depth, item :: items => by
    rw [spacedItems, prettyItems, spaced_lines, spacedItems_lines]
    rfl

theorem spacedMembers_lines : ∀ (depth : Nat) (members : List (String × Json)),
    spacedMembers .lines depth members = prettyMembers depth members
  | _, [] => rfl
  | depth, (key, value) :: members => by
    rw [spacedMembers, prettyMembers, spaced_lines, spacedMembers_lines]
    simp only [Gaps.lines, List.append_assoc, List.cons_append, List.nil_append]

end

mutual

/-- What the text of a value says where `depth` more containers may be opened. -/
def reread (depth : Nat) : Json → Literal
  | .null => .null
  | .bool value => .bool value
  | .num value => value.reread
  | .str value => .str value
  | .arr items => if depth = 0 then .unusable else .arr (rereadItems (depth - 1) items)
  | .obj members => if depth = 0 then .unusable else .obj (rereadMembers (depth - 1) members)

/-- What the texts of items say. -/
def rereadItems (depth : Nat) : List Json → List Literal
  | [] => []
  | item :: items => reread depth item :: rereadItems depth items

/-- What the texts of members say. -/
def rereadMembers (depth : Nat) : List (String × Json) → List (String × Literal)
  | [] => []
  | (key, member) :: members => (key, reread depth member) :: rereadMembers depth members

end

end Json

namespace JsonReader

open Json (Gaps spaced spacedItems spacedMembers)

/-! ### White space -/

theorem skipGap_cons {c : Char} (h : isGap c = false) (text : List Char) :
    skipGap (c :: text) = c :: text :=
  List.dropWhile_cons_of_neg (by simp [h])

theorem skipGap_append {gap : List Char} (h : ∀ c ∈ gap, isGap c = true) (text : List Char) :
    skipGap (gap ++ text) = skipGap text :=
  List.dropWhile_append_of_pos h

theorem readValue_append {gap : List Char} (h : ∀ c ∈ gap, isGap c = true) (fuel depth : Nat)
    (text : List Char) : readValue fuel depth (gap ++ text) = readValue fuel depth text := by
  cases fuel with
  | zero => rw [readValue, readValue]
  | succ fuel => rw [readValue, readValue, skipGap_append h]

theorem readItems_append {gap : List Char} (h : ∀ c ∈ gap, isGap c = true) (fuel depth : Nat)
    (text : List Char) : readItems fuel depth (gap ++ text) = readItems fuel depth text := by
  cases fuel with
  | zero => rw [readItems, readItems]
  | succ fuel => rw [readItems, readItems, readValue_append h]

theorem readMembers_append {gap : List Char} (h : ∀ c ∈ gap, isGap c = true) (fuel depth : Nat)
    (text : List Char) : readMembers fuel depth (gap ++ text) = readMembers fuel depth text := by
  cases fuel with
  | zero => rw [readMembers, readMembers]
  | succ fuel => rw [readMembers, readMembers, readKey, readKey, skipGap_append h]

/-- A text that can stand behind a value. -/
def Follows (rest : List Char) : Prop :=
  ∀ c, rest.head? = some c → c = ',' ∨ c = ']' ∨ c = '\x7d' ∨ isGap c = true

theorem Follows.stopsNumeral {rest : List Char} (h : Follows rest) : StopsNumeral rest := by
  intro c hc
  rcases h c hc with rfl | rfl | rfl | hgap
  · decide
  · decide
  · decide
  · simp only [isGap, Bool.or_eq_true, decide_eq_true_eq] at hgap
    rcases hgap with ((rfl | rfl) | rfl) | rfl <;> decide

theorem follows_cons {c : Char} (h : c = ',' ∨ c = ']' ∨ c = '\x7d') (rest : List Char) :
    Follows (c :: rest) := by
  intro d hd
  obtain rfl := Option.some.inj hd
  exact h.imp_right (Or.imp_right Or.inl)

theorem follows_append {gap rest : List Char} (h : ∀ c ∈ gap, isGap c = true)
    (hrest : Follows rest) : Follows (gap ++ rest) := by
  cases gap with
  | nil => exact hrest
  | cons c gap =>
    intro d hd
    obtain rfl := Option.some.inj hd
    exact .inr (.inr (.inr (h c (List.mem_cons_self ..))))

theorem follows_spacedMembers (gaps : Gaps) (depth : Nat) (members : List (String × Json))
    (rest : List Char) : Follows (spacedMembers gaps depth members ++ rest) := by
  cases members with
  | nil =>
    rw [spacedMembers, List.append_assoc]
    exact follows_append (gaps.isGap_line depth) (follows_cons (by decide) rest)
  | cons => exact follows_cons (by decide) _

/-! ### First characters -/

/-- The first character of a numeral. -/
theorem head_numeral {text : List Char} (h : IsNumeral text) :
    ∃ c rest, text = c :: rest ∧ (c = '-' ∨ c.isDigit = true) := by
  cases h with
  | negative h => exact ⟨'-', _, rfl, Or.inl rfl⟩
  | positive h =>
    obtain ⟨c, rest, rfl, hc⟩ := h.head
    exact ⟨c, rest, rfl, Or.inr hc⟩

/-- What begins a numeral is no other character. -/
theorem ne_of_head {c d : Char} (hc : c = '-' ∨ c.isDigit = true) (hminus : d ≠ '-')
    (hdigit : d.isDigit = false) : c ≠ d := by
  rintro rfl
  exact hc.elim hminus fun h => absurd h (by simp [hdigit])

theorem isGap_of_head {c : Char} (hc : c = '-' ∨ c.isDigit = true) : isGap c = false := by
  have hne (d : Char) := ne_of_head (d := d) hc
  simp [isGap, hne ' ' (by decide) (by decide), hne '\t' (by decide) (by decide),
    hne '\n' (by decide) (by decide), hne '\r' (by decide) (by decide)]

/-- What a value begins with is no white space and closes nothing. -/
theorem head_spaced (gaps : Gaps) (depth : Nat) (value : Json) :
    ∃ c rest, value.spaced gaps depth = c :: rest ∧ isGap c = false ∧ c ≠ ']' ∧ c ≠ '\x7d' := by
  have hnumeral : ∀ c, (c = '-' ∨ c.isDigit = true) → isGap c = false ∧ c ≠ ']' ∧ c ≠ '\x7d' :=
    fun c hc => ⟨isGap_of_head hc, ne_of_head hc (by decide) (by decide),
      ne_of_head hc (by decide) (by decide)⟩
  cases value with
  | null => exact ⟨_, _, rfl, by decide, by decide, by decide⟩
  | bool value => cases value <;> exact ⟨_, _, rfl, by decide, by decide, by decide⟩
  | num value =>
    obtain ⟨c, rest, hchars, hc⟩ := head_numeral (isNumeral_chars value)
    exact ⟨c, rest, by rw [spaced, Json.chars, hchars] <;> nofun, hnumeral c hc⟩
  | str value => exact ⟨_, _, rfl, by decide, by decide, by decide⟩
  | arr items => cases items <;> exact ⟨_, _, rfl, by decide, by decide, by decide⟩
  | obj members => cases members <;> exact ⟨_, _, rfl, by decide, by decide, by decide⟩

/-! ### Parts of values -/

/-- A printed key is read back. -/
theorem readKey_stringChars (key : String) (rest : List Char) :
    readKey (Json.stringChars key ++ ':' :: rest) = some (some key, rest) := by
  have hstring := readString_stringChars key (':' :: rest)
  rw [Json.stringChars, List.append_assoc, List.cons_append, readKey,
    skipGap_cons (by decide), List.singleton_append]
  simp only [hstring]
  rfl

/-- What begins as a numeral is read as a numeral. -/
theorem readValue_numeral {c : Char} (hc : c = '-' ∨ c.isDigit = true) (fuel depth : Nat)
    (text : List Char) : readValue (fuel + 1) depth (c :: text) =
      (readNumeral (c :: text)).map fun p => (usable .num p.1.number?, p.2) := by
  have hne (d : Char) := ne_of_head (d := d) hc
  rw [readValue, skipGap_cons (isGap_of_head hc)]
  split
  · next heq => exact absurd (List.cons.inj heq).1 (hne _ (by decide) (by decide))
  · next heq => exact absurd (List.cons.inj heq).1 (hne _ (by decide) (by decide))
  · next heq => exact absurd (List.cons.inj heq).1 (hne _ (by decide) (by decide))
  · next heq => exact absurd (List.cons.inj heq).1 (hne _ (by decide) (by decide))
  · next heq => exact absurd (List.cons.inj heq).1 (hne _ (by decide) (by decide))
  · next heq => exact absurd (List.cons.inj heq).1 (hne _ (by decide) (by decide))
  · rfl

theorem readValue_num (n : Number) (fuel depth : Nat) {rest : List Char} (h : Follows rest) :
    readValue (fuel + 1) depth (n.chars ++ rest) = some (n.reread, rest) := by
  obtain ⟨numeral, hreread, hread⟩ := readNumeral_chars n
  obtain ⟨c, text, hchars, hc⟩ := head_numeral (isNumeral_chars n)
  have hvalue := hread rest h.stopsNumeral
  rw [hchars, List.cons_append] at hvalue ⊢
  rw [readValue_numeral hc, hvalue, hreread]
  rfl

/-- An array that does not close at once. -/
theorem readValue_bracket {gap : List Char} (hgap : ∀ c ∈ gap, isGap c = true) {c : Char}
    (hc : isGap c = false) (hclose : c ≠ ']') (fuel depth : Nat) (text : List Char) :
    readValue (fuel + 1) depth ('[' :: (gap ++ c :: text)) =
      (readItems fuel (depth - 1) (c :: text)).map fun p =>
        (if depth = 0 then .unusable else .arr p.1, p.2) := by
  rw [readValue, skipGap_cons (by decide)]
  simp only [skipGap_append hgap, skipGap_cons hc]
  refine congrArg (Option.map _) ?_
  split
  · next heq => exact absurd (List.cons.inj heq).1 hclose
  · rfl

/-- An object that does not close at once. -/
theorem readValue_brace {gap : List Char} (hgap : ∀ c ∈ gap, isGap c = true) {c : Char}
    (hc : isGap c = false) (hclose : c ≠ '\x7d') (fuel depth : Nat) (text : List Char) :
    readValue (fuel + 1) depth ('\x7b' :: (gap ++ c :: text)) =
      (readMembers fuel (depth - 1) (c :: text)).map fun p =>
        (if depth = 0 then .unusable else usable .obj p.1, p.2) := by
  rw [readValue, skipGap_cons (by decide)]
  simp only [skipGap_append hgap, skipGap_cons hc]
  refine congrArg (Option.map _) ?_
  split
  · next heq => exact absurd (List.cons.inj heq).1 hclose
  · rfl

theorem readItems_close {fuel depth : Nat} {text gap rest : List Char} {item : Literal}
    (hgap : ∀ c ∈ gap, isGap c = true)
    (h : readValue fuel depth text = some (item, gap ++ ']' :: rest)) :
    readItems (fuel + 1) depth text = some ([item], rest) := by
  rw [readItems, h]
  simp only [skipGap_append hgap, skipGap_cons (by decide : isGap ']' = false)]

theorem readItems_comma {fuel depth : Nat} {text rest behind : List Char} {item : Literal}
    {items : List Literal} (h : readValue fuel depth text = some (item, ',' :: rest))
    (hitems : readItems fuel depth rest = some (items, behind)) :
    readItems (fuel + 1) depth text = some (item :: items, behind) := by
  rw [readItems, h]
  simp only [skipGap_cons (by decide : isGap ',' = false), hitems]
  rfl

theorem readMembers_close {fuel depth : Nat} {text value gap rest : List Char} {key : String}
    {member : Literal} (hkey : readKey text = some (some key, value))
    (hgap : ∀ c ∈ gap, isGap c = true)
    (h : readValue fuel depth value = some (member, gap ++ '\x7d' :: rest)) :
    readMembers (fuel + 1) depth text = some (some [(key, member)], rest) := by
  rw [readMembers, hkey]
  simp only [h, skipGap_append hgap, skipGap_cons (by decide : isGap '\x7d' = false)]
  rfl

theorem readMembers_comma {fuel depth : Nat} {text value rest behind : List Char} {key : String}
    {member : Literal} {members : List (String × Literal)}
    (hkey : readKey text = some (some key, value))
    (h : readValue fuel depth value = some (member, ',' :: rest))
    (hmembers : readMembers fuel depth rest = some (some members, behind)) :
    readMembers (fuel + 1) depth text = some (some ((key, member) :: members), behind) := by
  rw [readMembers, hkey]
  simp only [h, skipGap_cons (by decide : isGap ',' = false), hmembers]
  rfl

/-! ### Whole values -/

mutual

/-- **The text of a value is read as a whole**, whatever closes or goes on behind it. -/
theorem readValue_spaced (gaps : Gaps) : ∀ (value : Json) {inside fuel depth : Nat}
    {rest : List Char}, 2 * (value.spaced gaps inside).length ≤ fuel → Follows rest →
    readValue fuel depth (value.spaced gaps inside ++ rest) = some (value.reread depth, rest)
  | value, inside, 0, depth, rest, hfuel, _ => by
    obtain ⟨c, text, hchars, -⟩ := head_spaced gaps inside value
    rw [hchars, List.length_cons] at hfuel
    omega
  | .null, _, fuel + 1, depth, rest, _, _ => rfl
  | .bool true, _, fuel + 1, depth, rest, _, _ => rfl
  | .bool false, _, fuel + 1, depth, rest, _, _ => rfl
  | .num value, _, fuel + 1, depth, rest, _, hrest => readValue_num value fuel depth hrest
  | .str value, _, fuel + 1, depth, rest, _, _ => by
    have hstring := readString_stringChars value rest
    rw [spaced, Json.chars, Json.stringChars, List.append_assoc, List.singleton_append,
      List.cons_append, readValue, skipGap_cons (by decide)]
    · simp only [hstring]
      rfl
    all_goals nofun
  | .arr [], _, fuel + 1, depth, rest, _, _ => by
    cases depth <;> rfl
  | .arr (item :: items), inside, fuel + 1, depth, rest, hfuel, _ => by
    obtain ⟨c, text, hchars, hgap, hclose, -⟩ := head_spaced gaps (inside + 1) item
    have hitems : readItems fuel (depth - 1)
        (item.spaced gaps (inside + 1) ++ (spacedItems gaps inside items ++ rest)) =
        some (Json.rereadItems (depth - 1) (item :: items), rest) := by
      refine readItems_spaced gaps (item :: items) rfl ?_
      rw [spaced] at hfuel
      simp only [List.length_append, List.length_cons] at hfuel
      omega
    have htext : (Json.arr (item :: items)).spaced gaps inside ++ rest = '[' ::
        (gaps.line (inside + 1) ++
          (item.spaced gaps (inside + 1) ++ (spacedItems gaps inside items ++ rest))) := by
      rw [spaced]
      simp only [List.append_assoc, List.cons_append]
    rw [hchars, List.cons_append] at hitems
    rw [htext, hchars, List.cons_append,
      readValue_bracket (gaps.isGap_line _) hgap hclose, hitems, Json.reread]
    rfl
  | .obj [], _, fuel + 1, depth, rest, _, _ => by
    cases depth <;> rfl
  | .obj ((key, member) :: members), inside, fuel + 1, depth, rest, hfuel, _ => by
    have hmembers : readMembers fuel (depth - 1) (Json.stringChars key ++ ':' :: (gaps.colon ++
        (member.spaced gaps (inside + 1) ++ (spacedMembers gaps inside members ++ rest)))) =
        some (some (Json.rereadMembers (depth - 1) ((key, member) :: members)), rest) := by
      refine readMembers_spaced gaps ((key, member) :: members) rfl ?_
      rw [spaced] at hfuel
      simp only [List.length_append, List.length_cons] at hfuel
      omega
    have htext : (Json.obj ((key, member) :: members)).spaced gaps inside ++ rest = '\x7b' ::
        (gaps.line (inside + 1) ++ (Json.stringChars key ++ ':' :: (gaps.colon ++
          (member.spaced gaps (inside + 1) ++ (spacedMembers gaps inside members ++ rest))))) := by
      rw [spaced]
      simp only [List.append_assoc, List.cons_append]
    have hquote : ∀ tail, Json.stringChars key ++ tail =
        '"' :: (key.toList.flatMap Json.charEscape ++ ['"'] ++ tail) := fun _ => rfl
    rw [hquote] at hmembers
    rw [htext, hquote, readValue_brace (gaps.isGap_line _) (by decide) (by decide), hmembers,
      Json.reread]
    rfl

/-- The items of an array are read up to its end. -/
theorem readItems_spaced (gaps : Gaps) : ∀ (all : List Json) {item : Json} {items : List Json}
    {inside fuel depth : Nat} {rest : List Char}, all = item :: items →
    2 * ((item.spaced gaps (inside + 1)).length + (spacedItems gaps inside items).length) ≤ fuel →
    readItems fuel depth
        (item.spaced gaps (inside + 1) ++ (spacedItems gaps inside items ++ rest)) =
      some (Json.rereadItems depth all, rest)
  | _, item, items, inside, 0, _, _, _, hfuel => by
    cases items <;> simp [spacedItems] at hfuel
  | [], _, _, _, _, _, _, h, _ => by cases h
  | [item], _, _, inside, fuel + 1, depth, rest, rfl, hfuel => by
    rw [spacedItems, List.length_append, List.length_singleton] at hfuel
    rw [spacedItems, List.append_assoc]
    exact readItems_close (gaps.isGap_line _) (readValue_spaced gaps item (by omega)
      (follows_append (gaps.isGap_line _) (follows_cons (by decide) rest)))
  | item :: next :: items, _, _, inside, fuel + 1, depth, rest, rfl, hfuel => by
    rw [spacedItems] at hfuel
    simp only [List.length_append, List.length_cons] at hfuel
    have hitems : readItems fuel depth
        (next.spaced gaps (inside + 1) ++ (spacedItems gaps inside items ++ rest)) =
        some (Json.rereadItems depth (next :: items), rest) :=
      readItems_spaced gaps (next :: items) rfl (by omega)
    have hbehind : spacedItems gaps inside (next :: items) ++ rest = ',' ::
        (gaps.line (inside + 1) ++
          (next.spaced gaps (inside + 1) ++ (spacedItems gaps inside items ++ rest))) := by
      rw [spacedItems]
      simp only [List.append_assoc, List.cons_append]
    rw [hbehind]
    exact readItems_comma (readValue_spaced gaps item (by omega) (follows_cons (by decide) _))
      ((readItems_append (gaps.isGap_line _) _ _ _).trans hitems)

/-- The members of an object are read up to its end. -/
theorem readMembers_spaced (gaps : Gaps) : ∀ (all : List (String × Json)) {key : String}
    {member : Json} {members : List (String × Json)} {inside fuel depth : Nat}
    {rest : List Char}, all = (key, member) :: members →
    2 * ((Json.stringChars key).length + (member.spaced gaps (inside + 1)).length +
      (spacedMembers gaps inside members).length) ≤ fuel →
    readMembers fuel depth (Json.stringChars key ++ ':' :: (gaps.colon ++
        (member.spaced gaps (inside + 1) ++ (spacedMembers gaps inside members ++ rest)))) =
      some (some (Json.rereadMembers depth all), rest)
  | _, _, _, members, inside, 0, _, _, _, hfuel => by
    cases members <;> simp [spacedMembers] at hfuel
  | [], _, _, _, _, _, _, _, h, _ => by cases h
  | [(key, member)], _, _, _, inside, fuel + 1, depth, rest, rfl, hfuel => by
    rw [spacedMembers, List.length_append, List.length_singleton] at hfuel
    have hvalue : readValue fuel depth (member.spaced gaps (inside + 1) ++
        (gaps.line inside ++ '\x7d' :: rest)) =
        some (member.reread depth, gaps.line inside ++ '\x7d' :: rest) :=
      readValue_spaced gaps member (by omega)
        (follows_append (gaps.isGap_line _) (follows_cons (by decide) rest))
    rw [spacedMembers, List.append_assoc]
    exact readMembers_close (readKey_stringChars key _) (gaps.isGap_line _)
      ((readValue_append gaps.isGap_colon _ _ _).trans hvalue)
  | (key, member) :: (nextKey, next) :: members, _, _, _, inside, fuel + 1, depth, rest, rfl,
      hfuel => by
    rw [spacedMembers] at hfuel
    simp only [List.length_append, List.length_cons] at hfuel
    have hmembers : readMembers fuel depth (Json.stringChars nextKey ++ ':' :: (gaps.colon ++
        (next.spaced gaps (inside + 1) ++ (spacedMembers gaps inside members ++ rest)))) =
        some (some (Json.rereadMembers depth ((nextKey, next) :: members)), rest) :=
      readMembers_spaced gaps ((nextKey, next) :: members) rfl (by omega)
    have hbehind : spacedMembers gaps inside ((nextKey, next) :: members) ++ rest = ',' ::
        (gaps.line (inside + 1) ++ (Json.stringChars nextKey ++ ':' :: (gaps.colon ++
          (next.spaced gaps (inside + 1) ++ (spacedMembers gaps inside members ++ rest))))) := by
      rw [spacedMembers]
      simp only [List.append_assoc, List.cons_append]
    have hvalue : readValue fuel depth (member.spaced gaps (inside + 1) ++
        (spacedMembers gaps inside ((nextKey, next) :: members) ++ rest)) =
        some (member.reread depth,
          spacedMembers gaps inside ((nextKey, next) :: members) ++ rest) :=
      readValue_spaced gaps member (by omega) (follows_spacedMembers gaps inside _ rest)
    rw [hbehind] at hvalue ⊢
    exact readMembers_comma (readKey_stringChars key _)
      ((readValue_append gaps.isGap_colon _ _ _).trans hvalue)
      ((readMembers_append (gaps.isGap_line _) _ _ _).trans hmembers)

end

/-- **The text of a value says the value**, as far as its numbers and its depth let it. -/
theorem readText_spaced (gaps : Gaps) (depth : Nat) (value : Json) :
    readText depth (value.spaced gaps 0) = some (value.reread depth) := by
  have hread : readValue (2 * (value.spaced gaps 0).length + 2) depth
      (value.spaced gaps 0 ++ []) = some (value.reread depth, []) :=
    readValue_spaced gaps value (by omega) (by simp [Follows])
  rw [List.append_nil] at hread
  rw [readText, hread]
  rfl

theorem readText_chars (depth : Nat) (value : Json) :
    readText depth value.chars = some (value.reread depth) := by
  rw [← Json.spaced_none 0, readText_spaced]

theorem readText_prettyChars (depth : Nat) (value : Json) :
    readText depth (value.prettyChars 0) = some (value.reread depth) := by
  rw [← Json.spaced_lines, readText_spaced]

end JsonReader

/-- What the compact text of a value says. -/
theorem Literal.read?_compact (value : Json) :
    Literal.read? value.compact = some (value.reread maxDepth) := by
  rw [Literal.read?, Json.compact, String.toList_ofList, JsonReader.readText_chars]

/-- What the pretty text of a value says. -/
theorem Literal.read?_pretty (value : Json) :
    Literal.read? value.pretty = some (value.reread maxDepth) := by
  rw [Literal.read?, Json.pretty, String.toList_ofList, JsonReader.readText_prettyChars]

end PageTree
