import Mathlib.Data.List.TakeWhile
import PageTree.Proofs.Json.Respelling
import PageTree.Proofs.Json.Values

/-!
# The grammar of JSON texts

What counts as a JSON text, and what it says, told without a reader: by rules for white space,
numerals, strings, arrays and objects. A rule relates a text to what its beginning says and to the
text behind. An array or object opens one level of nesting more than what is in it, and nothing
else does.

The grammar is wider than what has a value. A numeral that overflows when it is converted, and a
string with half of a surrogate pair, are within the grammar and say something unusable. The reader
takes up what the grammar derives, and it gives what the grammar says as long as the nesting is
within its bound. What it gives is derived by the grammar wherever it has a value, and only there:
containers beyond the bound are unusable for the reader.

## Main definitions

* `JsonGrammar.Spells`: a text begins with a value, nested within a bound
* `JsonGrammar.SpellsText`, `JsonGrammar.Says`: what a whole text says, and its value

## Main results

* `JsonGrammar.Spells.read`: what the grammar derives is read
* `JsonGrammar.derives_of_read`: what is read and has a value is derived
* `Json.parse?_eq_some_iff`: the values of texts, told by the grammar
-/

namespace PageTree

open JsonReader

namespace JsonGrammar

/-! ## The rules -/

/-- The first text is the second one behind some white space. -/
def Spaces (text rest : List Char) : Prop := ∃ gap, (∀ c ∈ gap, isGap c = true) ∧ gap ++ rest = text

/-- A sign that may be left out; a minus is told from a plus. -/
inductive SpellsSign : List Char → Bool → List Char → Prop where
  | absent {rest : List Char} : SpellsSign rest false rest
  | plus {rest : List Char} : SpellsSign ('+' :: rest) false rest
  | minus {rest : List Char} : SpellsSign ('-' :: rest) true rest

/-- A point with digits behind it, or nothing. -/
inductive SpellsFraction : List Char → Option (List Nat) → List Char → Prop where
  | absent {rest : List Char} : SpellsFraction rest none rest
  | point {digits rest : List Char} (h : IsDigits digits) :
      SpellsFraction ('.' :: (digits ++ rest)) (some (digits.map digitValue)) rest

/-- A mark with a sign and digits behind it, or nothing. -/
inductive SpellsExponent : List Char → Option Int → List Char → Prop where
  | absent {rest : List Char} : SpellsExponent rest none rest
  | mark {mark : Char} {text digits rest : List Char} {negative : Bool}
      (hmark : mark = 'e' ∨ mark = 'E') (hsign : SpellsSign text negative (digits ++ rest))
      (h : IsDigits digits) :
      SpellsExponent (mark :: text)
        (some (if negative then -(naturalOf (digits.map digitValue) : Int)
          else naturalOf (digits.map digitValue))) rest

/-- A numeral after its sign. -/
inductive SpellsUnsigned (negative : Bool) : List Char → Numeral → List Char → Prop where
  | mk {whole behind tail rest : List Char} {fraction : Option (List Nat)} {exponent : Option Int}
      (hwhole : IsWhole whole) (hfraction : SpellsFraction behind fraction tail)
      (hexponent : SpellsExponent tail exponent rest) :
      SpellsUnsigned negative (whole ++ behind)
        ⟨negative, whole.map digitValue, fraction, exponent⟩ rest

/-- A numeral. -/
inductive SpellsNumeral : List Char → Numeral → List Char → Prop where
  | positive {text rest : List Char} {numeral : Numeral}
      (h : SpellsUnsigned false text numeral rest) : SpellsNumeral text numeral rest
  | negative {text rest : List Char} {numeral : Numeral}
      (h : SpellsUnsigned true text numeral rest) : SpellsNumeral ('-' :: text) numeral rest

/-- The inside of a string up to its closing quote: plain characters, escapes of one letter, and
escapes of four hexadecimal digits. -/
inductive SpellsCodes : List Char → List Nat → List Char → Prop where
  | close {rest : List Char} : SpellsCodes ('"' :: rest) [] rest
  | plain {c : Char} {text rest : List Char} {codes : List Nat} (hquote : c ≠ '"')
      (hslash : c ≠ '\\') (hcontrol : 0x20 ≤ c.toNat) (h : SpellsCodes text codes rest) :
      SpellsCodes (c :: text) (c.toNat :: codes) rest
  | letter {l c : Char} {text rest : List Char} {codes : List Nat} (hl : escapeValue? l = some c)
      (h : SpellsCodes text codes rest) : SpellsCodes ('\\' :: l :: text) (c.toNat :: codes) rest
  | code {a b c d : Char} {code : Nat} {text rest : List Char} {codes : List Nat}
      (hcode : hexCode? a b c d = some code) (h : SpellsCodes text codes rest) :
      SpellsCodes ('\\' :: 'u' :: a :: b :: c :: d :: text) (code :: codes) rest

/-- The text of a string after its opening quote, unless it holds half a surrogate pair. -/
def SpellsString (text : List Char) (value : Option String) (rest : List Char) : Prop :=
  ∃ codes, SpellsCodes text codes rest ∧ value = (charsOfCodes? codes).map String.ofList

/-- A key with the colon behind it. -/
def SpellsKey (text : List Char) (key : Option String) (rest : List Char) : Prop :=
  ∃ inside behind, Spaces text ('"' :: inside) ∧ SpellsString inside key behind ∧
    Spaces behind (':' :: rest)

mutual

/-- The text begins with a value, at most so many containers open at once, and goes on with the
rest. -/
inductive Spells : Nat → List Char → Literal → List Char → Prop where
  | null {depth : Nat} {rest : List Char} :
      Spells depth ('n' :: 'u' :: 'l' :: 'l' :: rest) .null rest
  | yes {depth : Nat} {rest : List Char} :
      Spells depth ('t' :: 'r' :: 'u' :: 'e' :: rest) (.bool true) rest
  | no {depth : Nat} {rest : List Char} :
      Spells depth ('f' :: 'a' :: 'l' :: 's' :: 'e' :: rest) (.bool false) rest
  | num {depth : Nat} {text rest : List Char} {numeral : Numeral}
      (h : SpellsNumeral text numeral rest) :
      Spells depth text (usable .num numeral.number?) rest
  | str {depth : Nat} {text rest : List Char} {value : Option String}
      (h : SpellsString text value rest) : Spells depth ('"' :: text) (usable .str value) rest
  | emptyArr {depth : Nat} {text rest : List Char} (h : Spaces text (']' :: rest)) :
      Spells (depth + 1) ('[' :: text) (.arr []) rest
  | arr {depth : Nat} {text rest : List Char} {items : List Literal}
      (h : SpellsItems depth text items rest) : Spells (depth + 1) ('[' :: text) (.arr items) rest
  | emptyObj {depth : Nat} {text rest : List Char} (h : Spaces text ('\x7d' :: rest)) :
      Spells (depth + 1) ('\x7b' :: text) (.obj []) rest
  | obj {depth : Nat} {text rest : List Char} {members : Option (List (String × Literal))}
      (h : SpellsMembers depth text members rest) :
      Spells (depth + 1) ('\x7b' :: text) (usable .obj members) rest

/-- The items of an array from an item on, up to its closing bracket. -/
inductive SpellsItems : Nat → List Char → List Literal → List Char → Prop where
  | last {depth : Nat} {text start behind rest : List Char} {item : Literal}
      (hgap : Spaces text start) (hitem : Spells depth start item behind)
      (hclose : Spaces behind (']' :: rest)) : SpellsItems depth text [item] rest
  | more {depth : Nat} {text start behind others rest : List Char} {item : Literal}
      {items : List Literal} (hgap : Spaces text start) (hitem : Spells depth start item behind)
      (hcomma : Spaces behind (',' :: others)) (hitems : SpellsItems depth others items rest) :
      SpellsItems depth text (item :: items) rest

/-- The members of an object from a key on, up to its closing brace. -/
inductive SpellsMembers :
    Nat → List Char → Option (List (String × Literal)) → List Char → Prop where
  | last {depth : Nat} {text value start behind rest : List Char} {key : Option String}
      {member : Literal} (hkey : SpellsKey text key value) (hgap : Spaces value start)
      (hmember : Spells depth start member behind) (hclose : Spaces behind ('\x7d' :: rest)) :
      SpellsMembers depth text (addMember key member (some [])) rest
  | more {depth : Nat} {text value start behind others rest : List Char} {key : Option String}
      {member : Literal} {members : Option (List (String × Literal))}
      (hkey : SpellsKey text key value) (hgap : Spaces value start)
      (hmember : Spells depth start member behind) (hcomma : Spaces behind (',' :: others))
      (hmembers : SpellsMembers depth others members rest) :
      SpellsMembers depth text (addMember key member members) rest

end

/-- What a whole text says, with white space around it. -/
def SpellsText (depth : Nat) (text : List Char) (literal : Literal) : Prop :=
  ∃ start behind, Spaces text start ∧ Spells depth start literal behind ∧ Spaces behind []

/-- A whole text says something that has a value: every numeral in it is converted to a number
without overflow, and the halves of surrogate pairs in its strings come in pairs. -/
def Says (depth : Nat) (text : List Char) (value : Json) : Prop :=
  ∃ literal, SpellsText depth text literal ∧ literal.value? = some value

/-! ## White space -/

theorem spaces_skipGap (text : List Char) : Spaces text (skipGap text) :=
  ⟨text.takeWhile isGap, fun _ hc => List.mem_takeWhile_imp hc, List.takeWhile_append_dropWhile⟩

theorem Spaces.refl (text : List Char) : Spaces text text := ⟨[], List.forall_mem_nil _, rfl⟩

theorem Spaces.skipGap_eq {text rest : List Char} {c : Char} (h : Spaces text (c :: rest))
    (hc : isGap c = false) : skipGap text = c :: rest := by
  obtain ⟨gap, hgap, rfl⟩ := h
  rw [skipGap_append hgap, skipGap_cons hc]

theorem Spaces.trans {text middle rest : List Char} (h : Spaces text middle)
    (hrest : Spaces middle rest) : Spaces text rest := by
  obtain ⟨gap, hgap, rfl⟩ := h
  obtain ⟨more, hmore, rfl⟩ := hrest
  refine ⟨gap ++ more, fun c hc => ?_, List.append_assoc ..⟩
  rcases List.mem_append.1 hc with hc | hc
  · exact hgap c hc
  · exact hmore c hc

theorem Spaces.readValue_eq {text start : List Char} (h : Spaces text start) (fuel depth : Nat) :
    readValue fuel depth text = readValue fuel depth start := by
  obtain ⟨gap, hgap, rfl⟩ := h
  exact readValue_append hgap fuel depth start

theorem Spaces.follows {text rest : List Char} (h : Spaces text rest) (hrest : Follows rest) :
    Follows text := by
  obtain ⟨gap, hgap, rfl⟩ := h
  exact follows_append hgap hrest

/-! ## Numerals -/

/-- Digits are taken off as far as they go. -/
theorem splitDigits_spec (text : List Char) : ∃ digits rest, text = digits ++ rest ∧
    (∀ c ∈ digits, c.isDigit = true) ∧ splitDigits text = (digits.map digitValue, rest) :=
  ⟨text.takeWhile Char.isDigit, text.dropWhile Char.isDigit,
    List.takeWhile_append_dropWhile.symm, fun _ hc => List.mem_takeWhile_imp hc, rfl⟩

theorem spellsFraction_of_read {text rest : List Char} {fraction : Option (List Nat)}
    (h : readFraction text = some (fraction, rest)) : SpellsFraction text fraction rest := by
  rw [readFraction.eq_def] at h
  split at h
  · next inner =>
    obtain ⟨digits, behind, rfl, hdigits, hsplit⟩ := splitDigits_spec inner
    rw [hsplit] at h
    cases digits with
    | nil => cases h
    | cons d digits =>
      cases h
      exact .point ⟨List.cons_ne_nil d digits, hdigits⟩
  · cases h
    exact .absent

theorem spellsSign_splitSign (text : List Char) :
    SpellsSign text (splitSign text).1 (splitSign text).2 := by
  fun_cases splitSign text with
  | case1 rest => exact .minus
  | case2 rest => exact .plus
  | case3 => exact .absent

theorem spellsExponent_of_read {text rest : List Char} {exponent : Option Int}
    (h : readExponent text = some (exponent, rest)) : SpellsExponent text exponent rest := by
  cases text with
  | nil =>
    cases h
    exact .absent
  | cons c text =>
    rw [readExponent] at h
    split at h
    · next hmark =>
      obtain ⟨digits, behind, hbehind, hdigits, hsplit⟩ := splitDigits_spec (splitSign text).2
      have hsign := spellsSign_splitSign text
      rw [hbehind] at hsign
      dsimp only at h
      rw [hsplit] at h
      cases digits with
      | nil => cases h
      | cons d digits =>
        cases h
        exact .mark hmark hsign ⟨List.cons_ne_nil d digits, hdigits⟩
    · cases h
      exact .absent

theorem spellsUnsigned_of_read {negative : Bool} {text rest : List Char} {numeral : Numeral}
    (h : readUnsigned negative text = some (numeral, rest)) :
    SpellsUnsigned negative text numeral rest := by
  obtain ⟨whole, tail, fraction, after, exponent, hsplit, hne, hzero, hfraction, hexponent, rfl⟩ :=
    readUnsigned_eq_some_iff.1 h
  obtain ⟨digits, behind, rfl, hdigits, hsplit'⟩ := splitDigits_spec text
  obtain ⟨rfl, rfl⟩ := Prod.mk.inj (hsplit.symm.trans hsplit')
  have hdigits_ne : digits ≠ [] := by
    rintro rfl
    exact hne rfl
  refine .mk ⟨⟨hdigits_ne, hdigits⟩, fun hhead => ?_⟩ (spellsFraction_of_read hfraction)
    (spellsExponent_of_read hexponent)
  -- A zero in front of other digits is refused.
  obtain ⟨ds, rfl⟩ := List.head?_eq_some_iff.1 hhead
  cases ds with
  | nil => rfl
  | cons d ds => exact absurd rfl (hzero (digitValue d) (ds.map digitValue))

theorem spellsNumeral_of_read {text rest : List Char} {numeral : Numeral}
    (h : readNumeral text = some (numeral, rest)) : SpellsNumeral text numeral rest := by
  rw [readNumeral.eq_def] at h
  split at h
  · exact .negative (spellsUnsigned_of_read h)
  · exact .positive (spellsUnsigned_of_read h)

theorem SpellsFraction.read {text rest : List Char} {fraction : Option (List Nat)}
    (h : SpellsFraction text fraction rest)
    (hrest : ∀ c, rest.head? = some c → c.isDigit = false ∧ c ≠ '.') :
    readFraction text = some (fraction, rest) ∧
      ∀ c, text.head? = some c → c.isDigit = false := by
  cases h with
  | absent =>
    refine ⟨?_, fun c hc => (hrest c hc).1⟩
    rw [readFraction]
    rintro inner rfl
    exact (hrest '.' rfl).2 rfl
  | @point digits _ hdigits =>
    refine ⟨?_, fun c hc => by cases hc; rfl⟩
    obtain ⟨d, ds, rfl⟩ := List.exists_cons_of_ne_nil hdigits.1
    rw [readFraction, splitDigits_append hdigits.2 fun c hc => (hrest c hc).1]
    rfl

theorem SpellsSign.splitSign_eq {text rest : List Char} {negative : Bool} {c : Char}
    (h : SpellsSign text negative (c :: rest)) (hc : c.isDigit = true) :
    splitSign text = (negative, c :: rest) := by
  cases h with
  | absent =>
    rw [splitSign]
    · rintro inner heq
      cases heq
      cases hc
    · rintro inner heq
      cases heq
      cases hc
  | plus => rfl
  | minus => rfl

theorem SpellsExponent.read {text rest : List Char} {exponent : Option Int}
    (h : SpellsExponent text exponent rest) (hrest : StopsNumeral rest) :
    readExponent text = some (exponent, rest) ∧
      ∀ c, text.head? = some c → c.isDigit = false ∧ c ≠ '.' := by
  cases h with
  | absent =>
    refine ⟨?_, fun c hc => ⟨(hrest c hc).1, (hrest c hc).2.1⟩⟩
    cases text with
    | nil => rfl
    | cons c text =>
      obtain ⟨-, -, he, hE⟩ := hrest c rfl
      rw [readExponent, if_neg (not_or.2 ⟨he, hE⟩)]
  | @mark mark text digits _ negative hmark hsign hdigits =>
    refine ⟨?_, ?_⟩
    · obtain ⟨d, ds, rfl⟩ := List.exists_cons_of_ne_nil hdigits.1
      have hsplit : splitSign text = (negative, d :: ds ++ rest) :=
        hsign.splitSign_eq (hdigits.2 d List.mem_cons_self)
      rw [readExponent, if_pos hmark, hsplit]
      dsimp only
      rw [splitDigits_append hdigits.2 fun c hc => (hrest c hc).1]
      rfl
    · intro c hc
      cases hc
      rcases hmark with rfl | rfl
      all_goals exact ⟨rfl, by decide⟩

theorem SpellsUnsigned.read {negative : Bool} {text rest : List Char} {numeral : Numeral}
    (h : SpellsUnsigned negative text numeral rest) (hrest : StopsNumeral rest) :
    readUnsigned negative text = some (numeral, rest) := by
  cases h with
  | mk hwhole hfraction hexponent =>
    obtain ⟨hreadExponent, htail⟩ := hexponent.read hrest
    obtain ⟨hreadFraction, hbehind⟩ := hfraction.read htail
    obtain ⟨⟨hne, hdigits⟩, hzero⟩ := hwhole
    refine readUnsigned_eq_some_iff.2 ⟨_, _, _, _, _, splitDigits_append hdigits hbehind, ?_, ?_,
      hreadFraction, hreadExponent, rfl⟩
    · simpa using hne
    · intro d ds heq
      obtain ⟨c, more, rfl, hc, hmore⟩ := List.map_eq_cons_iff.1 heq
      obtain rfl := eq_zero_of_digitValue (hdigits c List.mem_cons_self) hc
      cases hzero rfl
      cases hmore

theorem SpellsUnsigned.head {negative : Bool} {text rest : List Char} {numeral : Numeral}
    (h : SpellsUnsigned negative text numeral rest) :
    ∃ c inner, text = c :: inner ∧ c.isDigit = true := by
  cases h with
  | mk hwhole hfraction hexponent =>
    obtain ⟨d, ds, rfl⟩ := List.exists_cons_of_ne_nil hwhole.1.1
    exact ⟨d, _, List.cons_append, hwhole.1.2 d List.mem_cons_self⟩

theorem SpellsNumeral.head {text rest : List Char} {numeral : Numeral}
    (h : SpellsNumeral text numeral rest) :
    ∃ c inner, text = c :: inner ∧ (c = '-' ∨ c.isDigit = true) := by
  cases h with
  | positive h =>
    obtain ⟨c, inner, htext, hc⟩ := h.head
    exact ⟨c, inner, htext, Or.inr hc⟩
  | negative h => exact ⟨'-', _, rfl, Or.inl rfl⟩

theorem SpellsNumeral.read {text rest : List Char} {numeral : Numeral}
    (h : SpellsNumeral text numeral rest) (hrest : StopsNumeral rest) :
    readNumeral text = some (numeral, rest) := by
  cases h with
  | positive h =>
    obtain ⟨c, inner, rfl, hc⟩ := h.head
    rw [readNumeral]
    · exact h.read hrest
    · rintro more heq
      cases heq
      cases hc
  | negative h => exact h.read hrest

/-! ## Strings and keys -/

theorem spellsCodes_of_read {text rest : List Char} {codes : List Nat}
    (h : readCodes text = some (codes, rest)) : SpellsCodes text codes rest := by
  fun_induction readCodes text generalizing rest codes with
  | case2 text =>
    cases h
    exact .close
  | case3 a b c d text code inner tail htail hcode ih =>
    cases h
    exact .code hcode (ih htail)
  | case5 letter text _ c inner tail htail hletter ih =>
    cases h
    exact .letter hletter (ih htail)
  | case8 c text hquote _ hslash hplain ih =>
    obtain ⟨⟨inner, tail⟩, htail, heq⟩ := Option.map_eq_some_iff.1 h
    cases heq
    obtain ⟨hne, hcontrol⟩ := not_or.1 hplain
    exact .plain hquote hne (Nat.not_lt.1 hcontrol) (ih htail)
  | _ => cases h

theorem SpellsCodes.read {text rest : List Char} {codes : List Nat}
    (h : SpellsCodes text codes rest) : readCodes text = some (codes, rest) := by
  induction h with
  | close => rw [readCodes]
  | plain hquote hslash hcontrol _ ih =>
    rw [readCodes_plain hquote hslash (Nat.not_lt.2 hcontrol), ih]
    rfl
  | @letter l c _ _ _ hl _ ih =>
    have hne : l ≠ 'u' := by
      rintro rfl
      cases hl
    rw [readCodes_letter hne hl, ih]
    rfl
  | code hcode _ ih =>
    rw [readCodes_code hcode, ih]
    rfl

theorem spellsString_iff {text rest : List Char} {value : Option String} :
    SpellsString text value rest ↔ readString text = some (value, rest) := by
  rw [readString, Option.map_eq_some_iff]
  constructor
  · rintro ⟨codes, hcodes, rfl⟩
    exact ⟨(codes, rest), hcodes.read, rfl⟩
  · rintro ⟨⟨codes, behind⟩, hcodes, heq⟩
    cases heq
    exact ⟨codes, spellsCodes_of_read hcodes, rfl⟩

theorem spellsKey_of_read {text rest : List Char} {key : Option String}
    (h : readKey text = some (key, rest)) : SpellsKey text key rest := by
  obtain ⟨inner, after, htext, hstring, hcolon⟩ := readKey_eq_some_iff.1 h
  exact ⟨inner, after, htext ▸ spaces_skipGap text, spellsString_iff.2 hstring,
    hcolon ▸ spaces_skipGap after⟩

theorem SpellsKey.read {text rest : List Char} {key : Option String}
    (h : SpellsKey text key rest) : readKey text = some (key, rest) := by
  obtain ⟨inner, after, hquote, hstring, hcolon⟩ := h
  exact readKey_eq_some_iff.2 ⟨inner, after, hquote.skipGap_eq (by decide),
    spellsString_iff.1 hstring, hcolon.skipGap_eq (by decide)⟩

/-! ## What is read is derived -/

theorem isSome_usable {α : Type} {make : α → Literal} {value : Option α}
    (h : (usable make value).value?.isSome = true) : ∃ a, value = some a := by
  cases value with
  | none => cases h
  | some a => exact ⟨a, rfl⟩

theorem isSome_arr {items : List Literal} (h : (Literal.arr items).value?.isSome = true) :
    (itemValues? items).isSome = true := by
  rwa [Literal.value?, Option.isSome_map] at h

theorem isSome_obj {members : List (String × Literal)}
    (h : (Literal.obj members).value?.isSome = true) : (memberValues? members).isSome = true := by
  rwa [Literal.value?, Option.isSome_map] at h

theorem isSome_item {item : Literal} {items : List Literal}
    (h : (itemValues? (item :: items)).isSome = true) :
    item.value?.isSome = true ∧ (itemValues? items).isSome = true := by
  rw [itemValues?] at h
  split at h
  · next hitem hitems =>
    rw [hitem, hitems]
    exact ⟨rfl, rfl⟩
  · cases h

theorem isSome_member {key : String} {member : Literal} {members : List (String × Literal)}
    (h : (memberValues? ((key, member) :: members)).isSome = true) :
    member.value?.isSome = true ∧ (memberValues? members).isSome = true := by
  rw [memberValues?] at h
  split at h
  · next hmember hmembers =>
    rw [hmember, hmembers]
    exact ⟨rfl, rfl⟩
  · cases h

theorem SpellsItems.of_spaces {depth : Nat} {text start rest : List Char} {items : List Literal}
    (h : SpellsItems depth start items rest) (hgap : Spaces text start) :
    SpellsItems depth text items rest := by
  cases h with
  | last hstart hitem hclose => exact .last (hgap.trans hstart) hitem hclose
  | more hstart hitem hcomma hitems => exact .more (hgap.trans hstart) hitem hcomma hitems

theorem SpellsMembers.of_spaces {depth : Nat} {text start rest : List Char}
    {members : Option (List (String × Literal))} (h : SpellsMembers depth start members rest)
    (hgap : Spaces text start) : SpellsMembers depth text members rest := by
  have hkey {key : Option String} {value : List Char} (h : SpellsKey start key value) :
      SpellsKey text key value := by
    obtain ⟨inner, after, hquote, hrest⟩ := h
    exact ⟨inner, after, hgap.trans hquote, hrest⟩
  cases h with
  | last h hstart hmember hclose => exact .last (hkey h) hstart hmember hclose
  | more h hstart hmember hcomma hmembers =>
    exact .more (hkey h) hstart hmember hcomma hmembers

/-- A container that has a value was opened within the bound. -/
theorem opens_of_isSome {depth : Nat} {container literal : Literal}
    (h : (if depth = 0 then Literal.unusable else container) = literal)
    (hvalue : literal.value?.isSome = true) : ∃ inner, depth = inner + 1 ∧ literal = container := by
  cases depth with
  | zero =>
    rw [← h] at hvalue
    cases hvalue
  | succ depth => exact ⟨depth, rfl, h.symm⟩

/-- The values that are read with this fuel and this bound are derived, if they have values. -/
def DerivesValues (fuel depth : Nat) : Prop :=
  ∀ {text literal rest}, readValue fuel depth text = some (literal, rest) →
    literal.value?.isSome = true → ∃ start, Spaces text start ∧ Spells depth start literal rest

/-- So are the items. -/
def DerivesItems (fuel depth : Nat) : Prop :=
  ∀ {text items rest}, readItems fuel depth text = some (items, rest) →
    (itemValues? items).isSome = true → SpellsItems depth text items rest

/-- So are the members, if every key is usable. -/
def DerivesMembers (fuel depth : Nat) : Prop :=
  ∀ {text members rest}, readMembers fuel depth text = some (some members, rest) →
    (memberValues? members).isSome = true → SpellsMembers depth text (some members) rest

theorem derivesValues_succ {fuel depth : Nat} (hitems : DerivesItems fuel (depth - 1))
    (hmembers : DerivesMembers fuel (depth - 1)) : DerivesValues (fuel + 1) depth := by
  intro text literal rest h hvalue
  refine ⟨skipGap text, spaces_skipGap text, ?_⟩
  rw [readValue] at h
  split at h
  · next inner htext =>
    cases h
    rw [htext]
    exact .null
  · next inner htext =>
    cases h
    rw [htext]
    exact .yes
  · next inner htext =>
    cases h
    rw [htext]
    exact .no
  · next inner htext =>
    obtain ⟨⟨value, behind⟩, hstring, heq⟩ := Option.map_eq_some_iff.1 h
    cases heq
    rw [htext]
    exact .str (spellsString_iff.2 hstring)
  · next inner htext =>
    obtain ⟨⟨items, behind⟩, hread, heq⟩ := Option.map_eq_some_iff.1 h
    obtain ⟨hliteral, rfl⟩ := Prod.mk.inj heq
    obtain ⟨depth, rfl, rfl⟩ := opens_of_isSome hliteral hvalue
    rw [htext]
    split at hread
    · next hclose =>
      cases hread
      exact .emptyArr (hclose ▸ spaces_skipGap inner)
    · have hspells := hitems hread (isSome_arr hvalue)
      exact .arr (hspells.of_spaces (spaces_skipGap inner))
  · next inner htext =>
    obtain ⟨⟨members, behind⟩, hread, heq⟩ := Option.map_eq_some_iff.1 h
    obtain ⟨hliteral, rfl⟩ := Prod.mk.inj heq
    obtain ⟨depth, rfl, rfl⟩ := opens_of_isSome hliteral hvalue
    rw [htext]
    split at hread
    · next hclose =>
      cases hread
      exact .emptyObj (hclose ▸ spaces_skipGap inner)
    · obtain ⟨entries, rfl⟩ := isSome_usable hvalue
      have hspells := hmembers hread (isSome_obj hvalue)
      exact .obj (hspells.of_spaces (spaces_skipGap inner))
  · obtain ⟨⟨numeral, behind⟩, hread, heq⟩ := Option.map_eq_some_iff.1 h
    cases heq
    exact .num (spellsNumeral_of_read hread)

theorem derivesItems_succ {fuel depth : Nat} (hvalue : DerivesValues fuel depth)
    (hitems : DerivesItems fuel depth) : DerivesItems (fuel + 1) depth := by
  intro text items rest h hsome
  rw [readItems] at h
  split at h
  · cases h
  · next item behind hitem =>
    have hgap := spaces_skipGap behind
    split at h
    · next hclose =>
      cases h
      obtain ⟨start, hstart, hspells⟩ := hvalue hitem (isSome_item hsome).1
      exact .last hstart hspells (hclose ▸ hgap)
    · next hcomma =>
      obtain ⟨⟨others, tail⟩, hothers, heq⟩ := Option.map_eq_some_iff.1 h
      cases heq
      obtain ⟨start, hstart, hspells⟩ := hvalue hitem (isSome_item hsome).1
      exact .more hstart hspells (hcomma ▸ hgap) (hitems hothers (isSome_item hsome).2)
    · cases h

theorem derivesMembers_succ {fuel depth : Nat} (hvalue : DerivesValues fuel depth)
    (hmembers : DerivesMembers fuel depth) : DerivesMembers (fuel + 1) depth := by
  intro text members rest h hsome
  rw [readMembers] at h
  split at h
  · cases h
  · next key value hkey =>
    split at h
    · cases h
    · next member behind hmember =>
      have hgap := spaces_skipGap behind
      split at h
      · next hclose =>
        obtain ⟨hadded, rfl⟩ := Prod.mk.inj (Option.some.inj h)
        obtain ⟨name, others, hothers, rfl⟩ := addMember_eq_some hadded
        obtain ⟨start, hstart, hspells⟩ := hvalue hmember (isSome_member hsome).1
        rw [← hadded]
        exact .last (spellsKey_of_read hkey) hstart hspells (hclose ▸ hgap)
      · next hcomma =>
        obtain ⟨⟨all, tail⟩, hread, heq⟩ := Option.map_eq_some_iff.1 h
        obtain ⟨hadded, rfl⟩ := Prod.mk.inj heq
        obtain ⟨name, others, rfl, rfl⟩ := addMember_eq_some hadded
        obtain ⟨start, hstart, hspells⟩ := hvalue hmember (isSome_member hsome).1
        rw [← hadded]
        exact .more (spellsKey_of_read hkey) hstart hspells (hcomma ▸ hgap)
          (hmembers hread (isSome_member hsome).2)
      · cases h

/-- **What is read and has a value is derived by the grammar**; so are the items and members that
are read. -/
theorem derives_of_read (fuel depth : Nat) :
    DerivesValues fuel depth ∧ DerivesItems fuel depth ∧ DerivesMembers fuel depth := by
  induction fuel generalizing depth with
  | zero =>
    refine ⟨fun h => ?_, fun h => ?_, fun h => ?_⟩
    · rw [readValue] at h
      cases h
    · rw [readItems] at h
      cases h
    · rw [readMembers] at h
      cases h
  | succ fuel ih =>
    obtain ⟨hvalue, hitems, hmembers⟩ := ih depth
    -- A container's items and members are read one level further in.
    obtain ⟨-, hinnerItems, hinnerMembers⟩ := ih (depth - 1)
    exact ⟨derivesValues_succ hinnerItems hinnerMembers, derivesItems_succ hvalue hitems,
      derivesMembers_succ hvalue hmembers⟩

/-! ## What a rule leaves over -/

theorem Spaces.suffix {text rest : List Char} (h : Spaces text rest) : rest <:+ text := by
  obtain ⟨gap, -, rfl⟩ := h
  exact List.suffix_append gap rest

theorem SpellsFraction.suffix {text rest : List Char} {fraction : Option (List Nat)}
    (h : SpellsFraction text fraction rest) : rest <:+ text := by
  cases h with
  | absent => exact List.suffix_rfl
  | point => exact (List.suffix_append ..).trans (List.suffix_cons ..)

theorem SpellsSign.suffix {text rest : List Char} {negative : Bool}
    (h : SpellsSign text negative rest) : rest <:+ text := by
  cases h with
  | absent => exact List.suffix_rfl
  | plus | minus => exact List.suffix_cons ..

theorem SpellsExponent.suffix {text rest : List Char} {exponent : Option Int}
    (h : SpellsExponent text exponent rest) : rest <:+ text := by
  cases h with
  | absent => exact List.suffix_rfl
  | mark _ hsign => exact (List.suffix_append ..).trans (hsign.suffix.trans (List.suffix_cons ..))

theorem SpellsNumeral.suffix {text rest : List Char} {numeral : Numeral}
    (h : SpellsNumeral text numeral rest) : rest <:+ text := by
  have hunsigned {negative : Bool} {text : List Char}
      (h : SpellsUnsigned negative text numeral rest) : rest <:+ text := by
    cases h with
    | mk _ hfraction hexponent =>
      exact (hexponent.suffix.trans hfraction.suffix).trans (List.suffix_append ..)
  cases h with
  | positive h => exact hunsigned h
  | negative h => exact (hunsigned h).trans (List.suffix_cons ..)

theorem SpellsCodes.suffix {text rest : List Char} {codes : List Nat}
    (h : SpellsCodes text codes rest) : rest <:+ text := by
  induction h with
  | close => exact List.suffix_cons ..
  | plain _ _ _ _ ih => exact ih.trans (List.suffix_cons ..)
  | letter _ _ ih => exact ih.trans (List.suffix_append [_, _] _)
  | code _ _ ih => exact ih.trans (List.suffix_append [_, _, _, _, _, _] _)

theorem SpellsString.suffix {text rest : List Char} {value : Option String}
    (h : SpellsString text value rest) : rest <:+ text := by
  obtain ⟨codes, hcodes, -⟩ := h
  exact hcodes.suffix

theorem SpellsKey.suffix {text rest : List Char} {key : Option String}
    (h : SpellsKey text key rest) : rest <:+ text := by
  obtain ⟨inside, behind, hquote, hstring, hcolon⟩ := h
  have hinside : behind <:+ text :=
    (hstring.suffix.trans (List.suffix_cons ..)).trans hquote.suffix
  exact ((List.suffix_cons ..).trans hcolon.suffix).trans hinside

mutual

theorem Spells.suffix {depth : Nat} {text rest : List Char} {literal : Literal} :
    Spells depth text literal rest → rest <:+ text
  | .null => List.suffix_append ['n', 'u', 'l', 'l'] rest
  | .yes => List.suffix_append ['t', 'r', 'u', 'e'] rest
  | .no => List.suffix_append ['f', 'a', 'l', 's', 'e'] rest
  | .num h => h.suffix
  | .str h => h.suffix.trans (List.suffix_cons ..)
  | .emptyArr h => ((List.suffix_cons ..).trans h.suffix).trans (List.suffix_cons ..)
  | .arr h => h.suffix.trans (List.suffix_cons ..)
  | .emptyObj h => ((List.suffix_cons ..).trans h.suffix).trans (List.suffix_cons ..)
  | .obj h => h.suffix.trans (List.suffix_cons ..)

theorem SpellsItems.suffix {depth : Nat} {text rest : List Char} {items : List Literal} :
    SpellsItems depth text items rest → rest <:+ text
  | .last hgap hitem hclose =>
    ((List.suffix_cons ..).trans hclose.suffix).trans (hitem.suffix.trans hgap.suffix)
  | .more hgap hitem hcomma hitems =>
    (hitems.suffix.trans ((List.suffix_cons ..).trans hcomma.suffix)).trans
      (hitem.suffix.trans hgap.suffix)

theorem SpellsMembers.suffix {depth : Nat} {text rest : List Char}
    {members : Option (List (String × Literal))} :
    SpellsMembers depth text members rest → rest <:+ text
  | .last hkey hgap hmember hclose =>
    ((List.suffix_cons ..).trans hclose.suffix).trans
      (hmember.suffix.trans (hgap.suffix.trans hkey.suffix))
  | .more hkey hgap hmember hcomma hmembers =>
    (hmembers.suffix.trans ((List.suffix_cons ..).trans hcomma.suffix)).trans
      (hmember.suffix.trans (hgap.suffix.trans hkey.suffix))

end

/-! ## What is derived is read -/

theorem Spells.head {depth : Nat} {text rest : List Char} {literal : Literal}
    (h : Spells depth text literal rest) :
    ∃ c inner, text = c :: inner ∧ isGap c = false ∧ c ≠ ']' := by
  cases h with
  | num h =>
    obtain ⟨c, inner, htext, hc⟩ := h.head
    exact ⟨c, inner, htext, isGap_of_head hc, ne_of_head hc (by decide) (by decide)⟩
  | _ => exact ⟨_, _, rfl, by decide, by decide⟩

/-- No closing bracket stands before an item. -/
theorem SpellsItems.skipGap_ne {depth : Nat} {text rest : List Char} {items : List Literal}
    (h : SpellsItems depth text items rest) (behind : List Char) :
    skipGap text ≠ ']' :: behind := by
  have hitem {start rest : List Char} {item : Literal} (hgap : Spaces text start)
      (hspells : Spells depth start item rest) : skipGap text ≠ ']' :: behind := by
    obtain ⟨c, inner, rfl, hc, hclose⟩ := hspells.head
    rw [hgap.skipGap_eq hc]
    exact fun heq => hclose (List.cons.inj heq).1
  cases h with
  | last hgap hspells => exact hitem hgap hspells
  | more hgap hspells => exact hitem hgap hspells

/-- No closing brace stands before a member. -/
theorem SpellsMembers.skipGap_ne {depth : Nat} {text rest : List Char}
    {members : Option (List (String × Literal))} (h : SpellsMembers depth text members rest)
    (behind : List Char) : skipGap text ≠ '\x7d' :: behind := by
  have hkey {key : Option String} {value : List Char} (h : SpellsKey text key value) :
      skipGap text ≠ '\x7d' :: behind := by
    obtain ⟨inside, after, hquote, -⟩ := h
    rw [hquote.skipGap_eq (by decide)]
    exact fun heq => absurd (List.cons.inj heq).1 (by decide)
  cases h with
  | last h => exact hkey h
  | more h => exact hkey h

theorem readItems_skipGap (fuel depth : Nat) (text : List Char) :
    readItems fuel depth (skipGap text) = readItems fuel depth text := by
  obtain ⟨gap, hgap, heq⟩ := spaces_skipGap text
  rw [← readItems_append hgap, heq]

theorem readMembers_skipGap (fuel depth : Nat) (text : List Char) :
    readMembers fuel depth (skipGap text) = readMembers fuel depth text := by
  obtain ⟨gap, hgap, heq⟩ := spaces_skipGap text
  rw [← readMembers_append hgap, heq]

-- The induction is on the derivation. The fuel runs ahead of the text by two for every character,
-- one for the part that begins there and one for the value in it.
mutual

/-- **What the grammar derives is read**, where something stands behind that ends a value. -/
theorem Spells.read {depth : Nat} {text rest : List Char} {literal : Literal} :
    Spells depth text literal rest → ∀ fuel, 2 * text.length ≤ fuel → Follows rest →
      readValue (fuel + 1) depth text = some (literal, rest)
  | .null, _, _, _ => rfl
  | .yes, _, _, _ => rfl
  | .no, _, _, _ => rfl
  | .num h, _, _, hrest => by
    obtain ⟨c, inner, rfl, hc⟩ := h.head
    rw [readValue_numeral hc, h.read hrest.stopsNumeral]
    rfl
  | .str h, _, _, _ => by
    rw [readValue_quote (skipGap_cons (by decide) _), spellsString_iff.1 h]
    rfl
  | .emptyArr h, _, _, _ => by
    rw [readValue_emptyArray (skipGap_cons (by decide) _) (h.skipGap_eq (by decide)),
      if_neg (Nat.succ_ne_zero _)]
  | .arr h, fuel, hfuel, _ => by
    rw [List.length_cons] at hfuel
    obtain ⟨fuel, rfl⟩ : ∃ f, fuel = f + 1 := ⟨fuel - 1, by omega⟩
    rw [readValue_items (skipGap_cons (by decide) _) h.skipGap_ne, readItems_skipGap,
      Nat.add_sub_cancel, h.read fuel (by omega)]
    rfl
  | .emptyObj h, _, _, _ => by
    rw [readValue_emptyObject (skipGap_cons (by decide) _) (h.skipGap_eq (by decide)),
      if_neg (Nat.succ_ne_zero _)]
  | .obj h, fuel, hfuel, _ => by
    rw [List.length_cons] at hfuel
    obtain ⟨fuel, rfl⟩ : ∃ f, fuel = f + 1 := ⟨fuel - 1, by omega⟩
    rw [readValue_members (skipGap_cons (by decide) _) h.skipGap_ne, readMembers_skipGap,
      Nat.add_sub_cancel, h.read fuel (by omega)]
    rfl

theorem SpellsItems.read {depth : Nat} {text rest : List Char} {items : List Literal} :
    SpellsItems depth text items rest → ∀ fuel, 2 * text.length + 1 ≤ fuel →
      readItems (fuel + 1) depth text = some (items, rest)
  | .last hgap hitem hclose, fuel, hfuel => by
    have hlength := hgap.suffix.length_le
    obtain ⟨fuel, rfl⟩ : ∃ f, fuel = f + 1 := ⟨fuel - 1, by omega⟩
    rw [readItems, hgap.readValue_eq,
      hitem.read fuel (by omega) (hclose.follows (follows_cons (by decide) _))]
    simp only [hclose.skipGap_eq (by decide)]
  | .more hgap hitem hcomma hitems, fuel, hfuel => by
    have hlength := hgap.suffix.length_le
    have hothers := (hcomma.suffix.trans (hitem.suffix.trans hgap.suffix)).length_le
    rw [List.length_cons] at hothers
    obtain ⟨fuel, rfl⟩ : ∃ f, fuel = f + 1 := ⟨fuel - 1, by omega⟩
    rw [readItems, hgap.readValue_eq,
      hitem.read fuel (by omega) (hcomma.follows (follows_cons (by decide) _))]
    simp only [hcomma.skipGap_eq (by decide), hitems.read fuel (by omega), Option.map_some]

theorem SpellsMembers.read {depth : Nat} {text rest : List Char}
    {members : Option (List (String × Literal))} :
    SpellsMembers depth text members rest → ∀ fuel, 2 * text.length + 1 ≤ fuel →
      readMembers (fuel + 1) depth text = some (members, rest)
  | .last hkey hgap hmember hclose, fuel, hfuel => by
    have hlength := (hgap.suffix.trans hkey.suffix).length_le
    obtain ⟨fuel, rfl⟩ : ∃ f, fuel = f + 1 := ⟨fuel - 1, by omega⟩
    have hread := hmember.read fuel (by omega) (hclose.follows (follows_cons (by decide) _))
    rw [readMembers, hkey.read]
    simp only [hgap.readValue_eq, hread, hclose.skipGap_eq (by decide)]
  | .more hkey hgap hmember hcomma hmembers, fuel, hfuel => by
    have hvalue := hgap.suffix.trans hkey.suffix
    have hlength := hvalue.length_le
    have hothers := (hcomma.suffix.trans (hmember.suffix.trans hvalue)).length_le
    rw [List.length_cons] at hothers
    obtain ⟨fuel, rfl⟩ : ∃ f, fuel = f + 1 := ⟨fuel - 1, by omega⟩
    have hread := hmember.read fuel (by omega) (hcomma.follows (follows_cons (by decide) _))
    rw [readMembers, hkey.read]
    simp only [hgap.readValue_eq, hread, hcomma.skipGap_eq (by decide),
      hmembers.read fuel (by omega), Option.map_some]

end

/-! ## Whole texts -/

theorem SpellsText.read {depth : Nat} {text : List Char} {literal : Literal}
    (h : SpellsText depth text literal) : readText depth text = some literal := by
  obtain ⟨start, behind, hgap, hspells, hend⟩ := h
  have hlength := hgap.suffix.length_le
  have hrest : Follows behind := hend.follows (by intro c hc; cases hc)
  obtain ⟨gap, hbehind, rfl⟩ := hend
  rw [readText, hgap.readValue_eq, hspells.read _ (by omega) hrest]
  simp only [skipGap_append hbehind]
  rfl

theorem spellsText_of_read {depth : Nat} {text : List Char} {literal : Literal}
    (h : readText depth text = some literal) (hvalue : literal.value?.isSome = true) :
    SpellsText depth text literal := by
  rw [readText] at h
  split at h
  · next found behind hread =>
    split_ifs at h with hempty
    cases h
    obtain ⟨start, hstart, hspells⟩ := (derives_of_read _ depth).1 hread hvalue
    refine ⟨start, behind, hstart, hspells, ?_⟩
    exact List.isEmpty_iff.1 hempty ▸ spaces_skipGap behind
  · cases h

/-- A text that begins with an opening bracket says an array. -/
theorem SpellsText.exists_items {depth : Nat} {text : List Char} {literal : Literal}
    (h : SpellsText depth ('[' :: text) literal) : ∃ items, literal = .arr items := by
  obtain ⟨start, behind, ⟨gap, hgap, heq⟩, hspells, -⟩ := h
  cases gap with
  | nil =>
    obtain rfl : start = '[' :: text := heq
    cases hspells with
    | num h =>
      obtain ⟨c, inner, htext, hc⟩ := h.head
      obtain ⟨rfl, -⟩ := List.cons.inj htext
      exact absurd hc (by decide)
    | emptyArr => exact ⟨[], rfl⟩
    | arr => exact ⟨_, rfl⟩
  | cons c gap =>
    obtain ⟨rfl, -⟩ := List.cons.inj heq
    exact absurd (hgap _ List.mem_cons_self) (by decide)

theorem Says.exists_items {depth : Nat} {text : List Char} {value : Json}
    (h : Says depth ('[' :: text) value) : ∃ items, value = .arr items := by
  obtain ⟨literal, hspells, hvalue⟩ := h
  obtain ⟨items, rfl⟩ := hspells.exists_items
  obtain ⟨values, -, rfl⟩ := Option.map_eq_some_iff.1 hvalue
  exact ⟨values, rfl⟩

end JsonGrammar

/-- **A text has a value just when the grammar derives that it says this value**, nested within the
bound. -/
theorem Json.parse?_eq_some_iff {text : String} {value : Json} :
    Json.parse? text = some value ↔ JsonGrammar.Says maxDepth text.toList value := by
  rw [Json.parse?, Option.bind_eq_some_iff]
  refine exists_congr fun literal => and_congr_left fun hvalue => ?_
  exact ⟨fun h => JsonGrammar.spellsText_of_read h (hvalue ▸ rfl), JsonGrammar.SpellsText.read⟩

end PageTree
