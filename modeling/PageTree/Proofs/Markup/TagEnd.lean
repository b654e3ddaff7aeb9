import PageTree.Markup.Token
import PageTree.Proofs.Text.Cutting

/-!
# Where tokens of markup end

The reader takes up the attributes of a tag in rounds and a text in tokens. Each round and each
token takes up at least one character and leaves an end part of the text, so both loops come to an
end. A loop that fails does so because of a construct without its end, and what that means can be
said without the reader: for a comment, a declaration and a closing tag by the mark that is
missing, and for an opening tag by an automaton that only follows in which part of the tag a
character stands, since an angle bracket within quotes does not end the tag.

## Main definitions

* `MarkupReader.TagRound`, `MarkupReader.readRound`: one round of reading attributes
* `MarkupReader.Region`, `MarkupReader.behindTag?`: the parts of a tag, and the text behind it
* `Unterminated.Begins`: a text begins with a construct that has no end

## Main results

* `MarkupReader.readRound_behind`, `MarkupReader.readFirst_behind`: rounds and tokens take up text
* `MarkupReader.behindTag?_eq_readAttributes`: where the attributes end
* `MarkupReader.readFirst_eq_error_iff`: a token fails exactly when a construct has no end
-/

namespace PageTree

namespace MarkupReader

/-- The first text is the second one without some characters at its start. -/
def IsBehind (rest text : List Char) : Prop := ∃ piece, piece ≠ [] ∧ piece ++ rest = text

theorem isBehind_cons (c : Char) {rest text : List Char} (h : rest <:+ text) :
    IsBehind rest (c :: text) := by
  obtain ⟨piece, rfl⟩ := h
  exact ⟨c :: piece, List.cons_ne_nil _ _, rfl⟩

theorem IsBehind.suffix {rest text : List Char} (h : IsBehind rest text) : rest <:+ text := by
  obtain ⟨piece, -, rfl⟩ := h
  exact List.suffix_append piece rest

theorem IsBehind.length_lt {rest text : List Char} (h : IsBehind rest text) :
    rest.length < text.length := by
  obtain ⟨piece, hne, rfl⟩ := h
  have hpos := List.length_pos_iff.2 hne
  simp only [List.length_append]
  omega

theorem IsBehind.of_suffix {rest middle text : List Char} (h : IsBehind rest middle)
    (hmiddle : middle <:+ text) : IsBehind rest text := by
  obtain ⟨piece, hne, rfl⟩ := h
  obtain ⟨before, rfl⟩ := hmiddle
  exact ⟨before ++ piece, by simp [hne], List.append_assoc ..⟩

theorem IsBehind.trans_suffix {rest middle text : List Char} (h : IsBehind middle text)
    (hrest : rest <:+ middle) : IsBehind rest text := by
  obtain ⟨piece, hne, rfl⟩ := h
  obtain ⟨before, rfl⟩ := hrest
  exact ⟨piece ++ before, by simp [hne], List.append_assoc ..⟩

/-! ## Rounds of reading attributes -/

/-- What one round of reading attributes comes to; `α` is the type of places in the text. -/
inductive TagRound (α : Type) where
  /-- The text ends within the tag. -/
  | cut
  /-- The tag ends, perhaps by a slash. -/
  | closed (bySlash : Bool) (next : α)
  /-- A slash or an equals sign is passed over. -/
  | stray (next : α)
  /-- An attribute is read. -/
  | found (name value : String) (next : α)
  deriving DecidableEq

namespace TagRound

variable {α β : Type}

/-- The same round told by other places. -/
def map (f : α → β) : TagRound α → TagRound β
  | cut => cut
  | closed bySlash next => closed bySlash (f next)
  | stray next => stray (f next)
  | found name value next => found name value (f next)

/-- The place behind a round. -/
def next? : TagRound α → Option α
  | cut => none
  | closed _ next => some next
  | stray next => some next
  | found _ _ next => some next

/-- The place behind a round that does not end the tag. -/
def onward? : TagRound α → Option α
  | cut => none
  | closed _ _ => none
  | stray next => some next
  | found _ _ next => some next

theorem next?_of_onward? {r : TagRound α} {place : α} (h : r.onward? = some place) :
    r.next? = some place := by
  cases r with
  | cut => cases h
  | closed bySlash next => cases h
  | stray next => exact h
  | found name value next => exact h

@[simp] theorem next?_map (f : α → β) (r : TagRound α) : (r.map f).next? = r.next?.map f := by
  cases r <;> rfl

@[simp] theorem onward?_map (f : α → β) (r : TagRound α) :
    (r.map f).onward? = r.onward?.map f := by
  cases r <;> rfl

end TagRound

/-- The round at a text that does not begin with white space. -/
def roundAt : List Char → TagRound (List Char)
  | [] => .cut
  | '>' :: rest => .closed false rest
  | '/' :: '>' :: rest => .closed true rest
  | c :: rest =>
    if c = '/' ∨ c = '=' then .stray rest
    else
      match readAssignment (rest.dropWhile (!endsName ·)) with
      | none => .cut
      | some (value, behind) =>
        .found (String.ofList (Text.lower (c :: rest.takeWhile (!endsName ·)))) value behind

/-- One round of reading attributes. -/
def readRound (text : List Char) : TagRound (List Char) := roundAt (text.dropWhile isGap)

/-- **Reading attributes goes round by round.** -/
theorem readAttributes_succ (fuel : Nat) (m : OrderedMap String) (text : List Char) :
    readAttributes (fuel + 1) m text =
      match readRound text with
      | .cut => none
      | .closed bySlash rest => some (m, bySlash, rest)
      | .stray rest => readAttributes fuel m rest
      | .found name value rest => readAttributes fuel (OrderedMap.setNew name value m) rest := by
  rw [readAttributes, readRound]
  generalize text.dropWhile isGap = behind
  split
  · rfl
  · rfl
  · rfl
  · next c rest hgt hslash =>
    rw [roundAt]
    · by_cases hc : c = '/' ∨ c = '='
      · rw [if_pos hc, if_pos hc]
      · rw [if_neg hc, if_neg hc]
        cases readAssignment (rest.dropWhile (!endsName ·)) with
        | none => rfl
        | some p => rfl
    · exact hgt
    · exact hslash

theorem readAttributeValue_suffix {text rest : List Char} {value : String}
    (h : readAttributeValue text = some (value, rest)) : rest <:+ text := by
  rw [readAttributeValue.eq_def] at h
  split at h
  · next quoted =>
    obtain ⟨⟨inside, behind⟩, hcut, heq⟩ := Option.map_eq_some_iff.1 h
    cases heq
    exact (Text.suffix_of_cut? hcut).trans (List.suffix_cons ..)
  · next quoted =>
    obtain ⟨⟨inside, behind⟩, hcut, heq⟩ := Option.map_eq_some_iff.1 h
    cases heq
    exact (Text.suffix_of_cut? hcut).trans (List.suffix_cons ..)
  · cases h
    exact List.dropWhile_suffix _

theorem readAssignment_suffix {text rest : List Char} {value : String}
    (h : readAssignment text = some (value, rest)) : rest <:+ text := by
  have hgap : text.dropWhile isGap <:+ text := List.dropWhile_suffix _
  rw [readAssignment] at h
  split at h
  · next behind heq =>
    rw [heq] at hgap
    exact (readAttributeValue_suffix h).trans
      ((List.dropWhile_suffix _).trans ((List.suffix_cons ..).trans hgap))
  · cases h
    exact hgap

/-- **A round takes up some of the text.** -/
theorem readRound_behind {text rest : List Char} (h : (readRound text).next? = some rest) :
    IsBehind rest text := by
  have hgap : text.dropWhile isGap <:+ text := List.dropWhile_suffix _
  rw [readRound, roundAt.eq_def] at h
  split at h
  · cases h
  · next behind heq =>
    cases h
    exact (isBehind_cons '>' (List.suffix_refl rest)).of_suffix (heq ▸ hgap)
  · next behind heq =>
    cases h
    exact (isBehind_cons '/' (List.suffix_cons ..)).of_suffix (heq ▸ hgap)
  · next c behind _ _ heq =>
    rw [heq] at hgap
    split at h
    · cases h
      exact (isBehind_cons c (List.suffix_refl rest)).of_suffix hgap
    · cases hvalue : readAssignment (behind.dropWhile (!endsName ·)) with
      | none =>
        rw [hvalue] at h
        cases h
      | some p =>
        rw [hvalue] at h
        cases h
        have hsuffix : p.2 <:+ behind.dropWhile (!endsName ·) := readAssignment_suffix hvalue
        exact (isBehind_cons c (hsuffix.trans (List.dropWhile_suffix _))).of_suffix hgap

theorem readAttributes_behind {fuel : Nat} {m m' : OrderedMap String} {text rest : List Char}
    {bySlash : Bool} (h : readAttributes fuel m text = some (m', bySlash, rest)) :
    IsBehind rest text := by
  induction fuel generalizing m text with
  | zero => cases h
  | succ fuel ih =>
    rw [readAttributes_succ] at h
    cases hround : readRound text with
    | cut =>
      rw [hround] at h
      cases h
    | closed bySlash' behind =>
      rw [hround] at h
      cases h
      exact readRound_behind (by rw [hround]; rfl)
    | stray behind =>
      rw [hround] at h
      exact (ih h).of_suffix (readRound_behind (by rw [hround]; rfl)).suffix
    | found name value behind =>
      rw [hround] at h
      exact (ih h).of_suffix (readRound_behind (by rw [hround]; rfl)).suffix

/-! ## Where a tag ends -/

/-- The parts of an opening tag behind its name. -/
inductive Region where
  /-- Between attributes. -/
  | between
  /-- In the name of an attribute, or in the white space behind it. -/
  | named
  /-- Behind an equals sign. -/
  | assigned
  /-- In a value without quotes. -/
  | bare
  /-- In a value within quotes of this kind. -/
  | quoted (quote : Char)
  deriving DecidableEq

/-- The part of the tag behind a character, or none when the character ends the tag. -/
def Region.step? : Region → Char → Option Region
  | quoted quote, c => some (if c = quote then between else quoted quote)
  | between, c =>
    if c = '>' then none
    else if isGap c ∨ c = '/' ∨ c = '=' then some between
    else some named
  | named, c =>
    if c = '>' then none
    else if c = '=' then some assigned
    else if c = '/' then some between
    else some named
  | assigned, c =>
    if c = '>' then none
    else if isGap c then some assigned
    else if c = '"' ∨ c = '\'' then some (quoted c)
    else some bare
  | bare, c =>
    if c = '>' then none
    else if isGap c then some between
    else some bare

/-- The text behind a tag, none if the text ends within the tag. -/
def behindTag? : Region → List Char → Option (List Char)
  | _, [] => none
  | region, c :: text =>
    match region.step? c with
    | none => some text
    | some region => behindTag? region text

theorem behindTag?_cons_some {region : Region} (region' : Region) {c : Char}
    (h : region.step? c = some region') (text : List Char) :
    behindTag? region (c :: text) = behindTag? region' text := by
  rw [behindTag?, h]

/-- Characters that keep the region can be left out. -/
theorem behindTag?_dropWhile {region : Region} {p : Char → Bool}
    (h : ∀ c, p c = true → region.step? c = some region) (text : List Char) :
    behindTag? region (text.dropWhile p) = behindTag? region text := by
  induction text with
  | nil => rfl
  | cons c text ih =>
    cases hp : p c with
    | true => rw [List.dropWhile_cons_of_pos hp, ih, behindTag?_cons_some region (h c hp)]
    | false => rw [List.dropWhile_cons_of_neg (by simp [hp])]

/-- A value within quotes ends at the next quote of its kind. -/
theorem behindTag?_quoted (quote : Char) (text : List Char) :
    behindTag? (.quoted quote) text =
      (Text.cut? [quote] text).bind fun p => behindTag? .between p.2 := by
  induction text with
  | nil => rfl
  | cons c text ih =>
    by_cases hc : c = quote
    · have hcut : Text.cut? [quote] (c :: text) = some ([], text) := by
        rw [hc]
        exact Text.cut?_singleton_append text List.not_mem_nil
      rw [hcut, Option.bind_some, behindTag?_cons_some .between]
      rw [Region.step?, if_pos hc]
    · rw [behindTag?_cons_some (.quoted quote), ih, Text.cut?,
        Text.isPrefixOf?_singleton, if_neg (Ne.symm hc)]
      · cases Text.cut? [quote] text <;> rfl
      · rw [Region.step?, if_neg hc]

theorem isGap_of_dropWhile {text rest : List Char} {c : Char}
    (h : text.dropWhile isGap = c :: rest) : isGap c = false := by
  have hne : text.dropWhile isGap ≠ [] := by simp [h]
  simpa [h] using List.head_dropWhile_not isGap hne

theorem behindTag?_value (text : List Char) :
    behindTag? .assigned (text.dropWhile isGap) =
      (readAttributeValue (text.dropWhile isGap)).bind fun p => behindTag? .between p.2 := by
  have hfirst : ∀ c rest, text.dropWhile isGap = c :: rest → isGap c = false :=
    fun c rest => isGap_of_dropWhile
  generalize text.dropWhile isGap = value at hfirst
  rw [readAttributeValue.eq_def]
  split
  · next rest =>
    rw [behindTag?_cons_some (.quoted '"') (by decide), behindTag?_quoted]
    cases Text.cut? ['"'] rest <;> rfl
  · next rest =>
    rw [behindTag?_cons_some (.quoted '\'') (by decide), behindTag?_quoted]
    cases Text.cut? ['\''] rest <;> rfl
  · next hdouble hsingle =>
    show _ = behindTag? .between (value.dropWhile fun c => !isGap c && c != '>')
    -- A value without quotes runs up to white space or to the end of the tag.
    have hbare : ∀ text, behindTag? .bare text =
        behindTag? .between (text.dropWhile fun c => !isGap c && c != '>') := by
      intro text
      induction text with
      | nil => rfl
      | cons c text ih =>
        by_cases hgt : c = '>'
        · subst hgt
          rfl
        · cases hgap : isGap c with
          | true =>
            rw [List.dropWhile_cons_of_neg (by simp [hgap]),
              behindTag?_cons_some .between (by simp [Region.step?, hgt, hgap]),
              behindTag?_cons_some .between (by simp [Region.step?, hgt, hgap])]
          | false =>
            rw [List.dropWhile_cons_of_pos (by simp [hgap, hgt]),
              behindTag?_cons_some .bare (by simp [Region.step?, hgt, hgap]), ih]
    cases value with
    | nil => rfl
    | cons c rest =>
      have hgap : isGap c = false := hfirst c rest rfl
      by_cases hgt : c = '>'
      · subst hgt
        rfl
      · have hquote : ¬(c = '"' ∨ c = '\'') := by
          rintro (rfl | rfl)
          · exact hdouble rest rfl
          · exact hsingle rest rfl
        rw [behindTag?_cons_some .bare (by simp [Region.step?, hgt, hgap, hquote]),
          hbare, List.dropWhile_cons_of_pos (by simp [hgap, hgt])]

/-- Behind a name there may be a value, and then the next attribute. -/
theorem behindTag?_assignment (text : List Char) :
    behindTag? .named text = (readAssignment text).bind fun p => behindTag? .between p.2 := by
  have hgap : behindTag? .named (text.dropWhile isGap) = behindTag? .named text := by
    refine behindTag?_dropWhile (fun c hc => ?_) text
    have hgt : c ≠ '>' := by rintro rfl; cases hc
    have heq : c ≠ '=' := by rintro rfl; cases hc
    have hslash : c ≠ '/' := by rintro rfl; cases hc
    simp [Region.step?, hgt, heq, hslash]
  rw [← hgap, readAssignment]
  split
  · next rest heq =>
    rw [heq, behindTag?_cons_some .assigned (by decide), ← behindTag?_value]
    refine (behindTag?_dropWhile (fun c hc => ?_) rest).symm
    have hgt : c ≠ '>' := by rintro rfl; cases hc
    simp [Region.step?, hgt, hc]
  · next rest hequals =>
    show _ = behindTag? .between (text.dropWhile isGap)
    cases htext : text.dropWhile isGap with
    | nil => rfl
    | cons c behind =>
      have hgapc : isGap c = false := isGap_of_dropWhile htext
      have heq : c ≠ '=' := by
        rintro rfl
        exact hequals behind htext
      by_cases hgt : c = '>'
      · subst hgt
        rfl
      · by_cases hslash : c = '/'
        · subst hslash
          rfl
        · rw [behindTag?_cons_some .named (by simp [Region.step?, hgt, heq, hslash]),
            behindTag?_cons_some .named
              (by simp [Region.step?, hgt, heq, hslash, hgapc])]

/-- An attribute takes up its name and what is assigned to it. -/
theorem behindTag?_name {c : Char} {rest : List Char} (hgt : c ≠ '>') (hgap : isGap c = false)
    (hc : ¬(c = '/' ∨ c = '=')) :
    behindTag? .between (c :: rest) =
      (readAssignment (rest.dropWhile (!endsName ·))).bind fun p => behindTag? .between p.2 := by
  have hname : behindTag? .named (rest.dropWhile (!endsName ·)) = behindTag? .named rest := by
    refine behindTag?_dropWhile (fun d hd => ?_) rest
    have hd' : endsName d = false := by simpa using hd
    simp only [endsName, Bool.or_eq_false_iff, beq_eq_false_iff_ne] at hd'
    simp [Region.step?, hd'.1.2, hd'.1.1.2, hd'.2]
  rw [behindTag?_cons_some .named, ← hname, behindTag?_assignment]
  simp [Region.step?, hgt, hgap, not_or.1 hc]

/-- The automaton goes through a tag as the rounds do. -/
theorem behindTag?_round (text : List Char) :
    behindTag? .between text =
      match readRound text with
      | .cut => none
      | .closed _ rest => some rest
      | .stray rest => behindTag? .between rest
      | .found _ _ rest => behindTag? .between rest := by
  have hgap : behindTag? .between (text.dropWhile isGap) = behindTag? .between text := by
    refine behindTag?_dropWhile (fun c hc => ?_) text
    have hgt : c ≠ '>' := by rintro rfl; cases hc
    simp [Region.step?, hgt, hc]
  have hfirst : ∀ c rest, text.dropWhile isGap = c :: rest → isGap c = false :=
    fun c rest => isGap_of_dropWhile
  rw [← hgap, readRound]
  generalize text.dropWhile isGap = behind at hfirst
  fun_cases roundAt behind with
  | case1 => rfl
  | case2 rest => rfl
  | case3 rest => rfl
  | case4 c rest hgt hslash hc =>
    have hne : c ≠ '>' := hgt
    rw [behindTag?_cons_some .between]
    simp [Region.step?, hne, hc]
  | case5 c rest hgt hslash hc hvalue =>
    rw [behindTag?_name hgt (hfirst c rest rfl) hc, hvalue]
    rfl
  | case6 c rest hgt hslash hc value behind hvalue =>
    rw [behindTag?_name hgt (hfirst c rest rfl) hc, hvalue]
    rfl

/-- **The attributes end where the automaton says**, if they end at all. -/
theorem behindTag?_eq_readAttributes {fuel : Nat} {text : List Char} (hfuel : text.length < fuel)
    (m : OrderedMap String) :
    behindTag? .between text = (readAttributes fuel m text).map fun p => p.2.2 := by
  induction fuel generalizing m text with
  | zero => exact absurd hfuel (Nat.not_lt_zero _)
  | succ fuel ih =>
    have hshorter : ∀ rest, (readRound text).next? = some rest → rest.length < fuel := by
      intro rest hrest
      have := (readRound_behind hrest).length_lt
      omega
    rw [behindTag?_round, readAttributes_succ]
    cases hround : readRound text with
    | cut => rfl
    | closed bySlash rest => rfl
    | stray rest => exact ih (hshorter rest (by rw [hround]; rfl)) m
    | found name value rest => exact ih (hshorter rest (by rw [hround]; rfl)) _

end MarkupReader

/-! ## Constructs without their end -/

open MarkupReader

/-- The text begins with a construct that does not end in it. -/
def Unterminated.Begins : Unterminated → List Char → Prop
  | .comment, text => ∃ rest, text = '<' :: '!' :: '-' :: '-' :: rest ∧ ¬['-', '-', '>'] <:+: rest
  | .declaration, text => ∃ rest, text = '<' :: '!' :: rest ∧ ¬['-', '-'] <+: rest ∧ '>' ∉ rest
  | .closingTag, text => ∃ rest, text = '<' :: '/' :: rest ∧ '>' ∉ rest
  | .tag, text => ∃ c rest, text = '<' :: c :: rest ∧ c.isAlpha = true ∧
      behindTag? .between ((c :: rest).dropWhile isTagChar) = none

namespace MarkupReader

theorem readOpening_eq_none_iff {text : List Char} :
    readOpening text = none ↔ behindTag? .between (text.dropWhile isTagChar) = none := by
  have hlen : (text.dropWhile isTagChar).length < text.length + 1 :=
    Nat.lt_succ_of_le (List.dropWhile_suffix _).length_le
  rw [behindTag?_eq_readAttributes hlen [], readOpening, Option.map_eq_none_iff,
    Option.map_eq_none_iff]

theorem readFirst_of_alpha {c : Char} (hc : c.isAlpha = true) (rest : List Char) :
    readFirst ('<' :: c :: rest) =
      match readOpening (c :: rest) with
      | some (token, rest) => .ok (token, rest)
      | none => .error .tag := by
  rw [readFirst]
  · exact if_pos ⟨rfl, by simp [hc]⟩
  all_goals
    rintro rest' - heq
    obtain ⟨rfl, -⟩ := List.cons.inj heq
    exact absurd hc (by decide)

/-- **A token fails exactly when a construct begins that has no end.** -/
theorem readFirst_eq_error_iff {text : List Char} {what : Unterminated} :
    readFirst text = .error what ↔ what.Begins text := by
  constructor
  · intro h
    rw [readFirst.eq_def] at h
    split at h
    · next rest =>
      split at h
      · cases h
      · next hcut =>
        cases h
        exact ⟨rest, rfl, Text.cut?_eq_none_iff.1 hcut⟩
    · next rest hcomment =>
      split at h
      · cases h
      · next hcut =>
        cases h
        refine ⟨rest, rfl, ?_, ?_⟩
        · rintro ⟨tail, rfl⟩
          exact hcomment tail rfl
        · exact Text.not_mem_of_cut? hcut
    · next rest =>
      split at h
      · cases h
      · next hcut =>
        cases h
        exact ⟨rest, rfl, Text.not_mem_of_cut? hcut⟩
    · next c rest _ _ _ =>
      split at h
      · next hopen =>
        obtain ⟨rfl, halpha⟩ := hopen
        split at h
        · cases h
        · next hnone =>
          cases h
          cases rest with
          | nil => cases halpha
          | cons d rest => exact ⟨d, rest, rfl, halpha, readOpening_eq_none_iff.1 hnone⟩
      · cases h
    · cases h
  · intro h
    cases what with
    | comment =>
      obtain ⟨rest, rfl, hend⟩ := h
      rw [readFirst, Text.cut?_eq_none_iff.2 hend]
    | declaration =>
      obtain ⟨rest, rfl, hcomment, hend⟩ := h
      rw [readFirst, Text.cut?_singleton_eq_none hend]
      rintro tail rfl
      exact hcomment ⟨tail, rfl⟩
    | closingTag =>
      obtain ⟨rest, rfl, hend⟩ := h
      rw [readFirst, Text.cut?_singleton_eq_none hend]
    | tag =>
      obtain ⟨c, rest, rfl, hc, hend⟩ := h
      rw [readFirst_of_alpha hc, readOpening_eq_none_iff.2 hend]

/-- A construct begins with an angle bracket. -/
theorem head_of_begins {what : Unterminated} {text : List Char} (h : what.Begins text) :
    text.head? = some '<' := by
  cases what with
  | comment =>
    obtain ⟨rest, rfl, -⟩ := h
    rfl
  | declaration =>
    obtain ⟨rest, rfl, -⟩ := h
    rfl
  | closingTag =>
    obtain ⟨rest, rfl, -⟩ := h
    rfl
  | tag =>
    obtain ⟨c, rest, rfl, -⟩ := h
    rfl

theorem splitRaw_suffix (name text : List Char) : (splitRaw name text).2 <:+ text := by
  induction text with
  | nil => exact List.suffix_refl []
  | cons c text ih =>
    rw [splitRaw]
    split
    · exact ((List.drop_suffix _ _).trans (List.dropWhile_suffix _)).trans (List.suffix_cons ..)
    · exact ih.trans (List.suffix_cons ..)

theorem readOpening_behind {text rest : List Char} {token : Token}
    (h : readOpening text = some (token, rest)) : IsBehind rest text := by
  obtain ⟨⟨attributes, bySlash, behind⟩, hread, heq⟩ := Option.map_eq_some_iff.1 h
  have hbehind : IsBehind behind text :=
    (readAttributes_behind hread).of_suffix (List.dropWhile_suffix _)
  dsimp only at heq
  split at heq
  · cases heq
    exact hbehind.trans_suffix (splitRaw_suffix _ _)
  · cases heq
    exact hbehind

/-- **A token takes up some of the text.** -/
theorem readFirst_behind {text rest : List Char} {token : Token} (hne : text ≠ [])
    (h : readFirst text = .ok (token, rest)) : IsBehind rest text := by
  rw [readFirst.eq_def] at h
  split at h
  · next inside =>
    split at h
    · next before behind hcut =>
      cases h
      exact isBehind_cons '<' (((Text.suffix_of_cut? hcut).trans (List.suffix_cons ..)).trans
        ((List.suffix_cons ..).trans (List.suffix_cons ..)))
    · cases h
  · next inside _ =>
    split at h
    · next before behind hcut =>
      cases h
      exact isBehind_cons '<' ((Text.suffix_of_cut? hcut).trans (List.suffix_cons ..))
    · cases h
  · next inside =>
    split at h
    · next before behind hcut =>
      cases h
      exact isBehind_cons '<' ((Text.suffix_of_cut? hcut).trans (List.suffix_cons ..))
    · cases h
  · next c inside _ _ _ =>
    split at h
    · split at h
      · next hopening =>
        cases h
        exact isBehind_cons c (readOpening_behind hopening).suffix
      · cases h
    · cases h
      exact isBehind_cons c (List.dropWhile_suffix _)
  · exact absurd rfl hne

end MarkupReader

end PageTree
