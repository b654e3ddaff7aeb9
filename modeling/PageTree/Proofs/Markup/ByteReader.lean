import PageTree.Markup.Reader
import PageTree.Proofs.Markup.Lexing
import PageTree.Proofs.Markup.TagEnd
import PageTree.Proofs.Text.Bytes

/-!
# Reading markup by byte offsets

The reader of markup takes texts apart as lists of characters. Here the same reader goes by byte
offsets into the UTF-8 form, as a scanner in place does: it looks at single bytes, it cuts slices
out of the text, and its loops go on for as long as the offset is in range. Three things can go
wrong with such a scanner that cannot go wrong with lists: an offset may come to lie within a
character, it may pass the end, and a loop may go on without getting anywhere. The scanner says so
when they do (`Halt.torn`, `Halt.stalled`); that they never do is seen by comparing it with the
reader.

Each function of the scanner has one lemma that tells it by the text behind its offset. Classes of
bytes are ASCII classes throughout, which is what these lemmas rest on. This file has the scanner
and the lemmas up to an opening tag and raw text.

## Main definitions

* `ByteReader.round`, `ByteReader.step`: one round of the loop over attributes and one of the loop
  over tokens
* `ByteReader.scan`: the tokens of markup, by offsets

## Main results

* `ByteReader.round_offset`, `ByteReader.attributes_offset`: the loop over attributes
* `ByteReader.openTag_eq`, `ByteReader.rawText_offset`: opening tags and raw text
-/

namespace PageTree

open Text MarkupReader

namespace ByteReader

/-- Why a scanner stops before the end. -/
inductive Halt where
  /-- A slice would begin or end within a character or outside the text. -/
  | torn
  /-- A loop has gone on for more rounds than the text has bytes. -/
  | stalled
  /-- A construct has no end. -/
  | fault (fault : MarkupFault)
  deriving DecidableEq, Repr

/-! ## The scanner -/

/-- The part of a text between two offsets. -/
def slice (text : List Char) (start stop : Nat) : Except Halt (List Char) :=
  match slice? text start stop with
  | some piece => .ok piece
  | none => .error .torn

/-- The offset of the first occurrence of a pattern. -/
def find? (pattern text : List Char) : Option Nat :=
  (cut? pattern text).map fun p => (bytes p.1).length

/-- Characters that end a value without quotes. -/
def endsValue (c : Char) : Bool := isGap c || c == '>'

/-- A value behind its opening quote, and the offset behind the closing one. -/
def quotedValue (quote : Char) (text : List Char) (start : Nat) :
    Except Halt (Option (String × Nat)) := do
  let stop := skip (!isByteOf (· == quote) ·) text start
  if stop < (bytes text).length then
    let value ← slice text start stop
    return some (String.ofList (Markup.unescapeChars value), stop + 1)
  else return none

/-- The value of an attribute and the offset behind it. -/
def attributeValue (text : List Char) (i : Nat) : Except Halt (Option (String × Nat)) := do
  if isAt '"' text i then quotedValue '"' text (i + 1)
  else if isAt '\'' text i then quotedValue '\'' text (i + 1)
  else
    let stop := skip (!isByteOf endsValue ·) text i
    let value ← slice text i stop
    return some (String.ofList (Markup.unescapeChars value), stop)

/-- What is assigned to an attribute whose name ends at the offset. -/
def assignment (text : List Char) (i : Nat) : Except Halt (Option (String × Nat)) :=
  let i := skip (isByteOf isGap) text i
  if isAt '=' text i then attributeValue text (skip (isByteOf isGap) text (i + 1))
  else .ok (some ("", i))

/-- A round that reads an attribute whose name begins at the offset. -/
def namedRound (text : List Char) (i : Nat) : Except Halt (TagRound Nat) := do
  let stop := skip (!isByteOf endsName ·) text i
  let name ← slice text i stop
  match ← assignment text stop with
  | none => return .cut
  | some (value, next) => return .found (String.ofList (lower name)) value next

/-- One round of the loop over attributes. -/
def round (text : List Char) (i : Nat) : Except Halt (TagRound Nat) :=
  let i := skip (isByteOf isGap) text i
  if (bytes text).length ≤ i then .ok .cut
  else if isAt '>' text i then .ok (.closed false (i + 1))
  else if isAt '/' text i ∧ isAt '>' text (i + 1) then .ok (.closed true (i + 2))
  else if isAt '/' text i ∨ isAt '=' text i then .ok (.stray (i + 1))
  else namedRound text i

/-- The loop over attributes. -/
def attributes (text : List Char) :
    Nat → OrderedMap String → Nat → Except Halt (Option (OrderedMap String × Bool × Nat))
  | 0, _, _ => .error .stalled
  | fuel + 1, m, i => do
    match ← round text i with
    | .cut => return none
    | .closed bySlash next => return some (m, bySlash, next)
    | .stray next => attributes text fuel m next
    | .found name value next => attributes text fuel (OrderedMap.setNew name value m) next

/-- Where the attributes of a tag begin. -/
def attributesStart (tag : List Char) : Nat := skip (isByteOf isTagChar) tag 1

/-- The name, the attributes and the end of an opening tag at the start of a text. -/
def openTag (tag : List Char) :
    Except Halt (Option (List Char × OrderedMap String × Bool × Nat)) := do
  let name ← slice tag 1 (attributesStart tag)
  let read ← attributes tag ((bytes tag).length + 1) [] (attributesStart tag)
  return read.map fun (m, bySlash, consumed) => (lower name, m, bySlash, consumed)

/-- Raw text that begins at the offset, and the offset behind its closing tag. -/
def rawText (html name : List Char) (pos : Nat) : Except Halt (List Char × Nat) := do
  let body ← slice html pos (bytes html).length
  let size := (bytes body).length
  match find? ('<' :: '/' :: name) (lower body) with
  | none =>
    let content ← slice body 0 size
    return (content, pos + size)
  | some close =>
    let content ← slice body 0 close
    let tail ← slice body close size
    return (content, pos + ((find? ['>'] tail).elim size fun stop => close + stop + 1))

/-- The token of an opening tag at the offset, where `rest` begins. -/
def openingTag (html rest : List Char) (pos : Nat) : Except Halt (Token × Nat) := do
  match ← openTag rest with
  | none => throw (.fault ⟨.tag, pos⟩)
  | some (name, m, bySlash, consumed) =>
    let tag := String.ofList name
    if rawTags.contains tag then
      let (body, next) ← rawText html name (pos + consumed)
      return (.raw tag m (String.ofList body), next)
    else return (.opening tag m bySlash, pos + consumed)

/-- Where a text ends: at the next angle bracket behind its first character. -/
def textStop (rest : List Char) : Except Halt Nat := do
  match find? ['<'] rest with
  | some 0 =>
    let behind ← slice rest 1 (bytes rest).length
    return (find? ['<'] behind).elim (bytes rest).length (· + 1)
  | some stop => return stop
  | none => return (bytes rest).length

/-- The token of a text at the offset, where `rest` begins. -/
def textRun (rest : List Char) (pos : Nat) : Except Halt (Token × Nat) := do
  let stop ← textStop rest
  let content ← slice rest 0 stop
  return (.text (String.ofList (Markup.unescapeChars content)), pos + stop)

/-- An angle bracket with a letter behind it opens a tag. -/
def opensTag (rest : List Char) : Except Halt Bool := do
  if ['<'].isPrefixOf rest then
    let behind ← slice rest 1 (bytes rest).length
    return behind.head?.any Char.isAlpha
  else return false

/-- A comment at the offset, where `rest` begins. -/
def comment (rest : List Char) (pos : Nat) : Except Halt (Token × Nat) := do
  let behind ← slice rest 4 (bytes rest).length
  match find? ['-', '-', '>'] behind with
  | some stop => return (.skipped, pos + (4 + stop + 3))
  | none => throw (.fault ⟨.comment, pos⟩)

/-- A declaration at the offset, where `rest` begins. -/
def declaration (rest : List Char) (pos : Nat) : Except Halt (Token × Nat) :=
  match find? ['>'] rest with
  | some stop => .ok (.skipped, pos + (stop + 1))
  | none => .error (.fault ⟨.declaration, pos⟩)

/-- A closing tag at the offset, where `rest` begins. -/
def closingTag (rest : List Char) (pos : Nat) : Except Halt (Token × Nat) := do
  let behind ← slice rest 2 (bytes rest).length
  match find? ['>'] behind with
  | some stop =>
    let name ← slice behind 0 stop
    return (.closing (String.ofList (lower (trimBlank name))), pos + (2 + stop + 1))
  | none => throw (.fault ⟨.closingTag, pos⟩)

/-- One round of the loop over tokens. -/
def step (html : List Char) (pos : Nat) : Except Halt (Token × Nat) := do
  let rest ← slice html pos (bytes html).length
  if ['<', '!', '-', '-'].isPrefixOf rest then comment rest pos
  else if ['<', '!'].isPrefixOf rest then declaration rest pos
  else if ['<', '/'].isPrefixOf rest then closingTag rest pos
  else if ← opensTag rest then openingTag html rest pos
  else textRun rest pos

/-- The loop over tokens. -/
def scanFrom (html : List Char) : Nat → Nat → Except Halt (List Token)
  | 0, _ => .error .stalled
  | fuel + 1, pos => do
    if pos < (bytes html).length then
      let (token, next) ← step html pos
      let tokens ← scanFrom html fuel next
      return token :: tokens
    else return []

/-- The tokens of markup. -/
def scan (markup : String) : Except Halt (List Token) :=
  scanFrom markup.toList (markup.utf8ByteSize + 1) 0

/-! ## Slices and searches by the text behind the offset -/

theorem ok_bind {α β : Type} (a : α) (f : α → Except Halt β) : (Except.ok a >>= f) = f a := rfl

theorem slice_offset {text piece rest : List Char} (h : piece ++ rest <:+ text) :
    slice text (offset text (piece ++ rest)) (offset text rest) = .ok piece := by
  rw [slice, slice?_offset h]

theorem slice_offset_end {text rest : List Char} (h : rest <:+ text) :
    slice text (offset text rest) (bytes text).length = .ok rest := by
  rw [slice, slice?_offset_end h]

/-- The piece in front of a place where a class of characters is first left. -/
theorem slice_dropWhile {text rest : List Char} (p : Char → Bool) (h : rest <:+ text) :
    slice text (offset text rest) (offset text (rest.dropWhile p)) = .ok (rest.takeWhile p) := by
  have h' : rest.takeWhile p ++ rest.dropWhile p <:+ text := by
    rwa [List.takeWhile_append_dropWhile]
  have hslice := slice_offset h'
  rwa [List.takeWhile_append_dropWhile] at hslice

theorem slice_zero (piece rest : List Char) :
    slice (piece ++ rest) 0 (bytes piece).length = .ok piece := by
  have hslice := slice_offset (List.suffix_refl (piece ++ rest))
  rwa [offset_self, offset_append] at hslice

theorem slice_behind (piece rest : List Char) :
    slice (piece ++ rest) (bytes piece).length (bytes (piece ++ rest)).length = .ok rest := by
  have hslice := slice_offset_end (List.suffix_append piece rest)
  rwa [offset_append] at hslice

/-! ## Attributes -/

theorem ascii_of_isGap {c : Char} (hc : isGap c = true) : c.toNat < 128 := by
  simp only [isGap, Bool.or_eq_true, decide_eq_true_eq] at hc
  rcases hc with (((rfl | rfl) | rfl) | rfl) | rfl
  all_goals decide

theorem ascii_of_endsName {c : Char} (hc : endsName c = true) : c.toNat < 128 := by
  simp only [endsName, Bool.or_eq_true, beq_iff_eq] at hc
  rcases hc with ((hgap | rfl) | rfl) | rfl
  · exact ascii_of_isGap hgap
  all_goals decide

theorem ascii_of_endsValue {c : Char} (hc : endsValue c = true) : c.toNat < 128 := by
  simp only [endsValue, Bool.or_eq_true, beq_iff_eq] at hc
  rcases hc with hgap | rfl
  · exact ascii_of_isGap hgap
  · decide

theorem agrees_isGap : Agrees (isByteOf isGap) isGap :=
  agrees_isByteOf fun _ => ascii_of_isGap

theorem agrees_inName : Agrees (!isByteOf endsName ·) (!endsName ·) :=
  (agrees_isByteOf fun _ => ascii_of_endsName).not

theorem agrees_inValue : Agrees (!isByteOf endsValue ·) (fun c => !isGap c && c != '>') := by
  have hvalue : (fun c => !isGap c && c != '>') = fun c => !endsValue c := by
    funext c
    rw [endsValue, Bool.not_or]
    rfl
  rw [hvalue]
  exact (agrees_isByteOf fun _ => ascii_of_endsValue).not

theorem agrees_isTagChar : Agrees (isByteOf isTagChar) isTagChar :=
  agrees_isByteOf fun _ hc => Nat.lt_succ_of_le ((toNat_of_isTagChar hc).2.trans (by decide))

theorem quotedValue_offset {quote : Char} (hquote : quote.toNat < 128) {text rest : List Char}
    (h : rest <:+ text) :
    quotedValue quote text (offset text rest) =
      .ok ((cut? [quote] rest).map fun p =>
        (String.ofList (Markup.unescapeChars p.1), offset text p.2)) := by
  have hsuffix : rest.dropWhile (· != quote) <:+ text := (List.dropWhile_suffix _).trans h
  rw [quotedValue, skip_offset (agrees_mark hquote) h, cut?_singleton]
  cases hbehind : rest.dropWhile (· != quote) with
  | nil =>
    rw [offset_nil, if_neg (Nat.lt_irrefl _)]
    rfl
  | cons c behind =>
    have hc : c = quote := by
      have hne : rest.dropWhile (· != quote) ≠ [] := by simp [hbehind]
      simpa [hbehind] using List.head_dropWhile_not (· != quote) hne
    rw [hbehind] at hsuffix
    rw [if_pos ((offset_lt_iff hsuffix).2 (List.cons_ne_nil _ _)), ← hbehind,
      slice_dropWhile (· != quote) h, ok_bind, hbehind, ← offset_cons (hc ▸ hquote) hsuffix]
    rfl

theorem attributeValue_offset {text rest : List Char} (h : rest <:+ text) :
    attributeValue text (offset text rest) =
      .ok ((readAttributeValue rest).map fun p => (p.1, offset text p.2)) := by
  rw [attributeValue]
  fun_cases readAttributeValue rest with
  | case1 quoted =>
    rw [if_pos (isAt_cons (by decide) h), ← offset_cons (by decide) h,
      quotedValue_offset (by decide) (suffix_of_cons h), Option.map_map]
    rfl
  | case2 quoted =>
    rw [if_neg (not_isAt (by decide) h fun behind heq => by cases heq),
      if_pos (isAt_cons (by decide) h), ← offset_cons (by decide) h,
      quotedValue_offset (by decide) (suffix_of_cons h), Option.map_map]
    rfl
  | case3 inValue hdouble hsingle =>
    rw [if_neg (not_isAt (by decide) h hdouble), if_neg (not_isAt (by decide) h hsingle),
      skip_offset agrees_inValue h]
    dsimp only
    rw [slice_dropWhile _ h]
    rfl

theorem assignment_offset {text rest : List Char} (h : rest <:+ text) :
    assignment text (offset text rest) =
      .ok ((readAssignment rest).map fun p => (p.1, offset text p.2)) := by
  have hgap : rest.dropWhile isGap <:+ text := (List.dropWhile_suffix _).trans h
  rw [assignment, skip_offset agrees_isGap h]
  fun_cases readAssignment rest with
  | case1 behind heq =>
    rw [heq] at hgap
    rw [heq, if_pos (isAt_cons (by decide) hgap), ← offset_cons (by decide) hgap,
      skip_offset agrees_isGap (suffix_of_cons hgap),
      attributeValue_offset ((List.dropWhile_suffix _).trans (suffix_of_cons hgap))]
  | case2 hequals =>
    rw [if_neg (not_isAt (by decide) hgap hequals)]
    rfl

theorem namedRound_offset {c : Char} (hc : endsName c = false) {text rest : List Char}
    (h : c :: rest <:+ text) :
    namedRound text (offset text (c :: rest)) =
      .ok (match readAssignment (rest.dropWhile (!endsName ·)) with
        | none => .cut
        | some (value, behind) =>
          .found (String.ofList (lower (c :: rest.takeWhile (!endsName ·)))) value
            (offset text behind)) := by
  have hdrop : (c :: rest).dropWhile (!endsName ·) = rest.dropWhile (!endsName ·) :=
    List.dropWhile_cons_of_pos (by simp [hc])
  have htake : (c :: rest).takeWhile (!endsName ·) = c :: rest.takeWhile (!endsName ·) :=
    List.takeWhile_cons_of_pos (by simp [hc])
  have hbehind : rest.dropWhile (!endsName ·) <:+ text :=
    (List.dropWhile_suffix _).trans (suffix_of_cons h)
  have hslice := slice_dropWhile (!endsName ·) h
  rw [hdrop, htake] at hslice
  rw [namedRound, skip_offset agrees_inName h, hdrop, hslice, ok_bind,
    assignment_offset hbehind, ok_bind]
  cases readAssignment (rest.dropWhile (!endsName ·)) with
  | none => rfl
  | some p => rfl

theorem endsName_eq_false {c : Char} (hgap : isGap c = false) (hgt : c ≠ '>')
    (hc : ¬(c = '/' ∨ c = '=')) : endsName c = false := by
  simp [endsName, hgap, hgt, not_or.1 hc]

/-- A character of a name is none of the marks that a round looks for. -/
theorem round_of_name {c : Char} {text rest : List Char} (hgt : c ≠ '>')
    (hc : ¬(c = '/' ∨ c = '=')) (h : c :: rest <:+ text) {α : Type} (closed slash stray other : α)
    {i : Nat} :
    (if isAt '>' text (offset text (c :: rest)) then closed
      else if isAt '/' text (offset text (c :: rest)) ∧ isAt '>' text i then slash
      else if isAt '/' text (offset text (c :: rest)) ∨ isAt '=' text (offset text (c :: rest)) then
        stray
      else other) = other := by
  have hnot {d : Char} (hd : d.toNat < 128) (hne : c ≠ d) :
      ¬isAt d text (offset text (c :: rest)) = true :=
    not_isAt hd h fun _ heq => hne (List.cons.inj heq).1
  obtain ⟨hslash, hequals⟩ := not_or.1 hc
  rw [if_neg (hnot (by decide) hgt), if_neg fun hboth => hnot (by decide) hslash hboth.1,
    if_neg (not_or.2 ⟨hnot (by decide) hslash, hnot (by decide) hequals⟩)]

/-- **A round by offsets is a round of the reader.** -/
theorem round_offset {text rest : List Char} (h : rest <:+ text) :
    round text (offset text rest) = .ok ((readRound rest).map (offset text)) := by
  have hgap : rest.dropWhile isGap <:+ text := (List.dropWhile_suffix _).trans h
  rw [round, skip_offset agrees_isGap h, readRound]
  have hfirst : ∀ c behind, rest.dropWhile isGap = c :: behind → isGap c = false :=
    fun c behind => isGap_of_dropWhile
  generalize rest.dropWhile isGap = behind at hgap hfirst
  have hsize (hne : behind ≠ []) : ¬(bytes text).length ≤ offset text behind :=
    Nat.not_le.2 ((offset_lt_iff hgap).2 hne)
  fun_cases roundAt behind with
  | case1 =>
    rw [offset_nil, if_pos (Nat.le_refl _)]
    rfl
  | case2 behind =>
    rw [if_neg (hsize (List.cons_ne_nil _ _)), if_pos (isAt_cons (by decide) hgap),
      ← offset_cons (by decide) hgap]
    rfl
  | case3 behind =>
    have hnext : '>' :: behind <:+ text := suffix_of_cons hgap
    have hslash := isAt_cons (c := '/') (by decide) hgap
    have hend := isAt_cons (c := '>') (by decide) hnext
    rw [offset_cons (by decide) hgap] at hend
    rw [if_neg (hsize (List.cons_ne_nil _ _)),
      if_neg (not_isAt (by decide) hgap fun _ heq => by cases heq), if_pos ⟨hslash, hend⟩]
    show Except.ok (TagRound.closed true (offset text ('/' :: '>' :: behind) + 1 + 1)) = _
    rw [← offset_cons (by decide) hgap, ← offset_cons (by decide) hnext]
    rfl
  | case4 c behind hgt hslash hc =>
    have hascii : c.toNat < 128 := by
      rcases hc with rfl | rfl
      all_goals decide
    have hmark : isAt '/' text (offset text (c :: behind)) ∨
        isAt '=' text (offset text (c :: behind)) := by
      rcases hc with rfl | rfl
      · exact Or.inl (isAt_cons (by decide) hgap)
      · exact Or.inr (isAt_cons (by decide) hgap)
    -- A slash with an angle bracket behind it would have ended the tag.
    have hopen : ¬(isAt '/' text (offset text (c :: behind)) ∧
        isAt '>' text (offset text (c :: behind) + 1)) := by
      rintro ⟨hc', hend⟩
      have hcslash : c = '/' := by
        by_contra hne
        exact not_isAt (by decide) hgap (fun _ heq => hne (List.cons.inj heq).1) hc'
      rw [← offset_cons hascii hgap] at hend
      refine not_isAt (by decide) (suffix_of_cons hgap) (fun more heq => ?_) hend
      exact hslash more hcslash heq
    rw [if_neg (hsize (List.cons_ne_nil _ _)),
      if_neg (not_isAt (by decide) hgap fun _ heq => hgt (List.cons.inj heq).1),
      if_neg hopen, if_pos hmark, ← offset_cons hascii hgap]
    rfl
  | case5 c behind hgt hslash hc hvalue =>
    rw [if_neg (hsize (List.cons_ne_nil _ _)), round_of_name hgt hc hgap,
      namedRound_offset (endsName_eq_false (hfirst c behind rfl) hgt hc) hgap, hvalue]
    rfl
  | case6 c behind hgt hslash hc value rest hvalue =>
    rw [if_neg (hsize (List.cons_ne_nil _ _)), round_of_name hgt hc hgap,
      namedRound_offset (endsName_eq_false (hfirst c behind rfl) hgt hc) hgap, hvalue]
    rfl

/-- **The loop over attributes comes to its end**, where the reader comes to it. -/
theorem attributes_offset {text rest : List Char} (h : rest <:+ text) {fuel fuel' : Nat}
    (hfuel : rest.length < fuel) (hfuel' : rest.length < fuel') (m : OrderedMap String) :
    attributes text fuel m (offset text rest) =
      .ok ((readAttributes fuel' m rest).map fun p => (p.1, p.2.1, offset text p.2.2)) := by
  induction fuel generalizing fuel' m rest with
  | zero => exact absurd hfuel (Nat.not_lt_zero _)
  | succ fuel ih =>
    obtain ⟨fuel', rfl⟩ : ∃ k, fuel' = k + 1 := ⟨fuel' - 1, by omega⟩
    -- What a round leaves is shorter, so there is fuel for it.
    have honward : ∀ behind, (readRound rest).next? = some behind →
        behind <:+ text ∧ behind.length < fuel ∧ behind.length < fuel' := by
      intro behind hbehind
      have hbehind := readRound_behind hbehind
      have hlt := hbehind.length_lt
      exact ⟨hbehind.suffix.trans h, by omega, by omega⟩
    rw [attributes, round_offset h, ok_bind, readAttributes_succ]
    cases hround : readRound rest with
    | cut => rfl
    | closed bySlash behind => rfl
    | stray behind =>
      obtain ⟨hsuffix, hlt, hlt'⟩ := honward behind (by rw [hround]; rfl)
      exact ih hsuffix hlt hlt' m
    | found name value behind =>
      obtain ⟨hsuffix, hlt, hlt'⟩ := honward behind (by rw [hround]; rfl)
      exact ih hsuffix hlt hlt' _

/-! ## Tags and raw text -/

theorem offset_bracket (text : List Char) : offset ('<' :: text) text = 1 := by
  rw [offset_cons (by decide) (List.suffix_refl _), offset_self]

theorem attributesStart_eq (text : List Char) :
    attributesStart ('<' :: text) = offset ('<' :: text) (text.dropWhile isTagChar) := by
  rw [attributesStart, ← offset_bracket text, skip_offset agrees_isTagChar (List.suffix_cons ..)]

theorem openTag_eq (text : List Char) :
    openTag ('<' :: text) =
      .ok ((readAttributes (text.length + 1) [] (text.dropWhile isTagChar)).map fun p =>
        (lower (text.takeWhile isTagChar), p.1, p.2.1, offset ('<' :: text) p.2.2)) := by
  have hsuffix : text.dropWhile isTagChar <:+ '<' :: text :=
    (List.dropWhile_suffix _).trans (List.suffix_cons ..)
  have hlen : (text.dropWhile isTagChar).length ≤ text.length :=
    (List.dropWhile_suffix _).length_le
  have hbytes := length_le_length_bytes ('<' :: text)
  have hfuel : (text.dropWhile isTagChar).length < text.length + 1 := Nat.lt_succ_of_le hlen
  have hslice := slice_dropWhile isTagChar (List.suffix_cons '<' text)
  rw [offset_bracket] at hslice
  rw [List.length_cons] at hbytes
  rw [openTag, attributesStart_eq, hslice, ok_bind,
    attributes_offset hsuffix (by omega) hfuel, ok_bind]
  show Except.ok _ = _
  rw [Option.map_map]
  rfl

theorem find?_of_cut? {pattern text before after : List Char}
    (h : cut? pattern text = some (before, after)) :
    find? pattern text = some (bytes before).length ∧
      offset text after = (bytes before).length + (bytes pattern).length := by
  refine ⟨by rw [find?, h]; rfl, ?_⟩
  rw [eq_of_cut? h, offset_append, bytes_append, List.length_append]

theorem find?_eq_none {pattern text : List Char} (h : cut? pattern text = none) :
    find? pattern text = none := by
  rw [find?, h]
  rfl

theorem find?_mark_none {mark : Char} {text : List Char}
    (h : text.dropWhile (· != mark) = []) : find? [mark] text = none :=
  find?_eq_none (by rw [cut?_singleton, h])

theorem find?_mark_some {mark c : Char} {text after : List Char} (hmark : mark.toNat < 128)
    (h : text.dropWhile (· != mark) = c :: after) :
    ∃ stop, find? [mark] text = some stop ∧
      stop = (bytes (text.takeWhile (· != mark))).length ∧ offset text after = stop + 1 := by
  have hcut : cut? [mark] text = some (text.takeWhile (· != mark), after) := by
    rw [cut?_singleton, h]
  obtain ⟨hfind, hoffset⟩ := find?_of_cut? hcut
  exact ⟨_, hfind, rfl, by rw [hoffset, length_bytes_mark hmark]⟩

/-- A pattern is compared with as many characters as it has. -/
theorem isPrefixOf_take (pattern text : List Char) :
    pattern.isPrefixOf (lower (text.take pattern.length)) =
      (pattern.isPrefixOf? (lower text)).isSome := by
  have hiff : pattern <+: lower (text.take pattern.length) ↔ pattern <+: lower text := by
    rw [lower, List.map_take, List.prefix_take_iff]
    exact and_iff_left (Nat.le_refl _)
  rw [Bool.eq_iff_iff, List.isPrefixOf_iff_prefix, hiff, Option.isSome_iff_ne_none, ne_eq,
    isPrefixOf?_eq_none_iff, not_not]

/-- **Raw text ends where a search among small letters finds its closing tag**; without one it
takes up all that follows. -/
theorem splitRaw_cases (name body : List Char) :
    cut? ('<' :: '/' :: name) (lower body) = none ∧ splitRaw name body = (body, []) ∨
      ∃ content tail after, body = content ++ tail ∧
        cut? ('<' :: '/' :: name) (lower body) = some (lower content, after) ∧
        splitRaw name body = (content, (tail.dropWhile (· != '>')).drop 1) := by
  induction body with
  | nil => exact Or.inl ⟨rfl, rfl⟩
  | cons c body ih =>
    have htake : List.isPrefixOf ('<' :: '/' :: name) (lower ((c :: body).take (name.length + 2))) =
        (List.isPrefixOf? ('<' :: '/' :: name) (lower (c :: body))).isSome :=
      isPrefixOf_take ('<' :: '/' :: name) (c :: body)
    have hlower : lower (c :: body) = c.toLower :: lower body := rfl
    cases hbegins : List.isPrefixOf? ('<' :: '/' :: name) (lower (c :: body)) with
    | some rest =>
      have hc : c.toLower = '<' := by
        have hhead := List.isPrefixOf?_eq_some_iff_append_eq.1 hbegins
        exact (List.cons.inj hhead).1.symm
      have hgt : c ≠ '>' := by
        rintro rfl
        exact absurd hc (by decide)
      have hcut : cut? ('<' :: '/' :: name) (lower (c :: body)) = some ([], rest) := by
        rw [hlower, cut?, ← hlower, hbegins]
      rw [hbegins, Option.isSome_some] at htake
      refine Or.inr ⟨[], c :: body, rest, rfl, hcut, ?_⟩
      rw [splitRaw, if_pos htake, List.dropWhile_cons_of_pos (by simp [hgt])]
    | none =>
      have hcut : cut? ('<' :: '/' :: name) (lower (c :: body)) =
          (cut? ('<' :: '/' :: name) (lower body)).map fun p => (c.toLower :: p.1, p.2) := by
        rw [hlower, cut?, ← hlower, hbegins]
      rw [hbegins] at htake
      have hsplit : splitRaw name (c :: body) =
          (c :: (splitRaw name body).1, (splitRaw name body).2) := by
        rw [splitRaw, if_neg (fun h => Bool.false_ne_true (htake.symm.trans h))]
      rcases ih with ⟨hnone, hrest⟩ | ⟨content, tail, after, hbody, hsome, hrest⟩
      · rw [hnone] at hcut
        rw [hrest] at hsplit
        exact Or.inl ⟨hcut, hsplit⟩
      · rw [hsome] at hcut
        rw [hrest] at hsplit
        exact Or.inr ⟨c :: content, tail, after, by rw [hbody]; rfl, hcut, hsplit⟩

theorem rawText_offset {html body : List Char} (h : body <:+ html) (name : List Char) :
    rawText html name (offset html body) =
      .ok ((splitRaw name body).1, offset html (splitRaw name body).2) := by
  rw [rawText, slice_offset_end h, ok_bind]
  dsimp only
  rcases splitRaw_cases name body with ⟨hcut, hsplit⟩ | ⟨content, tail, after, rfl, hcut, hsplit⟩
  · have hend := slice_zero body []
    rw [List.append_nil] at hend
    rw [find?_eq_none hcut, hsplit]
    dsimp only
    rw [hend, ok_bind, offset_nil, ← offset_add_length h]
    rfl
  · have htail : (tail.dropWhile (· != '>')).drop 1 <:+ tail :=
      (List.drop_suffix _ _).trans (List.dropWhile_suffix _)
    rw [(find?_of_cut? hcut).1, hsplit, length_lower]
    dsimp only
    rw [slice_zero, ok_bind, slice_behind, ok_bind,
      offset_trans h (htail.trans (List.suffix_append ..)),
      offset_trans (List.suffix_append content tail) htail, offset_append]
    cases hmark : tail.dropWhile (· != '>') with
    | nil =>
      rw [find?_mark_none hmark, List.drop_nil, offset_nil, bytes_append, List.length_append]
      rfl
    | cons c behind =>
      obtain ⟨stop, hfind, -, hoffset⟩ := find?_mark_some (by decide) hmark
      rw [hfind, List.drop_one, List.tail_cons, hoffset]
      rfl

end ByteReader

end PageTree
