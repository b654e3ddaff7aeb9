import Mathlib.Data.List.DropRight
import PageTree.Proofs.Markup.Outline
import PageTree.Proofs.OrderedMap
import PageTree.Proofs.Text.Cutting

/-!
# Written markup is cut into the tokens of its outline

The writer and the reader meet here. A text of markup runs up to the next angle bracket, so the
statement about written markup carries the text that was written in front of it: pieces of text
that follow one another come back as one token.

## Main results

* `MarkupReader.readAttributes_write`: written attributes are read back
* `MarkupReader.splitRaw_append`: raw text ends at the closing tag behind it
* `Markup.continues_writeAll`: the tokens of written markup
-/

namespace PageTree

namespace MarkupReader

/-! ## Characters of names -/

theorem toNat_of_isTagChar {c : Char} (h : isTagChar c) : 0x21 ≤ c.toNat ∧ c.toNat ≤ 0x7e := by
  rcases Bool.or_eq_true_iff.1 h with h | h
  · exact Text.toNat_of_isAlphanum h
  · obtain rfl : c = '-' := by simpa using h
    decide

theorem isTagChar_ne {c d : Char} (h : isTagChar c) (hd : isTagChar d = false) : c ≠ d := by
  rintro rfl
  simp [hd] at h

/-! ## Attributes -/

theorem dropWhile_isGap_of_not {text : List Char} {c : Char} (h : isGap c = false) :
    (c :: text).dropWhile isGap = c :: text :=
  List.dropWhile_cons_of_neg (by simp [h])

theorem isGap_of_endsName {c : Char} (h : endsName c = false) : isGap c = false := by
  simp only [endsName, Bool.or_eq_false_iff] at h
  exact h.1.1.1

theorem ne_of_endsName {c : Char} (h : endsName c = false) : c ≠ '=' ∧ c ≠ '>' ∧ c ≠ '/' := by
  simp only [endsName, Bool.or_eq_false_iff, beq_eq_false_iff_ne] at h
  exact ⟨h.1.1.2, h.1.2, h.2⟩

/-- White space in front of the attributes does not matter. -/
theorem readAttributes_dropWhile (fuel : Nat) (m : OrderedMap String) (text : List Char) :
    readAttributes fuel m (text.dropWhile isGap) = readAttributes fuel m text := by
  have hidem : (text.dropWhile isGap).dropWhile isGap = text.dropWhile isGap :=
    List.dropWhile_idempotent isGap text
  cases fuel with
  | zero => rfl
  | succ fuel => rw [readAttributes, readAttributes, hidem]

/-- What stands behind an attribute: more of them, then the end of the tag. -/
theorem attributesEnd_cases (attributes : List Attribute) (rest : List Char)
    (h : ∀ a ∈ attributes, Markup.IsAttributeName a.name) :
    ∃ c text, attributes.flatMap Attribute.write ++ '>' :: rest = c :: text ∧ endsName c = true ∧
      readAssignment (c :: text) = some ("", (c :: text).dropWhile isGap) := by
  cases attributes with
  | nil => exact ⟨'>', rest, rfl, by decide, rfl⟩
  | cons a attributes =>
    obtain ⟨hne, hchars⟩ := h a List.mem_cons_self
    obtain ⟨n, name, hname⟩ := List.exists_cons_of_ne_nil hne
    have hn : endsName n = false := (hchars n (by simp [hname])).1
    refine ⟨' ', _, by rw [List.flatMap_cons, Attribute.write, List.cons_append, List.cons_append,
      List.cons_append], by decide, ?_⟩
    rw [readAssignment, hname, List.dropWhile_cons_of_pos (by decide), List.cons_append,
      List.cons_append, List.cons_append, dropWhile_isGap_of_not (isGap_of_endsName hn)]
    split
    · next heq => exact absurd (List.cons.inj heq).1 (ne_of_endsName hn).1
    · rfl

theorem takeWhile_name {name : List Char} (h : ∀ c ∈ name, endsName c = false) {c : Char}
    (hc : endsName c = true) (text : List Char) :
    (name ++ c :: text).takeWhile (!endsName ·) = name := by
  rw [List.takeWhile_append_of_pos fun d hd => by simp [h d hd],
    List.takeWhile_cons_of_neg (by simp [hc]), List.append_nil]

theorem dropWhile_name {name : List Char} (h : ∀ c ∈ name, endsName c = false) {c : Char}
    (hc : endsName c = true) (text : List Char) :
    (name ++ c :: text).dropWhile (!endsName ·) = c :: text := by
  rw [List.dropWhile_append_of_pos fun d hd => by simp [h d hd],
    List.dropWhile_cons_of_neg (by simp [hc])]

/-- A quoted value is read back. -/
theorem readAssignment_quoted (value rest : List Char) :
    readAssignment ('=' :: '"' :: (Markup.escapeChars value ++ '"' :: rest)) =
      some (String.ofList value, rest) := by
  have hquote : '"' ∉ Markup.escapeChars value := fun h => (Markup.escapeChars_plain h).2.2 rfl
  change readAttributeValue ('"' :: (Markup.escapeChars value ++ '"' :: rest)) = _
  rw [readAttributeValue, Text.cut?_singleton_append rest hquote, Option.map_some]
  simp only [Markup.unescapeChars_escapeChars]

/-- One round of reading attributes: a name, what is assigned to it, and then the others. -/
theorem readAttributes_name (fuel : Nat) (m : OrderedMap String) {n : Char} {name : List Char}
    (h : ∀ c ∈ n :: name, endsName c = false) {c : Char} (hc : endsName c = true)
    (text : List Char) :
    readAttributes (fuel + 1) m (' ' :: n :: (name ++ c :: text)) =
      (readAssignment (c :: text)).bind fun p =>
        readAttributes fuel
          (OrderedMap.setNew (String.ofList (Text.lower (n :: name))) p.1 m) p.2 := by
  have hn := h n List.mem_cons_self
  have hname : ∀ d ∈ name, endsName d = false := fun d hd => h d (List.mem_cons_of_mem n hd)
  obtain ⟨heq, hgt, hslash⟩ := ne_of_endsName hn
  rw [readAttributes, List.dropWhile_cons_of_pos (by decide),
    dropWhile_isGap_of_not (isGap_of_endsName hn)]
  split
  · next hnil => cases hnil
  · next hcons => exact absurd (List.cons.inj hcons).1 hgt
  · next hcons => exact absurd (List.cons.inj hcons).1 hslash
  · next d rest _ _ hcons =>
    obtain ⟨rfl, rfl⟩ := List.cons.inj hcons
    rw [if_neg (not_or.2 ⟨hslash, heq⟩), takeWhile_name hname hc, dropWhile_name hname hc]
    cases readAssignment (c :: text) <;> rfl

/-- **Written attributes are read back.** -/
theorem readAttributes_write {attributes : List Attribute}
    (h : ∀ a ∈ attributes, Markup.IsAttributeName a.name) (rest : List Char) {fuel : Nat}
    (hfuel : attributes.length < fuel) (m : OrderedMap String) :
    readAttributes fuel m (attributes.flatMap Attribute.write ++ '>' :: rest) =
      some (attributes.foldl (fun m a => OrderedMap.setNew a.name (a.value.getD "") m) m,
        false, rest) := by
  induction attributes generalizing fuel m with
  | nil =>
    obtain ⟨fuel, rfl⟩ := Nat.exists_eq_add_of_lt hfuel
    rfl
  | cons a attributes ih =>
    obtain ⟨fuel, rfl⟩ : ∃ k, fuel = k + 1 := ⟨fuel - 1, by simp at hfuel; omega⟩
    have hrest := fun b hb => h b (List.mem_cons_of_mem a hb)
    have hlen : attributes.length < fuel := by simpa using hfuel
    obtain ⟨hne, hchars⟩ := h a List.mem_cons_self
    obtain ⟨n, name, hname⟩ := List.exists_cons_of_ne_nil hne
    rw [hname] at hchars
    have hnames : ∀ c ∈ n :: name, endsName c = false := fun c hc => (hchars c hc).1
    have hlower : String.ofList (Text.lower (n :: name)) = a.name := by
      rw [Text.lower_eq_self fun c hc => (hchars c hc).2, ← hname, String.ofList_toList]
    obtain ⟨c, text, hbehind, hc, hassign⟩ := attributesEnd_cases attributes rest hrest
    rw [List.flatMap_cons, List.append_assoc, hbehind, Attribute.write, hname, List.foldl_cons]
    cases hvalue : a.value with
    | none =>
      have hround := readAttributes_name fuel m hnames hc text
      rw [hassign, hlower] at hround
      simp only [List.append_nil, List.cons_append]
      rw [hround, Option.bind_some, readAttributes_dropWhile, ← hbehind, ih hrest hlen]
      rfl
    | some value =>
      have hround := readAttributes_name fuel m hnames (c := '=') (by decide)
        ('"' :: (Markup.escapeChars value.toList ++ '"' :: c :: text))
      rw [readAssignment_quoted, hlower, String.ofList_toList, Option.bind_some] at hround
      simp only [List.append_assoc, List.cons_append, List.nil_append] at hround ⊢
      rw [hround, ← hbehind, ih hrest hlen]
      rfl

/-- The attributes of a tag are read back as a map. -/
theorem readAttributes_toMap {attributes : List Attribute}
    (h : Markup.LegibleAttributes attributes) (rest : List Char) {fuel : Nat}
    (hfuel : attributes.length < fuel) :
    readAttributes fuel [] (attributes.flatMap Attribute.write ++ '>' :: rest) =
      some (Attribute.toMap attributes, false, rest) := by
  have hnames : (OrderedMap.names ([] ++ Attribute.toMap attributes)).Nodup := by
    simpa [OrderedMap.names, Attribute.toMap, Function.comp_def] using h.2
  have hmap := OrderedMap.foldl_setNew hnames
  rw [Attribute.toMap, List.foldl_map, List.nil_append] at hmap
  rw [readAttributes_write h.1 rest hfuel, hmap]
  rfl

/-! ## Raw text -/

/-- **Raw text ends at the closing tag behind it.** Only the first character of a closing tag is an
angle bracket, so none begins in the text and ends behind it. -/
theorem splitRaw_append {name body : List Char} (hname : ∀ c ∈ name, isTagChar c ∧ c.toLower = c)
    (hbody : ¬('<' :: '/' :: name) <:+: Text.lower body) (rest : List Char) :
    splitRaw name (body ++ '<' :: '/' :: (name ++ '>' :: rest)) = (body, rest) := by
  have hgt : '>' ∉ name := fun h => isTagChar_ne (hname _ h).1 (by decide) rfl
  have hlt : '<' ∉ name := fun h => isTagChar_ne (hname _ h).1 (by decide) rfl
  have hlower : Text.lower name = name := Text.lower_eq_self fun c hc => (hname c hc).2
  induction body with
  | nil =>
    have htake : ('<' :: '/' :: (name ++ '>' :: rest)).take (name.length + 2) =
        '<' :: '/' :: name := by simp
    have hdrop : (('/' :: (name ++ '>' :: rest)).dropWhile (· != '>')).drop 1 = rest := by
      rw [List.dropWhile_cons_of_pos (by decide),
        List.dropWhile_append_of_pos fun c hc => by simpa using ne_of_mem_of_not_mem hc hgt]
      simp
    rw [List.nil_append, splitRaw, htake, hdrop, if_pos]
    rw [List.isPrefixOf_iff_prefix]
    change _ <+: '<' :: '/' :: Text.lower name
    rw [hlower]
  | cons c body ih =>
    have hrest : ¬('<' :: '/' :: name) <:+: Text.lower body := fun h =>
      hbody (List.infix_cons_iff.2 (Or.inr h))
    have hnot : ¬('<' :: '/' :: name) <+:
        Text.lower ((c :: (body ++ '<' :: '/' :: (name ++ '>' :: rest))).take
          (name.length + 2)) := by
      intro hprefix
      rw [Text.lower, List.map_take] at hprefix
      obtain ⟨t, ht⟩ := hprefix.trans (List.take_prefix _ _)
      have hsplit : ('<' :: '/' :: name) ++ t =
          Text.lower (c :: body) ++ '<' :: Text.lower ('/' :: (name ++ '>' :: rest)) := by
        rw [ht]
        simp [Text.lower]
      rcases List.append_eq_append_iff.1 hsplit with ⟨a, ha, -⟩ | ⟨a, ha, hb⟩
      · exact hbody (List.IsPrefix.isInfix ⟨a, ha.symm⟩)
      · cases a with
        | nil =>
          rw [List.append_nil] at ha
          exact hbody (ha ▸ List.infix_refl _)
        | cons d a =>
          obtain ⟨rfl, -⟩ := List.cons.inj hb
          have hin : '<' ∈ '/' :: name := by
            have htail := congrArg List.tail ha
            rw [List.tail_cons] at htail
            rw [htail]
            simp [Text.lower]
          simp [hlt] at hin
    rw [List.cons_append, splitRaw, if_neg (by rwa [List.isPrefixOf_iff_prefix]), ih hrest]

/-! ## Tags -/

/-- What stands behind the name of a tag is no part of the name. -/
theorem takeWhile_tag {tag : List Char} (htag : ∀ c ∈ tag, isTagChar c ∧ c.toLower = c)
    (attributes : List Attribute) (rest : List Char) :
    (tag ++ (attributes.flatMap Attribute.write ++ '>' :: rest)).takeWhile isTagChar = tag ∧
      (tag ++ (attributes.flatMap Attribute.write ++ '>' :: rest)).dropWhile isTagChar =
        attributes.flatMap Attribute.write ++ '>' :: rest := by
  have hall : ∀ c ∈ tag, isTagChar c = true := fun c hc => (htag c hc).1
  obtain ⟨c, text, hbehind, hc⟩ : ∃ c text,
      attributes.flatMap Attribute.write ++ '>' :: rest = c :: text ∧ isTagChar c = false := by
    cases attributes with
    | nil => exact ⟨'>', rest, rfl, by decide⟩
    | cons a attributes => exact ⟨' ', _, rfl, by decide⟩
  rw [hbehind, List.takeWhile_append_of_pos hall, List.dropWhile_append_of_pos hall,
    List.takeWhile_cons_of_neg (by simp [hc]), List.dropWhile_cons_of_neg (by simp [hc]),
    List.append_nil]
  exact ⟨rfl, rfl⟩

theorem length_attributes (attributes : List Attribute) :
    attributes.length ≤ (attributes.flatMap Attribute.write).length := by
  induction attributes with
  | nil => simp
  | cons a attributes ih =>
    rw [List.flatMap_cons, List.length_append, List.length_cons]
    have : 0 < a.write.length := by simp [Attribute.write]
    omega

/-- **A written opening tag is read back**, with the raw text behind it when the tag is one of raw
text. -/
theorem readOpening_write {tag : String} {attributes : List Attribute}
    (htag : Markup.IsTagName tag) (h : Markup.LegibleAttributes attributes) (rest : List Char) :
    readOpening (tag.toList ++ (attributes.flatMap Attribute.write ++ '>' :: rest)) =
      some (if Outline.isRaw tag then
          (.raw tag (Attribute.toMap attributes)
            (String.ofList (splitRaw tag.toList rest).1), (splitRaw tag.toList rest).2)
        else (.opening tag (Attribute.toMap attributes) false, rest)) := by
  obtain ⟨htake, hdrop⟩ := takeWhile_tag htag.2 attributes rest
  have hlen : attributes.length <
      (tag.toList ++ (attributes.flatMap Attribute.write ++ '>' :: rest)).length + 1 := by
    have := length_attributes attributes
    simp only [List.length_append]
    omega
  rw [readOpening, htake, hdrop, readAttributes_toMap h rest hlen,
    Text.lower_eq_self fun c hc => (htag.2 c hc).2, String.ofList_toList]
  rfl

/-- A declaration is skipped. -/
theorem readFirst_declaration {words : List Char} (rest : List Char) (hmark : '>' ∉ words)
    (hhead : words.head? ≠ some '-') :
    readFirst ('<' :: '!' :: (words ++ '>' :: rest)) = .ok (.skipped, rest) := by
  have hcomment : ∀ tail, words ++ '>' :: rest ≠ '-' :: '-' :: tail := by
    intro tail heq
    cases words with
    | nil => simp at heq
    | cons c words => exact hhead (by simpa using (List.cons.inj heq).1)
  rw [readFirst, Text.cut?_singleton_append rest hmark]
  exact hcomment

/-- **A written closing tag is read back.** -/
theorem readFirst_closing {tag : String} (htag : Markup.IsTagName tag) (rest : List Char) :
    readFirst ('<' :: '/' :: (tag.toList ++ '>' :: rest)) = .ok (.closing tag, rest) := by
  have hgt : '>' ∉ tag.toList := fun h => isTagChar_ne (htag.2 _ h).1 (by decide) rfl
  have htrim : Text.trimBlank tag.toList = tag.toList := Text.trimBlank_eq_self fun c hc =>
    have ⟨hlow, hhigh⟩ := toNat_of_isTagChar (htag.2 c hc).1
    Text.isBlank_eq_false hlow hhigh
  rw [readFirst, Text.cut?_singleton_append rest hgt]
  simp only [htrim, Text.lower_eq_self fun c hc => (htag.2 c hc).2, String.ofList_toList]

theorem readFirst_opening {tag : String} {text : List Char} (htag : Markup.IsTagName tag)
    {token : Token} {rest : List Char} (h : readOpening (tag.toList ++ text) = some (token, rest)) :
    readFirst ('<' :: (tag.toList ++ text)) = .ok (token, rest) := by
  obtain ⟨⟨c, name, hname, hc⟩, hchars⟩ := htag
  have hne : ∀ d, isTagChar d = false → c ≠ d := fun d =>
    isTagChar_ne (hchars c (by simp [hname])).1
  rw [hname, List.cons_append] at h ⊢
  rw [readFirst]
  · rw [if_pos ⟨rfl, by simp [hc]⟩, h]
  · exact fun _ _ hcons => hne '!' (by decide) (List.cons.inj hcons).1
  · exact fun _ _ hcons => hne '!' (by decide) (List.cons.inj hcons).1
  · exact fun _ _ hcons => hne '/' (by decide) (List.cons.inj hcons).1

/-- **An escaped text is read back**, up to the next tag. -/
theorem readFirst_text {content rest : List Char} (hne : content ≠ [])
    (hrest : rest = [] ∨ ∃ tail, rest = '<' :: tail) :
    readFirst (Markup.escapeChars content ++ rest) = .ok (.text (String.ofList content), rest) := by
  have hplain : ∀ d ∈ Markup.escapeChars content, (d != '<') = true := fun d hd => by
    simpa using (Markup.escapeChars_plain hd).1
  obtain ⟨c, text, hcons⟩ := List.exists_cons_of_ne_nil (mt Markup.escapeChars_eq_nil.1 hne)
  have hstop : (c :: text ++ rest).takeWhile (· != '<') = c :: text ∧
      (c :: text ++ rest).dropWhile (· != '<') = rest := by
    rw [← hcons, List.takeWhile_append_of_pos hplain, List.dropWhile_append_of_pos hplain]
    rcases hrest with rfl | ⟨tail, rfl⟩ <;> simp
  have hc : c ≠ '<' := by simpa using hplain c (by simp [hcons])
  rw [List.cons_append, List.takeWhile_cons_of_pos (by simpa using hc),
    List.dropWhile_cons_of_pos (by simpa using hc)] at hstop
  rw [hcons, List.cons_append, readFirst]
  · rw [if_neg fun h => hc h.1, hstop.1, hstop.2, ← hcons, Markup.unescapeChars_escapeChars]
  · exact fun _ h => absurd h hc
  · exact fun _ h => absurd h hc
  · exact fun _ h => absurd h hc

/-! ## Texts and their tokens -/

/-- The text is cut into these tokens, however much fuel there is beyond its length. -/
def Lexes (text : List Char) (tokens : List Token) : Prop :=
  ∀ fuel offset, text.length ≤ fuel → readFrom fuel offset text = .ok tokens

theorem lexes_nil : Lexes [] [] := by
  intro fuel offset _
  cases fuel <;> rfl

theorem lexes_cons {text rest : List Char} {token : Token} {tokens : List Token}
    (hfirst : readFirst text = .ok (token, rest)) (hlen : rest.length < text.length)
    (hrest : Lexes rest tokens) : Lexes text (token :: tokens) := by
  intro fuel offset hfuel
  obtain ⟨c, tail, rfl⟩ := List.exists_cons_of_length_pos (Nat.zero_lt_of_lt hlen)
  obtain ⟨fuel, rfl⟩ : ∃ k, fuel = k + 1 := ⟨fuel - 1, by simp at hfuel; omega⟩
  have hfuel : rest.length ≤ fuel := by
    simp only [List.length_cons] at hfuel hlen
    omega
  rw [readFrom, hfirst]
  · simp only [hrest fuel _ hfuel]
  · exact List.cons_ne_nil c tail

end MarkupReader

namespace Outline

@[simp] theorem pushText_empty (outlines : List Outline) : pushText "" outlines = outlines := by
  match outlines with
  | [] => rfl
  | .text more :: rest => simp [pushText]
  | .element .. :: rest => rfl

theorem pushText_pushText (a b : String) (outlines : List Outline) :
    pushText a (pushText b outlines) = pushText (a ++ b) outlines := by
  by_cases hb : b = ""
  · simp [hb]
  match outlines with
  | [] => simp [pushText, hb]
  | .text more :: rest => simp [pushText, String.append_assoc]
  | .element .. :: rest => simp [pushText, hb]

end Outline

namespace Markup

open MarkupReader Outline

/-- The text goes on with these outlines and then these tokens, also behind more text: the text
that was written in front of it joins the text that it begins with. -/
def Continues (text : List Char) (outlines : List Outline) (tokens : List Token) : Prop :=
  ∀ u : List Char,
    Lexes (escapeChars u ++ text) (tokensAll (pushText (String.ofList u) outlines) ++ tokens)

theorem Continues.lexes {text : List Char} {outlines : List Outline} {tokens : List Token}
    (h : Continues text outlines tokens) : Lexes text (tokensAll outlines ++ tokens) := by
  have := h []
  rwa [escapeChars_nil, List.nil_append, String.ofList_nil, pushText_empty] at this

/-- A tag, or the end, ends the text in front of it. -/
theorem Continues.of_lexes {text : List Char} {outlines : List Outline} {tokens : List Token}
    (hhead : text = [] ∨ ∃ tail, text = '<' :: tail)
    (houtlines : ∀ more rest, outlines ≠ .text more :: rest)
    (h : Lexes text (tokensAll outlines ++ tokens)) : Continues text outlines tokens := by
  intro u
  by_cases hu : u = []
  · rwa [hu, escapeChars_nil, List.nil_append, String.ofList_nil, pushText_empty]
  · have hpush : pushText (String.ofList u) outlines = .text (String.ofList u) :: outlines := by
      match outlines, houtlines with
      | [], _ => simp [pushText, hu]
      | .text more :: rest, houtlines => exact absurd rfl (houtlines more rest)
      | .element .. :: rest, _ => simp [pushText, hu]
    rw [hpush]
    refine lexes_cons (readFirst_text hu hhead) ?_ h
    have : 0 < (escapeChars u).length :=
      List.length_pos_of_ne_nil (mt escapeChars_eq_nil.1 hu)
    rw [List.length_append]
    omega

theorem escapeChars_of_isBareText {content : String} (h : IsBareText content) :
    escapeChars content.toList = content.toList :=
  escapeChars_of_plain h

theorem continues_text {content : String} {text : List Char} {outlines : List Outline}
    {tokens : List Token} (h : Continues text outlines tokens) :
    Continues (escapeChars content.toList ++ text) (pushText content outlines) tokens := by
  intro u
  have := h (u ++ content.toList)
  rwa [escapeChars_append, List.append_assoc, String.ofList_append, String.ofList_toList,
    ← pushText_pushText] at this

theorem length_write_lt (tag : List Char) (attributes : List Attribute) (rest : List Char) :
    rest.length <
      ('<' :: (tag ++ (attributes.flatMap Attribute.write ++ '>' :: rest))).length := by
  simp only [List.length_cons, List.length_append]
  omega

mutual

/-- **Written markup, and what follows it, is cut into the tokens of its outline.** -/
theorem continues_write : ∀ (m : Markup), Legible m → ∀ {behind : List Char}
    {after : List Outline} {tokens : List Token}, Continues behind after tokens →
    Continues (write m ++ behind) (m.outlines after) tokens
  | .text content, _, _, _, _, h => continues_text h
  | .verbatim content, hlegible, behind, after, tokens, h => by
    have : Continues (escapeChars content.toList ++ behind) (pushText content after) tokens :=
      continues_text h
    rwa [escapeChars_of_isBareText hlegible] at this
  | .element tag attributes content, ⟨htag, hattributes, hcontent⟩, behind, after, tokens, h => by
    have hbehind : Lexes behind (tokensAll after ++ tokens) := h.lexes
    have hopening := fun rest => readOpening_write htag hattributes rest
    refine Continues.of_lexes (Or.inr ⟨_, rfl⟩) (by simp [Markup.outlines]) ?_
    rw [Markup.outlines, tokensAll, Outline.tokens, write, writeOpening]
    by_cases hraw : isRaw tag = true
    · -- raw text runs up to the closing tag
      rw [if_pos hraw] at hcontent ⊢
      simp only [if_pos hraw] at hopening
      obtain ⟨hvoid, hcontent⟩ := hcontent
      obtain ⟨body, hwrite, hown, hbody⟩ : ∃ body : String, writeAll content = body.toList ∧
          ownText (outlinesAll content) = body ∧ IsRawBody tag body := by
        rcases hcontent with ⟨rfl, hbody⟩ | ⟨body, rfl, hbody⟩
        · exact ⟨"", rfl, rfl, hbody⟩
        · refine ⟨body, by simp [writeAll, write], ?_, hbody⟩
          by_cases hempty : body = ""
          · simp [outlinesAll, Markup.outlines, hempty, ownText]
          · simp [outlinesAll, Markup.outlines, pushText, hempty, ownText]
      have hsplit := splitRaw_append htag.2 (Text.occursIn_eq_false_iff.1 hbody) behind
      have hfirst := readFirst_opening htag
        (hopening (body.toList ++ '<' :: '/' :: (tag.toList ++ '>' :: behind)))
      rw [hsplit, String.ofList_toList] at hfirst
      simp only [hvoid, Bool.false_eq_true, if_false, hwrite, hown, List.cons_append,
        List.nil_append, List.append_assoc]
      refine lexes_cons hfirst ?_ hbehind
      simp only [List.length_cons, List.length_append]
      omega
    · rw [if_neg hraw] at hcontent ⊢
      simp only [if_neg hraw] at hopening
      by_cases hvoid : isVoid tag = true
      · -- nothing is inside an element with a void tag
        simp only [if_pos hvoid, List.cons_append, List.nil_append, List.append_assoc]
        exact lexes_cons (readFirst_opening htag (hopening behind)) (length_write_lt _ _ _) hbehind
      · rw [if_neg hvoid] at hcontent
        have hclosing : Lexes ('<' :: '/' :: (tag.toList ++ '>' :: behind))
            (.closing tag :: (tokensAll after ++ tokens)) :=
          lexes_cons (readFirst_closing htag behind) (by simp; omega) hbehind
        have hinside := (continues_writeAll content hcontent (Or.inr ⟨_, rfl⟩) hclosing).lexes
        simp only [if_neg hvoid, List.cons_append, List.nil_append, List.append_assoc]
        exact lexes_cons (readFirst_opening htag (hopening _)) (length_write_lt _ _ _) hinside

theorem continues_writeAll : ∀ (ms : List Markup), LegibleAll ms → ∀ {behind : List Char}
    {tokens : List Token}, (behind = [] ∨ ∃ tail, behind = '<' :: tail) → Lexes behind tokens →
    Continues (writeAll ms ++ behind) (outlinesAll ms) tokens
  | [], _, behind, tokens, hhead, h => Continues.of_lexes hhead (by simp [outlinesAll]) h
  | m :: ms, ⟨hm, hms⟩, behind, tokens, hhead, h => by
    rw [writeAll, List.append_assoc]
    exact continues_write m hm (continues_writeAll ms hms hhead h)

end

end Markup

end PageTree
