import PageTree.Proofs.Markup.ByteReader

/-!
# Progress of reading markup

The scanner takes up one token in each round of its main loop. Each kind of token has a lemma that
tells, by the text behind the offset, which offset the round leaves. From these the scanner is seen
to agree with the reader, round by round and then for a whole text. What the reader is known to do
with lists then holds of offsets: they grow, they stay between characters and within the text, and
where the scanner fails a construct begins that has no end.

## Main results

* `ByteReader.step_offset`, `ByteReader.scan_eq`: the scanner agrees with the reader
* `ByteReader.step_progress`, `ByteReader.round_progress`: what one round of each loop does
* `ByteReader.reading_progresses`: offsets grow and stay between characters, and what a fault says
-/

namespace PageTree

open Text MarkupReader

namespace ByteReader

theorem takeWhile_of_dropWhile_nil {p : Char → Bool} {text : List Char}
    (h : text.dropWhile p = []) : text.takeWhile p = text := by
  rw [← List.append_nil (text.takeWhile p), ← h, List.takeWhile_append_dropWhile]

/-! ## Tokens -/

theorem slice_bracket (rest : List Char) :
    slice ('<' :: rest) 1 (bytes ('<' :: rest)).length = .ok rest := by
  have hslice := slice_behind ['<'] rest
  rwa [length_bytes_mark (by decide)] at hslice

theorem textStop_eq (c : Char) (rest : List Char) :
    textStop (c :: rest) = .ok (bytes (c :: rest.takeWhile (· != '<'))).length := by
  rw [textStop]
  by_cases hc : c = '<'
  · subst hc
    -- The text is an angle bracket that begins nothing: the search goes on behind it.
    have hdrop : ('<' :: rest).dropWhile (· != '<') = '<' :: rest :=
      List.dropWhile_cons_of_neg (by decide)
    obtain ⟨stop, hfind, hstop, -⟩ := find?_mark_some (by decide) hdrop
    rw [List.takeWhile_cons_of_neg (by decide)] at hstop
    rw [hfind, hstop]
    show (slice ('<' :: rest) 1 _ >>= _) = _
    rw [slice_bracket, ok_bind]
    cases hmark : rest.dropWhile (· != '<') with
    | nil =>
      rw [find?_mark_none hmark, takeWhile_of_dropWhile_nil hmark]
      rfl
    | cons d behind =>
      obtain ⟨stop, hfind, hstop, -⟩ := find?_mark_some (by decide) hmark
      rw [hfind, hstop, bytes_cons, List.length_append, Nat.add_comm]
      rfl
  · have hpos : (c != '<') = true := by simp [hc]
    have hdrop : (c :: rest).dropWhile (· != '<') = rest.dropWhile (· != '<') :=
      List.dropWhile_cons_of_pos hpos
    have htake : (c :: rest).takeWhile (· != '<') = c :: rest.takeWhile (· != '<') :=
      List.takeWhile_cons_of_pos hpos
    cases hmark : rest.dropWhile (· != '<') with
    | nil =>
      rw [find?_mark_none (hdrop.trans hmark), takeWhile_of_dropWhile_nil hmark]
      rfl
    | cons d behind =>
      obtain ⟨stop, hfind, hstop, -⟩ := find?_mark_some (by decide) (hdrop.trans hmark)
      rw [htake] at hstop
      obtain ⟨n, hn⟩ : ∃ n, stop = n + 1 := Nat.exists_eq_succ_of_ne_zero
        (hstop ▸ (length_bytes_pos (List.cons_ne_nil _ _)).ne')
      rw [hfind, ← hstop, hn]
      rfl

theorem textRun_eq (c : Char) (rest : List Char) (pos : Nat) :
    textRun (c :: rest) pos =
      .ok (.text (String.ofList (Markup.unescapeChars (c :: rest.takeWhile (· != '<')))),
        pos + offset (c :: rest) (rest.dropWhile (· != '<'))) := by
  have hsplit : c :: rest = (c :: rest.takeWhile (· != '<')) ++ rest.dropWhile (· != '<') := by
    rw [List.cons_append, List.takeWhile_append_dropWhile]
  rw [textRun, textStop_eq, ok_bind]
  generalize c :: rest.takeWhile (· != '<') = content at hsplit
  rw [hsplit, slice_zero, offset_append]
  rfl

theorem openingTag_offset {html rest : List Char} (h : '<' :: rest <:+ html) :
    openingTag html ('<' :: rest) (offset html ('<' :: rest)) =
      match readOpening rest with
      | some (token, behind) => .ok (token, offset html behind)
      | none => .error (.fault ⟨.tag, offset html ('<' :: rest)⟩) := by
  rw [openingTag, openTag_eq, ok_bind, readOpening]
  cases hread : readAttributes (rest.length + 1) [] (rest.dropWhile isTagChar) with
  | none => rfl
  | some p =>
    obtain ⟨m, bySlash, behind⟩ := p
    have hbehind : behind <:+ '<' :: rest :=
      ((readAttributes_behind hread).suffix.trans (List.dropWhile_suffix _)).trans
        (List.suffix_cons ..)
    have hoffset : offset html ('<' :: rest) + offset ('<' :: rest) behind = offset html behind :=
      (offset_trans h hbehind).symm
    simp only [Option.map_some, hoffset, rawText_offset (hbehind.trans h), ok_bind]
    split
    · rfl
    · rfl

theorem comment_eq (inside : List Char) (pos : Nat) :
    comment ('<' :: '!' :: '-' :: '-' :: inside) pos =
      match cut? ['-', '-', '>'] inside with
      | some (_, behind) =>
        .ok (.skipped, pos + offset ('<' :: '!' :: '-' :: '-' :: inside) behind)
      | none => .error (.fault ⟨.comment, pos⟩) := by
  have hslice : slice ('<' :: '!' :: '-' :: '-' :: inside) 4
      (bytes ('<' :: '!' :: '-' :: '-' :: inside)).length = .ok inside :=
    slice_behind ['<', '!', '-', '-'] inside
  rw [comment, hslice, ok_bind]
  cases hcut : cut? ['-', '-', '>'] inside with
  | none =>
    rw [find?_eq_none hcut]
    rfl
  | some p =>
    obtain ⟨before, behind⟩ := p
    obtain ⟨hfind, hoffset⟩ := find?_of_cut? hcut
    have hend : offset ('<' :: '!' :: '-' :: '-' :: inside) behind =
        4 + (bytes before).length + 3 := by
      have hpiece := offset_behind ['<', '!', '-', '-'] (suffix_of_cut? hcut)
      rwa [hoffset] at hpiece
    rw [hfind]
    show Except.ok (Token.skipped, pos + (4 + (bytes before).length + 3)) = _
    rw [← hend]

theorem declaration_eq (inside : List Char) (pos : Nat) :
    declaration ('<' :: '!' :: inside) pos =
      match cut? ['>'] inside with
      | some (_, behind) => .ok (.skipped, pos + offset ('<' :: '!' :: inside) behind)
      | none => .error (.fault ⟨.declaration, pos⟩) := by
  have hskip : cut? ['>'] ('<' :: '!' :: inside) =
      (cut? ['>'] inside).map fun p => ('<' :: '!' :: p.1, p.2) := by
    rw [cut?_cons_ne (by decide), cut?_cons_ne (by decide), Option.map_map]
    rfl
  rw [declaration]
  cases hcut : cut? ['>'] inside with
  | none =>
    rw [hcut] at hskip
    rw [find?_eq_none hskip]
  | some p =>
    obtain ⟨before, behind⟩ := p
    rw [hcut, Option.map_some] at hskip
    obtain ⟨hfind, hoffset⟩ := find?_of_cut? hskip
    rw [hfind]
    show Except.ok (Token.skipped, pos + ((bytes ('<' :: '!' :: before)).length + 1)) = _
    have hmark : (bytes ['>']).length = 1 := length_bytes_mark (by decide)
    rw [← hmark, ← hoffset]

theorem closingTag_eq (inside : List Char) (pos : Nat) :
    closingTag ('<' :: '/' :: inside) pos =
      match cut? ['>'] inside with
      | some (name, behind) =>
        .ok (.closing (String.ofList (lower (trimBlank name))),
          pos + offset ('<' :: '/' :: inside) behind)
      | none => .error (.fault ⟨.closingTag, pos⟩) := by
  have hslice : slice ('<' :: '/' :: inside) 2 (bytes ('<' :: '/' :: inside)).length = .ok inside :=
    slice_behind ['<', '/'] inside
  rw [closingTag, hslice, ok_bind]
  cases hcut : cut? ['>'] inside with
  | none =>
    rw [find?_eq_none hcut]
    rfl
  | some p =>
    obtain ⟨name, behind⟩ := p
    obtain ⟨hfind, hoffset⟩ := find?_of_cut? hcut
    have hname : slice inside 0 (bytes name).length = .ok name := by
      have hsplit := slice_zero name (['>'] ++ behind)
      rwa [← List.append_assoc, ← eq_of_cut? hcut] at hsplit
    have hend : offset ('<' :: '/' :: inside) behind = 2 + (bytes name).length + 1 := by
      have hpiece := offset_behind ['<', '/'] (suffix_of_cut? hcut)
      rwa [hoffset] at hpiece
    rw [hfind]
    show (slice inside 0 (bytes name).length >>= _) = _
    rw [hname, ok_bind]
    show Except.ok (_, pos + (2 + (bytes name).length + 1)) = _
    rw [← hend]

theorem opensTag_eq (c : Char) (rest : List Char) :
    opensTag (c :: rest) = .ok (decide (c = '<' ∧ rest.head?.any Char.isAlpha)) := by
  rw [opensTag]
  by_cases hc : c = '<'
  · subst hc
    have hbegins : List.isPrefixOf ['<'] ('<' :: rest) = true := by simp [List.isPrefixOf]
    rw [if_pos hbegins, slice_bracket, ok_bind]
    simp [pure, Except.pure]
  · have hbegins : ¬List.isPrefixOf ['<'] (c :: rest) = true := by
      simp [List.isPrefixOf, Ne.symm hc]
    rw [if_neg hbegins]
    simp [hc, pure, Except.pure]

theorem isPrefixOf_of_eq {piece text : List Char} (rest : List Char) (h : piece ++ rest = text) :
    piece.isPrefixOf text = true := by
  rw [List.isPrefixOf_iff_prefix]
  exact ⟨rest, h⟩

theorem not_isPrefixOf {piece text : List Char} (h : ∀ rest, piece ++ rest ≠ text) :
    ¬piece.isPrefixOf text = true := by
  rw [List.isPrefixOf_iff_prefix]
  rintro ⟨rest, heq⟩
  exact h rest heq

theorem step_comment {html inside : List Char} (h : '<' :: '!' :: '-' :: '-' :: inside <:+ html) :
    step html (offset html ('<' :: '!' :: '-' :: '-' :: inside)) =
      comment ('<' :: '!' :: '-' :: '-' :: inside)
        (offset html ('<' :: '!' :: '-' :: '-' :: inside)) := by
  have hbegins : List.isPrefixOf ['<', '!', '-', '-'] ('<' :: '!' :: '-' :: '-' :: inside) = true :=
    isPrefixOf_of_eq inside rfl
  rw [step, slice_offset_end h, ok_bind, if_pos hbegins]

theorem step_declaration {html inside : List Char} (h : '<' :: '!' :: inside <:+ html)
    (hcomment : ∀ rest, inside = '-' :: '-' :: rest → False) :
    step html (offset html ('<' :: '!' :: inside)) =
      declaration ('<' :: '!' :: inside) (offset html ('<' :: '!' :: inside)) := by
  have hbegins : List.isPrefixOf ['<', '!'] ('<' :: '!' :: inside) = true :=
    isPrefixOf_of_eq inside rfl
  have hnot : ¬List.isPrefixOf ['<', '!', '-', '-'] ('<' :: '!' :: inside) = true :=
    not_isPrefixOf fun rest heq => hcomment rest (List.cons.inj (List.cons.inj heq).2).2.symm
  rw [step, slice_offset_end h, ok_bind, if_neg hnot, if_pos hbegins]

theorem step_closingTag {html inside : List Char} (h : '<' :: '/' :: inside <:+ html) :
    step html (offset html ('<' :: '/' :: inside)) =
      closingTag ('<' :: '/' :: inside) (offset html ('<' :: '/' :: inside)) := by
  have hbegins : List.isPrefixOf ['<', '/'] ('<' :: '/' :: inside) = true :=
    isPrefixOf_of_eq inside rfl
  rw [step, slice_offset_end h, ok_bind, if_neg (not_isPrefixOf fun _ heq => by cases heq),
    if_neg (not_isPrefixOf fun _ heq => by cases heq), if_pos hbegins]

/-- Where no comment, declaration or closing tag begins there is an opening tag or a text. -/
theorem step_plain {html inside : List Char} {c : Char} (h : c :: inside <:+ html)
    (hdeclaration : ∀ rest, c = '<' → inside = '!' :: rest → False)
    (hclosing : ∀ rest, c = '<' → inside = '/' :: rest → False) :
    step html (offset html (c :: inside)) =
      if c = '<' ∧ inside.head?.any Char.isAlpha then
        openingTag html (c :: inside) (offset html (c :: inside))
      else textRun (c :: inside) (offset html (c :: inside)) := by
  rw [step, slice_offset_end h, ok_bind,
    if_neg (not_isPrefixOf fun rest heq =>
      hdeclaration _ (List.cons.inj heq).1.symm (List.cons.inj heq).2.symm),
    if_neg (not_isPrefixOf fun rest heq =>
      hdeclaration rest (List.cons.inj heq).1.symm (List.cons.inj heq).2.symm),
    if_neg (not_isPrefixOf fun rest heq =>
      hclosing rest (List.cons.inj heq).1.symm (List.cons.inj heq).2.symm), opensTag_eq, ok_bind]
  by_cases hopen : c = '<' ∧ inside.head?.any Char.isAlpha
  · rw [if_pos (decide_eq_true hopen), if_pos hopen]
  · rw [decide_eq_false hopen, if_neg Bool.false_ne_true, if_neg hopen]

/-- **A step by offsets takes the token of the reader**, or it fails as the reader does and says
where it stands. -/
theorem step_offset {html rest : List Char} (h : rest <:+ html) (hne : rest ≠ []) :
    step html (offset html rest) =
      match readFirst rest with
      | .ok (token, behind) => .ok (token, offset html behind)
      | .error what => .error (.fault ⟨what, offset html rest⟩) := by
  have hoffset {behind : List Char} (hbehind : behind <:+ rest) :
      offset html rest + offset rest behind = offset html behind := (offset_trans h hbehind).symm
  fun_cases readFirst rest with
  | case1 inside before behind hcut =>
    have hbehind : behind <:+ '<' :: '!' :: '-' :: '-' :: inside :=
      (suffix_of_cut? hcut).trans (List.suffix_append ['<', '!', '-', '-'] inside)
    rw [step_comment h, comment_eq, hcut]
    dsimp only
    rw [hoffset hbehind]
  | case2 inside hcut =>
    rw [step_comment h, comment_eq, hcut]
  | case3 inside hcomment before behind hcut =>
    have hbehind : behind <:+ '<' :: '!' :: inside :=
      (suffix_of_cut? hcut).trans (List.suffix_append ['<', '!'] inside)
    rw [step_declaration h hcomment, declaration_eq, hcut]
    dsimp only
    rw [hoffset hbehind]
  | case4 inside hcomment hcut =>
    rw [step_declaration h hcomment, declaration_eq, hcut]
  | case5 inside name behind hcut =>
    have hbehind : behind <:+ '<' :: '/' :: inside :=
      (suffix_of_cut? hcut).trans (List.suffix_append ['<', '/'] inside)
    rw [step_closingTag h, closingTag_eq, hcut]
    dsimp only
    rw [hoffset hbehind]
  | case6 inside hcut =>
    rw [step_closingTag h, closingTag_eq, hcut]
  | case7 c inside hcomment hdeclaration hclosing hopen token behind hread =>
    rw [step_plain h hdeclaration hclosing, if_pos hopen]
    obtain ⟨rfl, -⟩ := hopen
    rw [openingTag_offset h, hread]
  | case8 c inside hcomment hdeclaration hclosing hopen hread =>
    rw [step_plain h hdeclaration hclosing, if_pos hopen]
    obtain ⟨rfl, -⟩ := hopen
    rw [openingTag_offset h, hread]
  | case9 c inside hcomment hdeclaration hclosing hopen =>
    rw [step_plain h hdeclaration hclosing, if_neg hopen, textRun_eq]
    dsimp only
    rw [hoffset ((List.dropWhile_suffix _).trans (List.suffix_cons ..))]
  | case10 => exact absurd rfl hne

/-! ## The whole text -/

theorem byteLength_eq (text : List Char) : byteLength text = (bytes text).length := by
  have hfold (n : Nat) : text.foldl (fun n c => n + c.utf8Size) n = n + (bytes text).length := by
    induction text generalizing n with
    | nil => rfl
    | cons c text ih =>
      rw [List.foldl_cons, ih, bytes_cons, List.length_append, String.length_utf8EncodeChar]
      omega
  rw [byteLength, hfold, Nat.zero_add]

/-- **The loop over tokens gives the tokens of the reader**, or the fault of the reader. -/
theorem scanFrom_offset {html rest : List Char} (h : rest <:+ html) {fuel fuel' : Nat}
    (hfuel : rest.length < fuel) (hfuel' : rest.length ≤ fuel') :
    scanFrom html fuel (offset html rest) =
      (readFrom fuel' (offset html rest) rest).mapError Halt.fault := by
  induction fuel generalizing fuel' rest with
  | zero => exact absurd hfuel (Nat.not_lt_zero _)
  | succ fuel ih =>
    rw [scanFrom]
    by_cases hne : rest = []
    · subst hne
      rw [offset_nil, if_neg (Nat.lt_irrefl _), readFrom.eq_def]
      rfl
    · obtain ⟨c, text, rfl⟩ := List.exists_cons_of_ne_nil hne
      obtain ⟨fuel', rfl⟩ : ∃ k, fuel' = k + 1 := ⟨fuel' - 1, by simp at hfuel'; omega⟩
      rw [if_pos ((offset_lt_iff h).2 hne), step_offset h hne, readFrom]
      · cases hread : readFirst (c :: text) with
        | error what => rfl
        | ok p =>
          obtain ⟨token, behind⟩ := p
          have hbehind := readFirst_behind hne hread
          have hlt := hbehind.length_lt
          have hnext : offset html (c :: text) + (byteLength (c :: text) - byteLength behind) =
              offset html behind := by
            rw [byteLength_eq, byteLength_eq]
            exact (offset_trans h hbehind.suffix).symm
          dsimp only
          have hle : behind.length ≤ fuel' := by omega
          rw [ok_bind, hnext, ih (hbehind.suffix.trans h) (by omega) hle]
          cases readFrom fuel' (offset html behind) behind with
          | error fault => rfl
          | ok tokens => rfl
      · exact hne

/-- **The scanner agrees with the reader.** -/
theorem scan_eq (markup : String) :
    scan markup = (Token.ofMarkup markup).mapError Halt.fault := by
  have hlen := length_le_length_bytes markup.toList
  rw [length_bytes, String.ofList_toList] at hlen
  have hfuel : markup.toList.length < markup.utf8ByteSize + 1 := Nat.lt_succ_of_le hlen
  have hscan := scanFrom_offset (List.suffix_refl markup.toList) hfuel (Nat.le_refl _)
  rwa [offset_self] at hscan

/-! ## Progress -/

/-- The offsets at which the loop over tokens stands. -/
inductive Visits (html : List Char) : Nat → Prop
  | start : Visits html 0
  | step {pos next : Nat} {token : Token} : Visits html pos → pos < (bytes html).length →
      ByteReader.step html pos = .ok (token, next) → Visits html next

/-- The offsets at which the loop over the attributes of an opening tag stands. -/
inductive VisitsTag (tag : List Char) : Nat → Prop
  | start : VisitsTag tag (attributesStart tag)
  | round {i next : Nat} {r : TagRound Nat} : VisitsTag tag i → ByteReader.round tag i = .ok r →
      r.onward? = some next → VisitsTag tag next

/-- The loop over tokens stands between characters. -/
theorem Visits.exists_suffix {html : List Char} {pos : Nat} (h : Visits html pos) :
    ∃ rest, rest <:+ html ∧ offset html rest = pos := by
  induction h with
  | start => exact ⟨html, List.suffix_refl html, offset_self html⟩
  | step _ hlt hstep ih =>
    obtain ⟨rest, hrest, rfl⟩ := ih
    have hne := (offset_lt_iff hrest).1 hlt
    rw [step_offset hrest hne] at hstep
    cases hread : readFirst rest with
    | error what =>
      rw [hread] at hstep
      cases hstep
    | ok p =>
      rw [hread] at hstep
      cases hstep
      exact ⟨p.2, (readFirst_behind hne hread).suffix.trans hrest, rfl⟩

/-- The loop over attributes stands between characters. -/
theorem VisitsTag.exists_suffix {text : List Char} {i : Nat} (h : VisitsTag ('<' :: text) i) :
    ∃ rest, rest <:+ '<' :: text ∧ offset ('<' :: text) rest = i := by
  induction h with
  | start =>
    exact ⟨text.dropWhile isTagChar, (List.dropWhile_suffix _).trans (List.suffix_cons ..),
      (attributesStart_eq text).symm⟩
  | round _ hround hnext ih =>
    obtain ⟨rest, hrest, rfl⟩ := ih
    rw [round_offset hrest] at hround
    cases hround
    rw [TagRound.onward?_map] at hnext
    obtain ⟨behind, hbehind, rfl⟩ := Option.map_eq_some_iff.1 hnext
    exact ⟨behind, (readRound_behind (TagRound.next?_of_onward? hbehind)).suffix.trans hrest, rfl⟩

theorem offset_lt_of_isBehind {text rest behind : List Char} (h : rest <:+ text)
    (hbehind : IsBehind behind rest) : offset text rest < offset text behind := by
  obtain ⟨piece, hne, rfl⟩ := hbehind
  exact offset_lt_of_append h hne

/-- A step moves on, or it stands at a construct without its end. -/
theorem step_progress {html : List Char} {pos : Nat} (h : Visits html pos)
    (hlt : pos < (bytes html).length) :
    (∃ token next, step html pos = .ok (token, next) ∧ pos < next ∧
      next ≤ (bytes html).length) ∨
    ∃ what rest, step html pos = .error (.fault ⟨what, pos⟩) ∧ rest <:+ html ∧
      offset html rest = pos ∧ what.Begins rest := by
  obtain ⟨rest, hrest, rfl⟩ := h.exists_suffix
  have hne := (offset_lt_iff hrest).1 hlt
  rw [step_offset hrest hne]
  cases hread : readFirst rest with
  | ok p =>
    exact Or.inl ⟨p.1, offset html p.2, rfl,
      offset_lt_of_isBehind hrest (readFirst_behind hne hread), offset_le⟩
  | error what =>
    exact Or.inr ⟨what, rest, rfl, hrest, rfl, readFirst_eq_error_iff.1 hread⟩

/-- A round of reading attributes moves on, unless the text ends within the tag. -/
theorem round_progress {text : List Char} {i : Nat} (h : VisitsTag ('<' :: text) i) :
    ∃ r, round ('<' :: text) i = .ok r ∧
      ∀ next, r.next? = some next → i < next ∧ next ≤ (bytes ('<' :: text)).length := by
  obtain ⟨rest, hrest, rfl⟩ := h.exists_suffix
  refine ⟨_, round_offset hrest, fun next hnext => ?_⟩
  rw [TagRound.next?_map] at hnext
  obtain ⟨behind, hbehind, rfl⟩ := Option.map_eq_some_iff.1 hnext
  exact ⟨offset_lt_of_isBehind hrest (readRound_behind hbehind), offset_le⟩

/-- A fault stands at the construct that has no end. -/
theorem readFrom_fault {html rest : List Char} (h : rest <:+ html) {fuel : Nat}
    {fault : MarkupFault} (hread : readFrom fuel (offset html rest) rest = .error fault) :
    ∃ before behind, html = before ++ behind ∧ (bytes before).length = fault.offset ∧
      fault.what.Begins behind := by
  induction fuel generalizing rest with
  | zero =>
    cases rest with
    | nil =>
      rw [readFrom] at hread
      cases hread
    | cons c text =>
      rw [readFrom] at hread
      · cases hread
      · exact List.cons_ne_nil c text
  | succ fuel ih =>
    cases rest with
    | nil =>
      rw [readFrom] at hread
      cases hread
    | cons c text =>
      have hne := List.cons_ne_nil c text
      rw [readFrom] at hread
      · cases hfirst : readFirst (c :: text) with
        | error what =>
          rw [hfirst] at hread
          cases hread
          obtain ⟨before, rfl⟩ := h
          exact ⟨before, c :: text, rfl, (offset_append ..).symm, readFirst_eq_error_iff.1 hfirst⟩
        | ok p =>
          obtain ⟨token, behind⟩ := p
          have hbehind := readFirst_behind hne hfirst
          have hnext : offset html (c :: text) + (byteLength (c :: text) - byteLength behind) =
              offset html behind := by
            rw [byteLength_eq, byteLength_eq]
            exact (offset_trans h hbehind.suffix).symm
          rw [hfirst] at hread
          dsimp only at hread
          rw [hnext] at hread
          cases hrest : readFrom fuel (offset html behind) behind with
          | error fault' =>
            rw [hrest] at hread
            cases hread
            exact ih (hbehind.suffix.trans h) hrest
          | ok tokens =>
            rw [hrest] at hread
            cases hread
      · exact hne

theorem ofMarkup_fault {markup : String} {fault : MarkupFault}
    (h : Token.ofMarkup markup = .error fault) :
    ∃ rest, rest <:+ markup.toList ∧ offset markup.toList rest = fault.offset ∧
      fault.what.Begins rest := by
  rw [Token.ofMarkup, ← offset_self markup.toList] at h
  obtain ⟨before, behind, htext, hoffset, hbegins⟩ := readFrom_fault (List.suffix_refl _) h
  refine ⟨behind, ⟨before, htext.symm⟩, ?_, hbegins⟩
  rw [htext, offset_append, hoffset]

/-- **Reading makes progress on every text.** The scanner gives what the reader gives, so no slice
is torn and no loop stalls. The loop over tokens stands between characters; from there it moves on
within the text, or it stands at a construct that has no end. So does the loop over the attributes
of a tag, except that it may find the text to end. A fault of the reader stands at an angle bracket
within the text where the construct begins that has no end. -/
theorem reading_progresses (markup : String) :
    scan markup = (Token.ofMarkup markup).mapError Halt.fault ∧
    scan markup ≠ .error .torn ∧ scan markup ≠ .error .stalled ∧
    (∀ pos, Visits markup.toList pos →
      (String.Pos.Raw.mk pos).IsValid markup ∧
      (pos < markup.utf8ByteSize →
        (∃ token next, step markup.toList pos = .ok (token, next) ∧ pos < next ∧
          next ≤ markup.utf8ByteSize) ∨
        ∃ what rest, step markup.toList pos = .error (.fault ⟨what, pos⟩) ∧
          slice markup.toList pos markup.utf8ByteSize = .ok rest ∧ what.Begins rest)) ∧
    (∀ pos tag, Visits markup.toList pos →
      slice markup.toList pos markup.utf8ByteSize = .ok ('<' :: tag) →
      ∀ i, VisitsTag ('<' :: tag) i →
        (String.Pos.Raw.mk (pos + i)).IsValid markup ∧
        ∃ r, round ('<' :: tag) i = .ok r ∧
          ∀ next, r.next? = some next → i < next ∧ pos + next ≤ markup.utf8ByteSize) ∧
    ∀ fault, Forest.read markup = .error fault →
      fault.offset < markup.utf8ByteSize ∧
      ∃ rest, slice markup.toList fault.offset markup.utf8ByteSize = .ok rest ∧
        rest.head? = some '<' ∧ fault.what.Begins rest := by
  have hsize := length_bytes_toList markup
  rw [← hsize]
  refine ⟨scan_eq markup, ?_, ?_, fun pos hpos => ⟨?_, fun hlt => ?_⟩,
    fun pos tag hpos htag i hi => ?_, fun fault hfault => ?_⟩
  · rw [scan_eq]
    cases Token.ofMarkup markup <;> exact nofun
  · rw [scan_eq]
    cases Token.ofMarkup markup <;> exact nofun
  · obtain ⟨rest, hrest, rfl⟩ := hpos.exists_suffix
    exact isValid_offset hrest
  · refine (step_progress hpos hlt).imp_right ?_
    rintro ⟨what, rest, hstep, hrest, rfl, hbegins⟩
    exact ⟨what, rest, hstep, slice_offset_end hrest, hbegins⟩
  · obtain ⟨rest, hrest, rfl⟩ := hpos.exists_suffix
    rw [slice_offset_end hrest] at htag
    obtain rfl : rest = '<' :: tag := Except.ok.inj htag
    constructor
    · obtain ⟨inner, hinner, rfl⟩ := hi.exists_suffix
      rw [← offset_trans hrest hinner]
      exact isValid_offset (hinner.trans hrest)
    · obtain ⟨r, hround, hnext⟩ := round_progress hi
      refine ⟨r, hround, fun next h => ⟨(hnext next h).1, ?_⟩⟩
      rw [← offset_add_length hrest]
      exact Nat.add_le_add_left (hnext next h).2 _
  · have hread : Token.ofMarkup markup = .error fault := by
      rw [Forest.read] at hfault
      cases htokens : Token.ofMarkup markup with
      | error fault' =>
        rw [htokens] at hfault
        cases hfault
        rfl
      | ok tokens =>
        rw [htokens] at hfault
        cases hfault
    obtain ⟨rest, hrest, hoffset, hbegins⟩ := ofMarkup_fault hread
    have hhead := head_of_begins hbegins
    have hne : rest ≠ [] := by
      rintro rfl
      cases hhead
    rw [← hoffset]
    exact ⟨(offset_lt_iff hrest).2 hne, rest, slice_offset_end hrest, hhead, hbegins⟩

/-- A tag that is cut off within a quoted value, behind a character of two bytes. -/
theorem reading_progresses_cut :
    Forest.read "ü<b a='é>" = .error ⟨.tag, 2⟩ ∧ 2 < "ü<b a='é>".utf8ByteSize ∧
      Unterminated.tag.Begins "<b a='é>".toList := by
  have hread : Forest.read "ü<b a='é>" = .error ⟨.tag, 2⟩ := by rfl
  obtain ⟨-, -, -, -, -, hfault⟩ := reading_progresses "ü<b a='é>"
  obtain ⟨hlt, rest, hslice, -, hbegins⟩ := hfault _ hread
  have hrest : rest = "<b a='é>".toList := by
    have hslice' : slice "ü<b a='é>".toList 2 "ü<b a='é>".utf8ByteSize = .ok "<b a='é>".toList := by
      rfl
    exact Except.ok.inj (hslice.symm.trans hslice')
  exact ⟨hread, hlt, hrest ▸ hbegins⟩

end ByteReader

end PageTree
