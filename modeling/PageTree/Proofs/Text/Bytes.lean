import Mathlib.Tactic.Common
import PageTree.Proofs.Text.Cutting

/-!
# The bytes of a text

A scanner that works on bytes goes by offsets into the UTF-8 form of a text. It is safe as long as
its offsets lie between characters. What keeps them there is that it only looks for ASCII
characters: a byte below 128 is a character by itself and never part of a longer one, so skipping
bytes of an ASCII class and skipping characters of that class come to the same.

An offset between characters is told by the text behind it: `offset text rest` is where the end
part `rest` of `text` begins. Scanning from there is then a statement about `rest` alone.

## Main definitions

* `bytes`: the UTF-8 form of a text
* `slice?`: the part of a text between two offsets, which must lie between characters
* `offset`: where an end part of a text begins
* `skip`: the first offset from a given one on whose byte is outside a class

## Main results

* `isValid_iff_offset`: the offsets of end parts are the positions of the string
* `slice?_offset`, `skip_offset`, `isAt_offset`: slicing, skipping and looking at a byte, told by
  the text behind the offset
-/

namespace PageTree.Text

/-! ## The UTF-8 form -/

/-- The bytes of a text. -/
def bytes (text : List Char) : List UInt8 := text.flatMap String.utf8EncodeChar

@[simp] theorem bytes_nil : bytes [] = [] := rfl

@[simp] theorem bytes_cons (c : Char) (text : List Char) :
    bytes (c :: text) = String.utf8EncodeChar c ++ bytes text := List.flatMap_cons

@[simp] theorem bytes_append (a b : List Char) : bytes (a ++ b) = bytes a ++ bytes b :=
  List.flatMap_append

theorem length_bytes_pos {text : List Char} (h : text ≠ []) : 0 < (bytes text).length := by
  obtain ⟨c, text, rfl⟩ := List.exists_cons_of_ne_nil h
  have hc := c.utf8Size_pos
  simp only [bytes_cons, List.length_append, String.length_utf8EncodeChar]
  omega

theorem length_bytes (text : List Char) :
    (bytes text).length = (String.ofList text).utf8ByteSize := by
  rw [← String.size_toByteArray, String.toByteArray_ofList, List.utf8Encode]
  simp [bytes]

theorem utf8EncodeChar_ascii {c : Char} (h : c.toNat < 128) :
    String.utf8EncodeChar c = [c.val.toUInt8] := by
  have hsize : c.utf8Size = 1 := by
    rw [Char.utf8Size_eq_one_iff, UInt32.le_iff_toNat_le]
    exact Nat.le_of_lt_succ h
  exact String.utf8EncodeChar_eq_singleton hsize

/-- The bytes of a character outside ASCII are outside ASCII. -/
theorem le_of_mem_utf8EncodeChar {c : Char} (h : 128 ≤ c.toNat) {b : UInt8}
    (hb : b ∈ String.utf8EncodeChar c) : 128 ≤ b.toNat := by
  have hor (low : UInt8) {high : UInt8} (hhigh : 128 ≤ high.toNat) :
      128 ≤ (low ||| high).toNat := by
    rw [UInt8.toNat_or]
    exact Nat.le_trans hhigh Nat.right_le_or
  have hsize : c.utf8Size ≠ 1 := by
    rw [ne_eq, Char.utf8Size_eq_one_iff, UInt32.le_iff_toNat_le]
    exact fun hle => absurd (Nat.lt_of_le_of_lt hle (Nat.lt_succ_self 127)) (Nat.not_lt.2 h)
  rcases Char.utf8Size_eq c with h1 | h2 | h3 | h4
  · exact absurd h1 hsize
  · rw [String.utf8EncodeChar_eq_cons_cons h2] at hb
    simp only [List.mem_cons, List.not_mem_nil, or_false] at hb
    rcases hb with rfl | rfl
    all_goals exact hor _ (by decide)
  · rw [String.utf8EncodeChar_eq_cons_cons_cons h3] at hb
    simp only [List.mem_cons, List.not_mem_nil, or_false] at hb
    rcases hb with rfl | rfl | rfl
    all_goals exact hor _ (by decide)
  · rw [String.utf8EncodeChar_eq_cons_cons_cons_cons h4] at hb
    simp only [List.mem_cons, List.not_mem_nil, or_false] at hb
    rcases hb with rfl | rfl | rfl | rfl
    all_goals exact hor _ (by decide)

theorem length_bytes_toList (markup : String) :
    (bytes markup.toList).length = markup.utf8ByteSize := by
  rw [length_bytes, String.ofList_toList]

theorem length_bytes_mark {mark : Char} (hmark : mark.toNat < 128) :
    (bytes [mark]).length = 1 := by
  rw [bytes_cons, utf8EncodeChar_ascii hmark]
  rfl

theorem length_le_length_bytes (text : List Char) : text.length ≤ (bytes text).length := by
  induction text with
  | nil => exact Nat.le_refl 0
  | cons c text ih =>
    have hc := c.utf8Size_pos
    simp only [bytes_cons, List.length_append, String.length_utf8EncodeChar, List.length_cons]
    omega

theorem length_lower (text : List Char) : (bytes (lower text)).length = (bytes text).length := by
  induction text with
  | nil => rfl
  | cons c text ih =>
    have hsize : c.toLower.utf8Size = c.utf8Size := by
      rcases toLower_cases c with h | ⟨-, hhigh, hlow⟩
      · rw [h]
      · have hone (d : Char) (hd : d.toNat < 128) : d.utf8Size = 1 := by
          rw [← String.length_utf8EncodeChar, utf8EncodeChar_ascii hd]
          rfl
        rw [hone c (by omega), hone c.toLower (by omega)]
    show (bytes (c.toLower :: lower text)).length = _
    simp only [bytes_cons, List.length_append, String.length_utf8EncodeChar, ih, hsize]

/-! ## Classes of bytes -/

/-- The class of bytes that are a character of an ASCII class by themselves. -/
def isByteOf (p : Char → Bool) (b : UInt8) : Bool := b.toNat < 128 && p (Char.ofNat b.toNat)

/-- Every byte of a character is in the class of bytes exactly when the character is in the class
of characters. -/
def Agrees (q : UInt8 → Bool) (p : Char → Bool) : Prop :=
  ∀ c, ∀ b ∈ String.utf8EncodeChar c, q b = p c

theorem agrees_isByteOf {p : Char → Bool} (h : ∀ c, p c = true → c.toNat < 128) :
    Agrees (isByteOf p) p := by
  intro c b hb
  by_cases hc : c.toNat < 128
  · rw [utf8EncodeChar_ascii hc, List.mem_singleton] at hb
    have hnat : b.toNat = c.toNat := by
      rw [hb, UInt32.toNat_toUInt8]
      exact Nat.mod_eq_of_lt (Nat.lt_trans hc (by decide))
    rw [isByteOf, hnat, Char.ofNat_toNat]
    simp [hc]
  · have hp : p c = false := Bool.eq_false_iff.2 fun hp => hc (h c hp)
    have hlow : 128 ≤ b.toNat := le_of_mem_utf8EncodeChar (Nat.not_lt.1 hc) hb
    rw [hp, isByteOf]
    simp [Nat.not_lt.2 hlow]

theorem Agrees.not {q : UInt8 → Bool} {p : Char → Bool} (h : Agrees q p) :
    Agrees (!q ·) (!p ·) :=
  fun c b hb => congrArg (! ·) (h c b hb)

theorem agrees_mark {mark : Char} (hmark : mark.toNat < 128) :
    Agrees (!isByteOf (· == mark) ·) (· != mark) := by
  have hagrees : Agrees (isByteOf (· == mark)) (· == mark) :=
    agrees_isByteOf fun c hc => (eq_of_beq hc).symm ▸ hmark
  exact hagrees.not

theorem takeWhile_bytes {q : UInt8 → Bool} {p : Char → Bool} (h : Agrees q p)
    (text : List Char) : (bytes text).takeWhile q = bytes (text.takeWhile p) := by
  induction text with
  | nil => rfl
  | cons c text ih =>
    rw [bytes_cons]
    cases hp : p c with
    | true =>
      rw [List.takeWhile_append_of_pos fun b hb => (h c b hb).trans hp, ih,
        List.takeWhile_cons_of_pos hp, bytes_cons]
    | false =>
      obtain ⟨b, rest, hbytes⟩ := List.exists_cons_of_ne_nil (String.utf8EncodeChar_ne_nil (c := c))
      have hb : q b = false := (h c b (by simp [hbytes])).trans hp
      rw [List.takeWhile_cons_of_neg (by simp [hp]), hbytes, List.cons_append,
        List.takeWhile_cons_of_neg (by simp [hb]), bytes_nil]

/-! ## Slices -/

/-- The text before an offset and the text from it on; the offset must lie between characters. -/
def splitAt? : Nat → List Char → Option (List Char × List Char)
  | 0, text => some ([], text)
  | _ + 1, [] => none
  | n + 1, c :: text =>
    if c.utf8Size ≤ n + 1 then
      (splitAt? (n + 1 - c.utf8Size) text).map fun (before, after) => (c :: before, after)
    else none

/-- The part of a text between two offsets, which must lie between characters and in order. -/
def slice? (text : List Char) (start stop : Nat) : Option (List Char) :=
  if start ≤ stop then
    (splitAt? start text).bind fun (_, rest) =>
      (splitAt? (stop - start) rest).map fun (piece, _) => piece
  else none

theorem splitAt?_length_bytes (before after : List Char) :
    splitAt? (bytes before).length (before ++ after) = some (before, after) := by
  induction before with
  | nil => rw [bytes_nil, List.length_nil, List.nil_append, splitAt?]
  | cons c before ih =>
    have hlen : (bytes (c :: before)).length = c.utf8Size + (bytes before).length := by simp
    obtain ⟨n, hn⟩ : ∃ n, c.utf8Size + (bytes before).length = n + 1 :=
      Nat.exists_eq_succ_of_ne_zero (by have := c.utf8Size_pos; omega)
    have hback : n + 1 - c.utf8Size = (bytes before).length := by omega
    rw [hlen, hn, List.cons_append, splitAt?, if_pos (by omega), hback, ih, Option.map_some]

theorem splitAt?_eq_some {n : Nat} {text before after : List Char}
    (h : splitAt? n text = some (before, after)) :
    text = before ++ after ∧ (bytes before).length = n := by
  induction n, text using splitAt?.induct generalizing before after with
  | case1 text =>
    rw [splitAt?] at h
    cases h
    exact ⟨rfl, rfl⟩
  | case2 n => cases h
  | case3 n c text hc ih =>
    rw [splitAt?, if_pos hc, Option.map_eq_some_iff] at h
    obtain ⟨⟨before', after'⟩, hsplit, heq⟩ := h
    cases heq
    obtain ⟨rfl, hlen⟩ := ih hsplit
    refine ⟨rfl, ?_⟩
    simp only [bytes_cons, List.length_append, String.length_utf8EncodeChar, hlen]
    omega
  | case4 n c text hc =>
    rw [splitAt?, if_neg hc] at h
    cases h

/-- **A slice is the part of the text that takes up the bytes between its ends.** -/
theorem slice?_eq_some_iff {text piece : List Char} {start stop : Nat} :
    slice? text start stop = some piece ↔
      ∃ before after, text = before ++ piece ++ after ∧ (bytes before).length = start ∧
        start + (bytes piece).length = stop := by
  constructor
  · intro h
    rw [slice?] at h
    split at h
    · next hle =>
      obtain ⟨⟨before, rest⟩, hfirst, h⟩ := Option.bind_eq_some_iff.1 h
      obtain ⟨⟨piece', after⟩, hsecond, rfl⟩ := Option.map_eq_some_iff.1 h
      obtain ⟨rfl, hbefore⟩ := splitAt?_eq_some hfirst
      obtain ⟨rfl, hpiece⟩ := splitAt?_eq_some hsecond
      exact ⟨before, after, (List.append_assoc ..).symm, hbefore, by simp only [hpiece]; omega⟩
    · cases h
  · rintro ⟨before, after, rfl, rfl, rfl⟩
    rw [slice?, if_pos (Nat.le_add_right ..), Nat.add_sub_cancel_left, List.append_assoc,
      splitAt?_length_bytes, Option.bind_some]
    show (splitAt? (bytes piece).length (piece ++ after)).map Prod.fst = some piece
    rw [splitAt?_length_bytes, Option.map_some]

/-! ## Offsets of end parts -/

/-- Where the end part `rest` of `text` begins, in bytes. -/
def offset (text rest : List Char) : Nat := (bytes text).length - (bytes rest).length

theorem offset_append (before rest : List Char) :
    offset (before ++ rest) rest = (bytes before).length := by
  simp [offset]

@[simp] theorem offset_self (text : List Char) : offset text text = 0 := by
  simp [offset]

@[simp] theorem offset_nil (text : List Char) : offset text [] = (bytes text).length := by
  simp [offset]

theorem offset_add_length {text rest : List Char} (h : rest <:+ text) :
    offset text rest + (bytes rest).length = (bytes text).length := by
  obtain ⟨before, rfl⟩ := h
  simp [offset_append]

theorem offset_le {text rest : List Char} : offset text rest ≤ (bytes text).length :=
  Nat.sub_le ..

/-- Behind a piece of text the offset is larger by the bytes of the piece. -/
theorem offset_of_append {text piece rest : List Char} (h : piece ++ rest <:+ text) :
    offset text rest = offset text (piece ++ rest) + (bytes piece).length := by
  obtain ⟨before, rfl⟩ := h
  rw [offset_append, ← List.append_assoc, offset_append]
  simp

theorem offset_lt_of_append {text piece rest : List Char} (h : piece ++ rest <:+ text)
    (hpiece : piece ≠ []) : offset text (piece ++ rest) < offset text rest := by
  rw [offset_of_append h]
  exact Nat.lt_add_of_pos_right (length_bytes_pos hpiece)

/-- An offset in an end part counts on from where the end part begins. -/
theorem offset_trans {text rest behind : List Char} (h : rest <:+ text)
    (hbehind : behind <:+ rest) : offset text behind = offset text rest + offset rest behind := by
  obtain ⟨piece, rfl⟩ := hbehind
  rw [offset_of_append h, offset_append]

theorem offset_behind (piece : List Char) {inside behind : List Char} (h : behind <:+ inside) :
    offset (piece ++ inside) behind = (bytes piece).length + offset inside behind := by
  rw [offset_trans (List.suffix_append piece inside) h, offset_append]

theorem suffix_of_cons {c : Char} {text rest : List Char} (h : c :: rest <:+ text) :
    rest <:+ text :=
  (List.suffix_cons c rest).trans h

theorem offset_cons {c : Char} (hc : c.toNat < 128) {text rest : List Char}
    (h : c :: rest <:+ text) : offset text rest = offset text (c :: rest) + 1 := by
  have hlen : (bytes [c]).length = 1 := by
    rw [bytes_cons, utf8EncodeChar_ascii hc]
    rfl
  have hpiece : [c] ++ rest <:+ text := h
  rw [offset_of_append hpiece, hlen]
  rfl

theorem offset_lt_iff {text rest : List Char} (h : rest <:+ text) :
    offset text rest < (bytes text).length ↔ rest ≠ [] := by
  rw [← offset_add_length h]
  constructor
  · rintro hlt rfl
    simp at hlt
  · exact fun hne => Nat.lt_add_of_pos_right (length_bytes_pos hne)

theorem drop_offset {text rest : List Char} (h : rest <:+ text) :
    (bytes text).drop (offset text rest) = bytes rest := by
  obtain ⟨before, rfl⟩ := h
  rw [offset_append, bytes_append, List.drop_left]

/-- **Slicing from an offset takes the piece of text that stands there.** -/
theorem slice?_offset {text piece rest : List Char} (h : piece ++ rest <:+ text) :
    slice? text (offset text (piece ++ rest)) (offset text rest) = some piece := by
  rw [slice?_eq_some_iff]
  obtain ⟨before, rfl⟩ := h
  refine ⟨before, rest, (List.append_assoc ..).symm, (offset_append ..).symm, ?_⟩
  exact (offset_of_append ⟨before, rfl⟩).symm

theorem slice?_offset_end {text rest : List Char} (h : rest <:+ text) :
    slice? text (offset text rest) (bytes text).length = some rest := by
  have h' : rest ++ [] <:+ text := by rwa [List.append_nil]
  simpa using slice?_offset h'

/-- **The offsets of end parts are the positions of the string.** -/
theorem isValid_iff_offset {text : List Char} {i : Nat} :
    (String.Pos.Raw.mk i).IsValid (String.ofList text) ↔
      ∃ rest, rest <:+ text ∧ offset text rest = i := by
  rw [String.Pos.Raw.isValid_iff_exists_append]
  constructor
  · rintro ⟨before, rest, htext, hi⟩
    have htext' : text = before.toList ++ rest.toList := by
      rw [← String.toList_append, ← htext, String.toList_ofList]
    refine ⟨rest.toList, ⟨before.toList, htext'.symm⟩, ?_⟩
    rw [htext', offset_append, length_bytes, String.ofList_toList]
    exact (congrArg String.Pos.Raw.byteIdx hi).symm
  · rintro ⟨rest, ⟨before, rfl⟩, rfl⟩
    refine ⟨String.ofList before, String.ofList rest, String.ofList_append, ?_⟩
    rw [offset_append, length_bytes]
    rfl

theorem isValid_offset {markup : String} {rest : List Char} (h : rest <:+ markup.toList) :
    (String.Pos.Raw.mk (offset markup.toList rest)).IsValid markup := by
  have hvalid := isValid_iff_offset.2 ⟨rest, h, rfl⟩
  rwa [String.ofList_toList] at hvalid

/-! ## Scanning -/

/-- The first offset from `i` on whose byte is outside the class. -/
def skip (q : UInt8 → Bool) (text : List Char) (i : Nat) : Nat :=
  i + (((bytes text).drop i).takeWhile q).length

/-- The byte at the offset is this ASCII character. -/
def isAt (c : Char) (text : List Char) (i : Nat) : Bool :=
  (bytes text)[i]?.any (isByteOf (· == c))

/-- **Skipping bytes of a class skips the characters of that class.** -/
theorem skip_offset {q : UInt8 → Bool} {p : Char → Bool} (hq : Agrees q p)
    {text rest : List Char} (h : rest <:+ text) :
    skip q text (offset text rest) = offset text (rest.dropWhile p) := by
  have hrest : rest.takeWhile p ++ rest.dropWhile p <:+ text := by
    rwa [List.takeWhile_append_dropWhile]
  rw [skip, drop_offset h, takeWhile_bytes hq, offset_of_append hrest,
    List.takeWhile_append_dropWhile]

/-- **Looking at a byte tells whether the text there begins with an ASCII character.** -/
theorem isAt_offset {c : Char} (hc : c.toNat < 128) {text rest : List Char} (h : rest <:+ text) :
    isAt c text (offset text rest) = (rest.head? == some c) := by
  have hagrees : Agrees (isByteOf (· == c)) (· == c) :=
    agrees_isByteOf fun d hd => (eq_of_beq hd).symm ▸ hc
  have hbyte : (bytes text)[offset text rest]? = (bytes rest).head? := by
    rw [← drop_offset h, List.head?_drop]
  rw [isAt, hbyte]
  cases rest with
  | nil => rfl
  | cons d rest =>
    obtain ⟨b, more, hbytes⟩ := List.exists_cons_of_ne_nil (String.utf8EncodeChar_ne_nil (c := d))
    rw [bytes_cons, hbytes]
    exact hagrees d b (by simp [hbytes])

theorem isAt_cons {c : Char} (hc : c.toNat < 128) {text rest : List Char}
    (h : c :: rest <:+ text) : isAt c text (offset text (c :: rest)) = true := by
  rw [isAt_offset hc h, List.head?_cons]
  exact beq_self_eq_true _

theorem not_isAt {c : Char} (hc : c.toNat < 128) {text rest : List Char} (h : rest <:+ text)
    (hrest : ∀ behind, rest ≠ c :: behind) : ¬isAt c text (offset text rest) = true := by
  rw [isAt_offset hc h]
  intro heq
  obtain ⟨behind, hbehind⟩ := List.head?_eq_some_iff.1 (eq_of_beq heq)
  exact hrest behind hbehind

end PageTree.Text
