import Mathlib.Data.List.Basic
import Mathlib.Tactic.IntervalCases
import PageTree.Json.Printer
import PageTree.Json.Reader
import PageTree.Text.Basic

/-!
# Numbers in a text

The text of a number is a numeral in the sense of the reader, whatever the number is: the reader
takes up all of it and stops behind it.

## Main definitions

* `IsNumeral`: the numerals of the grammar
* `Number.reread`: what the text of a number says

## Main results

* `isNumeral_chars`: a number is written as a numeral
* `readNumeral_chars`: the text of a number is taken up as a whole
-/

namespace PageTree

open JsonReader

/-! ## The grammar -/

/-- Digits, at least one. -/
def IsDigits (text : List Char) : Prop := text ≠ [] ∧ ∀ c ∈ text, c.isDigit = true

/-- Digits without a zero in front. -/
def IsWhole (text : List Char) : Prop := IsDigits text ∧ (text.head? = some '0' → text = ['0'])

/-- A point with digits behind it, or nothing. -/
inductive IsFraction : List Char → Prop where
  | absent : IsFraction []
  | point {digits : List Char} (h : IsDigits digits) : IsFraction ('.' :: digits)

/-- A mark with a sign and digits behind it, or nothing. -/
inductive IsExponent : List Char → Prop where
  | absent : IsExponent []
  | mark {sign : Char} {digits : List Char} (hsign : sign = '-' ∨ sign = '+')
      (h : IsDigits digits) : IsExponent ('e' :: sign :: digits)

/-- A numeral after its sign. -/
inductive IsUnsigned : List Char → Prop where
  | mk {whole fraction exponent : List Char} (hwhole : IsWhole whole)
      (hfraction : IsFraction fraction) (hexponent : IsExponent exponent) :
      IsUnsigned (whole ++ fraction ++ exponent)

/-- A numeral. -/
inductive IsNumeral : List Char → Prop where
  | positive {text : List Char} (h : IsUnsigned text) : IsNumeral text
  | negative {text : List Char} (h : IsUnsigned text) : IsNumeral ('-' :: text)

/-- A text that does not go on with a numeral. -/
def StopsNumeral (rest : List Char) : Prop :=
  ∀ c, rest.head? = some c → c.isDigit = false ∧ c ≠ '.' ∧ c ≠ 'e' ∧ c ≠ 'E'

/-! ## Reading numerals -/

/-- Digits are taken up as a whole. -/
theorem splitDigits_append {digits rest : List Char} (hdigits : ∀ c ∈ digits, c.isDigit = true)
    (hrest : ∀ c, rest.head? = some c → c.isDigit = false) :
    splitDigits (digits ++ rest) = (digits.map digitValue, rest) := by
  have hstop : rest.takeWhile Char.isDigit = [] ∧ rest.dropWhile Char.isDigit = rest := by
    cases rest with
    | nil => exact ⟨rfl, rfl⟩
    | cons c rest =>
      have hc : ¬c.isDigit = true := by simp [hrest c rfl]
      exact ⟨List.takeWhile_cons_of_neg hc, List.dropWhile_cons_of_neg hc⟩
  rw [splitDigits, List.takeWhile_append_of_pos hdigits, List.dropWhile_append_of_pos hdigits,
    hstop.1, hstop.2, List.append_nil]

theorem IsExponent.read {text : List Char} (h : IsExponent text) :
    ∃ exponent, ∀ rest, StopsNumeral rest → readExponent (text ++ rest) = some (exponent, rest) := by
  cases h with
  | absent =>
    refine ⟨none, fun rest hrest => ?_⟩
    cases rest with
    | nil => rfl
    | cons c rest =>
      obtain ⟨-, -, he, hE⟩ := hrest c rfl
      rw [List.nil_append, readExponent, if_neg (not_or.2 ⟨he, hE⟩)]
  | @mark sign digits hsign hdigits =>
    obtain ⟨d, ds, rfl⟩ := List.exists_cons_of_ne_nil hdigits.1
    have hsplit : ∀ rest, StopsNumeral rest →
        splitDigits (d :: (ds ++ rest)) = (digitValue d :: ds.map digitValue, rest) :=
      fun rest hrest => splitDigits_append hdigits.2 fun c hc => (hrest c hc).1
    rcases hsign with rfl | rfl
    · refine ⟨some (-(naturalOf (digitValue d :: ds.map digitValue) : Nat)), fun rest hrest => ?_⟩
      simp [readExponent, splitSign, hsplit rest hrest]
    · refine ⟨some (naturalOf (digitValue d :: ds.map digitValue) : Nat), fun rest hrest => ?_⟩
      simp [readExponent, splitSign, hsplit rest hrest]

theorem IsExponent.head {text : List Char} (h : IsExponent text) {rest : List Char}
    (hrest : StopsNumeral rest) {c : Char} (hc : (text ++ rest).head? = some c) :
    c.isDigit = false ∧ c ≠ '.' := by
  cases h with
  | absent => exact ⟨(hrest c hc).1, (hrest c hc).2.1⟩
  | mark =>
    obtain rfl : 'e' = c := by simpa using hc
    exact ⟨by decide, by decide⟩

theorem IsFraction.read {text : List Char} (h : IsFraction text) :
    ∃ fraction, ∀ rest, (∀ c, rest.head? = some c → c.isDigit = false ∧ c ≠ '.') →
      readFraction (text ++ rest) = some (fraction, rest) := by
  cases h with
  | absent =>
    refine ⟨none, fun rest hrest => ?_⟩
    cases rest with
    | nil => rfl
    | cons c rest =>
      have hc := (hrest c rfl).2
      rw [List.nil_append, readFraction]
      simpa using hc
  | @point digits hdigits =>
    obtain ⟨d, ds, rfl⟩ := List.exists_cons_of_ne_nil hdigits.1
    refine ⟨some (digitValue d :: ds.map digitValue), fun rest hrest => ?_⟩
    have hsplit : splitDigits (d :: (ds ++ rest)) = (digitValue d :: ds.map digitValue, rest) :=
      splitDigits_append hdigits.2 fun c hc => (hrest c hc).1
    simp [readFraction, hsplit]

theorem IsFraction.head {text : List Char} (h : IsFraction text) {rest : List Char}
    (hrest : ∀ c, rest.head? = some c → c.isDigit = false) {c : Char}
    (hc : (text ++ rest).head? = some c) : c.isDigit = false := by
  cases h with
  | absent => exact hrest c hc
  | point =>
    obtain rfl : '.' = c := by simpa using hc
    decide

/-- The value of a digit is zero for the digit zero only. -/
theorem eq_zero_of_digitValue {c : Char} (h : c.isDigit = true) (hvalue : digitValue c = 0) :
    c = '0' := by
  have hcode : 48 ≤ c.toNat ∧ c.toNat ≤ 57 := by
    simp only [Char.isDigit, Bool.and_eq_true, decide_eq_true_eq, ge_iff_le,
      UInt32.le_iff_toNat_le] at h
    exact h
  have hsub : c.toNat - 48 = 0 := hvalue
  exact Char.toNat_inj.1 (by omega : c.toNat = 48)

theorem IsUnsigned.read {text : List Char} (h : IsUnsigned text) (negative : Bool) :
    ∃ numeral, ∀ rest, StopsNumeral rest →
      readUnsigned negative (text ++ rest) = some (numeral, rest) := by
  obtain @⟨whole, fraction, exponent, ⟨hwhole, hzero⟩, hfraction, hexponent⟩ := h
  obtain ⟨e, he⟩ := hexponent.read
  obtain ⟨fr, hfr⟩ := hfraction.read
  obtain ⟨d, ds, rfl⟩ := List.exists_cons_of_ne_nil hwhole.1
  refine ⟨⟨negative, digitValue d :: ds.map digitValue, fr, e⟩, fun rest hrest => ?_⟩
  have hbehind : ∀ c, (exponent ++ rest).head? = some c → c.isDigit = false ∧ c ≠ '.' :=
    fun c hc => hexponent.head hrest hc
  have hsplit : splitDigits (d :: ds ++ (fraction ++ (exponent ++ rest))) =
      (digitValue d :: ds.map digitValue, fraction ++ (exponent ++ rest)) :=
    splitDigits_append hwhole.2 fun c hc => hfraction.head (fun c hc => (hbehind c hc).1) hc
  have hfraction := hfr (exponent ++ rest) hbehind
  rw [List.append_assoc, List.append_assoc, readUnsigned, hsplit]
  cases ds with
  | nil => simp [hfraction, he rest hrest]
  | cons d' ds =>
    have hne : digitValue d ≠ 0 := fun h => by
      have hd := eq_zero_of_digitValue (hwhole.2 d (List.mem_cons_self ..)) h
      simpa using hzero (congrArg some hd)
    obtain ⟨k, hk⟩ := Nat.exists_eq_succ_of_ne_zero hne
    simp [hk, hfraction, he rest hrest]

theorem IsUnsigned.head {text : List Char} (h : IsUnsigned text) :
    ∃ c rest, text = c :: rest ∧ c.isDigit = true := by
  obtain ⟨⟨hwhole, -⟩, -, -⟩ := h
  obtain ⟨d, ds, rfl⟩ := List.exists_cons_of_ne_nil hwhole.1
  exact ⟨d, _, rfl, hwhole.2 d (List.mem_cons_self ..)⟩

/-- **A numeral is taken up as a whole.** -/
theorem IsNumeral.read {text : List Char} (h : IsNumeral text) :
    ∃ numeral, ∀ rest, StopsNumeral rest → readNumeral (text ++ rest) = some (numeral, rest) := by
  cases h with
  | negative h =>
    obtain ⟨numeral, hread⟩ := h.read true
    exact ⟨numeral, hread⟩
  | positive h =>
    obtain ⟨numeral, hread⟩ := h.read false
    obtain ⟨c, behind, rfl, hc⟩ := h.head
    refine ⟨numeral, fun rest hrest => ?_⟩
    have hminus : c ≠ '-' := by
      rintro rfl
      exact absurd hc (by decide)
    rw [← hread rest hrest, List.cons_append]
    exact readNumeral.eq_2 _ fun tail heq => hminus (List.cons.inj heq).1

/-! ## The text of a number -/

theorem isDigits_toDigits (n : Nat) : IsDigits (Nat.toDigits 10 n) :=
  ⟨Nat.toDigits_ne_nil, fun _ hc => Nat.isDigit_of_mem_toDigits (by decide) (by decide) hc⟩

/-- The first digit of a number that is not zero is not zero. -/
theorem head_toDigits {n : Nat} (h : 0 < n) : (Nat.toDigits 10 n).head? ≠ some '0' := by
  induction n using Nat.strongRecOn with
  | _ n ih =>
    by_cases hlt : n < 10
    · rw [Nat.toDigits_of_lt_base hlt]
      interval_cases n <;> decide
    · have hdiv : 0 < n / 10 := Nat.div_pos (by omega) (by decide)
      have hhead := ih (n / 10) (Nat.div_lt_self h (by decide)) hdiv
      rw [Nat.toDigits_of_base_le (by decide) (by omega)]
      obtain ⟨c, rest, hcons⟩ := List.exists_cons_of_ne_nil
        (Nat.toDigits_ne_nil (n := n / 10) (b := 10))
      rw [hcons] at hhead ⊢
      exact hhead

theorem isWhole_toDigits (n : Nat) : IsWhole (Nat.toDigits 10 n) := by
  refine ⟨isDigits_toDigits n, fun h => ?_⟩
  by_cases hn : n = 0
  · rw [hn, Nat.toDigits_zero]
  · exact absurd h (head_toDigits (Nat.pos_of_ne_zero hn))

theorem nearest?_pos {i : Binary64.Interval} {tie : TieRule} {power : Int} {k : Nat}
    (h : i.nearest? tie power = some k) : 0 < k := by
  simp only [Binary64.Interval.nearest?] at h
  split at h
  · cases h
  · next hbelow _ =>
    obtain rfl := Option.some.inj h
    simpa using (Bool.and_eq_true_iff.1 hbelow).1
  · obtain rfl := Option.some.inj h
    exact Nat.succ_pos _
  · next hbelow _ =>
    have hpos : 0 < i.middle * tenTo (-power).toNat / (i.unit * tenTo power.toNat) := by
      simpa using (Bool.and_eq_true_iff.1 hbelow).1
    rw [← Option.some.inj h]
    clear h
    cases tie <;> dsimp only <;> split_ifs <;> first | exact hpos | exact Nat.succ_pos _

theorem search_pos {i : Binary64.Interval} {tie : TieRule} {tries : Nat} {power : Int}
    {d : Decimal} (h : i.search tie tries power = some d) : 0 < d.digits := by
  induction tries generalizing power with
  | zero => cases h
  | succ tries ih =>
    rw [Binary64.Interval.search] at h
    split at h
    · next k hk =>
      obtain rfl := Option.some.inj h
      exact nearest?_pos hk
    · exact ih h

/-- A shortest decimal has digits, or it is zero as a whole number. -/
theorem shortest_proper (x : Binary64) (tie : TieRule) :
    0 < (x.shortest tie).digits ∨ (x.shortest tie).power = 0 := by
  rw [Binary64.shortest]
  split_ifs
  · exact Or.inr rfl
  · cases hsearch : x.interval.search tie 24 x.coarsePower with
    | none => exact Or.inr rfl
    | some d => exact Or.inl (search_pos hsearch)

theorem isDigits_replicate_append {digits : List Char} (n : Nat) (h : IsDigits digits) :
    IsDigits (List.replicate n '0' ++ digits) := by
  refine ⟨List.append_ne_nil_of_right_ne_nil _ h.1, fun c hc => ?_⟩
  rcases List.mem_append.1 hc with hc | hc
  · rw [List.eq_of_mem_replicate hc]
    decide
  · exact h.2 c hc

namespace Decimal

theorem isUnsigned_scientific (d : Decimal) : IsUnsigned d.scientific := by
  have hexponent : IsExponent ('e' :: (if d.leadingPower < 0 then '-' else '+') ::
      Nat.toDigits 10 d.leadingPower.natAbs) := by
    refine .mark ?_ (isDigits_toDigits _)
    split_ifs
    · exact Or.inl rfl
    · exact Or.inr rfl
  have hdigits := isDigits_toDigits d.digits
  rw [scientific, digitChars]
  cases hchars : Nat.toDigits 10 d.digits with
  | nil => exact absurd hchars hdigits.1
  | cons c rest =>
    rw [hchars] at hdigits
    have hone : IsWhole [c] := by
      refine ⟨⟨by simp, fun d hd => ?_⟩, fun h => ?_⟩
      · exact hdigits.2 d (List.mem_singleton.1 hd ▸ List.mem_cons_self ..)
      · exact congrArg (· :: []) (Option.some.inj h)
    cases rest with
    | nil => exact .mk hone .absent hexponent
    | cons c' rest =>
      have hfraction : IsFraction ('.' :: c' :: rest) :=
        .point ⟨by simp, fun d hd => hdigits.2 d (List.mem_cons_of_mem _ hd)⟩
      exact .mk hone hfraction hexponent

/-- Positional notation of a whole number. -/
theorem isWhole_positional {d : Decimal} (hproper : 0 < d.digits ∨ d.power = 0)
    (h : 0 ≤ d.power) : IsWhole d.positional := by
  have hwhole := isWhole_toDigits d.digits
  rw [positional, digitChars, if_pos h]
  rcases hproper with hpos | hzero
  · have hhead := head_toDigits hpos
    obtain ⟨c, rest, hcons⟩ := List.exists_cons_of_ne_nil hwhole.1.1
    rw [hcons] at hwhole hhead ⊢
    refine ⟨⟨by simp, fun c hc => ?_⟩, fun h => absurd h hhead⟩
    rcases List.mem_append.1 hc with hc | hc
    · exact hwhole.1.2 c hc
    · rw [List.eq_of_mem_replicate hc]
      decide
  · rw [hzero, Int.toNat_zero, List.replicate_zero, List.append_nil]
    exact hwhole

/-- Positional notation of a number with a fraction. -/
theorem isUnsigned_positional {d : Decimal} (hproper : 0 < d.digits ∨ d.power = 0)
    (h : ¬0 ≤ d.power) : IsUnsigned d.positional := by
  have hdigits := isDigits_toDigits d.digits
  have hhead := head_toDigits (hproper.resolve_right fun hzero => h (by omega))
  rw [positional, digitChars, if_neg h]
  dsimp only
  split_ifs with hplaces
  · have hlen : 0 < (-d.power).toNat := by omega
    have htake : IsWhole ((Nat.toDigits 10 d.digits).take
        ((Nat.toDigits 10 d.digits).length - (-d.power).toNat)) := by
      obtain ⟨k, hk⟩ := Nat.exists_eq_add_of_lt (Nat.sub_pos_of_lt hplaces)
      obtain ⟨c, rest, hcons⟩ := List.exists_cons_of_ne_nil hdigits.1
      rw [hk]
      refine ⟨⟨?_, fun c hc => hdigits.2 c (List.mem_of_mem_take hc)⟩, fun h => absurd ?_ hhead⟩
      · rw [hcons]
        simp
      · rw [hcons] at h ⊢
        simpa using h
    have hdrop : IsFraction ('.' :: (Nat.toDigits 10 d.digits).drop
        ((Nat.toDigits 10 d.digits).length - (-d.power).toNat)) := by
      refine .point ⟨fun hnil => ?_, fun c hc => hdigits.2 c (List.mem_of_mem_drop hc)⟩
      rw [List.drop_eq_nil_iff] at hnil
      omega
    have := IsUnsigned.mk htake hdrop .absent
    rwa [List.append_nil] at this
  · have hzero : IsWhole ['0'] := isWhole_toDigits 0
    have := IsUnsigned.mk hzero (.point (isDigits_replicate_append
      ((-d.power).toNat - (Nat.toDigits 10 d.digits).length) hdigits)) .absent
    rwa [List.append_nil] at this

end Decimal

theorem isUnsigned_magnitude (x : Binary64) :
    ∃ text, x.jsonText = x.signChars ++ text ∧ IsUnsigned text := by
  have hpoint : IsFraction ['.', '0'] := .point ⟨by simp, by decide⟩
  have hproper := shortest_proper x .even
  refine ⟨_, rfl, ?_⟩
  split_ifs with hzero hscientific hwhole
  · exact .mk (isWhole_toDigits 0) hpoint .absent
  · exact Decimal.isUnsigned_scientific _
  · have := IsUnsigned.mk (Decimal.isWhole_positional hproper hwhole) hpoint .absent
    rwa [List.append_nil] at this
  · exact Decimal.isUnsigned_positional hproper hwhole

/-- **A number is written as a numeral.** -/
theorem isNumeral_chars (n : Number) : IsNumeral n.chars := by
  have hwhole : ∀ k, IsUnsigned (Nat.toDigits 10 k) := fun k => by
    have := IsUnsigned.mk (isWhole_toDigits k) .absent .absent
    rwa [List.append_nil, List.append_nil] at this
  cases n with
  | int value =>
    rw [Number.chars]
    split_ifs
    · exact .negative (hwhole _)
    · exact .positive (hwhole _)
  | float x =>
    obtain ⟨text, htext, hunsigned⟩ := isUnsigned_magnitude x
    rw [Number.chars, htext, Binary64.signChars]
    split_ifs
    · exact .negative hunsigned
    · exact .positive hunsigned

/-- What the text of a number says. -/
def Number.reread (n : Number) : Literal :=
  match readNumeral n.chars with
  | some (numeral, _) => usable .num numeral.number?
  | none => .unusable

/-- The text of the number says that number. -/
def Number.Rereads (n : Number) : Prop := n.reread = .num n

instance (n : Number) : Decidable n.Rereads :=
  match h : n.reread with
  | .num m => decidable_of_iff (m = n) (by rw [Number.Rereads, h, Literal.num.injEq])
  | .null | .bool _ | .str _ | .arr _ | .obj _ | .unusable =>
    isFalse (by rw [Number.Rereads, h]; nofun)

/-- **The text of a number is taken up as a whole** wherever it stands. -/
theorem readNumeral_chars (n : Number) : ∃ numeral, n.reread = usable .num numeral.number? ∧
    ∀ rest, StopsNumeral rest → readNumeral (n.chars ++ rest) = some (numeral, rest) := by
  obtain ⟨numeral, hread⟩ := (isNumeral_chars n).read
  have hself := hread [] (by simp [StopsNumeral])
  rw [List.append_nil] at hself
  exact ⟨numeral, by rw [Number.reread, hself], hread⟩

end PageTree
