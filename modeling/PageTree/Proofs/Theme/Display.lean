import PageTree.Proofs.Markup.InlineStyle
import PageTree.Proofs.Theme.Opening

/-!
# What a style says of display

Themes give tokens values of their own, but no token has to do with display: of that the styles of
a node say the same in all themes.

## Main definitions

* `InlineStyle.shown?`: the last word of a style on display
* `Scale.IsPlain`: scales whose values are single values of declarations

## Main results

* `Style.sameAll_declarations`: the declarations of a style say the same of display in all scales
* `Node.hides_styleText`: a node's style hides its element in both themes or in neither
-/

namespace PageTree

namespace InlineStyle

/-- Empty parts of a text declare nothing. -/
theorem read_intercalate_filter (parts : List String) :
    read (";".intercalate (parts.filter (!·.isEmpty))) = parts.flatMap read := by
  rw [read_intercalate]
  induction parts with
  | nil => rfl
  | cons part parts ih =>
    rw [List.filter_cons, List.flatMap_cons, ← ih]
    by_cases hempty : part = ""
    · rw [hempty, read_empty]
      rfl
    · rw [if_pos (by simpa using hempty), List.flatMap_cons]

/-- What a style says of display last. -/
def shown? (text : String) : Option String := get? "display" (read text)

theorem hides_eq (text : String) : hides text = (shown? text == some "none") := rfl

theorem shown?_append (a b : String) : shown? (a ++ ";" ++ b) = (shown? b).or (shown? a) := by
  rw [shown?, read_append, get?_append]
  rfl

/-- The declarations are of one property and say the same of display. -/
structure Same (d d' : String × String) : Prop where
  property : d'.1 = d.1
  shown : shown? (d'.1 ++ ":" ++ d'.2) = shown? (d.1 ++ ":" ++ d.2)

theorem Same.refl (d : String × String) : Same d d := ⟨rfl, rfl⟩

/-- Of two lists of declarations each says of display what its counterpart says. -/
def SameAll (ds ds' : List (String × String)) : Prop := List.Forall₂ Same ds ds'

theorem SameAll.refl (ds : List (String × String)) : SameAll ds ds :=
  List.forall₂_same.2 fun d _ => .refl d

theorem SameAll.append {as as' bs bs' : List (String × String)} (ha : SameAll as as')
    (hb : SameAll bs bs') : SameAll (as ++ bs) (as' ++ bs') :=
  List.rel_append ha hb

theorem SameAll.shown?_write {ds ds' : List (String × String)} (h : SameAll ds ds') :
    shown? (write ds') = shown? (write ds) := by
  rw [shown?, shown?, read_write, read_write]
  induction h with
  | nil => rfl
  | cons hfirst _ ih =>
    rw [List.flatMap_cons, List.flatMap_cons, get?_append, get?_append, ih]
    exact congrArg _ hfirst.shown

/-- The properties that tokens give values to. -/
def tokenProperties : List String :=
  ["padding", "padding-left", "padding-right", "padding-top", "padding-bottom", "border-radius",
    "border", "box-shadow", "color", "background-color", "font-size", "font-weight", "line-height",
    "font-family", "gap"]

theorem shown?_of_token {property value : String} (hproperty : property ∈ tokenProperties)
    (hvalue : ';' ∉ value.toList) : shown? (property ++ ":" ++ value) = none := by
  have hname : ∀ p ∈ tokenProperties, ':' ∉ p.toList ∧ ';' ∉ p.toList ∧
      ("display" == String.ofList (Text.lower (Text.trimBlank p.toList))) = false := by
    decide +kernel
  obtain ⟨hcolon, hsemicolon, hother⟩ := hname property hproperty
  rw [shown?, read_declaration hcolon hsemicolon hvalue, get?, List.reverse_singleton,
    List.lookup_cons, hother]
  rfl

theorem Same.of_token {property value value' : String} (hproperty : property ∈ tokenProperties)
    (h : ';' ∉ value.toList) (h' : ';' ∉ value'.toList) :
    Same (property, value) (property, value') :=
  ⟨rfl, (shown?_of_token hproperty h').trans (shown?_of_token hproperty h).symm⟩

/-! ## Declarations of a style -/

theorem SameAll.set {m m' : OrderedMap String} (h : SameAll m m') {d d' : String × String}
    (hd : Same d d') : SameAll (OrderedMap.set d.1 d.2 m) (OrderedMap.set d'.1 d'.2 m') := by
  obtain ⟨property, value⟩ := d
  obtain ⟨property', value'⟩ := d'
  obtain rfl : property' = property := hd.property
  induction h with
  | nil => exact .cons hd .nil
  | @cons e e' m m' he hrest ih =>
    obtain ⟨name, old⟩ := e
    obtain ⟨name', old'⟩ := e'
    obtain rfl : name' = name := he.property
    dsimp only [OrderedMap.set]
    split_ifs with hname
    · exact .cons (hname ▸ hd) hrest
    · exact .cons he ih

theorem SameAll.ofEntries {entries entries' : List (String × String)}
    (h : SameAll entries entries') :
    SameAll (OrderedMap.ofEntries entries) (OrderedMap.ofEntries entries') := by
  have hfold : ∀ {m m' : OrderedMap String}, SameAll m m' →
      SameAll (OrderedMap.overlay m entries) (OrderedMap.overlay m' entries') := by
    induction h with
    | nil => exact fun hm => hm
    | cons hd _ ih => exact fun hm => ih (hm.set hd)
  exact hfold .nil

end InlineStyle

open InlineStyle

/-- The values of the scale are single values of declarations. -/
structure Scale.IsPlain (scale : Scale) : Prop where
  space : ∀ step, ';' ∉ (scale.space step).toList
  radius : ∀ step, ';' ∉ (scale.radius step).toList
  shadow : ∀ step, ';' ∉ (scale.shadow step).toList
  color : ∀ role, ';' ∉ (scale.color role).toList
  background : ∀ role, ';' ∉ (scale.background role).toList
  borderColor : ';' ∉ scale.borderColor.toList
  metrics : ∀ kind, ';' ∉ (scale.metrics kind).size.toList ∧
    ';' ∉ (scale.metrics kind).weight.toList ∧ ';' ∉ (scale.metrics kind).lineHeight.toList
  monospace : ';' ∉ scale.monospace.toList

theorem Minimal.isPlain_scale : scale.IsPlain where
  space step := by cases step <;> decide +kernel
  radius step := by cases step <;> decide +kernel
  shadow step := by cases step <;> decide +kernel
  color role := by cases role <;> decide +kernel
  background role := by cases role <;> decide +kernel
  borderColor := by decide +kernel
  metrics kind := by cases kind <;> decide +kernel
  monospace := by decide +kernel

theorem Themed.isPlain_scale : scale.IsPlain where
  space step := by cases step <;> decide +kernel
  radius step := by cases step <;> decide +kernel
  shadow step := by cases step <;> decide +kernel
  color role := by cases role <;> decide +kernel
  background role := by cases role <;> decide +kernel
  borderColor := by decide +kernel
  metrics kind := by cases kind <;> decide +kernel
  monospace := by decide +kernel

theorem sameAll_declareIf {α : Type} {property : String} (hproperty : property ∈ tokenProperties)
    {value value' : α → String} (h : ∀ a, ';' ∉ (value a).toList)
    (h' : ∀ a, ';' ∉ (value' a).toList) (a : Option α) :
    SameAll (declareIf property value a) (declareIf property value' a) := by
  cases a with
  | none => exact .nil
  | some a => exact .cons (.of_token hproperty (h a) (h' a)) .nil

/-- A float in a style sheet is one value. -/
theorem Binary64.not_mem_sheetText (x : Binary64) : ';' ∉ x.sheetText.toList := by
  have hsign : ';' ∉ x.signChars := by
    rw [signChars]
    split_ifs <;> decide
  have hdigits : ';' ∉ (x.shortest .up).digitChars := fun h =>
    absurd (Nat.isDigit_of_mem_toDigits (by decide) (by decide) h) (by decide)
  have hzeros (n : Nat) : ';' ∉ List.replicate n '0' := fun h =>
    absurd (List.eq_of_mem_replicate h) (by decide)
  have hpoint : ¬(';' = '.') := by decide
  have hzero : ¬(';' = '0') := by decide
  have hpositional : ';' ∉ (x.shortest .up).positional := by
    rw [Decimal.positional]
    dsimp only
    split_ifs
    · rw [List.mem_append, not_or]
      exact ⟨hdigits, hzeros _⟩
    · rw [List.mem_append, List.mem_cons, not_or, not_or]
      exact ⟨fun h => hdigits (List.mem_of_mem_take h), hpoint,
        fun h => hdigits (List.mem_of_mem_drop h)⟩
    · rw [List.mem_append, List.mem_cons, List.mem_cons, not_or, not_or, not_or]
      exact ⟨⟨hzero, hpoint, hzeros _⟩, hdigits⟩
  rw [sheetText, String.toList_ofList, plainText]
  split_ifs
  · decide
  · rw [List.mem_append, not_or]
    exact ⟨hsign, hpositional⟩
  · rw [List.mem_append, not_or]
    exact ⟨hsign, by decide⟩

namespace Style

variable {scale scale' : Scale}

theorem not_mem_borderValue (h : scale.IsPlain) (b : Border) : ';' ∉ (b.value scale).toList := by
  have hline : ';' ∉ ((b.line.map Vocabulary.name).getD "solid").toList := by
    cases b.line with
    | none => decide
    | some line => cases line <;> decide
  have hcolor : ';' ∉ ((b.color.map scale.color).getD scale.borderColor).toList := by
    cases b.color with
    | none => exact h.borderColor
    | some role => exact h.color role
  have hunit : ';' ∉ "px ".toList := by decide
  have hgap : ';' ∉ " ".toList := by decide
  simp only [Border.value, String.toList_append, List.mem_append, not_or]
  exact ⟨⟨⟨⟨(b.width.getD .one).not_mem_sheetText, hunit⟩, hline⟩, hgap⟩, hcolor⟩

theorem sameAll_spacing (h : scale.IsPlain) (h' : scale'.IsPlain) (s : Spacing) :
    SameAll (s.declarations scale.space) (s.declarations scale'.space) := by
  have hedge {property : String} (hproperty : property ∈ tokenProperties) :=
    sameAll_declareIf hproperty h.space h'.space
  cases s with
  | uniform step => exact hedge (by decide : "padding" ∈ tokenProperties) (some step)
  | byEdge e =>
    have hleft := hedge (by decide : "padding-left" ∈ tokenProperties)
    have hright := hedge (by decide : "padding-right" ∈ tokenProperties)
    have htop := hedge (by decide : "padding-top" ∈ tokenProperties)
    have hbottom := hedge (by decide : "padding-bottom" ∈ tokenProperties)
    exact (hleft e.x).append (hright e.x) |>.append (htop e.y) |>.append (hbottom e.y)
      |>.append (htop e.top) |>.append (hright e.right) |>.append (hbottom e.bottom)
      |>.append (hleft e.left)

theorem sameAll_textStyle (h : scale.IsPlain) (h' : scale'.IsPlain) (kind : TextStyle) :
    SameAll (kind.declarations scale) (kind.declarations scale') := by
  obtain ⟨hsize, hweight, hheight⟩ := h.metrics kind
  obtain ⟨hsize', hweight', hheight'⟩ := h'.metrics kind
  refine .cons (.of_token (by decide) hsize hsize') (.cons (.of_token (by decide) hweight hweight')
    (.cons (.of_token (by decide) hheight hheight') ?_))
  cases kind with
  | code => exact .cons (.of_token (by decide) h.monospace h'.monospace) .nil
  | overline => exact SameAll.refl _
  | _ => exact .nil

theorem sameAll_declarationList (h : scale.IsPlain) (h' : scale'.IsPlain) (s : Style) :
    SameAll (s.declarationList scale) (s.declarationList scale') := by
  have hspace : SameAll ((s.space.map (Spacing.declarations scale.space)).getD [])
      ((s.space.map (Spacing.declarations scale'.space)).getD []) := by
    cases s.space with
    | none => exact .nil
    | some space => exact sameAll_spacing h h' space
  have htext : SameAll ((s.typography.map (TextStyle.declarations scale)).getD [])
      ((s.typography.map (TextStyle.declarations scale')).getD []) := by
    cases s.typography with
    | none => exact .nil
    | some kind => exact sameAll_textStyle h h' kind
  have hradius := sameAll_declareIf (by decide : "border-radius" ∈ tokenProperties) h.radius
    h'.radius s.radius
  have hborder := sameAll_declareIf (by decide : "border" ∈ tokenProperties)
    (not_mem_borderValue h) (not_mem_borderValue h') s.border
  have hshadow := sameAll_declareIf (by decide : "box-shadow" ∈ tokenProperties) h.shadow
    h'.shadow s.shadow
  have hcolor := sameAll_declareIf (by decide : "color" ∈ tokenProperties) h.color h'.color s.color
  have hbackground := sameAll_declareIf (by decide : "background-color" ∈ tokenProperties)
    h.background h'.background s.background
  have hgap := sameAll_declareIf (by decide : "gap" ∈ tokenProperties) h.space h'.space s.gap
  have htokens := hspace.append hradius |>.append hborder |>.append hshadow |>.append hcolor
    |>.append hbackground |>.append htext
  exact htokens.append (.refl _) |>.append (.refl _) |>.append (.refl _) |>.append hgap
    |>.append (.refl _) |>.append (.refl _) |>.append (.refl _) |>.append (.refl _)
    |>.append (.refl _) |>.append (.refl _) |>.append (.refl _) |>.append (.refl _)
    |>.append (.refl _) |>.append (.refl _) |>.append (.refl _) |>.append (.refl _)
    |>.append (.refl _)

/-- **The declarations of a style say the same of display in all scales.** -/
theorem sameAll_declarations (h : scale.IsPlain) (h' : scale'.IsPlain) (s : Style) :
    SameAll (s.declarations scale) (s.declarations scale') :=
  (sameAll_declarationList h h' s).ofEntries

end Style

/-! ## Styles of openings -/

namespace Props

theorem lookup_copy (key name other : String) (props : Props) :
    (copy key name props).lookup other = if other = name then shownIf key props else none := by
  rw [copy]
  cases shownIf key props with
  | none => simp
  | some value =>
    rw [Option.map_some, Option.toList_some, List.lookup_cons, List.lookup_nil]
    by_cases h : other = name
    · rw [h, beq_self_eq_true, if_pos rfl]
    · rw [beq_eq_false_iff_ne.2 h, if_neg h]

theorem lookup_flag_of_ne {key other : String} (h : other ≠ key) (props : Props) :
    (flag key props).lookup other = none := by
  rw [flag]
  split_ifs
  · rw [List.lookup_cons, beq_eq_false_iff_ne.2 h, List.lookup_nil]
  · rfl

theorem lookup_style_inputAttributes (props : Props) :
    (inputAttributes props).lookup "style" = none :=
  OrderedMap.lookup_eq_none_iff.2 fun hin =>
    absurd ((names_inputAttributes_sublist props).subset hin) (by decide)

end Props

/-- The style that an opening has by itself. -/
def Opening.styleText (opening : Opening) : String := (opening.attributes.lookup "style").getD ""

theorem Themed.hides_opening (kind : NodeKind) (props : Props) :
    hides (opening kind props).styleText = hides (Minimal.opening kind props).styleText := by
  rw [opening, Minimal.opening]
  cases kind.primitive? with
  | none => rfl
  | some primitive =>
    cases primitive with
    | grid =>
      have hsplit : "display:grid;grid-template-columns:" ++ props.gridTemplate =
          "display:grid" ++ ";" ++ ("grid-template-columns:" ++ props.gridTemplate) := by
        rw [← String.append_assoc]
        rfl
      have hgrid : shown? "display:grid" = some "grid" := by decide +kernel
      change hides ("grid-template-columns:" ++ props.gridTemplate) =
        hides ("display:grid;grid-template-columns:" ++ props.gridTemplate)
      rw [hsplit, hides_eq, hides_eq, shown?_append, hgrid]
      cases shown? ("grid-template-columns:" ++ props.gridTemplate) with
      | _ => rfl
    | stack =>
      change hides "" = hides "display:flex;flex-direction:column"
      decide +kernel
    | _ => simp [Opening.styleText, classed, classedWith, List.lookup_cons, Props.lookup_copy,
        Props.lookup_flag_of_ne, OrderedMap.lookup_append, Props.lookup_style_inputAttributes]

/-! ## Styles of nodes -/

namespace Node

/-- Of display the style of a node says what its own declarations say, else what the opening
says. -/
theorem shown?_styleText (scale : Scale) (opening : Opening) (style : Style) :
    shown? (styleText scale opening style) =
      (shown? (write (style.declarations scale))).or (shown? opening.styleText) := by
  have hread : InlineStyle.read (styleText scale opening style) =
      InlineStyle.read opening.styleText ++
        InlineStyle.read (write (style.declarations scale)) := by
    refine (read_intercalate_filter [opening.styleText, write (style.declarations scale)]).trans ?_
    rw [List.flatMap_cons, List.flatMap_singleton]
  rw [shown?, hread, get?_append]
  rfl

/-- **The style of a node hides its element in both themes or in neither.** -/
theorem hides_styleText (kind : NodeKind) (props : Props) (style : Style) :
    hides (styleText Themed.scale (Themed.opening kind props) style) =
      hides (styleText Minimal.scale (Minimal.opening kind props) style) := by
  have hown := (Style.sameAll_declarations Minimal.isPlain_scale Themed.isPlain_scale
    style).shown?_write
  have hopening := Themed.hides_opening kind props
  rw [hides_eq, hides_eq] at hopening ⊢
  rw [shown?_styleText, shown?_styleText, hown]
  cases shown? (write (style.declarations Minimal.scale)) with
  | none => exact hopening
  | some value => rfl

end Node

end PageTree
