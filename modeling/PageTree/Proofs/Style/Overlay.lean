import PageTree.Proofs.Style.Basic

/-!
# Overlays of styles

Laying one style over another is associative and idempotent, and the empty style changes nothing.
What it does to the fields is one law for all of them: a member of the written overlay is that of
the patch if the patch has it, and that of the base otherwise. A style is read back from its
members, so the law leaves one style for the overlay; a field that an overlay forgets would break
it.

## Main definitions

* `Json.Overlays`: lists of fields, each with the value of a patch or else that of a base

## Main results

* `Style.overlay_assoc`, `Style.overlay_self`
* `Style.eq_overlay_iff`: the law of the fields
-/

namespace PageTree

/-! ## Overlays of records -/

namespace Json

/-- The fields of a record under these names, in which each field has the value of the patch if it
has one there, and that of the base otherwise. -/
inductive Overlays : List String → List (Option (String × Json)) → List (Option (String × Json)) →
    List (Option (String × Json)) → Prop
  | done : Overlays [] [] [] []
  | cons {α : Type} {name : String} {write : α → Json} {names : List String}
    {patches bases overlays : List (Option (String × Json))} (patch base : Option α)
    (hrest : Overlays names patches bases overlays) :
    Overlays (name :: names) (fieldIf name write patch :: patches)
      (fieldIf name write base :: bases) (fieldIf name write (patch.or base) :: overlays)

/-- A field that is set is the member with its name; one that is not set hides none. -/
theorem member?_record_cons {α : Type} (field name : String) (write : α → Json) (value : Option α)
    (entries : List (Option (String × Json))) :
    (record (fieldIf field write value :: entries)).member? name =
      if name = field then (value.map write).or ((record entries).member? name)
      else (record entries).member? name := by
  cases value with
  | none => exact (ite_self _).symm
  | some a =>
    change List.lookup name ((field, write a) :: _) = _
    split_ifs with hname
    · rw [hname, OrderedMap.lookup_cons_self]
      rfl
    · rw [OrderedMap.lookup_cons_of_ne hname]
      rfl

theorem Overlays.member?_of_not_mem {names : List String}
    {patches bases overlays : List (Option (String × Json))}
    (h : Overlays names patches bases overlays) {name : String} (hnot : name ∉ names) :
    (record patches).member? name = none := by
  induction h with
  | done => rfl
  | cons patch base hrest ih =>
    obtain ⟨hne, hnot⟩ := not_or.1 (mt List.mem_cons.2 hnot)
    rw [member?_record_cons, if_neg hne, ih hnot]

/-- **The members of an overlay** are those of the patch, and those of the base that are not among
them. -/
theorem Overlays.member?_eq {names : List String}
    {patches bases overlays : List (Option (String × Json))}
    (h : Overlays names patches bases overlays) (hnames : names.Nodup) (name : String) :
    (record overlays).member? name =
      ((record patches).member? name).or ((record bases).member? name) := by
  induction h with
  | done => rfl
  | @cons α field write names patches bases overlays patch base hrest ih =>
    obtain ⟨hnot, hnodup⟩ := List.nodup_cons.1 hnames
    rw [member?_record_cons, member?_record_cons, member?_record_cons, ih hnodup]
    split_ifs with hname
    · rw [hname, hrest.member?_of_not_mem hnot, Option.none_or, Option.or_none, Option.map_or,
        Option.or_assoc]
    · rfl

end Json

/-! ## Overlays of styles -/

namespace Style

/-- Two patches one after the other are one patch, the second laid over the first. -/
theorem overlay_assoc (base patch other : Style) :
    (base.overlay patch).overlay other = base.overlay (patch.overlay other) := by
  simp only [overlay, Option.or_assoc]

theorem overlay_empty (style : Style) : style.overlay {} = style := rfl

theorem empty_overlay (style : Style) : overlay {} style = style := by
  simp only [overlay, Option.or_none]

theorem overlay_self (style : Style) : style.overlay style = style := by
  simp only [overlay, Option.or_self]

/-- The fields of an overlay, one after the other. -/
theorem exists_overlays (base patch : Style) : ∃ patches bases overlays,
    patch.json = .record patches ∧ base.json = .record bases ∧
      (base.overlay patch).json = .record overlays ∧
        Json.Overlays fieldNames patches bases overlays := by
  refine ⟨_, _, _, rfl, rfl, rfl, ?_⟩
  repeat' first | exact .done | apply Json.Overlays.cons

/-- A style is known by its members. -/
theorem eq_of_member? {style other : Style}
    (h : ∀ name, style.json.member? name = other.json.member? name) : style = other := by
  have hfields (s : Style) : Record.fields? fieldNames s.json.literal =
      some fun name => (s.json.member? name).map Json.literal := by
    have hnodup := (s.survives false).keyed.1
    rw [← names_memberLiterals] at hnodup
    refine (fields?_obj hnodup fieldNames).trans (congrArg some (funext fun name => ?_))
    exact lookup_memberLiterals _ name
  have hsame : Record.fields? fieldNames style.json.literal =
      Record.fields? fieldNames other.json.literal := by
    simp only [hfields, h]
  have hread : read false style.json.literal = read false other.json.literal := by
    rw [read, read, hsame]
  rw [(style.survives false).back, (other.survives false).back] at hread
  exact Option.some.inj hread

/-- **The law of the fields.** A style is the overlay of two when each member that is written of it
is that of the patch if the patch has one under the name, and that of the base otherwise. -/
theorem eq_overlay_iff {merged base patch : Style} :
    merged = base.overlay patch ↔
      ∀ name, merged.json.member? name =
        (patch.json.member? name).or (base.json.member? name) := by
  have hlaw (name : String) : (base.overlay patch).json.member? name =
      (patch.json.member? name).or (base.json.member? name) := by
    obtain ⟨patches, bases, overlays, hpatch, hbase, hoverlay, h⟩ := exists_overlays base patch
    rw [hpatch, hbase, hoverlay]
    exact h.member?_eq (by decide) name
  constructor
  · rintro rfl
    exact hlaw
  · exact fun h => eq_of_member? fun name => (h name).trans (hlaw name).symm

end Style

end PageTree
