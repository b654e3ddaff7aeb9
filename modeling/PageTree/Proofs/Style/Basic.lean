import PageTree.Proofs.Json.Records
import PageTree.Style.Basic

/-!
# Styles survive printing

A style is read back from what is written of it, whether it was read or is an overlay. Padding is
tried as one step first, so edge by edge padding is read back because it is written as an object that
names no step.

## Main results

* `Style.survives`: every style is read back
* `Spacing.codec`, `Border.codec`, `Style.codec`: what is written of one that was read is nested no
  deeper than what was read
-/

namespace PageTree

open Record

theorem EdgeSpacing.survives (e : EdgeSpacing) : Survives read json 1 e := by
  refine Keeps.record (d := 0) ?_ (by decide) (fun _ => rfl) rfl
  exact .cons (.word _ e.x) (.cons (.word _ e.y) (.cons (.word _ e.top) (.cons (.word _ e.right)
    (.cons (.word _ e.bottom) (.cons (.word _ e.left) .done)))))

theorem Border.survives (again : Bool) (b : Border) : Survives (read again) json 1 b := by
  refine Keeps.record (d := 0) ?_ (by decide) (fun _ => rfl) rfl
  exact .cons (.float _ b.width) (.cons (.word _ b.line) (.cons (.word _ b.color) .done))

theorem EdgeSpacing.codec : Codec 0 read read json where
  survives {_ e _} h hd _ := by
    obtain ⟨_, hfields, -⟩ := Option.bind_eq_some_iff.1 h
    exact e.survives.mono (Nat.le_trans (depth_pos_of_fields? hfields) hd)
  solid _ _ := nofun

theorem Border.codec (inTagged again : Bool) : Codec 0 (read inTagged) (read again) json where
  survives {_ b _} h hd _ := by
    obtain ⟨_, hfields, -⟩ := Option.bind_eq_some_iff.1 h
    exact (b.survives again).mono (Nat.le_trans (depth_pos_of_fields? hfields) hd)
  solid _ _ := nofun

/-! ## Padding -/

/-- An object without `null` in it names no word. -/
theorem Record.word_obj {α : Type} [Vocabulary α] {members : List (String × Literal)}
    (h : ∀ m ∈ members, m.2 ≠ .null) : (word false (.obj members) : Option α) = none := by
  generalize hliteral : Literal.obj members = literal
  unfold word
  split
  · cases hliteral
  · next name =>
    obtain rfl := Literal.obj.inj hliteral
    exact absurd rfl (h _ (List.mem_singleton_self _))
  · rfl
  · rfl

/-- What is written of edge by edge padding names no step. -/
theorem EdgeSpacing.word_literal (e : EdgeSpacing) :
    (word false e.json.literal : Option SpaceStep) = none := by
  refine word_obj fun m hm => ?_
  obtain ⟨entry, hentry, rfl⟩ := exists_of_mem_memberLiterals hm
  obtain ⟨found, hfound, rfl⟩ := List.mem_filterMap.1 hentry
  have hword {name : String} {value : Option SpaceStep}
      (h : some entry = Json.fieldIf name .word value) : entry.2.literal ≠ .null := by
    obtain ⟨step, -, rfl⟩ := Option.map_eq_some_iff.1 h.symm
    exact nofun
  simp only [List.mem_cons, List.not_mem_nil, or_false] at hfound
  rcases hfound with h | h | h | h | h | h <;> exact hword h

theorem Spacing.read_json (spacing : Spacing) : read spacing.json.literal = some spacing := by
  cases spacing with
  | uniform step =>
    have hvalue : (json (.uniform step)).literal.value?.isSome := rfl
    have hword : word false (json (.uniform step)).literal = some step :=
      Vocabulary.ofName?_name step
    rw [read, whole, if_pos hvalue, hword]
  | byEdge edges =>
    have hs := edges.survives
    rw [read, json, whole, Json.value?_literal hs.keyed, EdgeSpacing.word_literal, hs.back]
    rfl

theorem Spacing.survives (spacing : Spacing) : Survives read json 1 spacing where
  back := spacing.read_json
  keyed := by
    cases spacing with
    | uniform step => exact trivial
    | byEdge edges => exact edges.survives.keyed
  depth := by
    cases spacing with
    | uniform step => exact Nat.zero_le 1
    | byEdge edges => exact edges.survives.depth

theorem Spacing.json_solid (spacing : Spacing) : spacing.json.literal ≠ .null := by
  cases spacing with
  | _ => exact nofun

theorem Spacing.codec : Codec 0 read read json where
  survives {literal spacing d} h hd _ := by
    refine ⟨spacing.read_json, spacing.survives.keyed, ?_⟩
    cases spacing with
    | uniform step => exact Nat.zero_le d
    | byEdge edges =>
      rw [read, whole] at h
      split_ifs at h
      split at h
      · cases h
      · obtain ⟨found, hfound, heq⟩ := Option.map_eq_some_iff.1 h
        cases heq
        exact (EdgeSpacing.codec.survives hfound hd (Nat.zero_le d)).depth
  solid {_ spacing} _ _ := spacing.json_solid

/-! ## Styles -/

/-- A style is read back when its padding and its border are. -/
theorem Style.survives_of_parts {again : Bool} {d : Nat} {s : Style}
    (hspace : Stores d "space" (nullable Spacing.read) (Json.fieldIf "space" Spacing.json s.space)
      s.space)
    (hborder : Stores d "border" (nullable (Border.read again))
      (Json.fieldIf "border" Border.json s.border) s.border) :
    Survives (read again) json (d + 1) s := by
  refine Keeps.record (d := d) ?_ (by decide) (fun _ => rfl) rfl
  exact .cons hspace (.cons (.word _ s.radius) (.cons hborder (.cons (.word _ s.shadow)
    (.cons (.word _ s.color) (.cons (.word _ s.background) (.cons (.word _ s.typography)
    (.cons (.word _ s.layout) (.cons (.word _ s.align) (.cons (.word _ s.justify)
    (.cons (.word _ s.gap) (.cons (.string _ s.width) (.cons (.string _ s.height)
    (.cons (.string _ s.minWidth) (.cons (.string _ s.maxWidth) (.cons (.string _ s.minHeight)
    (.cons (.string _ s.maxHeight) (.cons (.word _ s.overflow) (.cons (.float _ s.opacity)
    (.cons (.word _ s.fontWeight) (.cons (.string _ s.fontSize) (.cons (.word _ s.textAlign)
    (.cons (.string _ s.cursor) (.cons (.word _ s.position) .done)))))))))))))))))))))))

/-- **Every style is read back**, an overlay of two that were read included. -/
theorem Style.survives (again : Bool) (s : Style) : Survives (read again) json 2 s :=
  survives_of_parts (Stores.nullable (fun spacing _ => ⟨spacing.survives, spacing.json_solid⟩) _)
    (Stores.nullable (fun border _ => ⟨border.survives again, by exact nofun⟩) _)

theorem Style.codec (inTagged again : Bool) : Codec 0 (read inTagged) (read again) json where
  survives {literal s d} h hd _ := by
    obtain ⟨field, hfields, h⟩ := Option.bind_eq_some_iff.1 h
    obtain ⟨d, rfl⟩ : ∃ e, d = e + 1 :=
      ⟨d - 1, by have := depth_pos_of_fields? hfields; omega⟩
    have hwithin := within_of_fields? hfields hd
    obtain ⟨space, hspace, h⟩ := Option.bind_eq_some_iff.1 h
    obtain ⟨radius, -, h⟩ := Option.bind_eq_some_iff.1 h
    obtain ⟨border, hborder, h⟩ := Option.bind_eq_some_iff.1 h
    obtain ⟨shadow, -, h⟩ := Option.bind_eq_some_iff.1 h
    obtain ⟨color, -, h⟩ := Option.bind_eq_some_iff.1 h
    obtain ⟨background, -, h⟩ := Option.bind_eq_some_iff.1 h
    obtain ⟨typography, -, h⟩ := Option.bind_eq_some_iff.1 h
    obtain ⟨layout, -, h⟩ := Option.bind_eq_some_iff.1 h
    obtain ⟨align, -, h⟩ := Option.bind_eq_some_iff.1 h
    obtain ⟨justify, -, h⟩ := Option.bind_eq_some_iff.1 h
    obtain ⟨gap, -, h⟩ := Option.bind_eq_some_iff.1 h
    obtain ⟨width, -, h⟩ := Option.bind_eq_some_iff.1 h
    obtain ⟨height, -, h⟩ := Option.bind_eq_some_iff.1 h
    obtain ⟨minWidth, -, h⟩ := Option.bind_eq_some_iff.1 h
    obtain ⟨maxWidth, -, h⟩ := Option.bind_eq_some_iff.1 h
    obtain ⟨minHeight, -, h⟩ := Option.bind_eq_some_iff.1 h
    obtain ⟨maxHeight, -, h⟩ := Option.bind_eq_some_iff.1 h
    obtain ⟨overflow, -, h⟩ := Option.bind_eq_some_iff.1 h
    obtain ⟨opacity, -, h⟩ := Option.bind_eq_some_iff.1 h
    obtain ⟨fontWeight, -, h⟩ := Option.bind_eq_some_iff.1 h
    obtain ⟨fontSize, -, h⟩ := Option.bind_eq_some_iff.1 h
    obtain ⟨textAlign, -, h⟩ := Option.bind_eq_some_iff.1 h
    obtain ⟨cursor, -, h⟩ := Option.bind_eq_some_iff.1 h
    obtain ⟨position, -, h⟩ := Option.bind_eq_some_iff.1 h
    obtain rfl := Option.some.inj h
    exact survives_of_parts (Spacing.codec.nullable hspace (hwithin _) (Nat.zero_le d) _)
      ((Border.codec inTagged again).nullable hborder (hwithin _) (Nat.zero_le d) _)
  solid _ _ := nofun

end PageTree
