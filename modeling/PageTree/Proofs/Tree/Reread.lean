import PageTree.Proofs.Json.Rereading
import PageTree.Proofs.Tree.Event
import PageTree.Proofs.Tree.Motion

/-!
# Bindings and motion read from their texts

The text of a value may say less than the value: numbers change, and what is nested too deep is
lost. What is read from the text of a binding or a motion is then not the binding or the motion.
But words and names are not touched. So an effect that is read from the text of an effect is of the
same kind, and a motion that is read from the text of a motion plays the same preset.

## Main results

* `Record.exists_of_listOf_reread`, `Record.untag_reread`: lists and tagged records
* `Effect.readFields_of_reread`: the kind of an effect
* `Binding.exists_effect_of_reread`: the effects of a binding
* `Motion.preset?_of_reread`
-/

namespace PageTree

namespace Json

theorem rereadItems_eq_map (d : Nat) (items : List Json) :
    rereadItems d items = items.map (reread d) := by
  induction items with
  | nil => rfl
  | cons item items ih => rw [rereadItems, ih, List.map_cons]

theorem lookup_rereadMembers (d : Nat) (members : List (String × Json)) (name : String) :
    (rereadMembers d members).lookup name = (members.lookup name).map (reread d) := by
  induction members with
  | nil => rfl
  | cons member members ih =>
    rw [rereadMembers, List.lookup_cons, List.lookup_cons, ih]
    cases name == member.1 with
    | _ => rfl

end Json

namespace Record

/-- The items of a list that is read from its text are read from the texts of its items. -/
theorem exists_of_listOf_reread {α : Type} {read : Literal → Option α} {write : α → Json} {d : Nat}
    {as bs : List α} (h : listOf read ((Json.arr (as.map write)).reread d) = some bs) :
    ∀ b ∈ bs, ∃ a ∈ as, read ((write a).reread (d - 1)) = some b := by
  intro b hb
  rw [Json.reread] at h
  split_ifs at h
  · cases h
  · obtain ⟨item, hitem, hread⟩ := Codec.mem_of_mapM h hb
    rw [Json.rereadItems_eq_map] at hitem
    obtain ⟨json, hjson, rfl⟩ := List.mem_map.1 hitem
    obtain ⟨a, ha, rfl⟩ := List.mem_map.1 hjson
    exact ⟨a, ha, hread⟩

/-- A field of a record that is read from its text. -/
theorem field_reread {names : List String} {d : Nat} {entries : List (Option (String × Json))}
    {field : String → Option Literal}
    (h : fields? names ((Json.record entries).reread d) = some field) (name : String) :
    field name = ((entries.filterMap id).lookup name).map (Json.reread (d - 1)) := by
  rw [Json.record, Json.reread] at h
  split_ifs at h
  · cases h
  · rw [fields?] at h
    split_ifs at h
    obtain rfl := Option.some.inj h
    exact Json.lookup_rereadMembers ..

/-- A text in a field is read as it is. -/
theorem nullable_string_reread {names : List String} {d : Nat}
    {entries : List (Option (String × Json))} {field : String → Option Literal}
    (h : fields? names ((Json.record entries).reread d) = some field) {name : String}
    {value : Option String} (hfound : (entries.filterMap id).lookup name = value.map .str) :
    nullable string (field name) = some value := by
  rw [field_reread h, hfound]
  cases value with
  | _ => rfl

/-- The second of two fields that may be absent. -/
theorem lookup_second {first second : String} (h : second ≠ first) (a b : Option String) :
    ([Json.fieldIf first .str a, Json.fieldIf second .str b].filterMap id).lookup second =
      b.map .str := by
  cases a with
  | none => cases b <;> simp [Json.fieldIf]
  | some a => cases b <;> simp [Json.fieldIf, List.lookup_cons, beq_eq_false_iff_ne.2 h]

/-- A tagged record that is read from its text is of its kind, with its other fields. -/
theorem untag_reread {κ : Type} [Vocabulary κ] {tag : String} {inTagged : Bool} {d : Nat}
    {kind kind' : κ} {entries : List (Option (String × Json))} {rest : Literal}
    (h : tagged? tag inTagged ((Json.record (Json.field tag (.word kind) :: entries)).reread d) =
      some (kind', rest)) :
    kind' = kind ∧ rest = (Json.record entries).reread d := by
  rw [tagged?, whole] at h
  split_ifs at h
  rw [Json.record, Json.reread] at h
  split_ifs at h with hd
  · cases h
  · change untag? tag inTagged (.obj ((tag, .str (Vocabulary.name kind)) ::
      Json.rereadMembers (d - 1) (entries.filterMap id))) = _ at h
    rw [untag?, List.filter_cons_of_pos (by simp), List.filter_cons_of_neg (by simp)] at h
    split at h
    · next k hkind =>
      obtain ⟨⟨-, rfl⟩, hother⟩ := List.cons_eq_cons.1 hkind |>.imp_left Prod.mk.inj
      have hkept : (Json.rereadMembers (d - 1) (entries.filterMap id)).filter (·.1 != tag) =
          Json.rereadMembers (d - 1) (entries.filterMap id) :=
        List.filter_eq_self.2 fun m hm => by
          simpa using List.filter_eq_nil_iff.1 hother m hm
      rw [kind?, Vocabulary.ofName?_name, hkept] at h
      obtain ⟨rfl, rfl⟩ := Prod.mk.inj (Option.some.inj h)
      exact ⟨rfl, by rw [Json.record, Json.reread, if_neg hd]⟩
    · cases h

end Record

open Record

namespace Effect

variable {inTagged : Bool} {d : Nat} {effect effect' : Effect}

/-- What is read from the text of an effect is an effect of its kind. -/
theorem readFields_of_reread (h : read inTagged (effect.json.reread d) = some effect') :
    readFields effect.kind ((Json.record effect.jsonFields).reread d) = some effect' := by
  obtain ⟨⟨kind, rest⟩, htag, hread⟩ := Option.bind_eq_some_iff.1 h
  obtain ⟨rfl, rfl⟩ := untag_reread htag
  exact hread

theorem kind_of_readFields {kind : EffectKind} {literal : Literal}
    (h : readFields kind literal = some effect) : effect.kind = kind := by
  cases kind with
  | _ =>
    simp only [readFields, bind, pure, Option.bind_eq_some_iff, Option.some.injEq] at h
    grind [Effect.kind]

/-- A focus effect that is read from the text of an effect is that effect, up to its target. -/
theorem eq_focus_of_reread {target selector : Option String}
    (h : read inTagged (effect.json.reread d) = some (.focus target selector)) :
    ∃ target', effect = .focus target' selector := by
  have hread := readFields_of_reread h
  have hkind := kind_of_readFields hread
  cases effect with
  | focus target' selector' =>
    obtain ⟨field, hfields, hread⟩ := Option.bind_eq_some_iff.1 hread
    obtain ⟨_, -, hread⟩ := Option.bind_eq_some_iff.1 hread
    obtain ⟨_, hselector, hread⟩ := Option.bind_eq_some_iff.1 hread
    obtain ⟨-, rfl⟩ := Effect.focus.inj (Option.some.inj hread)
    rw [nullable_string_reread hfields (lookup_second (by decide) target' selector')] at hselector
    exact ⟨target', congrArg _ (Option.some.inj hselector)⟩
  | _ => cases hkind

/-- An animation that is read from the text of an effect is that effect, up to its target. -/
theorem eq_animate_of_reread {target animation : Option String}
    (h : read inTagged (effect.json.reread d) = some (.animate target animation)) :
    ∃ target', effect = .animate target' animation := by
  have hread := readFields_of_reread h
  have hkind := kind_of_readFields hread
  cases effect with
  | animate target' animation' =>
    obtain ⟨field, hfields, hread⟩ := Option.bind_eq_some_iff.1 hread
    obtain ⟨_, -, hread⟩ := Option.bind_eq_some_iff.1 hread
    obtain ⟨_, hanimation, hread⟩ := Option.bind_eq_some_iff.1 hread
    obtain ⟨-, rfl⟩ := Effect.animate.inj (Option.some.inj hread)
    rw [nullable_string_reread hfields (lookup_second (by decide) target' animation')] at hanimation
    exact ⟨target', congrArg _ (Option.some.inj hanimation)⟩
  | _ => cases hkind

end Effect

/-- The effects of a binding that is read from the text of a binding are read from the texts of its
effects. -/
theorem Binding.exists_effect_of_reread {inTagged : Bool} {d : Nat} {binding binding' : Binding}
    (h : read inTagged (binding.json.reread d) = some binding') :
    ∀ effect' ∈ binding'.effects, ∃ effect ∈ binding.effects, ∃ d,
      Effect.read inTagged (effect.json.reread d) = some effect' := by
  obtain ⟨field, hfields, h⟩ := Option.bind_eq_some_iff.1 h
  obtain ⟨event, -, h⟩ := Option.bind_eq_some_iff.1 h
  obtain ⟨conditions, -, h⟩ := Option.bind_eq_some_iff.1 h
  obtain ⟨effects, heffects, h⟩ := Option.bind_eq_some_iff.1 h
  obtain rfl := Option.some.inj h
  have hfound : ([Json.field "event" (.str binding.event),
      Json.fieldUnlessEmpty "when" Condition.json binding.conditions,
      Json.field "do" (.arr (binding.effects.map Effect.json))].filterMap id).lookup "do" =
      some (.arr (binding.effects.map Effect.json)) := by
    cases binding.conditions with
    | _ => rfl
  rw [field_reread hfields, hfound] at heffects
  intro effect' heffect'
  obtain ⟨effect, heffect, hread⟩ := exists_of_listOf_reread heffects effect' heffect'
  exact ⟨effect, heffect, _, hread⟩

/-- A motion that is read from the text of a motion plays the same preset. -/
theorem Motion.preset?_of_reread {inTagged : Bool} {d : Nat} {motion motion' : Motion}
    (h : read inTagged (motion.json.reread d) = some motion') :
    motion'.preset? = motion.preset? := by
  rw [json_eq] at h
  obtain ⟨⟨mode, rest⟩, htag, hread⟩ := Option.bind_eq_some_iff.1 h
  obtain ⟨rfl, rfl⟩ := untag_reread htag
  cases motion with
  | preset p timing =>
    obtain ⟨field, hfields, hread⟩ := Option.bind_eq_some_iff.1 hread
    obtain ⟨p', hp, hread⟩ := Option.bind_eq_some_iff.1 hread
    obtain ⟨timing', -, hread⟩ := Option.bind_eq_some_iff.1 hread
    obtain rfl := Option.some.inj hread
    have hfound : ((Motion.preset p timing).jsonFields.filterMap id).lookup "preset" =
        some (.word p) := rfl
    rw [field_reread hfields, hfound] at hp
    exact hp.symm.trans (Vocabulary.ofName?_name p)
  | keyframes frames timing iterations fill =>
    obtain ⟨field, -, hread⟩ := Option.bind_eq_some_iff.1 hread
    obtain ⟨_, -, hread⟩ := Option.bind_eq_some_iff.1 hread
    obtain ⟨_, -, hread⟩ := Option.bind_eq_some_iff.1 hread
    obtain ⟨_, -, hread⟩ := Option.bind_eq_some_iff.1 hread
    obtain ⟨_, -, hread⟩ := Option.bind_eq_some_iff.1 hread
    obtain rfl := Option.some.inj hread
    rfl

end PageTree
