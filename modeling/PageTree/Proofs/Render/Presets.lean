import Mathlib.Data.List.Induction
import PageTree.Proofs.Markup.Outline
import PageTree.Render.Page

/-!
# The presets of a page

A page carries the rules of its presets itself, in one block of its head. There is a rule for each
preset that a node of the document names, as its motion or in an effect, no rule for any other, and
the rules stand in the order in which the nodes first name the presets. Each of them is for the
class of elements that move by the preset and for the class of elements on which effects play it.

## Main definitions

* `Document.presetUses`: the presets that nodes name, as often as they do
* `Preset.classes`, `Defines`: the classes that play a preset, and rules that are for a class

## Main results

* `Document.mem_presets`, `Document.nodup_presets`, `Document.presets_by_first_use`
* `Document.filter_headParts`: the block in the head
* `Document.defines_presetRules`: what its rules are for
-/

namespace PageTree

/-! ## Lists without repetitions -/

section

variable {α : Type} [DecidableEq α]

theorem eraseDups_concat (l : List α) (a : α) :
    (l ++ [a]).eraseDups = if a ∈ l then l.eraseDups else l.eraseDups ++ [a] := by
  rw [List.eraseDups_append, List.removeAll, List.filter_cons]
  split_ifs with ha hmem hmem
  · simp [hmem] at ha
  · rfl
  · exact List.append_nil _
  · simp [hmem] at ha

theorem nodup_eraseDups (l : List α) : l.eraseDups.Nodup := by
  induction l using List.reverseRecOn with
  | nil => exact List.nodup_nil
  | append_singleton l a ih =>
    rw [eraseDups_concat]
    split_ifs with hmem
    · exact ih
    · refine ih.append (List.nodup_singleton a) fun b hb ha => hmem ?_
      rw [List.mem_singleton.1 ha] at hb
      exact List.mem_eraseDups.1 hb

/-- The members are in the order in which they first stand in the list. -/
theorem pairwise_eraseDups (l : List α) :
    l.eraseDups.Pairwise fun a b => l.idxOf a < l.idxOf b := by
  induction l using List.reverseRecOn with
  | nil => exact .nil
  | append_singleton l x ih =>
    have hearlier {a : α} (ha : a ∈ l.eraseDups) : (l ++ [x]).idxOf a = l.idxOf a :=
      List.idxOf_append_of_mem (List.mem_eraseDups.1 ha)
    have hkept : l.eraseDups.Pairwise fun a b => (l ++ [x]).idxOf a < (l ++ [x]).idxOf b :=
      ih.imp_of_mem fun ha hb hlt => by rwa [hearlier ha, hearlier hb]
    rw [eraseDups_concat]
    split_ifs with hmem
    · exact hkept
    · refine List.pairwise_append.2 ⟨hkept, List.pairwise_singleton _ _, fun a ha b hb => ?_⟩
      rw [List.mem_singleton.1 hb, hearlier ha, List.idxOf_append_of_notMem hmem]
      exact Nat.lt_add_right _ (List.idxOf_lt_length_of_mem (List.mem_eraseDups.1 ha))

end

/-! ## Which presets there are -/

/-- An effect plays a preset by its name. -/
theorem Effect.preset?_eq_some_iff {effect : Effect} {preset : Preset} :
    effect.preset? = some preset ↔
      ∃ target, effect = .animate target (some (Vocabulary.name preset)) := by
  constructor
  · intro h
    cases effect with
    | animate target animation =>
      cases animation with
      | none => cases h
      | some name =>
        rw [Vocabulary.name_of_ofName? h]
        exact ⟨target, rfl⟩
    | _ => cases h
  · rintro ⟨target, rfl⟩
    exact Vocabulary.ofName?_name preset

namespace Document

variable (document : Document)

/-- The presets that nodes name, in document order, the motion of a node in front of its effects. -/
def presetUses : List Preset := document.app.preorder.flatMap Node.ownPresets

theorem presets_eq : document.presets = document.presetUses.eraseDups := rfl

/-- **The presets of a page** are those that nodes move by and those that effects name. -/
theorem mem_presets {preset : Preset} : preset ∈ document.presets ↔
    ∃ node ∈ document.app.preorder, node.motion.bind Motion.preset? = some preset ∨
      ∃ binding ∈ node.events, ∃ target,
        .animate target (some (Vocabulary.name preset)) ∈ binding.effects := by
  rw [presets_eq, List.mem_eraseDups, presetUses, List.mem_flatMap]
  refine exists_congr fun node => and_congr_right fun _ => ?_
  rw [Node.ownPresets, List.mem_append, Option.mem_toList, List.mem_flatMap]
  refine or_congr_right (exists_congr fun binding => and_congr_right fun _ => ?_)
  simp only [List.mem_filterMap, Effect.preset?_eq_some_iff]
  constructor
  · rintro ⟨effect, heffect, target, rfl⟩
    exact ⟨target, heffect⟩
  · rintro ⟨target, heffect⟩
    exact ⟨_, heffect, target, rfl⟩

theorem nodup_presets : document.presets.Nodup := nodup_eraseDups _

/-- **They are listed by first use.** -/
theorem presets_by_first_use : document.presets.Pairwise fun a b =>
    document.presetUses.idxOf a < document.presetUses.idxOf b :=
  pairwise_eraseDups _

end Document

/-! ## Their rules -/

/-- Rules of a style sheet, one of which is for elements of this class. -/
def Defines (rules c : String) : Prop :=
  ∃ front selectors declarations back,
    rules = front ++ sheetBlock (",".intercalate selectors) declarations ++ back ∧
      "." ++ c ∈ selectors

theorem Defines.intercalate {rules c : String} {blocks : List String} (h : Defines rules c)
    (hmem : rules ∈ blocks) : Defines ("\n".intercalate blocks) c := by
  induction blocks with
  | nil => cases hmem
  | cons block blocks ih =>
    by_cases hlast : blocks = []
    · subst hlast
      rwa [String.intercalate_singleton, ← List.mem_singleton.1 hmem]
    rw [String.intercalate_cons_of_ne_nil hlast]
    rcases List.mem_cons.1 hmem with rfl | hmem
    · obtain ⟨front, selectors, declarations, back, hrules, hc⟩ := h
      refine ⟨front, selectors, declarations, back ++ "\n" ++ "\n".intercalate blocks, ?_, hc⟩
      rw [hrules]
      simp only [String.append_assoc]
    · obtain ⟨front, selectors, declarations, back, hrules, hc⟩ := ih hmem
      refine ⟨block ++ "\n" ++ front, selectors, declarations, back, ?_, hc⟩
      rw [hrules]
      simp only [String.append_assoc]

namespace Preset

/-- The classes of elements on which a preset plays. -/
def classes (preset : Preset) : List String :=
  [preset.motionClass, animateClass (Vocabulary.name preset)]

theorem defines_sheet (preset : Preset) {c : String} (h : c ∈ preset.classes) :
    Defines preset.sheet c := by
  refine ⟨sheetBlock ("@keyframes " ++ preset.motionClass)
      (String.join (preset.frames.map fun frame => sheetBlock frame.1 frame.2)) ++ " ",
    preset.classes.map ("." ++ ·), "animation:" ++ preset.motionClass ++ " " ++ preset.timing, "",
    ?_, List.mem_map_of_mem h⟩
  have hselectors : ",".intercalate (preset.classes.map ("." ++ ·)) =
      "." ++ preset.motionClass ++ ",." ++ animateClass (Vocabulary.name preset) := by
    have hcomma : ",." = "," ++ "." := rfl
    rw [classes, List.map_cons, List.map_singleton, String.intercalate_cons_cons,
      String.intercalate_singleton, hcomma]
    simp only [String.append_assoc]
  rw [hselectors, String.append_empty]
  rfl

end Preset

namespace Document

variable (document : Document)

/-- The rules of the presets of a page. -/
def presetRules : String := "\n".intercalate (document.presets.map Preset.sheet)

/-- **Each preset of a page is defined**, for both of its classes. -/
theorem defines_presetRules {preset : Preset} (h : preset ∈ document.presets) {c : String}
    (hc : c ∈ preset.classes) : Defines document.presetRules c :=
  (preset.defines_sheet hc).intercalate (List.mem_map_of_mem h)

/-- The element is the block with the rules of presets. -/
def isPresetBlock : Markup → Bool
  | .element tag attributes _ =>
    tag == "style" && (Attribute.toMap attributes).lookup "id" == some "ir-motion-presets"
  | _ => false

/-- **The head of a page has one block with these rules**, and none if there are no presets. -/
theorem filter_headParts (theme : Theme) (defaults : PageDefaults) :
    (document.headParts theme defaults).filter isPresetBlock =
      if document.presets = [] then []
      else [sheetElement "ir-motion-presets" document.presetRules] := by
  have hlinks (addresses : List String) :
      (addresses.map sheetLink).filter isPresetBlock = [] := by
    rw [List.filter_eq_nil_iff]
    intro m hm
    obtain ⟨address, -, rfl⟩ := List.mem_map.1 hm
    exact Bool.false_ne_true
  have htoasts : (if document.hasToastRegion then [sheetElement "ir-toast-styles" toastSheet]
      else []).filter isPresetBlock = [] := by
    split_ifs
    · simp [isPresetBlock, sheetElement, Attribute.toMap, Attribute.quoted]
    · rfl
  rw [headParts, List.filter_append, List.filter_append, List.filter_append, hlinks, htoasts,
    List.append_nil, List.append_nil]
  simp only [List.isEmpty_iff]
  split_ifs
  · simp [isPresetBlock]
  · simp [isPresetBlock, sheetElement, Attribute.toMap, Attribute.quoted, presetRules]

end Document

end PageTree
