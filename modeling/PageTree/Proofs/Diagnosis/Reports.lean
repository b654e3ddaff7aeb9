import Mathlib.Data.List.Induction
import PageTree.Proofs.Diagnosis.Causes
import PageTree.Proofs.Text.Splitting

/-!
# Findings are told apart

What is reported tells the finding: the parts of a path between its dots say which way to go from
the root and, by the last of them, what the finding is about. A text that reports a repeated id is
about no other finding. So each cause is reported once, and an id that occurs at least twice at its
second place only.

## Main results

* `nodePath_injective`, `Finding.rank_eq`: paths tell places, and paths with messages tell findings
* `Node.two_le_count_ids_iff`: an id that occurs at least twice has a second place
* `Document.reports_causes`: the check reports the findings that there is cause for, in order
-/

namespace PageTree

/-! ## Paths tell places -/

/-- An item of a list as a part of a path. -/
def itemPart (list : String) (index : Nat) : List Char :=
  list.toList ++ '[' :: ((toString index).toList ++ [']'])

theorem toList_itemPath (path list : String) (index : Nat) :
    (itemPath (path ++ ("." ++ list)) index).toList =
      path.toList ++ '.' :: itemPart list index := by
  simp [itemPath, itemPart]

theorem itemPart_injective (list : String) : Function.Injective (itemPart list) := by
  intro index other h
  have hdigits := List.append_cancel_right (List.cons.inj (List.append_cancel_left h)).2
  rw [Nat.toString_eq_repr, Nat.toString_eq_repr, Nat.repr_eq_ofList_toDigits,
    Nat.repr_eq_ofList_toDigits, String.toList_ofList, String.toList_ofList] at hdigits
  rw [← Nat.ofDigitChars_ten_toDigits (n := index), hdigits, Nat.ofDigitChars_ten_toDigits]

theorem takeWhile_itemPart {list : String} (h : '[' ∉ list.toList) (index : Nat) :
    (itemPart list index).takeWhile (· != '[') = list.toList := by
  have hall : ∀ c ∈ list.toList, (c != '[') = true := fun c hc => by
    rw [bne_iff_ne]
    rintro rfl
    exact h hc
  rw [itemPart, List.takeWhile_append_of_pos hall]
  simp

theorem dot_not_mem_itemPart {list : String} (h : '.' ∉ list.toList) (index : Nat) :
    '.' ∉ itemPart list index := by
  have hdigits : '.' ∉ Nat.toDigits 10 index := fun hdot =>
    absurd (Nat.isDigit_of_mem_toDigits (by decide) (by decide) hdot) (by decide)
  simp [itemPart, h, hdigits]

/-- A path that goes on by a part without dots. -/
theorem split_append_part (path : List Char) {part : List Char} (h : '.' ∉ part) :
    Text.split '.' (path ++ '.' :: part) = Text.split '.' path ++ [part] := by
  have hpart : ∀ c ∈ part, (c == '.') = false := fun c hc => by
    rw [beq_eq_false_iff_ne]
    rintro rfl
    exact h hc
  rw [Text.split_append, Text.split, Text.split, Text.splitWhere_eq_singleton hpart]

/-- The parts of the path of the node at a position. -/
def nodeParts (position : Position) : List (List Char) :=
  "app".toList :: position.map (itemPart "children")

theorem split_nodePath (position : Position) :
    Text.split '.' (nodePath position).toList = nodeParts position := by
  induction position using List.reverseRecOn with
  | nil => decide
  | append_singleton position index ih =>
    rw [nodePath_concat]
    change Text.split '.' (itemPath (nodePath position ++ ("." ++ "children")) index).toList = _
    rw [toList_itemPath, split_append_part _ (dot_not_mem_itemPart (by decide) index), ih,
      nodeParts, nodeParts, List.map_append, ← List.cons_append]
    rfl

theorem nodeParts_injective : Function.Injective nodeParts := fun _ _ h =>
  List.map_injective_iff.2 (itemPart_injective "children") (List.cons.inj h).2

/-- **Distinct nodes have distinct paths.** -/
theorem nodePath_injective : Function.Injective nodePath := by
  intro position other h
  refine nodeParts_injective ?_
  rw [← split_nodePath, h, split_nodePath]

/-- The patterns are told by how they are shown. -/
theorem place_eq_of_shown_eq {place other : Nat} {pattern pattern' : ScriptPattern}
    (h : ScriptPattern.all[place]? = some pattern) (h' : ScriptPattern.all[other]? = some pattern')
    (hshown : pattern.shown = pattern'.shown) : place = other := by
  have hnodup : (ScriptPattern.all.map ScriptPattern.shown).Nodup := by decide
  have hplace : (ScriptPattern.all.map ScriptPattern.shown)[place]? = some pattern.shown := by
    rw [List.getElem?_map, h]
    rfl
  have hother : (ScriptPattern.all.map ScriptPattern.shown)[other]? = some pattern.shown := by
    rw [List.getElem?_map, h', hshown]
    rfl
  exact (List.getElem?_inj (List.getElem?_eq_some_iff.1 hplace).1 hnodup).1
    (hplace.trans hother.symm)

namespace Finding

/-- The parts of the path of a finding. -/
def parts : Finding → List (List Char)
  | repeatedId position _ => nodeParts position
  | unknownKind position _ => nodeParts position ++ ["type".toList]
  | unnamedEvent position index | noEffects position index =>
    nodeParts position ++ [itemPart "events" index]
  | lostTarget position index place _ =>
    nodeParts position ++ [itemPart "events" index, itemPart "do" place, "target".toList]
  | repeatedModule index _ => [itemPart "modules" index, "id".toList]
  | suspiciousModule index _ _ _ => [itemPart "modules" index, "source".toList]

/-- What a finding is about, as a number. -/
def topic : Finding → Nat
  | unknownKind _ _ => 0
  | unnamedEvent _ _ | noEffects _ _ => 1
  | lostTarget _ _ _ _ => 2
  | repeatedModule _ _ => 3
  | suspiciousModule _ _ _ _ => 4
  | repeatedId _ _ => 5

/-- What findings are about whose paths end in a part with this name. -/
def topicOf (name : List Char) : Nat :=
  ["type", "events", "target", "id", "source"].findIdx (·.toList = name)

theorem split_bindingPath (position : Position) (index : Nat) :
    Text.split '.' (bindingPath position index).toList =
      nodeParts position ++ [itemPart "events" index] := by
  change Text.split '.' (itemPath (nodePath position ++ ("." ++ "events")) index).toList = _
  rw [toList_itemPath, split_append_part _ (dot_not_mem_itemPart (by decide) index),
    split_nodePath]

theorem split_modulePath (index : Nat) :
    Text.split '.' (itemPath "modules" index).toList = [itemPart "modules" index] := by
  have hitem : (itemPath "modules" index).toList = itemPart "modules" index := by
    simp [itemPath, itemPart]
  have hdot : '.' ∉ itemPart "modules" index := dot_not_mem_itemPart (by decide) index
  rw [hitem, Text.split, Text.splitWhere_eq_singleton fun c hc => ?_]
  rw [beq_eq_false_iff_ne]
  rintro rfl
  exact hdot hc

/-- A path that goes on by a field. -/
theorem split_field (path field : String) (h : '.' ∉ field.toList) :
    Text.split '.' (path ++ ("." ++ field)).toList =
      Text.split '.' path.toList ++ [field.toList] := by
  rw [String.toList_append, String.toList_append]
  exact split_append_part _ h

theorem split_path (f : Finding) : Text.split '.' f.diagnostic.path.toList = f.parts := by
  cases f with
  | repeatedId position id => exact split_nodePath position
  | unknownKind position kind =>
    exact (split_field _ "type" (by decide)).trans (by rw [split_nodePath]; rfl)
  | unnamedEvent position index => exact split_bindingPath position index
  | noEffects position index => exact split_bindingPath position index
  | lostTarget position index place target =>
    refine (split_field _ "target" (by decide)).trans ?_
    have heffect : Text.split '.' (effectPath position index place).toList =
        nodeParts position ++ [itemPart "events" index] ++ [itemPart "do" place] := by
      change Text.split '.'
        (itemPath (bindingPath position index ++ ("." ++ "do")) place).toList = _
      rw [toList_itemPath, split_append_part _ (dot_not_mem_itemPart (by decide) place),
        split_bindingPath]
    rw [heffect, List.append_assoc, List.append_assoc]
    rfl
  | repeatedModule index id =>
    exact (split_field _ "id" (by decide)).trans (by rw [split_modulePath]; rfl)
  | suspiciousModule index id place pattern =>
    exact (split_field _ "source" (by decide)).trans (by rw [split_modulePath]; rfl)

/-- The last part of the path says what a finding is about. -/
theorem topic_parts (f : Finding) :
    (f.parts.getLast?).map (fun part => topicOf (part.takeWhile (· != '['))) =
      some f.topic := by
  cases f with
  | repeatedId position id =>
    rw [parts, nodeParts, topic]
    cases position using List.reverseRecOn with
    | nil => decide
    | append_singleton position index =>
      rw [List.map_append, ← List.cons_append, List.map_singleton, List.getLast?_concat,
        Option.map_some, takeWhile_itemPart (by decide)]
      decide
  | unknownKind =>
    rw [parts, List.getLast?_concat, topic]
    decide
  | unnamedEvent position index | noEffects position index =>
    rw [parts, List.getLast?_concat, Option.map_some, takeWhile_itemPart (by decide), topic]
    decide
  | lostTarget position index place target =>
    have hlast : (lostTarget position index place target).parts.getLast? =
        some "target".toList := by
      rw [parts, List.getLast?_append]
      rfl
    rw [hlast, topic]
    decide
  | repeatedModule index id =>
    have hlast : (repeatedModule index id).parts.getLast? = some "id".toList := rfl
    rw [hlast, topic]
    decide
  | suspiciousModule index id place pattern =>
    have hlast : (suspiciousModule index id place pattern).parts.getLast? =
        some "source".toList := rfl
    rw [hlast, topic]
    decide

theorem noEvent_ne_noEffects :
    "EventBinding missing \"event\" field" ≠ "EventBinding has empty \"do\" array" := by
  decide

/-- **Paths with messages tell findings**: what is reported at one place in the same words is one
finding. -/
theorem rank_eq {document : Document} {f g : Finding} (hf : document.Warrants f)
    (hg : document.Warrants g) (hpath : f.diagnostic.path = g.diagnostic.path)
    (hmessage : f.diagnostic.message = g.diagnostic.message) : f.rank = g.rank := by
  have hparts : f.parts = g.parts := by rw [← split_path, hpath, split_path]
  have htopic : f.topic = g.topic := by
    have h := topic_parts f
    rw [hparts, topic_parts] at h
    exact (Option.some.inj h).symm
  cases f with
  | repeatedId position id =>
    cases g with
    | repeatedId other id' => rw [rank, rank, nodeParts_injective hparts]
    | _ => cases htopic
  | unknownKind position kind =>
    cases g with
    | unknownKind other kind' =>
      rw [rank, rank, nodeParts_injective (List.append_cancel_right hparts)]
    | _ => cases htopic
  | unnamedEvent position index =>
    cases g with
    | unnamedEvent other index' =>
      obtain ⟨hnode, hbinding⟩ := List.append_inj' hparts rfl
      rw [rank, rank, nodeParts_injective hnode,
        itemPart_injective _ (List.singleton_injective hbinding)]
    | noEffects other index' => exact absurd hmessage noEvent_ne_noEffects
    | _ => cases htopic
  | noEffects position index =>
    cases g with
    | noEffects other index' =>
      obtain ⟨hnode, hbinding⟩ := List.append_inj' hparts rfl
      rw [rank, rank, nodeParts_injective hnode,
        itemPart_injective _ (List.singleton_injective hbinding)]
    | unnamedEvent other index' => exact absurd hmessage.symm noEvent_ne_noEffects
    | _ => cases htopic
  | lostTarget position index place target =>
    cases g with
    | lostTarget other index' place' target' =>
      obtain ⟨hnode, hinside⟩ := List.append_inj' hparts rfl
      obtain ⟨hbinding, hinside⟩ := List.cons.inj hinside
      rw [rank, rank, nodeParts_injective hnode, itemPart_injective _ hbinding,
        itemPart_injective _ (List.cons.inj hinside).1]
    | _ => cases htopic
  | repeatedModule index id =>
    cases g with
    | repeatedModule other id' =>
      rw [rank, rank, itemPart_injective _ (List.cons.inj hparts).1]
    | _ => cases htopic
  | suspiciousModule index id place pattern =>
    cases g with
    | suspiciousModule other id' place' pattern' =>
      obtain rfl := itemPart_injective _ (List.cons.inj hparts).1
      obtain ⟨m, hm, rfl, hpattern, -⟩ := hf
      obtain ⟨m', hm', rfl, hpattern', -⟩ := hg
      obtain rfl := Option.some.inj (hm.symm.trans hm')
      have hshown : pattern.shown = pattern'.shown := String.append_right_inj _ |>.1 hmessage
      rw [rank, rank, place_eq_of_shown_eq hpattern hpattern' hshown]
    | _ => cases htopic

end Finding

/-! ## Repeated ids -/

namespace Node

/-- Only one node is the second one with its id. -/
theorem IsSecond.position_eq {root : Node} {id : String} {p q : Position}
    (hp : root.IsSecond p id) (hq : root.IsSecond q id) : p = q := by
  -- were one of them in front of the other, then it and its predecessor were two in front of that
  have hle {p q : Position} (hp : root.IsSecond p id) (hq : root.IsSecond q id) : ¬p < q := by
    intro hlt
    obtain ⟨hid, other, ⟨hother, hotherId⟩, -⟩ := hp
    obtain ⟨-, first, -, honly⟩ := hq
    have hsame := (honly p ⟨hlt, hid⟩).trans (honly other ⟨hother.trans hlt, hotherId⟩).symm
    exact hother.ne hsame.symm
  exact le_antisymm (not_lt.1 (hle hq hp)) (not_lt.1 (hle hp hq))

/-- The positions with an id, in order. -/
def positionsOf (root : Node) (id : String) : List Position :=
  (root.positioned.filter fun place => place.2.id = id).map Prod.fst

theorem mem_positionsOf {root : Node} {position : Position} {id : String} :
    position ∈ root.positionsOf id ↔ root.HasId position id := by
  rw [positionsOf, List.mem_map, HasId]
  simp only [List.mem_filter, decide_eq_true_eq, Prod.exists, mem_positioned,
    Option.map_eq_some_iff]
  constructor
  · rintro ⟨_, node, ⟨hnode, hid⟩, rfl⟩
    exact ⟨node, hnode, hid⟩
  · rintro ⟨node, hnode, hid⟩
    exact ⟨position, node, ⟨hnode, hid⟩, rfl⟩

theorem length_positionsOf (root : Node) (id : String) :
    (root.positionsOf id).length = root.ids.count id := by
  rw [positionsOf, List.length_map, ids, ← map_snd_positioned, List.map_map, List.count_eq_countP,
    List.countP_map, List.countP_eq_length_filter]
  rfl

theorem pairwise_positionsOf (root : Node) (id : String) :
    (root.positionsOf id).Pairwise (· < ·) :=
  List.pairwise_map.2 (root.pairwise_positioned.filter _)

/-- An id that occurs at least twice has a second place. -/
theorem two_le_count_ids_iff {root : Node} {id : String} :
    2 ≤ root.ids.count id ↔ ∃ position, root.IsSecond position id := by
  rw [← length_positionsOf]
  constructor
  · intro hlength
    have hsorted := root.pairwise_positionsOf id
    have hmem (position : Position) : position ∈ root.positionsOf id ↔ root.HasId position id :=
      mem_positionsOf
    match hpositions : root.positionsOf id, hlength with
    | first :: second :: rest, _ =>
      rw [hpositions] at hsorted hmem
      obtain ⟨hfirst, hsorted⟩ := List.pairwise_cons.1 hsorted
      have hrest := (List.pairwise_cons.1 hsorted).1
      refine ⟨second, (hmem second).1 (by simp), first,
        ⟨hfirst second (by simp), (hmem first).1 (by simp)⟩, ?_⟩
      rintro other ⟨hlt, hid⟩
      rcases List.mem_cons.1 ((hmem other).2 hid) with rfl | hother
      · rfl
      · rcases List.mem_cons.1 hother with rfl | hother
        · exact absurd hlt (lt_irrefl _)
        · exact absurd hlt (hrest other hother).asymm
  · rintro ⟨position, hid, other, ⟨hlt, hother⟩, -⟩
    have hposition := mem_positionsOf.2 hid
    have hne : (root.positionsOf id).length ≠ 1 := fun hone => by
      obtain ⟨only, honly⟩ := List.length_eq_one_iff.1 hone
      have hsame : other = position := by
        have hsingle := mem_positionsOf.2 hother
        rw [honly, List.mem_singleton] at hposition hsingle
        rw [hposition, hsingle]
      exact hlt.ne hsame
    have hpos := List.length_pos_of_mem hposition
    omega

end Node

theorem repeatedIdMessage_injective : Function.Injective repeatedIdMessage := fun _ _ h =>
  String.append_right_inj _ |>.1 (String.append_left_inj _ |>.1 h)

/-- Only a finding about a repeated id says that the id is repeated. -/
theorem Finding.message_eq_repeatedIdMessage_iff {f : Finding} {id : String} :
    f.diagnostic.message = repeatedIdMessage id ↔ ∃ position, f = .repeatedId position id := by
  constructor
  · intro h
    cases f with
    | repeatedId position id' => exact ⟨position, by rw [repeatedIdMessage_injective h]⟩
    | unknownKind =>
      rw [diagnostic, errorAt, String.append_assoc] at h
      exact absurd h (append_ne_repeatedIdMessage (by decide) _ id)
    | unnamedEvent =>
      exact absurd h (ne_repeatedIdMessage (by dsimp only [diagnostic, errorAt]; decide) id)
    | noEffects =>
      exact absurd h (ne_repeatedIdMessage (by dsimp only [diagnostic, warningAt]; decide) id)
    | lostTarget =>
      rw [diagnostic, errorAt, String.append_assoc] at h
      exact absurd h (append_ne_repeatedIdMessage (by decide) _ id)
    | repeatedModule =>
      rw [diagnostic, errorAt, String.append_assoc] at h
      exact absurd h (append_ne_repeatedIdMessage (by decide) _ id)
    | suspiciousModule =>
      rw [diagnostic, warningAt, String.append_assoc, String.append_assoc] at h
      exact absurd h (append_ne_repeatedIdMessage (by decide) _ id)
  · rintro ⟨position, rfl⟩
    rfl

namespace Document

theorem nodup_causes (document : Document) : document.causes.Nodup :=
  document.pairwise_causes.imp fun hlt heq => by
    rw [heq] at hlt
    exact lt_irrefl _ hlt

/-- What says that an id is repeated, among what the check reports. -/
theorem filter_message_diagnostics (document : Document) (id : String) :
    document.diagnostics.filter (·.message = repeatedIdMessage id) =
      (document.causes.filter (·.diagnostic.message = repeatedIdMessage id)).map
        Finding.diagnostic := by
  rw [diagnostics_eq, List.filter_map]
  rfl

theorem mem_filter_message_causes {document : Document} {id : String} {f : Finding} :
    f ∈ document.causes.filter (·.diagnostic.message = repeatedIdMessage id) ↔
      ∃ position, document.app.IsSecond position id ∧ f = .repeatedId position id := by
  rw [List.mem_filter, mem_causes, decide_eq_true_eq, Finding.message_eq_repeatedIdMessage_iff]
  constructor
  · rintro ⟨hwarrants, position, rfl⟩
    exact ⟨position, hwarrants, rfl⟩
  · rintro ⟨position, hsecond, rfl⟩
    exact ⟨hsecond, position, rfl⟩

/-- **An id that occurs at least twice is reported once**, at its second place. -/
theorem filter_message_of_isSecond {document : Document} {position : Position} {id : String}
    (h : document.app.IsSecond position id) :
    document.diagnostics.filter (·.message = repeatedIdMessage id) =
      [errorAt (nodePath position) (repeatedIdMessage id)] := by
  have honly : document.causes.filter (·.diagnostic.message = repeatedIdMessage id) =
      [.repeatedId position id] := by
    refine List.perm_singleton.1 ((List.perm_ext_iff_of_nodup
      (document.nodup_causes.filter _) (List.nodup_singleton _)).2 fun f => ?_)
    rw [mem_filter_message_causes, List.mem_singleton]
    constructor
    · rintro ⟨other, hother, rfl⟩
      rw [hother.position_eq h]
    · rintro rfl
      exact ⟨position, h, rfl⟩
  rw [filter_message_diagnostics, honly]
  rfl

/-- An id that occurs at most once is not reported. -/
theorem filter_message_of_count_lt {document : Document} {id : String}
    (h : document.ids.count id < 2) :
    document.diagnostics.filter (·.message = repeatedIdMessage id) = [] := by
  rw [filter_message_diagnostics, List.map_eq_nil_iff, List.eq_nil_iff_forall_not_mem]
  intro f hf
  obtain ⟨position, hsecond, -⟩ := mem_filter_message_causes.1 hf
  exact Nat.not_le_of_lt h (Node.two_le_count_ids_iff.2 ⟨position, hsecond⟩)

/-- **No two findings have the same path and the same message.** -/
theorem nodup_path_message_diagnostics (document : Document) :
    (document.diagnostics.map fun d => (d.path, d.message)).Nodup := by
  rw [diagnostics_eq, List.map_map, List.Nodup, List.pairwise_map]
  refine document.pairwise_causes.imp_of_mem fun {f g} hf hg hlt heq => hlt.ne ?_
  obtain ⟨hpath, hmessage⟩ := Prod.mk.inj heq
  exact Finding.rank_eq (mem_causes.1 hf) (mem_causes.1 hg) hpath hmessage

/-- **The check reports the findings that there is cause for**, each of them once and in order. An
id that occurs at least twice is reported once, at its second place. No two reports have the same
path and the same message, and distinct nodes have distinct paths. -/
theorem reports_causes (document : Document) :
    (∃ findings : List Finding, document.diagnostics = findings.map Finding.diagnostic ∧
      (∀ f, f ∈ findings ↔ document.Warrants f) ∧
      findings.Pairwise fun a b => a.rank < b.rank) ∧
    (∀ id, (2 ≤ document.ids.count id ∧ ∃ position, document.app.IsSecond position id ∧
        document.diagnostics.filter (·.message = repeatedIdMessage id) =
          [errorAt (nodePath position) (repeatedIdMessage id)]) ∨
      document.ids.count id < 2 ∧
        document.diagnostics.filter (·.message = repeatedIdMessage id) = []) ∧
    (document.diagnostics.map fun d => (d.path, d.message)).Nodup ∧
    Function.Injective nodePath := by
  refine ⟨⟨document.causes, document.diagnostics_eq, fun _ => mem_causes,
    document.pairwise_causes⟩, fun id => ?_, document.nodup_path_message_diagnostics,
    nodePath_injective⟩
  by_cases hcount : 2 ≤ document.ids.count id
  · obtain ⟨position, hsecond⟩ := Node.two_le_count_ids_iff.1 hcount
    exact .inl ⟨hcount, position, hsecond, filter_message_of_isSecond hsecond⟩
  · exact .inr ⟨Nat.lt_of_not_le hcount, filter_message_of_count_lt (Nat.lt_of_not_le hcount)⟩

end Document

end PageTree
