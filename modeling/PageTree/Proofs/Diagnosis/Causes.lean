import Mathlib.Logic.ExistsUnique
import PageTree.Proofs.Diagnosis.Check
import PageTree.Proofs.Edit.Ids
import PageTree.Proofs.Tree.Position

/-!
# Findings and their causes

Each finding about a document has its cause at one place of the document. The check reports the
findings that the document gives cause for, each of them once and in a fixed order: what is wrong
with nodes and bindings by themselves, in pre-order, then targets that are missing, in pre-order,
then modules.

The check walks through the tree and keeps the ids that it has met. Here the cause of a finding is
said without a walk, by positions: an id is reported where just one smaller position has it too.

## Main definitions

* `Finding`, `Finding.diagnostic`: a finding with its place, and how it is reported
* `Document.Warrants`: a document gives cause for a finding
* `Finding.rank`: the order of findings
* `Document.causes`: the findings about a document, place by place

## Main results

* `Document.diagnostics_eq`: what the check reports, place by place
* `Document.mem_causes`, `Document.pairwise_causes`: these are the findings that there is cause for,
  in order
-/

namespace PageTree

/-! ## Paths -/

/-- The path of the node at a position. -/
def nodePath (position : Position) : String :=
  position.foldl (fun path index => itemPath (path ++ ".children") index) "app"

/-- The path of a binding of the node at a position. -/
def bindingPath (position : Position) (index : Nat) : String :=
  itemPath (nodePath position ++ ".events") index

/-- The path of an effect of a binding of the node at a position. -/
def effectPath (position : Position) (index place : Nat) : String :=
  itemPath (bindingPath position index ++ ".do") place

theorem nodePath_concat (position : Position) (index : Nat) :
    nodePath (position ++ [index]) = itemPath (nodePath position ++ ".children") index := by
  rw [nodePath, List.foldl_append]
  rfl

/-! ## Findings -/

/-- What can be found in a document, and where. -/
inductive Finding where
  /-- The id of a node has occurred before, once. -/
  | repeatedId (position : Position) (id : String)
  /-- The kind of a node is not known. -/
  | unknownKind (position : Position) (kind : NodeKind)
  /-- A binding names no event. -/
  | unnamedEvent (position : Position) (index : Nat)
  /-- A binding has no effects. -/
  | noEffects (position : Position) (index : Nat)
  /-- The target of an effect is not in the tree. -/
  | lostTarget (position : Position) (index place : Nat) (target : String)
  /-- The id of a module has occurred before. -/
  | repeatedModule (index : Nat) (id : String)
  /-- A pattern occurs in a module. -/
  | suspiciousModule (index : Nat) (id : String) (place : Nat) (pattern : ScriptPattern)

namespace Finding

/-- How a finding is reported. -/
def diagnostic : Finding → Diagnostic
  | repeatedId position id => errorAt (nodePath position) (repeatedIdMessage id)
  | unknownKind position kind =>
    errorAt (nodePath position ++ ".type") ("Unknown NodeType: \"" ++ kind.name ++ "\"")
  | unnamedEvent position index =>
    errorAt (bindingPath position index) "EventBinding missing \"event\" field"
  | noEffects position index =>
    warningAt (bindingPath position index) "EventBinding has empty \"do\" array"
  | lostTarget position index place target =>
    errorAt (effectPath position index place ++ ".target")
      ("Target ID \"" ++ target ++ "\" does not exist in document")
  | repeatedModule index id =>
    errorAt (itemPath "modules" index ++ ".id") ("Duplicate module ID: \"" ++ id ++ "\"")
  | suspiciousModule index id _ pattern =>
    warningAt (itemPath "modules" index ++ ".source")
      ("Module \"" ++ id ++ "\" contains potentially dangerous pattern: " ++ pattern.shown)

/-- Where a finding comes among others: those about nodes and bindings come first, then those about
targets, then those about modules; among these the position counts, then what is found there. -/
def rank : Finding → List (List Nat)
  | repeatedId position _ => [[0], position, [0]]
  | unknownKind position _ => [[0], position, [1]]
  | unnamedEvent position index => [[0], position, [2, index, 0]]
  | noEffects position index => [[0], position, [2, index, 1]]
  | lostTarget position index place _ => [[1], position, [index, place]]
  | repeatedModule index _ => [[2], [index], [0]]
  | suspiciousModule index _ place _ => [[2], [index], [1, place]]

end Finding

/-! ## Causes -/

/-- The node at a position is the second one in pre-order that has this id. -/
def Node.IsSecond (root : Node) (position : Position) (id : String) : Prop :=
  root.HasId position id ∧ ∃! other, other < position ∧ root.HasId other id

/-- A document gives cause for a finding. -/
def Document.Warrants (document : Document) : Finding → Prop
  | .repeatedId position id => document.app.IsSecond position id
  | .unknownKind position kind => ∃ node, document.app.at? position = some node ∧
      node.kind = kind ∧ ∀ primitive : Primitive, kind ≠ primitive.kind
  | .unnamedEvent position index => ∃ node binding, document.app.at? position = some node ∧
      node.events[index]? = some binding ∧ binding.event = ""
  | .noEffects position index => ∃ node binding, document.app.at? position = some node ∧
      node.events[index]? = some binding ∧ binding.effects = []
  | .lostTarget position index place target => ∃ node binding effect,
      document.app.at? position = some node ∧ node.events[index]? = some binding ∧
        binding.effects[place]? = some effect ∧ effect.PointsAt target ∧ target ≠ "" ∧
          ∀ other, ¬document.app.HasId other target
  | .repeatedModule index id => (document.modules[index]?).map Module.id = some id ∧
      ∃ earlier < index, (document.modules[earlier]?).map Module.id = some id
  | .suspiciousModule index id place pattern => ∃ m, document.modules[index]? = some m ∧
      m.id = id ∧ ScriptPattern.all[place]? = some pattern ∧ pattern.occursIn m.source = true

/-! ## Findings place by place -/

/-- A finding that is made when a condition holds. -/
def causeIf (condition : Bool) (finding : Finding) : List Finding :=
  if condition then [finding] else []

@[simp] theorem map_causeIf (condition : Bool) (finding : Finding) :
    (causeIf condition finding).map Finding.diagnostic =
      findingIf condition finding.diagnostic := by
  cases condition <;> rfl

@[simp] theorem mem_causeIf {condition : Bool} {finding other : Finding} :
    other ∈ causeIf condition finding ↔ condition = true ∧ other = finding := by
  cases condition <;> simp [causeIf]

/-- The places in front of a position whose nodes have this id. -/
def Node.earlier (root : Node) (position : Position) (id : String) : List (Position × Node) :=
  root.positioned.filter fun place => place.1 < position ∧ place.2.id = id

/-- Findings about a node and its bindings. -/
def Node.ownCauses (root : Node) (place : Position × Node) : List Finding :=
  causeIf ((root.earlier place.1 place.2.id).length = 1) (.repeatedId place.1 place.2.id) ++
    causeIf (!place.2.kind.isKnown) (.unknownKind place.1 place.2.kind) ++
    place.2.events.zipIdx.flatMap fun (binding, index) =>
      causeIf binding.event.isEmpty (.unnamedEvent place.1 index) ++
        causeIf binding.effects.isEmpty (.noEffects place.1 index)

/-- Findings about the targets of a node's effects. -/
def Node.targetCauses (root : Node) (place : Position × Node) : List Finding :=
  place.2.events.zipIdx.flatMap fun (binding, index) =>
    binding.effects.zipIdx.flatMap fun (effect, position) =>
      effect.target?.toList.flatMap fun target =>
        causeIf (!target.isEmpty && !root.ids.contains target)
          (.lostTarget place.1 index position target)

/-- Findings about a module. -/
def Document.moduleCauses (document : Document) (entry : Module × Nat) : List Finding :=
  causeIf (((document.modules.take entry.2).map Module.id).contains entry.1.id)
      (.repeatedModule entry.2 entry.1.id) ++
    ScriptPattern.all.zipIdx.flatMap fun (pattern, place) =>
      causeIf (pattern.occursIn entry.1.source)
        (.suspiciousModule entry.2 entry.1.id place pattern)

/-- The findings about a document, place by place. -/
def Document.causes (document : Document) : List Finding :=
  document.app.positioned.flatMap document.app.ownCauses ++
    document.app.positioned.flatMap document.app.targetCauses ++
    document.modules.zipIdx.flatMap document.moduleCauses

/-! ## The walk -/

theorem Node.located_eq (path : String) (node : Node) :
    node.located path = (node, path) :: locatedFrom (path ++ ".children") 0 node.children := by
  cases node with
  | mk => rw [located]

theorem Node.locatedFrom_eq (nodes : List Node) : ∀ (position : Position) (index : Nat),
    locatedFrom (nodePath position ++ ".children") index nodes =
      (positionedFrom index nodes).map fun place => (place.2, nodePath (position ++ place.1)) := by
  induction nodes using forest_induction with
  | nil =>
    intro position index
    rw [locatedFrom, positionedFrom_nil, List.map_nil]
  | cons node nodes ihInside ihRest =>
    intro position index
    rw [locatedFrom, positionedFrom_cons, ihRest, ← nodePath_concat, located_eq, ihInside,
      positioned_eq, List.map_append, List.map_map, List.map_cons]
    simp [Function.comp_def]

/-- The paths of the walk say where nodes stand. -/
theorem Node.located_app (root : Node) :
    root.located "app" = root.positioned.map fun place => (place.2, nodePath place.1) := by
  have happ : nodePath [] = "app" := rfl
  rw [← happ, located_eq, locatedFrom_eq, positioned_eq]
  rfl

/-- What stands in front of a place, by its id. -/
theorem Node.earlier_eq {root : Node} {before rest : List (Position × Node)}
    {place : Position × Node} (h : root.positioned = before ++ place :: rest) (id : String) :
    root.earlier place.1 id = before.filter fun other => other.2.id = id := by
  have hsorted := h ▸ root.pairwise_positioned
  rw [List.pairwise_append, List.pairwise_cons] at hsorted
  obtain ⟨-, ⟨hrest, -⟩, hbefore⟩ := hsorted
  have hbehind : (place :: rest).filter
      (fun other => other.1 < place.1 ∧ other.2.id = id) = [] := by
    refine List.filter_eq_nil_iff.2 fun other hother => ?_
    have hge : ¬other.1 < place.1 := by
      rcases List.mem_cons.1 hother with rfl | hother
      · exact lt_irrefl _
      · exact (hrest other hother).asymm
    simp [hge]
  rw [earlier, h, List.filter_append, hbehind, List.append_nil]
  refine List.filter_congr fun other hother => ?_
  simp [hbefore other hother place (List.mem_cons_self ..)]

theorem map_ownCauses (root : Node) (place : Position × Node) {earlier : List String}
    (h : earlier.count place.2.id = (root.earlier place.1 place.2.id).length) :
    (root.ownCauses place).map Finding.diagnostic =
      nodeFindings earlier place.2 (nodePath place.1) := by
  rw [Node.ownCauses, nodeFindings, h]
  simp [List.map_flatMap, bindingFindings, Finding.diagnostic, bindingPath, repeatedIdMessage,
    repeatedIdStart]

/-- The walk over the nodes behind some others reports what they give cause for. -/
theorem treeFindings_eq {root : Node} {before rest : List (Position × Node)}
    (h : root.positioned = before ++ rest) :
    treeFindings (before.map fun place => place.2.id).reverse
        (rest.map fun place => (place.2, nodePath place.1)) =
      (rest.flatMap root.ownCauses).map Finding.diagnostic := by
  induction rest generalizing before with
  | nil => rfl
  | cons place rest ih =>
    have hnext : root.positioned = (before ++ [place]) ++ rest := by rw [h, List.append_cons]
    have hcount : ((before.map fun place => place.2.id).reverse).count place.2.id =
        (root.earlier place.1 place.2.id).length := by
      rw [Node.earlier_eq h, List.count_reverse, List.count_eq_countP, List.countP_map,
        List.countP_eq_length_filter]
      rfl
    have hrest := ih hnext
    rw [List.map_append, List.reverse_append] at hrest
    rw [List.map_cons, treeFindings, List.flatMap_cons, List.map_append,
      map_ownCauses root place hcount]
    exact congrArg _ hrest

theorem map_targetCauses (root : Node) (place : Position × Node) :
    (root.targetCauses place).map Finding.diagnostic =
      nodeTargetFindings root.ids place.2 (nodePath place.1) := by
  rw [Node.targetCauses, nodeTargetFindings, List.map_flatMap]
  refine List.flatMap_congr fun p _ => ?_
  dsimp only
  rw [List.map_flatMap]
  refine List.flatMap_congr fun q _ => ?_
  dsimp only [targetFindings]
  cases q.1.target? with
  | none => rfl
  | some target =>
    rw [Option.toList_some, List.flatMap_singleton]
    exact map_causeIf _ _

theorem map_moduleCauses (document : Document) (m : Module) (index : Nat) :
    (document.moduleCauses (m, index)).map Finding.diagnostic =
      moduleFindings ((document.modules.take index).map Module.id).reverse m
        (itemPath "modules" index) := by
  rw [Document.moduleCauses, moduleFindings, List.map_append, map_causeIf, List.map_flatMap]
  simp [ScriptPattern.all, Finding.diagnostic]

theorem modulesFindings_eq {document : Document} {before rest : List Module}
    (h : document.modules = before ++ rest) :
    modulesFindings (before.map Module.id).reverse before.length rest =
      ((rest.zipIdx before.length).flatMap document.moduleCauses).map Finding.diagnostic := by
  induction rest generalizing before with
  | nil => rfl
  | cons m rest ih =>
    have hnext : document.modules = (before ++ [m]) ++ rest := by rw [h, List.append_cons]
    have htake : document.modules.take before.length = before := by rw [h, List.take_left]
    have hrest := ih hnext
    rw [List.map_append, List.reverse_append, List.length_append] at hrest
    rw [modulesFindings, List.zipIdx_cons, List.flatMap_cons, List.map_append, map_moduleCauses,
      htake]
    exact congrArg _ hrest

/-- **What the check reports**, place by place. -/
theorem Document.diagnostics_eq (document : Document) :
    document.diagnostics = document.causes.map Finding.diagnostic := by
  have htree := treeFindings_eq
    (show document.app.positioned = [] ++ document.app.positioned from rfl)
  have hmodules := modulesFindings_eq (show document.modules = [] ++ document.modules from rfl)
  have htargets :
      (document.app.positioned.flatMap document.app.targetCauses).map Finding.diagnostic =
        (document.app.located "app").flatMap fun p =>
          nodeTargetFindings document.ids p.1 p.2 := by
    rw [Node.located_app, List.map_flatMap, List.flatMap_map]
    exact List.flatMap_congr fun place _ => map_targetCauses _ _
  rw [causes, List.map_append, List.map_append, htargets]
  rw [← Node.located_app] at htree
  rw [← htree]
  exact congrArg _ hmodules

/-! ## What is listed -/

/-- A list without repeats has one member just when it has length one. -/
theorem length_eq_one_iff_of_nodup {α : Type} {items : List α} (h : items.Nodup) :
    items.length = 1 ↔ ∃! a, a ∈ items := by
  rw [List.length_eq_one_iff]
  constructor
  · rintro ⟨a, rfl⟩
    exact ⟨a, List.mem_singleton_self a, fun b hb => List.mem_singleton.1 hb⟩
  · rintro ⟨a, ha, honly⟩
    refine ⟨a, List.perm_singleton.1
      ((List.perm_ext_iff_of_nodup h (List.nodup_singleton a)).2 fun b => ?_)⟩
    exact ⟨fun hb => List.mem_singleton.2 (honly b hb), fun hb => List.mem_singleton.1 hb ▸ ha⟩

/-- What is made for the items of a list with their indices. -/
theorem mem_flatMap_zipIdx {α β : Type} {items : List α} {make : α × Nat → List β} {b : β} :
    b ∈ items.zipIdx.flatMap make ↔
      ∃ index a, items[index]? = some a ∧ b ∈ make (a, index) := by
  rw [List.mem_flatMap]
  constructor
  · rintro ⟨⟨a, index⟩, hmem, hb⟩
    exact ⟨index, a, List.mk_mem_zipIdx_iff_getElem?.1 hmem, hb⟩
  · rintro ⟨index, a, ha, hb⟩
    exact ⟨(a, index), List.mk_mem_zipIdx_iff_getElem?.2 ha, hb⟩

theorem Node.nodup_positions (root : Node) : (root.positioned.map Prod.fst).Nodup :=
  List.pairwise_map.2 (root.pairwise_positioned.imp fun h => ne_of_lt h)

theorem Node.mem_positions_earlier {root : Node} {position other : Position} {id : String} :
    other ∈ (root.earlier position id).map Prod.fst ↔
      other < position ∧ root.HasId other id := by
  rw [List.mem_map, HasId]
  simp only [earlier, List.mem_filter, decide_eq_true_eq, Prod.exists, mem_positioned,
    Option.map_eq_some_iff]
  constructor
  · rintro ⟨_, node, ⟨hnode, hlt, hid⟩, rfl⟩
    exact ⟨hlt, node, hnode, hid⟩
  · rintro ⟨hlt, node, hnode, hid⟩
    exact ⟨other, node, ⟨hnode, hlt, hid⟩, rfl⟩

/-- The walk has met an id once before. -/
theorem Node.length_earlier_eq_one_iff {root : Node} {position : Position} {id : String} :
    (root.earlier position id).length = 1 ↔
      ∃! other, other < position ∧ root.HasId other id := by
  have hnodup : ((root.earlier position id).map Prod.fst).Nodup :=
    root.nodup_positions.sublist (List.filter_sublist.map _)
  rw [← List.length_map Prod.fst, length_eq_one_iff_of_nodup hnodup]
  simp only [mem_positions_earlier]

theorem Node.mem_ownCauses {root : Node} {place : Position × Node} {f : Finding} :
    f ∈ root.ownCauses place ↔
      ((∃! other, other < place.1 ∧ root.HasId other place.2.id) ∧
          f = .repeatedId place.1 place.2.id) ∨
        ((∀ primitive : Primitive, place.2.kind ≠ primitive.kind) ∧
          f = .unknownKind place.1 place.2.kind) ∨
        ∃ index binding, place.2.events[index]? = some binding ∧
          (binding.event = "" ∧ f = .unnamedEvent place.1 index ∨
            binding.effects = [] ∧ f = .noEffects place.1 index) := by
  have hkind : (!place.2.kind.isKnown) = true ↔
      ∀ primitive : Primitive, place.2.kind ≠ primitive.kind := by
    rw [Bool.not_eq_true', ← Bool.not_eq_true, NodeKind.isKnown_iff, not_exists]
  simp only [ownCauses, List.mem_append, mem_causeIf, mem_flatMap_zipIdx, hkind,
    decide_eq_true_eq, length_earlier_eq_one_iff, String.isEmpty_iff, List.isEmpty_iff, or_assoc]

theorem Node.mem_targetCauses {root : Node} {place : Position × Node} {f : Finding} :
    f ∈ root.targetCauses place ↔ ∃ index binding, place.2.events[index]? = some binding ∧
      ∃ position effect, binding.effects[position]? = some effect ∧
        ∃ target, effect.PointsAt target ∧ target ≠ "" ∧
          (∀ other, ¬root.HasId other target) ∧ f = .lostTarget place.1 index position target := by
  have hlost (target : String) : (!target.isEmpty && !root.ids.contains target) = true ↔
      target ≠ "" ∧ ∀ other, ¬root.HasId other target := by
    rw [Bool.and_eq_true, Bool.not_eq_true', Bool.not_eq_true', ← Bool.not_eq_true,
      ← Bool.not_eq_true, List.contains_iff_mem, mem_ids_iff, String.isEmpty_iff, not_exists]
  simp only [targetCauses, mem_flatMap_zipIdx]
  simp only [List.mem_flatMap, Option.mem_toList, Effect.target?_eq_some_iff, mem_causeIf, hlost,
    and_assoc]

theorem Document.mem_moduleCauses {document : Document} {m : Module} {index : Nat} {f : Finding} :
    f ∈ document.moduleCauses (m, index) ↔
      ((∃ earlier < index, (document.modules[earlier]?).map Module.id = some m.id) ∧
          f = .repeatedModule index m.id) ∨
        ∃ place pattern, ScriptPattern.all[place]? = some pattern ∧
          pattern.occursIn m.source = true ∧ f = .suspiciousModule index m.id place pattern := by
  have hearlier : ((document.modules.take index).map Module.id).contains m.id = true ↔
      ∃ earlier < index, (document.modules[earlier]?).map Module.id = some m.id := by
    rw [List.contains_iff_mem, List.mem_iff_getElem?]
    simp only [List.getElem?_map, List.getElem?_take, Option.map_eq_some_iff,
      Option.ite_none_right_eq_some]
    constructor
    · rintro ⟨earlier, other, ⟨hlt, hother⟩, hid⟩
      exact ⟨earlier, hlt, other, hother, hid⟩
    · rintro ⟨earlier, hlt, other, hother, hid⟩
      exact ⟨earlier, other, ⟨hlt, hother⟩, hid⟩
  simp only [moduleCauses, List.mem_append, mem_causeIf, mem_flatMap_zipIdx, hearlier]

/-- **The findings listed are those that there is cause for.** -/
theorem Document.mem_causes {document : Document} {f : Finding} :
    f ∈ document.causes ↔ document.Warrants f := by
  simp only [causes, List.mem_append, List.mem_flatMap (l := document.app.positioned),
    mem_flatMap_zipIdx, Prod.exists, Node.mem_positioned, Node.mem_ownCauses,
    Node.mem_targetCauses, mem_moduleCauses]
  cases f with
  | repeatedId position id =>
    simp only [Warrants, Node.IsSecond, Finding.repeatedId.injEq, reduceCtorEq, and_false,
      or_false, exists_false]
    constructor
    · rintro ⟨p, node, hnode, hsecond, rfl, rfl⟩
      exact ⟨by rw [Node.HasId, hnode]; rfl, hsecond⟩
    · rintro ⟨hid, hsecond⟩
      obtain ⟨node, hnode, rfl⟩ := Option.map_eq_some_iff.1 hid
      exact ⟨position, node, hnode, hsecond, rfl, rfl⟩
  | unknownKind position kind =>
    simp only [Warrants, Finding.unknownKind.injEq, reduceCtorEq, and_false, or_false, false_or,
      exists_false]
    constructor
    · rintro ⟨p, node, hnode, hkind, rfl, rfl⟩
      exact ⟨node, hnode, rfl, hkind⟩
    · rintro ⟨node, hnode, rfl, hkind⟩
      exact ⟨position, node, hnode, hkind, rfl, rfl⟩
  | unnamedEvent position index => simp [Warrants]
  | noEffects position index => simp [Warrants]
  | lostTarget position index place target => simp [Warrants]
  | repeatedModule index id =>
    simp only [Warrants, Finding.repeatedModule.injEq, reduceCtorEq, and_false, or_false,
      false_or, exists_false, Option.map_eq_some_iff (x := document.modules[index]?)]
    constructor
    · rintro ⟨i, m, hm, hearlier, rfl, rfl⟩
      exact ⟨⟨m, hm, rfl⟩, hearlier⟩
    · rintro ⟨⟨m, hm, rfl⟩, hearlier⟩
      exact ⟨index, m, hm, hearlier, rfl, rfl⟩
  | suspiciousModule index id place pattern =>
    simp only [Warrants, Finding.suspiciousModule.injEq, reduceCtorEq, and_false, or_false,
      false_or, exists_false]
    constructor
    · rintro ⟨i, m, hm, j, found, hfound, hoccurs, rfl, rfl, rfl, rfl⟩
      exact ⟨m, hm, rfl, hfound, hoccurs⟩
    · rintro ⟨m, hm, rfl, hfound, hoccurs⟩
      exact ⟨index, m, hm, place, pattern, hfound, hoccurs, rfl, rfl, rfl, rfl⟩

/-! ## The order of findings -/

theorem rank_lt_of_position {phase : List Nat} {position other : Position} (h : position < other)
    (found found' : List Nat) : [phase, position, found] < [phase, other, found'] :=
  List.cons_lt_cons_iff.2 (.inr ⟨rfl, List.cons_lt_cons_iff.2 (.inl h)⟩)

theorem rank_lt_of_found {phase : List Nat} {position : Position} {found found' : List Nat}
    (h : found < found') : [phase, position, found] < [phase, position, found'] :=
  List.cons_lt_cons_iff.2 (.inr ⟨rfl, List.cons_lt_cons_iff.2 (.inr ⟨rfl,
    List.cons_lt_cons_iff.2 (.inl h)⟩)⟩)

theorem pairwise_causeIf (R : Finding → Finding → Prop) (condition : Bool) (finding : Finding) :
    (causeIf condition finding).Pairwise R := by
  cases condition with
  | false => exact .nil
  | true => exact List.pairwise_singleton R finding

/-- What is made for the items of a list is in order if it is so for each item, and what is made for
an item comes before what is made for later ones. -/
theorem pairwise_flatMap_zipIdx {α β : Type} {R : β → β → Prop} {items : List α}
    {make : α × Nat → List β} (hown : ∀ a index, (make (a, index)).Pairwise R)
    (hother : ∀ a b index later, index < later → ∀ x ∈ make (a, index), ∀ y ∈ make (b, later),
      R x y) : (items.zipIdx.flatMap make).Pairwise R := by
  have hindices : items.zipIdx.Pairwise fun p q => p.2 < q.2 := by
    rw [← List.pairwise_map, List.zipIdx_map_snd]
    exact List.pairwise_lt_range'
  rw [List.pairwise_flatMap]
  exact ⟨fun p _ => hown p.1 p.2, hindices.imp fun h => hother _ _ _ _ h⟩

namespace Node

theorem exists_rank_of_mem_ownCauses {root : Node} {place : Position × Node} {f : Finding}
    (h : f ∈ root.ownCauses place) : ∃ found, f.rank = [[0], place.1, found] := by
  rcases mem_ownCauses.1 h with ⟨-, rfl⟩ | ⟨-, rfl⟩ | ⟨index, binding, -, ⟨-, rfl⟩ | ⟨-, rfl⟩⟩
  all_goals exact ⟨_, rfl⟩

theorem exists_rank_of_mem_targetCauses {root : Node} {place : Position × Node} {f : Finding}
    (h : f ∈ root.targetCauses place) : ∃ found, f.rank = [[1], place.1, found] := by
  obtain ⟨index, binding, -, position, effect, -, target, -, -, -, rfl⟩ := mem_targetCauses.1 h
  exact ⟨_, rfl⟩

theorem pairwise_ownCauses (root : Node) (place : Position × Node) :
    (root.ownCauses place).Pairwise fun a b => a.rank < b.rank := by
  have hbindings : (place.2.events.zipIdx.flatMap fun (binding, index) =>
      causeIf binding.event.isEmpty (.unnamedEvent place.1 index) ++
        causeIf binding.effects.isEmpty (.noEffects place.1 index)).Pairwise
      fun a b => a.rank < b.rank := by
    refine pairwise_flatMap_zipIdx (fun binding index => ?_) fun a b index later hlt x hx y hy => ?_
    · refine List.pairwise_append.2 ⟨pairwise_causeIf _ _ _, pairwise_causeIf _ _ _, ?_⟩
      intro x hx y hy
      rw [(mem_causeIf.1 hx).2, (mem_causeIf.1 hy).2]
      exact rank_lt_of_found (by simp [List.cons_lt_cons_iff])
    · simp only [List.mem_append, mem_causeIf] at hx hy
      have hfound (m n : Nat) : [2, index, m] < [2, later, n] := by
        simp [List.cons_lt_cons_iff, hlt]
      rcases hx with ⟨-, rfl⟩ | ⟨-, rfl⟩
      all_goals
        rcases hy with ⟨-, rfl⟩ | ⟨-, rfl⟩
        all_goals exact rank_lt_of_found (hfound _ _)
  refine List.pairwise_append.2 ⟨List.pairwise_append.2
    ⟨pairwise_causeIf _ _ _, pairwise_causeIf _ _ _, ?_⟩, hbindings, ?_⟩
  · intro x hx y hy
    rw [(mem_causeIf.1 hx).2, (mem_causeIf.1 hy).2]
    exact rank_lt_of_found (by simp [List.cons_lt_cons_iff])
  · intro x hx y hy
    obtain ⟨index, binding, -, hy⟩ := mem_flatMap_zipIdx.1 hy
    simp only [List.mem_append, mem_causeIf] at hx hy
    rcases hx with ⟨-, rfl⟩ | ⟨-, rfl⟩
    all_goals
      rcases hy with ⟨-, rfl⟩ | ⟨-, rfl⟩
      all_goals exact rank_lt_of_found (by simp [List.cons_lt_cons_iff])

theorem pairwise_targetCauses (root : Node) (place : Position × Node) :
    (root.targetCauses place).Pairwise fun a b => a.rank < b.rank := by
  have htarget (effect : Effect) (index position : Nat) {f : Finding}
      (hf : f ∈ effect.target?.toList.flatMap fun target =>
        causeIf (!target.isEmpty && !root.ids.contains target)
          (.lostTarget place.1 index position target)) :
      f.rank = [[1], place.1, [index, position]] := by
    obtain ⟨target, -, hf⟩ := List.mem_flatMap.1 hf
    rw [(mem_causeIf.1 hf).2]
    rfl
  refine pairwise_flatMap_zipIdx (fun binding index => ?_) fun a b index later hlt x hx y hy => ?_
  · refine pairwise_flatMap_zipIdx (fun effect position => ?_)
      fun a b position later hlt x hx y hy => ?_
    · dsimp only
      cases effect.target? with
      | none => exact .nil
      | some target =>
        rw [Option.toList_some, List.flatMap_singleton]
        exact pairwise_causeIf _ _ _
    · rw [htarget a index position hx, htarget b index later hy]
      exact rank_lt_of_found (by simp [List.cons_lt_cons_iff, hlt])
  · obtain ⟨position, effect, -, hx⟩ := mem_flatMap_zipIdx.1 hx
    obtain ⟨position', effect', -, hy⟩ := mem_flatMap_zipIdx.1 hy
    rw [htarget effect index position hx, htarget effect' later position' hy]
    exact rank_lt_of_found (by simp [List.cons_lt_cons_iff, hlt])

end Node

namespace Document

theorem exists_rank_of_mem_moduleCauses {document : Document} {m : Module} {index : Nat}
    {f : Finding} (h : f ∈ document.moduleCauses (m, index)) :
    ∃ found, f.rank = [[2], [index], found] := by
  rcases mem_moduleCauses.1 h with ⟨-, rfl⟩ | ⟨place, pattern, -, -, rfl⟩
  all_goals exact ⟨_, rfl⟩

theorem pairwise_moduleCauses (document : Document) (entry : Module × Nat) :
    (document.moduleCauses entry).Pairwise fun a b => a.rank < b.rank := by
  have hpatterns : (ScriptPattern.all.zipIdx.flatMap fun (pattern, place) =>
      causeIf (pattern.occursIn entry.1.source)
        (.suspiciousModule entry.2 entry.1.id place pattern)).Pairwise
      fun a b => a.rank < b.rank := by
    refine pairwise_flatMap_zipIdx (fun _ _ => pairwise_causeIf _ _ _)
      fun a b place later hlt x hx y hy => ?_
    rw [(mem_causeIf.1 hx).2, (mem_causeIf.1 hy).2]
    exact rank_lt_of_found (by simp [List.cons_lt_cons_iff, hlt])
  refine List.pairwise_append.2 ⟨pairwise_causeIf _ _ _, hpatterns, fun x hx y hy => ?_⟩
  obtain ⟨place, pattern, -, hy⟩ := mem_flatMap_zipIdx.1 hy
  rw [(mem_causeIf.1 hx).2, (mem_causeIf.1 hy).2]
  exact rank_lt_of_found (by simp [List.cons_lt_cons_iff])

/-- **The findings listed are in order.** -/
theorem pairwise_causes (document : Document) :
    document.causes.Pairwise fun a b => a.rank < b.rank := by
  have hown : (document.app.positioned.flatMap document.app.ownCauses).Pairwise
      fun a b => a.rank < b.rank := by
    refine List.pairwise_flatMap.2 ⟨fun place _ => document.app.pairwise_ownCauses place,
      document.app.pairwise_positioned.imp fun hlt x hx y hy => ?_⟩
    obtain ⟨found, hx⟩ := Node.exists_rank_of_mem_ownCauses hx
    obtain ⟨found', hy⟩ := Node.exists_rank_of_mem_ownCauses hy
    rw [hx, hy]
    exact rank_lt_of_position hlt _ _
  have htargets : (document.app.positioned.flatMap document.app.targetCauses).Pairwise
      fun a b => a.rank < b.rank := by
    refine List.pairwise_flatMap.2 ⟨fun place _ => document.app.pairwise_targetCauses place,
      document.app.pairwise_positioned.imp fun hlt x hx y hy => ?_⟩
    obtain ⟨found, hx⟩ := Node.exists_rank_of_mem_targetCauses hx
    obtain ⟨found', hy⟩ := Node.exists_rank_of_mem_targetCauses hy
    rw [hx, hy]
    exact rank_lt_of_position hlt _ _
  have hmodules : (document.modules.zipIdx.flatMap document.moduleCauses).Pairwise
      fun a b => a.rank < b.rank := by
    refine pairwise_flatMap_zipIdx (fun m index => document.pairwise_moduleCauses (m, index))
      fun a b index later hlt x hx y hy => ?_
    obtain ⟨found, hx⟩ := exists_rank_of_mem_moduleCauses hx
    obtain ⟨found', hy⟩ := exists_rank_of_mem_moduleCauses hy
    rw [hx, hy]
    exact rank_lt_of_position (by simp [List.cons_lt_cons_iff, hlt]) _ _
  have hphases {m n : Nat} (h : m < n) {place place' found found' : List Nat} :
      [[m], place, found] < [[n], place', found'] :=
    List.cons_lt_cons_iff.2 (.inl (List.cons_lt_cons_iff.2 (.inl h)))
  refine List.pairwise_append.2 ⟨List.pairwise_append.2 ⟨hown, htargets, ?_⟩, hmodules, ?_⟩
  · intro x hx y hy
    obtain ⟨place, -, hx⟩ := List.mem_flatMap.1 hx
    obtain ⟨place', -, hy⟩ := List.mem_flatMap.1 hy
    obtain ⟨found, hx⟩ := Node.exists_rank_of_mem_ownCauses hx
    obtain ⟨found', hy⟩ := Node.exists_rank_of_mem_targetCauses hy
    rw [hx, hy]
    exact hphases (by decide)
  · intro x hx y hy
    obtain ⟨index, m, -, hy⟩ := mem_flatMap_zipIdx.1 hy
    obtain ⟨found', hy⟩ := exists_rank_of_mem_moduleCauses hy
    rw [hy]
    rcases List.mem_append.1 hx with hx | hx
    · obtain ⟨place, -, hx⟩ := List.mem_flatMap.1 hx
      obtain ⟨found, hx⟩ := Node.exists_rank_of_mem_ownCauses hx
      rw [hx]
      exact hphases (by decide)
    · obtain ⟨place, -, hx⟩ := List.mem_flatMap.1 hx
      obtain ⟨found, hx⟩ := Node.exists_rank_of_mem_targetCauses hx
      rw [hx]
      exact hphases (by decide)

end Document

end PageTree
