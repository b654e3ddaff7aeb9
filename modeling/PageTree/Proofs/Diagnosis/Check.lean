import Mathlib.Data.List.Nodup
import PageTree.Turn.Round

/-!
# What the check accepts

Checking finds no error exactly in documents whose ids are distinct, whose kinds are known, whose
bindings name their events, whose effects point at nodes of the tree, and whose modules have
distinct ids. The strict policy lets exactly these through.

The walk over the tree reports an id where it occurs for the second time, given the ids before it;
as long as those are distinct, it stays silent just when the id is new to them.

## Main definitions

* `Document.IsSound`: nothing about a document is an error

## Main results

* `Document.hasErrors_diagnostics_eq_false_iff`: the check accepts exactly the sound documents
* `Document.strict_iff_isSound`: the strict policy keeps exactly the sound results of a batch
-/

namespace PageTree

/-! ## Sound documents -/

/-- An effect points at the node with an id. -/
inductive Effect.PointsAt : Effect → String → Prop where
  | toggle (target : String) : PointsAt (.toggle (some target)) target
  | animate (target : String) (animation : Option String) :
    PointsAt (.animate (some target) animation) target
  | focus (target : String) (selector : Option String) :
    PointsAt (.focus (some target) selector) target

/-- A node by itself has a known kind, and its bindings name their events. -/
structure Node.IsSound (node : Node) : Prop where
  known : ∃ primitive : Primitive, node.kind = primitive.kind
  named : ∀ binding ∈ node.events, binding.event ≠ ""

/-- The effects of a node point at no node, or at nodes with the ids given. -/
def Node.PointsInto (ids : List String) (node : Node) : Prop :=
  ∀ binding ∈ node.events, ∀ effect ∈ binding.effects, ∀ target,
    effect.PointsAt target → target ≠ "" → target ∈ ids

/-- Nothing about a document is an error. -/
structure Document.IsSound (document : Document) : Prop where
  ids : document.ids.Nodup
  nodes : ∀ node ∈ document.app.preorder, node.IsSound
  targets : ∀ node ∈ document.app.preorder, node.PointsInto document.ids
  modules : (document.modules.map Module.id).Nodup

theorem Effect.target?_eq_some_iff {effect : Effect} {target : String} :
    effect.target? = some target ↔ effect.PointsAt target := by
  constructor
  · intro h
    cases effect with
    | toggle => cases h; exact .toggle target
    | animate => cases h; exact .animate target _
    | focus => cases h; exact .focus target _
    | setState | appendState | fetch | emit | toast => cases h
  · rintro (_ | _ | _) <;> rfl

theorem NodeKind.isKnown_iff {kind : NodeKind} :
    kind.isKnown = true ↔ ∃ primitive : Primitive, kind = primitive.kind := by
  rw [isKnown, Option.isSome_iff_exists]
  constructor
  · rintro ⟨primitive, h⟩
    exact ⟨primitive, congrArg NodeKind.mk (Vocabulary.name_of_ofName? h).symm⟩
  · rintro ⟨primitive, rfl⟩
    exact ⟨primitive, primitive.primitive?_kind⟩

/-! ## Errors among findings -/

@[simp] theorem hasErrors_append (findings others : List Diagnostic) :
    hasErrors (findings ++ others) = (hasErrors findings || hasErrors others) :=
  List.any_append

@[simp] theorem hasErrors_findingIf_errorAt (condition : Bool) (path message : String) :
    hasErrors (findingIf condition (errorAt path message)) = condition := by
  cases condition <;> rfl

@[simp] theorem hasErrors_findingIf_warningAt (condition : Bool) (path message : String) :
    hasErrors (findingIf condition (warningAt path message)) = false := by
  cases condition <;> rfl

theorem hasErrors_flatMap_eq_false {α : Type} {items : List α} {findings : α → List Diagnostic} :
    hasErrors (items.flatMap findings) = false ↔ ∀ a ∈ items, hasErrors (findings a) = false := by
  simp only [hasErrors, List.any_flatMap, List.any_eq_false, Bool.not_eq_true]

/-- Findings that are made for each item of a list with its index. -/
theorem hasErrors_flatMap_zipIdx_eq_false {α : Type} {items : List α}
    {findings : α × Nat → List Diagnostic} {P : α → Prop}
    (h : ∀ a index, hasErrors (findings (a, index)) = false ↔ P a) :
    hasErrors (items.zipIdx.flatMap findings) = false ↔ ∀ a ∈ items, P a := by
  rw [hasErrors_flatMap_eq_false]
  constructor
  · intro hall a ha
    obtain ⟨index, hindex, rfl⟩ := List.getElem_of_mem ha
    have hmem := List.mk_mem_zipIdx_iff_getElem?.2 (List.getElem?_eq_getElem hindex)
    exact (h _ index).1 (hall _ hmem)
  · rintro hall ⟨a, index⟩ hmem
    exact (h a index).2 (hall a (List.fst_mem_of_mem_zipIdx hmem))

/-! ## Nodes -/

mutual

theorem Node.map_fst_located (path : String) : ∀ node : Node,
    (node.located path).map Prod.fst = node.preorder
  | ⟨id, kind, props, style, events, motion, children, text⟩ => by
    rw [located, preorder, List.map_cons, map_fst_locatedFrom _ _ children]

theorem Node.map_fst_locatedFrom (list : String) (index : Nat) : ∀ nodes : List Node,
    (locatedFrom list index nodes).map Prod.fst = preorderAll nodes
  | [] => rfl
  | node :: nodes => by
    rw [locatedFrom, preorderAll, List.map_append, map_fst_located _ node,
      map_fst_locatedFrom _ _ nodes]

end

theorem hasErrors_bindingFindings (path : String) (binding : Binding) :
    hasErrors (bindingFindings path binding) = false ↔ binding.event ≠ "" := by
  simp [bindingFindings]

theorem hasErrors_nodeFindings {earlier : List String} {node : Node} {path : String} :
    hasErrors (nodeFindings earlier node path) = false ↔
      earlier.count node.id ≠ 1 ∧ node.IsSound := by
  have hbindings : hasErrors (node.events.zipIdx.flatMap fun p =>
      bindingFindings (itemPath (path ++ ".events") p.2) p.1) = false ↔
      ∀ binding ∈ node.events, binding.event ≠ "" :=
    hasErrors_flatMap_zipIdx_eq_false fun binding index => hasErrors_bindingFindings _ binding
  change hasErrors (_ ++ _ ++ node.events.zipIdx.flatMap fun p =>
    bindingFindings (itemPath (path ++ ".events") p.2) p.1) = false ↔ _
  simp only [hasErrors_append, hasErrors_findingIf_errorAt, Bool.or_eq_false_iff,
    decide_eq_false_iff_not, Bool.not_eq_false', hbindings, NodeKind.isKnown_iff, and_assoc]
  exact and_congr_right fun _ => ⟨fun h => ⟨h.1, h.2⟩, fun h => ⟨h.known, h.named⟩⟩

/-- **The walk over a tree** finds no error just when the ids of the nodes, met one after the other,
never repeat, and each node is sound by itself. -/
theorem hasErrors_treeFindings {earlier : List String} (hearlier : earlier.Nodup)
    (nodes : List (Node × String)) :
    hasErrors (treeFindings earlier nodes) = false ↔
      ((nodes.map fun p => p.1.id).reverse ++ earlier).Nodup ∧ ∀ p ∈ nodes, p.1.IsSound := by
  induction nodes generalizing earlier with
  | nil => simp [treeFindings, hasErrors, hearlier]
  | cons p nodes ih =>
    obtain ⟨node, path⟩ := p
    rw [treeFindings, hasErrors_append, Bool.or_eq_false_iff, hasErrors_nodeFindings,
      List.map_cons, List.reverse_cons, List.append_assoc, List.singleton_append,
      List.forall_mem_cons]
    by_cases hmem : node.id ∈ earlier
    · have hrepeated : earlier.count node.id = 1 :=
        List.count_eq_one_of_mem hearlier hmem
      constructor
      · exact fun h => absurd hrepeated h.1.1
      · intro h
        exact absurd hmem (List.nodup_cons.1 (List.nodup_append.1 h.1).2.1).1
    · have hnew : earlier.count node.id ≠ 1 := by
        rw [List.count_eq_zero_of_not_mem hmem]
        decide
      rw [ih (List.nodup_cons.2 ⟨hmem, hearlier⟩)]
      exact ⟨fun h => ⟨h.2.1, h.1.2, h.2.2⟩, fun h => ⟨⟨hnew, h.2.1⟩, h.1, h.2.2⟩⟩

/-! ## Targets -/

theorem hasErrors_targetFindings {ids : List String} {path : String} {effect : Effect} :
    hasErrors (targetFindings ids path effect) = false ↔
      ∀ target, effect.PointsAt target → target ≠ "" → target ∈ ids := by
  simp only [← Effect.target?_eq_some_iff, targetFindings]
  cases effect.target? with
  | none => simp [hasErrors]
  | some target => simp

theorem hasErrors_nodeTargetFindings {ids : List String} {node : Node} {path : String} :
    hasErrors (nodeTargetFindings ids node path) = false ↔ node.PointsInto ids :=
  hasErrors_flatMap_zipIdx_eq_false fun _ _ =>
    hasErrors_flatMap_zipIdx_eq_false fun _ _ => hasErrors_targetFindings

/-! ## Modules -/

theorem hasErrors_moduleFindings {earlier : List String} {m : Module} {path : String} :
    hasErrors (moduleFindings earlier m path) = false ↔ m.id ∉ earlier := by
  have hpatterns : hasErrors (ScriptPattern.all.flatMap fun pattern =>
      findingIf (pattern.occursIn m.source) (warningAt (path ++ ".source")
        ("Module \"" ++ m.id ++ "\" contains potentially dangerous pattern: " ++
          pattern.shown))) = false :=
    hasErrors_flatMap_eq_false.2 fun _ _ => hasErrors_findingIf_warningAt ..
  rw [moduleFindings, hasErrors_append, hpatterns, Bool.or_false, hasErrors_findingIf_errorAt,
    ← Bool.not_eq_true, List.contains_iff_mem]

theorem hasErrors_modulesFindings {earlier : List String} (hearlier : earlier.Nodup)
    (index : Nat) (modules : List Module) :
    hasErrors (modulesFindings earlier index modules) = false ↔
      ((modules.map Module.id).reverse ++ earlier).Nodup := by
  induction modules generalizing earlier index with
  | nil => simp [modulesFindings, hasErrors, hearlier]
  | cons m modules ih =>
    rw [modulesFindings, hasErrors_append, Bool.or_eq_false_iff, hasErrors_moduleFindings,
      List.map_cons, List.reverse_cons, List.append_assoc, List.singleton_append]
    constructor
    · exact fun h => (ih (List.nodup_cons.2 ⟨h.1, hearlier⟩) _).1 h.2
    · intro h
      have hnew := List.nodup_cons.1 (List.nodup_append.1 h).2.1
      exact ⟨hnew.1, (ih (List.nodup_cons.2 hnew) _).2 h⟩

/-! ## Documents -/

namespace Document

/-- **The check accepts exactly the sound documents.** -/
theorem hasErrors_diagnostics_eq_false_iff {document : Document} :
    hasErrors document.diagnostics = false ↔ document.IsSound := by
  have hnodes := Node.map_fst_located "app" document.app
  have hids : (document.app.located "app").map (fun p => p.1.id) = document.ids := by
    rw [ids, Node.ids, ← hnodes, List.map_map]
    rfl
  have hforall {P : Node → Prop} :
      (∀ p ∈ document.app.located "app", P p.1) ↔ ∀ node ∈ document.app.preorder, P node := by
    rw [← hnodes, List.forall_mem_map]
  simp only [diagnostics, hasErrors_append, Bool.or_eq_false_iff,
    hasErrors_treeFindings List.nodup_nil, hasErrors_flatMap_eq_false,
    hasErrors_nodeTargetFindings, hasErrors_modulesFindings List.nodup_nil, List.append_nil,
    List.nodup_reverse, hids, hforall]
  exact ⟨fun ⟨⟨⟨hids, hsound⟩, htargets⟩, hmodules⟩ => ⟨hids, hsound, htargets, hmodules⟩,
    fun h => ⟨⟨⟨h.ids, h.nodes⟩, h.targets⟩, h.modules⟩⟩

end Document

/-! ## Policies -/

theorem Policy.enforce_strict_of_not_hasErrors {findings : List Diagnostic}
    (h : hasErrors findings = false) : strict.enforce findings = .ok () := by
  have hnone : findings.filter Diagnostic.isError = [] :=
    List.filter_eq_nil_iff.2 fun d hd => by simpa using List.any_eq_false.1 h d hd
  simp only [enforce, hnone]

theorem Policy.enforce_strict_of_hasErrors {findings : List Diagnostic}
    (h : hasErrors findings = true) : ∃ first errors,
      findings.filter Diagnostic.isError = first :: errors ∧
        strict.enforce findings = .error (.rejected (first :: errors).length first) := by
  obtain ⟨d, hd, herror⟩ := List.any_eq_true.1 h
  obtain ⟨first, errors, herrors⟩ :=
    List.exists_cons_of_ne_nil (List.ne_nil_of_mem (List.mem_filter.2 ⟨hd, herror⟩))
  exact ⟨first, errors, herrors, by simp only [enforce, herrors, List.length_cons]⟩

namespace Document

theorem applyBatch_arr (document : Document) (items : List Json) (policy : Policy) :
    document.applyBatch (.arr items) policy =
      (policy.enforce (document.apply (Batch.ofItems (items.map Json.unpackEdit)).edits).diagnostics
        ).map fun _ => document.apply (Batch.ofItems (items.map Json.unpackEdit)).edits := rfl

/-- What the strict policy keeps has no errors. -/
theorem of_applyBatch_strict {document updated : Document} {items : List Json}
    (h : document.applyBatch (.arr items) .strict = .ok updated) :
    updated = document.apply (Batch.ofItems (items.map Json.unpackEdit)).edits ∧
      hasErrors updated.diagnostics = false := by
  let result := document.apply (Batch.ofItems (items.map Json.unpackEdit)).edits
  rw [applyBatch_arr] at h
  cases herrors : hasErrors result.diagnostics with
  | false =>
    rw [Policy.enforce_strict_of_not_hasErrors herrors] at h
    obtain rfl := Except.ok.inj h
    exact ⟨rfl, herrors⟩
  | true =>
    obtain ⟨first, errors, -, henforce⟩ := Policy.enforce_strict_of_hasErrors herrors
    rw [henforce] at h
    cases h

/-- **The strict policy keeps exactly the sound results.** The check accepts exactly the sound
documents. A batch always has a result under the lenient policy; under the strict one it has the
same result if that is sound, and otherwise is rejected with the number of errors and the first
one. -/
theorem strict_iff_isSound (document : Document) :
    (hasErrors document.diagnostics = false ↔ document.IsSound) ∧
      ∀ items : List Json, ∃ updated,
        document.applyBatch (.arr items) .lenient = .ok updated ∧
        ((∃ result, document.applyBatch (.arr items) .strict = .ok result) ↔ updated.IsSound) ∧
        (updated.IsSound ∧ document.applyBatch (.arr items) .strict = .ok updated ∨
          ¬updated.IsSound ∧ ∃ first errors,
            updated.diagnostics.filter Diagnostic.isError = first :: errors ∧
            document.applyBatch (.arr items) .strict =
              .error (.rejected (first :: errors).length first) ∧
            (Failure.rejected (first :: errors).length first).message =
              "document rejected with " ++ toString (first :: errors).length ++
                " validation error(s); first: " ++ first.line) := by
  refine ⟨hasErrors_diagnostics_eq_false_iff, fun items => ?_⟩
  let updated := document.apply (Batch.ofItems (items.map Json.unpackEdit)).edits
  refine ⟨updated, rfl, ?_⟩
  rw [applyBatch_arr]
  cases herrors : hasErrors updated.diagnostics with
  | false =>
    have hsound := hasErrors_diagnostics_eq_false_iff.1 herrors
    rw [Policy.enforce_strict_of_not_hasErrors herrors]
    exact ⟨iff_of_true ⟨updated, rfl⟩ hsound, .inl ⟨hsound, rfl⟩⟩
  | true =>
    have hunsound : ¬updated.IsSound := fun h => by
      rw [hasErrors_diagnostics_eq_false_iff.2 h] at herrors
      cases herrors
    obtain ⟨first, errors, hfilter, henforce⟩ := Policy.enforce_strict_of_hasErrors herrors
    rw [henforce]
    exact ⟨iff_of_false (fun ⟨_, h⟩ => by cases h) hunsound,
      .inr ⟨hunsound, first, errors, hfilter, rfl, rfl⟩⟩

end Document

end PageTree
