import PageTree.Markup.Selector
import PageTree.Proofs.Markup.DocumentOrder

/-!
# Selection is exact

A selector asks for an element that meets its last compound and lies inside elements that meet the
others, nested in their order. The search goes up from an element once and gives each compound the
innermost element that is left and meets it. Taking an element as soon as it fits never spoils a
choice of elements that would have done: what is left of the way up then has room for all that the
choice has left. So an element is found whenever there is a choice at all, and the first one in
document order.

## Main definitions

* `Forest.IsElement`: an element in the document, other than the document itself
* `Forest.Fulfils`: an element and some around it meet the compounds of a selector

## Main results

* `Compound.acceptsAround_iff`: one pass finds a choice of elements if there is one
* `Forest.sublist_lineage_iff`: the choices are the chains of elements around an element
* `Forest.select?_exact`
-/

namespace PageTree

/-! ## Choosing in one pass -/

/-- **One pass finds a choice of elements if there is one.** -/
theorem Compound.acceptsAround_iff {compounds : List Compound} {elements : List Element} :
    acceptsAround compounds elements = true ↔
      ∃ chosen, chosen.Sublist elements ∧
        List.Forall₂ (fun compound e => compound.accepts e = true) compounds chosen := by
  fun_induction acceptsAround compounds elements with
  | case1 elements => simp
  | case2 compound compounds => simp
  | case3 compound compounds e elements he ih =>
    rw [ih]
    constructor
    · rintro ⟨chosen, hsub, hmeet⟩
      exact ⟨e :: chosen, hsub.cons_cons e, .cons he hmeet⟩
    · -- whatever was chosen first, the others are still on the way behind this element
      rintro ⟨_ | ⟨first, chosen⟩, hsub, hmeet⟩
      · cases hmeet
      · obtain ⟨-, hmeet⟩ := List.forall₂_cons.1 hmeet
        exact ⟨chosen, hsub.tail, hmeet⟩
  | case4 compound compounds e elements he ih =>
    rw [ih]
    constructor
    · rintro ⟨chosen, hsub, hmeet⟩
      exact ⟨chosen, hsub.cons e, hmeet⟩
    · rintro ⟨_ | ⟨first, chosen⟩, hsub, hmeet⟩
      · cases hmeet
      · obtain ⟨hfirst, -⟩ := List.forall₂_cons.1 hmeet
        have hne : first ≠ e := by
          rintro rfl
          exact he hfirst
        exact ⟨first :: chosen, hsub.of_cons_of_ne hne, hmeet⟩

/-- The compounds of a selector are those of its words, the last one first. -/
theorem Compound.selector?_of_forall₂ {text : String} {compounds : List Compound} {last : Compound}
    (h : List.Forall₂ (fun part compound => read? part = some compound) (Text.words text.toList)
      (compounds ++ [last])) :
    selector? text = some (last, compounds.reverse) := by
  have hread : ∀ {parts : List (List Char)} {compounds : List Compound},
      List.Forall₂ (fun part compound => read? part = some compound) parts compounds →
        parts.mapM read? = some compounds := by
    intro parts compounds h
    induction h with
    | nil => rfl
    | cons hpart _ ih => simp [List.mapM_cons, hpart, ih]
  rw [selector?, hread h, Option.map_some, List.reverse_append]
  rfl

/-- A selector without words, or with a word that is no compound, is none. -/
theorem Compound.selector?_eq_none {text : String}
    (h : Text.words text.toList = [] ∨ ∃ part ∈ Text.words text.toList, read? part = none) :
    selector? text = none := by
  rw [selector?]
  rcases h with hnil | ⟨part, hmem, hpart⟩
  · rw [hnil]
    rfl
  · have hnone : ∀ {parts : List (List Char)}, part ∈ parts → parts.mapM read? = none := by
      intro parts hmem
      induction parts with
      | nil => cases hmem
      | cons first parts ih =>
        rcases List.mem_cons.1 hmem with rfl | hmem
        · simp [List.mapM_cons, hpart]
        · simp [List.mapM_cons, ih hmem]
    rw [hnone hmem]
    rfl

namespace Forest

variable {f : Forest}

/-! ## Elements around an element -/

/-- The way up from an element lists elements that are inside one another. -/
theorem pairwise_lineage (hf : f.WellFormed) (i : Nat) : (f.lineage i).Pairwise f.IsInside := by
  induction i using Nat.strongRecOn with
  | _ i ih =>
    cases hp : (f.get i).parent with
    | none =>
      rw [lineage_eq, line_of_no_parent hf hp]
      exact (List.pairwise_singleton _ _).filter _
    | some p =>
      rw [lineage_of_parent hf hp, List.pairwise_cons]
      refine ⟨fun j hj => ?_, ih p (hf.parent_lt hp)⟩
      rw [lineage_eq, List.mem_filter] at hj
      exact Relation.TransGen.head' hp ((mem_line_iff hf).1 hj.1)

/-- The way up goes on from each element that an element is inside of. -/
theorem lineage_suffix_tail (hf : f.WellFormed) {i j : Nat} (h : f.IsInside i j) :
    f.lineage j <:+ (f.lineage i).tail := by
  induction h using Relation.TransGen.head_induction_on with
  | single hin =>
    rw [lineage_of_parent hf hin]
    exact List.suffix_rfl
  | head hin _ ih =>
    rw [lineage_of_parent hf hin]
    exact ih.trans (List.tail_suffix _)

theorem lineage_eq_cons_tail (hf : f.WellFormed) {i : Nat} (hi : i ≠ rootIndex) :
    f.lineage i = i :: (f.lineage i).tail := by
  cases hp : (f.get i).parent with
  | none =>
    rw [lineage_eq, line_of_no_parent hf hp, List.filter_cons_of_pos (by simpa using hi)]
    rfl
  | some p =>
    rw [lineage_of_parent hf hp]
    rfl

/-- **Chains of elements around an element**, from the inside out and without the document, are what
can be chosen on the way up. -/
theorem sublist_lineage_iff (hf : f.WellFormed) {i : Nat} {chosen : List Nat} :
    chosen.Sublist (f.lineage i).tail ↔
      rootIndex ∉ chosen ∧ (i :: chosen).IsChain f.IsInside := by
  constructor
  · intro h
    have hroot : rootIndex ∉ f.lineage i := by simp [lineage_eq]
    refine ⟨fun hmem => hroot (List.mem_of_mem_tail (h.subset hmem)), ?_⟩
    by_cases hi : i = rootIndex
    · rw [hi, lineage_root hf] at h
      obtain rfl := List.eq_nil_of_sublist_nil h
      exact List.isChain_singleton _
    · have hpairwise := pairwise_lineage hf i
      rw [lineage_eq_cons_tail hf hi] at hpairwise
      exact (hpairwise.sublist (h.cons_cons i)).isChain
  · rintro ⟨hroot, hchain⟩
    induction chosen generalizing i with
    | nil => exact List.nil_sublist _
    | cons j chosen ih =>
      obtain ⟨hj, hchosen⟩ := not_or.1 (mt List.mem_cons.2 hroot)
      obtain ⟨hij, hchain⟩ := List.isChain_cons_cons.1 hchain
      have hrest := (ih hchosen hchain).cons_cons j
      rw [← lineage_eq_cons_tail hf (Ne.symm hj)] at hrest
      exact hrest.trans (lineage_suffix_tail hf hij).sublist

/-! ## Selecting -/

/-- An element of the document. -/
def IsElement (f : Forest) (i : Nat) : Prop := i ≠ rootIndex ∧ f.isAttached i = true

/-- An element meets the last compound, and elements around it meet the others; from the first
compound on they lie inside one another, and the document is none of them. -/
def Fulfils (f : Forest) (compounds : List Compound) (i : Nat) : Prop :=
  ∃ around : List Nat, rootIndex ∉ around ∧
    List.Forall₂ (fun compound j => compound.accepts (f.get j) = true) compounds (around ++ [i]) ∧
    (around ++ [i]).IsChain fun outer inner => f.IsInside inner outer

theorem mem_preorder_iff_isElement (hf : f.WellFormed) {i : Nat} :
    i ∈ f.preorder ↔ f.IsElement i := by
  constructor
  · intro h
    exact ⟨ne_root_of_mem_preorder hf h, isAttached_of_mem_preorder hf h⟩
  · rintro ⟨hi, hattached⟩
    exact (mem_preorder_iff_isAttached hf hi).2 hattached

/-- The same from the inside out, as the search goes. -/
theorem fulfils_concat_iff {compounds : List Compound} {last : Compound} {i : Nat} :
    f.Fulfils (compounds ++ [last]) i ↔
      last.accepts (f.get i) = true ∧ ∃ chosen, (rootIndex ∉ chosen ∧
        (i :: chosen).IsChain f.IsInside) ∧
          List.Forall₂ (fun compound j => compound.accepts (f.get j) = true) compounds.reverse
            chosen := by
  have hmeet (around : List Nat) :
      List.Forall₂ (fun compound j => compound.accepts (f.get j) = true) (compounds ++ [last])
          (around ++ [i]) ↔
        last.accepts (f.get i) = true ∧
          List.Forall₂ (fun compound j => compound.accepts (f.get j) = true) compounds.reverse
            around.reverse := by
    rw [← List.forall₂_reverse_iff, List.reverse_append, List.reverse_append]
    exact List.forall₂_cons
  have hchain (around : List Nat) :
      ((around ++ [i]).IsChain fun outer inner => f.IsInside inner outer) ↔
        (i :: around.reverse).IsChain f.IsInside := by
    rw [← List.isChain_reverse, List.reverse_append]
    rfl
  constructor
  · rintro ⟨around, hroot, hboth, hnested⟩
    obtain ⟨hlast, haround⟩ := (hmeet around).1 hboth
    refine ⟨hlast, around.reverse, ⟨?_, (hchain around).1 hnested⟩, haround⟩
    simpa using hroot
  · rintro ⟨hlast, chosen, ⟨hroot, hnested⟩, hchosen⟩
    refine ⟨chosen.reverse, by simpa using hroot, (hmeet _).2 ⟨hlast, ?_⟩, (hchain _).2 ?_⟩
    · rwa [List.reverse_reverse]
    · rwa [List.reverse_reverse]

/-- **An element is matched** when it fulfils the compounds. -/
theorem matchesSelector_iff (hf : f.WellFormed) {compounds : List Compound} {last : Compound}
    {i : Nat} :
    f.matchesSelector last compounds.reverse i = true ↔ f.Fulfils (compounds ++ [last]) i := by
  rw [matchesSelector, Bool.and_eq_true, Compound.acceptsAround_iff, fulfils_concat_iff]
  refine and_congr_right fun _ => ?_
  constructor
  · rintro ⟨elements, hsub, hmeet⟩
    obtain ⟨chosen, hway, rfl⟩ := List.sublist_map_iff.1 hsub
    exact ⟨chosen, (sublist_lineage_iff hf).1 hway, List.forall₂_map_right_iff.1 hmeet⟩
  · rintro ⟨chosen, hchosen, hmeet⟩
    exact ⟨chosen.map f.get, ((sublist_lineage_iff hf).2 hchosen).map f.get,
      List.forall₂_map_right_iff.2 hmeet⟩

/-- **Selection is exact.** Where every word of a selector is a compound, and there is a word, the
selector gives an element of the document when that fulfils the compounds and comes before any other
element that does, and it gives none when no element does. A selector with a word that is no
compound, or without words, gives none. -/
theorem select?_exact (hf : f.WellFormed) (selector : String) :
    (∀ compounds, compounds ≠ [] →
      List.Forall₂ (fun part compound => Compound.read? part = some compound)
        (Text.words selector.toList) compounds →
      (∀ i, f.select? selector = some i ↔ f.IsElement i ∧ f.Fulfils compounds i ∧
        ∀ j, f.IsElement j → f.Fulfils compounds j → j = i ∨ f.Precedes i j) ∧
      (f.select? selector = none ↔ ∀ i, f.IsElement i → ¬f.Fulfils compounds i)) ∧
    (Text.words selector.toList = [] ∨
        (∃ part ∈ Text.words selector.toList, Compound.read? part = none) →
      f.select? selector = none) := by
  refine ⟨fun compounds hne hparts => ?_, fun h => ?_⟩
  · obtain ⟨around, last, rfl⟩ := (List.eq_nil_or_concat' compounds).resolve_left hne
    have hselect : f.select? selector =
        f.preorder.find? (f.matchesSelector last around.reverse) := by
      rw [select?, Compound.selector?_of_forall₂ hparts]
    rw [hselect]
    refine ⟨fun i => ?_, ?_⟩
    · rw [find?_preorder_eq_some_iff hf]
      simp only [mem_preorder_iff_isElement hf, matchesSelector_iff hf]
    · rw [List.find?_eq_none]
      simp only [mem_preorder_iff_isElement hf, matchesSelector_iff hf]
  · rw [select?, Compound.selector?_eq_none h]

/-- A form with two inputs, and an input behind it. -/
def entryForm : List Token :=
  [.opening "form" [("class", "f g")] false, .opening "div" [] false,
    .opening "input" [("name", "email")] false, .opening "input" [("name", "pw")] false,
    .closing "div", .closing "form", .opening "input" [("name", "pw")] false]

theorem select?_exact_entryForm :
    let compounds : List Compound := [{ classes := ["f"] }, { attributes := [("name", some "pw")] }]
    (ofTokens entryForm).WellFormed ∧
      (ofTokens entryForm).select? ".f [name=pw]" = some 4 ∧
      ((ofTokens entryForm).IsElement 4 ∧ (ofTokens entryForm).Fulfils compounds 4 ∧
        ∀ j, (ofTokens entryForm).IsElement j → (ofTokens entryForm).Fulfils compounds j →
          j = 4 ∨ (ofTokens entryForm).Precedes 4 j) ∧
      (ofTokens entryForm).select? ".f > input" = none := by
  intro compounds
  have hf := wellFormed_ofTokens entryForm
  have hparts : List.Forall₂ (fun part compound => Compound.read? part = some compound)
      (Text.words ".f [name=pw]".toList) compounds :=
    .cons (by decide +kernel) (.cons (by decide +kernel) .nil)
  have hfound : (ofTokens entryForm).select? ".f [name=pw]" = some 4 := by decide +kernel
  obtain ⟨hselect, -⟩ := (select?_exact hf ".f [name=pw]").1 compounds (by decide) hparts
  have hnone := (select?_exact hf ".f > input").2 (.inr ⟨['>'], by decide +kernel⟩)
  exact ⟨hf, hfound, (hselect 4).1 hfound, hnone⟩

end Forest

end PageTree
