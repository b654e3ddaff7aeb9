import Mathlib.Data.List.Flatten
import PageTree.Proofs.Markup.Traversal

/-!
# Document order

In document order an element comes before those inside it, and what is in an earlier child of an
element before what is in a later one. This is said of the links alone, without a walk, and the walk
through the document is then seen to list the elements in this order: one element comes before
another exactly when it stands before it in the list. So a search along the walk finds the first
element of the document that passes a test.

## Main definitions

* `Forest.IsInside`: one element is inside another, however deep
* `Forest.Precedes`: one element comes before another in document order

## Main results

* `Forest.precedes_iff`: document order is the order of the walk
* `Forest.find?_preorder_eq_some_iff`: what a search along the walk finds
-/

namespace PageTree

/-- Two members of a list without repetitions stand in it in one order only. -/
theorem not_pair_sublist_swap {α : Type} {l : List α} (hl : l.Nodup) {a b : α}
    (h : [a, b].Sublist l) : ¬[b, a].Sublist l := by
  induction l with
  | nil => simp
  | cons c l ih =>
    obtain ⟨hc, hl⟩ := List.nodup_cons.1 hl
    intro hswap
    cases h with
    | cons _ h =>
      cases hswap with
      | cons _ hswap => exact ih hl h hswap
      | cons_cons _ hswap => exact hc (h.subset (by simp))
    | cons_cons _ h =>
      cases hswap with
      | cons _ hswap => exact hc (hswap.subset (by simp))
      | cons_cons _ hswap => exact hc (h.subset (by simp))

namespace Forest

variable {f : Forest}

/-- An element is inside another one, however deep. -/
def IsInside (f : Forest) (i j : Nat) : Prop := Relation.TransGen f.IsIn i j

/-- One element comes before another: the other is inside it, or the two are in different children
of an element, and the child with the first one comes earlier. A child counts as in itself. -/
def Precedes (f : Forest) (i j : Nat) : Prop :=
  f.IsInside j i ∨ ∃ p earlier later, [earlier, later].Sublist (f.children p) ∧
    Relation.ReflTransGen f.IsIn i earlier ∧ Relation.ReflTransGen f.IsIn j later

/-! ## An element and what is inside it -/

/-- An element and those inside it, in the order of the walk. -/
def extent (f : Forest) (i : Nat) : List Nat := f.preorderFrom f.size i

theorem extent_eq (hf : f.WellFormed) (i : Nat) :
    f.extent i = i :: (f.children i).flatMap f.extent := by
  obtain ⟨n, hn⟩ := Nat.exists_eq_add_of_lt hf.size_pos
  rw [Nat.zero_add] at hn
  have hchildren : (f.children i).flatMap (f.preorderFrom n) =
      (f.children i).flatMap f.extent := by
    refine List.flatMap_congr fun child hchild => ?_
    have hlt := hf.lt_of_mem_children hchild
    have hsize := hf.lt_size_of_mem_children hchild
    exact preorderFrom_eq hf (by omega) (by omega) (by omega) (by omega)
  rw [extent, hn, preorderFrom, hchildren]

theorem extent_root (hf : f.WellFormed) : f.extent rootIndex = rootIndex :: f.preorder :=
  preorderFrom_root hf

theorem mem_extent_iff (hf : f.WellFormed) {i j : Nat} (hi : i < f.size) :
    j ∈ f.extent i ↔ Relation.ReflTransGen f.IsIn j i :=
  mem_preorderFrom_iff hf hi (Nat.le_add_right _ _)

/-- What is inside an element is inside those around it as well, in the same order. -/
theorem extent_sublist (hf : f.WellFormed) {i j : Nat} (h : Relation.ReflTransGen f.IsIn j i) :
    (f.extent j).Sublist (f.extent i) := by
  induction h with
  | refl => exact List.Sublist.refl _
  | @tail k p _ hin ih =>
    refine ih.trans ?_
    rw [extent_eq hf p]
    refine List.Sublist.cons _ ?_
    exact List.sublist_flatten_of_mem (List.mem_map_of_mem (hf.parent_iff.1 hin))

/-! ## The order of the walk -/

/-- Whatever stands later in a walk comes later in the document. -/
theorem pairwise_precedes_preorderFrom (hf : f.WellFormed) : ∀ {depth i : Nat}, i < f.size →
    f.size ≤ depth + i → (f.preorderFrom depth i).Pairwise f.Precedes
  | 0, i, hi, hdepth => by omega
  | depth + 1, i, hi, hdepth => by
    have hroom {child : Nat} (hchild : child ∈ f.children i) :
        child < f.size ∧ f.size ≤ depth + child := by
      have hlt := hf.lt_of_mem_children hchild
      exact ⟨hf.lt_size_of_mem_children hchild, by omega⟩
    have hmem {child j : Nat} (hchild : child ∈ f.children i)
        (hj : j ∈ f.preorderFrom depth child) : Relation.ReflTransGen f.IsIn j child :=
      (mem_preorderFrom_iff hf (hroom hchild).1 (hroom hchild).2).1 hj
    rw [preorderFrom, List.pairwise_cons, List.pairwise_flatMap]
    refine ⟨fun j hj => ?_, fun child hchild => ?_, ?_⟩
    · obtain ⟨child, hchild, hj⟩ := List.mem_flatMap.1 hj
      exact .inl (Relation.TransGen.tail' (hmem hchild hj) (hf.parent_iff.2 hchild))
    · exact pairwise_precedes_preorderFrom hf (hroom hchild).1 (hroom hchild).2
    · refine List.pairwise_iff_forall_sublist.2 fun {a b} hab x hx y hy => ?_
      exact .inr ⟨i, a, b, hab, hmem (hab.subset (by simp)) hx, hmem (hab.subset (by simp)) hy⟩

/-- What comes earlier in the document stands earlier in the walk through an element around both. -/
theorem pair_sublist_extent (hf : f.WellFormed) {i j : Nat} (h : f.Precedes i j) :
    ∃ top, Relation.ReflTransGen f.IsIn i top ∧ [i, j].Sublist (f.extent top) := by
  rcases h with hinside | ⟨p, earlier, later, hchildren, hi, hj⟩
  · obtain ⟨k, hjk, hki⟩ := Relation.TransGen.tail'_iff.1 hinside
    have hchild := hf.parent_iff.1 hki
    refine ⟨i, .refl, ?_⟩
    rw [extent_eq hf]
    refine List.Sublist.cons_cons _ (List.singleton_sublist.2 ?_)
    exact List.mem_flatMap.2
      ⟨k, hchild, (mem_extent_iff hf (hf.lt_size_of_mem_children hchild)).2 hjk⟩
  · have hearlier : earlier ∈ f.children p := hchildren.subset (by simp)
    have hlater : later ∈ f.children p := hchildren.subset (by simp)
    have hfirst : [i].Sublist (f.extent earlier) := List.singleton_sublist.2
      ((mem_extent_iff hf (hf.lt_size_of_mem_children hearlier)).2 hi)
    have hsecond : [j].Sublist (f.extent later) := List.singleton_sublist.2
      ((mem_extent_iff hf (hf.lt_size_of_mem_children hlater)).2 hj)
    refine ⟨p, hi.tail (hf.parent_iff.2 hearlier), ?_⟩
    rw [extent_eq hf]
    refine List.Sublist.cons _ ?_
    have hboth : (f.extent earlier ++ f.extent later).Sublist
        ((f.children p).flatMap f.extent) := by
      simpa using hchildren.flatMap f.extent
    exact (hfirst.append hsecond).trans hboth

theorem root_of_reaches_root (hf : f.WellFormed) {i : Nat}
    (h : Relation.ReflTransGen f.IsIn rootIndex i) : i = rootIndex := by
  rcases Relation.ReflTransGen.cases_head h with heq | ⟨p, hp, -⟩
  · exact heq.symm
  · cases hf.root.symm.trans hp

/-- **Document order is the order of the walk.** -/
theorem precedes_iff (hf : f.WellFormed) {i j : Nat} (hi : i ∈ f.preorder) :
    f.Precedes i j ↔ [i, j].Sublist f.preorder := by
  constructor
  · intro h
    obtain ⟨top, htop, hpair⟩ := pair_sublist_extent hf h
    have hroot := ((mem_preorder_iff hf).1 hi).to_reflTransGen
    -- the element around both is in the document, as the first of them is in it
    have htop : Relation.ReflTransGen f.IsIn top rootIndex := by
      rcases reaches_total htop hroot with h | h
      · exact h
      · rw [root_of_reaches_root hf h]
    have hwhole := hpair.trans (extent_sublist hf htop)
    rw [extent_root hf] at hwhole
    exact hwhole.of_cons_of_ne (ne_root_of_mem_preorder hf hi)
  · intro h
    have hwalk : (f.extent rootIndex).Pairwise f.Precedes :=
      pairwise_precedes_preorderFrom hf hf.size_pos (Nat.le_add_right _ _)
    rw [extent_root hf] at hwalk
    exact List.pairwise_iff_forall_sublist.1 hwalk.of_cons h

/-! ## Searching -/

theorem of_find?_preorder (hf : f.WellFormed) {test : Nat → Bool} {i : Nat}
    (h : f.preorder.find? test = some i) :
    i ∈ f.preorder ∧ test i = true ∧
      ∀ j ∈ f.preorder, test j = true → j = i ∨ f.Precedes i j := by
  obtain ⟨hi, before, after, hsplit, hbefore⟩ := List.find?_eq_some_iff_append.1 h
  have hmem : i ∈ f.preorder := List.mem_of_find?_eq_some h
  refine ⟨hmem, hi, fun j hj hjtest => ?_⟩
  have hplace : j ∈ before ∨ j = i ∨ j ∈ after := by simpa [hsplit] using hj
  rcases hplace with hj' | rfl | hj'
  · exact absurd hjtest (by simpa using hbefore j hj')
  · exact .inl rfl
  · refine .inr ((precedes_iff hf hmem).2 ?_)
    rw [hsplit]
    exact ((List.singleton_sublist.2 hj').cons_cons i).trans (List.sublist_append_right ..)

/-- **A search along the walk finds the first element that passes the test.** -/
theorem find?_preorder_eq_some_iff (hf : f.WellFormed) {test : Nat → Bool} {i : Nat} :
    f.preorder.find? test = some i ↔
      i ∈ f.preorder ∧ test i = true ∧
        ∀ j ∈ f.preorder, test j = true → j = i ∨ f.Precedes i j := by
  constructor
  · exact of_find?_preorder hf
  · rintro ⟨hmem, hi, hfirst⟩
    have hsome : (f.preorder.find? test).isSome := List.find?_isSome.2 ⟨i, hmem, hi⟩
    obtain ⟨k, hk⟩ := Option.isSome_iff_exists.1 hsome
    obtain ⟨hkmem, hktest, hkfirst⟩ := of_find?_preorder hf hk
    rcases hfirst k hkmem hktest with rfl | hik
    · exact hk
    · rcases hkfirst i hmem hi with rfl | hki
      · exact hk
      · have hpair := (precedes_iff hf hmem).1 hik
        exact absurd ((precedes_iff hf hkmem).1 hki)
          (not_pair_sublist_swap (nodup_preorder hf) hpair)

end Forest

end PageTree
