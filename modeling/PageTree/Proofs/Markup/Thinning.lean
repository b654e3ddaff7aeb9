import Mathlib.Data.List.Flatten
import PageTree.Proofs.Markup.Traversal

/-!
# Tables that thin out

A page in use takes elements out of its document and puts new ones in, but it never puts one back
or moves one. So of the elements that were there at first, each element lists some of those that it
listed then, in the same order, and the walk through the document meets some of those that it met
then, in the same order. What a search from the start finds is found again for as long as it is in
the document.

## Main definitions

* `Forest.Thins`: what a changed table lists of the elements that were there at first

## Main results

* `Forest.Thins.setText`, `Forest.Thins.append`, `Forest.Thins.detach`: changes keep it
* `Forest.Thins.preorder`: so the walk through the document thins out
* `Forest.Thins.find?_eq_iff`: a search finds the same for as long as that is in the document
-/

namespace PageTree

/-! ## Lists that thin out -/

section

variable {α β : Type}

/-- What a search found in a list is found in a part of the list that has it. -/
theorem find?_of_sublist {p : α → Bool} {l m : List α} (hsub : l.Sublist m) (hm : m.Nodup) {a : α}
    (hfound : m.find? p = some a) (ha : a ∈ l) : l.find? p = some a := by
  induction hsub with
  | slnil => cases ha
  | cons b hsub ih =>
    obtain ⟨hb, hm⟩ := List.nodup_cons.1 hm
    rw [List.find?_cons] at hfound
    split at hfound
    · obtain rfl := Option.some.inj hfound
      exact absurd (hsub.subset ha) hb
    · exact ih hm hfound ha
  | cons_cons b hsub ih =>
    obtain ⟨hb, hm⟩ := List.nodup_cons.1 hm
    rw [List.find?_cons] at hfound ⊢
    split
    · next hp => rwa [hp] at hfound
    · next hp =>
      rw [hp] at hfound
      refine ih hm hfound ((List.mem_cons.1 ha).resolve_left ?_)
      rintro rfl
      exact Bool.false_ne_true (hp.symm.trans (List.find?_some hfound))

/-- Lists that are made of the members of a list, only some of which make anything. -/
theorem flatMap_filter_of_nil {p : α → Bool} {make : α → List β} {l : List α}
    (h : ∀ a ∈ l, p a = false → make a = []) : (l.filter p).flatMap make = l.flatMap make := by
  induction l with
  | nil => rfl
  | cons a l ih =>
    obtain ⟨ha, hl⟩ := List.forall_mem_cons.1 h
    rw [List.flatMap_cons, ← ih hl, List.filter_cons]
    split
    · rw [List.flatMap_cons]
    · next hp => rw [ha (Bool.eq_false_iff.2 hp), List.nil_append]

end

namespace Forest

variable {f g g' : Forest}

/-- The element was there at first. -/
def isOld (f : Forest) (i : Nat) : Bool := i < f.size

/-- Of the elements that were there at first, the changed table lists under each element some of
those that were listed there, in the same order. -/
def Thins (f g : Forest) : Prop :=
  ∀ i, ((g.children i).filter f.isOld).Sublist (f.children i)

namespace Thins

theorem refl (f : Forest) : f.Thins f := fun _ => List.filter_sublist

/-- A change that lists no old element anew. -/
theorem change (h : f.Thins g)
    (hchange : ∀ i, ((g'.children i).filter f.isOld).Sublist (g.children i)) : f.Thins g' := by
  intro i
  have hsub := (hchange i).filter f.isOld
  simp only [List.filter_filter, Bool.and_self] at hsub
  exact hsub.trans (h i)

/-- A change that keeps what each element lists. -/
theorem of_children (h : f.Thins g) (hchange : ∀ i, g'.children i = g.children i) : f.Thins g' :=
  h.change fun i => hchange i ▸ List.filter_sublist

theorem modify (h : f.Thins g) (i : Nat) {change : Element → Element}
    (hcontent : ∀ e, (change e).content = e.content) : f.Thins (g.modify i change) := by
  refine h.of_children fun j => ?_
  rw [children_eq, get_modify]
  split_ifs
  · rw [hcontent, children_eq]
  · rfl

theorem addClass (h : f.Thins g) (i : Nat) (name : String) : f.Thins (g.addClass i name) := by
  rw [Forest.addClass]
  split_ifs
  · exact h
  · exact h.modify i fun _ => rfl

theorem removeClass (h : f.Thins g) (i : Nat) (name : String) :
    f.Thins (g.removeClass i name) := by
  rw [Forest.removeClass]
  split_ifs
  · exact h.modify i fun _ => rfl
  · exact h

/-- A text takes the place of elements. -/
theorem setText (h : f.Thins g) (i : Nat) (text : String) : f.Thins (g.setText i text) := by
  refine h.change fun j => ?_
  rw [children_setText]
  split_ifs
  · exact List.nil_sublist _
  · exact List.filter_sublist

/-- A new element is none that was there at first. -/
theorem append (h : f.Thins g) (hsize : f.size ≤ g.size) {parent : Nat} (hparent : parent < g.size)
    (tag : String) (attributes : OrderedMap String) :
    f.Thins (g.append parent tag attributes) := by
  refine h.change fun j => ?_
  have hnew : f.isOld g.size = false := decide_eq_false (Nat.not_lt.2 hsize)
  rw [children_append hparent]
  split_ifs
  · rw [List.filter_append, List.filter_cons_of_neg (Bool.eq_false_iff.1 hnew), List.filter_nil,
      List.append_nil]
    exact List.filter_sublist
  · exact List.filter_sublist

theorem detach (h : f.Thins g) (hg : g.WellFormed) (i : Nat) : f.Thins (g.detach i) := by
  cases hparent : (g.get i).parent with
  | none => rwa [detach_of_no_parent hparent]
  | some parent =>
    refine h.change fun j => ?_
    rw [children_detach hg hparent]
    exact List.filter_sublist.trans List.filter_sublist

/-! ## The walk through the document -/

/-- Below a new element there are only new ones. -/
theorem filter_preorderFrom_of_new (hg : g.WellFormed) {depth i : Nat} (hi : f.isOld i = false) :
    (g.preorderFrom depth i).filter f.isOld = [] := by
  refine List.filter_eq_nil_iff.2 fun j hj => ?_
  have hle := le_of_mem_preorderFrom hg hj
  have hnew := of_decide_eq_false hi
  exact fun hold => hnew (Nat.lt_of_le_of_lt hle (of_decide_eq_true hold))

/-- **On the way down from an element** old elements are met in the order in which they were met at
first. -/
theorem preorderFrom (h : f.Thins g) (hg : g.WellFormed) :
    ∀ depth i, ((g.preorderFrom depth i).filter f.isOld).Sublist (f.preorderFrom depth i)
  | 0, _ => by
    rw [Forest.preorderFrom, List.filter_nil]
    exact List.nil_sublist _
  | depth + 1, i => by
    cases hi : f.isOld i with
    | false =>
      rw [filter_preorderFrom_of_new hg hi]
      exact List.nil_sublist _
    | true =>
      rw [Forest.preorderFrom, Forest.preorderFrom, List.filter_cons_of_pos hi, List.filter_flatMap]
      refine .cons_cons _ ?_
      have hnew : ∀ child ∈ g.children i, f.isOld child = false →
          (g.preorderFrom depth child).filter f.isOld = [] :=
        fun child _ hchild => filter_preorderFrom_of_new hg hchild
      rw [← flatMap_filter_of_nil hnew]
      exact (List.Sublist.flatMap_right _ fun child _ => h.preorderFrom hg depth child).trans
        ((h i).flatMap _)

/-- **The walk through the document** meets old elements in the order in which it met them at
first. -/
theorem preorder (h : f.Thins g) (hf : f.WellFormed) (hg : g.WellFormed)
    (hsize : f.size ≤ g.size) : (g.preorder.filter f.isOld).Sublist f.preorder := by
  have hroom : f.preorderFrom g.size rootIndex = f.preorderFrom f.size rootIndex :=
    preorderFrom_eq hf hg.size_pos hf.size_pos (Nat.le_add_right_of_le hsize)
      (Nat.le_add_right _ _)
  have hroot : f.isOld rootIndex = true := decide_eq_true hf.size_pos
  have hsub := h.preorderFrom hg g.size rootIndex
  rw [hroom, preorderFrom_root hg, preorderFrom_root hf, List.filter_cons_of_pos hroot] at hsub
  exact List.cons_sublist_cons.1 hsub

/-- **A search for what only old elements have** finds the same element as at first, just when that
is in the document still or nothing was found at first. -/
theorem find?_eq_iff (h : f.Thins g) (hf : f.WellFormed) (hg : g.WellFormed)
    (hsize : f.size ≤ g.size) {p : Nat → Bool} (hp : ∀ i, p i = true → f.isOld i = true) :
    g.preorder.find? p = f.preorder.find? p ↔
      ∀ i, f.preorder.find? p = some i → i ∈ g.preorder := by
  have hsub := h.preorder hf hg hsize
  have hold : (g.preorder.filter f.isOld).find? p = g.preorder.find? p := by
    have hboth (i : Nat) : (f.isOld i = true ∧ p i = true) ↔ p i = true :=
      and_iff_right_of_imp (hp i)
    simp only [List.find?_filter, hboth, Bool.decide_eq_true]
  constructor
  · intro heq i hfound
    exact List.mem_of_find?_eq_some (heq.trans hfound)
  · intro hstays
    cases hfound : f.preorder.find? p with
    | none =>
      rw [← hold, List.find?_eq_none]
      exact fun i hi => List.find?_eq_none.1 hfound i (hsub.subset hi)
    | some i =>
      have hi : i ∈ g.preorder.filter f.isOld :=
        List.mem_filter.2 ⟨hstays i hfound, hp i (List.find?_some hfound)⟩
      rw [← hold]
      exact find?_of_sublist hsub (nodup_preorder hf) hfound hi

end Thins

end Forest

end PageTree
