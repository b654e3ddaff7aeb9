import PageTree.Proofs.Markup.Placement
import PageTree.Proofs.Session.Nodes
import PageTree.Session.View

/-!
# Looking at matching tables

What a page finds in a table it finds in a matching one at the counterparts: the elements of the
document in order, those around an element, the region for toasts, texts, form values, and what is
displayed.

## Main results

* `Forest.Matches.preorder`, `Forest.Matches.line`
* `Forest.Matches.lineage`, `Forest.Matches.toastRegion?`
* `Forest.Matches.textContent`, `Forest.Matches.formValue`, `Forest.Matches.isRendered`
-/

namespace PageTree

namespace Placement

variable (σ : Placement)

/-- The element is the counterpart of one. -/
def isOwn (j : Nat) : Bool := !σ.isExtra j

@[simp] theorem isOwn_place (i : Nat) : σ.isOwn (σ.place i) = true := by
  rw [isOwn, σ.isExtra_place]
  rfl

variable {σ}

/-- A search that passes additional elements by finds the counterpart of what it finds among the
elements alone. -/
theorem find?_eq_map {own all : List Nat} (h : all.filter σ.isOwn = own.map σ.place)
    {test test' : Nat → Bool} (htest : ∀ i ∈ own, test' (σ.place i) = test i)
    (hextra : ∀ j, σ.isExtra j = true → test' j = false) :
    all.find? test' = (own.find? test).map σ.place := by
  have hskip : all.find? test' = (all.filter σ.isOwn).find? test' := by
    rw [List.find?_filter]
    refine List.find?_congr fun j _ => ?_
    cases hj : σ.isExtra j with
    | true => simp [isOwn, hj, hextra j hj]
    | false => simp [isOwn, hj]
  rw [hskip, h, List.find?_map]
  exact congrArg _ (List.find?_congr htest)

end Placement

namespace Forest

namespace Matches

variable {σ : Placement} {f g : Forest}

theorem attribute? (h : Matches σ f g) (i : Nat) {name : String} (hname : name ∈ readNames) :
    g.attribute? (σ.place i) name = f.attribute? i name :=
  (h.alike i).attributes.named name hname

theorem hasAttribute (h : Matches σ f g) (i : Nat) {name : String} (hname : name ∈ readNames) :
    g.hasAttribute (σ.place i) name = f.hasAttribute i name :=
  congrArg Option.isSome (h.attribute? i hname)

theorem isHidden (h : Matches σ f g) (i : Nat) : g.isHidden (σ.place i) = f.isHidden i := by
  rw [isHidden_eq, isHidden_eq, (h.alike i).contains (by decide +kernel),
    (h.alike i).attributes.hides]

theorem hasClass (h : Matches σ f g) {i : Nat}
    (hregion : f.attribute? i toastRegionAttribute = none) {name : String}
    (hname : name ∈ watchedClasses) : g.hasClass (σ.place i) name = f.hasClass i name := by
  rw [Bool.eq_iff_iff, Forest.hasClass, Forest.hasClass, List.contains_iff_mem,
    List.contains_iff_mem]
  exact (h.alike i).attributes.classes hregion _ hname

theorem isControl (h : Matches σ f g) (i : Nat) : g.isControl (σ.place i) = f.isControl i := by
  rw [Forest.isControl, Forest.isControl, (h.alike i).tag]

/-! ## Around an element -/

theorem line (h : Matches σ f g) (hf : f.WellFormed) (hg : g.WellFormed) (i : Nat) :
    g.line (σ.place i) = (f.line i).map σ.place := by
  induction i using Nat.strongRecOn with
  | _ i ih =>
    have hparent := h.parent i
    cases hp : (f.get i).parent with
    | none =>
      rw [hp] at hparent
      rw [line_of_no_parent hf hp, line_of_no_parent hg hparent]
      rfl
    | some p =>
      rw [hp] at hparent
      rw [line_of_parent hf hp, line_of_parent hg hparent, ih p (hf.parent_lt hp), List.map_cons]

/-- **Around a counterpart stand the counterparts** of the elements around. -/
theorem lineage (h : Matches σ f g) (hf : f.WellFormed) (hg : g.WellFormed) (i : Nat) :
    g.lineage (σ.place i) = (f.lineage i).map σ.place := by
  have hroot := σ.filter_ne_map rootIndex (f.line i)
  rw [σ.place_root] at hroot
  rw [lineage_eq, lineage_eq, h.line hf hg, hroot]

theorem isAttached (h : Matches σ f g) (hf : f.WellFormed) (hg : g.WellFormed) (i : Nat) :
    g.isAttached (σ.place i) = f.isAttached i := by
  rw [Bool.eq_iff_iff, isAttached_iff, isAttached_iff, h.line hf hg, ← σ.place_root,
    List.mem_map_of_injective σ.injective, σ.place_root]

theorem isRendered (h : Matches σ f g) (hf : f.WellFormed) (hg : g.WellFormed) (i : Nat) :
    g.isRendered (σ.place i) = f.isRendered i := by
  have hhidden : g.isHidden ∘ σ.place = f.isHidden := funext h.isHidden
  rw [Forest.isRendered, Forest.isRendered, h.isAttached hf hg, h.lineage hf hg, List.any_map,
    hhidden]

theorem closest? (h : Matches σ f g) (hf : f.WellFormed) (hg : g.WellFormed) (i : Nat)
    {name : String} (hname : name ∈ readNames) :
    g.closest? (σ.place i) (fun e => OrderedMap.contains name e.attributes) =
      (f.closest? i fun e => OrderedMap.contains name e.attributes).map σ.place := by
  rw [Forest.closest?, Forest.closest?, h.lineage hf hg, List.find?_map]
  congr 1
  exact List.find?_congr fun j _ => (h.alike j).contains hname

/-! ## The order of the document -/

theorem flatMap_filter_own {α : Type} {all : List Nat} {inside : Nat → List α}
    (h : ∀ j ∈ all, σ.isExtra j = true → inside j = []) :
    all.flatMap inside = (all.filter σ.isOwn).flatMap inside := by
  induction all with
  | nil => rfl
  | cons j all ih =>
    obtain ⟨hj, hall⟩ := List.forall_mem_cons.1 h
    rw [List.flatMap_cons, ih hall]
    cases hextra : σ.isExtra j with
    | true => rw [hj hextra, List.filter_cons_of_neg (by simp [Placement.isOwn, hextra]),
        List.nil_append]
    | false => rw [List.filter_cons_of_pos (by simp [Placement.isOwn, hextra]), List.flatMap_cons]

theorem preorderFrom_extra (h : Matches σ f g) {j : Nat} (hj : σ.isExtra j = true) (depth : Nat) :
    (g.preorderFrom depth j).filter σ.isOwn = [] := by
  cases depth with
  | zero => rfl
  | succ depth =>
    rw [preorderFrom, (h.plain j hj).children, List.flatMap_nil,
      List.filter_cons_of_neg (by simp [Placement.isOwn, hj]), List.filter_nil]

theorem preorderFrom (h : Matches σ f g) (hf : f.WellFormed) (hg : g.WellFormed) :
    ∀ {depth depth' i : Nat}, i < f.size → f.size ≤ depth + i → g.size ≤ depth' + σ.place i →
      (g.preorderFrom depth' (σ.place i)).filter σ.isOwn = (f.preorderFrom depth i).map σ.place
  | 0, _, _, hi, hdepth, _ => by omega
  | depth + 1, 0, _, hi, _, hdepth' => by
    have := h.place_lt_iff.2 hi
    omega
  | depth + 1, depth' + 1, i, hi, hdepth, hdepth' => by
    rw [Forest.preorderFrom, Forest.preorderFrom, List.filter_cons_of_pos (σ.isOwn_place i),
      List.map_cons, List.filter_flatMap, List.map_flatMap,
      flatMap_filter_own fun j _ hj => h.preorderFrom_extra hj depth']
    have hchildren : (g.children (σ.place i)).filter σ.isOwn = (f.children i).map σ.place :=
      h.children i
    rw [hchildren, List.flatMap_map]
    congr 1
    refine List.flatMap_congr fun child hchild => ?_
    have hlt := hf.lt_of_mem_children hchild
    have hlt' := hg.lt_of_mem_children (h.mem_children_iff.2 hchild)
    exact h.preorderFrom hf hg (hf.lt_size_of_mem_children hchild) (by omega) (by omega)

/-- **The counterparts stand in the order of the elements.** -/
theorem preorder (h : Matches σ f g) (hf : f.WellFormed) (hg : g.WellFormed) :
    g.preorder.filter σ.isOwn = f.preorder.map σ.place := by
  have hall : (g.preorderFrom g.size (σ.place rootIndex)).filter σ.isOwn
      = (f.preorderFrom f.size rootIndex).map σ.place :=
    h.preorderFrom hf hg hf.size_pos (Nat.le_refl _) (Nat.le_add_right _ _)
  rw [σ.place_root] at hall
  have hhead (f : Forest) (hf : f.WellFormed) :
      f.preorderFrom f.size rootIndex = rootIndex :: f.preorder := by
    obtain ⟨n, hn⟩ := Nat.exists_eq_add_of_lt hf.size_pos
    rw [Forest.preorder, hn, Forest.preorderFrom, List.tail_cons]
  have hroot : σ.isOwn rootIndex = true := σ.place_root ▸ σ.isOwn_place rootIndex
  rw [hhead f hf, hhead g hg, List.filter_cons_of_pos hroot, List.map_cons] at hall
  exact (List.cons.inj hall).2

/-- **The region for toasts** has the region as its counterpart. Classes are looked at only where
no element has the attribute of regions. -/
theorem toastRegion? (h : Matches σ f g) (hf : f.WellFormed) (hg : g.WellFormed) :
    Session.toastRegion? g = (Session.toastRegion? f).map σ.place := by
  have hfirst : (g.findFirst? fun e => OrderedMap.contains toastRegionAttribute e.attributes) =
      (f.findFirst? fun e => OrderedMap.contains toastRegionAttribute e.attributes).map σ.place :=
    Placement.find?_eq_map (h.preorder hf hg) (fun i _ => (h.alike i).contains (by decide))
      fun j hj => congrArg Option.isSome ((h.plain j hj).named _ (by decide))
  rw [Session.toastRegion?, Session.toastRegion?, hfirst]
  cases hregion : f.findFirst? fun e => OrderedMap.contains toastRegionAttribute e.attributes with
  | some region => rfl
  | none =>
    refine Placement.find?_eq_map (h.preorder hf hg) (fun i hi => ?_) fun j hj => ?_
    · have hnone : f.attribute? i toastRegionAttribute = none :=
        Option.not_isSome_iff_eq_none.1 (List.find?_eq_none.1 hregion i hi)
      exact h.hasClass hnone (List.mem_cons_self ..)
    · rw [Forest.hasClass, classes, (h.plain j hj).named "class" (List.mem_cons_self ..)]
      decide

/-! ## Texts and values -/

theorem textFrom_of_size_le {f : Forest} {i : Nat} (hi : f.size ≤ i) (depth : Nat) :
    f.textFrom depth i = [] := by
  cases depth with
  | zero => rfl
  | succ depth => rw [Forest.textFrom, get_of_size_le hi]; rfl

theorem children_of_inner (h : Matches σ f g) {i : Nat} (hi : σ.isFrame i = false) :
    g.children (σ.place i) = (f.children i).map σ.place := by
  rw [children_eq, h.content i hi, elementsOf_moved, ← children_eq]

theorem textFrom (h : Matches σ f g) (hf : f.WellFormed) (hg : g.WellFormed) :
    ∀ {depth depth' i : Nat}, σ.isFrame i = false → f.size ≤ depth + i →
      g.size ≤ depth' + σ.place i → g.textFrom depth' (σ.place i) = f.textFrom depth i
  | 0, _, i, _, hdepth, _ => by
    have hout : f.size ≤ i := by omega
    rw [textFrom_of_size_le (Nat.not_lt.1 (mt h.place_lt_iff.1 (by omega))),
      textFrom_of_size_le hout]
  | depth + 1, 0, i, _, _, hdepth' => by
    have hout : f.size ≤ i := Nat.not_lt.1 (mt h.place_lt_iff.2 (by omega))
    rw [textFrom_of_size_le (by omega), textFrom_of_size_le hout]
  | depth + 1, depth' + 1, i, hi, hdepth, hdepth' => by
    rw [Forest.textFrom, Forest.textFrom, h.content i hi, List.flatMap_map]
    refine List.flatMap_congr fun piece hpiece => ?_
    cases piece with
    | text content => rfl
    | element child =>
      have hchild : child ∈ f.children i := mem_children.2 hpiece
      have hlt := hf.lt_of_mem_children hchild
      have hlt' := hg.lt_of_mem_children (h.mem_children_iff.2 hchild)
      exact h.textFrom hf hg (h.closed i hi child hchild) (by omega) (by omega)

/-- **The text inside an element** of the tree is that inside its counterpart. -/
theorem textContent (h : Matches σ f g) (hf : f.WellFormed) (hg : g.WellFormed) {i : Nat}
    (hi : σ.isFrame i = false) : g.textContent (σ.place i) = f.textContent i :=
  congrArg String.ofList (h.textFrom hf hg hi (Nat.le_add_right _ _) (Nat.le_add_right _ _))

theorem options (h : Matches σ f g) {i : Nat} (hi : σ.isFrame i = false) :
    g.options (σ.place i) = (f.options i).map σ.place := by
  have htag : (fun child => (g.get child).tag == "option") ∘ σ.place =
      fun child => (f.get child).tag == "option" := funext fun child => by
    rw [Function.comp_apply, (h.alike child).tag]
  rw [Forest.options, Forest.options, h.children_of_inner hi, List.filter_map, htag]

theorem selectedOption? (h : Matches σ f g) {i : Nat} (hi : σ.isFrame i = false) :
    g.selectedOption? (σ.place i) = (f.selectedOption? i).map σ.place := by
  have hselected : (fun option => g.hasAttribute option "selected") ∘ σ.place =
      fun option => f.hasAttribute option "selected" := funext fun option =>
    h.hasAttribute option (by decide)
  rw [Forest.selectedOption?, Forest.selectedOption?, h.options hi, List.find?_map, hselected,
    List.head?_map]
  cases (f.options i).find? fun option => f.hasAttribute option "selected" with
  | _ => rfl

theorem isFrame_of_selectedOption? (h : Matches σ f g) {i option : Nat} (hi : σ.isFrame i = false)
    (hoption : f.selectedOption? i = some option) : σ.isFrame option = false := by
  refine h.closed i hi option (List.mem_of_mem_filter (?_ : option ∈ f.options i))
  rcases Option.or_eq_some_iff.1 hoption with hfound | ⟨-, hfirst⟩
  · exact List.mem_of_find?_eq_some hfound
  · exact List.mem_of_head? hfirst

/-- **The value of a form control** is that of its counterpart. -/
theorem formValue (h : Matches σ f g) (hf : f.WellFormed) (hg : g.WellFormed) {i : Nat}
    (hi : σ.isFrame i = false) : g.formValue (σ.place i) = f.formValue i := by
  have hchosen : (g.selectedOption? (σ.place i)).map g.optionValue =
      (f.selectedOption? i).map f.optionValue := by
    rw [h.selectedOption? hi, Option.map_map]
    refine Option.map_congr fun option hoption => ?_
    rw [Function.comp_apply, optionValue, optionValue, h.attribute? option (by decide),
      h.textContent hf hg (h.isFrame_of_selectedOption? hi hoption)]
  rw [Forest.formValue, Forest.formValue, initialValue, initialValue, (h.alike i).tag,
    (h.alike i).value, hchosen, h.textContent hf hg hi, h.attribute? i (by decide)]

end Matches

end Forest

end PageTree
