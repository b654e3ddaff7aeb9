import PageTree.Proofs.Session.Stages

/-!
# Toasts in the table

A toast is an element with one attribute, its class, and one text. What happens to it changes
nothing but its class, and its parent at the end; what happens to other elements does not change it,
unless its region is written to.

## Main definitions

* `Session.toastLook`: the class of a toast
* `Forest.HasToast`: a raised toast in the table

## Main results

* `Forest.hasToast_raise`: a toast that is raised
* `Forest.HasToast.addClass`, `Forest.HasToast.removeClass`: a toast that shows, and one that hides
-/

namespace PageTree

namespace Session

/-- The class of a toast of a kind, that shows or does not. -/
def toastLook (variant : ToastVariant) (shown : Bool) : String :=
  let look := toastClass ++ " " ++ toastClass ++ "--" ++ Vocabulary.name variant
  if shown then look ++ " " ++ shownToastClass else look

theorem contains_words_toastLook (variant : ToastVariant) (shown : Bool) :
    (words (toastLook variant shown)).contains shownToastClass = shown := by
  cases variant <;> cases shown <;> decide +kernel

theorem toastLook_true (variant : ToastVariant) :
    String.ofList
        (Text.trimBlank (toastLook variant false).toList ++ ' ' :: shownToastClass.toList) =
      toastLook variant true := by
  cases variant <;> decide +kernel

theorem toastLook_false (variant : ToastVariant) :
    " ".intercalate ((words (toastLook variant true)).filter (· != shownToastClass)) =
      toastLook variant false := by
  cases variant <;> decide +kernel

theorem trimBlank_toastLook (variant : ToastVariant) :
    (Text.trimBlank (toastLook variant false).toList).isEmpty = false := by
  cases variant <;> decide +kernel

theorem contains_words_region (variant : ToastVariant) (shown : Bool) :
    (words (toastLook variant shown)).contains themedToastRegionClass = false := by
  cases variant <;> cases shown <;> decide +kernel

end Session

namespace Forest

open Session

variable {f g : Forest} {r : Raised} {shown : Bool}

/-! ## Raising a toast -/

/-- The table with a toast added. -/
def raise (f : Forest) (region : Nat) (message : String) (variant : ToastVariant) : Forest :=
  (f.append region "div" [("class", toastLook variant false)]).setText f.size message

theorem size_raise (region : Nat) (message : String) (variant : ToastVariant) :
    (f.raise region message variant).size = f.size + 1 :=
  (size_setText _ _).trans (size_append _ _ _)

theorem get_raise {region : Nat} (h : region < f.size) (message : String) (variant : ToastVariant)
    (i : Nat) :
    (f.raise region message variant).get i =
      if i = f.size then
        { tag := "div"
          attributes := [("class", toastLook variant false)]
          parent := some region
          content := textContents message }
      else if i = region then
        { f.get i with content := (f.get i).content ++ [.element f.size] }
      else f.get i := by
  have hempty :
      (f.append region "div" [("class", toastLook variant false)]).children f.size = [] := by
    rw [children_append h, if_neg (Nat.ne_of_gt h), children_of_size_le (Nat.le_refl _)]
  rw [raise, get_setText, hempty, size_append]
  by_cases hnew : i = f.size
  · simp [hnew, get_append_new h]
  · by_cases hregion : i = region
    · simp [hregion, get_append_parent h, Nat.ne_of_lt h]
    · simp [hnew, hregion, get_append_of_ne hregion hnew]

theorem parent_raise {region : Nat} (h : region < f.size) (message : String)
    (variant : ToastVariant) {i : Nat} (hi : i ≠ f.size) :
    ((f.raise region message variant).get i).parent = (f.get i).parent := by
  rw [get_raise h, if_neg hi]
  split_ifs <;> rfl

/-! ## Toasts in the table -/

/-- A raised toast is in the table, and shows or does not. It is in its region or in nothing. -/
structure HasToast (f : Forest) (r : Raised) (shown : Bool) : Prop where
  lt_size : r.element < f.size
  attributes : (f.get r.element).attributes = [("class", toastLook r.variant shown)]
  content : (f.get r.element).content = textContents r.message
  parent : ∀ p, (f.get r.element).parent = some p → p = r.region

/-- **A toast that was raised** does not show yet. -/
theorem hasToast_raise {region : Nat} (h : region < f.size) (moment : Nat) (message : String)
    (variant : ToastVariant) :
    (f.raise region message variant).HasToast
      { element := f.size, region, moment, message, variant } false where
  lt_size := by
    rw [size_raise]
    exact Nat.lt_succ_self _
  attributes := by rw [get_raise h, if_pos rfl]
  content := by rw [get_raise h, if_pos rfl]
  parent p hp := by
    rw [get_raise h, if_pos rfl] at hp
    exact (Option.some.inj hp).symm

namespace HasToast

theorem class_eq (h : f.HasToast r shown) :
    f.attribute? r.element "class" = some (toastLook r.variant shown) := by
  rw [attribute?, h.attributes]
  rfl

theorem classes_eq (h : f.HasToast r shown) :
    f.classes r.element = words (toastLook r.variant shown) := by
  rw [classes, h.class_eq, Option.getD_some]

/-- Whether a toast shows can be seen from its class. -/
theorem hasClass_shown (h : f.HasToast r shown) : f.hasClass r.element shownToastClass = shown := by
  rw [hasClass, h.classes_eq, contains_words_toastLook]

/-- A toast is no region for toasts. -/
theorem hasClass_region (h : f.HasToast r shown) :
    f.hasClass r.element themedToastRegionClass = false := by
  rw [hasClass, h.classes_eq, contains_words_region]

/-- The text of a toast is its message. -/
theorem textContent_eq (h : f.HasToast r shown) : f.textContent r.element = r.message :=
  textContent_of_content h.lt_size h.content

/-- A change that leaves the row of a toast alone, but for its parent, leaves the toast. -/
theorem of_row (h : f.HasToast r shown) (hsize : f.size ≤ g.size)
    (hattributes : (g.get r.element).attributes = (f.get r.element).attributes)
    (hcontent : (g.get r.element).content = (f.get r.element).content)
    (hparent : ∀ p, (g.get r.element).parent = some p → (f.get r.element).parent = some p) :
    g.HasToast r shown where
  lt_size := Nat.lt_of_lt_of_le h.lt_size hsize
  attributes := hattributes.trans h.attributes
  content := hcontent.trans h.content
  parent p hp := h.parent p (hparent p hp)

theorem of_get (h : f.HasToast r shown) (hsize : f.size ≤ g.size)
    (hget : g.get r.element = f.get r.element) : g.HasToast r shown :=
  h.of_row hsize (congrArg _ hget) (congrArg _ hget) fun _ hp => hget ▸ hp

/-- A toast whose class is set anew. -/
theorem setClass (h : f.HasToast r shown) (other : Bool) :
    (f.setAttribute r.element "class" (toastLook r.variant other)).HasToast r other := by
  have hget := get_modify_self h.lt_size fun e =>
    { e with attributes := OrderedMap.set "class" (toastLook r.variant other) e.attributes }
  rw [← setAttribute] at hget
  refine ⟨?_, ?_, ?_, fun p hp => h.parent p ?_⟩
  · exact (size_modify _ _).symm ▸ h.lt_size
  · rw [hget, h.attributes]
    rfl
  · rw [hget]
    exact h.content
  · rwa [hget] at hp

/-- **A toast that did not show** does. -/
theorem addClass (h : f.HasToast r false) :
    (f.addClass r.element shownToastClass).HasToast r true := by
  rw [Forest.addClass, h.hasClass_shown, h.class_eq, Option.getD_some]
  dsimp only
  rw [trimBlank_toastLook, toastLook_true]
  exact h.setClass true

/-- **A toast that showed** does no longer. -/
theorem removeClass (h : f.HasToast r true) :
    (f.removeClass r.element shownToastClass).HasToast r false := by
  rw [Forest.removeClass, hasAttribute, h.class_eq, h.classes_eq, toastLook_false]
  exact h.setClass false

/-- A toast that is taken out of its region. -/
theorem detach (h : f.HasToast r shown) (hf : f.WellFormed) :
    (f.detach r.element).HasToast r shown := by
  cases hparent : (f.get r.element).parent with
  | none => rwa [detach_of_no_parent hparent]
  | some p =>
    have hne : r.element ≠ p := Nat.ne_of_gt (hf.parent_lt hparent)
    have hget := get_detach hf hparent r.element
    refine h.of_row (Nat.le_of_eq (size_detach _).symm) ?_ ?_ fun q hq => ?_
    · rw [hget]
    · rw [hget, if_neg hne]
    · rw [hget, if_pos rfl] at hq
      cases hq

end HasToast

end Forest

/-! ## Changes of toasts -/

namespace Session

theorem size_changeToast (f : Forest) (timer : Timer) :
    (changeToast f timer).size = f.size := by
  rw [changeToast]
  split
  · exact f.size_addClass _ _
  · exact f.size_removeClass _ _
  · exact Forest.size_detach _

/-- A change of a toast changes no other element, but for one that the toast is in. -/
theorem get_changeToast_of_ne {f : Forest} (hf : f.WellFormed) {timer : Timer} {i : Nat}
    (hi : i ≠ timer.toast) (hregion : ∀ p, (f.get timer.toast).parent = some p → i ≠ p) :
    (changeToast f timer).get i = f.get i := by
  rw [changeToast]
  split
  · rw [Forest.addClass]
    split_ifs
    · rfl
    · exact Forest.get_modify_of_ne hi _
  · rw [Forest.removeClass]
    split_ifs
    · exact Forest.get_modify_of_ne hi _
    · rfl
  · cases hparent : (f.get timer.toast).parent with
    | none => rw [Forest.detach_of_no_parent hparent]
    | some p => rw [Forest.get_detach hf hparent, if_neg hi, if_neg (hregion p hparent)]

theorem parent_changeToast_of_ne {f : Forest} (hf : f.WellFormed) {timer : Timer} {i : Nat}
    (hi : i ≠ timer.toast) : ((changeToast f timer).get i).parent = (f.get i).parent := by
  rw [changeToast]
  split
  · exact f.parent_addClass _ _ _
  · exact f.parent_removeClass _ _ _
  · rw [Forest.parent_detach hf, if_neg hi]

end Session

end PageTree
