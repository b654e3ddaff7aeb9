import Mathlib.Logic.Relation
import PageTree.Proofs.Markup.Change
import PageTree.Proofs.Markup.Layout

/-!
# Walks through the table

In a well-formed table parent links go down in the table, so every walk along them ends, and no
walk needs the bound that the definitions give it: with more room it comes out the same. Walking
from the document down meets each element of the document once, and meets those from which the
parent links lead up to the document. What is read from markup, well written or not, is well
formed.

## Main definitions

* `Forest.IsIn`: one element is directly inside another
* `Forest.Consistent`: what can be said of the links of a table and of the walks along them

## Main results

* `Forest.mem_preorder_iff`, `Forest.nodup_preorder`
* `Forest.WellFormed.consistent`: a well-formed table is consistent
* `Forest.wellFormed_of_read`: so is one that was read
-/

namespace PageTree

namespace Forest

variable {f : Forest}

/-- An element is directly inside another one: its parent link leads there. -/
def IsIn (f : Forest) (i p : Nat) : Prop := (f.get i).parent = some p

/-! ## Up to the document -/

theorem lineageFrom_of_size_le (hf : f.WellFormed) {n : Nat} (hn : f.size ≤ n) (i : Nat) :
    f.lineageFrom n i = f.line i := by
  by_cases hi : i < f.size
  · exact lineageFrom_eq hf (Nat.lt_of_lt_of_le hi hn) hi
  · have hparent := parent_of_size_le (Nat.not_lt.1 hi)
    obtain ⟨n, rfl⟩ := Nat.exists_eq_add_of_lt (Nat.lt_of_lt_of_le hf.size_pos hn)
    rw [line_of_no_parent hf hparent, lineageFrom, hparent]

theorem mem_line_iff (hf : f.WellFormed) {i j : Nat} :
    j ∈ f.line i ↔ Relation.ReflTransGen f.IsIn i j := by
  induction i using Nat.strongRecOn with
  | _ i ih =>
    rw [Relation.ReflTransGen.cases_head_iff]
    cases hp : (f.get i).parent with
    | none =>
      rw [line_of_no_parent hf hp, List.mem_singleton, eq_comm]
      refine (or_iff_left ?_).symm
      rintro ⟨p, hip, -⟩
      cases hp.symm.trans hip
    | some p =>
      rw [line_of_parent hf hp, List.mem_cons, eq_comm, ih p (hf.parent_lt hp)]
      refine or_congr_right ⟨fun h => ⟨p, hp, h⟩, ?_⟩
      rintro ⟨q, hiq, h⟩
      obtain rfl := Option.some.inj (hp.symm.trans hiq)
      exact h

/-- **An element is in the document** if its parent links lead up to it. -/
theorem isAttached_iff_reaches (hf : f.WellFormed) {i : Nat} :
    f.isAttached i = true ↔ Relation.ReflTransGen f.IsIn i rootIndex := by
  rw [isAttached_iff, mem_line_iff hf]

theorem lt_size_of_mem_line (hf : f.WellFormed) {i j : Nat} (hi : i < f.size) (h : j ∈ f.line i) :
    j < f.size := by
  induction (mem_line_iff hf).1 h with
  | refl => exact hi
  | tail hreach hin ih => exact Nat.lt_trans (hf.parent_lt hin) (ih ((mem_line_iff hf).2 hreach))

/-- The way up is the same where the parents on it are. -/
theorem line_eq_of_parents {g : Forest} (hf : f.WellFormed) (hg : g.WellFormed) {i : Nat}
    (h : ∀ j ∈ f.line i, (g.get j).parent = (f.get j).parent) : g.line i = f.line i := by
  induction i using Nat.strongRecOn with
  | _ i ih =>
    have hi := h i (self_mem_line hf i)
    cases hp : (f.get i).parent with
    | none => rw [line_of_no_parent hf hp, line_of_no_parent hg (hi.trans hp)]
    | some p =>
      rw [line_of_parent hf hp] at h
      rw [line_of_parent hf hp, line_of_parent hg (hi.trans hp),
        ih p (hf.parent_lt hp) fun j hj => h j (List.mem_cons_of_mem _ hj)]

/-! ## Down from an element -/

theorem lt_size_of_mem_preorderFrom (hf : f.WellFormed) :
    ∀ {depth i j : Nat}, i < f.size → j ∈ f.preorderFrom depth i → j < f.size
  | 0, _, _, _, hj => by simp [preorderFrom] at hj
  | depth + 1, i, j, hi, hj => by
    rw [preorderFrom] at hj
    rcases List.mem_cons.1 hj with rfl | hj
    · exact hi
    · obtain ⟨child, hchild, hj⟩ := List.mem_flatMap.1 hj
      exact lt_size_of_mem_preorderFrom hf (hf.lt_size_of_mem_children hchild) hj

theorem le_of_mem_preorderFrom (hf : f.WellFormed) :
    ∀ {depth i j : Nat}, j ∈ f.preorderFrom depth i → i ≤ j
  | 0, _, _, hj => by simp [preorderFrom] at hj
  | depth + 1, i, j, hj => by
    rw [preorderFrom] at hj
    rcases List.mem_cons.1 hj with rfl | hj
    · exact Nat.le_refl _
    · obtain ⟨child, hchild, hj⟩ := List.mem_flatMap.1 hj
      exact Nat.le_trans (Nat.le_of_lt (hf.lt_of_mem_children hchild))
        (le_of_mem_preorderFrom hf hj)

theorem lt_size_of_mem_preorder (hf : f.WellFormed) {i : Nat} (h : i ∈ f.preorder) : i < f.size :=
  lt_size_of_mem_preorderFrom hf hf.size_pos (List.mem_of_mem_tail h)

theorem mem_preorderFrom_iff (hf : f.WellFormed) : ∀ {depth i j : Nat}, i < f.size →
    f.size ≤ depth + i → (j ∈ f.preorderFrom depth i ↔ Relation.ReflTransGen f.IsIn j i)
  | 0, i, j, hi, hdepth => by omega
  | depth + 1, i, j, hi, hdepth => by
    have hbelow (child : Nat) (hchild : child ∈ f.children i) :
        j ∈ f.preorderFrom depth child ↔ Relation.ReflTransGen f.IsIn j child := by
      have := hf.lt_of_mem_children hchild
      exact mem_preorderFrom_iff hf (hf.lt_size_of_mem_children hchild) (by omega)
    rw [preorderFrom, List.mem_cons, List.mem_flatMap, Relation.ReflTransGen.cases_tail_iff,
      eq_comm]
    refine or_congr_right (exists_congr fun child => ?_)
    rw [and_comm, IsIn, hf.parent_iff]
    exact and_congr_left fun hchild => hbelow child hchild

/-- An element below two others is below one of them by way of the other. -/
theorem reaches_total {i j k : Nat} (hj : Relation.ReflTransGen f.IsIn i j)
    (hk : Relation.ReflTransGen f.IsIn i k) :
    Relation.ReflTransGen f.IsIn j k ∨ Relation.ReflTransGen f.IsIn k j :=
  Relation.ReflTransGen.total_of_right_unique
    (fun _ _ _ hp hq => Option.some.inj (hp.symm.trans hq)) hj hk

theorem le_of_reaches (hf : f.WellFormed) {i j : Nat} (h : Relation.ReflTransGen f.IsIn i j) :
    j ≤ i := by
  induction h with
  | refl => exact Nat.le_refl _
  | tail _ hin ih => exact Nat.le_trans (Nat.le_of_lt (hf.parent_lt hin)) ih

/-- Neither of two elements with one parent is below the other. -/
theorem eq_of_reaches_sibling (hf : f.WellFormed) {i j p : Nat} (hi : f.IsIn i p) (hj : f.IsIn j p)
    (h : Relation.ReflTransGen f.IsIn i j) : i = j := by
  rcases Relation.ReflTransGen.cases_head h with heq | ⟨q, hiq, h⟩
  · exact heq
  · obtain rfl := Option.some.inj (hi.symm.trans hiq)
    have hle := le_of_reaches hf h
    have hlt := hf.parent_lt hj
    omega

theorem nodup_preorderFrom (hf : f.WellFormed) : ∀ {depth i : Nat}, i < f.size →
    f.size ≤ depth + i → (f.preorderFrom depth i).Nodup
  | 0, i, hi, hdepth => by omega
  | depth + 1, i, hi, hdepth => by
    have hroom {child : Nat} (hchild : child ∈ f.children i) : f.size ≤ depth + child := by
      have := hf.lt_of_mem_children hchild
      omega
    have hmem {child j : Nat} (hchild : child ∈ f.children i) :
        j ∈ f.preorderFrom depth child ↔ Relation.ReflTransGen f.IsIn j child :=
      mem_preorderFrom_iff hf (hf.lt_size_of_mem_children hchild) (hroom hchild)
    rw [preorderFrom, List.nodup_cons]
    refine ⟨fun hself => ?_, List.nodup_flatMap.2 ⟨fun child hchild =>
      nodup_preorderFrom hf (hf.lt_size_of_mem_children hchild) (hroom hchild), ?_⟩⟩
    · obtain ⟨child, hchild, hself⟩ := List.mem_flatMap.1 hself
      have hle := le_of_reaches hf ((hmem hchild).1 hself)
      have hlt := hf.lt_of_mem_children hchild
      omega
    · -- an element below two children would make one of them lie below the other
      refine (hf.nodup i).imp_of_mem fun {a b} ha hb hne j hja hjb => ?_
      have hain := hf.parent_iff.2 ha
      have hbin := hf.parent_iff.2 hb
      rcases reaches_total ((hmem ha).1 hja) ((hmem hb).1 hjb) with h | h
      · exact hne (eq_of_reaches_sibling hf hain hbin h)
      · exact hne (eq_of_reaches_sibling hf hbin hain h).symm

/-- The walk through the document starts at the document itself. -/
theorem preorderFrom_root (hf : f.WellFormed) :
    f.preorderFrom f.size rootIndex = rootIndex :: f.preorder := by
  obtain ⟨n, hn⟩ := Nat.exists_eq_add_of_lt hf.size_pos
  rw [Forest.preorder, hn, Forest.preorderFrom]
  rfl

theorem preorder_eq (hf : f.WellFormed) :
    f.preorder = (f.children rootIndex).flatMap (f.preorderFrom (f.size - 1)) := by
  obtain ⟨n, hn⟩ := Nat.exists_eq_add_of_lt hf.size_pos
  rw [preorder, hn, preorderFrom]
  rfl

/-- **What is met on the way down through the document** are the elements from which the parent
links lead up to it, by one link at least: the listing leaves the document itself out. -/
theorem mem_preorder_iff (hf : f.WellFormed) {i : Nat} :
    i ∈ f.preorder ↔ Relation.TransGen f.IsIn i rootIndex := by
  rw [preorder_eq hf, List.mem_flatMap, Relation.TransGen.tail'_iff]
  refine exists_congr fun child => ?_
  rw [and_comm, IsIn, hf.parent_iff]
  refine and_congr_left fun hchild => ?_
  have := hf.lt_of_mem_children hchild
  exact mem_preorderFrom_iff hf (hf.lt_size_of_mem_children hchild) (by omega)

/-- What is met on the way through the document is in the document. -/
theorem isAttached_of_mem_preorder (hf : f.WellFormed) {i : Nat} (h : i ∈ f.preorder) :
    f.isAttached i = true :=
  (isAttached_iff_reaches hf).2 ((mem_preorder_iff hf).1 h).to_reflTransGen

theorem ne_root_of_mem_preorder (hf : f.WellFormed) {i : Nat} (h : i ∈ f.preorder) :
    i ≠ rootIndex := by
  rintro rfl
  obtain ⟨p, hp, -⟩ := Relation.TransGen.head'_iff.1 ((mem_preorder_iff hf).1 h)
  cases hf.root.symm.trans hp

theorem mem_preorder_iff_isAttached (hf : f.WellFormed) {i : Nat} (hi : i ≠ rootIndex) :
    i ∈ f.preorder ↔ f.isAttached i = true := by
  rw [mem_preorder_iff hf, isAttached_iff_reaches hf, Relation.reflTransGen_iff_eq_or_transGen]
  exact (or_iff_right hi.symm).symm

/-- **Nothing is met twice.** -/
theorem nodup_preorder (hf : f.WellFormed) : f.preorder.Nodup :=
  (nodup_preorderFrom hf hf.size_pos (Nat.le_add_right _ _)).tail

/-! ## Room to walk -/

theorem preorderFrom_eq (hf : f.WellFormed) : ∀ {a b i : Nat}, 0 < a → 0 < b → f.size ≤ a + i →
    f.size ≤ b + i → f.preorderFrom a i = f.preorderFrom b i
  | a + 1, b + 1, i, _, _, ha, hb => by
    rw [preorderFrom, preorderFrom]
    refine congrArg (i :: ·) (List.flatMap_congr fun child hchild => ?_)
    have hlt := hf.lt_of_mem_children hchild
    have hsize := hf.lt_size_of_mem_children hchild
    exact preorderFrom_eq hf (by omega) (by omega) (by omega) (by omega)

theorem textFrom_eq (hf : f.WellFormed) : ∀ {a b i : Nat}, 0 < a → 0 < b → f.size ≤ a + i →
    f.size ≤ b + i → f.textFrom a i = f.textFrom b i
  | a + 1, b + 1, i, _, _, ha, hb => by
    rw [textFrom, textFrom]
    refine List.flatMap_congr fun piece hpiece => ?_
    cases piece with
    | text content => rfl
    | element child =>
      have hchild := mem_children.2 hpiece
      have hlt := hf.lt_of_mem_children hchild
      have hsize := hf.lt_size_of_mem_children hchild
      exact textFrom_eq hf (by omega) (by omega) (by omega) (by omega)

/-! ## Consistent tables -/

theorem count_element (i : Nat) (content : List Content) :
    content.count (.element i) = (elementsOf content).count i := by
  induction content with
  | nil => rfl
  | cons piece content ih =>
    cases piece with
    | text more =>
      rw [List.count_cons_of_ne Content.noConfusion, ih]
      rfl
    | element child =>
      have hcons : elementsOf (.element child :: content) = child :: elementsOf content := rfl
      by_cases hchild : child = i
      · rw [hchild, List.count_cons_self, ih, ← hchild, hcons, List.count_cons_self]
      · rw [List.count_cons_of_ne (by simpa using hchild), ih, hcons,
          List.count_cons_of_ne hchild]

/-- The table is a forest, its links agree, and the walks along them end inside the table. -/
structure Consistent (f : Forest) : Prop where
  /-- The document is in nothing. -/
  root : (f.get rootIndex).parent = none
  /-- An element has a parent where it stands in the content of that. -/
  parent_iff : ∀ i p, (f.get i).parent = some p ↔ .element i ∈ (f.get p).content
  /-- It stands there once. -/
  once : ∀ i p, .element i ∈ (f.get p).content → (f.get p).content.count (.element i) = 1
  /-- A parent stands before what is in it. -/
  parent_lt : ∀ i p, .element i ∈ (f.get p).content → p < i
  /-- The way down through the document meets nothing twice. -/
  nodup_preorder : f.preorder.Nodup
  /-- It meets the elements from which the way up leads to the document. -/
  mem_preorder : ∀ i, i ∈ f.preorder ↔ Relation.TransGen f.IsIn i rootIndex
  /-- An element is taken to be in the document if the way up leads there. -/
  isAttached : ∀ i, f.isAttached i = true ↔ Relation.ReflTransGen f.IsIn i rootIndex
  /-- The way up ends: with more room it is as long. -/
  line_ends : ∀ n i, f.size ≤ n → f.lineageFrom n i = f.lineageFrom f.size i
  /-- So does the way down. -/
  preorder_ends : ∀ n i, f.size ≤ n → f.preorderFrom n i = f.preorderFrom f.size i
  /-- So does the collecting of text. -/
  text_ends : ∀ n i, f.size ≤ n → f.textFrom n i = f.textFrom f.size i
  /-- What stands in a content is in the table, and so is that element. -/
  links_lt : ∀ i p, .element i ∈ (f.get p).content → i < f.size ∧ p < f.size
  /-- The way up stays in the table. -/
  line_lt : ∀ i < f.size, ∀ j ∈ f.lineageFrom f.size i, j < f.size
  /-- The way down stays in the table. -/
  preorder_lt : ∀ i < f.size, ∀ j ∈ f.preorderFrom f.size i, j < f.size

/-- **A well-formed table is consistent.** -/
theorem WellFormed.consistent (hf : f.WellFormed) : f.Consistent where
  root := hf.root
  parent_iff i p := hf.parent_iff.trans mem_children
  once i p h := by
    rw [count_element]
    exact List.count_eq_one_of_mem (hf.nodup p) (mem_children.2 h)
  parent_lt i p h := hf.lt_of_mem_children (mem_children.2 h)
  nodup_preorder := Forest.nodup_preorder hf
  mem_preorder _ := mem_preorder_iff hf
  isAttached _ := isAttached_iff_reaches hf
  line_ends n i hn := lineageFrom_of_size_le hf hn i
  preorder_ends n i hn :=
    preorderFrom_eq hf (Nat.lt_of_lt_of_le hf.size_pos hn) hf.size_pos (by omega) (by omega)
  text_ends n i hn :=
    textFrom_eq hf (Nat.lt_of_lt_of_le hf.size_pos hn) hf.size_pos (by omega) (by omega)
  links_lt i p h :=
    have hi := hf.lt_size_of_mem_children (mem_children.2 h)
    ⟨hi, Nat.lt_trans (hf.lt_of_mem_children (mem_children.2 h)) hi⟩
  line_lt i hi j hj := lt_size_of_mem_line hf hi hj
  preorder_lt _ hi _ hj := lt_size_of_mem_preorderFrom hf hi hj

end Forest

/-! ## Reading -/

namespace Growth

/-- What has been read so far is well formed, and what is open is in it. -/
structure Sound (g : Growth) : Prop where
  wellFormed : g.forest.WellFormed
  open_lt : ∀ i ∈ g.openElements, i < g.forest.size

namespace Sound

variable {g : Growth}

theorem current_lt (h : g.Sound) : g.current < g.forest.size := by
  rw [current]
  cases hopen : g.openElements with
  | nil => exact h.wellFormed.size_pos
  | cons i others => exact h.open_lt i (hopen ▸ List.mem_cons_self ..)

theorem addText (h : g.Sound) (content : String) : (g.addText content).Sound where
  wellFormed := h.wellFormed.addText _ _
  open_lt i hi := by
    rw [Growth.addText, Forest.size_addContent]
    exact h.open_lt i hi

theorem addElement (h : g.Sound) (name : String) (attributes : OrderedMap String) (opened : Bool) :
    (g.addElement name attributes opened).Sound where
  wellFormed := h.wellFormed.append h.current_lt _ _
  open_lt i hi := by
    rw [Growth.addElement] at hi ⊢
    dsimp only at hi ⊢
    rw [Forest.size_append]
    split_ifs at hi
    · rcases List.mem_cons.1 hi with rfl | hi
      · exact Nat.lt_succ_self _
      · exact Nat.lt_succ_of_lt (h.open_lt i hi)
    · exact Nat.lt_succ_of_lt (h.open_lt i hi)

theorem addRaw (h : g.Sound) (name : String) (attributes : OrderedMap String) (body : String) :
    (g.addRaw name attributes body).Sound := by
  have hadded := h.addElement name attributes false
  rw [Growth.addRaw]
  split_ifs
  · exact hadded
  · exact ⟨hadded.wellFormed.addText _ _, fun i hi => by
      rw [Forest.size_addContent]
      exact hadded.open_lt i hi⟩

/-- A closing tag, stray or not, changes no element. -/
theorem close (h : g.Sound) (name : String) : (g.close name).Sound := by
  rw [Growth.close]
  split
  · exact h
  · next others hrest =>
    refine ⟨h.wellFormed, fun i hi => h.open_lt i ?_⟩
    exact (List.dropWhile_sublist _).subset (hrest ▸ List.mem_cons_of_mem _ hi)

/-- **Each token keeps the table well formed.** -/
theorem take (h : g.Sound) (token : Token) : (g.take token).Sound := by
  cases token with
  | skipped => exact h
  | closing name => exact h.close name
  | opening name attributes selfClosing => exact h.addElement name attributes _
  | raw name attributes body => exact h.addRaw name attributes body
  | text content => exact h.addText content

end Sound

end Growth

namespace Forest

theorem wellFormed_ofTokens (tokens : List Token) : (ofTokens tokens).WellFormed := by
  have hempty : Growth.Sound {} := ⟨wellFormed_empty, nofun⟩
  exact (List.foldlRecOn tokens Growth.take hempty fun _ h token _ => h.take token).wellFormed

/-- **What is read from markup is well formed**, whatever its tags are. -/
theorem wellFormed_of_read {markup : String} {f : Forest} (h : read markup = .ok f) :
    f.WellFormed := by
  rw [read] at h
  cases htokens : Token.ofMarkup markup with
  | error fault =>
    rw [htokens] at h
    cases h
  | ok tokens =>
    rw [htokens] at h
    exact Except.ok.inj h ▸ wellFormed_ofTokens tokens

end Forest

end PageTree
