import PageTree.Proofs.Markup.Layout
import PageTree.Proofs.Markup.Placement

/-!
# Outlines of two pages

Two tables that are filled side by side from outlines stay together: from outlines that differ only
in how their elements look, inside the tree, and in the frame around it also from outlines one of
which has more texts or more plain elements.

## Main definitions

* `Outline.Alike`: outlines that agree on what a page looks at
* `Outline.Interlaced`: outlines of the frame, the second with additional elements

## Main results

* `Outline.Interlaced.exists_paired`: tables of interlaced outlines match
-/

namespace PageTree

/-! ## Outlines that agree -/

namespace Outline

mutual

/-- The two outlines agree on what a page looks at. -/
def Alike : Outline → Outline → Prop
  | .text content, .text content' => content' = content
  | .element tag a inside, .element tag' b inside' =>
    tag' = tag ∧ a.Alike b ∧ AlikeAll inside inside'
  | _, _ => False

/-- The outlines in sequence agree, each with its counterpart. -/
def AlikeAll : List Outline → List Outline → Prop
  | [], [] => True
  | o :: os, o' :: os' => Alike o o' ∧ AlikeAll os os'
  | _, _ => False

end

/-- The outlines agree but for texts, of which either side may have more, and plain elements
without content, of which the second may have more. Elements of the frame have such outlines inside
again. -/
inductive Interlaced : List Outline → List Outline → Prop
  | nil : Interlaced [] []
  | textLeft {os os'} (content : String) (h : Interlaced os os') :
    Interlaced (.text content :: os) os'
  | textRight {os os'} (content : String) (h : Interlaced os os') :
    Interlaced os (.text content :: os')
  | both {tag a b inside inside' os os'} (hattributes : a.Alike b)
    (hinside : AlikeAll inside inside') (h : Interlaced os os') :
    Interlaced (.element tag a inside :: os) (.element tag b inside' :: os')
  | frame {tag a b inside inside' os os'} (hattributes : a.Alike b)
    (hbare : ∀ name ∈ readNames, a.lookup name = none) (hinside : Interlaced inside inside')
    (h : Interlaced os os') :
    Interlaced (.element tag a inside :: os) (.element tag b inside' :: os')
  | extra {tag attributes os os'}
    (hplain : ∀ name ∈ "class" :: readNames, attributes.lookup name = none)
    (h : Interlaced os os') : Interlaced os (.element tag attributes [] :: os')

end Outline

/-! ## Placements that grow -/

namespace Placement

/-- The places of a table in itself, with nothing but the document in the frame. -/
def start : Placement where
  place := id
  isExtra _ := false
  isFrame i := i == rootIndex
  place_root := rfl
  injective := Function.injective_id
  isExtra_place _ := rfl

/-- One element more is in the frame. -/
def framed (σ : Placement) (n : Nat) : Placement :=
  { σ with isFrame := fun i => σ.isFrame i || i == n }

/-- The place of an element when those from an index on stand one place further. -/
def skipPlace (σ : Placement) (n i : Nat) : Nat := if i < n then σ.place i else σ.place (i + 1)

theorem skipPlace_injective (σ : Placement) (n : Nat) : Function.Injective (σ.skipPlace n) := by
  intro i j hij
  rw [skipPlace, skipPlace] at hij
  split_ifs at hij <;> have := σ.injective hij <;> omega

theorem skipPlace_ne (σ : Placement) (n i : Nat) : σ.skipPlace n i ≠ σ.place n := by
  rw [skipPlace]
  split_ifs with hi
  · exact fun heq => absurd (σ.injective heq) (by omega)
  · exact fun heq => absurd (σ.injective heq) (by omega)

theorem isExtra_skipPlace (σ : Placement) (n i : Nat) :
    (σ.isExtra (σ.skipPlace n i) || σ.skipPlace n i == σ.place n) = false := by
  have hextra : σ.isExtra (σ.skipPlace n i) = false := by
    rw [skipPlace]
    split_ifs <;> exact σ.isExtra_place _
  rw [hextra, Bool.false_or, beq_eq_false_iff_ne]
  exact σ.skipPlace_ne n i

/-- The elements from an index on stand one place further, behind an additional one. -/
def skip (σ : Placement) (n : Nat) (hn : 0 < n) : Placement where
  place := σ.skipPlace n
  isExtra j := σ.isExtra j || j == σ.place n
  isFrame := σ.isFrame
  place_root := (if_pos hn).trans σ.place_root
  injective := σ.skipPlace_injective n
  isExtra_place := σ.isExtra_skipPlace n

theorem isExtra_skip (σ : Placement) {n : Nat} (hn : 0 < n) (j : Nat) :
    (σ.skip n hn).isExtra j = (σ.isExtra j || j == σ.place n) := rfl

/-- The second placement is the first one on the elements below an index. -/
structure Extends (σ τ : Placement) (n : Nat) : Prop where
  place : ∀ i, i < n → τ.place i = σ.place i
  isFrame : ∀ i, i < n → τ.isFrame i = σ.isFrame i

namespace Extends

variable {σ τ υ : Placement} {m n : Nat}

theorem refl (σ : Placement) (n : Nat) : σ.Extends σ n := ⟨fun _ _ => rfl, fun _ _ => rfl⟩

theorem mono (h : σ.Extends τ n) (hle : m ≤ n) : σ.Extends τ m :=
  ⟨fun i hi => h.place i (by omega), fun i hi => h.isFrame i (by omega)⟩

theorem trans (h : σ.Extends τ n) (h' : τ.Extends υ n) : σ.Extends υ n :=
  ⟨fun i hi => (h'.place i hi).trans (h.place i hi),
    fun i hi => (h'.isFrame i hi).trans (h.isFrame i hi)⟩

theorem framed (σ : Placement) (n : Nat) : σ.Extends (σ.framed n) n :=
  ⟨fun _ _ => rfl, fun i hi => by simp [Placement.framed, Nat.ne_of_lt hi]⟩

theorem skip (σ : Placement) {n : Nat} (hn : 0 < n) : σ.Extends (σ.skip n hn) n :=
  ⟨fun _ hi => if_pos hi, fun _ _ => rfl⟩

end Extends

end Placement

namespace Forest

open Outline

theorem attributes_addText {f : Forest} (i j : Nat) (content : String) :
    ((f.addContent i (.text content)).get j).attributes = (f.get j).attributes := by
  rw [get_addText]

theorem attributes_plantAll {f : Forest} {parent i : Nat} (hparent : parent < f.size)
    (hi : i < f.size) (os : List Outline) :
    ((f.plantAll parent os).get i).attributes = (f.get i).attributes := by
  have hplanted := planted_plantAll os hparent
  by_cases hip : i = parent
  · rw [hip, hplanted.parent_row]
  · rw [hplanted.other i hi hip]

/-- The tables match, both are well formed, and on the elements of the frame there is nothing that
a page reads by name. -/
structure Paired (σ : Placement) (f g : Forest) : Prop where
  tables : Matches σ f g
  left : f.WellFormed
  right : g.WellFormed
  bare : ∀ i, σ.isFrame i = true → ∀ name ∈ readNames, f.attribute? i name = none

namespace Matches

variable {σ : Placement} {f g : Forest}

/-- An element inside of the frame can be taken to the frame. -/
theorem framed (h : Matches σ f g) (hf : f.WellFormed) {n p : Nat}
    (hparent : (f.get n).parent = some p) (hp : σ.isFrame p = true) :
    Matches (σ.framed n) f g := by
  have hframe {i : Nat} : (σ.framed n).isFrame i = true ↔ σ.isFrame i = true ∨ i = n := by
    rw [Placement.framed, Bool.or_eq_true, beq_iff_eq]
  have hinner {i : Nat} : (σ.framed n).isFrame i = false ↔ σ.isFrame i = false ∧ i ≠ n := by
    rw [Placement.framed, Bool.or_eq_false_iff, beq_eq_false_iff_ne]
  exact {
    h with
    content := fun i hi => h.content i (hinner.1 hi).1
    frame := fun i hi => by
      rcases hframe.1 hi with hi | rfl
      · exact h.frame i hi
      · exact WellFormed.lt_size_of_parent hparent
    closed := fun i hi child hchild => by
      refine hinner.2 ⟨h.closed i (hinner.1 hi).1 child hchild, ?_⟩
      rintro rfl
      obtain rfl : i = p := Option.some.inj ((hf.parent_iff.2 hchild).symm.trans hparent)
      exact absurd (hinner.1 hi).1 (by simp [hp]) }

section Extra

variable (h : Matches σ f g) {parent : Nat} (hparent : parent < f.size) (tag : String)
  (attributes : OrderedMap String) (hpos : 0 < f.size)

include h hparent

/-- Behind an additional element the rows are those that were there without it, but for what its
parent has in it. -/
theorem get_append_skip (i : Nat) :
    (g.append (σ.place parent) tag attributes).get ((σ.skip f.size hpos).place i) =
      { g.get (σ.place i) with
        content := (g.get (σ.place i)).content ++
          if i = parent then [.element g.size] else [] } := by
  have hparent' := h.place_lt_iff.2 hparent
  by_cases hi : i < f.size
  · have hplace : (σ.skip f.size hpos).place i = σ.place i := if_pos hi
    have hold : σ.place i ≠ g.size := Nat.ne_of_lt (h.place_lt_iff.2 hi)
    simp only [hplace, get_append_of_ne_new hparent' hold, σ.injective.eq_iff]
  · obtain ⟨n, rfl⟩ := Nat.exists_eq_add_of_le (Nat.not_lt.1 hi)
    have hplace : (σ.skip f.size hpos).place (f.size + n) = g.size + (n + 1) :=
      (if_neg hi).trans (h.size (n + 1))
    rw [hplace, h.size, get_of_size_le (by rw [size_append]; omega),
      get_of_size_le (Nat.le_add_right _ _), if_neg (by omega)]
    rfl

theorem children_append_skip (i : Nat) :
    (g.append (σ.place parent) tag attributes).children ((σ.skip f.size hpos).place i) =
      g.children (σ.place i) ++ if i = parent then [g.size] else [] := by
  rw [children_eq, h.get_append_skip hparent, elementsOf_append, ← children_eq]
  split_ifs <;> rfl

end Extra

/-- **An additional element** in the frame is passed by. -/
theorem appendExtra (h : Matches σ f g) (hf : f.WellFormed) (hg : g.WellFormed) {parent : Nat}
    (hframe : σ.isFrame parent = true) (tag : String) {attributes : OrderedMap String}
    (hplain : ∀ name ∈ "class" :: readNames, attributes.lookup name = none) :
    Matches (σ.skip f.size hf.size_pos) f (g.append (σ.place parent) tag attributes) := by
  have hroom := h.frame parent hframe
  have hparent := h.place_lt_iff.2 hroom
  have hnew : σ.place f.size = g.size := h.size 0
  have hplace {i : Nat} (hi : i < f.size) : (σ.skip f.size hf.size_pos).place i = σ.place i :=
    if_pos hi
  exact {
    size := fun n => by
      have hbehind : (σ.skip f.size hf.size_pos).place (f.size + n) = σ.place (f.size + (n + 1)) :=
        if_neg (by omega)
      rw [hbehind, h.size, size_append]
      omega
    alike := fun i => by
      rw [h.get_append_skip hroom]
      exact ⟨(h.alike i).tag, (h.alike i).value, (h.alike i).attributes⟩
    parent := fun i => by
      rw [h.get_append_skip hroom]
      refine (h.parent i).trans (Option.map_congr fun p hp => ?_)
      have hp' := hf.parent_lt hp
      exact (hplace (hp'.trans (WellFormed.lt_size_of_parent hp))).symm
    children := fun i => by
      have hkept : (g.children (σ.place i)).filter
          (fun j => !(σ.skip f.size hf.size_pos).isExtra j) =
          (f.children i).map (σ.skip f.size hf.size_pos).place := by
        rw [List.map_congr_left fun child hchild => hplace (hf.lt_size_of_mem_children hchild),
          ← h.children i]
        refine List.filter_congr fun j hj => ?_
        have hne := Nat.ne_of_lt (hg.lt_size_of_mem_children hj)
        rw [Placement.isExtra_skip, hnew, beq_eq_false_iff_ne.2 hne, Bool.or_false]
      have hskipped : (σ.skip f.size hf.size_pos).isExtra g.size = true := by
        simp [Placement.isExtra_skip, hnew]
      rw [h.children_append_skip hroom, List.filter_append, hkept]
      split_ifs <;> simp [hskipped]
    content := fun i hi => by
      have hne : i ≠ parent := fun heq => absurd (heq ▸ hi) (by simp [Placement.skip, hframe])
      rw [h.get_append_skip hroom, if_neg hne, List.append_nil]
      refine (h.content i hi).trans (List.map_congr_left fun piece hpiece => ?_)
      cases piece with
      | text content => rfl
      | element child =>
        have hchild := hf.lt_size_of_mem_children (mem_children.2 hpiece)
        rw [Content.moved, Content.moved, hplace hchild]
    frame := h.frame
    closed := h.closed
    plain := fun j hj => by
      by_cases hj' : j = g.size
      · rw [hj']
        exact isPlain_append_new hparent tag hplain
      · have hj : σ.isExtra j = true := by simpa [Placement.isExtra_skip, hnew, hj'] using hj
        exact (h.plain j hj).append hparent (ne_of_isExtra hj) hj' tag attributes }

/-! ## Filling tables -/

mutual

/-- **Outlines that agree** keep tables together. -/
theorem plant : ∀ {o o' : Outline}, o.Alike o' → ∀ {σ : Placement} {f g : Forest} {parent : Nat},
    Matches σ f g → parent < f.size → Matches σ (f.plant parent o) (g.plant (σ.place parent) o')
  | .text content, .text content', halike, σ, f, g, parent, h, _ => by
    obtain rfl : content' = content := halike
    exact h.addText parent content'
  | .element tag a inside, .element tag' b inside', ⟨htag, hattributes, hinside⟩, σ, f, g, parent,
      h, hparent => by
    subst htag
    have hnew : σ.place f.size = g.size := h.size 0
    rw [Forest.plant, Forest.plant, ← hnew]
    exact plantAll hinside (h.append hparent tag' hattributes) (by simp)

theorem plantAll : ∀ {os os' : List Outline}, AlikeAll os os' →
    ∀ {σ : Placement} {f g : Forest} {parent : Nat}, Matches σ f g → parent < f.size →
    Matches σ (f.plantAll parent os) (g.plantAll (σ.place parent) os')
  | [], [], _, _, _, _, _, h, _ => h
  | o :: os, o' :: os', ⟨hfirst, hrest⟩, σ, f, g, parent, h, hparent => by
    have hroom : parent < (f.plant parent o).size := by
      rw [(planted_plant o hparent).size]
      omega
    rw [Forest.plantAll, Forest.plantAll]
    exact plantAll hrest (plant hfirst h hparent) hroom

end

end Matches

namespace Paired

variable {σ : Placement} {f g : Forest} {parent : Nat}

theorem addText_left (h : Paired σ f g) (hframe : σ.isFrame parent = true) (content : String) :
    Paired σ (f.addContent parent (.text content)) g where
  tables := h.tables.addText_left hframe content
  left := h.left.addText parent content
  right := h.right
  bare i hi name hname := by
    rw [attribute?, attributes_addText]
    exact h.bare i hi name hname

theorem addText_right (h : Paired σ f g) (hframe : σ.isFrame parent = true) (content : String) :
    Paired σ f (g.addContent (σ.place parent) (.text content)) where
  tables := h.tables.addText_right hframe content
  left := h.left
  right := h.right.addText _ content
  bare := h.bare

/-- An outline inside of the frame, with one that agrees. -/
theorem plant (h : Paired σ f g) (hframe : σ.isFrame parent = true) {o o' : Outline}
    (halike : o.Alike o') : Paired σ (f.plant parent o) (g.plant (σ.place parent) o') := by
  have hparent := h.tables.frame parent hframe
  exact {
    tables := h.tables.plant halike hparent
    left := h.left.plant o hparent
    right := h.right.plant o' (h.tables.place_lt_iff.2 hparent)
    bare := fun i hi name hname => by
      have hkept := attributes_plantAll hparent (h.tables.frame i hi) [o]
      rw [Forest.plantAll, Forest.plantAll] at hkept
      rw [attribute?, hkept]
      exact h.bare i hi name hname }

/-- A new element that belongs to the frame itself. -/
theorem appendFramed (h : Paired σ f g) (hframe : σ.isFrame parent = true) (tag : String)
    {a b : OrderedMap String} (hattributes : a.Alike b)
    (hbare : ∀ name ∈ readNames, a.lookup name = none) :
    Paired (σ.framed f.size) (f.append parent tag a) (g.append (σ.place parent) tag b) := by
  have hparent := h.tables.frame parent hframe
  have hleft := h.left.append hparent tag a
  have hnew : ((f.append parent tag a).get f.size).parent = some parent := by
    rw [get_append_new hparent]
  exact {
    tables := (h.tables.append hparent tag hattributes).framed hleft hnew hframe
    left := hleft
    right := h.right.append (h.tables.place_lt_iff.2 hparent) tag b
    bare := fun i hi name hname => by
      rw [attribute?, attributes_append hparent]
      split_ifs with hlast
      · exact hbare name hname
      · refine h.bare i ?_ name hname
        simpa [Placement.framed, hlast] using hi }

theorem appendExtra (h : Paired σ f g) (hframe : σ.isFrame parent = true) (tag : String)
    {attributes : OrderedMap String}
    (hplain : ∀ name ∈ "class" :: readNames, attributes.lookup name = none) :
    Paired (σ.skip f.size h.left.size_pos) f (g.append (σ.place parent) tag attributes) where
  tables := h.tables.appendExtra h.left h.right hframe tag hplain
  left := h.left
  right := h.right.append (h.tables.place_lt_iff.2 (h.tables.frame parent hframe)) tag attributes
  bare := h.bare

end Paired

end Forest

open Forest

/-- **Tables that are filled from interlaced outlines** match, in places that agree with those that
the elements had before. -/
theorem Outline.Interlaced.exists_paired {os os' : List Outline} (h : Interlaced os os') :
    ∀ {σ : Placement} {f g : Forest} {parent : Nat}, Paired σ f g → σ.isFrame parent = true →
      ∃ τ, σ.Extends τ f.size ∧
        Paired τ (f.plantAll parent os) (g.plantAll (σ.place parent) os') := by
  induction h with
  | nil => exact fun {σ f} _ _ h _ => ⟨σ, .refl σ f.size, h⟩
  | textLeft content _ ih =>
    intro σ f g parent h hframe
    obtain ⟨τ, hτ, hpaired⟩ := ih (h.addText_left hframe content) hframe
    exact ⟨τ, by simpa using hτ, hpaired⟩
  | textRight content _ ih =>
    intro σ f g parent h hframe
    exact ih (h.addText_right hframe content) hframe
  | @both tag a b inside inside' os os' hattributes hinside _ ih =>
    intro σ f g parent h hframe
    have halike : (Outline.element tag a inside).Alike (.element tag b inside') :=
      ⟨rfl, hattributes, hinside⟩
    obtain ⟨τ, hτ, hpaired⟩ := ih (h.plant hframe halike) hframe
    refine ⟨τ, hτ.mono ?_, hpaired⟩
    rw [(planted_plant _ (h.tables.frame parent hframe)).size]
    omega
  | @frame tag a b inside inside' os os' hattributes hbare _ _ ihinside ih =>
    intro σ f g parent h hframe
    have hparent := h.tables.frame parent hframe
    -- what is inside the new element comes first, then what follows it in its parent
    have hself : (σ.framed f.size).isFrame f.size = true := by simp [Placement.framed]
    obtain ⟨τ, hτ, hfilled⟩ := ihinside (h.appendFramed hframe tag hattributes hbare) hself
    have hτ : σ.Extends τ f.size := (Placement.Extends.framed σ f.size).trans (hτ.mono (by simp))
    obtain ⟨υ, hυ, hpaired⟩ := ih hfilled ((hτ.isFrame parent hparent).trans hframe)
    have hnew : (σ.framed f.size).place f.size = g.size := h.tables.size 0
    rw [hτ.place parent hparent, hnew] at hpaired
    have hroom : f.size ≤ ((f.append parent tag a).plantAll f.size inside).size := by
      rw [(planted_plantAll inside (by simp)).size, size_append]
      omega
    exact ⟨υ, hτ.trans (hυ.mono hroom), hpaired⟩
  | extra hplain _ ih =>
    intro σ f g parent h hframe
    obtain ⟨τ, hτ, hpaired⟩ := ih (h.appendExtra hframe _ hplain) hframe
    have hskip := Placement.Extends.skip σ h.left.size_pos
    rw [hskip.place parent (h.tables.frame parent hframe)] at hpaired
    exact ⟨τ, hskip.trans hτ, hpaired⟩

namespace Forest

theorem paired_empty : Paired Placement.start empty empty := by
  have hmoved : Content.moved id = id := by
    funext piece
    cases piece with
    | _ => rfl
  have hroot {i : Nat} (hi : Placement.start.isFrame i = true) : i = rootIndex := beq_iff_eq.1 hi
  exact {
    left := wellFormed_empty
    right := wellFormed_empty
    bare := fun i hi name _ => by
      rw [hroot hi]
      rfl
    tables := {
      size := fun n => rfl
      alike := fun i => .refl _
      parent := fun i => (Option.map_id_apply ..).symm
      children := fun i =>
        (List.filter_eq_self.2 fun _ _ => rfl).trans (List.map_id _).symm
      content := fun i _ =>
        (congrArg (List.map · _) hmoved).trans (List.map_id _) |>.symm
      frame := fun i hi => by
        rw [hroot hi]
        decide
      closed := fun i hi child hchild => by
        have hlow := wellFormed_empty.lt_of_mem_children hchild
        have hhigh : child < 1 := wellFormed_empty.lt_size_of_mem_children hchild
        omega
      plain := nofun } }

end Forest

/-- **Tables of interlaced outlines match.** -/
theorem Outline.Interlaced.exists_paired_ofOutlines {os os' : List Outline}
    (h : Interlaced os os') : ∃ σ, Paired σ (ofOutlines os) (ofOutlines os') := by
  have hroot : Placement.start.isFrame rootIndex = true := rfl
  obtain ⟨τ, -, hpaired⟩ := h.exists_paired paired_empty hroot
  exact ⟨τ, hpaired⟩

end PageTree
