import PageTree.Proofs.Markup.Layout
import PageTree.Proofs.Markup.Lexing
import PageTree.Proofs.Render.PageMarkup

/-!
# Pages read back

Reading the text of a page gives the tree of its document. Each node that is not inside a void
element has one element, these elements are nested and ordered as the nodes are, and each has the
tag, the attributes and the text of its node. No text of the document opens, closes or changes an
element.

## Main definitions

* `Node.trails`: the nodes that have elements, each with the nodes around it
* `Forest.Bears`: an element is that of a node
* `Forest.Reflects`: a table is that of a document

## Main results

* `Document.exists_read_html`: the text of a page reads as the tree of its document
-/

namespace PageTree

open Outline

/-! ## Nodes with their surroundings -/

namespace Node

mutual

/-- The nodes of a tree that have elements, in order, each with the nodes around it from the inside
out. What is inside a void element is left out. -/
def trails (theme : Theme) (above : List Node) : Node → List (List Node)
  | node@⟨_, kind, props, _, _, _, children, _⟩ =>
    (node :: above) ::
      if isVoid (theme.opening kind props).tag then []
      else trailsAll theme (node :: above) children

/-- The nodes of several trees that have elements, one tree after the other. -/
def trailsAll (theme : Theme) (above : List Node) : List Node → List (List Node)
  | [] => []
  | node :: nodes => trails theme above node ++ trailsAll theme above nodes

end

/-- The kind shows the text of the node in its element. -/
def showsText (node : Node) : Bool :=
  match node.kind.primitive? with
  | some .checkbox | some .select | some .table | some .tabs | some .disclosure
  | some .dialog => false
  | _ => true

end Node

/-- The text of a piece of content that is a text. -/
def Content.ownText : Content → String
  | .text content => content
  | .element _ => ""

namespace Forest

variable (f : Forest)

/-- The element is that of a node. -/
def isMarked (i : Nat) : Bool := f.hasAttribute i idAttribute

/-- The elements of nodes around an element, itself included, from the inside out. -/
def marks (i : Nat) : List Nat := (f.lineage i).filter f.isMarked

/-- The texts directly in an element, joined. -/
def ownText (i : Nat) : String := String.join ((f.get i).content.map Content.ownText)

/-- The script of a page finds nothing on the element. -/
def IsSilent (i : Nat) : Prop := ∀ name ∈ wireNames, f.attribute? i name = none

/-- The element has the tag, the attributes and the text of a node. -/
structure Bears (theme : Theme) (i : Nat) (node : Node) : Prop where
  tag : (f.get i).tag = (theme.opening node.kind node.props).tag
  attributes : (f.get i).attributes = node.attributes theme
  void : isVoid (f.get i).tag = true → (f.get i).content = []
  text : isVoid (f.get i).tag = false → node.showsText → f.ownText i = node.text.getD ""

/-- A block of the table has an element for each of some nodes with their surroundings, and nothing
else that the script of a page sees. -/
structure Carries (theme : Theme) (start size : Nat) (trails : List (List Node)) : Prop where
  marked : List.Forall₂ (fun i trail => List.Forall₂ (f.Bears theme) (f.marks i) trail)
    ((List.range' start size).filter f.isMarked) trails
  silent : ∀ i, start ≤ i → i < start + size → f.isMarked i = false → f.IsSilent i

variable {f} {theme : Theme}

theorem IsSilent.isMarked {i : Nat} (h : f.IsSilent i) : f.isMarked i = false := by
  rw [Forest.isMarked, hasAttribute, h idAttribute (by decide)]
  rfl

theorem Carries.of_silent {start size : Nat}
    (h : ∀ i, start ≤ i → i < start + size → f.IsSilent i) : f.Carries theme start size [] where
  marked := by
    have hnone : (List.range' start size).filter f.isMarked = [] := by
      rw [List.filter_eq_nil_iff]
      intro i hi
      obtain ⟨hlow, hhigh⟩ := List.mem_range'_1.1 hi
      rw [(h i hlow hhigh).isMarked]
      exact Bool.false_ne_true
    rw [hnone]
    exact .nil
  silent i hlow hhigh _ := h i hlow hhigh

theorem Carries.append {start a b : Nat} {as bs : List (List Node)}
    (ha : f.Carries theme start a as) (hb : f.Carries theme (start + a) b bs) :
    f.Carries theme start (a + b) (as ++ bs) where
  marked := by
    rw [← List.range'_append_1, List.filter_append]
    exact List.rel_append ha.marked hb.marked
  silent i hlow hhigh hi := by
    by_cases hlt : i < start + a
    · exact ha.silent i hlow hlt hi
    · exact hb.silent i (by omega) (by omega) hi

/-! ## Parts -/

theorem laidAll_pushText {parent start : Nat} (content : String) {os : List Outline} :
    f.LaidAll parent start (pushText content os) ↔ f.LaidAll parent start os := by
  match os with
  | [] =>
    rw [pushText]
    split_ifs
    · rfl
    · simp [LaidAll, Laid]
    · simp
  | .text more :: rest => simp [pushText, LaidAll, Laid, count]
  | .element .. :: rest =>
    rw [pushText]
    split_ifs
    · rfl
    · simp [LaidAll, Laid, count]
    · simp

theorem countAll_pushText (content : String) (os : List Outline) :
    countAll (pushText content os) = countAll os := by
  match os with
  | [] =>
    rw [pushText]
    split_ifs
    · rfl
    · rfl
    · simp
  | .text more :: rest => simp [pushText, countAll, count]
  | .element .. :: rest =>
    rw [pushText]
    split_ifs
    · rfl
    · simp [countAll, count]
    · simp

theorem isSilent_of_row {i : Nat} {attributes : List Attribute}
    (hrow : (f.get i).attributes = Attribute.toMap attributes)
    (h : ∀ a ∈ attributes, a.name ∉ wireNames) : f.IsSilent i := by
  intro name hname
  rw [attribute?, hrow, OrderedMap.lookup_eq_none_iff]
  intro hin
  obtain ⟨entry, hentry, rfl⟩ := List.mem_map.1 hin
  obtain ⟨a, ha, rfl⟩ := List.mem_map.1 hentry
  exact h a ha hname

/-- The element comes from markup whose tag and attributes satisfy a condition. -/
def Comes (f : Forest) (P : String → List Attribute → Prop) (i : Nat) : Prop :=
  ∃ tag attributes, P tag attributes ∧ (f.get i).tag = tag ∧
    (f.get i).attributes = Attribute.toMap attributes

mutual

/-- What is true of the elements of markup is true of their rows in the table. -/
theorem comes_of_every {P : String → List Attribute → Prop} : ∀ {m : Markup}, m.Every P →
    ∀ {parent start : Nat} {after : List Outline}, f.LaidAll parent start (m.outlines after) →
    ∃ size, countAll (m.outlines after) = size + countAll after ∧
      f.LaidAll parent (start + size) after ∧
      ∀ i, start ≤ i → i < start + size → f.Comes P i
  | .text content, _, _, _, _, h =>
    ⟨0, by rw [Markup.outlines, countAll_pushText, Nat.zero_add],
      (laidAll_pushText content).1 h, fun i hlow hhigh => by omega⟩
  | .verbatim content, _, _, _, _, h =>
    ⟨0, by rw [Markup.outlines, countAll_pushText, Nat.zero_add],
      (laidAll_pushText content).1 h, fun i hlow hhigh => by omega⟩
  | .element tag attributes content, ⟨hself, hcontent⟩, parent, start, after,
      ⟨⟨hrow, hinside⟩, hafter⟩ => by
    refine ⟨_, rfl, hafter, fun i hlow hhigh => ?_⟩
    by_cases hi : i = start
    · exact ⟨tag, attributes, hself, by rw [hi, hrow], by rw [hi, hrow]⟩
    · rw [count] at hhigh
      by_cases hvoid : isVoid tag = true
      · rw [if_pos hvoid, countAll] at hhigh
        omega
      · rw [if_neg hvoid] at hhigh hinside
        exact comes_of_everyAll hcontent hinside i (by omega) (by omega)

theorem comes_of_everyAll {P : String → List Attribute → Prop} : ∀ {ms : List Markup},
    Markup.EveryAll P ms → ∀ {parent start : Nat},
    f.LaidAll parent start (Markup.outlinesAll ms) →
    ∀ i, start ≤ i → i < start + countAll (Markup.outlinesAll ms) → f.Comes P i
  | [], _, _, _, _ => fun i hlow hhigh => by
    rw [Markup.outlinesAll, countAll] at hhigh
    omega
  | m :: ms, ⟨hm, hms⟩, parent, start, h => by
    obtain ⟨size, hcount, hlaid, hcomes⟩ := comes_of_every hm h
    intro i hlow hhigh
    rw [Markup.outlinesAll, hcount] at hhigh
    by_cases hi : i < start + size
    · exact hcomes i hlow hi
    · exact comes_of_everyAll hms hlaid i (by omega) (by omega)

end

theorem Comes.isSilent {i : Nat}
    (h : f.Comes (fun _ attributes => ∀ a ∈ attributes, a.name ∉ wireNames) i) : f.IsSilent i := by
  obtain ⟨_, attributes, hnames, -, hrow⟩ := h
  exact isSilent_of_row hrow hnames

/-- What the script of a page does not see in markup, it does not see in the table. -/
theorem laidAll_inert {ms : List Markup} (hms : ∀ m ∈ ms, m.IsPart) {parent start : Nat}
    (h : f.LaidAll parent start (Markup.outlinesAll ms)) (i : Nat) (hlow : start ≤ i)
    (hhigh : i < start + countAll (Markup.outlinesAll ms)) : f.IsSilent i :=
  (comes_of_everyAll ((Markup.everyAll_iff _).2 fun m hm => (hms m hm).2) h i hlow hhigh).isSilent

/-- Parts around markup add nothing that the script of a page sees. -/
theorem Carries.of_wraps (hf : f.WellFormed) {inner outer : List Markup}
    {trails : List (List Node)} (h : Markup.Wraps inner outer) : ∀ {parent start : Nat},
    f.LaidAll parent start (Markup.outlinesAll outer) →
    (∀ p s, f.marks p = f.marks parent → f.LaidAll p s (Markup.outlinesAll inner) →
      f.Carries theme s (countAll (Markup.outlinesAll inner)) trails) →
    f.Carries theme start (countAll (Markup.outlinesAll outer)) trails := by
  induction h with
  | refl => exact fun hlaid hinner => hinner _ _ rfl hlaid
  | behind hpart _ ih =>
    intro parent start hlaid hinner
    obtain ⟨size, hcount, hlaid, hcomes⟩ := comes_of_every hpart.2 hlaid
    rw [Markup.outlinesAll, hcount]
    exact (Carries.of_silent fun i hlow hhigh => (hcomes i hlow hhigh).isSilent).append (ih hlaid hinner)
  | inside htag hattributes _ ih =>
    intro parent start hlaid hinner
    obtain ⟨⟨hrow, hinside⟩, -⟩ := hlaid
    rw [htag.2.2, if_neg Bool.false_ne_true] at hinside
    have hsilent : f.IsSilent start := isSilent_of_row (by rw [hrow])
      fun a ha => (hattributes.1 a.name (List.mem_map_of_mem ha)).2
    have hmarks : f.marks start = f.marks parent := by
      rw [marks, lineage_of_parent hf (by rw [hrow]),
        List.filter_cons_of_neg (by simp [hsilent.isMarked]), marks]
    have hcarries := ih hinside fun p s hp => hinner p s (hp.trans hmarks)
    rw [Markup.outlinesAll, Markup.outlines, htag.2.2, if_neg Bool.false_ne_true, countAll, count,
      Markup.outlinesAll, countAll, Nat.add_zero, Nat.add_comm]
    exact (Carries.of_silent fun i hlow hhigh => (by omega : i = start) ▸ hsilent).append hcarries

/-! ## Trees -/

theorem ownText_of_contents {i start : Nat} {os : List Outline}
    (h : (f.get i).content = contents start os) : f.ownText i = Outline.ownText os := by
  rw [Forest.ownText, h]
  clear h
  induction os generalizing start with
  | nil => rfl
  | cons outline os ih =>
    cases outline with
    | text content =>
      rw [contents, List.map_cons, String.join_cons, ih, Outline.ownText, Content.ownText]
    | element tag attributes inside =>
      rw [contents, List.map_cons, String.join_cons, ih, Outline.ownText, Content.ownText,
        String.empty_append]

end Forest

namespace Node

open Markup

theorem ownText_pushText (content : String) (os : List Outline) :
    ownText (pushText content os) = content ++ ownText os := by
  match os with
  | [] =>
    rw [pushText]
    split_ifs with hempty
    · simp [String.isEmpty_iff.1 hempty]
    · rfl
    · simp
  | .text more :: rest => simp [pushText, ownText, String.append_assoc]
  | .element .. :: rest =>
    rw [pushText]
    split_ifs with hempty
    · simp [String.isEmpty_iff.1 hempty]
    · rfl
    · simp

theorem ownText_markupAll (theme : Theme) (nodes : List Node) :
    ownText (outlinesAll (markupAll theme nodes)) = "" := by
  induction nodes with
  | nil => rfl
  | cons node nodes ih =>
    rw [markupAll, outlinesAll, outlines_markup]
    exact ih

/-- The text of a node stands in its element. -/
theorem ownText_content (theme : Theme) {node : Node} (hplain : node.IsMarkupFree)
    (hshows : node.showsText) (children : List Node) :
    ownText (outlinesAll (node.content theme.partName (markupAll theme children))) =
      node.text.getD "" := by
  have htext : ownText (outlinesAll ((node.text.map .text).toList ++ markupAll theme children)) =
      node.text.getD "" := by
    cases node.text with
    | none => exact ownText_markupAll theme children
    | some text =>
      rw [Option.map_some, Option.toList_some, List.singleton_append, outlinesAll,
        Markup.outlines, ownText_pushText, ownText_markupAll, String.append_empty]
      rfl
  rw [showsText] at hshows
  rw [content]
  cases hkind : node.kind.primitive? with
  | none => exact htext
  | some primitive =>
    rw [hkind] at hshows
    cases primitive with
    | checkbox | select | table | tabs | disclosure | dialog => exact absurd hshows (by decide)
    | richText =>
      have hempty := hplain hkind
      cases hnode : node.text with
      | none => exact ownText_markupAll theme children
      | some text =>
        rw [hnode] at hempty
        obtain rfl : text = "" := hempty
        rw [Option.map_some, Option.toList_some, List.singleton_append, outlinesAll,
          Markup.outlines, ownText_pushText, ownText_markupAll]
        rfl
    | _ => exact htext

end Node

namespace Forest

open Markup

variable {f : Forest} {theme : Theme}

/-- The element of a node bears what the node says. -/
theorem bears_of_laid {node : Node} (hplain : node.IsMarkupFree) {parent start : Nat}
    (h : f.Laid parent start (node.outline theme)) : f.Bears theme start node := by
  obtain ⟨hrow, -⟩ := h
  refine ⟨by rw [hrow], by rw [hrow], fun hvoid => ?_, fun hvoid hshows => ?_⟩
  · rw [hrow] at hvoid ⊢
    dsimp only at hvoid ⊢
    rw [if_pos hvoid]
    rfl
  · rw [ownText_of_contents (by rw [hrow])]
    rw [hrow] at hvoid
    dsimp only at hvoid
    rw [hvoid, if_neg Bool.false_ne_true]
    exact Node.ownText_content theme hplain hshows node.children

theorem isMarked_of_bears {i : Nat} {node : Node} (h : f.Bears theme i node) :
    f.isMarked i = true := by
  rw [isMarked, hasAttribute, attribute?, h.attributes, Node.lookup_attributes theme node (by decide)]
  rfl

mutual

/-- **A tree that is laid out in a table has its elements there**, nested and in order. -/
theorem carries_of_laid (hf : f.WellFormed) : ∀ (node : Node),
    (∀ n ∈ node.preorder, n.IsMarkupFree) → ∀ {parent start : Nat} {above : List Node},
    f.Laid parent start (node.outline theme) → List.Forall₂ (f.Bears theme) (f.marks parent) above →
    f.Carries theme start (count (node.outline theme)) (node.trails theme above)
  | ⟨id, kind, props, style, events, motion, children, t⟩, hplain, parent, start, above,
      hlaid, habove => by
    let node : Node := ⟨id, kind, props, style, events, motion, children, t⟩
    have hself : node.IsMarkupFree := hplain node (List.mem_cons_self ..)
    have hbears : f.Bears theme start node := bears_of_laid hself hlaid
    have hmarks : f.marks start = start :: f.marks parent := by
      rw [marks, lineage_of_parent hf (by rw [hlaid.1]),
        List.filter_cons_of_pos (isMarked_of_bears hbears), marks]
    have htrail : List.Forall₂ (f.Bears theme) (f.marks start) (node :: above) := by
      rw [hmarks]
      exact .cons hbears habove
    have hone : f.Carries theme start 1 [node :: above] := by
      refine ⟨?_, fun i hlow hhigh hi => ?_⟩
      · rw [List.range'_one, List.filter_cons_of_pos (isMarked_of_bears hbears)]
        exact .cons htrail .nil
      · obtain rfl : i = start := by omega
        exact absurd (isMarked_of_bears hbears) (by simp [hi])
    have hinside := hlaid.2
    rw [Node.outline, count, Nat.add_comm, Node.trails, ← List.singleton_append]
    dsimp only at hinside ⊢
    refine hone.append ?_
    by_cases hvoid : isVoid (theme.opening kind props).tag = true
    · rw [if_pos hvoid, if_pos hvoid]
      exact .of_silent fun i hlow hhigh => by
        rw [countAll] at hhigh
        omega
    · rw [if_neg hvoid] at hinside ⊢
      rw [if_neg hvoid]
      refine .of_wraps hf (Node.wraps_content theme.partName hself _) hinside fun p s hp hlaid => ?_
      rw [← hp] at htrail
      exact carries_of_laidAll hf children
        (fun n hn => hplain n (List.mem_cons_of_mem _ hn)) hlaid htrail

theorem carries_of_laidAll (hf : f.WellFormed) : ∀ (nodes : List Node),
    (∀ n ∈ Node.preorderAll nodes, n.IsMarkupFree) → ∀ {parent start : Nat} {above : List Node},
    f.LaidAll parent start (outlinesAll (Node.markupAll theme nodes)) →
    List.Forall₂ (f.Bears theme) (f.marks parent) above →
    f.Carries theme start (countAll (outlinesAll (Node.markupAll theme nodes)))
      (Node.trailsAll theme above nodes)
  | [], _, _, _, _, _, _ => .of_silent fun i hlow hhigh => by
    rw [Node.markupAll, outlinesAll, countAll] at hhigh
    omega
  | node :: nodes, hplain, parent, start, above, hlaid, habove => by
    rw [Node.markupAll, outlinesAll, Node.outlines_markup] at hlaid ⊢
    have hfirst := carries_of_laid hf node (fun n hn => hplain n (List.mem_append_left _ hn))
      hlaid.1 habove
    have hrest := carries_of_laidAll hf nodes (fun n hn => hplain n (List.mem_append_right _ hn))
      hlaid.2 habove
    rw [countAll]
    exact hfirst.append hrest

end

end Forest

/-! ## Pages -/

/-- The outlines of a page. -/
def Document.outlines (theme : Theme) (defaults : PageDefaults) (document : Document) :
    List Outline :=
  Markup.outlinesAll (document.page theme defaults).tail

/-- The table is that of a document: it has the elements that were written for the page and no
others. Inside the body, at an index, stands the markup that the page has there, and the elements
that the script of a page finds by an id are those of the nodes, in order and nested as the nodes
are. -/
structure Forest.Reflects (f : Forest) (theme : Theme) (defaults : PageDefaults)
    (document : Document) (body : Nat) : Prop where
  page : f.LaidAll rootIndex 1 (document.outlines theme defaults)
  size : f.size = countAll (document.outlines theme defaults) + 1
  laid : ∃ html, f.Laid html body (.element "body" [] (Markup.outlinesAll (document.bodyParts theme)))
  nodes : List.Forall₂ (fun i trail => List.Forall₂ (f.Bears theme) (f.marks i) trail)
    (f.preorder.filter f.isMarked) (document.app.trails theme [])
  inside : ∀ i ∈ f.preorder, f.isMarked i = true → body ∈ f.lineage i

namespace Document

open Markup MarkupReader

/-- The table of a page. -/
def forest (theme : Theme) (defaults : PageDefaults) (document : Document) : Forest :=
  .ofOutlines (document.outlines theme defaults)

theorem lexes_html (theme : Theme) (defaults : PageDefaults) {document : Document}
    (h : document.IsReadable) :
    Lexes (document.html theme defaults).toList
      (.skipped :: tokensAll (document.outlines theme defaults)) := by
  have hrest := (continues_writeAll (document.page theme defaults).tail
    (legibleAll_page theme defaults h) (Or.inl rfl) lexes_nil).lexes
  rw [List.append_nil, List.append_nil] at hrest
  have hchars : (document.html theme defaults).toList =
      '<' :: '!' :: ("DOCTYPE html".toList ++ '>' :: writeAll (document.page theme defaults).tail) := by
    rw [html, String.toList_ofList]
    rfl
  rw [hchars]
  refine lexes_cons ?_ ?_ hrest
  · have hplain : '>' ∉ "DOCTYPE html".toList := by decide +kernel
    exact readFirst_declaration _ hplain (by decide +kernel)
  · simp only [List.length_cons, List.length_append]
    omega

/-- **The text of a page is read without a fault**, into the table of its outlines. -/
theorem read_html (theme : Theme) (defaults : PageDefaults) {document : Document}
    (h : document.IsReadable) :
    Forest.read (document.html theme defaults) = .ok (document.forest theme defaults) := by
  have htokens := lexes_html theme defaults h (document.html theme defaults).toList.length 0
    (Nat.le_refl _)
  have hregular : RegularAll (document.outlines theme defaults) :=
    regularAll_outlinesAll _ (legibleAll_page theme defaults h)
  have hskipped : ∀ tokens, Forest.ofTokens (.skipped :: tokens) = Forest.ofTokens tokens :=
    fun _ => rfl
  rw [Forest.read, Token.ofMarkup, htokens, Except.map, hskipped,
    Forest.ofTokens_tokensAll hregular, forest]

theorem outlines_eq (theme : Theme) (defaults : PageDefaults) (document : Document) :
    document.outlines theme defaults = [.text "\n",
      .element "html" [("lang", document.shownProp "lang" defaults.language)] [.text "\n",
        .element "head" [] (outlinesAll (document.headContent theme defaults)), .text "\n",
        .element "body" [] (outlinesAll (document.bodyParts theme)), .text "\n"]] := by
  have hvoid : ∀ tag ∈ ["html", "head", "body"], isVoid tag = false := by decide +kernel
  have htext : ∀ tag attributes content rest,
      pushText "\n" (.element tag attributes content :: rest) =
        .text "\n" :: .element tag attributes content :: rest := fun _ _ _ _ => rfl
  simp only [outlines, page, List.tail_cons, outlinesAll, Markup.outlines, lineBreak,
    hvoid _ (List.mem_cons_self ..), hvoid "head" (by simp), hvoid "body" (by simp),
    Bool.false_eq_true, if_false, htext]
  rfl

theorem outlines_bodyParts (theme : Theme) (document : Document) :
    outlinesAll (document.bodyParts theme) =
      .text "\n" :: document.app.outline theme :: outlinesAll (document.bodyEnd theme) := by
  rw [bodyParts_eq, outlinesAll, outlinesAll, Node.outlines_markup]
  rfl

/-- The index of the body of a page. -/
def bodyIndex (theme : Theme) (defaults : PageDefaults) (document : Document) : Nat :=
  countAll (outlinesAll (document.headContent theme defaults)) + 3

/-- How the table of a page begins: the document, its one element, then the head with what is in
it, and the body up to the end. -/
structure Frames (theme : Theme) (defaults : PageDefaults) (document : Document) (f : Forest) :
    Prop where
  wellFormed : f.WellFormed
  preorder : f.preorder = List.range' 1 (document.bodyIndex theme defaults +
    countAll (outlinesAll (document.bodyParts theme)))
  html : (f.get 1).parent = some rootIndex ∧
    (f.get 1).attributes = [("lang", document.shownProp "lang" defaults.language)]
  head : f.Laid 1 2 (.element "head" [] (outlinesAll (document.headContent theme defaults)))
  body : f.Laid 1 (document.bodyIndex theme defaults)
    (.element "body" [] (outlinesAll (document.bodyParts theme)))

variable {theme : Theme} {defaults : PageDefaults} {document : Document}

theorem frames_forest (theme : Theme) (defaults : PageDefaults) (document : Document) :
    Frames theme defaults document (document.forest theme defaults) := by
  have hlaid := Forest.laidAll_ofOutlines (document.outlines theme defaults)
  have hpreorder := Forest.preorder_ofOutlines (document.outlines theme defaults)
  have hindex : 2 + (countAll (outlinesAll (document.headContent theme defaults)) + 1) =
      document.bodyIndex theme defaults := by
    rw [bodyIndex]
    omega
  rw [← forest, outlines_eq] at hlaid hpreorder
  simp only [Forest.LaidAll, Forest.Laid, countAll, count, Nat.add_zero, Nat.zero_add,
    Nat.reduceAdd, and_true, true_and, hindex] at hlaid hpreorder
  obtain ⟨hhtml, hhead, hbody⟩ := hlaid
  refine ⟨Forest.wellFormed_ofOutlines _, ?_, by rw [hhtml]; exact ⟨rfl, rfl⟩, hhead, hbody⟩
  have hsize : countAll (outlinesAll (document.headContent theme defaults)) + 1 +
      (countAll (outlinesAll (document.bodyParts theme)) + 1) + 1 =
      document.bodyIndex theme defaults + countAll (outlinesAll (document.bodyParts theme)) := by
    rw [bodyIndex]
    omega
  rw [hpreorder, hsize]

/-- Up to the body there is nothing that the script of a page sees. -/
theorem Frames.isSilent {f : Forest} (hf : Frames theme defaults document f) {i : Nat}
    (hlow : 1 ≤ i) (hhigh : i ≤ document.bodyIndex theme defaults) : f.IsSilent i := by
  obtain ⟨hhead, hheadInside⟩ := hf.head
  by_cases h1 : i = 1
  · have hlang : ∀ name ∈ wireNames, name ∉ ["lang"] := by decide +kernel
    intro name hname
    rw [h1, Forest.attribute?, hf.html.2]
    exact OrderedMap.lookup_eq_none_iff.2 (hlang name hname)
  by_cases h2 : i = 2
  · intro name _
    rw [h2, Forest.attribute?, hhead]
    rfl
  by_cases h3 : i = document.bodyIndex theme defaults
  · intro name _
    rw [h3, Forest.attribute?, hf.body.1]
    rfl
  · rw [bodyIndex] at hhigh h3
    exact Forest.laidAll_inert (isPart_headContent theme defaults document)
      hheadInside i (by omega) (by omega)

theorem Frames.marks_body {f : Forest} (hf : Frames theme defaults document f) :
    f.marks (document.bodyIndex theme defaults) = [] := by
  have hindex : 1 ≤ document.bodyIndex theme defaults := by
    rw [bodyIndex]
    omega
  rw [Forest.marks, Forest.lineage_of_parent hf.wellFormed (by rw [hf.body.1]),
    Forest.lineage_of_parent hf.wellFormed hf.html.1, Forest.lineage_root hf.wellFormed]
  simp [(hf.isSilent hindex (Nat.le_refl _)).isMarked, (hf.isSilent (Nat.le_refl 1) hindex).isMarked]

/-- The table of a page has the elements of its nodes and nothing else that the script of a page
sees. -/
theorem Frames.carries {f : Forest} (hf : Frames theme defaults document f)
    (h : document.IsReadable) :
    f.Carries theme 1 (document.bodyIndex theme defaults +
      countAll (outlinesAll (document.bodyParts theme))) (document.app.trails theme []) := by
  have hfront : f.Carries theme 1 (document.bodyIndex theme defaults) [] :=
    .of_silent fun i hlow hhigh => hf.isSilent hlow (by omega)
  have hlaid := hf.body.2
  have habove : List.Forall₂ (f.Bears theme) (f.marks (document.bodyIndex theme defaults)) [] := by
    rw [hf.marks_body]
    exact .nil
  rw [outlines_bodyParts] at hlaid ⊢
  obtain ⟨-, happ, hend⟩ := hlaid
  have htree := Forest.carries_of_laid hf.wellFormed document.app h.nodes happ habove
  have hinside := htree.append (.of_silent (Forest.laidAll_inert (isPart_bodyEnd theme h) hend))
  rw [List.append_nil, count, Nat.add_zero, Nat.add_comm _ 1] at hinside
  rw [countAll, count, Nat.zero_add, countAll]
  exact hfront.append hinside

/-- **The table of a page is that of its document.** -/
theorem reflects_forest (theme : Theme) (defaults : PageDefaults) {document : Document}
    (h : document.IsReadable) :
    (document.forest theme defaults).Reflects theme defaults document
      (document.bodyIndex theme defaults) := by
  have hf := frames_forest theme defaults document
  have hcarries := hf.carries h
  refine ⟨Forest.laidAll_ofOutlines _, Forest.size_ofOutlines _, ⟨1, hf.body⟩, ?_,
    fun i hi hmarked => ?_⟩
  · rw [hf.preorder]
    exact hcarries.marked
  · rw [hf.preorder, List.mem_range'_1] at hi
    have hbehind : document.bodyIndex theme defaults < i := by
      by_contra hle
      have := (hf.isSilent hi.1 (by omega)).isMarked
      exact absurd hmarked (by simp [this])
    have hline := Forest.mem_line_of_laidAll hf.wellFormed hf.body.2 hbehind (by omega)
      (Forest.self_mem_line hf.wellFormed _)
    rw [Forest.lineage_eq, List.mem_filter]
    exact ⟨hline, by simp [bodyIndex, rootIndex]⟩

/-- **Reading a page gives back the tree of its document.** The text is read without a fault into
the elements that were written, head and scripts included, and no others; the body has what was
written into it, and the elements of nodes in it have the tags, attributes and texts of the nodes,
one for each node that is not inside a void element, nested and ordered as the nodes are. -/
theorem exists_read_html (theme : Theme) (defaults : PageDefaults) (document : Document)
    (h : document.IsReadable) :
    ∃ f body, Forest.read (document.html theme defaults) = .ok f ∧
      f.Reflects theme defaults document body :=
  ⟨_, _, read_html theme defaults h, reflects_forest theme defaults h⟩

/-- A page whose texts look like markup. -/
def tricky : Document where
  version := formatVersion
  app := {
    id := "a\"><b"
    kind := Primitive.page.kind
    children := [
      { id := "t", kind := Primitive.text.kind, text := some "</p><script>&lt;" },
      { id := "i", kind := Primitive.image.kind, props := [("alt", .str "\" onload=\"")] }] }
  modules := [{ id := "m", source := "if (a < b) f('</p>');" }]

theorem exists_read_html_tricky :
    tricky.IsReadable ∧ ∃ f body,
      Forest.read (tricky.html .minimal {}) = .ok f ∧ f.Reflects .minimal {} tricky body := by
  have h : tricky.IsReadable := ⟨by decide +kernel, by decide +kernel⟩
  exact ⟨h, exists_read_html .minimal {} tricky h⟩

end Document

end PageTree
