import PageTree.Markup.Reader
import PageTree.Proofs.Markup.Outline
import PageTree.Proofs.Markup.Table

/-!
# Outlines laid out in a table

Reading the tokens of an outline puts its elements into the table one after the other, each before
what is inside it. So an outline takes up one block of the table, and where each of its elements
stands can be computed from the outline alone.

## Main definitions

* `Outline.count`, `Outline.contents`: how much room outlines take, and the content they make
* `Forest.plant`: the table after an outline was added
* `Forest.Laid`: an outline stands in the table from some index on

## Main results

* `Growth.take_tokensAll`: reading the tokens of outlines adds them
* `Forest.laidAll_ofOutlines`: what was added stands where it should
-/

namespace PageTree

namespace Outline

mutual

/-- The number of elements. -/
def count : Outline → Nat
  | .text _ => 0
  | .element _ _ content => countAll content + 1

/-- The number of elements of outlines in sequence. -/
def countAll : List Outline → Nat
  | [] => 0
  | outline :: rest => count outline + countAll rest

end

/-- The content that outlines make when their elements stand in the table from an index on. -/
def contents (start : Nat) : List Outline → List Content
  | [] => []
  | .text content :: rest => .text content :: contents start rest
  | .element tag attributes inside :: rest =>
    .element start :: contents (start + count (.element tag attributes inside)) rest

theorem contents_append (start : Nat) (a b : List Outline) :
    contents start (a ++ b) = contents start a ++ contents (start + countAll a) b := by
  induction a generalizing start with
  | nil => simp [contents, countAll]
  | cons outline a ih =>
    cases outline with
    | text content => simp [contents, countAll, count, ih]
    | element tag attributes inside =>
      simp [contents, countAll, count, ih, Nat.add_assoc]

mutual

/-- Outlines that a reader can produce: nothing is inside an element with a void tag, and nothing
but a text inside one of raw text. -/
def Regular : Outline → Prop
  | .text _ => True
  | .element tag _ content =>
    if isRaw tag then content = [] ∨ ∃ body, body ≠ "" ∧ content = [.text body]
    else if isVoid tag then content = []
    else RegularAll content

/-- Outlines in sequence that a reader can produce. -/
def RegularAll : List Outline → Prop
  | [] => True
  | outline :: rest => Regular outline ∧ RegularAll rest

end

end Outline

namespace Forest

open Outline

mutual

/-- The table with an outline added at the end of an element. -/
def plant (f : Forest) (parent : Nat) : Outline → Forest
  | .text content => f.addContent parent (.text content)
  | .element tag attributes content =>
    plantAll (f.append parent tag attributes) f.size content

/-- The table with outlines added at the end of an element, one after the other. -/
def plantAll (f : Forest) (parent : Nat) : List Outline → Forest
  | [] => f
  | outline :: rest => plantAll (plant f parent outline) parent rest

end

mutual

/-- The outline takes up the table from an index on, below a parent. -/
def Laid (f : Forest) (parent start : Nat) : Outline → Prop
  | .text _ => True
  | .element tag attributes content =>
    f.get start = { tag, attributes, parent := some parent, content := contents (start + 1) content }
      ∧ LaidAll f start (start + 1) content

/-- The outlines take up the table from an index on, one behind the other. -/
def LaidAll (f : Forest) (parent start : Nat) : List Outline → Prop
  | [] => True
  | outline :: rest =>
    Laid f parent start outline ∧ LaidAll f parent (start + count outline) rest

end

mutual

/-- Whether an outline is laid out is decided by the block that it takes up. -/
theorem Laid.congr {f g : Forest} {parent : Nat} : ∀ {start : Nat} {outline : Outline},
    (∀ i, start ≤ i → i < start + count outline → g.get i = f.get i) →
    f.Laid parent start outline → g.Laid parent start outline
  | _, .text _, _, _ => trivial
  | start, .element tag attributes content, hget, ⟨hrow, hinside⟩ => by
    rw [count] at hget
    refine ⟨?_, LaidAll.congr (fun i hi hlt => hget i (by omega) (by omega)) hinside⟩
    rw [hget start (Nat.le_refl _) (by omega), hrow]

theorem LaidAll.congr {f g : Forest} {parent : Nat} : ∀ {start : Nat} {outlines : List Outline},
    (∀ i, start ≤ i → i < start + countAll outlines → g.get i = f.get i) →
    f.LaidAll parent start outlines → g.LaidAll parent start outlines
  | _, [], _, _ => trivial
  | start, outline :: rest, hget, ⟨hfirst, hrest⟩ => by
    rw [countAll] at hget
    exact ⟨hfirst.congr fun i hi hlt => hget i hi (by omega),
      hrest.congr fun i hi hlt => hget i (by omega) (by omega)⟩

end

/-- What adding outlines to an element does to the table. -/
structure Planted (f g : Forest) (parent : Nat) (outlines : List Outline) : Prop where
  size : g.size = f.size + countAll outlines
  parent_row : g.get parent =
    { f.get parent with content := (f.get parent).content ++ contents f.size outlines }
  other : ∀ i, i < f.size → i ≠ parent → g.get i = f.get i
  laid : g.LaidAll parent f.size outlines

theorem Planted.refl (f : Forest) (parent : Nat) : Planted f f parent [] where
  size := rfl
  parent_row := by simp [contents]
  other _ _ _ := rfl
  laid := trivial

mutual

theorem planted_plant : ∀ (outline : Outline) {f : Forest} {parent : Nat}, parent < f.size →
    Planted f (f.plant parent outline) parent [outline]
  | .text content, f, parent, h => by
    rw [plant]
    refine ⟨by simp [countAll, count], ?_, fun i _ hne => get_addContent_of_ne hne _, trivial,
      trivial⟩
    rw [get_addContent_self h]
    rfl
  | .element tag attributes content, f, parent, h => by
    have hnew : f.size < (f.append parent tag attributes).size := by simp
    obtain ⟨hsize, hrow, hother, hlaid⟩ := planted_plantAll content hnew
    rw [size_append] at hsize hrow hother hlaid
    rw [plant]
    refine ⟨?_, ?_, fun i hi hne => ?_, ⟨?_, hlaid⟩, trivial⟩
    · rw [hsize, countAll, count, countAll]
      omega
    · rw [hother parent (by omega) (by omega), get_append_parent h]
      rfl
    · rw [hother i (by omega) (by omega), get_append_of_ne hne (by omega)]
    · rw [hrow, get_append_new h]
      rfl

theorem planted_plantAll : ∀ (outlines : List Outline) {f : Forest} {parent : Nat},
    parent < f.size → Planted f (f.plantAll parent outlines) parent outlines
  | [], f, parent, _ => Planted.refl f parent
  | outline :: rest, f, parent, h => by
    have hfirst := planted_plant outline h
    have hsize : (f.plant parent outline).size = f.size + count outline := by
      rw [hfirst.size, countAll, countAll, Nat.add_zero]
    have hroom : parent < (f.plant parent outline).size := by omega
    have hrest := planted_plantAll rest hroom
    have hlaid := hrest.laid
    rw [hsize] at hlaid
    rw [plantAll]
    refine ⟨?_, ?_, fun i hi hne => ?_, hfirst.laid.1.congr fun i hi hlt => ?_, hlaid⟩
    · rw [hrest.size, hsize, countAll, Nat.add_assoc]
    · have hcontents := contents_append f.size [outline] rest
      rw [countAll, countAll, Nat.add_zero, List.singleton_append] at hcontents
      rw [hrest.parent_row, hfirst.parent_row, hsize, hcontents, List.append_assoc]
    · rw [hrest.other i (by omega) hne, hfirst.other i hi hne]
    · exact hrest.other i (by omega) (by omega)

end

theorem tag_plantAll {f : Forest} {parent : Nat} (h : parent < f.size) (outlines : List Outline) :
    ((f.plantAll parent outlines).get parent).tag = (f.get parent).tag := by
  rw [(planted_plantAll outlines h).parent_row]

end Forest

namespace Growth

open Outline

theorem current_addElement (g : Growth) (tag : String) (attributes : OrderedMap String) :
    (g.addElement tag attributes true).current = g.forest.size := rfl

/-- A closing tag closes the innermost open element when that has its name. -/
theorem close_of_tag {g : Growth} {i : Nat} {others : List Nat} {tag : String}
    (hopen : g.openElements = i :: others) (htag : (g.forest.get i).tag = tag) :
    g.close tag = { g with openElements := others } := by
  rw [close, hopen, List.dropWhile_cons_of_neg (by simp [htag])]

mutual

theorem take_tokens : ∀ (outline : Outline), Regular outline → ∀ {g : Growth},
    g.current < g.forest.size →
    outline.tokens.foldl Growth.take g = { g with forest := g.forest.plant g.current outline }
  | .text content, _, g, _ => rfl
  | .element tag attributes content, hregular, g, hg => by
    rw [Regular] at hregular
    rw [Outline.tokens, Forest.plant]
    by_cases hraw : isRaw tag = true
    · rw [if_pos hraw] at hregular ⊢
      rcases hregular with rfl | ⟨body, hbody, rfl⟩
      · rfl
      · simp [ownText, take, addRaw, hbody, Forest.plantAll, Forest.plant]
    · rw [if_neg hraw] at hregular ⊢
      by_cases hvoid : isVoid tag = true
      · rw [if_pos hvoid] at hregular ⊢
        subst hregular
        simp [take, addElement, hvoid, Forest.plantAll]
      · rw [if_neg hvoid] at hregular ⊢
        have hopened : take g (.opening tag attributes false) =
            g.addElement tag attributes true := by
          simp [take, hvoid]
        have hcurrent : (g.addElement tag attributes true).current <
            (g.addElement tag attributes true).forest.size := by
          rw [current_addElement]
          simp [addElement]
        have htag : ((Forest.plantAll (g.addElement tag attributes true).forest g.forest.size
            content).get g.forest.size).tag = tag := by
          rw [Forest.tag_plantAll (by simp [addElement])]
          simp [addElement, Forest.get_append_new hg]
        rw [List.foldl_cons, hopened, List.foldl_append, take_tokensAll content hregular hcurrent,
          List.foldl_cons, List.foldl_nil, take, current_addElement]
        exact close_of_tag rfl htag

/-- **Reading the tokens of outlines adds the outlines** to the element that is open, and leaves it
open. -/
theorem take_tokensAll : ∀ (outlines : List Outline), RegularAll outlines → ∀ {g : Growth},
    g.current < g.forest.size →
    (tokensAll outlines).foldl Growth.take g =
      { g with forest := g.forest.plantAll g.current outlines }
  | [], _, g, _ => rfl
  | outline :: rest, ⟨hfirst, hrest⟩, g, hg => by
    have hsize : g.current < (g.forest.plant g.current outline).size := by
      rw [(Forest.planted_plant outline hg).size]
      omega
    rw [tokensAll, List.foldl_append, take_tokens outline hfirst hg, Forest.plantAll]
    exact take_tokensAll rest hrest (g := { g with forest := g.forest.plant g.current outline })
      hsize

end

end Growth

namespace Markup

open Outline

theorem regularAll_pushText (content : String) {outlines : List Outline}
    (h : RegularAll outlines) : RegularAll (pushText content outlines) := by
  match outlines, h with
  | [], _ =>
    rw [pushText]
    split_ifs
    · trivial
    · exact ⟨trivial, trivial⟩
    · simp
  | .text more :: rest, h => exact ⟨trivial, h.2⟩
  | .element .. :: rest, h =>
    rw [pushText]
    split_ifs
    · exact h
    · exact ⟨trivial, h⟩
    · simp

mutual

theorem regularAll_outlines : ∀ (m : Markup), Legible m → ∀ {after : List Outline},
    RegularAll after → RegularAll (m.outlines after)
  | .text content, _, _, h => regularAll_pushText content h
  | .verbatim content, _, _, h => regularAll_pushText content h
  | .element tag attributes content, ⟨_, _, hcontent⟩, after, h => by
    refine ⟨?_, h⟩
    rw [Regular]
    by_cases hraw : isRaw tag = true
    · rw [if_pos hraw] at hcontent ⊢
      obtain ⟨hvoid, hcontent⟩ := hcontent
      rw [hvoid]
      rcases hcontent with ⟨rfl, -⟩ | ⟨body, rfl, -⟩
      · exact Or.inl rfl
      · by_cases hbody : body = ""
        · left
          simp [outlinesAll, Markup.outlines, pushText, hbody]
        · right
          exact ⟨body, hbody, by simp [outlinesAll, Markup.outlines, pushText, hbody]⟩
    · rw [if_neg hraw] at hcontent ⊢
      by_cases hvoid : isVoid tag = true
      · rw [if_pos hvoid, if_pos hvoid]
      · rw [if_neg hvoid] at hcontent
        rw [if_neg hvoid, if_neg hvoid]
        exact regularAll_outlinesAll content hcontent

/-- The outlines of legible markup are such as a reader can produce. -/
theorem regularAll_outlinesAll : ∀ (ms : List Markup), LegibleAll ms → RegularAll (outlinesAll ms)
  | [], _ => trivial
  | m :: ms, ⟨hm, hms⟩ => regularAll_outlines m hm (regularAll_outlinesAll ms hms)

end

end Markup

namespace Forest

open Outline

mutual

theorem WellFormed.plant : ∀ (outline : Outline) {f : Forest} {parent : Nat}, f.WellFormed →
    parent < f.size → (f.plant parent outline).WellFormed
  | .text content, _, parent, hf, _ => hf.addText parent content
  | .element tag attributes content, _, _, hf, h =>
    WellFormed.plantAll content (hf.append h tag attributes) (by simp)

theorem WellFormed.plantAll : ∀ (outlines : List Outline) {f : Forest} {parent : Nat},
    f.WellFormed → parent < f.size → (f.plantAll parent outlines).WellFormed
  | [], _, _, hf, _ => hf
  | outline :: rest, _, _, hf, h =>
    WellFormed.plantAll rest (WellFormed.plant outline hf h) (by
      rw [(planted_plant outline h).size]
      omega)

end

theorem wellFormed_empty : empty.WellFormed where
  size_pos := by decide
  root := by decide
  parent_lt := by
    intro i p h
    have hi := WellFormed.lt_size_of_parent h
    obtain rfl : i = 0 := Nat.lt_one_iff.1 hi
    cases h
  parent_iff := by
    have hchildren : ∀ p, empty.children p = [] := by
      intro p
      by_cases hp : p = 0
      · rw [hp]
        rfl
      · exact children_of_size_le (Nat.one_le_iff_ne_zero.2 hp)
    have hparent : ∀ i, (empty.get i).parent = none := by
      intro i
      by_cases hi : i = 0
      · rw [hi]
        rfl
      · exact parent_of_size_le (Nat.one_le_iff_ne_zero.2 hi)
    simp [hchildren, hparent]
  nodup := by
    intro p
    by_cases hp : p = 0
    · rw [hp]
      exact List.nodup_nil
    · rw [children_of_size_le (Nat.one_le_iff_ne_zero.2 hp)]
      exact List.nodup_nil

/-- The table of a document with these outlines in it. -/
def ofOutlines (outlines : List Outline) : Forest := empty.plantAll rootIndex outlines

theorem planted_ofOutlines (outlines : List Outline) :
    Planted empty (ofOutlines outlines) rootIndex outlines :=
  planted_plantAll outlines (by decide)

theorem wellFormed_ofOutlines (outlines : List Outline) : (ofOutlines outlines).WellFormed :=
  WellFormed.plantAll outlines wellFormed_empty (by decide)

theorem size_ofOutlines (outlines : List Outline) :
    (ofOutlines outlines).size = countAll outlines + 1 := by
  rw [(planted_ofOutlines outlines).size, Nat.add_comm]
  rfl

theorem laidAll_ofOutlines (outlines : List Outline) :
    (ofOutlines outlines).LaidAll rootIndex 1 outlines :=
  (planted_ofOutlines outlines).laid

theorem get_root_ofOutlines (outlines : List Outline) :
    (ofOutlines outlines).get rootIndex = { tag := "#document", content := contents 1 outlines } :=
  (planted_ofOutlines outlines).parent_row

/-- Reading the tokens of outlines gives the table of the outlines. -/
theorem ofTokens_tokensAll {outlines : List Outline} (h : RegularAll outlines) :
    ofTokens (tokensAll outlines) = ofOutlines outlines := by
  rw [ofTokens, Growth.take_tokensAll outlines h (by decide)]
  rfl

/-! ## What stands around -/

mutual

/-- What stands around the place of an outline stands around everything in it. -/
theorem mem_line_of_laid {f : Forest} (hf : f.WellFormed) : ∀ {outline : Outline}
    {parent start i a : Nat}, f.Laid parent start outline → start ≤ i →
    i < start + count outline → a ∈ f.line parent → a ∈ f.line i
  | .text _, _, _, _, _, _, hlow, hhigh, _ => by
    rw [count] at hhigh
    omega
  | .element _ _ _, parent, start, i, a, ⟨hrow, hinside⟩, hlow, hhigh, ha => by
    have hself : a ∈ f.line start := by
      rw [line_of_parent hf (by rw [hrow])]
      exact List.mem_cons_of_mem _ ha
    by_cases hi : i = start
    · exact hi ▸ hself
    · rw [count] at hhigh
      exact mem_line_of_laidAll hf hinside (by omega) (by omega) hself

theorem mem_line_of_laidAll {f : Forest} (hf : f.WellFormed) : ∀ {outlines : List Outline}
    {parent start i a : Nat}, f.LaidAll parent start outlines → start ≤ i →
    i < start + countAll outlines → a ∈ f.line parent → a ∈ f.line i
  | [], _, _, _, _, _, hlow, hhigh, _ => by
    rw [countAll] at hhigh
    omega
  | outline :: rest, parent, start, i, a, ⟨hfirst, hrest⟩, hlow, hhigh, ha => by
    rw [countAll] at hhigh
    by_cases hi : i < start + count outline
    · exact mem_line_of_laid hf hfirst hlow hi ha
    · exact mem_line_of_laidAll hf hrest (by omega) (by omega) ha

end

/-! ## Document order -/

mutual

/-- The elements of an outline that is laid out, in document order, are those of its block. -/
theorem preorderFrom_of_laid {f : Forest} {parent : Nat} : ∀ {start depth : Nat}
    {tag : String} {attributes : OrderedMap String} {content : List Outline},
    f.Laid parent start (.element tag attributes content) →
    count (.element tag attributes content) ≤ depth →
    f.preorderFrom depth start = List.range' start (count (.element tag attributes content))
  | start, depth, tag, attributes, content, ⟨hrow, hinside⟩, hdepth => by
    rw [count] at hdepth ⊢
    obtain ⟨depth, rfl⟩ : ∃ k, depth = k + 1 := ⟨depth - 1, by omega⟩
    have hchildren : f.children start = elementsOf (contents (start + 1) content) := by
      rw [children, hrow]
      rfl
    rw [preorderFrom, hchildren, preorderFrom_of_laidAll hinside (by omega), List.range'_succ]

theorem preorderFrom_of_laidAll {f : Forest} {parent : Nat} : ∀ {start depth : Nat}
    {outlines : List Outline}, f.LaidAll parent start outlines → countAll outlines ≤ depth →
    (elementsOf (contents start outlines)).flatMap (f.preorderFrom depth) =
      List.range' start (countAll outlines)
  | _, _, [], _, _ => rfl
  | start, depth, .text content :: rest, ⟨_, hrest⟩, hdepth => by
    rw [countAll, count, Nat.zero_add] at hdepth ⊢
    exact preorderFrom_of_laidAll hrest hdepth
  | start, depth, .element tag attributes content :: rest, ⟨hfirst, hrest⟩, hdepth => by
    rw [countAll] at hdepth ⊢
    have hcons : elementsOf (contents start (.element tag attributes content :: rest)) =
        start :: elementsOf
          (contents (start + count (.element tag attributes content)) rest) := rfl
    rw [hcons, List.flatMap_cons, preorderFrom_of_laid hfirst (by omega),
      preorderFrom_of_laidAll hrest (by omega), List.range'_append_1]

end

/-- **The document order of outlines is the order of the table.** -/
theorem preorder_ofOutlines (outlines : List Outline) :
    (ofOutlines outlines).preorder = List.range' 1 (countAll outlines) := by
  have hchildren : (ofOutlines outlines).children rootIndex = elementsOf (contents 1 outlines) := by
    rw [children, get_root_ofOutlines]
    rfl
  rw [preorder, size_ofOutlines, preorderFrom, List.tail_cons, hchildren,
    preorderFrom_of_laidAll (laidAll_ofOutlines outlines) (Nat.le_refl _)]

end Forest

end PageTree
