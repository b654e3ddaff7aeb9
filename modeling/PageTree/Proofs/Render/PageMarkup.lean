import PageTree.Proofs.Render.NodeMarkup
import PageTree.Proofs.Render.RawText

/-!
# The markup of pages

The parts of a page around the tree can be read back like the tree itself, and the script of a live
page sees none of them.

## Main definitions

* `Document.IsReadable`: documents whose pages can be read back

## Main results

* `Document.legibleAll_page`: the whole page can be read back
-/

namespace PageTree

namespace Markup

theorem isPart_raw {tag body : String} {attributes : List Attribute}
    (htag : IsTagName tag ∧ Outline.isRaw tag = true ∧ isVoid tag = false)
    (hattributes : IsInert (attributes.map (·.name))) (hbody : IsRawBody tag body) :
    (Markup.element tag attributes [.verbatim body]).IsPart := by
  have hname : ∀ a ∈ attributes, IsAttributeName a.name ∧ a.name ∉ wireNames := fun a ha =>
    hattributes.1 a.name (List.mem_map_of_mem ha)
  refine ⟨⟨htag.1, ⟨fun a ha => (hname a ha).1, hattributes.2⟩, ?_⟩, fun a ha => (hname a ha).2,
    trivial, trivial⟩
  rw [if_pos htag.2.1]
  exact ⟨htag.2.2, Or.inr ⟨body, rfl, hbody⟩⟩

theorem isPart_lineBreak : lineBreak.IsPart := by
  refine ⟨fun c hc => ?_, trivial⟩
  obtain rfl : c = '\n' := by simpa using hc
  exact ⟨⟨by decide, by decide, by decide⟩, by decide⟩

theorem isPart_lines {pieces : List Markup} (h : ∀ m ∈ pieces, m.IsPart) :
    ∀ m ∈ lines pieces, m.IsPart := by
  intro m hm
  obtain ⟨piece, hpiece, hm⟩ := List.mem_flatMap.1 hm
  rcases List.mem_cons.1 hm with rfl | hm
  · exact isPart_lineBreak
  · exact List.mem_singleton.1 hm ▸ h piece hpiece

end Markup

namespace Document

open Markup

/-- No rich text carries a text, and no module ends its script, in letters of either case. -/
structure IsReadable (document : Document) : Prop where
  nodes : ∀ node ∈ document.app.preorder, node.IsMarkupFree
  modules : ∀ m ∈ document.modules,
    Text.occursIn "</script".toList (Text.lower m.source.toList) = false

/-- The tags of elements with a raw text. -/
theorem isTagName_of_mem_raw {tag : String} (h : tag ∈ ["style", "script"]) :
    IsTagName tag ∧ Outline.isRaw tag = true ∧ isVoid tag = false := by
  have hall : ∀ tag ∈ ["style", "script"],
      IsTagName tag ∧ Outline.isRaw tag = true ∧ isVoid tag = false := by
    decide +kernel
  exact hall tag h

theorem isPart_sheetElement {id rules : String} (h : ClosingFree rules.toList) :
    (sheetElement id rules).IsPart :=
  isPart_raw (isTagName_of_mem_raw (by decide))
    (show IsInert ["id"] from Node.isInert_of_sublist (by decide)) h.onLines.isRawBody

theorem isPart_headParts (theme : Theme) (defaults : PageDefaults) (document : Document) :
    ∀ m ∈ document.headParts theme defaults, m.IsPart := by
  have hmeta : ∀ m ∈ [Markup.element "meta" [.quoted "charset" "UTF-8"] [],
      .element "meta" [.quoted "name" "viewport",
        .quoted "content" "width=device-width, initial-scale=1.0"] [],
      .element "title" [] [.text (document.shownProp "title" defaults.title)]], m.IsPart := by
    simp only [List.forall_mem_cons, List.not_mem_nil, false_implies, implies_true, and_true]
    have htag := Node.isTagName_of_mem (by decide : "meta" ∈ Node.partTags)
    refine ⟨isPart_element htag ?_ (by simp), isPart_element htag ?_ (by simp),
      isPart_element (Node.isTagName_of_mem (by decide)) (by decide) (by simp [isPart_text])⟩
    · exact show IsInert ["charset"] from Node.isInert_of_sublist (by decide)
    · exact show IsInert ["name", "content"] from Node.isInert_of_sublist (by decide)
  have hlink : ∀ address, (sheetLink address).IsPart := fun address =>
    isPart_element (Node.isTagName_of_mem (by decide))
      (show IsInert ["rel", "href"] from Node.isInert_of_sublist (by decide)) (by simp)
  intro m hm
  rw [headParts] at hm
  rcases List.mem_append.1 hm with hm | hm
  · rcases List.mem_append.1 hm with hm | hm
    · rcases List.mem_append.1 hm with hm | hm
      · exact hmeta m hm
      · obtain ⟨address, _, rfl⟩ := List.mem_map.1 hm
        exact hlink address
    · split at hm
      · simp at hm
      · rw [List.mem_singleton.1 hm]
        refine isPart_sheetElement (ClosingFree.intercalate fun sheet hsheet => ?_)
        obtain ⟨preset, _, rfl⟩ := List.mem_map.1 hsheet
        exact (bracketless_sheet preset).closingFree
  · split at hm
    · exact List.mem_singleton.1 hm ▸ isPart_sheetElement closingFree_toastSheet
    · simp at hm

theorem isPart_stateScript (document : Document) : ∀ m ∈ document.stateScript, m.IsPart := by
  have hscript : ∀ state, ClosingFree ("window.__irState = " ++ scriptJson state ++ ";").toList := by
    intro state
    have hempty : ClosingFree [] := by decide
    have hend := (closingFree_scriptJson state).append_cons (c := ';') (by decide) hempty
    rw [String.toList_append, String.toList_append, List.append_assoc]
    exact .append_cons (a := "window.__irState =".toList) (c := ' ') (by decide)
      (by decide +kernel) hend
  intro m hm
  rw [stateScript] at hm
  split at hm
  · simp at hm
  · simp at hm
  · rw [List.mem_singleton.1 hm]
    exact isPart_raw (isTagName_of_mem_raw (by decide))
      (show IsInert ["id"] from Node.isInert_of_sublist (by decide)) (hscript _).isRawBody

theorem isPart_moduleScript {m : Module}
    (h : Text.occursIn "</script".toList (Text.lower m.source.toList) = false) :
    (moduleScript m).IsPart := by
  refine isPart_raw (isTagName_of_mem_raw (by decide))
    (show IsInert ["type", "id"] from Node.isInert_of_sublist (by decide)) ?_
  have hempty : ¬"</script".toList <:+: [] := by decide +kernel
  rw [Text.occursIn_eq_false_iff] at h
  rw [IsRawBody, Text.occursIn_eq_false_iff, String.toList_append, String.toList_append,
    Text.lower_append, Text.lower_append]
  intro hoccurs
  have hbreak : '\n' ∉ "</script".toList := by decide +kernel
  rcases Text.infix_append_cons (b := []) hbreak hoccurs with hoccurs | hoccurs
  · rcases Text.infix_append_cons (a := []) hbreak hoccurs with hoccurs | hoccurs
    · exact hempty hoccurs
    · exact h hoccurs
  · exact hempty hoccurs

theorem isPart_scriptParts (theme : Theme) {document : Document} (h : document.IsReadable) :
    ∀ m ∈ document.scriptParts theme, m.IsPart := by
  have hlink : ∀ address, (scriptLink address).IsPart := by
    intro address
    have hname : IsInert ["src"] := Node.isInert_of_sublist (by decide)
    obtain ⟨htag, hraw, hvoid⟩ := isTagName_of_mem_raw (by decide : "script" ∈ ["style", "script"])
    have hempty : IsRawBody "script" "" := ClosingFree.isRawBody (.of_not_mem (by simp))
    refine ⟨⟨htag, ⟨?_, hname.2⟩, ?_⟩, ?_, trivial⟩
    · exact fun a ha => (hname.1 a.name (List.mem_map_of_mem ha)).1
    · rw [if_pos hraw]
      exact ⟨hvoid, Or.inl ⟨rfl, hempty⟩⟩
    · exact fun a ha => (hname.1 a.name (List.mem_map_of_mem ha)).2
  intro m hm
  rw [scriptParts] at hm
  rcases List.mem_append.1 hm with hm | hm
  · rcases List.mem_append.1 hm with hm | hm
    · rcases List.mem_append.1 hm with hm | hm
      · obtain ⟨address, _, rfl⟩ := List.mem_map.1 hm
        exact hlink address
      · exact document.isPart_stateScript m hm
    · split at hm
      · rw [List.mem_singleton.1 hm]
        exact isPart_raw (isTagName_of_mem_raw (by decide))
          (show IsInert ["id"] from Node.isInert_of_sublist (by decide))
          closingFree_clientScript.onLines.isRawBody
      · simp at hm
  · obtain ⟨script, hscript, rfl⟩ := List.mem_map.1 hm
    exact isPart_moduleScript (h.modules script hscript)

/-- What stands behind the tree in the body of a page. -/
def bodyEnd (theme : Theme) (document : Document) : List Markup :=
  let scripts := document.scriptParts theme
  (if scripts.isEmpty then [lineBreak] else lines scripts) ++ [lineBreak]

theorem bodyParts_eq (theme : Theme) (document : Document) :
    document.bodyParts theme =
      lineBreak :: document.app.markup theme :: document.bodyEnd theme := by
  rw [bodyParts, bodyEnd, List.append_assoc]
  rfl

theorem isPart_bodyEnd (theme : Theme) {document : Document} (h : document.IsReadable) :
    ∀ m ∈ document.bodyEnd theme, m.IsPart := by
  intro m hm
  rw [bodyEnd] at hm
  rcases List.mem_append.1 hm with hm | hm
  · split at hm
    · exact List.mem_singleton.1 hm ▸ isPart_lineBreak
    · exact isPart_lines (isPart_scriptParts theme h) m hm
  · exact List.mem_singleton.1 hm ▸ isPart_lineBreak

/-- What stands in the head of a page. -/
def headContent (theme : Theme) (defaults : PageDefaults) (document : Document) : List Markup :=
  lines (document.headParts theme defaults) ++ [lineBreak]

theorem isPart_headContent (theme : Theme) (defaults : PageDefaults) (document : Document) :
    ∀ m ∈ document.headContent theme defaults, m.IsPart := by
  intro m hm
  rcases List.mem_append.1 hm with hm | hm
  · exact isPart_lines (document.isPart_headParts theme defaults) m hm
  · exact List.mem_singleton.1 hm ▸ isPart_lineBreak

theorem legibleAll_of_parts {ms : List Markup} (h : ∀ m ∈ ms, m.IsPart) : LegibleAll ms :=
  legibleAll_iff.2 fun m hm => (h m hm).1

/-- **A whole page can be read back**, up to the declaration in front of it. -/
theorem legibleAll_page (theme : Theme) (defaults : PageDefaults) {document : Document}
    (h : document.IsReadable) : LegibleAll (document.page theme defaults).tail := by
  have hlegible : ∀ {tag : String} {attributes : List Attribute} {content : List Markup},
      LegibleAll content → IsTagName tag ∧ Outline.isRaw tag = false →
      IsInert (attributes.map (·.name)) → (Markup.element tag attributes content).Legible := by
    intro tag attributes content hcontent htag hattributes
    refine ⟨htag.1, ⟨fun a ha => (hattributes.1 _ (List.mem_map_of_mem ha)).1, hattributes.2⟩, ?_⟩
    rw [htag.2, if_neg Bool.false_ne_true]
    split_ifs
    exact hcontent
  have hbreak := isPart_lineBreak.1
  have hhead : (Markup.element "head" [] (document.headContent theme defaults)).Legible :=
    hlegible (legibleAll_of_parts (document.isPart_headContent theme defaults))
      (Node.isTagName_of_mem (by decide)) (by decide)
  have hcontent : LegibleAll (document.bodyParts theme) := by
    rw [bodyParts_eq]
    exact ⟨hbreak, Node.legible_markup theme document.app h.nodes,
      legibleAll_of_parts (isPart_bodyEnd theme h)⟩
  have hbody : (Markup.element "body" [] (document.bodyParts theme)).Legible :=
    hlegible hcontent (Node.isTagName_of_mem (by decide)) (by decide)
  exact ⟨hbreak, hlegible ⟨hbreak, hhead, hbreak, hbody, hbreak, trivial⟩
    (Node.isTagName_of_mem (by decide))
    (show IsInert ["lang"] from Node.isInert_of_sublist (by decide)), trivial⟩

end Document

end PageTree
