import PageTree.Proofs.Markup.Outline
import PageTree.Proofs.Text.Cutting
import PageTree.Render.Page

/-!
# Raw texts of a page

No text that a page puts into a script or a style sheet of its own ends that element.

## Main definitions

* `ClosingFree`: texts in which no closing tag begins

## Main results

* `closingFree_scriptJson`: no closing tag begins in the script with the state
* `closingFree_clientScript`: nor in the script of a live page
-/

namespace PageTree

/-- No closing tag begins in the text. -/
def ClosingFree (text : List Char) : Prop := ¬['<', '/'] <:+: text

instance (text : List Char) : Decidable (ClosingFree text) := inferInstanceAs (Decidable (¬_))

namespace ClosingFree

theorem append_cons {a b : List Char} {c : Char} (hc : c ∉ ['<', '/']) (ha : ClosingFree a)
    (hb : ClosingFree b) : ClosingFree (a ++ c :: b) := fun h =>
  (Text.infix_append_cons hc h).elim ha hb

theorem of_not_mem {text : List Char} (h : '<' ∉ text) : ClosingFree text := fun hoccurs =>
  h (hoccurs.subset (by simp))

theorem isRawBody {tag body : String} (h : ClosingFree body.toList) :
    Markup.IsRawBody tag body := by
  rw [Markup.IsRawBody, Text.occursIn_eq_false_iff]
  intro hoccurs
  have hclosing : ['<', '/'] <:+: Text.lower body.toList :=
    (List.prefix_append ['<', '/'] tag.toList).isInfix.trans hoccurs
  exact h (Text.infix_of_infix_lower (by decide) hclosing)

/-- A text on lines of its own. -/
theorem onLines {text : String} (h : ClosingFree text.toList) :
    ClosingFree ("\n" ++ text ++ "\n").toList := by
  have hempty : ClosingFree [] := of_not_mem (by simp)
  have hinner := append_cons (b := []) (c := '\n') (by decide) h hempty
  rw [String.toList_append, String.toList_append]
  exact append_cons (a := []) (c := '\n') (by decide) hempty hinner

/-- Lines of text. -/
theorem intercalate {lines : List String} (h : ∀ line ∈ lines, ClosingFree line.toList) :
    ClosingFree ("\n".intercalate lines).toList := by
  induction lines with
  | nil => exact of_not_mem (by simp)
  | cons line lines ih =>
    have hline := h line (List.mem_cons_self ..)
    have hlines := ih fun l hl => h l (List.mem_cons_of_mem _ hl)
    by_cases hne : lines = []
    · rwa [hne, String.intercalate_singleton]
    · rw [String.intercalate_cons_of_ne_nil hne, String.toList_append, String.toList_append,
        List.append_assoc]
      exact append_cons (c := '\n') (by decide) hline hlines

/-- The characters of a text with each closing tag taken apart. -/
theorem replace (text : List Char) :
    ClosingFree (Text.replace ['<', '/'] ['<', '\\', '/'] text) := by
  -- A slash at the start of the result stood there before: so no pair arises anew.
  suffices h : ∀ n text, text.length ≤ n →
      ClosingFree (Text.replaceFrom ['<', '/'] ['<', '\\', '/'] 0 text) ∧
        ((Text.replaceFrom ['<', '/'] ['<', '\\', '/'] 0 text).head? = some '/' →
          text.head? = some '/') from (h _ text (Nat.le_refl _)).1
  intro n
  induction n with
  | zero =>
    intro text hlen
    obtain rfl := List.eq_nil_of_length_eq_zero (Nat.le_zero.1 hlen)
    exact ⟨of_not_mem (by simp [Text.replaceFrom]), id⟩
  | succ n ih =>
    intro text hlen
    cases text with
    | nil => exact ⟨of_not_mem (by simp [Text.replaceFrom]), id⟩
    | cons c rest =>
      have hrest := ih rest (by simpa using hlen)
      rw [Text.replaceFrom]
      by_cases hpair : ['<', '/'].isPrefixOf (c :: rest) = true
      · obtain ⟨behind, hbehind⟩ := List.isPrefixOf_iff_prefix.1 hpair
        obtain ⟨rfl, rfl⟩ : '<' = c ∧ '/' :: behind = rest := by simpa using hbehind
        have hfree := (ih behind (by simp at hlen; omega)).1
        rw [if_pos hpair]
        refine ⟨?_, by simp⟩
        have hmark := append_cons (a := ['<']) (c := '\\') (by decide) (by decide)
          (b := '/' :: Text.replaceFrom ['<', '/'] ['<', '\\', '/'] 0 behind)
        refine hmark fun hoccurs => (List.infix_cons_iff.1 hoccurs).elim (fun h => ?_) hfree
        simp [List.cons_prefix_cons] at h
      · rw [if_neg hpair]
        refine ⟨fun hoccurs => ?_, fun h => h⟩
        rcases List.infix_cons_iff.1 hoccurs with h | h
        · obtain ⟨rfl, hslash⟩ := List.cons_prefix_cons.1 h
          have hhead := hrest.2 (by
            obtain ⟨tail, htail⟩ := hslash
            rw [← htail]
            rfl)
          obtain ⟨tail, rfl⟩ := List.head?_eq_some_iff.1 hhead
          simp [List.isPrefixOf] at hpair
        · exact hrest.1 h

end ClosingFree

/-- The state in its script has no closing tag. -/
theorem closingFree_scriptJson (value : Json) : ClosingFree (scriptJson value).toList := by
  rw [scriptJson, String.toList_ofList]
  exact ClosingFree.replace _

/-! ## Style sheets and the script -/

/-- Texts without an opening angle bracket. -/
def Bracketless (text : String) : Prop := '<' ∉ text.toList

instance (text : String) : Decidable (Bracketless text) := inferInstanceAs (Decidable (¬_))

namespace Bracketless

theorem ofList {chars : List Char} (h : '<' ∉ chars) : Bracketless (String.ofList chars) := by
  rwa [Bracketless, String.toList_ofList]

theorem append {a b : String} (ha : Bracketless a) (hb : Bracketless b) : Bracketless (a ++ b) := by
  rw [Bracketless, String.toList_append, List.mem_append]
  exact not_or.2 ⟨ha, hb⟩

theorem join {texts : List String} (h : ∀ text ∈ texts, Bracketless text) :
    Bracketless (String.join texts) := by
  induction texts with
  | nil => simp [Bracketless, String.join]
  | cons text texts ih =>
    rw [String.join_cons]
    exact (h text (by simp)).append (ih fun t ht => h t (by simp [ht]))

theorem sheetBlock {head declarations : String} (hhead : Bracketless head)
    (hdeclarations : Bracketless declarations) :
    Bracketless (sheetBlock head declarations) := by
  have hopen : Bracketless "\x7b" := .ofList (by decide)
  have hclose : Bracketless "\x7d" := .ofList (by decide)
  exact ((hhead.append hopen).append hdeclarations).append hclose

end Bracketless

theorem bracketless_sheet (preset : Preset) : Bracketless preset.sheet := by
  have hblank : Bracketless " " := .ofList (by decide)
  have hname : Bracketless (Vocabulary.name preset) := by
    cases preset <;> exact .ofList (by decide)
  have htiming : Bracketless preset.timing := by
    cases preset <;> exact .ofList (by decide)
  have hframes : ∀ frame ∈ preset.frames, Bracketless frame.1 ∧ Bracketless frame.2 := by
    cases preset <;> decide +kernel
  have hclass : Bracketless preset.motionClass :=
    Bracketless.append (a := "ir-motion-") (.ofList (by decide)) hname
  have hanimate : Bracketless (animateClass (Vocabulary.name preset)) :=
    Bracketless.append (a := "ir-animate-") (.ofList (by decide)) hname
  have hkeyframes : Bracketless (String.join
      (preset.frames.map fun frame => sheetBlock frame.1 frame.2)) := by
    refine Bracketless.join fun text htext => ?_
    obtain ⟨frame, hframe, rfl⟩ := List.mem_map.1 htext
    exact .sheetBlock (hframes frame hframe).1 (hframes frame hframe).2
  have hfirst : Bracketless ("@keyframes " ++ preset.motionClass) :=
    Bracketless.append (.ofList (by decide)) hclass
  have hselector : Bracketless ("." ++ preset.motionClass ++ ",." ++
      animateClass (Vocabulary.name preset)) :=
    ((Bracketless.append (.ofList (by decide)) hclass).append (.ofList (by decide))).append hanimate
  have hrule : Bracketless ("animation:" ++ preset.motionClass ++ " " ++ preset.timing) :=
    ((Bracketless.append (.ofList (by decide)) hclass).append hblank).append htiming
  exact ((Bracketless.sheetBlock hfirst hkeyframes).append hblank).append (.sheetBlock hselector hrule)

theorem Bracketless.closingFree {text : String} (h : Bracketless text) :
    ClosingFree text.toList :=
  ClosingFree.of_not_mem h

theorem closingFree_toastSheet : ClosingFree toastSheet.toList := by
  have hblock : ∀ {head declarations : List Char}, '<' ∉ head ∧ '<' ∉ declarations →
      ClosingFree (sheetBlock (String.ofList head) (String.ofList declarations)).toList :=
    fun h => (Bracketless.sheetBlock (.ofList h.1) (.ofList h.2)).closingFree
  have hjoined : ∀ {head a b : List Char}, '<' ∉ head ∧ '<' ∉ a ++ b →
      ClosingFree (sheetBlock (String.ofList head) (String.ofList a ++ String.ofList b)).toList := by
    intro head a b h
    rw [← String.ofList_append]
    exact hblock h
  refine ClosingFree.intercalate ?_
  simp only [List.forall_mem_cons, List.not_mem_nil, false_implies, implies_true, and_true]
  exact ⟨hjoined (by decide), hjoined (by decide), hblock (by decide), hblock (by decide),
    hblock (by decide), hblock (by decide), hblock (by decide)⟩

theorem closingFree_clientScript : ClosingFree clientScript.toList := by
  have hnil : ([] : List String) = List.map String.ofList [] := rfl
  have hcons {chars : List Char} {rest : List String} {lines : List (List Char)}
      (h : rest = lines.map String.ofList) :
      String.ofList chars :: rest = (chars :: lines).map String.ofList := by
    rw [List.map_cons, h]
  have hjoined {a b : List Char} {rest : List String} {lines : List (List Char)}
      (h : rest = lines.map String.ofList) :
      (String.ofList a ++ String.ofList b) :: rest = ((a ++ b) :: lines).map String.ofList := by
    rw [List.map_cons, h, String.ofList_append]
  have hfree {lines : List (List Char)} (hlines : clientLines = lines.map String.ofList)
      (hall : lines.all (fun line => !Text.occursIn ['<', '/'] line) = true) :
      ∀ line ∈ clientLines, ClosingFree line.toList := by
    intro line hline
    rw [hlines] at hline
    obtain ⟨chars, hchars, rfl⟩ := List.mem_map.1 hline
    rw [String.toList_ofList]
    have h := List.all_eq_true.1 hall chars hchars
    exact Text.occursIn_eq_false_iff.1 (by simpa using h)
  refine ClosingFree.intercalate ?_
  -- first the characters of the lines are found, and then all of them are gone through at once
  apply hfree
  · unfold clientLines
    repeat' first
      | exact hnil
      | apply hcons
      | apply hjoined
  · decide +kernel

end PageTree
