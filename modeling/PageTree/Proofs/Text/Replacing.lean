import Mathlib.Data.List.Induction
import Mathlib.Tactic.Common
import PageTree.Text.Basic

/-!
# Replacing in turn and replacing at once

Several patterns can be replaced one after the other, each in the whole text that the replacements
before it left, or all at once, in one pass from left to right. The two differ when a pattern is
found in what a replacement brought in, or where two patterns overlap. They agree when every pattern
stands apart from the replacements before it: it shares no character with what they bring in, and
none of their patterns begins inside it.

## Main definitions

* `Text.Replacement`, `Text.Replacement.IsApart`
* `Text.replaceInTurn`, `Text.replaceAtOnce`

## Main results

* `Text.replaceInTurn_eq_replaceAtOnce`
-/

namespace PageTree.Text

/-- A pattern, and what is put in its place. -/
structure Replacement where
  pattern : List Char
  substitute : List Char
  deriving DecidableEq

/-- Every replacement is made in the whole text that those before it left. -/
def replaceInTurn (replacements : List Replacement) (text : List Char) : List Char :=
  replacements.foldl (fun text r => replace r.pattern r.substitute text) text

/-- All replacements are made in one pass. Where several patterns occur the first in the list
counts, and text that a replacement brings in is not searched. -/
def replaceAtOnce (replacements : List Replacement) : List Char → List Char
  | [] => []
  | c :: text =>
    match replacements.find? fun r => r.pattern.isPrefixOf (c :: text) with
    | some r => r.substitute ++ replaceAtOnce replacements (text.drop (r.pattern.length - 1))
    | none => c :: replaceAtOnce replacements text
  termination_by text => text.length

/-- A later replacement finds nothing in what this one brings in, and nothing that this one could
still have found begins inside the later pattern. -/
def Replacement.IsApart (r later : Replacement) : Prop :=
  r.substitute ≠ [] ∧ (∀ c ∈ r.substitute, c ∉ later.pattern) ∧
    ∃ c ∈ r.pattern.head?, c ∉ later.pattern.tail

instance (r later : Replacement) : Decidable (r.IsApart later) :=
  decidable_of_iff (r.substitute ≠ [] ∧ (∀ c ∈ r.substitute, c ∉ later.pattern) ∧
      r.pattern.head?.any (fun c => decide (c ∉ later.pattern.tail)) = true)
    (by simp only [Replacement.IsApart, Option.any_eq_true, decide_eq_true_eq, Option.mem_def])

variable {replacements : List Replacement}

theorem replaceInTurn_concat (later : Replacement) (text : List Char) :
    replaceInTurn (replacements ++ [later]) text =
      replace later.pattern later.substitute (replaceInTurn replacements text) :=
  List.foldl_append

@[simp] theorem replaceAtOnce_nil : replaceAtOnce replacements [] = [] := by
  rw [replaceAtOnce]

/-- Nothing is replaced where no pattern stands. -/
theorem replaceAtOnce_cons_of_none {c : Char} {text : List Char}
    (h : ∀ r ∈ replacements, ¬r.pattern <+: c :: text) :
    replaceAtOnce replacements (c :: text) = c :: replaceAtOnce replacements text := by
  have hnone : (replacements.find? fun r => r.pattern.isPrefixOf (c :: text)) = none := by
    simpa [List.find?_eq_none] using h
  rw [replaceAtOnce, hnone]

/-- Where a pattern stands, and none of those before it in the list, it is replaced. -/
theorem replaceAtOnce_of_find? {r : Replacement} {c : Char} {text : List Char}
    (h : (replacements.find? fun r => r.pattern.isPrefixOf (c :: text)) = some r) :
    replaceAtOnce replacements (c :: text) =
      r.substitute ++ replaceAtOnce replacements (text.drop (r.pattern.length - 1)) := by
  rw [replaceAtOnce, h]

/-! ## One replacement in the whole text -/

variable {pattern substitute : List Char}

theorem replaceFrom_eq_drop (n : Nat) (text : List Char) :
    replaceFrom pattern substitute n text = replace pattern substitute (text.drop n) := by
  induction text generalizing n with
  | nil => cases n <;> rfl
  | cons c text ih =>
    cases n with
    | zero => rfl
    | succ n => rw [replaceFrom, ih, List.drop_succ_cons]

theorem replace_cons_of_prefix {c : Char} {text : List Char} (h : pattern <+: c :: text) :
    replace pattern substitute (c :: text) =
      substitute ++ replace pattern substitute (text.drop (pattern.length - 1)) := by
  rw [replace, replaceFrom, if_pos (List.isPrefixOf_iff_prefix.2 h), replaceFrom_eq_drop]

theorem replace_cons_of_not_prefix {c : Char} {text : List Char} (h : ¬pattern <+: c :: text) :
    replace pattern substitute (c :: text) = c :: replace pattern substitute text := by
  rw [replace, replaceFrom, if_neg (mt List.isPrefixOf_iff_prefix.1 h)]
  rfl

/-- A text that shares no character with the pattern is left alone. -/
theorem replace_append_of_disjoint {a : List Char} (hpattern : pattern ≠ [])
    (h : ∀ c ∈ a, c ∉ pattern) (text : List Char) :
    replace pattern substitute (a ++ text) = a ++ replace pattern substitute text := by
  induction a with
  | nil => rfl
  | cons c a ih =>
    obtain ⟨hc, ha⟩ := List.forall_mem_cons.1 h
    have hnot : ¬pattern <+: c :: (a ++ text) := by
      obtain ⟨p, rest, rfl⟩ := List.exists_cons_of_ne_nil hpattern
      intro hbegins
      exact hc (by simp [(List.cons_prefix_cons.1 hbegins).1])
    rw [List.cons_append, replace_cons_of_not_prefix hnot, ih ha, List.cons_append]

/-! ## One replacement more -/

/-- What a pass leaves begins with no part of a later pattern that did not begin the text. -/
theorem prefix_of_prefix_replaceAtOnce {part : List Char}
    (h : ∀ r ∈ replacements, r.substitute ≠ [] ∧ ∀ c ∈ r.substitute, c ∉ part)
    {text : List Char} (hbegins : part <+: replaceAtOnce replacements text) : part <+: text := by
  induction text generalizing part with
  | nil => simpa using hbegins
  | cons c text ih =>
    cases part with
    | nil => exact List.nil_prefix
    | cons d part =>
      cases hfound : replacements.find? fun r => r.pattern.isPrefixOf (c :: text) with
      | some r =>
        obtain ⟨hne, hapart⟩ := h r (List.mem_of_find?_eq_some hfound)
        obtain ⟨s, substitute, hsubstitute⟩ := List.exists_cons_of_ne_nil hne
        rw [replaceAtOnce_of_find? hfound, hsubstitute, List.cons_append] at hbegins
        have hd : d = s := (List.cons_prefix_cons.1 hbegins).1
        exact absurd List.mem_cons_self (hapart d (by simp [hsubstitute, hd]))
      | none =>
        rw [replaceAtOnce_cons_of_none (by simpa using hfound)] at hbegins
        obtain ⟨rfl, hrest⟩ := List.cons_prefix_cons.1 hbegins
        have hpart : ∀ r ∈ replacements, r.substitute ≠ [] ∧ ∀ c ∈ r.substitute, c ∉ part := by
          intro r hr
          exact ⟨(h r hr).1, fun c hc hmem => (h r hr).2 c hc (List.mem_cons_of_mem _ hmem)⟩
        exact List.cons_prefix_cons.2 ⟨rfl, ih hpart hrest⟩

/-- A pass leaves a text alone in which no pattern begins. -/
theorem replaceAtOnce_append {a : List Char}
    (h : ∀ r ∈ replacements, ∃ c ∈ r.pattern.head?, c ∉ a) (text : List Char) :
    replaceAtOnce replacements (a ++ text) = a ++ replaceAtOnce replacements text := by
  induction a with
  | nil => rfl
  | cons d a ih =>
    have hnone : ∀ r ∈ replacements, ¬r.pattern <+: d :: (a ++ text) := by
      intro r hr hbegins
      obtain ⟨c, hc, hcd⟩ := h r hr
      obtain ⟨rest, hpattern⟩ := List.head?_eq_some_iff.1 hc
      rw [hpattern] at hbegins
      exact hcd (by simp [(List.cons_prefix_cons.1 hbegins).1])
    have hrest : ∀ r ∈ replacements, ∃ c ∈ r.pattern.head?, c ∉ a := by
      intro r hr
      obtain ⟨c, hc, hcd⟩ := h r hr
      exact ⟨c, hc, fun hmem => hcd (List.mem_cons_of_mem d hmem)⟩
    rw [List.cons_append, replaceAtOnce_cons_of_none hnone, ih hrest, List.cons_append]

/-- **One replacement more.** After a pass, a pattern that stands apart is found where it stood in
the text and was not taken by the pass, and nowhere else. -/
theorem replace_replaceAtOnce {later : Replacement} (hpattern : later.pattern ≠ [])
    (h : ∀ r ∈ replacements, r.IsApart later) (text : List Char) :
    replace later.pattern later.substitute (replaceAtOnce replacements text) =
      replaceAtOnce (replacements ++ [later]) text := by
  induction hlen : text.length using Nat.strongRecOn generalizing text with
  | _ n ih =>
    cases text with
    | nil => simp [replace, replaceFrom]
    | cons c text =>
      have hdrop (k : Nat) := ih (text.drop k).length (by simp at hlen ⊢; omega) _ rfl
      cases hfound : replacements.find? fun r => r.pattern.isPrefixOf (c :: text) with
      | some r =>
        -- the pass takes an occurrence; what it brings in is passed over
        have hboth : ((replacements ++ [later]).find? fun r => r.pattern.isPrefixOf (c :: text)) =
            some r := by rw [List.find?_append, hfound, Option.some_or]
        rw [replaceAtOnce_of_find? hfound, replaceAtOnce_of_find? hboth,
          replace_append_of_disjoint hpattern (h r (List.mem_of_find?_eq_some hfound)).2.1, hdrop]
      | none =>
        have hnone : ∀ r ∈ replacements, ¬r.pattern <+: c :: text := by simpa using hfound
        by_cases hlater : later.pattern <+: c :: text
        · -- the later pattern stands here, and the pass leaves it in place
          have hboth : ((replacements ++ [later]).find? fun r =>
              r.pattern.isPrefixOf (c :: text)) = some later := by
            rw [List.find?_append, hfound, Option.none_or, List.find?_singleton,
              if_pos (List.isPrefixOf_iff_prefix.2 hlater)]
          obtain ⟨p, inside, hp⟩ := List.exists_cons_of_ne_nil hpattern
          rw [hp] at hlater
          obtain ⟨rfl, behind, rfl⟩ := List.cons_prefix_cons.1 hlater
          have hinside : ∀ r ∈ replacements, ∃ c ∈ r.pattern.head?, c ∉ inside := by
            intro r hr
            simpa [hp] using (h r hr).2.2
          have hrest := hdrop inside.length
          rw [List.drop_left] at hrest
          rw [replaceAtOnce_of_find? hboth, replaceAtOnce_cons_of_none hnone,
            replaceAtOnce_append hinside, hp, replace_cons_of_prefix ⟨_, rfl⟩]
          simp only [List.length_cons, Nat.add_sub_cancel, List.drop_left]
          rw [← hp, hrest]
        · -- it does not stand here, and the pass does not make it stand here
          have hnot : ¬later.pattern <+: c :: replaceAtOnce replacements text := by
            intro hbegins
            refine hlater ?_
            rw [← replaceAtOnce_cons_of_none hnone] at hbegins
            exact prefix_of_prefix_replaceAtOnce (fun r hr => ⟨(h r hr).1, (h r hr).2.1⟩) hbegins
          have hboth : ∀ r ∈ replacements ++ [later], ¬r.pattern <+: c :: text := by
            simpa [or_imp, forall_and] using ⟨hnone, hlater⟩
          rw [replaceAtOnce_cons_of_none hnone, replaceAtOnce_cons_of_none hboth,
            replace_cons_of_not_prefix hnot]
          exact congrArg (c :: ·) (hdrop 0)

/-- **Replacing in turn is replacing at once** when every pattern stands apart from the replacements
before it. -/
theorem replaceInTurn_eq_replaceAtOnce (hpattern : ∀ r ∈ replacements, r.pattern ≠ [])
    (h : replacements.Pairwise Replacement.IsApart) (text : List Char) :
    replaceInTurn replacements text = replaceAtOnce replacements text := by
  induction replacements using List.reverseRecOn with
  | nil =>
    have hself : replaceAtOnce [] (text ++ []) = text ++ replaceAtOnce [] [] :=
      replaceAtOnce_append (by simp) []
    rw [replaceAtOnce_nil, List.append_nil] at hself
    exact hself.symm
  | append_singleton earlier later ih =>
    obtain ⟨hearlier, -, hlater⟩ := List.pairwise_append.1 h
    have hinit := ih (fun r hr => hpattern r (List.mem_append_left _ hr)) hearlier
    rw [replaceInTurn_concat, hinit]
    exact replace_replaceAtOnce (hpattern later (by simp))
      (fun r hr => hlater r hr later List.mem_cons_self) text

end PageTree.Text
