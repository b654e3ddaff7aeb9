/-!
# Vocabularies

A vocabulary is a closed list of words for the members of a type, in the order in which they are
listed to a generator. Distinct members have distinct words, so a word names at most one member.

## Main results

* `Vocabulary.ofName?_name`: a member is found under its word
* `Vocabulary.name_of_ofName?`: what is found under a word has that word
-/

namespace PageTree

/-- Words for the members of a finite type. -/
class Vocabulary (α : Type) where
  /-- The members in listing order. -/
  all : List α
  /-- The word for a member. -/
  name : α → String
  /-- Every member is listed. -/
  mem_all : ∀ a, a ∈ all
  /-- No word is shared. -/
  name_injective : ∀ a b, name a = name b → a = b

namespace Vocabulary

variable {α : Type} [Vocabulary α]

/-- The member with this word. -/
def ofName? (word : String) : Option α :=
  (all : List α).find? fun a => name a == word

/-- All words, in listing order. -/
def names (α : Type) [Vocabulary α] : List String :=
  (all : List α).map name

theorem name_of_ofName? {word : String} {a : α} (h : ofName? word = some a) : name a = word := by
  have := List.find?_some h
  simpa using this

theorem ofName?_name (a : α) : ofName? (name a) = some a := by
  cases h : ofName? (α := α) (name a) with
  | none =>
    have := List.find?_eq_none.1 h a (mem_all a)
    simp at this
  | some b => exact congrArg some (name_injective b a (name_of_ofName? h))

end Vocabulary

end PageTree
