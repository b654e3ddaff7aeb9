import Mathlib.Data.List.Lex
import PageTree.Proofs.Tree.Paths

/-!
# Positions in a tree

A position says which child to take at each step down from the root. In pre-order a node comes
before another one just in case its position is the smaller one in the lexicographic order, where a
position comes before those that continue it. So where a node is listed can be said without going
through the tree.

## Main definitions

* `Position`, `Node.at?`: positions, and the node at one of them
* `Node.positioned`: the nodes of a tree in pre-order with their positions

## Main results

* `Node.mem_positioned`: the list has each node of the tree at its position, and nothing else
* `Node.pairwise_positioned`: it is in the order of the positions
-/

namespace PageTree

/-- Which child to take at each step down from the root. -/
abbrev Position := List Nat

namespace Node

/-- The node at a position. -/
def at? : Node → Position → Option Node
  | node, [] => some node
  | node, index :: position => node.children[index]?.bind fun child => child.at? position

/-- A node with this id stands at a position. -/
def HasId (root : Node) (position : Position) (id : String) : Prop :=
  (root.at? position).map Node.id = some id

mutual

/-- The nodes of a tree in pre-order with their positions. -/
def positioned : Node → List (Position × Node)
  | node@⟨_, _, _, _, _, _, children, _⟩ => ([], node) :: positionedFrom 0 children

/-- The same for several trees, the children of a node from an index on. -/
def positionedFrom (index : Nat) : List Node → List (Position × Node)
  | [] => []
  | node :: nodes =>
    node.positioned.map (fun place => (index :: place.1, place.2)) ++
      positionedFrom (index + 1) nodes

end

theorem positioned_eq (node : Node) :
    node.positioned = ([], node) :: positionedFrom 0 node.children := by
  cases node with
  | mk => rw [positioned]

@[simp] theorem positionedFrom_nil (index : Nat) : positionedFrom index [] = [] := by
  rw [positionedFrom]

theorem positionedFrom_cons (index : Nat) (node : Node) (nodes : List Node) :
    positionedFrom index (node :: nodes) =
      node.positioned.map (fun place => (index :: place.1, place.2)) ++
        positionedFrom (index + 1) nodes := by
  rw [positionedFrom]

/-! ## What is listed -/

/-- What is listed of several trees is listed of one of them. -/
theorem mem_positionedFrom {index : Nat} {nodes : List Node} {place : Position × Node} :
    place ∈ positionedFrom index nodes ↔ ∃ k child position, nodes[k]? = some child ∧
      place.1 = (index + k) :: position ∧ (position, place.2) ∈ child.positioned := by
  induction nodes generalizing index with
  | nil => simp
  | cons node nodes ih =>
    rw [positionedFrom_cons, List.mem_append, ih]
    constructor
    · rintro (h | ⟨k, child, position, hchild, hposition, hmem⟩)
      · obtain ⟨⟨position, found⟩, hmem, rfl⟩ := List.mem_map.1 h
        exact ⟨0, node, position, rfl, rfl, hmem⟩
      · exact ⟨k + 1, child, position, hchild, by rw [hposition, Nat.add_right_comm]; rfl, hmem⟩
    · rintro ⟨_ | k, child, position, hchild, hposition, hmem⟩
      · obtain rfl := Option.some.inj hchild
        exact .inl (List.mem_map.2 ⟨_, hmem, Prod.ext hposition.symm rfl⟩)
      · exact .inr ⟨k, child, position, hchild, by rw [hposition, Nat.add_right_comm]; rfl, hmem⟩

/-- **The list has each node of the tree at its position**, and nothing else. -/
theorem mem_positioned {root node : Node} {position : Position} :
    (position, node) ∈ root.positioned ↔ root.at? position = some node := by
  induction position generalizing root with
  | nil =>
    rw [positioned_eq, List.mem_cons, mem_positionedFrom, at?]
    constructor
    · rintro (h | ⟨k, child, position, -, h, -⟩)
      · rw [(Prod.mk.inj h).2]
      · cases h
    · intro h
      exact .inl (Prod.ext rfl (Option.some.inj h).symm)
  | cons index position ih =>
    rw [positioned_eq, List.mem_cons, mem_positionedFrom, at?, Option.bind_eq_some_iff]
    constructor
    · rintro (h | ⟨k, child, inside, hchild, h, hmem⟩)
      · cases (Prod.mk.inj h).1
      · rw [Nat.zero_add] at h
        obtain ⟨rfl, rfl⟩ := List.cons.inj h
        exact ⟨child, hchild, ih.1 hmem⟩
    · rintro ⟨child, hchild, hnode⟩
      exact .inr ⟨index, child, position, hchild, by rw [Nat.zero_add], ih.2 hnode⟩

/-! ## The order -/

theorem pairwise_positionedFrom (nodes : List Node) : ∀ index,
    (positionedFrom index nodes).Pairwise fun a b => a.1 < b.1 := by
  induction nodes using forest_induction with
  | nil => exact fun _ => positionedFrom_nil _ ▸ .nil
  | cons node nodes ihInside ihRest =>
    intro index
    have hroot : ∀ place ∈ positionedFrom 0 node.children, ([] : Position) < place.1 := by
      intro place hplace
      obtain ⟨k, child, position, -, hposition, -⟩ := mem_positionedFrom.1 hplace
      rw [hposition]
      exact List.nil_lt_cons _ _
    have hfirst : node.positioned.Pairwise fun a b => a.1 < b.1 := by
      rw [positioned_eq]
      exact .cons hroot (ihInside 0)
    rw [positionedFrom_cons, List.pairwise_append, List.pairwise_map]
    refine ⟨hfirst.imp fun h => List.cons_lt_cons_iff.2 (.inr ⟨rfl, h⟩), ihRest _, ?_⟩
    intro place hplace other hother
    obtain ⟨inside, -, rfl⟩ := List.mem_map.1 hplace
    obtain ⟨k, child, position, -, hposition, -⟩ := mem_positionedFrom.1 hother
    rw [hposition]
    exact List.cons_lt_cons_iff.2 (.inl (by omega))

/-- **The list is in the order of the positions.** -/
theorem pairwise_positioned (root : Node) : root.positioned.Pairwise fun a b => a.1 < b.1 := by
  have h := pairwise_positionedFrom [root] 0
  rw [positionedFrom_cons, positionedFrom_nil, List.append_nil, List.pairwise_map] at h
  refine h.imp fun h => ?_
  exact (List.cons_lt_cons_iff.1 h).elim (absurd · (Nat.lt_irrefl 0)) fun h => h.2

/-- Every node is met once, in order. -/
theorem map_snd_positionedFrom (nodes : List Node) : ∀ index,
    (positionedFrom index nodes).map Prod.snd = preorderAll nodes := by
  induction nodes using forest_induction with
  | nil =>
    intro index
    rw [positionedFrom_nil]
    rfl
  | cons node nodes ihInside ihRest =>
    intro index
    rw [positionedFrom_cons, List.map_append, List.map_map, ihRest, preorderAll, preorder_eq,
      ← ihInside 0, positioned_eq]
    rfl

theorem map_snd_positioned (root : Node) : root.positioned.map Prod.snd = root.preorder := by
  rw [positioned_eq, preorder_eq, List.map_cons, map_snd_positionedFrom]

/-- The ids of a tree are those of the nodes at its positions. -/
theorem mem_ids_iff {root : Node} {id : String} :
    id ∈ root.ids ↔ ∃ position, root.HasId position id := by
  rw [ids, ← map_snd_positioned, List.map_map, List.mem_map]
  constructor
  · rintro ⟨⟨position, node⟩, hmem, rfl⟩
    exact ⟨position, by rw [HasId, mem_positioned.1 hmem]; rfl⟩
  · rintro ⟨position, h⟩
    obtain ⟨node, hnode, hid⟩ := Option.map_eq_some_iff.1 h
    exact ⟨(position, node), mem_positioned.2 hnode, hid⟩

end Node

end PageTree
