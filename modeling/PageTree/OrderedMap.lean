/-!
# Maps in insertion order

A map from names to values is the list of its entries in the order in which their names first
appeared. Setting a name that is present replaces its value in place.

## Main definitions

* `OrderedMap.set`, `OrderedMap.setNew`, `OrderedMap.erase`
* `OrderedMap.ofEntries`: of entries with one name the first gives the place and the last the value
* `List.lookup` reads a map
-/

namespace PageTree

/-- The entries of a map in the order in which their names first appeared. -/
abbrev OrderedMap (α : Type) := List (String × α)

namespace OrderedMap

variable {α : Type}

/-- The map has an entry of this name. -/
def contains (name : String) (map : OrderedMap α) : Bool :=
  (map.lookup name).isSome

/-- Gives `name` the value, in its old place or at the end. -/
def set (name : String) (value : α) : OrderedMap α → OrderedMap α
  | [] => [(name, value)]
  | (n, v) :: rest => if n = name then (n, value) :: rest else (n, v) :: set name value rest

/-- Gives `name` the value unless it has one. -/
def setNew (name : String) (value : α) (map : OrderedMap α) : OrderedMap α :=
  if contains name map then map else map ++ [(name, value)]

/-- The map without the entry of this name. -/
def erase (name : String) (map : OrderedMap α) : OrderedMap α :=
  map.filter fun entry => entry.1 != name

/-- Sets every entry of `patch`, in order. -/
def overlay (map patch : OrderedMap α) : OrderedMap α :=
  patch.foldl (fun m entry => set entry.1 entry.2 m) map

/-- The map with these entries: a repeated name keeps its first place and its last value. -/
def ofEntries (entries : List (String × α)) : OrderedMap α :=
  overlay [] entries

end OrderedMap

end PageTree
