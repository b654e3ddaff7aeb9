/-!
# Powers of two and ten

The powers that numbers are built from, as naturals.
-/

namespace PageTree

/-- A power of two. -/
def twoTo (n : Nat) : Nat := Nat.pow 2 n

/-- A power of ten. -/
def tenTo (n : Nat) : Nat := Nat.pow 10 n

end PageTree
