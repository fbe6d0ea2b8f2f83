/-!
Disjoint sets of the numbers below a bound, as a forest of parents. A class is represented by its
smallest member: uniting two classes hangs the greater root under the smaller one, so parents never
exceed their children.
-/

namespace Timetable

structure Partition where
  parents : Array Nat
deriving DecidableEq, Repr

namespace Partition

/-- Every number below `n` in a class of its own. -/
def discrete (n : Nat) : Partition := ⟨Array.range n⟩

def size (partition : Partition) : Nat := partition.parents.size

/-- Numbers outside the partition are their own parents. -/
def parent (partition : Partition) (x : Nat) : Nat := partition.parents.getD x x

def setParent (partition : Partition) (x parent : Nat) : Partition :=
  ⟨partition.parents.setIfInBounds x parent⟩

/-- The root above a number, and the partition after its path has been halved: every second number
on the way is hung under the parent of its parent. -/
def find (partition : Partition) (x : Nat) : Nat × Partition :=
  let up := partition.parent x
  if up = x then (x, partition)
  else
    let grandparent := partition.parent up
    if grandparent < x then (partition.setParent x grandparent).find grandparent
    else (x, partition)
termination_by x

def root (partition : Partition) (x : Nat) : Nat := (partition.find x).1

def union (partition : Partition) (a b : Nat) : Partition :=
  let (rootA, partition) := partition.find a
  let (rootB, partition) := partition.find b
  if rootA = rootB then partition
  else partition.setParent (max rootA rootB) (min rootA rootB)

/-- The classes by their roots in ascending order, each with its members in ascending order. -/
def classes (partition : Partition) : List (List Nat) :=
  let rooted := (List.range partition.size).map fun x => (x, partition.root x)
  (rooted.filter fun (x, root) => root = x).map fun (top, _) =>
    (rooted.filter fun (_, root) => root = top).map (·.1)

end Partition

end Timetable
