import CommandForest.Forest

/-!
# CommandForest.Branch

A command together with everything below it, unfolded from a forest. Walks through a subtree
(dispatch, completion, help, outlines) recurse on branches, so each of them ends because a branch is
finite.
-/

namespace CommandForest

/-- A command, its number, and the branches of its children. -/
inductive Branch
  | mk (id : CommandId) (command : Command) (children : List Branch)

namespace Branch

/-- The number of the command at the top. -/
def id : Branch → CommandId
  | mk id _ _ => id

/-- The command at the top. -/
def command : Branch → Command
  | mk _ c _ => c

/-- The branches below the top. -/
def children : Branch → List Branch
  | mk _ _ bs => bs

mutual

/-- The numbers in a branch, depth first. -/
def ids : Branch → List CommandId
  | mk id _ bs => id :: idsOfAll bs

/-- The numbers in several branches, one branch after the other. -/
def idsOfAll : List Branch → List CommandId
  | [] => []
  | b :: bs => b.ids ++ idsOfAll bs

end

end Branch

namespace Forest

/-- Unfolds a command down to `fuel` levels. -/
def unfold (f : Forest) : Nat → CommandId → Option Branch
  | 0, _ => none
  | fuel + 1, id =>
    (f.find? id).map fun c => .mk id c (c.children.filterMap (f.unfold fuel))

/-- The branch of a command. No branch has more levels than the forest has commands. -/
def branch? (f : Forest) (id : CommandId) : Option Branch := f.unfold f.size id

/-- The branches of all roots. -/
def branches (f : Forest) : List Branch := f.roots.filterMap f.branch?

end Forest

end CommandForest
