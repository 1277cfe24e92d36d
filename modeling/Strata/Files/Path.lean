/-!
# Paths

A path names a file by steps from directory to directory. Two spellings name the same path if they
have the same steps: slashes may be doubled or come last, and a dot between two steps means nothing.

* `pathSteps`: the steps of a path;
* `comparePaths`: the order of paths, step by step;
* `pathExtension?`: what follows the last dot of a file's name.
-/

namespace Strata

inductive PathStep where
  /-- To the root of all directories. -/
  | root
  /-- Nowhere. Only a path that starts with a dot has this step. -/
  | here
  /-- To the directory above. -/
  | up
  /-- To an entry of the directory. -/
  | name (name : String)
deriving DecidableEq, Repr

namespace PathStep

/-- The place of a kind of step in the order of steps. -/
def rank : PathStep → Nat
  | root => 0
  | here => 1
  | up => 2
  | name _ => 3

/-- Steps are ordered by kind, then by name. -/
def order : PathStep → PathStep → Ordering
  | name a, name b => compareOfLessAndEq a b
  | a, b => compare a.rank b.rank

/-- The step that a part of a path between slashes stands for. -/
def ofPart (part : String) : PathStep := if part = ".." then up else name part

end PathStep

/-- The parts of a path between its slashes. -/
def pathParts (path : String) : List String := (path.splitOn "/").filter (· ≠ "")

def pathSteps (path : String) : List PathStep :=
  let parts := pathParts path
  let absolute := path.startsWith "/"
  let first : List PathStep :=
    if absolute then [.root]
    else if parts.head? = some "." then [.here]
    else []
  first ++ (parts.filter (· ≠ ".")).map PathStep.ofPart

/-- The order of lists of steps. -/
def compareSteps : List PathStep → List PathStep → Ordering
  | [], [] => .eq
  | [], _ => .lt
  | _, [] => .gt
  | a :: as, b :: bs => (a.order b).then (compareSteps as bs)

def comparePaths (a b : String) : Ordering := compareSteps (pathSteps a) (pathSteps b)

/-- The name of the file or directory that a path leads to. -/
def fileName? (path : String) : Option String :=
  match (pathSteps path).getLast? with
  | some (.name name) => some name
  | _ => none

/-- What follows the last dot of a file's name. A dot that comes first is a part of the name. -/
def pathExtension? (path : String) : Option String := do
  let name ← fileName? path
  let reversed := name.toList.reverse
  let ext := reversed.takeWhile (· ≠ '.')
  let stem := (reversed.dropWhile (· ≠ '.')).drop 1
  if stem = [] then none else some (String.ofList ext.reverse)

def joinPath (dir entry : String) : String :=
  if dir = "" ∨ dir.endsWith "/" then dir ++ entry else dir ++ "/" ++ entry

end Strata
