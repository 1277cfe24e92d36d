import Strata.Files.Path

/-!
# Trees of files

What a program can see of a disk: at a path there is a file or a directory, or a reason why there is
nothing. A `Node` is a file or a directory with everything below it.

* `Node.follow`: what a path leads to, step by step;
* `Node.put`: the tree with something put at a path;
* `Node.disk`: a tree as a disk;
* `Disk.ofSnapshots`: a disk of which only some trees are known.
-/

namespace Strata

/-- A file with its bytes, or a directory with its entries in ascending order of their names. -/
inductive Node where
  | file (content : ByteArray)
  | directory (entries : List (String × Node))

/-- Why nothing can be had from a path. -/
inductive DiskError where
  | missing
  | denied
  /-- A step leads on from a file. -/
  | notADirectory
  /-- A directory cannot be read like a file. -/
  | isADirectory
  /-- A name or the whole path is too long. -/
  | tooLong
  /-- The path has a character that no path can have. -/
  | nullCharacter
deriving DecidableEq, Repr

def DiskError.message : DiskError → String
  | missing => "No such file or directory (os error 2)"
  | denied => "Permission denied (os error 13)"
  | notADirectory => "Not a directory (os error 20)"
  | isADirectory => "Is a directory (os error 21)"
  | tooLong => "File name too long (os error 36)"
  | nullCharacter => "file name contained an unexpected NUL byte"

/-- What a path leads to, or why it leads nowhere. -/
abbrev Disk := String → Except DiskError Node

namespace Node

def empty : Node := .directory []

def isFile : Node → Bool
  | file _ => true
  | directory _ => false

def isDirectory (n : Node) : Bool := !n.isFile

/-- What the parts of a path lead to from `here`, where `above` holds the directories around it, the
nearest first. Around the outermost directory nothing is known. -/
def follow (above : List Node) (here : Node) : List String → Except DiskError Node
  | [] => .ok here
  | part :: parts =>
    match here with
    | file _ => .error .notADirectory
    | directory entries =>
      if part = "" ∨ part = "." then
        follow above here parts
      else if part = ".." then
        match above with
        | [] => follow [] empty parts
        | parent :: above => follow above parent parts
      else if 255 < part.utf8ByteSize then
        .error .tooLong
      else
        match List.lookup part entries with
        | some entry => follow (here :: above) entry parts
        | none => .error .missing

/-- What a path leads to from a directory. Of the directories outside nothing is known. -/
def disk (root : Node) : Disk := fun path =>
  if path = "" then .error .missing
  else if path.contains '\x00' then .error .nullCharacter
  else if 4096 ≤ path.utf8ByteSize then .error .tooLong
  else if path.startsWith "/" then follow [] empty (path.splitOn "/")
  else follow [] root (path.splitOn "/")

/-- Sets the entry of a name to what `f` makes of the one there was. -/
def update (name : String) (f : Option Node → Node) : List (String × Node) → List (String × Node)
  | [] => [(name, f none)]
  | (n, node) :: rest =>
    if name < n then (name, f none) :: (n, node) :: rest
    else if name = n then (n, f (some node)) :: rest
    else (n, node) :: update name f rest

/-- The entries of a directory. A file has none. -/
def entries : Node → List (String × Node)
  | file _ => []
  | directory entries => entries

/-- What is at a path after `leaf` has been put there. The directories on the way are made. A
directory that is put where one is leaves it as it is. -/
def put (leaf : Node) : List String → Option Node → Node
  | [], old =>
    match leaf, old with
    | directory [], some (directory entries) => .directory entries
    | _, _ => leaf
  | part :: parts, old => .directory (update part (put leaf parts) ((old.map entries).getD []))

/-- The tree with something put at a path that goes on from a directory, of which `here` holds the
steps, the last one first. Directories that the path leaves again are made as well. What would lie
outside of the tree is not put anywhere. -/
def putFrom (leaf : Node) (root : Node) (here : List String) : List String → Node
  | [] => put leaf here.reverse (some root)
  | part :: parts =>
    if part = ".." then
      match here with
      | [] => root
      | _ :: above => putFrom leaf (put empty here.reverse (some root)) above parts
    else
      putFrom leaf root (part :: here) parts

def putAt (root : Node) (path : String) (leaf : Node) : Node :=
  putFrom leaf root [] ((pathParts path).filter (· ≠ "."))

end Node

namespace Disk

def isFile (disk : Disk) (path : String) : Bool :=
  match disk path with
  | .ok node => node.isFile
  | .error _ => false

def isDirectory (disk : Disk) (path : String) : Bool :=
  match disk path with
  | .ok node => node.isDirectory
  | .error _ => false

/-- The disk of which only some things are known: what is at each of some paths, and what is below
the directories among them. -/
def ofSnapshots (snapshots : List (String × Except DiskError Node)) : Disk := fun path =>
  let below? := snapshots.findSome? fun (top, found) =>
    if path = top then
      some found
    else
      let inside := joinPath top ""
      if path.startsWith inside then
        let parts := (path.drop inside.length).toString.splitOn "/"
        some (found.bind fun node => node.follow [] parts)
      else
        none
  below?.getD (.error .missing)

/-- The bytes of the file that a path leads to. -/
def read (disk : Disk) (path : String) : Except DiskError ByteArray :=
  match disk path with
  | .ok (.file content) => .ok content
  | .ok (.directory _) => .error .isADirectory
  | .error e => .error e

end Disk

end Strata
