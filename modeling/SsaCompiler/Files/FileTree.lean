import SsaCompiler.Files.Access
import SsaCompiler.Files.Path
import SsaCompiler.Table

/-!
# File trees

Files and directories as a value. A place is the list of the names that lead to it from the
directory that paths start in, the last one first. Paths may leave that directory; the directories
above it are always there.
-/

namespace SsaCompiler

abbrev Place := List String

structure FileTree where
  files : Table Place String
  /-- The directories, apart from the one that paths start in and those above it. -/
  directories : List Place
deriving Repr

namespace FileTree

def empty : FileTree := ⟨.empty, []⟩

def root : String := "/"

def isDirectory (tree : FileTree) (place : Place) : Bool :=
  place.all (fun name => name = ".." || name = root) || tree.directories.contains place

def above : Place → Place
  | [] => [".."]
  | ".." :: rest => ".." :: ".." :: rest
  | ["/"] => ["/"]
  | _ :: rest => rest

def enter? (tree : FileTree) : Place → List String → Option Place
  | place, [] => some place
  | place, segment :: rest =>
    if Path.isVoid segment then enter? tree place rest
    else if segment = ".." then enter? tree (above place) rest
    else if tree.isDirectory (segment :: place) then enter? tree (segment :: place) rest
    else none

def origin (path : String) : Place := if Path.isAbsolute path then [root] else []

/-- The place of a file. A path that ends in a slash or in dots leads to a directory. -/
def locate? (tree : FileTree) (path : String) : Option Place :=
  match (path.splitOn "/").reverse with
  | [] => none
  | last :: init =>
    if Path.isVoid last || last = ".." || !Path.isName last || !Path.isUsable path then none
    else (tree.enter? (origin path) init.reverse).map (last :: ·)

def read? (tree : FileTree) (path : String) : Option String := do
  let place ← tree.locate? path
  tree.files.get? place

/-- Makes the directories that segments lead through; there may be no file in the way. -/
def createAlong? (tree : FileTree) : Place → List String → Option FileTree
  | _, [] => some tree
  | place, segment :: rest =>
    if Path.isVoid segment then createAlong? tree place rest
    else if segment = ".." then createAlong? tree (above place) rest
    else
      let place := segment :: place
      if tree.files.contains place || !Path.isName segment then none
      else if tree.isDirectory place then createAlong? tree place rest
      else createAlong? { tree with directories := place :: tree.directories } place rest

def createDirectories? (tree : FileTree) (path : String) : Option FileTree :=
  if Path.isUsable path then tree.createAlong? (origin path) (path.splitOn "/") else none

/-- Sets the text of a file in a directory that is there. -/
def write? (tree : FileTree) (path text : String) : Option FileTree := do
  let place ← tree.locate? path
  if tree.isDirectory place then none else some { tree with files := tree.files.insert place text }

/-- Sets the text of a file and makes the directories it lies in. -/
def place? (tree : FileTree) (path text : String) : Option FileTree := do
  let tree ← match Path.parent? path with
    | some directory => tree.createDirectories? directory
    | none => some tree
  tree.write? path text

/-- Changes the tree if there is something to change it to; tells whether there is. -/
def attempt (change : FileTree → Option FileTree) : StateM FileTree Bool := fun tree =>
  match change tree with
  | some tree => (true, tree)
  | none => (false, tree)

def access : FileAccess (StateM FileTree) where
  read path := return (← get).read? path
  isFile path := return ((← get).read? path).isSome
  createDirectories path := attempt (·.createDirectories? path)
  write path text := attempt (·.write? path text)

end FileTree

end SsaCompiler
