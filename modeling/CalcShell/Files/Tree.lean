import CalcShell.Text.Table

/-!
The files that the shell reads and writes: a tree with a root and a working directory, with paths as
the system resolves them. A path begins at the root if a slash is in front of it, and in the working
directory if none is.
-/
namespace CalcShell

inductive FileNode where
  | file (content : Bytes)
  | directory
deriving DecidableEq, Repr

/-- The components of a path from the root down, without dots. -/
abbrev Location := List Bytes

structure FileTree where
  nodes : List (Location × FileNode)
  /-- The working directory. -/
  working : Location
deriving Repr

namespace FileTree

/-- Nothing but a working directory. -/
def empty : FileTree := { nodes := [([bytes "work"], .directory)], working := [bytes "work"] }

instance : Inhabited FileTree := ⟨empty⟩

/-- The root always exists. -/
def get? (tree : FileTree) (place : Location) : Option FileNode :=
  if place.isEmpty then some .directory else tree.nodes.lookup place

def put (tree : FileTree) (place : Location) (node : FileNode) : FileTree :=
  { tree with nodes := (place, node) :: tree.nodes.filter (·.1 != place) }

/-- The longest name that a directory entry can have. -/
def maxName : Nat := 255

/-- The longest path that the system follows. -/
def maxPath : Nat := 4095

/-- One step of a path from a directory. Above the root is the root itself. -/
def enter? (tree : FileTree) (place : Location) (component : Bytes) : Option Location :=
  if tree.get? place != some .directory then none
  else if component.isEmpty || component == bytes "." then some place
  else if component == bytes ".." then some place.dropLast
  else if maxName < component.length then none
  else some (place ++ [component])

/-- Where a path begins. -/
def start (tree : FileTree) (path : Bytes) : Location :=
  if path.head? = some (Ascii.code '/') then [] else tree.working

/-- The place that a path names, whether or not something is there. A path ends at its first NUL
byte. -/
def resolve? (tree : FileTree) (path : Bytes) : Option Location :=
  let path := path.untilNul
  if path.isEmpty || maxPath < path.length then none
  else (path.splitOn (Ascii.code '/')).foldlM tree.enter? (tree.start path)

def node? (tree : FileTree) (path : Bytes) : Option FileNode :=
  (tree.resolve? path).bind tree.get?

def isDirectory (tree : FileTree) (path : Bytes) : Bool := tree.node? path == some .directory

/-- The content of the file at a path. -/
def read? (tree : FileTree) (path : Bytes) : Option Bytes :=
  match tree.node? path with
  | some (.file content) => some content
  | _ => none

/-- Creates or replaces the file at a path; its directory has to exist. -/
def write? (tree : FileTree) (path content : Bytes) : Option FileTree := do
  let place ← tree.resolve? path
  if tree.get? place.dropLast != some .directory then none
  else if tree.get? place = some .directory then none
  else some (tree.put place (.file content))

/-- The entries directly inside a directory. -/
def children (tree : FileTree) (place : Location) : List (Bytes × FileNode) :=
  tree.nodes.filterMap fun (location, node) =>
    match location.getLast? with
    | some name => if location.dropLast = place then some (name, node) else none
    | none => none

/-- What lies below a directory at any depth, in the order of the places. -/
def below (tree : FileTree) (place : Location) : List (Location × FileNode) :=
  let inside := tree.nodes.filterMap fun (location, node) =>
    if place.isPrefixOf location && location != place then
      some (location.drop place.length, node)
    else none
  inside.mergeSort fun a b => decide (a.1 ≤ b.1)

/-- Makes a directory and the ones that it lies in. -/
def makeDirectory (tree : FileTree) (place : Location) : FileTree :=
  (List.range place.length).foldl (fun tree n => tree.put (place.take (n + 1)) .directory) tree

/-- Adds a file, or a directory for a path that ends in a slash, with all missing parents. -/
def add (tree : FileTree) (path content : Bytes) : FileTree :=
  let place := tree.start path ++ (path.splitOn (Ascii.code '/')).filter fun part =>
    !part.isEmpty && part != bytes "."
  if path.getLast? = some (Ascii.code '/') then tree.makeDirectory place
  else (tree.makeDirectory place.dropLast).put place (.file content)

end FileTree

end CalcShell
