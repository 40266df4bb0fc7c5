import CalcShell.Files.Tree

/-!
An index of the module names below a list of root directories. It is filled in steps that visit a
bounded number of directory entries, so that stepping it never keeps the user waiting.
-/
namespace CalcShell

structure ModuleIndex where
  suffixes : List Bytes
  budget : Nat
  /-- Roots that are still to be opened. -/
  roots : List Bytes
  /-- Entries below the open root that are still to be visited, with the places of those that are
  files. -/
  pending : List (Option Location) := []
  isDone : Bool := false
  names : Table Unit := .empty

namespace ModuleIndex

/-- A step visits at least one entry. -/
def new (roots suffixes : List Bytes) (budget : Nat) : ModuleIndex :=
  { roots, suffixes, budget := max 1 budget, isDone := roots.isEmpty }

/-- A file name without its extension, and the extension. A dot at the front begins no
extension. -/
def splitExtension (name : Bytes) : Bytes × Bytes :=
  match name.cutLast? (Ascii.code '.') with
  | some (b :: stem, extension) => (b :: stem, Ascii.code '.' :: extension)
  | _ => (name, [])

/-- The dotted name of a module file at a place below its root. Packages are named by their
directory, and no part of a name can hold a dot or a dash. -/
def moduleName? (suffixes : List Bytes) (place : Location) : Option Bytes := do
  let (stem, extension) := splitExtension (← place.getLast?)
  guard (suffixes.contains extension)
  let parts := (place.dropLast ++ [stem]).filter (· != bytes "__init__")
  guard (parts.all fun part => !part.contains (Ascii.code '.') && !part.contains (Ascii.code '-'))
  guard (!parts.isEmpty)
  some ([Ascii.code '.'].intercalate parts)

def consider (suffixes : List Bytes) (names : Table Unit) (entry : Option Location) : Table Unit :=
  match entry.bind (moduleName? suffixes) with
  | some name => names.insert name ()
  | none => names

/-- The path to a place below a root. A root with a slash at its end needs no other. -/
def pathBelow (root : Bytes) (place : Location) : Bytes :=
  let below := [Ascii.code '/'].intercalate place
  if root.getLast? = some (Ascii.code '/') then root ++ below else root ++ Ascii.code '/' :: below

/-- What lies below a root; a root that cannot be opened has nothing below it. Only a file that its
whole path leads to counts as one. -/
def entries (files : FileTree) (root : Bytes) : List (Option Location) :=
  if files.isDirectory root then
    (files.below ((files.resolve? root).getD [])).map fun (place, _) =>
      if (files.read? (pathBelow root place)).isSome then some place else none
  else []

/-- Visits up to `budget` entries and tells how many of them were left over. -/
def visit (files : FileTree) (index : ModuleIndex) : Nat → Nat × ModuleIndex
  | 0 => (0, index)
  | budget + 1 =>
    match _p : index.pending, _r : index.roots with
    | entry :: pending, _ =>
      visit files
        { index with pending, names := consider index.suffixes index.names entry } budget
    | [], root :: roots =>
      visit files { index with roots, pending := entries files root } (budget + 1)
    | [], [] => (budget + 1, { index with isDone := true })
termination_by budget => (budget, index.roots.length)
decreasing_by
  · exact Prod.Lex.left _ _ (Nat.lt_succ_self _)
  · refine Prod.Lex.right _ ?_
    simp [_r]

/-- One step; also tells how many entries it visited. -/
def step (index : ModuleIndex) (files : FileTree) : Nat × ModuleIndex :=
  if index.isDone then (0, index)
  else
    let (left, index') := visit files index index.budget
    (index.budget - left, index')

/-- Steps until the index is done; every step but the last visits an entry. -/
def finish (index : ModuleIndex) (files : FileTree) : Nat × ModuleIndex :=
  let total := index.pending.length + (index.roots.flatMap (entries files)).length
  go (total + 1) 0 index
where
  go : Nat → Nat → ModuleIndex → Nat × ModuleIndex
    | 0, visited, index => (visited, index)
    | fuel + 1, visited, index =>
      if index.isDone then (visited, index)
      else
        let (n, index') := index.step files
        go fuel (visited + n) index'

/-- The known names that begin with a text, in byte order. -/
def complete (index : ModuleIndex) (start : Bytes) : List Bytes :=
  index.names.keys.filter start.isPrefixOf

def size (index : ModuleIndex) : Nat := index.names.entries.length

end ModuleIndex
end CalcShell
