import CalcShell.Environment
import CalcShell.Files.Tree

/-!
Completion of file names. The typed directory part stays in front of every suggestion; hidden files
are offered only where a dot was typed.
-/
namespace CalcShell
namespace Completion

/-- The start that all texts share. -/
def commonStart : List Bytes → Bytes
  | [] => []
  | first :: rest => rest.foldl shared first
where
  shared : Bytes → Bytes → Bytes
    | a :: as, b :: bs => if a = b then a :: shared as bs else []
    | _, _ => []

/-- A directory that begins with the sign of the home directory, with that directory in its
place. -/
def expandHome (env : Environment) (directory : Bytes) : Bytes :=
  match directory, env.home? with
  | 0x7E :: 0x2F :: rest, some (b :: home) => b :: home ++ [Ascii.code '/'] ++ rest
  | _, _ => directory

/-- The directory part of a path, with its slash, and the rest. -/
def splitDirectory (path : Bytes) : Bytes × Bytes :=
  match path.cutLast? (Ascii.code '/') with
  | some (directory, name) => (directory ++ [Ascii.code '/'], name)
  | none => ([], path)

def isHidden (name : Bytes) : Bool := name.head? = some (Ascii.code '.')

/-- The files that a partly typed path may mean, in byte order, directories with a slash. -/
def paths (files : FileTree) (env : Environment) (typed : Bytes) : List Bytes :=
  let (directory, start) := splitDirectory typed
  let target := if directory.isEmpty then bytes "." else expandHome env directory
  if files.isDirectory target then
    let names := (files.children ((files.resolve? target).getD [])).filter fun (name, _) =>
      start.isPrefixOf name && (!isHidden name || isHidden start)
    let suggestions := names.map fun (name, node) =>
      directory ++ name ++ if node = .directory then [Ascii.code '/'] else []
    suggestions.mergeSort fun a b => decide (a ≤ b)
  else []

end Completion
end CalcShell
