import CalcShell.Text.Table

/-!
Environment variables.
-/
namespace CalcShell

/-- The values of the variables by name. A name is not empty and holds no equals sign. -/
abbrev Environment := Table Bytes

namespace Environment

def isName (name : Bytes) : Bool := !name.isEmpty && !name.contains (Ascii.code '=')

/-- Variables from names and values. A name that is none is left out. -/
def ofPairs (pairs : List (Bytes × Bytes)) : Environment :=
  .ofList <| (pairs.map fun (name, value) => (name.untilNul, value.untilNul)).filter (isName ·.1)

/-- What stands behind a name and an equals sign in the environment. The equals sign may be one of
the value's: with the value `b=c` of the variable `a`, the name `a=b` leads to `c`. -/
def get? (env : Environment) (name : Bytes) : Option Bytes :=
  match name.untilNul.cutFirst? (Ascii.code '=') with
  | none => env.find? name.untilNul
  | some (owner, start) =>
    match env.find? owner with
    | some value =>
      if (start ++ [Ascii.code '=']).isPrefixOf value then some (value.drop (start.length + 1))
      else none
    | none => none

def home? (env : Environment) : Option Bytes := env.get? (bytes "HOME")

end Environment
end CalcShell
