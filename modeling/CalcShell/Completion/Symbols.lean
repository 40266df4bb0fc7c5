import CalcShell.Completion.Signature

/-!
What completion and argument hints learn about a text, and sources to learn it from.
-/
namespace CalcShell

/-- The names that a text may begin, and a description of the object that it names exactly. -/
structure SymbolInfo where
  candidates : List Bytes := []
  isCallable : Bool := false
  signature : Option Signature := none
  doc : Option Bytes := none
deriving DecidableEq, Repr, Inhabited

/-- Answers to look-ups; a look-up may fail. -/
abbrev SymbolSource := Bytes → Option SymbolInfo

/-- A source with a fixed list of names, some of which are described. -/
structure SymbolList where
  names : List Bytes := []
  described : List (Bytes × SymbolInfo) := []
  isFailing : Bool := false

namespace SymbolList

def source (list : SymbolList) : SymbolSource := fun text =>
  if list.isFailing then none
  else
    some { (list.described.lookup text).getD {} with
      candidates := list.names.filter text.isPrefixOf }

end SymbolList
end CalcShell
