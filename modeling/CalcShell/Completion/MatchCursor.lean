import CalcShell.Bytes

/-!
The position in a list of candidates while the user cycles through them. The word that they
complete stays fixed until an update brings another one.
-/
namespace CalcShell

structure MatchCursor where
  word : Bytes := []
  candidates : List Bytes := []
  /-- The candidate shown, once cycling has begun. -/
  index : Option Nat := none
deriving DecidableEq, Repr, Inhabited

namespace MatchCursor

def isActive (cursor : MatchCursor) : Bool := cursor.index.isSome

def reset (_ : MatchCursor) : MatchCursor := {}

def update (cursor : MatchCursor) (word : Bytes) (candidates : List Bytes) : MatchCursor :=
  if word = cursor.word then cursor else { word, candidates }

/-- The candidate shown; none before cycling has begun. -/
def current? (cursor : MatchCursor) : Option Bytes :=
  cursor.index.bind fun i => cursor.candidates[i]?

/-- Shows the candidate at `i`. -/
def select (cursor : MatchCursor) (i : Nat) : Bytes × MatchCursor :=
  (cursor.candidates[i]?.getD [], { cursor with index := some i })

/-- Goes on to the next candidate, from the last one to the first. -/
def next (cursor : MatchCursor) : Bytes × MatchCursor :=
  if cursor.candidates.isEmpty then ([], cursor)
  else match cursor.index with
    | none => cursor.select 0
    | some i => cursor.select ((i + 1) % cursor.candidates.length)

/-- Goes back to the candidate before, from the first one to the last. -/
def previous (cursor : MatchCursor) : Bytes × MatchCursor :=
  if cursor.candidates.isEmpty then ([], cursor)
  else match cursor.index with
    | none | some 0 => cursor.select (cursor.candidates.length - 1)
    | some (i + 1) => cursor.select i

end MatchCursor
end CalcShell
