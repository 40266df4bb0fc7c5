import CalcShell.Completion.Context
import CalcShell.Completion.MatchCursor
import CalcShell.Completion.Modules
import CalcShell.Completion.Paths
import CalcShell.Completion.Symbols
import CalcShell.Editing.Line

/-!
Completion of the line being edited. A refresh finds the word at the cursor and its candidates;
completing expands their common start once and then cycles through them.
-/
namespace CalcShell
namespace Completion

/-- A candidate as it is listed: the last part of a path, or of a dotted name. -/
def displayName (isPath : Bool) (candidate : Bytes) : Bytes :=
  if isPath then
    let isDirectory := candidate.getLast? == some (Ascii.code '/')
    let trimmed := if isDirectory then candidate.dropLast else candidate
    (splitDirectory trimmed).2 ++ if isDirectory then [Ascii.code '/'] else []
  else
    match candidate.cutLast? (Ascii.code '.') with
    | some (_, b :: rest) => b :: rest
    | _ => candidate

/-- The order in which candidates are listed: by displayed name, then length, then bytes. -/
def listedBefore (isPath : Bool) (a b : Bytes) : Bool :=
  let da := displayName isPath a
  let db := displayName isPath b
  if da = db then if a.length = b.length then a ≤ b else a.length < b.length else da < db

/-- Candidates in listing order, each of them once. -/
def canonical (isPath : Bool) (candidates : List Bytes) : List Bytes :=
  dedupe (candidates.mergeSort (listedBefore isPath))
where
  dedupe : List Bytes → List Bytes
    | a :: b :: rest => if a = b then dedupe (b :: rest) else a :: dedupe (b :: rest)
    | short => short

/-- The content of the string literal that is open at the cursor at the end of the line. -/
def currentString? (line : InputLine) : Option Bytes :=
  if line.atEnd then openString? line.before else none

/-- Where candidates come from. -/
structure Sources where
  symbols : SymbolSource
  modules : Option ModuleIndex := none
  files : FileTree := .empty
  env : Environment := .empty

/-- Everything the popup shows about the word at the cursor. -/
structure MatchSet where
  candidates : List Bytes := []
  word : Bytes := []
  signature : Option Signature := none
  doc : Option Bytes := none
  isPath : Bool := false
deriving Repr, Inhabited

namespace MatchSet

def isEmpty (set : MatchSet) : Bool := set.candidates.isEmpty && set.signature.isNone

def display (set : MatchSet) : List Bytes := set.candidates.map (displayName set.isPath)

end MatchSet

/-- What the popup is drawn from. -/
structure PopupContent where
  signature : Option Signature := none
  items : List Bytes := []
  selected : Option Nat := none
  doc : Option Bytes := none
deriving Repr, Inhabited

structure Engine where
  tabLength : Int := 4
  /-- Whether the signature of an open call is looked up. -/
  showsSignatures : Bool := true
  set : MatchSet := {}
  cursor : MatchCursor := {}
  /-- How many look-ups were made. -/
  lookups : Nat := 0
deriving Repr, Inhabited

namespace Engine

def clear (engine : Engine) : Engine := { engine with set := {}, cursor := engine.cursor.reset }

def hasContent (engine : Engine) : Bool := !engine.set.isEmpty

def popup? (engine : Engine) : Option PopupContent :=
  if engine.hasContent then
    some
      { signature := engine.set.signature, items := engine.set.display
        selected := engine.cursor.index, doc := engine.set.doc }
  else none

/-- The candidate being cycled, as it is listed. -/
def selectedDisplay? (engine : Engine) : Option Bytes :=
  engine.cursor.current?.map (displayName engine.set.isPath)

/-- A failing look-up only means that there is nothing to offer. -/
def ask (engine : Engine) (sources : Sources) (name : Bytes) : SymbolInfo × Engine :=
  ((sources.symbols name).getD {}, { engine with lookups := engine.lookups + 1 })

/-- The signature and documentation of the call that is open at the end of a text. -/
def hint? (engine : Engine) (sources : Sources) (text : Bytes) :
    Option (Signature × Option Bytes) × Engine :=
  match if engine.showsSignatures then callContext? text else none with
  | none => (none, engine)
  | some context =>
    let (info, engine) := engine.ask sources context.callee
    match info.isCallable, info.signature with
    | true, some signature =>
      let active :=
        if context.keyword.isEmpty then
          { signature with activeIndex := some (context.argIndex : Int) }
        else { signature with activeKeyword := context.keyword }
      (some (active, info.doc), engine)
    | _, _ => (none, engine)

/-- The modules, or the members of a package, that an import line may go on with. -/
def importCandidates (sources : Sources) (line : ImportLine) : Bytes × List Bytes :=
  let complete (start : Bytes) : List Bytes :=
    match sources.modules with
    | some index => index.complete start
    | none => []
  match line with
  | .module word => (word, if word.isEmpty then [] else complete word)
  | .member package word =>
    let owner := package ++ [Ascii.code '.']
    let members := (complete (owner ++ word)).map (·.drop owner.length)
    (word, if word.isEmpty then [] else members.filter (!·.contains (Ascii.code '.')))

/-- Takes over a set of matches. The position in the candidates is kept as long as the user is cycling
and the word is still the same. -/
def adopt (engine : Engine) (set : MatchSet) : Engine :=
  let candidates := canonical set.isPath set.candidates
  let cursor :=
    if set.word.isEmpty || candidates.isEmpty then engine.cursor.reset
    else if engine.cursor.isActive && engine.cursor.word == set.word then engine.cursor
    else engine.cursor.reset.update set.word candidates
  { engine with set := { set with candidates }, cursor }

/-- The set of matches for a line: files in an open string, modules on an import line, names
everywhere else. -/
def matchesFor (engine : Engine) (sources : Sources) (line : InputLine) : MatchSet × Engine :=
  let (hint, engine) := engine.hint? sources line.before
  let signature := hint.map (·.1)
  let hintDoc := hint.bind (·.2)
  let found (word : Bytes) (candidates : List Bytes) (isPath : Bool) : MatchSet :=
    { candidates, word, signature, doc := hintDoc, isPath }
  match currentString? line with
  | some path => (found path (paths sources.files sources.env path) true, engine)
  | none =>
    match if line.atEnd then importLine? line.before else none with
    | some importLine =>
      let (word, candidates) := importCandidates sources importLine
      (found word candidates false, engine)
    | none =>
      match line.currentWord? with
      | some word =>
        let (info, engine) := engine.ask sources word
        ({ found word info.candidates false with doc := hintDoc <|> info.doc }, engine)
      | none => (found [] [] false, engine)

def refresh (engine : Engine) (sources : Sources) (line : InputLine) : Engine :=
  let (set, engine) := engine.matchesFor sources line
  engine.adopt set

/-- Inserts spaces up to the next tab stop if there is only white space left of the cursor. -/
def indent? (engine : Engine) (line : InputLine) : Option (InputLine × Engine) :=
  if line.before.isBlank then
    let tab := if 0 < engine.tabLength then engine.tabLength.toNat else 4
    some (line.insert (Bytes.spaces (tab - line.index % tab)), engine.clear)
  else none

/-- Takes a shown candidate back to the word that it completes. -/
def takeBack (cursor : MatchCursor) (word : Bytes) (line : InputLine) : InputLine :=
  match cursor.current? with
  | some shown =>
    if shown.isSuffixOf line.text then
      line.set (line.text.take (line.text.length - shown.length) ++ word)
    else line
  | none => line

/-- Expands the word to the common start of its candidates, or shows the next candidate. -/
def expand (engine : Engine) (line : InputLine) (word : Bytes) (back : Bool) :
    InputLine × Engine :=
  let candidates := engine.cursor.candidates
  let start := commonStart candidates
  if word.length < start.length && word.isPrefixOf start then
    (line.insert (start.drop word.length),
      { engine with
        set := { engine.set with word := start }
        cursor := engine.cursor.reset.update start candidates })
  else
    let line := takeBack engine.cursor word line
    let (shown, cursor) := if back then engine.cursor.previous else engine.cursor.next
    (if word.isPrefixOf shown then line.insert (shown.drop word.length) else line,
      { engine with cursor })

/-- Completes the word at the cursor, forwards or backwards through its candidates; on a blank line it
indents. Tells whether there was anything to do. -/
def complete (engine : Engine) (sources : Sources) (line : InputLine) (back : Bool) :
    Bool × InputLine × Engine :=
  if line.before.isBlank then
    match if back then none else engine.indent? line with
    | some (line, engine) => (true, line, engine)
    | none => (false, line, engine)
  else if engine.cursor.isActive then (true, engine.expand line engine.cursor.word back)
  else
    let engine := engine.refresh sources line
    if engine.set.word.isEmpty || engine.set.candidates.isEmpty then (false, line, engine)
    else (true, engine.expand line engine.set.word back)

end Engine
end Completion
end CalcShell
