import CalcShell.Proofs.Completion.Encoding
import Mathlib.Data.List.Induction

/-! The candidate that the popup marks. The cursor cycles through the list that it was given when the
cycling began, while every refresh lists anew what the sources offer by then. -/
namespace CalcShell

namespace MatchCursor

variable {cursor : MatchCursor}

/-- Going on only moves the position, and not out of the list. -/
lemma next_or_previous_cases (inside : cursor.IsInside) (back : Bool) :
    ∃ index, (if back then cursor.previous else cursor.next).2 = { cursor with index } ∧
      { cursor with index }.IsInside := by
  by_cases none : cursor.candidates = []
  · refine ⟨cursor.index, ?_, inside⟩
    have empty : cursor.candidates.isEmpty = true := List.isEmpty_iff.2 none
    unfold previous next
    rw [empty]
    cases back <;> rfl
  · rw [next_or_previous none inside]
    exact ⟨_, rfl, isInside_select (turn_lt none back)⟩

end MatchCursor

namespace Completion

/-- What a refresh lists for a line. -/
def listed (sources : Sources) (line : InputLine) : List Bytes :=
  canonical (currentString? line).isSome (offered sources line).2

namespace Engine

variable {engine : Engine} {sources : Sources} {line : InputLine}

lemma candidates_refresh_eq_listed (engine : Engine) (sources : Sources) (line : InputLine) :
    (engine.refresh sources line).set.candidates = listed sources line := by
  rw [candidates_refresh, isPath_refresh, listed]

/-- What is sorted already and has no repetitions is listed as it is. -/
lemma listed_eq_of_sorted {candidates : List Bytes} (offers : (offered sources line).2 = candidates)
    (sorted : candidates.Pairwise fun a b => listedBefore (currentString? line).isSome a b = true)
    (single : canonical.dedupe candidates = candidates) : listed sources line = candidates := by
  rw [listed, offers, canonical, List.mergeSort_of_pairwise sorted, single]

/-! ### Calls -/

/-- One use of an engine. Between two of them the line may be edited and the sources may change. -/
inductive Call where
  | configure (tabLength : Int) (showsSignatures : Bool)
  | refresh (sources : Sources) (line : InputLine)
  | complete (sources : Sources) (line : InputLine) (back : Bool)
  | indent (line : InputLine)
  | clear

def perform (engine : Engine) : Call → Engine
  | .configure tabLength showsSignatures => { engine with tabLength, showsSignatures }
  | .refresh sources line => engine.refresh sources line
  | .complete sources line back => (engine.complete sources line back).2.2
  | .indent line => ((engine.indent? line).map (·.2)).getD engine
  | .clear => engine.clear

def run (calls : List Call) (engine : Engine) : Engine := calls.foldl perform engine

lemma run_snoc (calls : List Call) (call : Call) (engine : Engine) :
    run (calls ++ [call]) engine = (run calls engine).perform call := by
  rw [run, List.foldl_append]
  rfl

/-! ### One call -/

/-- Where the candidates agree on no more than the word, the cursor goes on. -/
lemma cursor_expand {word : Bytes} (stays : ¬Expands word engine.cursor.candidates)
    (line : InputLine) (back : Bool) :
    (engine.expand line word back).2.cursor =
      (if back then engine.cursor.previous else engine.cursor.next).2 := by
  unfold expand
  dsimp only
  rw [if_neg (mt (expands_iff _ _).1 stays)]

/-- A cursor that is active after an expansion has moved within its list. -/
lemma expand_cases (inside : engine.cursor.IsInside) (line : InputLine) (word : Bytes) (back : Bool) :
    (engine.expand line word back).2.cursor.isActive = false ∨
      ∃ index, (engine.expand line word back).2.cursor = { engine.cursor with index } ∧
        { engine.cursor with index }.IsInside := by
  by_cases expands : Expands word engine.cursor.candidates
  · left
    rw [expand_of_expands expands]
    exact isActive_update _ _ _
  · right
    rw [cursor_expand expands]
    exact MatchCursor.next_or_previous_cases inside back

/-- A cursor that is active after a completion has moved within its list, or begins with the list of
that completion. -/
lemma complete_cases (inside : engine.cursor.IsInside) (back : Bool)
    (active : (engine.complete sources line back).2.2.cursor.isActive = true) :
    (engine.complete sources line back).2.2.cursor.IsInside ∧
      ∃ index, (engine.complete sources line back).2.2.cursor =
        if engine.cursor.isActive then { engine.cursor with index }
        else { word := (offered sources line).1, candidates := listed sources line, index } := by
  cases blank : line.before.isBlank with
  | true =>
    rcases complete_of_isBlank blank back with same | ⟨n, indented⟩
    · rw [same] at active ⊢
      exact ⟨inside, engine.cursor.index, by rw [active, if_pos rfl]⟩
    · rw [indented] at active
      cases active
  | false =>
    cases begun : engine.cursor.isActive with
    | true =>
      rw [complete_of_active blank begun] at active ⊢
      rcases expand_cases inside line engine.cursor.word back with ended | ⟨index, moved, within⟩
      · simp [ended] at active
      · rw [moved]
        exact ⟨within, index, (if_pos rfl).symm⟩
    | false =>
      by_cases nothing : (engine.refresh sources line).set.word = [] ∨
          (engine.refresh sources line).set.candidates = []
      · rw [complete_of_nothing blank begun nothing] at active
        rcases refresh_cases engine sources line with ended | ⟨kept, -⟩
        · simp [ended] at active
        · simp [kept, begun] at active
      · obtain ⟨typed, some⟩ := not_or.1 nothing
        have ready := cursor_refresh begun typed some
        rw [word_refresh, candidates_refresh_eq_listed] at ready
        rw [complete_of_inactive blank begun typed some] at active ⊢
        have fresh : (engine.refresh sources line).cursor.IsInside :=
          MatchCursor.isInside_of_inactive (by rw [ready]; rfl)
        rcases expand_cases fresh line (engine.refresh sources line).set.word back with
          ended | ⟨index, moved, within⟩
        · simp [ended] at active
        · rw [moved]
          exact ⟨within, index, by rw [ready, if_neg Bool.false_ne_true]⟩

/-- Only a completion begins to cycle, and with the list of its own refresh. All other calls, and the
completions that follow, leave the list of an active cursor alone. -/
lemma perform_cases (inside : engine.cursor.IsInside) (call : Call)
    (active : (engine.perform call).cursor.isActive = true) :
    (engine.perform call).cursor.IsInside ∧
      ((engine.cursor.isActive = true ∧
          ∃ index, (engine.perform call).cursor = { engine.cursor with index }) ∨
        engine.cursor.isActive = false ∧ ∃ sources line back index,
          call = .complete sources line back ∧ (engine.perform call).cursor =
            { word := (offered sources line).1, candidates := listed sources line, index }) := by
  cases call with
  | configure tabLength showsSignatures => exact ⟨inside, .inl ⟨active, _, rfl⟩⟩
  | refresh sources line =>
    rcases refresh_cases engine sources line with ended | ⟨kept, -⟩
    · simp [perform, ended] at active
    · rw [perform, kept] at active ⊢
      exact ⟨inside, .inl ⟨active, _, rfl⟩⟩
  | complete sources line back =>
    obtain ⟨within, index, moved⟩ := complete_cases inside back active
    refine ⟨within, ?_⟩
    cases begun : engine.cursor.isActive with
    | true =>
      rw [begun, if_pos rfl] at moved
      exact .inl ⟨rfl, index, moved⟩
    | false =>
      rw [begun, if_neg Bool.false_ne_true] at moved
      exact .inr ⟨rfl, sources, line, back, index, rfl, moved⟩
  | indent line =>
    rw [perform, indent?] at active ⊢
    split at active
    · cases active
    · rw [if_neg ‹_›]
      exact ⟨inside, .inl ⟨active, _, rfl⟩⟩
  | clear => cases active

/-! ### Runs -/

lemma isInside_run (inside : engine.cursor.IsInside) (calls : List Call) :
    (run calls engine).cursor.IsInside := by
  induction calls using List.reverseRecOn with
  | nil => exact inside
  | append_singleton calls call ih =>
    rw [run_snoc]
    cases active : ((run calls engine).perform call).cursor.isActive with
    | false => exact MatchCursor.isInside_of_inactive active
    | true => exact (perform_cases ih call active).1

/-- A completion within some calls at which the cursor began to cycle. It has cycled ever since. -/
def Began (engine : Engine) (calls : List Call) (sources : Sources) (line : InputLine) : Prop :=
  ∃ before back after, calls = before ++ .complete sources line back :: after ∧
    (run before engine).cursor.isActive = false ∧
    ∀ part, part <+: after →
      (run (before ++ .complete sources line back :: part) engine).cursor.isActive = true

lemma Began.snoc {calls : List Call} {call : Call} (began : Began engine calls sources line)
    (active : (run (calls ++ [call]) engine).cursor.isActive = true) :
    Began engine (calls ++ [call]) sources line := by
  obtain ⟨before, back, after, rfl, idle, since⟩ := began
  refine ⟨before, back, after ++ [call], by simp, idle, fun part isPart => ?_⟩
  rcases List.prefix_concat_iff.1 isPart with rfl | earlier
  · simpa using active
  · exact since part earlier

/-- As long as it cycles, the cursor has the list of the completion at which it began. -/
lemma exists_began (inactive : engine.cursor.isActive = false) (calls : List Call)
    (active : (run calls engine).cursor.isActive = true) :
    ∃ sources line, Began engine calls sources line ∧
      (run calls engine).cursor.word = (offered sources line).1 ∧
      (run calls engine).cursor.candidates = listed sources line := by
  induction calls using List.reverseRecOn with
  | nil => simp [run, inactive] at active
  | append_singleton calls call ih =>
    have inside := isInside_run (MatchCursor.isInside_of_inactive inactive) calls
    have whole := active
    rw [run_snoc] at active ⊢
    -- Either the cursor was active before the last call, or the last call is the one.
    rcases (perform_cases inside call active).2 with ⟨begun, index, moved⟩ |
      ⟨idle, sources, line, back, index, rfl, moved⟩
    · obtain ⟨sources, line, began, word, candidates⟩ := ih begun
      rw [moved]
      exact ⟨sources, line, began.snoc whole, word, candidates⟩
    · rw [moved]
      refine ⟨sources, line, ⟨calls, back, [], rfl, idle, fun part isPart => ?_⟩, rfl, rfl⟩
      rw [List.prefix_nil.1 isPart]
      exact whole

/-! ### The popup -/

/-- The item that the popup marks is the candidate that the cursor shows. -/
def Highlights (engine : Engine) : Prop :=
  ∃ popup i item, engine.popup? = some popup ∧ popup.selected = some i ∧ popup.items[i]? = some item ∧
    engine.selectedDisplay? = some item

/-- The popup marks the right item just if both lists show the same one at the position. -/
lemma highlights_iff (inside : engine.cursor.IsInside) {i : Nat} (isIndex : engine.cursor.index = some i) :
    engine.Highlights ↔ engine.set.display[i]? =
      (engine.cursor.candidates[i]?).map (displayName engine.set.isPath) := by
  have below := inside i isIndex
  have there := List.getElem?_eq_getElem below
  have shown : engine.selectedDisplay? =
      some (displayName engine.set.isPath engine.cursor.candidates[i]) := by
    rw [selectedDisplay?, MatchCursor.current?, isIndex, Option.bind_some, there, Option.map_some]
  rw [there, Option.map_some, Highlights, shown]
  constructor
  · rintro ⟨popup, j, item, isPopup, selected, marked, same⟩
    rw [popup?] at isPopup
    split at isPopup
    · cases isPopup
      rw [isIndex] at selected
      cases selected
      cases same
      exact marked
    · cases isPopup
  · intro marked
    have content : engine.hasContent = true := by
      have some : engine.set.candidates ≠ [] := by
        intro none
        simp [MatchSet.display, none] at marked
      simp [hasContent, MatchSet.isEmpty, some]
    exact ⟨_, i, _, if_pos content, isIndex, marked, rfl⟩

/-- A cursor that is active after a refresh has the candidates that the sources listed when it began to
cycle. They are the listed ones just if the sources list the same now. The popup marks the candidate
that is being cycled just if both lists show the same name at its position, so in particular if they
are the same. -/
theorem cycled_eq_listed_iff (tabLength : Int) (showsSignatures : Bool) (calls : List Call)
    (sources : Sources) (line : InputLine) :
    let fresh : Engine := { tabLength, showsSignatures }
    let engine := (run calls fresh).refresh sources line
    let display := displayName engine.set.isPath
    engine.cursor.isActive = true →
      ∃ sources₀ line₀ i, Began fresh calls sources₀ line₀ ∧
        (offered sources₀ line₀).1 = (offered sources line).1 ∧
        engine.cursor.candidates = listed sources₀ line₀ ∧
        engine.cursor.index = some i ∧ i < (listed sources₀ line₀).length ∧
        (engine.cursor.candidates = engine.set.candidates ↔
          listed sources₀ line₀ = listed sources line) ∧
        (engine.Highlights ↔
          ((listed sources line)[i]?).map display = ((listed sources₀ line₀)[i]?).map display) := by
  intro fresh engine display active
  have listedNow : engine.set.candidates = listed sources line := candidates_refresh_eq_listed _ _ _
  have inside : engine.cursor.IsInside := by
    have start : fresh.cursor.IsInside := MatchCursor.isInside_of_inactive rfl
    have whole := isInside_run start (calls ++ [.refresh sources line])
    rwa [run_snoc] at whole
  rcases refresh_cases (run calls fresh) sources line with ended | ⟨kept, same⟩
  · exact absurd (ended.symm.trans active) Bool.false_ne_true
  · have kept : engine.cursor = (run calls fresh).cursor := kept
    obtain ⟨sources₀, line₀, began, word, candidates⟩ := exists_began rfl calls (kept ▸ active)
    rw [← kept] at word candidates same
    obtain ⟨i, isIndex⟩ := Option.isSome_iff_exists.1 active
    refine ⟨sources₀, line₀, i, began, ?_, candidates, isIndex, candidates ▸ inside i isIndex, ?_, ?_⟩
    · rw [← word, ← same, word_refresh]
    · rw [candidates, listedNow]
    · rw [highlights_iff inside isIndex, MatchSet.display, List.getElem?_map, listedNow, candidates]

/-! ### A name that comes up while cycling -/

/-- Sources with a fixed list of names. -/
def sourcesOf (names : List String) : Sources :=
  { symbols := ({ names := names.map bytes } : SymbolList).source }

/-- An engine that has cycled through two names, up to the second one. -/
def cyclingTwo : Engine :=
  run [.complete (sourcesOf ["qa", "qab"]) { before := bytes "qa" } false,
    .complete (sourcesOf ["qa", "qab"]) { before := bytes "qa" } false] {}

lemma listed_two : listed (sourcesOf ["qa", "qab"]) { before := bytes "qa" } = ["qa", "qab"].map bytes := by
  apply listed_eq_of_sorted <;> decide +kernel

lemma cursor_cyclingTwo : cyclingTwo.cursor =
    { word := bytes "qa", candidates := ["qa", "qab"].map bytes, index := some 1 } := by
  have marked : (InputLine.before { before := bytes "qa" }).isBlank = false := by decide
  have word : (offered (sourcesOf ["qa", "qab"]) { before := bytes "qa" }).1 = bytes "qa" := by
    decide +kernel
  have typed : (Engine.refresh {} (sourcesOf ["qa", "qab"]) { before := bytes "qa" }).set.word ≠ [] := by
    rw [word_refresh, word]
    decide
  have offers :
      (Engine.refresh {} (sourcesOf ["qa", "qab"]) { before := bytes "qa" }).set.candidates ≠ [] := by
    rw [candidates_refresh_eq_listed, listed_two]
    decide
  have ready := cursor_refresh rfl typed offers
  rw [word_refresh, candidates_refresh_eq_listed, word, listed_two] at ready
  have stays : ¬Expands (bytes "qa") (["qa", "qab"].map bytes) := by
    rintro ⟨longer, -⟩
    exact absurd longer (by decide +kernel)
  have first : (perform {} (.complete (sourcesOf ["qa", "qab"]) { before := bytes "qa" } false)).cursor =
      { word := bytes "qa", candidates := ["qa", "qab"].map bytes, index := some 0 } := by
    rw [perform, complete_of_inactive marked rfl typed offers, cursor_expand, ready]
    · rfl
    · rwa [ready, word_refresh, word]
  rw [cyclingTwo, run, List.foldl_cons, List.foldl_cons, List.foldl_nil, perform,
    complete_of_active marked (by rw [first]; rfl), cursor_expand, first]
  · rfl
  · rwa [first]

/-- Back at `qa` the engine goes on with its two names, whatever there is by then. -/
lemma cursor_refresh_cyclingTwo {sources : Sources}
    (word : (offered sources { before := bytes "qa" }).1 = bytes "qa")
    (offers : listed sources { before := bytes "qa" } ≠ []) :
    (cyclingTwo.refresh sources { before := bytes "qa" }).cursor =
      { word := bytes "qa", candidates := ["qa", "qab"].map bytes, index := some 1 } := by
  rw [← word_refresh cyclingTwo] at word
  rw [← candidates_refresh_eq_listed cyclingTwo] at offers
  rw [← cursor_cyclingTwo]
  apply cursor_refresh_of_active
  · rw [cursor_cyclingTwo]
    rfl
  · rw [word, cursor_cyclingTwo]
  · rw [word]
    decide
  · exact offers

/-- With no other name the popup marks the name that is shown. -/
theorem highlights_second_of_two :
    (cyclingTwo.refresh (sourcesOf ["qa", "qab"]) { before := bytes "qa" }).cursor.isActive = true ∧
      (cyclingTwo.refresh (sourcesOf ["qa", "qab"]) { before := bytes "qa" }).Highlights := by
  have cursor : (cyclingTwo.refresh (sourcesOf ["qa", "qab"]) { before := bytes "qa" }).cursor = _ :=
    cursor_refresh_cyclingTwo (by decide +kernel) (by rw [listed_two]; decide)
  have active : (cyclingTwo.refresh (sourcesOf ["qa", "qab"])
      { before := bytes "qa" }).cursor.isActive = true := by
    rw [cursor]
    rfl
  obtain ⟨sources₀, line₀, i, -, -, candidates, -, -, -, highlights⟩ :=
    cycled_eq_listed_iff 4 true
      [.complete (sourcesOf ["qa", "qab"]) { before := bytes "qa" } false,
        .complete (sourcesOf ["qa", "qab"]) { before := bytes "qa" } false]
      (sourcesOf ["qa", "qab"]) { before := bytes "qa" } active
  refine ⟨active, highlights.2 ?_⟩
  rw [← candidates, listed_two]
  exact congrArg (fun cursor : MatchCursor => (cursor.candidates[i]?).map _) cursor.symm

/-- A name that comes in between moves the second one down in the list, but not in the cursor: the popup
marks `qaa` while the line shows `qab`. -/
theorem marks_name_in_between :
    let engine := cyclingTwo.refresh (sourcesOf ["qa", "qaa", "qab"]) { before := bytes "qa" }
    engine.cursor.isActive = true ∧ engine.cursor.candidates ≠ engine.set.candidates ∧
      ¬engine.Highlights := by
  intro engine
  have isListed : listed (sourcesOf ["qa", "qaa", "qab"]) { before := bytes "qa" } =
      ["qa", "qaa", "qab"].map bytes := by
    apply listed_eq_of_sorted <;> decide +kernel
  have candidates : engine.set.candidates = ["qa", "qaa", "qab"].map bytes :=
    (candidates_refresh_eq_listed _ _ _).trans isListed
  have cursor : engine.cursor = _ := cursor_refresh_cyclingTwo (by decide +kernel)
    (by rw [isListed]; decide)
  have inside : engine.cursor.IsInside := by
    rw [cursor]
    rintro _ ⟨⟩
    decide
  have isPath : engine.set.isPath = false := by
    rw [isPath_refresh]
    decide +kernel
  refine ⟨by rw [cursor]; rfl, ?_, ?_⟩
  · rw [cursor, candidates]
    decide +kernel
  · rw [highlights_iff inside (by rw [cursor]), MatchSet.display, candidates, cursor, isPath]
    decide +kernel

end Engine
end Completion
end CalcShell
