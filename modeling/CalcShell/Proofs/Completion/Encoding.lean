import CalcShell.Proofs.Completion.Cycling
import CalcShell.Proofs.Completion.Listing

/-! Completing keeps a line valid UTF-8, as long as the candidates do not part within a character: the
start that they share is found byte by byte. -/
namespace CalcShell

/-- The text is valid UTF-8 and the cursor stands between two of its characters. -/
def InputLine.IsValid (line : InputLine) : Prop :=
  Utf8.IsValid line.before ∧ Utf8.IsValid line.after

lemma InputLine.IsValid.insert {line : InputLine} (valid : line.IsValid) {text : Bytes}
    (whole : Utf8.IsValid text) : (line.insert text).IsValid := ⟨valid.1.append whole, valid.2⟩

namespace MatchCursor

/-- No text of the cursor cuts a character. -/
structure IsValid (cursor : MatchCursor) : Prop where
  word : Utf8.IsValid cursor.word
  candidates : ∀ candidate ∈ cursor.candidates, Utf8.IsValid candidate

/-- Going on only moves the position, and shows a candidate unless there are none. -/
lemma exists_next_or_previous (cursor : MatchCursor) (back : Bool) :
    ∃ shown index, (if back then cursor.previous else cursor.next) = (shown, { cursor with index }) ∧
      (shown = [] ∨ shown ∈ cursor.candidates) := by
  have select (i : Nat) : ∃ shown index, cursor.select i = (shown, { cursor with index }) ∧
      (shown = [] ∨ shown ∈ cursor.candidates) := by
    refine ⟨_, _, rfl, ?_⟩
    cases there : cursor.candidates[i]? with
    | none => exact .inl rfl
    | some candidate => exact .inr (List.mem_of_getElem? there)
  unfold previous next
  split
  · split
    · exact ⟨[], cursor.index, rfl, .inl rfl⟩
    · split <;> exact select _
  · split
    · exact ⟨[], cursor.index, rfl, .inl rfl⟩
    · split <;> exact select _

end MatchCursor

namespace Completion

/-- Nothing that the sources offer for a line cuts a character. -/
def Sources.OffersValid (sources : Sources) (line : InputLine) : Prop :=
  ∀ candidate ∈ (offered sources line).2, Utf8.IsValid candidate

namespace Engine

variable {engine : Engine} {sources : Sources} {line : InputLine} {word : Bytes}

/-! ### Expanding and cycling -/

lemma isValid_takeBack {cursor : MatchCursor} (valid : line.IsValid) (texts : cursor.IsValid)
    (whole : Utf8.IsValid word) : (takeBack cursor word line).IsValid := by
  unfold takeBack
  cases current : cursor.current? with
  | none => exact valid
  | some shown =>
    obtain ⟨i, -, there⟩ := Option.bind_eq_some_iff.1 current
    have isShown := texts.candidates shown (List.mem_of_getElem? there)
    dsimp only
    split
    · rename_i ends
      obtain ⟨front, text⟩ := List.isSuffixOf_iff_suffix.1 ends
      have split : Utf8.IsValid (front ++ shown) := text ▸ valid.1.append valid.2
      rw [← text, List.length_append, Nat.add_sub_cancel, List.take_left]
      exact ⟨(split.split isShown.isAligned).1.append whole, Utf8.isValid_nil⟩
    · exact valid

/-- Cycling replaces one valid text by another. -/
lemma isValid_expand (valid : line.IsValid) (texts : engine.cursor.IsValid)
    (whole : Utf8.IsValid word) (stays : ¬Expands word engine.cursor.candidates) (back : Bool) :
    (engine.expand line word back).1.IsValid ∧
      ∃ index, (engine.expand line word back).2.cursor = { engine.cursor with index } := by
  obtain ⟨shown, index, moved, isCandidate⟩ := engine.cursor.exists_next_or_previous back
  unfold expand
  dsimp only
  rw [if_neg ?_, moved]
  · refine ⟨?_, index, rfl⟩
    have taken := isValid_takeBack valid texts whole
    dsimp only
    split
    · rename_i isPrefix
      obtain ⟨rest, rfl⟩ := List.isPrefixOf_iff_prefix.1 isPrefix
      have isShown : Utf8.IsValid (word ++ rest) := by
        rcases isCandidate with none | mem
        · exact none ▸ Utf8.isValid_nil
        · exact texts.candidates _ mem
      rw [List.drop_left]
      exact taken.insert (isShown.of_append whole)
    · exact taken
  · exact mt (expands_iff _ _).1 stays

/-- Expanding keeps the line valid just when the common start is valid. -/
lemma isValid_expand_iff (valid : line.IsValid) (whole : Utf8.IsValid word)
    (expands : Expands word engine.cursor.candidates) (back : Bool) :
    (engine.expand line word back).1.IsValid ↔
      Utf8.IsValid (commonStart engine.cursor.candidates) := by
  rw [expand_of_expands expands]
  obtain ⟨rest, isStart⟩ := expands.2
  rw [← isStart, List.drop_left, Utf8.isValid_append_iff whole]
  exact ⟨fun inserted => inserted.1.of_append valid.1, valid.insert⟩

/-! ### Engines -/

/-- While it cycles, an engine shows valid texts, and its candidates agree on no more than the word. -/
def Sound (engine : Engine) : Prop :=
  engine.cursor.isActive = true →
    engine.cursor.IsValid ∧ ¬Expands engine.cursor.word engine.cursor.candidates

lemma sound_of_inactive (inactive : engine.cursor.isActive = false) : engine.Sound := by
  intro active
  rw [inactive] at active
  cases active

/-- An engine with valid texts completes its word validly, unless it expands it to a start that ends
within a character. -/
lemma sound_expand (valid : line.IsValid) (texts : engine.cursor.IsValid) (back : Bool) :
    (engine.expand line engine.cursor.word back).2.Sound ∧
      ((engine.expand line engine.cursor.word back).1.IsValid ↔
        (Expands engine.cursor.word engine.cursor.candidates →
          Utf8.IsValid (commonStart engine.cursor.candidates))) := by
  by_cases expands : Expands engine.cursor.word engine.cursor.candidates
  · refine ⟨sound_of_inactive ?_, (isValid_expand_iff valid texts.word expands back).trans
      ⟨fun start _ => start, fun start => start expands⟩⟩
    rw [expand_of_expands expands]
    exact isActive_update _ _ _
  · obtain ⟨shown, index, moved⟩ := isValid_expand valid texts texts.word expands back
    refine ⟨fun _ => ?_, fun _ expanding => absurd expanding expands, fun _ => shown⟩
    rw [moved]
    exact ⟨⟨texts.word, texts.candidates⟩, expands⟩

lemma Sound.refresh (sound : engine.Sound) (sources : Sources) (line : InputLine) :
    (engine.refresh sources line).Sound := by
  rcases refresh_cases engine sources line with ended | ⟨kept, -⟩
  · exact sound_of_inactive ended
  · unfold Sound
    rw [kept]
    exact sound

/-- A completion takes the word to where its candidates part. -/
def Grows (engine : Engine) (sources : Sources) (line : InputLine) : Prop :=
  engine.cursor.isActive = false ∧ (engine.refresh sources line).set.word ≠ [] ∧
    Expands (engine.refresh sources line).set.word (engine.refresh sources line).set.candidates

/-- What a refresh readies the cursor for is valid. -/
lemma isValid_cursor_refresh (valid : line.IsValid) (offers : sources.OffersValid line)
    (inactive : engine.cursor.isActive = false) (typed : (engine.refresh sources line).set.word ≠ [])
    (some : (engine.refresh sources line).set.candidates ≠ []) :
    (engine.refresh sources line).cursor.IsValid := by
  obtain ⟨-, -, base, before, seam⟩ := endsIn_word_refresh typed
  rw [cursor_refresh inactive typed some]
  refine ⟨(Utf8.IsValid.split_of_isSeam (before ▸ valid.1) seam).2, fun candidate mem => ?_⟩
  rw [candidates_refresh] at mem
  exact offers candidate (mem_canonical.1 mem)

lemma isValid_spaces (n : Nat) : Utf8.IsValid (Bytes.spaces n) := by
  apply Utf8.isValid_of_ascii
  intro b mem
  rw [List.eq_of_mem_replicate mem]
  decide

/-- On a blank line a completion indents, or does nothing. -/
lemma complete_of_isBlank (blank : line.before.isBlank = true) (back : Bool) :
    ((engine.complete sources line back).2 = (line, engine)) ∨
      ∃ n, (engine.complete sources line back).2 = (line.insert (Bytes.spaces n), engine.clear) := by
  unfold complete indent?
  rw [blank, if_pos rfl]
  cases back with
  | false => exact .inr ⟨_, rfl⟩
  | true => exact .inl rfl

/-- Where nothing is found, a completion does no more than look. -/
lemma complete_of_nothing (marked : line.before.isBlank = false)
    (inactive : engine.cursor.isActive = false)
    (nothing : (engine.refresh sources line).set.word = [] ∨
      (engine.refresh sources line).set.candidates = []) (back : Bool) :
    engine.complete sources line back = (false, line, engine.refresh sources line) := by
  unfold complete
  rw [marked, inactive, if_neg Bool.false_ne_true, if_neg Bool.false_ne_true]
  exact if_pos (by simpa using nothing)

/-- What one completion does to the line and to the engine. -/
theorem Sound.complete (sound : engine.Sound) (valid : line.IsValid)
    (offers : sources.OffersValid line) (back : Bool) :
    (engine.complete sources line back).2.2.Sound ∧
      ((engine.complete sources line back).2.1.IsValid ↔
        (engine.Grows sources line → Utf8.IsValid
          (commonStart (engine.refresh sources line).set.candidates))) := by
  cases blank : line.before.isBlank with
  | true =>
    have idle : ¬engine.Grows sources line := by
      rintro ⟨-, typed, -⟩
      have marked := (endsIn_word_refresh typed).2.1
      rw [blank] at marked
      cases marked
    rcases complete_of_isBlank blank back with same | ⟨n, indented⟩
    · rw [same]
      exact ⟨sound, fun _ grows => absurd grows idle, fun _ => valid⟩
    · rw [indented]
      exact ⟨sound_of_inactive rfl, fun _ grows => absurd grows idle,
        fun _ => valid.insert (isValid_spaces n)⟩
  | false =>
    cases active : engine.cursor.isActive with
    | true =>
      obtain ⟨texts, stays⟩ := sound active
      have idle : ¬engine.Grows sources line := by
        rintro ⟨inactive, -⟩
        rw [active] at inactive
        cases inactive
      obtain ⟨kept, shown⟩ := sound_expand valid texts back
      rw [complete_of_active blank active]
      exact ⟨kept, fun _ grows => absurd grows idle,
        fun _ => shown.2 fun expands => absurd expands stays⟩
    | false =>
      by_cases nothing : (engine.refresh sources line).set.word = [] ∨
          (engine.refresh sources line).set.candidates = []
      · have idle : ¬engine.Grows sources line := by
          rintro ⟨-, typed, longer, -⟩
          rw [nothing.resolve_left typed] at longer
          cases longer
        rw [complete_of_nothing blank active nothing]
        exact ⟨sound.refresh sources line, fun _ grows => absurd grows idle, fun _ => valid⟩
      · obtain ⟨typed, some⟩ := not_or.1 nothing
        have ready := cursor_refresh active typed some
        have expanded := sound_expand valid
          (isValid_cursor_refresh valid offers active typed some) back
        rw [ready] at expanded
        rw [complete_of_inactive blank active typed some]
        exact ⟨expanded.1, expanded.2.trans ⟨fun start grows => start grows.2.2,
          fun start expands => start ⟨active, typed, expands⟩⟩⟩

/-- The engines that come about on valid lines with valid names. -/
inductive Reachable : Engine → Prop where
  | fresh (tabLength : Int) (showsSignatures : Bool) : Reachable { tabLength, showsSignatures }
  | configure {engine : Engine} (tabLength : Int) (showsSignatures : Bool) :
      Reachable engine → Reachable { engine with tabLength, showsSignatures }
  | clear {engine : Engine} : Reachable engine → Reachable engine.clear
  | refresh {engine : Engine} (sources : Sources) (line : InputLine) :
      Reachable engine → Reachable (engine.refresh sources line)
  | complete {engine : Engine} (sources : Sources) (line : InputLine) (back : Bool) :
      Reachable engine → line.IsValid → sources.OffersValid line →
        Reachable (engine.complete sources line back).2.2

lemma Reachable.sound (reachable : Reachable engine) : engine.Sound := by
  induction reachable with
  | fresh _ _ => exact sound_of_inactive rfl
  | configure _ _ _ ih => exact ih
  | clear _ _ => exact sound_of_inactive rfl
  | refresh sources line _ ih => exact ih.refresh sources line
  | complete sources line back _ valid offers ih => exact (ih.complete valid offers back).1

/-- However an engine was used before, a completion of a valid line with valid candidates leaves the
line valid, with its cursor between two characters, just when the start to which it expands the word
does not end within a character. -/
theorem isValid_complete_iff (reachable : Reachable engine) (valid : line.IsValid)
    (offers : sources.OffersValid line) (back : Bool) :
    (engine.complete sources line back).2.1.IsValid ↔
      (engine.Grows sources line → Utf8.IsValid
        (commonStart (engine.refresh sources line).set.candidates)) :=
  (reachable.sound.complete valid offers back).2

/-- Names that agree on whole characters. -/
theorem expansion_keeps_characters :
    let sources : Sources := { symbols := ({ names := ["xéa", "xéb"].map bytes } : SymbolList).source }
    (Engine.complete {} sources { before := bytes "x" } false).2.1.IsValid := by
  intro sources
  have names : (offered sources { before := bytes "x" }).2 = ["xéa", "xéb"].map bytes := by
    decide +kernel
  have valid : InputLine.IsValid { before := bytes "x" } :=
    ⟨Utf8.isValid_encode "x".toList, Utf8.isValid_nil⟩
  have offers : sources.OffersValid { before := bytes "x" } := by
    rw [Sources.OffersValid, names, List.forall_mem_map]
    exact fun name _ => Utf8.isValid_encode name.toList
  refine (isValid_complete_iff (.fresh 4 true) valid offers false).2 fun _ => ?_
  have start : commonStart (Engine.refresh {} sources { before := bytes "x" }).set.candidates =
      bytes "xé" := by
    rw [candidates_refresh, names, canonical, List.mergeSort_of_pairwise (by decide +kernel)]
    decide +kernel
  rw [start]
  exact Utf8.isValid_encode "xé".toList

/-- Names that part within their last characters: the first byte of those is inserted alone. -/
theorem expansion_cuts_character :
    let sources : Sources := { symbols := ({ names := ["xaè", "xaé"].map bytes } : SymbolList).source }
    let line : InputLine := { before := bytes "x" }
    line.IsValid ∧ sources.OffersValid line ∧
      ¬(Engine.complete {} sources line false).2.1.IsValid := by
  intro sources line
  have names : (offered sources line).2 = ["xaè", "xaé"].map bytes := by decide +kernel
  have valid : line.IsValid := ⟨Utf8.isValid_encode "x".toList, Utf8.isValid_nil⟩
  refine ⟨valid, ?_, ?_⟩
  · rw [Sources.OffersValid, names, List.forall_mem_map]
    exact fun name _ => Utf8.isValid_encode name.toList
  · have word : (Engine.refresh {} sources line).set.word = bytes "x" := by decide +kernel
    have candidates : (Engine.refresh {} sources line).set.candidates = ["xaè", "xaé"].map bytes := by
      rw [candidates_refresh, names, canonical, List.mergeSort_of_pairwise (by decide +kernel)]
      decide +kernel
    have typed : (Engine.refresh {} sources line).set.word ≠ [] := by
      rw [word]
      decide
    have some : (Engine.refresh {} sources line).set.candidates ≠ [] := by
      rw [candidates]
      decide
    have ready := cursor_refresh rfl typed some
    rw [word, candidates] at ready
    have whole : Utf8.IsValid (bytes "x") := Utf8.isValid_encode "x".toList
    have expands : Expands (bytes "x") (Engine.refresh {} sources line).cursor.candidates := by
      rw [ready]
      exact ⟨by decide +kernel, by decide +kernel⟩
    rw [complete_of_inactive (by decide) rfl typed some, word]
    intro expanded
    have start := (isValid_expand_iff valid whole expands false).1 expanded
    rw [ready] at start
    have parts : commonStart (["xaè", "xaé"].map bytes) = bytes "xa" ++ [0xC3] := by decide +kernel
    rw [parts] at start
    have last := Utf8.lt_of_isValid_singleton (start.of_append (Utf8.isValid_encode "xa".toList))
    exact absurd last (by decide)

end Engine
end Completion
end CalcShell
