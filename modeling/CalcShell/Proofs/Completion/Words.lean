import CalcShell.Completion.Engine
import CalcShell.Proofs.Calc.Tokens
import CalcShell.Proofs.Text.Lines

/-! The word that a refresh finds stands right in front of the cursor, at the end of a line that is not
blank, and no character is cut where it begins. -/
namespace CalcShell.Completion

open Calc (Token)
open Utf8 (IsSeam)

/-- A text that is not blank ends in the word, and no character is cut where the word begins. -/
def EndsIn (text word : Bytes) : Prop :=
  text.isBlank = false ∧ ∃ base, text = base ++ word ∧ IsSeam base word

lemma EndsIn.prepend (front : Bytes) {text word : Bytes} (ends : EndsIn text word) :
    EndsIn (front ++ text) word := by
  obtain ⟨marked, base, rfl, seam⟩ := ends
  refine ⟨by rw [Bytes.isBlank_append, marked, Bool.and_false], front ++ base,
    (List.append_assoc _ _ _).symm, ?_⟩
  rcases seam with none | right | ⟨rest, b, rfl, ascii⟩
  · exact .inl none
  · exact .inr (.inl right)
  · exact .inr (.inr ⟨front ++ rest, b, (List.append_assoc _ _ _).symm, ascii⟩)

/-! ### Names -/

lemma of_isAlphanumeric {b : UInt8} (letter : Ascii.isAlphanumeric b) :
    b < 0x80 ∧ Ascii.isSpace b = false := by
  have range : 0x30 ≤ b ∧ b ≤ 0x7A := by
    simp only [Ascii.isAlphanumeric, Ascii.isLetter, Ascii.isUpper, Ascii.isLower, Ascii.isDigit,
      Bool.or_eq_true, Bool.and_eq_true, decide_eq_true_eq] at letter
    rcases letter with (⟨low, high⟩ | ⟨low, high⟩) | ⟨low, high⟩
    · exact ⟨UInt8.le_trans (by decide) low, UInt8.le_trans high (by decide)⟩
    · exact ⟨UInt8.le_trans (by decide) low, high⟩
    · exact ⟨low, UInt8.le_trans high (by decide)⟩
  refine ⟨UInt8.lt_of_le_of_lt range.2 (by decide), ?_⟩
  rw [Ascii.isSpace, Bool.or_eq_false_iff, beq_eq_false_iff_ne, Bool.and_eq_false_iff]
  constructor
  · rintro rfl
    exact absurd range.1 (by decide)
  · refine .inr (decide_eq_false fun low => ?_)
    exact absurd (UInt8.le_trans range.1 low) (by decide)

lemma of_isNameByte {b : UInt8} (name : isNameByte b) : b < 0x80 ∧ Ascii.isSpace b = false := by
  simp only [isNameByte, Bool.or_eq_true, beq_iff_eq] at name
  rcases name with (letter | rfl) | rfl
  · exact of_isAlphanumeric letter
  · decide
  · decide

/-- A name at the end of a text. -/
lemma endsIn_of_isNameByte {text word : Bytes} (some : word ≠ []) (ends : word <:+ text)
    (name : ∀ b ∈ word, isNameByte b) : EndsIn text word := by
  obtain ⟨base, rfl⟩ := ends
  cases word with
  | nil => contradiction
  | cons b word =>
    obtain ⟨ascii, marked⟩ := of_isNameByte (name b List.mem_cons_self)
    refine ⟨?_, base, rfl, .inr (.inl ⟨b, word, rfl, ascii⟩)⟩
    rw [Bytes.isBlank_append, Bytes.isBlank_cons, marked, Bool.false_and, Bool.and_false]

/-! ### Strings -/

lemma endsIn_of_openString? {text content : Bytes} (isOpen : openString? text = some content) :
    EndsIn text content := by
  fun_induction openString? text with
  | case1 => cases isOpen
  | case2 => cases isOpen
  | case3 b rest _ isQuote n scanned ih =>
    have split : b :: rest = (b :: rest.take n) ++ rest.drop n := by
      rw [List.cons_append, List.take_append_drop]
    rw [split]
    exact (ih isOpen).prepend _
  | case4 => cases isOpen
  | case5 b rest _ isQuote n scanned some =>
    cases isOpen
    have marked : Ascii.isSpace b = false := by
      rw [Bool.or_eq_true, decide_eq_true_eq, decide_eq_true_eq] at isQuote
      rcases isQuote with rfl | rfl <;> decide
    refine ⟨by rw [Bytes.isBlank_cons, marked, Bool.false_and], [b], rfl, ?_⟩
    exact .inr (.inr ⟨[], b, rfl, Token.lt_of_quote isQuote⟩)
  | case6 b rest _ _ ih => exact (ih isOpen).prepend [b]

/-! ### Import lines -/

lemma eq_of_splitOn_eq_singleton {sep : UInt8} {text piece : Bytes}
    (single : Bytes.splitOn sep text = [piece]) : piece = text := by
  induction text generalizing piece with
  | nil =>
    cases single
    rfl
  | cons b rest ih =>
    rw [Bytes.splitOn] at single
    split at single
    · exact absurd (List.cons.inj single).2 (Bytes.splitOn_ne_nil sep rest)
    · split at single
      · rename_i none
        exact absurd none (Bytes.splitOn_ne_nil sep rest)
      · rename_i first others pieces
        cases single
        rw [ih pieces]

/-- The last piece of a text that is cut at separators. -/
lemma suffix_of_getLast?_splitOn {sep : UInt8} {text piece : Bytes}
    (last : (Bytes.splitOn sep text).getLast? = some piece) : piece <:+ text := by
  induction text with
  | nil =>
    cases last
    exact List.suffix_refl _
  | cons b rest ih =>
    have behind : rest <:+ b :: rest := List.suffix_cons _ _
    rw [Bytes.splitOn] at last
    cases pieces : Bytes.splitOn sep rest with
    | nil => exact absurd pieces (Bytes.splitOn_ne_nil sep rest)
    | cons first others =>
      rw [pieces] at last ih
      split at last
      · exact (ih last).trans behind
      · cases others with
        | nil =>
          cases last
          rw [← eq_of_splitOn_eq_singleton pieces]
          exact List.suffix_refl _
        | cons second others => exact (ih last).trans behind

lemma of_lastListed? {p : UInt8 → Bool} {text last : Bytes}
    (listed : lastListed? p text = some last) : last <:+ text ∧ ∀ b ∈ last, p b := by
  unfold lastListed? at listed
  dsimp only at listed
  split at listed
  · rename_i names
    cases listed
    rw [Bool.and_eq_true] at names
    refine ⟨?_, List.all_eq_true.1 names.2⟩
    cases piece : (Bytes.splitOn (Ascii.code ',') text).getLast? with
    | none => exact List.nil_suffix
    | some piece =>
      exact (List.dropWhile_suffix _).trans (suffix_of_getLast?_splitOn ‹_›)
  · cases listed

lemma suffix_of_behindWord? {word : String} {text rest : Bytes}
    (behind : behindWord? word text = some rest) : rest <:+ text := by
  unfold behindWord? at behind
  dsimp only at behind
  split at behind
  · cases behind
    exact (List.dropWhile_suffix _).trans (List.drop_suffix _ _)
  · cases behind

/-- The name that an import line is completed at. -/
def ImportLine.word : ImportLine → Bytes
  | .module word => word
  | .member _ word => word

lemma of_importLine? {text : Bytes} {line : ImportLine} (isImport : importLine? text = some line) :
    line.word <:+ text ∧ ∀ b ∈ line.word, isNameByte b := by
  unfold importLine? at isImport
  dsimp only at isImport
  have start : text.dropWhile Ascii.isSpace <:+ text := List.dropWhile_suffix _
  generalize text.dropWhile Ascii.isSpace = typed at isImport start
  split at isImport
  · rename_i names behind
    obtain ⟨word, listed, rfl⟩ := Option.map_eq_some_iff.1 isImport
    obtain ⟨ends, bytes⟩ := of_lastListed? listed
    exact ⟨ends.trans ((suffix_of_behindWord? behind).trans start), bytes⟩
  · split at isImport
    · cases isImport
    · rename_i rest behind
      have fromRest := (suffix_of_behindWord? behind).trans start
      split at isImport
      · rename_i ends
        cases isImport
        have whole : rest.takeWhile isNameByte = rest := by
          refine (List.takeWhile_prefix _).eq_of_length_le ?_
          exact List.drop_eq_nil_iff.1 (List.isEmpty_iff.1 ends)
        exact ⟨whole.symm ▸ fromRest, fun b mem => List.mem_takeWhile_imp mem⟩
      · split at isImport
        · cases isImport
        · split at isImport
          · rename_i names behindImport
            obtain ⟨word, listed, rfl⟩ := Option.map_eq_some_iff.1 isImport
            obtain ⟨ends, bytes⟩ := of_lastListed? listed
            refine ⟨ends.trans ((suffix_of_behindWord? behindImport).trans ?_), fun b mem => ?_⟩
            · exact (List.dropWhile_suffix _).trans ((List.drop_suffix _ _).trans fromRest)
            · rw [isNameByte, Bool.or_eq_true]
              exact .inl (bytes b mem)
          · cases isImport

lemma importCandidates_fst (sources : Sources) (line : ImportLine) :
    (Engine.importCandidates sources line).1 = line.word := by
  cases line <;> rfl

/-! ### The word of a refresh -/

lemma isWordByte_eq_isNameByte (b : UInt8) : InputLine.isWordByte b = isNameByte b := Bool.or_right_comm _ _ _

lemma isNameByte_of_currentWord? {line : InputLine} {word : Bytes} (isWord : line.currentWord? = some word) :
    ∀ b ∈ word, isNameByte b := by
  unfold InputLine.currentWord? at isWord
  dsimp only at isWord
  split at isWord
  · cases isWord
    intro b mem
    rw [← isWordByte_eq_isNameByte]
    exact List.mem_takeWhile_imp (List.mem_reverse.1 mem)
  · cases isWord

lemma of_currentWord? {line : InputLine} {word : Bytes} (isWord : line.currentWord? = some word) :
    line.after = [] ∧ EndsIn line.before word := by
  have name := isNameByte_of_currentWord? isWord
  unfold InputLine.currentWord? at isWord
  dsimp only at isWord
  split at isWord
  · rename_i found
    cases isWord
    rw [Bool.and_eq_true, InputLine.atEnd, List.isEmpty_iff] at found
    refine ⟨found.1, endsIn_of_isNameByte (by simpa using found.2) ?_ name⟩
    rw [← List.reverse_prefix, List.reverse_reverse]
    exact List.takeWhile_prefix _
  · cases isWord

/-- The word at the cursor and the texts that it may be completed to. -/
def offered (sources : Sources) (line : InputLine) : Bytes × List Bytes :=
  match currentString? line with
  | some path => (path, paths sources.files sources.env path)
  | none =>
    match if line.atEnd then importLine? line.before else none with
    | some importLine => Engine.importCandidates sources importLine
    | none =>
      match line.currentWord? with
      | some word => (word, ((sources.symbols word).getD {}).candidates)
      | none => ([], [])

lemma endsIn_offered {sources : Sources} {line : InputLine} :
    (offered sources line).1 ≠ [] → line.after = [] ∧ EndsIn line.before (offered sources line).1 := by
  unfold offered
  cases isString : currentString? line with
  | some path =>
    intro _
    rw [currentString?] at isString
    split at isString
    · rename_i atEnd
      exact ⟨List.isEmpty_iff.1 atEnd, endsIn_of_openString? isString⟩
    · cases isString
  | none =>
    dsimp only
    cases isImport : (if line.atEnd then importLine? line.before else none) with
    | some importLine =>
      dsimp only
      rw [importCandidates_fst]
      intro typed
      split at isImport
      · rename_i atEnd
        obtain ⟨ends, name⟩ := of_importLine? isImport
        exact ⟨List.isEmpty_iff.1 atEnd, endsIn_of_isNameByte typed ends name⟩
      · cases isImport
    | none =>
      dsimp only
      cases isWord : line.currentWord? with
      | some word => exact fun _ => of_currentWord? isWord
      | none => exact fun typed => absurd rfl typed

namespace Engine

/-- Looking a text up changes nothing of what is shown. -/
lemma cursor_hint? (engine : Engine) (sources : Sources) (text : Bytes) :
    (engine.hint? sources text).2.cursor = engine.cursor := by
  unfold hint?
  split
  · rfl
  · dsimp only
    split <;> rfl

/-- What is offered does not depend on what was offered before, nor does it change what is shown. -/
lemma matchesFor_eq_offered (engine : Engine) (sources : Sources) (line : InputLine) :
    ((engine.matchesFor sources line).1.word, (engine.matchesFor sources line).1.candidates) =
        offered sources line ∧
      (engine.matchesFor sources line).2.cursor = engine.cursor := by
  have hinted := cursor_hint? engine sources line.before
  unfold matchesFor offered
  generalize engine.hint? sources line.before = asked at hinted
  obtain ⟨hint, other⟩ := asked
  dsimp only at hinted ⊢
  cases currentString? line with
  | some path => exact ⟨rfl, hinted⟩
  | none =>
    dsimp only
    cases if line.atEnd then importLine? line.before else none with
    | some importLine => exact ⟨rfl, hinted⟩
    | none =>
      dsimp only
      cases line.currentWord? with
      | some word => exact ⟨rfl, hinted⟩
      | none => exact ⟨rfl, hinted⟩

lemma word_refresh (engine : Engine) (sources : Sources) (line : InputLine) :
    (engine.refresh sources line).set.word = (offered sources line).1 :=
  congrArg Prod.fst (matchesFor_eq_offered engine sources line).1

lemma candidates_refresh (engine : Engine) (sources : Sources) (line : InputLine) :
    (engine.refresh sources line).set.candidates =
      canonical (engine.refresh sources line).set.isPath (offered sources line).2 :=
  congrArg (canonical _ <| Prod.snd ·) (matchesFor_eq_offered engine sources line).1

/-- What a refresh finds stands in front of a cursor at the end of the line. -/
theorem endsIn_word_refresh {engine : Engine} {sources : Sources} {line : InputLine}
    (typed : (engine.refresh sources line).set.word ≠ []) :
    line.after = [] ∧ EndsIn line.before (engine.refresh sources line).set.word := by
  rw [word_refresh] at typed ⊢
  exact endsIn_offered typed

end Engine
end CalcShell.Completion
