import CalcShell.Proofs.Editing.Characters
import CalcShell.Proofs.Text.Lines
import Mathlib.Data.List.DropRight

/-! Deleting the word in front of the cursor. A character at a time, the spaces there go and then the bytes
back to the space before them. But on a line of white space every step leads back to a tab stop, and such a
step can pass over the place where the word begins. -/
namespace CalcShell.InputLine

/-- The longest run of spaces at the end of a text. -/
def lastSpaces (text : Bytes) : Bytes := text.rtakeWhile (· == Ascii.space)

/-- The longest run without a space in front of the last spaces. -/
def lastWord (text : Bytes) : Bytes := (text.rdropWhile (· == Ascii.space)).rtakeWhile (· != Ascii.space)

/-- A text without its last word and the spaces behind it. -/
def beforeWord (text : Bytes) : Bytes :=
  (text.rdropWhile (· == Ascii.space)).rdropWhile (· != Ascii.space)

/-- Deleting to the left goes by tab stops: the line is white space, with the cursor at its end. -/
def IsIndented (line : InputLine) : Prop :=
  0 < line.tabLength ∧ line.after = [] ∧ line.before.isBlank

/-- Tab stops lead past the place where the last word begins. The cursor is at the end of the line, the
word begins with white space, and nothing but white space is in front of it. Either it does not begin at a
tab stop, or it is white space as a whole, has spaces behind it and is too short for a tab stop inside of
it, so that what deletes these spaces does not see it. -/
def Overshoots (line : InputLine) : Prop :=
  0 < line.tabLength ∧ line.after = [] ∧
    beforeWord line.before ≠ [] ∧ (beforeWord line.before).isBlank ∧
    (lastWord line.before).head?.any Ascii.isSpace ∧
    (¬ line.tabLength.toNat ∣ (beforeWord line.before).length ∨
      (lastWord line.before).isBlank ∧ lastSpaces line.before ≠ [] ∧
        (lastWord line.before).length < line.tabLength.toNat)

instance (line : InputLine) : Decidable (Overshoots line) := inferInstanceAs (Decidable (_ ∧ _))

/-! ### The end of a text -/

/-- A text in three parts: its last word, the spaces behind it, and what is in front of it. -/
structure EndsInWord (text front word spaces : Bytes) : Prop where
  whole : text = front ++ (word ++ spaces)
  isSpace : ∀ b ∈ spaces, b = Ascii.space
  noSpace : ∀ b ∈ word, b ≠ Ascii.space
  stops : ∀ b ∈ front.getLast?, b = Ascii.space
  begins : word = [] → front = []

lemma endsInWord (text : Bytes) : EndsInWord text (beforeWord text) (lastWord text) (lastSpaces text) where
  whole := by
    rw [← List.append_assoc, beforeWord, lastWord, List.rdropWhile_append_rtakeWhile, lastSpaces,
      List.rdropWhile_append_rtakeWhile]
  isSpace b mem := by simpa using List.mem_rtakeWhile_imp mem
  noSpace b mem := by simpa using List.mem_rtakeWhile_imp mem
  stops b isLast := by
    obtain ⟨some, rfl⟩ := List.mem_getLast?_eq_getLast isLast
    have other := List.rdropWhile_last_not _ _ some
    simpa [beforeWord] using other
  begins none := by
    have isSpace := List.rtakeWhile_eq_nil_iff.1 none
    have empty : text.rdropWhile (· == Ascii.space) = [] := by
      by_contra some
      have other := List.rdropWhile_last_not _ _ some
      exact isSpace some (by simpa using other)
    rw [beforeWord, empty]
    rfl

/-! ### One step -/

variable {p : UInt8 → Bool} {line : InputLine} {front run : Bytes}

lemma tabBack?_of_not_isIndented (plain : ¬line.IsIndented) : line.tabBack? = none := by
  unfold tabBack?
  dsimp only
  rw [if_neg]
  intro indented
  simp only [Bool.and_eq_true, decide_eq_true_eq, atEnd, List.isEmpty_iff] at indented
  exact plain ⟨by omega, indented.1.2, indented.2⟩

lemma backspace_of_not_isIndented (some : line.before ≠ []) (plain : ¬line.IsIndented) :
    (line.backspace true).2 = line.dropBack line.backLength := by
  unfold backspace
  rw [if_neg (mt List.isEmpty_iff.1 some), if_pos rfl, tabBack?_of_not_isIndented plain]

/-- On a line of white space a step leads to the last tab stop in front of the cursor. -/
lemma backspace_of_isIndented (some : line.before ≠ []) (indented : line.IsIndented) :
    (line.backspace true).2 = { line with
      before := line.before.take (CharLine.tabStop line.tabLength.toNat line.before.length) } := by
  obtain ⟨positive, atEnd, blank⟩ := indented
  have tab : 0 < line.tabLength.toNat := by omega
  have inside := List.length_pos_iff.2 some
  have back : line.tabBack? = Option.some
      (line.before.length - CharLine.tabStop line.tabLength.toNat line.before.length) := by
    unfold tabBack?
    dsimp only
    rw [if_pos (by simp [tab, InputLine.atEnd, atEnd, blank]), CharLine.sub_tabStop tab inside]
    rfl
  have low := (CharLine.tabStop_isGreatest tab inside).2.1
  unfold backspace
  rw [if_neg (mt List.isEmpty_iff.1 some), if_pos rfl, back]
  simp only [dropBack]
  rw [Nat.sub_sub_self (Nat.le_of_lt low)]

lemma isAligned_of_append {back : Bytes} (aligned : Utf8.IsAligned (run ++ back)) : Utf8.IsAligned run := by
  cases run with
  | nil => exact Utf8.isAligned_nil
  | cons b rest => exact aligned

/-- A step does not go beyond the place where a run of characters begins. -/
lemma lastLength_append_le (some : run ≠ []) (aligned : Utf8.IsAligned run) (front : Bytes) :
    Utf8.lastLength (front ++ run).reverse ≤ run.length := by
  obtain ⟨b, rest, rfl⟩ := List.exists_cons_of_ne_nil some
  have first : Utf8.isContinuation b = false := aligned b rfl
  have behind : (((front ++ b :: rest).reverse.take 3).takeWhile Utf8.isContinuation).length ≤
      rest.length := by
    have stops : (b :: front.reverse).takeWhile Utf8.isContinuation = [] :=
      List.takeWhile_cons_of_neg (by simp [first])
    have run : ((front ++ b :: rest).reverse.takeWhile Utf8.isContinuation).length ≤ rest.length := by
      rw [List.reverse_append, List.reverse_cons, List.append_assoc, List.singleton_append,
        List.takeWhile_append, stops, List.append_nil]
      split
      · rw [List.length_reverse]
      · exact Nat.le_trans (List.takeWhile_prefix _).length_le (Nat.le_of_eq List.length_reverse)
    rw [← List.take_takeWhile]
    exact Nat.le_trans (List.length_take_le' 3 _) run
  rw [Utf8.lastLength, List.length_cons]
  omega

/-! ### Many steps -/

lemma backspaceWhile_of_stops (stops : line.before.getLast?.any p = false) :
    backspaceWhile p line = line := by
  rw [backspaceWhile, stops, dif_neg Bool.false_ne_true]

lemma backspaceWhile_of_more (more : line.before.getLast?.any p = true) :
    backspaceWhile p line = backspaceWhile p (line.backspace true).2 := by
  rw [backspaceWhile, dif_pos more]

lemma getLast?_any_append (some : run ≠ []) (fits : ∀ b ∈ run, p b) (front : Bytes) :
    (front ++ run).getLast?.any p = true := by
  rw [List.getLast?_append_of_ne_nil _ some, List.getLast?_eq_some_getLast some]
  exact fits _ (List.getLast_mem some)

/-- Character by character a run goes as a whole. -/
lemma backspaceWhile_run (fits : ∀ b ∈ run, p b) (aligned : Utf8.IsAligned run)
    (plain : ∀ part, part ≠ [] → part <+: run → ¬IsIndented { line with before := front ++ part }) :
    backspaceWhile p { line with before := front ++ run } =
      backspaceWhile p { line with before := front } := by
  induction length : run.length using Nat.strong_induction_on generalizing run with
  | _ n ih =>
    by_cases none : run = []
    · rw [none, List.append_nil]
    · have more : (front ++ run).getLast?.any p = true := getLast?_any_append none fits front
      have some : front ++ run ≠ [] := List.append_ne_nil_of_right_ne_nil front none
      -- The character that goes is the last one of the run.
      have inside := lastLength_append_le none aligned front
      have moves : 0 < backLength { line with before := front ++ run } := backLength_pos some
      have step : (backspace { line with before := front ++ run } true).2 = { line with
          before := front ++ run.take (run.length - Utf8.lastLength (front ++ run).reverse) } := by
        rw [backspace_of_not_isIndented some (plain run none List.prefix_rfl)]
        simp only [dropBack, backLength]
        rw [List.length_append, Nat.add_sub_assoc inside, List.take_length_add_append]
      rw [backspaceWhile_of_more more, step]
      have shorter : run.take (run.length - Utf8.lastLength (front ++ run).reverse) <+: run :=
        List.take_prefix _ run
      refine ih _ ?_ (fun b mem => fits b (shorter.mem mem)) ?_ (fun part some isPart =>
        plain part some (isPart.trans shorter)) rfl
      · have := List.length_pos_iff.2 none
        dsimp only [backLength] at moves
        rw [List.length_take, ← length]
        omega
      · rw [← List.take_append_drop (run.length - Utf8.lastLength (front ++ run).reverse) run] at aligned
        exact isAligned_of_append aligned

/-- The last tab stop below a column is the last one up to any place that no later stop lies behind. -/
lemma tabStop_eq_of_le {tab place column : Nat} (positive : 0 < tab) (inside : place < column)
    (low : CharLine.tabStop tab column ≤ place) :
    CharLine.tabStop tab column = CharLine.tabStop tab (place + 1) := by
  obtain ⟨isStop, -, greatest⟩ := CharLine.tabStop_isGreatest positive (Nat.zero_lt_of_lt inside)
  obtain ⟨isStop', low', greatest'⟩ := CharLine.tabStop_isGreatest positive (Nat.succ_pos place)
  apply Nat.le_antisymm
  · exact greatest' _ isStop (Nat.lt_succ_of_le low)
  · exact greatest _ isStop' (Nat.lt_of_lt_of_le low' inside)

/-- On a line of white space the steps lead to the last tab stop that is not inside of the run. -/
lemma backspaceWhile_indented (positive : 0 < line.tabLength) (atEnd : line.after = [])
    (blank : Bytes.isBlank (front ++ run)) (fits : ∀ b ∈ run, p b) (some : run ≠ []) :
    backspaceWhile p { line with before := front ++ run } =
      backspaceWhile p { line with
        before := front.take (CharLine.tabStop line.tabLength.toNat (front.length + 1)) } := by
  have tab : 0 < line.tabLength.toNat := by omega
  induction length : run.length using Nat.strong_induction_on generalizing run with
  | _ n ih =>
    have nonempty : front ++ run ≠ [] := List.append_ne_nil_of_right_ne_nil front some
    have more : (front ++ run).getLast?.any p = true := getLast?_any_append some fits front
    have indented : IsIndented { line with before := front ++ run } := ⟨positive, atEnd, blank⟩
    have inside := List.length_pos_iff.2 some
    rw [backspaceWhile_of_more more, backspace_of_isIndented nonempty indented]
    dsimp only
    by_cases within : front.length < CharLine.tabStop line.tabLength.toNat (front ++ run).length
    · have low := (CharLine.tabStop_isGreatest tab (List.length_pos_iff.2 nonempty)).2.1
      obtain ⟨k, isPlace⟩ := Nat.exists_eq_add_of_lt within
      rw [Nat.add_assoc] at isPlace
      rw [isPlace, List.length_append] at low
      rw [isPlace, List.take_length_add_append]
      have part : run.take (k + 1) <+: run := List.take_prefix _ run
      refine ih (run.take (k + 1)).length ?_ ?_ (fun b mem => fits b (part.mem mem)) ?_ rfl
      · rw [List.length_take]
        omega
      · exact Bytes.isBlank_of_subset ((List.prefix_append_right_inj front).2 part).subset blank
      · exact List.ne_nil_of_length_pos (by rw [List.length_take]; omega)
    · have place : front.length < (front ++ run).length := by
        rw [List.length_append]
        omega
      rw [List.take_append_of_le_length (Nat.not_lt.1 within),
        tabStop_eq_of_le tab place (Nat.not_lt.1 within)]

lemma length_before_backspaceWhile_le (p : UInt8 → Bool) (line : InputLine) :
    (backspaceWhile p line).before.length ≤ line.before.length := by
  induction line using backspaceWhile.induct (p := p) with
  | case1 line more ih =>
    have some : line.before ≠ [] := fun none => by simp [none] at more
    rw [backspaceWhile_of_more more]
    exact Nat.le_trans ih (Nat.le_of_lt (length_before_backspace_lt true some))
  | case2 line stops => rw [backspaceWhile_of_stops (by simpa using stops)]

/-! ### The two runs of a word -/

section
variable {word spaces : Bytes}

/-- Deleting spaces stops at a word. -/
lemma backspaceWhile_behind_word (noSpace : ∀ b ∈ run, b ≠ Ascii.space) (some : run ≠ []) :
    backspaceWhile (· == Ascii.space) { line with before := front ++ run } =
      { line with before := front ++ run } := by
  apply backspaceWhile_of_stops
  rw [List.getLast?_append_of_ne_nil _ some, List.getLast?_eq_some_getLast some]
  simpa using noSpace _ (List.getLast_mem some)

lemma EndsInWord.backspaceWhile_spaces (parts : EndsInWord line.before front word spaces) :
    backspaceWhile (· == Ascii.space) { line with before := front ++ word } =
      { line with before := front ++ word } := by
  by_cases none : word = []
  · rw [none, parts.begins none]
    exact backspaceWhile_of_stops rfl
  · exact backspaceWhile_behind_word parts.noSpace none

lemma EndsInWord.stops_word (parts : EndsInWord line.before front word spaces) :
    front.getLast?.any (· != Ascii.space) = false := by
  cases isLast : front.getLast? with
  | none => rfl
  | some b => simpa using parts.stops b isLast

lemma EndsInWord.backspaceWord_eq (parts : EndsInWord line.before front word spaces) :
    line.backspaceWord = backspaceWhile (· != Ascii.space)
      (backspaceWhile (· == Ascii.space) { line with before := front ++ word ++ spaces }) := by
  have whole : line = { line with before := front ++ word ++ spaces } := by
    rw [List.append_assoc, ← parts.whole]
  rw [← whole]
  rfl

/-- The spaces go and nothing else, unless they are behind white space only. -/
lemma EndsInWord.backspaceWord_of_not_isIndented (parts : EndsInWord line.before front word spaces)
    (plain : ¬IsIndented { line with before := front ++ word }) : line.backspaceWord =
      backspaceWhile (· != Ascii.space) { line with before := front ++ word } := by
  have ascii : ∀ b ∈ spaces, b < 0x80 := fun b mem => parts.isSpace b mem ▸ by decide
  have first : backspaceWhile (· == Ascii.space) { line with before := front ++ word ++ spaces } =
      { line with before := front ++ word } := by
    refine (backspaceWhile_run ?_ (Utf8.isValid_of_ascii ascii).isAligned ?_).trans
      parts.backspaceWhile_spaces
    · exact fun b mem => by simpa using parts.isSpace b mem
    · rintro part - - ⟨positive, atEnd, blank⟩
      exact plain ⟨positive, atEnd, Bytes.isBlank_of_subset (List.prefix_append _ part).subset blank⟩
  rw [parts.backspaceWord_eq, first]

/-- A part of the word that no tab stop comes between goes as it is. -/
lemma backspaceWhile_word {kept : Bytes} (noSpace : ∀ b ∈ run, b ≠ Ascii.space) (aligned : Utf8.IsAligned run)
    (plain : ∀ part, part ≠ [] → part <+: run → ¬IsIndented { line with before := kept ++ part }) :
    backspaceWhile (· != Ascii.space) { line with before := kept ++ run } =
      backspaceWhile (· != Ascii.space) { line with before := kept } :=
  backspaceWhile_run (fun b mem => by simpa using noSpace b mem) aligned plain

/-- White space at the beginning of a word that has only white space in front of it goes alone just when the
word begins at a tab stop. -/
lemma EndsInWord.backspaceWhile_eq_iff (parts : EndsInWord line.before front word spaces)
    (positive : 0 < line.tabLength) (atEnd : line.after = []) (blank : Bytes.isBlank (front ++ run))
    (noSpace : ∀ b ∈ run, b ≠ Ascii.space) :
    backspaceWhile (· != Ascii.space) { line with before := front ++ run } =
        { line with before := front } ↔
      run = [] ∨ line.tabLength.toNat ∣ front.length := by
  have tab : 0 < line.tabLength.toNat := by omega
  by_cases none : run = []
  · refine iff_of_true ?_ (.inl none)
    rw [none, List.append_nil, backspaceWhile_of_stops parts.stops_word]
  obtain ⟨isStop, low, greatest⟩ := CharLine.tabStop_isGreatest tab (Nat.add_one_pos front.length)
  rw [or_iff_right none,
    backspaceWhile_indented positive atEnd blank (fun b mem => by simpa using noSpace b mem) none]
  constructor
  · intro same
    have shorter := length_before_backspaceWhile_le (· != Ascii.space) { line with
      before := front.take (CharLine.tabStop line.tabLength.toNat (front.length + 1)) }
    rw [same, List.length_take] at shorter
    have : CharLine.tabStop line.tabLength.toNat (front.length + 1) = front.length := by
      dsimp only at shorter
      omega
    rwa [this] at isStop
  · intro begins
    have whole := greatest _ begins (Nat.lt_add_one _)
    rw [List.take_of_length_le whole, backspaceWhile_of_stops parts.stops_word]

/-- From a place that is a tab stop there is another one within some bytes just when they reach that far. -/
lemma lt_tabStop_iff {tab place : Nat} (positive : 0 < tab) (isStop : tab ∣ place) (n : Nat) :
    place < CharLine.tabStop tab (place + n + 1) ↔ tab ≤ n := by
  obtain ⟨isStop', low, greatest⟩ := CharLine.tabStop_isGreatest positive (Nat.add_one_pos (place + n))
  constructor
  · intro behind
    have := Nat.le_of_dvd (Nat.sub_pos_of_lt behind) (Nat.dvd_sub isStop' isStop)
    omega
  · intro long
    have := greatest (place + tab) (Nat.dvd_add isStop (Nat.dvd_refl tab)) (by omega)
    omega

/-- Where the word goes with the spaces behind it, the spaces in front of it go on. -/
lemma EndsInWord.length_lt (parts : EndsInWord line.before front word spaces) (some : front ≠ []) {stop : Nat}
    (short : stop ≤ front.length) :
    (backspaceWhile (· == Ascii.space) { line with before := front.take stop }).before.length <
      front.length := by
  rcases Nat.lt_or_eq_of_le short with shorter | rfl
  · have fewer :=
      length_before_backspaceWhile_le (· == Ascii.space) { line with before := front.take stop }
    rw [List.length_take_of_le short] at fewer
    exact Nat.lt_of_le_of_lt fewer shorter
  · have more : front.getLast?.any (· == Ascii.space) = true := by
      rw [List.getLast?_eq_some_getLast some]
      simpa using parts.stops _ (List.getLast?_eq_some_getLast some)
    rw [List.take_length, backspaceWhile_of_more more]
    exact Nat.lt_of_le_of_lt (length_before_backspaceWhile_le _ _) (length_before_backspace_lt true some)

/-- Tab stops over the spaces behind a word of white space. With one inside of the word they lead there, and
the word then goes back to the place where it begins if this is a tab stop. -/
lemma EndsInWord.backspaceWord_eq_iff_of_blank (parts : EndsInWord line.before front word spaces)
    (positive : 0 < line.tabLength) (atEnd : line.after = []) (blank : Bytes.isBlank (front ++ word))
    (some : spaces ≠ []) :
    line.backspaceWord = { line with before := front } ↔
      front = [] ∨ line.tabLength.toNat ∣ front.length ∧ line.tabLength.toNat ≤ word.length := by
  have tab : 0 < line.tabLength.toNat := by omega
  have isBlank : Bytes.isBlank (front ++ word ++ spaces) := by
    rw [Bytes.isBlank_append, Bool.and_eq_true]
    exact ⟨blank, List.all_eq_true.2 fun b mem => parts.isSpace b mem ▸ rfl⟩
  have isSpace : ∀ b ∈ spaces, (b == Ascii.space) = true := fun b mem => by
    simpa using parts.isSpace b mem
  rw [parts.backspaceWord_eq, backspaceWhile_indented positive atEnd isBlank isSpace some,
    List.length_append]
  by_cases within : front.length <
      CharLine.tabStop line.tabLength.toNat (front.length + word.length + 1)
  · have low := (CharLine.tabStop_isGreatest tab (Nat.add_one_pos (front.length + word.length))).2.1
    obtain ⟨k, isPlace⟩ := Nat.exists_eq_add_of_lt within
    rw [Nat.add_assoc _ k 1] at isPlace
    have part : word.take (k + 1) <+: word := List.take_prefix _ word
    have noSpace : ∀ b ∈ word.take (k + 1), b ≠ Ascii.space := fun b mem => parts.noSpace b (part.mem mem)
    have left : word.take (k + 1) ≠ [] :=
      List.ne_nil_of_length_pos (by rw [List.length_take]; omega)
    have blank' : Bytes.isBlank (front ++ word.take (k + 1)) :=
      Bytes.isBlank_of_subset ((List.prefix_append_right_inj front).2 part).subset blank
    rw [isPlace, List.take_length_add_append, backspaceWhile_behind_word noSpace left,
      parts.backspaceWhile_eq_iff positive atEnd blank' noSpace, or_iff_right left]
    constructor
    · exact fun isStop => .inr ⟨isStop, (lt_tabStop_iff tab isStop _).1 within⟩
    · rintro (rfl | ⟨isStop, -⟩)
      · exact Nat.dvd_zero _
      · exact isStop
  · have short := Nat.not_lt.1 within
    rw [List.take_append_of_le_length short]
    by_cases none : front = []
    · have nothing : backspaceWhile (· == Ascii.space) { line with before := [] } =
          { line with before := [] } := backspaceWhile_of_stops rfl
      refine iff_of_true ?_ (.inl none)
      rw [none, List.take_nil, nothing, backspaceWhile_of_stops rfl]
    · refine iff_of_false (fun same => ?_) ?_
      · have shorter := Nat.lt_of_le_of_lt (length_before_backspaceWhile_le (· != Ascii.space) _)
          (parts.length_lt none short)
        rw [same] at shorter
        exact Nat.lt_irrefl _ shorter
      · rintro (isEmpty | ⟨isStop, long⟩)
        · exact none isEmpty
        · exact within ((lt_tabStop_iff tab isStop _).2 long)

lemma EndsInWord.backspaceWord_eq_iff_of_isBlank (parts : EndsInWord line.before front word spaces)
    (positive : 0 < line.tabLength) (atEnd : line.after = []) (blank : Bytes.isBlank (front ++ word)) :
    line.backspaceWord = { line with before := front } ↔
      front = [] ∨ line.tabLength.toNat ∣ front.length ∧ (spaces = [] ∨ line.tabLength.toNat ≤ word.length) := by
  by_cases none : spaces = []
  · subst none
    have atStart : front = [] → line.tabLength.toNat ∣ front.length := fun none => by simp [none]
    have begins := parts.begins
    rw [parts.backspaceWord_eq, List.append_nil, parts.backspaceWhile_spaces,
      parts.backspaceWhile_eq_iff positive atEnd blank parts.noSpace]
    tauto
  · rw [parts.backspaceWord_eq_iff_of_blank positive atEnd blank none, or_iff_right none]

lemma head?_any_isSpace (blank : Bytes.isBlank run) (some : run ≠ []) : run.head?.any Ascii.isSpace = true := by
  obtain ⟨b, rest, rfl⟩ := List.exists_cons_of_ne_nil some
  rw [Bytes.isBlank_cons, Bool.and_eq_true] at blank
  exact blank.1

/-- Where tab stops never count, a word goes as it is. -/
lemma EndsInWord.backspaceWord_of_plain (parts : EndsInWord line.before front word spaces)
    (aligned : Utf8.IsAligned word)
    (plain : ¬(0 < line.tabLength ∧ line.after = [] ∧ Bytes.isBlank front)) :
    line.backspaceWord = { line with before := front } := by
  have never (part : Bytes) : ¬IsIndented { line with before := front ++ part } := by
    rintro ⟨positive, atEnd, blank⟩
    exact plain ⟨positive, atEnd, Bytes.isBlank_of_subset (List.prefix_append front part).subset blank⟩
  rw [parts.backspaceWord_of_not_isIndented (never word),
    backspaceWhile_word parts.noSpace aligned fun part _ _ => never part,
    backspaceWhile_of_stops parts.stops_word]

/-- A word that is not all white space goes as it is back to the white space that it begins with. -/
lemma EndsInWord.backspaceWord_eq_iff_of_text {first rest : Bytes} {b : UInt8}
    (parts : EndsInWord line.before front (first ++ b :: rest) spaces) (aligned : Utf8.IsAligned (b :: rest))
    (text : Ascii.isSpace b = false) (positive : 0 < line.tabLength) (atEnd : line.after = [])
    (blank : Bytes.isBlank (front ++ first)) :
    line.backspaceWord = { line with before := front } ↔
      first = [] ∨ line.tabLength.toNat ∣ front.length := by
  have never (part : Bytes) (some : part ≠ []) (isPart : part <+: b :: rest) :
      ¬IsIndented { line with before := front ++ first ++ part } := by
    rintro ⟨-, -, blank⟩
    obtain ⟨c, others, rfl⟩ := List.exists_cons_of_ne_nil some
    obtain rfl := (List.cons_prefix_cons.1 isPart).1
    rw [Bytes.isBlank_append, Bytes.isBlank_cons, text, Bool.false_and, Bool.and_false] at blank
    cases blank
  have noSpace := List.forall_mem_append.1 parts.noSpace
  have whole := never (b :: rest) (List.cons_ne_nil b rest) List.prefix_rfl
  rw [List.append_assoc] at whole
  rw [parts.backspaceWord_of_not_isIndented whole, ← List.append_assoc,
    backspaceWhile_word noSpace.2 aligned never,
    parts.backspaceWhile_eq_iff positive atEnd blank noSpace.1]

end

/-- What follows an ASCII character begins with a character. -/
lemma isAligned_behind {back : Bytes} (valid : Utf8.IsValid (front ++ back))
    (ascii : ∀ b ∈ front.getLast?, b < 0x80) : Utf8.IsAligned back := by
  rcases List.eq_nil_or_concat front with rfl | ⟨rest, b, rfl⟩
  · exact valid.isAligned
  · have seam : Utf8.IsSeam (rest.concat b) back :=
      .inr (.inr ⟨rest, b, List.concat_eq_append, ascii b (by simp)⟩)
    exact (valid.split_of_isSeam seam).2.isAligned

/-- Deleting a word takes the spaces left of the cursor and the word in front of them, all of them and
nothing else, just when tab stops do not lead past the place where the word begins. -/
theorem backspaceWord_eq_iff (valid : Utf8.IsValid line.text) :
    line.backspaceWord = { line with before := beforeWord line.before } ↔ ¬line.Overshoots := by
  have parts := endsInWord line.before
  unfold Overshoots
  generalize beforeWord line.before = front at parts ⊢
  generalize lastWord line.before = word at parts ⊢
  generalize lastSpaces line.before = spaces at parts ⊢
  have ascii : ∀ b ∈ front.getLast?, b < 0x80 := fun b isLast => parts.stops b isLast ▸ by decide
  rw [text, parts.whole, List.append_assoc, List.append_assoc] at valid
  by_cases indents : 0 < line.tabLength ∧ line.after = [] ∧ Bytes.isBlank front
  · obtain ⟨positive, atEnd, blank⟩ := indents
    have both {part : Bytes} (isBlank : part.isBlank) : Bytes.isBlank (front ++ part) := by
      rw [Bytes.isBlank_append]
      exact Bool.and_eq_true_iff.2 ⟨blank, isBlank⟩
    by_cases whole : Bytes.isBlank word
    · have begins := head?_any_isSpace whole
      have none := parts.begins
      rw [parts.backspaceWord_eq_iff_of_isBlank positive atEnd (both whole), ← Nat.not_lt]
      tauto
    · obtain ⟨first, b, rest, rfl, isBlank, text⟩ := Bytes.exists_of_not_isBlank whole
      have aligned : Utf8.IsAligned (b :: rest) := by
        rw [List.append_assoc, ← List.append_assoc front] at valid
        refine isAligned_of_append (isAligned_behind valid fun c isLast => ?_)
        exact CharLine.lt_of_ascii_isSpace (List.all_eq_true.1 (both isBlank) c (List.mem_of_getLast? isLast))
      have begins : (first ++ b :: rest).head?.any Ascii.isSpace = true ↔ first ≠ [] := by
        cases first with
        | nil => exact iff_of_false (by simp [text]) (fun some => some rfl)
        | cons c first =>
          have isSpace := head?_any_isSpace isBlank (List.cons_ne_nil c first)
          exact iff_of_true isSpace (List.cons_ne_nil c first)
      have atStart : front = [] → line.tabLength.toNat ∣ front.length := fun none => by simp [none]
      rw [parts.backspaceWord_eq_iff_of_text aligned text positive atEnd (both isBlank), begins]
      tauto
  · have aligned := isAligned_of_append (isAligned_behind valid ascii)
    refine iff_of_true (parts.backspaceWord_of_plain aligned indents) ?_
    rintro ⟨positive, atEnd, -, blank, -⟩
    exact indents ⟨positive, atEnd, blank⟩

/-- A word of tabs between spaces, which begins at a tab stop and has another one behind it. -/
theorem backspaceWord_behind_indentation :
    let line : InputLine := { before := bytes "    \t\t\t\t ", tabLength := 4 }
    Utf8.IsValid line.text ∧ line.backspaceWord = { line with before := bytes "    " } := by
  intro line
  have valid : Utf8.IsValid line.text := Utf8.isValid_of_ascii (by decide +kernel)
  exact ⟨valid, (backspaceWord_eq_iff valid).2 (by decide +kernel)⟩

/-- A tab behind two spaces: the only tab stop in front of it is the start of the line. -/
theorem tab_stop_takes_spaces :
    let line : InputLine := { before := bytes "  \t", tabLength := 4 }
    Utf8.IsValid line.text ∧ beforeWord line.before = bytes "  " ∧
      line.backspaceWord = { line with before := [] } := by
  intro line
  refine ⟨Utf8.isValid_of_ascii (by decide +kernel), ?_⟩
  decide +kernel

end CalcShell.InputLine
