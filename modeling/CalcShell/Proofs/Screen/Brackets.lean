import CalcShell.Proofs.Screen.Inputs
import CalcShell.Proofs.Text.Styled

/-! The search for the bracket that a closing one belongs to. It goes back over the text left of the
cursor and then over the input lines of the statement, newest first, and finds the bracket before a
text in which all brackets are paired. -/
namespace CalcShell

namespace Renderer

/-! ### One line -/

/-- The levels that are open in front of a text, given from its last byte back, if `depth` are open
behind it. -/
def depthBefore (opening close : UInt8) (depth : Nat) (text : Bytes) : Nat :=
  depth + text.count close - text.count opening

/-- Going back over a text from its end never closes the last level. -/
def StaysOpen (opening close : UInt8) (depth : Nat) (text : Bytes) : Prop :=
  ∀ part, part <+: text → part.count opening < depth + part.count close

/-- The brackets of one kind are paired in a text. -/
def Balanced (opening close : UInt8) (text : Bytes) : Prop :=
  text.count opening = text.count close ∧
    ∀ back, back <:+ text → back.count opening ≤ back.count close

variable {opening close : UInt8} {depth : Nat}

lemma staysOpen_reverse_iff {text : Bytes} : StaysOpen opening close 1 text.reverse ↔
    ∀ back, back <:+ text → back.count opening ≤ back.count close := by
  constructor
  · intro opens back isBack
    have lt := opens back.reverse (List.reverse_prefix.2 isBack)
    rw [List.count_reverse, List.count_reverse] at lt
    omega
  · intro le part isPart
    have le := le part.reverse (by simpa using List.reverse_suffix.2 isPart)
    rw [List.count_reverse, List.count_reverse] at le
    omega

lemma staysOpen_reverse {text : Bytes} (balanced : Balanced opening close text) :
    StaysOpen opening close 1 text.reverse := staysOpen_reverse_iff.2 balanced.2

lemma depthBefore_reverse {text : Bytes} (balanced : Balanced opening close text) :
    depthBefore opening close 1 text.reverse = 1 := by
  rw [depthBefore, List.count_reverse, List.count_reverse, balanced.1]
  omega

lemma StaysOpen.append {front back : Bytes} (h : StaysOpen opening close depth (front ++ back)) :
    StaysOpen opening close depth front ∧
      StaysOpen opening close (depthBefore opening close depth front) back := by
  refine ⟨fun part isPart => h part (isPart.trans (List.prefix_append _ _)), fun part isPart => ?_⟩
  have whole := h (front ++ part) ((List.prefix_append_right_inj front).2 isPart)
  rw [List.count_append, List.count_append] at whole
  unfold depthBefore
  omega

lemma depthBefore_append {front back : Bytes} (h : StaysOpen opening close depth (front ++ back)) :
    depthBefore opening close depth (front ++ back) =
      depthBefore opening close (depthBefore opening close depth front) back := by
  have inside := h front (List.prefix_append _ _)
  unfold depthBefore
  rw [List.count_append, List.count_append]
  omega

lemma scanBack_cons (differ : opening ≠ close) {b : UInt8}
    (opens : StaysOpen opening close depth [b]) (rest : Bytes) :
    scanBack opening close depth (b :: rest) =
      scanBack opening close (depthBefore opening close depth [b]) rest := by
  have inside := opens [b] (List.prefix_refl _)
  unfold depthBefore
  rw [scanBack]
  by_cases isClose : b = close
  · subst isClose
    simp [Ne.symm differ]
  · have notClose : [b].count close = 0 := by simp [isClose]
    rw [if_neg isClose, notClose, Nat.add_zero]
    by_cases isOpening : b = opening
    · subst isOpening
      rw [notClose, List.count_singleton_self] at inside
      rw [if_pos rfl, if_neg (by omega), List.count_singleton_self]
    · simp [isOpening]

/-- The search goes on in front of a text that it finds nothing in. -/
theorem scanBack_append (differ : opening ≠ close) {text : Bytes}
    (opens : StaysOpen opening close depth text) (rest : Bytes) :
    scanBack opening close depth (text ++ rest) =
      scanBack opening close (depthBefore opening close depth text) rest := by
  induction text generalizing depth with
  | nil => rfl
  | cons b text ih =>
    have split : StaysOpen opening close depth ([b] ++ text) := opens
    rw [List.cons_append, scanBack_cons differ split.append.1, ih split.append.2,
      ← depthBefore_append split]
    rfl

lemma scanBack_of_staysOpen (differ : opening ≠ close) {text : Bytes}
    (opens : StaysOpen opening close depth text) :
    scanBack opening close depth text = .inr (depthBefore opening close depth text) := by
  have whole := scanBack_append differ opens []
  rw [List.append_nil] at whole
  exact whole

lemma scanBack_opening (differ : opening ≠ close) (rest : Bytes) :
    scanBack opening close 1 (opening :: rest) = .inl rest.length := by
  rw [scanBack, if_neg differ, if_pos rfl, if_pos rfl]

lemma staysOpen_singleton (close : UInt8) (positive : 0 < depth) {b : UInt8} (other : ¬(b = opening ∧ depth = 1)) :
    StaysOpen opening close depth [b] := by
  intro part isPart
  have le : part.count opening ≤ [b].count opening := isPart.sublist.count_le opening
  by_cases isOpening : b = opening
  · have deeper : depth ≠ 1 := fun last => other ⟨isOpening, last⟩
    rw [isOpening, List.count_singleton_self] at le
    omega
  · have none : [b].count opening = 0 := by simp [isOpening]
    omega

lemma StaysOpen.cons {b : UInt8} {text : Bytes} (first : StaysOpen opening close depth [b])
    (rest : StaysOpen opening close (depthBefore opening close depth [b]) text) :
    StaysOpen opening close depth (b :: text) := by
  intro part isPart
  have inside := first [b] (List.prefix_refl _)
  cases part with
  | nil =>
    have positive := first [] (List.nil_prefix)
    exact positive
  | cons c part =>
    obtain ⟨rfl, inRest⟩ := List.cons_prefix_cons.1 isPart
    have le := rest part inRest
    unfold depthBefore at le
    rw [← List.singleton_append, List.count_append, List.count_append]
    omega

lemma depthBefore_cons {b : UInt8} {text : Bytes} (first : StaysOpen opening close depth [b]) :
    depthBefore opening close depth (b :: text) =
      depthBefore opening close (depthBefore opening close depth [b]) text := by
  have inside := first [b] (List.prefix_refl _)
  unfold depthBefore
  rw [← List.singleton_append, List.count_append, List.count_append]
  omega

/-- The search stops at the first opening bracket before which all other levels are closed. -/
lemma scanBack_spec (differ : opening ≠ close) (positive : 0 < depth) (text : Bytes) :
    match scanBack opening close depth text with
    | .inl place => ∃ behind rest, text = behind ++ opening :: rest ∧ rest.length = place ∧
        StaysOpen opening close depth behind ∧ depthBefore opening close depth behind = 1
    | .inr _ => StaysOpen opening close depth text := by
  induction text generalizing depth with
  | nil =>
    intro part isPart
    rw [List.prefix_nil.1 isPart]
    exact positive
  | cons b text ih =>
    by_cases stops : b = opening ∧ depth = 1
    · obtain ⟨rfl, rfl⟩ := stops
      rw [scanBack_opening differ]
      exact ⟨[], text, rfl, rfl, fun part isPart => by rw [List.prefix_nil.1 isPart]; exact positive, rfl⟩
    · have opens := staysOpen_singleton close positive stops
      rw [scanBack_cons differ opens]
      have inside := opens [b] (List.prefix_refl _)
      have deep : 0 < depthBefore opening close depth [b] := by unfold depthBefore; omega
      have later := ih deep
      split
      · rename_i place found
        rw [found] at later
        obtain ⟨behind, rest, rfl, length, stays, last⟩ := later
        exact ⟨b :: behind, rest, rfl, length, opens.cons stays, (depthBefore_cons opens).trans last⟩
      · rename_i depth found
        rw [found] at later
        exact opens.cons later

/-- The search goes over one text and then over the text before it. -/
lemma scanBack_append_eq (depth : Nat) (text rest : Bytes) :
    scanBack opening close depth (text ++ rest) =
      match scanBack opening close depth text with
      | .inl place => .inl (place + rest.length)
      | .inr depth => scanBack opening close depth rest := by
  induction text generalizing depth with
  | nil => rfl
  | cons b text ih =>
    rw [List.cons_append, scanBack, scanBack]
    split
    · exact ih _
    · split
      · split
        · rw [List.length_append]
        · exact ih _
      · exact ih _

/-- The search finds an opening bracket. -/
lemma scanBack_eq_inl {place : Nat} {text : Bytes}
    (found : scanBack opening close depth text = .inl place) :
    ∃ behind rest, text = behind ++ opening :: rest ∧ rest.length = place := by
  induction text generalizing depth with
  | nil => cases found
  | cons b text ih =>
    rw [scanBack] at found
    have later (depth : Nat) (found : scanBack opening close depth text = .inl place) :
        ∃ behind rest, b :: text = behind ++ opening :: rest ∧ rest.length = place := by
      obtain ⟨behind, rest, rfl, length⟩ := ih found
      exact ⟨b :: behind, rest, rfl, length⟩
    split at found
    · exact later _ found
    · split at found
      · rename_i isOpening
        split at found
        · cases found
          exact ⟨[], text, by rw [isOpening]; rfl, rfl⟩
        · exact later _ found
      · exact later _ found

lemma scanBack_lt {column : Nat} {text : Bytes}
    (found : scanBack opening close depth text = .inl column) : column < text.length := by
  obtain ⟨behind, rest, rfl, rfl⟩ := scanBack_eq_inl found
  rw [List.length_append, List.length_cons]
  omega

/-! ### The lines of the statement -/

/-- The search over lines, of which the newest comes first. -/
def scanInputs (opening close : UInt8) : (depth : Nat) → List Evaluated → Option (Evaluated × Nat)
  | _, [] => none
  | depth, line :: lines =>
    match scanBack opening close depth line.text.reverse with
    | .inl place => some (line, place)
    | .inr depth => scanInputs opening close depth lines

/-- The text of some lines from its last byte back. -/
def backwards (lines : List Evaluated) : Bytes := lines.flatMap (·.text.reverse)

/-- The bracket is found on its line behind which all levels but the last are closed. -/
theorem scanInputs_of_opening (differ : opening ≠ close) {later : List Evaluated} {line : Evaluated}
    {front back : Bytes} (text : line.text = front ++ opening :: back)
    (opens : StaysOpen opening close depth (backwards later ++ back.reverse))
    (last : depthBefore opening close depth (backwards later ++ back.reverse) = 1)
    (rest : List Evaluated) :
    scanInputs opening close depth (later ++ line :: rest) = some (line, front.length) := by
  induction later generalizing depth with
  | nil =>
    have reversed : line.text.reverse = back.reverse ++ opening :: front.reverse := by
      rw [text]
      simp
    have opens : StaysOpen opening close depth back.reverse := opens
    have last : depthBefore opening close depth back.reverse = 1 := last
    rw [List.nil_append, scanInputs, reversed, scanBack_append differ opens, last,
      scanBack_opening differ, List.length_reverse]
  | cons newest later ih =>
    have split : StaysOpen opening close depth
        (newest.text.reverse ++ (backwards later ++ back.reverse)) := by
      rw [← List.append_assoc]
      exact opens
    have below := depthBefore_append split
    rw [← List.append_assoc] at below
    rw [List.cons_append, scanInputs, scanBack_of_staysOpen differ split.append.1]
    exact ih split.append.2 (below.symm.trans last)

/-- The mark on a byte of an input line. -/
def markOn (r : Renderer) (found : Evaluated × Nat) : Option ParenMark :=
  (r.transcript.line? found.1.mark).map fun line =>
    { line := found.1.mark, column := line.promptWidth + found.2, plain := line.styled }

lemma line?_first_add (t : Transcript) (n : Nat) : t.line? (t.first + n) = t.lines[n]? := by
  rw [Transcript.line?, if_neg (by omega), Nat.add_sub_cancel_left]

/-- The input lines among the first `n` lines of the transcript. -/
def inputsBelow (r : Renderer) (n : Nat) : List Evaluated :=
  ((r.transcript.lines.toList.take n).zipIdx r.transcript.first).filterMap Transcript.input?

lemma inputsBelow_size (r : Renderer) :
    r.inputsBelow r.transcript.lines.size = r.transcript.inputs := by
  rw [inputsBelow, Transcript.size_eq_length, List.take_length, Transcript.inputs]

lemma inputsBelow_succ {r : Renderer} {n : Nat} {line : TranscriptLine}
    (there : r.transcript.lines[n]? = some line) : r.inputsBelow (n + 1) =
      r.inputsBelow n ++ (Transcript.input? (line, r.transcript.first + n)).toList := by
  have inside := (Array.getElem?_eq_some_iff.1 there).1
  have inList : r.transcript.lines.toList[n]? = some line := by
    rw [Array.getElem?_toList]
    exact there
  have length : (r.transcript.lines.toList.take n).length = n := by
    rw [List.length_take_of_le]
    rw [Array.length_toList]
    omega
  unfold inputsBelow
  rw [List.take_add_one, inList, Option.toList_some, List.zipIdx_append, List.filterMap_append, length]
  congr 1

lemma inputsBelow_of_size_le {r : Renderer} {n : Nat} (beyond : r.transcript.lines[n]? = none) :
    r.inputsBelow (n + 1) = r.inputsBelow n := by
  have size := Array.getElem?_eq_none_iff.1 beyond
  unfold inputsBelow
  rw [List.take_of_length_le (by rw [Array.length_toList]; omega),
    List.take_of_length_le (by rw [Array.length_toList]; omega)]

lemma mark_lt_of_mem_inputsBelow {r : Renderer} {n : Nat} {line : Evaluated}
    (mem : line ∈ r.inputsBelow n) : line.mark < r.transcript.first + n := by
  obtain ⟨entry, inTranscript, isInput⟩ := List.mem_filterMap.1 mem
  rw [Transcript.input?, Option.map_eq_some_iff] at isInput
  obtain ⟨_, _, rfl⟩ := isInput
  have below := List.snd_lt_of_mem_zipIdx inTranscript
  rw [List.length_take] at below
  change entry.2 < r.transcript.first + n
  omega

/-- The search down the transcript looks through the input lines of the statement. -/
theorem scanLines_eq (r : Renderer) (opening close : UInt8) (depth n : Nat) :
    r.scanLines opening close depth n =
      (scanInputs opening close depth
        ((r.inputsBelow n).filter (r.statementStart ≤ ·.mark)).reverse).bind r.markOn := by
  induction n generalizing depth with
  | zero =>
    rw [scanLines, inputsBelow, List.take_zero]
    rfl
  | succ n ih =>
    rw [scanLines]
    split
    · rename_i before
      have none : (r.inputsBelow (n + 1)).filter (r.statementStart ≤ ·.mark) = [] := by
        refine List.filter_eq_nil_iff.2 fun line mem => ?_
        have := mark_lt_of_mem_inputsBelow mem
        simp only [decide_eq_true_eq]
        omega
      rw [none]
      rfl
    · rename_i inStatement
      split
      · rename_i styled source promptWidth there
        have isInput : (Transcript.input? ({ styled, source := some source, promptWidth },
            r.transcript.first + n)).toList = [Evaluated.mk source (r.transcript.first + n)] := rfl
        have isNew : [Evaluated.mk source (r.transcript.first + n)].filter
            (r.statementStart ≤ ·.mark) = [Evaluated.mk source (r.transcript.first + n)] :=
          List.filter_cons_of_pos (by simpa using inStatement)
        rw [inputsBelow_succ there, isInput, List.filter_append, isNew, List.reverse_append,
          List.reverse_singleton, List.singleton_append, scanInputs]
        split
        · rename_i place found
          rw [found, Option.bind_some, markOn, line?_first_add, there]
          rfl
        · rename_i depth found
          rw [found, ih]
      · rename_i other
        have same : (r.inputsBelow (n + 1)) = r.inputsBelow n := by
          cases there : r.transcript.lines[n]? with
          | none => exact inputsBelow_of_size_le there
          | some line =>
            rw [inputsBelow_succ there]
            obtain ⟨styled, source, promptWidth⟩ := line
            cases source with
            | none => exact List.append_nil _
            | some source => exact absurd there (other styled source promptWidth)
        rw [same, ih]

lemma scanLines_size (r : Renderer) (opening close : UInt8) (depth : Nat) :
    r.scanLines opening close depth r.transcript.lines.size =
      (scanInputs opening close depth r.page.statement.reverse).bind r.markOn := by
  rw [scanLines_eq, inputsBelow_size]
  rfl

/-! ### The bracket left of the cursor -/

/-- The closing brackets, each with the one that it belongs to. -/
lemma openingFor?_cases (closes : openingFor? close = some opening) :
    close = 0x29 ∧ opening = 0x28 ∨ close = 0x5D ∧ opening = 0x5B ∨ close = 0x7D ∧ opening = 0x7B := by
  unfold openingFor? at closes
  split at closes
  · rename_i isClose
    cases closes
    exact .inl ⟨isClose, rfl⟩
  · split at closes
    · rename_i isClose
      cases closes
      exact .inr (.inl ⟨isClose, rfl⟩)
    · split at closes
      · rename_i isClose
        cases closes
        exact .inr (.inr ⟨isClose, rfl⟩)
      · cases closes

lemma opening_ne_close (closes : openingFor? close = some opening) : opening ≠ close := by
  rcases openingFor?_cases closes with ⟨rfl, rfl⟩ | ⟨rfl, rfl⟩ | ⟨rfl, rfl⟩ <;> decide

/-- Brackets are ASCII. -/
lemma lt_of_openingFor? (closes : openingFor? close = some opening) :
    close < 0x80 ∧ opening < 0x80 := by
  rcases openingFor?_cases closes with ⟨rfl, rfl⟩ | ⟨rfl, rfl⟩ | ⟨rfl, rfl⟩ <;> decide

variable {r : Renderer} {frame : Frame} {earlier later : List Evaluated} {line : Evaluated}
  {front back left : Bytes}

/-- From a closing bracket the search goes over the text left of it, and then over the transcript. -/
lemma matchParen_at (closes : openingFor? close = some opening)
    (atCursor : frame.text.take frame.cursor = left ++ [close]) (live : StyledLine) :
    let width := promptWidth frame.isContinuation
    let marked (line : StyledLine) := line.highlight (width + left.length) .paren
    r.matchParen frame live = (scanBack opening close 1 left.reverse).elim
      (fun column => (marked (live.highlight (width + column) .paren), none))
      (fun depth => (r.scanLines opening close depth r.transcript.lines.size).elim (live, none)
        fun mark => (marked live, some mark)) := by
  unfold matchParen
  rw [atCursor, List.reverse_append, List.reverse_singleton, List.singleton_append]
  dsimp only
  rw [closes]
  dsimp only
  rw [List.length_reverse]
  cases scanBack opening close 1 left.reverse with
  | inl column => rfl
  | inr depth =>
    dsimp only [Sum.elim_inr]
    cases r.scanLines opening close depth r.transcript.lines.size <;> rfl

/-- A closing bracket left of the cursor finds its opening one on a line of the statement. -/
theorem matchParen_of_opening (closes : openingFor? close = some opening)
    (atCursor : frame.text.take frame.cursor = left ++ [close])
    (statement : r.page.statement = earlier ++ line :: later)
    (text : line.text = front ++ opening :: back)
    (paired : Balanced opening close (back ++ later.flatMap (·.text) ++ left)) (live : StyledLine) :
    ∃ shown, r.transcript.line? line.mark = some shown ∧ shown.source = some line.text ∧
      r.matchParen frame live =
        (live.highlight (promptWidth frame.isContinuation + left.length) .paren,
          some { line := line.mark, column := shown.promptWidth + front.length
                 plain := shown.styled }) := by
  have differ := opening_ne_close closes
  have inStatement : line ∈ r.page.statement := by
    rw [statement]
    simp
  obtain ⟨shown, there, source⟩ := Transcript.mem_inputs.1 (List.mem_of_mem_filter inStatement)
  have there : r.transcript.line? line.mark = some shown := there
  have between : (back ++ later.flatMap (·.text) ++ left).reverse =
      left.reverse ++ (backwards later.reverse ++ back.reverse) := by
    rw [List.reverse_append, List.reverse_append, List.reverse_flatMap]
    rfl
  have opens := staysOpen_reverse paired
  have last := depthBefore_reverse paired
  rw [between] at opens last
  have found : r.scanLines opening close (depthBefore opening close 1 left.reverse)
      r.transcript.lines.size = r.markOn (line, front.length) := by
    rw [scanLines_size, statement, List.reverse_append, List.reverse_cons, List.append_assoc,
      List.singleton_append, scanInputs_of_opening differ text opens.append.2
        ((depthBefore_append opens).symm.trans last)]
    rfl
  refine ⟨shown, there, source, ?_⟩
  rw [matchParen_at closes atCursor, scanBack_of_staysOpen differ opens.append.1, Sum.elim_inr,
    found, markOn]
  dsimp only
  rw [there]
  rfl

/-- The mark on an input line changes the looks of the bracket. -/
lemma look_withMark {shown : TranscriptLine} (isInput : shown.IsInput line.text)
    (text : line.text = front ++ opening :: back) :
    (withMark (some { line := line.mark, column := shown.promptWidth + front.length
                      plain := shown.styled }) line.mark shown.styled).look =
      shown.styled.look.set (shown.promptWidth + front.length)
        { byte := opening, style := .paren, bold := true } := by
  obtain ⟨prompt, plain, width⟩ := isInput.plain
  rw [withMark]
  dsimp only
  rw [if_pos rfl]
  apply StyledLine.look_highlight
  rw [plain, width, text, List.getElem?_append_right (Nat.le_add_right _ _),
    Nat.add_sub_cancel_left, List.getElem?_append_right (Nat.le_refl _), Nat.sub_self]
  rfl

lemma liveLine_of_typed (r : Renderer) (typed : frame.isPaste = false) : r.liveLine frame =
    r.matchParen frame (prompt frame.isContinuation :: r.highlight frame.text) := by
  unfold liveLine
  dsimp only
  rw [typed, if_neg Bool.false_ne_true]

lemma paren_render (usable : r.geometry.isDegenerate = false) (active : frame.isActive = true)
    (typed : frame.isPaste = false) : (r.render frame).2.paren =
      ({ r with lastFrame := frame }.matchParen frame
        (prompt frame.isContinuation :: r.highlight frame.text)).2 := by
  unfold render prepare
  dsimp only
  rw [if_neg (by rw [usable]; exact Bool.false_ne_true), if_pos active,
    liveLine_of_typed { r with lastFrame := frame } typed]
  rfl

end Renderer
end CalcShell
