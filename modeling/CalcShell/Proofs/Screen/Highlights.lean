import CalcShell.Proofs.Screen.Cursor
import CalcShell.Proofs.Screen.Partners

/-! What is highlighted with the cursor behind a closing bracket: that bracket, and the one that the
search finds. It is the partner that the tokens tell just if the bytes in between, those of strings and
comments too, have paired brackets. -/
namespace CalcShell

open Calc (Token)

namespace Renderer

variable {opening close : UInt8} {r : Renderer} {frame : Frame} {left : Bytes} {front : List Token}

/-! ### What is highlighted -/

/-- A byte of a line has the style of a highlighted bracket. -/
def isParen (line : StyledLine) (column : Nat) : Bool :=
  (line.look[column]?).any (·.style == .paren)

/-- The byte at a place is highlighted as a bracket: on the edited line by its style, on an earlier line
by the mark. -/
def isHighlighted (r : Renderer) (frame : Frame) : Position → Bool
  | .live column => isParen (r.liveLine frame).1 (promptWidth frame.isContinuation + column)
  | .earlier number column =>
    match r.transcript.line? number, (r.liveLine frame).2 with
    | some line, some mark => mark.line == number && mark.column == line.promptWidth + column
    | _, _ => false

/-- The places of a pair of brackets, the later one on the edited line; none without the earlier one. -/
def ends (partner : Option Position) (column : Nat) : List Position :=
  match partner with
  | some partner => [partner, .live column]
  | none => []

lemma isParen_highlight {line : StyledLine} {i : Nat} {byte : UInt8}
    (there : line.plain[i]? = some byte) (j : Nat) :
    isParen (line.highlight i .paren) j = (j == i || isParen line j) := by
  have inside : i < line.look.length := by
    rw [StyledLine.length_look]
    exact (List.getElem?_eq_some_iff.1 there).1
  rw [isParen, StyledLine.look_highlight there, List.getElem?_set]
  by_cases same : i = j
  · subst same
    rw [if_pos rfl, if_pos inside, beq_self_eq_true, Bool.true_or]
    rfl
  · rw [if_neg same, beq_false_of_ne (Ne.symm same), Bool.false_or, isParen]

/-- Before brackets are marked no byte of the edited line has their style. -/
lemma isParen_live (lexes : r.tokenize = Calc.highlight) (isContinuation : Bool) (text : Bytes)
    (column : Nat) : isParen (prompt isContinuation :: r.highlight text) column = false := by
  have ofRun {run : Run} (style : run.style ≠ .paren) : ∀ look ∈ run.look, look.style ≠ .paren := by
    intro look mem
    obtain ⟨_, _, rfl⟩ := List.mem_map.1 mem
    exact style
  have plain : ∀ look ∈ StyledLine.look (prompt isContinuation :: r.highlight text),
      look.style ≠ .paren := by
    rw [StyledLine.look_cons, List.forall_mem_append]
    refine ⟨ofRun (by cases isContinuation <;> decide), ?_⟩
    unfold highlight
    split
    · rw [lexes, Calc.highlight, StyledLine.look_merge]
      intro look mem
      obtain ⟨run, inLine, inRun⟩ := List.mem_flatMap.1 mem
      obtain ⟨token, _, rfl⟩ := List.mem_map.1 inLine
      exact ofRun (by dsimp only; cases token.kind <;> decide) look inRun
    · unfold StyledLine.ofText
      split
      · exact fun look mem => absurd mem List.not_mem_nil
      · rw [StyledLine.look_cons, StyledLine.look_nil, List.append_nil]
        exact ofRun (by dsimp only; decide)
  unfold isParen
  cases found : (StyledLine.look (prompt isContinuation :: r.highlight text))[column]? with
  | none => rfl
  | some look => exact beq_false_of_ne (plain look (List.mem_of_getElem? found))

lemma mem_of_scanInputs {depth place : Nat} {lines : List Evaluated} {line : Evaluated}
    (found : scanInputs opening close depth lines = some (line, place)) : line ∈ lines := by
  induction lines generalizing depth with
  | nil => cases found
  | cons first lines ih =>
    rw [scanInputs] at found
    split at found
    · cases found
      exact List.mem_cons_self
    · exact List.mem_cons_of_mem _ (ih found)

/-- The search over the transcript finds the mark of the place. -/
lemma scanLines_of_earlier {depth number column : Nat}
    (found : (scanInputs opening close depth r.page.statement.reverse).map
      (fun found => Position.earlier found.1.mark found.2) = some (.earlier number column)) :
    ∃ line, r.transcript.line? number = some line ∧
      r.scanLines opening close depth r.transcript.lines.size =
        some { line := number, column := line.promptWidth + column, plain := line.styled } := by
  obtain ⟨⟨line, place⟩, isFound, same⟩ := Option.map_eq_some_iff.1 found
  cases same
  have inStatement := List.mem_reverse.1 (mem_of_scanInputs isFound)
  obtain ⟨shown, there, -⟩ := Transcript.mem_inputs.1 (List.mem_of_mem_filter inStatement)
  have there : r.transcript.line? line.mark = some shown := there
  refine ⟨shown, there, ?_⟩
  rw [scanLines_size, isFound, Option.bind_some, markOn]
  dsimp only
  rw [there]
  rfl

/-- Both brackets are marked, if the search finds one. -/
lemma matchParen_eq (closes : openingFor? close = some opening)
    (atCursor : frame.text.take frame.cursor = left ++ [close]) (live : StyledLine) :
    let width := promptWidth frame.isContinuation
    match r.found? opening close left with
    | none => r.matchParen frame live = (live, none)
    | some (.live column) => r.matchParen frame live =
        ((live.highlight (width + column) .paren).highlight (width + left.length) .paren, none)
    | some (.earlier number column) => ∃ line, r.transcript.line? number = some line ∧
        r.matchParen frame live = (live.highlight (width + left.length) .paren,
          some { line := number, column := line.promptWidth + column, plain := line.styled }) := by
  rw [matchParen_at closes atCursor]
  unfold found?
  dsimp only
  cases scanBack opening close 1 left.reverse with
  | inl column => rfl
  | inr depth =>
    dsimp only [Sum.elim_inr]
    cases found : (scanInputs opening close depth r.page.statement.reverse).map
        (fun found => Position.earlier found.1.mark found.2) with
    | none =>
      dsimp only
      rw [scanLines_size, Option.map_eq_none_iff.1 found]
      rfl
    | some place =>
      cases place with
      | live column =>
        obtain ⟨_, _, other⟩ := Option.map_eq_some_iff.1 found
        cases other
      | earlier number column =>
        obtain ⟨line, there, marked⟩ := scanLines_of_earlier found
        exact ⟨line, there, by rw [marked]; rfl⟩

lemma found?_eq_live {column : Nat} (found : r.found? opening close left = some (.live column)) :
    ∃ front back, left = front ++ opening :: back ∧ front.length = column := by
  unfold found? at found
  split at found
  · rename_i place isFound
    cases found
    obtain ⟨behind, rest, reversed, length⟩ := scanBack_eq_inl isFound
    refine ⟨rest.reverse, behind.reverse, ?_, by rw [List.length_reverse, length]⟩
    rw [← List.reverse_reverse left, reversed]
    simp
  · obtain ⟨_, _, other⟩ := Option.map_eq_some_iff.1 found
    cases other

variable {live : StyledLine} {place : Position}

lemma isHighlighted_of_none (marked : r.liveLine frame = (live, none))
    (plain : ∀ i, isParen live i = false) : r.isHighlighted frame place = false := by
  cases place with
  | live i => rw [isHighlighted, marked, plain]
  | earlier number i =>
    rw [isHighlighted, marked]
    cases r.transcript.line? number <;> rfl

/-- Both brackets are marked on the edited line. -/
lemma isHighlighted_of_live {column n : Nat} {b c : UInt8}
    (there : live.plain[promptWidth frame.isContinuation + column]? = some b)
    (here : live.plain[promptWidth frame.isContinuation + n]? = some c)
    (marked : r.liveLine frame =
      ((live.highlight (promptWidth frame.isContinuation + column) .paren).highlight
        (promptWidth frame.isContinuation + n) .paren, none))
    (plain : ∀ i, isParen live i = false) :
    r.isHighlighted frame place = true ↔ place ∈ ends (some (.live column)) n := by
  rw [← StyledLine.plain_highlight there .paren] at here
  cases place with
  | live i =>
    rw [isHighlighted, marked]
    dsimp only
    rw [isParen_highlight here, isParen_highlight there, plain]
    simp only [ends, Bool.or_false, Bool.or_eq_true, beq_iff_eq, Nat.add_left_cancel_iff,
      List.mem_cons, Position.live.injEq, List.not_mem_nil, or_false]
    exact or_comm
  | earlier number i =>
    rw [isHighlighted, marked]
    cases r.transcript.line? number <;> simp [ends]

/-- The bracket at the cursor is marked on the edited line, the other one on an earlier line. -/
lemma isHighlighted_of_earlier {number column n : Nat} {c : UInt8} {line : TranscriptLine}
    {shown : StyledLine} (there : r.transcript.line? number = some line)
    (here : live.plain[promptWidth frame.isContinuation + n]? = some c)
    (marked : r.liveLine frame = (live.highlight (promptWidth frame.isContinuation + n) .paren,
      some { line := number, column := line.promptWidth + column, plain := shown }))
    (plain : ∀ i, isParen live i = false) :
    r.isHighlighted frame place = true ↔ place ∈ ends (some (.earlier number column)) n := by
  cases place with
  | live i => simp [isHighlighted, marked, ends, isParen_highlight here, plain]
  | earlier other i =>
    rw [isHighlighted, marked]
    by_cases same : other = number
    · subst same
      simp only [ends, there, beq_self_eq_true, Bool.true_and, beq_iff_eq, Nat.add_left_cancel_iff,
        List.mem_cons, Position.earlier.injEq, true_and, reduceCtorEq, List.not_mem_nil, or_false]
      exact eq_comm
    · have isOther : (number == other) = false := beq_false_of_ne (Ne.symm same)
      cases r.transcript.line? other <;> simp [ends, isOther, same]

/-- What is highlighted is the bracket left of the cursor and the one that is found. -/
theorem isHighlighted_iff (lexes : r.tokenize = Calc.highlight) (typed : frame.isPaste = false)
    (closes : openingFor? close = some opening)
    (atCursor : frame.text.take frame.cursor = left ++ [close]) (place : Position) :
    r.isHighlighted frame place = true ↔ place ∈ ends (r.found? opening close left) left.length := by
  have text : frame.text = left ++ close :: frame.text.drop frame.cursor := by
    rw [← List.singleton_append, ← List.append_assoc, ← atCursor, List.take_append_drop]
  have plain := isParen_live lexes frame.isContinuation frame.text
  have shows : StyledLine.plain (prompt frame.isContinuation :: r.highlight frame.text) =
      (prompt frame.isContinuation).text ++ frame.text := by
    rw [StyledLine.plain_cons, plain_highlight]
  have here := getElem?_behind_prompt shows text
  have marked := matchParen_eq (r := r) closes atCursor
    (prompt frame.isContinuation :: r.highlight frame.text)
  rw [← liveLine_of_typed r typed] at marked
  generalize found : r.found? opening close left = answer at marked
  rcases answer with _ | column | ⟨number, column⟩
  · rw [isHighlighted_of_none marked plain]
    simp [ends]
  · obtain ⟨front, back, rfl, rfl⟩ := found?_eq_live found
    have opens : frame.text = front ++ opening :: (back ++ close :: frame.text.drop frame.cursor) := by
      conv_lhs => rw [text]
      simp
    exact isHighlighted_of_live (getElem?_behind_prompt shows opens) here marked plain
  · obtain ⟨line, there, marked⟩ := marked
    exact isHighlighted_of_earlier there here marked plain

/-! ### The bracket and its partner -/

/-- The bracket at a column of the edited line and its partner are what is highlighted; without a
partner, nothing is. -/
def Highlights (r : Renderer) (frame : Frame) (partner : Option Position) (column : Nat) : Prop :=
  ∀ place, r.isHighlighted frame place = true ↔ place ∈ ends partner column

/-- The ends of a pair tell the earlier one. -/
lemma ends_inj {partner other : Option Position} {column : Nat}
    (differ : partner ≠ some (.live column)) (differ' : other ≠ some (.live column))
    (same : ∀ place, place ∈ ends partner column ↔ place ∈ ends other column) : partner = other := by
  have here := same (.live column)
  cases partner with
  | none =>
    cases other with
    | none => rfl
    | some place => simp [ends] at here
  | some place =>
    have there := same place
    cases other with
    | none => simp [ends] at here
    | some other =>
      have ne : place ≠ .live column := fun isLive => differ (congrArg some isLive)
      simpa [ends, ne] using there

/-- The cursor stands right behind a closing bracket that is a token of its line. -/
structure IsBehind (frame : Frame) (opening close : UInt8) (front : List Token) (bracket : Token) :
    Prop where
  typed : frame.isPaste = false
  tokens : ∃ back, Token.lex frame.text = front ++ bracket :: back
  sign : bracket.kind = .punctuation
  text : bracket.text = [close]
  closes : openingFor? close = some opening
  cursor : frame.cursor = bracket.pos + 1

lemma IsBehind.text_eq {bracket : Token} (h : IsBehind frame opening close front bracket) :
    bracket.pos = (front.flatMap Token.text).length ∧
      ∃ behind, frame.text = front.flatMap Token.text ++ close :: behind := by
  obtain ⟨back, tokens⟩ := h.tokens
  obtain ⟨behind, whole, rest⟩ := Token.lexFrom_eq_append tokens
  cases behind with
  | nil =>
    rw [Token.lexFrom_nil] at rest
    cases rest
  | cons b behind =>
    rw [Token.lexFrom_cons, Nat.zero_add] at rest
    obtain ⟨rfl, -⟩ := List.cons.inj rest
    obtain ⟨rfl, -⟩ := List.cons.inj h.text
    exact ⟨rfl, behind, whole⟩

/-- With the cursor behind a closing bracket, and the brackets before it properly nested as tokens, the
bracket and its partner are what is highlighted just if all bytes in between, those of strings and
comments too, have paired brackets of the kind; without a partner nothing is, just if no byte before is
an opening bracket left over. So it is whenever no string and no comment of the statement holds a
bracket of the kind, unless the innermost open bracket is of another kind and one of this kind is open,
too. -/
theorem highlights_partner_iff (r : Renderer) (frame : Frame) (front : List Token) (bracket : Token)
    (stack : List Placed) (opening close : UInt8) (lexes : r.tokenize = Calc.highlight)
    (cursor : IsBehind frame opening close front bracket)
    (nested : Placed.nest? (r.bracketsBefore front) = some stack) :
    let partner := Placed.partner? opening stack
    (r.Highlights frame partner bracket.pos ↔
        r.IsReached opening close (frame.text.take bracket.pos) partner) ∧
      (r.IsPlain opening close front → (partner = none → ∀ top ∈ stack, top.byte ≠ opening) →
        r.Highlights frame partner bracket.pos) := by
  intro partner
  obtain ⟨back, parted⟩ := cursor.tokens
  obtain ⟨pos, behind, whole⟩ := cursor.text_eq
  have left : frame.text.take bracket.pos = front.flatMap Token.text := by
    rw [whole, pos, List.take_left]
  have atCursor : frame.text.take frame.cursor = front.flatMap Token.text ++ [close] := by
    rw [cursor.cursor, whole, pos, List.take_length_add_append]
    rfl
  have highlights_iff : r.Highlights frame partner bracket.pos ↔
      r.IsReached opening close (frame.text.take bracket.pos) partner := by
    rw [left, ← found?_eq_iff cursor.closes parted nested, pos]
    have shown := isHighlighted_iff lexes cursor.typed cursor.closes atCursor
    constructor
    · intro highlights
      refine ends_inj ?_ ?_ fun place => (shown place).symm.trans (highlights place)
      · intro found
        obtain ⟨b, mem, place⟩ := mem_of_found? found
        exact place_ne_live mem place
      · intro isPartner
        obtain ⟨b, mem, -, place⟩ := mem_of_partner? cursor.closes parted nested isPartner
        exact place_ne_live mem place
    · intro found place
      rw [shown place, found]
  refine ⟨highlights_iff, fun plain alone => highlights_iff.2 ?_⟩
  rw [left]
  exact plain.isReached cursor.closes parted nested alone

/-- The bracket on the line before, although brackets of other kinds are in between and in a string. -/
theorem highlights_partner_above :
    let r := ((new Calc.highlight ⟨6, 40⟩).beginInput false).commitInput (bytes "f([']', ") false
    let frame : Frame := { text := bytes "2])", cursor := 3, isContinuation := true }
    r.Highlights frame (some (.earlier 0 1)) 2 ∧
      Balanced (Ascii.code '(') (Ascii.code ')') (r.bytesBehind (bytes "2]") (.earlier 0 1)) := by
  intro r frame
  let front : List Token := [⟨.number, bytes "2", 0⟩, ⟨.punctuation, bytes "]", 1⟩]
  let bracket : Token := ⟨.punctuation, bytes ")", 2⟩
  have cursor : IsBehind frame (Ascii.code '(') (Ascii.code ')') front bracket :=
    { typed := rfl, tokens := ⟨[], by decide +kernel⟩, sign := rfl, text := rfl, closes := rfl
      cursor := rfl }
  have plain : r.IsPlain (Ascii.code '(') (Ascii.code ')') front :=
    { earlier := by decide +kernel, live := by decide +kernel }
  obtain ⟨highlights_iff, harmless⟩ := highlights_partner_iff r frame front bracket
    [⟨Ascii.code '(', .earlier 0 1⟩] _ _ rfl cursor (by decide +kernel)
  have highlights := harmless plain nofun
  exact ⟨highlights, highlights_iff.1 highlights⟩

/-- The search stops at the bracket in the string. -/
theorem bracket_of_string_highlighted :
    let r := (new Calc.highlight ⟨4, 20⟩).beginInput false
    let frame : Frame := { text := bytes "f('(', 2)", cursor := 9 }
    let front := (Token.lex frame.text).dropLast
    let bracket : Token := ⟨.punctuation, bytes ")", 8⟩
    let stack : List Placed := [⟨Ascii.code '(', .live 1⟩]
    r.tokenize = Calc.highlight ∧
      IsBehind frame (Ascii.code '(') (Ascii.code ')') front bracket ∧
      Placed.nest? (r.bracketsBefore front) = some stack ∧
      ¬ r.Highlights frame (Placed.partner? (Ascii.code '(') stack) bracket.pos ∧
      r.isHighlighted frame (.live 3) = true := by
  intro r frame front bracket stack
  have cursor : IsBehind frame (Ascii.code '(') (Ascii.code ')') front bracket :=
    { typed := rfl, tokens := ⟨[], by decide +kernel⟩, sign := rfl, text := rfl, closes := rfl
      cursor := rfl }
  refine ⟨rfl, cursor, by decide +kernel, fun highlights => ?_, by decide +kernel⟩
  have shown : r.isHighlighted frame (.live 1) = false := by decide +kernel
  rw [(highlights (.live 1)).2 List.mem_cons_self] at shown
  cases shown

end Renderer
end CalcShell
