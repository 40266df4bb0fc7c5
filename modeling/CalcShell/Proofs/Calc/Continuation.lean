import CalcShell.Proofs.Calc.Spacing
import CalcShell.Proofs.Calc.Statements
import Mathlib.Data.List.Induction
import Mathlib.Data.List.Infix

/-! Statements over several lines. Their lines are joined before they are read, so each line says what
it says by itself, as long as no comment stands before it: a comment hides all the lines that follow. -/
namespace CalcShell.Calc

open Token (content unplaced hasComment ClosesStrings bracketDepth significant)

/-! ### What lines say -/

/-- What a line says by itself, without the backslash that continues it. -/
def lineContent (line : Bytes) : List Token := content (withoutBackslash line)

/-- What lines say one by one. -/
def said (lines : List Bytes) : List Token := lines.flatMap lineContent

/-- The lines up to the first one with a comment. -/
def heard : List Bytes → List Bytes
  | [] => []
  | line :: rest => if hasComment (withoutBackslash line) then [line] else line :: heard rest

lemma said_cons (line : Bytes) (rest : List Bytes) : said (line :: rest) = lineContent line ++ said rest :=
  rfl

lemma said_heard_cons (line : Bytes) (rest : List Bytes) :
    said (heard (line :: rest)) =
      if hasComment (withoutBackslash line) then lineContent line
      else lineContent line ++ said (heard rest) := by
  rw [heard]
  split
  · exact List.append_nil _
  · rfl

lemma heard_prefix (lines : List Bytes) : heard lines <+: lines := by
  induction lines with
  | nil => exact List.prefix_refl []
  | cons line rest ih =>
    rw [heard]
    split
    · exact ⟨rest, rfl⟩
    · exact (List.prefix_cons_inj line).2 ih

/-- All lines are heard if only the last one has a comment, if any. -/
lemma heard_snoc_iff (lines : List Bytes) (line : Bytes) :
    heard (lines ++ [line]) = lines ++ [line] ↔
      ∀ before ∈ lines, hasComment (withoutBackslash before) = false := by
  induction lines with
  | nil => simp [heard]
  | cons first rest ih =>
    rw [List.cons_append, heard, List.forall_mem_cons, ← ih]
    cases hasComment (withoutBackslash first) <;> simp

/-- What is heard is all that is said just if nothing is said behind the first comment. -/
lemma said_heard_eq_iff (lines : List Bytes) :
    said (heard lines) = said lines ↔ said (lines.drop (heard lines).length) = [] := by
  obtain ⟨behind, whole⟩ := heard_prefix lines
  have rest : lines.drop (heard lines).length = behind :=
    (congrArg (List.drop _) whole.symm).trans List.drop_left
  have split : said lines = said (heard lines) ++ said behind := by
    rw [said, said, said, ← List.flatMap_append, whole]
  rw [rest, split]
  exact List.self_eq_append_right

/-! ### Joined lines -/

lemma foldl_join {joined : Bytes} (some : joined ≠ []) (lines : List Bytes) :
    lines.foldl (fun joined line =>
        (if joined.isEmpty then [] else joined ++ [Ascii.space]) ++ withoutBackslash line) joined =
      joined ++ lines.flatMap fun line => Ascii.space :: withoutBackslash line := by
  induction lines generalizing joined with
  | nil => exact (List.append_nil _).symm
  | cons line rest ih =>
    rw [List.foldl_cons, List.isEmpty_eq_false_iff.2 some, if_neg Bool.false_ne_true, ih (by simp)]
    simp

lemma joinLines_cons (line : Bytes) (rest : List Bytes) :
    joinLines (line :: rest) =
      if withoutBackslash line = [] then joinLines rest
      else withoutBackslash line ++ rest.flatMap fun line => Ascii.space :: withoutBackslash line := by
  rw [joinLines, List.foldl_cons, List.isEmpty_nil, if_pos rfl, List.nil_append]
  split
  · rename_i none
    rw [none, joinLines]
  · rename_i some
    exact foldl_join some rest

lemma content_append_lines {text : Bytes} (closed : ClosesStrings text) {lines : List Bytes}
    (others : ∀ line ∈ lines, ClosesStrings (withoutBackslash line)) :
    content (text ++ lines.flatMap fun line => Ascii.space :: withoutBackslash line) =
      if hasComment text then content text else content text ++ said (heard lines) := by
  induction lines generalizing text with
  | nil => simp [said, heard]
  | cons line rest ih =>
    obtain ⟨first, others⟩ := List.forall_mem_cons.1 others
    rw [List.flatMap_cons, List.cons_append, Token.content_append_space closed, ih first others,
      said_heard_cons]
    rfl

/-- Where every string is closed on its own line, joined lines say what the lines that are heard say
one by one. -/
theorem content_joinLines {lines : List Bytes}
    (closed : ∀ line ∈ lines, ClosesStrings (withoutBackslash line)) :
    content (joinLines lines) = said (heard lines) := by
  induction lines with
  | nil => exact Token.content_nil
  | cons line rest ih =>
    obtain ⟨first, others⟩ := List.forall_mem_cons.1 closed
    rw [joinLines_cons, said_heard_cons]
    split
    -- No space is put behind pieces without text as long as there are no others.
    · rename_i none
      rw [ih others, lineContent, none, Token.hasComment_nil, Token.content_nil]
      rfl
    · exact content_append_lines first others

/-! ### Open statements -/

lemma bracketDepth_append (tokens others : List Token) :
    bracketDepth (tokens ++ others) = bracketDepth tokens + bracketDepth others := by
  simp only [bracketDepth, List.countP_append]
  omega

lemma bracketDepth_unplaced (tokens : List Token) :
    bracketDepth (tokens.map unplaced) = bracketDepth tokens := by
  rw [bracketDepth, List.countP_map, List.countP_map]
  rfl

/-- Brackets that are open behind some lines, each of them read by itself. -/
def openBrackets : List Bytes → Int
  | [] => 0
  | line :: rest => bracketDepth (lineContent line) + openBrackets rest

lemma bracketDepth_said (lines : List Bytes) : bracketDepth (said lines) = openBrackets lines := by
  induction lines with
  | nil => rfl
  | cons line rest ih => rw [said_cons, bracketDepth_append, ih, openBrackets]

/-- The statement in some lines is not complete. -/
def GoesOn (lines : List Bytes) : Prop :=
  0 < openBrackets (heard lines) ∨ ∃ line ∈ lines.getLast?, endsInBackslash line = true

/-- The tokens are the header of a block. -/
def IsHeader (tokens : List Token) : Prop :=
  2 ≤ tokens.length ∧ (∃ first ∈ tokens.head?, first.is .keyword "repeat") ∧
    ∃ last ∈ tokens.getLast?, last.is .punctuation ":"

instance (tokens : List Token) : Decidable (IsHeader tokens) :=
  inferInstanceAs (Decidable (2 ≤ tokens.length ∧ (∃ first ∈ tokens.head?, first.is .keyword "repeat") ∧
    ∃ last ∈ tokens.getLast?, last.is .punctuation ":"))

lemma repeatCount?_eq_none_iff {text : Bytes} {tokens : List Token} :
    repeatCount? text tokens = none ↔ ¬IsHeader (tokens.map unplaced) := by
  match tokens with
  | [] => simp [repeatCount?, IsHeader]
  | [token] => simp [repeatCount?, IsHeader]
  | first :: second :: rest =>
    have last : (first :: second :: rest).getLast? = some ((second :: rest).getLast (by simp)) := by
      simp [List.getLast?_eq_some_getLast]
    have is (token : Token) (kind : TokenKind) (text : String) :
        token.unplaced.is kind text = token.is kind text := rfl
    simp only [repeatCount?, last, IsHeader, List.getLast?_map, List.length_map]
    simp [is]

namespace Calculator

variable {c : Calculator} {env : Environment} {p : Patience} {lines : List Bytes} {line : Bytes}

lemma asks_iff (closed : ∀ l ∈ lines ++ [line], ClosesStrings (withoutBackslash l)) :
    (decide (0 < bracketDepth (significant (joinLines (lines ++ [line])))) ||
        endsInBackslash line) = true ↔ GoesOn (lines ++ [line]) := by
  rw [← bracketDepth_unplaced, ← content, content_joinLines closed, bracketDepth_said, GoesOn]
  simp

/-- A line of a statement that is not complete is kept. -/
lemma step_of_goesOn (idle : c.block = none)
    (closed : ∀ l ∈ lines ++ [line], ClosesStrings (withoutBackslash l))
    (goesOn : GoesOn (lines ++ [line])) :
    { c with pending := lines }.step line = .wait { c with pending := lines ++ [line] } 0 := by
  unfold step
  rw [idle]
  dsimp only
  rw [if_pos ((asks_iff closed).2 goesOn)]

/-- The last line of a statement runs what is heard of all its lines. -/
lemma step_of_complete (idle : c.block = none) (none : c.pending = [])
    (closed : ∀ l ∈ lines ++ [line], ClosesStrings (withoutBackslash l))
    (complete : ¬GoesOn (lines ++ [line])) (plain : ¬IsHeader (said (heard (lines ++ [line])))) :
    { c with pending := lines }.step line =
      .run c (reporting (parseStatement (joinLines (lines ++ [line]))).run) := by
  have noCount : repeatCount? (joinLines (lines ++ [line]))
      (significant (joinLines (lines ++ [line]))) = Option.none := by
    rw [repeatCount?_eq_none_iff, ← content, content_joinLines closed]
    exact plain
  obtain ⟨names, pending, block, calls⟩ := c
  cases idle
  cases none
  unfold step
  dsimp only
  rw [if_neg (mt (asks_iff closed).1 complete), noCount]

lemma asksMore_ran (c next : Calculator) (ended : Run.End Unit) :
    (c.ran next ended).outcome.asksMore = false := by
  rcases ended with ⟨_, m⟩ | ⟨_ | _ | _, m⟩ <;> rfl

/-- In the midst of a statement a line asks for more just if the statement is still not complete. -/
lemma asksMore_submit_iff (idle : c.block = none) (none : c.pending = [])
    (closed : ∀ l ∈ lines ++ [line], ClosesStrings (withoutBackslash l))
    (plain : ¬IsHeader (said (heard (lines ++ [line])))) :
    ({ c with pending := lines }.submit env p line).outcome.asksMore = true ↔
      GoesOn (lines ++ [line]) := by
  by_cases goesOn : GoesOn (lines ++ [line])
  · rw [submit_wait env p line (step_of_goesOn idle closed goesOn)]
    exact iff_of_true rfl goesOn
  · rw [submit_run env p line (step_of_complete idle none closed goesOn plain), asksMore_ran]
    exact iff_of_false Bool.false_ne_true goesOn

/-! ### Lines one after the other -/

/-- The calculator and its user behind some lines. -/
def enter (env : Environment) (c : Calculator) (p : Patience) (lines : List Bytes) :
    Calculator × Patience :=
  lines.foldl
    (fun state line =>
      let submission := state.1.submit env state.2 line
      (submission.next, submission.patience))
    (c, p)

/-- The next line, with some lines before it. -/
def submitBehind (env : Environment) (c : Calculator) (p : Patience) (lines : List Bytes)
    (line : Bytes) : Submission Calculator :=
  (enter env c p lines).1.submit env (enter env c p lines).2 line

lemma enter_snoc (lines : List Bytes) (line : Bytes) :
    enter env c p (lines ++ [line]) =
      ((submitBehind env c p lines line).next, (submitBehind env c p lines line).patience) := by
  rw [enter, List.foldl_append]
  rfl

/-- Lines that all ask for more are kept, and nothing else happens. -/
lemma enter_of_asksMore (idle : c.block = none) (none : c.pending = [])
    (closed : ∀ line ∈ lines, ClosesStrings (withoutBackslash line))
    (plain : ∀ part, part <+: lines → ¬IsHeader (said (heard part)))
    (asked : ∀ part line, part ++ [line] <+: lines →
      (submitBehind env c p part line).outcome.asksMore = true) :
    enter env c p lines = ({ c with pending := lines }, p) := by
  induction lines using List.reverseRecOn with
  | nil =>
    have same : { c with pending := [] } = c := by rw [← none]
    rw [same]
    rfl
  | append_singleton lines line ih =>
    have behind := ih (fun l mem => closed l (List.mem_append_left _ mem))
      (fun part isPart => plain part (isPart.trans (List.prefix_append _ _)))
      (fun part l isPart => asked part l (isPart.trans (List.prefix_append _ _)))
    have goesOn := asked lines line (List.prefix_refl _)
    rw [submitBehind, behind, asksMore_submit_iff idle none closed (plain _ (List.prefix_refl _))]
      at goesOn
    rw [enter_snoc, submitBehind, behind, submit_wait env p line (step_of_goesOn idle closed goesOn)]

/-- A statement may be split over lines whose strings are closed. As long as all of its lines asked for
more, the next one asks for more just if brackets are open in the lines that are heard, each of them
read by itself, or if it ends in a backslash. The line that completes it runs the tokens of the lines
that are heard. Those are all lines unless one of them goes on behind a comment, and all tokens unless
some stand behind the line of the first comment. -/
theorem submit_behind_lines (env : Environment) (c : Calculator) (p : Patience) (lines : List Bytes)
    (line : Bytes) (idle : c.isUnfinished = false)
    (closed : ∀ l ∈ lines ++ [line], ClosesStrings (withoutBackslash l))
    (plain : ∀ part, part <+: lines ++ [line] → ¬IsHeader (said (heard part)))
    (asked : ∀ part l, part ++ [l] <+: lines → (submitBehind env c p part l).outcome.asksMore = true) :
    let all := lines ++ [line]
    let submission := submitBehind env c p lines line
    (submission.outcome.asksMore = true ↔
        0 < openBrackets (heard all) ∨ endsInBackslash line = true) ∧
      (submission.outcome.asksMore = false → ∃ tokens, tokens.map unplaced = said (heard all) ∧
        submission = { c with pending := lines }.ran c
          ((reporting (Grammar.statement tokens).run).run (c.machine env p))) ∧
      (heard all = all ↔ ∀ before ∈ lines, hasComment (withoutBackslash before) = false) ∧
      (said (heard all) = said all ↔ said (all.drop (heard all).length) = []) := by
  intro all submission
  obtain ⟨none, noBlock⟩ := isUnfinished_eq_false.1 idle
  have header : ¬IsHeader (said (heard all)) := plain all (List.prefix_refl _)
  have behind : enter env c p lines = ({ c with pending := lines }, p) :=
    enter_of_asksMore noBlock none (fun l mem => closed l (List.mem_append_left _ mem))
      (fun part isPart => plain part (isPart.trans (List.prefix_append _ _))) asked
  have isSubmission : submission = { c with pending := lines }.submit env p line := by
    change submitBehind env c p lines line = _
    rw [submitBehind, behind]
  have asks : submission.outcome.asksMore = true ↔ GoesOn all := by
    rw [isSubmission]
    exact asksMore_submit_iff noBlock none closed header
  refine ⟨asks.trans ?_, fun done => ?_, heard_snoc_iff lines line, said_heard_eq_iff all⟩
  · simp [GoesOn, all]
  · have complete : ¬GoesOn all := by
      rw [← asks, done]
      exact Bool.false_ne_true
    refine ⟨significant (joinLines all), content_joinLines closed, ?_⟩
    rw [isSubmission, submit_run env p line (step_of_complete noBlock none closed complete header)]
    rfl

/-- A sum over two lines, the second of which has a comment. -/
theorem sum_over_two_lines :
    let submission := submitBehind .empty {} {} [bytes "(1 +"] (bytes "2) # sum")
    submission.outcome.asksMore = false ∧ ∃ tokens,
      tokens.map (·.text) = ["(", "1", "+", "2", ")"].map bytes ∧
        submission = { pending := [bytes "(1 +"] : Calculator }.ran {}
          ((reporting (Grammar.statement tokens).run).run (machine {} .empty {})) := by
  intro submission
  have plain : ∀ part ∈ List.inits [bytes "(1 +", bytes "2) # sum"], ¬IsHeader (said (heard part)) := by
    decide +kernel
  obtain ⟨asks, runs, -, -⟩ := submit_behind_lines .empty {} {} [bytes "(1 +"] (bytes "2) # sum") rfl
    (by decide +kernel) (fun part isPart => plain part ((List.mem_inits _ _).2 isPart)) (by
      rintro (_ | ⟨first, part⟩) line isPart
      · obtain rfl : line = bytes "(1 +" := by simpa using isPart
        decide +kernel
      · have short := isPart.length_le
        simp at short)
  have done : submission.outcome.asksMore = false := by
    rw [← Bool.not_eq_true, asks]
    decide +kernel
  obtain ⟨tokens, read, ran⟩ := runs done
  refine ⟨done, tokens, ?_, ran⟩
  calc tokens.map (·.text)
    _ = (tokens.map unplaced).map (·.text) := by rw [List.map_map]; rfl
    _ = (said (heard [bytes "(1 +", bytes "2) # sum"])).map (·.text) := by rw [read]; rfl
    _ = ["(", "1", "+", "2", ")"].map bytes := by decide +kernel

/-- A comment hides the bracket that closes on the next line. -/
theorem comment_hides_closing_bracket :
    let lines := [bytes "(1 # one", bytes "+ 2)"]
    let first := submitBehind .empty {} {} [] (bytes "(1 # one")
    let second := submitBehind .empty {} {} [bytes "(1 # one"] (bytes "+ 2)")
    (∀ line ∈ lines, ClosesStrings (withoutBackslash line)) ∧
      (∀ part ∈ lines.inits, ¬IsHeader (said part)) ∧ first.outcome.asksMore = true ∧
      openBrackets lines = 0 ∧ endsInBackslash (bytes "+ 2)") = false ∧
      second.outcome.asksMore = true := by
  decide +kernel

end Calculator
end CalcShell.Calc
