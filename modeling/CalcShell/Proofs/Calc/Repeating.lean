import CalcShell.Proofs.Calc.Header
import CalcShell.Proofs.Calc.Pieces
import CalcShell.Proofs.Calc.Unplaced

/-! A block runs like its lines entered one by one. Both are told by the same actions: a line that is
entered runs its statement on what the lines before it left, and the machine of a block hands on just
that, with what was written so far on top. -/
namespace CalcShell

variable {ε : Type}

/-- The line is done and raised no error. -/
def Submission.goesOn (s : Submission ε) : Bool :=
  match s.outcome with
  | .finished _ _ => s.pieces.all fun piece => !piece.isError
  | _ => false

/-- With pieces written before its own. -/
def Submission.behind (s : Submission ε) (before : List Piece) : Submission ε :=
  { s with pieces := before ++ s.pieces }

namespace Calc
open CalcShell.Calc.Run (Composed End IsInterrupted)
open Token (content unplaced hasComment ClosesStrings bracketDepth significant isBlank)

/-- A line with a statement of its own: it is not blank, leaves no bracket open, does not end in a
backslash and is not the header of a block. -/
structure IsWhole (line : Bytes) : Prop where
  marked : trimLine line ≠ []
  closed : bracketDepth (lineContent line) ≤ 0
  ends : endsInBackslash line = false
  plain : ¬IsHeader (lineContent line)

/-- The number that a count comes to. -/
def countOf (count : Bytes) : Run Float := do
  let value ← (parseExpression count).eval
  match value.number? with
  | some x => pure x
  | none => Run.fail (.repeatCount value.typeName)

/-- Runs the statements of some lines. -/
def runLines (lines : List Bytes) : Run Unit :=
  lines.forM fun line => (parseStatement (trimLine line)).run

namespace Calculator

/-- Enters lines one after the other, up to the first one that raises an error. -/
def enterEach (env : Environment) (c : Calculator) (p : Patience) : List Bytes → Submission Calculator
  | [] => ⟨.finished false 0, [], c, p⟩
  | line :: lines =>
    let first := c.submit env p line
    if first.goesOn then (enterEach env first.next first.patience lines).behind first.pieces
    else first

/-- Evaluates a count once and enters lines as often as it says, a fraction not counted. -/
def enterTimes (env : Environment) (c : Calculator) (p : Patience) (count : Bytes)
    (lines : List Bytes) : Submission Calculator :=
  match (countOf count).run (c.machine env p) with
  | .ok x m =>
    ((c.after m).enterEach env m.patience
      (List.replicate x.floor.toUInt64.toNat lines).flatten).behind m.written.reverse
  | .error stop m => c.ran c ((reporting (throw stop)).run m)

end Calculator

/-! ### Actions of a block -/

lemma composed_countOf (count : Bytes) : Composed (countOf count) := by
  refine .bind (parseExpression count).composed_eval fun value => ?_
  split
  · exact .pure _
  · exact .fail _

lemma composed_runLines (lines : List Bytes) : Composed (runLines lines) :=
  .forM (fun _ => Statement.composed_run _) lines

lemma repeatRun_forM {α : Type} (f : α → Run Unit) (as : List α) (n : Nat) :
    repeatRun (as.forM f) n = (List.replicate n as).flatten.forM f := by
  induction n with
  | zero => rfl
  | succ n ih =>
    rw [repeatRun, ih, List.replicate_succ, List.flatten_cons]
    exact List.forM_append.symm

/-- A block counts once and then runs its lines over and over. -/
lemma runBlock_eq (count : Bytes) (lines : List Bytes) :
    runBlock (parseExpression count) ((lines.map trimLine).map parseStatement) =
      countOf count >>= fun x => runLines (List.replicate (Number.repetitions x) lines).flatten := by
  have body : ((lines.map trimLine).map parseStatement).forM Statement.run = runLines lines := by
    simp only [List.map_map, runLines]
    exact List.forM_map
  rw [runBlock, countOf, bind_assoc, body]
  congr 1
  funext value
  cases value.number? with
  | none => rfl
  | some x =>
    rw [pure_bind]
    exact repeatRun_forM _ lines _

/-! ### One action behind another -/

lemma isInterrupted_onto {α : Type} {r : End α} (before : List Piece) :
    IsInterrupted (End.onto r before) ↔ IsInterrupted r := by
  constructor
  · rintro ⟨m, cut⟩
    rcases r with ⟨a, m₁⟩ | ⟨stop, m₁⟩ <;> cases cut
    exact ⟨m₁, rfl⟩
  · rintro ⟨m, rfl⟩
    exact ⟨_, rfl⟩

lemma isInterrupted_reporting {action : Run Unit} {m : Machine} :
    IsInterrupted ((reporting action).run m) ↔ IsInterrupted (action.run m) := by
  rw [Run.run_reporting]
  constructor
  · rintro ⟨m₁, cut⟩
    revert cut
    rcases action.run m with ⟨_, m'⟩ | ⟨_ | _ | _, m'⟩ <;> intro cut <;> cases cut
    exact ⟨_, rfl⟩
  · rintro ⟨m₁, cut⟩
    rw [cut]
    exact ⟨m₁, rfl⟩

namespace Calculator

variable {c : Calculator} {env : Environment} {p : Patience}

lemma outcome_ran_eq_interrupted {next : Calculator} {r : End Unit} :
    (c.ran next r).outcome = .interrupted ↔ IsInterrupted r := by
  constructor
  · intro cut
    rcases r with ⟨_, m⟩ | ⟨_ | _ | _, m⟩ <;> cases cut
    exact ⟨m, rfl⟩
  · rintro ⟨m, rfl⟩
    rfl

/-- What was written before a run stands before what it writes. -/
lemma ran_onto {m : Machine} {r : End Unit} (calm : ¬IsInterrupted r) :
    c.ran c (End.onto r m.written) =
      ((c.after m).ran (c.after m) r).behind m.written.reverse := by
  rcases r with ⟨_, m₁⟩ | ⟨_ | _ | _, m₁⟩
  · simp [ran, Submission.behind, End.onto, Machine.onto, after]
  · simp [ran, Submission.behind, End.onto, Machine.onto, after]
  · simp [ran, Submission.behind, End.onto, Machine.onto, after]
  · exact absurd ⟨m₁, rfl⟩ calm

/-- An action that goes on behind another one goes on as if by itself from what that one left. -/
lemma ran_bind {α : Type} {first : Run α} {rest : α → Run Unit} (composed : Composed first)
    (others : ∀ a, Composed (rest a)) {a : α} {m : Machine}
    (ok : first.run (c.machine env p) = .ok a m)
    (calm : ¬IsInterrupted ((first >>= rest).run (c.machine env p))) :
    ¬IsInterrupted ((rest a).run ((c.after m).machine env m.patience)) ∧
      c.ran c ((reporting (first >>= rest)).run (c.machine env p)) =
        ((c.after m).ran (c.after m)
          ((reporting (rest a)).run ((c.after m).machine env m.patience))).behind
            m.written.reverse := by
  have sameEnv : m.env = env := by
    have onward := (composed.steady.onward (c.machine env p)).env
    rw [ok] at onward
    exact onward
  have split : ((c.after m).machine env m.patience).onto m.written = m := by
    rw [← sameEnv]
    rfl
  have goesOn : (first >>= rest).run (c.machine env p) = (rest a).run m := by
    rw [EStateM.run_bind, ok]
  have calmRest : ¬IsInterrupted ((rest a).run ((c.after m).machine env m.patience)) := by
    rw [← isInterrupted_onto m.written, ← (others a).frames, split, ← goesOn]
    exact calm
  refine ⟨calmRest, ?_⟩
  have reported : (reporting (first >>= rest)).run (c.machine env p) =
      (reporting (rest a)).run m := by
    rw [Run.run_reporting, Run.run_reporting, goesOn]
  rw [reported, ← ran_onto (mt isInterrupted_reporting.1 calmRest), ← (others a).frames.reporting, split]

/-- An action stops where the one in front of it stops. -/
lemma run_reporting_bind_of_error {α : Type} {first : Run α} {rest : α → Run Unit} {stop : Stop}
    {m m' : Machine} (error : first.run m = .error stop m') :
    (reporting (first >>= rest)).run m = (reporting (throw stop)).run m' := by
  rw [Run.run_reporting, Run.run_reporting, EStateM.run_bind, error]
  rfl

/-! ### Lines by themselves -/

lemma withoutBackslash_of_ends {line : Bytes} (ends : endsInBackslash line = false) :
    withoutBackslash line = trimLine line := by
  rw [endsInBackslash, beq_eq_false_iff_ne] at ends
  exact if_neg ends

lemma joinLines_singleton (line : Bytes) : joinLines [line] = withoutBackslash line :=
  List.nil_append _

/-- A whole line runs its statement. -/
lemma step_whole (idle : c.isUnfinished = false) {line : Bytes} (whole : IsWhole line) :
    c.step line = .run c (reporting (parseStatement (trimLine line)).run) := by
  have text : joinLines ([] ++ [line]) = trimLine line := by
    rw [List.nil_append, joinLines_singleton, withoutBackslash_of_ends whole.ends]
  have tokens : (significant (trimLine line)).map unplaced = lineContent line := by
    rw [lineContent, withoutBackslash_of_ends whole.ends, content]
  have closed : ¬0 < bracketDepth (significant (trimLine line)) := by
    rw [← bracketDepth_unplaced, tokens]
    exact Int.not_lt.2 whole.closed
  have noCount : repeatCount? (trimLine line) (significant (trimLine line)) = none := by
    rw [repeatCount?_eq_none_iff, tokens]
    exact whole.plain
  obtain ⟨noLines, noBlock⟩ := isUnfinished_eq_false.1 idle
  obtain ⟨names, pending, block, calls⟩ := c
  cases noLines
  cases noBlock
  unfold step
  dsimp only
  rw [text, noCount, whole.ends, decide_eq_false closed, Bool.or_self, if_neg Bool.false_ne_true]

/-- A statement that ran raised no error. -/
lemma goesOn_ran_ok {action : Run Unit} (composed : Composed action) {m : Machine}
    (ok : action.run (c.machine env p) = .ok () m) : (c.ran c (.ok () m)).goesOn = true := by
  have quiet := composed.isQuiet (c.machine env p)
  rw [ok] at quiet
  change m.written.reverse.all _ = true
  rw [List.all_reverse, List.all_eq_true]
  intro piece mem
  rcases quiet piece mem with old | noError
  · cases old
  · rw [noError]
    rfl

/-- A statement that failed is reported and lets no line follow. -/
lemma goesOn_ran_error (stop : Stop) (m : Machine) :
    (c.ran c ((reporting (throw stop)).run m)).goesOn = false := by
  cases stop with
  | failed e =>
    change (List.reverse (_ :: m.written)).all _ = false
    rw [List.all_reverse, List.all_cons]
    rfl
  | exit => rfl
  | interrupted => rfl

/-- Lines entered one after the other do what their statements do in a row. -/
theorem enterEach_eq_ran (idle : c.isUnfinished = false) {lines : List Bytes}
    (whole : ∀ line ∈ lines, IsWhole line)
    (calm : ¬IsInterrupted ((runLines lines).run (c.machine env p))) :
    c.enterEach env p lines = c.ran c ((reporting (runLines lines)).run (c.machine env p)) := by
  induction lines generalizing c p with
  | nil => rfl
  | cons line lines ih =>
    obtain ⟨first, others⟩ := List.forall_mem_cons.1 whole
    have composed := Statement.composed_run (parseStatement (trimLine line))
    rw [enterEach, submit_run env p line (step_whole idle first)]
    change ¬IsInterrupted ((_ >>= fun _ => runLines lines).run _) at calm
    change _ = c.ran c ((reporting (_ >>= fun _ => runLines lines)).run _)
    generalize ran : (parseStatement (trimLine line)).run.run (c.machine env p) = r
    cases r with
    | ok _ m =>
      have reported : (reporting (parseStatement (trimLine line)).run).run (c.machine env p) =
          .ok () m := by rw [Run.run_reporting, ran]
      obtain ⟨calmRest, split⟩ := ran_bind composed (fun _ => composed_runLines lines) ran calm
      rw [reported, if_pos (goesOn_ran_ok composed ran), split,
        ← ih (c := c.after m) (p := m.patience) idle others calmRest]
      rfl
    | error stop m =>
      have reported : (reporting (parseStatement (trimLine line)).run).run (c.machine env p) =
          (reporting (throw stop)).run m := by
        rw [Run.run_reporting, Run.run_reporting, ran]
        rfl
      rw [reported, goesOn_ran_error, if_neg Bool.false_ne_true, run_reporting_bind_of_error ran]

/-! ### The lines of a block -/

lemma trimLine_header (count : Bytes) : trimLine (header count) = header count := by
  have front : (header count).dropWhile Number.isBlank = header count :=
    List.dropWhile_cons_of_neg (by decide)
  have back : (header count).reverse.dropWhile Number.isBlank = (header count).reverse := by
    rw [header, List.reverse_append]
    exact List.dropWhile_cons_of_neg (by decide)
  rw [trimLine, Bytes.trim, front, back, List.reverse_reverse]

lemma endsInBackslash_header (count : Bytes) : endsInBackslash (header count) = false := by
  rw [endsInBackslash, trimLine_header, header, List.getLast?_concat]
  decide

/-- The header of a block waits for the lines of the block. -/
lemma step_header {count : Bytes} (idle : c.isUnfinished = false) (closed : ClosesStrings count)
    (noComment : hasComment count = false) (balanced : bracketDepth (significant count) ≤ 0) :
    c.step (header count) =
      .wait { c with block := some { count := count.dropWhile isBlank, body := [] } } 1 := by
  have text : joinLines ([] ++ [header count]) = header count := by
    rw [List.nil_append, joinLines_singleton, withoutBackslash_of_ends (endsInBackslash_header count),
      trimLine_header]
  have balanced : ¬0 < bracketDepth (significant (header count)) := by
    rw [bracketDepth_header closed noComment]
    exact Int.not_lt.2 balanced
  obtain ⟨noLines, noBlock⟩ := isUnfinished_eq_false.1 idle
  obtain ⟨names, pending, block, calls⟩ := c
  cases noLines
  cases noBlock
  unfold step
  dsimp only
  rw [text, repeatCount?_header closed noComment, endsInBackslash_header, decide_eq_false balanced,
    Bool.or_self, if_neg Bool.false_ne_true]

lemma step_body {block : Block} {line : Bytes} (marked : trimLine line ≠ []) :
    { c with block := some block }.step line =
      .wait { c with block := some { block with body := block.body ++ [trimLine line] } } 1 := by
  rw [step, List.isEmpty_eq_false_iff.2 marked]
  rfl

lemma step_blank {block : Block} {line : Bytes} (blank : trimLine line = []) (idle : c.block = none) :
    { c with block := some block }.step line = .run c (blockAction block) := by
  obtain ⟨names, pending, _, calls⟩ := c
  cases idle
  rw [step, blank]
  rfl

variable {count : Bytes} {lines : List Bytes}

/-- A header and lines behind it wait. -/
lemma enter_block (idle : c.isUnfinished = false) (closed : ClosesStrings count)
    (noComment : hasComment count = false) (balanced : bracketDepth (significant count) ≤ 0)
    (marked : ∀ line ∈ lines, trimLine line ≠ []) :
    enter env c p (header count :: lines) =
      ({ c with block := some { count := count.dropWhile isBlank, body := lines.map trimLine } }, p) := by
  induction lines using List.reverseRecOn with
  | nil =>
    have first := submit_wait env p _ (step_header idle closed noComment balanced)
    rw [enter, List.foldl_cons, first]
    rfl
  | append_singleton lines line ih =>
    have before := ih fun l mem => marked l (List.mem_append_left _ mem)
    have last := marked line (List.mem_append_right _ (List.mem_singleton_self line))
    rw [← List.cons_append, enter_snoc, submitBehind, before, submit_wait env p _ (step_body last),
      List.map_append]
    rfl

lemma outcome_of_waiting (idle : c.isUnfinished = false) (closed : ClosesStrings count)
    (noComment : hasComment count = false) (balanced : bracketDepth (significant count) ≤ 0)
    (marked : ∀ line ∈ lines, trimLine line ≠ []) {part : List Bytes} {line : Bytes}
    (isPart : part ++ [line] <+: header count :: lines) :
    (submitBehind env c p part line).outcome = .finished true 1 ∧
      (submitBehind env c p part line).pieces = [] := by
  cases part with
  | nil =>
    obtain ⟨rfl, -⟩ := List.cons_prefix_cons.1 isPart
    have first := submit_wait env p _ (step_header idle closed noComment balanced)
    rw [submitBehind, enter, List.foldl_nil, first]
    exact ⟨rfl, rfl⟩
  | cons first part =>
    rw [List.cons_append, List.cons_prefix_cons] at isPart
    obtain ⟨rfl, isPart⟩ := isPart
    have inside (l : Bytes) (mem : l ∈ part ++ [line]) : trimLine l ≠ [] :=
      marked l (isPart.subset mem)
    have last := inside line (List.mem_append_right _ (List.mem_singleton_self line))
    rw [submitBehind, enter_block idle closed noComment balanced fun l mem =>
      inside l (List.mem_append_left _ mem), submit_wait env p _ (step_body last)]
    exact ⟨rfl, rfl⟩

lemma parseExpression_dropWhile (count : Bytes) :
    parseExpression (count.dropWhile isBlank) = parseExpression count := by
  rw [parseExpression, ← Grammar.expression_unplaced, ← content, Token.content_dropWhile, content,
    Grammar.expression_unplaced, parseExpression]

/-- Only an interrupt tells from which calculator a line was taken. -/
lemma ran_eq_of_calm {other next : Calculator} {r : End Unit} (calm : ¬IsInterrupted r) :
    other.ran next r = c.ran next r := by
  rcases r with ⟨_, m⟩ | ⟨_ | _ | _, m⟩
  · rfl
  · rfl
  · rfl
  · exact absurd ⟨m, rfl⟩ calm

/-- A block does what its lines do when they are entered one by one. As long as none of the lines is
blank, the header and the lines behind it only wait. The blank line evaluates the count, then enters the
lines as often as it says, and stops behind the first one that raises an error. It leaves the same names,
writes the same pieces and comes to the same end. The count is any text with its strings closed and no
bracket open, where the colon is not in a comment. -/
theorem submit_block (env : Environment) (c : Calculator) (p : Patience) (count : Bytes)
    (lines : List Bytes) (blank : Bytes) (idle : c.isUnfinished = false)
    (closed : ClosesStrings count) (noComment : hasComment count = false)
    (balanced : bracketDepth (significant count) ≤ 0) (whole : ∀ line ∈ lines, IsWhole line)
    (empty : trimLine blank = [])
    (small : ∀ x m, (countOf count).run (c.machine env p) = .ok x m → ¬9007199254740992.0 ≤ x)
    (calm : (submitBehind env c p (header count :: lines) blank).outcome ≠ .interrupted) :
    (∀ part line, part ++ [line] <+: header count :: lines →
      (submitBehind env c p part line).outcome = .finished true 1 ∧
        (submitBehind env c p part line).pieces = []) ∧
      submitBehind env c p (header count :: lines) blank = enterTimes env c p count lines := by
  have marked (line : Bytes) (mem : line ∈ lines) : trimLine line ≠ [] := (whole line mem).marked
  refine ⟨fun part line => outcome_of_waiting idle closed noComment balanced marked, ?_⟩
  let loop (x : Float) : Run Unit := runLines (List.replicate (Number.repetitions x) lines).flatten
  have composed (x : Float) : Composed (loop x) := composed_runLines _
  have again (n : Nat) : ∀ line ∈ (List.replicate n lines).flatten, IsWhole line := by
    intro line mem
    obtain ⟨_, isLines, mem⟩ := List.mem_flatten.1 mem
    exact whole line (List.eq_of_mem_replicate isLines ▸ mem)
  have isRun : submitBehind env c p (header count :: lines) blank =
      { c with block := some { count := count.dropWhile isBlank, body := lines.map trimLine } }.ran c
        ((reporting (countOf count >>= loop)).run (c.machine env p)) := by
    rw [submitBehind, enter_block idle closed noComment balanced marked,
      submit_run env p _ (step_blank empty (isUnfinished_eq_false.1 idle).2), blockAction,
      parseExpression_dropWhile, runBlock_eq]
    rfl
  rw [isRun, Ne, outcome_ran_eq_interrupted] at calm
  rw [isRun, ran_eq_of_calm (c := c) calm, enterTimes]
  rw [isInterrupted_reporting] at calm
  generalize ran : (countOf count).run (c.machine env p) = r
  cases r with
  | ok x m =>
    have times : Number.repetitions x = x.floor.toUInt64.toNat := if_neg (small x m ran)
    obtain ⟨calmLoop, split⟩ := ran_bind (composed_countOf count) composed ran calm
    dsimp only
    rw [split, ← times, enterEach_eq_ran (c := c.after m) idle (again _) calmLoop]
  | error stop m =>
    dsimp only
    rw [run_reporting_bind_of_error ran]

/-- A block of an assignment, a comment and an unknown name, to be done twice. -/
theorem submit_block_twice :
    let lines := [bytes "x = 1", bytes "# again", bytes "oops"]
    submitBehind .empty {} {} (header (bytes "2") :: lines) (bytes " ") =
      enterTimes .empty {} {} (bytes "2") lines := by
  intro lines
  have closed : ClosesStrings (bytes "2") := by decide +kernel
  have balanced : bracketDepth (significant (bytes "2")) ≤ 0 := by decide +kernel
  have whole : ∀ line ∈ lines, IsWhole line := by
    have checked : ∀ line ∈ lines, trimLine line ≠ [] ∧ bracketDepth (lineContent line) ≤ 0 ∧
        endsInBackslash line = false ∧ ¬IsHeader (lineContent line) := by decide +kernel
    exact fun line mem => have ⟨marked, closed, ends, plain⟩ := checked line mem
      ⟨marked, closed, ends, plain⟩
  have small : ∀ x m, (countOf (bytes "2")).run (machine {} .empty {}) = .ok x m →
      ¬9007199254740992.0 ≤ x := by
    have counted : (match (countOf (bytes "2")).run (machine {} .empty {}) with
      | .ok x _ => decide ¬9007199254740992.0 ≤ x
      | .error _ _ => false) = true := by decide +kernel
    intro x m ran
    rw [ran] at counted
    exact of_decide_eq_true counted
  have calm : (submitBehind .empty {} {} (header (bytes "2") :: lines) (bytes " ")).outcome ≠
      .interrupted := by
    rw [submitBehind, enter_block rfl closed (by decide +kernel) balanced
      fun line mem => (whole line mem).marked]
    exact (calm_submit .empty (bytes " ") fun _ => rfl).1
  exact (submit_block .empty {} {} (bytes "2") lines (bytes " ") rfl closed (by decide +kernel)
    balanced whole (by decide +kernel) small calm).2

end Calculator
end Calc
end CalcShell
