import CalcShell.Proofs.Calc.Actions

/-! Every function of the calculator, every expression and every statement is composed of what
evaluation does. -/
namespace CalcShell.Calc
open CalcShell.Calc.Run (Composed)

/-! ### Built-in functions -/
namespace Call

lemma composed_checkKeywords (name : Bytes) (keywords : Table Value) (allowed : List String) :
    Composed (checkKeywords name keywords allowed) := by
  unfold checkKeywords
  split
  · exact .fail _
  · exact .pure ()

lemma composed_checkArity (name : Bytes) (args : List Value) (least most : Nat) :
    Composed (checkArity name args least most) := .ite (.pure ()) (.fail _)

lemma composed_numberArg (name : Bytes) (value : Value) : Composed (numberArg name value) := by
  unfold numberArg
  split
  · exact .pure _
  · exact .fail _

lemma composed_separator (keywords : Table Value) (name standard : String) :
    Composed (separator keywords name standard) := by
  unfold separator
  split
  · exact .pure _
  · exact .pure _
  · exact .pure _
  · exact .fail _

lemma composed_print (args : List Value) (keywords : Table Value) : Composed (print args keywords) :=
  .bind (composed_checkKeywords _ _ _) fun _ => .bind (composed_separator _ _ _) fun _ =>
    .bind (composed_separator _ _ _) fun _ => .bind (.emit _) fun _ => .pure _

lemma composed_envGet (name : Bytes) (args : List Value) : Composed (envGet name args) := by
  refine .bind (composed_checkArity _ _ _ _) fun _ => ?_
  split
  · refine .read (fun m m' _ env => by rw [env]) fun m => ?_
    split
    · exact .pure _
    · exact .pure _
  · exact .fail _

lemma composed_extreme (name : Bytes) (isMin : Bool) (args : List Value) :
    Composed (extreme name isMin args) := by
  cases args with
  | nil => exact .fail _
  | cons first rest =>
    exact .foldlM (fun _ _ => .bind (.ofExcept _) fun _ => .pure _) rest first

lemma composed_round (name : Bytes) (args : List Value) : Composed (round name args) := by
  refine .bind (composed_checkArity _ _ _ _) fun _ => .bind (composed_numberArg _ _) fun x => ?_
  dsimp only
  split
  · exact .bind (composed_numberArg _ _) fun _ => .pure _
  · exact .bind (.pure _) fun _ => .pure _

lemma composed_convert (name : Bytes) (isInt : Bool) (args : List Value) :
    Composed (convert name isInt args) := by
  refine .bind (composed_checkArity _ _ _ _) fun _ => ?_
  dsimp only
  split
  · exact .pure _
  · split
    · exact .pure _
    · split
      · exact .ite (.fail _) (.pure _)
      · exact .fail _
    · exact .fail _

lemma composed_help (target : Value) : Composed (help target) :=
  .read (fun m m' names _ => by rw [names]) fun _ => .bind (.emit _) fun _ => .pure _

lemma composed_waits (n : Nat) : Composed (waits n) := by
  induction n with
  | zero => exact .checkInterrupt
  | succ n ih => exact .bind .checkInterrupt fun _ => ih

lemma composed_sleep (name : Bytes) (args : List Value) : Composed (sleep name args) := by
  refine .bind (composed_checkArity _ _ _ _) fun _ => .bind (composed_numberArg _ _) fun seconds => ?_
  have rest : Composed (do
      waits ((sleepTime seconds + longestWait - 1) / longestWait)
      pure Value.none) := .bind (composed_waits _) fun _ => .pure _
  exact .ite (.bind (.fail _) fun _ => rest) rest

lemma composed_len (name : Bytes) (args : List Value) : Composed (len name args) := by
  refine .bind (composed_checkArity _ _ _ _) fun _ => ?_
  split
  · exact .pure _
  · exact .fail _

lemma composed_builtin (name : Bytes) (call : CallArgs) : Composed (builtin name call) := by
  unfold builtin
  dsimp only
  refine .ite (.bind (composed_checkKeywords _ _ _) fun _ => ?_) ?_
  all_goals
    split
    · exact composed_print _ _
    · exact composed_envGet _ _
    · exact .bind (composed_checkArity _ _ _ _) fun _ => .throw (by simp)
    · exact composed_len _ _
    · exact .bind (composed_checkArity _ _ _ _) fun _ => .bind (composed_numberArg _ _) fun _ => .pure _
    · exact composed_extreme _ _ _
    · exact composed_round _ _
    · exact .bind (composed_checkArity _ _ _ _) fun _ => .pure _
    · exact composed_convert _ _ _
    · exact .bind (composed_checkArity _ _ _ _) fun _ => composed_help _
    · exact composed_sleep _ _
    · exact .fail _

lemma composed_log (name : Bytes) (args : List Value) : Composed (log name args) := by
  refine .bind (composed_checkArity _ _ _ _) fun _ => .bind (composed_numberArg _ _) fun x => ?_
  refine .ite (.bind (.fail _) fun _ => ?_) ?_
  all_goals
    split
    · exact .pure _
    · exact .bind (composed_numberArg _ _) fun _ => .ite (.bind (.fail _) fun _ => .pure _) (.pure _)

lemma composed_math (name : Bytes) (call : CallArgs) : Composed (math name call) := by
  refine .bind (composed_checkKeywords _ _ _) fun _ => .ite (composed_log _ _) ?_
  refine .bind (composed_checkArity _ _ _ _) fun _ => .bind (composed_numberArg _ _) fun _ => ?_
  split
  · exact .bind (.ofExcept _) fun _ => .pure _
  · exact .fail _

end Call

lemma composed_callValue (callee : Value) (call : CallArgs) : Composed (callValue callee call) := by
  unfold callValue
  split
  · exact .ite (Call.composed_math _ _) (Call.composed_builtin _ _)
  · exact .fail _

/-! ### Names and attributes -/

lemma composed_resolve (name : Bytes) : Composed (resolve name) := by
  refine .read (fun m m' names _ => by rw [names]) fun m => ?_
  split
  · exact .pure _
  · exact .fail _

lemma composed_askHook (hook : Hook) (member : Bytes) : Composed (askHook hook member) := by
  cases hook with
  | environment => exact .read (fun m m' _ env => by rw [env]) fun _ => .pure _
  | values table =>
    exact .bind .askHook fun _ => .pure _

lemma composed_moduleAttribute (module : Module) (member : Bytes) :
    Composed (moduleAttribute module member) := by
  unfold moduleAttribute
  split
  · exact .pure _
  · exact composed_askHook _ _
  · exact .pure _

lemma composed_getAttribute (owner : Value) (member : Bytes) : Composed (getAttribute owner member) := by
  unfold getAttribute
  split
  · refine .read (fun m m' names _ => by rw [names]) fun m => ?_
    dsimp only
    split
    · refine .bind (composed_moduleAttribute _ _) fun found => ?_
      split
      · exact .pure _
      · exact .fail _
    · refine .bind (.pure _) fun found => ?_
      split
      · exact .pure _
      · exact .fail _
  · exact .fail _

/-! ### Expressions and statements -/

lemma composed_skip (e : Expr) : Composed (skip e) := by
  unfold skip
  split
  · exact .fail _
  · exact .pure ()

mutual

theorem Expr.composed_eval : ∀ e : Expr, Composed e.eval
  | .literal value => by
    rw [Expr.eval]
    exact .pure value
  | .name name => by
    rw [Expr.eval]
    exact composed_resolve name
  | .attribute owner member => by
    rw [Expr.eval]
    exact .bind owner.composed_eval fun _ => composed_getAttribute _ _
  | .call callee args => by
    rw [Expr.eval]
    exact .bind callee.composed_eval fun _ => .bind (args.composed_eval _) fun _ => composed_callValue _ _
  | .sign negative operand => by
    rw [Expr.eval]
    exact .bind operand.composed_eval fun _ => .ofExcept _
  | .binary op left right => by
    rw [Expr.eval]
    exact .bind left.composed_eval fun _ => .bind right.composed_eval fun _ => .ofExcept _
  | .compare op left right => by
    rw [Expr.eval]
    exact .bind left.composed_eval fun _ => .bind right.composed_eval fun _ =>
      .bind (.ofExcept _) fun _ => .pure _
  | .not operand => by
    rw [Expr.eval]
    exact .bind operand.composed_eval fun _ => .pure _
  | .and left right => by
    rw [Expr.eval]
    exact .bind left.composed_eval fun _ =>
      .ite right.composed_eval (.bind (composed_skip right) fun _ => .pure _)
  | .or left right => by
    rw [Expr.eval]
    exact .bind left.composed_eval fun _ =>
      .ite (.bind (composed_skip right) fun _ => .pure _) right.composed_eval
  | .mistake m => by
    rw [Expr.eval]
    exact .fail _
  | .broken before m => by
    rw [Expr.eval]
    exact .bind before.composed_eval fun _ => .fail _

theorem Args.composed_eval : ∀ (args : Args) (call : CallArgs), Composed (args.eval call)
  | .closed, call => by
    rw [Args.eval]
    exact .pure call
  | .mistake m, call => by
    rw [Args.eval]
    exact .fail _
  | .positional value rest, call => by
    rw [Args.eval]
    exact .bind value.composed_eval fun _ => rest.composed_eval _
  | .keyword name value rest, call => by
    rw [Args.eval]
    exact .bind value.composed_eval fun _ => rest.composed_eval _

end

theorem Statement.composed_run (statement : Statement) : Composed statement.run := by
  cases statement with
  | empty => exact .pure ()
  | importModule name =>
    exact .read (fun m m' names _ => by rw [names]) fun _ => .ite (.fail _) (.pure ())
  | assign name value => exact .bind value.composed_eval fun _ => .assign _ _
  | echo value =>
    exact .bind value.composed_eval fun _ => .ite (.emit _) (.pure ())
  | mistake m => exact .fail _

theorem composed_runBlock (count : Expr) (body : List Statement) : Composed (runBlock count body) := by
  refine .bind count.composed_eval fun value => ?_
  split
  · exact .repeatRun (.forM Statement.composed_run body) _
  · exact .fail _

end CalcShell.Calc
