import CalcShell.Proofs.Calc.OnePass
import Mathlib.Tactic.Lemma

/-! Trees at a depth. At the depth zero a tree is evaluated. Deeper it is passed over, which finds its
first mistake and has no other effect, and some value stands in its place. -/
namespace CalcShell.Calc

/-- The value in whose place an expression stands where nothing is evaluated. -/
def Expr.passed : Expr → Value
  | .literal value => value
  | .name _ | .compare .. | .not _ | .mistake _ | .broken .. => .none
  | .attribute owner _ => owner.passed
  | .call callee _ => callee.passed
  | .sign _ operand => operand.passed
  | .binary _ left _ => left.passed
  | .and _ right | .or _ right => right.passed

def Args.passed : Args → CallArgs → CallArgs
  | .closed, call | .mistake _, call => call
  | .positional value rest, call =>
    rest.passed { call with positional := call.positional ++ [value.passed] }
  | .keyword name value rest, call =>
    rest.passed { call with keywords := call.keywords.insert name value.passed }

/-- Stops at a mistake, if there is one. -/
def refuse : Option Mistake → Run Unit
  | some m => Run.fail (.malformed m)
  | none => pure ()

/-- An expression is evaluated at the depth zero and passed over elsewhere. -/
def Expr.under (e : Expr) : Nat → Run Value
  | 0 => e.eval
  | _ + 1 => (fun _ => e.passed) <$> skip e

def Args.under (args : Args) (call : CallArgs) : Nat → Run CallArgs
  | 0 => args.eval call
  | _ + 1 => (fun _ => args.passed call) <$> refuse args.firstMistake?

lemma skip_eq_refuse (e : Expr) : skip e = refuse e.firstMistake? := rfl

lemma refuse_orElse (a b : Option Mistake) : refuse (a <|> b) = refuse a >>= fun _ => refuse b := by
  cases a <;> rfl

lemma OnePass.atTop_succ {α : Type} (passed : α) (action : Run α) (k : Nat) :
    atTop (k + 1) passed action = pure passed := rfl

section
variable (k : Nat) (e left right : Expr)

open OnePass

lemma under_succ : e.under (k + 1) = refuse e.firstMistake? >>= fun _ => pure e.passed := by
  rw [Expr.under, skip_eq_refuse, bind_pure_comp]

lemma under_literal (value : Value) : (Expr.literal value).under k = pure value := by
  cases k <;> rfl

lemma under_name (name : Bytes) : (Expr.name name).under k = atTop k .none (resolve name) := by
  cases k <;> rfl

lemma under_mistake (m : Mistake) : (Expr.mistake m).under k = malformed m := by
  cases k <;> rfl

lemma under_attribute (member : Bytes) : (Expr.attribute e member).under k =
    e.under k >>= fun v => atTop k v (getAttribute v member) := by
  cases k with
  | zero => rfl
  | succ k =>
    have passed : (Expr.attribute e member).under (k + 1) =
        refuse e.firstMistake? >>= fun _ => pure e.passed := under_succ k _
    simp only [passed, under_succ, atTop_succ, bind_assoc, pure_bind]

lemma under_sign (negative : Bool) : (Expr.sign negative e).under k =
    e.under k >>= fun v => atTop k v (Run.ofExcept (applySign negative v)) := by
  cases k with
  | zero => rfl
  | succ k =>
    have passed : (Expr.sign negative e).under (k + 1) =
        refuse e.firstMistake? >>= fun _ => pure e.passed := under_succ k _
    simp only [passed, under_succ, atTop_succ, bind_assoc, pure_bind]

lemma under_not : (Expr.not e).under k =
    e.under k >>= fun v => atTop k .none (pure (.bool !v.isTruthy)) := by
  cases k with
  | zero => rfl
  | succ k =>
    have passed : (Expr.not e).under (k + 1) = refuse e.firstMistake? >>= fun _ => pure Value.none :=
      under_succ k _
    simp only [passed, under_succ, atTop_succ, bind_assoc, pure_bind]

lemma under_broken (m : Mistake) : (Expr.broken e m).under k = e.under k >>= fun _ => malformed m := by
  cases k with
  | zero => rfl
  | succ k =>
    have passed : (Expr.broken e m).under (k + 1) =
        refuse (e.firstMistake? <|> some m) >>= fun _ => pure Value.none := under_succ k _
    simp only [passed, under_succ, refuse_orElse, bind_assoc, pure_bind]
    rfl

lemma under_binary (op : BinaryOp) : (Expr.binary op left right).under k =
    left.under k >>= fun a => right.under k >>= fun b =>
      atTop k a (Run.ofExcept (op.apply a b)) := by
  cases k with
  | zero => rfl
  | succ k =>
    have passed : (Expr.binary op left right).under (k + 1) =
        refuse (left.firstMistake? <|> right.firstMistake?) >>= fun _ => pure left.passed := under_succ k _
    simp only [passed, under_succ, refuse_orElse, atTop_succ, bind_assoc, pure_bind]

lemma under_compare (op : CompareOp) : (Expr.compare op left right).under k =
    left.under k >>= fun a => right.under k >>= fun b =>
      atTop k .none (.bool <$> Run.ofExcept (op.apply a b)) := by
  cases k with
  | zero => rfl
  | succ k =>
    have passed : (Expr.compare op left right).under (k + 1) =
        refuse (left.firstMistake? <|> right.firstMistake?) >>= fun _ => pure Value.none := under_succ k _
    simp only [passed, under_succ, refuse_orElse, atTop_succ, bind_assoc, pure_bind]

/-- The second operand is read one deeper if the first one decides. -/
lemma under_or : (Expr.or left right).under k = left.under k >>= fun a =>
    let decided := k == 0 && a.isTruthy
    right.under (if decided then k + 1 else k) >>= fun b => pure (if decided then a else b) := by
  cases k with
  | zero =>
    rw [Expr.under, Expr.eval]
    refine bind_congr fun a => ?_
    cases a.isTruthy
    · exact (bind_pure _).symm
    · simp [under_succ, skip_eq_refuse]
  | succ k =>
    have below : (k + 1 == 0) = false := rfl
    have passed : (Expr.or left right).under (k + 1) =
        refuse (left.firstMistake? <|> right.firstMistake?) >>= fun _ => pure right.passed := under_succ k _
    simp only [passed, under_succ, refuse_orElse, bind_assoc, pure_bind, below, Bool.false_and,
      Bool.false_eq_true, if_false]

lemma under_and : (Expr.and left right).under k = left.under k >>= fun a =>
    let decided := k == 0 && !a.isTruthy
    right.under (if decided then k + 1 else k) >>= fun b => pure (if decided then a else b) := by
  cases k with
  | zero =>
    rw [Expr.under, Expr.eval]
    refine bind_congr fun a => ?_
    cases a.isTruthy
    · simp [under_succ, skip_eq_refuse]
    · exact (bind_pure _).symm
  | succ k =>
    have below : (k + 1 == 0) = false := rfl
    have passed : (Expr.and left right).under (k + 1) =
        refuse (left.firstMistake? <|> right.firstMistake?) >>= fun _ => pure right.passed := under_succ k _
    simp only [passed, under_succ, refuse_orElse, bind_assoc, pure_bind, below, Bool.false_and,
      Bool.false_eq_true, if_false]

variable (args : Args) (call : CallArgs)

lemma argsUnder_succ :
    args.under call (k + 1) = refuse args.firstMistake? >>= fun _ => pure (args.passed call) := by
  rw [Args.under, bind_pure_comp]

lemma under_call : (Expr.call e args).under k =
    e.under k >>= fun v => args.under {} k >>= fun call => atTop k v (callValue v call) := by
  cases k with
  | zero => rfl
  | succ k =>
    have passed : (Expr.call e args).under (k + 1) =
        refuse (e.firstMistake? <|> args.firstMistake?) >>= fun _ => pure e.passed := under_succ k _
    simp only [passed, under_succ, argsUnder_succ, refuse_orElse, atTop_succ, bind_assoc, pure_bind]

lemma argsUnder_closed : Args.closed.under call k = pure call := by
  cases k <;> rfl

lemma argsUnder_mistake (m : Mistake) : (Args.mistake m).under call k = malformed m := by
  cases k <;> rfl

lemma argsUnder_positional : (Args.positional e args).under call k =
    e.under k >>= fun v => args.under { call with positional := call.positional ++ [v] } k := by
  cases k with
  | zero => rfl
  | succ k =>
    have passed : (Args.positional e args).under call (k + 1) =
        refuse (e.firstMistake? <|> args.firstMistake?) >>= fun _ =>
          pure (args.passed { call with positional := call.positional ++ [e.passed] }) :=
      argsUnder_succ k _ _
    simp only [passed, under_succ, argsUnder_succ, refuse_orElse, bind_assoc, pure_bind]

lemma argsUnder_keyword (name : Bytes) : (Args.keyword name e args).under call k =
    e.under k >>= fun v => args.under { call with keywords := call.keywords.insert name v } k := by
  cases k with
  | zero => rfl
  | succ k =>
    have passed : (Args.keyword name e args).under call (k + 1) =
        refuse (e.firstMistake? <|> args.firstMistake?) >>= fun _ =>
          pure (args.passed { call with keywords := call.keywords.insert name e.passed }) :=
      argsUnder_succ k _ _
    simp only [passed, under_succ, argsUnder_succ, refuse_orElse, bind_assoc, pure_bind]

end

/-! ### Mistakes -/

/-- An action that returns has returned from its first part. -/
lemma Run.exists_of_bind {α β : Type} {action : Run α} {next : α → Run β} {m m' : Machine} {b : β}
    (ok : (action >>= next).run m = .ok b m') :
    ∃ a m₁, action.run m = .ok a m₁ ∧ (next a).run m₁ = .ok b m' := by
  rw [EStateM.run_bind] at ok
  cases first : action.run m with
  | ok a m₁ =>
    rw [first] at ok
    exact ⟨a, m₁, rfl, ok⟩
  | error stop m₁ =>
    rw [first] at ok
    cases ok

lemma firstMistake?_of_skip {e : Expr} {m m' : Machine} (ok : (skip e).run m = .ok () m') :
    e.firstMistake? = none := by
  rw [skip] at ok
  cases mistake : e.firstMistake? with
  | none => rfl
  | some _ =>
    rw [mistake] at ok
    cases ok

mutual

/-- What could be evaluated has no mistake, not even in an operand that was passed over. -/
theorem Expr.firstMistake?_of_eval (e : Expr) {m m' : Machine} {v : Value}
    (ok : e.eval.run m = .ok v m') : e.firstMistake? = none := by
  cases e with
  | literal value | name name => rfl
  | «attribute» owner member =>
    obtain ⟨a, m₁, first, -⟩ := Run.exists_of_bind ok
    exact owner.firstMistake?_of_eval first
  | call callee args =>
    obtain ⟨a, m₁, first, ok⟩ := Run.exists_of_bind ok
    obtain ⟨b, m₂, second, -⟩ := Run.exists_of_bind ok
    rw [Expr.firstMistake?, callee.firstMistake?_of_eval first, args.firstMistake?_of_eval second]
    rfl
  | sign negative operand | not operand =>
    obtain ⟨a, m₁, first, -⟩ := Run.exists_of_bind ok
    exact operand.firstMistake?_of_eval first
  | binary op left right | compare op left right =>
    obtain ⟨a, m₁, first, ok⟩ := Run.exists_of_bind ok
    obtain ⟨b, m₂, second, -⟩ := Run.exists_of_bind ok
    rw [Expr.firstMistake?, left.firstMistake?_of_eval first, right.firstMistake?_of_eval second]
    rfl
  | and left right =>
    obtain ⟨a, m₁, first, ok⟩ := Run.exists_of_bind ok
    rw [Expr.firstMistake?, left.firstMistake?_of_eval first]
    cases truth : a.isTruthy with
    | true =>
      rw [truth, if_pos rfl] at ok
      exact right.firstMistake?_of_eval ok
    | false =>
      rw [truth, if_neg Bool.false_ne_true] at ok
      obtain ⟨_, m₂, second, -⟩ := Run.exists_of_bind ok
      exact firstMistake?_of_skip second
  | or left right =>
    obtain ⟨a, m₁, first, ok⟩ := Run.exists_of_bind ok
    rw [Expr.firstMistake?, left.firstMistake?_of_eval first]
    cases truth : a.isTruthy with
    | true =>
      rw [truth, if_pos rfl] at ok
      obtain ⟨_, m₂, second, -⟩ := Run.exists_of_bind ok
      exact firstMistake?_of_skip second
    | false =>
      rw [truth, if_neg Bool.false_ne_true] at ok
      exact right.firstMistake?_of_eval ok
  | mistake m => cases ok
  | broken before m =>
    obtain ⟨a, m₁, first, ok⟩ := Run.exists_of_bind ok
    cases ok

theorem Args.firstMistake?_of_eval (args : Args) {call : CallArgs} {m m' : Machine} {v : CallArgs}
    (ok : (args.eval call).run m = .ok v m') : args.firstMistake? = none := by
  cases args with
  | closed => rfl
  | mistake m => cases ok
  | positional value rest | keyword name value rest =>
    obtain ⟨a, m₁, first, ok⟩ := Run.exists_of_bind ok
    rw [Args.firstMistake?, value.firstMistake?_of_eval first, rest.firstMistake?_of_eval ok]
    rfl

end

end CalcShell.Calc
