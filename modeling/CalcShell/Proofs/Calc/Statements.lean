import CalcShell.Proofs.Calc.Steady

/-! What one line does to a calculator: when it leaves a statement unfinished, what is left after an
interrupt, and that two calculators which agree before a line agree after it. -/
namespace CalcShell.Calc.Calculator
open CalcShell.Calc.Run (Steady SameEnd)

/-- Calculators that differ at most in how often hooks were called. -/
structure Alike (c c' : Calculator) : Prop where
  names : c.names = c'.names
  pending : c.pending = c'.pending
  block : c.block = c'.block

lemma Alike.refl (c : Calculator) : c.Alike c := ⟨rfl, rfl, rfl⟩

lemma Alike.symm {c c' : Calculator} (h : c.Alike c') : c'.Alike c :=
  ⟨h.names.symm, h.pending.symm, h.block.symm⟩

lemma Alike.trans {c c' c'' : Calculator} (h : c.Alike c') (h' : c'.Alike c'') : c.Alike c'' :=
  ⟨h.names.trans h'.names, h.pending.trans h'.pending, h.block.trans h'.block⟩

lemma reset_reset_alike (c : Calculator) : c.reset.reset.Alike c.reset := .refl _

lemma machine_alike {c c' : Calculator} (h : c.Alike c') (env : Environment) (p p' : Patience) :
    (c.machine env p).Alike (c'.machine env p') := ⟨h.names, rfl, rfl⟩

/-- Neither user names nor a statement begun. -/
structure IsFresh (c : Calculator) : Prop where
  user : c.names.user = .empty
  pending : c.pending = []
  block : c.block = none

lemma IsFresh.reset_alike {c : Calculator} (h : c.IsFresh) : c.reset.Alike c :=
  ⟨by simp only [reset, ← h.user], h.pending.symm, h.block.symm⟩

/-- A statement, or a block of them, was begun and waits for further lines. -/
def isUnfinished (c : Calculator) : Bool := !c.pending.isEmpty || c.block.isSome

lemma isUnfinished_eq_false {c : Calculator} :
    c.isUnfinished = false ↔ c.pending = [] ∧ c.block = none := by
  simp [isUnfinished]

lemma Alike.isUnfinished_eq {c c' : Calculator} (h : c.Alike c') :
    c.isUnfinished = c'.isUnfinished := by
  simp only [isUnfinished, h.pending, h.block]

/-- Nothing but its own lines waits while a block is open. -/
def WellFormed (c : Calculator) : Prop := c.block.isSome → c.pending = []

lemma Alike.wellFormed {c c' : Calculator} (h : c.Alike c') (formed : c.WellFormed) :
    c'.WellFormed := by
  intro isOpen
  rw [← h.pending]
  exact formed (h.block ▸ isOpen)

@[simp] lemma wellFormed_reset (c : Calculator) : c.reset.WellFormed := fun _ => rfl

lemma IsFresh.isUnfinished {c : Calculator} (h : c.IsFresh) : c.isUnfinished = false := by
  rw [Calculator.isUnfinished, h.pending, h.block]
  rfl

lemma IsFresh.wellFormed {c : Calculator} (h : c.IsFresh) : c.WellFormed := fun _ => h.pending

/-! ### One step -/

/-- What a line can ask of a calculator: to wait for another one with the statement unfinished, or
to run a steady action with nothing left over. -/
inductive Stepped (c : Calculator) : Step → Prop
  | wait (next : Calculator) (indent : Nat) (names : next.names = c.names)
    (unfinished : next.isUnfinished) (formed : next.WellFormed) : Stepped c (.wait next indent)
  | run (next : Calculator) (action : Run Unit) (names : next.names = c.names)
    (pending : next.pending = []) (block : next.block = none) (steady : Steady action) :
    Stepped c (.run next action)

theorem stepped_step {c : Calculator} (formed : c.WellFormed) (line : Bytes) :
    Stepped c (c.step line) := by
  unfold step
  split
  · rename_i block isOpen
    have pending : c.pending = [] := formed (by simp [isOpen])
    split
    · exact .run _ _ rfl pending rfl (.reporting (composed_runBlock _ _).steady)
    · exact .wait _ _ rfl (by simp [isUnfinished]) fun _ => pending
  · rename_i noBlock
    dsimp only
    split
    · exact .wait _ _ rfl (by simp [isUnfinished]) fun isOpen => by simp [noBlock] at isOpen
    · split
      · exact .wait _ _ rfl (by simp [isUnfinished]) fun _ => rfl
      · exact .run _ _ rfl rfl noBlock (.reporting (Statement.composed_run _).steady)

/-- The same step of two calculators. -/
inductive SameStep : Step → Step → Prop
  | wait (indent : Nat) {next next' : Calculator} (alike : next.Alike next') :
    SameStep (.wait next indent) (.wait next' indent)
  | run (action : Run Unit) {next next' : Calculator} (alike : next.Alike next') :
    SameStep (.run next action) (.run next' action)

theorem Alike.sameStep {c c' : Calculator} (h : c.Alike c') (line : Bytes) :
    SameStep (c.step line) (c'.step line) := by
  unfold step
  rw [h.block, h.pending]
  split
  · split
    · exact .run _ ⟨h.names, rfl, rfl⟩
    · exact .wait _ ⟨h.names, rfl, rfl⟩
  · dsimp only
    split
    · exact .wait _ ⟨h.names, rfl, rfl⟩
    · split
      · exact .wait _ ⟨h.names, rfl, rfl⟩
      · exact .run _ ⟨h.names, rfl, rfl⟩

/-! ### One line -/

variable {c c' : Calculator} (env : Environment) (p p' : Patience) (line : Bytes)

lemma submit_wait {next : Calculator} {indent : Nat} (h : c.step line = .wait next indent) :
    c.submit env p line = ⟨.finished true indent, [], next, p⟩ := by
  simp only [submit, h]

/-- What comes of a line that ran. -/
def ran (c next : Calculator) : Run.End Unit → Submission Calculator
  | .ok () m => ⟨.finished false 0, m.written.reverse, next.after m, m.patience⟩
  | .error .interrupted m =>
    ⟨.interrupted, m.written.reverse, { c with hookCalls := m.hookCalls }, m.patience⟩
  | .error .exit m =>
    ⟨.exit, m.written.reverse, { next.after m with pending := [], block := none }, m.patience⟩
  | .error (.failed e) m =>
    ⟨.failed e.message, m.written.reverse, next.after m, m.patience⟩

lemma submit_run {next : Calculator} {action : Run Unit} (h : c.step line = .run next action) :
    c.submit env p line = c.ran next (action.run (c.machine env p)) := by
  simp only [submit, h]
  generalize action.run (c.machine env p) = r
  rcases r with ⟨_, m⟩ | ⟨_ | _ | _, m⟩ <;> rfl

/-- All that can come of a line: it waits for more of its statement, an interrupt cuts it off and
leaves the calculator as it was, or nothing is left over. -/
inductive Submitted (c : Calculator) (p : Patience) : Submission Calculator → Prop
  | wait (next : Calculator) (indent : Nat) (names : next.names = c.names)
    (unfinished : next.isUnfinished) (formed : next.WellFormed) :
    Submitted c p ⟨.finished true indent, [], next, p⟩
  | cut (pieces : List Piece) (calls : Nat) (p' : Patience) (disturbed : p ≠ {}) :
    Submitted c p ⟨.interrupted, pieces, { c with hookCalls := calls }, p'⟩
  | done (outcome : Outcome) (pieces : List Piece) (next : Calculator) (p' : Patience)
    (ended : outcome.asksMore = false) (calm : outcome ≠ .interrupted)
    (builtins : next.names.builtins = c.names.builtins)
    (modules : next.names.modules = c.names.modules)
    (pending : next.pending = []) (block : next.block = none) (patience : p = {} → p' = {}) :
    Submitted c p ⟨outcome, pieces, next, p'⟩

theorem submitted_submit (formed : c.WellFormed) : c.Submitted p (c.submit env p line) := by
  have stepped := stepped_step formed line
  generalize e : c.step line = step at stepped
  cases stepped with
  | wait next indent names unfinished formed =>
    rw [submit_wait env p line e]
    exact .wait next indent names unfinished formed
  | run next action names pending block steady =>
    rw [submit_run env p line e]
    have onward := steady.onward (c.machine env p)
    generalize action.run (c.machine env p) = r at onward ⊢
    obtain ⟨builtins, modules, -, patience, calm⟩ := onward
    rcases r with ⟨_, m⟩ | ⟨_ | _ | _, m⟩
    · exact .done _ _ _ _ rfl (by simp) builtins modules pending block patience
    · exact .done _ _ _ _ rfl (by simp) builtins modules pending block patience
    · exact .done _ _ _ _ rfl (by simp) builtins modules rfl rfl patience
    · exact .cut _ _ _ fun never => calm never ⟨m, rfl⟩

/-- An interrupted line leaves the calculator as it was, whatever it was doing. -/
lemma next_alike_of_interrupted (cut : (c.submit env p line).outcome = .interrupted) :
    (c.submit env p line).next.Alike c := by
  cases e : c.step line with
  | wait next indent =>
    rw [submit_wait env p line e] at cut
    cases cut
  | run next action =>
    rw [submit_run env p line e] at cut ⊢
    generalize action.run (c.machine env p) = r at cut ⊢
    rcases r with ⟨_, m⟩ | ⟨_ | _ | _, m⟩
    · cases cut
    · cases cut
    · cases cut
    · exact ⟨rfl, rfl, rfl⟩

/-- A user who never interrupts goes on so, and interrupts no line. -/
lemma calm_submit (formed : c.WellFormed) :
    (c.submit env {} line).outcome ≠ .interrupted ∧ (c.submit env {} line).patience = {} := by
  have h := submitted_submit env {} line formed
  generalize c.submit env {} line = sub at h ⊢
  cases h with
  | wait => exact ⟨by simp, rfl⟩
  | cut pieces calls p' disturbed => exact absurd rfl disturbed
  | done outcome pieces next p' ended calm builtins modules pending block patience =>
    exact ⟨calm, patience rfl⟩

/-- A line of a statement that goes on only waits. -/
lemma names_next_of_asksMore (formed : c.WellFormed)
    (more : (c.submit env p line).outcome.asksMore) :
    (c.submit env p line).next.names = c.names := by
  have h := submitted_submit env p line formed
  generalize c.submit env p line = sub at more h ⊢
  cases h with
  | wait next indent names => exact names
  | cut => rfl
  | done outcome pieces next p' ended => rw [ended] at more; cases more

/-- No line changes what a reset leaves: the names that are not the user's. -/
lemma reset_next_alike (formed : c.WellFormed) :
    (c.submit env p line).next.reset.Alike c.reset := by
  have h := submitted_submit env p line formed
  generalize c.submit env p line = sub at h ⊢
  cases h with
  | wait next indent names => exact ⟨by simp [reset, names], rfl, rfl⟩
  | cut => exact ⟨rfl, rfl, rfl⟩
  | done outcome pieces next p' ended calm builtins modules =>
    exact ⟨by simp [reset, builtins, modules], rfl, rfl⟩

/-- Unless it is interrupted, a line leaves a statement unfinished just when it asks for more. -/
lemma isUnfinished_next (formed : c.WellFormed)
    (calm : (c.submit env p line).outcome ≠ .interrupted) :
    (c.submit env p line).next.isUnfinished = (c.submit env p line).outcome.asksMore := by
  have h := submitted_submit env p line formed
  generalize c.submit env p line = sub at calm h ⊢
  cases h with
  | wait next indent names unfinished => exact unfinished
  | cut => exact absurd rfl calm
  | done outcome pieces next p' ended calm builtins modules pending block =>
    simp [isUnfinished, pending, block, ended]

lemma wellFormed_next (formed : c.WellFormed) : (c.submit env p line).next.WellFormed := by
  have h := submitted_submit env p line formed
  generalize c.submit env p line = sub at h ⊢
  cases h with
  | wait next indent names unfinished wellFormed => exact wellFormed
  | cut => exact formed
  | done outcome pieces next p' ended calm builtins modules pending => exact fun _ => pending

/-- Calculators that agree take a line in the same way, whenever the user interrupts, as long as
neither is interrupted. -/
theorem Alike.submit (formed : c.WellFormed) (h : c.Alike c')
    (calm : (c.submit env p line).outcome ≠ .interrupted)
    (calm' : (c'.submit env p' line).outcome ≠ .interrupted) :
    (c.submit env p line).outcome = (c'.submit env p' line).outcome ∧
      (c.submit env p line).pieces = (c'.submit env p' line).pieces ∧
      (c.submit env p line).next.Alike (c'.submit env p' line).next := by
  have stepped := stepped_step formed line
  have same := h.sameStep line
  generalize e : c.step line = step at stepped same
  generalize e' : c'.step line = step' at same
  cases same with
  | wait indent alike =>
    rw [submit_wait env p line e, submit_wait env p' line e']
    exact ⟨rfl, rfl, alike⟩
  | @run action next next' alike =>
    have steady : Steady action := by cases stepped; assumption
    rw [submit_run env p line e] at calm ⊢
    rw [submit_run env p' line e'] at calm' ⊢
    have ends := steady.same (machine_alike h env p p')
    generalize action.run (c.machine env p) = r at calm ends ⊢
    generalize action.run (c'.machine env p') = r' at calm' ends ⊢
    cases ends with
    | ok a after =>
      exact ⟨rfl, congrArg List.reverse after.written, after.names, alike.pending, alike.block⟩
    | error stop after =>
      cases stop with
      | failed e =>
        exact ⟨rfl, congrArg List.reverse after.written, after.names, alike.pending, alike.block⟩
      | exit => exact ⟨rfl, congrArg List.reverse after.written, after.names, rfl, rfl⟩
      | interrupted => exact absurd rfl calm
    | cutLeft m r => exact absurd rfl calm
    | cutRight r m => exact absurd rfl calm'

end CalcShell.Calc.Calculator
