import CalcShell.Proofs.Calc.Evaluation

/-! Evaluation does not depend on when the user interrupts, but for being cut short. An action is
followed on two machines that differ in the user's patience alone; each composed action is steady
because its parts are. -/
namespace CalcShell.Calc

/-- Machines that agree on everything that evaluation can see, the user's patience apart. -/
structure Machine.Alike (m m' : Machine) : Prop where
  names : m.names = m'.names
  env : m.env = m'.env
  written : m.written = m'.written

lemma Machine.Alike.refl (m : Machine) : m.Alike m := ⟨rfl, rfl, rfl⟩

namespace Run

variable {α β : Type}

/-- How one action ends on two machines: in the same way, unless one of them was interrupted. -/
inductive SameEnd : End α → End α → Prop
  | ok (a : α) {m m' : Machine} (alike : m.Alike m') : SameEnd (.ok a m) (.ok a m')
  | error (stop : Stop) {m m' : Machine} (alike : m.Alike m') :
    SameEnd (.error stop m) (.error stop m')
  | cutLeft (m : Machine) (r : End α) : SameEnd (.error .interrupted m) r
  | cutRight (r : End α) (m : Machine) : SameEnd r (.error .interrupted m)

/-- What an action from a machine never changes. A user who never interrupts goes on so. -/
structure Onward (m : Machine) (r : End α) : Prop where
  builtins : r.machine.names.builtins = m.names.builtins
  modules : r.machine.names.modules = m.names.modules
  env : r.machine.env = m.env
  patience : m.patience = {} → r.machine.patience = {}
  calm : m.patience = {} → ¬ IsInterrupted r

lemma Onward.ok (a : α) (m : Machine) : Onward m (.ok a m) :=
  ⟨rfl, rfl, rfl, id, by rintro _ ⟨_, h⟩; cases h⟩

lemma Onward.error {stop : Stop} (h : stop ≠ .interrupted) (m : Machine) :
    Onward m (.error stop m : End α) :=
  ⟨rfl, rfl, rfl, id, by rintro _ ⟨_, h'⟩; cases h'; exact h rfl⟩

lemma Onward.trans {m : Machine} {r : End α} {r' : End β} (h : Onward m r)
    (h' : Onward r.machine r') : Onward m r' where
  builtins := h'.builtins.trans h.builtins
  modules := h'.modules.trans h.modules
  env := h'.env.trans h.env
  patience never := h'.patience (h.patience never)
  calm never := h'.calm (h.patience never)

/-- The user's patience decides nothing about an action but whether it is cut short. -/
structure Steady (action : Run α) : Prop where
  same : ∀ {m m' : Machine}, m.Alike m' → SameEnd (action.run m) (action.run m')
  onward : ∀ m, Onward m (action.run m)

/-! ### Combining actions -/

lemma Steady.pure (a : α) : Steady (Pure.pure a : Run α) :=
  ⟨fun alike => .ok a alike, fun m => .ok a m⟩

lemma Steady.throw {stop : Stop} (h : stop ≠ .interrupted) :
    Steady (MonadExcept.throw stop : Run α) :=
  ⟨fun alike => .error stop alike, fun m => .error h m⟩

lemma Steady.bind {action : Run α} {next : α → Run β} (first : Steady action)
    (rest : ∀ a, Steady (next a)) : Steady (action >>= next) where
  same {m m'} alike := by
    rw [EStateM.run_bind, EStateM.run_bind]
    have h := first.same alike
    generalize action.run m = r at h ⊢
    generalize action.run m' = r' at h ⊢
    cases h with
    | ok a alike => exact (rest a).same alike
    | error stop alike => exact .error stop alike
    | cutLeft m r => exact .cutLeft m _
    | cutRight r m => exact .cutRight _ m
  onward m := by
    rw [EStateM.run_bind]
    have h := first.onward m
    generalize action.run m = r at h ⊢
    cases r with
    | ok a m₁ => exact h.trans ((rest a).onward m₁)
    | error stop m₁ =>
      exact ⟨h.builtins, h.modules, h.env, h.patience, fun never => by
        rintro ⟨m₂, cut⟩
        cases cut
        exact h.calm never ⟨m₁, rfl⟩⟩

/-- Reading the machine is steady as long as the patience is not looked at. -/
lemma Steady.read {next : Machine → Run β}
    (blind : ∀ m m' : Machine, m.names = m'.names → m.env = m'.env → next m = next m')
    (rest : ∀ m, Steady (next m)) : Steady (get >>= next) where
  same {m m'} alike := by
    rw [EStateM.run_bind, EStateM.run_bind, EStateM.run_get, EStateM.run_get]
    change SameEnd ((next m).run m) ((next m').run m')
    rw [blind m m' alike.names alike.env]
    exact (rest m').same alike
  onward m := (rest m).onward m

lemma Steady.emit (text : Bytes) (isError : Bool) : Steady (Run.emit text isError) where
  same alike := .ok () ⟨alike.names, alike.env, by simp [alike.written]⟩
  onward m := ⟨rfl, rfl, rfl, id, by rintro _ ⟨_, h⟩; cases h⟩

lemma Steady.assign (name : Bytes) (value : Value) : Steady (Run.assign name value) where
  same alike := .ok () ⟨by simp [alike.names], alike.env, alike.written⟩
  onward m := ⟨rfl, rfl, rfl, id, by rintro _ ⟨_, h⟩; cases h⟩

lemma Steady.askHook : Steady (modify fun m => { m with hookCalls := m.hookCalls + 1 }) where
  same alike := .ok () ⟨alike.names, alike.env, alike.written⟩
  onward m := ⟨rfl, rfl, rfl, id, by rintro _ ⟨_, h⟩; cases h⟩

/-- The one action that looks at the patience. -/
lemma Steady.checkInterrupt : Steady Run.checkInterrupt where
  same {m m'} alike := by
    rw [run_checkInterrupt, run_checkInterrupt]
    split
    · exact .cutLeft _ _
    · split
      · exact .cutRight _ _
      · exact .ok () ⟨alike.names, alike.env, alike.written⟩
  onward m := by
    have never (h : m.patience = {}) : m.patience.check = (false, {}) := by rw [h]; rfl
    rw [run_checkInterrupt]
    refine ⟨?_, ?_, ?_, fun h => ?_, fun h => ?_⟩
    iterate 3 split <;> rfl
    · rw [never h]; rfl
    · rw [never h]
      rintro ⟨_, cut⟩
      cases cut

theorem Composed.steady {action : Run α} (composed : Composed action) : Steady action := by
  induction composed with
  | pure a => exact .pure a
  | throw calm => exact .throw calm
  | bind _ _ first rest => exact .bind first rest
  | read blind _ rest => exact .read blind rest
  | emit text => exact .emit text false
  | assign name value => exact .assign name value
  | askHook => exact .askHook
  | checkInterrupt => exact .checkInterrupt

/-- An error becomes text; an exit and an interrupt go on. -/
lemma Steady.reporting {action : Run Unit} (h : Steady action) : Steady (reporting action) where
  same {m m'} alike := by
    have same := h.same alike
    rw [run_reporting, run_reporting]
    generalize action.run m = r at same ⊢
    generalize action.run m' = r' at same ⊢
    cases same with
    | ok a alike => exact .ok a alike
    | error stop alike =>
      cases stop with
      | failed e => exact (Steady.emit _ true).same alike
      | exit => exact .error _ alike
      | interrupted => exact .error _ alike
    | cutLeft m r => exact .cutLeft m _
    | cutRight r m => exact .cutRight _ m
  onward m := by
    have onward := h.onward m
    rw [run_reporting]
    generalize action.run m = r at onward ⊢
    cases r with
    | ok => exact onward
    | error stop m' =>
      cases stop with
      | failed e => exact onward.trans ((Steady.emit _ true).onward m')
      | exit => exact onward
      | interrupted => exact onward

end Run
end CalcShell.Calc
