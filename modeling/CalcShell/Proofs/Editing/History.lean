import CalcShell.Editing.History
import Mathlib.Tactic.Lemma
import Mathlib.Tactic.Tauto

/-! Recording a line in the history and forgetting it again, and the ways through what was recorded. -/
namespace CalcShell.History

/-- Shifting the entries by one changes nothing just when they are all the same. -/
lemma append_singleton_eq_cons_iff (line e : Bytes) (rest : List Bytes) :
    rest ++ [line] = e :: rest ↔ ∀ e' ∈ e :: rest, e' = line := by
  induction rest generalizing e with
  | nil => simp [eq_comm]
  | cons r rest ih =>
    rw [List.cons_append, List.cons.injEq, ih]
    constructor
    · rintro ⟨rfl, all⟩ e' member
      rcases List.mem_cons.1 member with rfl | member
      · exact all e' List.mem_cons_self
      · exact all e' member
    · intro all
      have same := all r (List.mem_cons_of_mem _ List.mem_cons_self)
      have first := all e List.mem_cons_self
      exact ⟨same.trans first.symm, fun e' member => all e' (List.mem_cons_of_mem _ member)⟩

variable {history : History} {line : Bytes}

lemma entries_append_of_room (h : line ≠ [])
    (room : history.limit = 0 ∨ history.entries.length < history.limit) :
    (history.append line).entries = history.entries ++ [line] := by
  unfold append
  rw [if_neg (by simpa using h)]
  dsimp only [trimTo]
  split
  · rfl
  · rw [List.length_append, List.length_singleton,
      Nat.sub_eq_zero_of_le (by omega), List.drop_zero]

lemma entries_append_of_bounded (h : line ≠ []) (bounded : history.limit ≠ 0) :
    (history.append line).entries =
      (history.entries ++ [line]).drop (history.entries.length + 1 - history.limit) := by
  unfold append
  rw [if_neg (by simpa using h)]
  dsimp only [trimTo]
  rw [if_neg bounded, List.length_append, List.length_singleton]

/-- Forgetting the newest entry if there are more entries than before. -/
def popIfLonger (before after : History) : History :=
  if before.entries.length < after.entries.length then after.pop else after

lemma entries_popIfLonger_of_room (h : line ≠ [])
    (room : history.limit = 0 ∨ history.entries.length < history.limit) :
    (history.popIfLonger (history.append line)).entries = history.entries := by
  unfold popIfLonger
  rw [entries_append_of_room h room, if_pos (by simp), pop]
  dsimp only
  rw [entries_append_of_room h room, List.dropLast_concat]

lemma entries_popIfLonger_of_full (h : line ≠ []) (bounded : history.limit ≠ 0)
    (full : history.limit ≤ history.entries.length) :
    (history.popIfLonger (history.append line)).entries =
      (history.entries ++ [line]).drop (history.entries.length + 1 - history.limit) := by
  have shape := entries_append_of_bounded h bounded
  have short : ¬ history.entries.length < (history.append line).entries.length := by
    rw [shape, List.length_drop, List.length_append, List.length_singleton]
    omega
  unfold popIfLonger
  rw [if_neg short, shape]

/-- A line that was recorded is forgotten again as long as no other entry had to go for it. -/
theorem entries_popIfLonger_eq_iff :
    (history.popIfLonger (history.append line)).entries = history.entries ↔
      line = [] ∨ history.limit = 0 ∨ history.entries.length < history.limit ∨
        (history.entries.length = history.limit ∧ ∀ e ∈ history.entries, e = line) := by
  by_cases h : line = []
  · simp [h, popIfLonger, append]
  · by_cases room : history.limit = 0 ∨ history.entries.length < history.limit
    · have := entries_popIfLonger_of_room h room
      tauto
    · obtain ⟨bounded, full⟩ := not_or.1 room
      rw [entries_popIfLonger_of_full h bounded (by omega)]
      by_cases exact : history.entries.length = history.limit
      · have one : history.entries.length + 1 - history.limit = 1 := by omega
        have shifted : (history.entries ++ [line]).drop 1 = history.entries ↔
            ∀ e ∈ history.entries, e = line := by
          cases entries : history.entries with
          | nil => exact absurd (entries ▸ exact).symm bounded
          | cons e rest => exact append_singleton_eq_cons_iff line e rest
        rw [one, shifted]
        tauto
      · have longer : (history.entries ++ [line]).drop (history.entries.length + 1 - history.limit) ≠
            history.entries := by
          intro same
          have := congrArg List.length same
          rw [List.length_drop, List.length_append, List.length_singleton] at this
          omega
        tauto

/-! ### Browsing -/

/-- The ways through the history. -/
inductive Motion where
  | back | forward | first | last
deriving DecidableEq, Repr

def Motion.lead : Motion → History → Bytes × History
  | .back => History.back
  | .forward => History.forward
  | .first => History.first
  | .last => History.last

/-- Where a motion leads: among the same entries to the text of one of them, or back to the draft. -/
structure Leads (h : History) (led : Bytes × History) : Prop where
  entries : led.2.entries = h.entries
  draft : led.2.draft = h.draft
  within : led.2.position ≤ h.entries.length
  entry : led.2.position ≠ 0 → h.entries[h.entries.length - led.2.position]? = some led.1
  home : led.2.position = 0 → led.1 = h.draft

/-- A position among the entries is that of an entry. -/
lemma leads_shown {h : History} {n : Nat} (ahead : 0 < n) (within : n ≤ h.entries.length) :
    h.Leads ({ h with position := n }.shown, { h with position := n }) where
  entries := rfl
  draft := rfl
  within := within
  entry _ := by
    have inside : h.entries.length - n < h.entries.length := by omega
    dsimp only [shown]
    rw [List.getElem?_eq_getElem inside, Option.getD_some]
  home none := absurd none (Nat.ne_of_gt ahead)

lemma leads_goTo {h : History} {n : Nat} (within : h.position ≤ h.entries.length)
    (ahead : h.entries ≠ [] → 0 < n ∧ n ≤ h.entries.length) : h.Leads (h.goTo n) := by
  unfold goTo
  split
  · rename_i empty
    have none : h.entries = [] := List.isEmpty_iff.1 empty
    have zero : h.position = 0 := by
      rw [none] at within
      exact Nat.le_zero.1 within
    exact ⟨rfl, rfl, within, fun away => absurd zero away, fun _ => rfl⟩
  · rename_i full
    obtain ⟨positive, inside⟩ := ahead (by simpa using full)
    exact leads_shown positive inside

theorem Motion.leads (motion : Motion) {h : History} (within : h.position ≤ h.entries.length) :
    h.Leads (motion.lead h) := by
  cases motion with
  | back =>
    apply leads_goTo within
    intro full
    have := List.length_pos_iff.2 full
    split <;> omega
  | forward =>
    change h.Leads h.forward
    unfold History.forward
    split
    · exact leads_shown (by omega) (by omega)
    · exact ⟨rfl, rfl, Nat.zero_le _, fun away => absurd rfl away, fun _ => rfl⟩
  | first =>
    apply leads_goTo within
    intro full
    exact ⟨List.length_pos_iff.2 full, Nat.le_refl _⟩
  | last =>
    apply leads_goTo within
    intro full
    exact ⟨Nat.one_pos, List.length_pos_iff.2 full⟩

end CalcShell.History
