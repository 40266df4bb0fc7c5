import CalcShell.Screen.Record
import Mathlib.Tactic.Lemma

/-! What a screen that only stores what it is told holds after some commands. -/
namespace CalcShell.Record

/-- The line that was drawn last in a row. -/
def row? (record : Record) (row : Int) : Option StyledLine := record.rows.lookup row

def drawAll (record : Record) (commands : List Draw) : Record := commands.foldl draw record

lemma drawAll_append (record : Record) (first second : List Draw) :
    record.drawAll (first ++ second) = (record.drawAll first).drawAll second := List.foldl_append

lemma lookup_cons_eq_ite (i row : Int) (line : StyledLine) (rows : List (Int × StyledLine)) :
    ((row, line) :: rows).lookup i = if i = row then some line else rows.lookup i := by
  rw [List.lookup_cons]
  by_cases same : i = row
  · simp [same]
  · simp [same, beq_eq_false_iff_ne.2 same]

lemma lookup_setRow (row : Int) (line : StyledLine) (rows : List (Int × StyledLine)) (i : Int) :
    (setRow row line rows).lookup i = if i = row then some line else rows.lookup i := by
  induction rows with
  | nil => exact lookup_cons_eq_ite i row line []
  | cons entry rest ih =>
    obtain ⟨r, shown⟩ := entry
    rw [setRow]
    split
    · exact lookup_cons_eq_ite i row line _
    · split
      · rename_i here
        subst here
        rw [lookup_cons_eq_ite, lookup_cons_eq_ite]
        split <;> rfl
      · rename_i elsewhere
        rw [lookup_cons_eq_ite, lookup_cons_eq_ite, ih]
        split
        · rename_i same
          rw [if_neg (fun h => elsewhere (h.symm.trans same))]
        · rfl

lemma row?_draw_line (record : Record) (row : Int) (line : StyledLine) (i : Int) :
    (record.draw (.line row line)).row? i = if i = row then some line else record.row? i :=
  lookup_setRow row line record.rows i

/-- What no command touches stays as it was. -/
lemma drawAll_keeps {α : Type} {part : Record → α} {commands : List Draw}
    (keeps : ∀ command ∈ commands, ∀ record : Record, part (record.draw command) = part record)
    (record : Record) : part (record.drawAll commands) = part record := by
  induction commands generalizing record with
  | nil => rfl
  | cons command commands ih =>
    rw [drawAll, List.foldl_cons]
    have first := keeps command List.mem_cons_self record
    rw [← first]
    exact ih (fun c mem => keeps c (List.mem_cons_of_mem _ mem)) _

end CalcShell.Record
