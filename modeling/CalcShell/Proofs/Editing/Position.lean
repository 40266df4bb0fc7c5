import CalcShell.Proofs.Editing.History
import Mathlib.Data.List.Induction
import Mathlib.Data.List.Infix

/-! The position of the user among the entries. Whatever shortens the history sends the user back to the
draft, but for a new limit: one below the position leaves the user in front of the oldest entry. -/
namespace CalcShell.History

/-- What can be asked of a history. -/
inductive Operation where
  | load (files : FileTree)
  | append (line : Bytes)
  | pop
  | beginEdit (draft : Bytes)
  | browse (motion : Motion)
  | reset
  | setLimit (bound : Int)

def perform (h : History) : Operation → History
  | .load files => h.load files
  | .append line => h.append line
  | .pop => h.pop
  | .beginEdit draft => h.beginEdit draft
  | .browse motion => (motion.lead h).2
  | .reset => h.reset
  | .setLimit bound => h.setLimit bound

/-- The history after some operations. -/
def after (h : History) (operations : List Operation) : History := operations.foldl perform h

lemma after_snoc (h : History) (front : List Operation) (operation : Operation) :
    h.after (front ++ [operation]) = (h.after front).perform operation := by
  rw [after, List.foldl_append]
  rfl

/-- The user is at an entry, or at the draft. -/
def IsWithin (h : History) : Prop := h.position ≤ h.entries.length

instance (h : History) : Decidable h.IsWithin := inferInstanceAs (Decidable (_ ≤ _))

/-- A limit is set that is below the position of the user. -/
def Undercuts (h : History) : Operation → Prop
  | .setLimit bound => 0 < limitOfInt bound ∧ limitOfInt bound < h.position
  | _ => False

instance (h : History) : (operation : Operation) → Decidable (h.Undercuts operation)
  | .setLimit _ => inferInstanceAs (Decidable (_ ∧ _))
  | .load _ | .append _ | .pop | .beginEdit _ | .browse _ | .reset => inferInstanceAs (Decidable False)

lemma length_trimTo (limit : Nat) (entries : List Bytes) :
    (trimTo limit entries).length = if limit = 0 then entries.length else min limit entries.length := by
  unfold trimTo
  split
  · rfl
  · rw [List.length_drop]
    omega

/-- Wherever an operation ends browsing, the user is at the draft. -/
lemma isWithin_of_position {h : History} (draft : h.position = 0) : h.IsWithin := by
  unfold IsWithin
  omega

lemma isWithin_setLimit_iff {h : History} (within : h.IsWithin) (bound : Int) :
    (h.setLimit bound).IsWithin ↔ ¬h.Undercuts (.setLimit bound) := by
  unfold IsWithin at within
  have moved : (h.setLimit bound).IsWithin ↔
      h.position ≤ (trimTo (limitOfInt bound) h.entries).length := Iff.rfl
  rw [moved, length_trimTo, Undercuts]
  split <;> omega

lemma isWithin_load {h : History} (within : h.IsWithin) (files : FileTree) : (h.load files).IsWithin := by
  unfold load
  split
  · exact isWithin_of_position rfl
  · exact within

lemma isWithin_append (h : History) (line : Bytes) : (h.append line).IsWithin := by
  unfold append
  split <;> exact isWithin_of_position rfl

/-- An operation keeps the position among the entries unless it sets a limit below it. -/
theorem isWithin_perform_iff {h : History} (within : h.IsWithin) (operation : Operation) :
    (h.perform operation).IsWithin ↔ ¬h.Undercuts operation := by
  cases operation with
  | setLimit bound => exact isWithin_setLimit_iff within bound
  | load files => exact iff_of_true (isWithin_load within files) id
  | append line => exact iff_of_true (isWithin_append h line) id
  | pop => exact iff_of_true (isWithin_of_position rfl) id
  | beginEdit draft => exact iff_of_true (isWithin_of_position rfl) id
  | browse motion =>
    have leads := motion.leads within
    refine iff_of_true ?_ id
    change (motion.lead h).2.position ≤ (motion.lead h).2.entries.length
    rw [leads.entries]
    exact leads.within
  | reset => exact iff_of_true (isWithin_of_position rfl) id

/-- In a new history the user stays among the entries throughout some operations exactly when none of
them sets a limit below the position that the user has then. From among the entries every motion leads
to one of them or back to the draft. -/
theorem isWithin_throughout_iff (env : Environment) (accountHome path : Bytes) (bound : Int)
    (operations : List Operation) :
    let h := new env accountHome path bound
    ((∀ front, front <+: operations → (h.after front).IsWithin) ↔
        ∀ front operation, front ++ [operation] <+: operations →
          ¬(h.after front).Undercuts operation) ∧
      ((h.after operations).IsWithin → ∀ motion : Motion,
        (h.after operations).Leads (motion.lead (h.after operations))) := by
  intro h
  refine ⟨⟨fun all front operation isPart => ?_, fun keeps front isPart => ?_⟩,
    fun within motion => motion.leads within⟩
  · have before := all front ((List.prefix_append front [operation]).trans isPart)
    rw [← isWithin_perform_iff before, ← after_snoc]
    exact all _ isPart
  · induction front using List.reverseRecOn with
    | nil => exact isWithin_of_position rfl
    | append_singleton front operation ih =>
      have before := ih ((List.prefix_append front [operation]).trans isPart)
      rw [after_snoc, isWithin_perform_iff before]
      exact keeps front operation isPart

/-- A user at the middle one of three entries is still at an entry when the oldest one goes. -/
theorem isWithin_throughout_kept_entry :
    let h := new .empty [] (bytes "history") 1000
    let operations : List Operation := [.append (bytes "a"), .append (bytes "b"), .append (bytes "c"),
      .browse .back, .browse .back, .setLimit 2]
    (∀ front, front <+: operations → (h.after front).IsWithin) ∧
      ((h.after operations).IsWithin ∧
        (h.after operations).Leads (Motion.lead .back (h.after operations))) := by
  intro h operations
  obtain ⟨iff, leads⟩ := isWithin_throughout_iff .empty [] (bytes "history") 1000 operations
  have unhurt : ∀ front ∈ operations.inits, ∀ operation ∈ operations[front.length]?,
      ¬(h.after front).Undercuts operation := by
    decide +kernel
  have all : ∀ front, front <+: operations → (h.after front).IsWithin := by
    rw [iff]
    rintro front operation isPart
    have isFront := (List.prefix_append front [operation]).trans isPart
    apply unhurt front ((List.mem_inits _ _).2 isFront)
    obtain ⟨back, whole⟩ := isPart
    rw [← whole]
    simp
  exact ⟨all, all _ (List.prefix_refl _), leads (all _ (List.prefix_refl _)) .back⟩

/-- A limit of one entry leaves a user at the older one of two entries with a position beyond the
entries: going forward leads to the newer entry, not to the draft. -/
theorem limit_undercuts_position :
    let h := new .empty [] (bytes "history") 1000
    let operations : List Operation := [.append (bytes "a"), .append (bytes "b"),
      .beginEdit (bytes "d"), .browse .first, .setLimit 1]
    (h.after operations).entries = [bytes "b"] ∧ (h.after operations).position = 2 ∧
      ¬(h.after operations).IsWithin ∧ (Motion.lead .forward (h.after operations)).1 = bytes "b" := by
  decide +kernel

end CalcShell.History
