import CalcShell.Screen.Renderer
import Mathlib.Tactic.Lemma

/-! Lines are only ever added to the transcript at its end, and rewinding takes back what was added
as long as no old line had to go. -/
namespace CalcShell

namespace Transcript

/-- Lines were added. -/
def Extends (t t' : Transcript) : Prop := ∃ lines, t' = t.pushAll lines

lemma Extends.refl (t : Transcript) : t.Extends t := ⟨[], rfl⟩

lemma Extends.trans {t t' t'' : Transcript} (h : t.Extends t') (h' : t'.Extends t'') :
    t.Extends t'' := by
  obtain ⟨lines, rfl⟩ := h
  obtain ⟨lines', rfl⟩ := h'
  refine ⟨lines ++ lines', ?_⟩
  unfold pushAll
  rw [List.foldl_append]

lemma extends_pushAll (t : Transcript) (lines : List TranscriptLine) :
    t.Extends (t.pushAll lines) := ⟨lines, rfl⟩

lemma first_le_push (t : Transcript) (line : TranscriptLine) : t.first ≤ (t.push line).first := by
  unfold push
  dsimp only
  split
  · exact Nat.le_refl _
  · exact Nat.le_add_right _ _

lemma first_le_pushAll (t : Transcript) (lines : List TranscriptLine) :
    t.first ≤ (t.pushAll lines).first := by
  unfold pushAll
  induction lines generalizing t with
  | nil => exact Nat.le_refl _
  | cons line lines ih => exact Nat.le_trans (first_le_push t line) (ih (t.push line))

lemma push_of_first_eq {t : Transcript} {line : TranscriptLine}
    (h : (t.push line).first = t.first) : t.push line = { t with lines := t.lines.push line } := by
  unfold push at h ⊢
  dsimp only at h ⊢
  split at h
  · rename_i room
    rw [if_pos room]
  · rename_i full
    simp only at h
    omega

/-- As long as no line is dropped, the new ones stand behind the old ones. -/
lemma pushAll_of_first_eq {t : Transcript} {lines : List TranscriptLine}
    (h : (t.pushAll lines).first = t.first) :
    t.pushAll lines = { t with lines := t.lines ++ lines.toArray } := by
  induction lines generalizing t with
  | nil => simp [pushAll]
  | cons line lines ih =>
    have rest : t.pushAll (line :: lines) = (t.push line).pushAll lines := rfl
    have below := first_le_push t line
    have above := first_le_pushAll (t.push line) lines
    rw [rest] at h ⊢
    have first : (t.push line).first = t.first := by omega
    rw [ih (by omega), push_of_first_eq first]
    simp

lemma push_of_room {t : Transcript} (room : t.lines.size < limit) (line : TranscriptLine) :
    t.push line = { t with lines := t.lines.push line } := by
  unfold push
  dsimp only
  rw [if_pos (by rw [Array.size_push]; omega)]

/-- A full transcript drops its oldest line for every new one. -/
lemma first_push_of_full {t : Transcript} (full : t.lines.size = limit) (line : TranscriptLine) :
    (t.push line).first = t.first + 1 := by
  unfold push
  dsimp only
  have size : (t.lines.push line).size = limit + 1 := by rw [Array.size_push, full]
  rw [if_neg (by omega), size, Nat.add_sub_cancel_left]

lemma first_pushAll_of_room {t : Transcript} {lines : List TranscriptLine}
    (room : t.lines.size + lines.length ≤ limit) : (t.pushAll lines).first = t.first := by
  induction lines generalizing t with
  | nil => rfl
  | cons line lines ih =>
    rw [List.length_cons] at room
    have push : t.push line = _ := push_of_room (by omega) line
    have size : (t.push line).lines.size + lines.length ≤ limit := by
      rw [push, Array.size_push]
      omega
    change ((t.push line).pushAll lines).first = t.first
    rw [ih size, push]

@[simp] lemma first_rewind (t : Transcript) (mark : Nat) : (t.rewind mark).first = t.first := rfl

/-- Rewinding to the end of a transcript takes back everything that was added to it. -/
theorem Extends.rewind_mark {t t' : Transcript} (h : t.Extends t') (first : t'.first = t.first) :
    t'.rewind t.mark = t := by
  obtain ⟨lines, rfl⟩ := h
  have shape := pushAll_of_first_eq first
  rw [shape]
  unfold rewind mark
  simp

lemma rewind_of_mark_le {t : Transcript} {mark : Nat} (h : t.mark ≤ mark) : t.rewind mark = t := by
  have all : t.lines.size ≤ mark - t.first := by
    unfold Transcript.mark at h
    omega
  unfold rewind
  rw [Array.extract_eq_self_of_le all]

end Transcript

end CalcShell
