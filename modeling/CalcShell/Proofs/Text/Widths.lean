import CalcShell.Proofs.Text.Cells
import Mathlib.Data.List.TakeWhile

/-! How many cells texts take, whatever their bytes are. A code point takes one cell at most, and none if
it is a continuation byte with no character in front of it. -/
namespace CalcShell

namespace Utf8

/-- The bytes behind the first one of a code point are continuation bytes. -/
lemma width_take_trailing (rest : Bytes) : width (rest.take (trailing rest)) = 0 := by
  have short : trailing rest ≤ 3 := by
    rw [trailing]
    exact Nat.le_trans (List.takeWhile_prefix _).length_le (List.length_take_le 3 rest)
  have front : rest.take (trailing rest) = (rest.take 3).takeWhile isContinuation := by
    have cut : rest.take (trailing rest) = (rest.take 3).take (trailing rest) := by
      rw [List.take_take, Nat.min_eq_left short]
    rw [cut, trailing]
    exact (List.prefix_iff_eq_take.1 (List.takeWhile_prefix isContinuation)).symm
  rw [front, width, List.countP_eq_zero]
  intro b mem
  simp [List.mem_takeWhile_imp mem]

lemma width_le_of_mem_chunks {text chunk : Bytes} (mem : chunk ∈ chunks text) : width chunk ≤ 1 := by
  induction text using chunks.induct with
  | case1 => simp at mem
  | case2 b rest ih =>
    rw [chunks_cons, List.mem_cons] at mem
    rcases mem with rfl | behind
    · have others : List.countP (!isContinuation ·) (rest.take (trailing rest)) = 0 :=
        width_take_trailing rest
      rw [width, List.countP_cons, others]
      split <;> omega
    · exact ih behind

lemma truncate_prefix (cells : Nat) (text : Bytes) : truncate cells text <+: text := by
  refine ⟨((chunks text).drop cells).flatten, ?_⟩
  rw [truncate, ← List.flatten_append, List.take_append_drop, flatten_chunks]

lemma width_flatten_le {chunks : List Bytes} (narrow : ∀ chunk ∈ chunks, width chunk ≤ 1) :
    width chunks.flatten ≤ chunks.length := by
  induction chunks with
  | nil => exact Nat.le_refl 0
  | cons chunk chunks ih =>
    obtain ⟨first, others⟩ := List.forall_mem_cons.1 narrow
    have := ih others
    rw [List.flatten_cons, width_append, List.length_cons]
    omega

/-- As many code points take no more cells, whatever their bytes are. -/
lemma width_truncate_le (cells : Nat) (text : Bytes) : width (truncate cells text) ≤ cells :=
  calc width (truncate cells text)
    _ ≤ ((chunks text).take cells).length :=
        width_flatten_le fun _ mem => width_le_of_mem_chunks (List.mem_of_mem_take mem)
    _ ≤ cells := List.length_take_le cells _

end Utf8

namespace StyledLine

lemma width_append (front back : StyledLine) : width (front ++ back) = width front + width back := by
  rw [width, plain_append, Utf8.width_append]
  rfl

lemma width_merge (line : StyledLine) : width (merge line) = width line := by
  rw [width, plain_merge]
  rfl

lemma width_le_length {line : StyledLine} (narrow : ∀ run ∈ line, Utf8.width run.text ≤ 1) :
    width line ≤ line.length :=
  calc width line
    _ ≤ (line.map Run.text).length := Utf8.width_flatten_le (List.forall_mem_map.2 narrow)
    _ = line.length := List.length_map _

lemma width_le_of_mem_cells {line : StyledLine} {cell : Run} (mem : cell ∈ line.cells) :
    Utf8.width cell.text ≤ 1 := by
  obtain ⟨run, -, inRun⟩ := List.mem_flatMap.1 mem
  obtain ⟨chunk, isChunk, rfl⟩ := List.mem_map.1 inRun
  exact Utf8.width_le_of_mem_chunks isChunk

/-- The first row of a wrapped line keeps to the width. -/
lemma width_headD_wrap_le {cols : Nat} (positive : 0 < cols) (line : StyledLine) :
    width ((line.wrap cols).headD []) ≤ cols := by
  have first : (line.wrap cols).headD [] = merge (line.cells.take cols) := by
    rw [List.headD_eq_head?_getD, List.head?_eq_getElem?, getElem?_wrap positive, if_pos (.inl rfl),
      Nat.zero_mul, List.drop_zero]
    rfl
  rw [first, width_merge]
  calc width (line.cells.take cols)
    _ ≤ (line.cells.take cols).length :=
        width_le_length fun cell mem => width_le_of_mem_cells (List.mem_of_mem_take mem)
    _ ≤ cols := List.length_take_le cols line.cells

end StyledLine
end CalcShell
