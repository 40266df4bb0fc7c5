import CalcShell.Text.Utf8

/-!
Greedy word wrapping. The lines of a text stay apart, words are separated by one space, and only a
word wider than a line is split.
-/
namespace CalcShell
namespace WordWrap

/-- The pieces of a text between white space. -/
def words (text : Bytes) : List Bytes :=
  (text.splitBy fun a b => Ascii.isSpace a == Ascii.isSpace b).filter (!Bytes.isBlank ·)

theorem truncate_ne_nil {cells : Nat} {text : Bytes} (hc : 0 < cells) (ht : text ≠ []) :
    Utf8.truncate cells text ≠ [] := by
  cases text with
  | nil => exact absurd rfl ht
  | cons b rest =>
    obtain ⟨n, rfl⟩ := Nat.exists_eq_succ_of_ne_zero (Nat.ne_of_gt hc)
    simp [Utf8.truncate, Utf8.chunks_cons]

/-- Cuts pieces of a full line from a word until the rest fits; the rest may be empty. -/
def splitLong (width : Nat) (word : Bytes) : List Bytes × Bytes :=
  if _wide : 0 < width ∧ width < Utf8.width word then
    let head := Utf8.truncate width word
    let (heads, rest) := splitLong width (word.drop (Utf8.truncate width word).length)
    (head :: heads, rest)
  else ([], word)
termination_by word.length
decreasing_by
  have nonempty : word ≠ [] := by rintro rfl; simp at _wide
  have := List.length_pos_iff.2 (truncate_ne_nil _wide.1 nonempty)
  have := List.length_pos_iff.2 nonempty
  simp only [List.length_drop]
  omega

def flush (line : Bytes) : List Bytes := if line.isEmpty then [] else [line]

/-- The lines of a paragraph whose current line is `line`. -/
def layWords (width : Nat) (line : Bytes) : List Bytes → List Bytes
  | [] => flush line
  | word :: rest =>
    match splitLong width word with
    | ([], word) =>
      if line.isEmpty then layWords width word rest
      else if Utf8.width line + 1 + Utf8.width word ≤ width then
        layWords width (line ++ [Ascii.space] ++ word) rest
      else line :: layWords width word rest
    | (heads, word) => flush line ++ heads ++ layWords width word rest

/-- The lines of a paragraph; one without words is a blank line. -/
def paragraph (width : Nat) (text : Bytes) : List Bytes :=
  match words text with
  | [] => [[]]
  | ws => layWords width [] ws

/-- The lines of a text, without blank ones at the end. There are none without any width. -/
def wrap (text : Bytes) (width : Nat) : List Bytes :=
  if width = 0 then []
  else ((text.lines.flatMap (paragraph width)).reverse.dropWhile (·.isEmpty)).reverse

end WordWrap
end CalcShell
