import CalcShell.Program.Shell
import CalcShell.Proofs.Session.Page
import CalcShell.Proofs.Text.Lines

/-! Output that is written piece by piece. Every piece begins a row of its own, so that it has the rows
of the joined pieces just as long as no piece goes on with a row that another one left open. -/
namespace CalcShell

namespace Transcript

@[simp] lemma outputLines_nil (isError : Bool) : outputLines [] isError = [] := rfl

lemma length_outputLines (text : Bytes) (isError : Bool) :
    (outputLines text isError).length = text.lines.length := List.length_map _

/-- The rows of pieces of one kind, one piece after the other. -/
lemma length_flatMap_outputLines (texts : List Bytes) (isError : Bool) :
    (texts.flatMap (outputLines · isError)).length = (texts.flatMap Bytes.lines).length := by
  simp [List.length_flatMap, length_outputLines]

lemma outputLines_flatten {texts : List Bytes} (starts : Bytes.AtLineStarts texts) (isError : Bool) :
    outputLines texts.flatten isError = texts.flatMap (outputLines · isError) := by
  simp only [outputLines, Bytes.lines_flatten starts, List.map_flatMap]

/-- Every line gets a number, so transcripts are only the same if as many lines were added. -/
lemma length_eq_of_pushAll_eq {t : Transcript} {lines lines' : List TranscriptLine}
    (same : t.pushAll lines = t.pushAll lines') : lines.length = lines'.length := by
  have marks := congrArg mark same
  rw [mark_pushAll, mark_pushAll] at marks
  omega

/-- Pieces of one kind make the same transcript one by one and together just if each of them is written
where a line begins. -/
theorem pushAll_pieces_eq_iff (t : Transcript) (before : List TranscriptLine) (texts : List Bytes)
    (isError : Bool) :
    t.pushAll (before ++ texts.flatMap (outputLines · isError)) =
        t.pushAll (before ++ outputLines texts.flatten isError) ↔ Bytes.AtLineStarts texts := by
  constructor
  · intro same
    have lengths := length_eq_of_pushAll_eq same
    rw [List.length_append, List.length_append, length_flatMap_outputLines, length_outputLines] at lengths
    rw [← Bytes.length_lines_flatten_eq_iff]
    omega
  · intro starts
    rw [outputLines_flatten starts]

end Transcript

lemma Renderer.transcript_appendOutput (r : Renderer) (text : Bytes) (isError : Bool) :
    (r.appendOutput text isError).transcript =
      r.transcript.pushAll (Transcript.outputLines text isError) := rfl

namespace Session
open CalcShell.Calc (Calculator)

variable {ε : Type}

lemma written_of_kind {pieces : List Piece} {isError : Bool}
    (kind : ∀ piece ∈ pieces, piece.isError = isError) :
    written pieces = (pieces.map (·.text)).flatMap (Transcript.outputLines · isError) := by
  rw [written, List.flatMap_map]
  exact List.flatMap_congr fun piece mem => by rw [kind piece mem]

lemma joined_of_kind {pieces : List Piece} {isError : Bool}
    (kind : ∀ piece ∈ pieces, piece.isError = isError) (other : Bool) :
    Piece.joined other pieces = if other = isError then (pieces.map (·.text)).flatten else [] := by
  rw [Piece.joined]
  split
  · rename_i same
    rw [List.filter_eq_self.2 fun piece mem => by rw [kind piece mem, same, beq_self_eq_true],
      List.flatMap_def]
  · rename_i differs
    rw [List.filter_eq_nil_iff.2 fun piece mem => by simpa [kind piece mem] using Ne.symm differs,
      List.flatMap_nil]

/-- Empty texts make no rows. -/
lemma written_filter (pieces : List Piece) :
    written (pieces.filter (!·.text.isEmpty)) = written pieces := by
  induction pieces with
  | nil => rfl
  | cons piece behind ih =>
    rw [List.filter_cons]
    split
    · rw [written, List.flatMap_cons, ← written, ih, written, written, List.flatMap_cons]
    · rename_i empty
      have none : piece.text = [] := by simpa using empty
      rw [ih, written, written, List.flatMap_cons, none]
      rfl

/-- What is shown after an evaluation of all that it wrote. -/
lemma written_unseen_of_kind {sub : Submission ε} {more : Bool} {levels : Nat} {isError : Bool}
    (finished : sub.outcome = .finished more levels)
    (kind : ∀ piece ∈ sub.pieces, piece.isError = isError) :
    written (unseen false sub) =
      Transcript.outputLines (sub.pieces.map (·.text)).flatten isError := by
  rw [unseen, finished]
  dsimp only
  rw [if_neg Bool.false_ne_true, written_filter, joined_of_kind kind, joined_of_kind kind]
  cases isError <;> simp [written]

variable [Evaluator ε] {s : Session ε} {more : Bool} {levels : Nat} {isError : Bool}

/-- What a line adds to the transcript that shows each piece at once. -/
lemma added_at_once (streams : s.streams = true)
    (finished : s.submission.outcome = .finished more levels)
    (kind : ∀ piece ∈ s.submission.pieces, piece.isError = isError) :
    s.added = [s.inputLine] ++
      (s.submission.pieces.map (·.text)).flatMap (Transcript.outputLines · isError) := by
  have nothing : written (unseen true s.submission) = [] := by
    rw [unseen, finished]
    rfl
  rw [added, shown, streams, if_pos rfl, nothing, written_of_kind kind]
  simp

/-- What a line adds to the transcript that shows all pieces together. -/
lemma added_together (streams : s.streams = false)
    (finished : s.submission.outcome = .finished more levels)
    (kind : ∀ piece ∈ s.submission.pieces, piece.isError = isError) :
    s.added = [s.inputLine] ++
      Transcript.outputLines (s.submission.pieces.map (·.text)).flatten isError := by
  rw [added, shown, streams, if_neg Bool.false_ne_true, written_unseen_of_kind finished kind]

/-- Two texts of one kind make the same rows one after the other and together just if the first one
leaves no row open or there is nothing behind it. So a line that writes pieces of one kind leaves the
same transcript, whether each piece is shown at once or all of them together afterwards, just if every
piece is written where a row begins. -/
theorem rows_of_pieces_eq_iff (r : Renderer) (front back : Bytes) (isError : Bool) (s : Session ε)
    (now : Int) {more : Bool} {levels : Nat} (finished : s.submission.outcome = .finished more levels)
    (kind : ∀ piece ∈ s.submission.pieces, piece.isError = isError) :
    (((r.appendOutput front isError).appendOutput back isError).transcript =
        (r.appendOutput (front ++ back) isError).transcript ↔ front.IsWhole ∨ back = []) ∧
      (({ s with streams := true }.submit now).transcript =
          ({ s with streams := false }.submit now).transcript ↔
        Bytes.AtLineStarts (s.submission.pieces.map (·.text))) := by
  constructor
  · have pieces := Transcript.pushAll_pieces_eq_iff r.transcript [] [front, back] isError
    rw [Renderer.transcript_appendOutput, Renderer.transcript_appendOutput,
      Renderer.transcript_appendOutput]
    simpa [Bytes.AtLineStarts, Transcript.pushAll] using pieces
  · have calm : s.submission.outcome ≠ .interrupted := by simp [finished]
    have stays : s.submission.outcome ≠ .exit := by simp [finished]
    have submitted (streams : Bool) : ({ s with streams }.submit now).transcript =
        s.transcript.pushAll { s with streams }.added :=
      congrArg Page.transcript (page_submit_of_taken (s := { s with streams }) calm stays now)
    rw [submitted, submitted, added_at_once (s := { s with streams := true }) rfl finished kind,
      added_together (s := { s with streams := false }) rfl finished kind]
    exact Transcript.pushAll_pieces_eq_iff _ _ _ _

/-- Two whole lines and a line without its newline, which comes last. -/
theorem rows_of_printed_lines :
    let s : Session Calculator := { Shell.start {} {} none {} with
      line := { before := bytes "print('a') or print('b\\n') or print('c', end='')" } }
    ((s.renderer.appendOutput (bytes "a\n") false).appendOutput (bytes "b") false).transcript =
        (s.renderer.appendOutput (bytes "a\n" ++ bytes "b") false).transcript ∧
      ({ s with streams := true }.submit 0).transcript =
        ({ s with streams := false }.submit 0).transcript := by
  intro s
  obtain ⟨finished, kind, starts⟩ : s.submission.outcome = .finished false 0 ∧
      (∀ piece ∈ s.submission.pieces, piece.isError = false) ∧
      Bytes.AtLineStarts (s.submission.pieces.map (·.text)) := by decide +kernel
  have iff := rows_of_pieces_eq_iff s.renderer (bytes "a\n") (bytes "b") false s 0 finished kind
  exact ⟨iff.1.2 (by decide +kernel), iff.2.2 starts⟩

/-- Both texts are written on one line, but shown at once they have a row each. -/
theorem pieces_of_line_on_two_rows :
    let s : Session Calculator := { Shell.start {} {} none {} with
      line := { before := bytes "print('a', end='') or print('b')" } }
    let rows (streams : Bool) := (({ s with streams }.submit 0).transcript.lines.toList.drop 2).map
      fun (line : TranscriptLine) => StyledLine.plain line.styled
    s.submission.outcome = .finished false 0 ∧
      s.submission.pieces = [{ text := bytes "a" }, { text := bytes "b\n" }] ∧
      rows true = [bytes "a", bytes "b"] ∧ rows false = [bytes "ab"] := by
  decide +kernel

end Session
end CalcShell
