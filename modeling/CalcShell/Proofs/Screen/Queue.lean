import CalcShell.Proofs.Screen.Numbering

/-! The transcript as a queue in which lines are named by their places. The places move down with every
line that is dropped at the front, the start of the statement and the mark on a bracket move with them, and
a mark goes with its line. Counted from the oldest line that is kept, the numbers of a renderer's lines are
these places. -/
namespace CalcShell

/-- A bracket that is highlighted on the line at a place. -/
structure PlacedMark where
  index : Nat
  column : Nat
  /-- The line without the highlight. -/
  plain : StyledLine
deriving DecidableEq

structure LineQueue where
  /-- How many lines are gone at the front. -/
  dropped : Nat := 0
  lines : List TranscriptLine := []
  /-- Place of the first line of the statement being edited. -/
  start : Nat := 0
  mark : Option PlacedMark := none

namespace LineQueue

open Renderer (openingFor? scanBack)

/-- Moves a mark down with its line; a mark on the oldest line is dropped with it. -/
def lower (mark : PlacedMark) : Option PlacedMark :=
  if mark.index = 0 then none else some { mark with index := mark.index - 1 }

/-- Drops the oldest line. -/
def shift (q : LineQueue) : LineQueue where
  dropped := q.dropped + 1
  lines := q.lines.tail
  start := q.start - 1
  mark := q.mark.bind lower

/-- Drops the oldest lines while there are too many. -/
def trim (q : LineQueue) : LineQueue :=
  if Transcript.limit < q.lines.length then q.shift.trim else q
termination_by q.lines.length
decreasing_by
  rw [shift, List.length_tail]
  omega

def push (q : LineQueue) (line : TranscriptLine) : LineQueue :=
  { q with lines := q.lines ++ [line] }.trim

def pushAll (q : LineQueue) (lines : List TranscriptLine) : LineQueue := lines.foldl push q

def clear (q : LineQueue) : LineQueue := { dropped := q.dropped + q.lines.length }

def rewind (q : LineQueue) (mark : Nat) : LineQueue :=
  let keep := max mark q.dropped - q.dropped
  if q.lines.length ≤ keep then q
  else { q with lines := q.lines.take keep, start := min q.start keep, mark := none }

/-- Searches the input lines below place `n` down to the start of the statement. -/
def scan (q : LineQueue) (opening close : UInt8) : (depth n : Nat) → Option PlacedMark
  | _, 0 => none
  | depth, n + 1 =>
    if n < q.start then none
    else
      match q.lines[n]? with
      | some { styled, source := some source, promptWidth } =>
        match scanBack opening close depth source.reverse with
        | .inl place => some { index := n, column := promptWidth + place, plain := styled }
        | .inr depth => q.scan opening close depth n
      | _ => q.scan opening close depth n

/-- The mark that a frame gets: on the partner of the bracket left of the cursor, if the line being edited
does not have it. -/
def search (q : LineQueue) (frame : Frame) : Option PlacedMark :=
  match (frame.text.take frame.cursor).reverse with
  | [] => none
  | close :: left =>
    match openingFor? close with
    | none => none
    | some opening =>
      match scanBack opening close 1 left with
      | .inl _ => none
      | .inr depth => q.scan opening close depth q.lines.length

def render (q : LineQueue) (r : Renderer) (frame : Frame) : LineQueue :=
  if r.searches frame then { q with mark := q.search frame } else q

/-- The queue after a call of a renderer. -/
def perform (q : LineQueue) (r : Renderer) : Call → LineQueue
  | .beginInput isContinuation =>
    { q with start := if isContinuation then q.start else q.lines.length }
  | .commitInput text isContinuation =>
    { q with mark := none }.push (r.inputLine text isContinuation)
  | .appendOutput text isError => q.pushAll (Transcript.outputLines text isError)
  | .clearScreen => q.clear
  | .rewind mark => q.rewind mark
  | .render frame => q.render r frame
  | .redraw => q.render r r.lastFrame
  | _ => q

/-- The queue after the calls of a display. -/
def run (q : LineQueue) (d : Display) : List Call → LineQueue
  | [] => q
  | call :: calls => (q.perform d.renderer call).run (d.perform call) calls

/-- A line with the highlight that its place has. -/
def withMark (q : LineQueue) (index : Nat) (line : StyledLine) : StyledLine :=
  match q.mark with
  | some mark => if mark.index = index then line.highlight mark.column .paren else line
  | none => line

/-! ### Places that move -/

/-- A mark `k` places further down. -/
def lowerBy (k : Nat) (mark : PlacedMark) : Option PlacedMark :=
  if mark.index < k then none else some { mark with index := mark.index - k }

lemma lowerBy_zero : lowerBy 0 = some := by
  funext mark
  rw [lowerBy, if_neg (Nat.not_lt_zero _)]
  rfl

lemma lower_bind_lowerBy (k : Nat) (mark : PlacedMark) :
    (lower mark).bind (lowerBy k) = lowerBy (k + 1) mark := by
  unfold lower lowerBy
  by_cases oldest : mark.index = 0
  · rw [if_pos oldest, if_pos (by omega)]
    rfl
  · have apart : mark.index - 1 < k ↔ mark.index < k + 1 := by omega
    rw [if_neg oldest, Option.bind_some]
    simp only [apart, Nat.sub_sub, Nat.add_comm 1 k]

/-- All that is dropped is dropped at once. -/
lemma trim_eq (q : LineQueue) :
    let k := q.lines.length - Transcript.limit
    q.trim = { dropped := q.dropped + k, lines := q.lines.drop k, start := q.start - k
               mark := q.mark.bind (lowerBy k) } := by
  dsimp only
  fun_induction trim q with
  | case1 q many ih =>
    have one : q.lines.length - Transcript.limit = (q.lines.length - 1 - Transcript.limit) + 1 := by omega
    rw [ih, shift, List.length_tail, one, ← List.drop_one, List.drop_drop, Option.bind_assoc]
    simp only [lower_bind_lowerBy, Nat.sub_sub, Nat.add_assoc, Nat.add_comm 1]
  | case2 q few =>
    rw [Nat.sub_eq_zero_of_le (Nat.not_lt.1 few), List.drop_zero, lowerBy_zero, Option.bind_fun_some]
    rfl

end LineQueue

/-! ### The numbers of a renderer as places -/

/-- A mark counted from line number `first`. -/
def ParenMark.placed (mark : ParenMark) (first : Nat) : PlacedMark where
  index := mark.line - first
  column := mark.column
  plain := mark.plain

namespace Renderer

/-- The transcript of a renderer, with the start of the statement and the mark at their places. -/
def queue (r : Renderer) : LineQueue where
  dropped := r.transcript.first
  lines := r.transcript.lines.toList
  start := r.statementStart - r.transcript.first
  mark := r.paren.map (·.placed r.transcript.first)

/-- The statement begins no later than the next line, and the mark is on a line that is kept. -/
structure IsPlaced (r : Renderer) : Prop where
  start_le : r.statementStart ≤ r.transcript.mark
  first_le : ∀ mark, r.paren = some mark → r.transcript.first ≤ mark.line

variable {r : Renderer}

lemma length_queue (r : Renderer) : r.queue.lines.length = r.transcript.lines.size :=
  Array.length_toList

lemma lowerBy_placed {mark : ParenMark} {first : Nat} (k : Nat) (le : first ≤ mark.line) :
    LineQueue.lowerBy k (mark.placed first) =
      if first + k ≤ mark.line then some (mark.placed (first + k)) else none := by
  unfold LineQueue.lowerBy ParenMark.placed
  by_cases stays : first + k ≤ mark.line
  · rw [if_neg (by dsimp only; omega), if_pos stays, Nat.sub_sub]
  · rw [if_pos (by dsimp only; omega), if_neg stays]

/-! ### More lines -/

lemma IsPlaced.mark_lowerBy (h : r.IsPlaced) (k : Nat) :
    r.queue.mark.bind (LineQueue.lowerBy k) =
      (r.paren.filter (r.transcript.first + k ≤ ·.line)).map (·.placed (r.transcript.first + k)) := by
  unfold queue
  dsimp only
  cases marked : r.paren with
  | none => rfl
  | some mark =>
    rw [Option.map_some, Option.bind_some, lowerBy_placed k (h.first_le mark marked), Option.filter_some]
    by_cases stays : r.transcript.first + k ≤ mark.line <;> simp [stays]

lemma IsPlaced.queue_push (h : r.IsPlaced) (line : TranscriptLine) :
    (r.push [line]).queue = r.queue.push line := by
  obtain ⟨first, lines⟩ := r.transcript.push_eq line
  have many : (r.queue.lines ++ [line]).length = r.transcript.lines.size + 1 := by
    rw [List.length_append, length_queue, List.length_singleton]
  rw [LineQueue.push, LineQueue.trim_eq]
  dsimp only
  rw [many, h.mark_lowerBy, ← first]
  unfold queue
  dsimp only
  rw [← lines, Nat.sub_sub, ← first]
  rfl

/-- A mark that stands on a line kept in the end stood on a kept line all along. -/
lemma push_cons (r : Renderer) (line : TranscriptLine) (lines : List TranscriptLine) :
    r.push (line :: lines) = (r.push [line]).push lines := by
  let t := r.transcript.push line
  have le : t.first ≤ (t.pushAll lines).first := t.first_le_pushAll lines
  have stays : r.paren.filter ((t.pushAll lines).first ≤ ·.line) =
      (r.paren.filter (t.first ≤ ·.line)).filter ((t.pushAll lines).first ≤ ·.line) := by
    rw [Option.filter_filter]
    congr 1
    funext mark
    rw [← Bool.decide_and, decide_eq_decide]
    omega
  exact congrArg (fun paren => { r with transcript := t.pushAll lines, paren }) stays

lemma IsPlaced.push (h : r.IsPlaced) (lines : List TranscriptLine) : (r.push lines).IsPlaced where
  start_le := by
    change r.statementStart ≤ (r.transcript.pushAll lines).mark
    rw [Transcript.mark_pushAll]
    exact Nat.le_add_right_of_le h.start_le
  first_le mark marked := by
    obtain ⟨-, stays⟩ := Option.filter_eq_some_iff.1 marked
    exact of_decide_eq_true stays

lemma IsPlaced.queue_pushAll (h : r.IsPlaced) (lines : List TranscriptLine) :
    (r.push lines).queue = r.queue.pushAll lines := by
  induction lines generalizing r with
  | nil =>
    have same := h.mark_lowerBy 0
    rw [LineQueue.lowerBy_zero, Option.bind_fun_some] at same
    exact congrArg (LineQueue.mk _ _ _) same.symm
  | cons line lines ih =>
    rw [push_cons, ih (h.push [line]), h.queue_push]
    rfl

/-! ### Fewer lines -/

lemma IsPlaced.queue_clearScreen (h : r.IsPlaced) : r.clearScreen.queue = r.queue.clear := by
  have start : r.statementStart - r.transcript.mark = 0 := Nat.sub_eq_zero_of_le h.start_le
  unfold LineQueue.clear
  rw [length_queue, ← start]
  rfl

lemma queue_rewind (r : Renderer) (mark : Nat) : (r.rewind mark).queue = r.queue.rewind mark := by
  have reached : r.transcript.mark ≤ max mark r.transcript.first ↔
      r.queue.lines.length ≤ max mark r.queue.dropped - r.queue.dropped := by
    rw [length_queue, Transcript.mark, show r.queue.dropped = r.transcript.first from rfl]
    omega
  unfold rewind LineQueue.rewind
  dsimp only
  by_cases all : r.transcript.mark ≤ max mark r.transcript.first
  · rw [if_pos all, if_pos (reached.1 all)]
  · rw [if_neg all, if_neg (mt reached.2 all)]
    unfold queue
    dsimp only
    rw [Transcript.toList_rewind, Nat.sub_min_sub_right]
    rfl

/-! ### The search for a bracket -/

lemma scan_queue (r : Renderer) (opening close : UInt8) (depth n : Nat) :
    r.queue.scan opening close depth n =
      (r.scanLines opening close depth n).map (·.placed r.transcript.first) := by
  induction n generalizing depth with
  | zero => rfl
  | succ n ih =>
    have before : n < r.queue.start ↔ r.transcript.first + n < r.statementStart := by
      unfold queue
      dsimp only
      omega
    have there : r.queue.lines[n]? = r.transcript.lines[n]? := Array.getElem?_toList
    rw [LineQueue.scan, scanLines, there]
    by_cases earlier : r.transcript.first + n < r.statementStart
    · rw [if_pos (before.2 earlier), if_pos earlier]
      rfl
    · rw [if_neg (mt before.1 earlier), if_neg earlier]
      cases r.transcript.lines[n]? with
      | none => exact ih depth
      | some line =>
        obtain ⟨styled, source, promptWidth⟩ := line
        cases source with
        | none => exact ih depth
        | some source =>
          dsimp only
          cases scanBack opening close depth source.reverse with
          | inl place => simp [ParenMark.placed]
          | inr depth => exact ih depth

lemma search_queue (r : Renderer) (frame : Frame) (live : StyledLine) :
    r.queue.search frame = (r.matchParen frame live).2.map (·.placed r.transcript.first) := by
  unfold LineQueue.search matchParen
  dsimp only
  cases (frame.text.take frame.cursor).reverse with
  | nil => rfl
  | cons close left =>
    dsimp only
    cases openingFor? close with
    | none => rfl
    | some opening =>
      dsimp only
      cases scanBack opening close 1 left with
      | inl place => rfl
      | inr depth =>
        dsimp only
        rw [length_queue, scan_queue]
        cases r.scanLines opening close depth r.transcript.lines.size <;> rfl

/-! ### All calls -/

/-- On the same page only the mark in the queue can be another one. -/
lemma queue_of_page {r' : Renderer} (page : r'.page = r.page) :
    r'.queue = { r.queue with mark := r'.paren.map (·.placed r.transcript.first) } := by
  obtain ⟨transcript, start⟩ := Page.mk.inj page
  unfold queue
  rw [transcript, start]

lemma IsPlaced.of_page {r' : Renderer} (h : r.IsPlaced) (page : r'.page = r.page)
    (marked : ∀ mark, r'.paren = some mark → r.transcript.first ≤ mark.line) : r'.IsPlaced := by
  obtain ⟨transcript, start⟩ := Page.mk.inj page
  exact ⟨by rw [transcript, start]; exact h.start_le, by rw [transcript]; exact marked⟩

lemma queue_of_same {r' : Renderer} (page : r'.page = r.page) (paren : r'.paren = r.paren) :
    r'.queue = r.queue := by
  rw [queue_of_page page, paren]
  rfl

lemma IsPlaced.of_same {r' : Renderer} (h : r.IsPlaced) (page : r'.page = r.page)
    (paren : r'.paren = r.paren) : r'.IsPlaced :=
  h.of_page page fun mark marked => h.first_le mark (paren.symm.trans marked)

lemma IsPlaced.unmark (h : r.IsPlaced) : ({ r with paren := none } : Renderer).IsPlaced :=
  h.of_page rfl fun _ marked => by cases marked

lemma queue_render (r : Renderer) (frame : Frame) :
    (r.render frame).2.queue = r.queue.render r frame := by
  have page := r.page_render frame
  unfold LineQueue.render
  split
  · rename_i searched
    obtain ⟨looks, typed⟩ := Bool.and_eq_true_iff.1 searched
    obtain ⟨usable, active⟩ := Bool.and_eq_true_iff.1 looks
    rw [queue_of_page page, paren_render (by simpa using usable) active (by simpa using typed),
      ← search_queue { r with lastFrame := frame }]
    rfl
  · rename_i quiet
    exact queue_of_same page (paren_render_of_quiet (Bool.eq_false_iff.2 quiet))

lemma IsPlaced.render (h : r.IsPlaced) (frame : Frame) : (r.render frame).2.IsPlaced := by
  have page := r.page_render frame
  cases searched : r.searches frame with
  | true =>
    refine h.of_page page fun mark marked => ?_
    obtain ⟨line, there, -⟩ := line?_of_search searched marked
    rw [Transcript.line?] at there
    split at there
    · cases there
    · omega
  | false => exact h.of_same page (paren_render_of_quiet searched)

lemma IsPlaced.rewind (h : r.IsPlaced) (mark : Nat) : (r.rewind mark).IsPlaced := by
  unfold Renderer.rewind
  dsimp only
  split
  · exact h
  · rename_i inside
    refine ⟨?_, fun _ marked => by cases marked⟩
    change _ ≤ (r.transcript.rewind (max mark r.transcript.first)).mark
    rw [Transcript.mark_rewind (Nat.le_max_right _ _) (Nat.le_of_not_le inside)]
    exact Nat.min_le_right _ _

/-- The highlight is on the line at the place of the mark. -/
lemma IsPlaced.withMark (h : r.IsPlaced) (index : Nat) (line : StyledLine) :
    Renderer.withMark r.paren (r.transcript.first + index) line = r.queue.withMark index line := by
  unfold Renderer.withMark LineQueue.withMark queue
  cases marked : r.paren with
  | none => rfl
  | some mark =>
    have le := h.first_le mark marked
    have here : mark.line = r.transcript.first + index ↔ mark.line - r.transcript.first = index := by
      omega
    simp only [here]
    rfl

end Renderer

namespace Display

variable {d : Display}

lemma isPlaced_perform (h : d.renderer.IsPlaced) (call : Call) :
    (d.perform call).renderer.IsPlaced := by
  cases call with
  | setGeometry geometry =>
    exact h.of_same (d.renderer.page_setGeometry geometry) (d.renderer.paren_setGeometry geometry)
  | beginInput isContinuation =>
    refine ⟨?_, h.first_le⟩
    change (if isContinuation then d.renderer.statementStart else d.renderer.transcript.mark) ≤ _
    split
    · exact h.start_le
    · exact Nat.le_refl _
  | commitInput text isContinuation =>
    have pushed := h.unmark.push [d.renderer.inputLine text isContinuation]
    exact ⟨pushed.start_le, pushed.first_le⟩
  | appendOutput text isError => exact h.push _
  | clearScreen =>
    refine ⟨?_, fun _ marked => by cases marked⟩
    change d.renderer.statementStart ≤ d.renderer.transcript.clear.mark
    rw [Transcript.mark_clear]
    exact h.start_le
  | rewind mark => exact h.rewind mark
  | setStatus text =>
    exact h.of_same (d.renderer.page_setStatus text) (d.renderer.paren_setStatus text)
  | render frame => exact h.render frame
  | redraw => exact h.render _
  | _ => exact ⟨h.start_le, h.first_le⟩

/-- One call does to the places in the queue what it does to the numbers of the lines. -/
theorem queue_perform (h : d.renderer.IsPlaced) (call : Call) :
    (d.perform call).renderer.queue = d.renderer.queue.perform d.renderer call := by
  cases call with
  | setGeometry geometry =>
    exact Renderer.queue_of_same (d.renderer.page_setGeometry geometry)
      (d.renderer.paren_setGeometry geometry)
  | beginInput isContinuation =>
    cases isContinuation with
    | true => rfl
    | false =>
      have next : d.renderer.transcript.mark - d.renderer.transcript.first =
          d.renderer.queue.lines.length := by
        rw [Renderer.length_queue, Transcript.mark, Nat.add_sub_cancel_left]
      exact congrArg (fun start => { d.renderer.queue with start }) next
  | commitInput text isContinuation => exact h.unmark.queue_push _
  | appendOutput text isError => exact h.queue_pushAll _
  | clearScreen => exact h.queue_clearScreen
  | rewind mark => exact d.renderer.queue_rewind mark
  | setStatus text =>
    exact Renderer.queue_of_same (d.renderer.page_setStatus text) (d.renderer.paren_setStatus text)
  | render frame => exact d.renderer.queue_render frame
  | redraw => exact d.renderer.queue_render _
  | _ => rfl

theorem queue_run (h : d.renderer.IsPlaced) (calls : List Call) :
    (d.run calls).renderer.IsPlaced ∧
      (d.run calls).renderer.queue = d.renderer.queue.run d calls := by
  induction calls generalizing d with
  | nil => exact ⟨h, rfl⟩
  | cons call calls ih =>
    obtain ⟨placed, same⟩ := ih (isPlaced_perform h call)
    rw [queue_perform h call] at same
    exact ⟨placed, same⟩

/-- Whatever a display is asked for, its lines, the start of the statement and the mark on a bracket are
those of a queue whose places move with every line that is dropped, and the line that is drawn with the
highlight is the one at the place of the mark. -/
theorem queue_follows (tokenize : Bytes → StyledLine) (geometry : Geometry) (calls : List Call) :
    let r := ((new tokenize geometry).run calls).renderer
    let q : LineQueue := ({} : LineQueue).run (new tokenize geometry) calls
    r.queue = q ∧ ∀ index line,
      Renderer.withMark r.paren (r.transcript.first + index) line = q.withMark index line := by
  intro r q
  have page := Renderer.page_setGeometry { tokenize } geometry
  have unmarked := Renderer.paren_setGeometry { tokenize } geometry
  have blank : ({ tokenize } : Renderer).IsPlaced := ⟨Nat.zero_le _, fun _ marked => by cases marked⟩
  have placed : (new tokenize geometry).renderer.IsPlaced := blank.of_same page unmarked
  have empty : (new tokenize geometry).renderer.queue = {} := Renderer.queue_of_same page unmarked
  obtain ⟨still, same⟩ := queue_run placed calls
  rw [empty] at same
  refine ⟨same, fun index line => ?_⟩
  rw [still.withMark, same]

end Display
end CalcShell
