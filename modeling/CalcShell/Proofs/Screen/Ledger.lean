import CalcShell.Proofs.Screen.Inputs
import Mathlib.Data.List.DropRight

/-! A ledger of a transcript. It holds every line that was ever added with the number that the line got,
and is told what becomes of the lines; the transcript has the lines that the ledger keeps, under the
numbers of the ledger. -/
namespace CalcShell

/-- The lines of a transcript with their numbers. -/
def Transcript.numbered (t : Transcript) : List (TranscriptLine × Nat) :=
  t.lines.toList.zipIdx t.first

/-- A line that was added to a transcript. -/
structure Added where
  /-- How many lines were added before it. -/
  order : Nat
  /-- The number that the transcript announced for it. -/
  number : Nat
  line : TranscriptLine
deriving DecidableEq

/-- What became of all lines that were ever added, oldest first. -/
structure Ledger where
  count : Nat := 0
  /-- The lines that are still there. -/
  kept : List Added := []
  /-- The lines that were neither cleared nor rewound; the oldest ones may have had to go. -/
  standing : List Added := []

namespace Ledger

/-- The entry for one more line. -/
def entry (l : Ledger) (number : Nat) (line : TranscriptLine) : Added :=
  { order := l.count, number, line }

/-- Adds a line; of too many only the newest ones are kept. -/
def add (l : Ledger) (number : Nat) (line : TranscriptLine) : Ledger where
  count := l.count + 1
  kept := (l.kept ++ [l.entry number line]).rtake Transcript.limit
  standing := l.standing ++ [l.entry number line]

/-- Lines get one number after the other. -/
def addAll (l : Ledger) (number : Nat) : List TranscriptLine → Ledger
  | [] => l
  | line :: lines => (l.add number line).addAll (number + 1) lines

def clear (l : Ledger) : Ledger := { l with kept := [], standing := [] }

/-- Drops the lines with the number `mark` and above. -/
def rewind (l : Ledger) (mark : Nat) : Ledger :=
  { l with
    kept := l.kept.filter (·.number < mark), standing := l.standing.filter (·.number < mark) }

/-! ### One ledger and the next -/

variable {l : Ledger} {number : Nat} {line : TranscriptLine} {lines : List TranscriptLine}
  {e : Added}

lemma count_le_addAll (l : Ledger) (number : Nat) (lines : List TranscriptLine) :
    l.count ≤ (l.addAll number lines).count := by
  induction lines generalizing l number with
  | nil => exact Nat.le_refl _
  | cons line lines ih => exact Nat.le_trans (Nat.le_succ _) (ih (l.add number line) (number + 1))

lemma kept_add (l : Ledger) (number : Nat) (line : TranscriptLine) : (l.add number line).kept =
    (l.kept ++ [l.entry number line]).drop (l.kept.length + 1 - Transcript.limit) := by
  unfold add List.rtake
  dsimp only
  rw [List.length_append, List.length_singleton]

lemma mem_add (mem : e ∈ (l.add number line).kept) :
    e ∈ l.kept ∨ e = l.entry number line := by
  rw [kept_add] at mem
  rcases List.mem_append.1 (List.mem_of_mem_drop mem) with old | new
  · exact .inl old
  · exact .inr (List.mem_singleton.1 new)

/-- A line is an old one, or it came later and has a later number. -/
lemma mem_addAll (mem : e ∈ (l.addAll number lines).kept) :
    e ∈ l.kept ∨ (l.count ≤ e.order ∧ number ≤ e.number) := by
  induction lines generalizing l number with
  | nil => exact .inl mem
  | cons line lines ih =>
    rcases ih mem with old | ⟨later, above⟩
    · rcases mem_add old with old | rfl
      · exact .inl old
      · exact .inr ⟨Nat.le_refl _, Nat.le_refl _⟩
    · exact .inr ⟨Nat.le_of_succ_le later, Nat.le_of_succ_le above⟩

/-! ### Consecutive numbers -/

/-- The lines have consecutive numbers from `n` on. -/
def Numbered (n : Nat) (as : List Added) : Prop := as.zipIdx n = as.map fun e => (e, e.number)

section

variable {n : Nat} {as : List Added}

lemma map_fst_map_number (as : List Added) : (as.map fun e => (e, e.number)).map Prod.fst = as := by
  rw [List.map_map]
  exact List.map_id as

lemma Numbered.filter_lt (h : Numbered n as) (k : Nat) :
    as.filter (·.number < n + k) = as.take k := by
  have front := congrArg (List.map Prod.fst) (filter_zipIdx_lt as n k)
  rw [h, List.filter_map, map_fst_map_number, List.zipIdx_map_fst] at front
  exact front

lemma Numbered.filter_le (h : Numbered n as) (k : Nat) :
    as.filter (n + k ≤ ·.number) = as.drop k := by
  have back := congrArg (List.map Prod.fst) (filter_zipIdx_le as n k)
  rw [h, List.filter_map, map_fst_map_number, List.zipIdx_map_fst] at back
  exact back

lemma Numbered.take (h : Numbered n as) (k : Nat) : Numbered n (as.take k) := by
  unfold Numbered
  rw [← filter_zipIdx_lt, h, List.filter_map, ← h.filter_lt]
  rfl

lemma Numbered.drop (h : Numbered n as) (k : Nat) : Numbered (n + k) (as.drop k) := by
  unfold Numbered
  rw [← filter_zipIdx_le, h, List.filter_map, ← h.filter_le]
  rfl

lemma Numbered.concat (h : Numbered n as) (last : e.number = n + as.length) :
    Numbered n (as ++ [e]) := by
  unfold Numbered
  rw [List.zipIdx_append, List.map_append, h, List.zipIdx_singleton, ← last]
  rfl

lemma Numbered.lt (h : Numbered n as) (mem : e ∈ as) : n ≤ e.number ∧ e.number < n + as.length := by
  have among : (e, e.number) ∈ as.zipIdx n := by
    rw [h]
    exact List.mem_map_of_mem mem
  have above := List.snd_lt_of_mem_zipIdx among
  rw [Nat.add_comm] at above
  exact ⟨List.le_snd_of_mem_zipIdx among, above⟩

end

/-! ### The lines of a transcript -/

/-- The transcript has the lines that the ledger keeps, under their numbers. -/
structure Tells (l : Ledger) (t : Transcript) : Prop where
  lines : t.lines.toList = l.kept.map (·.line)
  numbered : Numbered t.first l.kept
  bounded : l.kept.length ≤ Transcript.limit
  newest : l.kept <:+ l.standing
  earlier : ∀ e ∈ l.kept, e.order < l.count

variable {t : Transcript}

lemma Tells.size (h : l.Tells t) : t.lines.size = l.kept.length := by
  rw [Transcript.size_eq_length, h.lines, List.length_map]

lemma Tells.mark (h : l.Tells t) : t.mark = t.first + l.kept.length := by
  unfold Transcript.mark
  rw [h.size]

lemma Tells.number_lt (h : l.Tells t) (mem : e ∈ l.kept) : e.number < t.mark := by
  rw [h.mark]
  exact (h.numbered.lt mem).2

lemma Tells.push (h : l.Tells t) (line : TranscriptLine) :
    (l.add t.mark line).Tells (t.push line) := by
  obtain ⟨first, shape⟩ := t.push_eq line
  rw [h.size] at first shape
  constructor
  · rw [shape, kept_add, h.lines, List.map_drop, List.map_append]
    rfl
  · rw [first, kept_add]
    exact (h.numbered.concat h.mark).drop (l.kept.length + 1 - Transcript.limit)
  · rw [kept_add, List.length_drop, List.length_append, List.length_singleton]
    omega
  · rw [kept_add]
    obtain ⟨gone, standing⟩ := h.newest
    refine (List.drop_suffix _ _).trans ⟨gone, ?_⟩
    rw [← List.append_assoc, standing]
    rfl
  · intro e mem
    rcases mem_add mem with old | rfl
    · exact Nat.lt_succ_of_lt (h.earlier e old)
    · exact Nat.lt_succ_self _

lemma Tells.pushAll (h : l.Tells t) (lines : List TranscriptLine) :
    (l.addAll t.mark lines).Tells (t.pushAll lines) := by
  induction lines generalizing l t with
  | nil => exact h
  | cons line lines ih =>
    have later := ih (h.push line)
    rw [Transcript.mark_push] at later
    exact later

lemma tells_clear (l : Ledger) (t : Transcript) : l.clear.Tells t.clear where
  lines := rfl
  numbered := rfl
  bounded := Nat.zero_le _
  newest := List.nil_suffix
  earlier _ mem := by cases mem

/-- What a rewinding leaves are the oldest lines. -/
lemma Tells.kept_rewind (h : l.Tells t) (mark : Nat) :
    (l.rewind mark).kept = l.kept.take (mark - t.first) := by
  rw [← h.numbered.filter_lt]
  refine List.filter_congr fun e mem => ?_
  have := (h.numbered.lt mem).1
  rw [decide_eq_decide]
  omega

lemma Tells.rewind (h : l.Tells t) (mark : Nat) : (l.rewind mark).Tells (t.rewind mark) := by
  constructor
  · rw [Transcript.toList_rewind, h.kept_rewind, h.lines, List.map_take]
  · rw [h.kept_rewind]
    exact h.numbered.take _
  · exact Nat.le_trans (List.length_filter_le _ _) h.bounded
  · exact h.newest.filter _
  · intro e mem
    exact h.earlier e (List.mem_of_mem_filter mem)

/-- Each line of the transcript has the number that it got when it was added. -/
lemma Tells.zipIdx (h : l.Tells t) : t.numbered = l.kept.map fun e => (e.line, e.number) := by
  unfold Transcript.numbered
  rw [h.lines, List.zipIdx_map, h.numbered, List.map_map]
  rfl

/-- A line goes only when its number is below that of the oldest line. -/
lemma Tells.mem_addAll (h : l.Tells t) (mem : e ∈ l.kept) {lines : List TranscriptLine}
    (stays : (t.pushAll lines).first ≤ e.number) : e ∈ (l.addAll t.mark lines).kept := by
  induction lines generalizing l t with
  | nil => exact mem
  | cons line lines ih =>
    obtain ⟨first, -⟩ := t.push_eq line
    have here : (t.push line).first ≤ e.number :=
      Nat.le_trans (Transcript.first_le_pushAll (t.push line) lines) stays
    rw [first, h.size] at here
    have kept : e ∈ (l.add t.mark line).kept := by
      rw [kept_add, ← (h.numbered.concat h.mark).filter_le, List.mem_filter, decide_eq_true_eq]
      exact ⟨List.mem_append_left _ mem, here⟩
    have later := ih (h.push line) kept stays
    rw [Transcript.mark_push] at later
    exact later

end Ledger
end CalcShell
