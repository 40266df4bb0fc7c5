import CalcShell.Proofs.Screen.Brackets
import CalcShell.Proofs.Screen.Ledger
import CalcShell.Proofs.Screen.Redraw

/-! The numbers of the transcript's lines, and the marks that name them. Whatever a display is asked for,
each line that it still has keeps the number that it got in the ledger when it was added. -/
namespace CalcShell

/-! ### What a renderer is asked for -/

namespace Renderer

/-- The line of the transcript that an input makes. -/
def inputLine (r : Renderer) (text : Bytes) (isContinuation : Bool) : TranscriptLine where
  styled := prompt isContinuation :: r.highlight text
  source := some text
  promptWidth := promptWidth isContinuation

/-- The transcript after a call. -/
def told (r : Renderer) : Call → Transcript
  | .commitInput text isContinuation => r.transcript.push (r.inputLine text isContinuation)
  | .appendOutput text isError => r.transcript.pushAll (Transcript.outputLines text isError)
  | .clearScreen => r.transcript.clear
  | .rewind mark => r.transcript.rewind mark
  | _ => r.transcript

lemma transcript_rewind_eq (r : Renderer) (mark : Nat) :
    (r.rewind mark).transcript = r.transcript.rewind mark := by
  have page := congrArg Page.transcript (r.page_rewind mark)
  have within : max mark r.transcript.first - r.transcript.first = mark - r.transcript.first := by
    omega
  rw [Page.transcript_rewind_eq] at page
  refine page.trans ?_
  unfold Transcript.rewind
  rw [← within]
  rfl

lemma mark_le_told {r : Renderer} {call : Call} {mark : Nat} (le : mark ≤ r.transcript.mark)
    (above : ∀ m, call = .rewind m → mark ≤ m) : mark ≤ (r.told call).mark := by
  cases call with
  | commitInput text isContinuation =>
    change mark ≤ (r.transcript.push _).mark
    rw [Transcript.mark_push]
    exact Nat.le_succ_of_le le
  | appendOutput text isError =>
    change mark ≤ (r.transcript.pushAll _).mark
    rw [Transcript.mark_pushAll]
    exact Nat.le_add_right_of_le le
  | clearScreen =>
    change mark ≤ r.transcript.clear.mark
    rw [Transcript.mark_clear]
    exact le
  | rewind m =>
    have asked := above m rfl
    unfold Transcript.mark at le ⊢
    change mark ≤ r.transcript.first + (r.transcript.lines.extract 0 (m - r.transcript.first)).size
    rw [Array.size_extract]
    omega
  | _ => exact le

lemma paren_setGeometry (r : Renderer) (geometry : Geometry) :
    (r.setGeometry geometry).paren = r.paren := by
  unfold setGeometry
  split <;> rfl

lemma paren_setStatus (r : Renderer) (text : Bytes) : (r.setStatus text).paren = r.paren := by
  unfold setStatus
  split <;> rfl

/-- Whether a frame makes the renderer look for a bracket to highlight. -/
def searches (r : Renderer) (frame : Frame) : Bool :=
  !r.geometry.isDegenerate && frame.isActive && !frame.isPaste

/-- A frame that is not searched leaves the mark where it is. -/
lemma paren_render_of_quiet {r : Renderer} {frame : Frame} (quiet : r.searches frame = false) :
    (r.render frame).2.paren = r.paren := by
  unfold render
  dsimp only
  split
  · rfl
  · rename_i usable
    unfold prepare liveLine
    dsimp only
    split
    · rename_i active
      have pasted : frame.isPaste = true := by
        unfold searches at quiet
        rw [active, Bool.eq_false_iff.2 usable] at quiet
        simpa using quiet
      rw [if_pos pasted]
    · rfl

/-- The bracket that is found in the transcript stands on one of its lines. -/
lemma line?_of_matchParen {r : Renderer} {frame : Frame} {live : StyledLine} {mark : ParenMark}
    (found : (r.matchParen frame live).2 = some mark) :
    ∃ line, r.transcript.line? mark.line = some line ∧ line.styled = mark.plain := by
  unfold matchParen at found
  dsimp only at found
  split at found
  · cases found
  · split at found
    · cases found
    · split at found
      · cases found
      · split at found
        · rename_i scanned
          obtain rfl := Option.some.inj found
          rw [scanLines_eq, Option.bind_eq_some_iff] at scanned
          obtain ⟨place, -, marked⟩ := scanned
          rw [markOn, Option.map_eq_some_iff] at marked
          obtain ⟨line, there, rfl⟩ := marked
          exact ⟨line, there, rfl⟩
        · cases found

lemma line?_of_search {r : Renderer} {frame : Frame} {mark : ParenMark}
    (search : r.searches frame = true) (found : (r.render frame).2.paren = some mark) :
    ∃ line, r.transcript.line? mark.line = some line ∧ line.styled = mark.plain := by
  obtain ⟨looks, typed⟩ := Bool.and_eq_true_iff.1 search
  obtain ⟨usable, active⟩ := Bool.and_eq_true_iff.1 looks
  rw [paren_render (by simpa using usable) active (by simpa using typed)] at found
  exact line?_of_matchParen (r := { r with lastFrame := frame }) found

end Renderer

/-- What becomes of the lines by a call. -/
def Ledger.record (l : Ledger) (r : Renderer) : Call → Ledger
  | .commitInput text isContinuation => l.add r.transcript.mark (r.inputLine text isContinuation)
  | .appendOutput text isError =>
    l.addAll r.transcript.mark (Transcript.outputLines text isError)
  | .clearScreen => l.clear
  | .rewind mark => l.rewind mark
  | _ => l

namespace Ledger

variable {l : Ledger} {r : Renderer} {e : Added}

lemma count_le_record (l : Ledger) (r : Renderer) (call : Call) :
    l.count ≤ (l.record r call).count := by
  cases call with
  | commitInput text isContinuation => exact Nat.le_succ _
  | appendOutput text isError => exact count_le_addAll _ _ _
  | _ => exact Nat.le_refl _

lemma mem_record {call : Call} (mem : e ∈ (l.record r call).kept) :
    e ∈ l.kept ∨ (l.count ≤ e.order ∧ r.transcript.mark ≤ e.number) := by
  cases call with
  | commitInput text isContinuation =>
    rcases mem_add mem with old | rfl
    · exact .inl old
    · exact .inr ⟨Nat.le_refl _, Nat.le_refl _⟩
  | appendOutput text isError => exact mem_addAll mem
  | clearScreen => cases mem
  | rewind mark => exact .inl (List.mem_of_mem_filter mem)
  | _ => exact .inl mem

lemma Tells.record (h : l.Tells r.transcript) (call : Call) :
    (l.record r call).Tells (r.told call) := by
  cases call with
  | commitInput text isContinuation => exact h.push _
  | appendOutput text isError => exact h.pushAll _
  | clearScreen => exact tells_clear _ _
  | rewind mark => exact h.rewind mark
  | _ => exact h

lemma Tells.mem_of_line? {t : Transcript} (h : l.Tells t) {number : Nat} {line : TranscriptLine}
    (there : t.line? number = some line) : ∃ e ∈ l.kept, e.number = number ∧ e.line = line := by
  have mem : (line, number) ∈ t.numbered := Transcript.mem_zipIdx_iff.2 there
  rw [h.zipIdx] at mem
  obtain ⟨e, isKept, same⟩ := List.mem_map.1 mem
  exact ⟨e, isKept, congrArg Prod.snd same, congrArg Prod.fst same⟩

end Ledger

/-! ### Runs -/

/-- A display, and what became of the lines that it was given. -/
structure Chronicle where
  display : Display
  ledger : Ledger := {}

namespace Chronicle

def new (tokenize : Bytes → StyledLine) (geometry : Geometry) : Chronicle :=
  { display := .new tokenize geometry }

def renderer (c : Chronicle) : Renderer := c.display.renderer

def transcript (c : Chronicle) : Transcript := c.renderer.transcript

/-- How many lines were added. -/
def count (c : Chronicle) : Nat := c.ledger.count

def kept (c : Chronicle) : List Added := c.ledger.kept

def perform (c : Chronicle) (call : Call) : Chronicle where
  display := c.display.perform call
  ledger := c.ledger.record c.renderer call

def run (c : Chronicle) (calls : List Call) : Chronicle := calls.foldl perform c

lemma display_run (c : Chronicle) (calls : List Call) :
    (c.run calls).display = c.display.run calls := by
  induction calls generalizing c with
  | nil => rfl
  | cons call calls ih => exact ih (c.perform call)

variable {c : Chronicle}

lemma transcript_perform (c : Chronicle) (call : Call) :
    (c.perform call).transcript = c.renderer.told call := by
  cases call with
  | setGeometry geometry =>
    exact congrArg Page.transcript (Renderer.page_setGeometry c.renderer geometry)
  | rewind mark => exact c.renderer.transcript_rewind_eq mark
  | setStatus text => exact congrArg Page.transcript (Renderer.page_setStatus c.renderer text)
  | render frame => exact congrArg Page.transcript (Renderer.page_render c.renderer frame)
  | redraw => exact congrArg Page.transcript (Renderer.page_render c.renderer _)
  | _ => rfl

/-- The ledger tells the truth about the transcript. -/
def IsTrue (c : Chronicle) : Prop := c.ledger.Tells c.transcript

lemma isTrue_new (tokenize : Bytes → StyledLine) (geometry : Geometry) :
    (new tokenize geometry).IsTrue := by
  have empty : (new tokenize geometry).transcript = {} := by
    have page := Renderer.page_setGeometry { tokenize } geometry
    exact congrArg Page.transcript page
  unfold IsTrue
  rw [empty]
  exact ⟨rfl, rfl, Nat.zero_le _, List.nil_suffix, fun _ mem => by cases mem⟩

lemma IsTrue.perform (h : c.IsTrue) (call : Call) : (c.perform call).IsTrue := by
  unfold IsTrue
  rw [transcript_perform]
  exact Ledger.Tells.record h call

theorem IsTrue.run (h : c.IsTrue) (calls : List Call) : (c.run calls).IsTrue := by
  induction calls generalizing c with
  | nil => exact h
  | cons call calls ih => exact ih (h.perform call)

/-! ### Old lines -/

/-- A line that has gone never comes back, and one that is still there is the same. -/
theorem mem_of_mem_run {e : Added} {calls : List Call} (mem : e ∈ (c.run calls).kept)
    (old : e.order < c.count) : e ∈ c.kept := by
  induction calls generalizing c with
  | nil => exact mem
  | cons call calls ih =>
    have before : e.order < (c.perform call).count :=
      Nat.lt_of_lt_of_le old (Ledger.count_le_record _ _ call)
    rcases Ledger.mem_record (ih mem before) with kept | ⟨later, -⟩
    · exact kept
    · exact absurd old (Nat.not_lt.2 later)

/-- The lines from a number on are those that were added after the first `count` ones. -/
structure SplitAt (c : Chronicle) (mark count : Nat) : Prop where
  split : ∀ e ∈ c.kept, mark ≤ e.number ↔ count ≤ e.order
  mark_le : mark ≤ c.transcript.mark
  count_le : count ≤ c.count

lemma IsTrue.splitAt (h : c.IsTrue) : c.SplitAt c.transcript.mark c.count where
  split e mem := by
    have number := Ledger.Tells.number_lt h mem
    have order : e.order < c.count := h.earlier e mem
    omega
  mark_le := Nat.le_refl _
  count_le := Nat.le_refl _

lemma SplitAt.perform {mark count : Nat} (h : c.SplitAt mark count) {call : Call}
    (above : ∀ m, call = .rewind m → mark ≤ m) : (c.perform call).SplitAt mark count where
  split e mem := by
    rcases Ledger.mem_record mem with old | ⟨later, beyond⟩
    · exact h.split e old
    · exact iff_of_true (Nat.le_trans h.mark_le beyond) (Nat.le_trans h.count_le later)
  mark_le := by
    rw [transcript_perform]
    exact Renderer.mark_le_told h.mark_le above
  count_le := Nat.le_trans h.count_le (Ledger.count_le_record _ _ call)

theorem SplitAt.run {mark count : Nat} (h : c.SplitAt mark count) {calls : List Call}
    (above : ∀ m, .rewind m ∈ calls → mark ≤ m) : (c.run calls).SplitAt mark count := by
  induction calls generalizing c with
  | nil => exact h
  | cons call calls ih =>
    have here : ∀ m, call = .rewind m → mark ≤ m := by
      rintro m rfl
      exact above m List.mem_cons_self
    exact ih (h.perform here) fun m mem => above m (List.mem_cons_of_mem _ mem)

lemma SplitAt.kept_rewind {mark count : Nat} (h : c.SplitAt mark count) :
    (c.perform (.rewind mark)).kept = c.kept.filter (·.order < count) := by
  refine List.filter_congr fun e mem => ?_
  have split := h.split e mem
  rw [decide_eq_decide]
  omega

/-! ### The highlighted bracket -/

/-- Whether a call makes the renderer look for a bracket to highlight. -/
def searches (c : Chronicle) : Call → Bool
  | .render frame => c.renderer.searches frame
  | .redraw => c.renderer.searches c.renderer.lastFrame
  | _ => false

/-- No call of a run makes the renderer look for a bracket. -/
def IsQuiet : Chronicle → List Call → Prop
  | _, [] => True
  | c, call :: calls => c.searches call = false ∧ IsQuiet (c.perform call) calls

instance decidableIsQuiet : (c : Chronicle) → (calls : List Call) → Decidable (c.IsQuiet calls)
  | _, [] => inferInstanceAs (Decidable True)
  | c, call :: calls =>
    have := decidableIsQuiet (c.perform call) calls
    inferInstanceAs (Decidable (_ ∧ _))

/-- The mark stands on a line that is kept, and what it has for the line's text is its text. -/
def Marks (c : Chronicle) (mark : ParenMark) : Prop :=
  ∃ e ∈ c.kept, e.number = mark.line ∧ e.line.styled = mark.plain

/-- Only a search sets a mark. All other calls take it away, or leave it where it is, together with its
line. -/
lemma IsTrue.paren_perform (h : c.IsTrue) {call : Call} (quiet : c.searches call = false)
    {mark : ParenMark} (marked : (c.perform call).renderer.paren = some mark) :
    c.renderer.paren = some mark ∧
      ∀ e ∈ c.kept, e.number = mark.line → e ∈ (c.perform call).kept := by
  have unseen {r : Renderer} (same : r.paren = c.renderer.paren) (marked : r.paren = some mark) :
      c.renderer.paren = some mark ∧ ∀ e ∈ c.kept, e.number = mark.line → e ∈ c.kept :=
    ⟨same.symm.trans marked, fun _ mem _ => mem⟩
  cases call with
  | setGeometry geometry => exact unseen (c.renderer.paren_setGeometry geometry) marked
  | invalidate => exact unseen rfl marked
  | beginInput isContinuation => exact unseen rfl marked
  | commitInput text isContinuation => cases marked
  | appendOutput text isError =>
    obtain ⟨before, stays⟩ := Option.filter_eq_some_iff.1 marked
    refine ⟨before, fun e mem number => ?_⟩
    rw [decide_eq_true_eq, ← number] at stays
    exact Ledger.Tells.mem_addAll h mem stays
  | clearScreen => cases marked
  | rewind m =>
    change (c.renderer.rewind m).paren = some mark at marked
    unfold Renderer.rewind at marked
    dsimp only at marked
    split at marked
    · rename_i reached
      refine ⟨marked, fun e mem _ => List.mem_filter.2 ⟨mem, ?_⟩⟩
      have above := (h.numbered.lt mem).1
      have below := Ledger.Tells.number_lt h mem
      have reached : c.transcript.mark ≤ max m c.transcript.first := reached
      rw [decide_eq_true_eq]
      omega
    · cases marked
  | setStatus text => exact unseen (c.renderer.paren_setStatus text) marked
  | setSyntax showsTokens => exact unseen rfl marked
  | render frame => exact unseen (Renderer.paren_render_of_quiet quiet) marked
  | redraw => exact unseen (Renderer.paren_render_of_quiet quiet) marked

lemma IsTrue.marks_of_search (h : c.IsTrue) {call : Call} (search : c.searches call = true)
    {mark : ParenMark} (marked : (c.perform call).renderer.paren = some mark) :
    (c.perform call).Marks mark := by
  have found : ∃ line, c.transcript.line? mark.line = some line ∧ line.styled = mark.plain := by
    cases call with
    | render frame => exact Renderer.line?_of_search search marked
    | redraw => exact Renderer.line?_of_search search marked
    | _ => cases search
  obtain ⟨line, there, styled⟩ := found
  obtain ⟨e, mem, number, rfl⟩ := Ledger.Tells.mem_of_line? h there
  refine ⟨e, ?_, number, styled⟩
  cases call with
  | render frame => exact mem
  | redraw => exact mem
  | _ => cases search

lemma IsTrue.marks_perform (h : c.IsTrue)
    (marks : ∀ mark, c.renderer.paren = some mark → c.Marks mark) (call : Call) (mark : ParenMark)
    (marked : (c.perform call).renderer.paren = some mark) : (c.perform call).Marks mark := by
  cases search : c.searches call with
  | true => exact h.marks_of_search search marked
  | false =>
    obtain ⟨before, stays⟩ := h.paren_perform search marked
    obtain ⟨e, mem, number, styled⟩ := marks mark before
    exact ⟨e, stays e mem number, number, styled⟩

theorem IsTrue.marks_run (h : c.IsTrue)
    (marks : ∀ mark, c.renderer.paren = some mark → c.Marks mark) (calls : List Call)
    (mark : ParenMark) (marked : (c.run calls).renderer.paren = some mark) :
    (c.run calls).Marks mark := by
  induction calls generalizing c with
  | nil => exact marks mark marked
  | cons call calls ih => exact ih (h.perform call) (h.marks_perform marks call) marked

theorem IsTrue.paren_run (h : c.IsTrue) {calls : List Call} (quiet : c.IsQuiet calls)
    {mark : ParenMark} (marked : (c.run calls).renderer.paren = some mark) :
    c.renderer.paren = some mark ∧
      ∀ e ∈ c.kept, e.number = mark.line → e ∈ (c.run calls).kept := by
  induction calls generalizing c with
  | nil => exact ⟨marked, fun _ mem _ => mem⟩
  | cons call calls ih =>
    obtain ⟨between, later⟩ := ih (h.perform call) quiet.2 marked
    obtain ⟨before, stays⟩ := h.paren_perform quiet.1 between
    exact ⟨before, fun e mem number => later e (stays e mem number) number⟩

/-- The numbers of the transcript's lines survive whatever a display is asked for. After any calls, and
`more` of them, the lines that are there have the numbers that they got when they were added, and none
has come back. They are the newest of those neither cleared nor rewound, and at most 5000. Rewinding
drops the lines from a number on and keeps the others: with a number that was announced for the next
line, those that were added since, if no rewinding went below it. The mark on a bracket is on the line
on which the bracket was found. -/
theorem numbers_survive (tokenize : Bytes → StyledLine) (geometry : Geometry)
    (calls more : List Call) :
    let c := (new tokenize geometry).run calls
    let c' := c.run more
    c'.transcript.numbered = c'.kept.map (fun e => (e.line, e.number)) ∧
    (∀ e ∈ c'.kept, e.order < c.count → e ∈ c.kept) ∧
    c'.kept.length ≤ 5000 ∧ c'.kept <:+ c'.ledger.standing ∧
    (∀ mark, (c'.perform (.rewind mark)).transcript.numbered =
      c'.transcript.numbered.filter (·.2 < mark)) ∧
    ((∀ mark, .rewind mark ∈ more → c.transcript.mark ≤ mark) →
      (c'.perform (.rewind c.transcript.mark)).kept = c'.kept.filter (·.order < c.count)) ∧
    (∀ mark, c'.renderer.paren = some mark →
      ∃ e ∈ c'.kept, e.number = mark.line ∧ e.line.styled = mark.plain) ∧
    (c.IsQuiet more → ∀ mark, c'.renderer.paren = some mark →
      c.renderer.paren = some mark ∧ ∀ e ∈ c.kept, e.number = mark.line → e ∈ c'.kept) := by
  intro c c'
  have here : c.IsTrue := (isTrue_new tokenize geometry).run calls
  have there : c'.IsTrue := here.run more
  have unmarked : (new tokenize geometry).renderer.paren = none :=
    Renderer.paren_setGeometry { tokenize } geometry
  have marks := (isTrue_new tokenize geometry).marks_run
    (fun mark marked => absurd (unmarked.symm.trans marked) nofun) calls
  refine ⟨there.zipIdx, fun e mem old => mem_of_mem_run mem old, there.bounded, there.newest, ?_, ?_,
    fun mark marked => here.marks_run marks more mark marked,
    fun quiet mark marked => here.paren_run quiet marked⟩
  · intro mark
    have rewound := (there.perform (.rewind mark)).zipIdx
    refine rewound.trans ?_
    change (c'.kept.filter (·.number < mark)).map _ = c'.transcript.numbered.filter (·.2 < mark)
    have numbered : c'.transcript.numbered = c'.kept.map fun e => (e.line, e.number) := there.zipIdx
    rw [numbered, List.filter_map]
    rfl
  · intro above
    exact (here.splitAt.run above).kept_rewind

/-- A pasted line leaves the mark on the bracket in line 1, and so does the output below that line, which
is taken back. -/
theorem numbers_survive_paste :
    let calls : List Call := [.appendOutput (bytes "1") false, .commitInput (bytes "(") false,
      .render { text := bytes ")", cursor := 1, isContinuation := true }]
    let more : List Call := [.appendOutput (bytes "2") false,
      .render { text := bytes ")", isPaste := true }]
    let c := (new (StyledLine.ofText ·) ⟨3, 8⟩).run calls
    let c' := c.run more
    (∃ mark, c'.renderer.paren = some mark ∧ c.renderer.paren = some mark ∧ mark.line = 1) ∧
      c'.kept.map (·.number) = [0, 1, 2] ∧
      (c'.perform (.rewind c.transcript.mark)).kept.map (·.number) = [0, 1] := by
  intro calls more c c'
  obtain ⟨-, -, -, -, -, rewound, -, quiet⟩ :=
    numbers_survive (StyledLine.ofText ·) ⟨3, 8⟩ calls more
  have line : c'.renderer.paren.map (·.line) = some 1 := by decide +kernel
  obtain ⟨mark, marked, line⟩ := Option.map_eq_some_iff.1 line
  refine ⟨⟨mark, marked, (quiet (by decide +kernel) mark marked).1, line⟩, by decide +kernel, ?_⟩
  rw [rewound (by simp [more])]
  decide +kernel

end Chronicle
end CalcShell
